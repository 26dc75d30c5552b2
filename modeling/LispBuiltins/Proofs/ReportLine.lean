import LispBuiltins.Proofs.Answers
import LispBuiltins.Proofs.JsonReader

namespace LispBuiltins

namespace Json

-- No control character is written as it is.
def Printable (cs : List Char) : Prop :=
  ∀ c ∈ cs, 0x20 ≤ c.toNat

@[simp]
theorem printable_nil : Printable [] :=
  nofun

@[simp]
theorem printable_cons : Printable (c :: cs) ↔ 0x20 ≤ c.toNat ∧ Printable cs :=
  List.forall_mem_cons

@[simp]
theorem printable_append : Printable (cs ++ cs') ↔ Printable cs ∧ Printable cs' :=
  List.forall_mem_append

theorem printable_digitChar (h : d < 16) : 0x20 ≤ d.digitChar.toNat := by
  have hd : ∀ d : Fin 16, 0x20 ≤ d.val.digitChar.toNat := by decide
  exact hd ⟨d, h⟩

theorem printable_escape (c : Char) : Printable (escape c) := by
  unfold escape
  split
  case h_8 =>
    split
    case isFalse h => simpa using h
    case isTrue h =>
      have hh := printable_digitChar (d := c.toNat / 16) (by omega)
      have hl := printable_digitChar (d := c.toNat % 16) (by omega)
      simp [hh, hl]
  all_goals simp

theorem printable_quote (text : String) : Printable (quote text) := by
  have h : Printable (text.toList.flatMap escape) := by
    intro c hc
    have ⟨d, _, hd⟩ := List.mem_flatMap.mp hc
    exact printable_escape d c hd
  simp [quote, h]

theorem printable_toDigits (n : Nat) : Printable (Nat.toDigits 10 n) := by
  intro c hc
  have h := Literal.isDigit_of_mem_toDigits hc
  simp only [Char.isDigit, ge_iff_le, Bool.and_eq_true, decide_eq_true_eq,
    UInt32.le_iff_toNat_le] at h
  have : 48 ≤ c.toNat := h.left
  omega

theorem printable_repr : (n : Int) → Printable n.repr.toList
  | .ofNat n   => Literal.toList_repr_ofNat n ▸ printable_toDigits n
  | .negSucc n => by simp [Literal.toList_repr_negSucc, printable_toDigits]

mutual

theorem printable_chars : (j : Json) → Printable j.chars
  | null => by simp [chars]
  | number n => by simp [chars, printable_repr]
  | string text => by simp [chars, printable_quote]
  | array [] | object [] => by simp [chars]
  | array (j :: js) => by simp [chars, printable_chars j, printable_itemChars js]
  | object ((key, j) :: ms) => by
    simp [chars, printable_quote, printable_chars j, printable_memberChars ms]

theorem printable_itemChars : (js : List Json) → Printable (itemChars js)
  | []      => by simp [itemChars]
  | j :: js => by simp [itemChars, printable_chars j, printable_itemChars js]

theorem printable_memberChars : (ms : List (String × Json)) → Printable (memberChars ms)
  | []             => by simp [memberChars]
  | (key, j) :: ms => by
    simp [memberChars, printable_quote, printable_chars j, printable_memberChars ms]

end

theorem le_of_mem_encode_render (j : Json) (h : b ∈ Utf8.encode j.render) : 0x20 ≤ b := by
  have ⟨c, hc, hb⟩ := List.mem_flatMap.mp h
  rw [render_eq, String.toList_ofList] at hc
  have hc := j.printable_chars c hc
  have hb := Utf8.mem_utf8EncodeChar hb
  rw [UInt8.le_iff_toNat_le]
  simp
  omega

end Json

theorem Value.json_eq :
    json = fun
      | integer n   => .number n.toInt
      | string text => .string text
      | nil         => .null := by
  funext v
  cases v <;> rfl

-- Values of different kinds differ in the report too.
theorem Value.json_injective {v w : Value} (h : v.json = w.json) : v = w := by
  cases v <;> cases w <;> simp only [json, Json.number.injEq, Json.string.injEq, reduceCtorEq] at h
  case integer.integer => exact congrArg integer <| Int64.toInt_inj.mp h
  case string.string   => exact congrArg string h
  case nil.nil         => rfl

namespace Report

variable {name : String} {args : List Value}

theorem json_injective {r r' : Report} (h : r.json = r'.json) :
    r.builtin = r'.builtin ∧ r.args = r'.args := by
  simp only [json, List.cons_append, Json.object.injEq, List.cons.injEq, Prod.mk.injEq, true_and,
    Json.string.injEq, Json.array.injEq] at h
  exact ⟨h.left, (List.map_inj_right fun _ _ => Value.json_injective).mp h.right.left⟩

-- What was printed stands in the report of a call that printed it, and nowhere else.
theorem ofCall_json (name : String) (args : List Value) :
    (ofCall name args).json = .object (
      [("builtin", .string name), ("args", .array (args.map Value.json))] ++
      match Builtin.outcomeNamed name args with
      | .ok v =>
        (if Builtin.ofName? name = some .println then [("output", .string (v.render ++ "\n"))]
          else []) ++ [("result", v.json)]
      | .error e =>
        [("error", .object [("kind", .string e.name), ("message", .string e.message)])]) := by
  cases hp : Builtin.printedNamed? name args
  case some v =>
    have hn := (Builtin.printedNamed?_eq_some_iff.mp hp).left
    simp [ofCall_print hp, Builtin.outcomeNamed_eq_ok hp, hn, json, outcomeMember]
  case none =>
    cases ho : Builtin.outcomeNamed name args
    case error e => simp [ofCall_silent hp, ho, json, outcomeMember]
    case ok v =>
      have hn := Builtin.ofName?_ne_println hp ho
      simp [ofCall_silent hp, ho, hn, json, outcomeMember]

end Report

namespace Invocation

theorem reportLine_injective {args args' : List Value}
    (h : reportLine name args = reportLine name' args') : name = name' ∧ args = args' := by
  simp only [reportLine, Utf8.encode_append, List.append_left_inj] at h
  exact Report.json_injective <| Json.render_injective <| Utf8.encode_injective h

-- The line is read as the report that it was written for.
theorem exists_reportLine_eq (name : String) (args : List Value) :
    ∃ text, reportLine name args = Utf8.encode text ++ [0x0A] ∧
      (∀ b ∈ Utf8.encode text, 0x20 ≤ b) ∧ Json.read? text = some (Report.ofCall name args).json :=
  ⟨_, Utf8.encode_append _ "\n", fun _ => Json.le_of_mem_encode_render _, Json.read?_render _⟩

-- A report is one line, from which the call and what came of it can be read.
theorem run_report_lossless (p : Palette) (name : String) (tokens : List String) (noColor : Bool)
    (args : List Value) (hd : Literal.decodeAll tokens = .ok args) :
    let i : Invocation := { builtin := name, args := tokens, json := true, noColor }
    let value : Value → Json
      | .integer n   => .number n.toInt
      | .string text => .string text
      | .nil         => .null
    let out := ((i.run p).run Sink.unbounded).snd.bytes
    (∃ text,
      out = Utf8.encode text ++ [0x0A] ∧ (∀ b ∈ Utf8.encode text, 0x20 ≤ b) ∧
      Json.read? text = some (.object (
        [("builtin", .string name), ("args", .array (args.map value))] ++
        match Builtin.outcomeNamed name args with
        | .ok v =>
          (if Builtin.ofName? name = some .println then [("output", .string (v.render ++ "\n"))]
            else []) ++ [("result", value v)]
        | .error e =>
          [("error", .object [("kind", .string e.name), ("message", .string e.message)])]))) ∧
    ∀ (p' : Palette) (name' : String) (tokens' : List String) (noColor' : Bool)
      (args' : List Value), Literal.decodeAll tokens' = .ok args' →
      let i' : Invocation := { builtin := name', args := tokens', json := true, noColor := noColor' }
      ((i'.run p').run Sink.unbounded).snd.bytes = out → name' = name ∧ args' = args := by
  intro i value out
  have hv : value = Value.json := Value.json_eq.symm
  have hi : i.AsksFor name args := ⟨rfl, rfl, hd⟩
  have ho : out = reportLine name args := (hi.ends_json (p := p) rfl).bytes
  constructor
  case left =>
    rw [ho, hv, ← Report.ofCall_json]
    exact exists_reportLine_eq name args
  case right =>
    intro p' name' tokens' noColor' args' hd' i' he
    have hi' : i'.AsksFor name' args' := ⟨rfl, rfl, hd'⟩
    rw [(hi'.ends_json (p := p') rfl).bytes, ho] at he
    exact reportLine_injective he

theorem run_report_lossless_newline :
    let i : Invocation := { builtin := "println", args := ["\"5\n\""], json := true }
    Literal.decodeAll i.args = .ok [.string "5\n"] ∧
    ∃ text,
      ((i.run ⟨true⟩).run Sink.unbounded).snd.bytes = Utf8.encode text ++ [0x0A] ∧
      (∀ b ∈ Utf8.encode text, 0x20 ≤ b) ∧
      Json.read? text = some (.object [
        ("builtin", .string "println"), ("args", .array [.string "5\n"]),
        ("output", .string "5\n\n"), ("result", .string "5\n")]) := by
  have h := run_report_lossless ⟨true⟩ "println" ["\"5\n\""] false [.string "5\n"] rfl
  have ho : Builtin.outcomeNamed "println" [.string "5\n"] = .ok (.string "5\n") :=
    Builtin.outcomeNamed_eq_ok rfl
  simp only [ho] at h
  exact ⟨rfl, h.left⟩

end Invocation
end LispBuiltins
