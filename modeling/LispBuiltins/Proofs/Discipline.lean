import LispBuiltins.Proofs.Answers
import LispBuiltins.Proofs.Numerals

namespace LispBuiltins

theorem Diagnostic.render_ne_empty (p : Palette) (d : Diagnostic) : d.render p ≠ "" := by
  simp [render]

-- The text of the diagnostic, with all its codes.
open Palette.paint (codes) in
theorem LiteralError.render_outOfRange (p : Palette) (token : String) :
    (outOfRange token).diagnostic.render p =
      if p.color then
        "\x1b[1m\x1b[31margument error\x1b[39m\x1b[0m: \x1b[31mInteger literal out of range: "
          ++ token ++ "\x1b[39m\n"
      else "argument error: Integer literal out of range: " ++ token ++ "\n" := by
  cases h : p.color
  case false =>
    calc (outOfRange token).diagnostic.render p
      _ = "argument error" ++ ": " ++ ("Integer literal out of range: " ++ token) ++ "\n" ++
          "" := by
        simp only [Diagnostic.render, Palette.paint, h]
        rfl
      _ = "argument error" ++ ": " ++ "Integer literal out of range: " ++ token ++ "\n" := by
        simp only [String.append_assoc, String.append_empty]
      _ = _ := congrArg (· ++ token ++ "\n") rfl
  case true =>
    calc (outOfRange token).diagnostic.render p
      _ = codes [.bold, .red] ++ "argument error" ++ codes [.plainColor, .reset] ++ ": " ++
          (codes [.red] ++ ("Integer literal out of range: " ++ token) ++ codes [.plainColor]) ++
          "\n" ++ "" := by
        simp only [Diagnostic.render, Palette.paint, h]
        rfl
      _ = codes [.bold, .red] ++ "argument error" ++ codes [.plainColor, .reset] ++ ": " ++
          codes [.red] ++ "Integer literal out of range: " ++ token ++
          (codes [.plainColor] ++ "\n") := by
        simp only [String.append_assoc, String.append_empty]
      _ = _ := congrArg₂ (· ++ token ++ ·) rfl rfl

namespace Literal

variable {tokens : List String}

theorem exists_decodeAll_error (h : ∃ t ∈ tokens, OutOfRange t) :
    ∃ e, decodeAll tokens = .error e := by
  have ⟨t, ht, ho⟩ := h
  cases hd : decodeAll tokens
  case error e => exact ⟨e, rfl⟩
  case ok =>
    have ⟨v, hv⟩ := decodeAll_ok hd ht
    cases hv.symm.trans ho.decode_eq

-- Decoding fails on the first token that is out of range.
theorem decodeAll_first (h : decodeAll tokens = .error e) :
    ∃ before token after, tokens = before ++ token :: after ∧
      (∀ t ∈ before, ¬OutOfRange t) ∧ OutOfRange token ∧ e = .outOfRange token := by
  have ⟨before, token, after, hs, hb, ht⟩ := decodeAll_error h
  refine ⟨before, token, after, hs, fun t hm ho => ?_, decode_eq_error_iff.mp ht⟩
  have ⟨v, hv⟩ := hb t hm
  cases hv.symm.trans ho.decode_eq

end Literal

namespace Invocation

open Literal (OutOfRange)

variable {p : Palette} {i j : Invocation} {exit : Exit}

-- The ways that a run can take where nothing hinders it from printing, each with how it ends and what
-- it prints.
inductive Course (p : Palette) (i : Invocation) : Exit → List UInt8 → Prop
  | listing (hl : i.list = true) : Course p i .success (Builtin.listing p)
  | noBuiltin (hl : i.list = false) (hb : i.builtin = none) :
    Course p i { code := 2, stderr := noBuiltin.render p } []
  | undecoded (hl : i.list = false) (hb : i.builtin = some name)
    (hd : Literal.decodeAll i.args = .error e) : Course p i (.failure p e.diagnostic) []
  | report (ha : i.AsksFor name vs) (hj : i.json = true) :
    Course p i { code := if (Builtin.outcomeNamed name vs).isOk then 0 else 1 } (reportLine name vs)
  | value (ha : i.AsksFor name vs) (hj : i.json = false)
    (ho : Builtin.outcomeNamed name vs = .ok v) : Course p i .success v.line
  | failure (ha : i.AsksFor name vs) (hj : i.json = false)
    (ho : Builtin.outcomeNamed name vs = .error e) : Course p i (.failure p e.diagnostic) []

theorem exists_course (p : Palette) (i : Invocation) :
    ∃ exit out, Course p i exit out ∧ Ends (i.run p) exit out := by
  cases hl : i.list
  case true =>
    refine ⟨_, _, .listing hl, ends_of_prints ?_⟩
    simp only [answer, hl]
    exact (Builtin.prints_printAll p).bind_pure _
  case false =>
    cases hb : i.builtin
    case none =>
      refine ⟨_, _, .noBuiltin hl hb, ends_of_silent (r := .ok _) ?_⟩
      simp only [answer, hl, hb]
      exact .pure _
    case some name =>
      cases hd : Literal.decodeAll i.args
      case error => exact ⟨_, _, .undecoded hl hb hd, ends_undecoded hl hb hd⟩
      case ok vs =>
        have ha : i.AsksFor name vs := ⟨hl, hb, hd⟩
        cases hj : i.json
        case true => exact ⟨_, _, .report ha hj, ha.ends_json hj⟩
        case false =>
          cases ho : Builtin.outcomeNamed name vs
          case ok    => exact ⟨_, _, .value ha hj ho, ha.ends_plain_ok hj ho⟩
          case error => exact ⟨_, _, .failure ha hj ho, ha.ends_plain_error hj ho⟩

theorem AsksFor.unique (h : i.AsksFor name vs) (h' : i.AsksFor name' vs') :
    name = name' ∧ vs = vs' :=
  ⟨Option.some.inj <| h.builtin.symm.trans h'.builtin,
    Except.ok.inj <| h.decoded.symm.trans h'.decoded⟩

-- What is asked for is done.
def Succeeds (i : Invocation) : Prop :=
  i.list = true ∨ ∃ name vs v, i.AsksFor name vs ∧ Builtin.outcomeNamed name vs = .ok v

theorem not_succeeds (hl : i.list = false) (h : ∀ name vs, ¬i.AsksFor name vs) : ¬i.Succeeds
  | .inl hs              => nomatch hl.symm.trans hs
  | .inr ⟨_, _, _, ha, _⟩ => h _ _ ha

theorem AsksFor.succeeds_iff (h : i.AsksFor name vs) :
    i.Succeeds ↔ ∃ v, Builtin.outcomeNamed name vs = .ok v := by
  constructor
  case mpr => exact fun ⟨v, ho⟩ => .inr ⟨name, vs, v, h, ho⟩
  case mp =>
    intro hs
    cases hs
    case inl hl => cases hl.symm.trans h.list
    case inr hs =>
      have ⟨_, _, v, h', ho⟩ := hs
      have ⟨hn, hv⟩ := h.unique h'
      exact ⟨v, hn ▸ hv ▸ ho⟩

namespace Course

theorem code_eq_two_iff (h : Course p i exit out) :
    exit.code = 2 ↔ i.list = false ∧ i.builtin = none := by
  cases h
  case listing hl      => simp [Exit.success, hl]
  case noBuiltin hl hb => simp [hl, hb]
  case undecoded hb _  => simp [Exit.failure, hb]
  case report ha _     => split <;> simp [ha.builtin]
  case value ha _ _    => simp [Exit.success, ha.builtin]
  case failure ha _ _  => simp [Exit.failure, ha.builtin]

theorem code_eq_zero_iff (h : Course p i exit out) : exit.code = 0 ↔ i.Succeeds := by
  cases h
  case listing hl => simp [Exit.success, Succeeds, hl]
  case noBuiltin hl hb =>
    simp [not_succeeds hl fun _ _ ha => nomatch hb.symm.trans ha.builtin]
  case undecoded hl _ hd =>
    simp [Exit.failure, not_succeeds hl fun _ _ ha => nomatch hd.symm.trans ha.decoded]
  case report name vs ha _ =>
    rw [ha.succeeds_iff]
    cases Builtin.outcomeNamed name vs <;> simp [Except.isOk, Except.toBool]
  case value ha _ ho   => simp [Exit.success, ha.succeeds_iff, ho]
  case failure ha _ ho => simp [Exit.failure, ha.succeeds_iff, ho]

theorem code_eq_one (h : Course p i exit out) (h₂ : exit.code ≠ 2) (h₀ : exit.code ≠ 0) :
    exit.code = 1 := by
  cases h
  case listing | value     => exact absurd rfl h₀
  case noBuiltin           => exact absurd rfl h₂
  case undecoded | failure => rfl
  case report              => split at h₀ <;> simp_all

-- Only a report is printed also where something failed.
theorem streams (h : Course p i exit out) (hp : i.json = false ∨ i.list = true) :
    (out ≠ [] ↔ exit.code = 0) ∧ (exit.stderr ≠ "" ↔ exit.code ≠ 0) := by
  cases h
  case listing => simp [Exit.success, Builtin.listing_ne_nil]
  case noBuiltin => simp [Diagnostic.render_ne_empty]
  case undecoded | failure => simp [Exit.failure, Diagnostic.render_ne_empty]
  case report ha hj => simp [hj, ha.list] at hp
  case value v _ _ _ => simp [Exit.success, v.line_ne_nil]

theorem of_outOfRange (h : Course p i exit out) (hl : i.list = false) (hb : i.builtin ≠ none)
    (ho : ∃ t ∈ i.args, OutOfRange t) :
    ∃ before token after, i.args = before ++ token :: after ∧
      (∀ t ∈ before, ¬OutOfRange t) ∧ OutOfRange token ∧
      out = [] ∧ exit = .failure p (LiteralError.outOfRange token).diagnostic := by
  have ⟨e, he⟩ := Literal.exists_decodeAll_error ho
  cases h
  case listing h   => cases hl.symm.trans h
  case noBuiltin h => exact absurd h hb
  case undecoded h =>
    have ⟨before, token, after, ha, hb, ho, ht⟩ := Literal.decodeAll_first h
    exact ⟨before, token, after, ha, hb, ho, rfl, congrArg _ <| congrArg _ ht⟩
  case report ha _ | value ha _ _ | failure ha _ _ => cases he.symm.trans ha.decoded

theorem of_asksFor (h : Course p i exit out) (ha : i.AsksFor name vs) :
    if i.json then out = reportLine name vs ∧ exit.stderr = ""
    else match Builtin.outcomeNamed name vs with
      | .ok v    => out = v.line ∧ exit.stderr = ""
      | .error e => out = [] ∧ exit.stderr = e.diagnostic.render p := by
  cases h
  case listing h   => cases ha.list.symm.trans h
  case noBuiltin h => cases ha.builtin.symm.trans h
  case undecoded h => cases ha.decoded.symm.trans h
  case report ha' hj =>
    have ⟨hn, hv⟩ := ha.unique ha'
    simp [hj, hn, hv]
  case value ha' hj ho | failure ha' hj ho =>
    have ⟨hn, hv⟩ := ha.unique ha'
    simp [hj, hn, hv, ho, Exit.success, Exit.failure]

end Course

theorem run_congr (h : i.answer p = j.answer p) : i.run p = j.run p := by
  simp only [run, h]

theorem run_listing (hi : i.list = true) (hj : j.list = true) : i.run p = j.run p :=
  run_congr <| by simp only [answer, hi, hj, if_true]

-- As long as a token stands for no value, it makes no difference which builtin is called and how.
theorem run_outOfRange (hl : i.list = false) (hb : i.builtin ≠ none)
    (ho : ∃ t ∈ i.args, OutOfRange t) (name : String) (json : Bool) :
    { i with builtin := some name, json }.run p = i.run p := by
  have ⟨_, hb⟩ := Option.ne_none_iff_exists'.mp hb
  have ⟨_, hd⟩ := Literal.exists_decodeAll_error ho
  exact run_congr <| by simp only [answer, hl, hb, hd]

-- The code tells what was asked for and whether it was done, a failure is told on the error stream
-- and leaves the output empty unless a report was asked for, and nothing is called before all tokens
-- stand for values.
theorem run_code_and_streams (p : Palette) (i : Invocation) :
    let (exit, sink) := (i.run p).run Sink.unbounded
    (exit.code = 2 ↔ i.list = false ∧ i.builtin = none) ∧
    (exit.code = 0 ↔ i.list = true ∨ ∃ name vs v, i.AsksFor name vs ∧
      Builtin.outcomeNamed name vs = .ok v) ∧
    (exit.code ≠ 2 → exit.code ≠ 0 → exit.code = 1) ∧
    (i.json = false ∨ i.list = true →
      (sink.bytes ≠ [] ↔ exit.code = 0) ∧ (exit.stderr ≠ "" ↔ exit.code ≠ 0)) ∧
    (i.list = true → ∀ j : Invocation, j.list = true → j.run p = i.run p) ∧
    (i.list = false → i.builtin ≠ none → (∃ t ∈ i.args, OutOfRange t) →
      (∃ before token after, i.args = before ++ token :: after ∧
        (∀ t ∈ before, ¬OutOfRange t) ∧ OutOfRange token ∧
        sink.bytes = [] ∧
        exit.stderr =
          if p.color then
            "\x1b[1m\x1b[31margument error\x1b[39m\x1b[0m: \x1b[31mInteger literal out of range: "
              ++ token ++ "\x1b[39m\n"
          else "argument error: Integer literal out of range: " ++ token ++ "\n") ∧
      ∀ name json, { i with builtin := some name, json }.run p = i.run p) ∧
    ∀ name vs, i.AsksFor name vs →
      if i.json then sink.bytes = reportLine name vs ∧ exit.stderr = ""
      else match Builtin.outcomeNamed name vs with
        | .ok v    => sink.bytes = v.line ∧ exit.stderr = ""
        | .error e => sink.bytes = [] ∧ exit.stderr = e.diagnostic.render p := by
  obtain ⟨exit, out, hc, he⟩ := exists_course p i
  obtain ⟨sink, hr, rfl⟩ := he.run_eq
  rw [hr]
  refine ⟨hc.code_eq_two_iff, hc.code_eq_zero_iff, hc.code_eq_one, hc.streams,
    fun hl _ hj => run_listing hj hl, fun hl hb ho => ⟨?_, run_outOfRange hl hb ho⟩,
    fun _ _ => hc.of_asksFor⟩
  obtain ⟨before, token, after, ha, hb, ht, hs, he⟩ := hc.of_outOfRange hl hb ho
  exact ⟨before, token, after, ha, hb, ht, hs,
    (congrArg Exit.stderr he).trans <| LiteralError.render_outOfRange p token⟩

end Invocation
end LispBuiltins
