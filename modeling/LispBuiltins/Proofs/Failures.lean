import LispBuiltins.Proofs.Expression

namespace LispBuiltins

open Printing

-- The fault that keeps a stream from taking a line, at the write or else at the flush after it.
inductive Stream.Rejects [Stream σ] (s : σ) (line : List UInt8) : Fault → Prop
  | write (h : (Stream.writeAll s line).fst = .error f) : Rejects s line f
  | flush (hw : (Stream.writeAll s line).fst = .ok ())
    (h : (Stream.flush (Stream.writeAll s line).snd).fst = .error f) : Rejects s line f

namespace Value

theorem run_print_fst [Stream σ] (v : Value) (s : σ) :
    (v.print.run s).fst =
      match (Stream.writeAll s v.line).fst with
      | .error f => .error (.output f.text)
      | .ok ()   =>
        match (Stream.flush (Stream.writeAll s v.line).snd).fst with
        | .error f => .error (.output f.text)
        | .ok ()   => .ok v := by
  simp only [print, run_bind, write, Printing.flush, run_ofStream, line]
  cases (Stream.writeAll s (Utf8.encode (v.render ++ "\n"))).fst
  case error => rfl
  case ok =>
    simp only [Except.mapError]
    cases (Stream.flush (Stream.writeAll s (Utf8.encode (v.render ++ "\n"))).snd).fst <;> rfl

-- A line is printed, or else the fault is reported that keeps it from being printed.
theorem run_print_eq_error_iff [Stream σ] {v : Value} {s : σ} :
    (v.print.run s).fst = .error e ↔ ∃ f, Stream.Rejects s v.line f ∧ e = .output f.text := by
  rw [run_print_fst]
  constructor
  case mp =>
    intro h
    split at h
    case h_1 f hw =>
      cases h
      exact ⟨f, .write hw, rfl⟩
    case h_2 hw =>
      split at h
      case h_1 f hf =>
        cases h
        exact ⟨f, .flush hw hf, rfl⟩
      case h_2 => cases h
  case mpr =>
    rintro ⟨f, hf, rfl⟩
    cases hf
    case write h    => simp only [h]
    case flush hw h => simp only [hw, h]

theorem expectInteger_misfit {v : Value} (h : v.kind ≠ .integer) (operation : String) (k : Nat) :
    v.expectInteger operation k = .error (.wrongKind operation k .integer v.kind) := by
  cases v
  case integer      => exact absurd rfl h
  case string | nil => rfl

-- The operands are looked at from left to right, up to the first one that is no integer.
theorem operands_first_misfit (operation : String) (h : [x, y] = before ++ v :: after)
    (hi : ∀ u ∈ before, u.kind = .integer) (hv : v.kind ≠ .integer) :
    operands operation x y =
      .error (.wrongKind operation (before.length + 1) .integer v.kind) := by
  match before, h with
  | [], h =>
    cases h
    simp only [operands, expectInteger_misfit hv]
    rfl
  | [u], h =>
    cases h
    have ⟨n, hn⟩ := eq_integer <| hi x List.mem_cons_self
    simp only [operands, hn, expectInteger_misfit hv]
    rfl
  | _ :: _ :: _, h => simp at h

end Value

namespace Builtin

def GoesBy (b : Builtin) (name : String) : Prop :=
  name = b.name ∨ name = b.altName

-- Why a builtin does nothing with its arguments:
-- (1) There are too many or too few of them.
-- (2) It takes only integers, and the first argument that is none is `v`.
-- (3) The divisor is zero.
-- (4) The integer is no truth value.
inductive Refuses : Builtin → List Value → CallError → Prop
  | arity (h : args.length ≠ b.arity) : Refuses b args (.wrongArity b.name b.arity args.length)
  | kind (hi : ∀ u ∈ before, u.kind = .integer) (hv : v.kind ≠ .integer)
    (hl : (before ++ v :: after).length = b.arity) (he : b ≠ equal) (hp : b ≠ println) :
    Refuses b (before ++ v :: after) (.wrongKind b.name (before.length + 1) .integer v.kind)
  | divisor : Refuses divide [.integer n, .integer 0] (.divisionByZero n)
  | truth (h₀ : n ≠ 0) (h₁ : n ≠ 1) : Refuses checkBoolean [.integer n] (.notBoolean n)

-- Why a call by name fails.
inductive Fails [Stream σ] (name : String) (args : List Value) (s : σ) : CallError → Prop
  | unknown (h : ∀ b : Builtin, ¬b.GoesBy name) : Fails name args s (.unknownBuiltin name)
  | refused (b : Builtin) (hb : b.GoesBy name) (h : b.Refuses args e) : Fails name args s e
  | output (hb : println.GoesBy name) (ha : args = [v]) (h : Stream.Rejects s v.line f) :
    Fails name args s (.output f.text)

variable {σ : Type} [Stream σ] {s : σ}
variable {b : Builtin} {name : String} {args : List Value} {v x y : Value} {e : CallError}

theorem ofName?_eq_some_iff : ofName? name = some b ↔ b.GoesBy name := by
  constructor
  case mpr => exact b.ofName?_spelling
  case mp =>
    intro h
    have := List.find?_some h
    simp only [Bool.or_eq_true, beq_iff_eq] at this
    exact this.imp .symm .symm

theorem ofName?_eq_none_iff : ofName? name = none ↔ ∀ b : Builtin, ¬b.GoesBy name := by
  simp only [Option.eq_none_iff_forall_ne_some, ne_eq, ofName?_eq_some_iff]

theorem silent_call_of_operands (hb : b.arity = 2) (he : b ≠ equal)
    (h : Value.operands b.name x y = .error e) :
    Silent (b.call [x, y] : PrintingTo σ Value) (.error e) := by
  have ⟨f, hf⟩ := exists_call_eq_operands hb he
  rw [hf, h]
  exact .lift (.error e)

namespace Refuses

-- An argument that is printed is never refused.
theorem printed?_eq_none (h : b.Refuses args e) : b.printed? args = none := by
  refine Option.eq_none_iff_forall_ne_some.mpr fun v hv => ?_
  have ⟨hb, ha⟩ := printed?_eq_some_iff.mp hv
  cases h
  case arity hl        => exact hl (hb ▸ ha ▸ rfl)
  case kind hp         => exact hp hb
  case divisor | truth => cases hb

theorem silent_call (h : b.Refuses args e) :
    Silent (b.call args : PrintingTo σ Value) (.error e) := by
  cases h
  case arity hl => exact silent_call_of_length_ne hl
  case kind before v after hi hv hl he hp =>
    cases b
    case equal   => exact absurd rfl he
    case println => exact absurd rfl hp
    case checkBoolean =>
      obtain ⟨u, h⟩ := List.length_eq_one_iff.mp hl
      obtain ⟨rfl, h⟩ | ⟨_, h⟩ := List.append_eq_singleton_iff.mp h <;> cases h
      have hc : v.checkBoolean = .error (.wrongKind checkBoolean.name 1 .integer v.kind) := by
        rw [checkBoolean_eq, Value.expectInteger_misfit hv]
        rfl
      have hs := silent_call_checkBoolean σ v
      rwa [hc] at hs
    all_goals
      obtain ⟨x, y, h⟩ := List.length_eq_two.mp hl
      rw [h]
      exact silent_call_of_operands rfl he <| Value.operands_first_misfit _ h.symm hi hv
  case divisor n     => exact silent_divide σ n 0
  case truth n h₀ h₁ => simpa [h₀, h₁] using silent_checkBoolean σ n

end Refuses

theorem exists_refuses_or_ok_of_integers (hp : b ≠ println) (hl : args.length = b.arity)
    (hi : ∀ v ∈ args, v.kind = .integer) :
    (∃ e, b.Refuses args e) ∨ ∃ v, Silent (b.call args : Printing Value) (.ok v) := by
  cases b
  case println => exact absurd rfl hp
  case checkBoolean =>
    obtain ⟨v, rfl⟩ := List.length_eq_one_iff.mp hl
    obtain ⟨n, rfl⟩ := Value.eq_integer <| hi v List.mem_cons_self
    have h := silent_checkBoolean Sink n
    split at h
    case isTrue     => exact .inr ⟨_, h⟩
    case isFalse hn => exact .inl ⟨_, .truth (hn <| .inl ·) (hn <| .inr ·)⟩
  all_goals obtain ⟨m, n, rfl⟩ := Value.eq_integers hl hi
  case divide =>
    have h := silent_divide Sink m n
    split at h
    case isTrue hn => exact .inl ⟨_, hn ▸ Refuses.divisor⟩
    case isFalse   => exact .inr ⟨_, h⟩
  case equal => exact .inr ⟨_, .pure _⟩
  all_goals exact .inr ⟨_, .lift _⟩

-- A call that does not print has a value, unless its arguments are refused.
theorem exists_refuses_or_ok (h : b.printed? args = none) :
    (∃ e, b.Refuses args e) ∨ ∃ v, Silent (b.call args : Printing Value) (.ok v) := by
  by_cases hl : args.length = b.arity
  case neg => exact .inl ⟨_, .arity hl⟩
  by_cases hp : b = println
  case pos =>
    subst hp
    obtain ⟨v, rfl⟩ := List.length_eq_one_iff.mp hl
    cases h
  by_cases he : b = equal
  case pos =>
    subst he
    obtain ⟨x, y, rfl⟩ := List.length_eq_two.mp hl
    exact .inr ⟨_, .pure _⟩
  cases hf : args.find? (·.kind ≠ .integer)
  case none =>
    have hi : ∀ v ∈ args, v.kind = .integer := by simpa using hf
    exact exists_refuses_or_ok_of_integers hp hl hi
  case some v =>
    have ⟨hv, before, after, ha, hi⟩ := List.find?_eq_some_iff_append.mp hf
    subst ha
    exact .inl ⟨_, .kind (by simpa using hi) (by simpa using hv) hl he hp⟩

theorem outcome_eq_error_iff (h : b.printed? args = none) :
    b.outcome args = .error e ↔ b.Refuses args e := by
  have ho {r} (hr : Silent (b.call args) r) : b.outcome args = r := hr.run_unbounded.left
  constructor
  case mpr => exact fun hr => ho hr.silent_call
  case mp =>
    intro he
    obtain ⟨e', hr⟩ | ⟨v, hv⟩ := exists_refuses_or_ok h
    case inl => exact Except.error.inj (ho hr.silent_call |>.symm.trans he) ▸ hr
    case inr => cases (ho hv).symm.trans he

-- Only printing depends on the stream, and can fail where the arguments are not refused.
theorem call_eq_error_iff :
    ((b.call args).run s).fst = .error e ↔
      b.Refuses args e ∨
        ∃ v f, b = println ∧ args = [v] ∧ Stream.Rejects s v.line f ∧ e = .output f.text := by
  cases hp : b.printed? args
  case none =>
    rw [silent_call hp s, outcome_eq_error_iff hp]
    refine ⟨.inl, (·.resolve_right fun ⟨v, _, hb, ha, _⟩ => ?_)⟩
    cases (printed?_eq_some_iff.mpr ⟨hb, ha⟩).symm.trans hp
  case some v =>
    have ⟨hb, ha⟩ := printed?_eq_some_iff.mp hp
    rw [call_eq_print hp, Value.run_print_eq_error_iff]
    constructor
    case mp => exact fun ⟨f, hf, he⟩ => .inr ⟨v, f, hb, ha, hf, he⟩
    case mpr =>
      rintro (h | ⟨_, f, _, ha', hf, he⟩)
      · cases h.printed?_eq_none.symm.trans hp
      · cases ha.symm.trans ha'
        exact ⟨f, hf, he⟩

theorem call_untouched (h : ((b.call args).run s).fst = .error e) (ho : ∀ text, e ≠ .output text) :
    ((b.call args).run s).snd = s := by
  obtain hr | ⟨_, f, _, _, _, he⟩ := call_eq_error_iff.mp h
  case inl => rw [hr.silent_call s]
  case inr => exact absurd he <| ho f.text

theorem GoesBy.callNamed_eq (h : b.GoesBy name) (args : List Value) :
    (callNamed name args : PrintingTo σ Value) = b.call args :=
  callNamed_eq_call args <| ofName?_eq_some_iff.mpr h

theorem Fails.callNamed_eq (h : Fails name args s e) :
    ((callNamed name args).run s).fst = .error e := by
  cases h
  case unknown h => rw [silent_callNamed_unknown args (ofName?_eq_none_iff.mpr h) s]
  case refused hb h =>
    rw [hb.callNamed_eq]
    exact call_eq_error_iff.mpr <| .inl h
  case output hb ha hr =>
    rw [hb.callNamed_eq]
    exact call_eq_error_iff.mpr <| .inr ⟨_, _, rfl, ha, hr, rfl⟩

theorem fails_of_callNamed (h : ((callNamed name args).run s).fst = .error e) :
    Fails name args s e := by
  cases hn : ofName? name
  case none =>
    rw [silent_callNamed_unknown args hn s] at h
    cases h
    exact .unknown <| ofName?_eq_none_iff.mp hn
  case some b =>
    have hb := ofName?_eq_some_iff.mp hn
    rw [hb.callNamed_eq] at h
    obtain h | ⟨v, f, rfl, ha, hr, rfl⟩ := call_eq_error_iff.mp h
    case inl => exact .refused b hb h
    case inr => exact .output hb ha hr

theorem callNamed_eq_error_iff :
    ((callNamed name args).run s).fst = .error e ↔ Fails name args s e :=
  ⟨fails_of_callNamed, Fails.callNamed_eq⟩

theorem exists_callNamed_eq_ok_iff :
    (∃ v, ((callNamed name args).run s).fst = .ok v) ↔ ∀ e, ¬Fails name args s e := by
  simp only [← callNamed_eq_error_iff]
  cases ((callNamed name args).run s).fst <;> simp

theorem callNamed_untouched (h : ((callNamed name args).run s).fst = .error e)
    (ho : ∀ text, e ≠ .output text) : ((callNamed name args).run s).snd = s := by
  cases hn : ofName? name
  case none => rw [silent_callNamed_unknown args hn s]
  case some b =>
    rw [callNamed_eq_call args hn] at h ⊢
    exact call_untouched h ho

-- A call by name fails for exactly one reason, of those above, or else it succeeds. Unless it fails
-- at printing, it leaves the stream as it was. With as many arguments as the builtin takes, it does
-- what the builtin does with them.
theorem callNamed_fails_exactly (name : String) (args : List Value) (s : σ) :
    let (outcome, stream) := (callNamed name args).run s
    (∀ e, outcome = .error e ↔ Fails name args s e) ∧
    ((∃ v, outcome = .ok v) ↔ ∀ e, ¬Fails name args s e) ∧
    (∀ e, outcome = .error e → (∀ text, e ≠ .output text) → stream = s) ∧
    ∀ b : Builtin, b.GoesBy name → ∀ h : args.length = b.arity,
      (callNamed name args : PrintingTo σ Value) = b.operate args h :=
  ⟨fun _ => callNamed_eq_error_iff, exists_callNamed_eq_ok_iff, fun _ => callNamed_untouched,
    fun _ hb h => (hb.callNamed_eq args).trans <| call_eq_operate h⟩

end Builtin
end LispBuiltins
