import Mathlib.Data.List.Basic
import LispBuiltins.Proofs.Emission

namespace LispBuiltins

open Printing

theorem Printing.Prints.run_unbounded {m : Printing α} (h : Prints m out a) :
    (m.run Sink.unbounded).fst = .ok a ∧ (m.run Sink.unbounded).snd.bytes = out := by
  have hs := Sink.received_sink { }
  have hf : Device.Fits { } ([] ++ out) := by simp [Device.Fits, Device.capacity]
  exact ⟨(h.result hs).trans <| if_pos ⟨hf, rfl⟩, (h.received hs).bytes.trans hf.kept_eq⟩

theorem Printing.Silent.run_unbounded {m : Printing α} (h : Silent m r) :
    (m.run Sink.unbounded).fst = r ∧ (m.run Sink.unbounded).snd.bytes = [] :=
  h Sink.unbounded ▸ ⟨rfl, rfl⟩

-- What a computation can do to a sink: nothing at all, or print once.
inductive Printing.Conduct (m : Printing α) : Prop where
  | silent (h : Silent m r)
  | prints (h : Prints m out a)

namespace Value

-- The line that printing a value takes.
def line (v : Value) : List UInt8 :=
  Utf8.encode (v.render ++ "\n")

theorem line_eq (v : Value) : v.line = Utf8.encode v.render ++ Utf8.encode "\n" :=
  Utf8.encode_append ..

theorem line_ne_nil (v : Value) : v.line ≠ [] :=
  v.line_eq ▸ List.append_ne_nil_of_right_ne_nil _ (nomatch ·)

theorem prints_print (v : Value) : Prints v.print v.line v := by
  unfold print
  simp only [← bind_assoc (x := write _)]
  exact (Sends.write _).flush v.line_ne_nil |>.bind_pure v

end Value

namespace Builtin

variable {σ : Type} [Stream σ] {b : Builtin} {name : String} {args : List Value} {v : Value}

theorem call_eq_operate (h : args.length = b.arity) :
    (b.call args : PrintingTo σ Value) = b.operate args h :=
  dif_pos h

theorem silent_call_of_length_ne (h : args.length ≠ b.arity) :
    Silent (b.call args : PrintingTo σ Value)
      (.error (.wrongArity b.name b.arity args.length)) := by
  rw [call, dif_neg h]
  exact .throw _

-- The texts by which the operations name themselves are the names of their builtins.
theorem exists_call_eq_operands (hb : b.arity = 2) (he : b ≠ equal) :
    ∃ f : Int64 × Int64 → Except CallError Value, ∀ (σ : Type) [Stream σ] (x y : Value),
      (b.call [x, y] : PrintingTo σ Value) = liftM (Value.operands b.name x y >>= f) := by
  cases b
  case equal                  => exact absurd rfl he
  case println | checkBoolean => cases hb
  all_goals exact ⟨_, fun _ _ _ _ => rfl⟩

theorem checkBoolean_eq (v : Value) :
    v.checkBoolean = (do
      let n ← v.expectInteger checkBoolean.name 1
      if n = 0 ∨ n = 1 then return n else throw (.notBoolean n)) :=
  rfl

theorem silent_call_checkBoolean (σ : Type) [Stream σ] (v : Value) :
    Silent (checkBoolean.call [v] : PrintingTo σ Value) (v.checkBoolean.map Value.integer) :=
  .lift_map _ _

-- The value that a call prints. Only `println` prints, and only if it has exactly one argument.
def printed? : Builtin → List Value → Option Value
  | println, [v] => some v
  | _, _         => none

-- What comes of a call where printing does not fail.
def outcome (b : Builtin) (args : List Value) : Except CallError Value :=
  ((b.call args).run Sink.unbounded).fst

theorem printed?_eq_some_iff : b.printed? args = some v ↔ b = println ∧ args = [v] := by
  unfold printed?
  split <;> simp_all

theorem call_eq_print (h : b.printed? args = some v) :
    (b.call args : PrintingTo σ Value) = v.print := by
  have ⟨hb, ha⟩ := printed?_eq_some_iff.mp h
  rw [hb, ha]
  rfl

theorem outcome_eq_ok (h : b.printed? args = some v) : b.outcome args = .ok v := by
  simp only [outcome, call_eq_print h, v.prints_print.run_unbounded]

-- Without printing, a call ends in the same way over every stream.
theorem exists_silent_call (h : b.printed? args = none) :
    ∃ r, ∀ (σ : Type) [Stream σ], Silent (b.call args : PrintingTo σ Value) r := by
  by_cases hl : args.length = b.arity
  case neg => exact ⟨_, fun _ _ => silent_call_of_length_ne hl⟩
  cases b
  case println =>
    obtain ⟨v, rfl⟩ := List.length_eq_one_iff.mp hl
    cases h
  case checkBoolean =>
    obtain ⟨v, rfl⟩ := List.length_eq_one_iff.mp hl
    exact ⟨_, fun σ _ => silent_call_checkBoolean σ v⟩
  all_goals obtain ⟨x, y, rfl⟩ := List.length_eq_two.mp hl
  case equal => exact ⟨_, fun _ _ => .pure _⟩
  all_goals exact ⟨_, fun _ _ => .lift _⟩

theorem silent_call (h : b.printed? args = none) :
    Silent (b.call args : PrintingTo σ Value) (b.outcome args) := by
  have ⟨r, hr⟩ := exists_silent_call h
  rw [outcome, (hr Sink).run_unbounded.left]
  exact hr σ

-- If `println` does not print, then it fails.
theorem ne_println (hp : b.printed? args = none) (ho : b.outcome args = .ok v) : b ≠ println := by
  rintro rfl
  match args with
  | []          => cases ho
  | [_]         => cases hp
  | _ :: _ :: _ => cases ho

-- Only a call that prints has to be handed the stream.
theorem callShared_eq_call (b : Builtin) (args : List Value) :
    (b.callShared args : PrintingTo σ Value) = b.call args := by
  unfold callShared
  split
  case h_1 => rfl
  case h_2 hb =>
    have hp : b.printed? args = none :=
      Option.eq_none_iff_forall_ne_some.mpr fun v hv => hb (printed?_eq_some_iff.mp hv).left
    funext s
    exact (silent_call hp s).symm

theorem callNamedShared_eq_callNamed (name : String) (args : List Value) :
    (callNamedShared name args : PrintingTo σ Value) = callNamed name args := by
  simp only [callNamedShared, callNamed, callShared_eq_call]

-- A builtin is found by each of its two names.
theorem ofName?_spelling (b : Builtin) (hw : w = b.name ∨ w = b.altName) : ofName? w = some b := by
  rcases hw with rfl | rfl <;> cases b <;> decide

omit [Stream σ] in
theorem lookup_bind (h : ofName? name = some b) (f : Builtin → PrintingTo σ α) :
    liftM (lookup name) >>= f = f b := by
  simp only [lookup, h]
  exact (Silent.lift (.ok b)).bind_ok f

omit [Stream σ] in
theorem silent_lookup_bind (h : ofName? name = none) (f : Builtin → PrintingTo σ α) :
    Silent (liftM (lookup name) >>= f) (.error (.unknownBuiltin name)) := by
  simp only [lookup, h]
  exact (Silent.lift (.error _)).bind_error f

theorem callNamed_eq_call (args : List Value) (h : ofName? name = some b) :
    (callNamed name args : PrintingTo σ Value) = b.call args :=
  lookup_bind h _

def printedNamed? (name : String) (args : List Value) : Option Value :=
  (ofName? name).bind (·.printed? args)

def outcomeNamed (name : String) (args : List Value) : Except CallError Value :=
  ((callNamed name args).run Sink.unbounded).fst

theorem printedNamed?_eq_some_iff :
    printedNamed? name args = some v ↔ ofName? name = some println ∧ args = [v] := by
  simp only [printedNamed?, Option.bind_eq_some_iff, printed?_eq_some_iff]
  constructor
  case mp  => rintro ⟨_, hb, rfl, ha⟩; exact ⟨hb, ha⟩
  case mpr => exact fun ⟨hb, ha⟩ => ⟨_, hb, rfl, ha⟩

theorem outcomeNamed_eq_outcome (args : List Value) (h : ofName? name = some b) :
    outcomeNamed name args = b.outcome args := by
  simp only [outcomeNamed, callNamed_eq_call args h, outcome]

theorem silent_callNamed_unknown (args : List Value) (h : ofName? name = none) :
    Silent (callNamed name args : PrintingTo σ Value) (.error (.unknownBuiltin name)) :=
  silent_lookup_bind h _

theorem outcomeNamed_unknown (args : List Value) (h : ofName? name = none) :
    outcomeNamed name args = .error (.unknownBuiltin name) :=
  (silent_callNamed_unknown args h).run_unbounded.left

theorem callNamed_eq_print (h : printedNamed? name args = some v) :
    (callNamed name args : PrintingTo σ Value) = v.print := by
  have ⟨_, hb, hp⟩ := Option.bind_eq_some_iff.mp h
  simp only [callNamed_eq_call args hb, call_eq_print hp]

theorem outcomeNamed_eq_ok (h : printedNamed? name args = some v) :
    outcomeNamed name args = .ok v := by
  simp only [outcomeNamed, callNamed_eq_print h, v.prints_print.run_unbounded]

theorem ofName?_ne_println (hp : printedNamed? name args = none)
    (ho : outcomeNamed name args = .ok v) : ofName? name ≠ some println := by
  intro hb
  simp only [printedNamed?, hb, Option.bind_some] at hp
  exact ne_println hp (outcomeNamed_eq_outcome args hb ▸ ho) rfl

theorem silent_callNamed (h : printedNamed? name args = none) :
    Silent (callNamed name args : PrintingTo σ Value) (outcomeNamed name args) := by
  cases hb : ofName? name
  case none => exact outcomeNamed_unknown args hb ▸ silent_callNamed_unknown args hb
  case some b =>
    simp only [printedNamed?, hb, Option.bind_some] at h
    simp only [outcomeNamed_eq_outcome args hb, callNamed_eq_call args hb]
    exact silent_call h

end Builtin
end LispBuiltins
