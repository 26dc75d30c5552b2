import LispBuiltins.Proofs.Calls

namespace LispBuiltins

open Printing

-- The ways to make a call over one stream.
inductive Request where
  | call (b : Builtin) (args : List Value)
  | callNamed (name : String) (args : List Value)
  | callShared (b : Builtin) (args : List Value)
  | callNamedShared (name : String) (args : List Value)
  | print (v : Value)

namespace Request

def perform : Request → Printing Value
  | call b args               => b.call args
  | callNamed name args       => Builtin.callNamed name args
  | callShared b args         => b.callShared args
  | callNamedShared name args => Builtin.callNamedShared name args
  | print v                   => v.print

def printed? : Request → Option Value
  | call b args | callShared b args                 => b.printed? args
  | callNamed name args | callNamedShared name args => Builtin.printedNamed? name args
  | print v                                         => some v

-- What comes of a request where printing does not fail.
def outcome : Request → Except CallError Value
  | call b args | callShared b args                 => b.outcome args
  | callNamed name args | callNamedShared name args => Builtin.outcomeNamed name args
  | print v                                         => .ok v

theorem perform_eq_print {r : Request} (h : r.printed? = some v) : r.perform = v.print := by
  cases r <;> simp only [perform, Builtin.callShared_eq_call, Builtin.callNamedShared_eq_callNamed]
  case call | callShared           => exact Builtin.call_eq_print h
  case callNamed | callNamedShared => exact Builtin.callNamed_eq_print h
  case print                       => cases h; rfl

theorem silent_perform {r : Request} (h : r.printed? = none) : Silent r.perform r.outcome := by
  cases r <;> simp only [perform, Builtin.callShared_eq_call, Builtin.callNamedShared_eq_callNamed]
  case call | callShared           => exact Builtin.silent_call h
  case callNamed | callNamedShared => exact Builtin.silent_callNamed h
  case print                       => cases h

end Request

structure Exchange where
  request : Request
  result : Except CallError Value

namespace Exchange

-- How a call ends over a device to which `sent` was sent before. Only a call that prints depends on
-- the device. It gives back its value if its line still fits and can be flushed. Every other call
-- ends as it does over a device that takes everything.
def Faithful (d : Device) (sent : List UInt8) (x : Exchange) : Prop :=
  match x.request.printed? with
  | none   => Silent x.request.perform x.result ∧ x.result = x.request.outcome
  | some v =>
    x.result =
      if d.Fits (sent ++ v.line) ∧ d.flushFails = false then .ok v
      else .error (.output (d.fault (sent ++ v.line)).text)

-- The lines that are printed, whether or not they fit.
def lines (xs : List Exchange) : List (List UInt8) :=
  xs.filterMap fun x => x.request.printed?.map Value.line

theorem lines_concat_silent (xs : List Exchange) {x : Exchange} (h : x.request.printed? = none) :
    lines (xs ++ [x]) = lines xs := by
  simp [lines, h]

theorem lines_concat_print (xs : List Exchange) {x : Exchange} (h : x.request.printed? = some v) :
    lines (xs ++ [x]) = lines xs ++ [v.line] := by
  simp [lines, h]

end Exchange

-- How many of the lines a device takes whole, if they are sent to it one after another.
def Device.wholeLines (d : Device) (lines : List (List UInt8)) : Nat :=
  (List.range lines.length).countP fun k => d.Fits (lines.take (k + 1)).flatten

theorem Device.wholeLines_concat (d : Device) (lines : List (List UInt8)) (line : List UInt8) :
    d.wholeLines (lines ++ [line]) =
      if d.Fits (lines.flatten ++ line) then d.wholeLines lines + 1 else d.wholeLines lines := by
  have hp : ∀ k ∈ List.range lines.length,
      decide (d.Fits ((lines ++ [line]).take (k + 1)).flatten) =
        decide (d.Fits (lines.take (k + 1)).flatten) := by
    intro k hk
    rw [List.take_append_of_le_length <| List.mem_range.mp hk]
  rw [wholeLines, List.length_append, List.length_singleton, List.range_succ, List.countP_append,
    List.countP_congr fun k hk => by rw [hp k hk], List.countP_singleton,
    List.take_of_length_le (by simp), List.flatten_append, List.flatten_singleton]
  by_cases hf : d.Fits (lines.flatten ++ line) <;> simp [hf, wholeLines]

-- One call after another, where the next call may depend on the results so far.
inductive Session where
  | done
  | call (r : Request) (next : Except CallError Value → Session)

def Session.run : Session → StateM Sink (List Exchange)
  | done => return []
  | call request next => do
    let result ← request.perform.run
    let exchanges ← (next result).run
    return { request, result } :: exchanges

theorem Session.run_call (r : Request) (next : Except CallError Value → Session) (s : Sink) :
    (call r next).run.run s =
      let (rest, s') := (next (r.perform.run s).fst).run.run (r.perform.run s).snd
      (⟨r, (r.perform.run s).fst⟩ :: rest, s') :=
  rfl

-- After these exchanges of a session, another one is left to be run.
inductive Session.Reaches : Session → Sink → List Exchange → Session → Sink → Prop
  | refl : Reaches c s [] c s
  | call (h : Reaches (next (r.perform.run s).fst) (r.perform.run s).snd xs c s') :
    Reaches (call r next) s (⟨r, (r.perform.run s).fst⟩ :: xs) c s'

theorem Session.Reaches.trans (h₁ : Reaches c₁ s₁ xs c₂ s₂) (h₂ : Reaches c₂ s₂ ys c₃ s₃) :
    Reaches c₁ s₁ (xs ++ ys) c₃ s₃ := by
  induction h₁
  case refl    => exact h₂
  case call hi => exact .call <| hi h₂

theorem Session.Reaches.run_eq (h : Reaches c s xs c' s') :
    c.run.run s = (xs ++ (c'.run.run s').fst, (c'.run.run s').snd) := by
  induction h
  case refl    => rfl
  case call hi => rw [run_call, hi]; rfl

theorem Session.Reaches.run_done (h : Reaches c s xs .done s') : c.run.run s = (xs, s') :=
  h.run_eq.trans <| congrArg (·, s') (List.append_nil xs)

namespace Exchange

-- The sink of a device after all of these exchanges.
structure Recorded (d : Device) (xs : List Exchange) (s : Sink) : Prop where
  received : s.Received d (lines xs).flatten (d.wholeLines (lines xs))
  faithful : before ++ [x] <+: xs → x.Faithful d (lines before).flatten

namespace Recorded

theorem sink (d : Device) : Recorded d [] d.sink where
  received   := Sink.received_sink d
  faithful h := by simp at h

variable {d : Device} {xs : List Exchange} {s : Sink}

theorem concat (h : Recorded d xs s) (hx : x.Faithful d (lines xs).flatten)
    (hr : s'.Received d (lines (xs ++ [x])).flatten (d.wholeLines (lines (xs ++ [x])))) :
    Recorded d (xs ++ [x]) s' where
  received    := hr
  faithful hp := by
    cases List.prefix_concat_iff.mp hp
    case inl he =>
      have ⟨hb, he⟩ := List.append_inj' he rfl
      cases he
      exact hb ▸ hx
    case inr hp => exact h.faithful hp

-- A call that prints adds its line, and every other one leaves things as they are.
theorem perform (h : Recorded d xs s) (r : Request) :
    Recorded d (xs ++ [⟨r, (r.perform.run s).fst⟩]) (r.perform.run s).snd := by
  cases hp : r.printed?
  case none =>
    have hr := Request.silent_perform hp
    simp only [hr s]
    apply h.concat
    · simp only [Faithful, hp]
      exact ⟨hr, trivial⟩
    · rw [lines_concat_silent xs hp]
      exact h.received
  case some v =>
    simp only [Request.perform_eq_print hp]
    apply h.concat
    · simp only [Faithful, hp]
      exact v.prints_print.result h.received
    · rw [lines_concat_print xs hp, Device.wholeLines_concat, List.flatten_append,
        List.flatten_singleton]
      exact v.prints_print.received h.received

theorem reaches (h : Recorded d xs s) (hr : Session.Reaches c s ys c' s') :
    Recorded d (xs ++ ys) s' := by
  induction hr generalizing xs
  case refl => exact (List.append_nil xs).symm ▸ h
  case call hi =>
    have := hi <| h.perform _
    rwa [List.append_assoc] at this

end Recorded
end Exchange

end LispBuiltins
