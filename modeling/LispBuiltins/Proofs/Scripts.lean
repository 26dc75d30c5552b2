import LispBuiltins.Proofs.Session
import LispBuiltins.Script

namespace LispBuiltins

open Printing

namespace Session

-- The calls that a session starts with amount to the computation `m`, and what it goes on with is
-- told how they ended.
def Carries (c : (Except ε Value → Session) → Session) (m : ExceptT ε (StateM Sink) Value) : Prop :=
  ∀ s, ∃ xs, ∀ next, (c next).Reaches s xs (next (m.run s).fst) (m.run s).snd

-- Goes on with the value if there is one, and else leaves with the error.
def andThen (leave : Except CallError Value → Session) (next : Value → Session) :
    Except CallError Value → Session
  | .ok v    => next v
  | .error e => leave (.error e)

namespace Carries

variable {m : Printing Value} {f : Value → Printing Value}
variable {c : (Except CallError Value → Session) → Session}
  {c' : Value → (Except CallError Value → Session) → Session}

theorem request (r : Request) : Carries (call r) r.perform :=
  fun s => ⟨[⟨r, (r.perform.run s).fst⟩], fun _ => .call .refl⟩

-- What does not touch the sink needs no call.
theorem silent {m : ExceptT ε (StateM Sink) Value} (h : ∀ s, m.run s = (r, s)) :
    Carries (· r) m := by
  intro s
  rw [h s]
  exact ⟨[], fun _ => .refl⟩

theorem bind (h : Carries c m) (hf : ∀ v, Carries (c' v) (f v)) :
    Carries (fun next => c (andThen next (c' · next))) (m >>= f) := by
  intro s
  have ⟨xs, hx⟩ := h s
  rw [run_bind]
  cases hr : (m.run s).fst <;> simp only [hr] at hx ⊢
  case error e => exact ⟨xs, fun next => hx (andThen next (c' · next))⟩
  case ok v =>
    have ⟨ys, hy⟩ := hf v (m.run s).snd
    exact ⟨xs ++ ys, fun next => (hx (andThen next (c' · next))).trans (hy next)⟩

theorem calling (h : Carries c m) :
    Carries (fun next => c fun r => next (r.mapError .call)) (Step.eval.calling m) := by
  intro s
  have ⟨xs, hx⟩ := h s
  exact ⟨xs, fun next => hx fun r => next (r.mapError .call)⟩

end Carries
end Session

namespace Step

open Session (Carries andThen)

-- The calls of a step, one after another, before whatever comes next.
def foldSession : List (String × Value) → Value → (Except CallError Value → Session) → Session
  | [], v, next                   => next (.ok v)
  | (name, arg) :: calls, v, next =>
    .call (.callNamed name [v, arg]) <| andThen next (foldSession calls · next)

def iterateSession (calls : List (String × Value)) :
    Nat → Value → (Except CallError Value → Session) → Session
  | 0, v, next         => next (.ok v)
  | times + 1, v, next =>
    foldSession calls v <| andThen next (iterateSession calls times · next)

def session (rs : Registers) (step : Step) (next : Except StepError Value → Session) : Session :=
  match step with
  | call name args => .call (.callNamed name (args.map (·.eval rs))) calling
  | apply b args => .call (.call b (args.map (·.eval rs))) calling
  | toInteger arg => calling <| (arg.eval rs).toInteger.map .integer
  | decode token => next <| (Literal.decode token).mapError .literal
  | branch condition whenTrue whenFalse =>
    calling <| choose (condition.eval rs) (whenTrue.eval rs) (whenFalse.eval rs)
  | fold name start args =>
    foldSession (args.map fun arg => (name, arg.eval rs)) (start.eval rs) calling
  | iterate start calls times =>
    iterateSession (calls.map fun (name, arg) => (name, arg.eval rs)) times (start.eval rs) calling
where
  calling (r : Except CallError Value) : Session :=
    next (r.mapError .call)

theorem carries_foldSession (calls : List (String × Value)) (v : Value) :
    Carries (foldSession calls v) (foldCalls v calls) := by
  induction calls generalizing v
  case nil => exact .silent fun _ => rfl
  case cons call calls hi => exact Carries.request (.callNamed call.fst [v, call.snd]) |>.bind hi

theorem carries_iterateSession (calls : List (String × Value)) (times : Nat) (v : Value) :
    Carries (iterateSession calls times v) (iterateCalls calls times v) := by
  induction times generalizing v
  case zero          => exact .silent fun _ => rfl
  case succ times hi => exact (carries_foldSession calls v).bind hi

theorem carries_session (rs : Registers) (step : Step) :
    Carries (step.session rs) (step.eval rs) := by
  cases step
  case call | apply => exact .calling <| .request _
  case toInteger    => exact .calling <| .silent <| Silent.lift_map _ _
  case branch       => exact .calling <| .silent <| Silent.lift _
  case fold         => exact .calling <| carries_foldSession _ _
  case iterate      => exact .calling <| carries_iterateSession _ _ _
  case decode       => exact .silent fun _ => rfl

end Step

-- Chunks that a sink has taken are never taken back.
theorem Sink.chunks_isPrefix_writeAll (s : Sink) (bytes : List UInt8) :
    s.chunks.toList <+: (s.writeAll bytes).snd.chunks.toList := by
  fun_induction writeAll s bytes
  case case1 | case2 => exact List.prefix_rfl
  case case3 s bytes _ _ hi =>
    have hp : s.chunks.toList <+: (s.push (s.taken bytes)).chunks.toList := by simp [push]
    exact hp.trans hi

theorem Value.chunks_isPrefix_print (v : Value) (s : Sink) :
    s.chunks.toList <+: (v.print.run s).snd.chunks.toList := by
  have hw := s.chunks_isPrefix_writeAll v.line
  simp only [print, run_bind, write, run_ofStream]
  cases (Stream.writeAll s (Utf8.encode (v.render ++ "\n"))).fst
  case error => exact hw
  case ok =>
    simp only [Except.mapError]
    split <;> exact hw

theorem Request.chunks_isPrefix_perform (r : Request) (s : Sink) :
    s.chunks.toList <+: (r.perform.run s).snd.chunks.toList := by
  cases hp : r.printed?
  case none   => simp only [silent_perform hp s, List.prefix_rfl]
  case some v => exact perform_eq_print hp ▸ v.chunks_isPrefix_print s

theorem Session.Reaches.chunks_isPrefix (h : Reaches c s xs c' s') :
    s.chunks.toList <+: s'.chunks.toList := by
  induction h
  case refl    => exact List.prefix_rfl
  case call hi => exact (Request.chunks_isPrefix_perform _ _).trans hi

namespace Script

-- The calls of all steps, before whatever comes next.
def session (rs : Registers) :
    List Step → (List (Except StepError Value) → Session) → Session
  | [], next            => next []
  | step :: steps, next =>
    step.session rs fun result =>
      session (rs.push (result.toOption.getD .nil)) steps fun results => next (result :: results)

-- A script makes the calls of its session, and ends with the results that these are told.
theorem exists_reaches (rs : Registers) (steps : List Step) (s : Sink) :
    ∃ xs, ∀ next, (session rs steps next).Reaches s xs
      (next (((runFrom rs steps).run s).fst.map (·.result))) ((runFrom rs steps).run s).snd := by
  induction steps generalizing rs s
  case nil => exact ⟨[], fun _ => .refl⟩
  case cons step steps hi =>
    have ⟨xs, hx⟩ := step.carries_session rs s
    have ⟨ys, hy⟩ := hi (rs.push (((step.eval rs).run s).fst.toOption.getD .nil))
      ((step.eval rs).run s).snd
    exact ⟨xs ++ ys, fun _ => (hx _).trans (hy _)⟩

theorem bytes_append_wrote (rs : Registers) (steps : List Step) (s : Sink) :
    s.bytes ++ ((runFrom rs steps).run s).fst.flatMap StepOutcome.wrote =
      ((runFrom rs steps).run s).snd.bytes := by
  induction steps generalizing rs s
  case nil => exact List.append_nil _
  case cons step steps hi =>
    have ⟨_, hx⟩ := step.carries_session rs s
    have hp := (hx fun _ => .done).chunks_isPrefix
    have hs : s.bytes ++ (((step.eval rs).run s).snd.chunks.toList.drop s.chunks.size).flatten =
        ((step.eval rs).run s).snd.bytes := by
      rw [Sink.bytes, ← List.flatten_append, ← Array.length_toList]
      exact congrArg List.flatten (List.prefix_iff_eq_append.mp hp)
    have hi := hi (rs.push (((step.eval rs).run s).fst.toOption.getD .nil))
      ((step.eval rs).run s).snd
    rw [← hs, List.append_assoc] at hi
    exact hi

-- A script is a session: it makes the same calls, with the same sink in the end, and its results are
-- the ones that the session is told. So what holds of the calls of a session holds of its calls too.
theorem run_as_session (steps : List Step) (d : Device) :
    let (outcomes, sink) := (run steps).run d.sink
    outcomes.flatMap StepOutcome.wrote = sink.bytes ∧
    ∃ exchanges,
      (session #[] steps fun _ => .done).run.run d.sink = (exchanges, sink) ∧
      (∀ next, (session #[] steps next).Reaches d.sink exchanges
        (next (outcomes.map StepOutcome.result)) sink) ∧
      sink.bytes = d.kept (Exchange.lines exchanges).flatten ∧
      sink.flushes = d.wholeLines (Exchange.lines exchanges) ∧
      ∀ before x, before ++ [x] <+: exchanges →
        x.Faithful d (Exchange.lines before).flatten := by
  have ⟨exchanges, hx⟩ := exists_reaches #[] steps d.sink
  have h := Exchange.Recorded.sink d |>.reaches (hx fun _ => .done)
  exact ⟨bytes_append_wrote #[] steps d.sink, exchanges, (hx fun _ => .done).run_done, hx,
    h.received.bytes, h.received.flushes, fun _ _ => h.faithful⟩

end Script
end LispBuiltins
