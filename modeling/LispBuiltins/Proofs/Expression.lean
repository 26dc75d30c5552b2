import LispBuiltins.Proofs.Calls

namespace LispBuiltins

open Printing

-- A device that takes everything.
structure Device.Endless (d : Device) : Prop where
  capacity : d.capacity = none
  flush    : d.flushFails = false

inductive Sink.Endless (s : Sink) : Prop
  | intro (device : d.Endless) (received : s.Received d sent n)

theorem Device.Endless.sink {d : Device} (h : d.Endless) : d.sink.Endless :=
  ⟨h, Sink.received_sink d⟩

namespace Printing

-- Over a sink that takes everything, the computation ends in a value of `P` or an error of `Q`, and
-- the sink goes on taking everything.
structure Ensures (m : Printing α) (P : α → Prop) (Q : CallError → Prop) : Prop where
  sink  : s.Endless → (m.run s).snd.Endless
  value : s.Endless → (m.run s).fst = .ok a → P a
  error : s.Endless → (m.run s).fst = .error e → Q e

namespace Ensures

variable {m : Printing α} {f : α → Printing β} {P P' : α → Prop} {Q Q' : CallError → Prop}

theorem and (h : Ensures m P Q) (h' : Ensures m P' Q') : Ensures m (fun a => P a ∧ P' a) Q where
  sink        := h.sink
  value hs hv := ⟨h.value hs hv, h'.value hs hv⟩
  error       := h.error

theorem ok (h : Silent m (.ok a)) (ha : P a) : Ensures m P Q where
  sink {s} hs      := by simpa only [h s] using hs
  value {s _} _ hv := Except.ok.inj (h s ▸ hv) ▸ ha
  error {s _} _ hr := nomatch h s ▸ hr

theorem fail (h : Silent m (.error e)) (he : Q e) : Ensures m P Q where
  sink {s} hs      := by simpa only [h s] using hs
  value {s _} _ hv := nomatch h s ▸ hv
  error {s _} _ hr := Except.error.inj (h s ▸ hr) ▸ he

theorem print (h : Prints m out a) (ha : P a) : Ensures m P Q := by
  have hr {s : Sink} (hs : s.Endless) : (m.run s).snd.Endless ∧ (m.run s).fst = .ok a := by
    have ⟨hd, hr⟩ := hs
    refine ⟨⟨hd, h.received hr⟩, (h.result hr).trans <| if_pos ⟨?_, hd.flush⟩⟩
    simp [Device.Fits, hd.capacity]
  exact {
    sink        := fun hs => (hr hs).left
    value hs hv := by simp_all
    error hs he := by simp_all }

theorem bind {P' : β → Prop} (h : Ensures m P Q) (hf : ∀ a, P a → Ensures (f a) P' Q) :
    Ensures (m >>= f) P' Q where
  sink {s} hs := by
    rw [run_bind]
    split
    case h_1 a ha => exact (hf a <| h.value hs ha).sink <| h.sink hs
    case h_2      => exact h.sink hs
  value {s _} hs hv := by
    rw [run_bind] at hv
    split at hv
    case h_1 a ha => exact (hf a <| h.value hs ha).value (h.sink hs) hv
    case h_2      => cases hv
  error {s _} hs he := by
    rw [run_bind] at he
    split at he
    case h_1 a ha => exact (hf a <| h.value hs ha).error (h.sink hs) he
    case h_2 hm   => cases he; exact h.error hs hm

theorem mapM {f : ι → Printing α} {ks : List ι} (h : ∀ k ∈ ks, Ensures (f k) P Q) :
    Ensures (ks.mapM f) (fun vs => vs.length = ks.length ∧ ∀ v ∈ vs, P v) Q := by
  induction ks
  case nil => exact ok (.pure []) (by simp)
  case cons k ks hi =>
    have ⟨hk, hks⟩ := List.forall_mem_cons.mp h
    rw [List.mapM_cons]
    refine hk.bind fun v hv => (hi hks).bind fun vs ⟨hl, hvs⟩ => ok (.pure (v :: vs)) ?_
    exact ⟨by simp [hl], List.forall_mem_cons.mpr ⟨hv, hvs⟩⟩

end Ensures
end Printing

-- The integers that stand for truth values.
def Value.IsTruth (v : Value) : Prop :=
  v = .integer 0 ∨ v = .integer 1

theorem Value.isTruth_ofBool : (b : Bool) → (ofBool b).IsTruth
  | false => .inl rfl
  | true  => .inr rfl

theorem Value.IsTruth.kind {v : Value} (h : v.IsTruth) : v.kind = .integer := by
  cases h <;> simp only [*, Value.kind]

theorem Value.eq_integer {v : Value} (h : v.kind = .integer) : ∃ n, v = .integer n := by
  cases v <;> cases h
  exact ⟨_, rfl⟩

theorem Value.eq_integers {vs : List Value} (hl : vs.length = 2)
    (hv : ∀ v ∈ vs, v.kind = .integer) : ∃ m n, vs = [.integer m, .integer n] := by
  match vs, hl with
  | [x, y], _ =>
    have ⟨m, hx⟩ := eq_integer <| hv x (by simp)
    have ⟨n, hy⟩ := eq_integer <| hv y (by simp)
    exact ⟨m, n, by rw [hx, hy]⟩

namespace Builtin

variable {b : Builtin} {v : Value} {vs : List Value} {Q : CallError → Prop}

def IsComparison (b : Builtin) : Prop :=
  b = lessThan ∨ b = greaterThan ∨ b = equal

-- These give back their argument, if they succeed.
def IsIdentity (b : Builtin) : Prop :=
  b = checkBoolean ∨ b = println

theorem silent_comparison (σ : Type) [Stream σ] (h : b.IsComparison) (m n : Int64) :
    ∃ c, Silent (b.call [.integer m, .integer n] : PrintingTo σ Value) (.ok (.ofBool c)) := by
  obtain rfl | rfl | rfl := h
  case inl     => exact ⟨_, .lift _⟩
  case inr.inl => exact ⟨_, .lift _⟩
  case inr.inr => exact ⟨_, .pure _⟩

theorem silent_divide (σ : Type) [Stream σ] (m n : Int64) :
    Silent (divide.call [.integer m, .integer n] : PrintingTo σ Value)
      (if n = 0 then .error (.divisionByZero m) else .ok (.integer (m / n))) :=
  .lift _

theorem silent_checkBoolean (σ : Type) [Stream σ] (n : Int64) :
    Silent (checkBoolean.call [.integer n] : PrintingTo σ Value)
      (if n = 0 ∨ n = 1 then .ok (.integer n) else .error (.notBoolean n)) := by
  have hc : (Value.integer n).checkBoolean.map Value.integer =
      if n = 0 ∨ n = 1 then .ok (.integer n) else .error (.notBoolean n) :=
    apply_ite (Except.map Value.integer) ..
  exact hc ▸ silent_call_checkBoolean σ _

theorem silent_checkBoolean_truth [Stream σ] (h : v.IsTruth) :
    Silent (checkBoolean.call [v] : PrintingTo σ Value) (.ok v) := by
  cases h <;> simp only [*]
  case inl => exact silent_checkBoolean σ 0
  case inr => exact silent_checkBoolean σ 1

-- A call with integers gives an integer, or it fails on the values of its arguments.
theorem ensures_call (hl : vs.length = b.arity) (hv : ∀ v ∈ vs, v.kind = .integer)
    (hd : b = divide → ∀ n, Q (.divisionByZero n))
    (hc : b = checkBoolean → (∀ n, Q (.notBoolean n)) ∨ ∀ v ∈ vs, v.IsTruth) :
    Ensures (b.call vs) (·.kind = .integer) Q := by
  cases b
  case plus | minus | multiply | lessThan | greaterThan =>
    obtain ⟨m, n, rfl⟩ := Value.eq_integers hl hv
    exact .ok (.lift _) rfl
  case divide =>
    obtain ⟨m, n, rfl⟩ := Value.eq_integers hl hv
    have h := silent_divide Sink m n
    split at h
    case isTrue  => exact .fail h <| hd rfl m
    case isFalse => exact .ok h rfl
  case equal =>
    obtain ⟨m, n, rfl⟩ := Value.eq_integers hl hv
    exact .ok (.pure _) rfl
  case println =>
    obtain ⟨v, rfl⟩ := List.length_eq_one_iff.mp hl
    exact .print v.prints_print <| hv v List.mem_cons_self
  case checkBoolean =>
    obtain ⟨v, rfl⟩ := List.length_eq_one_iff.mp hl
    obtain ⟨n, rfl⟩ := Value.eq_integer <| hv v List.mem_cons_self
    have h := silent_checkBoolean Sink n
    split at h
    case isTrue => exact .ok h rfl
    case isFalse hn =>
      refine .fail h <| (hc rfl).elim (· n) fun ht => absurd ?_ hn
      simpa [Value.IsTruth] using ht

theorem ensures_call_truth (hl : vs.length = b.arity) (hv : ∀ v ∈ vs, v.kind = .integer)
    (hb : b.IsComparison ∨ b.IsIdentity ∧ ∀ v ∈ vs, v.IsTruth) :
    Ensures (b.call vs) Value.IsTruth Q := by
  rcases hb with h | ⟨rfl | rfl, ht⟩
  case inl =>
    have hl : vs.length = 2 := by
      obtain rfl | rfl | rfl := h <;> exact hl
    obtain ⟨m, n, rfl⟩ := Value.eq_integers hl hv
    have ⟨c, h⟩ := silent_comparison Sink h m n
    exact .ok h <| Value.isTruth_ofBool c
  case inr.inl =>
    obtain ⟨v, rfl⟩ := List.length_eq_one_iff.mp hl
    have ht := ht v List.mem_cons_self
    exact .ok (silent_checkBoolean_truth ht) ht
  case inr.inr =>
    obtain ⟨v, rfl⟩ := List.length_eq_one_iff.mp hl
    exact .print v.prints_print <| ht v List.mem_cons_self

end Builtin

-- The errors that integers cause by their values.
inductive CallError.ByValue : CallError → Prop
  | divisionByZero (n : Int64) : ByValue (.divisionByZero n)
  | notBoolean (n : Int64) : ByValue (.notBoolean n)

-- Nested calls. Each builtin has as many arguments as it takes.
inductive Expr where
  | literal (v : Value)
  | apply (b : Builtin) (args : Fin b.arity → Expr)

namespace Expr

-- The arguments are evaluated from left to right, up to the first error.
def eval : Expr → Printing Value
  | literal v    => return v
  | apply b args => do b.call (← (List.finRange b.arity).mapM fun k => (args k).eval)

-- The arguments before `k`, evaluated.
def evalBefore (args : Fin n → Expr) (k : Fin n) : Printing (List Value) :=
  ((List.finRange n).take k).mapM fun k => (args k).eval

-- While `e` is evaluated over the sink `s`, it gives `v`, or one of its parts does.
inductive Yields : Expr → Sink → Value → Prop
  | result (h : (e.eval.run s).fst = .ok v) : Yields e s v
  | part {args : Fin b.arity → Expr} {k : Fin b.arity}
    (hb : (evalBefore args k).run s = (.ok vs, s')) (h : Yields (args k) s' v) :
    Yields (apply b args) s v

def Integral : Expr → Prop
  | literal v    => v.kind = .integer
  | apply _ args => ∀ k, (args k).Integral

def IsBoolean : Expr → Prop
  | literal _    => False
  | apply b args => b.IsComparison ∨ b.IsIdentity ∧ ∀ k, (args k).IsBoolean

-- Nothing is divided, and only truth values are checked.
def Careful : Expr → Prop
  | literal _    => True
  | apply b args =>
    b ≠ .divide ∧ (b = .checkBoolean → ∀ k, (args k).IsBoolean) ∧ ∀ k, (args k).Careful

variable {e : Expr} {Q : CallError → Prop}

theorem ensures_apply {args : Fin b.arity → Expr} (h : ∀ k, Ensures (args k).eval P Q)
    (hc : ∀ vs : List Value, vs.length = b.arity → (∀ v ∈ vs, P v) → Ensures (b.call vs) P' Q) :
    Ensures (apply b args).eval P' Q := by
  refine (Ensures.mapM fun k _ => h k).bind fun vs ⟨hl, hv⟩ => hc vs ?_ hv
  rw [hl, List.length_finRange]

theorem ensures_eval (h : e.Integral) : Ensures e.eval (·.kind = .integer) CallError.ByValue := by
  induction e
  case literal v => exact .ok (.pure v) h
  case apply b args hi =>
    refine ensures_apply (fun k => hi k (h k)) fun vs hl hv => ?_
    exact Builtin.ensures_call hl hv (fun _ => .divisionByZero) fun _ => .inl .notBoolean

theorem ensures_eval_truth (h : e.Integral) (hb : e.IsBoolean) :
    Ensures e.eval Value.IsTruth CallError.ByValue := by
  induction e
  case literal => cases hb
  case apply b args hi =>
    cases hb
    case inl hb =>
      refine ensures_apply (fun k => ensures_eval (h k)) fun vs hl hv => ?_
      exact Builtin.ensures_call_truth hl hv (.inl hb)
    case inr hb =>
      refine ensures_apply (fun k => hi k (h k) (hb.right k)) fun vs hl hv => ?_
      exact Builtin.ensures_call_truth hl (fun v hm => (hv v hm).kind) (.inr ⟨hb.left, hv⟩)

theorem ensures_eval_careful (h : e.Integral) (hc : e.Careful) :
    Ensures e.eval (·.kind = .integer) (fun _ => False) := by
  induction e
  case literal v => exact .ok (.pure v) h
  case apply b args hi =>
    have ⟨hd, hb, hc⟩ := hc
    have hi k := hi k (h k) (hc k)
    by_cases he : b = .checkBoolean
    case neg =>
      refine ensures_apply hi fun vs hl hv => ?_
      exact Builtin.ensures_call hl hv (absurd · hd) (absurd · he)
    case pos =>
      -- What is checked is boolean, and its values are all that a check can fail on.
      have ht k := (hi k).and <| ensures_eval_truth (h k) (hb he k)
      refine ensures_apply ht fun vs hl hv => ?_
      exact Builtin.ensures_call hl (fun v hm => (hv v hm).left) (absurd · hd)
        fun _ => .inr fun v hm => (hv v hm).right

theorem Yields.kind (hy : e.Yields s v) (h : e.Integral) (hs : s.Endless) : v.kind = .integer := by
  induction hy
  case result hv => exact (ensures_eval h).value hs hv
  case part s vs s' v b args k hb _ hi =>
    have hm : Ensures (evalBefore args k) _ _ := .mapM fun k _ => ensures_eval (h k)
    exact hi (h k) <| by simpa only [hb] using hm.sink hs

-- The expression, checked to give a truth value.
def check (e : Expr) : Expr :=
  apply .checkBoolean fun _ => e

theorem eval_check (e : Expr) :
    e.check.eval = e.eval >>= fun v => Builtin.checkBoolean.call [v] := by
  have h : (List.finRange Builtin.checkBoolean.arity).mapM (fun _ => e.eval) =
      e.eval >>= fun v => return [v] := rfl
  simp only [check, eval, h, bind_assoc, pure_bind]

theorem run_check (h : Ensures e.eval Value.IsTruth Q) (hs : s.Endless) :
    e.check.eval.run s = e.eval.run s := by
  rw [eval_check, run_bind]
  split
  case h_1 v hv =>
    rw [Builtin.silent_checkBoolean_truth (h.value hs hv)]
    exact Prod.ext hv.symm rfl
  case h_2 he => exact Prod.ext he.symm rfl

-- Calls that are nested in any way and given integers never meet a value of another kind. All that
-- can go wrong is a division by zero, or a check of an integer that stands for no truth value.
theorem eval_integral (d : Device) (hd : d.Endless) (e : Expr) (he : e.Integral) :
    let outcome := (e.eval.run d.sink).fst
    (∀ v, e.Yields d.sink v → ∃ n, v = .integer n) ∧
    ((∃ n, outcome = .ok (.integer n)) ∨ (∃ n, outcome = .error (.divisionByZero n)) ∨
      ∃ n, outcome = .error (.notBoolean n)) ∧
    (e.IsBoolean →
      (∀ v, outcome = .ok v → v = .integer 0 ∨ v = .integer 1) ∧
      e.check.eval.run d.sink = e.eval.run d.sink) ∧
    (e.Careful → ∃ n, outcome = .ok (.integer n)) := by
  have h := ensures_eval he
  refine ⟨fun v hy => Value.eq_integer <| hy.kind he hd.sink, ?_, fun hb => ?_, fun hc => ?_⟩
  · cases ho : (e.eval.run d.sink).fst
    case ok v =>
      have ⟨n, hn⟩ := Value.eq_integer <| h.value hd.sink ho
      exact .inl ⟨n, congrArg _ hn⟩
    case error e =>
      cases h.error hd.sink ho
      case divisionByZero n => exact .inr <| .inl ⟨n, rfl⟩
      case notBoolean n     => exact .inr <| .inr ⟨n, rfl⟩
  · have ht := ensures_eval_truth he hb
    exact ⟨fun v => ht.value hd.sink, run_check ht hd.sink⟩
  · have hc := ensures_eval_careful he hc
    cases ho : (e.eval.run d.sink).fst
    case error => exact (hc.error hd.sink ho).elim
    case ok v =>
      have ⟨n, hn⟩ := Value.eq_integer <| hc.value hd.sink ho
      exact ⟨n, congrArg _ hn⟩

-- A device that takes a byte at a time, and a comparison that is printed and then checked.
theorem eval_integral_printed_comparison :
    let d : Device := { chunk := some 1 }
    let comparison := apply .lessThan fun k => literal (.integer k.val.toInt64)
    let e := (apply .println fun _ => comparison).check
    (d.Endless ∧ e.Integral ∧ e.Careful) ∧ ∃ n, (e.eval.run d.sink).fst = .ok (.integer n) := by
  intro d comparison e
  have hd : d.Endless := ⟨rfl, rfl⟩
  have he : e.Integral := fun _ _ _ => rfl
  have hc : e.Careful := by
    simp [e, comparison, check, Careful, IsBoolean, Builtin.IsComparison, Builtin.IsIdentity]
  exact ⟨⟨hd, he, hc⟩, (eval_integral d hd e he).right.right.right hc⟩

end Expr
end LispBuiltins
