import LispBuiltins.Builtin.Call
import LispBuiltins.Proofs.Capacity

namespace LispBuiltins.Printing

section

variable {σ : Type} {m : PrintingTo σ α} {f : α → PrintingTo σ β}

theorem run_pure (a : α) (s : σ) : (pure a : PrintingTo σ α).run s = (.ok a, s) :=
  rfl

theorem run_ofStream (step : σ → Except Fault Unit × σ) (s : σ) :
    (ofStream step).run s = ((step s).fst.mapError (.output ·.text), (step s).snd) :=
  rfl

theorem run_bind (m : PrintingTo σ α) (f : α → PrintingTo σ β) (s : σ) :
    (m >>= f).run s =
      match (m.run s).fst with
      | .ok a    => (f a).run (m.run s).snd
      | .error e => (.error e, (m.run s).snd) := by
  simp only [ExceptT.run_bind]
  rcases h : m.run s with ⟨_ | _, _⟩
  case error =>
    simp only [bind, StateT.bind, h]
    rfl
  case ok => simp only [bind, StateT.bind, h]

-- The computation ends in `r`, and no stream makes a difference to it or is touched by it.
def Silent (m : PrintingTo σ α) (r : Except CallError α) : Prop :=
  ∀ s, m.run s = (r, s)

namespace Silent

theorem lift (r : Except CallError α) : Silent (liftM r : PrintingTo σ α) r :=
  fun _ => rfl

theorem pure (a : α) : Silent (pure a : PrintingTo σ α) (.ok a) :=
  fun _ => rfl

theorem throw (e : CallError) : Silent (throw e : PrintingTo σ α) (.error e) :=
  fun _ => rfl

theorem lift_map (r : Except CallError α) (f : α → β) :
    Silent (liftM r >>= fun a => Pure.pure (f a) : PrintingTo σ β) (r.map f) := by
  intro s
  rw [run_bind]
  cases r <;> rfl

theorem bind_ok (h : Silent m (.ok a)) (f : α → PrintingTo σ β) : m >>= f = f a := by
  funext s
  have := run_bind m f s
  simp only [h s] at this
  exact this

theorem bind_error (h : Silent m (.error e)) (f : α → PrintingTo σ β) :
    Silent (m >>= f) (.error e) := by
  intro s
  simp only [run_bind, h s]

end Silent
end

variable {m : Printing α} {f : α → Printing β} {a : α} {b : β} {out out' : List UInt8}

-- The computation sends `out` in some fragments, without a flush, and then gives `a`.
structure Sends (m : Printing α) (out : List UInt8) (a : α) : Prop where
  received : s.Received d sent n → (m.run s).snd.Received d (sent ++ out) n
  result   : s.Received d sent n → (m.run s).fst =
    if d.Accepts sent out then .ok a else .error (.output (d.fault (sent ++ out)).text)

-- The computation sends `out`, which is not empty, then flushes once, and then gives `a`.
structure Prints (m : Printing α) (out : List UInt8) (a : α) : Prop where
  ne_nil   : out ≠ []
  received : s.Received d sent n →
    (m.run s).snd.Received d (sent ++ out) (if d.Fits (sent ++ out) then n + 1 else n)
  result   : s.Received d sent n → (m.run s).fst =
    if d.Fits (sent ++ out) ∧ d.flushFails = false then .ok a
    else .error (.output (d.fault (sent ++ out)).text)

namespace Sends

theorem pure (a : α) : Sends (pure a) [] a where
  received h := (List.append_nil _).symm ▸ h
  result _   := by simp [run_pure, Device.Accepts]

theorem write (text : String) : Sends (write text) (Utf8.encode text) () where
  received h := h.writeAll _
  result h   := by
    simp only [Printing.write, run_ofStream, Sink.stream_writeAll, h.writeAll_result]
    split <;> rfl

theorem run_bind (h : Sends m out a) (f : α → Printing β) (hs : s.Received d sent n) :
    (m >>= f).run s =
      if d.Accepts sent out then (f a).run (m.run s).snd
      else (.error (.output (d.fault (sent ++ out)).text), (m.run s).snd) := by
  simp only [Printing.run_bind, h.result hs]
  by_cases ha : d.Accepts sent out <;> simp only [ha, if_true, if_false]

-- Where the first part fails, nothing is left to be taken of the second one.
theorem bind (h : Sends m out a) (hf : Sends (f a) out' b) : Sends (m >>= f) (out ++ out') b where
  received hs := by
    have hr := h.received hs
    simp only [h.run_bind f hs, ← List.append_assoc]
    split
    case isTrue     => exact hf.received hr
    case isFalse hn => exact hr.append_of_not_fits (Device.not_fits_of_not_accepts hn) out'
  result hs := by
    simp only [h.run_bind f hs, Device.accepts_append_iff, ← List.append_assoc]
    split
    case isTrue ha => simp only [ha, true_and, hf.result <| h.received hs]
    case isFalse hn =>
      have hf := Device.not_fits_of_not_accepts hn
      simp only [hn, false_and, if_false, Device.fault_append_of_not_fits hf]

theorem bind_prints (h : Sends m out a) (hf : Prints (f a) out' b) :
    Prints (m >>= f) (out ++ out') b where
  ne_nil := by simp [hf.ne_nil]
  received hs := by
    have hr := h.received hs
    simp only [h.run_bind f hs, ← List.append_assoc]
    split
    case isTrue => exact hf.received hr
    case isFalse hn =>
      have hn := Device.not_fits_of_not_accepts hn
      simp only [mt Device.Fits.left hn, if_false]
      exact hr.append_of_not_fits hn out'
  result hs := by
    simp only [h.run_bind f hs, ← List.append_assoc]
    split
    case isTrue => exact hf.result <| h.received hs
    case isFalse hn =>
      have hn := Device.not_fits_of_not_accepts hn
      simp only [mt Device.Fits.left hn, Device.fault_append_of_not_fits hn, false_and, if_false]

theorem flush (h : Sends m out a) (hn : out ≠ []) : Prints (m >>= fun _ => flush) out () where
  ne_nil := hn
  received hs := by
    have hr := h.received hs
    simp only [h.run_bind _ hs, Device.accepts_iff_fits hn]
    split
    case isTrue  => exact hr.flush
    case isFalse => exact hr
  result {s d sent n} hs := by
    have hr := h.received hs
    simp only [h.run_bind _ hs, Device.accepts_iff_fits hn]
    split
    case isFalse hf => simp only [hf, false_and, if_false]
    case isTrue hf =>
      simp only [Printing.flush, run_ofStream, Sink.stream_flush, hr.flush_result hf, hf, true_and]
      cases d.flushFails <;> rfl

end Sends

theorem Prints.bind_pure (h : Prints m out a) (b : β) : Prints (m >>= fun _ => pure b) out b where
  ne_nil := h.ne_nil
  received hs := by
    have hr := h.received hs
    simp only [run_bind]
    split <;> exact hr
  result {s d sent n} hs := by
    simp only [run_bind, h.result hs]
    by_cases hc : d.Fits (sent ++ out) ∧ d.flushFails = false
    case pos => simp only [if_pos hc, run_pure]
    case neg => simp only [if_neg hc]

end LispBuiltins.Printing
