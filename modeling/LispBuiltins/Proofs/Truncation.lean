import LispBuiltins.Proofs.Answers

namespace LispBuiltins

open Printing

theorem Device.fault_text (d : Device) (bytes : List UInt8) :
    (d.fault bytes).text =
      if ¬d.Fits bytes ∧ d.stalls then "failed to write whole buffer" else d.message := by
  simp only [fault, apply_ite Fault.text]
  rfl

namespace Invocation

-- A device that fails only cuts off what the program prints. It changes how the program ends just
-- when something is cut off, or is printed but cannot be flushed.
theorem run_truncates_output (p : Palette) (i : Invocation) (d : Device) :
    let (exit₀, sink₀) := (i.run p).run Sink.unbounded
    let (exit, sink)   := (i.run p).run d.sink
    let printed        := sink₀.bytes
    sink.bytes = d.kept printed ∧
    sink.flushes = (if printed ≠ [] ∧ d.Fits printed then 1 else 0) ∧
    if d.Fits printed ∧ (d.flushFails = false ∨ printed = []) then
      exit = exit₀
    else
      let text := if ¬d.Fits printed ∧ d.stalls then "failed to write whole buffer" else d.message
      exit.code = 1 ∧ exit.stderr = (CallError.output text).diagnostic.render p := by
  simp only [run_eq, ← Device.fault_text]
  have hd := Sink.received_sink d
  cases conduct_answer p i
  case silent r h =>
    have hb : Sink.unbounded.bytes = [] := rfl
    simp only [h Sink.unbounded, h d.sink, hb, hd.bytes, hd.flushes]
    simp [Device.fits_nil]
  case prints out exit h =>
    have ⟨h₀, hb⟩ := h.run_unbounded
    have hr := h.received hd
    have he := h.result hd
    simp only [List.nil_append] at hr he
    simp only [h₀, hb, hr.bytes, hr.flushes, he, h.ne_nil, ne_eq, not_false_eq_true, true_and,
      or_false]
    by_cases hc : d.Fits out ∧ d.flushFails = false
    case pos => simp only [if_pos hc]
    case neg => simp only [if_neg hc]; exact ⟨rfl, rfl⟩

end Invocation
end LispBuiltins
