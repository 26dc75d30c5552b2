import LispBuiltins.Sink

namespace LispBuiltins

namespace Device

-- How many bytes a device takes in all. One that takes none in a write never takes any.
def capacity (d : Device) : Option Nat :=
  if d.chunk = some 0 then some 0 else d.limit

-- What a device has taken in the end, if all of `bytes` are sent to it.
def kept (d : Device) (bytes : List UInt8) : List UInt8 :=
  match d.capacity with
  | some n => bytes.take n
  | none   => bytes

def Fits (d : Device) (bytes : List UInt8) : Prop :=
  ∀ n ∈ d.capacity, bytes.length ≤ n

instance (d : Device) (bytes : List UInt8) : Decidable (d.Fits bytes) :=
  inferInstanceAs <| Decidable (∀ n ∈ d.capacity, bytes.length ≤ n)

variable {d : Device} {sent bytes bytes' : List UInt8}

theorem fits_nil : d.Fits [] :=
  fun _ _ => Nat.zero_le _

theorem Fits.left (h : d.Fits (bytes ++ bytes')) : d.Fits bytes := by
  intro n hn
  have := h n hn
  simp only [List.length_append] at this
  omega

theorem Fits.kept_eq (h : d.Fits bytes) : d.kept bytes = bytes := by
  unfold kept
  split
  case h_1 n hn => exact List.take_of_length_le <| h n hn
  case h_2 => rfl

theorem not_fits_append (hc : d.capacity = some n) (h : n ≤ sent.length) (hb : bytes ≠ []) :
    ¬d.Fits (sent ++ bytes) := by
  intro hf
  have := hf n hc
  have := List.length_pos_iff.mpr hb
  simp only [List.length_append] at *
  omega

-- A device that is full takes nothing more.
theorem kept_append_of_le (hc : d.capacity = some n) (h : n ≤ sent.length) :
    d.kept (sent ++ bytes) = d.kept sent := by
  simp only [kept, hc]
  exact List.take_append_of_le_length h

theorem kept_append_of_not_fits (h : ¬d.Fits sent) : d.kept (sent ++ bytes) = d.kept sent := by
  simp only [Fits, Option.mem_def, Classical.not_forall, Nat.not_le] at h
  have ⟨n, hc, hn⟩ := h
  exact kept_append_of_le hc <| Nat.le_of_lt hn

-- Whether `bytes` can be written after `sent`. Where there is nothing to write, nothing has to fit.
def Accepts (d : Device) (sent bytes : List UInt8) : Prop :=
  bytes = [] ∨ d.Fits (sent ++ bytes)

instance (d : Device) (sent bytes : List UInt8) : Decidable (d.Accepts sent bytes) :=
  inferInstanceAs <| Decidable (bytes = [] ∨ d.Fits (sent ++ bytes))

theorem accepts_iff_fits (h : bytes ≠ []) : d.Accepts sent bytes ↔ d.Fits (sent ++ bytes) :=
  ⟨(·.resolve_left h), .inr⟩

theorem not_fits_of_not_accepts (h : ¬d.Accepts sent bytes) : ¬d.Fits (sent ++ bytes) :=
  (h <| .inr ·)

theorem accepts_append_iff :
    d.Accepts sent (bytes ++ bytes') ↔ d.Accepts sent bytes ∧ d.Accepts (sent ++ bytes) bytes' := by
  simp only [Accepts, List.append_eq_nil_iff, ← List.append_assoc]
  constructor
  case mp =>
    rintro (⟨h, h'⟩ | h)
    · exact ⟨.inl h, .inl h'⟩
    · exact ⟨.inr h.left, .inr h⟩
  case mpr =>
    rintro ⟨h | h, h' | h'⟩
    · exact .inl ⟨h, h'⟩
    · exact .inr h'
    · exact .inr <| by simpa [h'] using h
    · exact .inr h'

-- Why a device fails that was sent all of `bytes`: for want of room, or else at a flush.
def fault (d : Device) (bytes : List UInt8) : Fault :=
  if ¬d.Fits bytes ∧ d.stalls then .incomplete else .refused d.message

theorem fault_append_of_not_fits (h : ¬d.Fits sent) : d.fault (sent ++ bytes) = d.fault sent := by
  simp only [fault, h, mt Fits.left h]

end Device

namespace Sink

variable {s : Sink} {d : Device} {sent bytes : List UInt8} {n : Nat}

theorem taken_eq_nil_iff (hb : bytes ≠ []) :
    s.taken bytes = [] ↔ s.device.chunk = some 0 ∨ s.room = some 0 := by
  unfold taken bound
  cases s.device.chunk <;> cases s.room <;> simp [hb]

theorem taken_length_le (bytes : List UInt8) (h : s.room = some n) :
    (s.taken bytes).length ≤ n := by
  simp only [taken, bound, h]
  cases s.device.chunk <;> simp only [List.length_take] <;> omega

theorem taken_append_drop (s : Sink) (bytes : List UInt8) :
    s.taken bytes ++ bytes.drop (s.taken bytes).length = bytes := by
  have hp : s.taken bytes <+: bytes := by
    unfold taken
    split
    · exact List.take_prefix ..
    · exact List.prefix_rfl
  exact List.prefix_iff_eq_append.mp hp

-- The sink of a device to which all of `stream` was sent so far, and which was flushed `n` times.
structure Received (s : Sink) (d : Device) (stream : List UInt8) (n : Nat) : Prop where
  device  : s.device = d
  bytes   : s.bytes = d.kept stream
  room    : s.room = d.limit.map (· - s.bytes.length)
  flushes : s.flushes = n

theorem received_sink (d : Device) : d.sink.Received d [] 0 where
  device  := rfl
  bytes   := Device.fits_nil.kept_eq.symm
  room    := by simp [Device.sink, Sink.bytes]
  flushes := rfl

namespace Received

-- What is sent to a device that had no room for all before makes no difference.
theorem append_of_not_fits (h : s.Received d sent n) (hf : ¬d.Fits sent) (bytes : List UInt8) :
    s.Received d (sent ++ bytes) n :=
  { h with bytes := h.bytes.trans (Device.kept_append_of_not_fits hf).symm }

-- Nothing is taken only where nothing more fits.
theorem full (h : s.Received d sent n) (hb : bytes ≠ []) (ht : s.taken bytes = []) :
    ∃ m, d.capacity = some m ∧ m ≤ sent.length := by
  have ht := h.device ▸ (taken_eq_nil_iff hb).mp ht
  by_cases hc : d.chunk = some 0
  case pos => exact ⟨0, by simp [Device.capacity, hc], Nat.zero_le _⟩
  case neg =>
    have ⟨m, hl, hm⟩ := Option.map_eq_some_iff.mp <| h.room ▸ ht.resolve_left hc
    have hc : d.capacity = some m := by simp [Device.capacity, hc, hl]
    simp only [h.bytes, Device.kept, hc, List.length_take] at hm
    exact ⟨m, hc, by omega⟩

theorem fits_taken (h : s.Received d sent n) (hb : bytes ≠ []) (ht : s.taken bytes ≠ []) :
    d.Fits (sent ++ s.taken bytes) := by
  intro m hc
  have ⟨hz, hr⟩ := not_or.mp <| h.device ▸ mt (taken_eq_nil_iff hb).mpr ht
  have hl : d.limit = some m := by rwa [Device.capacity, if_neg hz] at hc
  have hm : s.room = some (m - s.bytes.length) := by simp only [h.room, hl, Option.map_some]
  have hp : m - s.bytes.length ≠ 0 := fun hp => hr (hp ▸ hm)
  have ht := taken_length_le bytes hm
  have hb : s.bytes.length = min m sent.length := by
    simp only [h.bytes, Device.kept, Option.mem_def.mp hc, List.length_take]
  simp only [List.length_append]
  omega

theorem push_taken (h : s.Received d sent n) (hb : bytes ≠ []) (ht : s.taken bytes ≠ []) :
    (s.push (s.taken bytes)).Received d (sent ++ s.taken bytes) n where
  device  := h.device
  bytes   := by
    have hf := h.fits_taken hb ht
    simp only [bytes_push, h.bytes, hf.kept_eq, hf.left.kept_eq]
  room    := by
    simp only [bytes_push, List.length_append]
    simp only [push, h.room, Option.map_map, Function.comp_def, Nat.sub_sub]
  flushes := h.flushes

theorem writeAll (h : s.Received d sent n) (bytes : List UInt8) :
    (s.writeAll bytes).snd.Received d (sent ++ bytes) n := by
  fun_induction Sink.writeAll s bytes generalizing sent
  case case1 => simpa using h
  case case2 hb ht =>
    have ⟨m, hc, hm⟩ := h.full hb ht
    exact { h with bytes := h.bytes.trans (Device.kept_append_of_le hc hm).symm }
  case case3 s bytes hb ht hi =>
    have := hi <| h.push_taken hb ht
    rwa [List.append_assoc, taken_append_drop] at this

theorem writeAll_result (h : s.Received d sent n) (bytes : List UInt8) :
    (s.writeAll bytes).fst =
      if d.Accepts sent bytes then .ok () else .error (d.fault (sent ++ bytes)) := by
  fun_induction Sink.writeAll s bytes generalizing sent
  case case1 => simp [Device.Accepts]
  case case2 s bytes hb ht =>
    have ⟨m, hc, hm⟩ := h.full hb ht
    have hf := Device.not_fits_append hc hm hb
    simp [Device.Accepts, hb, hf, Device.fault, fullFault, h.device]
  case case3 s bytes hb ht hi =>
    -- What is taken fits, so whether the rest is accepted decides for all.
    have ha : d.Accepts sent (s.taken bytes) := .inr <| h.fits_taken hb ht
    have hr := hi <| h.push_taken hb ht
    rw [List.append_assoc, taken_append_drop] at hr
    simp only [hr, ← (d.accepts_append_iff).trans (and_iff_right ha), taken_append_drop]

theorem flush (h : s.Received d sent n) : s.flush.snd.Received d sent (n + 1) where
  device  := h.device
  bytes   := h.bytes
  room    := h.room
  flushes := by simp [Sink.flush, h.flushes]

theorem flush_result (h : s.Received d sent n) (hf : d.Fits sent) :
    s.flush.fst = if d.flushFails then .error (d.fault sent) else .ok () := by
  simp [Sink.flush, Device.fault, h.device, hf]

end Received
end Sink
end LispBuiltins
