import LispBuiltins.Text.Utf8

namespace LispBuiltins

inductive Fault where
  | refused (message : String)
  | incomplete

def Fault.text : Fault → String
  | refused message => message
  | incomplete      => "failed to write whole buffer"

-- Whatever can be printed to.
class Stream (σ : Type) where
  writeAll : σ → List UInt8 → Except Fault Unit × σ
  flush : σ → Except Fault Unit × σ

-- A device takes at most `limit` bytes in total and at most `chunk` bytes in one write. When it can
-- take none, it fails with its `message`, or, if it `stalls`, it only reports that it took none.
structure Device where
  limit : Option Nat := none
  chunk : Option Nat := none
  stalls : Bool := false
  flushFails : Bool := false
  message : String := "closed"

-- A device and what it has taken so far, one chunk a write. It takes `room` more bytes.
structure Sink where
  device : Device
  room : Option Nat
  chunks : Array (List UInt8) := #[]
  flushes : Nat := 0

def Device.sink (d : Device) : Sink where
  device := d
  room := d.limit

def Sink.unbounded : Sink :=
  Device.sink { }

namespace Sink

def bytes (s : Sink) : List UInt8 :=
  s.chunks.toList.flatten

-- How many bytes the next write takes at most.
def bound (s : Sink) : Option Nat :=
  match s.device.chunk, s.room with
  | some chunk, some room => some (min chunk room)
  | some chunk, none      => some chunk
  | none, room            => room

def taken (s : Sink) (bytes : List UInt8) : List UInt8 :=
  match s.bound with
  | some n => bytes.take n
  | none   => bytes

def push (s : Sink) (chunk : List UInt8) : Sink :=
  { s with room := s.room.map (· - chunk.length), chunks := s.chunks.push chunk }

@[simp]
theorem bytes_push (s : Sink) (chunk : List UInt8) : (s.push chunk).bytes = s.bytes ++ chunk := by
  simp [bytes, push]

def fullFault (s : Sink) : Fault :=
  if s.device.stalls then .incomplete else .refused s.device.message

-- Bytes that were taken before a failure stay taken.
def writeAll (s : Sink) (bytes : List UInt8) : Except Fault Unit × Sink :=
  if bytes = [] then
    (.ok (), s)
  else if s.taken bytes = [] then
    (.error s.fullFault, s)
  else
    (s.push (s.taken bytes)).writeAll (bytes.drop (s.taken bytes).length)
termination_by bytes.length
decreasing_by
  have := List.length_pos_iff.mpr ‹s.taken bytes ≠ []›
  have := List.length_pos_iff.mpr ‹bytes ≠ []›
  simp only [List.length_drop]
  omega

-- Every flush is counted, also one that fails.
def flush (s : Sink) : Except Fault Unit × Sink :=
  let result := if s.device.flushFails then .error (.refused s.device.message) else .ok ()
  (result, { s with flushes := s.flushes + 1 })

instance : Stream Sink where
  writeAll := writeAll
  flush    := flush

theorem stream_writeAll (s : Sink) (bytes : List UInt8) :
    Stream.writeAll s bytes = s.writeAll bytes :=
  rfl

theorem stream_flush (s : Sink) : Stream.flush s = s.flush :=
  rfl

end Sink
end LispBuiltins
