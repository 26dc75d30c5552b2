import LispBuiltins.CallError
import LispBuiltins.Sink

namespace LispBuiltins

-- Computations that print to a stream and may fail. The stream outlives a failure.
abbrev PrintingTo (σ : Type) := ExceptT CallError (StateM σ)

abbrev Printing := PrintingTo Sink

namespace Printing

variable {σ : Type}

-- A step of the stream, where a fault is an error of the call.
def ofStream (step : σ → Except Fault Unit × σ) : PrintingTo σ Unit :=
  fun s =>
    let (result, s) := step s
    (result.mapError (.output ·.text), s)

variable [Stream σ]

def write (text : String) : PrintingTo σ Unit :=
  ofStream (Stream.writeAll · (Utf8.encode text))

def flush : PrintingTo σ Unit :=
  ofStream Stream.flush

end Printing

-- Writes the value on a line of its own, and gives it back.
def Value.print [Stream σ] (v : Value) : PrintingTo σ Value := do
  Printing.write (v.render ++ "\n")
  Printing.flush
  return v

end LispBuiltins
