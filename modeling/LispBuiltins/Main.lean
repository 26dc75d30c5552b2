import LispBuiltins.Command.Run

-- Where standard output fails, the program ends as it does over a device that takes nothing.
open LispBuiltins in
def main (args : List String) : IO UInt32 := do
  let noColor := (← IO.getEnv "NO_COLOR").map Utf8.encode
  let program := execute (args.map Utf8.encode) noColor
  let (exit, sink) := program.run Sink.unbounded
  let exit ← try
    let stdout ← IO.getStdout
    stdout.write sink.bytes.toByteArray
    stdout.flush
    pure exit
  catch e =>
    pure (program.run (Device.sink { limit := some 0, message := e.toString })).fst
  (← IO.getStderr).putStr exit.stderr
  return exit.code.toUInt32
