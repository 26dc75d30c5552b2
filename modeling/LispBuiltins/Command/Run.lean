import LispBuiltins.Command.Arguments
import LispBuiltins.Command.Report
import LispBuiltins.Diagnostic

namespace LispBuiltins

structure Exit where
  code : Nat
  stderr : String := ""

namespace Exit

def success : Exit where
  code := 0

def failure (p : Palette) (d : Diagnostic) : Exit where
  code := 1
  stderr := d.render p

end Exit

-- The line of a builtin, in the pieces that are written one after another.
def Builtin.entry (p : Palette) (b : Builtin) : List String :=
  [p.paint .name b.name, "/", b.arity.repr, " (", b.altName, ")\n"]

def Builtin.printAll (p : Palette) : Printing Unit := do
  all.forM fun b => (b.entry p).forM Printing.write
  Printing.flush

namespace Invocation

def noBuiltin : Diagnostic where
  kind := "error"
  message := "No builtin given. Try --list."

-- A call that fails is reported too, and only the code tells that it failed.
def answerJson (name : String) (args : List Value) : Printing Exit := do
  let report := Report.ofCall name args
  report.json.pieces.forM fun piece => Printing.write (String.ofList piece)
  Printing.write "\n"
  Printing.flush
  return { code := if report.outcome.isOk then 0 else 1 }

def printResult (v : Value) : Printing Unit := do
  Printing.write v.render
  Printing.write "\n"
  Printing.flush

-- Prints the value, unless the call has printed it already.
def answerPlain (name : String) (args : List Value) : Printing Exit := do
  let b ← Builtin.lookup name
  let v ← b.call args
  unless b = .println do printResult v
  return .success

-- Listing goes before everything else.
def answer (p : Palette) (i : Invocation) : Printing Exit :=
  if i.list then do
    Builtin.printAll p
    return .success
  else match i.builtin with
    | none => return { code := 2, stderr := noBuiltin.render p }
    | some name =>
      match Literal.decodeAll i.args with
      | .error e => return .failure p e.diagnostic
      | .ok args => if i.json then answerJson name args else answerPlain name args

def run (p : Palette) (i : Invocation) : StateM Sink Exit := do
  match ← (i.answer p).run with
  | .ok exit => return exit
  | .error e => return .failure p e.diagnostic

end Invocation

-- Colours are used unless they are switched off, by the switch or by a variable of the environment
-- whose value is a text that is not empty.
def Palette.ofEnvironment (switchedOff : Bool) (setting : Option (List UInt8)) : Palette where
  color := !switchedOff && !(setting.bind Utf8.decode?).any (· ≠ "")

-- It is no error if the help text cannot be printed.
def execute (tokens : List Token) (noColor : Option (List UInt8)) : StateM Sink Exit := do
  match Arguments.parse tokens with
  | .ok i => i.run (.ofEnvironment i.noColor noColor)
  | .error .helpRequested => do
    let _ ← (Printing.write UsageError.helpText).run
    return { code := UsageError.code .helpRequested }
  | .error e => return { code := e.code, stderr := e.wording .stream ++ "\n" }

end LispBuiltins
