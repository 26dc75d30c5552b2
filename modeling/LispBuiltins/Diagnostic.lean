import LispBuiltins.Builtin
import LispBuiltins.Literal
import LispBuiltins.Palette

namespace LispBuiltins

structure Advice where
  help : String
  hint : String

def Advice.render (p : Palette) (a : Advice) : String :=
  p.paint .help a.help ++ "\n" ++ "    " ++ p.paint .hint a.hint ++ "\n"

structure Diagnostic where
  kind : String
  message : String
  advice : Option Advice := none

def Diagnostic.render (p : Palette) (d : Diagnostic) : String :=
  p.paint .kind d.kind ++ ": " ++ p.paint .message d.message ++ "\n" ++
    (d.advice.map (Advice.render p)).getD ""

def CallError.advice : CallError → Advice
  | wrongKind operation .. => {
      help := "Help: `" ++ operation ++ "` works only with integers."
      hint := "Only `=` and `println` accept strings and nil." }
  | divisionByZero _ => {
      help := "Help: You cannot divide by zero."
      hint := "Check if the divisor is zero before the operation." }
  | notBoolean _ => {
      help := "Help: Booleans are the integers 0 (false) and 1 (true)."
      hint := "Comparisons like (< a b) and (= a b) produce them." }
  | wrongArity builtin expected _ => {
      help := "Help: Builtin called with wrong number of arguments."
      hint := "`" ++ builtin ++ "` takes exactly " ++ expected.repr ++ " argument(s)." }
  | unknownBuiltin _ => {
      help := "Help: Check if the builtin name is spelled correctly."
      hint := "Available builtins: " ++ ", ".intercalate (Builtin.all.map Builtin.name) }
  | output _ => {
      help := "Help: Writing to standard output failed."
      hint := "Check that the output pipe or terminal is still open." }

def CallError.diagnostic (e : CallError) : Diagnostic where
  kind := e.name
  message := e.message
  advice := e.advice

def LiteralError.diagnostic (e : LiteralError) : Diagnostic where
  kind := e.name
  message := e.message

end LispBuiltins
