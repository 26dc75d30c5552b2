import LispBuiltins.Text.Plain
import LispBuiltins.Text.Utf8

namespace LispBuiltins

inductive Switch where
  | json
  | list
  | noColor
  | help
  deriving DecidableEq

namespace Switch

def all : List Switch :=
  [json, list, noColor, help]

def name : Switch → String
  | json    => "json"
  | list    => "list"
  | noColor => "no-color"
  | help    => "help"

-- Names of switches are never shortened.
def ofName? (name : List UInt8) : Option Switch :=
  all.find? fun s => Utf8.encode s.name == name

end Switch

inductive UsageError where
  | helpRequested
  | repeated (s : Switch)
  | unexpectedValue (s : Switch) (value : String)
  | unknown (argument : String)
  | notUtf8
  | missingBuiltin
  deriving DecidableEq

namespace UsageError

def helpText : String :=
"Call a PA-LISP builtin with literal arguments

Usage: palisp [OPTIONS] [BUILTIN] [ARGS]...

Arguments:
  [BUILTIN]  Builtin to call, by name or alias (e.g. `+`, `less-than`, `println`)
  [ARGS]...  Literal arguments: integers, `nil`, or strings (\"quoted\" to force a string)

Options:
      --json      Print the call and its outcome as JSON
      --list      List the available builtins and exit
      --no-color  Disable colored diagnostics (also disabled by a non-empty NO_COLOR)
  -h, --help      Print help
"

-- Help is shown whole, everything else in one line. What was typed is quoted as plain text.
def wording (medium : Plain.Medium) : UsageError → String
  | helpRequested => helpText
  | repeated s =>
    "error: the argument '--" ++ s.name ++ "' cannot be used multiple times"
  | unexpectedValue s value =>
    Plain.firstLine <|
      "error: unexpected value '" ++ Plain.ofTyped medium value ++ "' for '--" ++ s.name ++
        "' found; no more were expected"
  | unknown argument =>
    Plain.firstLine <|
      "error: unexpected argument '" ++ Plain.ofTyped medium argument ++ "' found"
  | notUtf8 =>
    "error: invalid UTF-8 was detected in one or more arguments"
  | missingBuiltin =>
    "error: the following required arguments were not provided:"

def message (e : UsageError) : String :=
  e.wording .message

def code : UsageError → Nat
  | helpRequested => 0
  | _             => 2

end UsageError
end LispBuiltins
