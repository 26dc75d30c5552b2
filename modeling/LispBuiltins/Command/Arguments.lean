import LispBuiltins.Command.Token
import LispBuiltins.Command.Usage

namespace LispBuiltins

structure Invocation where
  builtin : Option String := none
  args : List String := []
  json : Bool := false
  list : Bool := false
  noColor : Bool := false

namespace Arguments

structure Reading where
  switches : List Switch := []
  positionals : List Token := []

def texts (tokens : List Token) : Except UsageError (List String) :=
  match tokens.mapM Utf8.decode? with
  | some texts => .ok texts
  | none       => .error .notUtf8

namespace Reading

-- The builtin has to be a text before an argument is read.
def addPositional (r : Reading) (token : Token) : Except UsageError Reading := do
  let _ ← texts (r.positionals.take 1)
  return { r with positionals := r.positionals ++ [token] }

-- All positionals have to be texts before a switch is heeded.
def addSwitch (r : Reading) (s : Switch) : Except UsageError Reading := do
  let _ ← texts r.positionals
  if s = .help then throw .helpRequested
  else if s ∈ r.switches then throw (.repeated s)
  else return { r with switches := r.switches ++ [s] }

def addLong (r : Reading) (name : Token) (value : Option Token) : Except UsageError Reading :=
  match Switch.ofName? name, value with
  | some s, none       => r.addSwitch s
  | some s, some value => .error (.unexpectedValue s (Utf8.decodeLossy value))
  | none, _            => .error (.unknown ("--" ++ Utf8.decodeLossy name))

-- A number after a dash is an argument of the builtin, once there is a builtin.
def addShort (r : Reading) (body : Token) : Except UsageError Reading :=
  if r.positionals ≠ [] ∧ Token.isNumber body then
    r.addPositional (Token.dash :: body)
  else if Token.initial body = "h" then
    r.addSwitch .help
  else
    .error (.unknown ("-" ++ Token.initial body))

-- Switches may stand anywhere before `--`. After it every token is positional.
def addTokens (r : Reading) : List Token → Except UsageError Reading
  | [] => .ok r
  | token :: tokens =>
    match token.shape with
    | .endOfSwitches   => tokens.foldlM addPositional r
    | .long name value => do (← r.addLong name value).addTokens tokens
    | .short body      => do (← r.addShort body).addTokens tokens
    | .plain           => do (← r.addPositional token).addTokens tokens

-- The builtin may be missing only where the builtins are to be listed.
def finish (r : Reading) : Except UsageError Invocation := do
  let positionals ← texts r.positionals
  if positionals = [] ∧ .list ∉ r.switches then
    throw .missingBuiltin
  else
    return {
      builtin := positionals.head?
      args := positionals.tail
      json := .json ∈ r.switches
      list := .list ∈ r.switches
      noColor := .noColor ∈ r.switches }

end Reading

-- The first positional is the builtin, the others are its arguments.
def parse (tokens : List Token) : Except UsageError Invocation := do
  let r ← Reading.addTokens { } tokens
  r.finish

end Arguments
end LispBuiltins
