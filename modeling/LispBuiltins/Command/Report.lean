import LispBuiltins.Builtin.Call
import LispBuiltins.Json

namespace LispBuiltins

def Value.json : Value → Json
  | integer n   => .number n.toInt
  | string text => .string text
  | nil         => .null

-- A call and what came of it. The `output` is what was printed during the call.
structure Report where
  builtin : String
  args : List Value
  output : String
  outcome : Except CallError Value

namespace Report

def ofCall (builtin : String) (args : List Value) : Report :=
  let (outcome, sink) := (Builtin.callNamed builtin args).run Sink.unbounded
  { builtin, args, output := Utf8.decodeLossy sink.bytes, outcome }

def outcomeMember : Except CallError Value → String × Json
  | .ok v    => ("result", v.json)
  | .error e => ("error", .object [("kind", .string e.name), ("message", .string e.message)])

-- The printed text is left out if there is none.
def json (r : Report) : Json :=
  .object <|
    [("builtin", .string r.builtin), ("args", .array (r.args.map Value.json))] ++
    (if r.output = "" then [] else [("output", .string r.output)]) ++
    [outcomeMember r.outcome]

end Report
end LispBuiltins
