import LispBuiltins.Builtin
import LispBuiltins.Operation
import LispBuiltins.Printing

namespace LispBuiltins.Builtin

variable {σ : Type} [Stream σ]

-- What each builtin does with as many arguments as it takes. There is no other case.
def operate : (b : Builtin) → (args : List Value) → args.length = b.arity → PrintingTo σ Value
  | plus, [x, y], _        => x.add y
  | minus, [x, y], _       => x.subtract y
  | multiply, [x, y], _    => x.multiply y
  | divide, [x, y], _      => x.divide y
  | lessThan, [x, y], _    => x.lessThan y
  | greaterThan, [x, y], _ => x.greaterThan y
  | equal, [x, y], _       => return x.equal y
  | println, [v], _        => v.print
  | checkBoolean, [v], _   => return .integer (← v.checkBoolean)

-- The arguments are counted before anything else is done with them.
def call (b : Builtin) (args : List Value) : PrintingTo σ Value :=
  if h : args.length = b.arity then b.operate args h
  else throw (.wrongArity b.name b.arity args.length)

def callNamed (name : String) (args : List Value) : PrintingTo σ Value := do
  let b ← lookup name
  b.call args

-- Calls the builtin over a stream that others use too: only `println` is handed the stream, every
-- other builtin runs over a sink of its own.
def callShared (b : Builtin) (args : List Value) : PrintingTo σ Value :=
  match b with
  | println => println.call args
  | _       => fun stream => ((b.call args).run Sink.unbounded |>.fst, stream)

def callNamedShared (name : String) (args : List Value) : PrintingTo σ Value := do
  let b ← lookup name
  b.callShared args

end LispBuiltins.Builtin
