import LispBuiltins.Builtin.Call
import LispBuiltins.Literal

namespace LispBuiltins

-- Each step of a script leaves its value in a register, where later steps find it.
inductive Operand where
  | value (v : Value)
  | register (index : Nat)

-- `fold` calls one builtin with the value so far and each argument in turn. `iterate` goes `times`
-- times through several such calls.
inductive Step where
  | call (name : String) (args : List Operand)
  | apply (b : Builtin) (args : List Operand)
  | toInteger (arg : Operand)
  | decode (token : String)
  | branch (condition whenTrue whenFalse : Operand)
  | fold (name : String) (start : Operand) (args : List Operand)
  | iterate (start : Operand) (calls : List (String × Operand)) (times : Nat)

inductive StepError where
  | call (e : CallError)
  | literal (e : LiteralError)

namespace StepError

def name : StepError → String
  | call e    => e.name
  | literal e => e.name

def message : StepError → String
  | call e    => e.message
  | literal e => e.message

end StepError

abbrev Registers := Array Value

def Operand.eval (rs : Registers) : Operand → Value
  | value v        => v
  | register index => rs[index]?.getD .nil

namespace Step

def foldCalls (start : Value) (calls : List (String × Value)) : Printing Value :=
  calls.foldlM (fun v (name, arg) => Builtin.callNamed name [v, arg]) start

def iterateCalls (calls : List (String × Value)) : Nat → Value → Printing Value
  | 0, v         => return v
  | times + 1, v => do iterateCalls calls times (← foldCalls v calls)

def choose (condition whenTrue whenFalse : Value) : Except CallError Value := do
  let n ← condition.checkBoolean
  return if n = 0 then whenFalse else whenTrue

def eval (rs : Registers) (step : Step) : ExceptT StepError (StateM Sink) Value :=
  match step with
  | call name args => calling <| Builtin.callNamed name (args.map (·.eval rs))
  | apply b args => calling <| b.call (args.map (·.eval rs))
  | toInteger arg => calling <| return .integer (← (arg.eval rs).toInteger)
  | decode token => ExceptT.mk <| return (Literal.decode token).mapError .literal
  | branch condition whenTrue whenFalse =>
    calling <| choose (condition.eval rs) (whenTrue.eval rs) (whenFalse.eval rs)
  | fold name start args =>
    calling <| foldCalls (start.eval rs) (args.map fun arg => (name, arg.eval rs))
  | iterate start calls times =>
    calling <| iterateCalls (calls.map fun (name, arg) => (name, arg.eval rs)) times (start.eval rs)
where
  calling (action : Printing Value) : ExceptT StepError (StateM Sink) Value :=
    ExceptT.adapt .call action

end Step

structure StepOutcome where
  result : Except StepError Value
  wrote : List UInt8

namespace Script

-- A step that fails leaves nil in its register, and the script goes on.
def runFrom (rs : Registers) : List Step → StateM Sink (List StepOutcome)
  | [] => return []
  | step :: steps => do
    let before ← get
    let result ← (step.eval rs).run
    let after ← get
    let wrote := (after.chunks.toList.drop before.chunks.size).flatten
    let outcomes ← runFrom (rs.push (result.toOption.getD .nil)) steps
    return { result, wrote } :: outcomes

def run (steps : List Step) : StateM Sink (List StepOutcome) :=
  runFrom #[] steps

end Script
end LispBuiltins
