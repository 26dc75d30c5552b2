import LispBuiltins.Value

namespace LispBuiltins

inductive CallError where
  | wrongKind (operation : String) (position : Nat) (expected found : Kind)
  | divisionByZero (dividend : Int64)
  | notBoolean (n : Int64)
  | wrongArity (builtin : String) (expected found : Nat)
  | unknownBuiltin (name : String)
  | output (text : String)
  deriving DecidableEq

namespace CallError

def name : CallError → String
  | wrongKind ..     => "type-error"
  | divisionByZero _ => "division-by-zero"
  | notBoolean _     => "invalid-boolean"
  | wrongArity ..    => "arity-mismatch"
  | unknownBuiltin _ => "unknown-builtin"
  | output _         => "output"

def message : CallError → String
  | wrongKind operation position expected found =>
    "type error in `" ++ operation ++ "`: operand " ++ position.repr ++ " expected " ++
      expected.name ++ ", found " ++ found.name
  | divisionByZero dividend =>
    "division by zero: " ++ dividend.toInt.repr ++ " / 0"
  | notBoolean n =>
    "not a boolean: " ++ n.toInt.repr
  | wrongArity builtin expected found =>
    "arity mismatch: `" ++ builtin ++ "` expects " ++ expected.repr ++ " arguments, got " ++
      found.repr
  | unknownBuiltin name =>
    "unknown builtin: " ++ name
  | output text =>
    "output error: " ++ text

end CallError
end LispBuiltins
