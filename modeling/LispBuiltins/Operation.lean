import LispBuiltins.CallError

namespace LispBuiltins.Value

def expectInteger (v : Value) (operation : String) (position : Nat) : Except CallError Int64 :=
  match v with
  | integer n => .ok n
  | _         => .error (.wrongKind operation position .integer v.kind)

def toInteger (v : Value) : Except CallError Int64 :=
  v.expectInteger "to-integer" 1

-- The operands are looked at from left to right.
def operands (operation : String) (x y : Value) : Except CallError (Int64 × Int64) := do
  let m ← x.expectInteger operation 1
  let n ← y.expectInteger operation 2
  return (m, n)

def add (x y : Value) : Except CallError Value := do
  let (m, n) ← operands "+" x y
  return integer (m + n)

def subtract (x y : Value) : Except CallError Value := do
  let (m, n) ← operands "-" x y
  return integer (m - n)

def multiply (x y : Value) : Except CallError Value := do
  let (m, n) ← operands "*" x y
  return integer (m * n)

-- Quotients go toward zero. The least integer divided by -1 wraps around to itself.
def divide (x y : Value) : Except CallError Value := do
  let (m, n) ← operands "/" x y
  if n = 0 then throw (.divisionByZero m) else return integer (m / n)

def lessThan (x y : Value) : Except CallError Value := do
  let (m, n) ← operands "<" x y
  return ofBool (m < n)

def greaterThan (x y : Value) : Except CallError Value := do
  let (m, n) ← operands ">" x y
  return ofBool (m > n)

-- Values of different kinds can be compared too, and are not equal.
def equal (x y : Value) : Value :=
  ofBool (x = y)

def checkBoolean (v : Value) : Except CallError Int64 := do
  let n ← v.expectInteger "check-boolean" 1
  if n = 0 ∨ n = 1 then return n else throw (.notBoolean n)

end LispBuiltins.Value
