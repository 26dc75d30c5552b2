import LispBuiltins.CallError

namespace LispBuiltins

inductive Builtin where
  | plus
  | minus
  | multiply
  | divide
  | lessThan
  | greaterThan
  | equal
  | println
  | checkBoolean
  deriving DecidableEq

namespace Builtin

def all : List Builtin :=
  [plus, minus, multiply, divide, lessThan, greaterThan, equal, println, checkBoolean]

theorem mem_all (b : Builtin) : b ∈ all := by
  cases b <;> decide

def name : Builtin → String
  | plus         => "+"
  | minus        => "-"
  | multiply     => "*"
  | divide       => "/"
  | lessThan     => "<"
  | greaterThan  => ">"
  | equal        => "="
  | println      => "println"
  | checkBoolean => "check-boolean"

def altName : Builtin → String
  | plus         => "plus"
  | minus        => "minus"
  | multiply     => "multiply"
  | divide       => "divide"
  | lessThan     => "less-than"
  | greaterThan  => "greater-than"
  | equal        => "equal"
  | println      => "print"
  | checkBoolean => "boolean"

def arity : Builtin → Nat
  | println | checkBoolean => 1
  | _                      => 2

def ofName? (name : String) : Option Builtin :=
  all.find? fun b => b.name == name || b.altName == name

def lookup (name : String) : Except CallError Builtin :=
  match ofName? name with
  | some b => .ok b
  | none   => .error (.unknownBuiltin name)

end Builtin
end LispBuiltins
