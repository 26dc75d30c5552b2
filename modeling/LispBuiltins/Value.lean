namespace LispBuiltins

inductive Kind where
  | integer
  | string
  | nil
  deriving DecidableEq

def Kind.name : Kind → String
  | integer => "integer"
  | string  => "string"
  | nil     => "nil"

inductive Value where
  | integer (n : Int64)
  | string (text : String)
  | nil
  deriving DecidableEq

namespace Value

def kind : Value → Kind
  | integer _ => .integer
  | string _  => .string
  | nil       => .nil

-- Strings are written as they are, without quotes.
def render : Value → String
  | integer n   => n.toInt.repr
  | string text => text
  | nil         => "nil"

-- Truth values are the integers 1 and 0.
def ofBool (b : Bool) : Value :=
  integer (if b then 1 else 0)

end Value
end LispBuiltins
