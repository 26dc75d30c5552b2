import LispBuiltins.Value

namespace LispBuiltins

inductive LiteralError where
  | outOfRange (token : String)
  deriving DecidableEq

namespace LiteralError

def name : LiteralError → String
  | outOfRange _ => "argument error"

def message : LiteralError → String
  | outOfRange token => "Integer literal out of range: " ++ token

end LiteralError

namespace Literal

def unquote? : List Char → Option (List Char)
  | '"' :: rest => if rest.getLast? = some '"' then some rest.dropLast else none
  | _           => none

-- Decimal digits after at most one sign.
def looksNumeric (token : List Char) : Bool :=
  let digits := match token with
    | '-' :: digits => digits
    | '+' :: digits => digits
    | digits        => digits
  !digits.isEmpty && digits.all Char.isDigit

def natural? (digits : List Char) : Option Nat :=
  if digits ≠ [] ∧ digits.all Char.isDigit then some (Nat.ofDigitChars 10 digits 0) else none

def integer? : List Char → Option Int
  | '-' :: digits => (natural? digits).map fun n : Nat => -(n : Int)
  | '+' :: digits => (natural? digits).map Int.ofNat
  | digits        => (natural? digits).map Int.ofNat

def word? (n : Int) : Option Int64 :=
  if Int64.minValue.toInt ≤ n ∧ n ≤ Int64.maxValue.toInt then some (Int64.ofInt n) else none

def parse? (token : List Char) : Option Int64 :=
  (integer? token).bind word?

-- A text between double quotes is a string, `nil` is nil, decimal digits with an optional sign are
-- an integer, and every other text stands for itself as a string.
def decode (token : String) : Except LiteralError Value :=
  match unquote? token.toList with
  | some text => .ok (.string (String.ofList text))
  | none =>
    if token = "nil" then
      .ok .nil
    else if looksNumeric token.toList then
      match parse? token.toList with
      | some w => .ok (.integer w)
      | none   => .error (.outOfRange token)
    else
      .ok (.string token)

def decodeAll (tokens : List String) : Except LiteralError (List Value) :=
  tokens.mapM decode

-- A token that stands for the value: quotes keep any text a string.
def encode : Value → String
  | .integer n   => n.toInt.repr
  | .string text => "\"" ++ text ++ "\""
  | .nil         => "nil"

end Literal
end LispBuiltins
