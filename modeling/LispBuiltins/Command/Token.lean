import LispBuiltins.Text.Utf8

namespace LispBuiltins

abbrev Token := List UInt8

namespace Token

def dash : UInt8 :=
  0x2D

def equals : UInt8 :=
  0x3D

def point : UInt8 :=
  0x2E

def isDigit (b : UInt8) : Bool :=
  0x30 ≤ b && b ≤ 0x39

def isExponentMark (b : UInt8) : Bool :=
  b == 0x65 || b == 0x45

-- Digits, then perhaps a point and more digits, then perhaps an exponent, which has digits.
def isNumber (body : Token) : Bool :=
  body.head?.any isDigit && isExponent (afterFraction (body.dropWhile isDigit))
where
  afterFraction : Token → Token
    | b :: rest => if b = point then rest.dropWhile isDigit else b :: rest
    | []        => []
  isExponent : Token → Bool
    | b :: rest => isExponentMark b && !rest.isEmpty && rest.all isDigit
    | []        => true

inductive Shape where
  | endOfSwitches
  | long (name : Token) (value : Option Token)
  | short (body : Token)
  | plain

def splitValue (body : Token) : Token × Option Token :=
  match body.dropWhile (· ≠ equals) with
  | []         => (body, none)
  | _ :: value => (body.takeWhile (· ≠ equals), some value)

-- A dash alone and the empty token are plain.
def shape : Token → Shape
  | a :: b :: rest =>
    if a ≠ dash then .plain
    else if b ≠ dash then .short (b :: rest)
    else if rest = [] then .endOfSwitches
    else .long (splitValue rest).fst (splitValue rest).snd
  | _ => .plain

-- The first character, or everything if the bytes at the front spell none.
def initial (body : Token) : String :=
  match Utf8.front? body with
  | some c => String.singleton c
  | none   => Utf8.decodeLossy body

end Token
end LispBuiltins
