namespace LispBuiltins

inductive Json where
  | null
  | number (n : Int)
  | string (text : String)
  | array (items : List Json)
  | object (members : List (String × Json))

namespace Json

-- Control characters below the blank are escaped, in the short form where there is one.
def escape (c : Char) : List Char :=
  match c with
  | '"'    => ['\\', '"']
  | '\\'   => ['\\', '\\']
  | '\x08' => ['\\', 'b']
  | '\x0c' => ['\\', 'f']
  | '\n'   => ['\\', 'n']
  | '\r'   => ['\\', 'r']
  | '\t'   => ['\\', 't']
  | c      =>
    if c.toNat < 0x20 then
      ['\\', 'u', '0', '0', (c.toNat / 16).digitChar, (c.toNat % 16).digitChar]
    else
      [c]

-- Between its quotes, a text is cut before and after each character that is escaped.
def quotePieces (text : String) : List (List Char) :=
  let runs := text.toList.splitBy fun c d => escape c = [c] && escape d = [d]
  ['"'] :: runs.map (·.flatMap escape) ++ [['"']]

mutual

-- The text of a value, in the pieces that are written one after another.
def pieces : Json → List (List Char)
  | null          => [['n', 'u', 'l', 'l']]
  | number n      => [n.repr.toList]
  | string text   => quotePieces text
  | array []      => [['['], [']']]
  | array (j :: js) => ['['] :: j.pieces ++ itemPieces js ++ [[']']]
  | object []     => [['\x7b'], ['\x7d']]
  | object ((key, j) :: ms) =>
    ['\x7b'] :: quotePieces key ++ [':'] :: j.pieces ++ memberPieces ms ++ [['\x7d']]

-- The items after the first, each with its comma.
def itemPieces : List Json → List (List Char)
  | []      => []
  | j :: js => [','] :: j.pieces ++ itemPieces js

-- The members after the first, each with its comma.
def memberPieces : List (String × Json) → List (List Char)
  | []             => []
  | (key, j) :: ms => [','] :: quotePieces key ++ [':'] :: j.pieces ++ memberPieces ms

end

def render (j : Json) : String :=
  String.ofList j.pieces.flatten

end Json
end LispBuiltins
