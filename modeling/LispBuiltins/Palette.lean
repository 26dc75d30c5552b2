namespace LispBuiltins

inductive Code where
  | reset
  | bold
  | red
  | yellow
  | plainColor
  | grey
  deriving DecidableEq

namespace Code

def all : List Code :=
  [reset, bold, red, yellow, plainColor, grey]

def text : Code → String
  | reset      => "\x1b[0m"
  | bold       => "\x1b[1m"
  | red        => "\x1b[31m"
  | yellow     => "\x1b[33m"
  | plainColor => "\x1b[39m"
  | grey       => "\x1b[90m"

end Code

-- What a piece of text is for.
inductive Role where
  | kind
  | message
  | help
  | hint
  | name
  deriving DecidableEq

namespace Role

def opening : Role → List Code
  | kind        => [.bold, .red]
  | message     => [.red]
  | help | name => [.yellow]
  | hint        => [.grey]

def closing : Role → List Code
  | kind => [.plainColor, .reset]
  | _    => [.plainColor]

end Role

structure Palette where
  color : Bool

namespace Palette

def paint (p : Palette) (role : Role) (text : String) : String :=
  if p.color then codes role.opening ++ text ++ codes role.closing else text
where
  codes (cs : List Code) : String :=
    String.join (cs.map Code.text)

end Palette
end LispBuiltins
