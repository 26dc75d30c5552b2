namespace LispBuiltins.Plain

-- How far a text is into a terminal control function:
-- 1. after the escape character, or after more signs that may follow it
-- 2. in a sequence of parameters, which a letter ends
-- 3. in a command to the terminal, which the bell ends
-- 4. in the head of a device control, which a letter or a misplaced parameter ends
-- 5. in a control string, which a terminator ends
inductive Control where
  | escape
  | intermediate
  | sequence
  | command
  | deviceStart
  | deviceParameters
  | deviceIntermediate
  | string

-- Plain text can stand inside of a control function, which is then suspended.
inductive Mode where
  | text
  | within (k : Control)
  | suspended (k : Control)

def isBetween (low high : Nat) (c : Char) : Bool :=
  low ≤ c.toNat && c.toNat ≤ high

-- The control characters that move on to the next column or line.
def isLayout (c : Char) : Bool :=
  c == '\t' || c == '\n' || c == '\x0c' || c == '\r'

def isVisible (c : Char) : Bool :=
  isLayout c || (0x20 ≤ c.toNat && c.toNat ≠ 0x7F)

-- A control string ends at this byte, also where it is part of another character.
def hasTerminator (c : Char) : Bool :=
  (String.utf8EncodeChar c).contains 0x9C

namespace Control

-- Layout inside of these is kept, inside of the others it is part of the control function.
def allowsLayout : Control → Bool
  | escape | intermediate | sequence => true
  | _                                => false

def next : Control → Char → Mode
  | escape, c =>
    if c == '[' then .within sequence
    else if c == ']' then .within command
    else if c == 'P' then .within deviceStart
    else if c == 'X' || c == '^' || c == '_' then .within string
    else if isBetween 0x20 0x2F c then .within intermediate
    else if isBetween 0x30 0x7E c then .text
    else .within escape
  | intermediate, c => if isBetween 0x30 0x7E c then .text else .within intermediate
  | sequence, c => if isBetween 0x40 0x7E c then .text else .within sequence
  | command, c => if c == '\x07' then .text else .within command
  | deviceStart, c =>
    if isBetween 0x20 0x2F c then .within deviceIntermediate
    else if isBetween 0x30 0x3F c then .within deviceParameters
    else if isBetween 0x40 0x7E c then .within string
    else .within deviceStart
  | deviceParameters, c =>
    if isBetween 0x20 0x2F c then .within deviceIntermediate
    else if isBetween 0x3C 0x7E c then .within string
    else .within deviceParameters
  | deviceIntermediate, c =>
    if isBetween 0x30 0x7E c then .within string else .within deviceIntermediate
  | string, c => if hasTerminator c then .text else .within string

end Control

-- Where a text is shown: as a message of its own, or on a stream. On a stream, layout only suspends
-- a control function. It goes on at the next control character, unless a character outside of ASCII
-- has come before.
inductive Medium where
  | message
  | stream

def Medium.afterLayout : Medium → Control → Mode
  | message, _ => .text
  | stream, k  => .suspended k

-- The mode after `c`, and whether `c` is kept.
def step (medium : Medium) (mode : Mode) (c : Char) : Mode × Bool :=
  if c == '\x1b' then (.within .escape, false)
  else if c == '\x18' || c == '\x1a' then (.text, false)
  else match mode with
  | .text => (.text, isVisible c)
  | .within k =>
    if k.allowsLayout && isLayout c then (medium.afterLayout k, true) else (k.next c, false)
  | .suspended k =>
    if 0x80 ≤ c.toNat then (.text, true)
    else if isVisible c then (.suspended k, true)
    else (.within k, false)

def keep (medium : Medium) (mode : Mode) : List Char → List Char
  | []      => []
  | c :: cs =>
    let (mode, kept) := step medium mode c
    if kept then c :: keep medium mode cs else keep medium mode cs

-- A text that someone typed, without terminal control functions.
def ofTyped (medium : Medium) (text : String) : String :=
  String.ofList (keep medium .text text.toList)

-- A line ends at a line feed, with or without a carriage return before it.
def firstLine (text : String) : String :=
  match text.toList.span (· ≠ '\n') with
  | (_, [])       => text
  | (line, _ :: _) => String.ofList (if line.getLast? = some '\r' then line.dropLast else line)

end LispBuiltins.Plain
