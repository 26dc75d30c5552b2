import Mathlib.Data.List.SplitBy
import LispBuiltins.Json
import LispBuiltins.Proofs.Literals

namespace LispBuiltins.Json

-- The pieces that a JSON text is made of.
inductive Lexeme where
  | openArray
  | closeArray
  | openObject
  | closeObject
  | comma
  | colon
  | null
  | number (n : Int)
  | string (text : String)

namespace Lexeme

def isBlank (c : Char) : Bool :=
  c == ' ' || c == '\t' || c == '\n' || c == '\r'

def hexDigit? (c : Char) : Option Nat :=
  if '0' ≤ c ∧ c ≤ '9' then some (c.toNat - 0x30)
  else if 'a' ≤ c ∧ c ≤ 'f' then some (c.toNat - 0x61 + 10)
  else if 'A' ≤ c ∧ c ≤ 'F' then some (c.toNat - 0x41 + 10)
  else none

-- Four hexadecimal digits are one UTF-16 code unit.
def codeUnit? (digits : List Char) : Option Nat :=
  if digits.length = 4 then
    digits.foldlM (fun unit c => (hexDigit? c).map (unit * 16 + ·)) 0
  else
    none

-- The second half of a surrogate pair follows as an escape sequence of its own.
def surrogatePair? (high : Nat) : List Char → Option (Char × List Char)
  | '\\' :: 'u' :: rest =>
    match codeUnit? (rest.take 4) with
    | none     => none
    | some low =>
      if high < 0xDC00 ∧ 0xDC00 ≤ low ∧ low < 0xE000 then
        some (Char.ofNat (0x10000 + (high - 0xD800) * 0x400 + (low - 0xDC00)), rest.drop 4)
      else
        none
  | _ => none

def unicode? (cs : List Char) : Option (Char × List Char) :=
  match codeUnit? (cs.take 4) with
  | none      => none
  | some unit =>
    if 0xD800 ≤ unit ∧ unit < 0xE000 then surrogatePair? unit (cs.drop 4)
    else some (Char.ofNat unit, cs.drop 4)

-- What an escape sequence stands for, after its backslash.
def escaped? : List Char → Option (Char × List Char)
  | '"' :: rest  => some ('"', rest)
  | '\\' :: rest => some ('\\', rest)
  | '/' :: rest  => some ('/', rest)
  | 'b' :: rest  => some ('\x08', rest)
  | 'f' :: rest  => some ('\x0c', rest)
  | 'n' :: rest  => some ('\n', rest)
  | 'r' :: rest  => some ('\r', rest)
  | 't' :: rest  => some ('\t', rest)
  | 'u' :: rest  => unicode? rest
  | _            => none

theorem surrogatePair?_length (h : surrogatePair? high cs = some (c, rest)) :
    rest.length ≤ cs.length := by
  unfold surrogatePair? at h
  repeat' split at h
  all_goals simp only [Option.some.injEq, Prod.mk.injEq, reduceCtorEq] at h
  simp only [← h.right, List.length_drop, List.length_cons]
  omega

theorem unicode?_length (h : unicode? cs = some (c, rest)) : rest.length ≤ cs.length := by
  unfold unicode? at h
  repeat' split at h
  case h_1 => cases h
  case h_2.isFalse => cases h; exact (cs.drop_sublist 4).length_le
  case h_2.isTrue  => exact Nat.le_trans (surrogatePair?_length h) (cs.drop_sublist 4).length_le

theorem escaped?_length (h : escaped? cs = some (c, rest)) : rest.length < cs.length := by
  unfold escaped? at h
  split at h
  case h_9 => exact Nat.lt_succ_of_le <| unicode?_length h
  case h_10 => cases h
  all_goals cases h; exact Nat.lt_succ_self _

-- The characters of a string, up to its closing quote.
def text? (cs : List Char) : Option (List Char × List Char) :=
  match cs with
  | []           => none
  | '"' :: rest  => some ([], rest)
  | '\\' :: rest =>
    match h : escaped? rest with
    | none            => none
    | some (c, rest') =>
      have := escaped?_length h
      (text? rest').map fun (cs, rest) => (c :: cs, rest)
  | c :: rest    =>
    if c.toNat < 0x20 then none else (text? rest).map fun (cs, rest) => (c :: cs, rest)
termination_by cs.length

-- Digits in a row. Only zero itself starts with a zero.
def natural? (cs : List Char) : Option (Nat × List Char) :=
  let digits := cs.takeWhile Char.isDigit
  if digits = [] ∨ digits.head? = some '0' ∧ digits ≠ ['0'] then none
  else some (Nat.ofDigitChars 10 digits 0, cs.dropWhile Char.isDigit)

def scan? : List Char → Option (Lexeme × List Char)
  | '[' :: rest    => some (openArray, rest)
  | ']' :: rest    => some (closeArray, rest)
  | '\x7b' :: rest => some (openObject, rest)
  | '\x7d' :: rest => some (closeObject, rest)
  | ',' :: rest    => some (comma, rest)
  | ':' :: rest    => some (colon, rest)
  | 'n' :: 'u' :: 'l' :: 'l' :: rest => some (null, rest)
  | '"' :: rest    => (text? rest).map fun (cs, rest) => (string (String.ofList cs), rest)
  | '-' :: rest    => (natural? rest).map fun (n, rest) => (number (-n), rest)
  | cs             => (natural? cs).map fun (n, rest) => (number n, rest)

theorem text?_length (h : text? cs = some (text, rest)) : rest.length < cs.length := by
  fun_induction text? cs generalizing text
  case case1 => cases h
  case case2 => cases h; exact Nat.lt_succ_self _
  case case3 => cases h
  case case4 he hi =>
    have ⟨_, ht, h⟩ := Option.map_eq_some_iff.mp h
    cases h
    exact Nat.lt_trans (hi ht) <| Nat.lt_succ_of_lt he
  case case5 => cases h
  case case6 hi =>
    have ⟨_, ht, h⟩ := Option.map_eq_some_iff.mp h
    cases h
    exact Nat.lt_succ_of_lt <| hi ht

theorem natural?_length (h : natural? cs = some (n, rest)) : rest.length < cs.length := by
  simp only [natural?] at h
  split at h
  case isTrue => cases h
  case isFalse hd =>
    cases h
    have := List.length_pos_iff.mpr (not_or.mp hd).left
    have := congrArg List.length (List.takeWhile_append_dropWhile (p := Char.isDigit) (l := cs))
    simp only [List.length_append] at this
    omega

theorem scan?_length (h : scan? cs = some (l, rest)) : rest.length < cs.length := by
  unfold scan? at h
  split at h
  case h_7 => cases h; simp only [List.length_cons]; omega
  case h_8 =>
    have ⟨_, ht, h⟩ := Option.map_eq_some_iff.mp h
    cases h
    exact Nat.lt_succ_of_lt <| text?_length ht
  case h_9 =>
    have ⟨_, ht, h⟩ := Option.map_eq_some_iff.mp h
    cases h
    exact Nat.lt_succ_of_lt <| natural?_length ht
  case h_10 =>
    have ⟨_, ht, h⟩ := Option.map_eq_some_iff.mp h
    cases h
    exact natural?_length ht
  all_goals cases h; exact Nat.lt_succ_self _

end Lexeme

-- An array or object around the value that is read, with what stands before that value in it.
inductive Frame where
  | item (items : List Json)
  | member (members : List (String × Json)) (key : String)

-- What has been read, and what has to come next:
-- 1. a value
-- 2. the first item of an array, or its end
-- 3. a comma or the end of what is around `j`, or nothing more
-- 4. the first key of an object, or its end
-- 5. a key
-- 6. the colon after a key
inductive Reader where
  | value (frames : List Frame)
  | firstItem (frames : List Frame)
  | done (frames : List Frame) (j : Json)
  | firstKey (frames : List Frame)
  | key (frames : List Frame) (members : List (String × Json))
  | colon (frames : List Frame) (members : List (String × Json)) (key : String)

namespace Reader

def start (frames : List Frame) : Lexeme → Option Reader
  | .null        => some (done frames .null)
  | .number n    => some (done frames (.number n))
  | .string text => some (done frames (.string text))
  | .openArray   => some (firstItem frames)
  | .openObject  => some (firstKey frames)
  | _            => none

def step : Reader → Lexeme → Option Reader
  | value fs, l                             => start fs l
  | firstItem fs, .closeArray               => some (done fs (.array []))
  | firstItem fs, l                         => start (.item [] :: fs) l
  | done (.item js :: fs) j, .comma         => some (value (.item (js ++ [j]) :: fs))
  | done (.item js :: fs) j, .closeArray    => some (done fs (.array (js ++ [j])))
  | done (.member ms k :: fs) j, .comma     => some (key fs (ms ++ [(k, j)]))
  | done (.member ms k :: fs) j, .closeObject => some (done fs (.object (ms ++ [(k, j)])))
  | firstKey fs, .closeObject               => some (done fs (.object []))
  | firstKey fs, .string k                  => some (colon fs [] k)
  | key fs ms, .string k                    => some (colon fs ms k)
  | colon fs ms k, .colon                   => some (value (.member ms k :: fs))
  | _, _                                    => none

def result? : Reader → Option Json
  | done [] j => some j
  | _         => none

-- Reads lexeme after lexeme, with any blanks between them.
def run (r : Reader) (cs : List Char) : Option Json :=
  match cs with
  | []      => r.result?
  | c :: cs =>
    if Lexeme.isBlank c then
      run r cs
    else match h : Lexeme.scan? (c :: cs) with
      | none           => none
      | some (l, rest) =>
        have := Lexeme.scan?_length h
        (r.step l).bind (run · rest)
termination_by cs.length
decreasing_by
  · exact Nat.lt_succ_self _
  · assumption

end Reader

def read? (text : String) : Option Json :=
  Reader.run (.value []) text.toList

-- What is written of a text, without regard to the pieces.
def quote (text : String) : List Char :=
  '"' :: text.toList.flatMap escape ++ ['"']

mutual

-- What is written of a value, without regard to the pieces.
def chars : Json → List Char
  | null          => ['n', 'u', 'l', 'l']
  | number n      => n.repr.toList
  | string text   => quote text
  | array []      => ['[', ']']
  | array (j :: js) => '[' :: j.chars ++ itemChars js ++ [']']
  | object []     => ['\x7b', '\x7d']
  | object ((key, j) :: ms) => '\x7b' :: quote key ++ ':' :: j.chars ++ memberChars ms ++ ['\x7d']

def itemChars : List Json → List Char
  | []      => []
  | j :: js => ',' :: j.chars ++ itemChars js

def memberChars : List (String × Json) → List Char
  | []             => []
  | (key, j) :: ms => ',' :: quote key ++ ':' :: j.chars ++ memberChars ms

end

theorem flatten_quotePieces (text : String) : (quotePieces text).flatten = quote text := by
  have h (runs : List (List Char)) :
      (runs.map (·.flatMap escape)).flatten = runs.flatten.flatMap escape := by
    rw [← List.flatMap_id (L := runs), List.flatMap_assoc, List.flatMap_def]
    rfl
  simp [quotePieces, quote, h, List.flatten_splitBy]

mutual

theorem flatten_pieces : (j : Json) → j.pieces.flatten = j.chars
  | null | number _ | array [] | object [] => by simp [pieces, chars]
  | string text => by simp [pieces, chars, flatten_quotePieces]
  | array (j :: js) => by simp [pieces, chars, flatten_pieces j, flatten_itemPieces js]
  | object ((key, j) :: ms) => by
    simp [pieces, chars, flatten_quotePieces, flatten_pieces j, flatten_memberPieces ms]

theorem flatten_itemPieces : (js : List Json) → (itemPieces js).flatten = itemChars js
  | []      => rfl
  | j :: js => by simp [itemPieces, itemChars, flatten_pieces j, flatten_itemPieces js]

theorem flatten_memberPieces :
    (ms : List (String × Json)) → (memberPieces ms).flatten = memberChars ms
  | []             => rfl
  | (key, j) :: ms => by
    simp [memberPieces, memberChars, flatten_quotePieces, flatten_pieces j, flatten_memberPieces ms]

end

theorem render_eq (j : Json) : j.render = String.ofList j.chars :=
  congrArg String.ofList j.flatten_pieces

namespace Lexeme

theorem hexDigit?_digitChar (h : d < 16) : hexDigit? d.digitChar = some d := by
  have hd : ∀ d : Fin 16, hexDigit? d.val.digitChar = some d.val := by decide
  exact hd ⟨d, h⟩

theorem codeUnit?_control (h : n < 0x20) :
    codeUnit? ['0', '0', (n / 16).digitChar, (n % 16).digitChar] = some n := by
  have hz : hexDigit? '0' = some 0 := rfl
  have hh := hexDigit?_digitChar (d := n / 16) (by omega)
  have hl := hexDigit?_digitChar (d := n % 16) (by omega)
  simp [codeUnit?, List.foldlM, hz, hh, hl]
  omega

-- A character can be read back from what it is written as.
theorem escaped?_control {c : Char} (h : c.toNat < 0x20) (cs : List Char) :
    escaped? ('u' :: '0' :: '0' :: (c.toNat / 16).digitChar :: (c.toNat % 16).digitChar :: cs) =
      some (c, cs) := by
  have hs : ¬(0xD800 ≤ c.toNat ∧ c.toNat < 0xE000) := by omega
  simp [escaped?, unicode?, codeUnit?_control h, hs, Char.ofNat_toNat]

theorem text?_escaped (h : escaped? cs = some (c, rest)) :
    text? ('\\' :: cs) = (text? rest).map fun (cs, rest) => (c :: cs, rest) := by
  rw [text?]
  split
  case h_1 he => cases h.symm.trans he
  case h_2 he => cases h.symm.trans he; rfl

theorem text?_escape (c : Char) (cs : List Char) :
    text? (escape c ++ cs) = (text? cs).map fun (text, rest) => (c :: text, rest) := by
  unfold escape
  split
  case h_8 c hq hb _ _ _ _ _ =>
    split
    case isTrue hc => exact text?_escaped <| escaped?_control hc cs
    case isFalse hc =>
      rw [List.singleton_append, text?]
      · simp only [hc, if_false]
      · exact fun h => hq h
      · exact fun h => hb h
  all_goals exact text?_escaped rfl

theorem text?_quoted (text : List Char) (rest : List Char) :
    text? (text.flatMap escape ++ '"' :: rest) = some (text, rest) := by
  induction text
  case nil          => rw [List.flatMap_nil, List.nil_append, text?]
  case cons c cs hi => rw [List.flatMap_cons, List.append_assoc, text?_escape, hi]; rfl

theorem scan?_quote (text : String) (rest : List Char) :
    scan? (quote text ++ rest) = some (string text, rest) := by
  simp [quote, scan?, text?_quoted]

-- A number can be told from what comes after it.
def Apart (rest : List Char) : Prop :=
  ∀ c ∈ rest.head?, c.isDigit = false

theorem head?_toDigits_ne_zero (n : Nat) (h : 0 < n) : (Nat.toDigits 10 n).head? ≠ some '0' := by
  induction n using Nat.strongRecOn
  case ind n hi =>
    by_cases hn : n < 10
    case pos => simp [Nat.toDigits_of_lt_base hn, Nat.digitChar_eq_zero, Nat.ne_of_gt h]
    case neg =>
      have := hi (n / 10) (by omega) (by omega)
      rw [Nat.toDigits_of_base_le (by decide) (by omega)]
      rwa [List.head?_append, Option.or_of_isSome (by simp [Nat.toDigits_ne_nil])]

theorem natural?_toDigits (n : Nat) (hr : Apart rest) :
    natural? (Nat.toDigits 10 n ++ rest) = some (n, rest) := by
  have hd : ∀ c ∈ Nat.toDigits 10 n, c.isDigit := fun _ => Literal.isDigit_of_mem_toDigits
  have hz : (Nat.toDigits 10 n).head? = some '0' → Nat.toDigits 10 n = ['0'] := by
    cases n
    case zero   => exact fun _ => rfl
    case succ n => exact fun h => absurd h <| head?_toDigits_ne_zero _ (Nat.succ_pos n)
  have hr : rest.takeWhile Char.isDigit = [] ∧ rest.dropWhile Char.isDigit = rest := by
    cases rest
    case nil         => exact ⟨rfl, rfl⟩
    case cons c rest => simp [hr c rfl]
  simp only [natural?, List.takeWhile_append_of_pos hd, List.dropWhile_append_of_pos hd, hr,
    List.append_nil, Nat.ofDigitChars_ten_toDigits]
  exact if_neg <| not_or.mpr ⟨Nat.toDigits_ne_nil, fun h => h.right <| hz h.left⟩

theorem scan?_digits {cs : List Char} (hc : c.isDigit) :
    scan? (c :: cs) = (natural? (c :: cs)).map fun (n, rest) => (number n, rest) := by
  unfold scan?
  split
  case h_10 => rfl
  all_goals
    rename_i h
    cases h
    exact absurd hc (by decide)

theorem scan?_repr (hr : Apart rest) :
    (n : Int) → scan? (n.repr.toList ++ rest) = some (number n, rest)
  | .negSucc n => by
    simp only [Literal.toList_repr_negSucc, List.cons_append, scan?, natural?_toDigits _ hr]
    rfl
  | .ofNat n => by
    have hn := natural?_toDigits n hr
    have hd : ∀ c ∈ Nat.toDigits 10 n, c.isDigit := fun _ => Literal.isDigit_of_mem_toDigits
    rw [Literal.toList_repr_ofNat]
    cases h : Nat.toDigits 10 n
    case nil => exact absurd h Nat.toDigits_ne_nil
    case cons c cs =>
      rw [h] at hn hd
      rw [List.cons_append, scan?_digits (hd c List.mem_cons_self), ← List.cons_append, hn]
      rfl

-- No lexeme starts with a blank.
theorem scan?_blank (h : isBlank c) (cs : List Char) : scan? (c :: cs) = none := by
  simp only [isBlank, Bool.or_eq_true, beq_iff_eq] at h
  rcases h with ((rfl | rfl) | rfl) | rfl <;> rfl

end Lexeme

namespace Reader

variable {r r' : Reader} {fs : List Frame} {rest : List Char}

theorem run_scan (hs : Lexeme.scan? cs = some (l, rest)) (h : r.step l = some r') :
    r.run cs = r'.run rest := by
  cases cs
  case nil => cases hs
  case cons c cs =>
    have hb : ¬Lexeme.isBlank c := fun hb => nomatch (Lexeme.scan?_blank hb cs).symm.trans hs
    rw [run, if_neg hb]
    split
    case h_1 hn  => cases hs.symm.trans hn
    case h_2 hs' => cases hs.symm.trans hs'; simp only [h, Option.bind_some]

-- The reader takes the beginning of a value, within the frames `fs`.
def Starts (r : Reader) (fs : List Frame) : Prop :=
  ∀ l r', start fs l = some r' → r.step l = some r'

theorem starts_value (fs : List Frame) : (value fs).Starts fs :=
  fun _ _ h => h

theorem starts_firstItem (fs : List Frame) : (firstItem fs).Starts (.item [] :: fs) := by
  intro l _ h
  cases l
  case closeArray => cases h
  all_goals exact h

theorem run_quote (h : r.step (.string k) = some (colon fs ms k)) (cs : List Char) :
    r.run (quote k ++ ':' :: cs) = (value (.member ms k :: fs)).run cs :=
  (run_scan (Lexeme.scan?_quote k _) h).trans <| run_scan rfl rfl

theorem apart_itemChars (js : List Json) (rest : List Char) :
    Lexeme.Apart (itemChars js ++ ']' :: rest) := by
  cases js <;> simp [itemChars, Lexeme.Apart]

theorem apart_memberChars (ms : List (String × Json)) (rest : List Char) :
    Lexeme.Apart (memberChars ms ++ '\x7d' :: rest) := by
  cases ms <;> simp [memberChars, Lexeme.Apart]

mutual

-- A value is read back from what it is written as, whatever is around it.
theorem run_chars : (j : Json) → ∀ {r fs rest}, Starts r fs → Lexeme.Apart rest →
    r.run (j.chars ++ rest) = (done fs j).run rest
  | .null, _, _, _, h, _ => by
    rw [chars]
    exact run_scan rfl <| h _ _ rfl
  | .number n, _, _, _, h, hr => by
    rw [chars]
    exact run_scan (Lexeme.scan?_repr hr n) <| h _ _ rfl
  | .string text, _, _, _, h, _ => by
    rw [chars]
    exact run_scan (Lexeme.scan?_quote text _) <| h _ _ rfl
  | .array [], _, _, _, h, _ => by
    rw [chars]
    exact (run_scan rfl <| h _ _ rfl).trans <| run_scan rfl rfl
  | .array (j :: js), _, fs, rest, h, _ => by
    have hj := run_chars j (starts_firstItem fs) (apart_itemChars js rest)
    simp only [chars, List.cons_append, List.append_assoc]
    exact (run_scan rfl <| h _ _ rfl).trans <| hj.trans <| run_itemChars js
  | .object [], _, _, _, h, _ => by
    rw [chars]
    exact (run_scan rfl <| h _ _ rfl).trans <| run_scan rfl rfl
  | .object ((k, j) :: ms), _, fs, rest, h, _ => by
    have hj := run_chars j (starts_value (.member [] k :: fs)) (apart_memberChars ms rest)
    simp only [chars, List.cons_append, List.append_assoc]
    exact (run_scan rfl <| h _ _ rfl).trans <| (run_quote rfl _).trans <| hj.trans <|
      run_memberChars ms

theorem run_itemChars : (js : List Json) → ∀ {before j fs rest},
    (done (.item before :: fs) j).run (itemChars js ++ ']' :: rest) =
      (done fs (.array (before ++ j :: js))).run rest
  | [], _, _, _, _ => by
    rw [itemChars]
    exact run_scan rfl rfl
  | j' :: js, before, j, fs, rest => by
    have hj := run_chars j' (starts_value (.item (before ++ [j]) :: fs)) (apart_itemChars js rest)
    rw [run_itemChars js, List.append_assoc] at hj
    simp only [itemChars, List.cons_append, List.append_assoc]
    exact (run_scan rfl rfl).trans hj

theorem run_memberChars : (ms : List (String × Json)) → ∀ {before k j fs rest},
    (done (.member before k :: fs) j).run (memberChars ms ++ '\x7d' :: rest) =
      (done fs (.object (before ++ (k, j) :: ms))).run rest
  | [], _, _, _, _, _ => by
    rw [memberChars]
    exact run_scan rfl rfl
  | (k', j') :: ms, before, k, j, fs, rest => by
    have hj := run_chars j' (starts_value (.member (before ++ [(k, j)]) k' :: fs))
      (apart_memberChars ms rest)
    rw [run_memberChars ms, List.append_assoc] at hj
    simp only [memberChars, List.cons_append, List.append_assoc]
    exact (run_scan rfl rfl).trans <| (run_quote rfl _).trans hj

end

end Reader

-- Every value can be read back from its text.
theorem read?_render (j : Json) : read? j.render = some j := by
  have ha : Lexeme.Apart [] := nofun
  have h := Reader.run_chars j (Reader.starts_value []) ha
  rw [List.append_nil] at h
  rw [read?, render_eq, String.toList_ofList, h, Reader.run]
  rfl

example : read? " [ -1,null ] " = some (.array [.number (-1), .null]) := by
  cbv

theorem render_injective {j j' : Json} (h : j.render = j'.render) : j = j' := by
  have hj := read?_render j
  rw [h, read?_render] at hj
  exact (Option.some.inj hj).symm

end LispBuiltins.Json
