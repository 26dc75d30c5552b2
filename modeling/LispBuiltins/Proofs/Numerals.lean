import Mathlib.Algebra.Ring.Int.Defs
import LispBuiltins.Proofs.Literals

namespace LispBuiltins.Literal

-- Decimal digits, at least one of them, and the number that they spell.
inductive Spells : List Char → Nat → Prop
  | digit (hd : d < 10) : Spells [d.digitChar] d
  | concat (hs : Spells digits n) (hd : d < 10) : Spells (digits ++ [d.digitChar]) (10 * n + d)

-- Decimal digits with at most one sign before them, and the number that they stand for.
inductive Numeral : List Char → Int → Prop
  | unsigned (h : Spells digits n) : Numeral digits n
  | plus (h : Spells digits n) : Numeral ('+' :: digits) n
  | minus (h : Spells digits n) : Numeral ('-' :: digits) (-n)

def FitsWord (n : Int) : Prop :=
  -2 ^ 63 ≤ n ∧ n ≤ 2 ^ 63 - 1

-- A text of two characters or more that starts and ends with a double quote.
def Quoted (text : List Char) : Prop :=
  2 ≤ text.length ∧ text.head? = some '"' ∧ text.getLast? = some '"'

instance (text : List Char) : Decidable (Quoted text) :=
  inferInstanceAs <| Decidable (_ ∧ _ ∧ _)

-- The text that a token stands for, if it is a string.
def unquoted (token : String) : String :=
  if Quoted token.toList then String.ofList token.toList.tail.dropLast else token

variable {digits text : List Char} {token : String}

theorem exists_digitChar (h : c.isDigit) : ∃ d < 10, c = Nat.digitChar d := by
  have ⟨hl, hu⟩ := Char.isDigit_iff_toNat.mp h
  have h₀ : '0'.toNat = 48 := rfl
  have h₉ : '9'.toNat = 57 := rfl
  have hd : c.toNat - 48 < 10 := by omega
  refine ⟨c.toNat - 48, hd, Char.toNat_inj.mp ?_⟩
  rw [Nat.toNat_digitChar_of_lt_ten hd]
  omega

namespace Spells

theorem ne_nil (h : Spells digits n) : digits ≠ [] := by
  cases h <;> simp

theorem isDigit (h : Spells digits n) : ∀ c ∈ digits, c.isDigit := by
  induction h
  case digit hd => simp [Nat.isDigit_digitChar, hd]
  case concat hd hi =>
    intro c hc
    cases List.mem_append.mp hc
    case inl hc => exact hi c hc
    case inr hc => simp [List.mem_singleton.mp hc, Nat.isDigit_digitChar, hd]

theorem ofDigitChars_eq (h : Spells digits n) : Nat.ofDigitChars 10 digits 0 = n := by
  induction h
  case digit hd => simp [Nat.ofDigitChars_cons_digitChar_of_lt_ten hd]
  case concat hd hi =>
    rw [Nat.ofDigitChars_append, Nat.ofDigitChars_cons_digitChar_of_lt_ten hd, hi,
      Nat.ofDigitChars_nil]

-- Reading goes on with the number that the digits so far spell.
theorem append {more : List Char} (h : Spells digits n) (hm : ∀ c ∈ more, c.isDigit) :
    Spells (digits ++ more) (Nat.ofDigitChars 10 more n) := by
  induction more generalizing digits n
  case nil => simpa using h
  case cons c cs hi =>
    have ⟨hc, hcs⟩ := List.forall_mem_cons.mp hm
    have ⟨d, hd, he⟩ := exists_digitChar hc
    have := hi (h.concat hd) hcs
    rwa [List.append_assoc, ← he, ← Nat.ofDigitChars_cons_digitChar_of_lt_ten hd, ← he] at this

end Spells

theorem natural?_eq_some_iff : natural? digits = some n ↔ Spells digits n := by
  constructor
  case mp =>
    intro h
    unfold natural? at h
    split at h
    case isFalse => cases h
    case isTrue hd =>
      cases h
      -- The first digit spells a number by itself, and reading goes on from there.
      obtain ⟨c, cs, rfl⟩ := List.exists_cons_of_ne_nil hd.left
      have ⟨hc, hcs⟩ := List.forall_mem_cons.mp <| List.all_eq_true.mp hd.right
      have ⟨d, hd, he⟩ := exists_digitChar hc
      rw [he, Nat.ofDigitChars_cons_digitChar_of_lt_ten hd, Nat.mul_zero, Nat.zero_add]
      exact (Spells.digit hd).append hcs
  case mpr =>
    intro h
    have hd : digits ≠ [] ∧ digits.all Char.isDigit := ⟨h.ne_nil, List.all_eq_true.mpr h.isDigit⟩
    rw [natural?, if_pos hd, h.ofDigitChars_eq]

theorem integer?_eq_some_iff : integer? text = some n ↔ Numeral text n := by
  constructor
  case mp =>
    intro h
    unfold integer? at h
    split at h
    all_goals
      cases hn : natural? _ <;> rw [hn] at h <;> cases h
      have hs := natural?_eq_some_iff.mp hn
    case h_1.some.refl => exact .minus hs
    case h_2.some.refl => exact .plus hs
    case h_3.some.refl => exact .unsigned hs
  case mpr =>
    intro h
    cases h
    case unsigned h => simp only [integer?_of_digits h.isDigit, natural?_eq_some_iff.mpr h]; rfl
    case plus h     => simp only [integer?, natural?_eq_some_iff.mpr h]; rfl
    case minus h    => simp only [integer?, natural?_eq_some_iff.mpr h]; rfl

theorem word?_eq_none_iff : word? n = none ↔ ¬FitsWord n := by
  simp only [word?, FitsWord, Int64.toInt_minValue, Int64.toInt_maxValue, ite_eq_right_iff,
    reduceCtorEq, imp_false]

theorem fitsWord_toInt (w : Int64) : FitsWord w.toInt :=
  ⟨w.le_toInt, Int.le_sub_one_of_lt w.toInt_lt⟩

theorem FitsWord.exists_word (h : FitsWord n) : ∃ w : Int64, w.toInt = n :=
  ⟨.ofInt n, Int64.toInt_ofInt_of_le h.left (Int.lt_of_le_sub_one h.right)⟩

theorem unquote?_eq (text : List Char) :
    unquote? text = if Quoted text then some text.tail.dropLast else none := by
  unfold unquote?
  split
  case h_1 rest => cases rest <;> simp [Quoted]
  case h_2 h =>
    refine (if_neg fun hq => ?_).symm
    have ⟨rest, he⟩ := List.head?_eq_some_iff.mp hq.right.left
    exact h rest he

namespace Numeral

theorem not_quoted (h : Numeral text n) : ¬Quoted text := by
  intro ⟨_, hf, _⟩
  cases h
  case plus | minus => cases hf
  case unsigned h =>
    have hq := h.isDigit '"' (List.mem_of_head? hf)
    exact absurd hq (by decide)

theorem ne_nil (h : Numeral token.toList n) : token ≠ "nil" := by
  intro he
  have hn : integer? "nil".toList = none := by decide
  cases hn.symm.trans <| integer?_eq_some_iff.mpr (he ▸ h)

end Numeral

-- What a token stands for, told by its shape.
inductive StandsFor (token : String) : Except LiteralError Value → Prop
  | nil (h : token = "nil") : StandsFor token (.ok .nil)
  | integer (h : Numeral token.toList w.toInt) : StandsFor token (.ok (.integer w))
  | nothing (h : Numeral token.toList n) (hn : ¬FitsWord n) :
    StandsFor token (.error (.outOfRange token))
  | string (hn : token ≠ "nil") (h : ¬∃ n, Numeral token.toList n) :
    StandsFor token (.ok (.string (unquoted token)))

theorem exists_standsFor (token : String) : ∃ r, StandsFor token r := by
  by_cases hn : token = "nil"
  case pos => exact ⟨_, .nil hn⟩
  by_cases h : ∃ n, Numeral token.toList n
  case neg => exact ⟨_, .string hn h⟩
  have ⟨n, h⟩ := h
  by_cases hf : FitsWord n
  case neg => exact ⟨_, .nothing h hf⟩
  have ⟨w, hw⟩ := hf.exists_word
  exact ⟨_, .integer (hw ▸ h)⟩

theorem StandsFor.decode_eq (h : StandsFor token r) : decode token = r := by
  unfold decode
  rw [unquote?_eq, looksNumeric_eq, parse?]
  cases h
  case nil h => simp only [h]; rfl
  case integer h =>
    simp only [h.not_quoted, h.ne_nil, if_false, integer?_eq_some_iff.mpr h, Option.isSome_some,
      if_true, Option.bind_some, word?_toInt]
  case nothing h hn =>
    simp only [h.not_quoted, h.ne_nil, if_false, integer?_eq_some_iff.mpr h, Option.isSome_some,
      if_true, Option.bind_some, word?_eq_none_iff.mpr hn]
  case string hn h =>
    have hi : integer? token.toList = none :=
      Option.eq_none_iff_forall_ne_some.mpr fun n hn => h ⟨n, integer?_eq_some_iff.mp hn⟩
    by_cases hq : Quoted token.toList <;>
      simp only [unquoted, hq, hn, hi, if_true, if_false, Option.isSome_none, Bool.false_eq_true]

theorem decode_eq_iff : decode token = r ↔ StandsFor token r := by
  constructor
  case mpr => exact StandsFor.decode_eq
  case mp =>
    intro h
    have ⟨_, hs⟩ := exists_standsFor token
    exact h ▸ hs.decode_eq ▸ hs

theorem decode_eq_nil_iff : decode token = .ok .nil ↔ token = "nil" := by
  rw [decode_eq_iff]
  exact ⟨fun (.nil h) => h, .nil⟩

theorem decode_eq_integer_iff : decode token = .ok (.integer w) ↔ Numeral token.toList w.toInt := by
  rw [decode_eq_iff]
  exact ⟨fun (.integer h) => h, .integer⟩

theorem decode_eq_string_iff :
    decode token = .ok (.string s) ↔
      token ≠ "nil" ∧ (¬∃ n, Numeral token.toList n) ∧ s = unquoted token := by
  rw [decode_eq_iff]
  exact ⟨fun (.string hn h) => ⟨hn, h, rfl⟩, fun ⟨hn, h, hs⟩ => hs ▸ .string hn h⟩

-- A token that stands for no value.
def OutOfRange (token : String) : Prop :=
  ∃ n, Numeral token.toList n ∧ ¬FitsWord n

theorem decode_eq_error_iff : decode token = .error e ↔ OutOfRange token ∧ e = .outOfRange token := by
  rw [decode_eq_iff]
  exact ⟨fun (.nothing h hn) => ⟨⟨_, h, hn⟩, rfl⟩, fun ⟨⟨_, h, hn⟩, he⟩ => he ▸ .nothing h hn⟩

theorem OutOfRange.decode_eq (h : OutOfRange token) : decode token = .error (.outOfRange token) :=
  decode_eq_error_iff.mpr ⟨h, rfl⟩

-- Whatever the length of a numeral is, it is read exactly, and refused only if its number needs more
-- than 64 bits. No other token is refused.
theorem decode_exact (token : String) :
    (∀ n : Int, (∃ w : Int64, w.toInt = n ∧ decode token = .ok (.integer w)) ↔
      Numeral token.toList n ∧ -2 ^ 63 ≤ n ∧ n ≤ 2 ^ 63 - 1) ∧
    ((∃ e, decode token = .error e) ↔
      ∃ n, Numeral token.toList n ∧ ¬(-2 ^ 63 ≤ n ∧ n ≤ 2 ^ 63 - 1)) ∧
    (∀ e, decode token = .error e → e.message = "Integer literal out of range: " ++ token) ∧
    (decode token = .ok .nil ↔ token = "nil") ∧
    ∀ text, decode token = .ok (.string text) ↔
      token ≠ "nil" ∧ (¬∃ n, Numeral token.toList n) ∧
      text = if Quoted token.toList then String.ofList token.toList.tail.dropLast else token := by
  simp only [decode_eq_error_iff, decode_eq_integer_iff]
  refine ⟨fun n => ⟨fun ⟨w, hw, h⟩ => ?_, fun ⟨h, hn⟩ => ?_⟩, ?_, fun e he => ?_, decode_eq_nil_iff,
    fun text => decode_eq_string_iff⟩
  · exact hw ▸ ⟨h, fitsWord_toInt w⟩
  · have ⟨w, hw⟩ := FitsWord.exists_word hn
    exact ⟨w, hw, hw ▸ h⟩
  · exact ⟨fun ⟨_, h, _⟩ => h, fun h => ⟨_, h, rfl⟩⟩
  · rw [he.right]
    rfl

-- More zeros than any number of 64 bits has digits.
example : decode "-000000000000000000000000000009223372036854775808" =
    .ok (.integer Int64.minValue) := by
  rfl

end LispBuiltins.Literal
