import LispBuiltins.Literal

namespace LispBuiltins.Literal

theorem isDigit_of_mem_toDigits (h : c ∈ Nat.toDigits 10 n) : c.isDigit :=
  Nat.isDigit_of_mem_toDigits (by decide) (by decide) h

theorem toList_repr_ofNat (n : Nat) : (Int.ofNat n).repr.toList = Nat.toDigits 10 n :=
  Nat.toList_repr

theorem toList_repr_negSucc (n : Nat) :
    (Int.negSucc n).repr.toList = '-' :: Nat.toDigits 10 (n + 1) := by
  simp [Int.repr, Nat.toList_repr]

theorem natural?_toDigits (n : Nat) : natural? (Nat.toDigits 10 n) = some n := by
  have hd : (Nat.toDigits 10 n).all Char.isDigit :=
    List.all_eq_true.mpr fun _ => isDigit_of_mem_toDigits
  simp [natural?, Nat.toDigits_ne_nil, hd, Nat.ofDigitChars_ten_toDigits]

theorem isSome_natural? (digits : List Char) :
    (natural? digits).isSome = (!digits.isEmpty && digits.all Char.isDigit) := by
  unfold natural?
  split <;> simp_all

-- What looks like a number is one.
theorem looksNumeric_eq (token : List Char) : looksNumeric token = (integer? token).isSome := by
  unfold looksNumeric integer?
  split <;> simp only [Option.isSome_map, isSome_natural?]

-- Digits without a sign stand for a natural number.
theorem integer?_of_digits {digits : List Char} (h : ∀ c ∈ digits, c.isDigit) :
    integer? digits = (natural? digits).map Int.ofNat := by
  unfold integer?
  split
  case h_1 => exact absurd (h '-' List.mem_cons_self) (by decide)
  case h_2 => exact absurd (h '+' List.mem_cons_self) (by decide)
  case h_3 => rfl

theorem integer?_repr : (n : Int) → integer? n.repr.toList = some n
  | .ofNat n => by
    have hd := integer?_of_digits fun _ => isDigit_of_mem_toDigits (n := n)
    simp only [toList_repr_ofNat, hd, natural?_toDigits, Option.map_some]
  | .negSucc n => by
    simp only [toList_repr_negSucc, integer?, natural?_toDigits]
    rfl

theorem word?_toInt (n : Int64) : word? n.toInt = some n := by
  simp only [word?, n.minValue_le_toInt, n.toInt_le, and_self, if_true, Int64.ofInt_toInt]

theorem unquote?_quoted (text : List Char) : unquote? ('"' :: text ++ ['"']) = some text := by
  simp [unquote?]

theorem unquote?_repr (n : Int) : unquote? n.repr.toList = none := by
  unfold unquote?
  split
  case h_2 => rfl
  case h_1 rest h =>
    exfalso
    cases n
    case negSucc n => simp [toList_repr_negSucc] at h
    case ofNat n   =>
      have hc : '"' ∈ Nat.toDigits 10 n := by
        simp only [← toList_repr_ofNat, h, List.mem_cons_self]
      exact absurd (isDigit_of_mem_toDigits hc) (by decide)

theorem repr_ne_nil (n : Int) : n.repr ≠ "nil" := by
  intro h
  have hn : integer? "nil".toList = none := by decide
  have := integer?_repr n
  simp only [h, hn] at this
  cases this

theorem decode_encode : (v : Value) → decode (encode v) = .ok v
  | .nil         => rfl
  | .string text => by
    have h : (encode (.string text)).toList = '"' :: text.toList ++ ['"'] := by simp [encode]
    simp only [decode, h, unquote?_quoted, String.ofList_toList]
  | .integer n   => by
    simp only [encode, decode, unquote?_repr, repr_ne_nil, if_false, looksNumeric_eq, parse?,
      integer?_repr, Option.isSome_some, if_true, Option.bind_some, word?_toInt]

theorem decode_error (h : decode token = .error e) : e = .outOfRange token := by
  unfold decode at h
  repeat' split at h
  all_goals cases h
  rfl

theorem decodeAll_cons (token : String) (tokens : List String) :
    decodeAll (token :: tokens) =
      match decode token, decodeAll tokens with
      | .error e, _      => .error e
      | .ok _, .error e  => .error e
      | .ok v, .ok vs    => .ok (v :: vs) := by
  simp only [decodeAll, List.mapM_cons]
  cases decode token <;> cases tokens.mapM decode <;> rfl

-- The tokens are looked at from left to right, up to the first one that stands for no value.
theorem decodeAll_error {tokens : List String} (h : decodeAll tokens = .error e) :
    ∃ before token after, tokens = before ++ token :: after ∧
      (∀ t ∈ before, ∃ v, decode t = .ok v) ∧ decode token = .error e := by
  induction tokens
  case nil => cases h
  case cons t ts hi =>
    simp only [decodeAll_cons] at h
    cases ht : decode t
    case error =>
      simp only [ht] at h
      cases h
      exact ⟨[], t, ts, rfl, by simp, ht⟩
    case ok v =>
      cases hts : decodeAll ts <;> rw [ht, hts] at h <;> cases h
      have ⟨before, token, after, he, hb, hd⟩ := hi hts
      refine ⟨t :: before, token, after, by simp [he], ?_, hd⟩
      rintro u (_ | ⟨_, hu⟩)
      · exact ⟨v, ht⟩
      · exact hb u hu

theorem decodeAll_ok {tokens : List String} (h : decodeAll tokens = .ok vs) (ht : t ∈ tokens) :
    ∃ v, decode t = .ok v := by
  induction tokens generalizing vs
  case nil => cases ht
  case cons u us hi =>
    rw [decodeAll_cons] at h
    cases hu : decode u <;> cases hus : decodeAll us <;> rw [hu, hus] at h <;> cases h
    cases ht
    case head   => exact ⟨_, hu⟩
    case tail h => exact hi hus h

end LispBuiltins.Literal
