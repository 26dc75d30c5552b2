import LispBuiltins.Proofs.Division
import LispBuiltins.Proofs.Wrapping

namespace LispBuiltins

namespace RingOp

variable (op : RingOp) (a b : Int64)

theorem ofInt_onIntegers_toInt :
    Int64.ofInt (op.onIntegers a.toInt b.toInt) = op.onWords a b := by
  simp only [ofInt_onIntegers, Int64.ofInt_toInt]

theorem toInt_onWords_modEq :
    (op.onWords a b).toInt ≡ op.onIntegers a.toInt b.toInt [ZMOD 2 ^ 64] :=
  op.ofInt_onIntegers_toInt a b ▸ toInt_ofInt_modEq _

-- Nothing wraps around just where the exact result has 64 bits.
theorem toInt_onWords_eq_iff :
    (op.onWords a b).toInt = op.onIntegers a.toInt b.toInt ↔
      -2 ^ 63 ≤ op.onIntegers a.toInt b.toInt ∧ op.onIntegers a.toInt b.toInt < 2 ^ 63 := by
  simp only [← ofInt_onIntegers_toInt, toInt_ofInt_eq_iff, Int.ModEq.refl, and_true]

end RingOp

-- A sum that wraps around is less than each of its summands.
theorem add_lt_iff (a : Int64) {b : Int64} (h : 0 ≤ b.toInt) :
    a + b < a ↔ 2 ^ 63 ≤ a.toInt + b.toInt := by
  have hm := RingOp.plus.toInt_onWords_modEq a b
  have := (a + b).le_toInt
  have := (a + b).toInt_lt
  have := a.toInt_lt
  have := b.toInt_lt
  simp only [RingOp.onWords, RingOp.onIntegers, Int.ModEq] at hm
  simp only [Int64.lt_iff_toInt_lt]
  omega

-- A difference that wraps around has the wrong sign.
theorem sub_neg_iff_lt_iff (a b : Int64) :
    (a - b < 0 ↔ a < b) ↔ -2 ^ 63 ≤ a.toInt - b.toInt ∧ a.toInt - b.toInt < 2 ^ 63 := by
  have hm := RingOp.minus.toInt_onWords_modEq a b
  have := (a - b).le_toInt
  have := (a - b).toInt_lt
  have := a.le_toInt
  have := a.toInt_lt
  have := b.le_toInt
  have := b.toInt_lt
  simp only [RingOp.onWords, RingOp.onIntegers, Int.ModEq] at hm
  simp only [Int64.lt_iff_toInt_lt, Int64.toInt_zero]
  omega

-- A product that wraps around is off by at least 2 ^ 64, and a remainder is too small for that.
theorem toInt_mul_of_tdiv {a b : Int64} (hb : b.toInt ≠ 0)
    (h : (a * b).toInt.tdiv b.toInt = a.toInt) : (a * b).toInt = a.toInt * b.toInt := by
  have hm := RingOp.multiply.toInt_onWords_modEq a b
  have hr := (a * b).toInt.tdiv_mul_add_tmod b.toInt
  have hl := Nat.mod_lt (a * b).toInt.natAbs (Int.natAbs_pos.mpr hb)
  have := b.le_toInt
  have := b.toInt_lt
  simp only [RingOp.onWords, RingOp.onIntegers, Int.ModEq] at hm
  simp only [h] at hr
  simp only [← Int.natAbs_tmod] at hl
  omega

-- A quotient gives the factor back unless the product wraps around. The least number times -1 wraps
-- around, and so does the quotient by -1 after it.
theorem mul_div_eq_iff (a : Int64) {b : Int64} (hb : b.toInt ≠ 0) :
    a * b / b = a ↔
      (-2 ^ 63 ≤ a.toInt * b.toInt ∧ a.toInt * b.toInt < 2 ^ 63) ∨
        a.toInt = -2 ^ 63 ∧ b.toInt = -1 := by
  have hp := RingOp.multiply.toInt_onWords_eq_iff a b
  have hq := toInt_quotient (a * b) b
  simp only [RingOp.onWords, RingOp.onIntegers] at hp
  simp only [← hp, ← Int64.toInt_inj]
  constructor
  case mp =>
    intro h
    split at hq
    case isTrue hw => exact .inr ⟨h ▸ hq, hw.right⟩
    case isFalse   => exact .inl <| toInt_mul_of_tdiv hb (hq ▸ h)
  case mpr =>
    rintro (h | ⟨ha, hb⟩)
    case inl =>
      have hw : ¬((a * b).toInt = -2 ^ 63 ∧ b.toInt = -1) := by
        intro ⟨hw, hn⟩
        have := a.toInt_lt
        rw [h, hn] at hw
        omega
      rw [hq, if_neg hw, h, Int.mul_tdiv_cancel _ hb]
    case inr =>
      have ha : a = Int64.minValue := Int64.toInt_inj.mp ha
      have hb : b = -1 := Int64.toInt_inj.mp hb
      rw [ha, hb]
      rfl

namespace Value

theorem ofBool_inj {p q : Bool} : ofBool p = ofBool q ↔ p = q := by
  cases p <;> cases q <;> decide

-- What a program can find out by itself about a result that needs more than 64 bits.
theorem overflow_detection (a b : Int64) :
    (b ≠ 0 →
      (((integer a).multiply (integer b) >>= (·.divide (integer b))) = .ok (integer a) ↔
        (-2 ^ 63 ≤ a.toInt * b.toInt ∧ a.toInt * b.toInt < 2 ^ 63) ∨
          a.toInt = -2 ^ 63 ∧ b.toInt = -1)) ∧
    (((integer a).subtract (integer b) >>= (·.lessThan (integer 0))) =
        (integer a).lessThan (integer b) ↔
      -2 ^ 63 ≤ a.toInt - b.toInt ∧ a.toInt - b.toInt < 2 ^ 63) ∧
    (0 ≤ b.toInt →
      (((integer a).add (integer b) >>= (·.lessThan (integer a))) = .ok (integer 1) ↔
        2 ^ 63 ≤ a.toInt + b.toInt)) := by
  refine ⟨fun hb => ?_, ?_, fun hb => ?_⟩
  · have hz : b.toInt ≠ 0 := fun h => hb (Int64.toInt_inj.mp h)
    have hd : ((integer a).multiply (integer b) >>= (·.divide (integer b))) =
        .ok (integer (a * b / b)) := if_neg hb
    simp only [hd, Except.ok.injEq, integer.injEq, mul_div_eq_iff a hz]
  · have hd : ((integer a).subtract (integer b) >>= (·.lessThan (integer 0))) =
        .ok (ofBool (a - b < 0)) := rfl
    have hl : (integer a).lessThan (integer b) = .ok (ofBool (a < b)) := rfl
    simp only [hd, hl, Except.ok.injEq, ofBool_inj, decide_eq_decide, sub_neg_iff_lt_iff]
  · have hs : ((integer a).add (integer b) >>= (·.lessThan (integer a))) =
        .ok (ofBool (a + b < a)) := rfl
    have ht : integer 1 = ofBool true := rfl
    simp only [hs, ht, Except.ok.injEq, ofBool_inj, decide_eq_true_eq, add_lt_iff a hb]

end Value
end LispBuiltins
