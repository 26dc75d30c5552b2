import Mathlib.Data.Int.ModEq
import LispBuiltins.Proofs.Expression

namespace LispBuiltins

open Printing

theorem toInt_ofInt_modEq (n : Int) : (Int64.ofInt n).toInt ≡ n [ZMOD 2 ^ 64] := by
  rw [Int64.toInt_ofInt]
  exact Int.bmod_emod

theorem ofInt_eq_of_modEq {m n : Int} (h : m ≡ n [ZMOD 2 ^ 64]) : Int64.ofInt m = Int64.ofInt n := by
  have hb : m.bmod Int64.size = n.bmod Int64.size := by
    rw [← Int.emod_bmod m, ← Int.emod_bmod n]
    exact congrArg (Int.bmod · Int64.size) h
  rw [← Int64.toInt_inj, Int64.toInt_ofInt, Int64.toInt_ofInt, hb]

-- Of all numbers that are equal modulo 2 ^ 64, a word is the one that has 64 bits.
theorem toInt_ofInt_eq_iff {m n : Int} :
    (Int64.ofInt m).toInt = n ↔ -2 ^ 63 ≤ n ∧ n < 2 ^ 63 ∧ n ≡ m [ZMOD 2 ^ 64] := by
  constructor
  case mp  => exact fun h => h ▸ ⟨Int64.le_toInt _, Int64.toInt_lt _, toInt_ofInt_modEq m⟩
  case mpr =>
    intro ⟨hl, hu, h⟩
    rw [← ofInt_eq_of_modEq h, Int64.toInt_ofInt_of_le hl hu]

-- Operators that wrap around where a result needs more than 64 bits.
inductive RingOp where
  | plus
  | minus
  | multiply

namespace RingOp

def builtin : RingOp → Builtin
  | plus     => .plus
  | minus    => .minus
  | multiply => .multiply

def onWords : RingOp → Int64 → Int64 → Int64
  | plus, m, n     => m + n
  | minus, m, n    => m - n
  | multiply, m, n => m * n

def onIntegers : RingOp → Int → Int → Int
  | plus, m, n     => m + n
  | minus, m, n    => m - n
  | multiply, m, n => m * n

theorem ofInt_onIntegers (op : RingOp) (m n : Int) :
    Int64.ofInt (op.onIntegers m n) = op.onWords (.ofInt m) (.ofInt n) := by
  cases op
  case plus     => exact Int64.ofInt_add m n
  case minus    => exact Int64.ofInt_sub m n
  case multiply => exact Int64.ofInt_mul m n

theorem silent_call (op : RingOp) (x y : Value) :
    Silent (op.builtin.call [x, y] : Printing Value)
      ((Value.operands op.builtin.name x y).map fun (m, n) => .integer (op.onWords m n)) := by
  cases op <;> exact .lift _

end RingOp

-- Something else was found where an integer was expected.
inductive CallError.Misfit : CallError → Prop
  | intro (h : found ≠ .integer) : Misfit (.wrongKind operation position .integer found)

theorem Value.operands_misfit (operation : String)
    (h : ¬(x.kind = .integer ∧ y.kind = .integer)) :
    ∃ e, operands operation x y = .error e ∧ e.Misfit := by
  cases x
  case string | nil => exact ⟨_, rfl, ⟨nofun⟩⟩
  case integer =>
    cases y
    case string | nil => exact ⟨_, rfl, ⟨nofun⟩⟩
    case integer      => exact absurd ⟨rfl, rfl⟩ h

-- Sums, differences and products of values, nested in any way.
inductive Arithmetic where
  | leaf (v : Value)
  | node (op : RingOp) (x y : Arithmetic)

namespace Arithmetic

def expr : Arithmetic → Expr
  | leaf v      => .literal v
  | node op x y => .apply op.builtin fun k => if k.val = 0 then x.expr else y.expr

-- The value over integers without a bound. A leaf that is no integer has none, and counts as zero.
def value : Arithmetic → Int
  | leaf (.integer n) => n.toInt
  | leaf _            => 0
  | node op x y       => op.onIntegers x.value y.value

variable {t x y : Arithmetic}

theorem integral_node : (node op x y).expr.Integral ↔ x.expr.Integral ∧ y.expr.Integral := by
  cases op <;> exact Fin.forall_fin_two

theorem eval_node (op : RingOp) (x y : Arithmetic) :
    (node op x y).expr.eval =
      x.expr.eval >>= fun v => y.expr.eval >>= fun w => op.builtin.call [v, w] := by
  have hm : (List.finRange op.builtin.arity).mapM
      (fun k => (if k.val = 0 then x.expr else y.expr).eval) =
        x.expr.eval >>= fun v => y.expr.eval >>= fun w => return [v, w] := by
    cases op <;> rfl
  simp only [expr, Expr.eval, hm, bind_assoc, pure_bind]

-- To wrap around at every step comes to the same as to wrap around once, at the end.
theorem silent_eval (h : t.expr.Integral) :
    Silent t.expr.eval (.ok (.integer (.ofInt t.value))) := by
  induction t
  case leaf v =>
    obtain ⟨n, rfl⟩ := Value.eq_integer h
    simp only [value, Int64.ofInt_toInt]
    exact .pure _
  case node op x y hx hy =>
    have ⟨hix, hiy⟩ := integral_node.mp h
    simp only [eval_node, (hx hix).bind_ok, (hy hiy).bind_ok, value, op.ofInt_onIntegers]
    exact op.silent_call _ _

theorem integral_of_kind (h : t = leaf v ∨ t.expr.Integral) (hk : v.kind = .integer) :
    t.expr.Integral := by
  cases h
  case inl h => exact h ▸ hk
  case inr h => exact h

-- A leaf has a value of any kind, and everything else only if all of its leaves are integers.
theorem exists_silent_eval (t : Arithmetic) :
    (∃ v, Silent t.expr.eval (.ok v) ∧ (t = leaf v ∨ t.expr.Integral)) ∨
      ∃ e, Silent t.expr.eval (.error e) ∧ e.Misfit := by
  induction t
  case leaf v => exact .inl ⟨v, .pure v, .inl rfl⟩
  case node op x y hx hy =>
    by_cases hi : (node op x y).expr.Integral
    case pos => exact .inl ⟨_, silent_eval hi, .inr hi⟩
    case neg =>
      right
      rw [eval_node]
      -- The first error is the one of `x`, of `y`, or else of the operator itself.
      obtain ⟨v, hx, hv⟩ | ⟨e, hx, he⟩ := hx
      case inr => exact ⟨e, hx.bind_error _, he⟩
      obtain ⟨w, hy, hw⟩ | ⟨e, hy, he⟩ := hy
      case inr => exact ⟨e, hx.bind_ok _ ▸ hy.bind_error _, he⟩
      have hk : ¬(v.kind = .integer ∧ w.kind = .integer) := fun ⟨hkv, hkw⟩ =>
        hi <| integral_node.mpr ⟨integral_of_kind hv hkv, integral_of_kind hw hkw⟩
      have ⟨e, ho, he⟩ := Value.operands_misfit op.builtin.name hk
      have hc := op.silent_call v w
      rw [ho] at hc
      exact ⟨e, hx.bind_ok _ ▸ hy.bind_ok _ ▸ hc, he⟩

theorem exists_misfit (h : ¬(node op x y).expr.Integral) :
    ∃ e, Silent (node op x y).expr.eval (.error e) ∧ e.Misfit := by
  obtain ⟨v, _, hv⟩ | he := exists_silent_eval (node op x y)
  case inl => exact absurd (hv.resolve_left nofun) h
  case inr => exact he

-- However sums, differences and products are nested, the result is the exact one modulo 2 ^ 64, so
-- that rearranging them changes nothing. All that can go wrong is an operand that is no integer.
theorem eval_modulo (op : RingOp) (x y : Arithmetic) (s : Sink) :
    let t := node op x y
    let (outcome, sink) := t.expr.eval.run s
    sink = s ∧
    ((∃ v, outcome = .ok v) ↔ t.expr.Integral) ∧
    (∀ v, outcome = .ok v → ∃ r : Int64, v = .integer r ∧
      ∀ n : Int, r.toInt = n ↔ -2 ^ 63 ≤ n ∧ n < 2 ^ 63 ∧ n ≡ t.value [ZMOD 2 ^ 64]) ∧
    (∀ e, outcome = .error e → ∃ operation position found,
      e = .wrongKind operation position .integer found ∧ found ≠ .integer) ∧
    ∀ u : Arithmetic, u.expr.Integral → t.expr.Integral → u.value ≡ t.value [ZMOD 2 ^ 64] →
      u.expr.eval = t.expr.eval := by
  intro t
  by_cases hi : t.expr.Integral
  case pos =>
    have hs := silent_eval hi
    rw [hs s]
    refine ⟨rfl, iff_of_true ⟨_, rfl⟩ hi, fun v hv => ?_, nofun, fun u hu _ hm => ?_⟩
    · cases hv
      exact ⟨_, rfl, fun n => toInt_ofInt_eq_iff⟩
    · have hu := silent_eval hu
      rw [ofInt_eq_of_modEq hm] at hu
      exact funext fun s => (hu s).trans (hs s).symm
  case neg =>
    have ⟨e, hs, he⟩ := exists_misfit hi
    rw [hs s]
    refine ⟨rfl, iff_of_false nofun hi, nofun, fun e' h => ?_, fun _ _ ht => absurd ht hi⟩
    cases h
    cases he
    exact ⟨_, _, _, rfl, ‹_›⟩

end Arithmetic
end LispBuiltins
