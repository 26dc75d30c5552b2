import LispBuiltins.Proofs.Numerals

namespace LispBuiltins

open Literal

-- A text between quotes is longer than what stands between them.
theorem Literal.unquoted_eq_iff {token : String} :
    unquoted token = token ↔ ¬Quoted token.toList := by
  by_cases h : Quoted token.toList
  case neg => simp only [unquoted, h, if_false, not_false_eq_true]
  case pos =>
    simp only [unquoted, h, if_true, not_true_eq_false, iff_false]
    intro he
    have hl := congrArg (·.toList.length) he
    have := h.left
    simp only [String.toList_ofList, List.length_dropLast, List.length_tail] at hl
    omega

namespace Value

variable {v w : Value} {text : String}

theorem decode_render (h : v.kind ≠ .string) : decode v.render = .ok v := by
  cases v
  case integer n => exact decode_encode (.integer n)
  case string    => exact absurd rfl h
  case nil       => exact decode_encode .nil

theorem decode_render_string_iff :
    decode (string text).render = .ok (.string text) ↔
      text ≠ "nil" ∧ (¬∃ n, Numeral text.toList n) ∧ ¬Quoted text.toList := by
  rw [render, decode_eq_string_iff, eq_comm, unquoted_eq_iff]

theorem decode_render_iff :
    decode v.render = .ok v ↔
      v.kind ≠ .string ∨
        ∃ text, v = .string text ∧
          text ≠ "nil" ∧ (¬∃ n, Numeral text.toList n) ∧ ¬Quoted text.toList := by
  cases v
  case integer | nil => exact iff_of_true (decode_render nofun) (.inl nofun)
  case string text   => simp [decode_render_string_iff, kind]

theorem eq_of_render_eq (h : v.render = w.render) (hv : v.kind ≠ .string) (hw : w.kind ≠ .string) :
    v = w :=
  Except.ok.inj <| (decode_render hv).symm.trans (h ▸ decode_render hw)

-- Different values are rendered in the same way only where one of them is a string that looks like
-- the other one.
theorem render_eq_iff (hn : v ≠ w) :
    v.render = w.render ↔
      (v = .string w.render ∧ w.kind ≠ .string) ∨ (w = .string v.render ∧ v.kind ≠ .string) := by
  constructor
  case mpr => rintro (⟨h, _⟩ | ⟨h, _⟩) <;> rw [h, render]
  case mp =>
    intro h
    cases v
    case string =>
      cases w
      case string        => exact absurd (congrArg string h) hn
      case integer | nil => exact .inl ⟨congrArg string h, nofun⟩
    case integer | nil =>
      cases w
      case string        => exact .inr ⟨congrArg string h.symm, nofun⟩
      case integer | nil => exact absurd (eq_of_render_eq h nofun nofun) hn

-- A value can be printed and read again, unless it is a string that looks like something else.
theorem reread_exactly (v w : Value) :
    (decode v.render = .ok v ↔
      (∃ n, v = .integer n) ∨ v = .nil ∨
        ∃ text, v = .string text ∧
          text ≠ "nil" ∧ (¬∃ n, Numeral text.toList n) ∧ ¬Quoted text.toList) ∧
    (v ≠ w →
      (v.render = w.render ↔
        (v = .string w.render ∧ ((∃ n, w = .integer n) ∨ w = .nil)) ∨
          (w = .string v.render ∧ ((∃ n, v = .integer n) ∨ v = .nil)))) := by
  have hk (u : Value) : u.kind ≠ .string ↔ (∃ n, u = .integer n) ∨ u = .nil := by
    cases u <;> simp [kind]
  simp only [← hk, ← or_assoc]
  exact ⟨decode_render_iff, render_eq_iff⟩

end Value
end LispBuiltins
