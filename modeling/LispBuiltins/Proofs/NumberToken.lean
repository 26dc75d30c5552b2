import Mathlib.Data.List.TakeWhile
import LispBuiltins.Command.Token

namespace LispBuiltins.Token

-- What stands after the dash of a negative number: digits, with at most one point, which is neither
-- first nor after the exponent mark, and at most one exponent mark, which is neither first nor last.
structure NumberBody (body : Token) : Prop where
  ne_nil  : body ≠ []
  known   : ∀ b ∈ body, isDigit b ∨ b = point ∨ isExponentMark b
  points  : body.count point ≤ 1
  marks   : body.countP isExponentMark ≤ 1
  first   : ∀ b ∈ body.head?, b ≠ point ∧ ¬isExponentMark b
  last    : ∀ b ∈ body.getLast?, ¬isExponentMark b
  noPoint : point ∉ body.dropWhile (!isExponentMark ·)

theorem not_isDigit_point : ¬isDigit point := by
  decide

theorem not_isDigit_of_isExponentMark (h : isExponentMark b) : ¬isDigit b := by
  simp only [isExponentMark, Bool.or_eq_true, beq_iff_eq] at h
  rcases h with rfl | rfl <;> decide

theorem ne_point_of_isExponentMark (h : isExponentMark b) : b ≠ point := by
  rintro rfl
  exact absurd h (by decide)

namespace NumberBody

variable {body left es : Token}

theorem isDigit_head (h : NumberBody (b :: bs)) : isDigit b := by
  have ⟨hp, hm⟩ := h.first b rfl
  exact (h.known b List.mem_cons_self).resolve_right (not_or.mpr ⟨hp, hm⟩)

-- Everything after the exponent mark is a digit.
theorem isDigit_exponent (h : NumberBody (left ++ c :: es)) (hc : isExponentMark c) :
    es ≠ [] ∧ es.all isDigit := by
  have hl : left.countP isExponentMark = 0 ∧ es.countP isExponentMark = 0 := by
    have := h.marks
    simp only [List.countP_append, List.countP_cons_of_pos hc] at this
    omega
  simp only [List.countP_eq_zero] at hl
  constructor
  case left =>
    rintro rfl
    exact h.last c (by simp) hc
  case right =>
    have hp := h.noPoint
    rw [List.dropWhile_append_of_pos (by simpa using hl.left),
      List.dropWhile_cons_of_neg (by simp [hc])] at hp
    refine List.all_eq_true.mpr fun b hb => ?_
    have hb' : b ≠ point := fun he => hp <| he ▸ List.mem_cons_of_mem c hb
    have hk := h.known b <| List.mem_append_right left <| List.mem_cons_of_mem c hb
    exact hk.resolve_right <| not_or.mpr ⟨hb', hl.right b hb⟩

theorem isExponent (h : NumberBody (left ++ c :: es)) (hc : isExponentMark c) :
    isNumber.isExponent (c :: es) := by
  have ⟨hn, hd⟩ := h.isDigit_exponent hc
  simp [isNumber.isExponent, hc, hn, hd]

end NumberBody

-- The digits at the front.
theorem split_digits (bs : Token) :
    ∃ ds rest, bs = ds ++ rest ∧ bs.dropWhile isDigit = rest ∧ (∀ b ∈ ds, isDigit b) ∧
      ∀ b ∈ rest.head?, ¬isDigit b := by
  refine ⟨bs.takeWhile isDigit, _, List.takeWhile_append_dropWhile.symm, rfl,
    fun _ => List.mem_takeWhile_imp, fun b hb => ?_⟩
  have := List.head?_dropWhile_not isDigit bs
  simp [Option.mem_def.mp hb] at this
  simp [this]

theorem NumberBody.isNumber (h : NumberBody body) : isNumber body := by
  have he : isNumber.isExponent (isNumber.afterFraction (body.dropWhile isDigit)) := by
    have ⟨ds, rest, hb, hd, _, hn⟩ := split_digits body
    rw [hd]
    cases rest
    case nil => rfl
    case cons b rest =>
      subst hb
      cases (h.known b <| by simp).resolve_left (hn b rfl)
      case inr hm =>
        rw [isNumber.afterFraction, if_neg (ne_point_of_isExponentMark hm)]
        exact h.isExponent hm
      case inl hp =>
        subst hp
        have ⟨fs, rest, hb, hd, _, hf⟩ := split_digits rest
        rw [isNumber.afterFraction, if_pos rfl, hd]
        cases rest
        case nil => rfl
        case cons c es =>
          subst hb
          have hp : c ≠ point := by
            rintro rfl
            have := h.points
            simp only [List.count_append, List.count_cons_self] at this
            omega
          have hm := ((h.known c <| by simp).resolve_left (hf c rfl)).resolve_left hp
          have h : NumberBody ((ds ++ point :: fs) ++ c :: es) := by simpa using h
          exact h.isExponent hm
  cases body
  case nil       => exact absurd rfl h.ne_nil
  case cons b bs =>
    simp only [Token.isNumber, List.head?_cons, Option.any_some, h.isDigit_head, he, Bool.and_self]

theorem isExponent_spec (h : isNumber.isExponent e) :
    (∀ b ∈ e, isDigit b ∨ isExponentMark b) ∧ e.countP isExponentMark ≤ 1 ∧
    ∀ b ∈ e.getLast?, isDigit b := by
  cases e
  case nil => simp
  case cons m ds =>
    simp only [isNumber.isExponent, Bool.and_eq_true, List.all_eq_true, Bool.not_eq_true',
      List.isEmpty_eq_false_iff] at h
    have ⟨⟨hm, hn⟩, hd⟩ := h
    have hc : ds.countP isExponentMark = 0 :=
      List.countP_eq_zero.mpr fun b hb hm => not_isDigit_of_isExponentMark hm (hd b hb)
    refine ⟨List.forall_mem_cons.mpr ⟨.inr hm, fun b hb => .inl (hd b hb)⟩, ?_, fun b hb => ?_⟩
    · simp [List.countP_cons_of_pos hm, hc]
    · rw [List.getLast?_cons_of_ne_nil hn] at hb
      exact hd b <| List.mem_of_getLast? hb

-- A number is made of a part without an exponent mark, and an exponent.
theorem numberBody_append (hd : isDigit d) (hl : ∀ b ∈ d :: ds, isDigit b ∨ b = point)
    (hp : (d :: ds).count point ≤ 1) (he : isNumber.isExponent e) :
    NumberBody (d :: ds ++ e) := by
  have ⟨hk, hc, hlast⟩ := isExponent_spec he
  have hm : ∀ b ∈ d :: ds, ¬isExponentMark b := by
    intro b hb hm
    cases hl b hb
    case inl hd => exact not_isDigit_of_isExponentMark hm hd
    case inr hp => exact ne_point_of_isExponentMark hm hp
  have hn : point ∉ e := fun h => (hk _ h).elim not_isDigit_point (by decide)
  exact {
    ne_nil := nofun
    known := by
      intro b hb
      cases List.mem_append.mp hb
      case inl hb => exact (hl b hb).imp_right .inl
      case inr hb => exact (hk b hb).imp_right .inr
    points := by rwa [List.count_append, List.count_eq_zero.mpr hn]
    marks := by rwa [List.countP_append, List.countP_eq_zero.mpr hm, Nat.zero_add]
    first := by
      rintro b ⟨⟩
      exact ⟨fun h => not_isDigit_point (h ▸ hd), fun h => not_isDigit_of_isExponentMark h hd⟩
    last := by
      intro b hb h
      rw [List.getLast?_append, Option.mem_def, Option.or_eq_some_iff] at hb
      rcases hb with hb | ⟨_, hb⟩
      · exact not_isDigit_of_isExponentMark h <| hlast b hb
      · exact hm b (List.mem_of_getLast? hb) h
    noPoint := by
      rw [List.dropWhile_append_of_pos (by simpa using hm)]
      exact fun h => hn <| (List.dropWhile_sublist _).mem h }

theorem isNumber_iff : isNumber body ↔ NumberBody body := by
  refine ⟨fun h => ?_, NumberBody.isNumber⟩
  cases body
  case nil => cases h
  case cons d ds =>
    simp only [isNumber, List.head?_cons, Option.any_some, Bool.and_eq_true] at h
    have ⟨hd, he⟩ := h
    rw [List.dropWhile_cons_of_pos hd] at he
    obtain ⟨ds, rest, rfl, hr, hds, -⟩ := split_digits ds
    rw [hr] at he
    have hds : ∀ b ∈ d :: ds, isDigit b := List.forall_mem_cons.mpr ⟨hd, hds⟩
    have hp : (d :: ds).count point = 0 :=
      List.count_eq_zero.mpr fun h => not_isDigit_point <| hds _ h
    have hl : ∀ b ∈ d :: ds, isDigit b ∨ b = point := fun b hb => .inl <| hds b hb
    cases rest
    case nil => exact numberBody_append hd hl (by omega) rfl
    case cons b rest =>
      rw [isNumber.afterFraction] at he
      split at he
      case isFalse => exact numberBody_append hd hl (by omega) he
      case isTrue hb =>
        subst hb
        obtain ⟨fs, rest, rfl, hr, hfs, -⟩ := split_digits rest
        rw [hr] at he
        have hl : ∀ b ∈ d :: (ds ++ point :: fs), isDigit b ∨ b = point := by
          simp only [List.mem_cons, List.mem_append]
          rintro b (rfl | hb | rfl | hb)
          · exact .inl hd
          · exact .inl <| hds b <| List.mem_cons_of_mem _ hb
          · exact .inr rfl
          · exact .inl <| hfs b hb
        have hq : fs.count point = 0 :=
          List.count_eq_zero.mpr fun h => not_isDigit_point <| hfs _ h
        have hc : (d :: (ds ++ point :: fs)).count point ≤ 1 := by
          rw [← List.cons_append, List.count_append, hp, List.count_cons_self, hq]
        simpa using numberBody_append hd hl hc he

end LispBuiltins.Token
