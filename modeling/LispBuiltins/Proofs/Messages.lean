import Mathlib.Data.List.Basic
import LispBuiltins.Proofs.Modes
import LispBuiltins.Proofs.Rereading

namespace LispBuiltins

-- A text that starts after the last blank is cut off there.
theorem append_blank_inj {xs xs' ys ys' : List Char} (h : xs ++ ' ' :: ys = xs' ++ ' ' :: ys')
    (hy : ' ' ∉ ys) (hy' : ' ' ∉ ys') : xs = xs' ∧ ys = ys' := by
  obtain ⟨zs, hx, hz⟩ | ⟨zs, hx, hz⟩ := List.append_eq_append_iff.mp h <;> cases zs <;> simp_all

-- Where a text ends in what `f` renders, it can be told what that is and where it starts, whatever
-- stands before it.
structure Detachable (f : α → String) : Prop where
  split : s ++ f a = s' ++ f a' → s = s' ∧ a = a'

namespace Detachable

variable {f : α → String} {g : β → String}

theorem append (hf : Detachable f) (hg : Detachable g) :
    Detachable fun p : α × β => f p.fst ++ g p.snd where
  split h := by
    simp only [← String.append_assoc] at h
    have ⟨h, hb⟩ := hg.split h
    have ⟨hs, ha⟩ := hf.split h
    exact ⟨hs, Prod.ext ha hb⟩

theorem append_text (hf : Detachable f) (text : String) : Detachable (f · ++ text) where
  split h := by
    simp only [← String.append_assoc, String.append_left_inj] at h
    exact hf.split h

-- A word has no blanks, and the label before it ends in one.
theorem word (hb : ∀ a, ' ' ∉ (f a).toList) (hi : f.Injective) (label : String)
    (hl : label.toList.getLast? = some ' ' := by decide) : Detachable (label ++ f ·) where
  split {_ a _ a'} h := by
    have ⟨front, hl⟩ := List.getLast?_eq_some_iff.mp hl
    simp only [← String.toList_inj, String.toList_append, hl, List.append_assoc,
      List.singleton_append] at h
    simp only [← List.append_assoc] at h
    have ⟨hs, ha⟩ := append_blank_inj h (hb a) (hb a')
    exact ⟨String.toList_inj.mp <| List.append_cancel_right hs, hi <| String.toList_inj.mp ha⟩

end Detachable

theorem not_mem_repr (n : Nat) (h : ¬c.isDigit := by decide) : c ∉ n.repr.toList :=
  fun hc => h <| Literal.isDigit_of_mem_toDigits (Nat.toList_repr ▸ hc)

theorem Detachable.number (label : String) (hl : label.toList.getLast? = some ' ' := by decide) :
    Detachable fun n : Nat => label ++ n.repr := by
  refine word (not_mem_repr ·) (fun m n h => ?_) label hl
  simpa only [Nat.toList_repr, Literal.natural?_toDigits, Option.some.injEq] using
    congrArg (Literal.natural? ·.toList) h

theorem Detachable.kind (label : String) (hl : label.toList.getLast? = some ' ' := by decide) :
    Detachable fun k : Kind => label ++ k.name := by
  refine word (fun k => ?_) (fun k k' h => ?_) label hl
  · cases k <;> simp [Kind.name]
  · cases k <;> cases k' <;> simp [Kind.name] at h ⊢

namespace CallError

-- What stands after the operation in the message on an operand of the wrong kind.
def operandText (t : (Nat × Kind) × Kind) : String :=
  "`: operand " ++ t.1.1.repr ++ (" expected " ++ t.1.2.name) ++ (", found " ++ t.2.name)

-- What stands after the builtin in the message on a wrong number of arguments.
def countText (t : Nat × Nat) : String :=
  "` expects " ++ t.1.repr ++ (" arguments, got " ++ t.2.repr)

theorem detachable_operandText : Detachable operandText :=
  .append (.append (.number _) (.kind _)) (.kind _)

theorem detachable_countText : Detachable countText :=
  .append (.number _) (.number _)

theorem message_wrongKind (operation : String) (position : Nat) (expected found : Kind) :
    (wrongKind operation position expected found).message =
      "type error in `" ++ operation ++ operandText ((position, expected), found) := by
  unfold message operandText
  simp only [String.append_assoc]

theorem message_wrongArity (builtin : String) (expected found : Nat) :
    (wrongArity builtin expected found).message =
      "arity mismatch: `" ++ builtin ++ countText (expected, found) := by
  unfold message countText
  simp only [String.append_assoc]

-- The first letter of the message.
def initial : CallError → Char
  | wrongKind ..     => 't'
  | divisionByZero _ => 'd'
  | notBoolean _     => 'n'
  | wrongArity ..    => 'a'
  | unknownBuiltin _ => 'u'
  | output _         => 'o'

theorem head?_message (e : CallError) : e.message.toList.head? = some e.initial := by
  unfold message
  split <;> simp only [String.append_assoc, String.toList_append, List.head?_append] <;> rfl

-- The first letter tells which kind of error it is, and then the message is read from its end.
theorem message_injective {e e' : CallError} (h : e.message = e'.message) : e = e' := by
  have hi : e.initial = e'.initial := by
    simpa only [head?_message, Option.some.injEq] using congrArg (·.toList.head?) h
  cases e <;> cases e' <;> simp only [initial, Char.reduceEq] at hi
  case wrongKind.wrongKind =>
    simp only [message_wrongKind] at h
    have ⟨ho, ht⟩ := detachable_operandText.split h
    cases (String.append_right_inj _).mp ho
    cases ht
    rfl
  case wrongArity.wrongArity =>
    simp only [message_wrongArity] at h
    have ⟨hb, ht⟩ := detachable_countText.split h
    cases (String.append_right_inj _).mp hb
    cases ht
    rfl
  all_goals
    unfold message at h
    simp only [String.append_left_inj, String.append_right_inj] at h
  case divisionByZero.divisionByZero m n | notBoolean.notBoolean m n =>
    have h : (Value.integer m).render = (Value.integer n).render := h
    cases Value.eq_of_render_eq h nofun nofun
    rfl
  case unknownBuiltin.unknownBuiltin | output.output => rw [h]

end CallError

-- A text that stands before and after the same line break is found there, although it is not known
-- how long it is. What stands between varies too, but has no line breaks.
theorem eq_of_framed_of_le {xs xs' ms ms' gs : List Char}
    (h : xs ++ ms ++ gs ++ xs = xs' ++ ms' ++ gs ++ xs') (hm : '\n' ∉ ms) (hm' : '\n' ∉ ms')
    (hg : '\n' ∈ gs) (hl : xs'.length ≤ xs.length) : xs = xs' := by
  have ⟨vs, hv⟩ : xs' <+: xs := by
    refine List.prefix_of_prefix_length_le ⟨ms' ++ gs ++ xs', ?_⟩ ⟨ms ++ gs ++ xs, rfl⟩ hl
    simpa using h.symm
  have ⟨us, hu⟩ : xs' <:+ xs := List.suffix_of_suffix_length_le ⟨_, h.symm⟩ ⟨_, rfl⟩ hl
  have hr : vs ++ ms ++ gs ++ us = ms' ++ gs := by
    have h := calc xs' ++ (vs ++ ms ++ gs ++ us) ++ xs'
      _ = (xs' ++ vs) ++ ms ++ gs ++ (us ++ xs') := by simp
      _ = xs' ++ (ms' ++ gs) ++ xs'              := by rw [hv, hu, h]; simp
    exact List.append_cancel_left <| List.append_cancel_right h
  -- There is no line break in `vs`, so that the first one has `vs ++ ms` before it, and also `ms'`.
  have hc : vs.count '\n' = 0 := by
    have := congrArg (List.count '\n') hr
    simp only [List.count_append, List.count_eq_zero.mpr hm, List.count_eq_zero.mpr hm'] at this
    omega
  have hf : '\n' ∉ vs ++ ms := by simp [List.count_eq_zero.mp hc, hm]
  have hi := congrArg (List.idxOf '\n') hr
  rw [List.append_assoc _ gs, List.idxOf_append_of_notMem hf, List.idxOf_append_of_notMem hm',
    List.idxOf_append_of_mem hg] at hi
  have hn := congrArg List.length hr
  have hs := congrArg List.length (hv.trans hu.symm)
  simp only [List.length_append] at hi hn hs
  have hv' : vs = [] := List.eq_nil_of_length_eq_zero (by omega)
  simpa [hv'] using hv.symm

theorem eq_of_framed {x x' m m' gap : String} (h : x ++ m ++ gap ++ x = x' ++ m' ++ gap ++ x')
    (hm : '\n' ∉ m.toList) (hm' : '\n' ∉ m'.toList) (hg : '\n' ∈ gap.toList) : x = x' := by
  simp only [← String.toList_inj, String.toList_append] at h ⊢
  cases Nat.le_total x'.toList.length x.toList.length
  case inl hl => exact eq_of_framed_of_le h hm hm' hg hl
  case inr hl => exact (eq_of_framed_of_le h.symm hm' hm hg hl).symm

theorem Palette.exists_paint (p : Palette) (role : Role) :
    ∃ before after, ∀ text, p.paint role text = before ++ text ++ after := by
  unfold paint
  split
  case isTrue  => exact ⟨_, _, fun _ => rfl⟩
  case isFalse => exact ⟨"", "", by simp⟩

namespace CallError

variable {e e' : CallError}

theorem exists_render (p : Palette) :
    ∃ a b c d z : String, '\n' ∈ c.toList ∧ ∀ e : CallError, e.diagnostic.render p =
      a ++ e.name ++ b ++ e.message ++ c ++ e.advice.help ++ d ++ e.advice.hint ++ z := by
  have ⟨k, k', hk⟩ := p.exists_paint .kind
  have ⟨m, m', hm⟩ := p.exists_paint .message
  have ⟨l, l', hl⟩ := p.exists_paint .help
  have ⟨t, t', ht⟩ := p.exists_paint .hint
  refine ⟨k, k' ++ ": " ++ m, m' ++ "\n" ++ l, l' ++ "\n" ++ "    " ++ t, t' ++ "\n", by simp,
    fun e => ?_⟩
  simp only [Diagnostic.render, diagnostic, Option.map_some, Option.getD_some, Advice.render, hk,
    hm, hl, ht, String.append_assoc]

theorem newline_not_mem_operandText (t : (Nat × Kind) × Kind) :
    '\n' ∉ (operandText t).toList := by
  have hn (n : Nat) : '\n' ∉ n.repr.toList := not_mem_repr n
  have hk (k : Kind) : '\n' ∉ k.name.toList := by cases k <;> decide
  unfold operandText
  simp only [String.toList_append, List.mem_append, hn, hk]
  decide

theorem newline_not_mem_countText (t : Nat × Nat) : '\n' ∉ (countText t).toList := by
  have hn (n : Nat) : '\n' ∉ n.repr.toList := not_mem_repr n
  unfold countText
  simp only [String.toList_append, List.mem_append, hn]
  decide

-- The operation stands in the message and again in the help.
theorem exists_render_wrongKind (p : Palette) :
    ∃ before gap after : String, '\n' ∈ gap.toList ∧ ∀ operation position expected found,
      (wrongKind operation position expected found).diagnostic.render p =
        before ++ (operation ++ operandText ((position, expected), found) ++ gap ++ operation) ++
          after := by
  have ⟨a, b, c, d, z, hc, hr⟩ := exists_render p
  refine ⟨a ++ "type-error" ++ b ++ "type error in `", c ++ "Help: `",
    "` works only with integers." ++ d ++ "Only `=` and `println` accept strings and nil." ++ z,
    by simp [hc], fun _ _ _ _ => ?_⟩
  simp only [hr, message_wrongKind, name, advice, String.append_assoc]

-- The builtin stands in the message and again in the hint, with the number of its arguments.
theorem exists_render_wrongArity (p : Palette) :
    ∃ before gap after : String, '\n' ∈ gap.toList ∧ ∀ builtin expected found,
      (wrongArity builtin expected found).diagnostic.render p =
        before ++ (builtin ++ countText (expected, found) ++ gap ++ builtin) ++
          ("` takes exactly " ++ expected.repr ++ " argument(s).") ++ after := by
  have ⟨a, b, c, d, z, hc, hr⟩ := exists_render p
  refine ⟨a ++ "arity-mismatch" ++ b ++ "arity mismatch: `",
    c ++ "Help: Builtin called with wrong number of arguments." ++ d ++ "`", z, by simp [hc],
    fun _ _ _ => ?_⟩
  simp only [hr, message_wrongArity, name, advice, String.append_assoc]

theorem name_ne_empty (e : CallError) : e.name.toList ≠ [] := by
  cases e <;> simp [name]

-- Also the names start with different letters.
theorem head?_name_of_render (h : e.diagnostic.render p = e'.diagnostic.render p) :
    e.name.toList.head? = e'.name.toList.head? := by
  have ⟨a, b, c, d, z, _, hr⟩ := exists_render p
  simp only [hr, String.append_assoc, String.append_right_inj] at h
  have := congrArg (·.toList.head?) h
  simpa only [String.toList_append, List.head?_append_of_ne_nil _ (name_ne_empty _)] using this

theorem eq_of_render (h : e.diagnostic.render p = e'.diagnostic.render p) (hn : e.name = e'.name)
    (ha : e.advice = e'.advice) : e = e' := by
  have ⟨a, b, c, d, z, _, hr⟩ := exists_render p
  simp only [hr, hn, ha, String.append_left_inj, String.append_right_inj] at h
  exact message_injective h

theorem diagnostic_injective (h : e.diagnostic.render p = e'.diagnostic.render p) : e = e' := by
  have hi := head?_name_of_render h
  cases e <;> cases e' <;> simp [name] at hi
  case wrongKind.wrongKind =>
    have ⟨before, gap, after, hg, hr⟩ := exists_render_wrongKind p
    have hf := h
    simp only [hr, String.append_left_inj, String.append_right_inj] at hf
    cases eq_of_framed hf (newline_not_mem_operandText _) (newline_not_mem_operandText _) hg
    exact eq_of_render h rfl rfl
  case wrongArity.wrongArity =>
    have ⟨before, gap, after, hg, hr⟩ := exists_render_wrongArity p
    have hf := h
    simp only [hr, String.append_left_inj] at hf
    have ⟨hf, he⟩ := (Detachable.number "` takes exactly ").append_text " argument(s)." |>.split hf
    cases he
    cases eq_of_framed ((String.append_right_inj _).mp hf) (newline_not_mem_countText _)
      (newline_not_mem_countText _) hg
    exact eq_of_render h rfl rfl
  all_goals exact eq_of_render h rfl rfl

-- An error can be told from its message, wherever that is found.
theorem identified_by_message (e e' : CallError) :
    (e.message = e'.message → e = e') ∧
    (∀ p : Palette, e.diagnostic.render p = e'.diagnostic.render p → e = e') ∧
    ∀ r r' : Report, r.outcome = .error e → r'.outcome = .error e' →
      (r.json.member? "error" >>= (·.member? "message")) =
        (r'.json.member? "error" >>= (·.member? "message")) → e = e' := by
  refine ⟨message_injective, fun _ => diagnostic_injective, fun r r' hr hr' h => ?_⟩
  simp only [(Report.member?_error hr).right, (Report.member?_error hr').right] at h
  exact message_injective <| by simpa [Json.member?, List.lookup_cons] using h

end CallError
end LispBuiltins
