import Mathlib.Data.List.Induction
import LispBuiltins.Proofs.Reading

namespace LispBuiltins.Arguments

namespace Reading

variable {r r' : Reading} {t : Token} {ts us : List Token}

-- Reading can stop after `ts` and go on later. Of the tokens that were read, it has to be known only
-- whether the separator was among them.
theorem addTokens_append (r : Reading) (ts us : List Token) :
    r.addTokens (ts ++ us) = (do
      let r ← r.addTokens ts
      if .separator ∈ ts then us.foldlM addPositional r else r.addTokens us) := by
  induction ts generalizing r
  case nil => rfl
  case cons t ts hi =>
    by_cases ht : t = .separator
    case pos =>
      subst ht
      simp [addTokens_separator]
    case neg => simp [addTokens_cons r ht, hi, Ne.symm ht]

theorem addTokens_append_error (h : r.addTokens ts = .error e) (us : List Token) :
    r.addTokens (ts ++ us) = .error e := by
  rw [addTokens_append, h]
  rfl

theorem exists_addTokens_of_isPrefix (h : r.addTokens ts = .ok r') (hu : us <+: ts) :
    ∃ r₁, r.addTokens us = .ok r₁ := by
  have ⟨vs, hv⟩ := hu
  rw [← hv, addTokens_append, bind_eq_ok_iff] at h
  have ⟨r₁, h₁, _⟩ := h
  exact ⟨r₁, h₁⟩

-- An error comes with one token: those before it are read, and whatever follows it is not.
theorem exists_first_error (h : r.addTokens tokens = .error e) :
    ∃ ts t, ts ++ [t] <+: tokens ∧ (∃ r', r.addTokens ts = .ok r') ∧
      r.addTokens (ts ++ [t]) = .error e := by
  induction tokens using List.reverseRecOn
  case nil => cases h
  case append_singleton ts t hi =>
    cases hr : r.addTokens ts
    case ok r' => exact ⟨ts, t, List.prefix_refl _, ⟨r', hr⟩, h⟩
    case error e' =>
      have he : e' = e := Except.error.inj <| (addTokens_append_error hr [t]).symm.trans h
      have ⟨us, u, hu, hus, hf⟩ := hi <| he ▸ hr
      exact ⟨us, u, hu.trans <| List.prefix_append .., hus, hf⟩

theorem Adds.isText (h : Adds r t r') (ht : t.IsText) (hp : ∀ t ∈ r.positionals, t.IsText) :
    ∀ t ∈ r'.positionals, t.IsText := by
  cases h
  case switch     => exact hp
  case positional => exact List.forall_mem_append.mpr ⟨hp, List.forall_mem_singleton.mpr ht⟩

theorem isText_of_addTokens (h : r.addTokens ts = .ok r') (ht : ∀ t ∈ ts, t.IsText)
    (hp : ∀ t ∈ r.positionals, t.IsText) : ∀ t ∈ r'.positionals, t.IsText := by
  induction ts generalizing r
  case nil => cases h; exact hp
  case cons t ts hi =>
    have ⟨ht, hts⟩ := List.forall_mem_cons.mp ht
    by_cases hs : t = .separator
    case pos =>
      rw [hs, addTokens_separator] at h
      rw [foldlM_addPositional_eq_ok h]
      exact List.forall_mem_append.mpr ⟨hp, hts⟩
    case neg =>
      rw [addTokens_cons r hs, bind_eq_ok_iff] at h
      have ⟨r₁, h₁, h⟩ := h
      exact hi h hts <| (adds_of_addToken hs h₁).isText ht hp

-- Of texts, nothing but the builtin can be missed at the end.
theorem finish_of_isText (hp : ∀ t ∈ r.positionals, t.IsText) :
    (∃ i, r.finish = .ok i) ∨ r.finish = .error .missingBuiltin := by
  have ⟨ts, hts⟩ := forall_isText_iff.mp hp
  simp only [finish, texts_eq_ok_iff.mpr hts]
  by_cases hm : ts = [] ∧ .list ∉ r.switches
  case pos => exact .inr <| if_pos hm
  case neg => exact .inl ⟨_, if_neg hm⟩

end Reading

-- At most the builtin is missing, and it may still follow.
def Viable (tokens : List Token) : Prop :=
  (∃ i, parse tokens = .ok i) ∨ parse tokens = .error .missingBuiltin

-- There is an error, and not only that the builtin is missing.
def Fails (tokens : List Token) (e : UsageError) : Prop :=
  parse tokens = .error e ∧ e ≠ .missingBuiltin

-- `ts` is the shortest start of `tokens` that fails.
structure FirstFailure (tokens ts : List Token) : Prop where
  start    : ts <+: tokens
  fails    : ∃ e, Fails ts e
  earliest : us <+: ts → us ≠ ts → Viable us

variable {tokens ts ts' : List Token} {e : UsageError}

theorem Fails.not_viable (h : Fails tokens e) : ¬Viable tokens := by
  have ⟨h, he⟩ := h
  rintro (⟨i, hi⟩ | hm)
  · cases h.symm.trans hi
  · exact he <| Except.error.inj <| h.symm.trans hm

theorem parse_eq_error (h : Reading.addTokens { } tokens = .error e) : parse tokens = .error e := by
  simp only [parse, h]
  rfl

theorem viable_of_addTokens (ht : ∀ t ∈ tokens, t.IsText)
    (h : Reading.addTokens { } tokens = .ok r) : Viable tokens := by
  rw [Viable, parse_eq_finish h]
  exact Reading.finish_of_isText <| Reading.isText_of_addTokens h ht nofun

theorem Fails.addTokens (h : Fails tokens e) (ht : ∀ t ∈ tokens, t.IsText) :
    Reading.addTokens { } tokens = .error e := by
  cases hr : Reading.addTokens { } tokens
  case ok       => exact absurd (viable_of_addTokens ht hr) h.not_viable
  case error e' =>
    have he : e' = e := Except.error.inj <| (parse_eq_error hr).symm.trans h.left
    rw [he]

namespace FirstFailure

theorem unique (h : FirstFailure tokens ts) (h' : FirstFailure tokens ts') : ts = ts' := by
  have ⟨_, hf⟩ := h.fails
  have ⟨_, hf'⟩ := h'.fails
  by_contra hn
  cases List.prefix_or_prefix_of_prefix h.start h'.start
  case inl hp => exact hf.not_viable <| h'.earliest hp hn
  case inr hp => exact hf'.not_viable <| h.earliest hp (Ne.symm hn)

-- The failure is there with the token that is to blame, and not before it.
theorem of_addTokens (ht : ∀ t ∈ tokens, t.IsText) (hs : ts ++ [t] <+: tokens)
    (hr : Reading.addTokens { } ts = .ok r) (hf : Fails (ts ++ [t]) e) :
    FirstFailure tokens (ts ++ [t]) where
  start := hs
  fails := ⟨e, hf⟩
  earliest {us} hu hn := by
    have hu : us <+: ts := (List.prefix_concat_iff.mp hu).resolve_left hn
    have ⟨_, hus⟩ := Reading.exists_addTokens_of_isPrefix hr hu
    have hm := (hu.trans <| List.prefix_append ..).trans hs |>.subset
    exact viable_of_addTokens (fun t hm' => ht t <| hm hm') hus

end FirstFailure

-- The first error is final: nothing that follows can change it, and the tokens that lead to it are
-- determined.
theorem parse_first_error_final (tokens : List Token) (ht : ∀ t ∈ tokens, t.IsText)
    (e : UsageError) (h : Fails tokens e) :
    (∀ more, parse (tokens ++ more) = .error e) ∧
    (∃! ts, FirstFailure tokens ts) ∧
    ∀ ts, FirstFailure tokens ts → parse ts = .error e := by
  have hr := h.addTokens ht
  have ⟨ts, t, hs, ⟨r, hts⟩, hf⟩ := Reading.exists_first_error hr
  have hp := parse_eq_error hf
  have hb := FirstFailure.of_addTokens ht hs hts ⟨hp, h.right⟩
  refine ⟨fun more => ?_, ⟨_, hb, fun _ h' => h'.unique hb⟩, fun ts' h' => ?_⟩
  · exact parse_eq_error <| Reading.addTokens_append_error hr more
  · exact h'.unique hb ▸ hp

theorem parse_first_error_final_repeated :
    let tokens : List Token := ["--json", "+", "-5", "--json", "--help"].map Utf8.encode
    (∀ t ∈ tokens, t.IsText) ∧ Fails tokens (.repeated .json) ∧
    (∀ more, parse (tokens ++ more) = .error (.repeated .json)) ∧
    (∃! ts, FirstFailure tokens ts) ∧
    ∀ ts, FirstFailure tokens ts → parse ts = .error (.repeated .json) := by
  intro tokens
  have ht : ∀ t ∈ tokens, t.IsText := forall_isText_iff.mpr ⟨_, rfl⟩
  have h : Fails tokens (.repeated .json) := ⟨rfl, nofun⟩
  exact ⟨ht, h, parse_first_error_final tokens ht (.repeated .json) h⟩

-- Bytes that are no text are noticed late, so another error can still come before that one.
example :
    parse [Utf8.encode "+", [0xFF]] = .error .notUtf8 ∧
    parse [Utf8.encode "+", [0xFF], Utf8.encode "-x"] = .error (.unknown "-x") :=
  ⟨rfl, rfl⟩

end LispBuiltins.Arguments
