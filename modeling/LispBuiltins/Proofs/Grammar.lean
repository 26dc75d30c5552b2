import LispBuiltins.Proofs.Reading

namespace LispBuiltins.Arguments

-- The tokens before the first `--`, among which the switches are.
def front (tokens : List Token) : List Token :=
  tokens.takeWhile (· ≠ .separator)

-- The tokens after the first `--`.
def back (tokens : List Token) : List Token :=
  (tokens.dropWhile (· ≠ .separator)).tail

theorem addTokens_eq (r : Reading) (tokens : List Token) :
    r.addTokens tokens = (do
      let r ← (front tokens).foldlM Reading.addToken r
      (back tokens).foldlM Reading.addPositional r) := by
  induction tokens generalizing r
  case nil => rfl
  case cons t tokens hi =>
    by_cases ht : t = .separator
    case pos =>
      subst ht
      rfl
    case neg =>
      simp only [Reading.addTokens_cons r ht, hi]
      simp [front, back, ht]

-- Whether `t` is positional, if it stands after the tokens `earlier`.
inductive Positional : List Token → Token → Prop
  | plain (h : t.IsPlain) : Positional earlier t
  | negative (h : t.IsNegative) (hu : Positional left u) : Positional (left ++ u :: right) t

theorem positional_iff :
    Positional earlier t ↔ t.IsPlain ∨ (∃ u ∈ earlier, u.IsPlain) ∧ t.IsNegative := by
  constructor
  case mp =>
    intro h
    induction h
    case plain h => exact .inl h
    case negative left u right t h hu hi =>
      refine .inr ⟨?_, h⟩
      rcases hi with hu | ⟨⟨w, hw, hp⟩, _⟩
      · exact ⟨u, by simp, hu⟩
      · exact ⟨w, List.mem_append_left _ hw, hp⟩
  case mpr =>
    rintro (h | ⟨⟨u, hu, hp⟩, hn⟩)
    · exact .plain h
    · have ⟨left, right, he⟩ := List.append_of_mem hu
      exact he ▸ .negative hn (.plain hp)

instance : Decidable (Positional earlier t) :=
  decidable_of_iff _ positional_iff.symm

-- The positionals among the tokens that stand after `earlier`.
def positionalsAfter (earlier : List Token) : List Token → List Token
  | []      => []
  | t :: ts =>
    if Positional earlier t then t :: positionalsAfter (earlier ++ [t]) ts
    else positionalsAfter (earlier ++ [t]) ts

theorem positionalsAfter_append (earlier ts us : List Token) :
    positionalsAfter earlier (ts ++ us) =
      positionalsAfter earlier ts ++ positionalsAfter (earlier ++ ts) us := by
  induction ts generalizing earlier
  case nil => simp [positionalsAfter]
  case cons t ts hi =>
    simp only [List.cons_append, positionalsAfter, hi, List.append_assoc, List.nil_append]
    split <;> rfl

theorem positionalsAfter_concat (ts : List Token) (t : Token) :
    positionalsAfter [] (ts ++ [t]) =
      positionalsAfter [] ts ++ if Positional ts t then [t] else [] := by
  rw [positionalsAfter_append, List.nil_append, positionalsAfter, positionalsAfter]

-- The first positional is a plain token.
theorem exists_isPlain (h : positionalsAfter earlier ts ≠ []) : ∃ t ∈ earlier ++ ts, t.IsPlain := by
  induction ts generalizing earlier
  case nil => exact absurd rfl h
  case cons t ts hi =>
    rw [positionalsAfter] at h
    split at h
    case isFalse => simpa using hi h
    case isTrue hp =>
      rcases positional_iff.mp hp with hp | ⟨⟨u, hu, hp⟩, _⟩
      · exact ⟨t, by simp, hp⟩
      · exact ⟨u, List.mem_append_left _ hu, hp⟩

theorem mem_positionalsAfter_of_isPlain (ht : t ∈ ts) (hp : t.IsPlain) (earlier : List Token) :
    t ∈ positionalsAfter earlier ts := by
  have ⟨left, right, he⟩ := List.append_of_mem ht
  simp [he, positionalsAfter_append, positionalsAfter, Positional.plain hp]

def positionals (tokens : List Token) : List Token :=
  positionalsAfter [] (front tokens) ++ back tokens

-- Each token is a switch or positional where it stands, and no switch is given twice.
structure Known (tokens : List Token) : Prop where
  token : earlier ++ [t] <+: tokens → (∃ s ∈ Switch.flags, t = s.token) ∨ Positional earlier t
  once  : s ∈ Switch.flags → tokens.count s.token ≤ 1

structure Grammatical (tokens : List Token) : Prop where
  known   : Known (front tokens)
  texts   : ∀ t ∈ positionals tokens, t.IsText
  builtin : positionals tokens ≠ [] ∨ Switch.list.token ∈ front tokens

theorem not_positional_token (earlier : List Token) (s : Switch) : ¬Positional earlier s.token := by
  intro h
  rcases positional_iff.mp h with h | ⟨_, h⟩
  · exact s.not_isPlain_token h
  · exact s.not_isNegative_token h

variable {earlier ts : List Token} {t : Token}

theorem Known.concat (h : Known earlier)
    (ht : (∃ s ∈ Switch.flags, t = s.token) ∨ Positional earlier t)
    (ho : ∀ s : Switch, t = s.token → t ∉ earlier) : Known (earlier ++ [t]) where
  token hp := by
    cases List.prefix_concat_iff.mp hp
    case inr hp => exact h.token hp
    case inl he =>
      have ⟨hl, hu⟩ := List.append_inj' he rfl
      cases hu
      exact hl ▸ ht
  once {s} hs := by
    have := h.once hs
    rw [List.count_append, List.count_singleton]
    by_cases hu : t = s.token
    case neg => simpa [hu] using this
    case pos => simp [← hu, List.count_eq_zero.mpr (ho s hu)]

namespace Reading

-- What has been read of the tokens `earlier`.
structure Scanned (earlier : List Token) (r : Reading) : Prop where
  known       : Known earlier
  switches    : ∀ s, s ∈ r.switches ↔ s ∈ Switch.flags ∧ s.token ∈ earlier
  positionals : r.positionals = positionalsAfter [] earlier

namespace Scanned

theorem nil : Scanned [] { } where
  known       := { token := by simp, once := by simp }
  switches    := by simp
  positionals := rfl

variable {r r' : Reading}

theorem adds (h : Scanned earlier r) (ha : Adds r t r') : Scanned (earlier ++ [t]) r' := by
  cases ha
  case switch s hs ht hn =>
    subst ht
    have hn : s.token ∉ earlier := fun hm => hn <| (h.switches s).mpr ⟨hs, hm⟩
    exact {
      known       := h.known.concat (.inl ⟨s, hs, rfl⟩) fun _ _ => hn
      switches s' := by
        by_cases he : s' = s
        case pos => simp [he, hs]
        case neg => simp [h.switches, he, mt Switch.token_injective he]
      positionals := by simp [positionalsAfter_concat, not_positional_token, h.positionals] }
  case positional hp =>
    have hp : Positional earlier t := by
      rcases hp with hp | ⟨hn, ht⟩
      · exact .plain hp
      · exact positional_iff.mpr <| .inr ⟨exists_isPlain (h.positionals ▸ hn), ht⟩
    have hn : ∀ s : Switch, t ≠ s.token := fun s hs => not_positional_token earlier s (hs ▸ hp)
    exact {
      known       := h.known.concat (.inr hp) fun s hs => absurd hs (hn s)
      switches    := by simp [h.switches, fun s => (hn s).symm]
      positionals := by simp [positionalsAfter_concat, hp, h.positionals] }

theorem exists_adds (h : Scanned earlier r) (hk : Known (earlier ++ t :: ts)) :
    ∃ r', Adds r t r' := by
  have hp : earlier ++ [t] <+: earlier ++ t :: ts := ⟨ts, by simp⟩
  cases hk.token hp
  case inl hs =>
    have ⟨s, hs, ht⟩ := hs
    refine ⟨_, .switch hs ht fun hm => ?_⟩
    have ho := hk.once hs
    have hc := List.count_pos_iff.mpr ((h.switches s).mp hm).right
    rw [ht, List.count_append, List.count_cons_self] at ho
    omega
  case inr hp =>
    refine ⟨_, .positional ?_⟩
    rcases positional_iff.mp hp with hp | ⟨⟨u, hu, hp⟩, hn⟩
    · exact .inl hp
    · have := mem_positionalsAfter_of_isPlain hu hp []
      exact .inr ⟨h.positionals ▸ List.ne_nil_of_mem this, hn⟩

-- Every token that is read is known, and is recorded as what it is.
theorem foldlM (h : Scanned earlier r) (ht : .separator ∉ ts)
    (hr : ts.foldlM addToken r = .ok r') : Scanned (earlier ++ ts) r' := by
  induction ts generalizing earlier r
  case nil => cases hr; simpa using h
  case cons t ts hi =>
    rw [List.foldlM_cons, bind_eq_ok_iff] at hr
    have ⟨r₁, hr₁, hr⟩ := hr
    have ⟨ht, hts⟩ := not_or.mp <| mt List.mem_cons.mpr ht
    have h₁ := h.adds <| adds_of_addToken (Ne.symm ht) hr₁
    simpa using hi h₁ hts hr

-- Tokens that are known are read, as long as the positionals are texts.
theorem exists_foldlM (h : Scanned earlier r) (hk : Known (earlier ++ ts))
    (hp : ∀ t ∈ positionalsAfter [] (earlier ++ ts), t.IsText) :
    ∃ r', ts.foldlM addToken r = .ok r' := by
  induction ts generalizing earlier r
  case nil => exact ⟨r, rfl⟩
  case cons t ts hi =>
    have ⟨r₁, ha⟩ := h.exists_adds hk
    have hr : ∀ t ∈ r.positionals, t.IsText := by
      rw [positionalsAfter_append, ← h.positionals] at hp
      exact fun t ht => hp t <| List.mem_append_left _ ht
    have ⟨r', hr'⟩ := hi (h.adds ha) (by simpa using hk) (by simpa using hp)
    exact ⟨r', by rw [List.foldlM_cons, ha.addToken hr]; exact hr'⟩

end Scanned
end Reading

theorem separator_not_mem_front (tokens : List Token) : .separator ∉ front tokens :=
  fun h => by simpa using List.mem_takeWhile_imp h

theorem addTokens_eq_ok (h : Reading.addTokens { } tokens = .ok r) :
    Known (front tokens) ∧ r.positionals = positionals tokens ∧
    ∀ s ∈ Switch.flags, s ∈ r.switches ↔ s.token ∈ front tokens := by
  rw [addTokens_eq, bind_eq_ok_iff] at h
  have ⟨r₀, h₀, h⟩ := h
  have hs := Reading.Scanned.nil.foldlM (separator_not_mem_front tokens) h₀
  rw [Reading.foldlM_addPositional_eq_ok h]
  refine ⟨hs.known, congrArg (· ++ back tokens) hs.positionals, fun s hm => ?_⟩
  exact (hs.switches s).trans <| and_iff_right hm

theorem exists_addTokens (hk : Known (front tokens)) (ht : ∀ t ∈ positionals tokens, t.IsText) :
    ∃ r, Reading.addTokens { } tokens = .ok r := by
  have hf : ∀ t ∈ positionalsAfter [] (front tokens), t.IsText :=
    fun t hm => ht t <| List.mem_append_left _ hm
  have ⟨r, hr⟩ : ∃ r, (front tokens).foldlM Reading.addToken { } = .ok r :=
    Reading.Scanned.nil.exists_foldlM hk hf
  have hs := Reading.Scanned.nil.foldlM (separator_not_mem_front tokens) hr
  rw [List.nil_append] at hs
  rw [positionals, ← hs.positionals] at ht
  rw [addTokens_eq, hr]
  exact ⟨_, Reading.foldlM_addPositional ht⟩

theorem parse_eq_ok_iff {i : Invocation} :
    parse tokens = .ok i ↔ Known (front tokens) ∧ ∃ ts : List String,
      positionals tokens = ts.map Utf8.encode ∧
      (ts ≠ [] ∨ Switch.list.token ∈ front tokens) ∧
      i = {
        builtin := ts.head?
        args := ts.tail
        json := Switch.json.token ∈ front tokens
        list := Switch.list.token ∈ front tokens
        noColor := Switch.noColor.token ∈ front tokens } := by
  constructor
  case mp =>
    intro h
    have ⟨r, hr, h⟩ := bind_eq_ok_iff.mp h
    have ⟨hk, hp, hs⟩ := addTokens_eq_ok hr
    have ⟨ts, ht, hb, hi⟩ := Reading.finish_eq_ok_iff.mp h
    simp only [hs .json (by decide), hs .list (by decide), hs .noColor (by decide)] at hb hi
    exact ⟨hk, ts, hp ▸ ht, hb, hi⟩
  case mpr =>
    rintro ⟨hk, ts, ht, hb, hi⟩
    have ⟨r, hr⟩ := exists_addTokens hk <| forall_isText_iff.mpr ⟨ts, ht⟩
    have ⟨_, hp, hs⟩ := addTokens_eq_ok hr
    refine bind_eq_ok_iff.mpr ⟨r, hr, Reading.finish_eq_ok_iff.mpr ⟨ts, hp.trans ht, ?_, ?_⟩⟩
    · rwa [hs .list (by decide)]
    · simpa only [hs .json (by decide), hs .list (by decide), hs .noColor (by decide)]

-- A command line is understood just if it is grammatical, and then nothing of it is lost.
theorem parse_accepts_grammar (tokens : List Token) :
    ((∃ i, parse tokens = .ok i) ↔ Grammatical tokens) ∧
    ∀ i, parse tokens = .ok i →
      (i.json = true ↔ Utf8.encode "--json" ∈ front tokens) ∧
      (i.list = true ↔ Utf8.encode "--list" ∈ front tokens) ∧
      (i.noColor = true ↔ Utf8.encode "--no-color" ∈ front tokens) ∧
      i.builtin.map Utf8.encode = (positionals tokens).head? ∧
      i.args.map Utf8.encode = (positionals tokens).tail ∧
      (i.builtin ≠ none ∨ i.list = true) := by
  constructor
  case left =>
    constructor
    case mp =>
      rintro ⟨i, h⟩
      have ⟨hk, ts, ht, hb, _⟩ := parse_eq_ok_iff.mp h
      exact {
        known   := hk
        texts   := forall_isText_iff.mpr ⟨ts, ht⟩
        builtin := by simpa [ht] using hb }
    case mpr =>
      intro h
      have ⟨ts, ht⟩ := forall_isText_iff.mp h.texts
      have hb : ts ≠ [] ∨ Switch.list.token ∈ front tokens := by simpa [ht] using h.builtin
      exact ⟨_, parse_eq_ok_iff.mpr ⟨h.known, ts, ht, hb, rfl⟩⟩
  case right =>
    intro i h
    have ⟨_, ts, ht, hb, hi⟩ := parse_eq_ok_iff.mp h
    rw [hi, ht]
    simp only [decide_eq_true_eq, List.head?_map, List.map_tail, true_and]
    refine ⟨.rfl, .rfl, .rfl, hb.imp_left ?_⟩
    cases ts <;> simp

end LispBuiltins.Arguments
