import LispBuiltins.Proofs.CommandLine
import LispBuiltins.Proofs.NumberToken

namespace LispBuiltins

namespace Token

def separator : Token :=
  [dash, dash]

-- These are positional wherever they stand.
def IsPlain (t : Token) : Prop :=
  t = [] ∨ t = [dash] ∨ t.head? ≠ some dash

def IsNegative (t : Token) : Prop :=
  ∃ body, t = dash :: body ∧ NumberBody body

instance (t : Token) : Decidable t.IsPlain :=
  inferInstanceAs <| Decidable (t = [] ∨ t = [dash] ∨ t.head? ≠ some dash)

instance : (t : Token) → Decidable t.IsNegative
  | []        => .isFalse (by rintro ⟨_, ⟨⟩, _⟩)
  | b :: body => decidable_of_iff (b = dash ∧ isNumber body) <| by
    simp [IsNegative, isNumber_iff, and_assoc]

theorem IsPlain.shape (h : IsPlain t) : t.shape = .plain := by
  unfold Token.shape
  split
  case h_2 => rfl
  case h_1 a b rest =>
    have ha : a ≠ dash := by simpa [IsPlain] using h
    rw [if_pos ha]

theorem IsNegative.shape (h : IsNegative t) :
    ∃ body, t = dash :: body ∧ isNumber body ∧ t.shape = .short body := by
  have ⟨body, ht, hb⟩ := h
  cases body
  case nil => exact absurd rfl hb.ne_nil
  case cons b bs =>
    refine ⟨b :: bs, ht, isNumber_iff.mpr hb, ?_⟩
    simp [ht, Token.shape, ne_dash_of_isDigit hb.isDigit_head]

theorem splitValue_fst (h : (splitValue body).snd = none) : (splitValue body).fst = body := by
  unfold splitValue at h ⊢
  split
  case h_1    => rfl
  case h_2 he => rw [he] at h; cases h

-- What the shape of a token says about it. A name that has a value is of no interest.
theorem shape_spec (t : Token) :
    match t.shape with
    | .plain           => t.IsPlain
    | .endOfSwitches   => t = separator
    | .short body      => t = dash :: body
    | .long name value => value = none → t = dash :: dash :: name := by
  match t with
  | []  => exact .inl rfl
  | [a] =>
    by_cases ha : a = dash
    case pos => exact .inr <| .inl <| ha ▸ rfl
    case neg => exact .inr <| .inr <| by simpa using ha
  | a :: b :: rest =>
    by_cases ha : a = dash
    case neg => simp [shape, ha, IsPlain]
    case pos =>
      by_cases hb : b = dash
      case neg => simp [shape, ha, hb]
      case pos =>
        by_cases hr : rest = []
        case pos => simp [shape, ha, hb, hr, separator]
        case neg => simpa [shape, ha, hb, hr] using fun h => (splitValue_fst h).symm

end Token

namespace Switch

-- The switches of a call. The other one asks for help instead.
def flags : List Switch :=
  [json, list, noColor]

theorem mem_flags_iff : s ∈ flags ↔ s ≠ help := by
  cases s <;> decide

def token (s : Switch) : Token :=
  Utf8.encode ("--" ++ s.name)

theorem token_injective (h : token s = token s') : s = s' := by
  revert h
  cases s <;> cases s' <;> decide

theorem token_eq (s : Switch) : s.token = Token.dash :: Token.dash :: Utf8.encode s.name :=
  Utf8.encode_append ..

theorem shape_token (s : Switch) : s.token.shape = .long (Utf8.encode s.name) none := by
  cases s <;> rfl

theorem ofName?_encode_name (s : Switch) : ofName? (Utf8.encode s.name) = some s := by
  cases s <;> decide

theorem ofName?_eq_some {bytes : Token} (h : ofName? bytes = some s) : Utf8.encode s.name = bytes :=
  eq_of_beq <| List.find?_some (p := fun s => Utf8.encode (name s) == bytes) h

theorem not_isPlain_token (s : Switch) : ¬s.token.IsPlain := by
  cases s <;> decide

theorem not_isNegative_token (s : Switch) : ¬s.token.IsNegative := by
  cases s <;> decide

end Switch

theorem bind_eq_ok_iff {x : Except ε α} {f : α → Except ε β} :
    x >>= f = .ok b ↔ ∃ a, x = .ok a ∧ f a = .ok b := by
  cases x
  case error => exact ⟨nofun, nofun⟩
  case ok a  => exact ⟨fun h => ⟨a, rfl, h⟩, fun ⟨_, rfl, h⟩ => h⟩

def Token.IsText (t : Token) : Prop :=
  ∃ text, t = Utf8.encode text

namespace Arguments

theorem texts_eq_ok_iff : texts tokens = .ok ts ↔ tokens = ts.map Utf8.encode := by
  refine ⟨fun h => ?_, fun h => h ▸ texts_encode ts⟩
  replace h : tokens.mapM Utf8.decode? = some ts := by
    unfold texts at h
    split at h <;> cases h
    assumption
  induction tokens generalizing ts
  case nil => cases h; rfl
  case cons t tokens hi =>
    simp only [List.mapM_cons, Option.bind_eq_bind, Option.bind_eq_some_iff] at h
    have ⟨u, hu, us, hus, h⟩ := h
    cases h
    rw [List.map_cons, ← Utf8.decode?_eq_some_iff.mp hu, ← hi hus]

theorem forall_isText_iff {tokens : List Token} :
    (∀ t ∈ tokens, t.IsText) ↔ ∃ ts : List String, tokens = ts.map Utf8.encode := by
  constructor
  case mpr =>
    rintro ⟨ts, rfl⟩ t ht
    have ⟨text, _, h⟩ := List.mem_map.mp ht
    exact ⟨text, h.symm⟩
  case mp =>
    intro h
    induction tokens
    case nil => exact ⟨[], rfl⟩
    case cons t tokens hi =>
      have ⟨⟨u, hu⟩, h⟩ := List.forall_mem_cons.mp h
      have ⟨us, hus⟩ := hi h
      exact ⟨u :: us, by rw [List.map_cons, hu, hus]⟩

namespace Reading

-- What comes of one token that is no separator.
def addToken (r : Reading) (t : Token) : Except UsageError Reading :=
  match t.shape with
  | .endOfSwitches   => .ok r
  | .long name value => r.addLong name value
  | .short body      => r.addShort body
  | .plain           => r.addPositional t

theorem addTokens_cons (r : Reading) (ht : t ≠ .separator) (ts : List Token) :
    r.addTokens (t :: ts) = (do (← r.addToken t).addTokens ts) := by
  have := t.shape_spec
  rw [addTokens, addToken]
  split <;> simp_all

theorem addTokens_separator (r : Reading) (ts : List Token) :
    r.addTokens (.separator :: ts) = ts.foldlM addPositional r :=
  rfl

variable {r r' : Reading} {t : Token} {ts : List String}

theorem addPositional_of_isText (hp : ∀ t ∈ r.positionals, t.IsText) (t : Token) :
    r.addPositional t = .ok { r with positionals := r.positionals ++ [t] } := by
  have ht : ∀ t ∈ r.positionals.take 1, t.IsText := fun t ht => hp t <| List.mem_of_mem_take ht
  have ⟨ts, hts⟩ := forall_isText_iff.mp ht
  simp only [addPositional, texts_eq_ok_iff.mpr hts]
  rfl

theorem addPositional_eq_ok (h : r.addPositional t = .ok r') :
    r' = { r with positionals := r.positionals ++ [t] } := by
  have ⟨_, _, h⟩ := bind_eq_ok_iff.mp h
  cases h
  rfl

theorem addSwitch_eq (s : Switch) (hp : r.positionals = ts.map Utf8.encode) :
    r.addSwitch s =
      if s = .help then .error .helpRequested
      else if s ∈ r.switches then .error (.repeated s)
      else .ok { r with switches := r.switches ++ [s] } := by
  simp only [addSwitch, texts_eq_ok_iff.mpr hp]
  rfl

theorem addSwitch_eq_ok {s : Switch} (h : r.addSwitch s = .ok r') :
    s ≠ .help ∧ s ∉ r.switches ∧ r' = { r with switches := r.switches ++ [s] } := by
  have ⟨_, ht, _⟩ := bind_eq_ok_iff.mp h
  rw [addSwitch_eq s (texts_eq_ok_iff.mp ht)] at h
  repeat' split at h
  all_goals cases h
  exact ⟨‹_›, ‹_›, rfl⟩

-- What one token can do: it is a switch that was not given before, or a positional.
inductive Adds (r : Reading) (t : Token) : Reading → Prop
  | switch (hs : s ∈ Switch.flags) (ht : t = s.token) (hn : s ∉ r.switches) :
    Adds r t { r with switches := r.switches ++ [s] }
  | positional (h : t.IsPlain ∨ r.positionals ≠ [] ∧ t.IsNegative) :
    Adds r t { r with positionals := r.positionals ++ [t] }

theorem adds_of_addToken (ht : t ≠ .separator) (h : r.addToken t = .ok r') : Adds r t r' := by
  have hs := t.shape_spec
  unfold addToken at h
  split at h <;> rename_i hshape <;> simp only [hshape] at hs
  case h_1 => exact absurd hs ht
  case h_2 name value =>
    unfold addLong at h
    split at h
    case h_1 s hn =>
      have ⟨hh, hn', hr⟩ := addSwitch_eq_ok h
      have he := Switch.ofName?_eq_some hn
      have ht : t = s.token := by rw [hs rfl, Switch.token_eq, he]
      rw [hr]
      exact .switch (Switch.mem_flags_iff.mpr hh) ht hn'
    all_goals cases h
  case h_3 body =>
    unfold addShort at h
    split at h
    case isTrue hb =>
      rw [addPositional_eq_ok h, hs]
      exact .positional <| .inr ⟨hb.left, _, rfl, Token.isNumber_iff.mp hb.right⟩
    case isFalse =>
      split at h
      case isTrue  => exact absurd rfl (addSwitch_eq_ok h).left
      case isFalse => cases h
  case h_4 =>
    rw [addPositional_eq_ok h]
    exact .positional <| .inl hs

theorem Adds.addToken (h : Adds r t r') (hp : ∀ t ∈ r.positionals, t.IsText) :
    r.addToken t = .ok r' := by
  have ⟨ts, hts⟩ := forall_isText_iff.mp hp
  cases h
  case switch s hs ht hn =>
    simp only [Reading.addToken, ht, Switch.shape_token, addLong, Switch.ofName?_encode_name,
      addSwitch_eq s hts, if_neg (Switch.mem_flags_iff.mp hs), if_neg hn]
  case positional h =>
    rcases h with h | ⟨hn, h⟩
    · simp only [Reading.addToken, h.shape, addPositional_of_isText hp]
    · have ⟨body, ht, hb, hs⟩ := h.shape
      simp only [Reading.addToken, hs, addShort, if_pos (And.intro hn hb), ← ht,
        addPositional_of_isText hp]

theorem foldlM_addPositional_eq_ok (h : tokens.foldlM addPositional r = .ok r') :
    r' = { r with positionals := r.positionals ++ tokens } := by
  induction tokens generalizing r
  case nil => cases h; simp
  case cons t tokens hi =>
    rw [List.foldlM_cons, bind_eq_ok_iff] at h
    have ⟨_, ht, h⟩ := h
    simp [hi h, addPositional_eq_ok ht]

theorem foldlM_addPositional (hp : ∀ t ∈ r.positionals ++ tokens, t.IsText) :
    tokens.foldlM addPositional r = .ok { r with positionals := r.positionals ++ tokens } := by
  induction tokens generalizing r
  case nil => simp; rfl
  case cons t tokens hi =>
    have hr := addPositional_of_isText (fun t ht => hp t <| List.mem_append_left _ ht) t
    have hi := @hi { r with positionals := r.positionals ++ [t] } (by simpa using hp)
    rw [List.foldlM_cons, bind_eq_ok_iff]
    exact ⟨_, hr, by simpa using hi⟩

theorem finish_eq_ok_iff :
    r.finish = .ok i ↔ ∃ ts, r.positionals = ts.map Utf8.encode ∧
      (ts ≠ [] ∨ .list ∈ r.switches) ∧
      i = {
        builtin := ts.head?
        args := ts.tail
        json := .json ∈ r.switches
        list := .list ∈ r.switches
        noColor := .noColor ∈ r.switches } := by
  simp only [finish, bind_eq_ok_iff, texts_eq_ok_iff]
  refine exists_congr fun ts => and_congr_right fun _ => ?_
  have hc : ¬(ts = [] ∧ .list ∉ r.switches) ↔ ts ≠ [] ∨ .list ∈ r.switches := by
    simp [imp_iff_not_or]
  split
  case isTrue h =>
    constructor <;> intro h'
    case mp  => cases h'
    case mpr => exact absurd h <| hc.mpr h'.left
  case isFalse h =>
    constructor <;> intro h'
    case mp  => exact ⟨hc.mp h, (Except.ok.inj h').symm⟩
    case mpr => exact congrArg Except.ok h'.right.symm

end Reading
end Arguments
end LispBuiltins
