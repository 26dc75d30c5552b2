import LispBuiltins.Proofs.Answers

namespace LispBuiltins

namespace Code

def bytes (c : Code) : List UInt8 :=
  Utf8.encode c.text

def escape : UInt8 :=
  0x1B

theorem bytes_eq (c : Code) : c.bytes = escape :: c.bytes.tail := by
  cases c <;> rfl

theorem length_bytes_pos (c : Code) : 0 < c.bytes.length :=
  c.bytes_eq ▸ Nat.zero_lt_succ _

theorem mem_all (c : Code) : c ∈ all := by
  cases c <;> decide

-- The code that stands at the front.
def front? (bytes : List UInt8) : Option Code :=
  all.find? (·.bytes.isPrefixOf bytes)

theorem front?_bytes_append (c : Code) (bs : List UInt8) : front? (c.bytes ++ bs) = some c := by
  cases c <;> rfl

theorem front?_of_ne_escape (h : b ≠ escape) (bs : List UInt8) : front? (b :: bs) = none := by
  refine List.find?_eq_none.mpr fun c _ => ?_
  rw [bytes_eq, List.isPrefixOf_cons_cons]
  simp [h.symm]

-- No code can go on with these bytes.
def Breaks (bs : List UInt8) : Prop :=
  ∀ b ∈ bs.head?, ∀ c ∈ all, b ∉ c.bytes.tail

instance : (bs : List UInt8) → Decidable (Breaks bs)
  | []     => .isTrue nofun
  | b :: _ => decidable_of_iff (∀ c ∈ all, b ∉ c.bytes.tail) (by simp [Breaks])

variable {as bs : List UInt8}

theorem Breaks.append (h : Breaks as) (hn : as ≠ []) (bs : List UInt8) : Breaks (as ++ bs) := by
  simpa [Breaks, hn] using h

theorem breaks_bytes (c : Code) (bs : List UInt8) : Breaks (c.bytes ++ bs) := by
  have h : Breaks c.bytes := by cases c <;> decide
  exact h.append (c.bytes_eq ▸ nofun) bs

theorem isPrefixOf_append (hb : Breaks bs) (c : Code) (a : UInt8) (as : List UInt8) :
    c.bytes.isPrefixOf (a :: as ++ bs) = c.bytes.isPrefixOf (a :: as) := by
  have ha : a :: as <+: a :: as ++ bs := List.prefix_append ..
  rw [Bool.eq_iff_iff, List.isPrefixOf_iff_prefix, List.isPrefixOf_iff_prefix]
  refine ⟨fun h => ?_, (List.IsPrefix.trans · ha)⟩
  cases List.prefix_or_prefix_of_prefix h ha
  case inl h => exact h
  case inr hp =>
    have ⟨ds, hd⟩ := hp
    rw [← hd, List.prefix_append_right_inj] at h
    cases ds
    case nil => simp [← hd]
    case cons d ds =>
      -- The code would have to go on with the first of `bs`.
      have ⟨_, he⟩ := h
      have hm : d ∈ c.bytes.tail := by simp [← hd]
      exact absurd hm <| hb d (he ▸ rfl) c c.mem_all

theorem front?_append (hb : Breaks bs) (a : UInt8) (as : List UInt8) :
    front? (a :: as ++ bs) = front? (a :: as) := by
  simp only [front?, isPrefixOf_append hb]

theorem isPrefix_bytes (h : front? as = some c) : c.bytes <+: as :=
  List.isPrefixOf_iff_prefix.mp <| List.find?_some (p := fun c : Code => c.bytes.isPrefixOf as) h

-- Deletes all codes, in one pass from left to right.
def strip : List UInt8 → List UInt8
  | []      => []
  | b :: bs =>
    match front? (b :: bs) with
    | some c => strip ((b :: bs).drop c.bytes.length)
    | none   => b :: strip bs
termination_by bytes => bytes.length
decreasing_by
  · have := c.length_bytes_pos
    simp only [List.length_drop, List.length_cons]
    omega
  · simp

theorem strip_eq_drop (h : front? as = some c) : strip as = strip (as.drop c.bytes.length) := by
  cases as
  case nil       => simp only [strip, List.drop_nil]
  case cons a as => simp only [strip, h]

theorem strip_cons (h : front? (a :: as) = none) : strip (a :: as) = a :: strip as := by
  simp only [strip, h]

theorem strip_bytes_append (c : Code) (bs : List UInt8) : strip (c.bytes ++ bs) = strip bs := by
  rw [strip_eq_drop <| c.front?_bytes_append bs, List.drop_left]

-- What follows a text makes no code of the end of it, unless a code can go on so.
theorem strip_append (hb : Breaks bs) (as : List UInt8) :
    strip (as ++ bs) = strip as ++ strip bs := by
  fun_induction strip as
  case case1 => rfl
  case case2 a as c hc hi =>
    have h := front?_append hb a as ▸ hc
    have hl := (isPrefix_bytes hc).length_le
    rw [strip_eq_drop h, List.drop_append_of_le_length hl, hi]
  case case3 a as hc hi =>
    have h : front? (a :: (as ++ bs)) = none := front?_append hb a as ▸ hc
    simp only [List.cons_append, strip_cons h, hi]

-- What is left is not looked at again.
example : strip (Utf8.encode "\x1b[3\x1b[31m1m") = Utf8.encode "\x1b[31m" := by
  cbv

theorem strip_append_of_not_mem (h : escape ∉ as) (bs : List UInt8) :
    strip (as ++ bs) = as ++ strip bs := by
  induction as
  case nil => rfl
  case cons a as hi =>
    have ⟨ha, has⟩ := not_or.mp <| mt List.mem_cons.mpr h
    simp only [List.cons_append, strip_cons (front?_of_ne_escape (Ne.symm ha) _), hi has]

end Code

open Code

-- No code starts in a text like this.
def Clean (text : String) : Prop :=
  '\x1b' ∉ text.toList

instance (text : String) : Decidable (Clean text) :=
  inferInstanceAs <| Decidable ('\x1b' ∉ text.toList)

theorem clean_ofList (h : '\x1b' ∉ cs := by decide) : Clean (String.ofList cs) := by
  rwa [Clean, String.toList_ofList]

@[simp]
theorem clean_append {s t : String} : Clean (s ++ t) ↔ Clean s ∧ Clean t := by
  simp [Clean, not_or]

namespace Clean

variable {text : String}

theorem escape_not_mem (h : Clean text) : escape ∉ Utf8.encode text := by
  intro he
  have ⟨c, hc, hb⟩ := List.mem_flatMap.mp he
  cases Utf8.mem_utf8EncodeChar hb
  case inl hn =>
    have he : '\x1b'.toNat = c.toNat := hn
    exact h <| Char.toNat_inj.mp he ▸ hc
  case inr hn => exact absurd hn (by decide)

theorem strip_append (h : Clean text) (bs : List UInt8) :
    strip (Utf8.encode text ++ bs) = Utf8.encode text ++ strip bs :=
  strip_append_of_not_mem h.escape_not_mem bs

theorem strip_eq (h : Clean text) : strip (Utf8.encode text) = Utf8.encode text := by
  simpa [strip] using h.strip_append []

end Clean

-- A text that keeps codes apart.
structure Separator (text : String) : Prop where
  ne_nil : Utf8.encode text ≠ []
  breaks : Breaks (Utf8.encode text)
  clean  : Clean text

theorem separator_colon : Separator ": " :=
  ⟨nofun, by decide, clean_ofList⟩

theorem separator_newline : Separator "\n" :=
  ⟨nofun, by decide, clean_ofList⟩

theorem separator_slash : Separator "/" :=
  ⟨nofun, by decide, clean_ofList⟩

namespace Palette

def uncolored : Palette where
  color := false

@[simp]
theorem paint_uncolored (r : Role) (text : String) : uncolored.paint r text = text :=
  rfl

theorem encode_codes (cs : List Code) : Utf8.encode (paint.codes cs) = cs.flatMap Code.bytes := by
  induction cs
  case nil => rfl
  case cons c cs hi =>
    rw [List.flatMap_cons, ← hi]
    exact (congrArg _ String.join_cons).trans <| Utf8.encode_append ..

theorem strip_codes_append (cs : List Code) (bs : List UInt8) :
    strip (cs.flatMap Code.bytes ++ bs) = strip bs := by
  induction cs
  case nil          => rfl
  case cons c cs hi => rw [List.flatMap_cons, List.append_assoc, strip_bytes_append, hi]

theorem breaks_closing (r : Role) (bs : List UInt8) :
    Breaks (r.closing.flatMap Code.bytes ++ bs) := by
  cases r <;> simp only [Role.closing, List.flatMap_cons, List.append_assoc] <;> apply breaks_bytes

-- Paint comes off a text, whatever codes and parts of codes are in the text.
theorem strip_paint (p : Palette) (r : Role) (text : String) (hs : Separator sep)
    (bs : List UInt8) :
    strip (Utf8.encode (p.paint r text) ++ (Utf8.encode sep ++ bs)) =
      strip (Utf8.encode text) ++ (Utf8.encode sep ++ strip bs) := by
  have hb := hs.breaks.append hs.ne_nil bs
  rw [← hs.clean.strip_append]
  unfold paint
  split
  case isFalse => exact strip_append hb _
  case isTrue =>
    simp only [Utf8.encode_append, encode_codes, List.append_assoc, strip_codes_append,
      strip_append (breaks_closing r _)]

end Palette

theorem Advice.strip_render (p p' : Palette) (a : Advice) :
    strip (Utf8.encode (a.render p)) = strip (Utf8.encode (a.render p')) := by
  have h (p) : strip (Utf8.encode (a.render p) ++ []) =
      strip (Utf8.encode a.help) ++ (Utf8.encode "\n" ++ (Utf8.encode "    " ++
        (strip (Utf8.encode a.hint) ++ (Utf8.encode "\n" ++ strip [])))) := by
    have hs : Clean "    " := clean_ofList
    simp only [render, Utf8.encode_append, List.append_assoc, hs.strip_append,
      p.strip_paint _ _ separator_newline]
  simpa only [List.append_nil] using (h p).trans (h p').symm

theorem Diagnostic.strip_render (p p' : Palette) (d : Diagnostic) :
    strip (Utf8.encode (d.render p)) = strip (Utf8.encode (d.render p')) := by
  have ha : strip (Utf8.encode ((d.advice.map (Advice.render p)).getD "")) =
      strip (Utf8.encode ((d.advice.map (Advice.render p')).getD "")) := by
    cases d.advice
    case none   => rfl
    case some a => exact a.strip_render p p'
  simp only [render, Utf8.encode_append, List.append_assoc, ha,
    Palette.strip_paint _ _ _ separator_newline, Palette.strip_paint _ _ _ separator_colon]

namespace Builtin

theorem strip_entry_append (p : Palette) (b : Builtin) (bs : List UInt8) :
    strip ((b.entry p).flatMap Utf8.encode ++ bs) =
      (b.entry .uncolored).flatMap Utf8.encode ++ strip bs := by
  have hn : Clean b.name := by cases b <;> decide
  have ht : Clean (b.arity.repr ++ " (" ++ b.altName ++ ")\n") := by cases b <;> decide
  have ht := ht.strip_append bs
  simp only [Utf8.encode_append, List.append_assoc] at ht
  simp only [entry, Palette.paint_uncolored, List.flatMap_cons, List.flatMap_nil, List.append_nil,
    List.append_assoc, p.strip_paint _ _ separator_slash, hn.strip_eq, ht]

theorem strip_listing (p : Palette) : strip (listing p) = listing .uncolored := by
  have h (bs : List Builtin) : strip (bs.flatMap fun b => (b.entry p).flatMap Utf8.encode) =
      bs.flatMap fun b => (b.entry .uncolored).flatMap Utf8.encode := by
    induction bs
    case nil          => simp only [List.flatMap_nil, strip]
    case cons b bs hi => simp only [List.flatMap_cons, strip_entry_append, hi]
  exact h all

end Builtin
end LispBuiltins
