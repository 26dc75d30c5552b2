namespace LispBuiltins.Utf8

def encode (s : String) : List UInt8 :=
  s.toList.flatMap String.utf8EncodeChar

@[simp]
theorem encode_empty : encode "" = [] :=
  rfl

@[simp]
theorem encode_append (s t : String) : encode (s ++ t) = encode s ++ encode t := by
  simp [encode]

-- A text can be sent in pieces.
theorem encode_ofList_flatten (pieces : List (List Char)) :
    encode (String.ofList pieces.flatten) = pieces.flatMap fun cs => encode (String.ofList cs) := by
  induction pieces
  case nil => rfl
  case cons cs pieces hi => simp [← hi, String.ofList_append]

theorem toByteArray_encode (s : String) : (encode s).toByteArray = s.toByteArray :=
  String.utf8Encode_toList

def decode? (bytes : List UInt8) : Option String :=
  String.fromUTF8? bytes.toByteArray

theorem decode?_eq_some_iff {bytes : List UInt8} {s : String} :
    decode? bytes = some s ↔ bytes = encode s := by
  rw [← List.toByteArray_inj, toByteArray_encode, decode?, String.fromUTF8?]
  constructor
  · intro h
    split at h
    · cases h
      rfl
    · cases h
  · intro h
    have hv : bytes.toByteArray.IsValidUTF8 := h ▸ s.isValidUTF8
    simp only [hv, ↓reduceDIte, Option.some.injEq]
    exact String.toByteArray_inj.mp h

@[simp]
theorem decode?_encode (s : String) : decode? (encode s) = some s :=
  decode?_eq_some_iff.mpr rfl

theorem encode_injective {s t : String} (h : encode s = encode t) : s = t := by
  have hs := decode?_encode s
  rw [h, decode?_encode] at hs
  exact (Option.some.inj hs).symm

-- Bytes below 0x80 stand for themselves, and are part of no other character.
theorem mem_utf8EncodeChar {c : Char} (h : b ∈ String.utf8EncodeChar c) :
    b.toNat = c.toNat ∨ 0x80 ≤ b.toNat := by
  have hv : c.val.toNat = c.toNat := rfl
  simp only [String.utf8EncodeChar, hv] at h
  repeat' split at h
  all_goals
    simp only [List.mem_cons, List.not_mem_nil, or_false, ← UInt8.toNat_inj,
      UInt8.toNat_ofNat'] at h
    omega

-- The character whose bytes stand at the front. None is spelled by more than four.
def front? (bytes : List UInt8) : Option Char :=
  (bytes.take 4).toByteArray.utf8DecodeChar? 0

theorem front?_utf8EncodeChar_append (c : Char) (bytes : List UInt8) :
    front? (String.utf8EncodeChar c ++ bytes) = some c := by
  have h : (String.utf8EncodeChar c).take 4 = String.utf8EncodeChar c :=
    List.take_of_length_le <| by simpa using c.utf8Size_le_four
  rw [front?, List.take_append, h, List.toByteArray_append]
  exact ByteArray.utf8DecodeChar?_utf8EncodeChar_append

def isContinuation (b : UInt8) : Bool :=
  0x80 ≤ b && b ≤ 0xBF

-- Whether `second` can follow `lead` in a character of three or four bytes. The bounds leave out
-- overlong spellings, surrogates and everything above the last code point.
def canFollow (lead second : UInt8) : Bool :=
  isContinuation second &&
    if lead == 0xE0 then 0xA0 ≤ second
    else if lead == 0xED then second ≤ 0x9F
    else if lead == 0xF0 then 0x90 ≤ second
    else if lead == 0xF4 then second ≤ 0x8F
    else 0xE1 ≤ lead && lead ≤ 0xF3

-- How many bytes after `lead` belong to the same broken character: the longest start of a
-- character is replaced as a whole.
def brokenTail (lead : UInt8) : List UInt8 → Nat
  | [] => 0
  | second :: rest =>
    if canFollow lead second then
      if lead ≥ 0xF0 && (rest.head?.any isContinuation) then 2 else 1
    else 0

def replacement : Char :=
  '\ufffd'

def lossyChars : List UInt8 → List Char
  | [] => []
  | b :: bytes =>
    match front? (b :: bytes) with
    | some c => c :: lossyChars (bytes.drop (c.utf8Size - 1))
    | none => replacement :: lossyChars (bytes.drop (brokenTail b bytes))
termination_by bytes => bytes.length
decreasing_by all_goals simp only [List.length_drop, List.length_cons]; omega

theorem lossyChars_utf8EncodeChar_append (c : Char) (bytes : List UInt8) :
    lossyChars (String.utf8EncodeChar c ++ bytes) = c :: lossyChars bytes := by
  have hf := front?_utf8EncodeChar_append c bytes
  have hl : (String.utf8EncodeChar c).length = c.utf8Size := by simp
  cases he : String.utf8EncodeChar c with
  | nil => simp [he] at hl; exact absurd hl.symm (Nat.ne_of_gt c.utf8Size_pos)
  | cons b rest =>
    rw [he] at hf hl
    rw [List.cons_append, lossyChars, ← List.cons_append, hf]
    simp only [List.length_cons] at hl
    simp [← hl]

theorem lossyChars_encode (s : String) : lossyChars (encode s) = s.toList := by
  rw [encode]
  induction s.toList with
  | nil => simp [lossyChars]
  | cons c cs ih => rw [List.flatMap_cons, lossyChars_utf8EncodeChar_append, ih]

def decodeLossy (bytes : List UInt8) : String :=
  String.ofList (lossyChars bytes)

@[simp]
theorem decodeLossy_encode (s : String) : decodeLossy (encode s) = s := by
  rw [decodeLossy, lossyChars_encode, String.ofList_toList]

end LispBuiltins.Utf8
