import Mathlib

/-!
# Text as UTF-8 bytes

The string operations a byte-stream grammar needs: the bytes of a string,
the checked decoding of a byte slice, and splitting at a character. Lean's
own UTF-8 codec does the work; only the shapes of the operations are fixed
here.
-/

namespace TokenStation.Library.Text

/-- The UTF-8 bytes of a string. -/
def bytes (s : String) : List UInt8 := s.toByteArray.data.toList

/-- The string with these UTF-8 bytes, or nothing when they are not UTF-8. -/
def fromUtf8 (b : List UInt8) : Option String := String.fromUTF8? ⟨b.toArray⟩

/-- The parts before and after the first occurrence of a character. -/
def splitOnceList (c : Char) : List Char → Option (List Char × List Char)
  | [] => none
  | x :: xs => if x = c then some ([], xs) else (splitOnceList c xs).map fun p => (x :: p.1, p.2)

/-- The text before and after the first occurrence of a character. -/
def splitOnce (s : String) (c : Char) : Option (String × String) :=
  (splitOnceList c s.toList).map fun p => (String.ofList p.1, String.ofList p.2)

/-- The text after one leading character, when the text starts with it. -/
def stripPrefix (s : String) (c : Char) : Option String :=
  match s.toList with
  | x :: xs => if x = c then some (String.ofList xs) else none
  | [] => none

/-- The text after a leading text, when there is one. -/
def stripText (s lead : String) : Option String :=
  if lead.toList.isPrefixOf s.toList then some (String.ofList (s.toList.drop lead.length)) else none

/-- Whether the text starts with a character. -/
def startsWith (s : String) (c : Char) : Bool := s.toList.head? == some c

/-- Whether two texts differ at most in the case of ASCII letters. -/
def eqIgnoreAsciiCase (a b : List Char) : Bool := a.map Char.toLower == b.map Char.toLower

/-- The text without its last character. -/
def pop (s : String) : String := String.ofList s.toList.dropLast

theorem stripText_append (lead s : String) : stripText (lead ++ s) lead = some s := by
  have hlead : lead.toList.isPrefixOf (lead ++ s).toList = true := by
    simp [List.isPrefixOf_iff_prefix]
  rw [stripText, if_pos hlead, String.toList_append, ← String.length_toList, List.drop_left,
    String.ofList_toList]

theorem fromUtf8_bytes (s : String) : fromUtf8 (bytes s) = some s := by
  simp [fromUtf8, bytes, String.fromUTF8?, s.isValidUTF8, String.fromUTF8]

theorem bytes_of_fromUtf8 {b : List UInt8} {s : String} (h : fromUtf8 b = some s) :
    bytes s = b := by
  unfold fromUtf8 String.fromUTF8? at h
  split at h
  · cases h
    simp [bytes, String.fromUTF8]
  · cases h

@[simp] theorem bytes_append (s t : String) : bytes (s ++ t) = bytes s ++ bytes t := by
  simp [bytes]

@[simp] theorem length_bytes (s : String) : (bytes s).length = s.utf8ByteSize := by
  rw [← String.size_toByteArray]
  rfl

/-- The length of decoded text is the number of bytes it was decoded from. -/
theorem utf8ByteSize_of_fromUtf8 {b : List UInt8} {s : String} (h : fromUtf8 b = some s) :
    s.utf8ByteSize = b.length := by
  rw [← length_bytes, bytes_of_fromUtf8 h]

theorem fromUtf8_eq_some_iff {b : List UInt8} {s : String} :
    fromUtf8 b = some s ↔ b = bytes s :=
  ⟨fun h => (bytes_of_fromUtf8 h).symm, fun h => h ▸ fromUtf8_bytes s⟩

theorem bytes_injective : Function.Injective bytes := by
  intro s t h
  have hs := fromUtf8_bytes s
  rw [h, fromUtf8_bytes t] at hs
  exact (Option.some.inj hs).symm

@[simp] theorem pop_push (s : String) (c : Char) : pop (s ++ String.singleton c) = s := by
  simp [pop]

theorem isSome_fromUtf8_iff {b : List UInt8} :
    (fromUtf8 b).isSome ↔ ByteArray.IsValidUTF8 ⟨b.toArray⟩ := by
  unfold fromUtf8 String.fromUTF8?
  split <;> simp_all

/-- Decoding a slice that starts with the bytes of one character decodes the
rest of it. -/
theorem fromUtf8_singleton_append (c : Char) (b : List UInt8) :
    fromUtf8 (bytes (String.singleton c) ++ b) = (fromUtf8 b).map (String.singleton c ++ ·) := by
  have harray : (⟨(bytes (String.singleton c) ++ b).toArray⟩ : ByteArray) =
      [c].utf8Encode ++ ⟨b.toArray⟩ := by
    rw [← String.toByteArray_singleton]
    apply ByteArray.ext
    simp [bytes]
  cases h : fromUtf8 b with
  | some s =>
      rw [Option.map_some, fromUtf8_eq_some_iff, bytes_append, bytes_of_fromUtf8 h]
  | none =>
      have hvalid : ¬ByteArray.IsValidUTF8 ⟨b.toArray⟩ := by
        rw [← isSome_fromUtf8_iff, h]
        simp
      rw [← ByteArray.isValidUTF8_utf8Encode_singleton_append_iff (c := c), ← harray,
        ← isSome_fromUtf8_iff] at hvalid
      simpa using hvalid

/-- The bytes of a repeated character. -/
theorem bytes_replicate (n : Nat) (c : Char) :
    bytes (String.ofList (List.replicate n c)) =
      (List.replicate n (bytes (String.singleton c))).flatten := by
  induction n with
  | zero => rfl
  | succ n ih =>
      rw [List.replicate_succ, List.replicate_succ, List.flatten_cons, ← ih, ← bytes_append]
      congr 1
      apply String.toList_injective
      simp

theorem bytes_ofList (cs : List Char) :
    bytes (String.ofList cs) = cs.flatMap String.utf8EncodeChar := by
  simp [bytes, List.utf8Encode]

/-- Only an ASCII character has an ASCII byte in its encoding. -/
theorem ascii_mem_utf8EncodeChar {c : Char} {b : UInt8} (h : b ∈ String.utf8EncodeChar c)
    (hb : b.toNat < 128) : c.toNat = b.toNat := by
  have hbyte : ∀ n, b = UInt8.ofNat n → b.toNat = n % 256 := by
    rintro n rfl
    exact UInt8.toNat_ofNat'
  unfold String.utf8EncodeChar at h
  dsimp only at h
  split_ifs at h <;> simp only [List.mem_cons, List.not_mem_nil, or_false] at h
  · have := hbyte _ h
    change c.val.toNat = _
    omega
  · rcases h with h | h <;> have := hbyte _ h <;> omega
  · rcases h with h | h | h <;> have := hbyte _ h <;> omega
  · rcases h with h | h | h | h <;> have := hbyte _ h <;> omega

/-- An ASCII byte of a text is one of its characters. -/
theorem ascii_mem_bytes {s : String} {b : UInt8} (h : b ∈ bytes s) (hb : b.toNat < 128) :
    ∃ c ∈ s.toList, c.toNat = b.toNat := by
  rw [← String.ofList_toList (s := s), bytes_ofList, List.mem_flatMap] at h
  obtain ⟨c, hc, hmem⟩ := h
  exact ⟨c, hc, ascii_mem_utf8EncodeChar hmem hb⟩

theorem splitOnceList_eq_some {c : Char} {cs a b : List Char}
    (h : splitOnceList c cs = some (a, b)) : cs = a ++ c :: b := by
  induction cs generalizing a with
  | nil => simp [splitOnceList] at h
  | cons x cs ih =>
      rw [splitOnceList] at h
      split at h
      · cases h
        simp_all
      · obtain ⟨p, hp, he⟩ := Option.map_eq_some_iff.mp h
        cases he
        simp [ih hp]

/-- The parts of a split text, joined at the character, are the text. -/
theorem splitOnce_eq_some {s a b : String} {c : Char} (h : splitOnce s c = some (a, b)) :
    s = a ++ String.singleton c ++ b := by
  obtain ⟨p, hp, he⟩ := Option.map_eq_some_iff.mp h
  cases he
  apply String.toList_injective
  simpa using splitOnceList_eq_some hp

theorem stripPrefix_eq_some {s t : String} {c : Char} (h : stripPrefix s c = some t) :
    s = String.singleton c ++ t := by
  unfold stripPrefix at h
  split at h
  · rename_i x xs hs
    split at h
    · cases h
      apply String.toList_injective
      simp_all
    · cases h
  · cases h

end TokenStation.Library.Text
