import TokenStation.Contracts.RelativePath

/-!
# Encoded path segments

A value placed in a request path is encoded as one segment. The encoding keeps
the segment characters of a path and escapes every other byte; what the path
validator makes of it depends on the value alone.
-/

namespace TokenStation.Contracts

open Library.Percent Library.Text

namespace UrlSegment

/-- The bytes a segment keeps besides letters and digits: `-._~!$&'()*+,;=:@`. -/
def segmentMarks : List UInt8 :=
  [0x2D, 0x2E, 0x5F, 0x7E, 0x21, 0x24, 0x26, 0x27, 0x28, 0x29, 0x2A, 0x2B, 0x2C, 0x3B, 0x3D,
    0x3A, 0x40]

def isSegmentByte (byte : UInt8) : Bool := isAsciiAlphanumeric byte || byte ∈ segmentMarks

/-- `0123456789ABCDEF` -/
def hex : List UInt8 :=
  [0x30, 0x31, 0x32, 0x33, 0x34, 0x35, 0x36, 0x37, 0x38, 0x39, 0x41, 0x42, 0x43, 0x44, 0x45, 0x46]

def hexDigit (nibble : UInt8) : UInt8 := hex.getD nibble.toNat 0

def encodeByte (byte : UInt8) : List UInt8 :=
  if isSegmentByte byte then [byte]
  else [percent, hexDigit (byte >>> 4), hexDigit (byte &&& 0x0F)]

def encodeBytes (value : List UInt8) : List UInt8 := value.flatMap encodeByte

/-- A value as one path segment. -/
def encode (value : String) : String :=
  String.ofList ((encodeBytes (bytes value)).map fun byte => Char.ofNat byte.toNat)

/-! ## The bytes of a segment -/

/-- A byte an encoded segment may hold: printable ASCII, no slash or backslash,
and nothing that starts a query or a fragment. -/
def Segmental (byte : UInt8) : Prop :=
  0x20 < byte ∧ byte < 0x7F ∧ byte ∉ [slash, backslash, 0x3F, 0x23]

instance (byte : UInt8) : Decidable (Segmental byte) := inferInstanceAs (Decidable (_ ∧ _))

theorem forall_byte {P : UInt8 → Prop} (h : ∀ n < 256, P (UInt8.ofNat n)) (byte : UInt8) :
    P byte := by
  have hbyte := h byte.toNat byte.toNat_lt
  rwa [UInt8.ofNat_toNat] at hbyte

theorem segmental_of_isSegmentByte : ∀ byte, isSegmentByte byte = true → Segmental byte :=
  forall_byte (by decide +kernel)

theorem hexDigit_segmental : ∀ byte : UInt8,
    Segmental (hexDigit (byte >>> 4)) ∧ Segmental (hexDigit (byte &&& 0x0F)) :=
  forall_byte (by decide +kernel)

theorem encodeByte_segmental {byte b : UInt8} (h : b ∈ encodeByte byte) : Segmental b := by
  unfold encodeByte at h
  split at h
  · rename_i hbyte
    rw [List.mem_singleton.mp h]
    exact segmental_of_isSegmentByte byte hbyte
  · simp only [List.mem_cons, List.not_mem_nil, or_false] at h
    rcases h with rfl | rfl | rfl
    · decide
    · exact (hexDigit_segmental byte).1
    · exact (hexDigit_segmental byte).2

theorem escaped_hexDigit : ∀ byte : UInt8,
    escaped percent (hexDigit (byte >>> 4)) (hexDigit (byte &&& 0x0F)) = some byte :=
  forall_byte (by decide +kernel)

theorem isSegmentByte_ne {byte : UInt8} (h : isSegmentByte byte = true) :
    byte ≠ percent ∧ byte ≠ slash ∧ byte ≠ backslash := by
  refine ⟨?_, ?_, ?_⟩
  all_goals
    rintro rfl
    exact absurd h (by decide)

theorem encodeBytes_segmental {value : List UInt8} {byte : UInt8}
    (h : byte ∈ encodeBytes value) : Segmental byte := by
  obtain ⟨b, -, hmem⟩ := List.mem_flatMap.mp h
  exact encodeByte_segmental hmem

theorem utf8EncodeChar_ascii {byte : UInt8} (h : byte < 0x7F) :
    String.utf8EncodeChar (Char.ofNat byte.toNat) = [byte] := by
  have hlt : byte.toNat < 0x7F := h
  have hvalid : byte.toNat.isValidChar := .inl (by omega)
  have hval : (Char.ofNat byte.toNat).val.toNat = byte.toNat := by
    rw [Char.ofNat, dif_pos hvalid]
    rfl
  unfold String.utf8EncodeChar
  dsimp only
  rw [hval, if_pos (by omega)]
  simp

/-- ASCII bytes are the text they spell. -/
theorem bytes_ofAscii {text : List UInt8} (h : ∀ byte ∈ text, byte < 0x7F) :
    bytes (String.ofList (text.map fun byte => Char.ofNat byte.toNat)) = text := by
  rw [bytes_ofList]
  induction text with
  | nil => rfl
  | cons byte text ih =>
      rw [List.map_cons, List.flatMap_cons, utf8EncodeChar_ascii (h byte List.mem_cons_self),
        ih fun b hb => h b (List.mem_cons_of_mem _ hb)]
      rfl

theorem bytes_encode (value : String) : bytes (encode value) = encodeBytes (bytes value) :=
  bytes_ofAscii fun _ hbyte => (encodeBytes_segmental hbyte).2.1

/-- Decoding an encoded segment gives the value back. -/
theorem percentDecode_encodeBytes (value : List UInt8) :
    percentDecode (encodeBytes value) = value := by
  induction value with
  | nil => rfl
  | cons byte value ih =>
      change percentDecode (encodeByte byte ++ encodeBytes value) = _
      unfold encodeByte
      split
      · rename_i hbyte
        change percentDecode (byte :: encodeBytes value) = _
        rw [percentDecode_cons_ne (isSegmentByte_ne hbyte).1, ih]
      · change percentDecode (percent :: _ :: _ :: encodeBytes value) = _
        rw [percentDecode_escape (escaped_hexDigit byte), ih]

theorem encodeBytes_injective : Function.Injective encodeBytes :=
  Function.LeftInverse.injective percentDecode_encodeBytes

/-! ## The validator on an encoded segment -/

/-- A segment of segment bytes is read like a path segment: percent signs and
backslashes are refused, slashes are counted. -/
theorem decodeSegment_encodeBytes (value decoded : List UInt8) (hasEncodedSlash : Bool) :
    decodeSegment .admitInSegment decoded hasEncodedSlash (encodeBytes value) =
      if percent ∈ value ∨ backslash ∈ value then none
      else some (decoded ++ value, hasEncodedSlash || decide (slash ∈ value)) := by
  induction value generalizing decoded hasEncodedSlash with
  | nil =>
      change decodeSegment .admitInSegment decoded hasEncodedSlash [] = _
      rw [decodeSegment.eq_def]
      simp
  | cons byte value ih =>
      change decodeSegment _ _ _ (encodeByte byte ++ encodeBytes value) = _
      by_cases hbyte : isSegmentByte byte = true
      · obtain ⟨hpercent, hslash, hbackslash⟩ := isSegmentByte_ne hbyte
        rw [encodeByte, if_pos hbyte, List.singleton_append, decodeSegment.eq_def]
        simp only [ne_eq, hpercent, not_false_eq_true, if_true]
        rw [ih]
        simp [hpercent.symm, hslash.symm, hbackslash.symm]
      · have hdot : byte ≠ dot := by
          rintro rfl
          exact hbyte (by decide)
        rw [encodeByte, if_neg hbyte, decodeSegment.eq_def]
        simp only [List.cons_append, List.nil_append, ne_eq, not_true_eq_false, if_false,
          escaped_hexDigit, and_true]
        by_cases hslash : byte = slash
        · subst hslash
          rw [if_pos rfl, ih]
          have hpercent : percent ≠ slash := by decide
          have hbackslash : backslash ≠ slash := by decide
          simp [hpercent, hbackslash]
        · rw [if_neg hslash]
          by_cases hrefused : byte = backslash ∨ byte = percent
          · rw [if_pos (by simp [hrefused]), if_pos]
            rcases hrefused with rfl | rfl <;> simp
          · obtain ⟨hbackslash, hpercent⟩ := not_or.mp hrefused
            rw [if_neg (by simp [hdot, hslash, hbackslash, hpercent]), ih]
            simp [Ne.symm hpercent, Ne.symm hbackslash, Ne.symm hslash]

/-- A value whose encoding is one usable segment. -/
def Usable (value : List UInt8) : Prop :=
  value ≠ [] ∧ percent ∉ value ∧ backslash ∉ value ∧
    ∀ piece ∈ value.splitOn slash, piece ≠ [] ∧ piece ≠ [dot] ∧ piece ≠ [dot, dot]

theorem isSafeSegment_iff {segment : List UInt8} :
    isSafeSegment segment = true ↔ segment ≠ [] ∧ segment ≠ [dot] ∧ segment ≠ [dot, dot] := by
  simp [isSafeSegment, isDotSegment]

theorem isSafeSegment_encodeBytes (value : List UInt8) :
    isSafeSegment (encodeBytes value) = isSafeSegment value := by
  have hsame (text : List UInt8) (hself : encodeBytes text = text) :
      encodeBytes value = text ↔ value = text := by
    constructor
    · exact fun h => encodeBytes_injective (h.trans hself.symm)
    · rintro rfl
      exact hself
  rw [Bool.eq_iff_iff, isSafeSegment_iff, isSafeSegment_iff, ne_eq, ne_eq, ne_eq,
    hsame [] rfl, hsame [dot] (by decide), hsame [dot, dot] (by decide)]

/-- The validator's judgement of an encoded segment. -/
theorem segment_accepted_iff (value : List UInt8) :
    (isSafeSegment (encodeBytes value) = true ∧
      segmentHasInvalidOrForbiddenEscape .admitInSegment (encodeBytes value) = false) ↔
      Usable value := by
  unfold segmentHasInvalidOrForbiddenEscape
  rw [isSafeSegment_encodeBytes, decodeSegment_encodeBytes, Usable]
  by_cases hrefused : percent ∈ value ∨ backslash ∈ value
  · rw [if_pos hrefused]
    refine iff_of_false (by simp) ?_
    rintro ⟨-, hpercent, hbackslash, -⟩
    exact hrefused.elim hpercent hbackslash
  · rw [if_neg hrefused]
    obtain ⟨hpercent, hbackslash⟩ := not_or.mp hrefused
    simp only [List.nil_append, Bool.false_or]
    by_cases hslash : slash ∈ value
    · have hne : value ≠ [] := List.ne_nil_of_mem hslash
      have hdots : value ≠ [dot] ∧ value ≠ [dot, dot] := by
        constructor
        all_goals
          rintro rfl
          revert hslash
          decide
      simp [isSafeSegment_iff, hne, hdots, hpercent, hbackslash, hslash]
    · rw [List.splitOn_eq_singleton hslash]
      simp [isSafeSegment_iff, hpercent, hbackslash, hslash]

end UrlSegment

open UrlSegment

/-! ## The whole path -/

theorem splitOn_around {segment : List UInt8} (h : slash ∉ segment) (front rest : List UInt8) :
    (front ++ slash :: (segment ++ slash :: rest)).splitOn slash =
      front.splitOn slash ++ segment :: rest.splitOn slash := by
  rw [List.splitOn_append_cons_self, List.splitOn_append_cons_self_of_not_mem h]

/-- A relative path stays one around a segment exactly when the segment is
accepted. -/
theorem refusesRelativePath_around {segment : List UInt8} (p s : RelativePathV1)
    (hsegment : ∀ byte ∈ segment, Segmental byte)
    (hlength : (bytes p.value ++ slash :: (segment ++ slash :: bytes s.value)).length ≤
      maxRelativePathBytes) :
    refusesRelativePath (bytes p.value ++ slash :: (segment ++ slash :: bytes s.value)) = false ↔
      isSafeSegment segment = true ∧
        segmentHasInvalidOrForbiddenEscape .admitInSegment segment = false := by
  have hp := p.accepted
  have hs := s.accepted
  generalize bytes p.value = front at hp hlength ⊢
  generalize bytes s.value = rest at hs hlength ⊢
  have hslash : slash ∉ segment := fun h => (hsegment slash h).2.2 (by simp)
  simp only [refusesRelativePath, Bool.or_eq_false_iff, Bool.not_eq_false', decide_eq_false_iff_not,
    isAscii, hasInvalidOrForbiddenPercentEncoding, hasSafeSegments] at hp hs ⊢
  obtain ⟨⟨⟨⟨⟨⟨⟨⟨hempty, -⟩, hascii⟩, hstart⟩, hquery⟩, hforbidden⟩, hescapes⟩, hsafe⟩, hscheme⟩ := hp
  obtain ⟨⟨⟨⟨⟨⟨⟨⟨-, -⟩, hascii'⟩, -⟩, hquery'⟩, hforbidden'⟩, hescapes'⟩, hsafe'⟩, -⟩ := hs
  have hmiddle : segment.all (· < 0x80) = true ∧
      segment.any (fun byte => byte ∈ [0x3F, 0x23]) = false ∧
      segment.any isForbiddenPathByte = false := by
    refine ⟨List.all_eq_true.mpr fun byte hbyte => ?_, List.any_eq_false.mpr fun byte hbyte => ?_,
      List.any_eq_false.mpr fun byte hbyte => ?_⟩
    · have hlow : ∀ b : UInt8, Segmental b → decide (b < 0x80) = true :=
        forall_byte (by decide +kernel)
      exact hlow byte (hsegment byte hbyte)
    · have hmark : ∀ b : UInt8, Segmental b → ¬decide (b ∈ [0x3F, 0x23]) = true :=
        forall_byte (by decide +kernel)
      exact hmark byte (hsegment byte hbyte)
    · have hplain : ∀ b : UInt8, Segmental b → ¬isForbiddenPathByte b = true :=
        forall_byte (by decide +kernel)
      exact hplain byte (hsegment byte hbyte)
  obtain ⟨hmiddleAscii, hmiddleQuery, hmiddlePlain⟩ := hmiddle
  have hne : front ≠ [] := by simpa using hempty
  have hhead : (front ++ slash :: (segment ++ slash :: rest)).head? = front.head? :=
    List.head?_append_of_ne_nil _ hne
  have hfirst : hasSchemeLikeFirstSegment (front ++ slash :: (segment ++ slash :: rest)) =
      hasSchemeLikeFirstSegment front := by
    unfold hasSchemeLikeFirstSegment
    rw [splitOn_around hslash]
    match hsplit : front.splitOn slash with
    | [] => exact absurd hsplit (List.splitOn_ne_nil slash front)
    | first :: more => rfl
  rw [splitOn_around hslash, hfirst, hscheme, startsWithSlash, hhead]
  unfold startsWithSlash at hstart
  have hslashPlain : isForbiddenPathByte slash = false ∧
      decide (slash ∈ ([0x3F, 0x23] : List UInt8)) = false ∧ decide (slash < 0x80) = true := by
    decide
  have hnonempty : (front ++ slash :: (segment ++ slash :: rest)).isEmpty = false := by
    rw [List.isEmpty_eq_false_iff]
    exact List.append_ne_nil_of_left_ne_nil hne _
  rw [hnonempty, hstart]
  simp only [List.all_append, List.any_append, List.all_cons, List.any_cons, hascii, hascii', hquery,
    hquery', hforbidden, hforbidden', hescapes, hescapes', hsafe, hsafe', hmiddleAscii,
    hmiddleQuery, hmiddlePlain, hslashPlain, not_lt.mpr hlength, not_false_eq_true,
    Bool.and_true, Bool.true_and, Bool.or_false, Bool.false_or, true_and, and_true]
  exact and_comm

theorem bytes_around (value : String) (p s : RelativePathV1) :
    bytes (p.value ++ "/" ++ encode value ++ "/" ++ s.value) =
      bytes p.value ++ slash :: (encodeBytes (bytes value) ++ slash :: bytes s.value) := by
  have hslash : bytes "/" = [slash] := rfl
  simp only [bytes_append, bytes_encode, hslash, List.append_assoc, List.cons_append,
    List.nil_append]

/-- An encoded segment keeps its value: decoding gives it back, the bytes are
harmless in a path, and a relative path stays one around it exactly when the
value is usable. -/
theorem encoded_segment_agrees (value : String) :
    percentDecode (bytes (encode value)) = bytes value ∧
      (∀ other, encode value = encode other → value = other) ∧
      (∀ byte ∈ bytes (encode value), byte ∉ [slash, 0x3F, 0x23] ∧ 0x20 < byte ∧ byte < 0x7F) ∧
      ∀ p s : RelativePathV1,
        (bytes (p.value ++ "/" ++ encode value ++ "/" ++ s.value)).length ≤
          maxRelativePathBytes →
        ((∃ path, RelativePathV1.parse (p.value ++ "/" ++ encode value ++ "/" ++ s.value) =
          .ok path) ↔ Usable (bytes value)) := by
  refine ⟨?_, fun other h => ?_, fun byte hbyte => ?_, fun p s hlength => ?_⟩
  · rw [bytes_encode, percentDecode_encodeBytes]
  · have hbytes := congrArg bytes h
    rw [bytes_encode, bytes_encode] at hbytes
    exact bytes_injective (encodeBytes_injective hbytes)
  · rw [bytes_encode] at hbyte
    obtain ⟨hlow, hhigh, hmarks⟩ := encodeBytes_segmental hbyte
    simp only [List.mem_cons, List.not_mem_nil, or_false, not_or] at hmarks ⊢
    exact ⟨⟨hmarks.1, hmarks.2.2⟩, hlow, hhigh⟩
  · have hpath := bytes_around value p s
    rw [hpath] at hlength
    rw [← segment_accepted_iff, ← refusesRelativePath_around p s
      (fun byte => encodeBytes_segmental) hlength, ← hpath]
    constructor
    · rintro ⟨path, hparse⟩
      rw [← RelativePathV1.parse_eq_ok_iff.mp hparse]
      exact path.accepted
    · exact fun haccepted => ⟨⟨_, haccepted⟩, RelativePathV1.parse_eq_ok_iff.mpr rfl⟩

/-- A model name between its route's words. -/
def modelRoute : RelativePathV1 := ⟨"model", by decide⟩

def converseRoute : RelativePathV1 := ⟨"converse-stream", by decide⟩

/-- A resource name is usable, a name that climbs is not. -/
theorem resource_name_agrees :
    (∃ path, RelativePathV1.parse (modelRoute.value ++ "/" ++ encode "arn:aws/x y" ++ "/" ++
        converseRoute.value) = .ok path) ∧
      ¬∃ path, RelativePathV1.parse (modelRoute.value ++ "/" ++ encode "a/../b" ++ "/" ++
        converseRoute.value) = .ok path := by
  obtain ⟨-, -, -, hname⟩ := encoded_segment_agrees "arn:aws/x y"
  obtain ⟨-, -, -, hclimbs⟩ := encoded_segment_agrees "a/../b"
  constructor
  · refine (hname modelRoute converseRoute (by decide)).mpr ?_
    exact ⟨by decide, by decide, by decide, by decide⟩
  · rw [hclimbs modelRoute converseRoute (by decide)]
    rintro ⟨-, -, -, hpieces⟩
    exact absurd hpieces (by decide)

end TokenStation.Contracts
