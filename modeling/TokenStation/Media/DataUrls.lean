import TokenStation.Media.SymbolStream

/-!
# Data URLs

A data URL is written around one spelling and read back to its bytes; what its payload
transform hands out is the text after the first comma, as written.
-/

namespace TokenStation.Media

open Library.PaddedBase64 Library.Text

/-! ## One codec -/

theorem alphabetOf_standard : alphabetOf .standard = standardAlphabet := by
  unfold alphabetOf standardAlphabet
  congr 1
  exact funext standard_sextet_eq

theorem conformance_decode_iff (text : String) (data : List UInt8) :
    Conformance.Base64.decode text .standard .canonical = some data ↔
      bytes text = standardAlphabet.spell data := by
  rw [decode_eq_some, alphabetOf_standard, Alphabet.spell]
  constructor
  · rintro ⟨count, rfl, htext⟩
    exact htext
  · exact fun htext => ⟨_, rfl, htext⟩

theorem decodeBase64_encodeBase64 (data : List UInt8) :
    decodeBase64 (encodeBase64 data) = .ok data :=
  (decodeBase64_iff _ _).mpr (bytes_encodeBase64 data)

/-- An accepted text is what the encoder writes for its bytes. -/
theorem eq_encodeBase64_of_ok {text : String} {data : List UInt8}
    (h : decodeBase64 text = .ok data) : text = encodeBase64 data :=
  bytes_injective (((decodeBase64_iff text data).mp h).trans (bytes_encodeBase64 data).symm)

/-! ## Written and read back -/

theorem splitOnceList_of_notMem {c : Char} {front : List Char} (h : c ∉ front)
    (back : List Char) : splitOnceList c (front ++ c :: back) = some (front, back) := by
  induction front with
  | nil => simp [splitOnceList]
  | cons x front ih =>
      rw [List.mem_cons, not_or] at h
      rw [List.cons_append, splitOnceList, if_neg (fun heq => h.1 heq.symm), ih h.2]
      rfl

theorem notMem_of_splitOnceList {c : Char} {text front back : List Char}
    (h : splitOnceList c text = some (front, back)) : c ∉ front := by
  induction text generalizing front with
  | nil => cases h
  | cons x text ih =>
      rw [splitOnceList] at h
      split at h
      · cases h
        exact List.not_mem_nil
      · next hne =>
          obtain ⟨⟨first, rest⟩, hrest, hpair⟩ := Option.map_eq_some_iff.mp h
          obtain ⟨rfl, rfl⟩ := Prod.mk.inj hpair
          rw [List.mem_cons, not_or]
          exact ⟨fun heq => hne heq.symm, ih hrest⟩

/-- A media type is made of token characters and a slash. -/
theorem bytes_of_isMediaType {value : String} (h : isMediaType value = true) :
    ∀ byte ∈ bytes value, isTchar byte = true ∨ byte = 47 := by
  unfold isMediaType at h
  split at h
  · cases h
  · split at h
    · cases h
    · next kind subtype hsplit =>
        rw [Bool.and_eq_true, isToken, isToken, Bool.and_eq_true, Bool.and_eq_true,
          List.all_eq_true, List.all_eq_true] at h
        rw [splitOnce_eq_some hsplit, bytes_append, bytes_append]
        intro byte hbyte
        simp only [List.mem_append] at hbyte
        rcases hbyte with (hkind | hslash) | hsubtype
        · exact .inl (h.1.2 byte hkind)
        · right
          rw [show bytes (String.singleton '/') = [47] by decide] at hslash
          exact List.mem_singleton.mp hslash
        · exact .inl (h.2.2 byte hsubtype)

theorem notMem_of_isMediaType {value : String} (h : isMediaType value = true) {c : Char}
    {byte : UInt8} (hc : String.utf8EncodeChar c = [byte]) (htchar : isTchar byte = false)
    (hslash : byte ≠ 47) : c ∉ value.toList := by
  intro hmem
  have hbyte : byte ∈ bytes value := by
    rw [← String.ofList_toList (s := value), bytes_ofList, List.mem_flatMap]
    exact ⟨c, hmem, hc ▸ List.mem_singleton_self byte⟩
  rcases bytes_of_isMediaType h byte hbyte with hyes | hyes
  · rw [htchar] at hyes
    cases hyes
  · exact hslash hyes

theorem stripPrefixIgnoreCase_append (lead rest : String) :
    stripPrefixIgnoreCase (lead ++ rest) lead = some rest := by
  have htake : (lead ++ rest).toList.take lead.length = lead.toList := by
    rw [String.toList_append, ← String.length_toList, List.take_left]
  have hdrop : (lead ++ rest).toList.drop lead.length = rest.toList := by
    rw [String.toList_append, ← String.length_toList, List.drop_left]
  rw [stripPrefixIgnoreCase, htake, hdrop, if_pos (by simp [eqIgnoreAsciiCase]),
    String.ofList_toList]

/-- The data URL of some bytes. -/
def dataUrlOf (mediaType : String) (data : List UInt8) : String :=
  "data:" ++ mediaType ++ ";base64," ++ encodeBase64 data

theorem isEmpty_of_isMediaType {value : String} (h : isMediaType value = true) :
    value.isEmpty = false := by
  rw [← Bool.not_eq_true]
  intro hempty
  rw [isMediaType, hempty] at h
  cases h

theorem parse_dataUrlOf {mediaType : String} (h : isMediaType mediaType = true)
    (data : List UInt8) : parseDataUrlV1 (dataUrlOf mediaType data) = .ok (some mediaType, data) := by
  have hcomma : ',' ∉ mediaType.toList :=
    notMem_of_isMediaType h (show String.utf8EncodeChar ',' = [44] by decide) (by decide)
      (by decide)
  have hsemicolon : ';' ∉ mediaType.toList :=
    notMem_of_isMediaType h (show String.utf8EncodeChar ';' = [59] by decide) (by decide)
      (by decide)
  have hurl : dataUrlOf mediaType data =
      "data:" ++ (mediaType ++ ";base64," ++ encodeBase64 data) := by
    simp [dataUrlOf, String.append_assoc]
  have hsplit : splitOnce (mediaType ++ ";base64," ++ encodeBase64 data) ',' =
      some (String.ofList (mediaType.toList ++ ";base64".toList), encodeBase64 data) := by
    have htext : (mediaType ++ ";base64," ++ encodeBase64 data).toList =
        (mediaType.toList ++ ";base64".toList) ++ ',' :: (encodeBase64 data).toList := by
      simp
    rw [splitOnce, htext, splitOnceList_of_notMem (by simp [hcomma])]
    simp
  have hsegments : (mediaType.toList ++ ";base64".toList).splitOn ';' =
      [mediaType.toList, "base64".toList] := by
    rw [show ";base64".toList = ';' :: "base64".toList from by simp,
      List.splitOn_append_cons_self_of_not_mem hsemicolon]
    exact congrArg _ (by decide)
  rw [parseDataUrlV1, hurl, stripPrefixIgnoreCase_append]
  simp only [hsplit, String.toList_ofList, hsegments]
  simp [markedBase64, eqIgnoreAsciiCase, isEmpty_of_isMediaType h, h, decodeBase64_encodeBase64]
  rfl

/-- A payload that is read is the encoding of what is read. -/
theorem payload_of_read {payload : String} {named mediaType : Option String} {data : List UInt8}
    (h : (match decodeBase64 payload with
      | .error _ => .error .invalidDataUrl
      | .ok read => .ok (named, read) : Except TransformError (Option String × List UInt8)) =
        .ok (mediaType, data)) : payload = encodeBase64 data := by
  split at h
  · cases h
  · next read hok =>
      cases h
      exact eq_encodeBase64_of_ok hok

theorem parseDataUrlV1_ok {url : String} {mediaType : Option String} {data : List UInt8}
    (h : parseDataUrlV1 url = .ok (mediaType, data)) :
    ∃ rest header, stripPrefixIgnoreCase url "data:" = some rest ∧
      splitOnce rest ',' = some (header, encodeBase64 data) := by
  unfold parseDataUrlV1 at h
  split at h
  · cases h
  · next rest hrest =>
      split at h
      · cases h
      · next header payload hsplit =>
          refine ⟨rest, header, hrest, ?_⟩
          dsimp only at h
          split at h
          · rw [hsplit]
            split at h
            · rw [payload_of_read h]
            · split at h
              · rw [payload_of_read h]
              · cases h
          · cases h

/-- The scheme has no comma, so the first comma of the URL is that of the rest. -/
theorem splitOnce_of_stripPrefix {url rest header payload : String}
    (hrest : stripPrefixIgnoreCase url "data:" = some rest)
    (hsplit : splitOnce rest ',' = some (header, payload)) :
    ∃ head, splitOnce url ',' = some (head, payload) := by
  unfold stripPrefixIgnoreCase at hrest
  split at hrest
  · next hscheme =>
      obtain rfl := Option.some.inj hrest
      rw [eqIgnoreAsciiCase, beq_iff_eq] at hscheme
      rw [splitOnce, String.toList_ofList] at hsplit
      obtain ⟨⟨front, back⟩, hparts, hpair⟩ := Option.map_eq_some_iff.mp hsplit
      obtain ⟨-, rfl⟩ := Prod.mk.inj hpair
      have hcomma : ',' ∉ url.toList.take "data:".length := by
        intro hmem
        have hlower := List.mem_map_of_mem (f := Char.toLower) hmem
        rw [hscheme] at hlower
        exact absurd hlower (by decide)
      have hfront : ',' ∉ url.toList.take "data:".length ++ front := by
        rw [List.mem_append, not_or]
        exact ⟨hcomma, notMem_of_splitOnceList hparts⟩
      have htext : url.toList =
          (url.toList.take "data:".length ++ front) ++ ',' :: back := by
        rw [List.append_assoc, ← splitOnceList_eq_some hparts, List.take_append_drop]
      generalize url.toList.take "data:".length ++ front = head at hfront htext
      refine ⟨String.ofList head, ?_⟩
      rw [splitOnce, htext, splitOnceList_of_notMem hfront]
      rfl
  · cases hrest

/-- All three codecs decode the same texts to the same bytes and write the same text; a data
URL is read back to its media type and bytes; and the payload of an accepted URL is its text
after the first comma. -/
theorem codecs_agree (text : String) (data : List UInt8) (mediaType url : String) :
    ((decodeBase64 text = .ok data ↔
        Conformance.Base64.decode text .standard .canonical = some data) ∧
      (decodeBase64 text = .ok data ↔ Embeddings.base64Decode text = some data)) ∧
    (encodeBase64 data = Conformance.Base64.encode data .standard true ∧
      encodeBase64 data = Embeddings.base64Encode data) ∧
    (isMediaType mediaType = true → ∃ written,
      MediaTransform.dataUrl.apply data (some mediaType) = .ok (bytes written) ∧
        parseDataUrlV1 written = .ok (some mediaType, data)) ∧
    ∀ parsed, parseDataUrlV1 url = .ok parsed →
      ∃ head payload, splitOnce url ',' = some (head, payload) ∧
        dataUrlPayloadV1 url = .ok payload := by
  refine ⟨⟨?_, ?_⟩, ⟨?_, ?_⟩, fun h => ?_, ?_⟩
  · rw [decodeBase64_iff, conformance_decode_iff]
  · rw [decodeBase64_iff, base64Decode_iff]
  · exact (conformance_encode_eq data).symm
  · exact (embeddings_encode_eq data).symm
  · refine ⟨dataUrlOf mediaType data, ?_, parse_dataUrlOf h data⟩
    simp only [MediaTransform.apply, h, Bool.not_true, Bool.false_eq_true, if_false]
    rfl
  · rintro ⟨named, read⟩ hparsed
    obtain ⟨rest, header, hrest, hsplit⟩ := parseDataUrlV1_ok hparsed
    obtain ⟨head, hfirst⟩ := splitOnce_of_stripPrefix hrest hsplit
    refine ⟨head, encodeBase64 read, hfirst, ?_⟩
    rw [dataUrlPayloadV1, hparsed]
    rfl

end TokenStation.Media
