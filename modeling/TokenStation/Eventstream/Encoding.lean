import TokenStation.Eventstream.Deframing

/-!
# The frame encoding

The wire form of a whole frame, with the bitwise checksum. Decoding accepts
exactly the encodings of well-formed headers within the size limits, and
returns the header map, the payload and the length of the encoding.
-/

namespace TokenStation.Eventstream

open Library Library.BigEndian

/-- The checksum of the wire format, bit by bit. -/
def wireChecksum (bytes : List UInt8) : List UInt8 :=
  toBytes 4 (Crc32.checksum crc32Polynomial bytes).toNat

/-- The two length fields of a frame. -/
def encodeLengths (frameLen headersLen : Nat) : List UInt8 :=
  toBytes 4 frameLen ++ toBytes 4 headersLen

/-- A frame up to its trailing checksum. -/
def encodeCovered (headers : List (String × EventStreamHeaderValueV1)) (payload : List UInt8) :
    List UInt8 :=
  let block := encodeHeaders headers
  let lengths := encodeLengths (minEventstreamFrameBytes + block.length + payload.length)
    block.length
  lengths ++ wireChecksum lengths ++ block ++ payload

/-- A frame on the wire. -/
def encodeFrame (headers : List (String × EventStreamHeaderValueV1)) (payload : List UInt8) :
    List UInt8 :=
  encodeCovered headers payload ++ wireChecksum (encodeCovered headers payload)

@[simp] theorem length_wireChecksum (bytes : List UInt8) : (wireChecksum bytes).length = 4 := by
  simp [wireChecksum]

@[simp] theorem length_encodeLengths (frameLen headersLen : Nat) :
    (encodeLengths frameLen headersLen).length = 8 := by
  simp [encodeLengths]

theorem length_encodeFrame (headers : List (String × EventStreamHeaderValueV1))
    (payload : List UInt8) :
    (encodeFrame headers payload).length =
      minEventstreamFrameBytes + (encodeHeaders headers).length + payload.length := by
  simp only [encodeFrame, encodeCovered, List.length_append, length_wireChecksum,
    length_encodeLengths]
  have : minEventstreamFrameBytes = 16 := rfl
  omega

/-- A checksum field holds the checksum exactly when it is its wire form. -/
theorem crc32_eq_iff {field : List UInt8} (h : field.length = 4) (covered : List UInt8) :
    crc32 covered = .ofNat 32 (ofBytes field) ↔ field = wireChecksum covered := by
  have hlt : ofBytes field < 2 ^ 32 := by
    have hbound := ofBytes_lt field
    rw [h] at hbound
    exact hbound
  rw [crc32, Crc32.tableChecksum_eq, wireChecksum]
  constructor
  · intro heq
    rw [heq, BitVec.toNat_ofNat, Nat.mod_eq_of_lt hlt, ← eq_toBytes h]
  · intro heq
    rw [heq, ofBytes_toBytes (Crc32.checksum crc32Polynomial covered).isLt, BitVec.ofNat_toNat,
      BitVec.setWidth_eq]

/-- Decoding bytes whose prelude is split into its fields. -/
theorem decodeFrame_fields {t h c rest : List UInt8} (ht : t.length = 4) (hh : h.length = 4)
    (hc : c.length = 4) :
    decodeFrame (t ++ h ++ c ++ rest) =
      if crc32 (t ++ h) ≠ .ofNat 32 (ofBytes c) then .error .preludeChecksumMismatch
      else if ofBytes t < minEventstreamFrameBytes then .error .frameTooShort
      else if ofBytes t > maxEventstreamFrameBytes then .error .frameTooLarge
      else if ofBytes h > maxEventstreamHeadersBytes then .error .headersTooLarge
      else if ofBytes h > ofBytes t - minEventstreamFrameBytes then .error .headersExceedFrame
      else if 12 + rest.length < ofBytes t then .ok none
      else
        match decodeChecked ((t ++ h ++ c) ++ rest.take (ofBytes t - 12)) (ofBytes h) with
        | .error e => .error e
        | .ok message => .ok (some (message, ofBytes t)) := by
  have hth : (t ++ h).length = 8 := by simp [ht, hh]
  have hthc : (t ++ h ++ c).length = 12 := by simp [ht, hh, hc]
  have hlen : ¬(t ++ h ++ c ++ rest).length < preludeBytes := by
    rw [List.length_append, hthc]
    exact Nat.not_lt.mpr (Nat.le_add_right 12 _)
  have htake8 : (t ++ h ++ c ++ rest).take 8 = t ++ h := by
    rw [List.append_assoc, List.take_left' hth]
  have htake4 : (t ++ h ++ c ++ rest).take 4 = t := by
    rw [List.append_assoc, List.append_assoc, List.take_left' ht]
  have hdrop8 : ((t ++ h ++ c ++ rest).drop 8).take 4 = c := by
    rw [List.append_assoc, List.drop_left' hth, List.take_left' hc]
  have hdrop4 : ((t ++ h ++ c ++ rest).drop 4).take 4 = h := by
    rw [List.append_assoc, List.append_assoc, List.drop_left' ht, List.take_left' hh]
  have hbound : (t ++ h ++ c ++ rest).length = 12 + rest.length := by
    rw [List.length_append, hthc]
  rw [decodeFrame, if_neg hlen, htake8, hdrop8, htake4, hdrop4]
  dsimp only
  rw [hbound]
  by_cases hshort : ofBytes t < minEventstreamFrameBytes
  · simp only [if_pos hshort]
  · have hframe : (t ++ h ++ c ++ rest).take (ofBytes t) =
        (t ++ h ++ c) ++ rest.take (ofBytes t - 12) := by
      have : minEventstreamFrameBytes = 16 := rfl
      rw [List.take_append, hthc, List.take_of_length_le (by omega)]
    rewrite [hframe]
    rfl

/-- Checking a frame whose parts are known. -/
theorem decodeChecked_parts {start body trailer : List UInt8} (hstart : start.length = 12)
    (htrailer : trailer.length = 4) (headersLen : Nat) :
    decodeChecked (start ++ (body ++ trailer)) headersLen =
      if crc32 (start ++ body) ≠ .ofNat 32 (ofBytes trailer) then .error .messageChecksumMismatch
      else if body.length < headersLen then .error .headersExceedFrame
      else
        match parseHeaders (body.take headersLen) with
        | .error e => .error e
        | .ok headers => .ok ⟨headers, body.drop headersLen⟩ := by
  have hlen : (start ++ (body ++ trailer)).length = (start ++ body).length + crcBytes := by
    simp only [List.length_append, htrailer, crcBytes]
    omega
  have hlong : ¬(start ++ (body ++ trailer)).length < crcBytes := by omega
  have hcovered : (start ++ (body ++ trailer)).take
      ((start ++ (body ++ trailer)).length - crcBytes) = start ++ body := by
    rw [hlen, Nat.add_sub_cancel, ← List.append_assoc, List.take_left]
  have hrest : (start ++ (body ++ trailer)).drop
      ((start ++ (body ++ trailer)).length - crcBytes) = trailer := by
    rw [hlen, Nat.add_sub_cancel, ← List.append_assoc, List.drop_left]
  have hbody : (start ++ body).drop preludeBytes = body := List.drop_left' hstart
  rw [decodeChecked, if_neg hlong, hcovered, hrest]
  dsimp only
  rewrite [hbody]
  rfl

/-- The limits a frame has to keep. -/
structure Within (headers : List (String × EventStreamHeaderValueV1)) (payload : List UInt8) :
    Prop where
  headers_le : (encodeHeaders headers).length ≤ maxEventstreamHeadersBytes
  frame_le : (encodeFrame headers payload).length ≤ maxEventstreamFrameBytes

/-- Decoding an encoded frame returns what was encoded. -/
theorem decodeFrame_encode {headers : List (String × EventStreamHeaderValueV1)}
    {payload : List UInt8} (hwf : WellFormedHeaders headers) (hwithin : Within headers payload)
    (rest : List UInt8) :
    decodeFrame (encodeFrame headers payload ++ rest) =
      .ok (some (⟨.ofList headers, payload⟩, (encodeFrame headers payload).length)) := by
  obtain ⟨hheaders, hframe⟩ := hwithin
  have hlength := length_encodeFrame headers payload
  have hmin : minEventstreamFrameBytes = 16 := rfl
  have hmax : maxEventstreamFrameBytes = 16777216 := rfl
  rw [hlength] at hframe ⊢
  have hparse : parseHeaders (encodeHeaders headers) = .ok (.ofList headers) :=
    parseHeaders_eq_ok.mpr ⟨headers, hwf, rfl, rfl⟩
  generalize hblock : encodeHeaders headers = block at *
  generalize htotal : minEventstreamFrameBytes + block.length + payload.length = total at *
  have ht : ofBytes (toBytes 4 total) = total := ofBytes_toBytes (by omega)
  have hh : ofBytes (toBytes 4 block.length) = block.length := ofBytes_toBytes (by omega)
  have hcovered : encodeCovered headers payload =
      encodeLengths total block.length ++ wireChecksum (encodeLengths total block.length) ++
        (block ++ payload) := by
    rw [encodeCovered, hblock, htotal, List.append_assoc]
  have hsplit : encodeFrame headers payload ++ rest =
      toBytes 4 total ++ toBytes 4 block.length ++
        wireChecksum (encodeLengths total block.length) ++
          ((block ++ payload) ++ wireChecksum (encodeCovered headers payload) ++ rest) := by
    rw [encodeFrame]
    generalize wireChecksum (encodeCovered headers payload) = sum
    rw [hcovered, encodeLengths]
    simp only [List.append_assoc]
  rw [hsplit, decodeFrame_fields (by simp) (by simp) (by simp), ht, hh]
  have htake : ((block ++ payload) ++ wireChecksum (encodeCovered headers payload) ++ rest).take
      (total - 12) = (block ++ payload) ++ wireChecksum (encodeCovered headers payload) := by
    apply List.take_left'
    simp only [List.length_append, length_wireChecksum]
    omega
  have hprelude : ¬crc32 (toBytes 4 total ++ toBytes 4 block.length) ≠
      .ofNat 32 (ofBytes (wireChecksum (encodeLengths total block.length))) := by
    rw [not_not, crc32_eq_iff (by simp)]
    rfl
  have hmessage : ¬crc32 (toBytes 4 total ++ toBytes 4 block.length ++
        wireChecksum (encodeLengths total block.length) ++ (block ++ payload)) ≠
      .ofNat 32 (ofBytes (wireChecksum (encodeCovered headers payload))) := by
    rw [not_not, crc32_eq_iff (by simp), hcovered]
    rfl
  have hlong : ¬12 + ((block ++ payload) ++ wireChecksum (encodeCovered headers payload) ++
      rest).length < total := by
    simp only [List.length_append, length_wireChecksum]
    omega
  rw [htake, if_neg hprelude, if_neg (by omega), if_neg (by omega), if_neg (by omega),
    if_neg (by omega), if_neg hlong, decodeChecked_parts (by simp) (by simp), if_neg hmessage,
    if_neg (by simp), List.take_left, List.drop_left, hparse]

/-- Decoding accepts nothing but encoded frames. -/
theorem decodeFrame_of_ok {bytes : List UInt8} {m : EventStreamMessageV1} {n : Nat}
    (h : decodeFrame bytes = .ok (some (m, n))) :
    ∃ headers rest, WellFormedHeaders headers ∧ Within headers m.payload ∧
      m.headers = .ofList headers ∧ n = (encodeFrame headers m.payload).length ∧
      bytes = encodeFrame headers m.payload ++ rest := by
  have hmin : minEventstreamFrameBytes = 16 := rfl
  have hlen : 12 ≤ bytes.length := by
    have := decodeFrame_used h
    omega
  -- The three fields of the prelude and the bytes after it.
  obtain ⟨t, h', c, rest, ht, hh, hc, rfl⟩ : ∃ t h' c rest : List UInt8, t.length = 4 ∧
      h'.length = 4 ∧ c.length = 4 ∧ bytes = t ++ h' ++ c ++ rest := by
    refine ⟨bytes.take 4, (bytes.drop 4).take 4, (bytes.drop 8).take 4, bytes.drop 12, ?_, ?_, ?_,
      ?_⟩
    · rw [List.length_take]
      omega
    · rw [List.length_take, List.length_drop]
      omega
    · rw [List.length_take, List.length_drop]
      omega
    · have h8 : bytes.drop 8 = (bytes.drop 4).drop 4 := by rw [List.drop_drop]
      have h12 : bytes.drop 12 = (bytes.drop 8).drop 4 := by rw [List.drop_drop]
      rw [List.append_assoc, h12, List.take_append_drop, List.append_assoc, h8,
        List.take_append_drop, List.take_append_drop]
  rw [decodeFrame_fields ht hh hc] at h
  split_ifs at h with hcrc hshort hlarge hheaders hexceed hmore
  · simp at h
  · have hcrc := not_not.mp hcrc
    rw [crc32_eq_iff hc] at hcrc
    -- The part of the frame after the prelude: its body and its trailing checksum.
    obtain ⟨body, trailer, htrailer, hbody, htake⟩ : ∃ body trailer : List UInt8,
        trailer.length = 4 ∧ body.length + 16 = ofBytes t ∧
          rest.take (ofBytes t - 12) = body ++ trailer := by
      have hlength : (rest.take (ofBytes t - 12)).length = ofBytes t - 12 := by
        rw [List.length_take]
        omega
      refine ⟨(rest.take (ofBytes t - 12)).take (ofBytes t - 16),
        (rest.take (ofBytes t - 12)).drop (ofBytes t - 16), ?_, ?_,
        (List.take_append_drop _ _).symm⟩
      · rw [List.length_drop, hlength]
        omega
      · rw [List.length_take, hlength]
        omega
    have hthc : (t ++ h' ++ c).length = 12 := by simp [ht, hh, hc]
    rw [htake, decodeChecked_parts hthc htrailer] at h
    split_ifs at h with hsum hover
    rw [not_not, crc32_eq_iff htrailer] at hsum
    cases hparse : parseHeaders (body.take (ofBytes h')) with
    | error e => simp [hparse] at h
    | ok map =>
        simp only [hparse, Except.ok.injEq, Option.some.injEq, Prod.mk.injEq] at h
        obtain ⟨rfl, rfl⟩ := h
        obtain ⟨headers, hwf, hblock, rfl⟩ := parseHeaders_eq_ok.mp hparse
        have hblocklen : (encodeHeaders headers).length = ofBytes h' := by
          rw [← hblock, List.length_take]
          omega
        have htotal : minEventstreamFrameBytes + (encodeHeaders headers).length +
            (body.drop (ofBytes h')).length = ofBytes t := by
          rw [hblocklen, List.length_drop]
          omega
        have hcovered : encodeCovered headers (body.drop (ofBytes h')) = t ++ h' ++ c ++ body := by
          rw [encodeCovered, htotal, hblocklen, encodeLengths, ← eq_toBytes ht, ← eq_toBytes hh, ← hcrc, ← hblock]
          rw [List.append_assoc, List.take_append_drop]
        have hframe : encodeFrame headers (body.drop (ofBytes h')) =
            t ++ h' ++ c ++ rest.take (ofBytes t - 12) := by
          rw [encodeFrame, hcovered, ← hsum, htake, List.append_assoc]
        have hlength := length_encodeFrame headers (body.drop (ofBytes h'))
        refine ⟨headers, rest.drop (ofBytes t - 12), hwf, ⟨?_, ?_⟩, rfl, ?_, ?_⟩
        · omega
        · change (encodeFrame headers (body.drop (ofBytes h'))).length ≤ _
          omega
        · dsimp only
          omega
        · dsimp only
          rw [hframe, List.append_assoc (t ++ h' ++ c), List.take_append_drop]

theorem ofList_perm {headers : List (String × EventStreamHeaderValueV1)}
    (h : WellFormedHeaders headers) :
    (SortedMap.ofList headers).entries.Perm headers :=
  SortedMap.insertAll_perm h.nodup (fun _ _ => rfl)

/-- Decoding undoes encoding, whatever follows the frame, and every decoded
frame is the encoding of its payload and some ordering of its header map. -/
theorem eventstream_decodes_exactly_encodings :
    (∀ (headers : List (String × EventStreamHeaderValueV1)) (payload rest : List UInt8),
      WellFormedHeaders headers → Within headers payload →
        ∃ map : SortedMap String EventStreamHeaderValueV1, map.entries.Perm headers ∧
          decodeFrame (encodeFrame headers payload ++ rest) =
            .ok (some (⟨map, payload⟩, (encodeFrame headers payload).length))) ∧
    (∀ (bytes : List UInt8) (message : EventStreamMessageV1) (n : Nat),
      decodeFrame bytes = .ok (some (message, n)) →
        ∃ headers, headers.Perm message.headers.entries ∧
          bytes.take n = encodeFrame headers message.payload) := by
  constructor
  · intro headers payload rest hwf hwithin
    exact ⟨.ofList headers, ofList_perm hwf, decodeFrame_encode hwf hwithin rest⟩
  · intro bytes message n h
    obtain ⟨headers, rest, hwf, -, hheaders, rfl, rfl⟩ := decodeFrame_of_ok h
    refine ⟨headers, ?_, List.take_left⟩
    rw [hheaders]
    exact (ofList_perm hwf).symm

/-- A string and a negative number, in an order that is not that of the map. -/
theorem eventstream_decodes_exactly_encodings_typed :
    ∃ map : SortedMap String EventStreamHeaderValueV1,
      map.entries.Perm [("z", .int16 (-2)), (":t", .string "é")] ∧
        decodeFrame (encodeFrame [("z", .int16 (-2)), (":t", .string "é")] [1, 2] ++ [7]) =
          .ok (some (⟨map, [1, 2]⟩, 31)) := by
  have hwf : WellFormedHeaders [("z", .int16 (-2)), (":t", .string "é")] := by
    refine ⟨?_, by decide⟩
    intro h hh
    simp only [List.mem_cons, List.not_mem_nil, or_false] at hh
    rcases hh with rfl | rfl
    · exact ⟨by decide, by decide, trivial⟩
    · refine ⟨by decide, by decide, ?_⟩
      change "é".utf8ByteSize ≤ 65535
      decide
  obtain ⟨map, hperm, hdecode⟩ := eventstream_decodes_exactly_encodings.1
    [("z", .int16 (-2)), (":t", .string "é")] [1, 2] [7] hwf ⟨by decide +kernel, by decide +kernel⟩
  refine ⟨map, hperm, hdecode.trans ?_⟩
  rw [length_encodeFrame, show (encodeHeaders [("z", .int16 (-2)), (":t", .string "é")]).length =
    13 by decide +kernel]
  rfl

end TokenStation.Eventstream
