import TokenStation.Responses.Replay

/-!
# Reading carriers back

A carrier is decoded under bounds of its own: on the JSON bytes, where the
encoder bounds the opaque bytes before escaping and the base64 letters after
it. Within the decoder's bound a carrier decodes to the blocks it was made of.
-/

namespace TokenStation.Responses

open Library Library.Json Library.Text Library.Checked

/-! ## Packages -/

/-- What the codec relies on of the JSON and base64 packages: compact texts with
minimal escapes that are read back, and the URL-safe alphabet without padding. -/
structure Packages.Lawful (packages : Packages) : Prop where
  writes : ∀ v, Exact v → packages.toText v = String.ofList (write (fun _ => []) v)
  parses : ∀ v, Exact v → depth v < 128 → packages.fromStr (packages.toText v) = some v
  encodes : ∀ b, packages.encode64 b = String.ofList (Base64.encode b)
  decodes : ∀ b, packages.decode64 (packages.encode64 b) = some b

theorem lawful_textual : Packages.textual.Lawful where
  writes _ _ := rfl
  parses _ h _ := parse_write _ h
  encodes _ := rfl
  decodes b := by
    simp only [Packages.textual, String.toList_ofList]
    exact Base64.decode_encode b

/-! ## Blocks as JSON -/

namespace ReasoningReplayBlock

theorem toJson_thinking (text signature : String) :
    (thinking text signature).toJson = .object [("kind", .string "thinking"),
      ("signature", .string signature), ("thinking", .string text)] := by
  simp only [toJson, Value.obj, List.foldr_cons, List.foldr_nil]
  rw [insertEntry_nil, insertEntry_of_gt (by decide), insertEntry_nil, insertEntry_of_lt (by decide)]

theorem toJson_redactedThinking (data : String) :
    (redactedThinking data).toJson =
      .object [("data", .string data), ("kind", .string "redacted_thinking")] := by
  simp only [toJson, Value.obj, List.foldr_cons, List.foldr_nil]
  rw [insertEntry_nil, insertEntry_of_gt (by decide), insertEntry_nil]

theorem toJson_textRef (ordinal : Nat) :
    (textRef ordinal).toJson =
      .object [("kind", .string "text_ref"), ("ordinal", .nat ordinal)] := by
  simp only [toJson, Value.obj, List.foldr_cons, List.foldr_nil]
  rw [insertEntry_nil, insertEntry_of_lt (by decide)]

theorem toJson_toolCallRef (callId : String) :
    (toolCallRef callId).toJson =
      .object [("call_id", .string callId), ("kind", .string "tool_call_ref")] := by
  simp only [toJson, Value.obj, List.foldr_cons, List.foldr_nil]
  rw [insertEntry_nil, insertEntry_of_gt (by decide), insertEntry_nil]

/-- Ordinals are 32-bit numbers. -/
def Typed : ReasoningReplayBlock → Prop
  | .textRef ordinal => ordinal < 2 ^ 32
  | _ => True

/-- The bytes of a block's JSON text. -/
def jsonSize : ReasoningReplayBlock → Nat
  | .thinking text signature => 44 + stringSize text + stringSize signature
  | .redactedThinking data => 36 + stringSize data
  | .textRef ordinal => 30 + (Nat.toDigits 10 ordinal).length
  | .toolCallRef callId => 35 + stringSize callId

theorem blockOfJson_toJson {block : ReasoningReplayBlock} (h : block.Typed) :
    blockOfJson block.toJson = .ok block := by
  cases block with
  | thinking text signature =>
      rw [toJson_thinking]
      simp [blockOfJson, Value.asObject, Value.field, Value.get, lookup, exactKeys]
  | redactedThinking data =>
      rw [toJson_redactedThinking]
      simp [blockOfJson, Value.asObject, Value.field, Value.get, lookup, exactKeys]
  | textRef ordinal =>
      have hordinal : ordinal < 2 ^ 32 := h
      rw [toJson_textRef]
      simpa [blockOfJson, Value.asObject, Value.field, Value.get, lookup, exactKeys] using hordinal
  | toolCallRef callId =>
      rw [toJson_toolCallRef]
      simp [blockOfJson, Value.asObject, Value.field, Value.get, lookup, exactKeys]

theorem exact_toJson {block : ReasoningReplayBlock} (h : block.Typed) : Exact block.toJson := by
  cases block with
  | thinking text signature =>
      have hkeys : ["kind", "signature", "thinking"].Pairwise (· < ·) := by decide
      rw [toJson_thinking]
      simpa [Exact, ExactEntries, ordered_iff_keys] using hkeys
  | redactedThinking data =>
      have hkeys : ["data", "kind"].Pairwise (· < ·) := by decide
      rw [toJson_redactedThinking]
      simpa [Exact, ExactEntries, ordered_iff_keys] using hkeys
  | textRef ordinal =>
      have hkeys : ["kind", "ordinal"].Pairwise (· < ·) := by decide
      have hordinal : ordinal < 2 ^ 64 := lt_trans h (by decide)
      rw [toJson_textRef]
      simp only [Exact, ExactEntries, Value.nat, ordered_iff_keys]
      exact ⟨hkeys, trivial, hordinal, trivial⟩
  | toolCallRef callId =>
      have hkeys : ["call_id", "kind"].Pairwise (· < ·) := by decide
      rw [toJson_toolCallRef]
      simpa [Exact, ExactEntries, ordered_iff_keys] using hkeys

theorem depth_toJson (block : ReasoningReplayBlock) : depth block.toJson = 1 := by
  cases block with
  | thinking text signature =>
      rw [toJson_thinking]
      rfl
  | redactedThinking data =>
      rw [toJson_redactedThinking]
      rfl
  | textRef ordinal =>
      rw [toJson_textRef]
      rfl
  | toolCallRef callId =>
      rw [toJson_toolCallRef]
      rfl

/-- The literal texts of a block take their letters and two quotes. -/
theorem stringSize_literals : stringSize "kind" = 6 ∧ stringSize "signature" = 11 ∧
    stringSize "thinking" = 10 ∧ stringSize "data" = 6 ∧ stringSize "redacted_thinking" = 19 ∧
    stringSize "text_ref" = 10 ∧ stringSize "ordinal" = 9 ∧ stringSize "call_id" = 9 ∧
    stringSize "tool_call_ref" = 15 := by
  decide

theorem textSize_toJson (double : UInt64 → List Char) (block : ReasoningReplayBlock) :
    textSize (write double block.toJson) = block.jsonSize := by
  obtain ⟨hkind, hsignature, hthinking, hdata, hredacted, htextRef, hordinal, hcallId,
    htoolRef⟩ := stringSize_literals
  cases block with
  | thinking text signature =>
      rw [toJson_thinking, textSize_object, textSize_writeEntries_cons,
        textSize_writeEntries_cons, textSize_writeEntries_nil, textSize_string, textSize_string,
        textSize_string, jsonSize]
      omega
  | redactedThinking data =>
      rw [toJson_redactedThinking, textSize_object, textSize_writeEntries_cons,
        textSize_writeEntries_nil, textSize_string, textSize_string, jsonSize]
      omega
  | textRef ordinal =>
      rw [toJson_textRef, textSize_object, textSize_writeEntries_cons,
        textSize_writeEntries_nil, textSize_string, textSize_nat, jsonSize]
      omega
  | toolCallRef callId =>
      rw [toJson_toolCallRef, textSize_object, textSize_writeEntries_cons,
        textSize_writeEntries_nil, textSize_string, textSize_string, jsonSize]
      omega

end ReasoningReplayBlock

/-! ## Carriers as JSON -/

/-- The bytes of a carrier's JSON text: its envelope, its blocks and the commas
between them. -/
def carrierSize (blocks : List ReasoningReplayBlock) : Nat :=
  113 + (blocks.map ReasoningReplayBlock.jsonSize).sum + (blocks.length - 1)

theorem carrierJson_eq (blocks : List ReasoningReplayBlock) :
    carrierJson blocks = .object [("blocks", .array (blocks.map ReasoningReplayBlock.toJson)),
      ("namespace", .string carrierNamespace), ("protocol_family", .string claudeFamily),
      ("version", .nat 1)] := by
  simp only [carrierJson, Value.obj, List.foldr_cons, List.foldr_nil]
  rw [insertEntry_nil, insertEntry_of_gt (by decide), insertEntry_nil,
    insertEntry_of_gt (by decide), insertEntry_of_gt (by decide),
    insertEntry_of_gt (by decide), insertEntry_nil, insertEntry_of_lt (by decide)]

theorem textSize_carrierJson (double : UInt64 → List Char) (blocks : List ReasoningReplayBlock) :
    textSize (write double (carrierJson blocks)) = carrierSize blocks := by
  have hliterals : stringSize "blocks" = 8 ∧ stringSize "namespace" = 11 ∧
      stringSize carrierNamespace = 32 ∧ stringSize "protocol_family" = 17 ∧
      stringSize claudeFamily = 24 ∧ stringSize "version" = 9 ∧
      (Nat.toDigits 10 1).length = 1 := by
    decide
  have hblocks : (blocks.map ReasoningReplayBlock.toJson).map (fun v => textSize (write double v)) =
      blocks.map ReasoningReplayBlock.jsonSize := by
    rw [List.map_map]
    exact List.map_congr_left fun block _ => ReasoningReplayBlock.textSize_toJson double block
  rw [carrierJson_eq, textSize_object, textSize_writeEntries_cons, textSize_writeEntries_cons,
    textSize_writeEntries_cons, textSize_writeEntries_nil, textSize_array, textSize_string,
    textSize_string, textSize_nat, hblocks, List.length_map, carrierSize]
  omega

theorem exact_carrierJson {blocks : List ReasoningReplayBlock} (h : ∀ block ∈ blocks, block.Typed) :
    Exact (carrierJson blocks) := by
  have hitems : ExactItems (blocks.map ReasoningReplayBlock.toJson) := by
    induction blocks with
    | nil => trivial
    | cons block blocks ih =>
        exact ⟨ReasoningReplayBlock.exact_toJson (h block List.mem_cons_self),
          ih fun b hb => h b (List.mem_cons_of_mem _ hb)⟩
  have hkeys : ["blocks", "namespace", "protocol_family", "version"].Pairwise (· < ·) := by
    decide
  rw [carrierJson_eq, Exact, ordered_iff_keys]
  simp only [ExactEntries, Exact, Value.nat]
  exact ⟨hkeys, hitems, trivial, trivial, by decide, trivial⟩

theorem depth_carrierJson (blocks : List ReasoningReplayBlock) :
    depth (carrierJson blocks) < 128 := by
  have hitems : depthItems (blocks.map ReasoningReplayBlock.toJson) ≤ 1 := by
    induction blocks with
    | nil => simp [depthItems]
    | cons block blocks ih =>
        rw [List.map_cons, depthItems, ReasoningReplayBlock.depth_toJson]
        omega
  rw [carrierJson_eq]
  simp only [depth, depthEntries, Value.nat]
  omega

theorem length_of_validate {blocks : List ReasoningReplayBlock} (h : validate blocks = .ok ()) :
    blocks.length ≤ maxBlocks := by
  by_contra hgt
  rw [validate, if_pos (Nat.lt_of_not_le hgt)] at h
  cases h

/-- The JSON object of valid blocks is decoded to them. -/
theorem decodeCarrierJson_carrierJson {blocks : List ReasoningReplayBlock}
    (htyped : ∀ block ∈ blocks, block.Typed) (hvalid : validate blocks = .ok ()) :
    decodeReasoningReplayCarrier.decodeCarrierJson (carrierJson blocks) = .ok blocks := by
  have hparsed : (blocks.map ReasoningReplayBlock.toJson).mapM blockOfJson = .ok blocks := by
    rw [mapM_eq_ok, List.forall₂_map_left_iff, List.forall₂_same]
    exact fun block hblock => ReasoningReplayBlock.blockOfJson_toJson (htyped block hblock)
  have hlength : ¬blocks.length > maxBlocks := Nat.not_lt.mpr (length_of_validate hvalid)
  rw [carrierJson_eq]
  simp [decodeReasoningReplayCarrier.decodeCarrierJson, Value.asObject, Value.field, Value.get,
    lookup, exactKeys, hlength, hparsed, hvalid, bind_eq_ok]

/-! ## Round trip -/

/-- What the encoder checked, and the text it made. -/
theorem encode_eq_ok {packages : Packages} {blocks : List ReasoningReplayBlock} {s : String}
    (h : encodeReasoningReplayCarrier packages blocks = .ok s) :
    validate blocks = .ok () ∧
      s = carrierPrefix ++ packages.encode64 (carrierBytes packages blocks) ∧
      (packages.encode64 (carrierBytes packages blocks)).utf8ByteSize ≤ maxEncodedBytes := by
  simp only [encodeReasoningReplayCarrier, bind_eq_ok, refuse_eq_ok, pure_eq_ok] at h
  obtain ⟨_, hvalid, _, hsize, rfl⟩ := h
  refine ⟨hvalid, rfl, ?_⟩
  rw [String.utf8ByteSize_append] at hsize
  omega

theorem length_carrierBytes {packages : Packages} (hp : packages.Lawful)
    {blocks : List ReasoningReplayBlock} (htyped : ∀ block ∈ blocks, block.Typed) :
    (carrierBytes packages blocks).length = carrierSize blocks := by
  rw [carrierBytes, length_bytes, hp.writes _ (exact_carrierJson htyped), utf8ByteSize_ofList,
    textSize_carrierJson]

/-- A carrier within the decoder's bound decodes to its blocks; any other is refused. -/
theorem decode_encoded {packages : Packages} (hp : packages.Lawful)
    {blocks : List ReasoningReplayBlock} (htyped : ∀ block ∈ blocks, block.Typed) {s : String}
    (h : encodeReasoningReplayCarrier packages blocks = .ok s) :
    decodeReasoningReplayCarrier packages s =
      if carrierSize blocks > maxOpaqueTotalBytes + maxBlocks * 256 then .error replayInvalid
      else .ok blocks := by
  obtain ⟨hvalid, rfl, hencoded⟩ := encode_eq_ok h
  have hpadding : '=' ∉ (packages.encode64 (carrierBytes packages blocks)).toList := by
    rw [hp.encodes, String.toList_ofList]
    exact Base64.equals_not_mem_encode _
  have hparsed : (fromUtf8 (carrierBytes packages blocks)).bind packages.fromStr =
      some (carrierJson blocks) := by
    rw [carrierBytes, fromUtf8_bytes]
    exact hp.parses _ (exact_carrierJson htyped) (depth_carrierJson blocks)
  have hdecoded := decodeCarrierJson_carrierJson htyped hvalid
  rw [← length_carrierBytes hp htyped]
  simp only [decodeReasoningReplayCarrier, stripText_append, hp.decodes, hparsed, hdecoded,
    gt_iff_lt, not_lt.mpr hencoded, hpadding, or_self, if_false]

/-- An encoded carrier decodes to its blocks if and only if its JSON text is
within the decoder's bound. -/
theorem carrier_round_trip_iff {packages : Packages} (hp : packages.Lawful)
    {blocks : List ReasoningReplayBlock} (htyped : ∀ block ∈ blocks, block.Typed) {s : String}
    (h : encodeReasoningReplayCarrier packages blocks = .ok s) :
    decodeReasoningReplayCarrier packages s = .ok blocks ↔
      carrierSize blocks ≤ maxOpaqueTotalBytes + maxBlocks * 256 := by
  rw [decode_encoded hp htyped h]
  split
  · rename_i hgt
    simpa using hgt
  · rename_i hle
    simpa using hle

/-- Valid blocks are encoded when their JSON text fits the base64 bound. -/
theorem encode_of_size {packages : Packages} (hp : packages.Lawful)
    {blocks : List ReasoningReplayBlock} (htyped : ∀ block ∈ blocks, block.Typed)
    (hvalid : validate blocks = .ok ())
    (hsize : (4 * carrierSize blocks + 2) / 3 ≤ maxEncodedBytes) :
    ∃ s, encodeReasoningReplayCarrier packages blocks = .ok s := by
  have hletters : (packages.encode64 (carrierBytes packages blocks)).utf8ByteSize ≤
      maxEncodedBytes := by
    rw [hp.encodes, utf8ByteSize_ofList, textSize_eq_length (Base64.utf8Size_mem_encode _),
      Base64.length_encode, length_carrierBytes hp htyped]
    exact hsize
  refine ⟨carrierPrefix ++ packages.encode64 (carrierBytes packages blocks), ?_⟩
  simp only [encodeReasoningReplayCarrier, bind_eq_ok, refuse_eq_ok, pure_eq_ok]
  refine ⟨(), hvalid, (), ?_, trivial⟩
  rw [String.utf8ByteSize_append]
  omega

/-- A round trip within the bound. -/
theorem carrier_round_trip_signed_thinking :
    ∃ s, encodeReasoningReplayCarrier .textual [.thinking "t" "s", .textRef 0] = .ok s ∧
      (decodeReasoningReplayCarrier .textual s = .ok [.thinking "t" "s", .textRef 0] ↔
        carrierSize [.thinking "t" "s", .textRef 0] ≤ maxOpaqueTotalBytes + maxBlocks * 256) := by
  have htyped : ∀ block ∈ [ReasoningReplayBlock.thinking "t" "s", .textRef 0], block.Typed := by
    simp [ReasoningReplayBlock.Typed]
  obtain ⟨s, hs⟩ := encode_of_size lawful_textual htyped (by decide +kernel) (by decide +kernel)
  exact ⟨s, hs, carrier_round_trip_iff lawful_textual htyped hs⟩

/-! ## A carrier that is not read back -/

/-- A redacted block of line feeds: each is one opaque byte and two JSON bytes. -/
def lineFeeds (n : Nat) : ReasoningReplayBlock :=
  .redactedThinking (String.ofList (List.replicate n '\n'))

theorem jsonSize_lineFeeds (n : Nat) : (lineFeeds n).jsonSize = 2 * n + 38 := by
  have hfeed : charSize '\n' = 2 := by decide
  simp only [lineFeeds, ReasoningReplayBlock.jsonSize, stringSize, String.toList_ofList,
    List.map_replicate, hfeed, List.sum_replicate_nat]
  omega

theorem opaqueBytes_lineFeeds (n : Nat) : (lineFeeds n).opaqueBytes = some n := by
  have hfeed : '\n'.utf8Size = 1 := by decide
  simp only [lineFeeds, ReasoningReplayBlock.opaqueBytes, utf8ByteSize_ofList, textSize,
    List.map_replicate, hfeed, List.sum_replicate_nat, Nat.mul_one]

/-- Equal blocks are valid while their sum is within the total. -/
theorem validateFrom_replicate {block : ReasoningReplayBlock} {n : Nat}
    (hbytes : block.opaqueBytes = some n) (hblock : n ≤ maxOpaqueBlockBytes) {k total : Nat}
    (htotal : total + k * n ≤ maxOpaqueTotalBytes) :
    validateFrom total (List.replicate k block) = .ok () := by
  induction k generalizing total with
  | zero => rfl
  | succ k ih =>
      rw [Nat.succ_mul] at htotal
      rw [List.replicate_succ, validateFrom, hbytes]
      simp only [gt_iff_lt]
      rw [if_neg (by omega), if_neg (by omega)]
      exact ih (by omega)

/-- Five blocks of enough line feeds are encoded and not decoded. -/
theorem lineFeeds_not_decoded {n : Nat} (hlow : 450000 ≤ n) (hhigh : n ≤ 600000) :
    ∃ s, encodeReasoningReplayCarrier .textual (List.replicate 5 (lineFeeds n)) = .ok s ∧
      decodeReasoningReplayCarrier .textual s ≠ .ok (List.replicate 5 (lineFeeds n)) := by
  have htyped : ∀ block ∈ List.replicate 5 (lineFeeds n), block.Typed := by
    intro block hblock
    rw [List.eq_of_mem_replicate hblock, lineFeeds]
    trivial
  have hsize : carrierSize (List.replicate 5 (lineFeeds n)) = 10 * n + 307 := by
    simp only [carrierSize, List.map_replicate, jsonSize_lineFeeds, List.sum_replicate_nat,
      List.length_replicate]
    omega
  have hvalid : validate (List.replicate 5 (lineFeeds n)) = .ok () := by
    rw [validate, if_neg (by simp [maxBlocks])]
    refine validateFrom_replicate (opaqueBytes_lineFeeds n) ?_ ?_
    · rw [maxOpaqueBlockBytes]
      omega
    · rw [maxOpaqueTotalBytes]
      omega
  obtain ⟨s, hs⟩ := encode_of_size lawful_textual htyped hvalid (by
    rw [hsize, maxEncodedBytes]
    omega)
  refine ⟨s, hs, fun hdecoded => ?_⟩
  rw [decode_encoded lawful_textual htyped hs, if_pos] at hdecoded
  · cases hdecoded
  · rw [hsize, maxOpaqueTotalBytes, maxBlocks]
    omega

/-- Two and a half million line feeds are within the encoder's bounds only. -/
theorem line_feeds_not_read_back :
    ∃ s, encodeReasoningReplayCarrier .textual (List.replicate 5 (lineFeeds 500000)) = .ok s ∧
      decodeReasoningReplayCarrier .textual s ≠ .ok (List.replicate 5 (lineFeeds 500000)) :=
  lineFeeds_not_decoded (by omega) (by omega)

end TokenStation.Responses
