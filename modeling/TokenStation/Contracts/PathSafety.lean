import TokenStation.Contracts.RelativePath

/-!
# Relative paths stay below their endpoint

However often an upstream decodes the target, its segments are never empty and
never dots, so the target stays below the endpoint's own path.
-/

namespace TokenStation.Contracts

open Library.Percent Library.Text

/-! ## Segments -/

theorem separator_slash : Separator slash := ⟨by decide, by decide⟩

/-- What decoding a segment leaves: no escapes, no backslashes, slashes only
where they were counted, and dots only where they stood. -/
structure DecodesTo (encodedSlash : EncodedSlash) (segment text : List UInt8)
    (before after : Bool) : Prop where
  decoded : text = percentDecode segment
  plain : percent ∉ text
  noBackslash : backslash ∉ segment → backslash ∉ text
  counted : after = false → before = false ∧ (slash ∉ segment → slash ∉ text)
  refused : encodedSlash = .refuse → after = before
  dots : (∀ byte ∈ text, byte = dot) → text = segment

/-- A literal byte is decoded to itself. -/
theorem DecodesTo.literal {encodedSlash : EncodedSlash} {segment text : List UInt8}
    {before after : Bool} (h : DecodesTo encodedSlash segment text before after) {byte : UInt8}
    (hbyte : byte ≠ percent) :
    DecodesTo encodedSlash (byte :: segment) (byte :: text) before after where
  decoded := by rw [percentDecode_cons_ne hbyte, h.decoded]
  plain hmem := by
    rcases List.mem_cons.mp hmem with heq | hmem
    · exact hbyte heq.symm
    · exact h.plain hmem
  noBackslash hsegment hmem := by
    obtain ⟨hne, hrest⟩ := not_or.mp (mt List.mem_cons.mpr hsegment)
    rcases List.mem_cons.mp hmem with heq | hmem
    · exact hne heq
    · exact h.noBackslash hrest hmem
  counted hafter := by
    obtain ⟨hbefore, hslash⟩ := h.counted hafter
    refine ⟨hbefore, fun hsegment hmem => ?_⟩
    obtain ⟨hne, hrest⟩ := not_or.mp (mt List.mem_cons.mpr hsegment)
    rcases List.mem_cons.mp hmem with heq | hmem
    · exact hne heq
    · exact hslash hrest hmem
  refused := h.refused
  dots hall := by rw [h.dots fun b hb => hall b (List.mem_cons_of_mem _ hb)]

/-- An escape that is admitted. -/
theorem DecodesTo.escape {encodedSlash : EncodedSlash} {segment text : List UInt8}
    {before between after : Bool} (h : DecodesTo encodedSlash segment text between after)
    {high low byte : UInt8} (hescape : escaped percent high low = some byte)
    (hbyte : byte ∉ [dot, backslash, percent])
    (hcounted : between = false → before = false ∧ byte ≠ slash)
    (hrefused : encodedSlash = .refuse → between = before) :
    DecodesTo encodedSlash (percent :: high :: low :: segment) (byte :: text) before after where
  decoded := by rw [percentDecode_escape hescape, h.decoded]
  plain hmem := by
    rcases List.mem_cons.mp hmem with heq | hmem
    · exact hbyte (by simp [← heq])
    · exact h.plain hmem
  noBackslash hsegment hmem := by
    rcases List.mem_cons.mp hmem with heq | hmem
    · exact hbyte (by simp [← heq])
    · refine h.noBackslash (fun hsome => hsegment ?_) hmem
      exact List.mem_cons_of_mem _ (List.mem_cons_of_mem _ (List.mem_cons_of_mem _ hsome))
  counted hafter := by
    obtain ⟨hbetween, hslash⟩ := h.counted hafter
    obtain ⟨hbefore, hne⟩ := hcounted hbetween
    refine ⟨hbefore, fun hsegment hmem => ?_⟩
    rcases List.mem_cons.mp hmem with heq | hmem
    · exact hne heq.symm
    · refine hslash (fun hsome => hsegment ?_) hmem
      exact List.mem_cons_of_mem _ (List.mem_cons_of_mem _ (List.mem_cons_of_mem _ hsome))
  refused hmode := (h.refused hmode).trans (hrefused hmode)
  dots hall := absurd (hall byte List.mem_cons_self) fun heq => hbyte (by simp [heq])

theorem decodeSegment_literal {byte : UInt8} (h : byte ≠ percent) (encodedSlash : EncodedSlash)
    (decoded : List UInt8) (before : Bool) (rest : List UInt8) :
    decodeSegment encodedSlash decoded before (byte :: rest) =
      decodeSegment encodedSlash (decoded ++ [byte]) before rest := by
  rw [decodeSegment.eq_def]
  exact if_pos h

/-- Only a complete escape is admitted: a slash that is counted, or a byte that
means nothing in a path. -/
theorem decodeSegment_escape {encodedSlash : EncodedSlash} {decoded segment : List UInt8}
    {before : Bool} {result : List UInt8 × Bool}
    (h : decodeSegment encodedSlash decoded before (percent :: segment) = some result) :
    ∃ high low rest byte between, segment = high :: low :: rest ∧
      escaped percent high low = some byte ∧ byte ∉ [dot, backslash, percent] ∧
      (between = false → before = false ∧ byte ≠ slash) ∧
      (encodedSlash = .refuse → between = before) ∧
      decodeSegment encodedSlash (decoded ++ [byte]) between rest = some result := by
  rw [decodeSegment.eq_def] at h
  simp only [ne_eq, not_true_eq_false, if_false] at h
  match segment with
  | [] => cases h
  | [_] => cases h
  | high :: low :: rest =>
      cases hescape : escaped percent high low with
      | none => simp only [hescape] at h; cases h
      | some byte =>
          simp only [hescape] at h
          refine ⟨high, low, rest, byte, ?_⟩
          split at h
          · rename_i hslash
            refine ⟨true, rfl, hescape, ?_, by simp, by simp [hslash.2], h⟩
            rw [hslash.1]
            decide
          · split at h
            · cases h
            · rename_i hallowed
              simp only [List.mem_cons, List.not_mem_nil, or_false, not_or] at hallowed
              exact ⟨before, rfl, hescape, by simp [hallowed],
                fun hbefore => ⟨hbefore, hallowed.2.1⟩, fun _ => rfl, h⟩

theorem decodeSegment_some {encodedSlash : EncodedSlash} {segment decoded text : List UInt8}
    {before after : Bool}
    (h : decodeSegment encodedSlash decoded before segment = some (text, after)) :
    ∃ rest, text = decoded ++ rest ∧ DecodesTo encodedSlash segment rest before after := by
  induction hlength : segment.length using Nat.strong_induction_on
    generalizing segment decoded before with
  | _ n ih =>
      match segment with
      | [] =>
          rw [decodeSegment.eq_def] at h
          cases h
          exact ⟨[], (List.append_nil _).symm, rfl, by simp, by simp, by simp, fun _ => rfl,
            fun _ => rfl⟩
      | byte :: segment =>
          rw [List.length_cons] at hlength
          by_cases hbyte : byte = percent
          · subst hbyte
            obtain ⟨high, low, tail, byte, between, rfl, hescape, hbyte, hcounted, hrefused, h⟩ :=
              decodeSegment_escape h
            simp only [List.length_cons] at hlength
            obtain ⟨rest, rfl, hrest⟩ := ih tail.length (by omega) h rfl
            exact ⟨byte :: rest, by simp, hrest.escape hescape hbyte hcounted hrefused⟩
          · rw [decodeSegment_literal hbyte] at h
            obtain ⟨rest, rfl, hrest⟩ := ih segment.length (by omega) h rfl
            exact ⟨byte :: rest, by simp, hrest.literal hbyte⟩

/-- A segment both judgements let through, whichever way escaped slashes are
judged. -/
structure SafeSegment (segment : List UInt8) : Prop where
  whole : slash ∉ segment
  noBackslash : backslash ∉ segment
  safe : isSafeSegment segment = true
  escapes : ∃ encodedSlash, segmentHasInvalidOrForbiddenEscape encodedSlash segment = false

def isSeparator (byte : UInt8) : Bool := byte == slash || byte == backslash

/-- Every piece an upstream may see is a name. -/
def Readable (text : List UInt8) : Prop :=
  ∀ piece ∈ text.splitOnP isSeparator, isSafeSegment piece = true

theorem splitOnP_isSeparator {text : List UInt8} (h : backslash ∉ text) :
    text.splitOnP isSeparator = text.splitOn slash := by
  rw [List.splitOn_eq_splitOnP]
  induction text with
  | nil => rfl
  | cons byte text ih =>
      obtain ⟨hne, hrest⟩ := not_or.mp (mt List.mem_cons.mpr h)
      have hsame : isSeparator byte = (byte == slash) := by
        rw [isSeparator, beq_false_of_ne (Ne.symm hne), Bool.or_false]
      rw [List.splitOnP_cons_eq_if_modifyHead, List.splitOnP_cons_eq_if_modifyHead, ih hrest,
        hsame]

theorem readable_of_whole {text : List UInt8} (hslash : slash ∉ text)
    (hbackslash : backslash ∉ text) (hsafe : isSafeSegment text = true) : Readable text := by
  intro piece hpiece
  rw [splitOnP_isSeparator hbackslash, List.splitOn_eq_singleton hslash] at hpiece
  rw [List.mem_singleton.mp hpiece]
  exact hsafe

theorem SafeSegment.readable {segment : List UInt8} (h : SafeSegment segment) :
    Readable segment := readable_of_whole h.whole h.noBackslash h.safe

/-- A segment of dots, or an empty one, was one before it was decoded. -/
theorem isSafeSegment_of_dots {segment text : List UInt8}
    (h : (∀ byte ∈ text, byte = dot) → text = segment) (hsafe : isSafeSegment segment = true) :
    isSafeSegment text = true := by
  by_contra hnot
  rw [← h] at hsafe
  · exact hnot hsafe
  · intro byte hbyte
    simp only [isSafeSegment, isDotSegment, Bool.and_eq_true, Bool.not_eq_true',
      List.isEmpty_eq_false_iff, Bool.or_eq_false_iff, beq_eq_false_iff_ne, not_and_or,
      not_not] at hnot
    rcases hnot with rfl | rfl | rfl
    · cases hbyte
    · simpa using hbyte
    · simpa using hbyte

theorem SafeSegment.decoded {segment : List UInt8} (h : SafeSegment segment) :
    percent ∉ percentDecode segment ∧ Readable (percentDecode segment) := by
  obtain ⟨encodedSlash, hescapes⟩ := h.escapes
  unfold segmentHasInvalidOrForbiddenEscape at hescapes
  split at hescapes
  · cases hescapes
  · rename_i text after hdecode
    obtain ⟨rest, htext, hrest⟩ := decodeSegment_some hdecode
    rw [List.nil_append] at htext
    subst htext
    rw [← hrest.decoded]
    refine ⟨hrest.plain, ?_⟩
    have hbackslash := hrest.noBackslash h.noBackslash
    cases after with
    | false =>
        exact readable_of_whole ((hrest.counted rfl).2 h.whole) hbackslash
          (isSafeSegment_of_dots hrest.dots h.safe)
    | true =>
        intro piece hpiece
        rw [splitOnP_isSeparator hbackslash] at hpiece
        simp only [Bool.true_and, List.any_eq_false] at hescapes
        simpa using hescapes piece hpiece

/-! ## Paths -/

/-- Segments joined by slashes. -/
inductive SafePath : List UInt8 → Prop
  | segment {segment : List UInt8} (h : SafeSegment segment) : SafePath segment
  | join {segment rest : List UInt8} (h : SafeSegment segment) (hrest : SafePath rest) :
      SafePath (segment ++ slash :: rest)

theorem SafePath.append {path rest : List UInt8} (h : SafePath path) (hrest : SafePath rest) :
    SafePath (path ++ slash :: rest) := by
  induction h with
  | segment h => exact .join h hrest
  | join h _ ih =>
      rw [List.append_assoc, List.cons_append]
      exact .join h ih

theorem Readable.join {piece rest : List UInt8} (h : Readable piece) (hrest : Readable rest) :
    Readable (piece ++ slash :: rest) := by
  intro part hpart
  rw [List.splitOnP_append_cons _ _ (by decide)] at hpart
  rcases List.mem_append.mp hpart with hpart | hpart
  · exact h part hpart
  · exact hrest part hpart

theorem SafePath.readable {path : List UInt8} (h : SafePath path) : Readable path := by
  induction h with
  | segment h => exact h.readable
  | join h _ ih => exact h.readable.join ih

/-- One decoding leaves nothing for a second one. -/
theorem SafePath.decoded {path : List UInt8} (h : SafePath path) :
    percent ∉ percentDecode path ∧ Readable (percentDecode path) := by
  induction h with
  | segment h => exact h.decoded
  | join h _ ih =>
      rw [percentDecode_append separator_slash]
      refine ⟨fun hmem => ?_, h.decoded.2.join ih.2⟩
      rcases List.mem_append.mp hmem with hmem | hmem
      · exact h.decoded.1 hmem
      · rcases List.mem_cons.mp hmem with heq | hmem
        · exact absurd heq (by decide)
        · exact ih.1 hmem

theorem SafePath.iterate_succ {path : List UInt8} (h : SafePath path) (n : Nat) :
    percentDecode^[n + 1] path = percentDecode path := by
  rw [Function.iterate_succ_apply, iterate_percentDecode h.decoded.1]

theorem SafePath.readable_iterate {path : List UInt8} (h : SafePath path) (n : Nat) :
    Readable (percentDecode^[n] path) := by
  cases n with
  | zero => exact h.readable
  | succ n =>
      rw [h.iterate_succ]
      exact h.decoded.2

theorem safePath_of_segments {encodedSlash : EncodedSlash} {path : List UInt8}
    (hbackslash : backslash ∉ path)
    (hsegments : ∀ segment ∈ path.splitOn slash, isSafeSegment segment = true ∧
      segmentHasInvalidOrForbiddenEscape encodedSlash segment = false) : SafePath path := by
  induction hlength : path.length using Nat.strong_induction_on generalizing path with
  | _ n ih =>
      rcases exists_piece slash path with hwhole | ⟨segment, rest, rfl, hwhole⟩
      · rw [List.splitOn_eq_singleton hwhole] at hsegments
        obtain ⟨hsafe, hescapes⟩ := hsegments path (List.mem_singleton.mpr rfl)
        exact .segment ⟨hwhole, hbackslash, hsafe, _, hescapes⟩
      · rw [List.splitOn_append_cons_self_of_not_mem hwhole] at hsegments
        obtain ⟨hsafe, hescapes⟩ := hsegments segment List.mem_cons_self
        simp only [List.mem_append, List.mem_cons, not_or] at hbackslash
        refine .join ⟨hwhole, hbackslash.1, hsafe, _, hescapes⟩ (ih rest.length ?_
          hbackslash.2.2 (fun segment h => hsegments segment (List.mem_cons_of_mem _ h)) rfl)
        rw [← hlength, List.length_append, List.length_cons]
        omega

theorem backslash_not_mem {path : List UInt8} (h : path.any isForbiddenPathByte = false) :
    backslash ∉ path := by
  intro hmem
  rw [List.any_eq_false] at h
  exact h backslash hmem (by decide)

/-- What a relative path is made of. -/
theorem RelativePathV1.safePath (path : RelativePathV1) : SafePath (bytes path.value) := by
  have h := path.accepted
  simp only [refusesRelativePath, Bool.or_eq_false_iff, Bool.not_eq_false'] at h
  obtain ⟨⟨⟨⟨-, hforbidden⟩, hescapes⟩, hsegments⟩, -⟩ := h
  refine @safePath_of_segments .admitInSegment _ (backslash_not_mem hforbidden)
    fun segment hsegment => ⟨List.all_eq_true.mp hsegments segment hsegment, ?_⟩
  have hescape := List.any_eq_false.mp hescapes segment hsegment
  simpa using hescape

theorem stripTrailingSlash_append (inner : List UInt8) :
    stripTrailingSlash (inner ++ [slash]) = inner := by
  rw [stripTrailingSlash, List.getLast?_concat, if_pos rfl, List.dropLast_concat]

/-- What is below a root path and ends in a slash. -/
theorem exists_inner {rest : List UInt8} (h : rest ≠ [])
    (hlast : (slash :: rest).getLast? = some slash) : ∃ inner, rest = inner ++ [slash] := by
  rw [List.getLast?_cons_of_ne_nil h] at hlast
  exact List.getLast?_eq_some_iff.mp hlast

/-- An endpoint's path that ends in a slash is the root, or a path between two
slashes. -/
theorem safePath_of_validateEndpointPath {path : String}
    (h : validateEndpointPath path = .ok ()) (hlast : (bytes path).getLast? = some slash) :
    bytes path = [slash] ∨ ∃ inner, bytes path = slash :: (inner ++ [slash]) ∧ SafePath inner := by
  unfold validateEndpointPath at h
  dsimp only at h
  split at h
  · cases h
  · rename_i hcheck
    split at h
    · cases h
    · rename_i hsegments
      simp only [Bool.or_eq_true, not_or, Bool.not_eq_true, Bool.not_eq_false'] at hcheck
      obtain ⟨⟨⟨⟨-, hstart⟩, hdouble⟩, hforbidden⟩, hescapes⟩ := hcheck
      match hbytes : bytes path with
      | [] => rw [hbytes] at hlast; cases hlast
      | first :: rest =>
          rw [hbytes] at hstart hlast hdouble hforbidden hescapes hsegments
          obtain rfl : first = slash := by simpa [startsWithSlash] using hstart
          by_cases hrest : rest = []
          · exact .inl (by rw [hrest])
          · obtain ⟨inner, rfl⟩ := exists_inner hrest hlast
            refine .inr ⟨inner, rfl, ?_⟩
            rw [List.tail_cons, stripTrailingSlash_append] at hsegments
            have hinner : inner ≠ [] := by
              rintro rfl
              exact absurd hdouble (by decide)
            have hsafe : hasSafeSegments inner = true := by
              by_contra hnot
              simp [hinner, hnot] at hsegments
            have hback : backslash ∉ inner := fun hmem =>
              backslash_not_mem hforbidden (by simp [hmem])
            refine @safePath_of_segments .refuse _ hback fun segment hsegment =>
              ⟨List.all_eq_true.mp hsafe segment hsegment, ?_⟩
            have hescape := List.any_eq_false.mp hescapes segment (by
              change segment ∈ ([] ++ slash :: (inner ++ slash :: [])).splitOn slash
              rw [List.splitOn_append_cons_self, List.splitOn_append_cons_self]
              simp [hsegment])
            simpa using hescape

/-! ## The request target -/

/-- Dot segments removed from a split path. -/
def removeDotSegments (segments : List (List UInt8)) : List (List UInt8) :=
  segments.foldl (fun kept segment =>
    if segment = [dot] then kept
    else if segment = [dot, dot] then kept.dropLast
    else kept ++ [segment]) []

theorem removeDotSegments_eq {segments : List (List UInt8)}
    (h : ∀ segment ∈ segments, isDotSegment segment = false) :
    removeDotSegments segments = segments := by
  suffices hfold : ∀ kept, segments.foldl (fun kept segment =>
      if segment = [dot] then kept
      else if segment = [dot, dot] then kept.dropLast
      else kept ++ [segment]) kept = kept ++ segments from hfold []
  intro kept
  induction segments generalizing kept with
  | nil => exact (List.append_nil kept).symm
  | cons segment segments ih =>
      have hsegment := h segment List.mem_cons_self
      simp only [isDotSegment, Bool.or_eq_false_iff, beq_eq_false_iff_ne] at hsegment
      rw [List.foldl_cons, if_neg hsegment.1, if_neg hsegment.2,
        ih (fun segment h' => h segment (List.mem_cons_of_mem _ h')), List.append_assoc]
      rfl

/-- The bytes an upstream sees of a relative path appended to its endpoint,
after some decodings. -/
def decodedTarget (endpoint : String) (path : RelativePathV1) (n : Nat) : List UInt8 :=
  percentDecode^[n] (bytes (endpoint ++ path.value))

/-- What is appended to the root, or to the root and an inner path. -/
theorem target_eq {endpoint : String} (h : validateEndpointPath endpoint = .ok ())
    (hlast : (bytes endpoint).getLast? = some slash) (path : RelativePathV1) :
    ∃ rest, bytes (endpoint ++ path.value) = slash :: rest ∧ SafePath rest := by
  rw [bytes_append]
  rcases safePath_of_validateEndpointPath h hlast with heq | ⟨inner, heq, hinner⟩
  · exact ⟨_, by rw [heq]; rfl, path.safePath⟩
  · exact ⟨_, by rw [heq, List.cons_append, List.append_assoc]; rfl,
      hinner.append path.safePath⟩

/-- The endpoint's bytes are decoded by themselves. -/
theorem decodedTarget_prefix {endpoint : String}
    (hlast : (bytes endpoint).getLast? = some slash) (path : RelativePathV1) (n : Nat) :
    percentDecode^[n] (bytes endpoint) <+: decodedTarget endpoint path n := by
  obtain ⟨inner, hinner⟩ := List.getLast?_eq_some_iff.mp hlast
  rw [decodedTarget, bytes_append, hinner, List.append_assoc]
  change percentDecode^[n] (inner ++ slash :: []) <+:
    percentDecode^[n] (inner ++ slash :: bytes path.value)
  rw [iterate_percentDecode_append separator_slash, iterate_percentDecode_append separator_slash]
  have hnil : percentDecode^[n] ([] : List UInt8) = [] :=
    iterate_percentDecode (List.not_mem_nil) n
  rw [hnil]
  exact ⟨percentDecode^[n] (bytes path.value), by rw [List.append_assoc]; rfl⟩

/-- Whatever an upstream decodes, a relative path names something at or below
its endpoint: nothing climbs, nothing is dropped, and a second decoding finds
nothing. -/
theorem relative_path_never_escapes (path : RelativePathV1) {endpoint : String}
    (hendpoint : validateEndpointPath endpoint = .ok ())
    (hlast : (bytes endpoint).getLast? = some slash) (n : Nat) :
    (∃ pieces, (decodedTarget endpoint path n).splitOnP isSeparator = [] :: pieces ∧
      (∀ piece ∈ pieces, isSafeSegment piece = true) ∧
      removeDotSegments ([] :: pieces) = [] :: pieces) ∧
    percentDecode^[n] (bytes endpoint) <+: decodedTarget endpoint path n ∧
    decodedTarget endpoint path 2 = decodedTarget endpoint path 1 := by
  obtain ⟨rest, htarget, hrest⟩ := target_eq hendpoint hlast path
  have hdecoded (m : Nat) : decodedTarget endpoint path m = slash :: percentDecode^[m] rest := by
    rw [decodedTarget, htarget, iterate_percentDecode_cons (by decide)]
  refine ⟨⟨(percentDecode^[n] rest).splitOnP isSeparator, ?_, hrest.readable_iterate n, ?_⟩,
    decodedTarget_prefix hlast path n, ?_⟩
  · rw [hdecoded, List.splitOnP_cons_eq_if_modifyHead, if_pos (by decide)]
  · refine removeDotSegments_eq fun segment hsegment => ?_
    rcases List.mem_cons.mp hsegment with rfl | hsegment
    · rfl
    · have hsafe := hrest.readable_iterate n segment hsegment
      simp only [isSafeSegment, Bool.and_eq_true, Bool.not_eq_true'] at hsafe
      exact hsafe.2
  · rw [hdecoded, hdecoded, hrest.iterate_succ 1, hrest.iterate_succ 0]

/-- `models/a%2Fb` is let through, and `a/b` is what a decoding upstream sees. -/
def encodedSlashPath : RelativePathV1 := ⟨"models/a%2Fb", by decide⟩

theorem encoded_slash_never_escapes :
    validateEndpointPath "/v1/" = .ok () ∧ (bytes "/v1/").getLast? = some slash ∧
    (∃ pieces, (decodedTarget "/v1/" encodedSlashPath 1).splitOnP isSeparator = [] :: pieces ∧
      (∀ piece ∈ pieces, isSafeSegment piece = true) ∧
      removeDotSegments ([] :: pieces) = [] :: pieces) ∧
    percentDecode^[1] (bytes "/v1/") <+: decodedTarget "/v1/" encodedSlashPath 1 ∧
    decodedTarget "/v1/" encodedSlashPath 2 = decodedTarget "/v1/" encodedSlashPath 1 :=
  have hendpoint : validateEndpointPath "/v1/" = .ok () := by decide
  have hlast : (bytes "/v1/").getLast? = some slash := by decide
  ⟨hendpoint, hlast, relative_path_never_escapes encodedSlashPath hendpoint hlast 1⟩

end TokenStation.Contracts
