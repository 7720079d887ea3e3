import TokenStation.Tasks.VideoComponents

/-!
# Asking after accepted tasks

An identifier is read from the upstream's answer by one grammar and put into the
poll's URL under another. For each component, the identifiers it accepts and polls,
and what becomes of them in the URL.
-/

namespace TokenStation.Tasks

open Library Library.Checked Library.Json Library.Text Responses Contracts

inductive VideoComponent where
  | kling
  | miniMax
  | bailian
  | bytePlus
  | veo
  | geminiOmni
deriving DecidableEq, Repr

/-- How the answers of an upstream are read: documents, what is terminal already, and
the messages of refusals. -/
structure AnswerReading (O : Type) where
  fromStr : String → Option Value
  terminal : Value → Option O
  settled : Value → Option O
  errorMessage : String → Option String

/-- The characters of an encoded segment. -/
def IsSegmentChar (c : Char) : Prop := isWordChar c = true ∨ c = '.' ∨ c = '~' ∨ c = '%'

/-- A segment that a path keeps as it is: not empty, no dot segment, and only letters,
digits, dashes, underscores and dots. -/
structure IsPathSegment (segment : List Char) : Prop where
  nonempty : segment ≠ []
  not_dot : segment ≠ ['.']
  not_dots : segment ≠ ['.', '.']
  chars : ∀ c ∈ segment, isWordChar c = true ∨ c = '.'

/-- Nothing, or a query with its mark. -/
def IsQuery (query : String) : Prop := query = "" ∨ ∃ declared, query = "?" ++ declared

namespace VideoComponent

variable {P O : Type}

def buildSubmitRequest (prepare : TaskConfig → Value → String → Except ErrorEnvelope P)
    (config : TaskConfig) (request : Value) :
    VideoComponent → Except ErrorEnvelope (PreparedTaskV2 P)
  | .kling => Kling.buildSubmitRequest prepare config request
  | .miniMax => MiniMax.buildSubmitRequest prepare config request
  | .bailian => Bailian.buildSubmitRequest prepare config request
  | .bytePlus => BytePlus.buildSubmitRequest prepare config request
  | .veo => Veo.buildSubmitRequest prepare config request
  | .geminiOmni => GeminiOmni.buildSubmitRequest prepare config request

def parseSubmitResponse (reading : AnswerReading O) (parts : HttpResponseParts) :
    VideoComponent → SubmitOutcomeV2 O
  | .kling => Kling.parseSubmitResponse reading.fromStr parts
  | .miniMax => MiniMax.parseSubmitResponse reading.fromStr parts
  | .bailian => Bailian.parseSubmitResponse reading.fromStr parts
  | .bytePlus => BytePlus.parseSubmitResponse reading.fromStr parts
  | .veo => Veo.parseSubmitResponse reading.fromStr reading.terminal parts
  | .geminiOmni =>
      GeminiOmni.parseSubmitResponse reading.fromStr reading.errorMessage reading.settled parts

def buildObserveRequest (config : TaskConfig) (id : String) (locator : TaskLocatorV2) :
    VideoComponent → Except ErrorEnvelope ObserveRequest
  | .kling => Kling.buildObserveRequest config id locator
  | .miniMax => MiniMax.buildObserveRequest config id locator
  | .bailian => Bailian.buildObserveRequest config id locator
  | .bytePlus => BytePlus.buildObserveRequest config id locator
  | .veo => Veo.buildObserveRequest config id locator
  | .geminiOmni => GeminiOmni.buildObserveRequest config id locator

/-- The accepted identifiers that a component polls. -/
def Polls (config : TaskConfig) (locator : TaskLocatorV2) (id : String) : VideoComponent → Prop
  | .kling | .bailian | .bytePlus => hasSlash id = false
  | .miniMax =>
      if locator.route = MiniMax.queryV2 then hasSlash id = false
      else QueryParameterV1.accepts id = true
  | .veo => hasPrefix "projects/" id = (config.provider == "vertex-veo-video")
  | .geminiOmni => True

/-- What a poll's path starts from: the endpoint, or its origin for an operation of
another shape than the binding's own. -/
def pollBase (config : TaskConfig) (id : String) : VideoComponent → String
  | .veo =>
      if config.provider = "vertex-veo-video" ∧ vertexOperationUnderBinding id = none then
        origin config.baseUrl
      else trimEndSlashes config.baseUrl
  | _ => trimEndSlashes config.baseUrl

/-- The part of a poll's path before the identifier. -/
def pollRoute (config : TaskConfig) (locator : TaskLocatorV2) (id : String) :
    VideoComponent → String
  | .miniMax =>
      if locator.route = MiniMax.queryV2 then MiniMax.queryV2 ++ "/" else MiniMax.query
  | .veo =>
      if config.provider = "vertex-veo-video" then
        if vertexOperationUnderBinding id = none then "v1/" else ""
      else "v1beta/"
  | _ => locator.route ++ "/"

/-- The part of a poll's path that the identifier gives. -/
def idPath (config : TaskConfig) (locator : TaskLocatorV2) (id : String) :
    VideoComponent → String
  | .kling | .bailian | .bytePlus => encodeSegment id
  | .miniMax => if locator.route = MiniMax.queryV2 then encodeSegment id else ""
  | .veo =>
      if config.provider = "vertex-veo-video" then (vertexOperationUnderBinding id).getD id
      else id
  | .geminiOmni => UrlSegment.encode id

/-- What an identifier may show in a path: plain segments for Veo, and otherwise unreserved
characters and the signs of escapes, in one segment. -/
def ShowsOnly (path : String) : VideoComponent → Prop
  | .veo => ∀ segment ∈ path.toList.splitOn '/', IsPathSegment segment
  | _ => ∀ c ∈ path.toList, IsSegmentChar c

/-- What asking after an accepted identifier comes to. -/
structure Asked (config : TaskConfig) (locator : TaskLocatorV2) (id : String)
    (component : VideoComponent) : Prop where
  polled : (∃ poll, component.buildObserveRequest config id locator = .ok poll) ↔
    component.Polls config locator id
  address : ∀ poll, component.buildObserveRequest config id locator = .ok poll →
    ∃ query, IsQuery query ∧
      poll.url = component.pollBase config id ++ "/" ++
        (component.pollRoute config locator id ++ component.idPath config locator id) ++ query
  shown : ShowsOnly (component.idPath config locator id) component

end VideoComponent

/-! ## What an identifier shows -/

theorem isWordChar_of_alphanumeric : ∀ byte : UInt8, isAsciiAlphanumeric byte = true →
    isWordChar (Char.ofNat byte.toNat) = true :=
  UrlSegment.forall_byte (by decide +kernel)

theorem hexDigit_alphanumeric : ∀ byte : UInt8,
    isAsciiAlphanumeric (UrlSegment.hexDigit (byte >>> 4)) = true ∧
      isAsciiAlphanumeric (UrlSegment.hexDigit (byte &&& 0x0F)) = true :=
  UrlSegment.forall_byte (by decide +kernel)

theorem isSegmentChar_of_unreserved {byte : UInt8} (h : isUnreservedByte byte = true) :
    IsSegmentChar (Char.ofNat byte.toNat) := by
  rw [isUnreservedByte, Bool.or_eq_true, decide_eq_true_eq] at h
  rcases h with h | h
  · exact .inl (isWordChar_of_alphanumeric byte h)
  · simp only [unreservedMarks, List.mem_cons, List.not_mem_nil, or_false] at h
    rcases h with rfl | rfl | rfl | rfl
    · exact .inl (by decide)
    · exact .inl (by decide)
    · exact .inr (.inl (by decide))
    · exact .inr (.inr (.inl (by decide)))

theorem encodeSegmentByte_shown {byte b : UInt8} (h : b ∈ encodeSegmentByte byte) :
    IsSegmentChar (Char.ofNat b.toNat) := by
  unfold encodeSegmentByte at h
  split at h
  · rename_i hbyte
    rw [List.mem_singleton.mp h]
    exact isSegmentChar_of_unreserved hbyte
  · simp only [List.mem_cons, List.not_mem_nil, or_false] at h
    rcases h with rfl | rfl | rfl
    · exact .inr (.inr (.inr (by decide)))
    · exact .inl (isWordChar_of_alphanumeric _ (hexDigit_alphanumeric byte).1)
    · exact .inl (isWordChar_of_alphanumeric _ (hexDigit_alphanumeric byte).2)

theorem encodeSegment_shown {id : String} {c : Char} (h : c ∈ (encodeSegment id).toList) :
    IsSegmentChar c := by
  rw [encodeSegment, String.toList_ofList] at h
  obtain ⟨b, hb, rfl⟩ := List.mem_map.mp h
  obtain ⟨byte, -, hbyte⟩ := List.mem_flatMap.mp hb
  exact encodeSegmentByte_shown hbyte

theorem wordChar_lt {c : Char} (h : isWordChar c = true) : c.toNat < 128 := by
  simp only [isWordChar, Char.isAlphanum, Char.isAlpha, Char.isUpper, Char.isLower,
    Char.isDigit, Bool.or_eq_true, Bool.and_eq_true, decide_eq_true_eq, beq_iff_eq,
    UInt32.le_iff_toNat_le, ge_iff_le] at h
  change ((((65 ≤ c.toNat ∧ c.toNat ≤ 90) ∨ (97 ≤ c.toNat ∧ c.toNat ≤ 122)) ∨
    (48 ≤ c.toNat ∧ c.toNat ≤ 57)) ∨ c = '-') ∨ c = '_' at h
  rcases h with ((h | h) | rfl) | rfl
  · omega
  · omega
  · decide
  · decide

theorem wordChar_segmentByte : ∀ n < 128, isWordChar (Char.ofNat n) = true →
    UInt8.ofNat n < 0x7F ∧ UrlSegment.isSegmentByte (UInt8.ofNat n) = true := by
  decide

/-- Letters, digits, dashes and underscores are one byte each, which every segment keeps. -/
theorem utf8EncodeChar_wordChar {c : Char} (h : isWordChar c = true) :
    String.utf8EncodeChar c = [UInt8.ofNat c.toNat] ∧
      UrlSegment.isSegmentByte (UInt8.ofNat c.toNat) = true ∧
      Char.ofNat (UInt8.ofNat c.toNat).toNat = c := by
  have hlt := wordChar_lt h
  have hback : Char.ofNat (UInt8.ofNat c.toNat).toNat = c := by
    rw [UInt8.toNat_ofNat', Nat.mod_eq_of_lt (by omega), Char.ofNat_toNat]
  obtain ⟨hascii, hsegment⟩ := wordChar_segmentByte c.toNat hlt (by rwa [Char.ofNat_toNat])
  have hencoded := UrlSegment.utf8EncodeChar_ascii hascii
  rw [hback] at hencoded
  exact ⟨hencoded, hsegment, hback⟩

/-- An interaction identifier is its own segment. -/
theorem encode_interactionId {id : String} (h : interactionId id = true) :
    UrlSegment.encode id = id := by
  have hword : ∀ c ∈ id.toList, isWordChar c = true := by
    rw [interactionId, Bool.and_eq_true] at h
    exact List.all_eq_true.mp h.2
  have hbytes : bytes id = id.toList.map fun c => UInt8.ofNat c.toNat := by
    conv_lhs => rw [← String.ofList_toList (s := id), bytes_ofList]
    rw [← List.flatMap_singleton' (id.toList.map _), List.flatMap_map]
    exact List.flatMap_congr fun c hc => (utf8EncodeChar_wordChar (hword c hc)).1
  have hkept : UrlSegment.encodeBytes (bytes id) = bytes id := by
    rw [hbytes, UrlSegment.encodeBytes, List.flatMap_map]
    conv_rhs => rw [← List.flatMap_singleton' (id.toList.map _), List.flatMap_map]
    refine List.flatMap_congr fun c hc => ?_
    rw [UrlSegment.encodeByte, if_pos (utf8EncodeChar_wordChar (hword c hc)).2.1]
  rw [UrlSegment.encode, hkept, hbytes, List.map_map]
  refine (congrArg String.ofList ?_).trans String.ofList_toList
  conv_rhs => rw [← List.map_id id.toList]
  exact List.map_congr_left fun c hc => (utf8EncodeChar_wordChar (hword c hc)).2.2

theorem isPathSegment_of_isPlainSegment {segment : List Char} (h : isPlainSegment segment = true) :
    IsPathSegment segment := by
  simp only [isPlainSegment, Bool.and_eq_true, bne_iff_ne, ne_eq, List.all_eq_true,
    Bool.or_eq_true, beq_iff_eq] at h
  obtain ⟨⟨⟨hne, hdot⟩, hdots⟩, hchars⟩ := h
  exact ⟨hne, hdot, hdots, hchars⟩

theorem IsPathSegment.no_slash {segment : List Char} (h : IsPathSegment segment) :
    '/' ∉ segment := by
  intro hslash
  have hkept := h.chars '/' hslash
  exact absurd hkept (by decide)

theorem isPathSegment_of_plainSegments {name : String} (h : plainSegments name = true) :
    ∀ segment ∈ name.toList.splitOn '/', IsPathSegment segment :=
  fun segment hsegment => isPathSegment_of_isPlainSegment (List.all_eq_true.mp h segment hsegment)

/-- An operation below the binding's own prefix keeps two of the name's segments. -/
theorem vertexOperationUnderBinding_shown {name path : String} (hplain : plainSegments name = true)
    (h : vertexOperationUnderBinding name = some path) :
    ∀ segment ∈ path.toList.splitOn '/', IsPathSegment segment := by
  unfold vertexOperationUnderBinding at h
  split at h
  · rename_i projects _ locations _ publishers google models model operations id hname
    split at h
    · obtain rfl := Option.some.inj h
      have hkept : ∀ text ∈ [model, id], IsPathSegment text.toList := by
        intro text htext
        have hmem : text ∈ (segments name).map String.ofList := by
          rw [hname]
          simp only [List.mem_cons, List.not_mem_nil, or_false] at htext
          rcases htext with rfl | rfl <;> simp
        obtain ⟨segment, hsegment, rfl⟩ := List.mem_map.mp hmem
        rw [String.toList_ofList]
        exact isPathSegment_of_plainSegments hplain segment hsegment
      have hfixed : ∀ text ∈ ["publishers", "google", "models", "operations"],
          IsPathSegment text.toList := by
        intro text htext
        refine isPathSegment_of_isPlainSegment ?_
        simp only [List.mem_cons, List.not_mem_nil, or_false] at htext
        rcases htext with rfl | rfl | rfl | rfl <;> decide
      have hall : ∀ segment ∈ ["publishers".toList, "google".toList, "models".toList, model.toList,
          "operations".toList, id.toList], IsPathSegment segment := by
        simp only [List.forall_mem_cons] at hkept hfixed ⊢
        exact ⟨hfixed.1, hfixed.2.1, hfixed.2.2.1, hkept.1, hfixed.2.2.2.1, hkept.2.1,
          fun _ hnil => absurd hnil List.not_mem_nil⟩
      have hpath : ("publishers/google/models/" ++ model ++ "/operations/" ++ id).toList =
          ['/'].intercalate ["publishers".toList, "google".toList, "models".toList, model.toList,
            "operations".toList, id.toList] := by
        simp [List.intercalate_cons_cons]
      rw [hpath, List.splitOn_intercalate '/' (fun segment hsegment => (hall segment hsegment).no_slash)
        (List.cons_ne_nil _ _)]
      exact hall
    · cases h
  · cases h

/-! ## Kling -/

namespace Kling

variable {P O : Type} {fromStr : String → Option Value}
  {prepare : TaskConfig → Value → String → Except ErrorEnvelope P}
  {config : TaskConfig} {request : Value} {prepared : PreparedTaskV2 P}
  {parts : HttpResponseParts} {id : String} {locator : TaskLocatorV2} {poll : ObserveRequest}

theorem routeOf_mem {operation route : String} (h : routeOf request operation = .ok route) :
    route ∈ [text, image, omni, motion] := by
  unfold routeOf at h
  split at h
  · split at h <;> obtain rfl := Except.ok.inj h <;> simp
  · split at h
    · obtain rfl := Except.ok.inj h
      simp
    · split at h
      · obtain rfl := Except.ok.inj h
        simp
      · cases h

theorem route_of_submit (h : buildSubmitRequest prepare config request = .ok prepared) :
    prepared.locator.route ∈ [text, image, omni, motion] := by
  simp only [buildSubmitRequest, bind_eq_ok, pure_eq_ok] at h
  obtain ⟨_, -, operation, -, route, hroute, _, -, rfl⟩ := h
  exact routeOf_mem hroute

theorem validId_of_accepted
    (h : parseSubmitResponse (O := O) fromStr parts = .accepted id) : validId id = true := by
  unfold parseSubmitResponse at h
  split at h
  · cases h
  · split at h
    · cases h
    · rename_i body _
      dsimp only at h
      split at h
      · rename_i found hfound
        obtain rfl := SubmitOutcomeV2.accepted.inj h
        rcases Option.or_eq_some_iff.mp hfound with hfound | ⟨-, hfound⟩
        · exact (Option.filter_eq_some_iff.mp hfound).2
        · exact (Option.filter_eq_some_iff.mp hfound).2
      · cases h

theorem buildObserveRequest_eq_ok :
    buildObserveRequest config id locator = .ok poll ↔
      locator.route ∈ [text, image, omni, motion] ∧ validId id = true ∧ hasSlash id = false ∧
        poll = ⟨underBase config locator.route ++ "/" ++ encodeSegment id, bearer config⟩ := by
  simp only [buildObserveRequest, andThen_eq_ok, refuse_eq_ok, pure_eq_ok, not_not, not_or,
    Bool.not_eq_false, Bool.not_eq_true, and_assoc]
  rw [eq_comm (a := poll)]

end Kling

/-! ## Bailian and BytePlus -/

namespace Bailian

variable {P O : Type} {fromStr : String → Option Value}
  {prepare : TaskConfig → Value → String → Except ErrorEnvelope P}
  {config : TaskConfig} {request : Value} {prepared : PreparedTaskV2 P}
  {parts : HttpResponseParts} {id : String} {locator : TaskLocatorV2} {poll : ObserveRequest}

theorem route_of_submit (h : buildSubmitRequest prepare config request = .ok prepared) :
    prepared.locator.route = query := by
  simp only [buildSubmitRequest, bind_eq_ok, pure_eq_ok] at h
  obtain ⟨_, -, _, -, rfl⟩ := h
  rfl

theorem identifier_of_accepted
    (h : parseSubmitResponse (O := O) fromStr parts = .accepted id) : identifier id = true := by
  unfold parseSubmitResponse at h
  split at h
  · cases h
  · split at h
    · cases h
    · split at h
      · cases h
      · dsimp only at h
        split at h
        · cases h
        · cases h
        · rename_i found _ hfound
          obtain rfl := SubmitOutcomeV2.accepted.inj h
          exact (Option.filter_eq_some_iff.mp hfound).2
        · cases h

theorem buildObserveRequest_eq_ok :
    buildObserveRequest config id locator = .ok poll ↔
      locator.route = query ∧ identifier id = true ∧ hasSlash id = false ∧
        poll = ⟨underBase config (query ++ "/" ++ encodeSegment id), bearer config⟩ := by
  simp only [buildObserveRequest, andThen_eq_ok, refuse_eq_ok, pure_eq_ok, not_not, not_or,
    Bool.not_eq_false, Bool.not_eq_true, and_assoc, ne_eq]
  rw [eq_comm (a := poll)]

end Bailian

namespace BytePlus

variable {P O : Type} {fromStr : String → Option Value}
  {prepare : TaskConfig → Value → String → Except ErrorEnvelope P}
  {config : TaskConfig} {request : Value} {prepared : PreparedTaskV2 P}
  {parts : HttpResponseParts} {id : String} {locator : TaskLocatorV2} {poll : ObserveRequest}

theorem route_of_submit (h : buildSubmitRequest prepare config request = .ok prepared) :
    prepared.locator.route = tasks := by
  simp only [buildSubmitRequest, bind_eq_ok, pure_eq_ok] at h
  obtain ⟨_, -, _, -, rfl⟩ := h
  rfl

theorem identifier_of_accepted
    (h : parseSubmitResponse (O := O) fromStr parts = .accepted id) : identifier id = true := by
  unfold parseSubmitResponse at h
  split at h
  · cases h
  · split at h
    · cases h
    · split at h
      · cases h
      · split at h
        · rename_i found hfound
          obtain rfl := SubmitOutcomeV2.accepted.inj h
          exact (Option.filter_eq_some_iff.mp hfound).2
        · cases h

theorem buildObserveRequest_eq_ok :
    buildObserveRequest config id locator = .ok poll ↔
      locator.route = tasks ∧ identifier id = true ∧ hasSlash id = false ∧
        poll = ⟨underBase config (tasks ++ "/" ++ encodeSegment id), bearer config⟩ := by
  simp only [buildObserveRequest, andThen_eq_ok, refuse_eq_ok, pure_eq_ok, not_not, not_or,
    Bool.not_eq_false, Bool.not_eq_true, and_assoc, ne_eq]
  rw [eq_comm (a := poll)]

end BytePlus

/-! ## MiniMax -/

namespace MiniMax

variable {P O : Type} {fromStr : String → Option Value}
  {prepare : TaskConfig → Value → String → Except ErrorEnvelope P}
  {config : TaskConfig} {request : Value} {prepared : PreparedTaskV2 P}
  {parts : HttpResponseParts} {id : String} {locator : TaskLocatorV2} {poll : ObserveRequest}

theorem route_of_submit (h : buildSubmitRequest prepare config request = .ok prepared) :
    (prepared.locator.route = queryV2 ∨ prepared.locator.route = query) ∧
      ∃ path url, requestUrl config path none = .ok url := by
  simp only [buildSubmitRequest, bind_eq_ok, pure_eq_ok] at h
  obtain ⟨_, -, shape, -, ⟨route, path⟩, hroute, _, -, url, hurl, rfl⟩ := h
  refine ⟨?_, path, url, hurl⟩
  unfold routeOf at hroute
  split at hroute
  · obtain ⟨rfl, -⟩ := Prod.mk.inj (Except.ok.inj hroute)
    exact .inl rfl
  · split at hroute
    · obtain ⟨rfl, -⟩ := Prod.mk.inj (Except.ok.inj hroute)
      exact .inr rfl
    · cases hroute

theorem miniMaxIdentifier_of_accepted
    (h : parseSubmitResponse (O := O) fromStr parts = .accepted id) :
    id ≠ "" ∧ isDot id = false ∧ (bytes id).length ≤ maxArtifactRefBytes ∧
      hasControl id = false := by
  unfold parseSubmitResponse at h
  split at h
  · cases h
  · split at h
    · cases h
    · rename_i value _
      dsimp only at h
      split at h
      · cases h
      · split at h
        · rename_i found hfound
          split at h
          · obtain rfl := SubmitOutcomeV2.accepted.inj h
            obtain ⟨entry, -, hentry⟩ := Option.bind_eq_some_iff.mp hfound
            have hgrammar := (Option.filter_eq_some_iff.mp hentry).2
            simp only [Bool.and_eq_true, bne_iff_ne, ne_eq, Bool.not_eq_true',
              decide_eq_true_eq] at hgrammar
            exact ⟨hgrammar.1.1.1.1, hgrammar.1.1.1.2, hgrammar.1.2, hgrammar.2⟩
          · cases h
        · split at h <;> cases h

/-- A configured group is one parameter. -/
theorem groupParameter_ok {parameters : List (QueryParameterV1 × String)}
    (h : groupParameter config = .ok parameters) :
    parameters = [] ∨ ∃ group, parameters = [(.groupId, group)] := by
  unfold groupParameter at h
  split at h
  · exact .inl (Except.ok.inj h).symm
  · split at h
    · cases h
    · split at h
      · exact .inl (Except.ok.inj h).symm
      · exact .inr ⟨_, (Except.ok.inj h).symm⟩

theorem queryString_single {name : QueryParameterV1} {value declared : String}
    (h : queryString [(name, value)] = some declared) : QueryParameterV1.accepts value = true := by
  unfold queryString at h
  split at h
  · cases h
  · rename_i hvalid
    simp only [List.any_cons, List.any_nil, Bool.or_false, not_or, Bool.not_eq_true',
      Bool.not_eq_false] at hvalid
    exact hvalid.2.1

theorem length_of_accepts {value : String} (h : QueryParameterV1.accepts value = true) :
    value.utf8ByteSize ≤ maxQueryValueBytes := by
  simp only [QueryParameterV1.accepts, Bool.and_eq_true, decide_eq_true_eq, length_bytes] at h
  exact h.1.2

/-- One declared identifier fits a query. -/
theorem queryString_task (h : QueryParameterV1.accepts id = true) :
    queryString [(.taskId, id)] = some ("task_id=" ++ id) := by
  have hlength := length_of_accepts h
  have hdeclared : (QueryParameterV1.all.filterMap fun name =>
      (lookup name [(QueryParameterV1.taskId, id)]).map fun value =>
        name.wireName ++ "=" ++ value) = ["task_id=" ++ id] := by
    simp [QueryParameterV1.all, lookup, QueryParameterV1.wireName]
  unfold queryString
  rw [if_neg (by simp [h]), hdeclared]
  dsimp only
  rw [String.intercalate_singleton]
  refine if_pos ?_
  have hname : "task_id=".utf8ByteSize = 8 := by decide
  rw [length_bytes, String.utf8ByteSize_append, hname]
  unfold maxQueryValueBytes at hlength
  unfold maxQueryTotalBytes
  omega

/-- An identifier beside a group fits a query. -/
theorem queryString_task_group {group : String} (h : QueryParameterV1.accepts id = true)
    (hgroup : QueryParameterV1.accepts group = true) :
    queryString [(.taskId, id), (.groupId, group)] =
      some ("GroupId=" ++ group ++ "&" ++ ("task_id=" ++ id)) := by
  have hlength := length_of_accepts h
  have hgroupLength := length_of_accepts hgroup
  have hdeclared : (QueryParameterV1.all.filterMap fun name =>
      (lookup name [(QueryParameterV1.taskId, id), (.groupId, group)]).map fun value =>
        name.wireName ++ "=" ++ value) = ["GroupId=" ++ group, "task_id=" ++ id] := by
    simp [QueryParameterV1.all, lookup, QueryParameterV1.wireName]
  unfold queryString
  rw [if_neg (by simp [h, hgroup]), hdeclared]
  dsimp only
  rw [String.intercalate_cons_cons, String.intercalate_singleton]
  refine if_pos ?_
  have hname : "task_id=".utf8ByteSize = 8 := by decide
  have hgroupName : "GroupId=".utf8ByteSize = 8 := by decide
  have hjoin : "&".utf8ByteSize = 1 := by decide
  simp only [length_bytes, String.utf8ByteSize_append, hname, hgroupName, hjoin]
  unfold maxQueryValueBytes at hlength hgroupLength
  unfold maxQueryTotalBytes
  omega

theorem requestUrl_nil (hgroup : groupParameter config = .ok []) (path : String) :
    requestUrl config path none = .ok (underBase config path) := by
  unfold requestUrl
  rw [hgroup]
  rfl

theorem requestUrl_cons {first : QueryParameterV1 × String}
    {group rest : List (QueryParameterV1 × String)}
    {parameter : Option (QueryParameterV1 × String)} (hgroup : groupParameter config = .ok group)
    (hall : parameter.toList ++ group = first :: rest) (path : String) :
    requestUrl config path parameter =
      match queryString (first :: rest) with
      | some declared => .ok (underBase config path ++ "?" ++ declared)
      | none => .error (invalid "invalid MiniMax query declaration") := by
  unfold requestUrl
  rw [hgroup]
  simp only [Except.bind, bind, hall]
  rfl

theorem requestUrl_declared {first : QueryParameterV1 × String}
    {group rest : List (QueryParameterV1 × String)}
    {parameter : Option (QueryParameterV1 × String)} {declared : String}
    (hgroup : groupParameter config = .ok group)
    (hall : parameter.toList ++ group = first :: rest)
    (hdeclared : queryString (first :: rest) = some declared) (path : String) :
    requestUrl config path parameter = .ok (underBase config path ++ ("?" ++ declared)) := by
  rw [requestUrl_cons hgroup hall, hdeclared, ← String.append_assoc]

/-- What a submitted configuration says about its group. -/
theorem group_of_requestUrl {path url : String} (h : requestUrl config path none = .ok url) :
    groupParameter config = .ok [] ∨
      ∃ group declared, groupParameter config = .ok [(.groupId, group)] ∧
        queryString [(.groupId, group)] = some declared := by
  have hunfolded := h
  unfold requestUrl at hunfolded
  obtain ⟨parameters, hgroup, -⟩ := bind_eq_ok.mp hunfolded
  rcases groupParameter_ok hgroup with rfl | ⟨group, rfl⟩
  · exact .inl hgroup
  · rw [requestUrl_cons hgroup rfl] at h
    split at h
    · rename_i declared hdeclared
      exact .inr ⟨group, declared, hgroup, hdeclared⟩
    · cases h

/-- A group that one address carries is carried by all. -/
theorem requestUrl_group {path url : String} (h : requestUrl config path none = .ok url)
    (other : String) :
    ∃ query, IsQuery query ∧
      requestUrl config other none = .ok (underBase config other ++ query) := by
  rcases group_of_requestUrl h with hgroup | ⟨group, declared, hgroup, hdeclared⟩
  · refine ⟨"", .inl rfl, ?_⟩
    rw [requestUrl_nil hgroup, String.append_empty]
  · exact ⟨_, .inr ⟨declared, rfl⟩, requestUrl_declared hgroup rfl hdeclared other⟩

/-- Beside the group, a query carries every identifier of its grammar. -/
theorem requestUrl_task {path url : String} (h : requestUrl config path none = .ok url)
    (hid : QueryParameterV1.accepts id = true) (other : String) :
    ∃ query, IsQuery query ∧
      requestUrl config other (some (.taskId, id)) = .ok (underBase config other ++ query) := by
  rcases group_of_requestUrl h with hgroup | ⟨group, declared, hgroup, hdeclared⟩
  · exact ⟨_, .inr ⟨_, rfl⟩, requestUrl_declared hgroup rfl (queryString_task hid) other⟩
  · have hboth := queryString_task_group hid (queryString_single hdeclared)
    exact ⟨_, .inr ⟨_, rfl⟩, requestUrl_declared hgroup rfl hboth other⟩

/-- Under the second API an identifier is a segment. -/
theorem buildObserveRequest_segment (hroute : locator.route = queryV2) :
    buildObserveRequest config id locator = .ok poll ↔
      ¬(id = "" ∨ isDot id = true ∨ maxArtifactRefBytes < (bytes id).length ∨
        hasControl id = true ∨ hasSlash id = true) ∧
      ∃ url, requestUrl config (queryV2 ++ "/" ++ encodeSegment id) none = .ok url ∧
        poll = ⟨url, bearer config⟩ := by
  unfold buildObserveRequest
  rw [if_pos hroute, andThen_eq_ok, refuse_eq_ok, bind_eq_ok]
  refine and_congr_right fun _ => exists_congr fun url => and_congr_right fun _ => ?_
  rw [pure_eq_ok, eq_comm]

/-- Under the first API an identifier is a query parameter. -/
theorem buildObserveRequest_parameter (hroute : locator.route = query) :
    buildObserveRequest config id locator = .ok poll ↔
      QueryParameterV1.accepts id = true ∧
      ∃ url, requestUrl config query (some (.taskId, id)) = .ok url ∧
        poll = ⟨url, bearer config⟩ := by
  have hdeclared : ¬(queryString [(.taskId, id)]).isNone = true ↔
      QueryParameterV1.accepts id = true := by
    constructor
    · intro h
      rw [Option.isNone_iff_eq_none, ← ne_eq, Option.ne_none_iff_exists'] at h
      obtain ⟨declared, hdeclared⟩ := h
      exact queryString_single hdeclared
    · intro h
      rw [queryString_task h]
      exact Bool.false_ne_true
  unfold buildObserveRequest
  rw [if_neg (by rw [hroute]; decide), if_pos hroute, andThen_eq_ok, refuse_eq_ok, hdeclared,
    bind_eq_ok]
  refine and_congr_right fun _ => exists_congr fun url => and_congr_right fun _ => ?_
  rw [pure_eq_ok, eq_comm]

end MiniMax

/-! ## Veo and Gemini Omni -/

namespace Veo

variable {P O : Type} {fromStr : String → Option Value}
  {prepare : TaskConfig → Value → String → Except ErrorEnvelope P}
  {config : TaskConfig} {request : Value} {prepared : PreparedTaskV2 P}
  {parts : HttpResponseParts} {id : String} {locator : TaskLocatorV2} {poll : ObserveRequest}

theorem family_of_submit (h : buildSubmitRequest prepare config request = .ok prepared) :
    ∃ family, Family.of config = .ok family ∧ prepared.locator.route = family.route := by
  simp only [buildSubmitRequest, bind_eq_ok, pure_eq_ok] at h
  obtain ⟨family, hfamily, _, -, _, -, rfl⟩ := h
  exact ⟨family, hfamily, rfl⟩

theorem operationName_of_accepted {terminal : Value → Option O}
    (h : parseSubmitResponse fromStr terminal parts = .accepted id) :
    (geminiOperationName id || vertexOperationName id) = true := by
  unfold parseSubmitResponse at h
  split at h
  · cases h
  · split at h
    · cases h
    · split at h
      · cases h
      · split at h
        · split at h
          · rename_i hname
            obtain rfl := SubmitOutcomeV2.accepted.inj h
            exact hname
          · cases h
        · split at h <;> cases h

theorem buildObserveRequest_eq_ok {family : Family} (hfamily : Family.of config = .ok family) :
    buildObserveRequest config id locator = .ok poll ↔
      locator.route = family.route ∧ family.polls id = true ∧
        poll = ⟨observeUrl config family id, family.auth config⟩ := by
  unfold buildObserveRequest
  rw [hfamily]
  change (refuse _ _ >>= fun _ => refuse _ _ >>= fun _ => pure _) = _ ↔ _
  simp only [andThen_eq_ok, refuse_eq_ok, pure_eq_ok, ne_eq, not_not, Bool.not_eq_false]
  rw [eq_comm (a := poll)]

/-- The two grammars of operation names part at the leading `projects/`. -/
theorem polls_iff {family : Family} (h : (geminiOperationName id || vertexOperationName id) = true) :
    family.polls id = true ↔ hasPrefix "projects/" id = (family == .vertex) := by
  rw [Bool.or_eq_true] at h
  have hgemini : geminiOperationName id = true → hasPrefix "projects/" id = false := by
    intro hname
    simp only [geminiOperationName, Bool.and_eq_true, Bool.not_eq_true'] at hname
    exact hname.1.1.2
  have hvertex : vertexOperationName id = true → hasPrefix "projects/" id = true := by
    intro hname
    simp only [vertexOperationName, Bool.and_eq_true] at hname
    exact hname.1.2
  cases family with
  | gemini =>
      change geminiOperationName id = true ↔ hasPrefix "projects/" id = false
      refine ⟨hgemini, fun hlead => h.resolve_right fun hname => ?_⟩
      rw [hvertex hname] at hlead
      cases hlead
  | vertex =>
      change vertexOperationName id = true ↔ hasPrefix "projects/" id = true
      refine ⟨hvertex, fun hlead => h.resolve_left fun hname => ?_⟩
      rw [hgemini hname] at hlead
      cases hlead

theorem plainSegments_of_operationName
    (h : (geminiOperationName id || vertexOperationName id) = true) : plainSegments id = true := by
  simp only [geminiOperationName, vertexOperationName, Bool.or_eq_true, Bool.and_eq_true] at h
  rcases h with h | h
  · exact h.2
  · exact h.2

end Veo

namespace GeminiOmni

variable {P O : Type} {fromStr : String → Option Value}
  {prepare : TaskConfig → Value → String → Except ErrorEnvelope P}
  {config : TaskConfig} {request : Value} {prepared : PreparedTaskV2 P}
  {parts : HttpResponseParts} {id : String} {locator : TaskLocatorV2} {poll : ObserveRequest}

theorem family_of_submit (h : buildSubmitRequest prepare config request = .ok prepared) :
    ∃ family, Family.of config = .ok family ∧ prepared.locator.route = family.route := by
  simp only [buildSubmitRequest, bind_eq_ok, pure_eq_ok] at h
  obtain ⟨family, hfamily, _, -, _, -, rfl⟩ := h
  exact ⟨family, hfamily, rfl⟩

theorem interactionId_of_accepted {errorMessage : String → Option String}
    {settled : Value → Option O}
    (h : parseSubmitResponse fromStr errorMessage settled parts = .accepted id) :
    interactionId id = true := by
  unfold parseSubmitResponse at h
  split at h
  · cases h
  · split at h
    · cases h
    · split at h
      · cases h
      · dsimp only at h
        split at h
        · cases h
        · rename_i hfound
          obtain rfl := SubmitOutcomeV2.accepted.inj h
          exact (Option.filter_eq_some_iff.mp hfound).2
        · cases h

theorem buildObserveRequest_eq_ok {family : Family} (hfamily : Family.of config = .ok family) :
    buildObserveRequest config id locator = .ok poll ↔
      locator.route = family.route ∧ interactionId id = true ∧
        poll = ⟨underBase config (family.route ++ "/" ++ UrlSegment.encode id),
          family.auth config⟩ := by
  unfold buildObserveRequest
  rw [hfamily]
  change (refuse _ _ >>= fun _ => refuse _ _ >>= fun _ => pure _) = _ ↔ _
  simp only [andThen_eq_ok, refuse_eq_ok, pure_eq_ok, ne_eq, not_not, Bool.not_eq_false]
  rw [eq_comm (a := poll)]

end GeminiOmni

/-! ## Asking after an accepted task -/

namespace VideoComponent

variable {P O : Type} {reading : AnswerReading O}
  {prepare : TaskConfig → Value → String → Except ErrorEnvelope P}
  {config : TaskConfig} {request : Value} {prepared : PreparedTaskV2 P}
  {parts : HttpResponseParts} {id : String} {locator : TaskLocatorV2}
  {component : VideoComponent}

/-- A component that knows one poll for each identifier it polls. -/
theorem Asked.of_eq_ok (auth : Option TaskAuth) {query : String} (hquery : IsQuery query)
    (hbuild : ∀ poll, component.buildObserveRequest config id locator = .ok poll ↔
      component.Polls config locator id ∧
        poll = ⟨component.pollBase config id ++ "/" ++
          (component.pollRoute config locator id ++ component.idPath config locator id) ++ query,
          auth⟩)
    (hshown : ShowsOnly (component.idPath config locator id) component) :
    component.Asked config locator id := by
  refine ⟨?_, ?_, hshown⟩
  · constructor
    · rintro ⟨poll, hpoll⟩
      exact ((hbuild poll).mp hpoll).1
    · intro hpolls
      exact ⟨_, (hbuild _).mpr ⟨hpolls, rfl⟩⟩
  · intro poll hpoll
    exact ⟨query, hquery, by rw [((hbuild poll).mp hpoll).2]⟩

theorem showsOnly_encodeSegment (hcomponent : component ≠ .veo) :
    ShowsOnly (encodeSegment id) component := by
  cases component with
  | veo => exact absurd rfl hcomponent
  | _ => exact fun c hc => encodeSegment_shown hc

theorem kling_asked
    (hsubmit : Kling.buildSubmitRequest prepare config request = .ok prepared)
    (haccepted : Kling.parseSubmitResponse (O := O) reading.fromStr parts = .accepted id) :
    Asked config prepared.locator id .kling := by
  have hroute := Kling.route_of_submit hsubmit
  have hid := Kling.validId_of_accepted haccepted
  refine Asked.of_eq_ok (bearer config) (.inl rfl) (fun poll => ?_)
    (showsOnly_encodeSegment (by decide))
  change Kling.buildObserveRequest config id prepared.locator = .ok poll ↔
    hasSlash id = false ∧ poll = ⟨trimEndSlashes config.baseUrl ++ "/" ++
      (prepared.locator.route ++ "/" ++ encodeSegment id) ++ "", bearer config⟩
  rw [Kling.buildObserveRequest_eq_ok]
  simp only [hroute, hid, true_and, underBase, String.append_empty, String.append_assoc]

theorem bailian_asked
    (hsubmit : Bailian.buildSubmitRequest prepare config request = .ok prepared)
    (haccepted : Bailian.parseSubmitResponse (O := O) reading.fromStr parts = .accepted id) :
    Asked config prepared.locator id .bailian := by
  have hroute := Bailian.route_of_submit hsubmit
  have hid := Bailian.identifier_of_accepted haccepted
  refine Asked.of_eq_ok (bearer config) (.inl rfl) (fun poll => ?_)
    (showsOnly_encodeSegment (by decide))
  change Bailian.buildObserveRequest config id prepared.locator = .ok poll ↔
    hasSlash id = false ∧ poll = ⟨trimEndSlashes config.baseUrl ++ "/" ++
      (prepared.locator.route ++ "/" ++ encodeSegment id) ++ "", bearer config⟩
  rw [Bailian.buildObserveRequest_eq_ok]
  simp only [hroute, hid, true_and, underBase, String.append_empty, String.append_assoc]

theorem bytePlus_asked
    (hsubmit : BytePlus.buildSubmitRequest prepare config request = .ok prepared)
    (haccepted : BytePlus.parseSubmitResponse (O := O) reading.fromStr parts = .accepted id) :
    Asked config prepared.locator id .bytePlus := by
  have hroute := BytePlus.route_of_submit hsubmit
  have hid := BytePlus.identifier_of_accepted haccepted
  refine Asked.of_eq_ok (bearer config) (.inl rfl) (fun poll => ?_)
    (showsOnly_encodeSegment (by decide))
  change BytePlus.buildObserveRequest config id prepared.locator = .ok poll ↔
    hasSlash id = false ∧ poll = ⟨trimEndSlashes config.baseUrl ++ "/" ++
      (prepared.locator.route ++ "/" ++ encodeSegment id) ++ "", bearer config⟩
  rw [BytePlus.buildObserveRequest_eq_ok]
  simp only [hroute, hid, true_and, underBase, String.append_empty, String.append_assoc]

/-- The API a task was submitted to decides whether its identifier is a segment or a
parameter. -/
theorem miniMax_asked
    (hsubmit : MiniMax.buildSubmitRequest prepare config request = .ok prepared)
    (haccepted : MiniMax.parseSubmitResponse (O := O) reading.fromStr parts = .accepted id) :
    Asked config prepared.locator id .miniMax := by
  obtain ⟨hroute, path, url, hurl⟩ := MiniMax.route_of_submit hsubmit
  obtain ⟨hne, hdot, hlength, hcontrol⟩ := MiniMax.miniMaxIdentifier_of_accepted haccepted
  rcases hroute with hroute | hroute
  · obtain ⟨query, hquery, htarget⟩ :=
      MiniMax.requestUrl_group hurl (MiniMax.queryV2 ++ "/" ++ encodeSegment id)
    refine Asked.of_eq_ok (bearer config) hquery (fun poll => ?_) ?_
    · simp only [Polls, pollBase, pollRoute, idPath, hroute, if_true]
      change MiniMax.buildObserveRequest config id prepared.locator = .ok poll ↔ _
      have hgrammar : ¬(id = "" ∨ isDot id = true ∨ maxArtifactRefBytes < (bytes id).length ∨
          hasControl id = true ∨ hasSlash id = true) ↔ hasSlash id = false := by
        simp [hne, hdot, hcontrol, Nat.not_lt.mpr hlength, -length_bytes]
      rw [MiniMax.buildObserveRequest_segment hroute, htarget, hgrammar]
      simp only [Except.ok.injEq, exists_eq_left', underBase, String.append_assoc]
    · simp only [idPath, hroute, if_true]
      exact showsOnly_encodeSegment (by decide)
  · have hsecond : ¬prepared.locator.route = MiniMax.queryV2 := by
      rw [hroute]
      decide
    by_cases hpolls : QueryParameterV1.accepts id = true
    · obtain ⟨query, hquery, htarget⟩ := MiniMax.requestUrl_task hurl hpolls MiniMax.query
      refine Asked.of_eq_ok (bearer config) hquery (fun poll => ?_) ?_
      · simp only [Polls, pollBase, pollRoute, idPath, if_neg hsecond]
        change MiniMax.buildObserveRequest config id prepared.locator = .ok poll ↔ _
        rw [MiniMax.buildObserveRequest_parameter hroute, htarget]
        simp [hpolls, underBase, String.append_assoc]
      · simp only [idPath, if_neg hsecond]
        intro c hc
        simp at hc
    · refine Asked.of_eq_ok none (.inl rfl) (fun poll => ?_) ?_
      · simp only [Polls, if_neg hsecond, hpolls]
        change MiniMax.buildObserveRequest config id prepared.locator = .ok poll ↔ _
        rw [MiniMax.buildObserveRequest_parameter hroute]
        exact ⟨fun h => absurd h.1 hpolls, fun h => by cases h.1⟩
      · simp only [idPath, if_neg hsecond]
        intro c hc
        simp at hc

theorem geminiOmni_asked
    (hsubmit : GeminiOmni.buildSubmitRequest prepare config request = .ok prepared)
    (haccepted : GeminiOmni.parseSubmitResponse reading.fromStr reading.errorMessage
      reading.settled parts = .accepted id) :
    Asked config prepared.locator id .geminiOmni := by
  obtain ⟨family, hfamily, hroute⟩ := GeminiOmni.family_of_submit hsubmit
  have hid := GeminiOmni.interactionId_of_accepted haccepted
  have hkept := encode_interactionId hid
  refine Asked.of_eq_ok (family.auth config) (.inl rfl) (fun poll => ?_) ?_
  · change GeminiOmni.buildObserveRequest config id prepared.locator = .ok poll ↔
      True ∧ poll = ⟨trimEndSlashes config.baseUrl ++ "/" ++
        (prepared.locator.route ++ "/" ++ UrlSegment.encode id) ++ "", family.auth config⟩
    rw [GeminiOmni.buildObserveRequest_eq_ok hfamily]
    simp only [hroute, hid, true_and, underBase, String.append_empty, String.append_assoc]
  · change ShowsOnly (UrlSegment.encode id) .geminiOmni
    rw [hkept]
    rw [interactionId, Bool.and_eq_true] at hid
    exact fun c hc => .inl (List.all_eq_true.mp hid.2 c hc)

theorem veo_asked
    (hsubmit : Veo.buildSubmitRequest prepare config request = .ok prepared)
    (haccepted : Veo.parseSubmitResponse reading.fromStr reading.terminal parts = .accepted id) :
    Asked config prepared.locator id .veo := by
  obtain ⟨family, hfamily, hroute⟩ := Veo.family_of_submit hsubmit
  have hname := Veo.operationName_of_accepted haccepted
  have hplain := Veo.plainSegments_of_operationName hname
  have hshown := isPathSegment_of_plainSegments hplain
  have hbuild : ∀ poll, Veo.buildObserveRequest config id prepared.locator = .ok poll ↔
      hasPrefix "projects/" id = (family == .vertex) ∧
        poll = ⟨Veo.observeUrl config family id, family.auth config⟩ := by
    intro poll
    rw [Veo.buildObserveRequest_eq_ok hfamily, Veo.polls_iff hname]
    simp only [hroute, true_and]
  unfold Veo.Family.of at hfamily
  split at hfamily
  · rename_i hprovider
    obtain rfl := Except.ok.inj hfamily
    have hother : ¬config.provider = "vertex-veo-video" := by
      rw [hprovider]
      decide
    refine Asked.of_eq_ok (Veo.Family.gemini.auth config) (.inl rfl) (fun poll => ?_) ?_
    · change Veo.buildObserveRequest config id prepared.locator = .ok poll ↔ _
      rw [hbuild]
      simp only [Polls, pollBase, pollRoute, idPath, hprovider, Veo.observeUrl, underBase,
        String.append_empty]
      exact Iff.rfl
    · simp only [idPath, if_neg hother]
      exact hshown
  · split at hfamily
    · rename_i hprovider
      obtain rfl := Except.ok.inj hfamily
      refine Asked.of_eq_ok (Veo.Family.vertex.auth config) (.inl rfl) (fun poll => ?_) ?_
      · change Veo.buildObserveRequest config id prepared.locator = .ok poll ↔ _
        rw [hbuild]
        simp only [Polls, pollBase, pollRoute, idPath, hprovider, if_true, true_and,
          Veo.observeUrl, underBase, String.append_empty]
        cases hunder : vertexOperationUnderBinding id with
        | none =>
            have hroot : "/v1/" = "/" ++ "v1/" := by decide
            simp only [hroot, if_true, Option.getD_none, String.append_assoc]
            exact Iff.rfl
        | some path =>
            simp only [reduceCtorEq, if_false, Option.getD_some, String.empty_append]
            exact Iff.rfl
      · simp only [idPath, if_pos hprovider]
        cases hunder : vertexOperationUnderBinding id with
        | none => exact hshown
        | some path => exact vertexOperationUnderBinding_shown hplain hunder
    · cases hfamily

end VideoComponent

/-- An accepted task is polled exactly when its identifier lies in the poll's grammar,
which each component states for itself; the poll's address is then a fixed route below
the endpoint, where the identifier shows nothing but unreserved characters, escapes and,
for Veo, the slashes between plain segments. -/
theorem accepted_is_polled {P O : Type} (component : VideoComponent) (reading : AnswerReading O)
    (prepare : TaskConfig → Value → String → Except ErrorEnvelope P) (config : TaskConfig)
    (request : Value) (prepared : PreparedTaskV2 P) (parts : HttpResponseParts) (id : String)
    (hsubmit : component.buildSubmitRequest prepare config request = .ok prepared)
    (haccepted : component.parseSubmitResponse reading parts = .accepted id) :
    component.Asked config prepared.locator id := by
  cases component with
  | kling => exact VideoComponent.kling_asked hsubmit haccepted
  | miniMax => exact VideoComponent.miniMax_asked hsubmit haccepted
  | bailian => exact VideoComponent.bailian_asked hsubmit haccepted
  | bytePlus => exact VideoComponent.bytePlus_asked hsubmit haccepted
  | veo => exact VideoComponent.veo_asked hsubmit haccepted
  | geminiOmni => exact VideoComponent.geminiOmni_asked hsubmit haccepted

def klingConfig : TaskConfig := ⟨"kling-video", "https://api.klingai.com/", some "key", []⟩

/-- `{"model":"kling-v1","operation":"text-or-image","prompt":"a cat"}` -/
def klingRequest : Value :=
  .obj [("model", .string "kling-v1"), ("operation", .string "text-or-image"),
    ("prompt", .string "a cat")]

def klingPrepared : PreparedTaskV2 Unit := ⟨⟨Kling.text⟩, ()⟩

/-- Reads one answer, `{"task_id":"…"}`. -/
def taskIdReading (id : String) : AnswerReading Unit where
  fromStr _ := some (.obj [("task_id", .string id)])
  terminal _ := none
  settled _ := none
  errorMessage _ := none

theorem kling_task_is_polled :
    VideoComponent.Asked klingConfig klingPrepared.locator "task-42" .kling :=
  accepted_is_polled .kling (taskIdReading "task-42") (fun _ _ _ => .ok ()) klingConfig
    klingRequest klingPrepared ⟨200, "\x7b\"task_id\":\"task-42\"\x7d"⟩ "task-42" (by rfl)
    (by rfl)

/-- An identifier with a slash is accepted, and refused when the task is asked after. -/
theorem slashed_id_is_not_polled :
    ∃ (config : TaskConfig) (request : Value) (prepared : PreparedTaskV2 Unit)
      (parts : HttpResponseParts) (id : String),
      VideoComponent.buildSubmitRequest (fun _ _ _ => .ok ()) config request .kling =
        .ok prepared ∧
      VideoComponent.parseSubmitResponse (taskIdReading "a/b") parts .kling = .accepted id ∧
      ∀ poll, VideoComponent.buildObserveRequest config id prepared.locator .kling ≠ .ok poll := by
  refine ⟨klingConfig, klingRequest, klingPrepared, ⟨200, "\x7b\"task_id\":\"a/b\"\x7d"⟩, "a/b",
    by rfl, by rfl, fun poll hpoll => ?_⟩
  have hslash := (Kling.buildObserveRequest_eq_ok.mp hpoll).2.2.1
  exact absurd hslash (by decide)

end TokenStation.Tasks
