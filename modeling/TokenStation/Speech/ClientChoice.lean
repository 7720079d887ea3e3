import TokenStation.Speech.Recognition

/-!
# What a transcription client chooses

The fields that say which model is asked and how its answer will be read are the
component's. Text parts of their names are written by it or removed; file parts of
the same names are forwarded, and that is where a client gets through.
-/

namespace TokenStation.Speech

open Library Library.Checked Library.Json Responses

/-! ## Parts of accepted requests -/

section Requests

variable {request parts : List MediaPartViewV1}

theorem requestParts_ok (h : requestParts request = .ok parts) :
    parts = request ∧ (∀ part ∈ parts, part.isElided = false) ∧
      ∀ part ∈ parts, part.streams = false := by
  simp only [requestParts, andThen_eq_ok, refuse_eq_ok, pure_eq_ok] at h
  obtain ⟨helided, -, hstreams, rfl⟩ := h
  simp only [List.any_eq_true, not_exists, not_and, Bool.not_eq_true] at helided hstreams
  exact ⟨rfl, helided, hstreams⟩

theorem openaiFormat_ok {format : String} (h : openaiFormat parts = .ok format) :
    format = (firstText parts "response_format").getD "json" := by
  unfold openaiFormat at h
  dsimp only at h
  split at h
  · cases h
    rfl
  · cases h

end Requests

/-! ## Rewritten lists -/

/-- An upstream part that asks for streaming. -/
def MediaPartV1.streams : MediaPartV1 → Bool
  | .text name value => name == "stream" && asksToStream value
  | .file _ _ _ _ => false

/-- Every upstream part of a name is one text. -/
def AllText (upstream : List MediaPartV1) (name value : String) : Prop :=
  ∀ part ∈ upstream, part.name = name → part = .text name value

/-- An upstream part is a client's, with at most its name changed. -/
inductive Forwards (renames : List (String × String)) : MediaPartViewV1 → MediaPartV1 → Prop where
  | text (name value : String) :
      Forwards renames (.text name (some value)) (.text (renamed renames name) value)
  | file (name : String) (blob : BlobIdV1) (filename mediaType : Option String) :
      Forwards renames (.file name blob filename mediaType) (.file name blob filename mediaType)

section Rewritten

variable {plan : PartPlan} {parts : List MediaPartViewV1}

theorem mem_unfilled {written : WrittenPart} (h : written ∈ plan.unfilled parts) :
    written ∈ plan.written := by
  obtain ⟨⟨found, index⟩, hmem, rfl⟩ := List.mem_map.mp h
  exact List.fst_mem_of_mem_zipIdx (List.mem_filter.mp hmem).1

theorem image_mem_rewriteParts {part : MediaPartViewV1} {image : MediaPartV1} (hpart : part ∈ parts)
    (himage : plan.image part = some image) : image ∈ rewriteParts parts plan := by
  rw [rewriteParts_eq]
  exact List.mem_append_left _ (List.mem_append_left _
    (List.mem_filterMap.mpr ⟨part, hpart, himage⟩))

/-- Where the written parts have a property, all upstream parts have it when those
that stand for the client's do. -/
theorem forall_rewriteParts {P : MediaPartV1 → Prop} (happended : plan.appended = [])
    (hwritten : ∀ written ∈ plan.written, P (.text written.upstream written.value)) :
    (∀ part ∈ rewriteParts parts plan, P part) ↔
      ∀ part ∈ parts, ∀ image, plan.image part = some image → P image := by
  rw [rewriteParts_eq, happended, List.map_nil, List.append_nil]
  constructor
  · intro h part hpart image himage
    exact h image (List.mem_append_left _ (List.mem_filterMap.mpr ⟨part, hpart, himage⟩))
  · intro h image himage
    rcases List.mem_append.mp himage with himage | himage
    · obtain ⟨part, hpart, himage⟩ := List.mem_filterMap.mp himage
      exact h part hpart image himage
    · obtain ⟨written, hmem, rfl⟩ := List.mem_map.mp himage
      exact hwritten written (mem_unfilled hmem)

/-- The parts outside the governed names are the client's other parts, in order. -/
theorem forall₂_others {renames : List (String × String)} {governed : MediaPartV1 → Bool}
    {other : MediaPartViewV1 → Bool} (happended : plan.appended = [])
    (hwritten : ∀ written ∈ plan.written, governed (.text written.upstream written.value) = true)
    (hother : ∀ part ∈ parts, other part = true →
      ∃ image, plan.image part = some image ∧ governed image = false ∧ Forwards renames part image)
    (hgoverned : ∀ part ∈ parts, other part = false →
      ∀ image, plan.image part = some image → governed image = true) :
    List.Forall₂ (Forwards renames) (parts.filter other)
      ((rewriteParts parts plan).filter fun part => !governed part) := by
  have htail : (((plan.unfilled parts).map fun written =>
      MediaPartV1.text written.upstream written.value).filter fun part => !governed part) = [] := by
    rw [List.filter_eq_nil_iff]
    intro part hpart
    obtain ⟨written, hmem, rfl⟩ := List.mem_map.mp hpart
    simp [hwritten written (mem_unfilled hmem)]
  rw [rewriteParts_eq, happended, List.map_nil, List.append_nil, List.filter_append, htail,
    List.append_nil]
  clear htail
  induction parts with
  | nil => exact .nil
  | cons part parts ih =>
      have hrest := ih (fun p hp => hother p (List.mem_cons_of_mem _ hp))
        fun p hp => hgoverned p (List.mem_cons_of_mem _ hp)
      cases hpart : other part with
      | true =>
          obtain ⟨image, himage, hkept, hforwards⟩ := hother part List.mem_cons_self hpart
          rw [List.filter_cons_of_pos hpart, List.filterMap_cons_some himage,
            List.filter_cons_of_pos (by simp [hkept])]
          exact .cons hforwards hrest
      | false =>
          rw [List.filter_cons_of_neg (by simp [hpart])]
          cases himage : plan.image part with
          | none => rwa [List.filterMap_cons_none himage]
          | some image =>
              rw [List.filterMap_cons_some himage, List.filter_cons_of_neg
                (by simp [hgoverned part List.mem_cons_self hpart image himage])]
              exact hrest

end Rewritten

/-! ## The OpenAI audio protocol -/

/-- A part of one of some names. -/
def named (names : List String) (name : String) : Bool := decide (name ∈ names)

def openaiGoverned : List String := ["model", "response_format"]

/-- What the component and not the client chooses. -/
structure OpenAiFaithful (protocol : OpenAiAsr) (parts : List MediaPartViewV1)
    (prepared : PreparedSpeechCallV1) : Prop where
  model : AllText prepared.descriptor.parts "model" protocol.upstreamModel
  dropped : protocol.dropsModel = true → ∀ part ∈ prepared.descriptor.parts, part.name ≠ "model"
  format : AllText prepared.descriptor.parts "response_format" (formatRead prepared.state)
  stream : ∀ part ∈ prepared.descriptor.parts, part.streams = false
  others : List.Forall₂ (Forwards [])
    (parts.filter fun part => !named openaiGoverned part.name)
    (prepared.descriptor.parts.filter fun part => !named openaiGoverned part.name)

/-- No file has the name of a governed field, and where the client's format is asked
for itself, every text part of it says the same. -/
structure OpenAiPlain (config : ProviderConfig) (protocol : OpenAiAsr)
    (parts : List MediaPartViewV1) : Prop where
  files : ∀ part ∈ parts, part.isFile = true → part.name ∉ openaiGoverned
  formats : ∀ format, openaiFormat parts = .ok format →
    (verboseRow config protocol.upstreamModel).map (asksVerbose · format) = .ok false →
      ∀ value, .text "response_format" value ∈ parts → value = some format

section OpenAi

variable {protocol : OpenAiAsr} {verbose : Bool} {parts : List MediaPartViewV1}

theorem openaiPlan_file (name : String) (blob : BlobIdV1) (filename mediaType : Option String) :
    (openaiPlan protocol verbose).image (.file name blob filename mediaType) =
      some (.file name blob filename mediaType) := rfl

/-- What stands for a client's text part. -/
theorem openaiPlan_text (name : String) (value : Option String) :
    (openaiPlan protocol verbose).image (.text name value) =
      if name = "model" then
        if protocol.dropsModel then none else some (.text "model" protocol.upstreamModel)
      else if name = "response_format" ∧ verbose = true then
        some (.text "response_format" "verbose_json")
      else some (.text name (value.getD "")) := by
  have hrenamed : renamed [] name = name := rfl
  unfold PartPlan.image PartPlan.writtenFor openaiPlan
  by_cases hmodel : name = "model"
  · subst hmodel
    cases protocol.dropsModel <;> rfl
  · have hmodel' : ("model" == name) = false := by simpa using Ne.symm hmodel
    by_cases hformat : name = "response_format"
    · subst hformat
      cases protocol.dropsModel <;> cases verbose <;> rfl
    · have hformat' : ("response_format" == name) = false := by simpa using Ne.symm hformat
      cases protocol.dropsModel <;> cases verbose <;>
        simp [MediaPartViewV1.name, hmodel, hmodel', hformat, hformat', hrenamed]

theorem openai_written {written : WrittenPart}
    (h : written ∈ (openaiPlan protocol verbose).written) :
    (written = ⟨"model", "model", protocol.upstreamModel⟩ ∧ protocol.dropsModel = false) ∨
      (written = ⟨"response_format", "response_format", "verbose_json"⟩ ∧ verbose = true) := by
  unfold openaiPlan at h
  cases hdrops : protocol.dropsModel <;> cases hverbose : verbose <;>
    simp_all

variable {grammar : DescriptorGrammar} {config : ProviderConfig} {request : List MediaPartViewV1}
  {context : SpeechCallContextV1} {prepared : PreparedSpeechCallV1}

theorem multipartDescriptor_parts {path : String} {query auth : Option Value}
    {parts : List MediaPartV1} {descriptor : MediaRequestDescriptorV1}
    (h : multipartDescriptor grammar path query auth parts = .ok descriptor) :
    descriptor.parts = parts := by
  simp only [multipartDescriptor, andThen_eq_ok, pure_eq_ok] at h
  obtain ⟨-, -, rfl⟩ := h
  rfl

/-- What an accepted call was prepared from. -/
theorem prepareOpenai_ok (h : prepareOpenai grammar config request context protocol = .ok prepared) :
    ∃ format row, requestParts request = .ok request ∧ openaiFormat request = .ok format ∧
      verboseRow config protocol.upstreamModel = .ok row ∧
      prepared.descriptor.parts =
        rewriteParts request (openaiPlan protocol (asksVerbose row format)) ∧
      formatRead prepared.state = if asksVerbose row format then "verbose_json" else format := by
  simp only [prepareOpenai, bind_eq_ok, pure_eq_ok] at h
  obtain ⟨forms, -, parts, hparts, format, hformat, row, hrow, descriptor, hdescriptor, rfl⟩ := h
  obtain rfl := (requestParts_ok hparts).1
  refine ⟨format, row, hparts, hformat, hrow, multipartDescriptor_parts hdescriptor, ?_⟩
  simp [formatRead, Value.field, lookup, Value.asBool]

/-- Every part of an accepted request is a text with its value, or a file. -/
theorem value_of_requestParts (h : requestParts request = .ok parts) {name : String}
    {value : Option String} (hpart : .text name value ∈ parts) : ∃ text, value = some text := by
  cases value with
  | some text => exact ⟨text, rfl⟩
  | none => cases (requestParts_ok h).2.1 _ hpart

/-- The upstream parts of a name are all one text when the images of the client's are. -/
theorem allText_iff {plan : PartPlan} (happended : plan.appended = []) {name value : String}
    (hwritten : ∀ written ∈ plan.written, written.upstream = name → written.value = value) :
    AllText (rewriteParts parts plan) name value ↔
      ∀ part ∈ parts, ∀ image, plan.image part = some image → image.name = name →
        image = .text name value := by
  refine forall_rewriteParts happended fun written hmem heq => ?_
  have hname : written.upstream = name := heq
  rw [hname, hwritten written hmem hname]

theorem openaiPlan_format (hverbose : verbose = false) (value : Option String) :
    (openaiPlan protocol verbose).image (.text "response_format" value) =
      some (.text "response_format" (value.getD "")) := by
  rw [openaiPlan_text, if_neg (by decide), if_neg (by simp [hverbose])]

theorem openai_model : ∀ written ∈ (openaiPlan protocol verbose).written,
    written.upstream = "model" → written.value = protocol.upstreamModel := by
  intro written hmem hname
  rcases openai_written hmem with ⟨rfl, -⟩ | ⟨rfl, -⟩
  · rfl
  · exact absurd hname (by decide)

theorem openai_dropped (hdrops : protocol.dropsModel = true) :
    ∀ written ∈ (openaiPlan protocol verbose).written, written.upstream ≠ "model" := by
  intro written hmem hname
  rcases openai_written hmem with ⟨rfl, hkeeps⟩ | ⟨rfl, -⟩
  · rw [hdrops] at hkeeps
    cases hkeeps
  · exact absurd hname (by decide)

theorem openai_format {format : String} : ∀ written ∈ (openaiPlan protocol verbose).written,
    written.upstream = "response_format" →
      written.value = if verbose then "verbose_json" else format := by
  intro written hmem hname
  rcases openai_written hmem with ⟨rfl, -⟩ | ⟨rfl, hverbose⟩
  · exact absurd hname (by decide : "model" ≠ "response_format")
  · rw [hverbose]
    rfl

theorem openai_streams : ∀ written ∈ (openaiPlan protocol verbose).written,
    (MediaPartV1.text written.upstream written.value).streams = false := by
  intro written hmem
  rcases openai_written hmem with ⟨rfl, -⟩ | ⟨rfl, -⟩ <;> rfl

theorem openai_governed : ∀ written ∈ (openaiPlan protocol verbose).written,
    named openaiGoverned (MediaPartV1.text written.upstream written.value).name = true := by
  intro written hmem
  rcases openai_written hmem with ⟨rfl, -⟩ | ⟨rfl, -⟩ <;> rfl

/-- The governed fields are the component's own exactly where no file has their names,
and no second text part of the format says otherwise. -/
theorem openaiFaithful_iff
    (h : prepareOpenai grammar config request context protocol = .ok prepared) :
    OpenAiFaithful protocol request prepared ↔ OpenAiPlain config protocol request := by
  obtain ⟨format, row, hrequest, hformat, hrow, hparts, hread⟩ := prepareOpenai_ok h
  constructor
  · intro hfaithful
    have himage {part : MediaPartViewV1} {image : MediaPartV1} (hpart : part ∈ request)
        (himage : (openaiPlan protocol (asksVerbose row format)).image part = some image) :
        image ∈ prepared.descriptor.parts := by
      rw [hparts]
      exact image_mem_rewriteParts hpart himage
    refine ⟨?_, ?_⟩
    · intro part hpart hfile hname
      cases part with
      | text name value => cases hfile
      | file name blob filename mediaType =>
          have hmem := himage hpart (openaiPlan_file name blob filename mediaType)
          rcases List.mem_cons.mp hname with hname | hname
          · cases hfaithful.model _ hmem hname
          · cases hfaithful.format _ hmem (List.mem_singleton.mp hname)
    · intro found hfound hverbose value hpart
      rw [hformat, Except.ok.injEq] at hfound
      subst hfound
      rw [hrow, Except.map, Except.ok.injEq] at hverbose
      obtain ⟨text, rfl⟩ := value_of_requestParts hrequest hpart
      have hmem := himage hpart (openaiPlan_format hverbose (some text))
      have htext := hfaithful.format _ hmem rfl
      rw [hread, hverbose] at htext
      cases htext
      rfl
  · intro hplain
    have hfile {name : String} {blob : BlobIdV1} {filename mediaType : Option String}
        (hpart : .file name blob filename mediaType ∈ request) : name ∉ openaiGoverned :=
      hplain.files (.file name blob filename mediaType) hpart rfl
    refine ⟨?_, ?_, ?_, ?_, ?_⟩
    · rw [hparts, allText_iff rfl openai_model]
      rintro (⟨name, value⟩ | ⟨name, blob, filename, mediaType⟩) hpart image himage hname
      · rw [openaiPlan_text] at himage
        split at himage
        · split at himage
          · cases himage
          · cases himage
            rfl
        · rename_i hne
          split at himage
          · cases himage
            exact absurd hname (by decide)
          · cases himage
            exact absurd hname hne
      · cases himage
        exact absurd (List.mem_cons.mpr (.inl hname)) (hfile hpart)
    · intro hdrops
      rw [hparts, forall_rewriteParts rfl (openai_dropped hdrops)]
      rintro (⟨name, value⟩ | ⟨name, blob, filename, mediaType⟩) hpart image himage
      · rw [openaiPlan_text, hdrops] at himage
        split at himage
        · cases himage
        · rename_i hne
          split at himage
          · cases himage
            exact (by decide : "response_format" ≠ "model")
          · cases himage
            exact hne
      · cases himage
        exact fun hname => hfile hpart (List.mem_cons.mpr (.inl hname))
    · rw [hparts, hread, allText_iff rfl openai_format]
      rintro (⟨name, value⟩ | ⟨name, blob, filename, mediaType⟩) hpart image himage hname
      · rw [openaiPlan_text] at himage
        split at himage
        · split at himage
          · cases himage
          · cases himage
            exact absurd hname (by decide : "model" ≠ "response_format")
        · split at himage
          · rename_i hverbose
            cases himage
            rw [if_pos hverbose.2]
          · rename_i hverbose
            cases himage
            obtain rfl : name = "response_format" := hname
            have hplainly : asksVerbose row format = false := by simpa using hverbose
            obtain rfl := hplain.formats format hformat (by rw [hrow, Except.map, hplainly])
              value hpart
            rw [hplainly]
            rfl
      · cases himage
        exact absurd (List.mem_cons.mpr (.inr (List.mem_singleton.mpr hname))) (hfile hpart)
    · rw [hparts, forall_rewriteParts rfl openai_streams]
      rintro (⟨name, value⟩ | ⟨name, blob, filename, mediaType⟩) hpart image himage
      · rw [openaiPlan_text] at himage
        split at himage
        · split at himage
          · cases himage
          · cases himage
            rfl
        · split at himage
          · cases himage
            rfl
          · cases himage
            obtain ⟨text, rfl⟩ := value_of_requestParts hrequest hpart
            exact (requestParts_ok hrequest).2.2 _ hpart
      · cases himage
        rfl
    · rw [hparts]
      refine forall₂_others rfl openai_governed ?_ ?_
      · rintro (⟨name, value⟩ | ⟨name, blob, filename, mediaType⟩) hpart hother
        · obtain ⟨text, rfl⟩ := value_of_requestParts hrequest hpart
          simp only [named, MediaPartViewV1.name, openaiGoverned, List.mem_cons,
            List.not_mem_nil, or_false, Bool.not_eq_true', decide_eq_false_iff_not, not_or] at hother
          refine ⟨_, ?_, ?_, .text name text⟩
          · rw [openaiPlan_text, if_neg hother.1, if_neg fun h => hother.2 h.1]
            rfl
          · exact Bool.eq_false_of_not_eq_true (by
              simpa [named, MediaPartV1.name, openaiGoverned, renamed] using hother)
        · refine ⟨_, openaiPlan_file name blob filename mediaType, ?_, .file _ _ _ _⟩
          exact Bool.not_eq_true' _ ▸ hother
      · rintro (⟨name, value⟩ | ⟨name, blob, filename, mediaType⟩) hpart hother image himage
        · rw [Bool.not_eq_false'] at hother
          rw [openaiPlan_text] at himage
          split at himage
          · split at himage
            · cases himage
            · cases himage
              rfl
          · split at himage
            · cases himage
              rfl
            · cases himage
              exact hother
        · cases himage
          exact Bool.not_eq_false' _ ▸ hother

end OpenAi

/-! ## ElevenLabs -/

def recognitionGoverned : List String := ["model_id", "timestamps_granularity"]

/-- The one rename of the component. -/
def recognitionRenames : List (String × String) := [("language", "language_code")]

/-- A client's text part that the component's model replaces. -/
def asksModel : MediaPartViewV1 → Bool
  | .text name _ => name == "model"
  | .file _ _ _ _ => false

/-- A part of the client's that is forwarded. -/
def recognitionOther (part : MediaPartViewV1) : Bool :=
  !(asksModel part || named recognitionGoverned part.name)

/-- What the component and not the client chooses. -/
structure RecognitionFaithful (upstreamModel : String) (parts : List MediaPartViewV1)
    (prepared : PreparedSpeechCallV1) : Prop where
  model : AllText prepared.descriptor.parts "model_id" upstreamModel
  granularity : AllText prepared.descriptor.parts "timestamps_granularity" "word"
  stream : ∀ part ∈ prepared.descriptor.parts, part.streams = false
  others : List.Forall₂ (Forwards recognitionRenames) (parts.filter recognitionOther)
    (prepared.descriptor.parts.filter fun part => !named recognitionGoverned part.name)

/-- No file has the name of a governed field, and every text part of the upstream's
model field already says the routed model. -/
structure RecognitionPlain (upstreamModel : String) (parts : List MediaPartViewV1) : Prop where
  files : ∀ part ∈ parts, part.isFile = true → part.name ∉ recognitionGoverned
  models : ∀ value, .text "model_id" value ∈ parts → value = some upstreamModel

section Recognition

variable {upstreamModel : String} {grammar : DescriptorGrammar} {config : ProviderConfig}
  {request parts : List MediaPartViewV1} {context : SpeechCallContextV1}
  {prepared : PreparedSpeechCallV1}

/-- A rename gives no other name than its own. -/
theorem renamed_eq {name target : String} (htarget : target ≠ "language_code")
    (h : renamed recognitionRenames name = target) : name = target := by
  by_cases hname : name = "language"
  · subst hname
    exact absurd h.symm htarget
  · have hne : ("language" == name) = false := by simpa using Ne.symm hname
    simpa [renamed, recognitionRenames, hne] using h

theorem recognitionPlan_file (name : String) (blob : BlobIdV1) (filename mediaType : Option String) :
    (recognitionPlan upstreamModel).image (.file name blob filename mediaType) =
      some (.file name blob filename mediaType) := rfl

/-- What stands for a client's text part. -/
theorem recognitionPlan_text (name : String) (value : Option String) :
    (recognitionPlan upstreamModel).image (.text name value) =
      if name = "model" then some (.text "model_id" upstreamModel)
      else if name = "timestamps_granularity" then some (.text "timestamps_granularity" "word")
      else some (.text (renamed recognitionRenames name) (value.getD "")) := by
  unfold PartPlan.image PartPlan.writtenFor recognitionPlan
  by_cases hmodel : name = "model"
  · subst hmodel
    rfl
  · have hmodel' : ("model" == name) = false := by simpa using Ne.symm hmodel
    by_cases hwords : name = "timestamps_granularity"
    · subst hwords
      rfl
    · have hwords' : ("timestamps_granularity" == name) = false := by simpa using Ne.symm hwords
      simp [MediaPartViewV1.name, hmodel, hmodel', hwords, hwords', recognitionRenames]

theorem recognition_written {P : WrittenPart → Prop} (hmodel : P ⟨"model", "model_id", upstreamModel⟩)
    (hwords : P ⟨"timestamps_granularity", "timestamps_granularity", "word"⟩) :
    ∀ written ∈ (recognitionPlan upstreamModel).written, P written := by
  intro written hmem
  rcases List.mem_cons.mp hmem with rfl | hmem
  · exact hmodel
  · rw [List.mem_singleton.mp hmem]
    exact hwords

theorem prepareRecognition_ok
    (h : prepareRecognition grammar config request context = .ok prepared) :
    requestParts request = .ok request ∧
      prepared.descriptor.parts = rewriteParts request (recognitionPlan context.upstreamModel) := by
  simp only [prepareRecognition, bind_eq_ok, pure_eq_ok] at h
  obtain ⟨forms, -, parts, hparts, format, -, descriptor, hdescriptor, rfl⟩ := h
  obtain rfl := (requestParts_ok hparts).1
  exact ⟨hparts, multipartDescriptor_parts hdescriptor⟩

theorem recognitionFaithful_iff
    (h : prepareRecognition grammar config request context = .ok prepared) :
    RecognitionFaithful context.upstreamModel request prepared ↔
      RecognitionPlain context.upstreamModel request := by
  obtain ⟨hrequest, hparts⟩ := prepareRecognition_ok h
  constructor
  · intro hfaithful
    have himage {part : MediaPartViewV1} {image : MediaPartV1} (hpart : part ∈ request)
        (himage : (recognitionPlan context.upstreamModel).image part = some image) :
        image ∈ prepared.descriptor.parts := by
      rw [hparts]
      exact image_mem_rewriteParts hpart himage
    constructor
    · intro part hpart hfile hname
      cases part with
      | text name value => cases hfile
      | file name blob filename mediaType =>
          have hmem := himage hpart (recognitionPlan_file name blob filename mediaType)
          rcases List.mem_cons.mp hname with hname | hname
          · cases hfaithful.model _ hmem hname
          · cases hfaithful.granularity _ hmem (List.mem_singleton.mp hname)
    · intro value hpart
      obtain ⟨text, rfl⟩ := value_of_requestParts hrequest hpart
      have hmem := himage hpart ((recognitionPlan_text "model_id" (some text)).trans
        ((if_neg (by decide)).trans (if_neg (by decide))))
      cases hfaithful.model _ hmem rfl
      rfl
  · intro hplain
    have hfile {name : String} {blob : BlobIdV1} {filename mediaType : Option String}
        (hpart : .file name blob filename mediaType ∈ request) : name ∉ recognitionGoverned :=
      hplain.files (.file name blob filename mediaType) hpart rfl
    refine ⟨?_, ?_, ?_, ?_⟩
    · rw [hparts, allText_iff rfl (recognition_written (fun _ => rfl) fun hname =>
        absurd hname (by decide))]
      rintro (⟨name, value⟩ | ⟨name, blob, filename, mediaType⟩) hpart image himage hname
      · rw [recognitionPlan_text] at himage
        split at himage
        · cases himage
          rfl
        · split at himage
          · cases himage
            exact absurd hname (by decide)
          · cases himage
            obtain rfl : name = "model_id" := renamed_eq (by decide) hname
            cases hplain.models value hpart
            rfl
      · cases himage
        exact absurd (List.mem_cons.mpr (.inl hname)) (hfile hpart)
    · rw [hparts, allText_iff rfl (recognition_written
        (fun hname => absurd hname (by decide : "model_id" ≠ "timestamps_granularity"))
        fun _ => rfl)]
      rintro (⟨name, value⟩ | ⟨name, blob, filename, mediaType⟩) hpart image himage hname
      · rw [recognitionPlan_text] at himage
        split at himage
        · cases himage
          exact absurd hname (by decide : "model_id" ≠ "timestamps_granularity")
        · split at himage
          · cases himage
            rfl
          · rename_i hne
            cases himage
            exact absurd (renamed_eq (by decide) hname) hne
      · cases himage
        exact absurd (List.mem_cons.mpr (.inr (List.mem_singleton.mpr hname))) (hfile hpart)
    · have hwritten : ∀ written ∈ (recognitionPlan context.upstreamModel).written,
          (MediaPartV1.text written.upstream written.value).streams = false :=
        recognition_written rfl rfl
      rw [hparts, forall_rewriteParts rfl hwritten]
      rintro (⟨name, value⟩ | ⟨name, blob, filename, mediaType⟩) hpart image himage
      · rw [recognitionPlan_text] at himage
        split at himage
        · cases himage
          rfl
        · split at himage
          · cases himage
            rfl
          · cases himage
            obtain ⟨text, rfl⟩ := value_of_requestParts hrequest hpart
            have hplainly := (requestParts_ok hrequest).2.2 _ hpart
            by_contra hstreams
            rw [Bool.not_eq_false, MediaPartV1.streams, Bool.and_eq_true, beq_iff_eq] at hstreams
            obtain rfl := renamed_eq (by decide) hstreams.1
            rw [MediaPartViewV1.streams] at hplainly
            exact absurd hstreams.2 (by simpa using hplainly)
      · cases himage
        rfl
    · rw [hparts]
      refine forall₂_others rfl (recognition_written rfl rfl) ?_ ?_
      · rintro (⟨name, value⟩ | ⟨name, blob, filename, mediaType⟩) hpart hother
        · obtain ⟨text, rfl⟩ := value_of_requestParts hrequest hpart
          rw [recognitionOther, Bool.not_eq_true', Bool.or_eq_false_iff] at hother
          have hmodel : name ≠ "model" := by simpa [asksModel] using hother.1
          have hnames : name ∉ recognitionGoverned := of_decide_eq_false hother.2
          refine ⟨_, ?_, ?_, .text name text⟩
          · rw [recognitionPlan_text, if_neg hmodel, if_neg fun h => hnames (by simp [h, recognitionGoverned])]
            rfl
          · refine decide_eq_false fun hmem => hnames ?_
            rcases List.mem_cons.mp hmem with hmem | hmem
            · exact List.mem_cons.mpr (.inl (renamed_eq (by decide) hmem))
            · exact List.mem_cons.mpr (.inr (List.mem_singleton.mpr
                (renamed_eq (by decide) (List.mem_singleton.mp hmem))))
        · refine ⟨_, recognitionPlan_file name blob filename mediaType, ?_, .file _ _ _ _⟩
          rw [recognitionOther, Bool.not_eq_true', Bool.or_eq_false_iff] at hother
          exact hother.2
      · rintro (⟨name, value⟩ | ⟨name, blob, filename, mediaType⟩) hpart hother image himage
        · rw [recognitionOther, Bool.not_eq_false', Bool.or_eq_true] at hother
          rw [recognitionPlan_text] at himage
          split at himage
          · cases himage
            rfl
          · rename_i hmodel
            split at himage
            · cases himage
              rfl
            · rename_i hwords
              cases himage
              rcases hother with hother | hother
              · exact absurd (by simpa [asksModel] using hother) hmodel
              · rcases List.mem_cons.mp (of_decide_eq_true hother) with hname | hname
                · obtain rfl : name = "model_id" := hname
                  rfl
                · exact absurd (List.mem_singleton.mp hname) hwords
        · cases himage
          rw [recognitionOther, Bool.not_eq_false', Bool.or_eq_true] at hother
          exact hother.elim (fun h => by cases h) id

end Recognition

/-! ## Both components -/

/-- The client chooses neither the model nor an unread format exactly where no file has
the name of a governed field and no other text part of it says something else. -/
theorem client_chooses_nothing_iff (grammar : DescriptorGrammar) (config : ProviderConfig)
    (request : List MediaPartViewV1) (context : SpeechCallContextV1) (protocol : OpenAiAsr)
    (prepared : PreparedSpeechCallV1) :
    (prepareOpenai grammar config request context protocol = .ok prepared →
      (OpenAiFaithful protocol request prepared ↔ OpenAiPlain config protocol request)) ∧
    (prepareRecognition grammar config request context = .ok prepared →
      (RecognitionFaithful context.upstreamModel request prepared ↔
        RecognitionPlain context.upstreamModel request)) :=
  ⟨openaiFaithful_iff, recognitionFaithful_iff⟩

def anyDescriptor : DescriptorGrammar := fun _ _ _ => .ok ()

def unlistedModels : ProviderConfig := ⟨[], none⟩

def transcription : SpeechCallContextV1 := ⟨"m", .transcribe, [.seconds]⟩

def whisper : OpenAiAsr := ⟨"v1/audio/transcriptions", none, false, true, none, "m"⟩

def audioFile (name : String) : MediaPartViewV1 := .file name ⟨0⟩ none none

/-- A file with a model of the client's own, a format, a language and a field named twice. -/
def clientForm : List MediaPartViewV1 :=
  [.text "model" (some "other"), audioFile "file", .text "response_format" (some "text"),
    .text "language" (some "en"), .text "prompt" (some "a"), .text "prompt" (some "b")]

theorem clientForm_chooses_nothing :
    (∃ prepared, prepareOpenai anyDescriptor unlistedModels clientForm transcription whisper =
        .ok prepared ∧ OpenAiFaithful whisper clientForm prepared) ∧
      ∃ prepared, prepareRecognition anyDescriptor unlistedModels clientForm transcription =
        .ok prepared ∧ RecognitionFaithful "m" clientForm prepared := by
  obtain ⟨first, hfirst⟩ := exists_of_isOk (x := prepareOpenai anyDescriptor unlistedModels
    clientForm transcription whisper) (by decide)
  obtain ⟨second, hsecond⟩ := exists_of_isOk (x := prepareRecognition anyDescriptor unlistedModels
    clientForm transcription) (by decide)
  refine ⟨⟨first, hfirst, ((client_chooses_nothing_iff _ _ _ _ _ first).1 hfirst).mpr ⟨by decide, ?_⟩⟩,
    second, hsecond,
    ((client_chooses_nothing_iff _ _ _ _ whisper second).2 hsecond).mpr ⟨by decide, ?_⟩⟩
  · intro format hformat _ value hpart
    obtain rfl : format = "text" := openaiFormat_ok hformat
    simpa [clientForm, audioFile] using hpart
  · intro value hpart
    simp [clientForm, audioFile] at hpart

/-- A file named as the model is sent beside the routed one, and so is a text part
of the upstream's own model field. -/
theorem named_model_reaches_upstream :
    (∃ prepared, prepareOpenai anyDescriptor unlistedModels [audioFile "file", audioFile "model"]
        transcription whisper = .ok prepared ∧
        ¬OpenAiFaithful whisper [audioFile "file", audioFile "model"] prepared) ∧
      ∃ prepared, prepareRecognition anyDescriptor unlistedModels
          [audioFile "file", .text "model_id" (some "other")] transcription = .ok prepared ∧
        ¬RecognitionFaithful "m" [audioFile "file", .text "model_id" (some "other")] prepared := by
  obtain ⟨first, hfirst⟩ := exists_of_isOk (x := prepareOpenai anyDescriptor unlistedModels
    [audioFile "file", audioFile "model"] transcription whisper) (by decide)
  obtain ⟨second, hsecond⟩ := exists_of_isOk (x := prepareRecognition anyDescriptor unlistedModels
    [audioFile "file", .text "model_id" (some "other")] transcription) (by decide)
  refine ⟨⟨first, hfirst, fun hfaithful => ?_⟩, second, hsecond, fun hfaithful => ?_⟩
  · refine absurd ((openaiFaithful_iff hfirst).mp hfaithful).files fun hfiles => ?_
    exact hfiles (audioFile "model") (by simp) rfl (by decide)
  · have hmodel := ((recognitionFaithful_iff hsecond).mp hfaithful).models (some "other") (by simp)
    exact absurd hmodel (by decide)

end TokenStation.Speech
