import TokenStation.Media.Filling
import TokenStation.Media.Transform

/-!
# Expanding templates

A descriptor's template names blobs by references. The walk that checks it, the walk
that lists its blobs and the expansion are passes over the same references; expanding
a view whose placeholders are asked for as they are gives the document's tree back.
-/

namespace TokenStation.Media

open Library.Checked Library.Text Json

def referenceKey : String := "$south.ref"

def maxJsonRequestBodyBytes : Nat := 32 * 1024 * 1024

/-- One reference of a template. -/
structure MediaReferenceV1 where
  blob : String
  transform : MediaTransform
  mediaType : Option String
deriving DecidableEq

inductive JsonBodyErrorV1 where
  | requestBodyTooLarge
  | invalidJsonBody
deriving DecidableEq, Repr

/-- The refusals of a template and of its expansion. -/
inductive MediaDescriptorErrorV1 where
  | malformed (text : String)
  | contract (error : JsonBodyErrorV1)
  | reference
  | unknownBlob
  | transform (error : TransformError)

/-- The blobs of one view, by id. -/
structure BlobSetV1 where
  blobs : List BlobV1
  distinct : (blobs.map (·.id)).Nodup

def BlobSetV1.new (blobs : List BlobV1) : Option BlobSetV1 :=
  if h : (blobs.map (·.id)).Nodup then some ⟨blobs, h⟩ else none

def BlobSetV1.get (set : BlobSetV1) (id : String) : Option BlobV1 :=
  set.blobs.find? fun blob => blob.id == id

section Body

-- Whether the JSON library reads a text as one value.
variable (wellFormed : String → Bool)

/-- A request body: one JSON value within the bound. -/
structure JsonBodyV1 where
  value : String
  bounded : (bytes value).length ≤ maxJsonRequestBodyBytes
  valid : wellFormed value = true

def JsonBodyV1.parse (input : String) : Except JsonBodyErrorV1 (JsonBodyV1 wellFormed) :=
  if hlong : maxJsonRequestBodyBytes < (bytes input).length then .error .requestBodyTooLarge
  else if hvalid : wellFormed input = true then .ok ⟨input, Nat.not_lt.mp hlong, hvalid⟩
  else .error .invalidJsonBody

variable {wellFormed}

theorem JsonBodyV1.parse_eq_ok {input : String} {body : JsonBodyV1 wellFormed} :
    JsonBodyV1.parse wellFormed input = .ok body ↔ body.value = input := by
  obtain ⟨value, hbounded, hvalid⟩ := body
  unfold JsonBodyV1.parse
  constructor
  · intro h
    split_ifs at h
    cases h
    rfl
  · rintro rfl
    rw [dif_neg (Nat.not_lt.mpr hbounded), dif_pos hvalid]

theorem JsonBodyV1.parse_isOk {input : String} (hvalid : wellFormed input = true) :
    (∃ body, JsonBodyV1.parse wellFormed input = .ok body) ↔
      (bytes input).length ≤ maxJsonRequestBodyBytes := by
  constructor
  · rintro ⟨body, hbody⟩
    rw [← JsonBodyV1.parse_eq_ok.mp hbody]
    exact body.bounded
  · intro hbounded
    exact ⟨⟨input, hbounded, hvalid⟩, JsonBodyV1.parse_eq_ok.mpr rfl⟩

end Body

/-! ## The passes -/

section

-- How the JSON library reads the text of a reference, and whether it reads a text.
variable (readReference : String → Option MediaReferenceV1) (wellFormed : String → Bool)

def referenceOf :
    List (JsonString × Node) → Except MediaDescriptorErrorV1 (Option MediaReferenceV1)
  | [] => .ok none
  | (key, value) :: members =>
      if key.decoded ≠ referenceKey then .ok none
      else if members ≠ [] then .error .reference
      else
        match readReference (writeCompact value) with
        | none => .error .reference
        | some reference =>
            if reference.transform = .concat then .error .reference else .ok (some reference)

/-- The walk over the references; what it visits is the list of its marks. -/
def walkReferences : Pass MediaDescriptorErrorV1 MediaReferenceV1 where
  markOf := referenceOf readReference
  key key := refuse (isReserved key.decoded = true) .reference
  string _ := .ok ()
  put _ := .ok (.scalar "")

def checkTemplate (text : String) : Except MediaDescriptorErrorV1 Unit := do
  let node ← (parse text).mapError fun _ => .malformed "template is not JSON"
  let _ ← (walkReferences readReference).walk node
  return ()

/-- The blobs a template refers to, in order of appearance. -/
def referencedBlobs (text : String) : List String :=
  match parse text with
  | .error _ => []
  | .ok node =>
      match (walkReferences readReference).walk node with
      | .error _ => []
      | .ok (_, references) => references.map (·.blob)

/-- The node of one reference. -/
def expandReference (blobs : BlobSetV1) (reference : MediaReferenceV1) :
    Except MediaDescriptorErrorV1 Node :=
  match blobs.get reference.blob with
  | none => .error .unknownBlob
  | some blob => do
      let output ← (reference.transform.apply blob.bytes reference.mediaType).mapError .transform
      match fromUtf8 output with
      | none => .error (.transform .notText)
      | some text => .ok (literal text)

def expand (blobs : BlobSetV1) : Pass MediaDescriptorErrorV1 MediaReferenceV1 :=
  { walkReferences readReference with put := expandReference blobs }

def expandJsonTemplateV1 (template : String) (blobs : BlobSetV1) :
    Except MediaDescriptorErrorV1 (JsonBodyV1 wellFormed) := do
  let node ← (parse template).mapError fun _ => .malformed "template is not JSON"
  let (node, _) ← (expand readReference blobs).walk node
  (JsonBodyV1.parse wellFormed (writeCompact node)).mapError .contract

end

/-! ## Checked templates -/

section

variable {readReference : String → Option MediaReferenceV1} {wellFormed : String → Bool}

/-- The reference an object is. -/
def referenceIn (readReference : String → Option MediaReferenceV1) :
    List (JsonString × Node) → Option MediaReferenceV1 :=
  markIn (referenceOf readReference)

/-- The string a reference stands for. -/
def expandedText (blobs : BlobSetV1) (reference : MediaReferenceV1) : Option String := do
  let blob ← blobs.get reference.blob
  let output ← (reference.transform.apply blob.bytes reference.mediaType).toOption
  fromUtf8 output

theorem toOption_eq_some {ε α : Type} {x : Except ε α} {a : α} :
    x.toOption = some a ↔ x = .ok a := by
  cases x <;> simp [Except.toOption]

theorem checkTemplate_eq_ok {template : String} :
    checkTemplate readReference template = .ok () ↔
      ∃ tree, parse template = .ok tree ∧ (walkReferences readReference).Fine tree := by
  rw [checkTemplate, bind_eq_ok]
  constructor
  · rintro ⟨tree, hparse, hwalk⟩
    obtain ⟨out, hout, -⟩ := bind_eq_ok.mp hwalk
    exact ⟨tree, mapError_eq_ok.mp hparse, ((Pass.walk_eq_ok tree out).mp hout).1⟩
  · rintro ⟨tree, hparse, hfine⟩
    exact ⟨tree, mapError_eq_ok.mpr hparse, bind_eq_ok.mpr
      ⟨_, (Pass.walk_eq_ok tree _).mpr ⟨hfine, fun _ _ => ⟨_, rfl⟩, rfl⟩, rfl⟩⟩

/-- The walk lists the references that the expansion replaces. -/
theorem referencedBlobs_eq {template : String} {tree : Node} (hparse : parse template = .ok tree)
    (hfine : (walkReferences readReference).Fine tree) :
    referencedBlobs readReference template =
      (marks (referenceIn readReference) tree).map (·.blob) := by
  have hwalk := (Pass.walk_eq_ok tree _).mpr ⟨hfine, fun _ _ => ⟨_, rfl⟩, rfl⟩
  rw [referencedBlobs, hparse]
  dsimp only
  rw [hwalk]
  rfl

theorem writes_expand (blobs : BlobSetV1) :
    (expand readReference blobs).Writes (expandedText blobs) := by
  constructor
  · intro reference text htext
    unfold expandedText at htext
    obtain ⟨blob, hblob, htext⟩ := Option.bind_eq_some_iff.mp htext
    obtain ⟨output, houtput, htext⟩ := Option.bind_eq_some_iff.mp htext
    change expandReference blobs reference = _
    rw [expandReference, hblob]
    dsimp only
    rw [bind_eq_ok]
    refine ⟨output, mapError_eq_ok.mpr (toOption_eq_some.mp houtput), ?_⟩
    rw [htext]
  · intro reference hnone
    change ∃ e, expandReference blobs reference = _
    unfold expandReference
    cases hblob : blobs.get reference.blob with
    | none => exact ⟨_, rfl⟩
    | some blob =>
        dsimp only
        cases houtput : reference.transform.apply blob.bytes reference.mediaType with
        | error e => exact ⟨_, rfl⟩
        | ok output =>
            have htext : fromUtf8 output = none := by
              simpa [expandedText, hblob, houtput, Except.toOption] using hnone
            refine ⟨.transform .notText, ?_⟩
            change (match fromUtf8 output with
              | none => Except.error (MediaDescriptorErrorV1.transform .notText)
              | some text => .ok (literal text)) = _
            rw [htext]

theorem fine_expand (blobs : BlobSetV1) {tree : Node}
    (h : (walkReferences readReference).Fine tree) : (expand readReference blobs).Fine tree := by
  have hmark : (walkReferences readReference).markOf = (expand readReference blobs).markOf := rfl
  exact Pass.Fine.weaken hmark (fun _ hkey => hkey) (fun _ hstring => hstring) tree h

/-- The text of an expansion before its size is checked. -/
def expansion (readReference : String → Option MediaReferenceV1) (blobs : BlobSetV1)
    (tree : Node) : String :=
  writeCompact (placed (referenceIn readReference)
    (fun r => literal ((expandedText blobs r).getD "")) tree)

/-- A checked template whose references all have texts is expanded up to the size check. -/
theorem expand_found {template : String} {tree : Node} (hparse : parse template = .ok tree)
    (hfine : (walkReferences readReference).Fine tree) (blobs : BlobSetV1)
    (hfound : ∀ r ∈ marks (referenceIn readReference) tree, (expandedText blobs r).isSome = true) :
    expandJsonTemplateV1 readReference wellFormed template blobs =
      (JsonBodyV1.parse wellFormed (expansion readReference blobs tree)).mapError .contract := by
  obtain ⟨out, hout, htext⟩ :=
    ((writes_expand blobs).walk_iff (fine_expand blobs hfine)).mpr ⟨hfound, rfl⟩
  rw [expandJsonTemplateV1, hparse]
  change ((expand readReference blobs).walk tree >>= _) = _
  rw [hout]
  change (JsonBodyV1.parse wellFormed (writeCompact out.1)).mapError _ = _
  rw [htext]
  rfl

theorem expand_eq_ok {template : String} {tree : Node} (hparse : parse template = .ok tree)
    (hfine : (walkReferences readReference).Fine tree) (blobs : BlobSetV1)
    {body : JsonBodyV1 wellFormed} :
    expandJsonTemplateV1 readReference wellFormed template blobs = .ok body ↔
      (∀ r ∈ marks (referenceIn readReference) tree, (expandedText blobs r).isSome = true) ∧
        body.value = expansion readReference blobs tree := by
  constructor
  · intro h
    have hwalk := h
    rw [expandJsonTemplateV1, hparse] at hwalk
    change ((expand readReference blobs).walk tree >>= _) = _ at hwalk
    obtain ⟨out, hout, hbody⟩ := bind_eq_ok.mp hwalk
    obtain ⟨hfound, htext⟩ :=
      ((writes_expand blobs).walk_iff (fine_expand blobs hfine)).mp ⟨out, hout, rfl⟩
    exact ⟨hfound, (JsonBodyV1.parse_eq_ok.mp (mapError_eq_ok.mp hbody)).trans htext⟩
  · rintro ⟨hfound, hvalue⟩
    rw [expand_found hparse hfine blobs hfound]
    exact mapError_eq_ok.mpr (JsonBodyV1.parse_eq_ok.mpr hvalue)

/-- The JSON library reads every text that the strict parser reads. -/
def ReadsJson (wellFormed : String → Bool) : Prop :=
  ∀ text node, parse text = .ok node → wellFormed text = true

/-- What an expanded template is: its tree with exactly its references replaced by their strings;
no reserved key is left. -/
structure ExpandedTemplate (readReference : String → Option MediaReferenceV1) (blobs : BlobSetV1)
    (tree filled : Node) : Prop where
  filled_eq : filled = placed (referenceIn readReference)
    (fun r => spoken ((expandedText blobs r).getD "")) tree
  unreserved : Unreserved (objectsOf filled)

/-- An expansion of a checked template replaces the references it lists and nothing else, and
succeeds exactly when each of them has a text and the result fits. -/
theorem template_expanded {template : String}
    (hcheck : checkTemplate readReference template = .ok ()) (hjson : ReadsJson wellFormed)
    (blobs : BlobSetV1) :
    ∃ tree, parse template = .ok tree ∧
      referencedBlobs readReference template =
        (marks (referenceIn readReference) tree).map (·.blob) ∧
      (∀ body, expandJsonTemplateV1 readReference wellFormed template blobs = .ok body →
        ∃ filled, parse body.value = .ok filled ∧
          ExpandedTemplate readReference blobs tree filled) ∧
      ((∃ body, expandJsonTemplateV1 readReference wellFormed template blobs = .ok body) ↔
        (∀ r ∈ marks (referenceIn readReference) tree, ∃ blob output text,
          blobs.get r.blob = some blob ∧ r.transform.apply blob.bytes r.mediaType = .ok output ∧
            fromUtf8 output = some text) ∧
        (bytes (expansion readReference blobs tree)).length ≤ maxJsonRequestBodyBytes) := by
  obtain ⟨tree, hparse, hfine⟩ := checkTemplate_eq_ok.mp hcheck
  have hfilled := @parse_placed _ (referenceIn readReference) _ _ hparse
    fun r => (expandedText blobs r).getD ""
  have hsome : ∀ r, (expandedText blobs r).isSome = true ↔ ∃ blob output text,
      blobs.get r.blob = some blob ∧ r.transform.apply blob.bytes r.mediaType = .ok output ∧
        fromUtf8 output = some text := by
    intro r
    simp only [expandedText, Option.isSome_iff_exists, Option.bind_eq_bind,
      Option.bind_eq_some_iff, toOption_eq_some]
    constructor
    · rintro ⟨text, blob, hblob, output, houtput, htext⟩
      exact ⟨blob, output, text, hblob, houtput, htext⟩
    · rintro ⟨blob, output, text, hblob, houtput, htext⟩
      exact ⟨text, blob, hblob, output, houtput, htext⟩
  refine ⟨tree, hparse, referencedBlobs_eq hparse hfine, ?_, ?_⟩
  · intro body hbody
    obtain ⟨-, hvalue⟩ := (expand_eq_ok hparse hfine blobs).mp hbody
    refine ⟨_, by rw [hvalue]; exact hfilled, rfl, ?_⟩
    refine @Pass.unreserved_placed _ _ (walkReferences readReference) _ (fun key hkey => ?_) tree
      hfine
    exact Bool.eq_false_iff.mpr (refuse_eq_ok.mp hkey)
  · have hfits := JsonBodyV1.parse_isOk (hjson _ _ hfilled)
    constructor
    · rintro ⟨body, hbody⟩
      obtain ⟨hfound, hvalue⟩ := (expand_eq_ok hparse hfine blobs).mp hbody
      exact ⟨fun r hr => (hsome r).mp (hfound r hr), hvalue ▸ body.bounded⟩
    · rintro ⟨hfound, hbounded⟩
      obtain ⟨body, hbody⟩ := hfits.mpr hbounded
      exact ⟨body, (expand_eq_ok hparse hfine blobs).mpr
        ⟨fun r hr => (hsome r).mpr (hfound r hr), JsonBodyV1.parse_eq_ok.mp hbody⟩⟩

end

/-- A library that reads what the strict parser reads. -/
def readsStrictly (text : String) : Bool := (parse text).isOk

theorem readsStrictly_readsJson : ReadsJson readsStrictly := by
  intro text node h
  rw [readsStrictly, h]
  rfl

/-- A picture asked for in base64. -/
def pictureTemplate : String :=
  "\x7b\"image\":\x7b\"$south.ref\":\x7b\"blob\":\"b0\",\"transform\":\"base64\"\x7d\x7d\x7d"

def pictureReference : MediaReferenceV1 := ⟨"b0", .base64, none⟩

def readsPicture (text : String) : Option MediaReferenceV1 :=
  if text = "\x7b\"blob\":\"b0\",\"transform\":\"base64\"\x7d" then some pictureReference else none

def pictureBlobs : BlobSetV1 := ⟨[⟨"b0", [104, 105], false⟩], by decide⟩

def pictureTree : Node :=
  .object [(plain "image", .object [(plain referenceKey, .object [(plain "blob",
    .string (plain "b0")), (plain "transform", .string (plain "base64"))])])]

theorem pictureTemplate_checked : checkTemplate readsPicture pictureTemplate = .ok () := by cbv

theorem parse_pictureTemplate : parse pictureTemplate = .ok pictureTree := by cbv

theorem pictureTemplate_expanded :
    referencedBlobs readsPicture pictureTemplate = ["b0"] ∧
      ∃ body, expandJsonTemplateV1 readsPicture readsStrictly pictureTemplate pictureBlobs =
        .ok body := by
  obtain ⟨tree, hparse, hblobs, -, hexpands⟩ :=
    template_expanded pictureTemplate_checked readsStrictly_readsJson pictureBlobs
  obtain rfl : tree = pictureTree := Except.ok.inj (hparse.symm.trans parse_pictureTemplate)
  have hmarks : marks (referenceIn readsPicture) pictureTree = [pictureReference] := by
    decide +kernel
  rw [hmarks] at hblobs hexpands
  refine ⟨hblobs, hexpands.mpr ⟨?_, by decide +kernel⟩⟩
  rw [List.forall_mem_singleton]
  exact ⟨⟨"b0", [104, 105], false⟩, bytes "aGk=", "aGk=", by decide, rfl, by decide +kernel⟩

/-! ## Undoing elision -/

/-- The reference to a blob as it is. -/
def asIsReference (id : JsonString) : List (JsonString × Node) :=
  [(plain referenceKey,
    .object [(plain "blob", .string id), (plain "transform", .string (plain "as_is"))])]

/-- The id in a placeholder. -/
def placeholderId : List (JsonString × Node) → Option JsonString
  | [(key, .object ((_, .string id) :: _))] => if key.decoded = blobKey then some id else none
  | _ => none

mutual

/-- A view as a template that asks for every blob as it is. -/
def asIsTemplate : Node → Node
  | .scalar text => .scalar text
  | .string string => .string string
  | .array items => .array (asIsItems items)
  | .object members =>
      match placeholderId members with
      | some id => .object (asIsReference id)
      | none => .object (asIsMembers members)

def asIsItems : List Node → List Node
  | [] => []
  | item :: items => asIsTemplate item :: asIsItems items

def asIsMembers : List (JsonString × Node) → List (JsonString × Node)
  | [] => []
  | (key, value) :: members => (key, asIsTemplate value) :: asIsMembers members

end

/-- The JSON library reads such a reference. -/
def ReadsAsIs (readReference : String → Option MediaReferenceV1) : Prop :=
  ∀ i < 2 ^ 32, readReference ("\x7b\"blob\":\"" ++ blobId i ++ "\",\"transform\":\"as_is\"\x7d") =
    some ⟨blobId i, .asIs, none⟩

section

variable {declared : List PathPatternV1} {limits : MediaLimitsV1}
  {readReference : String → Option MediaReferenceV1} {blobs : BlobSetV1}

theorem placeholderId_unreserved {members : List (JsonString × Node)}
    (h : hasReserved members = false) : placeholderId members = none := by
  unfold placeholderId
  split
  · next key inner id more =>
      have hkey : key.decoded ≠ blobKey := by
        intro heq
        have hreserved : isReserved blobKey = true := by decide
        simp [hasReserved, heq, hreserved] at h
      exact if_neg hkey
  · rfl

theorem placeholderId_placeholder (index : Nat) (text : String) :
    placeholderId (placeholderFor limits index text) = some (plain (blobId index)) := by
  rw [placeholderFor, placeholderMembers, placeholderId,
    if_pos (show (plain blobKey).decoded = blobKey from rfl)]

theorem hasReserved_asIsMembers (members : List (JsonString × Node)) :
    hasReserved (asIsMembers members) = hasReserved members := by
  induction members with
  | nil => rfl
  | cons first members ih =>
      obtain ⟨key, value⟩ := first
      unfold hasReserved at ih ⊢
      rw [asIsMembers, List.any_cons, List.any_cons, ih]

theorem referenceOf_unreserved {members : List (JsonString × Node)}
    (h : hasReserved members = false) : referenceOf readReference members = .ok none := by
  cases members with
  | nil => rfl
  | cons first members =>
      obtain ⟨key, value⟩ := first
      have hkey : key.decoded ≠ referenceKey := by
        intro heq
        have hreserved : isReserved referenceKey = true := by decide
        simp [hasReserved, heq, hreserved] at h
      exact if_pos hkey

theorem referenceOf_asIs (hreads : ReadsAsIs readReference) {index : Nat} (h : index < 2 ^ 32) :
    referenceOf readReference (asIsReference (plain (blobId index))) =
      .ok (some ⟨blobId index, .asIs, none⟩) := by
  have hwrite : writeCompact (.object [(plain "blob", .string (plain (blobId index))),
      (plain "transform", .string (plain "as_is"))]) =
        "\x7b\"blob\":\"" ++ blobId index ++ "\",\"transform\":\"as_is\"\x7d" := by
    apply String.toList_injective
    generalize blobId index = id
    simp [writeCompact, write, writeMembers, JsonString.quoted, plain]
  have hkey : (plain referenceKey).decoded = referenceKey := rfl
  rw [asIsReference, referenceOf, if_neg (not_not.mpr hkey), if_neg (not_not.mpr rfl), hwrite,
    hreads index h]
  rfl

theorem expandedText_held {index : Nat} {text : String}
    (h : blobs.blobs.find? (fun blob => blob.id == blobId index) =
      some ⟨blobId index, bytes text, true⟩) :
    expandedText blobs ⟨blobId index, .asIs, none⟩ = some text := by
  rw [expandedText, BlobSetV1.get, h]
  exact fromUtf8_bytes text

/-- The reference in the place of one string. -/
theorem expanded_placeholder (hreads : ReadsAsIs readReference) {next : Nat} {text : String}
    (hheld : Holds blobs.blobs next [text]) (hbound : next + 1 ≤ 2 ^ 32) :
    (walkReferences readReference).Fine
        (asIsTemplate (.object (placeholderFor limits next text))) ∧
      (∀ r ∈ marks (referenceIn readReference)
        (asIsTemplate (.object (placeholderFor limits next text))),
        (expandedText blobs r).isSome = true) ∧
      placed (referenceIn readReference) (fun r => spoken ((expandedText blobs r).getD ""))
        (asIsTemplate (.object (placeholderFor limits next text))) = spoken text := by
  have htext := hheld 0 text rfl
  rw [Nat.add_zero] at htext
  have hmark := referenceOf_asIs hreads (Nat.lt_of_succ_le hbound)
  have hin : referenceIn readReference (asIsReference (plain (blobId next))) =
      some ⟨blobId next, .asIs, none⟩ := by
    rw [referenceIn, markIn, hmark]
  rw [asIsTemplate, placeholderId_placeholder, marks, placed]
  simp only [hin, List.mem_singleton, forall_eq, expandedText_held htext, Option.isSome_some,
    Option.getD_some, and_self, and_true]
  exact .inl ⟨_, hmark⟩

mutual

/-- The template of a view passes the walk, its references have texts, and with them in place
the tree is the document's. -/
theorem expanded_view (hreads : ReadsAsIs readReference) : ∀ (node : Node) (path : List PathStep)
    (next : Nat), Unreserved (objectsOf node) →
    Holds blobs.blobs next (elided declared limits path node) →
    next + (elided declared limits path node).length ≤ 2 ^ 32 →
    (walkReferences readReference).Fine (asIsTemplate (view declared limits path next node)) ∧
      (∀ r ∈ marks (referenceIn readReference)
        (asIsTemplate (view declared limits path next node)),
        (expandedText blobs r).isSome = true) ∧
      meant (placed (referenceIn readReference)
        (fun r => spoken ((expandedText blobs r).getD ""))
        (asIsTemplate (view declared limits path next node))) = meant node
  | .scalar text, path, next, h, hheld, hbound =>
      ⟨trivial, fun _ hr => absurd hr List.not_mem_nil, rfl⟩
  | .string string, path, next, h, hheld, hbound => by
      rw [elided] at hheld hbound
      rw [view]
      split
      · next hout =>
          rw [if_pos hout] at hheld hbound
          obtain ⟨hfine, hfound, hplaced⟩ :=
            @expanded_placeholder limits readReference blobs hreads next _ hheld hbound
          refine ⟨hfine, hfound, ?_⟩
          rw [hplaced]
          rfl
      · exact ⟨rfl, fun _ hr => absurd hr List.not_mem_nil, rfl⟩
  | .array items, path, next, h, hheld, hbound => by
      obtain ⟨hfine, hfound, hsame⟩ := expanded_viewItems hreads items path 0 next h hheld hbound
      refine ⟨hfine, hfound, ?_⟩
      rw [view, asIsTemplate, placed, meant, meant, hsame]
  | .object members, path, next, h, hheld, hbound => by
      rw [objectsOf, Unreserved, List.forall_mem_cons] at h
      obtain ⟨hfine, hfound, hsame⟩ :=
        expanded_viewMembers hreads members path next h.1 h.2 hheld hbound
      have hviewed : hasReserved (viewMembers declared limits path next members) = false := by
        rw [hasReserved_viewMembers, h.1]
      have hnone : referenceOf readReference
          (asIsMembers (viewMembers declared limits path next members)) = .ok none :=
        referenceOf_unreserved (by rw [hasReserved_asIsMembers, hviewed])
      have hin : referenceIn readReference
          (asIsMembers (viewMembers declared limits path next members)) = none := by
        rw [referenceIn, markIn, hnone]
      rw [view, asIsTemplate, placeholderId_unreserved hviewed]
      dsimp only
      rw [marks, placed, hin]
      refine ⟨.inr ⟨hnone, hfine⟩, hfound, ?_⟩
      dsimp only
      rw [meant, meant, hsame]

theorem expanded_viewItems (hreads : ReadsAsIs readReference) : ∀ (items : List Node)
    (path : List PathStep) (position next : Nat), Unreserved (objectsOfItems items) →
    Holds blobs.blobs next (elidedItems declared limits path position items) →
    next + (elidedItems declared limits path position items).length ≤ 2 ^ 32 →
    (walkReferences readReference).FineItems
        (asIsItems (viewItems declared limits path position next items)) ∧
      (∀ r ∈ marksOfItems (referenceIn readReference)
        (asIsItems (viewItems declared limits path position next items)),
        (expandedText blobs r).isSome = true) ∧
      meantItems (placedItems (referenceIn readReference)
        (fun r => spoken ((expandedText blobs r).getD ""))
        (asIsItems (viewItems declared limits path position next items))) = meantItems items
  | [], path, position, next, h, hheld, hbound =>
      ⟨trivial, fun _ hr => absurd hr List.not_mem_nil, rfl⟩
  | item :: items, path, position, next, h, hheld, hbound => by
      rw [objectsOfItems, Unreserved, List.forall_mem_append] at h
      obtain ⟨hfirst, hrest⟩ := hheld.append
      rw [elidedItems, List.length_append] at hbound
      obtain ⟨hfine, hfound, hsame⟩ := expanded_view hreads item (path ++ [.index position]) next
        h.1 hfirst (by omega)
      obtain ⟨hfines, hfounds, hsames⟩ := expanded_viewItems hreads items path (position + 1) _
        h.2 hrest (by omega)
      rw [viewItems, asIsItems, marksOfItems, placedItems, meantItems, meantItems, hsame, hsames,
        List.forall_mem_append]
      exact ⟨⟨hfine, hfines⟩, ⟨hfound, hfounds⟩, rfl⟩

theorem expanded_viewMembers (hreads : ReadsAsIs readReference) :
    ∀ (members : List (JsonString × Node)) (path : List PathStep) (next : Nat),
    hasReserved members = false → Unreserved (objectsOfMembers members) →
    Holds blobs.blobs next (elidedMembers declared limits path members) →
    next + (elidedMembers declared limits path members).length ≤ 2 ^ 32 →
    (walkReferences readReference).FineMembers
        (asIsMembers (viewMembers declared limits path next members)) ∧
      (∀ r ∈ marksOfMembers (referenceIn readReference)
        (asIsMembers (viewMembers declared limits path next members)),
        (expandedText blobs r).isSome = true) ∧
      meantMembers (placedMembers (referenceIn readReference)
        (fun r => spoken ((expandedText blobs r).getD ""))
        (asIsMembers (viewMembers declared limits path next members))) = meantMembers members
  | [], path, next, hkeys, h, hheld, hbound =>
      ⟨trivial, fun _ hr => absurd hr List.not_mem_nil, rfl⟩
  | (key, value) :: members, path, next, hkeys, h, hheld, hbound => by
      rw [hasReserved, List.any_cons, Bool.or_eq_false_iff] at hkeys
      rw [objectsOfMembers, Unreserved, List.forall_mem_append] at h
      obtain ⟨hfirst, hrest⟩ := hheld.append
      rw [elidedMembers, List.length_append] at hbound
      obtain ⟨hfine, hfound, hsame⟩ := expanded_view hreads value (path ++ [.key key.decoded]) next
        h.1 hfirst (by omega)
      obtain ⟨hfines, hfounds, hsames⟩ := expanded_viewMembers hreads members path _ hkeys.2
        h.2 hrest (by omega)
      have hkey : (walkReferences readReference).key key = .ok () :=
        refuse_eq_ok.mpr (Bool.eq_false_iff.mp hkeys.1)
      rw [viewMembers, asIsMembers, marksOfMembers, placedMembers, meantMembers, meantMembers,
        hsame, hsames, List.forall_mem_append]
      exact ⟨⟨hkey, hfine, hfines⟩, ⟨hfound, hfounds⟩, rfl⟩

end

end

/-! ## Templates of views are documents -/

theorem plain_spelled {text : String} (h : ∀ c ∈ text.toList, c ≠ '"' ∧ c ≠ '\\' ∧ ¬c < ' ') :
    (plain text).Spelled :=
  stringText_plain h

theorem valueText_asIsReference {level : Nat} {id : JsonString} (hid : id.Spelled) :
    ∃ chars, ValueText (level + 2) chars (.object (asIsReference id)) := by
  have hkeys : ∀ key ∈ ["$south.ref", "blob", "transform", "as_is"], (plain key).Spelled := by
    have hletters : ∀ key ∈ ["$south.ref", "blob", "transform", "as_is"],
        ∀ c ∈ key.toList, c ≠ '"' ∧ c ≠ '\\' ∧ ¬c < ' ' := by simp
    exact fun key hkey => plain_spelled (hletters key hkey)
  exact ⟨_, .object Ws.nil (hkeys _ (by simp [referenceKey])) Ws.nil Ws.nil
    (.object Ws.nil (hkeys _ (by simp)) Ws.nil Ws.nil (.string hid)
      (.cons Ws.nil Ws.nil (hkeys _ (by simp)) Ws.nil Ws.nil
        (.string (hkeys _ (by simp))) (.nil Ws.nil)))
    (.nil Ws.nil)⟩

/-- A placeholder nests as deep as the reference to its blob. -/
theorem valueText_placeholderId {level : Nat} {chars : List Char}
    {members : List (JsonString × Node)} (h : ValueText level chars (.object members))
    {id : JsonString} (hid : placeholderId members = some id) :
    ∃ chars', ValueText level chars' (.object (asIsReference id)) := by
  unfold placeholderId at hid
  split at hid
  · next key inner string more =>
      split at hid
      · obtain rfl := Option.some.inj hid
        cases h with
        | object hws hkey hbefore hafter hvalue hrest =>
            cases hvalue with
            | object hws' hkey' hbefore' hafter' hstring hrest' =>
                cases hstring with
                | string hspelled => exact valueText_asIsReference hspelled
      · cases hid
  · cases hid

mutual

theorem valueText_asIs : ∀ (node : Node) (level : Nat) (chars : List Char),
    ValueText level chars node → ∃ chars', ValueText level chars' (asIsTemplate node)
  | .scalar text, level, chars, h => ⟨chars, h⟩
  | .string string, level, chars, h => ⟨chars, h⟩
  | .array [], level, chars, h => ⟨chars, h⟩
  | .array (item :: items), level, chars, h => by
      cases h with
      | array hws hitem hrest =>
          obtain ⟨itemChars, hitem⟩ := valueText_asIs item _ _ hitem
          obtain ⟨restChars, hrest⟩ := itemsText_asIs items _ _ hrest
          exact ⟨_, .array hws hitem hrest⟩
  | .object members, level, chars, h => by
      rw [asIsTemplate]
      cases hid : placeholderId members with
      | some id => exact valueText_placeholderId h hid
      | none =>
          cases members with
          | nil => exact ⟨chars, h⟩
          | cons member members =>
              obtain ⟨key, value⟩ := member
              cases h with
              | object hws hkey hbefore hafter hvalue hrest =>
                  obtain ⟨valueChars, hvalue⟩ := valueText_asIs value _ _ hvalue
                  obtain ⟨restChars, hrest⟩ := membersText_asIs members _ _ hrest
                  exact ⟨_, .object hws hkey hbefore hafter hvalue hrest⟩

theorem itemsText_asIs : ∀ (items : List Node) (level : Nat) (chars : List Char),
    ItemsText level chars items → ∃ chars', ItemsText level chars' (asIsItems items)
  | [], level, chars, h => ⟨chars, h⟩
  | item :: items, level, chars, h => by
      cases h with
      | cons hbefore hafter hitem hrest =>
          obtain ⟨itemChars, hitem⟩ := valueText_asIs item _ _ hitem
          obtain ⟨restChars, hrest⟩ := itemsText_asIs items _ _ hrest
          exact ⟨_, .cons hbefore hafter hitem hrest⟩

theorem membersText_asIs : ∀ (members : List (JsonString × Node)) (level : Nat)
    (chars : List Char), MembersText level chars members →
      ∃ chars', MembersText level chars' (asIsMembers members)
  | [], level, chars, h => ⟨chars, h⟩
  | (key, value) :: members, level, chars, h => by
      cases h with
      | cons hlead hws hkey hbefore hafter hvalue hrest =>
          obtain ⟨valueChars, hvalue⟩ := valueText_asIs value _ _ hvalue
          obtain ⟨restChars, hrest⟩ := membersText_asIs members _ _ hrest
          exact ⟨_, .cons hlead hws hkey hbefore hafter hvalue hrest⟩

end

mutual

/-- What nests so deep nests deeper. -/
theorem valueText_succ : ∀ (node : Node) (level : Nat) (chars : List Char),
    ValueText level chars node → ValueText (level + 1) chars node
  | .scalar text, level, chars, h => by
      cases h with
      | literal hword => exact .literal hword
      | number hnumber => exact .number hnumber
  | .string string, level, chars, h => by
      cases h with
      | string hspelled => exact .string hspelled
  | .array [], level, chars, h => by
      cases h with
      | emptyArray hws => exact .emptyArray hws
  | .array (item :: items), level, chars, h => by
      cases h with
      | array hws hitem hrest =>
          exact .array hws (valueText_succ item _ _ hitem) (itemsText_succ items _ _ hrest)
  | .object [], level, chars, h => by
      cases h with
      | emptyObject hws => exact .emptyObject hws
  | .object ((key, value) :: members), level, chars, h => by
      cases h with
      | object hws hkey hbefore hafter hvalue hrest =>
          exact .object hws hkey hbefore hafter (valueText_succ value _ _ hvalue)
            (membersText_succ members _ _ hrest)

theorem itemsText_succ : ∀ (items : List Node) (level : Nat) (chars : List Char),
    ItemsText level chars items → ItemsText (level + 1) chars items
  | [], level, chars, h => by
      cases h with
      | nil hws => exact .nil hws
  | item :: items, level, chars, h => by
      cases h with
      | cons hbefore hafter hitem hrest =>
          exact .cons hbefore hafter (valueText_succ item _ _ hitem) (itemsText_succ items _ _ hrest)

theorem membersText_succ : ∀ (members : List (JsonString × Node)) (level : Nat)
    (chars : List Char), MembersText level chars members → MembersText (level + 1) chars members
  | [], level, chars, h => by
      cases h with
      | nil hws => exact .nil hws
  | (key, value) :: members, level, chars, h => by
      cases h with
      | cons hlead hws hkey hbefore hafter hvalue hrest =>
          exact .cons hlead hws hkey hbefore hafter (valueText_succ value _ _ hvalue)
            (membersText_succ members _ _ hrest)

end

theorem parseWithin_succ {limit : Nat} {text : String} {node : Node}
    (h : parseWithin limit text = .ok node) : parseWithin (limit + 1) text = .ok node := by
  rw [parseWithin_eq_ok] at h ⊢
  generalize text.toList = chars at h ⊢
  obtain ⟨hbefore, hvalue, hafter⟩ := h
  exact ⟨hbefore, valueText_succ _ _ _ hvalue, hafter⟩

/-- The template of a view is that view's tree when it nests no deeper than a template may. -/
theorem parse_asIs {view tree : Node} {text : String}
    (hview : parseWithin (maxMediaJsonDepth + 2) text = .ok view)
    (htree : parse (writeCompact (asIsTemplate view)) = .ok tree) : tree = asIsTemplate view := by
  have hdocument := parseWithin_eq_ok.mp hview
  generalize text.toList = chars at hdocument
  obtain ⟨-, hvalue, -⟩ := hdocument
  obtain ⟨chars', htemplate⟩ := valueText_asIs view _ _ hvalue
  have hparse : parseWithin (maxMediaJsonDepth + 2) (writeCompact (asIsTemplate view)) =
      .ok (asIsTemplate view) := by
    rw [parseWithin_eq_ok, writeCompact, String.toList_ofList]
    exact documentText_write htemplate
  exact Except.ok.inj ((parseWithin_succ (parseWithin_succ htree)).symm.trans hparse)

/-- Where the template of an elided document's view nests no deeper than a template may, its
expansion is, up to the size check, a text of the document's own tree. -/
theorem expansion_undoes_elision {declared : List PathPatternV1} {limits : MediaLimitsV1}
    {readReference : String → Option MediaReferenceV1} {wellFormed : String → Bool}
    (hreads : ReadsAsIs readReference) {document : List UInt8} {text : String}
    {blobs : List BlobV1} (helide : elideV1 declared limits document = .ok (text, blobs))
    (hcount : blobs.length ≤ 2 ^ 32) :
    ∃ node view set, parseBytes document = .ok node ∧
      parseWithin (maxMediaJsonDepth + 2) text = .ok view ∧ BlobSetV1.new blobs = some set ∧
      ∀ tree, parse (writeCompact (asIsTemplate view)) = .ok tree →
        ∃ expanded filled, parse expanded = .ok filled ∧ meant filled = meant node ∧
          checkTemplate readReference (writeCompact (asIsTemplate view)) = .ok () ∧
          expandJsonTemplateV1 readReference wellFormed (writeCompact (asIsTemplate view)) set =
            (JsonBodyV1.parse wellFormed expanded).mapError .contract := by
  obtain ⟨node, hparse, hkeys, rfl, rfl⟩ := elideV1_eq_ok declared limits helide
  have hunreserved : Unreserved (objectsOf node) :=
    fun members hmembers => (hkeys members hmembers).not_reserved limits
  have hdistinct : ((blobsFrom 0 (elided declared limits [] node)).map (·.id)).Nodup := by
    rw [blobsFrom_ids, List.nodup_map_iff blobId_injective]
    exact List.nodup_range'
  refine ⟨node, _, ⟨_, hdistinct⟩, hparse, parse_view declared limits hparse, dif_pos hdistinct, ?_⟩
  intro tree htree
  obtain rfl := parse_asIs (parse_view declared limits hparse) htree
  rw [length_blobsFrom] at hcount
  obtain ⟨hfine, hfound, hsame⟩ := @expanded_view declared limits readReference
    ⟨blobsFrom 0 (elided declared limits [] node), hdistinct⟩ hreads node [] 0 hunreserved
    (fun i text htext => find?_blobsFrom htext) (by rwa [Nat.zero_add])
  exact ⟨_, _, parse_placed htree _, hsame, checkTemplate_eq_ok.mpr ⟨_, htree, hfine⟩,
    expand_found htree hfine _ hfound⟩

/-- A library's reader of references that ask for a blob as it is. -/
def readsAsIs (text : String) : Option MediaReferenceV1 :=
  let id := String.ofList ((text.toList.drop 9).take (text.toList.length - 31))
  if text = "\x7b\"blob\":\"" ++ id ++ "\",\"transform\":\"as_is\"\x7d" then some ⟨id, .asIs, none⟩
  else none

theorem readsAsIs_reads : ReadsAsIs readsAsIs := by
  intro i _
  generalize blobId i = id
  have hid : String.ofList
      ((("\x7b\"blob\":\"" ++ id ++ "\",\"transform\":\"as_is\"\x7d").toList.drop 9).take
        (("\x7b\"blob\":\"" ++ id ++ "\",\"transform\":\"as_is\"\x7d").toList.length - 31)) = id := by
    simp
  rw [readsAsIs]
  simp only [hid, if_true]

/-- The view of a document whose one string is out, and its template. -/
def urlView : Node :=
  .array [.object [(plain "url", .object [(plain blobKey, .object [(plain "id",
    .string (plain "b0")), (plain "bytes", .scalar "1"), (plain "head", .string (plain "x"))])])]]

def urlTemplate : String :=
  "[\x7b\"url\":\x7b\"$south.ref\":\x7b\"blob\":\"b0\",\"transform\":\"as_is\"\x7d\x7d\x7d]"

theorem declared_url_comes_back :
    ∃ node set expanded filled, parseBytes (bytes "[\x7b\"url\":\"x\"\x7d]") = .ok node ∧
      BlobSetV1.new [⟨"b0", bytes "x", true⟩] = some set ∧ parse expanded = .ok filled ∧
      meant filled = meant node ∧
      expandJsonTemplateV1 readsAsIs readsStrictly urlTemplate set =
        (JsonBodyV1.parse readsStrictly expanded).mapError .contract := by
  obtain ⟨node, view, set, hnode, hview, hset, hback⟩ :=
    @expansion_undoes_elision [imageUrl] .v1 readsAsIs readsStrictly readsAsIs_reads
      (bytes "[\x7b\"url\":\"x\"\x7d]")
      "[\x7b\"url\":\x7b\"$south.blob\":\x7b\"id\":\"b0\",\"bytes\":1,\"head\":\"x\"\x7d\x7d\x7d]"
      [⟨"b0", bytes "x", true⟩] (by decide +kernel) (by decide)
  have hviewed : parseWithin (maxMediaJsonDepth + 2)
      "[\x7b\"url\":\x7b\"$south.blob\":\x7b\"id\":\"b0\",\"bytes\":1,\"head\":\"x\"\x7d\x7d\x7d]" =
        .ok urlView := by
    cbv
  obtain rfl : view = urlView := Except.ok.inj (hview.symm.trans hviewed)
  have htext : writeCompact (asIsTemplate urlView) = urlTemplate := by decide +kernel
  rw [htext] at hback
  have hparse : parse urlTemplate = .ok (asIsTemplate urlView) := by cbv
  obtain ⟨expanded, filled, hfilled, hsame, -, hexpanded⟩ := hback _ hparse
  exact ⟨node, set, expanded, filled, hnode, hset, hfilled, hsame, hexpanded⟩

end TokenStation.Media
