import TokenStation.Library.Checked
import TokenStation.Library.Json
import TokenStation.Library.Whitespace
import TokenStation.Responses.Protocol

/-!
# Part lists of a recognition call

A client's multipart request as a component sees it, and the plan by which a
component turns its parts into the upstream's: some text parts are written by the
component, some are renamed, some are removed, and every other part is forwarded.
-/

namespace TokenStation.Speech

open Library Library.Checked Responses

/-- A blob by its place among a request's blobs. -/
structure BlobIdV1 where
  index : Nat
deriving DecidableEq, Repr

/-- One part of a client's request. The value of a long text part is elided. -/
inductive MediaPartViewV1 where
  | text (name : String) (value : Option String)
  | file (name : String) (blob : BlobIdV1) (filename mediaType : Option String)
deriving DecidableEq, Repr

/-- One part of an upstream request; a file is sent as it is. -/
inductive MediaPartV1 where
  | text (name value : String)
  | file (name : String) (blob : BlobIdV1) (filename mediaType : Option String)
deriving DecidableEq, Repr

def MediaPartViewV1.name : MediaPartViewV1 → String
  | .text name _ | .file name _ _ _ => name

def MediaPartViewV1.isFile : MediaPartViewV1 → Bool
  | .text _ _ => false
  | .file _ _ _ _ => true

def MediaPartV1.name : MediaPartV1 → String
  | .text name _ | .file name _ _ _ => name

def invalid (message : String) : ErrorEnvelope := ⟨.invalidRequest, 400, message, none⟩
def capability (message : String) : ErrorEnvelope := ⟨.capability, 400, message, none⟩
def internal (message : String) : ErrorEnvelope := ⟨.internal, 500, message, none⟩

/-! ## What a request may hold -/

/-- Whether the value of a `stream` part asks for streaming. -/
def asksToStream (value : String) : Bool :=
  let value := (trim value).toList
  value.map Char.toLower == ['t', 'r', 'u', 'e'] || value == ['1']

def MediaPartViewV1.streams : MediaPartViewV1 → Bool
  | .text name (some value) => name == "stream" && asksToStream value
  | _ => false

def MediaPartViewV1.isElided : MediaPartViewV1 → Bool
  | .text _ none => true
  | _ => false

/-- The part list, refused where a text is elided, no file is sent or a part asks
for streaming. -/
def requestParts (parts : List MediaPartViewV1) :
    Except ErrorEnvelope (List MediaPartViewV1) := do
  refuse (parts.any (·.isElided)) (invalid "a text field is longer than the gateway accepts")
  refuse ((parts.any fun part => part.isFile && part.name == "file") = false)
    (invalid "Missing 'file' field")
  refuse (parts.any (·.streams))
    (invalid ("streaming transcription is not supported; re-submit without \x60stream\x60 or with " ++
      "\x60stream=false\x60"))
  return parts

/-- The value of the first text part of a name. -/
def firstText (parts : List MediaPartViewV1) (name : String) : Option String :=
  (parts.find? fun part => !part.isFile && part.name == name).bind fun part =>
    match part with
    | .text _ value => value
    | .file _ _ _ _ => none

def openaiFormats : List String := ["json", "text", "srt", "verbose_json", "vtt"]

/-- The client's format. -/
def openaiFormat (parts : List MediaPartViewV1) : Except ErrorEnvelope String :=
  let format := (firstText parts "response_format").getD "json"
  if format ∈ openaiFormats then .ok format
  else .error (invalid ("Unknown response_format='" ++ format ++
    "'. Supported: json, text, srt, verbose_json, vtt."))

/-! ## Plans -/

/-- A text part the component writes. -/
structure WrittenPart where
  client : String
  upstream : String
  value : String

/-- How the client's parts become the upstream's. -/
structure PartPlan where
  written : List WrittenPart := []
  renamedText : List (String × String) := []
  renamedFile : List (String × String) := []
  droppedText : List String := []
  dropped : List String := []
  appended : List (String × String) := []

def renamed (pairs : List (String × String)) (name : String) : String :=
  ((pairs.find? fun pair => pair.1 == name).map Prod.snd).getD name

/-- The parts so far, and which of the component's own were written. -/
structure Rewriting where
  out : List MediaPartV1
  written : List Bool

def Rewriting.push (s : Rewriting) (part : MediaPartV1) : Rewriting := ⟨s.out ++ [part], s.written⟩

/-- The place of the written part that replaces a client's. -/
def PartPlan.position (plan : PartPlan) (name : String) : Option Nat :=
  plan.written.findIdx? fun written => written.client == name

/-- A text part that was not removed. -/
def rewriteText (plan : PartPlan) (s : Rewriting) (name : String) (value : Option String) :
    Rewriting :=
  match plan.position name with
  | some index =>
      match plan.written[index]? with
      | some written => ⟨s.out ++ [.text written.upstream written.value], s.written.set index true⟩
      | none => s
  | none => s.push (.text (renamed plan.renamedText name) (value.getD ""))

def rewritePart (plan : PartPlan) (s : Rewriting) (part : MediaPartViewV1) : Rewriting :=
  if part.name ∈ plan.dropped then s
  else
    match part with
    | .file name blob filename mediaType =>
        s.push (.file (renamed plan.renamedFile name) blob filename mediaType)
    | .text name value => if name ∈ plan.droppedText then s else rewriteText plan s name value

/-- The upstream part list. -/
def rewriteParts (parts : List MediaPartViewV1) (plan : PartPlan) : List MediaPartV1 :=
  let s := parts.foldl (rewritePart plan) ⟨[], plan.written.map fun _ => false⟩
  s.out ++
    ((plan.written.zip s.written).filter fun e => !e.2).map
      (fun e => .text e.1.upstream e.1.value) ++
    plan.appended.map fun e => .text e.1 e.2

/-! ## What a plan makes of a part -/

/-- The written part that replaces a client's text part. -/
def PartPlan.writtenFor (plan : PartPlan) (name : String) : Option WrittenPart :=
  plan.written.find? fun written => written.client == name

/-- The upstream part that stands for a client's, if one does. -/
def PartPlan.image (plan : PartPlan) (part : MediaPartViewV1) : Option MediaPartV1 :=
  if part.name ∈ plan.dropped then none
  else
    match part with
    | .file name blob filename mediaType =>
        some (.file (renamed plan.renamedFile name) blob filename mediaType)
    | .text name value =>
        if name ∈ plan.droppedText then none
        else
          match plan.writtenFor name with
          | some written => some (.text written.upstream written.value)
          | none => some (.text (renamed plan.renamedText name) (value.getD ""))

/-- Whether a text part of the client's is replaced by the written part at a place. -/
def PartPlan.fills (plan : PartPlan) (index : Nat) : MediaPartViewV1 → Bool
  | .text name _ =>
      decide (name ∉ plan.dropped ∧ name ∉ plan.droppedText) && plan.position name == some index
  | .file _ _ _ _ => false

theorem getElem?_position {plan : PartPlan} {name : String} {index : Nat}
    (h : plan.position name = some index) :
    ∃ written, plan.written[index]? = some written ∧ plan.writtenFor name = some written ∧
      written.client = name := by
  obtain ⟨hlt, hclient, hfirst⟩ := List.findIdx?_eq_some_iff_getElem.mp h
  refine ⟨plan.written[index], List.getElem?_eq_getElem hlt, ?_, by simpa using hclient⟩
  rw [PartPlan.writtenFor, List.find?_eq_some_iff_getElem]
  exact ⟨hclient, index, hlt, rfl, fun j hj => by simpa using hfirst j hj⟩

theorem writtenFor_of_position {plan : PartPlan} {name : String}
    (h : plan.position name = none) : plan.writtenFor name = none := by
  rw [PartPlan.position, List.findIdx?_eq_none_iff] at h
  exact List.find?_eq_none.mpr fun written hwritten => by simpa using h written hwritten

/-- One step appends what stands for the part, and marks the written part it filled. -/
theorem rewritePart_eq (plan : PartPlan) (s : Rewriting) (part : MediaPartViewV1) :
    (rewritePart plan s part).out = s.out ++ (plan.image part).toList ∧
      ∀ index, (rewritePart plan s part).written[index]? =
        s.written[index]?.map fun seen => seen || plan.fills index part := by
  unfold rewritePart PartPlan.image
  split
  · rename_i hdropped
    refine ⟨by simp, fun index => ?_⟩
    have hfills : plan.fills index part = false := by
      cases part with
      | file => rfl
      | text name value =>
          have hmem : name ∈ plan.dropped := hdropped
          simp [PartPlan.fills, hmem]
    simp [hfills]
  · rename_i hdropped
    cases part with
    | file name blob filename mediaType =>
        exact ⟨rfl, fun index => by simp [PartPlan.fills, Rewriting.push]⟩
    | text name value =>
        have hkept : name ∉ plan.dropped := hdropped
        dsimp only
        split
        · rename_i htext
          exact ⟨by simp, fun index => by simp [PartPlan.fills, htext]⟩
        · rename_i htext
          rw [rewriteText]
          cases hposition : plan.position name with
          | none =>
              rw [writtenFor_of_position hposition]
              exact ⟨rfl, fun index => by simp [PartPlan.fills, hposition, Rewriting.push]⟩
          | some place =>
              obtain ⟨written, hget, hwritten, -⟩ := getElem?_position hposition
              rw [hwritten]
              dsimp only
              rw [hget]
              refine ⟨rfl, fun index => ?_⟩
              dsimp only
              rw [List.getElem?_set]
              by_cases hindex : place = index
              · subst hindex
                have hfills : plan.fills place (.text name value) = true := by
                  simp [PartPlan.fills, hkept, htext, hposition]
                rw [hfills, if_pos rfl]
                by_cases hlt : place < s.written.length
                · simp [hlt]
                · simp [hlt]
              · have hfills : plan.fills index (.text name value) = false := by
                  simp [PartPlan.fills, hposition, hindex]
                simp [hfills, hindex]

theorem foldl_rewritePart (plan : PartPlan) (parts : List MediaPartViewV1) (s : Rewriting) :
    (parts.foldl (rewritePart plan) s).out = s.out ++ parts.filterMap plan.image ∧
      ∀ index, (parts.foldl (rewritePart plan) s).written[index]? =
        s.written[index]?.map fun seen => seen || parts.any (plan.fills index) := by
  induction parts generalizing s with
  | nil => simp
  | cons part parts ih =>
      obtain ⟨hout, hwritten⟩ := rewritePart_eq plan s part
      obtain ⟨hrest, hflags⟩ := ih (rewritePart plan s part)
      constructor
      · rw [List.foldl_cons, hrest, hout, List.append_assoc]
        congr 1
        cases himage : plan.image part with
        | none => rw [List.filterMap_cons_none himage]; rfl
        | some image => rw [List.filterMap_cons_some himage]; rfl
      · intro index
        rw [List.foldl_cons, hflags, hwritten, Option.map_map]
        refine congrArg (Option.map · _) (funext fun seen => ?_)
        rw [Function.comp_apply, List.any_cons, Bool.or_assoc]

/-- The written parts that no part of the client's filled. -/
def PartPlan.unfilled (plan : PartPlan) (parts : List MediaPartViewV1) : List WrittenPart :=
  (plan.written.zipIdx.filter fun e => !parts.any (plan.fills e.2)).map Prod.fst

/-- The upstream parts: what stands for the client's in order, the written parts that
stand for none, and those always appended. -/
theorem rewriteParts_eq (parts : List MediaPartViewV1) (plan : PartPlan) :
    rewriteParts parts plan =
      parts.filterMap plan.image ++
        (plan.unfilled parts).map (fun written => .text written.upstream written.value) ++
        plan.appended.map fun e => .text e.1 e.2 := by
  obtain ⟨hout, hwritten⟩ := foldl_rewritePart plan parts ⟨[], plan.written.map fun _ => false⟩
  have hpairs : plan.written.zip
      (parts.foldl (rewritePart plan) ⟨[], plan.written.map fun _ => false⟩).written =
        plan.written.zipIdx.map fun e => (e.1, parts.any (plan.fills e.2)) := by
    refine List.ext_getElem? fun index => ?_
    rw [List.zip_eq_zipWith, List.getElem?_zipWith, hwritten, List.getElem?_map, List.getElem?_map,
      List.getElem?_zipIdx, Option.map_map, Option.map_map]
    cases plan.written[index]? with
    | none => rfl
    | some written => simp
  rw [rewriteParts, hout, hpairs, List.nil_append, PartPlan.unfilled, List.filter_map, List.map_map,
    List.map_map]
  rfl

end TokenStation.Speech
