import TokenStation.Media.Filling
import TokenStation.Media.Transform

/-!
# Render templates

A template of an image answer names its artifacts by markers. The check and the fill
are passes of one kind over the same markers: a checked template is filled exactly
when each marker gets what it asks for, and can be filled at all exactly when it asks
for every artifact in one way.
-/

namespace TokenStation.Media

open Library.Checked Library.Text Json

def artifactKey : String := "$south.artifact"

/-- How a render template delivers one artifact. -/
inductive ArtifactDeliveryV1 where
  | b64Json
  | url
deriving DecidableEq, Repr

structure ArtifactMarkerV1 where
  index : Nat
  delivery : ArtifactDeliveryV1
deriving DecidableEq, Repr

inductive ArtifactEncodingV1 where
  | base64
  | dataUrl
deriving DecidableEq, Repr

/-- Where one artifact is. -/
inductive ImageArtifactV1 where
  | inline (pointer : String) (encoding : ArtifactEncodingV1) (mediaType : String)
  | body (mediaType : String)
  | url (pointer : String) (mediaType : Option String)
deriving DecidableEq, Repr

/-- Base64 always; a URL only of a `url` artifact. -/
def ImageArtifactV1.allows (artifact : ImageArtifactV1) : ArtifactDeliveryV1 → Bool
  | .b64Json => true
  | .url =>
      match artifact with
      | .url _ _ => true
      | _ => false

/-- The refusals of the check and the fill. -/
inductive RenderTemplateError where
  | referenceIntegrity
  | delivery
deriving DecidableEq, Repr

/-- The value the host delivers for one artifact. -/
inductive DeliveredArtifactV1 where
  | bytes (data : List UInt8)
  | url (text : String)
deriving DecidableEq, Repr

section

-- How the JSON library reads the text of a marker.
variable (readMarker : String → Option ArtifactMarkerV1)

def markerOf :
    List (JsonString × Node) → Except RenderTemplateError (Option ArtifactMarkerV1)
  | [(key, value)] =>
      if key.decoded = artifactKey then
        match readMarker (writeCompact value) with
        | some marker => .ok (some marker)
        | none => .error .referenceIntegrity
      else .ok none
  | members =>
      if members.any fun member => member.1.decoded == artifactKey then .error .referenceIntegrity
      else .ok none

/-- The checks of a template; its tree is not needed. -/
def checkNode (artifacts : List ImageArtifactV1) (limits : MediaLimitsV1) :
    Pass RenderTemplateError ArtifactMarkerV1 where
  markOf := markerOf readMarker
  key key :=
    refuse (isReserved key.decoded = true ∨ limits.inlineStringBytes < (bytes key.decoded).length)
      .referenceIntegrity
  string string :=
    refuse (limits.inlineStringBytes < (bytes string.decoded).length) .referenceIntegrity
  put marker :=
    match artifacts[marker.index]? with
    | none => .error .referenceIntegrity
    | some artifact =>
        if artifact.allows marker.delivery then .ok (.scalar "") else .error .delivery

/-- The markers of a template in order. -/
def checkRenderTemplateV1 (template : String) (artifacts : List ImageArtifactV1)
    (limits : MediaLimitsV1) : Except RenderTemplateError (List ArtifactMarkerV1) := do
  let tree ← (parse template).mapError fun _ => .referenceIntegrity
  let (_, markers) ← (checkNode readMarker artifacts limits).walk tree
  return markers

/-- What a marker gets. -/
def deliveredText (delivered : List DeliveredArtifactV1) (marker : ArtifactMarkerV1) :
    Option String :=
  match marker.delivery, delivered[marker.index]? with
  | .b64Json, some (.bytes data) => some (encodeBase64 data)
  | .url, some (.url url) => some url
  | _, _ => none

def fillNode (delivered : List DeliveredArtifactV1) :
    Pass RenderTemplateError ArtifactMarkerV1 where
  markOf := markerOf readMarker
  key _ := .ok ()
  string _ := .ok ()
  put marker :=
    match deliveredText delivered marker with
    | some value => .ok (literal value)
    | none => .error .delivery

def fillRenderTemplateV1 (template : String) (delivered : List DeliveredArtifactV1) :
    Except RenderTemplateError String := do
  let tree ← (parse template).mapError fun _ => .referenceIntegrity
  let (tree, _) ← (fillNode readMarker delivered).walk tree
  return writeCompact tree

/-! ## Checked templates -/

variable {readMarker}

/-- The marker of an object, when it has one. -/
def markerIn (readMarker : String → Option ArtifactMarkerV1) :
    List (JsonString × Node) → Option ArtifactMarkerV1 :=
  markIn (markerOf readMarker)

/-- The check and the fill see the same markers. -/
theorem mark_check {artifacts : List ImageArtifactV1} {limits : MediaLimitsV1} :
    (checkNode readMarker artifacts limits).mark = markerIn readMarker := rfl

theorem check_eq_ok {template : String} {artifacts : List ImageArtifactV1}
    {limits : MediaLimitsV1} {markers : List ArtifactMarkerV1} :
    checkRenderTemplateV1 readMarker template artifacts limits = .ok markers ↔
      ∃ tree, parse template = .ok tree ∧ (checkNode readMarker artifacts limits).Fine tree ∧
        (∀ m ∈ markers, ∃ node, (checkNode readMarker artifacts limits).put m = .ok node) ∧
        markers = marks (markerIn readMarker) tree := by
  rw [checkRenderTemplateV1, bind_eq_ok]
  constructor
  · rintro ⟨tree, hparse, hwalk⟩
    obtain ⟨out, hout, hmarkers⟩ := bind_eq_ok.mp hwalk
    obtain ⟨hfine, hput, rfl⟩ := (Pass.walk_eq_ok tree out).mp hout
    obtain rfl := pure_eq_ok.mp hmarkers
    rw [mark_check] at hput
    exact ⟨tree, mapError_eq_ok.mp hparse, hfine, hput, rfl⟩
  · rintro ⟨tree, hparse, hfine, hput, rfl⟩
    rw [← @mark_check readMarker artifacts limits] at hput ⊢
    exact ⟨tree, mapError_eq_ok.mpr hparse,
      bind_eq_ok.mpr ⟨_, (Pass.walk_eq_ok tree _).mpr ⟨hfine, hput, rfl⟩, rfl⟩⟩

theorem fine_fill {artifacts : List ImageArtifactV1} {limits : MediaLimitsV1}
    (delivered : List DeliveredArtifactV1) {tree : Node}
    (h : (checkNode readMarker artifacts limits).Fine tree) :
    (fillNode readMarker delivered).Fine tree := by
  have hmark : (checkNode readMarker artifacts limits).markOf =
      (fillNode readMarker delivered).markOf := rfl
  exact Pass.Fine.weaken hmark (fun _ _ => rfl) (fun _ _ => rfl) tree h

theorem writes_fill (delivered : List DeliveredArtifactV1) :
    (fillNode readMarker delivered).Writes (deliveredText delivered) := by
  unfold fillNode
  constructor
  · intro marker text htext
    simp only [htext]
  · intro marker hnone
    simp only [hnone]
    exact ⟨_, rfl⟩

/-- A checked template is filled exactly when every marker gets what it asks for. -/
theorem fill_eq_ok {template text : String} {artifacts : List ImageArtifactV1}
    {limits : MediaLimitsV1} {tree : Node} (hparse : parse template = .ok tree)
    (hfine : (checkNode readMarker artifacts limits).Fine tree)
    (delivered : List DeliveredArtifactV1) :
    fillRenderTemplateV1 readMarker template delivered = .ok text ↔
      (∀ m ∈ marks (markerIn readMarker) tree, (deliveredText delivered m).isSome = true) ∧
        text = writeCompact (placed (markerIn readMarker)
          (fun m => literal ((deliveredText delivered m).getD "")) tree) := by
  rw [fillRenderTemplateV1, hparse]
  change ((fillNode readMarker delivered).walk tree >>= _) = _ ↔ _
  simp only [bind_eq_ok, pure_eq_ok]
  exact (writes_fill delivered).walk_iff (fine_fill delivered hfine)

/-- What a filled template is: the tree of the template with exactly its markers, in
order, replaced by the strings delivered for them; no reserved key is left. -/
structure FilledTemplate (readMarker : String → Option ArtifactMarkerV1) (tree filled : Node)
    (markers : List ArtifactMarkerV1) (delivered : List DeliveredArtifactV1) : Prop where
  markers_eq : markers = marks (markerIn readMarker) tree
  delivers : ∀ m ∈ markers, (deliveredText delivered m).isSome = true
  filled_eq : filled =
    placed (markerIn readMarker) (fun m => spoken ((deliveredText delivered m).getD "")) tree
  unreserved : Unreserved (objectsOf filled)

/-- A fill of a checked template replaces its markers and nothing else, and succeeds exactly
when each of them gets what it asks for. -/
theorem render_template_filled {template : String} {artifacts : List ImageArtifactV1}
    {limits : MediaLimitsV1} {markers : List ArtifactMarkerV1}
    (hcheck : checkRenderTemplateV1 readMarker template artifacts limits = .ok markers)
    (delivered : List DeliveredArtifactV1) :
    (∀ text, fillRenderTemplateV1 readMarker template delivered = .ok text →
      ∃ tree filled, parse template = .ok tree ∧ parse text = .ok filled ∧
        FilledTemplate readMarker tree filled markers delivered) ∧
    ((∃ text, fillRenderTemplateV1 readMarker template delivered = .ok text) ↔
      ∀ m ∈ markers, (deliveredText delivered m).isSome = true) := by
  obtain ⟨tree, hparse, hfine, -, rfl⟩ := check_eq_ok.mp hcheck
  constructor
  · intro text htext
    obtain ⟨hall, rfl⟩ := (fill_eq_ok hparse hfine delivered).mp htext
    refine ⟨tree, _, hparse, parse_placed hparse _, rfl, hall, rfl, ?_⟩
    refine @Pass.unreserved_placed _ _ (checkNode readMarker artifacts limits) _
      (fun key hkey => ?_) tree hfine
    have hrefused := refuse_eq_ok.mp hkey
    rw [not_or, Bool.not_eq_true] at hrefused
    exact hrefused.1
  · constructor
    · rintro ⟨text, htext⟩
      exact ((fill_eq_ok hparse hfine delivered).mp htext).1
    · intro hall
      exact ⟨_, (fill_eq_ok hparse hfine delivered).mpr ⟨hall, rfl⟩⟩

/-- A reader of the two markers of the first artifact. -/
def readsFirst (text : String) : Option ArtifactMarkerV1 :=
  if text = "\x7b\"index\":0,\"as\":\"url\"\x7d" then some ⟨0, .url⟩
  else if text = "\x7b\"index\":0,\"as\":\"b64_json\"\x7d" then some ⟨0, .b64Json⟩
  else none

/-- A template that asks for its artifact as a URL and as bytes. -/
def bothWays : String :=
  "[\x7b\"$south.artifact\":\x7b\"index\":0,\"as\":\"url\"\x7d\x7d," ++
    "\x7b\"$south.artifact\":\x7b\"index\":0,\"as\":\"b64_json\"\x7d\x7d]"

theorem bothWays_checked (limits : MediaLimitsV1) :
    checkRenderTemplateV1 readsFirst bothWays [.url "/data/0/url" none] limits =
      .ok [⟨0, .url⟩, ⟨0, .b64Json⟩] := by
  cbv

theorem bothWays_unfilled :
    ¬ ∃ text, fillRenderTemplateV1 readsFirst bothWays [.url "https://images/0"] = .ok text := by
  intro h
  have hall := (render_template_filled (bothWays_checked .v1) _).2.mp h
  exact absurd (hall ⟨0, .b64Json⟩ (by decide)) (by decide)

/-! ## Templates that can be filled -/

/-- What the check says of a marker. -/
theorem checked_marker {artifacts : List ImageArtifactV1} {limits : MediaLimitsV1}
    {marker : ArtifactMarkerV1}
    (h : ∃ node, (checkNode readMarker artifacts limits).put marker = .ok node) :
    ∃ artifact, artifacts[marker.index]? = some artifact ∧
      artifact.allows marker.delivery = true := by
  obtain ⟨node, h⟩ := h
  unfold checkNode at h
  cases hartifact : artifacts[marker.index]? with
  | none => simp [hartifact] at h
  | some artifact =>
      refine ⟨artifact, rfl, ?_⟩
      by_contra hnot
      simp [hartifact, hnot] at h

/-- One value for each artifact, a URL only for a `url` artifact. -/
structure Deliverable (artifacts : List ImageArtifactV1) (delivered : List DeliveredArtifactV1) :
    Prop where
  length_eq : delivered.length = artifacts.length
  urls : ∀ (i : Nat) (text : String), delivered[i]? = some (DeliveredArtifactV1.url text) →
    ∃ pointer mediaType, artifacts[i]? = some (ImageArtifactV1.url pointer mediaType)

/-- Deliver a URL where some marker asks for one, bytes elsewhere. -/
def askedFor (markers : List ArtifactMarkerV1) (count : Nat) : List DeliveredArtifactV1 :=
  (List.range count).map fun i =>
    if markers.any fun m => m.index == i && m.delivery == .url then DeliveredArtifactV1.url ""
    else DeliveredArtifactV1.bytes []

theorem askedFor_getElem? (markers : List ArtifactMarkerV1) {count i : Nat} (h : i < count) :
    (askedFor markers count)[i]? =
      some (if markers.any fun m => m.index == i && m.delivery == .url then
          DeliveredArtifactV1.url "" else DeliveredArtifactV1.bytes []) := by
  simp [askedFor, h]

/-- A checked template can be filled exactly when it asks for every artifact in one way. -/
theorem fillable_iff_one_delivery {template : String} {artifacts : List ImageArtifactV1}
    {limits : MediaLimitsV1} {markers : List ArtifactMarkerV1}
    (hcheck : checkRenderTemplateV1 readMarker template artifacts limits = .ok markers) :
    (∃ delivered, Deliverable artifacts delivered ∧
        ∃ text, fillRenderTemplateV1 readMarker template delivered = .ok text) ↔
      ∀ m ∈ markers, ∀ n ∈ markers, m.index = n.index → m.delivery = n.delivery := by
  obtain ⟨-, -, -, hput, -⟩ := check_eq_ok.mp hcheck
  constructor
  · rintro ⟨delivered, -, hfilled⟩ m hm n hn hindex
    have hall := (render_template_filled hcheck delivered).2.mp hfilled
    have hfirst := hall m hm
    have hsecond := hall n hn
    unfold deliveredText at hfirst hsecond
    rw [hindex] at hfirst
    cases hm' : m.delivery <;> cases hn' : n.delivery <;> try rfl
    all_goals
      rw [hm'] at hfirst
      rw [hn'] at hsecond
      rcases hvalue : delivered[n.index]? with _ | (data | url) <;> simp [hvalue] at hfirst hsecond
  · intro hone
    refine ⟨askedFor markers artifacts.length, ⟨by simp [askedFor], ?_⟩, ?_⟩
    · intro i text hurl
      have hlt : i < artifacts.length := by
        have := (List.getElem?_eq_some_iff.mp hurl).1
        simpa [askedFor] using this
      rw [askedFor_getElem? markers hlt] at hurl
      split at hurl
      · rename_i hasked
        obtain ⟨m, hm, hmatch⟩ := List.any_eq_true.mp hasked
        simp only [Bool.and_eq_true, beq_iff_eq] at hmatch
        obtain ⟨artifact, hartifact, hallows⟩ := checked_marker (hput m hm)
        rw [hmatch.1] at hartifact
        rw [hmatch.2] at hallows
        cases artifact with
        | url pointer mediaType => exact ⟨pointer, mediaType, hartifact⟩
        | inline | body => simp [ImageArtifactV1.allows] at hallows
      · simp at hurl
    · refine (render_template_filled hcheck _).2.mpr fun m hm => ?_
      obtain ⟨artifact, hartifact, -⟩ := checked_marker (hput m hm)
      have hlt := (List.getElem?_eq_some_iff.mp hartifact).1
      unfold deliveredText
      rw [askedFor_getElem? markers hlt]
      cases hdelivery : m.delivery with
      | url =>
          have hasked : (markers.any fun n => n.index == m.index && n.delivery == .url) = true :=
            List.any_eq_true.mpr ⟨m, hm, by simp [hdelivery]⟩
          simp [hasked]
      | b64Json =>
          have hasked : (markers.any fun n => n.index == m.index && n.delivery == .url) = false := by
            rw [List.any_eq_false]
            intro n hn
            simp only [Bool.and_eq_true, beq_iff_eq, not_and]
            intro hindex hurl
            have hsame := hone n hn m hm hindex
            rw [hurl, hdelivery] at hsame
            cases hsame
          simp [hasked]

theorem bothWays_unfillable :
    ¬ ∃ delivered, Deliverable [.url "/data/0/url" none] delivered ∧
        ∃ text, fillRenderTemplateV1 readsFirst bothWays delivered = .ok text := by
  intro h
  have hone := (fillable_iff_one_delivery (bothWays_checked .v1)).mp h
  exact absurd (hone ⟨0, .url⟩ (by decide) ⟨0, .b64Json⟩ (by decide) rfl) (by decide)

end

end TokenStation.Media
