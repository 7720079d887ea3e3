import TokenStation.Responses.Frames

/-!
# Completed runs

The items machine of a stream: content events that `Accepts` lets through move
the items by `after` and hand out the frames `emits` describes. Every run of
the renderer that completes is a run of this machine, closed by one done event.
-/

namespace TokenStation.Responses

open Library Library.Json Library.Fallible

namespace Items

/-- No items yet. -/
def start (context : ResponsesContext) (map : ToolMap) : Items :=
  ⟨context, [], [], some map, [], [], [], []⟩

def after (s : Items) : StreamEvent → Items
  | .delta index content => s.afterDelta index content
  | .thinkingDelta index blockIndex text => s.afterThinking index blockIndex text
  | .thinkingSignatureDelta index blockIndex text => s.afterSignature index blockIndex text
  | .redactedThinking index blockIndex data => s.afterRedacted index blockIndex data
  | .toolCallDelta index id name arguments _ => s.afterTool index id name arguments
  | _ => s

def emits (packages : Packages) (s : Items) : StreamEvent → Nat → List Mark
  | .delta index _ => s.deltaEmits packages index
  | .thinkingDelta index blockIndex text => s.thinkingEmits index blockIndex text
  | .thinkingSignatureDelta index blockIndex text =>
      (s.signed index blockIndex text).addEmits index
  | .redactedThinking index blockIndex data => (s.redacted index blockIndex data).addEmits index
  | .toolCallDelta index id name _ _ => s.toolEmits packages index id name
  | _ => fun _ => []

/-- The frames of an event, before they are numbered. -/
def sends (packages : Packages) (s : Items) : StreamEvent → List Payload
  | .delta index content => s.deltaSends packages index content
  | .thinkingDelta index blockIndex text => s.thinkingSends index blockIndex text
  | .thinkingSignatureDelta index blockIndex text =>
      (s.signed index blockIndex text).addSends index
  | .redactedThinking index blockIndex data => (s.redacted index blockIndex data).addSends index
  | .toolCallDelta index id name arguments _ => s.toolSends packages index id name arguments
  | _ => []

theorem sends_ordinary (packages : Packages) (s : Items) (event : StreamEvent) :
    AllOrdinary (s.sends packages event) := by
  cases event with
  | delta index content =>
      exact ((rawSends_ordinary packages s index).append
        (.ite (.cons (by decide) (.single (by decide))) .nil)).append (.single (by decide))
  | thinkingDelta index blockIndex text =>
      refine .append (.ite (.cons (by decide) (.ite (.single (by decide)) .nil)) .nil) ?_
      cases s.context.reasoning with
      | rawContent => exact .single (by decide)
      | summary => exact .single (by decide)
  | thinkingSignatureDelta | redactedThinking => exact .ite (.single (by decide)) .nil
  | toolCallDelta index id name arguments =>
      exact ((rawSends_ordinary packages s index).append
        (.ite (.single (by decide)) .nil)).append (.ite (.single (by decide)) .nil)
  | usage | finish | done | error => exact .nil

/-- What a fragment of a call that is open must keep. -/
def SameCall (s : Items) (slot : Slot) (id name : Option String) : Prop :=
  (∀ callId, id = some callId → callId = slot.callId) ∧
    ∀ n, name = some n → (slot.name = "" ∧ s.context.allowIncompleteToolCalls = true) ∨
      n = slot.name

/-- What the renderer checks of an event, the size bounds apart. -/
def Accepts (s : Items) : StreamEvent → Prop
  | .thinkingDelta index blockIndex _ =>
      ∀ data, Library.lookup (index, blockIndex) s.replayBlocks ≠ some (.redacted data)
  | .thinkingSignatureDelta index blockIndex _ =>
      ∃ thinking signature,
        Library.lookup (index, blockIndex) s.replayBlocks = some (.thinking thinking signature)
  | .redactedThinking index blockIndex _ =>
      Library.lookup (index, blockIndex) s.replayBlocks = none
  | .toolCallDelta index id name _ _ =>
      let r := s.closedRaw index
      if r.isNew .tool index then
        firstIdentity r.context index id name = .ok (r.identity index id name)
      else r.SameCall (r.slotAt (r.place .tool index)) id name
  | _ => True

/-- The items after a list of events. -/
def afterAll (s : Items) (events : List StreamEvent) : Items := events.foldl after s

/-- What the frames of a list of events say about each output index. -/
def emitsAll (packages : Packages) (s : Items) : List StreamEvent → Nat → List Mark
  | [], _ => []
  | event :: events, q =>
      s.emits packages event q ++ emitsAll packages (s.after event) events q

def sendsAll (packages : Packages) (s : Items) : List StreamEvent → List Payload
  | [] => []
  | event :: events => s.sends packages event ++ sendsAll packages (s.after event) events

def AcceptsAll (s : Items) : List StreamEvent → Prop
  | [] => True
  | event :: events => s.Accepts event ∧ (s.after event).AcceptsAll events

end Items

/-- Invariants of the items machine. -/
theorem afterAll_induction {P : List StreamEvent → Items → Prop} {s : Items}
    (hstart : P [] s)
    (hstep : ∀ events event t, P events t → t.Accepts event → P (events ++ [event]) (t.after event)) :
    ∀ events, s.AcceptsAll events → P events (s.afterAll events) := by
  have hgeneral : ∀ events seen t, P seen t → t.AcceptsAll events →
      P (seen ++ events) (t.afterAll events) := by
    intro events
    induction events with
    | nil =>
        intro seen t ht _
        simpa [Items.afterAll] using ht
    | cons event events ih =>
        intro seen t ht haccepts
        have hrest := ih (seen ++ [event]) (t.after event) (hstep seen event t ht haccepts.1)
          haccepts.2
        rw [List.append_assoc, List.singleton_append] at hrest
        exact hrest
  intro events haccepts
  simpa using hgeneral events [] s hstart haccepts

theorem acceptsAll_snoc {s : Items} {events : List StreamEvent} {event : StreamEvent} :
    s.AcceptsAll (events ++ [event]) ↔ s.AcceptsAll events ∧ (s.afterAll events).Accepts event := by
  induction events generalizing s with
  | nil => simp [Items.AcceptsAll, Items.afterAll]
  | cons first events ih =>
      rw [List.cons_append, Items.AcceptsAll, Items.AcceptsAll, ih, and_assoc]
      rfl

theorem afterAll_snoc (s : Items) (events : List StreamEvent) (event : StreamEvent) :
    s.afterAll (events ++ [event]) = (s.afterAll events).after event := by
  simp [Items.afterAll]

theorem emitsAll_snoc (packages : Packages) (s : Items) (events : List StreamEvent)
    (event : StreamEvent) (q : Nat) :
    s.emitsAll packages (events ++ [event]) q =
      s.emitsAll packages events q ++ (s.afterAll events).emits packages event q := by
  induction events generalizing s with
  | nil => simp [Items.emitsAll, Items.afterAll]
  | cons first events ih =>
      rw [List.cons_append, Items.emitsAll, Items.emitsAll, ih, List.append_assoc]
      rfl

theorem sendsAll_snoc (packages : Packages) (s : Items) (events : List StreamEvent)
    (event : StreamEvent) :
    s.sendsAll packages (events ++ [event]) =
      s.sendsAll packages events ++ (s.afterAll events).sends packages event := by
  induction events generalizing s with
  | nil => simp [Items.sendsAll, Items.afterAll]
  | cons first events ih =>
      rw [List.cons_append, Items.sendsAll, Items.sendsAll, ih, List.append_assoc]
      rfl

/-! ## The machine keeps its slots in order -/

/-- Changes of the replay tables alone. -/
theorem Items.Orderly.of_slots {s t : Items} (hs : s.Orderly) (hslots : t.slots = s.slots)
    (hlookup : t.lookup = s.lookup) : t.Orderly :=
  hs.map (f := fun _ => id) (by simp [hslots]) hlookup fun _ _ => ⟨rfl, rfl, rfl⟩

theorem orderly_laidOut {s : Items} (hs : s.Orderly) (new : Bool) (entry : ReplayLayout) :
    (s.laidOut new entry).Orderly := by
  unfold Items.laidOut
  split
  · exact hs.of_slots rfl rfl
  · exact hs

theorem thought_fields (s : Items) (index blockIndex : Nat) (text : String) :
    (s.thought index blockIndex text).slots = s.slots ∧
      (s.thought index blockIndex text).lookup = s.lookup ∧
      (s.thought index blockIndex text).context = s.context ∧
      (s.thought index blockIndex text).restore = s.restore := by
  unfold Items.thought
  split <;> exact ⟨rfl, rfl, rfl, rfl⟩

theorem signed_fields (s : Items) (index blockIndex : Nat) (text : String) :
    (s.signed index blockIndex text).slots = s.slots ∧
      (s.signed index blockIndex text).lookup = s.lookup ∧
      (s.signed index blockIndex text).context = s.context ∧
      (s.signed index blockIndex text).restore = s.restore := by
  unfold Items.signed
  split
  · simp only
    split <;> exact ⟨rfl, rfl, rfl, rfl⟩
  · exact ⟨rfl, rfl, rfl, rfl⟩

theorem orderly_toolNamed {r : Items} (hr : r.Orderly) (index : Nat) (id name : Option String) :
    (r.toolNamed index id name).Orderly := by
  unfold Items.toolNamed
  split
  · exact orderly_touchSlot (orderly_laidOut (orderly_placed hr .tool index) true _) _
      fun _ => ⟨rfl, rfl, rfl⟩
  · exact orderly_touchSlot hr _ fun _ => ⟨rfl, rfl, rfl⟩

theorem orderly_after {s : Items} (hs : s.Orderly) (event : StreamEvent) :
    (s.after event).Orderly := by
  cases event with
  | delta index content =>
      refine orderly_touchSlot (orderly_laidOut (orderly_placed ?_ _ _) _ _) _
        fun _ => ⟨rfl, rfl, rfl⟩
      exact orderly_closedRaw hs index
  | thinkingDelta index blockIndex text =>
      obtain ⟨hslots, hlookup, -, -⟩ := thought_fields s index blockIndex text
      exact orderly_touchSlot (orderly_placed (hs.of_slots hslots hlookup) _ _) _
        fun _ => ⟨rfl, rfl, rfl⟩
  | thinkingSignatureDelta index blockIndex text =>
      obtain ⟨hslots, hlookup, -, -⟩ := signed_fields s index blockIndex text
      have hplaced := orderly_placed (hs.of_slots hslots hlookup) .reasoning index
      simp only [Items.after, Items.afterSignature]
      split
      · exact orderly_touchSlot hplaced _ fun _ => ⟨rfl, rfl, rfl⟩
      · exact hplaced
  | redactedThinking index blockIndex data =>
      have hredacted : (s.redacted index blockIndex data).Orderly := hs.of_slots rfl rfl
      exact orderly_placed hredacted .reasoning index
  | toolCallDelta index id name arguments =>
      exact orderly_touchSlot (orderly_toolNamed (orderly_closedRaw hs index) index id name) _
        fun _ => ⟨rfl, rfl, rfl⟩
  | usage => exact hs
  | finish => exact hs
  | done => exact hs
  | error => exact hs

theorem orderly_start (context : ResponsesContext) (map : ToolMap) :
    (Items.start context map).Orderly := by
  refine ⟨?_, ?_⟩
  · intro q slot hslot
    simp [Items.start] at hslot
  · intro kind index position h
    simp [Items.start, lookup] at h

theorem orderly_afterAll {s : Items} (hs : s.Orderly) (events : List StreamEvent) :
    (s.afterAll events).Orderly := by
  induction events generalizing s with
  | nil => exact hs
  | cons event events ih => exact ih (orderly_after hs event)

/-! ## What the renderer accepts -/

theorem accepts_thinkingDelta {index blockIndex : Nat} {text : String} {s t : Rendering}
    (h : Returns (renderThinkingDelta index blockIndex text) s () t) :
    s.Accepts (.thinkingDelta index blockIndex text) := by
  intro data hblock
  obtain ⟨_, s₁, happend, -⟩ := returns_bind.mp h
  rw [appendThinking, returns_get_bind, hblock] at happend
  exact not_returns_fail happend

theorem accepts_signatureDelta {index blockIndex : Nat} {text : String} {s t : Rendering}
    (h : Returns (renderSignatureDelta index blockIndex text) s () t) :
    s.Accepts (.thinkingSignatureDelta index blockIndex text) := by
  rw [renderSignatureDelta, returns_get_bind] at h
  split at h
  · rename_i thinking signature hblock
    exact ⟨thinking, signature, hblock⟩
  · exact absurd h not_returns_fail

theorem accepts_redacted {index blockIndex : Nat} {data : String} {s t : Rendering}
    (h : Returns (renderRedacted index blockIndex data) s () t) :
    s.Accepts (.redactedThinking index blockIndex data) := by
  rw [renderRedacted, returns_get_bind] at h
  split at h
  · exact absurd h not_returns_fail
  · rename_i hnone
    simpa [Items.Accepts] using hnone

theorem sameCall_continueTool {position : Nat} {id name : Option String} {s t : Rendering}
    (h : Returns (continueTool position id name) s () t) :
    s.SameCall (s.slotAt position) id name := by
  rw [continueTool, returns_get_bind] at h
  simp only at h
  split at h
  · exact absurd h not_returns_fail
  · rename_i hid
    refine ⟨?_, ?_⟩
    · rintro callId rfl
      simpa using hid
    · rintro n rfl
      simp only at h
      split at h
      · rename_i hlate
        exact .inl hlate
      · split at h
        · rename_i hname
          exact .inr hname
        · exact absurd h not_returns_fail

theorem accepts_tool (packages : Packages) {index : Nat} {id name : Option String}
    {arguments : String} {signature : Option String} {s t : Rendering} (hs : s.Orderly)
    (h : Returns (renderTool packages index id name arguments) s () t) :
    s.Accepts (.toolCallDelta index id name arguments signature) := by
  obtain ⟨_, s₁, hraw, h⟩ := returns_bind.mp h
  obtain ⟨hitems₁, -⟩ := closeRawReasoning_returns packages hs.indexed hraw
  have hr := orderly_closedRaw hs index
  unfold Items.Accepts
  simp only
  generalize s.toItems.closedRaw index = r at hr hitems₁ ⊢
  obtain ⟨⟨p, new⟩, s₂, hplace, h⟩ := returns_bind.mp h
  obtain ⟨hp, hitems₂, -, -, -, -, -⟩ := slot_placed hr hitems₁ hplace
  obtain ⟨rfl, rfl⟩ := Prod.mk.inj hp
  obtain ⟨_, s₃, hnamed, -⟩ := returns_bind.mp h
  obtain ⟨hcontext, -⟩ := placed_fields r .tool index
  cases hnew : r.isNew .tool index with
  | true =>
      rw [hnew, if_pos rfl, openTool, returns_get_bind] at hnamed
      obtain ⟨call, hcall, -⟩ := returns_lift_bind.mp hnamed
      have hidentity := firstIdentity_eq_ok hcall
      rw [hitems₂, hcontext] at hcall
      simp only [Items.identity, hitems₂, hcontext] at hidentity
      rw [if_pos rfl, hcall, hidentity]
      rfl
  | false =>
      have hplaced : r.placed .tool index = r := by
        rw [Items.placed, hnew]
        rfl
      rw [hnew] at hnamed
      have hsame := sameCall_continueTool hnamed
      rw [hitems₂, hplaced] at hsame
      exact hsame

theorem Keeps.status {s t : Rendering} (h : Keeps [] s t) : t.status = s.status := h.1

/-- The renderer of a content event is a step of the items machine. -/
theorem renderBody_returns (packages : Packages) {event : StreamEvent} {s t : Rendering}
    (hcontent : event.isContent = true) (hs : s.Orderly)
    (h : Returns (renderBody packages event) s () t) :
    s.Accepts event ∧ t.toItems = s.toItems.after event ∧ Emits (s.emits packages event) s t ∧
      Sends (s.sends packages event) s t ∧ t.status = s.status := by
  cases event with
  | delta index content =>
      obtain ⟨hitems, hmarks⟩ := renderDelta_returns packages hs h
      exact ⟨trivial, hitems, hmarks, renderDelta_sends packages hs h,
        Keeps.status (keeps_renderDelta packages _ _ h)⟩
  | thinkingDelta index blockIndex text =>
      obtain ⟨hslots, hlookup, -, -⟩ := thought_fields s.toItems index blockIndex text
      obtain ⟨hitems, hmarks⟩ := renderThinkingDelta_returns (hs.of_slots hslots hlookup) h
      exact ⟨accepts_thinkingDelta h, hitems, hmarks,
        renderThinkingDelta_sends (hs.of_slots hslots hlookup) h,
        Keeps.status (keeps_renderThinkingDelta _ _ _ h)⟩
  | thinkingSignatureDelta index blockIndex text =>
      obtain ⟨hslots, hlookup, -, -⟩ := signed_fields s.toItems index blockIndex text
      obtain ⟨hitems, hmarks⟩ := renderSignatureDelta_returns (hs.of_slots hslots hlookup) h
      exact ⟨accepts_signatureDelta h, hitems, hmarks,
        renderSignatureDelta_sends (hs.of_slots hslots hlookup) h,
        Keeps.status (keeps_renderSignatureDelta _ _ _ h)⟩
  | redactedThinking index blockIndex data =>
      obtain ⟨hitems, hmarks⟩ := renderRedacted_returns (hs.of_slots rfl rfl) h
      exact ⟨accepts_redacted h, hitems, hmarks, renderRedacted_sends (hs.of_slots rfl rfl) h,
        Keeps.status (keeps_renderRedacted _ _ _ h)⟩
  | toolCallDelta index id name arguments =>
      obtain ⟨hitems, hmarks⟩ := renderTool_returns packages hs h
      exact ⟨accepts_tool packages hs h, hitems, hmarks, renderTool_sends packages hs h,
        Keeps.status (keeps_renderTool packages _ _ _ _ h)⟩
  | usage =>
      obtain rfl := returns_modify.mp h
      exact ⟨trivial, rfl, Emits.of_out rfl, Sends.of_out rfl, rfl⟩
  | finish =>
      obtain rfl := returns_modify.mp h
      exact ⟨trivial, rfl, Emits.of_out rfl, Sends.of_out rfl, rfl⟩
  | done => cases hcontent
  | error => cases hcontent

/-! ## The done event -/

/-- Every active choice has its carrier, and nothing else is new. -/
def Items.CarriersBuilt (packages : Packages) (s : Items) (carriers : List (Nat × String)) : Prop :=
  ∀ index, if index ∈ s.replayActive then
      ∃ carrier, s.buildReplayCarrier packages index = .ok carrier ∧
        Library.lookup index carriers = some carrier
    else Library.lookup index carriers = Library.lookup index s.replayCarriers

/-- The items with their carriers, before the slots close. -/
def Items.withCarriers (s : Items) (carriers : List (Nat × String)) : Items :=
  { s with replayCarriers := carriers }

/-- The items once every slot is closed and the carriers are in. -/
def Items.finished (s : Items) (carriers : List (Nat × String)) : Items :=
  { s with slots := s.slots.map (closing fun _ => true), replayCarriers := carriers }

theorem replayBlocksOf_carriers (s : Items) (carriers : List (Nat × String)) (index ordinal : Nat)
    (layout : List ReplayLayout) :
    { s with replayCarriers := carriers }.replayBlocksOf index ordinal layout =
      s.replayBlocksOf index ordinal layout := by
  induction layout generalizing ordinal with
  | nil => rfl
  | cons entry layout ih =>
      cases entry with
      | reasoning choice blockIndex => simp only [Items.replayBlocksOf, ih]
      | text position => simp only [Items.replayBlocksOf, ih]
      | tool position => simp only [Items.replayBlocksOf, ih]

theorem finalize_forM (packages : Packages) {s t : Rendering} {active : List Nat}
    (h : Returns (active.forM fun index => do
      let s ← get
      let carrier ← lift (s.buildReplayCarrier packages index)
      modify fun s => { s with replayCarriers := store index carrier s.replayCarriers }) s () t) :
    t.toItems = { s.toItems with replayCarriers := t.replayCarriers } ∧ t.out = s.out ∧
      ∀ index, if index ∈ active then
          ∃ carrier, s.buildReplayCarrier packages index = .ok carrier ∧
            Library.lookup index t.replayCarriers = some carrier
        else Library.lookup index t.replayCarriers = Library.lookup index s.replayCarriers := by
  induction active generalizing s with
  | nil =>
      obtain rfl := returns_forM_nil.mp h
      exact ⟨rfl, rfl, by simp⟩
  | cons first active ih =>
      obtain ⟨u, hfirst, hrest⟩ := returns_forM_cons.mp h
      obtain ⟨carrier, hcarrier, hstore⟩ := returns_lift_bind.mp (returns_get_bind.mp hfirst)
      obtain rfl := returns_modify.mp hstore
      obtain ⟨hitems, hout, hbuilt⟩ := ih hrest
      refine ⟨hitems, hout, fun index => ?_⟩
      have hindex := hbuilt index
      have hsame : ∀ i, { s with replayCarriers := store first carrier s.replayCarriers
          }.buildReplayCarrier packages i = s.buildReplayCarrier packages i := by
        intro i
        simp only [Items.buildReplayCarrier, replayBlocksOf_carriers]
      simp only [hsame, lookup_store] at hindex
      by_cases hmem : index ∈ active
      · simpa [hmem] using hindex
      · by_cases heq : index = first
        · subst heq
          simpa [hmem, hcarrier] using hindex
        · simpa [hmem, heq, Ne.symm heq] using hindex

theorem finalizeReplayCarriers_returns (packages : Packages) {s t : Rendering}
    (h : Returns (finalizeReplayCarriers packages) s () t) :
    t.toItems = { s.toItems with replayCarriers := t.replayCarriers } ∧ t.out = s.out ∧
      s.CarriersBuilt packages t.replayCarriers := by
  rw [finalizeReplayCarriers, returns_get_bind] at h
  exact finalize_forM packages h

/-- The frame that ends a completed stream, with the output it reports. -/
structure Terminal (f : ResponsesFrame) (output : List Value) : Prop where
  event : f.event = "response.completed" ∨ f.event = "response.incomplete"
  output : (f.data.field "response").field "output" = .array output
  unindexed : f.outputIndex = none

theorem responseObject_output {context : ResponsesContext} {output : List Value} {usage : Usage}
    {finish : Option FinishReason} {response : Value}
    (h : responseObject context output usage finish = .ok response) :
    response.field "output" = .array output := by
  unfold responseObject at h
  split at h
  · cases h
    simp [Value.field, lookup]
  · cases h

theorem renderDone_returns (packages : Packages) {finishReason : Option FinishReason}
    {s t : Rendering} (hs : s.Orderly) (h : Returns (renderDone packages finishReason) s () t) :
    t.status = .completed ∧ ∃ carriers output front last,
      s.CarriersBuilt packages carriers ∧ t.toItems = s.toItems.finished carriers ∧
      (t.slots.mapM (t.item packages)) = .ok output ∧ t.out = front ++ [last] ∧
      (∀ q, marks front q = marks s.out q ++ s.closeEmits packages (fun _ => true) q) ∧
      (∃ fs, front = s.out ++ fs ∧ List.Forall₂ Stamped fs
        ((s.toItems.withCarriers carriers).closingSends packages fun _ => true)) ∧
      Terminal last output := by
  obtain ⟨_, s₁, hfinal, h⟩ := returns_bind.mp h
  obtain ⟨hitems₁, hout₁, hbuilt⟩ := finalizeReplayCarriers_returns packages hfinal
  obtain ⟨_, s₂, hclose, h⟩ := returns_bind.mp (returns_get_bind.mp h)
  have hs₁ : s₁.Orderly := hitems₁ ▸ hs.of_slots rfl rfl
  obtain ⟨hitems₂, hmarks₂⟩ := closeAll_returns packages hs₁.indexed hclose
  obtain ⟨fs, hfs, hstamped⟩ := closeAll_sends packages hs₁.indexed hclose
  obtain ⟨output, houtput, h⟩ := returns_lift_bind.mp (returns_get_bind.mp h)
  obtain ⟨_, s₃, hfinish, h⟩ := returns_bind.mp h
  have hquiet : Quiet s₂ s₃ := by
    rcases returns_when.mp hfinish with ⟨-, hfinish⟩ | ⟨-, rfl⟩
    · obtain rfl := returns_modify.mp hfinish
      exact ⟨rfl, rfl⟩
    · exact ⟨rfl, rfl⟩
  obtain ⟨response, hresponse, h⟩ := returns_lift_bind.mp (returns_get_bind.mp h)
  obtain ⟨_, s₄, hemit, hstatus⟩ := returns_bind.mp h
  obtain rfl := emit_returns hemit
  obtain rfl := returns_modify.mp hstatus
  have hitems : s₃.toItems = s.toItems.finished s₁.replayCarriers := by
    rw [hquiet.1, hitems₂, hitems₁]
    rfl
  refine ⟨rfl, s₁.replayCarriers, output, s₃.out, _, hbuilt, hitems, ?_, rfl, ?_,
    ⟨fs, ?_, ?_⟩, ?_⟩
  · rw [hquiet.1]
    exact houtput
  · intro q
    rw [hquiet.2, hmarks₂ q, hout₁, hitems₁]
    rfl
  · rw [hquiet.2, hfs, hout₁]
  · rw [hitems₁] at hstamped
    exact hstamped
  · refine ⟨?_, ?_, ?_⟩
    · simp only
      split
      · exact .inr rfl
      · exact .inl rfl
    · rw [stamp_field _ _ (by decide) (by decide)]
      simpa [lookup] using responseObject_output hresponse
    · rw [ResponsesFrame.outputIndex, stamp_field _ _ (by decide) (by decide)]
      simp [lookup]

/-! ## Whole runs -/

/-- The frames between the announcement of the response and its failure. -/
def content (frames : List ResponsesFrame) : List ResponsesFrame :=
  frames.filter fun f => f.event != createdEvent && f.event != "response.failed"

@[simp] theorem content_append (frames more : List ResponsesFrame) :
    content (frames ++ more) = content frames ++ content more := by
  simp [content]

theorem content_stamped {frames : List ResponsesFrame} {ps : List Payload}
    (h : List.Forall₂ Stamped frames ps) (hordinary : AllOrdinary ps) :
    content frames = frames := by
  induction h with
  | nil => rfl
  | cons hfirst _ ih =>
      obtain ⟨n, rfl⟩ := hfirst
      obtain ⟨hcreated, hterminal⟩ := hordinary _ List.mem_cons_self
      have hfailed : _ ≠ "response.failed" := ne_of_mem_of_not_mem (by decide) hterminal |>.symm
      have hrest := ih fun p hp => hordinary p (List.mem_cons_of_mem _ hp)
      rw [content, List.filter_cons_of_pos (by simp [hcreated, hfailed])]
      exact congrArg _ hrest

/-- A reading of frames in which their numbers, and the frames outside the
content, play no part. -/
structure Numberless {α : Type} (read : ResponsesFrame → Option α) : Prop where
  stamped : ∀ f p, Stamped f p → read f = read p.frame
  silent : ∀ f : ResponsesFrame, f.event = createdEvent ∨ f.event = "response.failed" →
    read f = none

theorem Numberless.of_content {α : Type} {read : ResponsesFrame → Option α} (h : Numberless read)
    (frames : List ResponsesFrame) : (content frames).filterMap read = frames.filterMap read := by
  induction frames with
  | nil => rfl
  | cons f frames ih =>
      rw [content] at ih ⊢
      by_cases hkeep : (f.event != createdEvent && f.event != "response.failed") = true
      · rw [List.filter_cons, if_pos hkeep, List.filterMap_cons, List.filterMap_cons, ih]
      · have hevent : f.event = createdEvent ∨ f.event = "response.failed" := by
          by_contra hne
          rw [not_or] at hne
          simp [hne] at hkeep
        rw [List.filter_cons, if_neg hkeep, List.filterMap_cons_none (h.silent f hevent), ih]

theorem Numberless.of_stamped {α : Type} {read : ResponsesFrame → Option α} (h : Numberless read)
    {frames : List ResponsesFrame} {ps : List Payload} (hstamped : List.Forall₂ Stamped frames ps) :
    frames.filterMap read = ps.filterMap fun p => read p.frame := by
  induction hstamped with
  | nil => rfl
  | cons hfirst _ ih => rw [List.filterMap_cons, List.filterMap_cons, h.stamped _ _ hfirst, ih]

section

variable (packages : Packages) (context : ResponsesContext)

/-- A stream that has read its tools and then the content events `live`. -/
structure Progress (map : ToolMap) (live : List StreamEvent) (frames : List ResponsesFrame)
    (s : Items) : Prop where
  tools : restoreMap packages context.inboundTools = .ok map
  content : ∀ event ∈ live, event.isContent = true
  accepted : (Items.start context map).AcceptsAll live
  items : s = (Items.start context map).afterAll live
  sent : List.Forall₂ Stamped (Responses.content frames)
    ((Items.start context map).sendsAll packages live)
  frames : ∀ q, marks frames q = (Items.start context map).emitsAll packages live q

/-- A stream that a done event has completed after the content events `live`. -/
structure Finished (map : ToolMap) (live : List StreamEvent) (frames : List ResponsesFrame)
    (s : Items) (output : List Value) : Prop where
  tools : restoreMap packages context.inboundTools = .ok map
  content : ∀ event ∈ live, event.isContent = true
  accepted : (Items.start context map).AcceptsAll live
  items : ∃ carriers,
    ((Items.start context map).afterAll live).CarriersBuilt packages carriers ∧
      s = ((Items.start context map).afterAll live).finished carriers
  rendered : s.slots.mapM (s.item packages) = .ok output
  frames : ∃ front last, frames = front ++ [last] ∧ Terminal last output ∧
    (∀ q, marks front q = (Items.start context map).emitsAll packages live q ++
      ((Items.start context map).afterAll live).closeEmits packages (fun _ => true) q) ∧
    List.Forall₂ Stamped (Responses.content front) ((Items.start context map).sendsAll packages live ++
      (((Items.start context map).afterAll live).withCarriers s.replayCarriers).closingSends
        packages fun _ => true)

/-- A stream that has handed out the frames of the first content events. -/
def Interrupted (events : List StreamEvent) (frames : List ResponsesFrame) : Prop :=
  ∃ map live, live <+: events ∧ (∀ event ∈ live, event.isContent = true) ∧
    (Items.start context map).AcceptsAll live ∧
    List.Forall₂ Stamped (Responses.content frames)
      ((Items.start context map).sendsAll packages live)

/-- Where a stream stands after the events `events` and the frames `frames`. -/
def Phase (events : List StreamEvent) (frames : List ResponsesFrame) (s : ResponsesSseState) :
    Prop :=
  match s.status with
  | .active =>
      (events = [] ∧ s.toItems = (ResponsesSseState.new context).toItems ∧
        (∀ q, marks frames q = []) ∧ content frames = []) ∨
        ∃ map, Progress packages context map events frames s.toItems
  | .completed => ∃ map live finishReason stopSequence rest output,
      events = live ++ .done finishReason stopSequence :: rest ∧
        Finished packages context map live frames s.toItems output
  | .awaitingError | .failed => Interrupted packages context events frames

variable {packages context}

theorem start_returns {s t : Rendering} (h : Returns Responses.start s () t) :
    t.toItems = s.toItems ∧ t.status = s.status ∧ (∀ q, marks t.out q = marks s.out q) ∧
      content t.out = content s.out := by
  rw [Responses.start, returns_get_bind, returns_when, returns_modify_bind] at h
  rcases h with ⟨-, h⟩ | ⟨-, rfl⟩
  · obtain rfl := emit_returns h
    refine ⟨rfl, rfl, fun q => ?_, ?_⟩
    · have hnone : (⟨"response.created", stamp "response.created" (createdPayload s.context)
          s.sequence⟩ : ResponsesFrame).outputIndex = none := by
        rw [ResponsesFrame.outputIndex, createdPayload, stamp_field _ _ (by decide) (by decide)]
        simp [lookup]
      simp [marks, hnone]
    · simp [content, createdEvent]
  · exact ⟨rfl, rfl, fun _ => rfl, rfl⟩

theorem readTools_returns {s t : Rendering} (h : Returns (readTools packages) s () t) :
    (s.restore = none ∧ ∃ map, restoreMap packages s.context.inboundTools = .ok map ∧
      t = { s with restore := some map }) ∨ (s.restore ≠ none ∧ t = s) := by
  rw [readTools, returns_get_bind, returns_when] at h
  rcases h with ⟨hnone, h⟩ | ⟨hsome, rfl⟩
  · obtain ⟨map, hmap, h⟩ := returns_lift_bind.mp h
    exact .inl ⟨by simpa using hnone, map, hmap, returns_modify.mp h⟩
  · refine .inr ⟨?_, rfl⟩
    intro hnone
    simp [hnone] at hsome

theorem closedRaw_fields (s : Items) (index : Nat) :
    (s.closedRaw index).context = s.context ∧ (s.closedRaw index).restore = s.restore := by
  unfold Items.closedRaw
  split <;> exact ⟨rfl, rfl⟩

theorem laidOut_fields (s : Items) (new : Bool) (entry : ReplayLayout) :
    (s.laidOut new entry).slots = s.slots ∧ (s.laidOut new entry).lookup = s.lookup ∧
      (s.laidOut new entry).context = s.context ∧ (s.laidOut new entry).restore = s.restore := by
  unfold Items.laidOut
  split <;> exact ⟨rfl, rfl, rfl, rfl⟩

theorem toolNamed_fields (r : Items) (index : Nat) (id name : Option String) :
    (r.toolNamed index id name).context = r.context ∧
      (r.toolNamed index id name).restore = r.restore := by
  unfold Items.toolNamed
  split
  · exact placed_fields r .tool index
  · exact ⟨rfl, rfl⟩

/-- Events change neither the host facts nor the tools. -/
theorem after_fields (s : Items) (event : StreamEvent) :
    (s.after event).context = s.context ∧ (s.after event).restore = s.restore := by
  cases event with
  | delta index content =>
      rw [← (closedRaw_fields s index).1, ← (closedRaw_fields s index).2,
        ← (placed_fields (s.closedRaw index) .text index).1,
        ← (placed_fields (s.closedRaw index) .text index).2]
      exact (laidOut_fields _ _ _).2.2
  | thinkingDelta index blockIndex text =>
      obtain ⟨-, -, hcontext, hrestore⟩ := thought_fields s index blockIndex text
      rw [← hcontext, ← hrestore]
      exact placed_fields (s.thought index blockIndex text) .reasoning index
  | thinkingSignatureDelta index blockIndex text =>
      obtain ⟨-, -, hcontext, hrestore⟩ := signed_fields s index blockIndex text
      rw [← hcontext, ← hrestore]
      simp only [Items.after, Items.afterSignature]
      split
      · exact placed_fields (s.signed index blockIndex text) .reasoning index
      · exact placed_fields (s.signed index blockIndex text) .reasoning index
  | redactedThinking index blockIndex data =>
      exact placed_fields (s.redacted index blockIndex data) .reasoning index
  | toolCallDelta index id name arguments =>
      rw [← (closedRaw_fields s index).1, ← (closedRaw_fields s index).2]
      exact toolNamed_fields (s.closedRaw index) index id name
  | usage => exact ⟨rfl, rfl⟩
  | finish => exact ⟨rfl, rfl⟩
  | done => exact ⟨rfl, rfl⟩
  | error => exact ⟨rfl, rfl⟩

theorem afterAll_fields (s : Items) (events : List StreamEvent) :
    (s.afterAll events).context = s.context ∧ (s.afterAll events).restore = s.restore := by
  induction events generalizing s with
  | nil => exact ⟨rfl, rfl⟩
  | cons event events ih =>
      obtain ⟨hcontext, hrestore⟩ := ih (s.after event)
      obtain ⟨hcontext', hrestore'⟩ := after_fields s event
      exact ⟨hcontext.trans hcontext', hrestore.trans hrestore'⟩

/-- Any event other than an error finds the tools read. -/
theorem progress_readTools {events : List StreamEvent} {sent : List ResponsesFrame}
    {s t : Rendering} (hs : Phase packages context events (sent ++ s.out) s.toResponsesSseState)
    (hactive : s.status = .active) (h : Returns (readTools packages) s () t) :
    t.status = .active ∧
      ∃ map, Progress packages context map events (sent ++ t.out) t.toItems := by
  rw [Phase, hactive] at hs
  rcases readTools_returns h with ⟨hnone, map, hmap, rfl⟩ | ⟨hsome, rfl⟩
  · refine ⟨hactive, map, ?_⟩
    rcases hs with ⟨rfl, hitems, hmarks, hcontent⟩ | ⟨map', hprogress⟩
    · rw [hitems] at hmap
      refine ⟨hmap, by simp, trivial, ?_, ?_, hmarks⟩
      · simp only [hitems]
        rfl
      · simp only [hcontent]
        exact .nil
    · have hrestore := (afterAll_fields (Items.start context map') events).2
      rw [← hprogress.items, hnone] at hrestore
      cases hrestore
  · rcases hs with ⟨-, hitems, -⟩ | hprogress
    · rw [hitems] at hsome
      exact absurd rfl hsome
    · exact ⟨hactive, hprogress⟩

theorem progress_start {map : ToolMap} {live : List StreamEvent} {sent : List ResponsesFrame}
    {s t : Rendering} (hs : Progress packages context map live (sent ++ s.out) s.toItems)
    (h : Returns Responses.start s () t) :
    Progress packages context map live (sent ++ t.out) t.toItems := by
  obtain ⟨hitems, -, hmarks, hsent⟩ := start_returns h
  refine ⟨hs.tools, hs.content, hs.accepted, hitems.trans hs.items, ?_, fun q => ?_⟩
  · rw [content_append, hsent, ← content_append]
    exact hs.sent
  · rw [marks_append, hmarks q, ← marks_append, hs.frames q]

theorem Progress.orderly {map : ToolMap} {live : List StreamEvent} {frames : List ResponsesFrame}
    {s : Items} (h : Progress packages context map live frames s) : s.Orderly :=
  h.items ▸ orderly_afterAll (orderly_start context map) live

/-- A content event moves a running stream along the items machine. -/
theorem progress_renderBody {map : ToolMap} {live : List StreamEvent} {event : StreamEvent}
    {sent : List ResponsesFrame} {s t : Rendering} (hcontent : event.isContent = true)
    (hs : Progress packages context map live (sent ++ s.out) s.toItems)
    (h : Returns (renderBody packages event) s () t) :
    Progress packages context map (live ++ [event]) (sent ++ t.out) t.toItems ∧
      t.status = s.status := by
  obtain ⟨haccepts, hitems, hmarks, ⟨fs, hout, hstamped⟩, hstatus⟩ :=
    renderBody_returns packages hcontent hs.orderly h
  refine ⟨⟨hs.tools, ?_, ?_, ?_, ?_, ?_⟩, hstatus⟩
  · intro e he
    rcases List.mem_append.mp he with he | he
    · exact hs.content e he
    · rw [List.mem_singleton.mp he]
      exact hcontent
  · exact acceptsAll_snoc.mpr ⟨hs.accepted, hs.items ▸ haccepts⟩
  · rw [hitems, afterAll_snoc, ← hs.items]
  · rw [hout, ← List.append_assoc, content_append,
      content_stamped hstamped (Items.sends_ordinary packages _ event), sendsAll_snoc, ← hs.items]
    exact List.rel_append hs.sent hstamped
  · intro q
    rw [emitsAll_snoc, marks_append, hmarks q, ← List.append_assoc, ← marks_append, hs.frames q,
      hs.items]

/-- A done event finishes a running stream. -/
theorem finished_renderDone {map : ToolMap} {live : List StreamEvent}
    {finishReason : Option FinishReason} {sent : List ResponsesFrame} {s t : Rendering}
    (hs : Progress packages context map live (sent ++ s.out) s.toItems)
    (h : Returns (renderDone packages finishReason) s () t) :
    t.status = .completed ∧
      ∃ output, Finished packages context map live (sent ++ t.out) t.toItems output := by
  obtain ⟨hstatus, carriers, output, front, last, hbuilt, hitems, hrendered, hout, hmarks,
    ⟨fs, rfl, hstamped⟩, hterminal⟩ := renderDone_returns packages hs.orderly h
  refine ⟨hstatus, output, hs.tools, hs.content, hs.accepted, ⟨carriers, ?_, ?_⟩, hrendered,
    sent ++ (s.out ++ fs), last, ?_, hterminal, ?_, ?_⟩
  · rw [← hs.items]
    exact hbuilt
  · rw [← hs.items]
    exact hitems
  · rw [hout, List.append_assoc, List.append_assoc, List.append_assoc]
  · intro q
    rw [marks_append, hmarks q, ← List.append_assoc, ← marks_append, hs.frames q, hs.items]
  · have hcarriers : t.toItems.replayCarriers = carriers := by
      rw [hitems]
      rfl
    rw [← List.append_assoc, content_append,
      content_stamped hstamped (closingSends_ordinary packages _ _), hcarriers, ← hs.items]
    exact List.rel_append hs.sent hstamped

theorem phase_of_progress {map : ToolMap} {live : List StreamEvent} {frames : List ResponsesFrame}
    {s : ResponsesSseState} (hactive : s.status = .active)
    (h : Progress packages context map live frames s.toItems) :
    Phase packages context live frames s := by
  rw [Phase, hactive]
  exact .inr ⟨map, h⟩

theorem renderError_failed {error : ErrorEnvelope} {s t : Rendering}
    (h : Returns (renderError error) s () t) :
    t.status = .failed ∧ content t.out = content s.out := by
  obtain ⟨_, s₁, hemit, hstatus⟩ := returns_bind.mp (returns_get_bind.mp h)
  obtain rfl := returns_modify.mp hstatus
  obtain rfl := emit_returns hemit
  exact ⟨rfl, by simp [content]⟩

/-- However a stream ends early, the frames of its first events stay as they are. -/
theorem interrupted_of_phase {events : List StreamEvent} {frames : List ResponsesFrame}
    {s : ResponsesSseState} (hs : Phase packages context events frames s)
    (hrunning : s.status ≠ .completed) : Interrupted packages context events frames := by
  unfold Phase at hs
  split at hs
  · rcases hs with ⟨rfl, -, -, hcontent⟩ | ⟨map, hprogress⟩
    · refine ⟨[], [], List.prefix_rfl, by simp, trivial, ?_⟩
      rw [hcontent]
      exact .nil
    · exact ⟨map, events, List.prefix_rfl, hprogress.content, hprogress.accepted, hprogress.sent⟩
  · rename_i hcompleted
    exact absurd hcompleted hrunning
  · exact hs
  · exact hs

theorem Interrupted.more {events more : List StreamEvent} {frames frames' : List ResponsesFrame}
    (hs : Interrupted packages context events frames) (h : content frames' = content frames) :
    Interrupted packages context (events ++ more) frames' := by
  obtain ⟨map, live, hlive, hcontent, haccepted, hsent⟩ := hs
  exact ⟨map, live, hlive.trans (List.prefix_append _ _), hcontent, haccepted, h ▸ hsent⟩

/-- An error event ends a stream that is not over. -/
theorem phase_error {events : List StreamEvent} {error : ErrorEnvelope}
    {sent : List ResponsesFrame} {s t : Rendering}
    (hs : Phase packages context events (sent ++ s.out) s.toResponsesSseState)
    (hopen : s.isTerminated = false) (h : Returns (renderEvent packages (.error error)) s () t) :
    Phase packages context (events ++ [.error error]) (sent ++ t.out) t.toResponsesSseState := by
  rw [renderEvent, returns_get_bind, returns_when] at h
  rcases h with ⟨-, h⟩ | ⟨hskip, -⟩
  · obtain ⟨_, s₁, hread, h⟩ := returns_bind.mp h
    obtain ⟨_, s₂, hstart, hbody⟩ := returns_bind.mp h
    have hsame : s₁ = s := by simpa [StreamEvent.isError] using hread
    obtain ⟨-, -, -, hcontent₂⟩ := start_returns hstart
    obtain ⟨hfailed, hcontent⟩ := renderError_failed hbody
    have hrunning : s.status ≠ .completed := by
      intro hcompleted
      simp [ResponsesSseState.isTerminated, hcompleted] at hopen
    rw [Phase, hfailed]
    refine (interrupted_of_phase hs hrunning).more ?_
    rw [content_append, content_append, hcontent, hcontent₂, hsame]
  · simp [hopen, StreamEvent.isError] at hskip

/-- An event of a running stream continues it, completes it or fails it. -/
theorem phase_active {events : List StreamEvent} {event : StreamEvent}
    {sent : List ResponsesFrame} {s t : Rendering}
    (hs : Phase packages context events (sent ++ s.out) s.toResponsesSseState)
    (hactive : s.status = .active) (hevent : Returns (renderEvent packages event) s () t) :
    Phase packages context (events ++ [event]) (sent ++ t.out) t.toResponsesSseState := by
  have h := hevent
  rw [renderEvent, returns_get_bind, returns_when] at h
  have hgo : (!s.isTerminated && (s.status != .awaitingError || event.isError)) = true := by
    simp [ResponsesSseState.isTerminated, hactive]
  rcases h with ⟨-, h⟩ | ⟨hskip, -⟩
  · obtain ⟨_, s₁, hread, h⟩ := returns_bind.mp h
    obtain ⟨_, s₂, hstart, hbody⟩ := returns_bind.mp h
    obtain ⟨-, hstatus₂, -, -⟩ := start_returns hstart
    by_cases herror : event.isError = true
    · cases event with
      | error error =>
          exact phase_error hs (by simp [ResponsesSseState.isTerminated, hactive]) hevent
      | _ => cases herror
    · rw [Bool.not_eq_true] at herror
      rw [herror, Bool.not_false, returns_when] at hread
      simp only [true_and, Bool.true_eq_false, false_and, or_false] at hread
      obtain ⟨hactive₁, map, hprogress₁⟩ := progress_readTools hs hactive hread
      have hprogress₂ := progress_start hprogress₁ hstart
      by_cases hcontent : event.isContent = true
      · obtain ⟨hprogress, hstatus⟩ := progress_renderBody hcontent hprogress₂ hbody
        exact phase_of_progress (hstatus.trans (hstatus₂.trans hactive₁)) hprogress
      · cases event with
        | done finishReason stopSequence =>
            obtain ⟨hstatus, output, hfinished⟩ := finished_renderDone hprogress₂ hbody
            rw [Phase, hstatus]
            exact ⟨map, events, finishReason, stopSequence, [], output, rfl, hfinished⟩
        | error => cases herror
        | _ => exact absurd rfl hcontent
  · rw [hgo] at hskip
    cases hskip

theorem renderEvent_terminated {event : StreamEvent} {s t : Rendering}
    (hs : s.isTerminated = true) (h : Returns (renderEvent packages event) s () t) : t = s := by
  rw [renderEvent, returns_get_bind, returns_when] at h
  rcases h with ⟨hgo, -⟩ | ⟨-, rfl⟩
  · simp [hs] at hgo
  · rfl

theorem phase_renderEvent {events : List StreamEvent} {event : StreamEvent}
    {sent : List ResponsesFrame} {s t : Rendering}
    (hs : Phase packages context events (sent ++ s.out) s.toResponsesSseState)
    (h : Returns (renderEvent packages event) s () t) :
    Phase packages context (events ++ [event]) (sent ++ t.out) t.toResponsesSseState := by
  cases hstatus : s.status with
  | active => exact phase_active hs hstatus h
  | awaitingError =>
      cases event with
      | error error =>
          exact phase_error hs (by simp [ResponsesSseState.isTerminated, hstatus]) h
      | _ =>
          rw [renderEvent, returns_get_bind, returns_when] at h
          obtain rfl : t = s := by simpa [hstatus, StreamEvent.isError] using h
          rw [Phase, hstatus]
          exact (interrupted_of_phase hs (by simp [hstatus])).more rfl
  | completed =>
      obtain rfl := renderEvent_terminated (by simp [ResponsesSseState.isTerminated, hstatus]) h
      rw [Phase, hstatus] at hs ⊢
      obtain ⟨map, live, finishReason, stopSequence, rest, output, rfl, hfinished⟩ := hs
      exact ⟨map, live, finishReason, stopSequence, rest ++ [event], output, by simp, hfinished⟩
  | failed =>
      obtain rfl := renderEvent_terminated (by simp [ResponsesSseState.isTerminated, hstatus]) h
      rw [Phase, hstatus]
      exact (interrupted_of_phase hs (by simp [hstatus])).more rfl

theorem phase_forM {events batch : List StreamEvent} {sent : List ResponsesFrame}
    {s t : Rendering} (hs : Phase packages context events (sent ++ s.out) s.toResponsesSseState)
    (h : Returns (batch.forM (renderEvent packages)) s () t) :
    Phase packages context (events ++ batch) (sent ++ t.out) t.toResponsesSseState := by
  induction batch generalizing events s with
  | nil =>
      obtain rfl := returns_forM_nil.mp h
      rwa [List.append_nil]
  | cons event batch ih =>
      obtain ⟨u, hevent, hrest⟩ := returns_forM_cons.mp h
      have hbatch := ih (phase_renderEvent hs hevent) hrest
      rwa [List.append_assoc, List.singleton_append] at hbatch

theorem phase_start {events : List StreamEvent} {sent : List ResponsesFrame} {s t : Rendering}
    (hs : Phase packages context events (sent ++ s.out) s.toResponsesSseState)
    (hactive : s.status = .active) (h : Returns Responses.start s () t) :
    Phase packages context events (sent ++ t.out) t.toResponsesSseState := by
  obtain ⟨hitems, hstatus, hmarks, hcontent⟩ := start_returns h
  rw [Phase, hactive] at hs
  rw [Phase, hstatus, hactive]
  rcases hs with ⟨hempty, hnew, hnone, hsilent⟩ | ⟨map, hprogress⟩
  · refine .inl ⟨hempty, hitems.trans hnew, fun q => ?_, ?_⟩
    · rw [marks_append, hmarks q, ← marks_append, hnone q]
    · rw [content_append, hcontent, ← content_append, hsilent]
  · exact .inr ⟨map, progress_start hprogress h⟩

/-- One call, whether it succeeds or fails. -/
theorem phase_responsesFrames {events : List StreamEvent} {sent : List ResponsesFrame}
    {s : ResponsesSseState} (hs : Phase packages context events sent s)
    (batch : List StreamEvent) :
    Phase packages context (events ++ batch)
      (sent ++ delivered [(responsesFrames packages batch s).1])
      (responsesFrames packages batch s).2 := by
  rw [responsesFrames]
  cases hrender : render packages batch ⟨s, []⟩ with
  | mk result r =>
      cases result with
      | error e =>
          have hrunning : s.status ≠ .completed := by
            intro hcompleted
            rw [render_terminated packages (s := ⟨s, []⟩)
              (by simp [ResponsesSseState.isTerminated, hcompleted])] at hrender
            cases hrender
          exact (interrupted_of_phase hs hrunning).more (by simp)
      | ok u =>
          obtain ⟨_, s₁, hfirst, hevents⟩ := returns_bind.mp (returns_get_bind.mp hrender)
          have hs : Phase packages context events (sent ++ []) s := by rwa [List.append_nil]
          have h₁ : Phase packages context events (sent ++ s₁.out) s₁.toResponsesSseState := by
            rcases returns_when.mp hfirst with ⟨hactive, hstart⟩ | ⟨-, rfl⟩
            · simp only [Bool.and_eq_true, beq_iff_eq] at hactive
              exact phase_start (s := ⟨s, []⟩) hs hactive.2 hstart
            · exact hs
          simpa using phase_forM h₁ hevents

theorem phase_responsesCalls {events : List StreamEvent} {sent : List ResponsesFrame}
    {s : ResponsesSseState} (hs : Phase packages context events sent s)
    (batches : List (List StreamEvent)) :
    Phase packages context (events ++ batches.flatten)
      (sent ++ delivered (responsesCalls packages s batches).1)
      (responsesCalls packages s batches).2 := by
  induction batches generalizing events sent s with
  | nil => simpa [responsesCalls] using hs
  | cons batch batches ih =>
      have hrest := ih (phase_responsesFrames hs batch)
      rw [List.append_assoc, List.append_assoc] at hrest
      have hsplit : delivered (responsesCalls packages s (batch :: batches)).1 =
          delivered [(responsesFrames packages batch s).1] ++
            delivered (responsesCalls packages (responsesFrames packages batch s).2 batches).1 := by
        simp [responsesCalls, delivered]
      rw [hsplit]
      exact hrest

end

/-- The content events of a stream, up to the one that ends it. -/
def liveEvents (batches : List (List StreamEvent)) : List StreamEvent :=
  batches.flatten.takeWhile (·.isContent)

/-- Where a new stream stands after its calls. -/
theorem phase_of_run (packages : Packages) (context : ResponsesContext)
    (batches : List (List StreamEvent)) :
    Phase packages context batches.flatten
      (delivered (responsesCalls packages (.new context) batches).1)
      (responsesCalls packages (.new context) batches).2 := by
  have hnew : Phase packages context [] [] (.new context) := .inl ⟨rfl, rfl, fun _ => rfl, rfl⟩
  simpa using phase_responsesCalls hnew batches

/-- A completed run is a run of the items machine over the live events. -/
theorem completed_run (packages : Packages) (context : ResponsesContext)
    (batches : List (List StreamEvent))
    (h : (responsesCalls packages (.new context) batches).2.status = .completed) :
    ∃ map output, Finished packages context map (liveEvents batches)
      (delivered (responsesCalls packages (.new context) batches).1)
      (responsesCalls packages (.new context) batches).2.toItems output := by
  have hphase := phase_of_run packages context batches
  rw [Phase, h] at hphase
  obtain ⟨map, live, finishReason, stopSequence, rest, output, hevents, hfinished⟩ := hphase
  have hlive : liveEvents batches = live := by
    rw [liveEvents, hevents, List.takeWhile_append_of_pos hfinished.content]
    simp [StreamEvent.isContent]
  rw [hlive]
  exact ⟨map, output, hfinished⟩

end TokenStation.Responses
