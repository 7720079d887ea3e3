import TokenStation.Responses.Snapshot
import TokenStation.Responses.TurnOrder

/-!
# What a stream wrote

The text of a slot and the contents of a block are the fragments that the
stream gave for them, in order.
-/

namespace TokenStation.Responses

open Library Library.Gathering

/-! ## Slots hold their fragments -/

/-- A text or a call is new only when nothing was given for it. -/
theorem fresh_of_isNew (context : ResponsesContext) (map : ToolMap) {events : List StreamEvent}
    {kind : SlotKind} {index : Nat} (hkind : kind ≠ .reasoning)
    (hnew : ((Items.start context map).afterAll events).isNew kind index = true) :
    ∀ event ∈ events, event.item ≠ some (kind, index) := by
  intro event hevent hitem
  have hs := seated_afterAll (seated_start context map) events
  obtain ⟨q, slot, hslot, rfl, rfl⟩ :=
    (slots_of_events context map events kind index).mpr ⟨event, hevent, hitem⟩
  rw [(hs.place hslot (hs.open_of_kind hslot hkind)).1] at hnew
  cases hnew

/-- Texts and calls are what the events gave for them. -/
structure Written (s : Items) (events : List StreamEvent) : Prop where
  text : ∀ (q : Nat) (slot : Slot), s.slots[q]? = some slot → slot.kind = .text →
    slot.text = String.join (deltas slot.sourceIndex events)
  call : ∀ (q : Nat) (slot : Slot), s.slots[q]? = some slot → slot.kind = .tool →
    slot.call = streamedCall s.context events slot.sourceIndex

/-- An event writes to no other open slot. -/
theorem item_ne_of_other {s : Items} (hs : Seated s) {event : StreamEvent} {kind : SlotKind}
    {index q : Nat} {slot : Slot} (hitem : event.item = some (kind, index))
    (hq : q ≠ s.place kind index) (hslot : s.slots[q]? = some slot) (hopen : slot.closed = false) :
    event.item ≠ some (slot.kind, slot.sourceIndex) := by
  intro hsame
  rw [hitem] at hsame
  cases hsame
  exact hq (hs.place hslot hopen).2.symm

theorem item_text {event : StreamEvent} {index : Nat} (h : event.item = some (.text, index)) :
    ∃ content, event = .delta index content := by
  cases event <;> cases h
  exact ⟨_, rfl⟩

theorem item_tool {event : StreamEvent} {index : Nat} (h : event.item = some (.tool, index)) :
    ∃ id name arguments signature,
      event = .toolCallDelta index id name arguments signature := by
  cases event <;> cases h
  exact ⟨_, _, _, _, rfl⟩

theorem deltas_snoc (events : List StreamEvent) (index : Nat) (content : String) :
    deltas index (events ++ [.delta index content]) = deltas index events ++ [content] := by
  simp [deltas]

/-- The first fragment of a call. -/
theorem streamedCall_first (context : ResponsesContext) {events : List StreamEvent} {index : Nat}
    (hfresh : ∀ event ∈ events, event.item ≠ some (.tool, index)) (id name : Option String)
    (arguments : String) (signature : Option String) :
    streamedCall context (events ++ [.toolCallDelta index id name arguments signature]) index =
      ⟨id.getD ("call_" ++ context.responseId ++ "_" ++ toString index), name.getD "",
        arguments, none⟩ := by
  obtain ⟨hids, hnames, harguments⟩ := callFragments_nil hfresh
  have hids :
      toolIds index (events ++ [.toolCallDelta index id name arguments signature]) = [id] := by
    simp only [toolIds, List.filterMap_append] at hids ⊢
    simp [hids]
  have hnames :
      toolNames index (events ++ [.toolCallDelta index id name arguments signature]) = [name] := by
    simp only [toolNames, List.filterMap_append] at hnames ⊢
    simp [hnames]
  have harguments :
      toolArguments index (events ++ [.toolCallDelta index id name arguments signature]) =
        [arguments] := by
    simp only [toolArguments, List.filterMap_append] at harguments ⊢
    simp [harguments]
  simp [streamedCall, hids, hnames, harguments, settledName_singleton, String.join]

/-- A further fragment of a call. -/
theorem streamedCall_next (context : ResponsesContext) {events : List StreamEvent} {index : Nat}
    (hold : ∃ event ∈ events, event.item = some (.tool, index)) (id name : Option String)
    (arguments : String) (signature : Option String) :
    let call := streamedCall context events index
    streamedCall context (events ++ [.toolCallDelta index id name arguments signature]) index =
      ⟨call.id,
        match name with
        | some n => if call.name = "" ∧ context.allowIncompleteToolCalls = true then n else call.name
        | none => call.name,
        call.arguments ++ arguments, none⟩ := by
  obtain ⟨hnames, hids⟩ := toolNames_ne_nil hold
  have hidsNext : toolIds index (events ++ [.toolCallDelta index id name arguments signature]) =
      toolIds index events ++ [id] := by
    simp [toolIds]
  have hnamesNext : toolNames index (events ++ [.toolCallDelta index id name arguments signature]) =
      toolNames index events ++ [name] := by
    simp [toolNames]
  have hargumentsNext :
      toolArguments index (events ++ [.toolCallDelta index id name arguments signature]) =
        toolArguments index events ++ [arguments] := by
    simp [toolArguments]
  obtain ⟨first, rest, hfirst⟩ := List.exists_cons_of_ne_nil hids
  simp only [streamedCall, hidsNext, hnamesNext, hargumentsNext, join_snoc,
    settledName_snoc _ hnames, hfirst]
  cases name <;> rfl

theorem written_after {s : Items} (hs : Seated s) {events : List StreamEvent} (h : Written s events)
    (hfresh : ∀ (kind : SlotKind) (index : Nat), kind ≠ .reasoning → s.isNew kind index = true →
      ∀ event ∈ events, event.item ≠ some (kind, index))
    (hnamed : ∀ (q : Nat) (slot : Slot), s.slots[q]? = some slot →
      ∃ event ∈ events, event.item = some (slot.kind, slot.sourceIndex))
    (event : StreamEvent) : Written (s.after event) (events ++ [event]) := by
  cases hitem : event.item with
  | none =>
      rw [after_of_item_none hitem]
      refine ⟨fun q slot hslot hkind => ?_, fun q slot hslot hkind => ?_⟩
      · rw [deltas_snoc_other (by simp [hitem])]
        exact h.text q slot hslot hkind
      · rw [streamedCall_snoc_other _ (by simp [hitem])]
        exact h.call q slot hslot hkind
  | some item =>
      obtain ⟨kind, index⟩ := item
      refine ⟨fun q slot hslot hkind => ?_, fun q slot hslot hkind => ?_⟩
      · rcases after_slot_cases hs.orderly hitem hslot with
          ⟨hq, old, hold, rfl⟩ | ⟨-, -, old, hold, rfl, rfl, -, rfl⟩ | ⟨hnew, -, rfl⟩
        · rw [closing_kind] at hkind
          have hopen := hs.open_of_kind hold (by rw [hkind]; decide)
          have hother := item_ne_of_other hs hitem hq hold hopen
          rw [hkind] at hother
          rw [closing_source, deltas_snoc_other hother, closing_text]
          exact h.text q old hold hkind
        · rw [(touch_place s event old).1] at hkind
          rw [hkind] at hitem
          obtain ⟨content, rfl⟩ := item_text hitem
          change old.text ++ content = String.join (deltas old.sourceIndex _)
          rw [deltas_snoc, join_snoc, h.text q old hold hkind]
        · rw [(touch_place s event _).1] at hkind
          obtain rfl : kind = .text := hkind
          obtain ⟨content, rfl⟩ := item_text hitem
          change "" ++ content = String.join (deltas index _)
          rw [deltas_snoc, join_snoc, fragments_nil (hfresh .text index (by decide) hnew)]
          rfl
      · obtain ⟨hcontext, -⟩ := after_fields s event
        rw [hcontext]
        rcases after_slot_cases hs.orderly hitem hslot with
          ⟨hq, old, hold, rfl⟩ | ⟨hkept, -, old, hold, rfl, rfl, -, rfl⟩ | ⟨hnew, -, rfl⟩
        · rw [closing_kind] at hkind
          have hopen := hs.open_of_kind hold (by rw [hkind]; decide)
          have hother := item_ne_of_other hs hitem hq hold hopen
          rw [hkind] at hother
          rw [closing_source, streamedCall_snoc_other _ hother, closing_call]
          exact h.call q old hold hkind
        · rw [(touch_place s event old).1] at hkind
          rw [hkind] at hitem hkept
          obtain ⟨id, name, arguments, signature, rfl⟩ := item_tool hitem
          have hcall := h.call q old hold hkind
          have hbefore := hnamed q old hold
          rw [hkind] at hbefore
          rw [(touch_place s _ old).2.1, streamedCall_next _ hbefore, ← hcall]
          simp only [Items.touch, Items.touchCall, hkept]
          cases name <;> rfl
        · rw [(touch_place s event _).1] at hkind
          obtain rfl : kind = .tool := hkind
          obtain ⟨id, name, arguments, signature, rfl⟩ := item_tool hitem
          rw [(touch_place s _ _).2.1]
          change _ = streamedCall s.context _ index
          rw [streamedCall_first _ (hfresh .tool index (by decide) hnew)]
          simp only [Items.touch, Items.touchCall, hnew]
          rfl

theorem written_afterAll (context : ResponsesContext) (map : ToolMap) (events : List StreamEvent) :
    Written ((Items.start context map).afterAll events) events := by
  induction events using List.reverseRecOn with
  | nil => exact ⟨by simp [Items.afterAll, Items.start], by simp [Items.afterAll, Items.start]⟩
  | append_singleton events event ih =>
      rw [afterAll_snoc]
      refine written_after (seated_afterAll (seated_start context map) events) ih
        (fun kind index hkind hnew => fresh_of_isNew context map hkind hnew)
        (fun q slot hslot => ?_) event
      exact (slots_of_events context map events _ _).mp ⟨q, slot, hslot, rfl, rfl⟩

/-! ## Blocks hold their fragments -/

/-- The block a stream wrote. -/
def blockOf (events : List StreamEvent) (key : Nat × Nat) : Option ReplayBlockState :=
  events.foldl (fun block event => if event.block = some key then event.writeBlock block else block)
    none

theorem blockOf_snoc (events : List StreamEvent) (event : StreamEvent) (key : Nat × Nat) :
    blockOf (events ++ [event]) key =
      if event.block = some key then event.writeBlock (blockOf events key)
      else blockOf events key := by
  simp [blockOf]

theorem lookup_afterAll (context : ResponsesContext) (map : ToolMap) (events : List StreamEvent)
    (key : Nat × Nat) :
    Library.lookup key ((Items.start context map).afterAll events).replayBlocks =
      blockOf events key := by
  induction events using List.reverseRecOn with
  | nil => rfl
  | append_singleton events event ih =>
      have hs := orderly_afterAll (orderly_start context map) events
      rw [afterAll_snoc, (after_tables hs event).2.1, lookup_blocksAfter, blockOf_snoc, ih]

/-- The thinking fragments, under their blocks. -/
def thoughts (events : List StreamEvent) : List ((Nat × Nat) × String) :=
  events.filterMap fun event =>
    match event with
    | .thinkingDelta index blockIndex text => some ((index, blockIndex), text)
    | _ => none

def signatures (events : List StreamEvent) : List ((Nat × Nat) × String) :=
  events.filterMap fun event =>
    match event with
    | .thinkingSignatureDelta index blockIndex text => some ((index, blockIndex), text)
    | _ => none

def redactions (events : List StreamEvent) : List ((Nat × Nat) × String) :=
  events.filterMap fun event =>
    match event with
    | .redactedThinking index blockIndex data => some ((index, blockIndex), data)
    | _ => none

/-- A block is the fragments of its key, all of one sort. -/
def BlockWritten (events : List StreamEvent) (key : Nat × Nat) : Option ReplayBlockState → Prop
  | none => (∀ m ∈ thoughts events, m.1 ≠ key) ∧ (∀ m ∈ signatures events, m.1 ≠ key) ∧
      ∀ m ∈ redactions events, m.1 ≠ key
  | some (.thinking thinking signature) => thinking = gather key (thoughts events) ∧
      signature = gather key (signatures events) ∧ ∀ m ∈ redactions events, m.1 ≠ key
  | some (.redacted data) => (∀ m ∈ thoughts events, m.1 ≠ key) ∧
      (∀ m ∈ signatures events, m.1 ≠ key) ∧ (redactions events).filter (·.1 == key) = [(key, data)]

theorem thoughts_snoc (events : List StreamEvent) (event : StreamEvent) :
    thoughts (events ++ [event]) = thoughts events ++ thoughts [event] := by
  simp [thoughts]

theorem signatures_snoc (events : List StreamEvent) (event : StreamEvent) :
    signatures (events ++ [event]) = signatures events ++ signatures [event] := by
  simp [signatures]

theorem redactions_snoc (events : List StreamEvent) (event : StreamEvent) :
    redactions (events ++ [event]) = redactions events ++ redactions [event] := by
  simp [redactions]

/-- An event that does not write to a block has no fragment of it. -/
theorem fragments_of_other {event : StreamEvent} {key : Nat × Nat} (h : event.block ≠ some key) :
    (∀ m ∈ thoughts [event], m.1 ≠ key) ∧ (∀ m ∈ signatures [event], m.1 ≠ key) ∧
      ∀ m ∈ redactions [event], m.1 ≠ key := by
  cases event <;> simp_all [thoughts, signatures, redactions, StreamEvent.block]

theorem blockWritten_after {s : Items} {events : List StreamEvent} {event : StreamEvent}
    (haccepts : s.Accepts event) {key : Nat × Nat}
    (hlookup : Library.lookup key s.replayBlocks = blockOf events key)
    (h : BlockWritten events key (blockOf events key)) :
    BlockWritten (events ++ [event]) key (blockOf (events ++ [event]) key) := by
  rw [blockOf_snoc]
  by_cases hkey : event.block = some key
  · rw [if_pos hkey]
    cases event with
    | thinkingDelta index blockIndex text =>
        obtain rfl : (index, blockIndex) = key := by simpa [StreamEvent.block] using hkey
        cases hblock : blockOf events (index, blockIndex) with
        | none =>
            rw [hblock] at h
            obtain ⟨hthoughts, hsignatures, hredactions⟩ := h
            refine ⟨?_, ?_, ?_⟩
            · rw [thoughts_snoc]
              change text = gather _ (_ ++ [((index, blockIndex), text)])
              rw [gather_snoc, if_pos rfl, gather_of_notMem hthoughts, String.empty_append]
            · rw [signatures_snoc]
              change "" = gather _ (_ ++ [])
              rw [List.append_nil, gather_of_notMem hsignatures]
            · simpa [redactions_snoc, redactions] using hredactions
        | some block =>
            cases block with
            | thinking thinking signature =>
                rw [hblock] at h
                obtain ⟨hthinking, hsignature, hredactions⟩ := h
                refine ⟨?_, ?_, ?_⟩
                · rw [thoughts_snoc]
                  change thinking ++ text = gather _ (_ ++ [((index, blockIndex), text)])
                  rw [gather_snoc, if_pos rfl, ← hthinking]
                · rw [signatures_snoc]
                  change signature = gather _ (_ ++ [])
                  rw [List.append_nil, ← hsignature]
                · simpa [redactions_snoc, redactions] using hredactions
            | redacted data => exact absurd (hlookup.trans hblock) (haccepts data)
    | thinkingSignatureDelta index blockIndex text =>
        obtain rfl : (index, blockIndex) = key := by simpa [StreamEvent.block] using hkey
        obtain ⟨thinking, signature, hblock⟩ := haccepts
        rw [hlookup] at hblock
        rw [hblock] at h ⊢
        obtain ⟨hthinking, hsignature, hredactions⟩ := h
        refine ⟨?_, ?_, ?_⟩
        · rw [thoughts_snoc]
          change thinking = gather _ (_ ++ [])
          rw [List.append_nil, ← hthinking]
        · rw [signatures_snoc]
          change signature ++ text = gather _ (_ ++ [((index, blockIndex), text)])
          rw [gather_snoc, if_pos rfl, ← hsignature]
        · simpa [redactions_snoc, redactions] using hredactions
    | redactedThinking index blockIndex data =>
        obtain rfl : (index, blockIndex) = key := by simpa [StreamEvent.block] using hkey
        have hnone : blockOf events (index, blockIndex) = none := hlookup.symm.trans haccepts
        rw [hnone] at h ⊢
        obtain ⟨hthoughts, hsignatures, hredactions⟩ := h
        refine ⟨by simpa [thoughts_snoc, thoughts] using hthoughts,
          by simpa [signatures_snoc, signatures] using hsignatures, ?_⟩
        have hbefore : (redactions events).filter (·.1 == (index, blockIndex)) = [] :=
          List.filter_eq_nil_iff.mpr fun m hm => by simpa using hredactions m hm
        rw [redactions_snoc, List.filter_append, hbefore]
        simp [redactions]
    | delta | toolCallDelta | usage | finish | done | error => cases hkey
  · rw [if_neg hkey]
    obtain ⟨hthoughts, hsignatures, hredactions⟩ := fragments_of_other hkey
    cases hblock : blockOf events key with
    | none =>
        rw [hblock] at h
        simp only [BlockWritten, thoughts_snoc, signatures_snoc, redactions_snoc,
          List.forall_mem_append]
        exact ⟨⟨h.1, hthoughts⟩, ⟨h.2.1, hsignatures⟩, ⟨h.2.2, hredactions⟩⟩
    | some block =>
        rw [hblock] at h
        cases block with
        | thinking thinking signature =>
            simp only [BlockWritten, thoughts_snoc, signatures_snoc, redactions_snoc,
              List.forall_mem_append, gather_append_other hthoughts,
              gather_append_other hsignatures]
            exact ⟨h.1, h.2.1, h.2.2, hredactions⟩
        | redacted data =>
            have hnone : (redactions [event]).filter (·.1 == key) = [] :=
              List.filter_eq_nil_iff.mpr fun m hm => by simpa using hredactions m hm
            simp only [BlockWritten, thoughts_snoc, signatures_snoc, redactions_snoc,
              List.forall_mem_append, List.filter_append, hnone, List.append_nil]
            exact ⟨⟨h.1, hthoughts⟩, ⟨h.2.1, hsignatures⟩, h.2.2⟩

theorem blockWritten_afterAll (context : ResponsesContext) (map : ToolMap)
    {events : List StreamEvent} (h : (Items.start context map).AcceptsAll events)
    (key : Nat × Nat) : BlockWritten events key (blockOf events key) := by
  induction events using List.reverseRecOn with
  | nil => simp [BlockWritten, blockOf, thoughts, signatures, redactions]
  | append_singleton events event ih =>
      obtain ⟨hbefore, haccepts⟩ := acceptsAll_snoc.mp h
      exact blockWritten_after haccepts (lookup_afterAll context map events key) (ih hbefore)

end TokenStation.Responses
