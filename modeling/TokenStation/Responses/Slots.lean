import TokenStation.Responses.Fragments
import TokenStation.Responses.Runs

/-!
# The slots of a run

A content event of an item finds the open slot of that item or makes it, and
writes to it. Text and tool calls may first end the reasoning of their choice.
What this leaves is a table of slots in which every open slot is the one its
kind and source find.
-/

namespace TokenStation.Responses

open Library Library.Json Library.Fallible

namespace Items

/-- The slots that an event of an item ends. -/
def endedBy (s : Items) (kind : SlotKind) (index : Nat) (slot : Slot) : Bool :=
  kind != .reasoning && s.endsRaw index && isReasoningOf index slot

/-- What a fragment of a call writes to its slot. -/
def touchCall (s : Items) (index : Nat) (id name : Option String) (arguments : String)
    (slot : Slot) : Slot :=
  if s.isNew .tool index then
    let call := s.identity index id name
    (slot.identify call.1 call.2
      ((if isCustom s.toolMap call.2 then "ctc_" else "fc_") ++ call.1)).write arguments
  else (slot.rename (s.lateName slot name)).write arguments

/-- What an event writes to the slot of its item. -/
def touch (s : Items) (event : StreamEvent) (slot : Slot) : Slot :=
  match event with
  | .delta _ content => slot.write content
  | .thinkingDelta _ _ text => slot.write text
  | .thinkingSignatureDelta _ _ text =>
      if s.context.renderLegacyEncryptedReasoning then slot.sign text else slot
  | .toolCallDelta index id name arguments _ => s.touchCall index id name arguments slot
  | _ => slot

end Items

theorem touch_place (s : Items) (event : StreamEvent) (slot : Slot) :
    (s.touch event slot).kind = slot.kind ∧
      (s.touch event slot).sourceIndex = slot.sourceIndex ∧
      (s.touch event slot).index = slot.index ∧ (s.touch event slot).closed = slot.closed := by
  cases event with
  | thinkingSignatureDelta =>
      unfold Items.touch
      simp only
      split <;> exact ⟨rfl, rfl, rfl, rfl⟩
  | toolCallDelta =>
      simp only [Items.touch, Items.touchCall]
      split <;> exact ⟨rfl, rfl, rfl, rfl⟩
  | _ => exact ⟨rfl, rfl, rfl, rfl⟩

/-- Only fragments of calls change the id of an item. -/
theorem touch_id (s : Items) {event : StreamEvent} {kind : SlotKind} {index : Nat} (slot : Slot)
    (h : event.item = some (kind, index)) (hkind : kind ≠ .tool) :
    (s.touch event slot).id = slot.id := by
  cases event with
  | thinkingSignatureDelta =>
      unfold Items.touch
      simp only
      split <;> rfl
  | toolCallDelta =>
      cases h
      exact absurd rfl hkind
  | _ => rfl

/-! ## Finding slots in equal tables -/

theorem openSlot_congr {s t : Items} (hslots : t.slots = s.slots) (hlookup : t.lookup = s.lookup)
    (kind : SlotKind) (index : Nat) : t.openSlot kind index = s.openSlot kind index := by
  simp only [Items.openSlot, Items.slotAt, hslots, hlookup]

theorem placed_congr {s t : Items} (hslots : t.slots = s.slots) (hlookup : t.lookup = s.lookup)
    (hcontext : t.context = s.context) (kind : SlotKind) (index : Nat) :
    t.place kind index = s.place kind index ∧ t.isNew kind index = s.isNew kind index ∧
      (t.placed kind index).slots = (s.placed kind index).slots ∧
      (t.placed kind index).lookup = (s.placed kind index).lookup := by
  have hopen := openSlot_congr hslots hlookup kind index
  have hnew : t.isNew kind index = s.isNew kind index := by rw [Items.isNew, hopen, Items.isNew]
  refine ⟨by rw [Items.place, hopen, hslots, Items.place], hnew, ?_, ?_⟩
  · unfold Items.placed
    rw [hnew]
    split <;> simp [hslots, Items.newSlot, hcontext]
  · unfold Items.placed
    rw [hnew]
    split <;> simp [hslots, hlookup]

theorem closing_source (select : Slot → Bool) (slot : Slot) :
    (closing select slot).sourceIndex = slot.sourceIndex := by
  unfold closing
  split <;> rfl

theorem closing_text (select : Slot → Bool) (slot : Slot) :
    (closing select slot).text = slot.text := by
  unfold closing
  split <;> rfl

theorem map_closing_id {select : Slot → Bool} (h : ∀ slot, select slot = false)
    (slots : List Slot) : slots.map (closing select) = slots := by
  have hid : closing select = id := funext fun slot => by simp [closing, h slot]
  rw [hid, List.map_id]

theorem closing_id {select : Slot → Bool} {slot : Slot} (h : select slot = false) :
    closing select slot = slot := by
  simp [closing, h]

/-- Ending reasoning leaves text and tool calls open. -/
theorem openSlot_closedRaw {s : Items} (hs : s.Orderly) {kind : SlotKind} (hkind : kind ≠ .reasoning)
    (index i : Nat) : (s.closedRaw index).openSlot kind i = s.openSlot kind i := by
  unfold Items.closedRaw
  split
  · unfold Items.openSlot
    cases hlookup : Library.lookup (kind, i) s.lookup with
    | none => rfl
    | some position =>
        obtain ⟨slot, hslot, hslotKind, -⟩ := hs.named kind i position hlookup
        have hother : isReasoningOf index slot = false := by simp [isReasoningOf, hslotKind, hkind]
        simp [Option.filter_some, Items.slotAt, List.getD, hslot, closing_id hother]
  · rfl

theorem placed_closedRaw {s : Items} (hs : s.Orderly) {kind : SlotKind} (hkind : kind ≠ .reasoning)
    (index : Nat) :
    (s.closedRaw index).place kind index = s.place kind index ∧
      (s.closedRaw index).isNew kind index = s.isNew kind index ∧
      ((s.closedRaw index).placed kind index).slots =
        (s.placed kind index).slots.map (closing (s.endedBy kind index)) ∧
      ((s.closedRaw index).placed kind index).lookup = (s.placed kind index).lookup := by
  have hopen := openSlot_closedRaw hs hkind index index
  have hlength : (s.closedRaw index).slots.length = s.slots.length := by
    unfold Items.closedRaw
    split <;> simp
  have hlookup : (s.closedRaw index).lookup = s.lookup := by
    unfold Items.closedRaw
    split <;> rfl
  have hslots : (s.closedRaw index).slots = s.slots.map (closing (s.endedBy kind index)) := by
    unfold Items.closedRaw Items.endedBy
    cases hends : s.endsRaw index with
    | false => exact (map_closing_id (by simp) s.slots).symm
    | true => simp [hkind, closing, isReasoningOf]
  have hnew : (s.closedRaw index).isNew kind index = s.isNew kind index := by
    rw [Items.isNew, hopen, Items.isNew]
  refine ⟨by rw [Items.place, hopen, hlength, Items.place], hnew, ?_, ?_⟩
  · unfold Items.placed
    rw [hnew]
    split
    · have hfresh : closing (s.endedBy kind index) (s.newSlot kind index) = s.newSlot kind index :=
        closing_id (by simp [Items.endedBy, isReasoningOf, Items.newSlot, hkind])
      have hcontext : (s.closedRaw index).context = s.context := (closedRaw_fields s index).1
      have hsame : (s.closedRaw index).newSlot kind index = s.newSlot kind index := by
        simp only [Items.newSlot, hlength, hcontext]
      rw [List.map_append, List.map_singleton, hfresh, hsame, hslots]
    · exact hslots
  · unfold Items.placed
    rw [hnew, hlength, hlookup]
    split <;> simp [hlookup]

/-! ## What an event does to the slots -/

theorem toolNamed_slots (r : Items) (index : Nat) (id name : Option String) :
    (r.toolNamed index id name).slots =
      (r.placed .tool index).slots.modify (r.place .tool index) fun slot =>
        if r.isNew .tool index then
          slot.identify (r.identity index id name).1 (r.identity index id name).2
            ((if isCustom r.toolMap (r.identity index id name).2 then "ctc_" else "fc_") ++
              (r.identity index id name).1)
        else slot.rename (r.lateName slot name) := by
  unfold Items.toolNamed
  cases hnew : r.isNew .tool index with
  | true => rfl
  | false =>
      rw [placed_old hnew]
      rfl

/-- An event of an item finds its slot or makes it, and writes there. -/
theorem after_slots {s : Items} (hs : s.Orderly) {event : StreamEvent} {kind : SlotKind}
    {index : Nat} (h : event.item = some (kind, index)) :
    (s.after event).slots =
        ((s.placed kind index).slots.map (closing (s.endedBy kind index))).modify
          (s.place kind index) (s.touch event) ∧
      (s.after event).lookup = (s.placed kind index).lookup := by
  have hkeeps : ∀ slots : List Slot,
      slots.map (closing (s.endedBy .reasoning index)) = slots :=
    map_closing_id fun slot => by simp [Items.endedBy]
  cases event with
  | delta i content =>
      cases h
      obtain ⟨hplace, hnew, hslots, hlookup⟩ :=
        placed_closedRaw hs (by decide : SlotKind.text ≠ .reasoning) index
      simp only [Items.after, Items.afterDelta, Items.touchSlot, hplace, hnew]
      obtain ⟨hsame, hsame', -⟩ := laidOut_fields ((s.closedRaw index).placed .text index)
        (s.isNew .text index) (.text (s.place .text index))
      rw [hsame, hsame', hslots, hlookup]
      exact ⟨rfl, rfl⟩
  | thinkingDelta i blockIndex text =>
      cases h
      obtain ⟨hslots, hlookup, hcontext, -⟩ := thought_fields s index blockIndex text
      obtain ⟨hplace, -, hslots', hlookup'⟩ := placed_congr hslots hlookup hcontext .reasoning index
      simp only [Items.after, Items.afterThinking, Items.touchSlot, hplace, hslots', hlookup', hkeeps]
      exact ⟨rfl, trivial⟩
  | thinkingSignatureDelta i blockIndex text =>
      cases h
      obtain ⟨hslots, hlookup, hcontext, -⟩ := signed_fields s index blockIndex text
      obtain ⟨hplace, -, hslots', hlookup'⟩ := placed_congr hslots hlookup hcontext .reasoning index
      rw [hkeeps]
      unfold Items.touch
      simp only [Items.after, Items.afterSignature]
      split
      · simp only [Items.touchSlot, hplace, hslots', hlookup', and_self]
      · rw [hslots', hlookup']
        exact ⟨(List.modify_id _ _).symm, rfl⟩
  | redactedThinking i blockIndex data =>
      cases h
      obtain ⟨-, -, hslots', hlookup'⟩ := placed_congr (s := s)
        (t := s.redacted index blockIndex data) rfl rfl rfl .reasoning index
      simp only [Items.after, Items.afterRedacted, hslots', hlookup', hkeeps]
      exact ⟨(List.modify_id _ _).symm, trivial⟩
  | toolCallDelta i id name arguments =>
      cases h
      obtain ⟨hplace, hnew, hslots, hlookup⟩ :=
        placed_closedRaw hs (by decide : SlotKind.tool ≠ .reasoning) index
      obtain ⟨hcontext, hrestore⟩ := closedRaw_fields s index
      have hnamed := toolNamed_slots (s.closedRaw index) index id name
      simp only [Items.toolMap, Items.identity, Items.lateName, hplace, hnew, hslots, hcontext,
        hrestore] at hnamed
      refine ⟨?_, by simp only [Items.after, Items.afterTool, Items.touchSlot, toolNamed_lookup,
        hlookup]⟩
      simp only [Items.after, Items.afterTool, Items.touchSlot, hplace, hnamed,
        List.modify_modify_eq]
      congr 1
      funext slot
      simp only [Items.touch, Items.touchCall, Function.comp_apply]
      split <;> rfl
  | usage | finish | done | error => cases h

theorem after_of_item_none {s : Items} {event : StreamEvent} (h : event.item = none) :
    s.after event = s := by
  cases event <;> first | rfl | cases h

theorem after_length {s : Items} (hs : s.Orderly) {event : StreamEvent} {kind : SlotKind}
    {index : Nat} (h : event.item = some (kind, index)) :
    (s.after event).slots.length = s.slots.length + (s.isNew kind index).toNat := by
  rw [(after_slots hs h).1, List.length_modify, List.length_map, Items.placed]
  cases s.isNew kind index <;> simp

/-- Where the slots after an event come from: an old one, the one the event
writes to, or a new one. -/
theorem after_slot_cases {s : Items} (hs : s.Orderly) {event : StreamEvent} {kind : SlotKind}
    {index : Nat} (h : event.item = some (kind, index)) {q : Nat} {slot : Slot}
    (hslot : (s.after event).slots[q]? = some slot) :
    (q ≠ s.place kind index ∧ ∃ old, s.slots[q]? = some old ∧
        slot = closing (s.endedBy kind index) old) ∨
      (s.isNew kind index = false ∧ q = s.place kind index ∧ ∃ old, s.slots[q]? = some old ∧
        old.kind = kind ∧ old.sourceIndex = index ∧ old.closed = false ∧
        slot = s.touch event old) ∨
      (s.isNew kind index = true ∧ q = s.slots.length ∧
        slot = s.touch event (s.newSlot kind index)) := by
  rw [(after_slots hs h).1, List.getElem?_modify, List.getElem?_map] at hslot
  obtain ⟨ended, hended, rfl⟩ := Option.map_eq_some_iff.mp hslot
  obtain ⟨old, hold, rfl⟩ := Option.map_eq_some_iff.mp hended
  by_cases hq : q = s.place kind index
  · subst hq
    obtain ⟨slot, hget, hkind, hsource, hopen, -, hnewSlot⟩ := placed_slot hs kind index
    obtain rfl : slot = old := Option.some.inj (hget.symm.trans hold)
    have hkept : closing (s.endedBy kind index) slot = slot := by
      refine closing_id ?_
      by_cases hreasoning : kind = .reasoning
      · simp [Items.endedBy, hreasoning]
      · simp [Items.endedBy, isReasoningOf, hkind, hreasoning]
    rw [if_pos rfl, hkept]
    cases hnew : s.isNew kind index with
    | true => exact .inr (.inr ⟨rfl, place_new hnew, by rw [hnewSlot hnew]⟩)
    | false =>
        rw [placed_old hnew] at hget
        exact .inr (.inl ⟨rfl, rfl, slot, hget, hkind, hsource, hopen, rfl⟩)
  · rw [if_neg (Ne.symm hq)]
    rw [placed_other s hq] at hold
    exact .inl ⟨hq, old, hold, rfl⟩

/-- After an event of an item, its slot is there. -/
theorem after_slot_place {s : Items} (hs : s.Orderly) {event : StreamEvent} {kind : SlotKind}
    {index : Nat} (h : event.item = some (kind, index)) :
    ∃ slot, (s.after event).slots[s.place kind index]? = some slot ∧ slot.kind = kind ∧
      slot.sourceIndex = index := by
  obtain ⟨slot, hget, hkind, hsource, -⟩ := placed_slot hs kind index
  refine ⟨s.touch event (closing (s.endedBy kind index) slot), ?_, ?_, ?_⟩
  · rw [(after_slots hs h).1, List.getElem?_modify, List.getElem?_map, hget]
    simp
  · rw [(touch_place s event _).1, closing_kind, hkind]
  · rw [(touch_place s event _).2.1, closing_source, hsource]

/-- Slots stay where they are. -/
theorem after_slot_stays {s : Items} (hs : s.Orderly) (event : StreamEvent) {q : Nat} {slot : Slot}
    (hslot : s.slots[q]? = some slot) :
    ∃ slot', (s.after event).slots[q]? = some slot' ∧ slot'.kind = slot.kind ∧
      slot'.sourceIndex = slot.sourceIndex := by
  cases h : event.item with
  | none =>
      rw [after_of_item_none h]
      exact ⟨slot, hslot, rfl, rfl⟩
  | some item =>
      obtain ⟨kind, index⟩ := item
      by_cases hq : q = s.place kind index
      · subst hq
        obtain ⟨-, hkind, hsource⟩ := slot_before hs hslot
        obtain ⟨slot', hslot', hkind', hsource'⟩ := after_slot_place hs h
        exact ⟨slot', hslot', hkind'.trans hkind.symm, hsource'.trans hsource.symm⟩
      · refine ⟨closing (s.endedBy kind index) slot, ?_, closing_kind _ _, closing_source _ _⟩
        rw [(after_slots hs h).1, List.getElem?_modify, List.getElem?_map, placed_other s hq, hslot]
        simp [Ne.symm hq]

/-! ## Open slots are found -/

/-- Open slots are the ones their kind and source find, and only raw reasoning
is closed. -/
structure Seated (s : Items) : Prop where
  orderly : s.Orderly
  found : ∀ (q : Nat) (slot : Slot), s.slots[q]? = some slot → slot.closed = false →
    Library.lookup (slot.kind, slot.sourceIndex) s.lookup = some q
  closed : ∀ (q : Nat) (slot : Slot), s.slots[q]? = some slot → slot.closed = true →
    slot.kind = .reasoning ∧ s.context.reasoning = .rawContent

theorem seated_start (context : ResponsesContext) (map : ToolMap) :
    Seated (.start context map) := by
  refine ⟨orderly_start context map, ?_, ?_⟩
  · intro q slot hslot
    simp [Items.start] at hslot
  · intro q slot hslot
    simp [Items.start] at hslot

/-- The open slot of a kind and source is found by them. -/
theorem Seated.place {s : Items} (hs : Seated s) {q : Nat} {slot : Slot}
    (hslot : s.slots[q]? = some slot) (hopen : slot.closed = false) :
    s.isNew slot.kind slot.sourceIndex = false ∧ s.place slot.kind slot.sourceIndex = q := by
  have hfound : s.openSlot slot.kind slot.sourceIndex = some q := by
    rw [Items.openSlot, hs.found q slot hslot hopen, Option.filter_some, slotAt_of_getElem? hslot,
      hopen]
    rfl
  simp [Items.isNew, Items.place, hfound]

theorem Seated.after {s : Items} (hs : Seated s) (event : StreamEvent) : Seated (s.after event) := by
  cases h : event.item with
  | none => rwa [after_of_item_none h]
  | some item =>
      obtain ⟨kind, index⟩ := item
      refine ⟨orderly_after hs.orderly event, ?_, ?_⟩
      · intro q slot hslot hopen
        rw [(after_slots hs.orderly h).2]
        rcases after_slot_cases hs.orderly h hslot with
          ⟨hq, old, hold, rfl⟩ | ⟨-, rfl, old, hold, rfl, rfl, -, rfl⟩ | ⟨hnew, rfl, rfl⟩
        · rw [closing_kind, closing_source]
          have holdOpen : old.closed = false := by
            unfold closing at hopen
            split at hopen
            · cases hopen
            · exact hopen
          have hother : (old.kind, old.sourceIndex) ≠ (kind, index) := by
            rintro heq
            cases heq
            exact hq (hs.place hold holdOpen).2.symm
          rw [lookup_placed s hother]
          exact hs.found q old hold holdOpen
        · rw [(touch_place s event old).1, (touch_place s event old).2.1]
          exact lookup_place s old.kind old.sourceIndex
        · rw [(touch_place s event _).1, (touch_place s event _).2.1, ← place_new hnew]
          exact lookup_place s kind index
      · intro q slot hslot hclosed
        rw [(after_fields s event).1]
        rcases after_slot_cases hs.orderly h hslot with
          ⟨-, old, hold, rfl⟩ | ⟨-, -, old, -, -, -, holdOpen, rfl⟩ | ⟨-, -, rfl⟩
        · rw [closing_kind]
          unfold closing at hclosed
          split at hclosed
          · rename_i hended
            simp only [Items.endedBy, Items.endsRaw, isReasoningOf, Bool.and_eq_true,
              beq_iff_eq] at hended
            exact ⟨hended.2.1, hended.1.2.2⟩
          · exact hs.closed q old hold hclosed
        · rw [(touch_place s event old).2.2.2, holdOpen] at hclosed
          cases hclosed
        · rw [(touch_place s event _).2.2.2] at hclosed
          cases hclosed

theorem seated_afterAll {s : Items} (hs : Seated s) (events : List StreamEvent) :
    Seated (s.afterAll events) := by
  induction events generalizing s with
  | nil => exact hs
  | cons event events ih => exact ih (hs.after event)

/-- Text and tool calls have one slot for each source. -/
theorem Seated.unique {s : Items} (hs : Seated s) {p q : Nat} {a b : Slot}
    (ha : s.slots[p]? = some a) (hb : s.slots[q]? = some b) (hkind : a.kind = b.kind)
    (hsource : a.sourceIndex = b.sourceIndex) (hopenA : a.closed = false)
    (hopenB : b.closed = false) : p = q := by
  have hp := hs.found p a ha hopenA
  rw [hkind, hsource, hs.found q b hb hopenB] at hp
  exact (Option.some.inj hp).symm

theorem Seated.open_of_kind {s : Items} (hs : Seated s) {q : Nat} {slot : Slot}
    (hslot : s.slots[q]? = some slot) (hkind : slot.kind ≠ .reasoning) : slot.closed = false := by
  cases hclosed : slot.closed with
  | false => rfl
  | true => exact absurd (hs.closed q slot hslot hclosed).1 hkind

/-- Without raw reasoning every slot stays open. -/
theorem Seated.open_of_summary {s : Items} (hs : Seated s) {q : Nat} {slot : Slot}
    (hslot : s.slots[q]? = some slot) (hmode : s.context.reasoning = .summary) :
    slot.closed = false := by
  cases hclosed : slot.closed with
  | false => rfl
  | true =>
      have hraw := (hs.closed q slot hslot hclosed).2
      rw [hmode] at hraw
      cases hraw

/-! ## Items and events -/

/-- There is a slot for each item the events name, and for no other. -/
theorem slots_of_events (context : ResponsesContext) (map : ToolMap) (events : List StreamEvent)
    (kind : SlotKind) (index : Nat) :
    (∃ (q : Nat) (slot : Slot), ((Items.start context map).afterAll events).slots[q]? = some slot ∧
        slot.kind = kind ∧ slot.sourceIndex = index) ↔
      ∃ event ∈ events, event.item = some (kind, index) := by
  induction events using List.reverseRecOn with
  | nil => simp [Items.afterAll, Items.start]
  | append_singleton events event ih =>
      have hs := (seated_afterAll (seated_start context map) events).orderly
      rw [afterAll_snoc]
      generalize (Items.start context map).afterAll events = s at hs ih ⊢
      constructor
      · rintro ⟨q, slot, hslot, hkind, hsource⟩
        have hbefore : ∀ old, s.slots[q]? = some old → old.kind = kind → old.sourceIndex = index →
            ∃ e ∈ events ++ [event], e.item = some (kind, index) := by
          intro old hold holdKind holdSource
          obtain ⟨e, he, hitem⟩ := ih.mp ⟨q, old, hold, holdKind, holdSource⟩
          exact ⟨e, List.mem_append_left _ he, hitem⟩
        cases h : event.item with
        | none =>
            rw [after_of_item_none h] at hslot
            exact hbefore slot hslot hkind hsource
        | some item =>
            obtain ⟨kind', index'⟩ := item
            rcases after_slot_cases hs h hslot with
              ⟨-, old, hold, rfl⟩ | ⟨-, -, old, hold, -, -, -, rfl⟩ | ⟨-, -, rfl⟩
            · rw [closing_kind] at hkind
              rw [closing_source] at hsource
              exact hbefore old hold hkind hsource
            · rw [(touch_place s event old).1] at hkind
              rw [(touch_place s event old).2.1] at hsource
              exact hbefore old hold hkind hsource
            · rw [(touch_place s event _).1] at hkind
              rw [(touch_place s event _).2.1] at hsource
              refine ⟨event, by simp, ?_⟩
              rw [h, ← hkind, ← hsource]
              rfl
      · rintro ⟨e, he, hitem⟩
        rcases List.mem_append.mp he with he | he
        · obtain ⟨q, old, hold, hkind, hsource⟩ := ih.mpr ⟨e, he, hitem⟩
          obtain ⟨slot, hslot, hslotKind, hslotSource⟩ := after_slot_stays hs event hold
          exact ⟨q, slot, hslot, hslotKind.trans hkind, hslotSource.trans hsource⟩
        · rw [List.mem_singleton.mp he] at hitem
          obtain ⟨slot, hslot, hkind, hsource⟩ := after_slot_place hs hitem
          exact ⟨_, slot, hslot, hkind, hsource⟩

end TokenStation.Responses
