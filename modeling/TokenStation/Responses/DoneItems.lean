import TokenStation.Responses.TurnOrder

/-!
# The items a stream ends

A done frame carries the item of its output index. Each slot of a completed
stream has one such frame: at the end of the stream, with the carriers built,
or before that, when raw reasoning is ended by text or a tool call.
-/

namespace TokenStation.Responses

open Library Library.Json

/-- The item of a done frame for an output index. -/
def doneItem (q : Nat) (f : ResponsesFrame) : Option Value :=
  if f.event = doneEvent ∧ f.outputIndex = some q then some (f.data.field "item") else none

/-- The items of the done frames for an output index. -/
def doneItems (frames : List ResponsesFrame) (q : Nat) : List Value :=
  frames.filterMap (doneItem q)

/-- The items that payloads end at an output index. -/
def doneSent (ps : List Payload) (q : Nat) : List Value := ps.filterMap fun p => doneItem q p.frame

@[simp] theorem doneSent_nil (q : Nat) : doneSent [] q = [] := rfl

@[simp] theorem doneSent_append (ps qs : List Payload) (q : Nat) :
    doneSent (ps ++ qs) q = doneSent ps q ++ doneSent qs q := by
  simp [doneSent]

theorem numberless_doneItem (q : Nat) : Numberless (doneItem q) := by
  refine ⟨?_, ?_⟩
  · rintro f p ⟨n, rfl⟩
    simp only [doneItem, ResponsesFrame.outputIndex, Payload.frame,
      field_stamp _ _ _ (by decide : "output_index" ≠ "type") (by decide),
      field_stamp _ _ _ (by decide : "item" ≠ "type") (by decide)]
    rfl
  · intro f hevent
    have hne : f.event ≠ doneEvent := by rcases hevent with h | h <;> rw [h] <;> decide
    rw [doneItem, if_neg fun h => hne h.1]

theorem doneItem_other {kind : String} (h : kind ≠ doneEvent) (data : Value) (q : Nat) :
    doneItem q (Payload.frame (kind, data)) = none := by
  rw [doneItem, if_neg fun hboth => h hboth.1]

theorem doneItem_done (slot : Slot) (item : Value) (q : Nat) :
    doneItem q (donePayload slot item).frame = if slot.index = q then some item else none := by
  simp [doneItem, donePayload, Payload.frame, doneEvent, ResponsesFrame.outputIndex, Value.field,
    lookup]

/-! ## Closing slots -/

section

variable (packages : Packages)

theorem doneSent_contentSends (s : Items) (slot : Slot) (item : Value) (q : Nat) :
    doneSent (s.contentSends packages slot item) q = [] := by
  have hnone : ∀ p ∈ s.contentSends packages slot item, p.1 ≠ doneEvent := by
    unfold Items.contentSends
    cases slot.kind with
    | text => simp [doneEvent]
    | reasoning => cases s.context.reasoning <;> simp [doneEvent]
    | tool =>
        cases s.restore.bind (Library.lookup slot.name) with
        | none => simp [doneEvent]
        | some kind =>
            cases kind with
            | custom =>
                simp only
                split <;> simp [doneEvent]
            | shell => simp [addedPayload, doneEvent]
            | function | search | namespaced => simp [doneEvent]
  exact List.filterMap_eq_nil_iff.mpr fun p hp => doneItem_other (hnone p hp) p.2 q

theorem doneSent_closeSends (s : Items) (slot : Slot) (q : Nat) :
    doneSent (s.closeSends packages slot) q =
      if slot.index = q then [s.itemOf packages slot] else [] := by
  rw [Items.closeSends, doneSent_append, doneSent_contentSends, List.nil_append, doneSent,
    List.filterMap_cons, doneItem_done]
  by_cases hq : slot.index = q
  · simp [hq]
  · simp [hq]

/-- What slots in their places give at one place. -/
theorem flatMap_at {β : Type} {slots : List Slot}
    (h : ∀ (p : Nat) (slot : Slot), slots[p]? = some slot → slot.index = p) (f : Slot → List β)
    (q : Nat) :
    slots.flatMap (fun slot => if slot.index = q then f slot else []) =
      (slots[q]?.map f).getD [] := by
  induction slots using List.reverseRecOn with
  | nil => rfl
  | append_singleton slots slot ih =>
      have hbefore : ∀ (p : Nat) (old : Slot), slots[p]? = some old → old.index = p := by
        intro p old hold
        refine h p old ?_
        rw [List.getElem?_append_left (List.getElem?_eq_some_iff.mp hold).1, hold]
      have hlast : slot.index = slots.length := h slots.length slot (by simp)
      rw [List.flatMap_append, ih hbefore, List.flatMap_cons, List.flatMap_nil, List.append_nil,
        hlast, List.getElem?_append]
      by_cases hq : q < slots.length
      · rw [if_pos hq, if_neg (by omega), List.append_nil]
      · rw [if_neg hq, List.getElem?_eq_none (Nat.not_lt.mp hq)]
        by_cases heq : slots.length = q
        · simp [heq]
        · rw [if_neg heq, List.getElem?_eq_none (by simp; omega)]
          rfl

theorem doneSent_closingSends {s : Items} (hs : s.Indexed) (select : Slot → Bool) (q : Nat) :
    doneSent (s.closingSends packages select) q =
      (s.slots[q]?.map fun slot =>
        if select slot && !slot.closed then [s.itemOf packages slot] else []).getD [] := by
  rw [← flatMap_at hs, Items.closingSends, doneSent, List.filterMap_flatMap]
  congr 1
  funext slot
  have hclose := doneSent_closeSends packages s slot q
  rw [doneSent] at hclose
  split
  · exact hclose
  · simp

/-- Before the stream ends, only raw reasoning is ended. -/
theorem doneSent_sends {s : Items} (hs : s.Indexed) {event : StreamEvent} {kind : SlotKind}
    {index : Nat} (h : event.item = some (kind, index)) (q : Nat) :
    doneSent (s.sends packages event) q =
      (s.slots[q]?.map fun slot => if s.endedBy kind index slot && !slot.closed then
        [s.itemOf packages slot] else []).getD [] := by
  have hraw : kind ≠ .reasoning → doneSent (s.rawSends packages index) q =
      (s.slots[q]?.map fun slot => if s.endedBy kind index slot && !slot.closed then
        [s.itemOf packages slot] else []).getD [] := by
    intro hkind
    rw [Items.rawSends]
    unfold Items.endedBy
    cases hends : s.endsRaw index with
    | false => cases s.slots[q]? <;> simp
    | true =>
        rw [if_pos rfl, doneSent_closingSends packages hs]
        simp [hkind]
  have hreasoning : (s.slots[q]?.map fun slot => if s.endedBy .reasoning index slot &&
      !slot.closed then [s.itemOf packages slot] else []).getD [] = [] := by
    cases s.slots[q]? <;> simp [Items.endedBy]
  have hnone : ∀ ps : List Payload, (∀ p ∈ ps, p.1 ≠ doneEvent) → doneSent ps q = [] :=
    fun ps hps => List.filterMap_eq_nil_iff.mpr fun p hp => doneItem_other (hps p hp) p.2 q
  cases event with
  | delta i content =>
      cases h
      simp only [Items.sends, Items.deltaSends, doneSent_append]
      rw [hraw (by decide), hnone, hnone, List.append_nil, List.append_nil]
      · simp [textDelta, doneEvent]
      · split
        · simp [addedPayload, textPartAdded, doneEvent]
        · simp
  | toolCallDelta i id name arguments =>
      cases h
      simp only [Items.sends, Items.toolSends, doneSent_append]
      rw [hraw (by decide), hnone, hnone, List.append_nil, List.append_nil]
      · split
        · simp [argumentsDelta, doneEvent]
        · simp
      · split
        · simp [addedPayload, doneEvent]
        · simp
  | thinkingDelta i blockIndex text =>
      cases h
      rw [hreasoning]
      refine hnone _ ?_
      simp only [Items.sends, Items.thinkingSends]
      intro p hp
      rcases List.mem_append.mp hp with hp | hp
      · split at hp
        · rcases List.mem_cons.mp hp with rfl | hp
          · simp [addedPayload, doneEvent]
          · split at hp
            · rw [List.mem_singleton.mp hp]
              simp [summaryPartAdded, doneEvent]
            · cases hp
        · cases hp
      · rw [List.mem_singleton.mp hp]
        cases s.context.reasoning <;> simp [rawDelta, summaryDelta, doneEvent]
  | thinkingSignatureDelta | redactedThinking =>
      cases h
      rw [hreasoning]
      refine hnone _ ?_
      simp only [Items.sends, Items.addSends]
      split
      · simp [addedPayload, doneEvent]
      · simp
  | usage | finish | done | error => cases h

/-! ## Items of equal tables -/

/-- An item is made of its slot, the host facts, the tools and the carriers. -/
theorem itemOf_congr {s t : Items} (hcontext : t.context = s.context)
    (hrestore : t.restore = s.restore) (hcarriers : t.replayCarriers = s.replayCarriers)
    (slot : Slot) : t.itemOf packages slot = s.itemOf packages slot := by
  unfold Items.itemOf Items.item
  rw [hcontext, hrestore, hcarriers]

theorem item_closing (s : Items) (select : Slot → Bool) (slot : Slot) :
    s.item packages (closing select slot) = s.item packages slot := by
  unfold closing
  split <;> rfl

theorem itemOf_closing (s : Items) (select : Slot → Bool) (slot : Slot) :
    s.itemOf packages (closing select slot) = s.itemOf packages slot := by
  rw [Items.itemOf, item_closing, Items.itemOf]

theorem closed_closing (select : Slot → Bool) (slot : Slot) :
    (closing select slot).closed = (slot.closed || select slot) := by
  unfold closing
  cases select slot <;> simp

/-! ## Runs -/

/-- Each closed slot has been ended once, with the item it still is. -/
def EndedOnce (s : Items) (sent : List Payload) : Prop :=
  ∀ q, doneSent sent q =
    (s.slots[q]?.map fun slot => if slot.closed then [s.itemOf packages slot] else []).getD []

theorem endedOnce_after {s : Items} {sent : List Payload} (hs : s.Orderly) (h : EndedOnce packages s sent)
    (event : StreamEvent) : EndedOnce packages (s.after event) (sent ++ s.sends packages event) := by
  cases hitem : event.item with
  | none =>
      have hsends : s.sends packages event = [] := by cases event <;> first | rfl | cases hitem
      rwa [after_of_item_none hitem, hsends, List.append_nil]
  | some item =>
      obtain ⟨kind, index⟩ := item
      obtain ⟨hcontext, hrestore⟩ := after_fields s event
      have hsame := itemOf_congr packages hcontext hrestore (after_tables hs event).2.2
      intro q
      rw [doneSent_append, h q, doneSent_sends packages hs.indexed hitem]
      cases hslot : (s.after event).slots[q]? with
      | none =>
          have hlength := after_length hs hitem
          have hq := List.getElem?_eq_none_iff.mp hslot
          rw [List.getElem?_eq_none (by omega)]
          rfl
      | some slot =>
          simp only [Option.map_some, Option.getD_some, hsame]
          rcases after_slot_cases hs hitem hslot with
            ⟨-, old, hold, rfl⟩ | ⟨-, -, old, hold, hkind, -, hopen, rfl⟩ | ⟨-, rfl, rfl⟩
          · rw [hold, closed_closing, itemOf_closing]
            cases hclosed : old.closed <;> cases hends : s.endedBy kind index old <;>
              simp [hclosed, hends]
          · have hkept : s.endedBy kind index old = false := by
              by_cases hreasoning : kind = .reasoning
              · simp [Items.endedBy, hreasoning]
              · simp [Items.endedBy, isReasoningOf, hkind, hreasoning]
            simp [hold, hopen, hkept, (touch_place s event old).2.2.2]
          · rw [List.getElem?_eq_none (Nat.le_refl _), (touch_place s event _).2.2.2]
            rfl

theorem endedOnce_afterAll (context : ResponsesContext) (map : ToolMap) (events : List StreamEvent) :
    EndedOnce packages ((Items.start context map).afterAll events)
      ((Items.start context map).sendsAll packages events) := by
  induction events using List.reverseRecOn with
  | nil => exact fun q => rfl
  | append_singleton events event ih =>
      rw [afterAll_snoc, sendsAll_snoc]
      exact endedOnce_after packages (orderly_afterAll (orderly_start context map) events) ih event

/-- The terminal frame ends no item. -/
theorem Terminal.doneItem {f : ResponsesFrame} {output : List Value} (h : Terminal f output)
    (q : Nat) : doneItem q f = none := by
  rw [Responses.doneItem, if_neg]
  rintro ⟨-, hindex⟩
  rw [h.unindexed] at hindex
  cases hindex

/-- Each slot of a completed stream is ended once: a closed one without its
carrier, any other with it. -/
theorem finished_doneItems {context : ResponsesContext} {map : ToolMap} {live : List StreamEvent}
    {frames : List ResponsesFrame} {s : Items} {output : List Value}
    (h : Finished packages context map live frames s output) (q : Nat) :
    doneItems frames q =
      (((Items.start context map).afterAll live).slots[q]?.map fun slot =>
        [if slot.closed then ((Items.start context map).afterAll live).itemOf packages slot
          else s.itemOf packages slot]).getD [] := by
  have hs := orderly_afterAll (orderly_start context map) live
  have hended := endedOnce_afterAll packages context map live q
  obtain ⟨carriers, -, hitems⟩ := h.items
  obtain ⟨front, last, rfl, hterminal, -, hsent⟩ := h.frames
  have hfront : doneItems front q = doneSent ((Items.start context map).sendsAll packages live ++
      (((Items.start context map).afterAll live).withCarriers s.replayCarriers).closingSends
        packages fun _ => true) q := by
    rw [doneItems, ← (numberless_doneItem q).of_content, (numberless_doneItem q).of_stamped hsent]
    rfl
  have hlast : doneItems (front ++ [last]) q = doneItems front q := by
    simp [doneItems, hterminal.doneItem q]
  have hclosing := doneSent_closingSends packages
    (s := ((Items.start context map).afterAll live).withCarriers s.replayCarriers)
    (fun p slot => hs.indexed p slot) (fun _ => true) q
  rw [hlast, hfront, doneSent_append, hended, hclosing]
  have hsame : ∀ slot, (((Items.start context map).afterAll live).withCarriers
      s.replayCarriers).itemOf packages slot = s.itemOf packages slot := by
    intro slot
    rw [hitems]
    exact itemOf_congr packages rfl rfl rfl slot
  have hslots : (((Items.start context map).afterAll live).withCarriers s.replayCarriers).slots =
      ((Items.start context map).afterAll live).slots := rfl
  rw [hslots]
  cases ((Items.start context map).afterAll live).slots[q]? with
  | none => rfl
  | some slot => cases hclosed : slot.closed <;> simp [hsame, hclosed]

end

/-! ## Signatures -/

/-- Signed reasoning is replayed, and reasoning that was ended is unsigned. -/
structure SignaturesKept (s : Items) : Prop where
  signed : ∀ (q : Nat) (slot : Slot), s.slots[q]? = some slot → slot.signature ≠ "" →
    slot.sourceIndex ∈ s.replayActive
  closed : ∀ (q : Nat) (slot : Slot), s.slots[q]? = some slot → slot.closed = true →
    slot.signature = ""

theorem signature_closing (select : Slot → Bool) (slot : Slot) :
    (closing select slot).signature = slot.signature := by
  unfold closing
  split <;> rfl

/-- Only signatures change the signature of a slot. -/
theorem touch_signature (s : Items) {event : StreamEvent} {slot : Slot} {kind : SlotKind}
    {index : Nat} (h : event.item = some (kind, index))
    (hsigned : (s.touch event slot).signature ≠ "") :
    slot.signature ≠ "" ∨ event.activates = some index := by
  cases event with
  | thinkingSignatureDelta i blockIndex text =>
      cases h
      simp only [Items.touch] at hsigned
      split at hsigned
      · by_cases htext : text = ""
        · left
          simpa [Slot.sign, htext] using hsigned
        · right
          simp [StreamEvent.activates, htext]
      · exact .inl hsigned
  | toolCallDelta i id name arguments =>
      simp only [Items.touch, Items.touchCall] at hsigned
      split at hsigned <;> exact .inl hsigned
  | _ => exact .inl hsigned

theorem SignaturesKept.after {s : Items} (hs : s.Orderly) (h : SignaturesKept s)
    {event : StreamEvent} (haccepts : s.Accepts event) : SignaturesKept (s.after event) := by
  cases hitem : event.item with
  | none => rwa [after_of_item_none hitem]
  | some item =>
      obtain ⟨kind, index⟩ := item
      refine ⟨fun q slot hslot hsigned => ?_, fun q slot hslot hclosed => ?_⟩
      · rw [mem_active_after haccepts]
        rcases after_slot_cases hs hitem hslot with
          ⟨-, old, hold, rfl⟩ | ⟨-, -, old, hold, -, hsource, -, rfl⟩ | ⟨-, -, rfl⟩
        · rw [signature_closing] at hsigned
          rw [closing_source]
          exact .inl (h.signed q old hold hsigned)
        · rw [(touch_place s event old).2.1]
          rcases touch_signature s hitem hsigned with hbefore | hnow
          · exact .inl (h.signed q old hold hbefore)
          · exact .inr (hsource ▸ hnow)
        · rw [(touch_place s event _).2.1]
          rcases touch_signature s hitem hsigned with hbefore | hnow
          · exact absurd rfl hbefore
          · exact .inr hnow
      · rcases after_slot_cases hs hitem hslot with
          ⟨-, old, hold, rfl⟩ | ⟨-, -, old, -, -, -, hopen, rfl⟩ | ⟨-, -, rfl⟩
        · rw [signature_closing]
          rw [closed_closing, Bool.or_eq_true] at hclosed
          rcases hclosed with hbefore | hended
          · exact h.closed q old hold hbefore
          · by_contra hsigned
            have hactive := h.signed q old hold hsigned
            simp only [Items.endedBy, Items.endsRaw, Items.hasReplay, isReasoningOf,
              Bool.and_eq_true, beq_iff_eq] at hended
            have hidle := hended.1.2.1
            rw [← hended.2.2] at hidle
            simp [hactive] at hidle
        · rw [(touch_place s event old).2.2.2, hopen] at hclosed
          cases hclosed
        · rw [(touch_place s event _).2.2.2] at hclosed
          cases hclosed

theorem signaturesKept_afterAll (context : ResponsesContext) (map : ToolMap)
    {events : List StreamEvent} (h : (Items.start context map).AcceptsAll events) :
    SignaturesKept ((Items.start context map).afterAll events) := by
  have hboth := afterAll_induction (P := fun _ s => Items.Orderly s ∧ SignaturesKept s)
    ⟨orderly_start context map, by simp [Items.start], by simp [Items.start]⟩
    (fun _ event t ht haccepts => ⟨orderly_after ht.1 event, ht.2.after ht.1 haccepts⟩) events h
  exact hboth.2

end TokenStation.Responses
