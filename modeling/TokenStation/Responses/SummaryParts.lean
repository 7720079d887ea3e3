import TokenStation.Responses.Slots

/-!
# Announcing summary parts

In summary mode the frames of a summary part name its item, output index and
summary index. The part is announced when a thinking fragment makes the
reasoning item; a redacted block that makes it announces nothing.
-/

namespace TokenStation.Responses

open Library Library.Json Library.Fallible

/-! ## Parts -/

def partAddedEvent : String := "response.reasoning_summary_part.added"

/-- The frames that continue or end a summary part. -/
def partEvents : List String :=
  ["response.reasoning_summary_text.delta", "response.reasoning_summary_text.done",
    "response.reasoning_summary_part.done"]

/-- The summary part of a frame. -/
def ResponsesFrame.summaryIndex (f : ResponsesFrame) : Option Nat :=
  (f.data.field "summary_index").asU64

/-- What names a summary part: its item, its output index and its own index. -/
abbrev Part := Option String × Option Nat × Option Nat

def ResponsesFrame.part (f : ResponsesFrame) : Part := (f.itemId, f.outputIndex, f.summaryIndex)

/-- Each frame of a summary part comes after exactly one that announces it. -/
def PartsAnnounced (frames : List ResponsesFrame) : Prop :=
  ∀ before f after, frames = before ++ f :: after → f.event ∈ partEvents →
    (before.filter fun g => g.event == partAddedEvent && g.part == f.part).length = 1

/-- What a frame says of a summary part. -/
inductive PartMark where
  | added (part : Part)
  | named (part : Part)
deriving DecidableEq, Repr

def ResponsesFrame.partMark (f : ResponsesFrame) : Option PartMark :=
  if f.event = partAddedEvent then some (.added f.part)
  else if f.event ∈ partEvents then some (.named f.part)
  else none

/-- Each part that is named has been announced once, where `count` is what was
announced before. -/
def Announced (count : Part → Nat) : List PartMark → Prop
  | [] => True
  | .added part :: marks => Announced (fun p => count p + if part = p then 1 else 0) marks
  | .named part :: marks => count part = 1 ∧ Announced count marks

theorem announced_append {count : Part → Nat} {ms ns : List PartMark} :
    Announced count (ms ++ ns) ↔
      Announced count ms ∧ Announced (fun p => count p + ms.count (.added p)) ns := by
  induction ms generalizing count with
  | nil => simp [Announced]
  | cons m ms ih =>
      cases m with
      | added part =>
          have hcount : (fun p => count p + (PartMark.added part :: ms).count (.added p)) =
              fun p => count p + (if part = p then 1 else 0) + ms.count (.added p) := by
            funext p
            rw [List.count_cons]
            simp only [beq_iff_eq, PartMark.added.injEq]
            omega
          rw [List.cons_append, Announced, Announced, ih, hcount]
      | named part =>
          have hcount : (fun p => count p + (PartMark.named part :: ms).count (.added p)) =
              fun p => count p + ms.count (.added p) := by
            funext p
            rw [List.count_cons]
            simp
          rw [List.cons_append, Announced, Announced, ih, hcount, and_assoc]

/-- Where nothing is announced, what is named must be announced before. -/
theorem announced_named {count : Part → Nat} {ms : List PartMark}
    (h : ∀ m ∈ ms, ∃ part, m = .named part) :
    Announced count ms ↔ ∀ part, PartMark.named part ∈ ms → count part = 1 := by
  induction ms with
  | nil => simp [Announced]
  | cons m ms ih =>
      obtain ⟨part, rfl⟩ := h m List.mem_cons_self
      rw [Announced, ih fun m hm => h m (List.mem_cons_of_mem _ hm)]
      simp

theorem announced_frames (count : Part → Nat) (frames : List ResponsesFrame) :
    Announced count (frames.filterMap (·.partMark)) ↔
      ∀ before f after, frames = before ++ f :: after → f.event ∈ partEvents →
        count f.part +
          (before.filter fun g => g.event == partAddedEvent && g.part == f.part).length = 1 := by
  induction frames generalizing count with
  | nil => simp [Announced]
  | cons g frames ih =>
      have hcons : ∀ P : List ResponsesFrame → ResponsesFrame → Prop,
          (∀ before f after, g :: frames = before ++ f :: after → P before f) ↔
            P [] g ∧ ∀ before f after, frames = before ++ f :: after → P (g :: before) f := by
        intro P
        constructor
        · exact fun h => ⟨h [] g frames rfl, fun before f after hframes =>
            h (g :: before) f after (by rw [hframes, List.cons_append])⟩
        · rintro ⟨hfirst, hrest⟩ before f after hframes
          cases before with
          | nil =>
              obtain ⟨rfl, -⟩ := List.cons.inj hframes
              exact hfirst
          | cons b before =>
              obtain ⟨rfl, hafter⟩ := List.cons.inj hframes
              exact hrest before f after hafter
      rw [hcons fun before f => f.event ∈ partEvents → count f.part + (before.filter fun g =>
        g.event == partAddedEvent && g.part == f.part).length = 1]
      by_cases hadded : g.event = partAddedEvent
      · have hmark : g.partMark = some (.added g.part) := by simp [ResponsesFrame.partMark, hadded]
        have hnot : g.event ∉ partEvents := by rw [hadded]; decide
        rw [List.filterMap_cons_some hmark, Announced, ih]
        simp only [hnot, false_implies, true_and]
        refine forall_congr' fun before => forall_congr' fun f => forall_congr' fun after =>
          imp_congr_right fun _ => imp_congr_right fun _ => ?_
        by_cases hpart : g.part = f.part
        · rw [List.filter_cons_of_pos (by simp [hadded, hpart]), if_pos hpart, List.length_cons]
          omega
        · rw [List.filter_cons_of_neg (by simp [hpart]), if_neg hpart, Nat.add_zero]
      · have hkeep : ∀ (before : List ResponsesFrame) (part : Part),
            (g :: before).filter (fun g => g.event == partAddedEvent && g.part == part) =
              before.filter fun g => g.event == partAddedEvent && g.part == part :=
          fun before part => List.filter_cons_of_neg (by simp [hadded])
        simp only [hkeep]
        by_cases hnamed : g.event ∈ partEvents
        · have hmark : g.partMark = some (.named g.part) := by
            simp [ResponsesFrame.partMark, hadded, hnamed]
          rw [List.filterMap_cons_some hmark, Announced, ih]
          simp [hnamed]
        · have hmark : g.partMark = none := by simp [ResponsesFrame.partMark, hadded, hnamed]
          rw [List.filterMap_cons_none hmark, ih]
          simp [hnamed]

theorem partsAnnounced_iff (frames : List ResponsesFrame) :
    PartsAnnounced frames ↔ Announced (fun _ => 0) (frames.filterMap (·.partMark)) := by
  rw [announced_frames]
  simp [PartsAnnounced]

/-! ## The marks of each event -/

def partMarks (ps : List Payload) : List PartMark := ps.filterMap (·.frame.partMark)

@[simp] theorem partMarks_nil : partMarks [] = [] := rfl

@[simp] theorem partMarks_append (ps qs : List Payload) :
    partMarks (ps ++ qs) = partMarks ps ++ partMarks qs := by
  simp [partMarks]

theorem numberless_partMark : Numberless ResponsesFrame.partMark := by
  refine ⟨?_, ?_⟩
  · rintro f p ⟨n, rfl⟩
    have hpart : (⟨p.1, stamp p.1 p.2 n⟩ : ResponsesFrame).part = p.frame.part := by
      simp only [ResponsesFrame.part, ResponsesFrame.itemId, ResponsesFrame.outputIndex,
        ResponsesFrame.summaryIndex, Payload.frame,
        field_stamp _ _ _ (by decide : "item_id" ≠ "type") (by decide),
        field_stamp _ _ _ (by decide : "output_index" ≠ "type") (by decide),
        field_stamp _ _ _ (by decide : "summary_index" ≠ "type") (by decide)]
    unfold ResponsesFrame.partMark
    rw [hpart]
    rfl
  · intro f hevent
    have hnamed : f.event ∉ partEvents := by rcases hevent with h | h <;> rw [h] <;> decide
    have hadded : f.event ≠ partAddedEvent := by rcases hevent with h | h <;> rw [h] <;> decide
    rw [ResponsesFrame.partMark, if_neg hadded, if_neg hnamed]

/-- The marks of frames that are content are the marks of their payloads. -/
theorem partMarks_sent {frames : List ResponsesFrame} {ps : List Payload}
    (h : List.Forall₂ Stamped (content frames) ps) :
    frames.filterMap (·.partMark) = partMarks ps := by
  rw [← numberless_partMark.of_content, numberless_partMark.of_stamped h]
  rfl

/-- The part of a reasoning item in summary mode. -/
def slotPart (slot : Slot) : Part := (some slot.id, some slot.index, some 0)

theorem part_frame {kind : String} (slot : Slot) {fields : List (String × Value)}
    (h : lookup "summary_index" fields = some (.nat 0)) :
    (Payload.frame (kind, .obj (itemFields slot ++ fields))).part = slotPart slot := by
  simp [Payload.frame, ResponsesFrame.part, ResponsesFrame.itemId, ResponsesFrame.outputIndex,
    ResponsesFrame.summaryIndex, slotPart, itemFields, Value.field, lookup, h]

theorem partMark_named {kind : String} (hkind : kind ∈ partEvents) (slot : Slot)
    {fields : List (String × Value)} (h : lookup "summary_index" fields = some (.nat 0)) :
    (Payload.frame (kind, .obj (itemFields slot ++ fields))).partMark =
      some (.named (slotPart slot)) := by
  have hadded : kind ≠ partAddedEvent := by
    rintro rfl
    revert hkind
    decide
  rw [ResponsesFrame.partMark, part_frame slot h]
  exact (if_neg hadded).trans (if_pos hkind)

theorem partMark_added (slot : Slot) :
    (summaryPartAdded slot).frame.partMark = some (.added (slotPart slot)) := by
  have hpart : (summaryPartAdded slot).frame.part = slotPart slot :=
    part_frame slot (by simp [lookup])
  rw [ResponsesFrame.partMark, hpart]
  rfl

theorem partMark_delta (slot : Slot) (text : String) :
    (summaryDelta slot text).frame.partMark = some (.named (slotPart slot)) :=
  partMark_named (by decide) slot (by simp [lookup])

variable (packages : Packages)

theorem partMarks_contentSends {s : Items} (hmode : s.context.reasoning = .summary) (slot : Slot)
    (item : Value) :
    partMarks (s.contentSends packages slot item) =
      if slot.kind = .reasoning then [.named (slotPart slot), .named (slotPart slot)] else [] := by
  unfold Items.contentSends
  cases hkind : slot.kind with
  | text => rfl
  | reasoning =>
      simp only [hmode, partMarks, List.filterMap_cons, List.filterMap_nil]
      rw [partMark_named (by decide) slot (by simp [lookup]),
        partMark_named (by decide) slot (by simp [lookup])]
      rfl
  | tool =>
      cases hrestored : s.restore.bind (Library.lookup slot.name) with
      | none => rfl
      | some kind =>
          cases kind with
          | custom =>
              simp only
              split <;> rfl
          | shell => rfl
          | function | search | namespaced => rfl

theorem partMarks_closingSends {s : Items} (hmode : s.context.reasoning = .summary)
    (select : Slot → Bool) :
    partMarks (s.closingSends packages select) = s.slots.flatMap fun slot =>
      if (select slot && !slot.closed) = true ∧ slot.kind = .reasoning then
        [.named (slotPart slot), .named (slotPart slot)]
      else [] := by
  unfold Items.closingSends partMarks
  rw [List.filterMap_flatMap]
  refine List.flatMap_congr fun slot _ => ?_
  cases hselected : select slot && !slot.closed with
  | false => rfl
  | true =>
      have hdone : partMarks [donePayload slot (s.itemOf packages slot)] = [] := rfl
      have hclose : partMarks (s.closeSends packages slot) =
          if slot.kind = .reasoning then [.named (slotPart slot), .named (slotPart slot)] else [] := by
        rw [Items.closeSends, partMarks_append, partMarks_contentSends packages hmode, hdone,
          List.append_nil]
      simpa [partMarks] using hclose

/-- In summary mode an event speaks of the part of its own reasoning item. -/
def Items.marksOf (s : Items) : StreamEvent → List PartMark
  | .thinkingDelta index _ _ =>
      let part := slotPart ((s.placed .reasoning index).slotAt (s.place .reasoning index))
      (if s.isNew .reasoning index then [.added part] else []) ++ [.named part]
  | _ => []

theorem partMarks_sends {s : Items} (hmode : s.context.reasoning = .summary) (event : StreamEvent) :
    partMarks (s.sends packages event) = s.marksOf event := by
  have hraw : ∀ index, s.rawSends packages index = [] := by
    intro index
    simp [Items.rawSends, Items.endsRaw, hmode]
  cases event with
  | delta index content =>
      simp only [Items.sends, Items.deltaSends, hraw, List.nil_append, partMarks_append]
      split <;> rfl
  | thinkingDelta index blockIndex text =>
      obtain ⟨hslots, hlookup, hcontext, -⟩ := thought_fields s index blockIndex text
      obtain ⟨hplace, hnew, hslots', -⟩ := placed_congr hslots hlookup hcontext .reasoning index
      simp only [Items.sends, Items.thinkingSends, Items.marksOf, Items.slotAt, hplace, hnew, hslots',
        hmode, if_true, partMarks_append]
      congr 1
      · split
        · simp only [partMarks, List.filterMap_cons, partMark_added]
          rfl
        · rfl
      · simp only [partMarks, List.filterMap_cons, partMark_delta]
        rfl
  | thinkingSignatureDelta | redactedThinking =>
      simp only [Items.sends, Items.addSends, Items.marksOf]
      split <;> rfl
  | toolCallDelta index id name arguments =>
      simp only [Items.sends, Items.toolSends, hraw, List.nil_append, partMarks_append, Items.marksOf]
      split <;> split <;> rfl
  | usage | finish | done | error => rfl

/-! ## Runs -/

def StreamEvent.isThinking : StreamEvent → Bool
  | .thinkingDelta _ _ _ => true
  | _ => false

/-- The event that makes the reasoning item of a choice. -/
def opening (events : List StreamEvent) (index : Nat) : Option StreamEvent :=
  events.find? fun event => event.item == some (.reasoning, index)

/-- The first reasoning event of every choice is a thinking fragment. -/
def ThinkingFirst (events : List StreamEvent) : Prop :=
  ∀ index, (opening events index).all (·.isThinking) = true

theorem opening_snoc (events : List StreamEvent) (event : StreamEvent) (index : Nat) :
    opening (events ++ [event]) index = (opening events index).or
      (if event.item = some (.reasoning, index) then some event else none) := by
  rw [opening, List.find?_append, List.find?_singleton]
  simp [opening]

/-- What has been announced of each reasoning item. -/
structure Parted (s : Items) (events : List StreamEvent) (marks : List PartMark) : Prop where
  slot : ∀ (q : Nat) (slot : Slot), s.slots[q]? = some slot → slot.kind = .reasoning →
    marks.count (.added (slotPart slot)) =
      if (opening events slot.sourceIndex).any (·.isThinking) then 1 else 0
  beyond : ∀ (id : Option String) (q : Nat) (i : Option Nat), s.slots.length ≤ q →
    marks.count (.added (id, some q, i)) = 0

theorem slotPart_touch (s : Items) {event : StreamEvent} {kind : SlotKind} {index : Nat}
    (slot : Slot) (h : event.item = some (kind, index)) (hkind : kind ≠ .tool) :
    slotPart (s.touch event slot) = slotPart slot := by
  rw [slotPart, touch_id s slot h hkind, (touch_place s event slot).2.2.1]
  rfl

theorem slotPart_closing (select : Slot → Bool) (slot : Slot) :
    slotPart (closing select slot) = slotPart slot := by
  unfold closing
  split <;> rfl

/-- The part an event announces. -/
def Items.announcing (s : Items) : StreamEvent → Option Part
  | .thinkingDelta index _ _ =>
      if s.isNew .reasoning index then some (slotPart (s.newSlot .reasoning index)) else none
  | _ => none

theorem placed_at_new (s : Items) {kind : SlotKind} {index : Nat} (h : s.isNew kind index = true) :
    (s.placed kind index).slotAt (s.place kind index) = s.newSlot kind index := by
  refine slotAt_of_getElem? ?_
  rw [place_new h, Items.placed, if_pos h]
  simp

theorem count_marksOf (s : Items) (event : StreamEvent) (part : Part) :
    (s.marksOf event).count (.added part) = if s.announcing event = some part then 1 else 0 := by
  cases event with
  | thinkingDelta index blockIndex text =>
      cases hnew : s.isNew .reasoning index with
      | true => simp [Items.marksOf, Items.announcing, hnew, placed_at_new, List.count_cons]
      | false => simp [Items.marksOf, Items.announcing, hnew]
  | _ => rfl

/-- An announced part is the one of a new item. -/
theorem announcing_eq_some {s : Items} {event : StreamEvent} {part : Part}
    (h : s.announcing event = some part) :
    ∃ index, event.item = some (.reasoning, index) ∧ s.isNew .reasoning index = true ∧
      part = slotPart (s.newSlot .reasoning index) := by
  cases event with
  | thinkingDelta index blockIndex text =>
      simp only [Items.announcing] at h
      split at h
      · rename_i hnew
        exact ⟨index, rfl, hnew, (Option.some.inj h).symm⟩
      · cases h
  | _ => cases h

section

variable {context : ResponsesContext} {map : ToolMap}

/-- A choice has an opening event once it has a reasoning item. -/
theorem opening_isSome (context : ResponsesContext) (map : ToolMap) (events : List StreamEvent) (index : Nat) :
    (opening events index).isSome = true ↔
      ∃ (q : Nat) (slot : Slot),
        ((Items.start context map).afterAll events).slots[q]? = some slot ∧
          slot.kind = .reasoning ∧ slot.sourceIndex = index := by
  rw [slots_of_events, opening, List.find?_isSome]
  simp

theorem parted_step {events : List StreamEvent} {event : StreamEvent} {marks : List PartMark}
    (hmode : context.reasoning = .summary)
    (h : Parted ((Items.start context map).afterAll events) events marks) :
    Parted ((Items.start context map).afterAll (events ++ [event])) (events ++ [event])
      (marks ++ ((Items.start context map).afterAll events).marksOf event) := by
  have hseated := seated_afterAll (seated_start context map) events
  have hopening := opening_isSome context map events
  have hsummary : ((Items.start context map).afterAll events).context.reasoning = .summary := by
    rw [(afterAll_fields _ events).1]
    exact hmode
  rw [afterAll_snoc]
  generalize (Items.start context map).afterAll events = s at h hseated hopening hsummary ⊢
  cases hitem : event.item with
  | none =>
      have hparts : s.marksOf event = [] := by cases event <;> first | rfl | cases hitem
      rw [after_of_item_none hitem, hparts, List.append_nil]
      refine ⟨fun q slot hslot hkind => ?_, h.beyond⟩
      rw [h.slot q slot hslot hkind, opening_snoc, hitem]
      simp
  | some item =>
      obtain ⟨kind, index⟩ := item
      refine ⟨fun q slot hslot hkind => ?_, fun id q i hq => ?_⟩
      · rw [List.count_append, count_marksOf, opening_snoc]
        rcases after_slot_cases hseated.orderly hitem hslot with
          ⟨hq, old, hold, rfl⟩ | ⟨hnew, rfl, old, hold, rfl, rfl, -, rfl⟩ | ⟨hnew, rfl, rfl⟩
        · rw [closing_kind] at hkind
          have hnone : s.announcing event ≠ some (slotPart old) := by
            intro hsome
            obtain ⟨_, -, -, hpart⟩ := announcing_eq_some hsome
            have hindex : old.index = s.slots.length := Option.some.inj (congrArg (·.2.1) hpart)
            rw [hseated.orderly.indexed q old hold] at hindex
            have hlt := (List.getElem?_eq_some_iff.mp hold).1
            omega
          have hother : event.item ≠ some (.reasoning, old.sourceIndex) := by
            rw [hitem]
            rintro heq
            cases heq
            exact hq (hkind ▸ (hseated.place hold (hseated.open_of_summary hold hsummary)).2.symm)
          rw [slotPart_closing, if_neg hnone, closing_source, if_neg hother, Option.or_none,
            Nat.add_zero]
          exact h.slot q old hold hkind
        · rw [(touch_place s event old).1] at hkind
          rw [hkind] at hitem hnew
          have hnone : s.announcing event = none := by
            cases event with
            | thinkingDelta =>
                cases hitem
                simp [Items.announcing, hnew]
            | _ => rfl
          obtain ⟨first, hfirst⟩ := Option.isSome_iff_exists.mp
            ((hopening old.sourceIndex).mpr ⟨_, old, hold, hkind, rfl⟩)
          rw [slotPart_touch s old hitem (by decide), (touch_place s event old).2.1, hnone, hfirst,
            Option.some_or, h.slot _ old hold hkind, hfirst]
          simp
        · rw [(touch_place s event _).1] at hkind
          obtain rfl : kind = .reasoning := hkind
          have hnone : opening events index = none := by
            rw [← Option.not_isSome_iff_eq_none, hopening index]
            rintro ⟨q, old, hold, hslotKind, rfl⟩
            have hplace := (hseated.place hold (hseated.open_of_summary hold hsummary)).1
            rw [hslotKind, hnew] at hplace
            cases hplace
          have hzero : marks.count (.added (slotPart (s.newSlot .reasoning index))) = 0 :=
            h.beyond _ _ _ (Nat.le_refl _)
          have hsource : (s.newSlot .reasoning index).sourceIndex = index := rfl
          rw [slotPart_touch s _ hitem (by decide), (touch_place s event _).2.1, hzero, hsource,
            hnone, Option.none_or, if_pos hitem, Nat.zero_add]
          cases event with
          | thinkingDelta =>
              cases hitem
              simp [Items.announcing, hnew, StreamEvent.isThinking]
          | _ => rfl
      · rw [after_length hseated.orderly hitem] at hq
        rw [List.count_append, h.beyond id q i (by omega), count_marksOf, Nat.zero_add, if_neg]
        intro hsome
        obtain ⟨index', hitem', hnew, hpart⟩ := announcing_eq_some hsome
        rw [hitem] at hitem'
        cases hitem'
        have hindex : some q = some s.slots.length := congrArg (·.2.1) hpart
        rw [hnew, Bool.toNat_true] at hq
        cases hindex
        omega

/-- What a run has announced of each reasoning item. -/
theorem parted_afterAll (hmode : context.reasoning = .summary) (events : List StreamEvent) :
    Parted ((Items.start context map).afterAll events) events
      (partMarks ((Items.start context map).sendsAll packages events)) := by
  induction events using List.reverseRecOn with
  | nil => exact ⟨by simp [Items.afterAll, Items.start], by simp [Items.sendsAll]⟩
  | append_singleton events event ih =>
      have hsummary : ((Items.start context map).afterAll events).context.reasoning = .summary := by
        rw [(afterAll_fields _ events).1]
        exact hmode
      rw [sendsAll_snoc, partMarks_append, partMarks_sends packages hsummary]
      exact parted_step hmode ih

/-- Where every choice opens with a thinking fragment, its part is announced
before it is named. -/
theorem announced_step {events : List StreamEvent} {event : StreamEvent} {marks : List PartMark}
    (hfirst : ThinkingFirst events)
    (h : Parted ((Items.start context map).afterAll events) events marks) :
    Announced (fun p => marks.count (.added p))
      (((Items.start context map).afterAll events).marksOf event) := by
  have hseated := seated_afterAll (seated_start context map) events
  have hopening := opening_isSome context map events
  generalize (Items.start context map).afterAll events = s at h hseated hopening ⊢
  cases event with
  | thinkingDelta index blockIndex text =>
      simp only [Items.marksOf]
      cases hnew : s.isNew .reasoning index with
      | true =>
          rw [placed_at_new s hnew, if_pos rfl]
          refine ⟨?_, trivial⟩
          have hzero : marks.count (.added (slotPart (s.newSlot .reasoning index))) = 0 :=
            h.beyond _ _ _ (Nat.le_refl _)
          simp only [hzero, if_true]
      | false =>
          obtain ⟨slot, hslot, hkind, hsource, -⟩ := placed_slot hseated.orderly .reasoning index
          rw [slotAt_of_getElem? hslot]
          rw [placed_old hnew] at hslot
          obtain ⟨first, hopened⟩ := Option.isSome_iff_exists.mp
            ((hopening index).mpr ⟨_, slot, hslot, hkind, hsource⟩)
          have hthinking := hfirst index
          rw [hopened] at hthinking
          have hcount := h.slot _ slot hslot hkind
          rw [hsource, hopened] at hcount
          exact ⟨hcount.trans (if_pos hthinking), trivial⟩
  | _ => trivial

theorem thinkingFirst_mono {events more : List StreamEvent} (h : events <+: more)
    (hfirst : ThinkingFirst more) : ThinkingFirst events := by
  obtain ⟨rest, rfl⟩ := h
  intro index
  cases hopened : opening events index with
  | none => rfl
  | some first =>
      have hmore := hfirst index
      rwa [opening, List.find?_append, ← opening, hopened, Option.some_or] at hmore

theorem announced_afterAll (hmode : context.reasoning = .summary) {events : List StreamEvent}
    (hfirst : ThinkingFirst events) :
    Announced (fun _ => 0) (partMarks ((Items.start context map).sendsAll packages events)) := by
  induction events using List.reverseRecOn with
  | nil => trivial
  | append_singleton events event ih =>
      have hbefore := thinkingFirst_mono (List.prefix_append events [event]) hfirst
      have hsummary : ((Items.start context map).afterAll events).context.reasoning = .summary := by
        rw [(afterAll_fields _ events).1]
        exact hmode
      rw [sendsAll_snoc, partMarks_append, partMarks_sends packages hsummary, announced_append]
      refine ⟨ih hbefore, ?_⟩
      simp only [Nat.zero_add]
      exact announced_step hbefore (parted_afterAll packages hmode events)

/-- Closing the items names every part once more. -/
theorem announced_closing (hmode : context.reasoning = .summary) (events : List StreamEvent)
    (carriers : List (Nat × String)) :
    Announced (fun p => (partMarks ((Items.start context map).sendsAll packages events)).count
        (.added p)) (partMarks ((((Items.start context map).afterAll events).withCarriers
          carriers).closingSends packages fun _ => true)) ↔ ThinkingFirst events := by
  have hseated := seated_afterAll (seated_start context map) events
  have hopening := opening_isSome context map events
  have hparted : Parted ((Items.start context map).afterAll events) events
      (partMarks ((Items.start context map).sendsAll packages events)) :=
    parted_afterAll packages hmode events
  have hsummary : ((Items.start context map).afterAll events).context.reasoning = .summary := by
    rw [(afterAll_fields _ events).1]
    exact hmode
  generalize (Items.start context map).afterAll events = s at hseated hopening hparted hsummary ⊢
  have hslots : (s.withCarriers carriers).slots = s.slots := rfl
  rw [partMarks_closingSends packages (s := s.withCarriers carriers) hsummary, hslots,
    announced_named]
  · constructor
    · intro h index
      cases hopened : opening events index with
      | none => rfl
      | some first =>
          obtain ⟨q, slot, hslot, hkind, rfl⟩ :=
            (hopening index).mp (Option.isSome_iff_exists.mpr ⟨first, hopened⟩)
          have hone := h (slotPart slot) (List.mem_flatMap.mpr
            ⟨slot, List.mem_of_getElem? hslot, by
              simp [hkind, hseated.open_of_summary hslot hsummary]⟩)
          rw [hparted.slot q slot hslot hkind, hopened] at hone
          by_contra hnot
          exact absurd (hone.symm.trans (if_neg hnot)) (by decide)
    · intro hfirst part hpart
      obtain ⟨slot, hmem, hpart⟩ := List.mem_flatMap.mp hpart
      obtain ⟨q, hslot⟩ := List.mem_iff_getElem?.mp hmem
      split at hpart
      · rename_i hreasoning
        obtain rfl : part = slotPart slot := by simpa using hpart
        obtain ⟨first, hopened⟩ := Option.isSome_iff_exists.mp
          ((hopening slot.sourceIndex).mpr ⟨q, slot, hslot, hreasoning.2, rfl⟩)
        have hthinking := hfirst slot.sourceIndex
        rw [hopened] at hthinking
        rw [hparted.slot q slot hslot hreasoning.2, hopened]
        exact if_pos hthinking
      · cases hpart
  · intro m hm
    obtain ⟨slot, -, hm⟩ := List.mem_flatMap.mp hm
    split at hm
    · exact ⟨slotPart slot, by simpa using hm⟩
    · cases hm

end

/-! ## Whole streams -/

theorem live_mono {events live : List StreamEvent} (h : live <+: events)
    (hcontent : ∀ event ∈ live, event.isContent = true) :
    live <+: events.takeWhile (·.isContent) := by
  obtain ⟨rest, rfl⟩ := h
  rw [List.takeWhile_append_of_pos hcontent]
  exact List.prefix_append _ _

theorem Terminal.partMark {f : ResponsesFrame} {output : List Value} (h : Terminal f output) :
    f.partMark = none := by
  have hadded : f.event ≠ partAddedEvent := by rcases h.event with h | h <;> rw [h] <;> decide
  have hnamed : f.event ∉ partEvents := by rcases h.event with h | h <;> rw [h] <;> decide
  rw [ResponsesFrame.partMark, if_neg hadded, if_neg hnamed]

/-- The frames of a completed stream announce every part before they name it
exactly when each choice opens with a thinking fragment. -/
theorem finished_parts {context : ResponsesContext} {map : ToolMap} {live : List StreamEvent}
    {frames : List ResponsesFrame} {s : Items} {output : List Value}
    (hmode : context.reasoning = .summary)
    (h : Finished packages context map live frames s output) :
    PartsAnnounced frames ↔ ThinkingFirst live := by
  obtain ⟨front, last, rfl, hterminal, -, hsent⟩ := h.frames
  rw [partsAnnounced_iff, List.filterMap_append, partMarks_sent hsent, partMarks_append,
    List.filterMap_cons_none hterminal.partMark,
    List.filterMap_nil, List.append_nil, announced_append]
  simp only [Nat.zero_add, announced_closing packages hmode]
  exact ⟨fun h => h.2, fun hfirst => ⟨announced_afterAll packages hmode hfirst, hfirst⟩⟩

/-- In summary mode, streams whose choices all open with a thinking fragment
announce every summary part once before they name it; a completed stream does
so only then. -/
theorem summary_parts_announced_iff (context : ResponsesContext)
    (hmode : context.reasoning = .summary) (batches : List (List StreamEvent)) :
    let run := responsesCalls packages (.new context) batches
    (ThinkingFirst (liveEvents batches) → PartsAnnounced (delivered run.1)) ∧
      (run.2.status = .completed → PartsAnnounced (delivered run.1) →
        ThinkingFirst (liveEvents batches)) := by
  intro run
  by_cases hcompleted : run.2.status = .completed
  · obtain ⟨map, output, hfinished⟩ := completed_run packages context batches hcompleted
    have hiff := finished_parts packages hmode hfinished
    exact ⟨hiff.mpr, fun _ => hiff.mp⟩
  · refine ⟨fun hfirst => ?_, fun h => absurd h hcompleted⟩
    obtain ⟨map, live, hlive, hcontent, -, hsent⟩ :=
      interrupted_of_phase (phase_of_run packages context batches) hcompleted
    rw [partsAnnounced_iff, partMarks_sent hsent]
    exact announced_afterAll packages hmode
      (thinkingFirst_mono (live_mono hlive hcontent) hfirst)

theorem summary_parts_announced_thinking :
    toollessContext.reasoning = .summary ∧
      PartsAnnounced (delivered (responsesCalls .textual (.new toollessContext)
        [[.thinkingDelta 0 0 "t", .thinkingSignatureDelta 0 0 "s", .done none none]]).1) := by
  refine ⟨rfl, (summary_parts_announced_iff .textual toollessContext rfl _).1 fun index => ?_⟩
  by_cases hindex : index = 0
  · subst hindex
    decide
  · simp [opening, liveEvents, StreamEvent.isContent, StreamEvent.item, Ne.symm hindex]

/-- A turn of one redacted block names a summary part that nothing announced. -/
theorem redacted_part_not_announced :
    (responsesCalls .textual (.new toollessContext)
        [[.redactedThinking 0 0 "x", .done none none]]).2.status = .completed ∧
      ¬PartsAnnounced (delivered (responsesCalls .textual (.new toollessContext)
        [[.redactedThinking 0 0 "x", .done none none]]).1) := by
  have hmarks : (delivered (responsesCalls .textual (.new toollessContext)
      [[.redactedThinking 0 0 "x", .done none none]]).1).filterMap (·.partMark) =
        [.named (some "rs_r_0", some 0, some 0), .named (some "rs_r_0", some 0, some 0)] := by
    decide +kernel
  refine ⟨by decide +kernel, fun h => ?_⟩
  rw [partsAnnounced_iff, hmarks] at h
  exact absurd h.1 (by decide)

end TokenStation.Responses
