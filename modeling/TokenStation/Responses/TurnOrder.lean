import TokenStation.Responses.Slots

/-!
# The order of a turn

The layout of a stream names each text and tool call when its slot is made and
each thinking block when it is opened, so it holds every piece of the turn
exactly once.
-/

namespace TokenStation.Responses

open Library Library.Json

namespace Items

/-- What an event adds to the layout. -/
def laysOut (s : Items) : StreamEvent → List ReplayLayout
  | .delta index _ => if s.isNew .text index then [.text (s.place .text index)] else []
  | .toolCallDelta index _ _ _ _ => if s.isNew .tool index then [.tool (s.place .tool index)] else []
  | .thinkingDelta index blockIndex _ =>
      if (Library.lookup (index, blockIndex) s.replayBlocks).isNone then
        [.reasoning index blockIndex]
      else []
  | .redactedThinking index blockIndex _ => [.reasoning index blockIndex]
  | _ => []

/-- The blocks after an event. -/
def blocksAfter (s : Items) : StreamEvent → List ((Nat × Nat) × ReplayBlockState)
  | .thinkingDelta index blockIndex text => (s.thought index blockIndex text).replayBlocks
  | .thinkingSignatureDelta index blockIndex text => (s.signed index blockIndex text).replayBlocks
  | .redactedThinking index blockIndex data =>
      store (index, blockIndex) (.redacted data) s.replayBlocks
  | _ => s.replayBlocks

end Items

theorem placed_tables (s : Items) (kind : SlotKind) (index : Nat) :
    (s.placed kind index).replayLayout = s.replayLayout ∧
      (s.placed kind index).replayBlocks = s.replayBlocks ∧
      (s.placed kind index).replayActive = s.replayActive ∧
      (s.placed kind index).replayCarriers = s.replayCarriers := by
  unfold Items.placed
  split <;> exact ⟨rfl, rfl, rfl, rfl⟩

theorem closedRaw_tables (s : Items) (index : Nat) :
    (s.closedRaw index).replayLayout = s.replayLayout ∧
      (s.closedRaw index).replayBlocks = s.replayBlocks ∧
      (s.closedRaw index).replayActive = s.replayActive ∧
      (s.closedRaw index).replayCarriers = s.replayCarriers := by
  unfold Items.closedRaw
  split <;> exact ⟨rfl, rfl, rfl, rfl⟩

theorem toolNamed_tables (r : Items) (index : Nat) (id name : Option String) :
    (r.toolNamed index id name).replayLayout =
        r.replayLayout ++ (if r.isNew .tool index then [.tool (r.place .tool index)] else []) ∧
      (r.toolNamed index id name).replayBlocks = r.replayBlocks ∧
      (r.toolNamed index id name).replayActive = r.replayActive ∧
      (r.toolNamed index id name).replayCarriers = r.replayCarriers := by
  obtain ⟨hlayout, hblocks, hactive, hcarriers⟩ := placed_tables r .tool index
  unfold Items.toolNamed
  split
  · refine ⟨?_, hblocks, hactive, hcarriers⟩
    rw [← hlayout]
    rfl
  · exact ⟨by rw [List.append_nil]; rfl, rfl, rfl, rfl⟩

theorem signed_layout (s : Items) (index blockIndex : Nat) (text : String) :
    (s.signed index blockIndex text).replayLayout = s.replayLayout ∧
      (s.signed index blockIndex text).replayCarriers = s.replayCarriers := by
  unfold Items.signed
  split
  · simp only
    split <;> exact ⟨rfl, rfl⟩
  · exact ⟨rfl, rfl⟩

theorem thought_layout (s : Items) (index blockIndex : Nat) (text : String) :
    (s.thought index blockIndex text).replayLayout =
        s.replayLayout ++ (if (Library.lookup (index, blockIndex) s.replayBlocks).isNone then
          [.reasoning index blockIndex] else []) ∧
      (s.thought index blockIndex text).replayCarriers = s.replayCarriers ∧
      (s.thought index blockIndex text).replayActive = s.replayActive := by
  unfold Items.thought
  split <;> simp_all

/-- An event adds to the layout and changes its own block. -/
theorem after_tables {s : Items} (hs : s.Orderly) (event : StreamEvent) :
    (s.after event).replayLayout = s.replayLayout ++ s.laysOut event ∧
      (s.after event).replayBlocks = s.blocksAfter event ∧
      (s.after event).replayCarriers = s.replayCarriers := by
  cases event with
  | delta index content =>
      obtain ⟨hplace, hnew, -, -⟩ :=
        placed_closedRaw hs (by decide : SlotKind.text ≠ .reasoning) index
      obtain ⟨hlayout, hblocks, -, hcarriers⟩ := closedRaw_tables s index
      obtain ⟨hlayout', hblocks', -, hcarriers'⟩ := placed_tables (s.closedRaw index) .text index
      simp only [Items.after, Items.afterDelta, Items.touchSlot, Items.laidOut, hnew, hplace,
        Items.laysOut, Items.blocksAfter]
      split
      · simp only [hlayout', hlayout, hblocks', hblocks, hcarriers', hcarriers, and_self]
      · simp only [hlayout', hlayout, hblocks', hblocks, hcarriers', hcarriers, List.append_nil,
          and_self]
  | thinkingDelta index blockIndex text =>
      obtain ⟨hlayout, hcarriers, -⟩ := thought_layout s index blockIndex text
      obtain ⟨hlayout', hblocks', -, hcarriers'⟩ :=
        placed_tables (s.thought index blockIndex text) .reasoning index
      simp only [Items.after, Items.afterThinking, Items.touchSlot, hlayout', hlayout, hblocks',
        hcarriers', hcarriers, Items.laysOut, Items.blocksAfter, and_self]
  | thinkingSignatureDelta index blockIndex text =>
      obtain ⟨hlayout, hcarriers⟩ := signed_layout s index blockIndex text
      obtain ⟨hlayout', hblocks', -, hcarriers'⟩ :=
        placed_tables (s.signed index blockIndex text) .reasoning index
      simp only [Items.after, Items.afterSignature, Items.laysOut, Items.blocksAfter,
        List.append_nil]
      split
      · simp only [Items.touchSlot, hlayout', hlayout, hblocks', hcarriers', hcarriers, and_self]
      · simp only [hlayout', hlayout, hblocks', hcarriers', hcarriers, and_self]
  | redactedThinking index blockIndex data =>
      obtain ⟨hlayout', hblocks', -, hcarriers'⟩ :=
        placed_tables (s.redacted index blockIndex data) .reasoning index
      simp only [Items.after, Items.afterRedacted, hlayout', hblocks', hcarriers', Items.laysOut,
        Items.blocksAfter]
      exact ⟨rfl, rfl, rfl⟩
  | toolCallDelta index id name arguments =>
      obtain ⟨hplace, hnew, -, -⟩ :=
        placed_closedRaw hs (by decide : SlotKind.tool ≠ .reasoning) index
      obtain ⟨hlayout, hblocks, -, hcarriers⟩ := closedRaw_tables s index
      obtain ⟨hlayout', hblocks', -, hcarriers'⟩ := toolNamed_tables (s.closedRaw index) index id name
      simp only [Items.after, Items.afterTool, Items.touchSlot, hlayout', hlayout, hblocks', hblocks,
        hcarriers', hcarriers, hnew, hplace, Items.laysOut, Items.blocksAfter, and_self]
  | usage | finish | done | error => exact ⟨(List.append_nil _).symm, rfl, rfl⟩

/-- No carrier is built before the stream ends. -/
theorem afterAll_carriers {s : Items} (hs : s.Orderly) (events : List StreamEvent) :
    (s.afterAll events).replayCarriers = s.replayCarriers := by
  induction events generalizing s with
  | nil => rfl
  | cons event events ih => exact (ih (orderly_after hs event)).trans (after_tables hs event).2.2

/-! ## Choices that are replayed -/

/-- The choice an event marks for replay. -/
def StreamEvent.activates : StreamEvent → Option Nat
  | .thinkingSignatureDelta index _ text => if text = "" then none else some index
  | .redactedThinking index _ _ => some index
  | _ => none

theorem mem_activated (s : Items) (index i : Nat) :
    i ∈ (s.activated index).replayActive ↔ i ∈ s.replayActive ∨ index = i := by
  simp only [Items.activated]
  by_cases hreplay : s.hasReplay index = true
  · rw [if_pos hreplay]
    constructor
    · exact .inl
    · rintro (h | rfl)
      · exact h
      · exact List.contains_iff_mem.mp hreplay
  · rw [if_neg hreplay, List.mem_cons, eq_comm, or_comm]

/-- The choices that are replayed after an event. -/
theorem mem_active_after {s : Items} {event : StreamEvent} (haccepts : s.Accepts event) (i : Nat) :
    i ∈ (s.after event).replayActive ↔ i ∈ s.replayActive ∨ event.activates = some i := by
  cases event with
  | delta index content =>
      have hactive : (s.after (.delta index content)).replayActive = s.replayActive := by
        simp only [Items.after, Items.afterDelta, Items.touchSlot, Items.laidOut]
        split
        · simp only [(placed_tables _ _ _).2.2.1, (closedRaw_tables _ _).2.2.1]
        · rw [(placed_tables _ _ _).2.2.1, (closedRaw_tables _ _).2.2.1]
      simp [hactive, StreamEvent.activates]
  | thinkingDelta index blockIndex text =>
      have hactive : (s.after (.thinkingDelta index blockIndex text)).replayActive =
          s.replayActive := by
        simp only [Items.after, Items.afterThinking, Items.touchSlot, (placed_tables _ _ _).2.2.1,
          (thought_layout _ _ _ _).2.2]
      simp [hactive, StreamEvent.activates]
  | thinkingSignatureDelta index blockIndex text =>
      have hactive : (s.after (.thinkingSignatureDelta index blockIndex text)).replayActive =
          (s.signed index blockIndex text).replayActive := by
        simp only [Items.after, Items.afterSignature]
        split
        · simp only [Items.touchSlot, (placed_tables _ _ _).2.2.1]
        · rw [(placed_tables _ _ _).2.2.1]
      obtain ⟨thinking, signature, hblock⟩ := haccepts
      rw [hactive, Items.signed, hblock, StreamEvent.activates]
      simp only
      split
      · simp
      · rw [mem_activated]
        simp
  | redactedThinking index blockIndex data =>
      have hactive : (s.after (.redactedThinking index blockIndex data)).replayActive =
          (s.redacted index blockIndex data).replayActive := by
        simp only [Items.after, Items.afterRedacted, (placed_tables _ _ _).2.2.1]
      rw [hactive, Items.redacted, mem_activated, StreamEvent.activates]
      simp
  | toolCallDelta index id name arguments signature =>
      have hactive : (s.after (.toolCallDelta index id name arguments signature)).replayActive =
          s.replayActive := by
        simp only [Items.after, Items.afterTool, Items.touchSlot, (toolNamed_tables _ _ _ _).2.2.1,
          (closedRaw_tables _ _).2.2.1]
      simp [hactive, StreamEvent.activates]
  | usage | finish | done | error => simp [Items.after, StreamEvent.activates]

/-- A choice is replayed once a block of it is signed or redacted. -/
theorem mem_active_afterAll (context : ResponsesContext) (map : ToolMap) {events : List StreamEvent}
    (h : (Items.start context map).AcceptsAll events) (i : Nat) :
    i ∈ ((Items.start context map).afterAll events).replayActive ↔
      ∃ event ∈ events, event.activates = some i := by
  refine afterAll_induction (P := fun events s =>
    i ∈ s.replayActive ↔ ∃ event ∈ events, event.activates = some i) ?_ ?_ events h
  · simp [Items.start]
  · intro events event t ht haccepts
    rw [mem_active_after haccepts, ht]
    simp only [List.mem_append, List.mem_singleton]
    grind

/-! ## Each piece once -/

/-- The entry of a text or a tool call. -/
def placeEntry (kind : SlotKind) (position : Nat) : ReplayLayout :=
  match kind with
  | .tool => .tool position
  | _ => .text position

/-- The layout names each text and tool call and each block, once. -/
structure InTurnOrder (s : Items) : Prop where
  nodup : s.replayLayout.Nodup
  placed : ∀ (kind : SlotKind) (p : Nat), kind ≠ .reasoning →
    (placeEntry kind p ∈ s.replayLayout ↔
      ∃ slot, s.slots[p]? = some slot ∧ slot.kind = kind)
  block : ∀ index blockIndex, .reasoning index blockIndex ∈ s.replayLayout ↔
    (Library.lookup (index, blockIndex) s.replayBlocks).isSome = true

/-- The kinds of the slots after an event. -/
theorem after_kind_at {s : Items} (hs : s.Orderly) {event : StreamEvent} {kind : SlotKind}
    {index : Nat} (h : event.item = some (kind, index)) (k : SlotKind) (p : Nat) :
    (∃ slot, (s.after event).slots[p]? = some slot ∧ slot.kind = k) ↔
      (∃ slot, s.slots[p]? = some slot ∧ slot.kind = k) ∨
        (s.isNew kind index = true ∧ kind = k ∧ p = s.slots.length) := by
  constructor
  · rintro ⟨slot, hslot, hkind⟩
    rcases after_slot_cases hs h hslot with
      ⟨-, old, hold, rfl⟩ | ⟨-, -, old, hold, -, -, -, rfl⟩ | ⟨hnew, rfl, rfl⟩
    · exact .inl ⟨old, hold, by rwa [closing_kind] at hkind⟩
    · exact .inl ⟨old, hold, by rwa [(touch_place s event old).1] at hkind⟩
    · exact .inr ⟨hnew, by rwa [(touch_place s event _).1] at hkind, rfl⟩
  · rintro (⟨slot, hslot, hkind⟩ | ⟨hnew, rfl, rfl⟩)
    · obtain ⟨slot', hslot', hkind', -⟩ := after_slot_stays hs event hslot
      exact ⟨slot', hslot', hkind'.trans hkind⟩
    · obtain ⟨slot, hslot, hkind, -⟩ := after_slot_place hs h
      rw [place_new hnew] at hslot
      exact ⟨slot, hslot, hkind⟩

/-- An event lays out a text or a tool call when it makes its slot. -/
theorem placeEntry_mem_laysOut {s : Items} {event : StreamEvent} {k : SlotKind} {p : Nat}
    (hk : k ≠ .reasoning) :
    placeEntry k p ∈ s.laysOut event ↔
      ∃ index, event.item = some (k, index) ∧ s.isNew k index = true ∧ p = s.slots.length := by
  have hblock : ∀ index blockIndex, placeEntry k p ≠ .reasoning index blockIndex := by
    intro index blockIndex
    cases k <;> simp [placeEntry]
  cases event with
  | delta index content =>
      cases hnew : s.isNew .text index with
      | false =>
          simp only [Items.laysOut, hnew, StreamEvent.item]
          constructor
          · rintro ⟨⟩
          · rintro ⟨i, hitem, hi, -⟩
            cases hitem
            rw [hnew] at hi
            cases hi
      | true =>
          simp only [Items.laysOut, hnew, if_true, place_new hnew, List.mem_singleton,
            StreamEvent.item]
          constructor
          · intro hentry
            cases k with
            | text =>
                cases hentry
                exact ⟨index, rfl, hnew, rfl⟩
            | reasoning => exact absurd rfl hk
            | tool => cases hentry
          · rintro ⟨i, hitem, -, rfl⟩
            cases hitem
            rfl
  | toolCallDelta index id name arguments =>
      cases hnew : s.isNew .tool index with
      | false =>
          simp only [Items.laysOut, hnew, StreamEvent.item]
          constructor
          · rintro ⟨⟩
          · rintro ⟨i, hitem, hi, -⟩
            cases hitem
            rw [hnew] at hi
            cases hi
      | true =>
          simp only [Items.laysOut, hnew, if_true, place_new hnew, List.mem_singleton,
            StreamEvent.item]
          constructor
          · intro hentry
            cases k with
            | tool =>
                cases hentry
                exact ⟨index, rfl, hnew, rfl⟩
            | reasoning => exact absurd rfl hk
            | text => cases hentry
          · rintro ⟨i, hitem, -, rfl⟩
            cases hitem
            rfl
  | thinkingDelta index blockIndex text =>
      constructor
      · intro hentry
        simp only [Items.laysOut] at hentry
        split at hentry
        · exact absurd (List.mem_singleton.mp hentry) (hblock _ _)
        · cases hentry
      · rintro ⟨i, hitem, -⟩
        cases hitem
        exact absurd rfl hk
  | thinkingSignatureDelta index blockIndex text =>
      constructor
      · rintro ⟨⟩
      · rintro ⟨i, hitem, -⟩
        cases hitem
        exact absurd rfl hk
  | redactedThinking index blockIndex data =>
      constructor
      · intro hentry
        exact absurd (List.mem_singleton.mp hentry) (hblock _ _)
      · rintro ⟨i, hitem, -⟩
        cases hitem
        exact absurd rfl hk
  | usage | finish | done | error => simp [Items.laysOut, StreamEvent.item]

/-! ## Blocks -/

/-- The block an event writes to. -/
def StreamEvent.block : StreamEvent → Option (Nat × Nat)
  | .thinkingDelta index blockIndex _ | .thinkingSignatureDelta index blockIndex _
  | .redactedThinking index blockIndex _ => some (index, blockIndex)
  | _ => none

/-- A block once an event has written to it. -/
def StreamEvent.writeBlock (event : StreamEvent) (block : Option ReplayBlockState) :
    Option ReplayBlockState :=
  match event, block with
  | .thinkingDelta _ _ text, none => some (.thinking text "")
  | .thinkingDelta _ _ text, some (.thinking thinking signature) =>
      some (.thinking (thinking ++ text) signature)
  | .thinkingSignatureDelta _ _ text, some (.thinking thinking signature) =>
      some (.thinking thinking (signature ++ text))
  | .redactedThinking _ _ data, _ => some (.redacted data)
  | _, block => block

theorem lookup_blocksAfter (s : Items) (event : StreamEvent) (key : Nat × Nat) :
    Library.lookup key (s.blocksAfter event) =
      if event.block = some key then event.writeBlock (Library.lookup key s.replayBlocks)
      else Library.lookup key s.replayBlocks := by
  cases event with
  | thinkingDelta index blockIndex text =>
      simp only [Items.blocksAfter, Items.thought, StreamEvent.block, Option.some.injEq]
      by_cases hkey : (index, blockIndex) = key
      · subst hkey
        rw [if_pos rfl]
        split
        · rename_i hnone
          rw [lookup_store, if_pos rfl, hnone]
          rfl
        · rename_i thinking signature hsome
          rw [lookup_store, if_pos rfl, hsome]
          rfl
        · rename_i data hsome
          rw [hsome]
          rfl
      · rw [if_neg hkey]
        split
        · rw [lookup_store, if_neg hkey]
        · rw [lookup_store, if_neg hkey]
        · rfl
  | thinkingSignatureDelta index blockIndex text =>
      simp only [Items.blocksAfter, Items.signed, StreamEvent.block, Option.some.injEq]
      by_cases hkey : (index, blockIndex) = key
      · subst hkey
        rw [if_pos rfl]
        split
        · rename_i thinking signature hsome
          rw [hsome]
          split <;>
          · simp only [Items.activated, lookup_store, if_true]
            rfl
        · rename_i hother
          cases hblock : Library.lookup (index, blockIndex) s.replayBlocks with
          | none => rfl
          | some block =>
              cases block with
              | thinking thinking signature => exact absurd hblock (hother thinking signature)
              | redacted data => rfl
      · rw [if_neg hkey]
        split
        · split <;> simp only [Items.activated, lookup_store, if_neg hkey]
        · rfl
  | redactedThinking index blockIndex data =>
      simp only [Items.blocksAfter, StreamEvent.block, Option.some.injEq, lookup_store]
      rfl
  | delta | toolCallDelta | usage | finish | done | error => rfl

/-- Blocks stay, and an event opens the block it lays out. -/
theorem lookup_blocksAfter_isSome {s : Items} {event : StreamEvent} (index blockIndex : Nat) :
    (Library.lookup (index, blockIndex) (s.blocksAfter event)).isSome = true ↔
      (Library.lookup (index, blockIndex) s.replayBlocks).isSome = true ∨
        .reasoning index blockIndex ∈ s.laysOut event := by
  rw [lookup_blocksAfter]
  cases event with
  | thinkingDelta i b text =>
      simp only [StreamEvent.block, Option.some.injEq, Prod.mk.injEq, Items.laysOut]
      by_cases hkey : i = index ∧ b = blockIndex
      · obtain ⟨rfl, rfl⟩ := hkey
        cases hblock : Library.lookup (i, b) s.replayBlocks with
        | none => simp [StreamEvent.writeBlock]
        | some block => cases block <;> simp [StreamEvent.writeBlock]
      · rw [if_neg hkey]
        split
        · simp only [List.mem_singleton, ReplayLayout.reasoning.injEq]
          grind
        · simp
  | thinkingSignatureDelta i b text =>
      simp only [StreamEvent.block, Option.some.injEq, Items.laysOut, List.not_mem_nil, or_false]
      by_cases hkey : (i, b) = (index, blockIndex)
      · rw [if_pos hkey]
        cases hblock : Library.lookup (index, blockIndex) s.replayBlocks with
        | none => simp [StreamEvent.writeBlock]
        | some block => cases block <;> simp [StreamEvent.writeBlock]
      · rw [if_neg hkey]
  | redactedThinking i b data =>
      simp only [StreamEvent.block, Option.some.injEq, Prod.mk.injEq, Items.laysOut,
        List.mem_singleton, ReplayLayout.reasoning.injEq]
      by_cases hkey : i = index ∧ b = blockIndex
      · simp [hkey, StreamEvent.writeBlock]
      · rw [if_neg hkey]
        grind
  | delta i content => cases hnew : s.isNew .text i <;> simp [StreamEvent.block, Items.laysOut, hnew]
  | toolCallDelta i id name arguments =>
      cases hnew : s.isNew .tool i <;> simp [StreamEvent.block, Items.laysOut, hnew]
  | usage | finish | done | error => simp [StreamEvent.block, Items.laysOut]

/-! ## Every run is in turn order -/

theorem inTurnOrder_start (context : ResponsesContext) (map : ToolMap) :
    InTurnOrder (.start context map) := by
  refine ⟨by simp [Items.start], fun kind p _ => ?_, fun index blockIndex => ?_⟩
  · simp [Items.start]
  · simp [Items.start, lookup]

/-- An event lays out only what is new. -/
theorem laysOut_new {s : Items} (h : InTurnOrder s) {event : StreamEvent}
    (haccepts : s.Accepts event) : (s.laysOut event).Nodup ∧
      ∀ entry ∈ s.laysOut event, entry ∉ s.replayLayout := by
  have hplaced : ∀ (kind : SlotKind) (index : Nat), kind ≠ .reasoning →
      s.isNew kind index = true → placeEntry kind (s.place kind index) ∉ s.replayLayout := by
    intro kind index hkind hnew hmem
    obtain ⟨slot, hslot, -⟩ := (h.placed kind _ hkind).mp hmem
    rw [place_new hnew, List.getElem?_eq_none (Nat.le_refl _)] at hslot
    cases hslot
  cases event with
  | delta index content =>
      simp only [Items.laysOut]
      split
      · rename_i hnew
        refine ⟨List.nodup_singleton _, fun entry hentry => ?_⟩
        rw [List.mem_singleton.mp hentry]
        exact hplaced .text index (by decide) hnew
      · simp
  | toolCallDelta index id name arguments =>
      simp only [Items.laysOut]
      split
      · rename_i hnew
        refine ⟨List.nodup_singleton _, fun entry hentry => ?_⟩
        rw [List.mem_singleton.mp hentry]
        exact hplaced .tool index (by decide) hnew
      · simp
  | thinkingDelta index blockIndex text =>
      simp only [Items.laysOut]
      split
      · rename_i hnone
        refine ⟨List.nodup_singleton _, fun entry hentry => ?_⟩
        rw [List.mem_singleton.mp hentry, h.block]
        simpa using hnone
      · simp
  | redactedThinking index blockIndex data =>
      have hnone : Library.lookup (index, blockIndex) s.replayBlocks = none := haccepts
      refine ⟨List.nodup_singleton _, fun entry hentry => ?_⟩
      rw [List.mem_singleton.mp hentry, h.block, hnone]
      simp
  | thinkingSignatureDelta | usage | finish | done | error => simp [Items.laysOut]

theorem InTurnOrder.after {s : Items} (hs : Seated s) (h : InTurnOrder s) {event : StreamEvent}
    (haccepts : s.Accepts event) : InTurnOrder (s.after event) := by
  obtain ⟨hlayout, hblocks, -⟩ := after_tables hs.orderly event
  obtain ⟨hnodup, hnew⟩ := laysOut_new h haccepts
  refine ⟨?_, fun kind p hkind => ?_, fun index blockIndex => ?_⟩
  · rw [hlayout, List.nodup_append]
    refine ⟨h.nodup, hnodup, fun a ha b hb heq => ?_⟩
    exact hnew b hb (heq ▸ ha)
  · rw [hlayout, List.mem_append, h.placed kind p hkind, placeEntry_mem_laysOut hkind]
    cases hitem : event.item with
    | none =>
        rw [after_of_item_none hitem]
        simp
    | some item =>
        obtain ⟨k, index⟩ := item
        rw [after_kind_at hs.orderly hitem]
        simp only [Option.some.injEq, Prod.mk.injEq]
        grind
  · rw [hlayout, hblocks, List.mem_append, h.block, lookup_blocksAfter_isSome]

theorem inTurnOrder_afterAll (context : ResponsesContext) (map : ToolMap)
    {events : List StreamEvent} (h : (Items.start context map).AcceptsAll events) :
    InTurnOrder ((Items.start context map).afterAll events) := by
  have hboth := afterAll_induction (P := fun _ s => Seated s ∧ InTurnOrder s)
    ⟨seated_start context map, inTurnOrder_start context map⟩
    (fun _ event t ht haccepts => ⟨ht.1.after event, ht.2.after ht.1 haccepts⟩) events h
  exact hboth.2

end TokenStation.Responses
