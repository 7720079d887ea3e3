import TokenStation.Responses.History
import TokenStation.Responses.TurnReading

/-!
# The pieces a stream opens

Read off the events alone, the turn of a choice is its texts, calls and blocks
in the order in which they were first opened, each with all its fragments. The
layout of the renderer is this order.
-/

namespace TokenStation.Responses

open Library Library.Gathering

/-- A text, a call or a thinking block of a stream. -/
inductive PieceKey where
  | text (index : Nat)
  | call (index : Nat)
  | block (index blockIndex : Nat)
deriving DecidableEq, Repr

def PieceKey.choice : PieceKey → Nat
  | .text index | .call index | .block index _ => index

/-- The piece an event opens or continues. -/
def StreamEvent.opens : StreamEvent → Option PieceKey
  | .delta index _ => some (.text index)
  | .toolCallDelta index _ _ _ _ => some (.call index)
  | .thinkingDelta index blockIndex _ | .redactedThinking index blockIndex _ =>
      some (.block index blockIndex)
  | _ => none

/-- The pieces of a stream in the order in which they were opened. -/
def openings (events : List StreamEvent) : List PieceKey := (events.filterMap (·.opens)).eraseDups

/-- A piece with all its fragments. -/
def streamedPiece (context : ResponsesContext) (events : List StreamEvent) : PieceKey → Option Piece
  | .text index => some (.part (.text (String.join (deltas index events))))
  | .call index => some (.call (streamedCall context events index))
  | .block index blockIndex =>
      (blockOf events (index, blockIndex)).map fun block => .part (replayPart block)

/-- The turn of a choice, as the events gave it. -/
def streamedPieces (context : ResponsesContext) (events : List StreamEvent) (choice : Nat) :
    List Piece :=
  (openings events).filterMap fun key =>
    if key.choice = choice then streamedPiece context events key else none

/-! ## The layout names the openings -/

/-- The piece an entry of the layout names. -/
def Items.keyOf (s : Items) : ReplayLayout → PieceKey
  | .reasoning index blockIndex => .block index blockIndex
  | .text position => .text (s.slotAt position).sourceIndex
  | .tool position => .call (s.slotAt position).sourceIndex

theorem openings_snoc (events : List StreamEvent) (event : StreamEvent) :
    openings (events ++ [event]) = openings events ++
      match event.opens with
      | some key => if key ∈ openings events then [] else [key]
      | none => [] := by
  unfold openings
  rw [List.filterMap_append]
  cases hopens : event.opens with
  | none => simp [hopens]
  | some key =>
      simp only [List.filterMap_cons, hopens, List.filterMap_nil, List.mem_eraseDups]
      exact eraseDups_snoc _ _

/-- Entries name the same pieces after an event. -/
theorem keyOf_after {s : Items} (hs : s.Orderly) {entry : ReplayLayout} (h : s.Readable entry)
    (event : StreamEvent) : (s.after event).keyOf entry = s.keyOf entry := by
  have hsource : ∀ (position : Nat) (slot : Slot), s.slots[position]? = some slot →
      ((s.after event).slotAt position).sourceIndex = (s.slotAt position).sourceIndex := by
    intro position slot hslot
    obtain ⟨slot', hslot', -, hsame⟩ := after_slot_stays hs event hslot
    rw [slotAt_of_getElem? hslot', slotAt_of_getElem? hslot, hsame]
  cases entry with
  | reasoning index blockIndex => rfl
  | text position =>
      obtain ⟨slot, hslot, -⟩ := h
      exact congrArg PieceKey.text (hsource position slot hslot)
  | tool position =>
      obtain ⟨slot, hslot, -⟩ := h
      exact congrArg PieceKey.call (hsource position slot hslot)

/-- A text or a call is named by the layout once it has its slot. -/
theorem isNew_iff_keys {s : Items} (hs : Seated s) (h : InTurnOrder s) {kind : SlotKind}
    (hkind : kind ≠ .reasoning) (index : Nat) {key : Nat → PieceKey}
    (hkey : ∀ entry, s.keyOf entry = key index → ∃ position, entry = placeEntry kind position ∧
      (s.slotAt position).sourceIndex = index)
    (hplace : ∀ position, s.keyOf (placeEntry kind position) = key (s.slotAt position).sourceIndex) :
    s.isNew kind index = false ↔ key index ∈ s.replayLayout.map s.keyOf := by
  rw [List.mem_map]
  constructor
  · intro hold
    obtain ⟨slot, hslot, hslotKind, hsource, -⟩ := placed_slot hs.orderly kind index
    rw [placed_old hold] at hslot
    refine ⟨_, (h.placed kind _ hkind).mpr ⟨slot, hslot, hslotKind⟩, ?_⟩
    rw [hplace, slotAt_of_getElem? hslot, hsource]
  · rintro ⟨entry, hentry, hsame⟩
    obtain ⟨position, rfl, hsource⟩ := hkey entry hsame
    obtain ⟨slot, hslot, rfl⟩ := (h.placed kind position hkind).mp hentry
    rw [slotAt_of_getElem? hslot] at hsource
    rw [← hsource]
    exact (hs.place hslot (hs.open_of_kind hslot hkind)).1

theorem isNew_text_iff {s : Items} (hs : Seated s) (h : InTurnOrder s) (index : Nat) :
    s.isNew .text index = false ↔ PieceKey.text index ∈ s.replayLayout.map s.keyOf := by
  refine isNew_iff_keys hs h (by decide) index (fun entry hentry => ?_) fun position => rfl
  cases entry with
  | text position => exact ⟨position, rfl, PieceKey.text.inj hentry⟩
  | reasoning | tool => cases hentry

theorem isNew_tool_iff {s : Items} (hs : Seated s) (h : InTurnOrder s) (index : Nat) :
    s.isNew .tool index = false ↔ PieceKey.call index ∈ s.replayLayout.map s.keyOf := by
  refine isNew_iff_keys hs h (by decide) index (fun entry hentry => ?_) fun position => rfl
  cases entry with
  | tool position => exact ⟨position, rfl, PieceKey.call.inj hentry⟩
  | reasoning | text => cases hentry

theorem block_iff_keys {s : Items} (h : InTurnOrder s) (index blockIndex : Nat) :
    (Library.lookup (index, blockIndex) s.replayBlocks).isSome = true ↔
      PieceKey.block index blockIndex ∈ s.replayLayout.map s.keyOf := by
  rw [← h.block, List.mem_map]
  constructor
  · exact fun hmem => ⟨_, hmem, rfl⟩
  · rintro ⟨entry, hentry, hsame⟩
    cases entry with
    | reasoning i b =>
        cases hsame
        exact hentry
    | text | tool => cases hsame

/-- What an event lays out is the piece it opens, when that is new. -/
theorem keys_laysOut {s : Items} (hs : Seated s) (h : InTurnOrder s) {event : StreamEvent}
    (haccepts : s.Accepts event) :
    (s.laysOut event).map (s.after event).keyOf =
      match event.opens with
      | some key => if key ∈ s.replayLayout.map s.keyOf then [] else [key]
      | none => [] := by
  have hplaced : ∀ {kind : SlotKind} {index : Nat}, event.item = some (kind, index) →
      ((s.after event).slotAt (s.place kind index)).sourceIndex = index := by
    intro kind index hitem
    obtain ⟨slot, hslot, -, hsource⟩ := after_slot_place hs.orderly hitem
    rw [slotAt_of_getElem? hslot, hsource]
  cases event with
  | delta index content =>
      have hiff := isNew_text_iff hs h index
      simp only [Items.laysOut, StreamEvent.opens]
      cases hnew : s.isNew .text index with
      | true =>
          rw [if_pos rfl, if_neg fun hmem => by rw [hiff.mpr hmem] at hnew; cases hnew]
          simp only [List.map_cons, List.map_nil, Items.keyOf, hplaced rfl]
      | false =>
          rw [if_pos (hiff.mp hnew)]
          rfl
  | toolCallDelta index id name arguments =>
      have hiff := isNew_tool_iff hs h index
      simp only [Items.laysOut, StreamEvent.opens]
      cases hnew : s.isNew .tool index with
      | true =>
          rw [if_pos rfl, if_neg fun hmem => by rw [hiff.mpr hmem] at hnew; cases hnew]
          simp only [List.map_cons, List.map_nil, Items.keyOf, hplaced rfl]
      | false =>
          rw [if_pos (hiff.mp hnew)]
          rfl
  | thinkingDelta index blockIndex text =>
      have hiff := block_iff_keys h index blockIndex
      simp only [Items.laysOut, StreamEvent.opens]
      cases hblock : Library.lookup (index, blockIndex) s.replayBlocks with
      | none =>
          have hnot : PieceKey.block index blockIndex ∉ s.replayLayout.map s.keyOf := by
            rw [← hiff, hblock]
            simp
          rw [if_neg hnot]
          rfl
      | some block =>
          rw [hblock] at hiff
          rw [if_pos (hiff.mp rfl)]
          rfl
  | redactedThinking index blockIndex data =>
      have hiff := block_iff_keys h index blockIndex
      have hnone : Library.lookup (index, blockIndex) s.replayBlocks = none := haccepts
      rw [hnone] at hiff
      simp only [Items.laysOut, StreamEvent.opens]
      rw [if_neg fun hmem => by simpa using hiff.mpr hmem]
      rfl
  | thinkingSignatureDelta | usage | finish | done | error => rfl

/-- The layout of a run is the order in which its pieces were opened. -/
theorem layout_openings (context : ResponsesContext) (map : ToolMap) {events : List StreamEvent}
    (h : (Items.start context map).AcceptsAll events) :
    ((Items.start context map).afterAll events).replayLayout.map
      ((Items.start context map).afterAll events).keyOf = openings events := by
  induction events using List.reverseRecOn with
  | nil => rfl
  | append_singleton events event ih =>
      obtain ⟨hbefore, haccepts⟩ := acceptsAll_snoc.mp h
      have hs := seated_afterAll (seated_start context map) events
      have horder := inTurnOrder_afterAll context map hbefore
      have ih := ih hbefore
      rw [afterAll_snoc, openings_snoc, ← ih, (after_tables hs.orderly event).1, List.map_append,
        keys_laysOut hs horder haccepts]
      congr 1
      exact List.map_congr_left fun entry hentry =>
        keyOf_after hs.orderly (horder.readable hentry) event

/-! ## The turn of a choice -/

/-- An entry of the layout holds the fragments of its piece. -/
theorem pieceOf_streamed (context : ResponsesContext) (map : ToolMap) {events : List StreamEvent}
    (h : (Items.start context map).AcceptsAll events) (choice : Nat) {entry : ReplayLayout}
    (hentry : entry ∈ ((Items.start context map).afterAll events).replayLayout) :
    ((Items.start context map).afterAll events).pieceOf choice entry =
      if (((Items.start context map).afterAll events).keyOf entry).choice = choice then
        streamedPiece context events (((Items.start context map).afterAll events).keyOf entry)
      else none := by
  have hreadable := (inTurnOrder_afterAll context map h).readable hentry
  have hwritten := written_afterAll context map events
  have hcontext : ((Items.start context map).afterAll events).context = context :=
    (afterAll_fields (Items.start context map) events).1
  have hblocks := lookup_afterAll context map events
  generalize (Items.start context map).afterAll events = s at *
  cases entry with
  | reasoning index blockIndex =>
      simp only [Items.pieceOf, Items.keyOf, PieceKey.choice, streamedPiece, hblocks]
      rfl
  | text position =>
      obtain ⟨slot, hslot, hkind⟩ := hreadable
      simp only [Items.pieceOf, Items.keyOf, PieceKey.choice, streamedPiece, hslot,
        slotAt_of_getElem? hslot, Option.filter_some, beq_iff_eq]
      split
      · rw [Option.map_some, hwritten.text position slot hslot hkind]
      · rfl
  | tool position =>
      obtain ⟨slot, hslot, hkind⟩ := hreadable
      simp only [Items.pieceOf, Items.keyOf, PieceKey.choice, streamedPiece, hslot,
        slotAt_of_getElem? hslot, Option.filter_some, beq_iff_eq]
      split
      · rw [Option.map_some, hwritten.call position slot hslot hkind, hcontext]
      · rfl

/-- The turn of a choice is what the events gave. -/
theorem pieces_streamed (context : ResponsesContext) (map : ToolMap) {events : List StreamEvent}
    (h : (Items.start context map).AcceptsAll events) (choice : Nat) :
    ((Items.start context map).afterAll events).pieces choice =
      streamedPieces context events choice := by
  rw [streamedPieces, ← layout_openings context map h, List.filterMap_map]
  exact List.filterMap_congr fun entry hentry => pieceOf_streamed context map h choice hentry

end TokenStation.Responses
