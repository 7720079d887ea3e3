import TokenStation.Responses.Openings
import TokenStation.Responses.SnapshotCarrier

/-!
# The snapshot as one turn

The history of the next turn is built from the snapshot of a completed stream.
When everything in a stream is of choice zero, the snapshot is one choice that
holds each text, thought and call once. Calls under another index become
choices of their own.
-/

namespace TokenStation.Responses

open Library Library.Gathering

/-! ## What a stream gave -/

/-- The tool indexes of a stream, in order of first appearance. -/
def toolIndexes (events : List StreamEvent) : List Nat :=
  (events.filterMap fun event =>
    match event with
    | .toolCallDelta index _ _ _ _ => some index
    | _ => none).eraseDups

def streamedCalls (context : ResponsesContext) (events : List StreamEvent) : List ToolCall :=
  (toolIndexes events).map (streamedCall context events)

/-- The message holds all text, all thinking and every call of the stream, once. -/
structure HoldsTurn (context : ResponsesContext) (events : List StreamEvent) (message : Message) :
    Prop where
  text : String.join ((partsIn message).filterMap (·.asText)) = String.join (streamedText events)
  thinking : GatheredInto ((thoughts events).map (·.2)) ((partsIn message).filterMap (·.asThinking))
  redacted : (partsIn message).filterMap (·.asRedacted) = (redactions events).map (·.2)
  calls : message.toolCalls = streamedCalls context events

/-- The response is one choice, of index zero, that holds the turn. -/
def OneTurn (context : ResponsesContext) (events : List StreamEvent) (response : ChatResponse) :
    Prop :=
  ∃ entry, response.choices = [entry] ∧ entry.index = 0 ∧ HoldsTurn context events entry.message

/-- Text and thinking of a stream are of choice zero. -/
def ContentAtZero (events : List StreamEvent) : Prop :=
  ∀ event ∈ events, ∀ kind index, event.item = some (kind, index) → kind ≠ .tool → index = 0

/-- So are its calls, and there is something. -/
def CallsAtZero (events : List StreamEvent) : Prop :=
  (∀ event ∈ events, ∀ index, event.item = some (.tool, index) → index = 0) ∧
    ∃ event ∈ events, event.item ≠ none

/-! ## Streams of choice zero -/

theorem opens_choice {event : StreamEvent} {key : PieceKey} (h : event.opens = some key) :
    ∃ kind, event.item = some (kind, key.choice) := by
  cases event <;> cases h <;> exact ⟨_, rfl⟩

theorem openings_choice {events : List StreamEvent} (hcontent : ContentAtZero events)
    (hcalls : ∀ event ∈ events, ∀ index, event.item = some (.tool, index) → index = 0)
    {key : PieceKey} (h : key ∈ openings events) : key.choice = 0 := by
  obtain ⟨event, hevent, hopens⟩ := List.mem_filterMap.mp (List.mem_eraseDups.mp h)
  obtain ⟨kind, hitem⟩ := opens_choice hopens
  by_cases hkind : kind = .tool
  · exact hcalls event hevent _ (hkind ▸ hitem)
  · exact hcontent event hevent kind _ hitem hkind

theorem streamedPieces_zero (context : ResponsesContext) {events : List StreamEvent}
    (hcontent : ContentAtZero events)
    (hcalls : ∀ event ∈ events, ∀ index, event.item = some (.tool, index) → index = 0) :
    streamedPieces context events 0 = (openings events).filterMap (streamedPiece context events) :=
  List.filterMap_congr fun _ hkey => if_pos (openings_choice hcontent hcalls hkey)

theorem deltas_zero {events : List StreamEvent} (hcontent : ContentAtZero events) :
    deltas 0 events = streamedText events := by
  refine List.filterMap_congr fun event hevent => ?_
  cases event with
  | delta index content =>
      have hindex := hcontent _ hevent .text index rfl (by decide)
      simp [hindex]
  | _ => rfl

/-! ## The pieces of a turn -/

def PieceKey.asText : PieceKey → Option Nat
  | .text index => some index
  | _ => none

def PieceKey.asCall : PieceKey → Option Nat
  | .call index => some index
  | _ => none

def PieceKey.asBlock : PieceKey → Option (Nat × Nat)
  | .block index blockIndex => some (index, blockIndex)
  | _ => none

theorem asText_replayPart (block : ReplayBlockState) : (replayPart block).asText = none := by
  cases block <;> rfl

/-- The texts of a turn. -/
theorem texts_streamed (context : ResponsesContext) (events : List StreamEvent)
    (keys : List PieceKey) :
    (partsOf (keys.filterMap (streamedPiece context events))).filterMap (·.asText) =
      (keys.filterMap (·.asText)).map fun index => String.join (deltas index events) := by
  simp only [partsOf, List.filterMap_filterMap, List.map_filterMap]
  refine List.filterMap_congr fun key _ => ?_
  cases key with
  | text index => rfl
  | call index => rfl
  | block index blockIndex =>
      simp only [streamedPiece, PieceKey.asText, Option.map_none]
      cases blockOf events (index, blockIndex) with
      | none => rfl
      | some block => exact asText_replayPart block

theorem calls_streamed (context : ResponsesContext) (events : List StreamEvent)
    (keys : List PieceKey) :
    callsOf (keys.filterMap (streamedPiece context events)) =
      (keys.filterMap (·.asCall)).map (streamedCall context events) := by
  simp only [callsOf, List.filterMap_filterMap, List.map_filterMap]
  refine List.filterMap_congr fun key _ => ?_
  cases key with
  | text index => rfl
  | call index => rfl
  | block index blockIndex =>
      simp only [streamedPiece, PieceKey.asCall, Option.map_none]
      cases blockOf events (index, blockIndex) <;> rfl

theorem openings_calls (events : List StreamEvent) :
    (openings events).filterMap (·.asCall) = toolIndexes events := by
  rw [openings, eraseDups_filterMap, List.filterMap_filterMap, toolIndexes]
  · congr 1
    refine List.filterMap_congr fun event _ => ?_
    cases event <;> rfl
  · intro a b c ha hb
    cases a <;> cases b <;> simp_all [PieceKey.asCall]

theorem openings_texts {events : List StreamEvent} (hcontent : ContentAtZero events) :
    (openings events).filterMap (·.asText) = if streamedText events = [] then [] else [0] := by
  have hindexes : (events.filterMap (·.opens)).filterMap (·.asText) =
      (streamedText events).map fun _ => 0 := by
    rw [List.filterMap_filterMap, streamedText, List.map_filterMap]
    refine List.filterMap_congr fun event hevent => ?_
    cases event with
    | delta index content =>
        have hindex := hcontent _ hevent .text index rfl (by decide)
        simp [StreamEvent.opens, PieceKey.asText, hindex]
    | _ => rfl
  rw [openings, eraseDups_filterMap, hindexes, eraseDups_constant (a := 0)]
  · simp
  · intro b hb
    obtain ⟨-, -, rfl⟩ := List.mem_map.mp hb
    rfl
  · intro a b c ha hb
    cases a <;> cases b <;> simp_all [PieceKey.asText]

/-- The blocks of a sort, among the pieces a stream opened. -/
def openedBlocks (events : List StreamEvent) (select : ReplayBlockState → Bool) : List (Nat × Nat) :=
  ((openings events).filterMap (·.asBlock)).filter fun key => (blockOf events key).any select

def ReplayBlockState.isThinking : ReplayBlockState → Bool
  | .thinking _ _ => true
  | .redacted _ => false

theorem nodup_openedBlocks (events : List StreamEvent) (select : ReplayBlockState → Bool) :
    (openedBlocks events select).Nodup := by
  refine List.Nodup.filter _ (List.Nodup.filterMap ?_ (nodup_eraseDups _))
  intro a b c ha hb
  cases a <;> cases ha
  cases b <;> cases hb
  rfl

/-- The thinking of a turn is the fragments of its blocks. -/
theorem thinking_streamed (context : ResponsesContext) {events : List StreamEvent}
    (hblocks : ∀ key, BlockWritten events key (blockOf events key)) :
    (partsOf ((openings events).filterMap (streamedPiece context events))).filterMap
        (·.asThinking) =
      (openedBlocks events (·.isThinking)).map fun key => gather key (thoughts events) := by
  simp only [partsOf, openedBlocks, List.filterMap_filterMap, ← List.filterMap_eq_filter,
    List.map_filterMap]
  refine List.filterMap_congr fun key _ => ?_
  cases key with
  | text index => rfl
  | call index => rfl
  | block index blockIndex =>
      have hblock := hblocks (index, blockIndex)
      simp only [streamedPiece, PieceKey.asBlock]
      cases hstate : blockOf events (index, blockIndex) with
      | none => simp [Option.guard, hstate]
      | some block =>
          rw [hstate] at hblock
          cases block with
          | thinking thinking signature =>
              obtain ⟨rfl, -⟩ := hblock
              simp [Option.guard, hstate, ReplayBlockState.isThinking, replayPart,
                ContentPart.asThinking]
          | redacted data =>
              simp [Option.guard, hstate, ReplayBlockState.isThinking, replayPart,
                ContentPart.asThinking]

/-- Each thinking fragment is of a block that was opened. -/
theorem thoughts_opened {events : List StreamEvent}
    (hblocks : ∀ key, BlockWritten events key (blockOf events key))
    {m : (Nat × Nat) × String} (h : m ∈ thoughts events) :
    m.1 ∈ openedBlocks events (·.isThinking) := by
  obtain ⟨event, hevent, hthought⟩ := List.mem_filterMap.mp h
  have hopened : PieceKey.block m.1.1 m.1.2 ∈ openings events := by
    refine List.mem_eraseDups.mpr (List.mem_filterMap.mpr ⟨event, hevent, ?_⟩)
    cases event <;> cases hthought
    rfl
  refine List.mem_filter.mpr ⟨List.mem_filterMap.mpr ⟨_, hopened, rfl⟩, ?_⟩
  have hblock := hblocks m.1
  cases hstate : blockOf events m.1 with
  | none =>
      rw [hstate] at hblock
      exact absurd rfl (hblock.1 m h)
  | some block =>
      rw [hstate] at hblock
      cases block with
      | thinking thinking signature => rfl
      | redacted data => exact absurd rfl (hblock.1 m h)

/-- The data of a redacted block. -/
def redactedData : ReplayBlockState → Option String
  | .redacted data => some data
  | .thinking _ _ => none

theorem redacted_pieces (context : ResponsesContext) (events : List StreamEvent)
    (keys : List PieceKey) :
    (partsOf (keys.filterMap (streamedPiece context events))).filterMap (·.asRedacted) =
      keys.filterMap fun key => (key.asBlock.bind (blockOf events)).bind redactedData := by
  simp only [partsOf, List.filterMap_filterMap]
  refine List.filterMap_congr fun key _ => ?_
  cases key with
  | text index => rfl
  | call index => rfl
  | block index blockIndex =>
      simp only [streamedPiece, PieceKey.asBlock, Option.bind_some]
      cases blockOf events (index, blockIndex) with
      | none => rfl
      | some block => cases block <;> rfl

theorem opened_iff (context : ResponsesContext) (map : ToolMap) {events : List StreamEvent}
    (h : (Items.start context map).AcceptsAll events) (index blockIndex : Nat) :
    (blockOf events (index, blockIndex)).isSome = true ↔
      PieceKey.block index blockIndex ∈ openings events := by
  rw [← lookup_afterAll context map, ← layout_openings context map h]
  exact block_iff_keys (inTurnOrder_afterAll context map h) index blockIndex

/-- Redacted blocks stay in the order in which they came. -/
theorem redacted_streamed (context : ResponsesContext) (map : ToolMap) {events : List StreamEvent}
    (h : (Items.start context map).AcceptsAll events) :
    ((openings events).filterMap fun key =>
      (key.asBlock.bind (blockOf events)).bind redactedData) = (redactions events).map (·.2) := by
  induction events using List.reverseRecOn with
  | nil => rfl
  | append_singleton events event ih =>
      obtain ⟨hbefore, haccepts⟩ := acceptsAll_snoc.mp h
      have hlookup := lookup_afterAll context map events
      have hopened := opened_iff context map hbefore
      have hold : ∀ key ∈ openings events,
          (key.asBlock.bind (blockOf (events ++ [event]))).bind redactedData =
            (key.asBlock.bind (blockOf events)).bind redactedData := by
        intro key hkey
        cases key with
        | text index => rfl
        | call index => rfl
        | block index blockIndex =>
            obtain ⟨block, hblock⟩ := Option.isSome_iff_exists.mp ((hopened _ _).mpr hkey)
            simp only [PieceKey.asBlock, Option.bind_some, blockOf_snoc]
            split
            · rename_i hsame
              rw [hblock]
              cases event with
              | thinkingDelta i b text =>
                  cases block with
                  | thinking thinking signature => rfl
                  | redacted data => rfl
              | thinkingSignatureDelta i b text =>
                  cases block with
                  | thinking thinking signature => rfl
                  | redacted data => rfl
              | redactedThinking i b data =>
                  cases hsame
                  have hnone := (hlookup (index, blockIndex)).symm.trans haccepts
                  rw [hblock] at hnone
                  cases hnone
              | delta | toolCallDelta | usage | finish | done | error => cases hsame
            · rfl
      rw [openings_snoc, List.filterMap_append, List.filterMap_congr hold, ih hbefore,
        redactions_snoc, List.map_append]
      congr 1
      cases event with
      | delta index content =>
          simp only [StreamEvent.opens]
          split <;> rfl
      | toolCallDelta index id name arguments =>
          simp only [StreamEvent.opens]
          split <;> rfl
      | thinkingDelta index blockIndex text =>
          simp only [StreamEvent.opens]
          split
          · rfl
          · rename_i hfresh
            have hnone : blockOf events (index, blockIndex) = none := by
              simpa using mt (hopened index blockIndex).mp hfresh
            simp [PieceKey.asBlock, blockOf_snoc, StreamEvent.block, hnone,
              StreamEvent.writeBlock, redactedData, redactions]
      | redactedThinking index blockIndex data =>
          have hnone : blockOf events (index, blockIndex) = none :=
            (hlookup _).symm.trans haccepts
          have hfresh : PieceKey.block index blockIndex ∉ openings events := by
            rw [← hopened, hnone]
            simp
          simp [StreamEvent.opens, hfresh, PieceKey.asBlock, blockOf_snoc, StreamEvent.block,
            StreamEvent.writeBlock, redactedData, redactions]
      | thinkingSignatureDelta | usage | finish | done | error => rfl

/-- A message made of the pieces of a stream of choice zero holds the turn. -/
theorem holdsTurn_pieces (context : ResponsesContext) (map : ToolMap) {events : List StreamEvent}
    (h : (Items.start context map).AcceptsAll events) (hcontent : ContentAtZero events)
    (hcalls : ∀ event ∈ events, ∀ index, event.item = some (.tool, index) → index = 0)
    {message : Message} (hparts : partsIn message = partsOf (streamedPieces context events 0))
    (htools : message.toolCalls = callsOf (streamedPieces context events 0)) :
    HoldsTurn context events message := by
  have hblocks := blockWritten_afterAll context map h
  rw [streamedPieces_zero context hcontent hcalls] at hparts htools
  refine ⟨?_, ?_, ?_, ?_⟩
  · rw [hparts, texts_streamed, openings_texts hcontent, ← deltas_zero hcontent]
    split
    · rename_i hnone
      rw [hnone]
      rfl
    · simp
  · rw [hparts, thinking_streamed context hblocks]
    exact gatheredInto_keys (nodup_openedBlocks events _) fun m hm => thoughts_opened hblocks hm
  · rw [hparts, redacted_pieces, redacted_streamed context map h]
  · rw [htools, calls_streamed, openings_calls, streamedCalls]

/-! ## Choices without carriers -/

theorem map_index {s : Items} (hs : s.Indexed) : s.slots.map (·.index) = List.range s.slots.length := by
  apply List.ext_getElem?
  intro q
  rw [List.getElem?_map]
  cases hslot : s.slots[q]? with
  | none =>
      rw [List.getElem?_eq_none (by simpa using List.getElem?_eq_none_iff.mp hslot)]
      rfl
  | some slot =>
      rw [List.getElem?_range (List.getElem?_eq_some_iff.mp hslot).1, Option.map_some,
        hs q slot hslot]

/-- One slot at most of a kind, when all are of one choice. -/
theorem filter_kind {s : Items} (hs : Seated s) {kind : SlotKind} (hkind : kind ≠ .reasoning)
    (hzero : ∀ (q : Nat) (slot : Slot), s.slots[q]? = some slot → slot.sourceIndex = 0) :
    (s.slots.filter (·.kind == kind) = [] ∧ ∀ (q : Nat) (slot : Slot),
        s.slots[q]? = some slot → slot.kind ≠ kind) ∨
      ∃ (q : Nat) (slot : Slot), s.slots[q]? = some slot ∧ slot.kind = kind ∧
        s.slots.filter (·.kind == kind) = [slot] := by
  have hlength : (s.slots.filter (·.kind == kind)).length ≤ 1 := by
    have hnodup : s.slots.Nodup := by
      refine List.Nodup.of_map (·.index) ?_
      rw [map_index hs.orderly.indexed]
      exact List.nodup_range
    rw [← List.filterMap_eq_filter]
    refine length_filterMap_le_one hnodup fun a ha b hb hkindA hkindB => ?_
    have hkindA : a.kind = kind := by simpa [Option.guard] using hkindA
    have hkindB : b.kind = kind := by simpa [Option.guard] using hkindB
    obtain ⟨p, ha⟩ := List.mem_iff_getElem?.mp ha
    obtain ⟨q, hb⟩ := List.mem_iff_getElem?.mp hb
    have hsame := hs.unique ha hb (hkindA.trans hkindB.symm)
      ((hzero p a ha).trans (hzero q b hb).symm)
      (hs.open_of_kind ha (by rw [hkindA]; exact hkind))
      (hs.open_of_kind hb (by rw [hkindB]; exact hkind))
    rw [hsame, hb] at ha
    exact (Option.some.inj ha).symm
  cases hfilter : s.slots.filter (·.kind == kind) with
  | nil =>
      refine .inl ⟨rfl, fun q slot hslot hsame => ?_⟩
      have hmem : slot ∈ s.slots.filter (·.kind == kind) :=
        List.mem_filter.mpr ⟨List.mem_of_getElem? hslot, by simpa using hsame⟩
      rw [hfilter] at hmem
      cases hmem
  | cons slot rest =>
      have hrest : rest = [] := by
        rw [hfilter, List.length_cons] at hlength
        exact List.length_eq_zero_iff.mp (by omega)
      have hmem : slot ∈ s.slots.filter (·.kind == kind) := by
        rw [hfilter]
        exact List.mem_cons_self
      obtain ⟨hslot, hsame⟩ := List.mem_filter.mp hmem
      obtain ⟨q, hslot⟩ := List.mem_iff_getElem?.mp hslot
      exact .inr ⟨q, slot, hslot, by simpa using hsame, by rw [hrest]⟩

/-- The slots of reasoning hold the thinking of the stream. -/
def Reasoned (s : Items) (events : List StreamEvent) : Prop :=
  ∃ marked : List (Nat × String), marked.map (·.2) = (thoughts events).map (·.2) ∧
    (∀ m ∈ marked, ∃ slot, s.slots[m.1]? = some slot ∧ slot.kind = .reasoning) ∧
    ∀ (q : Nat) (slot : Slot), s.slots[q]? = some slot → slot.kind = .reasoning →
      slot.text = gather q marked

theorem thoughts_of_other {event : StreamEvent}
    (h : ∀ index blockIndex text, event ≠ .thinkingDelta index blockIndex text) :
    thoughts [event] = [] := by
  cases event with
  | thinkingDelta index blockIndex text => exact absurd rfl (h index blockIndex text)
  | _ => rfl

/-- Other events leave the text of reasoning alone. -/
theorem touch_text (s : Items) {event : StreamEvent} {slot : Slot} {index : Nat}
    (hitem : event.item = some (.reasoning, index))
    (h : ∀ index blockIndex text, event ≠ .thinkingDelta index blockIndex text) :
    (s.touch event slot).text = slot.text := by
  cases event with
  | thinkingDelta index blockIndex text => exact absurd rfl (h index blockIndex text)
  | thinkingSignatureDelta =>
      simp only [Items.touch]
      split <;> rfl
  | redactedThinking => rfl
  | delta | toolCallDelta | usage | finish | done | error => cases hitem

theorem reasoned_after {s : Items} (hs : s.Orderly) {events : List StreamEvent}
    (h : Reasoned s events) (event : StreamEvent) :
    Reasoned (s.after event) (events ++ [event]) := by
  obtain ⟨marked, hmarked, hslots, htext⟩ := h
  have hstays : ∀ m ∈ marked, ∃ slot, (s.after event).slots[m.1]? = some slot ∧
      slot.kind = .reasoning := by
    intro m hm
    obtain ⟨slot, hslot, hkind⟩ := hslots m hm
    obtain ⟨slot', hslot', hkind', -⟩ := after_slot_stays hs event hslot
    exact ⟨slot', hslot', hkind'.trans hkind⟩
  have hbeyond : ∀ q, s.slots.length ≤ q → gather q marked = "" := by
    intro q hq
    refine gather_of_notMem fun m hm heq => ?_
    obtain ⟨slot, hslot, -⟩ := hslots m hm
    rw [heq, List.getElem?_eq_none hq] at hslot
    cases hslot
  by_cases hthinking : ∃ index blockIndex text, event = .thinkingDelta index blockIndex text
  · obtain ⟨index, blockIndex, text, rfl⟩ := hthinking
    have hitem : (StreamEvent.thinkingDelta index blockIndex text).item =
        some (.reasoning, index) := rfl
    refine ⟨marked ++ [(s.place .reasoning index, text)], ?_, ?_, ?_⟩
    · simp [hmarked, thoughts]
    · intro m hm
      rcases List.mem_append.mp hm with hm | hm
      · exact hstays m hm
      · rw [List.mem_singleton.mp hm]
        obtain ⟨slot, hslot, hkind, -⟩ := after_slot_place hs hitem
        exact ⟨slot, hslot, hkind⟩
    · intro q slot hslot hkind
      rw [gather_snoc]
      rcases after_slot_cases hs hitem hslot with
        ⟨hq, old, hold, rfl⟩ | ⟨-, rfl, old, hold, holdKind, -, -, rfl⟩ | ⟨hnew, rfl, rfl⟩
      · rw [if_neg (Ne.symm hq)]
        exact htext q _ hold hkind
      · rw [if_pos rfl, ← htext _ old hold holdKind]
        rfl
      · rw [if_pos (place_new hnew), hbeyond _ (Nat.le_refl _)]
        rfl
  · have hother : ∀ index blockIndex text, event ≠ .thinkingDelta index blockIndex text :=
      fun index blockIndex text heq => hthinking ⟨index, blockIndex, text, heq⟩
    refine ⟨marked, ?_, hstays, fun q slot hslot hkind => ?_⟩
    · rw [hmarked, thoughts_snoc, thoughts_of_other hother, List.append_nil]
    · cases hitem : event.item with
      | none =>
          rw [after_of_item_none hitem] at hslot
          exact htext q slot hslot hkind
      | some item =>
          obtain ⟨kind, index⟩ := item
          rcases after_slot_cases hs hitem hslot with
            ⟨hq, old, hold, rfl⟩ | ⟨-, rfl, old, hold, rfl, -, -, rfl⟩ | ⟨-, rfl, rfl⟩
          · rw [closing_kind] at hkind
            rw [closing_text]
            exact htext q old hold hkind
          · rw [(touch_place s event old).1] at hkind
            rw [hkind] at hitem
            rw [touch_text s hitem hother]
            exact htext _ old hold hkind
          · rw [(touch_place s event _).1] at hkind
            obtain rfl : kind = .reasoning := hkind
            rw [touch_text s hitem hother, hbeyond _ (Nat.le_refl _)]
            rfl

theorem reasoned_afterAll (context : ResponsesContext) (map : ToolMap) (events : List StreamEvent) :
    Reasoned ((Items.start context map).afterAll events) events := by
  induction events using List.reverseRecOn with
  | nil => exact ⟨[], rfl, by simp, by simp [Items.afterAll, Items.start]⟩
  | append_singleton events event ih =>
      rw [afterAll_snoc]
      exact reasoned_after (orderly_afterAll (orderly_start context map) events) ih event

/-- The texts of the reasoning slots hold every thinking fragment once. -/
theorem gatheredInto_reasoning {s : Items} (hs : s.Indexed) {events : List StreamEvent}
    (h : Reasoned s events) :
    GatheredInto ((thoughts events).map (·.2))
      ((s.slots.filter (·.kind == .reasoning)).map (·.text)) := by
  obtain ⟨marked, hmarked, hslots, htext⟩ := h
  have htexts : (s.slots.filter (·.kind == .reasoning)).map (·.text) =
      ((s.slots.filter (·.kind == .reasoning)).map (·.index)).map fun q => gather q marked := by
    rw [List.map_map]
    refine List.map_congr_left fun slot hslot => ?_
    obtain ⟨hmem, hkind⟩ := List.mem_filter.mp hslot
    obtain ⟨q, hget⟩ := List.mem_iff_getElem?.mp hmem
    rw [Function.comp_apply, hs q slot hget]
    exact htext q slot hget (by simpa using hkind)
  rw [htexts, ← hmarked]
  refine gatheredInto_keys ?_ fun m hm => ?_
  · have hall : (s.slots.map (·.index)).Nodup := by
      rw [map_index hs]
      exact List.nodup_range
    exact hall.sublist (List.filter_sublist.map _)
  · obtain ⟨slot, hget, hkind⟩ := hslots m hm
    refine List.mem_map.mpr ⟨slot, List.mem_filter.mpr ⟨List.mem_of_getElem? hget, by simp [hkind]⟩,
      hs m.1 slot hget⟩

/-! ## The plain snapshot -/

theorem addToChoice_closing (messages : List (Nat × Message)) (select : Slot → Bool) (slot : Slot) :
    addToChoice messages (closing select slot) = addToChoice messages slot := by
  unfold closing
  split <;> rfl

/-- The order of a continuation does not depend on which slots are closed. -/
theorem plainMessages_finished (s : Items) (carriers : List (Nat × String)) :
    (s.finished carriers).plainMessages = s.plainMessages := by
  have hkinds : (s.finished carriers).byKind = s.byKind.map (closing fun _ => true) := by
    simp only [Items.byKind, Items.finished, List.map_flatMap, List.filter_map]
    congr 1
  rw [Items.plainMessages, Items.plainMessages, hkinds, List.foldl_map]
  simp only [addToChoice_closing]

/-- The parts and the calls of a message made of slots. -/
theorem addSlots_fields (slots : List Slot) :
    (slots.foldl Message.addSlot emptyMessage).content =
        (if slots.filter (·.kind != .tool) = [] then none
          else some (.parts ((slots.filter (·.kind != .tool)).map (·.part)))) ∧
      (slots.foldl Message.addSlot emptyMessage).toolCalls =
        (slots.filter (·.kind == .tool)).map (·.call) := by
  induction slots using List.reverseRecOn with
  | nil => exact ⟨rfl, rfl⟩
  | append_singleton slots slot ih =>
      obtain ⟨hcontent, htools⟩ := ih
      rw [List.foldl_append, List.foldl_cons, List.foldl_nil, List.filter_append,
        List.filter_append]
      generalize slots.foldl Message.addSlot emptyMessage = message at hcontent htools
      unfold Message.addSlot
      cases hkind : slot.kind with
      | tool => simp [hkind, hcontent, htools]
      | text | reasoning =>
          simp only [hcontent]
          by_cases hnil : slots.filter (·.kind != .tool) = []
          · simp [hnil, hkind, htools]
          · simp [hnil, hkind, htools]

theorem foldl_addToChoice_zero {slots : List Slot} (h : ∀ slot ∈ slots, slot.sourceIndex = 0)
    (message : Message) :
    slots.foldl addToChoice [(0, message)] = [(0, slots.foldl Message.addSlot message)] := by
  induction slots generalizing message with
  | nil => rfl
  | cons slot slots ih =>
      rw [List.foldl_cons, List.foldl_cons, ← ih fun s hs => h s (List.mem_cons_of_mem _ hs)]
      congr 1
      simp [addToChoice, h slot List.mem_cons_self, lookup, insertEntry]

theorem mem_byKind {s : Items} {slot : Slot} : slot ∈ s.byKind ↔ slot ∈ s.slots := by
  simp only [Items.byKind, List.mem_flatMap, List.mem_filter]
  constructor
  · rintro ⟨kind, -, hslot, -⟩
    exact hslot
  · intro hslot
    refine ⟨slot.kind, ?_, hslot, by simp⟩
    cases slot.kind <;> simp

/-- Slots of choice zero make one message. -/
theorem plainMessages_zero {s : Items} (hne : s.slots ≠ [])
    (hzero : ∀ slot ∈ s.slots, slot.sourceIndex = 0) :
    s.plainMessages = [(0, s.byKind.foldl Message.addSlot emptyMessage)] := by
  have hkinds : ∀ slot ∈ s.byKind, slot.sourceIndex = 0 := fun slot hslot =>
    hzero slot (mem_byKind.mp hslot)
  rw [Items.plainMessages]
  cases hlist : s.byKind with
  | nil =>
      obtain ⟨slot, hslot⟩ := List.exists_mem_of_ne_nil _ hne
      have hslot := mem_byKind.mpr hslot
      rw [hlist] at hslot
      cases hslot
  | cons first rest =>
      rw [hlist] at hkinds
      rw [List.foldl_cons, List.foldl_cons]
      have hfirst : addToChoice [] first = [(0, emptyMessage.addSlot first)] := by
        simp [addToChoice, hkinds first List.mem_cons_self, lookup, insertEntry]
      rw [hfirst, foldl_addToChoice_zero fun slot hslot =>
        hkinds slot (List.mem_cons_of_mem _ hslot)]

/-- Each slot is in the message of its choice. -/
theorem lookup_addToChoice {messages : List (Nat × Message)} {slots : List Slot} {i : Nat} :
    (lookup i (slots.foldl addToChoice messages)).isSome = true ↔
      (lookup i messages).isSome = true ∨ ∃ slot ∈ slots, slot.sourceIndex = i := by
  induction slots generalizing messages with
  | nil => simp
  | cons slot slots ih =>
      rw [List.foldl_cons, ih, addToChoice, lookup_insertEntry]
      by_cases hi : slot.sourceIndex = i
      · simp [hi]
      · simp [hi]

/-- The plain snapshot of a stream of choice zero holds the turn. -/
theorem holdsTurn_plain (context : ResponsesContext) (map : ToolMap) {events : List StreamEvent}
    (hcontent : ContentAtZero events)
    (hcalls : ∀ event ∈ events, ∀ index, event.item = some (.tool, index) → index = 0)
    (hidle : ∀ event ∈ events, ∀ i, event.activates ≠ some i) :
    HoldsTurn context events
      (((Items.start context map).afterAll events).byKind.foldl Message.addSlot emptyMessage) := by
  have hs := seated_afterAll (seated_start context map) events
  have hwritten := written_afterAll context map events
  have hreasoned := reasoned_afterAll context map events
  have hslots := slots_of_events context map events
  have hcontext : ((Items.start context map).afterAll events).context = context :=
    (afterAll_fields (Items.start context map) events).1
  generalize (Items.start context map).afterAll events = s at *
  have hzero : ∀ (q : Nat) (slot : Slot), s.slots[q]? = some slot → slot.sourceIndex = 0 := by
    intro q slot hslot
    obtain ⟨event, hevent, hitem⟩ := (hslots _ _).mp ⟨q, slot, hslot, rfl, rfl⟩
    by_cases hkind : slot.kind = .tool
    · exact hcalls event hevent _ (hkind ▸ hitem)
    · exact hcontent event hevent _ _ hitem hkind
  have hfilterParts : s.byKind.filter (·.kind != .tool) =
      s.slots.filter (·.kind == .reasoning) ++ s.slots.filter (·.kind == .text) := by
    simp only [Items.byKind, List.flatMap_cons, List.flatMap_nil, List.append_nil,
      List.filter_append, List.filter_filter]
    have hfilter : ∀ kind : SlotKind, kind ≠ .tool →
        (fun slot : Slot => slot.kind != .tool && slot.kind == kind) = (·.kind == kind) := by
      intro kind hkind
      funext slot
      by_cases hsame : slot.kind = kind <;> simp [hsame, hkind]
    have htool : (fun slot : Slot => slot.kind != .tool && slot.kind == .tool) = fun _ => false := by
      funext slot
      cases slot.kind <;> rfl
    rw [hfilter .reasoning (by decide), hfilter .text (by decide), htool, List.filter_false,
      List.append_nil]
  have hfilterCalls : s.byKind.filter (·.kind == .tool) = s.slots.filter (·.kind == .tool) := by
    simp only [Items.byKind, List.flatMap_cons, List.flatMap_nil, List.append_nil,
      List.filter_append, List.filter_filter]
    have hother : ∀ kind : SlotKind, kind ≠ .tool →
        (fun slot : Slot => slot.kind == .tool && slot.kind == kind) = fun _ => false := by
      intro kind hkind
      funext slot
      cases hslot : slot.kind <;> cases kind <;> simp_all
    rw [hother .reasoning (by decide), hother .text (by decide), List.filter_false,
      List.nil_append, List.nil_append]
    congr 1
    funext slot
    simp
  obtain ⟨hmessage, htools⟩ := addSlots_fields s.byKind
  rw [hfilterParts] at hmessage
  rw [hfilterCalls] at htools
  have hparts : partsIn (s.byKind.foldl Message.addSlot emptyMessage) =
      (s.slots.filter (·.kind == .reasoning)).map (·.part) ++
        (s.slots.filter (·.kind == .text)).map (·.part) := by
    rw [partsIn, hmessage, List.map_append]
    split <;> simp_all
  have hreasoning : ∀ slot ∈ s.slots.filter (·.kind == .reasoning), slot.part =
      .thinking slot.text (if slot.signature = "" then none else some slot.signature) := by
    intro slot hslot
    have hkind : slot.kind = .reasoning := by simpa using (List.mem_filter.mp hslot).2
    simp [Slot.part, hkind]
  have htexts : ∀ slot ∈ s.slots.filter (·.kind == .text), slot.part = .text slot.text := by
    intro slot hslot
    have hkind : slot.kind = .text := by simpa using (List.mem_filter.mp hslot).2
    simp [Slot.part, hkind]
  rw [List.map_congr_left hreasoning, List.map_congr_left htexts] at hparts
  refine ⟨?_, ?_, ?_, ?_⟩
  · have hasText : (partsIn (s.byKind.foldl Message.addSlot emptyMessage)).filterMap (·.asText) =
        (s.slots.filter (·.kind == .text)).map (·.text) := by
      rw [hparts, List.filterMap_append, List.filterMap_map, List.filterMap_map]
      have hnone : (fun part : ContentPart => part.asText) ∘ (fun slot : Slot =>
          ContentPart.thinking slot.text
            (if slot.signature = "" then none else some slot.signature)) = fun _ => none := rfl
      have hsome : (fun part : ContentPart => part.asText) ∘ (fun slot : Slot =>
          ContentPart.text slot.text) = fun slot => some slot.text := rfl
      rw [hnone, hsome, List.filterMap_none, List.nil_append, List.filterMap_eq_map']
    rw [hasText, ← deltas_zero hcontent]
    rcases filter_kind hs (by decide : SlotKind.text ≠ .reasoning) hzero with
      ⟨hnil, hnone⟩ | ⟨q, slot, hslot, hkind, hone⟩
    · rw [hnil, fragments_nil]
      · rfl
      · intro event hevent hitem
        obtain ⟨q, slot, hslot, hkind, -⟩ := (hslots .text 0).mpr ⟨event, hevent, hitem⟩
        exact hnone q slot hslot hkind
    · rw [hone, List.map_singleton, hwritten.text q slot hslot hkind, hzero q slot hslot]
      simp
  · have hthinking : (partsIn (s.byKind.foldl Message.addSlot emptyMessage)).filterMap
        (·.asThinking) = (s.slots.filter (·.kind == .reasoning)).map (·.text) := by
      rw [hparts, List.filterMap_append, List.filterMap_map, List.filterMap_map]
      have hsome : (fun part : ContentPart => part.asThinking) ∘ (fun slot : Slot =>
          ContentPart.thinking slot.text
            (if slot.signature = "" then none else some slot.signature)) =
          fun slot => some slot.text := rfl
      have hnone : (fun part : ContentPart => part.asThinking) ∘ (fun slot : Slot =>
          ContentPart.text slot.text) = fun _ => none := rfl
      rw [hnone, hsome, List.filterMap_none, List.append_nil, List.filterMap_eq_map']
    rw [hthinking]
    exact gatheredInto_reasoning hs.orderly.indexed hreasoned
  · have hnothing : redactions events = [] := by
      refine List.filterMap_eq_nil_iff.mpr fun event hevent => ?_
      cases event with
      | redactedThinking index blockIndex data => exact absurd rfl (hidle _ hevent index)
      | _ => rfl
    rw [hparts, hnothing, List.filterMap_append, List.filterMap_map, List.filterMap_map]
    have hnone : (fun part : ContentPart => part.asRedacted) ∘ (fun slot : Slot =>
        ContentPart.thinking slot.text
          (if slot.signature = "" then none else some slot.signature)) = fun _ => none := rfl
    have hnone' : (fun part : ContentPart => part.asRedacted) ∘ (fun slot : Slot =>
        ContentPart.text slot.text) = fun _ => none := rfl
    rw [hnone, hnone', List.filterMap_none, List.filterMap_none]
    rfl
  · have hindexes : ∀ b ∈ events.filterMap (fun event => match event with
        | .toolCallDelta index _ _ _ _ => some index
        | _ => none), b = 0 := by
      intro b hb
      obtain ⟨event, hevent, hindex⟩ := List.mem_filterMap.mp hb
      cases event <;> cases hindex
      exact hcalls _ hevent b rfl
    rw [htools, streamedCalls, toolIndexes, eraseDups_constant hindexes]
    rcases filter_kind hs (by decide : SlotKind.tool ≠ .reasoning) hzero with
      ⟨hnil, hnone⟩ | ⟨q, slot, hslot, hkind, hone⟩
    · rw [hnil, if_pos]
      · rfl
      · refine List.filterMap_eq_nil_iff.mpr fun event hevent => ?_
        cases event with
        | toolCallDelta index id name arguments =>
            obtain ⟨q, slot, hslot, hkind, -⟩ := (hslots .tool index).mpr ⟨_, hevent, rfl⟩
            exact absurd hkind (hnone q slot hslot)
        | _ => rfl
    · rw [hone, if_neg]
      · rw [List.map_singleton, List.map_singleton, hwritten.call q slot hslot hkind, hcontext,
          hzero q slot hslot]
      · obtain ⟨event, hevent, hitem⟩ := (hslots _ _).mp ⟨q, slot, hslot, hkind, rfl⟩
        obtain ⟨id, name, arguments, signature, rfl⟩ := item_tool hitem
        exact List.ne_nil_of_mem (List.mem_filterMap.mpr ⟨_, hevent, rfl⟩)

/-! ## Whole streams -/

/-- The choices of a snapshot are those of its slots and blocks. -/
theorem terminalResponse_choices {s : ResponsesSseState} (hcompleted : s.status = .completed)
    (horder : InTurnOrder s.toItems) :
    ∃ response, s.terminalResponse = some response ∧
      (∀ slot ∈ s.slots, ∃ entry ∈ response.choices, entry.index = slot.sourceIndex) ∧
      (response.choices ≠ [] → s.slots ≠ [] ∨ s.replayBlocks ≠ []) := by
  by_cases hcarriers : s.replayCarriers = []
  · refine ⟨s.responseOf s.plainMessages, ?_, fun slot hslot => ?_, fun hne => ?_⟩
    · rw [ResponsesSseState.terminalResponse, if_neg (by simp [hcompleted]),
        ResponsesSseState.replayTerminalResponse, hcarriers]
      rfl
    · have hsome := (@lookup_addToChoice [] _ _).mpr
        (.inr ⟨slot, mem_byKind.mpr hslot, rfl⟩)
      obtain ⟨message, hmessage⟩ := Option.isSome_iff_exists.mp hsome
      exact ⟨_, List.mem_map_of_mem (mem_of_lookup hmessage), rfl⟩
    · left
      intro hnil
      refine hne ?_
      have hkinds : s.byKind = [] :=
        List.eq_nil_iff_forall_not_mem.mpr fun slot hslot => by
          simpa [hnil] using mem_byKind.mp hslot
      rw [ResponsesSseState.responseOf, Items.plainMessages, hkinds]
      rfl
  · refine ⟨_, terminalResponse_replay hcompleted horder hcarriers, fun slot hslot => ?_,
      fun hne => ?_⟩
    · have hmem := mem_choiceIndexes.mpr (.inl ⟨slot, hslot, rfl⟩)
      exact ⟨_, List.mem_map_of_mem (List.mem_map_of_mem hmem), rfl⟩
    · by_contra hboth
      rw [not_or, not_not, not_not] at hboth
      refine hne ?_
      rw [ResponsesSseState.responseOf, Items.choiceIndexes, hboth.1, hboth.2]
      rfl

/-- A block of a run was opened by an event. -/
theorem block_choice (context : ResponsesContext) (map : ToolMap) {events : List StreamEvent}
    (h : (Items.start context map).AcceptsAll events) {block : (Nat × Nat) × ReplayBlockState}
    (hblock : block ∈ ((Items.start context map).afterAll events).replayBlocks) :
    PieceKey.block block.1.1 block.1.2 ∈ openings events := by
  rw [← opened_iff context map h, ← lookup_afterAll context map]
  by_contra hnone
  rw [Bool.not_eq_true, Option.isSome_eq_false_iff, Option.isNone_iff_eq_none,
    lookup_eq_none_iff] at hnone
  exact hnone (List.mem_map_of_mem hblock)

/-- The snapshot of a completed stream whose text and thinking are of choice
zero is one turn exactly when its calls are of choice zero too. -/
theorem snapshot_one_turn_iff (packages : Packages) (context : ResponsesContext)
    (batches : List (List StreamEvent)) :
    let run := responsesCalls packages (.new context) batches
    run.2.status = .completed → ContentAtZero (liveEvents batches) →
      ∃ response, run.2.terminalResponse = some response ∧
        (OneTurn context (liveEvents batches) response ↔ CallsAtZero (liveEvents batches)) := by
  intro run hcompleted hcontent
  obtain ⟨map, output, hfinished⟩ := completed_run packages context batches hcompleted
  obtain ⟨carriers, hbuilt, hitems⟩ := hfinished.items
  have haccepted := hfinished.accepted
  have horder := inTurnOrder_afterAll context map haccepted
  have hslots := slots_of_events context map (liveEvents batches)
  have hfinal : InTurnOrder run.2.toItems := hitems ▸ horder.finished carriers
  have hslot : ∀ slot ∈ run.2.slots, ∃ event ∈ liveEvents batches,
      event.item = some (slot.kind, slot.sourceIndex) := by
    intro slot hslot
    rw [hitems] at hslot
    obtain ⟨old, hold, rfl⟩ := List.mem_map.mp hslot
    obtain ⟨q, hget⟩ := List.mem_iff_getElem?.mp hold
    rw [closing_kind, closing_source]
    exact (hslots _ _).mp ⟨q, old, hget, rfl, rfl⟩
  have hblock : ∀ block ∈ run.2.replayBlocks,
      PieceKey.block block.1.1 block.1.2 ∈ openings (liveEvents batches) := by
    intro block hmem
    rw [hitems] at hmem
    exact block_choice context map haccepted hmem
  obtain ⟨response, hresponse, hchoices, hsome⟩ := terminalResponse_choices hcompleted hfinal
  refine ⟨response, hresponse, ?_⟩
  constructor
  · rintro ⟨entry, hentry, hindex, -⟩
    refine ⟨fun event hevent index hitem => ?_, ?_⟩
    · obtain ⟨q, slot, hget, -, rfl⟩ := (hslots _ _).mpr ⟨event, hevent, hitem⟩
      have hmem : closing (fun _ => true) slot ∈ run.2.slots := by
        rw [hitems]
        exact List.mem_map_of_mem (List.mem_of_getElem? hget)
      obtain ⟨entry', hmem', hsame⟩ := hchoices _ hmem
      rw [hentry, List.mem_singleton] at hmem'
      rw [← closing_source (fun _ => true) slot, ← hsame, hmem', hindex]
    · rcases hsome (by rw [hentry]; simp) with hne | hne
      · obtain ⟨slot, hmem⟩ := List.exists_mem_of_ne_nil _ hne
        obtain ⟨event, hevent, hitem⟩ := hslot slot hmem
        exact ⟨event, hevent, by rw [hitem]; simp⟩
      · obtain ⟨block, hmem⟩ := List.exists_mem_of_ne_nil _ hne
        obtain ⟨event, hevent, hopens⟩ :=
          List.mem_filterMap.mp (List.mem_eraseDups.mp (hblock block hmem))
        obtain ⟨kind, hitem⟩ := opens_choice hopens
        exact ⟨event, hevent, by rw [hitem]; simp⟩
  · rintro ⟨hcalls, event, hevent, hitem⟩
    have hzero : ∀ slot ∈ run.2.slots, slot.sourceIndex = 0 := by
      intro slot hmem
      obtain ⟨event, hevent, hitem⟩ := hslot slot hmem
      by_cases hkind : slot.kind = .tool
      · exact hcalls event hevent _ (hkind ▸ hitem)
      · exact hcontent event hevent _ _ hitem hkind
    have hne : run.2.slots ≠ [] := by
      obtain ⟨⟨kind, index⟩, hsomeItem⟩ := Option.ne_none_iff_exists'.mp hitem
      obtain ⟨q, slot, hget, -, -⟩ := (hslots kind index).mpr ⟨event, hevent, hsomeItem⟩
      rw [hitems]
      exact List.ne_nil_of_mem (List.mem_map_of_mem (List.mem_of_getElem? hget))
    by_cases hcarriers : run.2.replayCarriers = []
    · have hplain : run.2.terminalResponse = some (run.2.responseOf run.2.plainMessages) := by
        rw [ResponsesSseState.terminalResponse, if_neg (by simp [hcompleted]),
          ResponsesSseState.replayTerminalResponse, hcarriers]
        rfl
      have hidle : ∀ event ∈ liveEvents batches, ∀ i, event.activates ≠ some i := by
        intro event hevent i hactivates
        have hactive := (mem_active_afterAll context map haccepted i).mpr
          ⟨event, hevent, hactivates⟩
        have hchoice := hbuilt i
        rw [if_pos hactive] at hchoice
        obtain ⟨carrier, -, hlookup⟩ := hchoice
        have hnone : run.2.replayCarriers = carriers := by
          rw [hitems]
          rfl
        rw [← hnone, hcarriers] at hlookup
        cases hlookup
      rw [hplain] at hresponse
      obtain rfl := Option.some.inj hresponse
      have hmessages : run.2.plainMessages = [(0, ((Items.start context map).afterAll
          (liveEvents batches)).byKind.foldl Message.addSlot emptyMessage)] := by
        rw [hitems, plainMessages_finished]
        refine plainMessages_zero ?_ fun slot hmem => ?_
        · rw [hitems] at hne
          simpa [Items.finished] using hne
        · rw [← closing_source (fun _ => true) slot]
          refine hzero _ ?_
          rw [hitems]
          exact List.mem_map_of_mem hmem
      refine ⟨_, by rw [ResponsesSseState.responseOf, hmessages]; rfl, rfl, ?_⟩
      exact holdsTurn_plain context map hcontent hcalls hidle
    · rw [terminalResponse_replay hcompleted hfinal hcarriers] at hresponse
      obtain rfl := Option.some.inj hresponse
      have hindexes : run.2.choiceIndexes = [0] := by
        have hall : ∀ i ∈ run.2.choiceIndexes, i = 0 := by
          intro i hi
          rcases mem_choiceIndexes.mp hi with ⟨slot, hmem, rfl⟩ | ⟨block, hmem, rfl⟩
          · exact hzero slot hmem
          · exact openings_choice hcontent hcalls (hblock block hmem)
        have hmem : 0 ∈ run.2.choiceIndexes := by
          obtain ⟨slot, hslotMem⟩ := List.exists_mem_of_ne_nil _ hne
          exact mem_choiceIndexes.mpr (.inl ⟨slot, hslotMem, hzero slot hslotMem⟩)
        have hfilter := filter_eq_of_nodup (nodup_choiceIndexes run.2.toItems) hmem
        rwa [List.filter_eq_self.mpr fun i hi => by simp [hall i hi]] at hfilter
      refine ⟨_, by rw [ResponsesSseState.responseOf, hindexes]; rfl, rfl, ?_⟩
      have hpieces : run.2.pieces 0 = streamedPieces context (liveEvents batches) 0 := by
        rw [hitems, pieces_finished, pieces_streamed context map haccepted]
      refine holdsTurn_pieces context map haccepted hcontent hcalls ?_ ?_
      · simp only [partsIn, Items.turnMessage, hpieces]
        split <;> simp_all
      · simp only [Items.turnMessage, hpieces]

/-- Text of choice zero and a call under a tool index of its own. -/
def callBesideText : List StreamEvent :=
  [.delta 0 "a", .toolCallDelta 1 (some "c") (some "f") "\x7b\x7d" none, .done none none]

theorem signed_turn_is_one_turn :
    (responsesCalls .textual (.new toollessContext) [signedTurn]).2.status = .completed ∧
      ∃ response, (responsesCalls .textual (.new toollessContext)
          [signedTurn]).2.terminalResponse = some response ∧
        OneTurn toollessContext (liveEvents [signedTurn]) response := by
  have hcompleted :
      (responsesCalls .textual (.new toollessContext) [signedTurn]).2.status = .completed := by
    decide +kernel
  have hlive : liveEvents [signedTurn] = signedTurn.take 4 := by decide
  have hzero : ∀ event ∈ liveEvents [signedTurn], ∀ kind index,
      event.item = some (kind, index) → index = 0 := by
    intro event hevent kind index hitem
    rw [hlive] at hevent
    fin_cases hevent <;> cases hitem <;> rfl
  obtain ⟨response, hresponse, hiff⟩ := snapshot_one_turn_iff .textual toollessContext [signedTurn]
    hcompleted fun event hevent kind index hitem _ => hzero event hevent kind index hitem
  refine ⟨hcompleted, response, hresponse, hiff.mpr
    ⟨fun event hevent index hitem => hzero event hevent .tool index hitem, ?_⟩⟩
  exact ⟨.delta 0 "a", by decide, by decide⟩

/-- A call under another index leaves a snapshot of two choices. -/
theorem call_splits_snapshot :
    (responsesCalls .textual (.new toollessContext) [callBesideText]).2.status = .completed ∧
      ContentAtZero (liveEvents [callBesideText]) ∧
      ¬∃ response, (responsesCalls .textual (.new toollessContext)
          [callBesideText]).2.terminalResponse = some response ∧
        OneTurn toollessContext (liveEvents [callBesideText]) response := by
  have hlive : liveEvents [callBesideText] = callBesideText.take 2 := by decide
  refine ⟨by decide +kernel, ?_, ?_⟩
  · intro event hevent kind index hitem hkind
    rw [hlive] at hevent
    fin_cases hevent <;> cases hitem
    · rfl
    · exact absurd rfl hkind
  · rintro ⟨response, hresponse, entry, hentry, -, -⟩
    have hlength : ((responsesCalls .textual (.new toollessContext)
        [callBesideText]).2.terminalResponse.map fun response => response.choices.length) =
          some 2 := by
      decide +kernel
    rw [hresponse, Option.map_some, hentry] at hlength
    cases hlength

end TokenStation.Responses
