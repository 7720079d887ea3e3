import TokenStation.Responses.Snapshot
import TokenStation.Responses.TurnOrder

/-!
# Reading a turn off the items

The pieces of a choice are the entries of the layout that name it, with what
the slots and the blocks hold there. The carrier and the snapshot are both
built from these pieces.
-/

namespace TokenStation.Responses

open Library Library.Json Library.Checked

namespace Items

/-- The piece of a choice that an entry of the layout names. -/
def pieceOf (s : Items) (choice : Nat) : ReplayLayout → Option Piece
  | .reasoning index blockIndex =>
      if index = choice then
        (Library.lookup (index, blockIndex) s.replayBlocks).map fun block => .part (replayPart block)
      else none
  | .text position =>
      (s.slots[position]?.filter (·.sourceIndex == choice)).map fun slot => .part (.text slot.text)
  | .tool position =>
      (s.slots[position]?.filter (·.sourceIndex == choice)).map fun slot => .call slot.call

/-- The turn of a choice. -/
def pieces (s : Items) (choice : Nat) : List Piece := s.replayLayout.filterMap (s.pieceOf choice)

/-- The message of a choice, from its pieces. -/
def turnMessage (s : Items) (choice : Nat) : Message :=
  ⟨.assistant,
    if (partsOf (s.pieces choice)).isEmpty then none else some (.parts (partsOf (s.pieces choice))),
    callsOf (s.pieces choice), none, none,
    if (Library.lookup choice s.replayCarriers).isSome then
      insertEntry layoutKey (.array (layoutOf 0 (s.pieces choice)))
        (insertEntry familyKey (.string claudeFamily) [])
    else []⟩

end Items

/-! ## The snapshot reads every entry -/

/-- The turn that has been laid out once its pieces are read. -/
def turnRead (pieces : List Piece) : TurnRead := ⟨partsOf pieces, callsOf pieces, layoutOf 0 pieces⟩

theorem turnRead_part (pieces : List Piece) (part : ContentPart) :
    (turnRead pieces).addPart part = turnRead (pieces ++ [.part part]) := by
  simp [turnRead, TurnRead.addPart, layoutOf_append, layoutOf, partsOf, callsOf]

theorem turnRead_call (pieces : List Piece) (call : ToolCall) :
    (turnRead pieces).addCall call = turnRead (pieces ++ [.call call]) := by
  simp [turnRead, TurnRead.addCall, layoutOf_append, layoutOf, partsOf, callsOf]

/-- The layout names slots and blocks that are there, under their kinds. -/
def Items.Readable (s : Items) : ReplayLayout → Prop
  | .reasoning index blockIndex =>
      (Library.lookup (index, blockIndex) s.replayBlocks).isSome = true
  | .text position => ∃ slot, s.slots[position]? = some slot ∧ slot.kind = .text
  | .tool position => ∃ slot, s.slots[position]? = some slot ∧ slot.kind = .tool

theorem InTurnOrder.readable {s : Items} (h : InTurnOrder s) {entry : ReplayLayout}
    (hentry : entry ∈ s.replayLayout) : s.Readable entry := by
  cases entry with
  | reasoning index blockIndex => exact (h.block index blockIndex).mp hentry
  | text position => exact (h.placed .text position (by decide)).mp hentry
  | tool position => exact (h.placed .tool position (by decide)).mp hentry

theorem layEntry_readable {s : Items} {entry : ReplayLayout} (h : s.Readable entry) (choice : Nat)
    (pieces : List Piece) :
    s.layEntry choice (turnRead pieces) entry =
      some (turnRead (pieces ++ (s.pieceOf choice entry).toList)) := by
  cases entry with
  | reasoning index blockIndex =>
      obtain ⟨block, hblock⟩ := Option.isSome_iff_exists.mp h
      simp only [Items.layEntry, Items.pieceOf, hblock]
      split
      · rw [Option.map_some, turnRead_part]
        rfl
      · simp
  | text position =>
      obtain ⟨slot, hslot, -⟩ := h
      simp only [Items.layEntry, Items.pieceOf, hslot, Option.map_some, Option.filter_some,
        beq_iff_eq]
      split
      · rw [turnRead_part]
        rfl
      · simp
  | tool position =>
      obtain ⟨slot, hslot, -⟩ := h
      simp only [Items.layEntry, Items.pieceOf, hslot, Option.map_some, Option.filter_some,
        beq_iff_eq]
      split
      · rw [turnRead_call]
        rfl
      · simp

theorem layEntry_foldlM {s : Items} (choice : Nat) {entries : List ReplayLayout}
    (h : ∀ entry ∈ entries, s.Readable entry) (pieces : List Piece) :
    entries.foldlM (s.layEntry choice) (turnRead pieces) =
      some (turnRead (pieces ++ entries.filterMap (s.pieceOf choice))) := by
  induction entries generalizing pieces with
  | nil => simp [pure]
  | cons entry entries ih =>
      rw [List.foldlM_cons, layEntry_readable (h entry List.mem_cons_self), Option.bind_eq_bind,
        Option.bind_some, ih fun e he => h e (List.mem_cons_of_mem _ he), List.append_assoc]
      congr 3
      cases hpiece : s.pieceOf choice entry with
      | none => simp [hpiece]
      | some piece => simp [hpiece]

/-- Every choice can be laid out, and its message holds its pieces. -/
theorem replayMessage_eq {s : Items} (h : InTurnOrder s) (choice : Nat) :
    s.replayMessage choice = some (s.turnMessage choice) := by
  have hread : s.replayLayout.foldlM (s.layEntry choice) ⟨[], [], []⟩ =
      some (turnRead (s.pieces choice)) := by
    have hall := layEntry_foldlM choice (fun entry hentry => h.readable hentry) []
    simpa [turnRead, partsOf, callsOf, layoutOf, Items.pieces] using hall
  rw [Items.replayMessage, hread]
  rfl

/-! ## The carrier reads the same entries -/

theorem replayPart_thinking {thinking signature : String} (h : signature ≠ "") :
    replayPart (.thinking thinking signature) = .thinking thinking (some signature) := by
  simp [replayPart, h]

/-- The blocks of a carrier are the blocks of the pieces. -/
theorem replayBlocksOf_pieces {s : Items} {choice ordinal : Nat} {entries : List ReplayLayout}
    {blocks : List ReasoningReplayBlock} (hread : ∀ entry ∈ entries, s.Readable entry)
    (h : s.replayBlocksOf choice ordinal entries = .ok blocks) :
    blocksOf ordinal (entries.filterMap (s.pieceOf choice)) = some blocks ∧
      ((partsOf (entries.filterMap (s.pieceOf choice))).countP (·.isText) = 0 ∨
        ordinal + (partsOf (entries.filterMap (s.pieceOf choice))).countP (·.isText) < 2 ^ 32) ∧
      ∀ call ∈ callsOf (entries.filterMap (s.pieceOf choice)), call.id ≠ "" := by
  induction entries generalizing ordinal blocks with
  | nil =>
      cases h
      exact ⟨rfl, .inl rfl, by simp [callsOf]⟩
  | cons entry entries ih =>
      have hentry := hread entry List.mem_cons_self
      have ih := fun ordinal blocks => @ih ordinal blocks fun e he =>
        hread e (List.mem_cons_of_mem _ he)
      have hskip : s.pieceOf choice entry = none →
          s.replayBlocksOf choice ordinal entries = .ok blocks →
          blocksOf ordinal ((entry :: entries).filterMap (s.pieceOf choice)) = some blocks ∧
            ((partsOf ((entry :: entries).filterMap (s.pieceOf choice))).countP (·.isText) = 0 ∨
              ordinal + (partsOf ((entry :: entries).filterMap (s.pieceOf choice))).countP
                (·.isText) < 2 ^ 32) ∧
            ∀ call ∈ callsOf ((entry :: entries).filterMap (s.pieceOf choice)), call.id ≠ "" := by
        intro hnone hrest
        rw [List.filterMap_cons_none hnone]
        exact ih ordinal blocks hrest
      cases entry with
      | reasoning index blockIndex =>
          obtain ⟨block, hblock⟩ := Option.isSome_iff_exists.mp hentry
          rw [Items.replayBlocksOf] at h
          split at h
          · rename_i hchoice
            have hpiece : s.pieceOf choice (.reasoning index blockIndex) =
                some (.part (replayPart block)) := by
              rw [Items.pieceOf, if_pos hchoice, hblock]
              rfl
            rw [List.filterMap_cons_some hpiece]
            rw [hblock] at h
            cases block with
            | thinking thinking signature =>
                simp only at h
                split at h
                · cases h
                · rename_i hsigned
                  obtain ⟨rest, hrest, rfl⟩ := map_eq_ok.mp h
                  obtain ⟨hblocks, htexts, hids⟩ := ih ordinal rest hrest
                  rw [replayPart_thinking hsigned]
                  exact ⟨by rw [blocksOf, hblocks]; rfl, htexts, hids⟩
            | redacted data =>
                simp only at h
                obtain ⟨rest, hrest, rfl⟩ := map_eq_ok.mp h
                obtain ⟨hblocks, htexts, hids⟩ := ih ordinal rest hrest
                exact ⟨by rw [replayPart, blocksOf, hblocks]; rfl, htexts, hids⟩
          · rename_i hchoice
            exact hskip (by rw [Items.pieceOf, if_neg hchoice]) h
      | text position =>
          obtain ⟨slot, hslot, hkind⟩ := hentry
          rw [Items.replayBlocksOf, hslot] at h
          simp only [Option.any_some, hkind, beq_self_eq_true, Bool.true_and, beq_iff_eq] at h
          split at h
          · rename_i hchoice
            have hpiece : s.pieceOf choice (.text position) = some (.part (.text slot.text)) := by
              simp [Items.pieceOf, hslot, Option.filter_some, hchoice]
            rw [List.filterMap_cons_some hpiece]
            split at h
            · obtain ⟨rest, hrest, rfl⟩ := map_eq_ok.mp h
              obtain ⟨hblocks, htexts, hids⟩ := ih (ordinal + 1) rest hrest
              refine ⟨by rw [blocksOf, hblocks]; rfl, .inr ?_, hids⟩
              have hcount : (partsOf (.part (.text slot.text) ::
                  entries.filterMap (s.pieceOf choice))).countP (·.isText) =
                  (partsOf (entries.filterMap (s.pieceOf choice))).countP (·.isText) + 1 :=
                List.countP_cons_of_pos rfl
              rw [hcount]
              omega
            · cases h
          · rename_i hchoice
            exact hskip (by simp [Items.pieceOf, hslot, Option.filter_some, hchoice]) h
      | tool position =>
          obtain ⟨slot, hslot, hkind⟩ := hentry
          rw [Items.replayBlocksOf, hslot] at h
          simp only [Option.filter_some, hkind, beq_self_eq_true, Bool.true_and, beq_iff_eq] at h
          by_cases hchoice : slot.sourceIndex = choice
          · have hpiece : s.pieceOf choice (.tool position) = some (.call slot.call) := by
              simp [Items.pieceOf, hslot, Option.filter_some, hchoice]
            rw [List.filterMap_cons_some hpiece]
            simp only [hchoice, if_true] at h
            split at h
            · cases h
            · rename_i hid
              obtain ⟨rest, hrest, rfl⟩ := map_eq_ok.mp h
              obtain ⟨hblocks, htexts, hids⟩ := ih ordinal rest hrest
              exact ⟨by rw [blocksOf, hblocks]; rfl, htexts, List.forall_mem_cons.mpr ⟨hid, hids⟩⟩
          · simp only [hchoice, if_false] at h
            exact hskip (by simp [Items.pieceOf, hslot, Option.filter_some, hchoice]) h

end TokenStation.Responses
