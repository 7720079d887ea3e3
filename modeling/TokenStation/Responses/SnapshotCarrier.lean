import TokenStation.Responses.Carrier
import TokenStation.Responses.DoneItems
import TokenStation.Responses.TurnReading

/-!
# The carriers of a snapshot

A completed stream puts one carrier on the reasoning of each choice that is
replayed, and leaves a snapshot whose messages are laid out. Reading the layout
of a message gives the carrier of its choice back.
-/

namespace TokenStation.Responses

open Library Library.Json Library.Checked Library.References

/-! ## Finished items -/

theorem pieces_finished (s : Items) (carriers : List (Nat × String)) (choice : Nat) :
    (s.finished carriers).pieces choice = s.pieces choice := by
  have hpiece : (s.finished carriers).pieceOf choice = s.pieceOf choice := by
    funext entry
    have hslot : ∀ (position : Nat) (f : Slot → Piece),
        (∀ slot, f (closing (fun _ => true) slot) = f slot) →
        ((s.finished carriers).slots[position]?.filter (·.sourceIndex == choice)).map f =
          (s.slots[position]?.filter (·.sourceIndex == choice)).map f := by
      intro position f hf
      simp only [Items.finished, List.getElem?_map]
      cases s.slots[position]? with
      | none => rfl
      | some slot =>
          simp only [Option.map_some, Option.filter_some, closing_source]
          split
          · exact congrArg some (hf slot)
          · rfl
    cases entry with
    | reasoning index blockIndex => rfl
    | text position => exact hslot position _ fun _ => rfl
    | tool position => exact hslot position _ fun _ => rfl
  rw [Items.pieces, hpiece]
  rfl

theorem InTurnOrder.finished {s : Items} (h : InTurnOrder s) (carriers : List (Nat × String)) :
    InTurnOrder (s.finished carriers) := by
  refine ⟨h.nodup, fun kind p hkind => (h.placed kind p hkind).trans ?_, h.block⟩
  simp only [Items.finished, List.getElem?_map]
  constructor
  · rintro ⟨slot, hslot, hslotKind⟩
    exact ⟨closing (fun _ => true) slot, by rw [hslot]; rfl, by rw [closing_kind, hslotKind]⟩
  · rintro ⟨slot, hslot, hslotKind⟩
    obtain ⟨old, hold, rfl⟩ := Option.map_eq_some_iff.mp hslot
    exact ⟨old, hold, by rwa [closing_kind] at hslotKind⟩

/-! ## Choices that are replayed have a block -/

theorem block_of_active (context : ResponsesContext) (map : ToolMap) {events : List StreamEvent}
    (h : (Items.start context map).AcceptsAll events) {i : Nat} :
    i ∈ ((Items.start context map).afterAll events).replayActive →
      ∃ blockIndex, (lookup (i, blockIndex)
        ((Items.start context map).afterAll events).replayBlocks).isSome = true := by
  have hboth := afterAll_induction (P := fun _ s => Seated s ∧ (i ∈ s.replayActive →
    ∃ blockIndex, (lookup (i, blockIndex) s.replayBlocks).isSome = true))
    ⟨seated_start context map, by simp [Items.start]⟩ ?_ events h
  · exact hboth.2
  · rintro - event t ⟨hseated, ht⟩ haccepts
    refine ⟨hseated.after event, fun hactive => ?_⟩
    have hstays : (∃ blockIndex, (lookup (i, blockIndex) t.replayBlocks).isSome = true) →
        ∃ blockIndex, (lookup (i, blockIndex) (t.after event).replayBlocks).isSome = true := by
      rintro ⟨blockIndex, hblock⟩
      rw [(after_tables hseated.orderly event).2.1]
      exact ⟨blockIndex, lookup_blocksAfter_isSome i blockIndex |>.mpr (.inl hblock)⟩
    rcases (mem_active_after haccepts i).mp hactive with hbefore | hnow
    · exact hstays (ht hbefore)
    · cases event with
      | thinkingSignatureDelta index blockIndex text =>
          obtain ⟨thinking, signature, hblock⟩ := haccepts
          simp only [StreamEvent.activates] at hnow
          split at hnow
          · cases hnow
          · obtain rfl := Option.some.inj hnow
            exact hstays ⟨blockIndex, by rw [hblock]; rfl⟩
      | redactedThinking index blockIndex data =>
          obtain rfl := Option.some.inj hnow
          rw [(after_tables hseated.orderly _).2.1]
          exact ⟨blockIndex, lookup_blocksAfter_isSome index blockIndex |>.mpr
            (.inr (List.mem_singleton_self _))⟩
      | delta | thinkingDelta | toolCallDelta | usage | finish | done | error => cases hnow

/-! ## One call for each choice -/

/-- Distinct entries of which one at most is kept leave one at most. -/
theorem length_filterMap_le_one {α β : Type} {f : α → Option β} {l : List α} (hnodup : l.Nodup)
    (h : ∀ a ∈ l, ∀ b ∈ l, (f a).isSome = true → (f b).isSome = true → a = b) :
    (l.filterMap f).length ≤ 1 := by
  induction l with
  | nil => simp
  | cons a l ih =>
      obtain ⟨hnotin, hnodup⟩ := List.nodup_cons.mp hnodup
      have hrest := ih hnodup fun x hx y hy =>
        h x (List.mem_cons_of_mem _ hx) y (List.mem_cons_of_mem _ hy)
      cases ha : f a with
      | none =>
          rw [List.filterMap_cons_none ha]
          exact hrest
      | some b =>
          have hnone : l.filterMap f = [] := by
            refine List.filterMap_eq_nil_iff.mpr fun x hx => ?_
            by_contra hsome
            have hsame := h a List.mem_cons_self x (List.mem_cons_of_mem _ hx) (by simp [ha])
              (Option.isSome_iff_ne_none.mpr hsome)
            exact hnotin (hsame ▸ hx)
          rw [List.filterMap_cons_some ha, hnone]
          simp

/-- The call of a piece. -/
def callOf : Piece → Option ToolCall
  | .part _ => none
  | .call call => some call

theorem callsOf_eq (pieces : List Piece) : callsOf pieces = pieces.filterMap callOf := rfl

/-- A choice has one tool call at most. -/
theorem length_callsOf_pieces {s : Items} (hs : Seated s) (h : InTurnOrder s) (choice : Nat) :
    (callsOf (s.pieces choice)).length ≤ 1 := by
  rw [callsOf_eq, Items.pieces, List.filterMap_filterMap]
  refine length_filterMap_le_one h.nodup fun a ha b hb hcallA hcallB => ?_
  have htool : ∀ entry ∈ s.replayLayout, ((s.pieceOf choice entry).bind callOf).isSome = true →
      ∃ position slot, entry = .tool position ∧ s.slots[position]? = some slot ∧
        slot.kind = .tool ∧ slot.sourceIndex = choice := by
    intro entry hentry hcall
    cases entry with
    | reasoning index blockIndex =>
        simp only [Items.pieceOf] at hcall
        split at hcall
        · cases hblock : lookup (index, blockIndex) s.replayBlocks <;> simp [hblock, callOf] at hcall
        · cases hcall
    | text position =>
        obtain ⟨slot, hslot, -⟩ := h.readable hentry
        simp only [Items.pieceOf, hslot, Option.filter_some] at hcall
        split at hcall <;> cases hcall
    | tool position =>
        obtain ⟨slot, hslot, hkind⟩ := h.readable hentry
        simp only [Items.pieceOf, hslot, Option.filter_some] at hcall
        split at hcall
        · rename_i hsource
          exact ⟨position, slot, rfl, hslot, hkind, by simpa using hsource⟩
        · cases hcall
  obtain ⟨p, first, rfl, hfirst, hkindFirst, hsourceFirst⟩ := htool a ha hcallA
  obtain ⟨q, second, rfl, hsecond, hkindSecond, hsourceSecond⟩ := htool b hb hcallB
  have hopen : ∀ (r : Nat) (slot : Slot), s.slots[r]? = some slot → slot.kind = .tool →
      slot.closed = false :=
    fun r slot hslot hkind => hs.open_of_kind hslot (by rw [hkind]; decide)
  rw [hs.unique hfirst hsecond (hkindFirst.trans hkindSecond.symm)
    (hsourceFirst.trans hsourceSecond.symm) (hopen p first hfirst hkindFirst)
    (hopen q second hsecond hkindSecond)]

/-! ## The message of a choice holds its pieces -/

theorem partsOf_pieces_ne_nil {s : Items} (h : InTurnOrder s) {choice blockIndex : Nat}
    (hblock : (lookup (choice, blockIndex) s.replayBlocks).isSome = true) :
    partsOf (s.pieces choice) ≠ [] := by
  obtain ⟨block, hsome⟩ := Option.isSome_iff_exists.mp hblock
  have hpiece : Piece.part (replayPart block) ∈ s.pieces choice := by
    refine List.mem_filterMap.mpr ⟨_, (h.block choice blockIndex).mpr hblock, ?_⟩
    rw [Items.pieceOf, if_pos rfl, hsome]
    rfl
  have hpart : replayPart block ∈ partsOf (s.pieces choice) :=
    List.mem_filterMap.mpr ⟨_, hpiece, rfl⟩
  exact List.ne_nil_of_mem hpart

theorem distinctIds_of_length {calls : List ToolCall} (hlength : calls.length ≤ 1)
    (hids : ∀ call ∈ calls, call.id ≠ "") : distinctIds calls := by
  refine ⟨hids, ?_⟩
  match calls, hlength with
  | [], _ => exact List.nodup_nil
  | [call], _ => exact List.nodup_singleton _

/-- The carrier of a choice is the carrier of its message. -/
theorem carrier_turnMessage (packages : Packages) {s : Items} (hs : Seated s) (h : InTurnOrder s)
    {choice blockIndex : Nat} {carrier : String}
    (hblock : (lookup (choice, blockIndex) s.replayBlocks).isSome = true)
    (hbuilt : s.buildReplayCarrier packages choice = .ok carrier)
    {carriers : List (Nat × String)} (hcarrier : lookup choice carriers = some carrier) :
    carrierFromMessage packages ((s.finished carriers).turnMessage choice) =
      .ok (some carrier) := by
  obtain ⟨blocks, hblocks, hencode⟩ := bind_eq_ok.mp hbuilt
  have hread : blocksOf 0 (s.pieces choice) = some blocks ∧
      ((partsOf (s.pieces choice)).countP (·.isText) = 0 ∨
        0 + (partsOf (s.pieces choice)).countP (·.isText) < 2 ^ 32) ∧
      ∀ call ∈ callsOf (s.pieces choice), call.id ≠ "" :=
    replayBlocksOf_pieces (fun _ he => h.readable he) hblocks
  obtain ⟨hpieces, htexts, hids⟩ := hread
  have hcarriers : lookup choice (s.finished carriers).replayCarriers = some carrier := hcarrier
  have hparts : (partsOf (s.pieces choice)).isEmpty = false := by
    simpa using partsOf_pieces_ne_nil h hblock
  have hmessage : (s.finished carriers).turnMessage choice =
      ⟨.assistant, some (.parts (partsOf (s.pieces choice))), callsOf (s.pieces choice), none, none,
        insertEntry layoutKey (.array (layoutOf 0 (s.pieces choice)))
          (insertEntry familyKey (.string claudeFamily) [])⟩ := by
    rw [Items.turnMessage, pieces_finished, hparts, hcarriers]
    rfl
  have hholds : Holds ((s.finished carriers).turnMessage choice) (s.pieces choice) := by
    rw [hmessage]
    exact ⟨rfl, List.Perm.refl _, distinctIds_of_length (length_callsOf_pieces hs h choice) hids⟩
  have hlaid := laid_of_holds hholds (by omega) hpieces
  have hlength : blocks.length ≤ maxBlocks := length_of_validate (encode_eq_ok hencode).1
  have hlayout : layoutCarrier packages ((s.finished carriers).turnMessage choice)
      (.string claudeFamily) (.array (layoutOf 0 (s.pieces choice))) = .ok carrier := by
    refine (layoutCarrier_eq_ok packages).mpr
      ⟨rfl, _, _, _, blocks, rfl, ?_, hlaid, hencode⟩
    rwa [length_layoutOf, ← length_blocksOf hpieces]
  have hfamily : lookup familyKey ((s.finished carriers).turnMessage choice).extensions =
      some (.string claudeFamily) := by
    rw [hmessage]
    rfl
  have hkey : lookup layoutKey ((s.finished carriers).turnMessage choice).extensions =
      some (.array (layoutOf 0 (s.pieces choice))) := by
    rw [hmessage]
    rfl
  rw [carrierFromMessage, hfamily, hkey]
  simp only [hlayout]
  rfl

/-! ## The snapshot of a run -/

theorem mapM_some {α β : Type} {f : α → Option β} {g : α → β} (h : ∀ a, f a = some (g a))
    (l : List α) : l.mapM f = some (l.map g) := by
  induction l with
  | nil => rfl
  | cons a l ih => simp [List.mapM_cons, h, ih]

theorem nodup_choiceIndexes (s : Items) : s.choiceIndexes.Nodup :=
  (List.perm_insertionSort _ _).nodup_iff.mpr (List.nodup_dedup _)

theorem mem_choiceIndexes {s : Items} {choice : Nat} :
    choice ∈ s.choiceIndexes ↔
      (∃ slot ∈ s.slots, slot.sourceIndex = choice) ∨ ∃ block ∈ s.replayBlocks, block.1.1 = choice := by
  rw [Items.choiceIndexes, (List.perm_insertionSort _ _).mem_iff, List.mem_dedup, List.mem_append,
    List.mem_map, List.mem_map]

theorem filter_eq_of_nodup {l : List Nat} (hnodup : l.Nodup) {a : Nat} (ha : a ∈ l) :
    l.filter (· == a) = [a] := by
  rw [List.filter_beq, List.count_eq_one_of_mem hnodup ha, List.replicate_one]

/-- A completed stream with carriers leaves the message of every choice. -/
theorem terminalResponse_replay {s : ResponsesSseState} (hcompleted : s.status = .completed)
    (horder : InTurnOrder s.toItems) (hcarriers : s.replayCarriers ≠ []) :
    s.terminalResponse =
      some (s.responseOf (s.choiceIndexes.map fun choice => (choice, s.turnMessage choice))) := by
  have hmessages : (s.choiceIndexes.mapM fun choice =>
      (s.replayMessage choice).map fun message => (choice, message)) =
        some (s.choiceIndexes.map fun choice => (choice, s.turnMessage choice)) :=
    mapM_some (fun choice => by rw [replayMessage_eq horder]; rfl) _
  have hnone : s.replayCarriers.isEmpty = false := by simpa using hcarriers
  rw [ResponsesSseState.terminalResponse, if_neg (by simp [hcompleted]),
    ResponsesSseState.replayTerminalResponse, hnone, hmessages]
  rfl

/-! ## The carrier on the reasoning -/

/-- A done frame of the item carries the encrypted content. -/
def Carries (frames : List ResponsesFrame) (q : Nat) (encrypted : String) : Prop :=
  ∃ item ∈ doneItems frames q, item.field "encrypted_content" = .string encrypted

theorem itemOf_reasoning (packages : Packages) (s : Items) {slot : Slot}
    (hkind : slot.kind = .reasoning) :
    (s.itemOf packages slot).field "encrypted_content" =
      match lookup slot.sourceIndex s.replayCarriers with
      | some carrier => .string carrier
      | none =>
          if s.context.renderLegacyEncryptedReasoning = true ∧ slot.signature ≠ "" then
            .string slot.signature
          else .null := by
  have hobject := (reasoningItem_id slot.id slot.text
    (if slot.signature = "" then none else some slot.signature) s.context).1
  rw [Items.itemOf, Items.item, hkind]
  cases hlookup : lookup slot.sourceIndex s.replayCarriers with
  | some carrier => simp [Except.toOption, Value.field, hobject]
  | none =>
      simp only [Except.toOption, Option.getD_some]
      unfold reasoningItem
      cases s.context.reasoning <;> cases s.context.renderLegacyEncryptedReasoning <;>
        by_cases hsigned : slot.signature = "" <;>
        simp [Value.field, lookup, hsigned]

/-- A choice that is replayed keeps a reasoning slot that is open. -/
theorem open_of_active (context : ResponsesContext) (map : ToolMap) {events : List StreamEvent}
    (h : (Items.start context map).AcceptsAll events) {i : Nat}
    (hactive : i ∈ ((Items.start context map).afterAll events).replayActive) :
    ∃ (q : Nat) (slot : Slot), ((Items.start context map).afterAll events).slots[q]? = some slot ∧
      slot.kind = .reasoning ∧ slot.sourceIndex = i ∧ slot.closed = false := by
  have hboth := afterAll_induction (P := fun _ s => Items.Orderly s ∧ (i ∈ s.replayActive →
    ∃ (q : Nat) (slot : Slot), s.slots[q]? = some slot ∧ slot.kind = .reasoning ∧
      slot.sourceIndex = i ∧ slot.closed = false))
    ⟨orderly_start context map, by simp [Items.start]⟩ ?_ events h
  · exact hboth.2 hactive
  · rintro - event t ⟨hs, ht⟩ haccepts
    refine ⟨orderly_after hs event, fun hactive => ?_⟩
    cases hitem : event.item with
    | none =>
        rw [after_of_item_none hitem] at hactive ⊢
        exact ht hactive
    | some item =>
        obtain ⟨kind, index⟩ := item
        have hplace : kind = .reasoning → index = i → ∃ (q : Nat) (slot : Slot),
            (t.after event).slots[q]? = some slot ∧ slot.kind = .reasoning ∧
              slot.sourceIndex = i ∧ slot.closed = false := by
          rintro rfl rfl
          obtain ⟨slot, hslot, hkind, hsource⟩ := after_slot_place hs hitem
          refine ⟨_, slot, hslot, hkind, hsource, ?_⟩
          rcases after_slot_cases hs hitem hslot with
            ⟨hne, -⟩ | ⟨-, -, old, -, -, -, hopen, rfl⟩ | ⟨-, -, rfl⟩
          · exact absurd rfl hne
          · rw [(touch_place t event old).2.2.2, hopen]
          · rw [(touch_place t event _).2.2.2]
            rfl
        rcases (mem_active_after haccepts i).mp hactive with hbefore | hnow
        · obtain ⟨q, slot, hslot, hkind, hsource, hopen⟩ := ht hbefore
          by_cases hq : q = t.place kind index
          · subst hq
            obtain ⟨-, hkind', hsource'⟩ := slot_before hs hslot
            exact hplace (hkind'.symm.trans hkind) (hsource'.symm.trans hsource)
          · have hkept : t.endedBy kind index slot = false := by
              by_contra hended
              simp only [Items.endedBy, Items.endsRaw, Items.hasReplay, isReasoningOf,
                Bool.not_eq_false, Bool.and_eq_true, beq_iff_eq] at hended
              have hidle := hended.1.2.1
              rw [← hended.2.2, hsource] at hidle
              simp [hbefore] at hidle
            refine ⟨q, slot, ?_, hkind, hsource, hopen⟩
            rw [(after_slots hs hitem).1, List.getElem?_modify, List.getElem?_map,
              placed_other t hq, hslot]
            simp [Ne.symm hq, closing_id hkept]
        · cases event with
          | thinkingSignatureDelta j blockIndex text =>
              cases hitem
              simp only [StreamEvent.activates] at hnow
              split at hnow
              · cases hnow
              · exact hplace rfl (Option.some.inj hnow)
          | redactedThinking j blockIndex data =>
              cases hitem
              exact hplace rfl (Option.some.inj hnow)
          | delta | thinkingDelta | toolCallDelta | usage | finish | done | error => cases hnow

/-- The done frames of a choice's reasoning carry its carrier and no other
encrypted content. -/
theorem finished_carries (packages : Packages) {context : ResponsesContext} {map : ToolMap}
    {live : List StreamEvent} {frames : List ResponsesFrame} {s : Items} {output : List Value}
    (h : Finished packages context map live frames s output) {choice : Nat} {carrier : String}
    (hactive : choice ∈ ((Items.start context map).afterAll live).replayActive)
    (hcarrier : lookup choice s.replayCarriers = some carrier) :
    (∃ (q : Nat) (slot : Slot), s.slots[q]? = some slot ∧ slot.kind = .reasoning ∧
        slot.sourceIndex = choice ∧ Carries frames q carrier) ∧
      ∀ (q : Nat) (slot : Slot) (encrypted : String), s.slots[q]? = some slot →
        slot.kind = .reasoning → slot.sourceIndex = choice → Carries frames q encrypted →
        encrypted = carrier := by
  obtain ⟨carriers, -, hitems⟩ := h.items
  have hsignatures := signaturesKept_afterAll context map h.accepted
  have hnone : lookup choice ((Items.start context map).afterAll live).replayCarriers = none := by
    have hcarriers : ((Items.start context map).afterAll live).replayCarriers = [] :=
      afterAll_carriers (orderly_start context map) live
    rw [hcarriers]
    rfl
  have hslot : ∀ (q : Nat) (slot : Slot), s.slots[q]? = some slot →
      ∃ old, ((Items.start context map).afterAll live).slots[q]? = some old ∧
        slot = closing (fun _ => true) old := by
    intro q slot hslot
    rw [hitems, Items.finished, List.getElem?_map] at hslot
    obtain ⟨old, hold, rfl⟩ := Option.map_eq_some_iff.mp hslot
    exact ⟨old, hold, rfl⟩
  constructor
  · obtain ⟨q, slot, hget, hkind, hsource, hopen⟩ := open_of_active context map h.accepted hactive
    refine ⟨q, closing (fun _ => true) slot, ?_, by rw [closing_kind, hkind],
      by rw [closing_source, hsource], s.itemOf packages slot, ?_, ?_⟩
    · rw [hitems, Items.finished, List.getElem?_map, hget]
      rfl
    · rw [finished_doneItems packages h q, hget]
      simp [hopen]
    · rw [itemOf_reasoning packages s hkind, hsource, hcarrier]
  · rintro q slot encrypted hget hkind hsource ⟨item, hitem, hencrypted⟩
    obtain ⟨old, hold, rfl⟩ := hslot q slot hget
    rw [closing_kind] at hkind
    rw [closing_source] at hsource
    rw [finished_doneItems packages h q, hold, Option.map_some, Option.getD_some,
      List.mem_singleton] at hitem
    subst hitem
    cases hclosed : old.closed with
    | true =>
        rw [hclosed, if_pos rfl, itemOf_reasoning packages _ hkind, hsource, hnone,
          hsignatures.closed q old hold hclosed] at hencrypted
        simp at hencrypted
    | false =>
        rw [hclosed, if_neg (by decide), itemOf_reasoning packages s hkind, hsource, hcarrier]
          at hencrypted
        simpa using hencrypted.symm

/-! ## Whole streams -/

/-- The snapshot of a completed stream gives, for each choice with a carrier,
exactly the carrier that the stream put on the reasoning of the choice. -/
theorem snapshot_carrier_of_stream (packages : Packages) (context : ResponsesContext)
    (batches : List (List StreamEvent)) {choice : Nat} {carrier : String} :
    let run := responsesCalls packages (.new context) batches
    run.2.status = .completed → lookup choice run.2.replayCarriers = some carrier →
      (∃ response entry, run.2.terminalResponse = some response ∧
        response.choices.filter (·.index == choice) = [entry] ∧
        carrierFromMessage packages entry.message = .ok (some carrier)) ∧
      (∃ (q : Nat) (slot : Slot), run.2.slots[q]? = some slot ∧ slot.kind = .reasoning ∧
        slot.sourceIndex = choice ∧ Carries (delivered run.1) q carrier) ∧
      ∀ (q : Nat) (slot : Slot) (encrypted : String), run.2.slots[q]? = some slot →
        slot.kind = .reasoning → slot.sourceIndex = choice →
        Carries (delivered run.1) q encrypted → encrypted = carrier := by
  intro run hcompleted hcarrier
  obtain ⟨map, output, hfinished⟩ := completed_run packages context batches hcompleted
  obtain ⟨carriers, hbuilt, hitems⟩ := hfinished.items
  have hseated := seated_afterAll (seated_start context map) (liveEvents batches)
  have horder := inTurnOrder_afterAll context map hfinished.accepted
  have hcarriers : run.2.replayCarriers = carriers := by
    rw [hitems]
    rfl
  rw [hcarriers] at hcarrier
  have hactive : choice ∈ ((Items.start context map).afterAll (liveEvents batches)).replayActive ∧
      ((Items.start context map).afterAll (liveEvents batches)).buildReplayCarrier packages choice =
        .ok carrier := by
    have hchoice := hbuilt choice
    split at hchoice
    · rename_i hmem
      obtain ⟨built, hok, hlookup⟩ := hchoice
      rw [hcarrier] at hlookup
      exact ⟨hmem, Option.some.inj hlookup ▸ hok⟩
    · rw [hcarrier, afterAll_carriers (orderly_start context map)] at hchoice
      cases hchoice
  obtain ⟨blockIndex, hblock⟩ := block_of_active context map hfinished.accepted hactive.1
  refine ⟨?_, finished_carries packages hfinished hactive.1 (hcarriers ▸ hcarrier)⟩
  have hfinal : InTurnOrder run.2.toItems := hitems ▸ horder.finished carriers
  have hnonempty : run.2.replayCarriers ≠ [] := by
    rw [hcarriers]
    rintro rfl
    cases hcarrier
  have hmem : choice ∈ run.2.choiceIndexes := by
    obtain ⟨block, hsome⟩ := Option.isSome_iff_exists.mp hblock
    refine mem_choiceIndexes.mpr (.inr ⟨((choice, blockIndex), block), ?_, rfl⟩)
    rw [hitems]
    exact mem_of_lookup hsome
  refine ⟨_, ⟨choice, run.2.turnMessage choice, run.2.finish, none⟩,
    terminalResponse_replay hcompleted hfinal hnonempty, ?_, ?_⟩
  · simp only [ResponsesSseState.responseOf, List.map_map, List.filter_map]
    have hfilter : run.2.choiceIndexes.filter (fun c => c == choice) = [choice] :=
      filter_eq_of_nodup (nodup_choiceIndexes _) hmem
    exact congrArg (List.map _) hfilter
  · rw [hitems]
    exact carrier_turnMessage packages hseated horder hblock hactive.2 hcarrier

/-- A turn of signed thinking, text and a call. -/
def signedTurn : List StreamEvent :=
  [.thinkingDelta 0 0 "t", .thinkingSignatureDelta 0 0 "s", .delta 0 "a",
    .toolCallDelta 0 (some "c") (some "f") "\x7b\x7d" none, .done none none]

theorem snapshot_carrier_signed_turn :
    (responsesCalls .textual (.new toollessContext) [signedTurn]).2.status = .completed ∧
      ∃ carrier response entry,
        lookup 0 (responsesCalls .textual (.new toollessContext) [signedTurn]).2.replayCarriers =
          some carrier ∧
        (responsesCalls .textual (.new toollessContext) [signedTurn]).2.terminalResponse =
          some response ∧
        response.choices.filter (·.index == 0) = [entry] ∧
        carrierFromMessage .textual entry.message = .ok (some carrier) := by
  have hcompleted :
      (responsesCalls .textual (.new toollessContext) [signedTurn]).2.status = .completed := by
    decide +kernel
  have hsome : (lookup 0 (responsesCalls .textual (.new toollessContext)
      [signedTurn]).2.replayCarriers).isSome = true := by
    decide +kernel
  obtain ⟨carrier, hcarrier⟩ := Option.isSome_iff_exists.mp hsome
  obtain ⟨⟨response, entry, hresponse, hentry, hread⟩, -⟩ :=
    snapshot_carrier_of_stream .textual toollessContext [signedTurn] hcompleted hcarrier
  exact ⟨hcompleted, carrier, response, entry, hcarrier, hresponse, hentry, hread⟩

end TokenStation.Responses
