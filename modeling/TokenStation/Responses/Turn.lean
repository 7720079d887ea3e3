import TokenStation.Responses.MessageCarrier

/-!
# Turns in order

A turn is a list of pieces: the parts of a message and its tool calls, in the
order the model gave them. A message holds the parts and the calls apart and a
layout that says how they interleave.
-/

namespace TokenStation.Responses

open Library Library.Json Library.Checked Library.References

/-- A part or a tool call of a turn. -/
inductive Piece where
  | part (part : ContentPart)
  | call (call : ToolCall)

def partsOf (pieces : List Piece) : List ContentPart :=
  pieces.filterMap fun
    | .part part => some part
    | .call _ => none

def callsOf (pieces : List Piece) : List ToolCall :=
  pieces.filterMap fun
    | .part _ => none
    | .call call => some call

/-- The entry of a layout that names a part. -/
def contentEntry (ordinal : Nat) : Value :=
  .obj [("kind", .string "content"), ("ordinal", .nat ordinal)]

/-- The entry of a layout that names a tool call. -/
def toolCallEntry (callId : String) : Value :=
  .obj [("kind", .string "tool_call"), ("call_id", .string callId)]

/-- The layout of a turn whose first part has the number `ordinal`. -/
def layoutOf (ordinal : Nat) : List Piece → List Value
  | [] => []
  | .part _ :: pieces => contentEntry ordinal :: layoutOf (ordinal + 1) pieces
  | .call call :: pieces => toolCallEntry call.id :: layoutOf ordinal pieces

/-- The blocks of a turn whose first text has the number `ordinal`, when every
part can be replayed. -/
def blocksOf (ordinal : Nat) : List Piece → Option (List ReasoningReplayBlock)
  | [] => some []
  | .part (.thinking thinking (some signature)) :: pieces =>
      (blocksOf ordinal pieces).map (.thinking thinking signature :: ·)
  | .part (.redactedThinking data) :: pieces =>
      (blocksOf ordinal pieces).map (.redactedThinking data :: ·)
  | .part (.text _) :: pieces => (blocksOf (ordinal + 1) pieces).map (.textRef ordinal :: ·)
  | .part _ :: _ => none
  | .call call :: pieces => (blocksOf ordinal pieces).map (.toolCallRef call.id :: ·)

/-- The places of the pieces of a turn, among parts counted from `ordinal` and
the calls of the message. -/
def refsOf (calls : List ToolCall) (ordinal : Nat) : List Piece → List LayoutRef
  | [] => []
  | .part _ :: pieces => .content ordinal :: refsOf calls (ordinal + 1) pieces
  | .call call :: pieces =>
      .toolCall (calls.findIdx (·.id == call.id)) :: refsOf calls ordinal pieces

theorem length_layoutOf (ordinal : Nat) (pieces : List Piece) :
    (layoutOf ordinal pieces).length = pieces.length := by
  induction pieces generalizing ordinal with
  | nil => rfl
  | cons piece pieces ih => cases piece <;> simp [layoutOf, ih]

/-- Each piece of a turn that can be replayed gives one block. -/
theorem length_blocksOf {ordinal : Nat} {pieces : List Piece} {blocks : List ReasoningReplayBlock}
    (h : blocksOf ordinal pieces = some blocks) : blocks.length = pieces.length := by
  induction pieces generalizing ordinal blocks with
  | nil =>
      cases h
      rfl
  | cons piece pieces ih =>
      cases piece with
      | call call =>
          obtain ⟨rest, hrest, rfl⟩ := Option.map_eq_some_iff.mp h
          simp [ih hrest]
      | part part =>
          cases part with
          | thinking thinking signature =>
              cases signature with
              | none => cases h
              | some signature =>
                  obtain ⟨rest, hrest, rfl⟩ := Option.map_eq_some_iff.mp h
                  simp [ih hrest]
          | redactedThinking | text =>
              obtain ⟨rest, hrest, rfl⟩ := Option.map_eq_some_iff.mp h
              simp [ih hrest]
          | imageUrl | unknown => cases h

theorem layoutOf_append (ordinal : Nat) (pieces more : List Piece) :
    layoutOf ordinal (pieces ++ more) =
      layoutOf ordinal pieces ++ layoutOf (ordinal + (partsOf pieces).length) more := by
  induction pieces generalizing ordinal with
  | nil => simp [layoutOf, partsOf]
  | cons piece pieces ih =>
      cases piece with
      | part part =>
          simp only [List.cons_append, layoutOf, ih, partsOf, List.filterMap_cons, List.length_cons]
          congr 3
          omega
      | call call => simp only [List.cons_append, layoutOf, ih, partsOf, List.filterMap_cons]

/-- The message holds the pieces of a turn: their parts in order and their
calls under distinct ids. -/
structure Holds (message : Message) (pieces : List Piece) : Prop where
  content : message.content = some (.parts (partsOf pieces))
  calls : (callsOf pieces).Perm message.toolCalls
  ids : distinctIds message.toolCalls

/-! ## Reading a turn back -/

theorem findIdx_of_mem {calls : List ToolCall} (hids : (calls.map (·.id)).Nodup) {call : ToolCall}
    {i : Nat} (h : calls[i]? = some call) : calls.findIdx? (·.id == call.id) = some i ∧
      calls.findIdx (·.id == call.id) = i := by
  obtain ⟨hlt, rfl⟩ := List.getElem?_eq_some_iff.mp h
  have hfound : calls.findIdx? (·.id == calls[i].id) = some i := by
    refine List.findIdx?_eq_some_iff_getElem.mpr ⟨hlt, by simp, fun j hj => ?_⟩
    intro hsame
    have hshort : j < (calls.map (·.id)).length := by simp; omega
    have hlong : i < (calls.map (·.id)).length := by simpa
    have hid : (calls.map (·.id))[j] = (calls.map (·.id))[i] := by
      simpa using hsame
    have heq := (List.Nodup.getElem_inj_iff hids).mp hid
    omega
  exact ⟨hfound, (List.findIdx?_eq_some_iff_findIdx_eq.mp hfound).2⟩

theorem layoutRef_content (calls : List ToolCall) (ordinal : Nat) :
    layoutRef calls (contentEntry ordinal) = some (.content ordinal) := by
  simp [layoutRef, contentEntry, Value.field, lookup]

theorem layoutRef_toolCall {calls : List ToolCall} (hids : (calls.map (·.id)).Nodup)
    {call : ToolCall} (h : call ∈ calls) :
    layoutRef calls (toolCallEntry call.id) = some (.toolCall (calls.findIdx (·.id == call.id))) := by
  obtain ⟨i, hi⟩ := List.mem_iff_getElem?.mp h
  obtain ⟨hfound, hindex⟩ := findIdx_of_mem hids hi
  simp [layoutRef, toolCallEntry, Value.field, lookup, hfound, hindex]

/-- The layout of a turn names its pieces. -/
theorem layoutOf_refs {calls : List ToolCall} (hids : (calls.map (·.id)).Nodup) (ordinal : Nat)
    {pieces : List Piece} (h : ∀ call ∈ callsOf pieces, call ∈ calls) :
    List.Forall₂ (fun entry ref => layoutRef calls entry = some ref) (layoutOf ordinal pieces)
      (refsOf calls ordinal pieces) := by
  induction pieces generalizing ordinal with
  | nil => exact .nil
  | cons piece pieces ih =>
      cases piece with
      | part part => exact .cons (layoutRef_content calls ordinal) (ih (ordinal + 1) h)
      | call call =>
          have h : ∀ c ∈ call :: callsOf pieces, c ∈ calls := h
          exact .cons (layoutRef_toolCall hids (h call List.mem_cons_self))
            (ih ordinal fun c hc => h c (List.mem_cons_of_mem _ hc))

/-- The parts of a turn are named in order. -/
theorem contentRefs_refsOf (calls : List ToolCall) (ordinal : Nat) (pieces : List Piece) :
    contentRefs (refsOf calls ordinal pieces) = List.range' ordinal (partsOf pieces).length := by
  induction pieces generalizing ordinal with
  | nil => rfl
  | cons piece pieces ih =>
      cases piece with
      | part part =>
          have hnext := ih (ordinal + 1)
          simp only [contentRefs, refsOf, List.filterMap_cons, partsOf, List.length_cons,
            List.range'_succ] at hnext ⊢
          rw [hnext]
      | call call => exact ih ordinal

theorem toolRefs_refsOf (calls : List ToolCall) (ordinal : Nat) (pieces : List Piece) :
    toolRefs (refsOf calls ordinal pieces) =
      (callsOf pieces).map fun call => calls.findIdx (·.id == call.id) := by
  induction pieces generalizing ordinal with
  | nil => rfl
  | cons piece pieces ih =>
      cases piece with
      | part part => exact ih (ordinal + 1)
      | call call => exact congrArg _ (ih ordinal)

/-- Calls under distinct ids are found at their own places. -/
theorem map_findIdx {calls : List ToolCall} (hids : (calls.map (·.id)).Nodup) :
    calls.map (fun call => calls.findIdx (·.id == call.id)) = List.range calls.length := by
  apply List.ext_getElem?
  intro i
  rw [List.getElem?_map]
  cases h : calls[i]? with
  | none =>
      have hge : calls.length ≤ i := List.getElem?_eq_none_iff.mp h
      rw [List.getElem?_eq_none (by simpa using hge)]
      rfl
  | some call =>
      have hlt := (List.getElem?_eq_some_iff.mp h).1
      rw [Option.map_some, (findIdx_of_mem hids h).2, List.getElem?_range hlt]

/-- The blocks of a turn are the ones its layout leads to. -/
theorem blocksOf_refs {calls : List ToolCall} (hids : (calls.map (·.id)).Nodup)
    {parts before : List ContentPart} {pieces : List Piece} {blocks : List ReasoningReplayBlock}
    (hparts : parts = before ++ partsOf pieces) (hcalls : ∀ call ∈ callsOf pieces, call ∈ calls)
    (h : blocksOf (before.countP (·.isText)) pieces = some blocks) :
    List.Forall₂ (fun ref block => LayoutRef.block parts calls ref = some block)
      (refsOf calls before.length pieces) blocks := by
  induction pieces generalizing before blocks with
  | nil =>
      cases h
      exact .nil
  | cons piece pieces ih =>
      cases piece with
      | call call =>
          obtain ⟨rest, hrest, rfl⟩ := Option.map_eq_some_iff.mp h
          have hcalls : ∀ c ∈ call :: callsOf pieces, c ∈ calls := hcalls
          refine .cons ?_ (ih hparts (fun c hc => hcalls c (List.mem_cons_of_mem _ hc)) hrest)
          obtain ⟨i, hi⟩ := List.mem_iff_getElem?.mp (hcalls call List.mem_cons_self)
          rw [(findIdx_of_mem hids hi).2, LayoutRef.block, hi]
          rfl
      | part part =>
          have hsplit : parts = (before ++ [part]) ++ partsOf pieces := by
            rw [hparts, List.append_assoc]
            rfl
          have hhere : parts[before.length]? = some part := by simp [hparts, partsOf]
          have htake : parts.take before.length = before := by simp [hparts]
          have hnext := fun rest => @ih (before ++ [part]) rest hsplit hcalls
          simp only [List.length_append, List.length_singleton, List.countP_append] at hnext
          cases part with
          | thinking thinking signature =>
              cases signature with
              | none => cases h
              | some signature =>
                  obtain ⟨rest, hrest, rfl⟩ := Option.map_eq_some_iff.mp h
                  exact .cons (by simp [LayoutRef.block, hhere])
                    (hnext rest (by simpa [ContentPart.isText, ContentPart.asText] using hrest))
          | redactedThinking data =>
              obtain ⟨rest, hrest, rfl⟩ := Option.map_eq_some_iff.mp h
              exact .cons (by simp [LayoutRef.block, hhere])
                (hnext rest (by simpa [ContentPart.isText, ContentPart.asText] using hrest))
          | text text =>
              obtain ⟨rest, hrest, rfl⟩ := Option.map_eq_some_iff.mp h
              refine .cons (by simp [LayoutRef.block, hhere, htake]) (hnext rest ?_)
              have htext : (ContentPart.text text).isText = true := rfl
              simpa [htext] using hrest
          | imageUrl | unknown => cases h

/-- A message that holds a turn is laid out by the layout of the turn. -/
theorem laid_of_holds {message : Message} {pieces : List Piece}
    {blocks : List ReasoningReplayBlock} (hholds : Holds message pieces)
    (htexts : (partsOf pieces).countP (·.isText) < 2 ^ 32) (hblocks : blocksOf 0 pieces = some blocks) :
    Laid message (layoutOf 0 pieces) (partsOf pieces) (refsOf message.toolCalls 0 pieces) blocks := by
  have hmem : ∀ call ∈ callsOf pieces, call ∈ message.toolCalls :=
    fun call hcall => hholds.calls.mem_iff.mp hcall
  refine ⟨hholds.content, htexts, hholds.ids, layoutOf_refs hholds.ids.2 0 hmem,
    @blocksOf_refs _ hholds.ids.2 _ [] _ _ rfl hmem hblocks, ?_, ?_⟩
  · rw [contentRefs_refsOf, ← List.range_eq_range']
    exact List.Perm.refl _
  · rw [Once, toolRefs_refsOf, ← map_findIdx hholds.ids.2]
    exact hholds.calls.map _

end TokenStation.Responses
