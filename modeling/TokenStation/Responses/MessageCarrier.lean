import TokenStation.Library.References
import TokenStation.Responses.Conversation
import TokenStation.Responses.Replay

/-!
# The carrier of a message

A message that holds a signed turn names the order of its parts and tool calls
in a layout. Reading the layout gives the blocks of the carrier, with each text
under its place among the texts.
-/

namespace TokenStation.Responses

open Library Library.Json Library.Checked Library.References

def familyKey : String := "reasoning_replay_protocol_family"

def layoutKey : String := "reasoning_replay_block_layout"

/-- The place of each text among the texts. -/
def textOrdinals (next : Nat) : List ContentPart → Except CodecError (List (Option Nat))
  | [] => .ok []
  | part :: parts =>
      if part.isText then
        if next + 1 < 2 ^ 32 then (textOrdinals (next + 1) parts).map (some next :: ·)
        else .error replayInvalid
      else (textOrdinals next parts).map (none :: ·)

/-- What has been read of a layout. -/
structure LayoutRead where
  partRefs : List Nat
  toolRefs : List Nat
  blocks : List ReasoningReplayBlock

/-- Count one more reference, in a byte. -/
def countRef (counts : List Nat) (i : Nat) : Except CodecError (List Nat) :=
  match counts[i]? with
  | some n => if n < 255 then .ok (bump counts i) else .error replayInvalid
  | none => .error replayInvalid

/-- The block of a part. -/
def blockOfPart (ordinals : List (Option Nat)) (parts : List ContentPart) (ordinal : Nat) :
    Except CodecError ReasoningReplayBlock :=
  match parts[ordinal]? with
  | some (.thinking thinking (some signature)) => .ok (.thinking thinking signature)
  | some (.redactedThinking data) => .ok (.redactedThinking data)
  | some (.text _) =>
      match ordinals[ordinal]? with
      | some (some n) => .ok (.textRef n)
      | _ => .error replayInvalid
  | _ => .error replayInvalid

/-- One entry of a layout. -/
def readLayoutEntry (ordinals : List (Option Nat)) (parts : List ContentPart)
    (calls : List ToolCall) (read : LayoutRead) (entry : Value) : Except CodecError LayoutRead :=
  match (entry.field "kind").asStr with
  | some "content" =>
      match (entry.field "ordinal").asU64 with
      | none => .error replayInvalid
      | some ordinal => do
          let partRefs ← countRef read.partRefs ordinal
          let block ← blockOfPart ordinals parts ordinal
          pure { read with partRefs, blocks := read.blocks ++ [block] }
  | some "tool_call" =>
      match (entry.field "call_id").asStr with
      | none => .error replayInvalid
      | some callId =>
          match calls.findIdx? (·.id == callId) with
          | none => .error replayInvalid
          | some index => do
              let toolRefs ← countRef read.toolRefs index
              pure { read with toolRefs, blocks := read.blocks ++ [.toolCallRef callId] }
  | _ => .error replayInvalid

/-- Every id is there and new. -/
def distinctIds (calls : List ToolCall) : Prop :=
  (∀ call ∈ calls, call.id ≠ "") ∧ (calls.map (·.id)).Nodup

instance (calls : List ToolCall) : Decidable (distinctIds calls) :=
  inferInstanceAs (Decidable (_ ∧ _))

section

variable (packages : Packages)

/-- The carrier of a message with a layout. -/
def layoutCarrier (message : Message) (family layout : Value) : Except CodecError String :=
  if family.asStr ≠ some claudeFamily then .error replayInvalid
  else
    match layout.asArray, message.content with
    | some layout, some (.parts parts) =>
        if layout.length > maxBlocks then .error replayInvalid
        else do
          let ordinals ← textOrdinals 0 parts
          refuse (¬distinctIds message.toolCalls) replayInvalid
          let read ← layout.foldlM (readLayoutEntry ordinals parts message.toolCalls)
            ⟨List.replicate parts.length 0, List.replicate message.toolCalls.length 0, []⟩
          refuse (¬((∀ c ∈ read.partRefs, c = 1) ∧ ∀ c ∈ read.toolRefs, c = 1)) replayInvalid
          encodeReasoningReplayCarrier packages read.blocks
    | _, _ => .error replayInvalid

def carrierFromMessage (message : Message) : Except CodecError (Option String) :=
  match lookup familyKey message.extensions, lookup layoutKey message.extensions with
  | some family, some layout => (layoutCarrier packages message family layout).map some
  | none, none => .ok none
  | _, _ => .error replayInvalid

end

/-! ## What a layout says -/

/-- A place an entry of a layout refers to. -/
inductive LayoutRef where
  | content (ordinal : Nat)
  | toolCall (index : Nat)
deriving DecidableEq, Repr

/-- The place an entry refers to. -/
def layoutRef (calls : List ToolCall) (entry : Value) : Option LayoutRef :=
  match (entry.field "kind").asStr with
  | some "content" => (entry.field "ordinal").asU64.map .content
  | some "tool_call" =>
      ((entry.field "call_id").asStr.bind fun callId =>
        calls.findIdx? (·.id == callId)).map .toolCall
  | _ => none

def contentRefs (refs : List LayoutRef) : List Nat :=
  refs.filterMap fun
    | .content ordinal => some ordinal
    | .toolCall _ => none

def toolRefs (refs : List LayoutRef) : List Nat :=
  refs.filterMap fun
    | .content _ => none
    | .toolCall index => some index

/-- The block at a place. -/
def LayoutRef.block (parts : List ContentPart) (calls : List ToolCall) :
    LayoutRef → Option ReasoningReplayBlock
  | .content ordinal =>
      match parts[ordinal]? with
      | some (.thinking thinking (some signature)) => some (.thinking thinking signature)
      | some (.redactedThinking data) => some (.redactedThinking data)
      | some (.text _) => some (.textRef ((parts.take ordinal).countP (·.isText)))
      | _ => none
  | .toolCall index => (calls[index]?).map fun call => .toolCallRef call.id

@[simp] theorem contentRefs_append (refs more : List LayoutRef) :
    contentRefs (refs ++ more) = contentRefs refs ++ contentRefs more := by
  simp [contentRefs]

@[simp] theorem toolRefs_append (refs more : List LayoutRef) :
    toolRefs (refs ++ more) = toolRefs refs ++ toolRefs more := by
  simp [toolRefs]

/-- Texts are numbered unless there are too many. -/
theorem textOrdinals_eq_ok {next : Nat} {parts : List ContentPart} :
    (∃ ordinals, textOrdinals next parts = .ok ordinals) ↔
      parts.countP (·.isText) = 0 ∨ next + parts.countP (·.isText) < 2 ^ 32 := by
  induction parts generalizing next with
  | nil => simp [textOrdinals]
  | cons part parts ih =>
      cases htext : part.isText with
      | false =>
          rw [List.countP_cons_of_neg (by simp [htext]), ← ih, textOrdinals, htext]
          simp [map_eq_ok]
      | true =>
          rw [List.countP_cons_of_pos (by simp [htext]), textOrdinals, htext, if_pos rfl]
          by_cases hnext : next + 1 < 2 ^ 32
          · have hrest : (∃ ordinals, (textOrdinals (next + 1) parts).map (some next :: ·) =
                .ok ordinals) ↔ ∃ ordinals, textOrdinals (next + 1) parts = .ok ordinals := by
              simp [map_eq_ok]
            rw [if_pos hnext, hrest, ih]
            omega
          · rw [if_neg hnext]
            simp only [reduceCtorEq, exists_false, false_iff, false_or]
            omega

/-- Each text is numbered by the texts before it. -/
theorem textOrdinals_get {next : Nat} {parts : List ContentPart} {ordinals : List (Option Nat)}
    (h : textOrdinals next parts = .ok ordinals) (k : Nat) :
    ordinals[k]? = (parts[k]?).map fun part =>
      if part.isText then some (next + (parts.take k).countP (·.isText)) else none := by
  induction parts generalizing next ordinals k with
  | nil =>
      cases h
      simp
  | cons part parts ih =>
      cases htext : part.isText with
      | false =>
          rw [textOrdinals, htext] at h
          obtain ⟨rest, hrest, rfl⟩ := map_eq_ok.mp h
          cases k with
          | zero => simp [htext]
          | succ k =>
              simpa [htext] using ih hrest k
      | true =>
          rw [textOrdinals, htext, if_pos rfl] at h
          split at h
          · obtain ⟨rest, hrest, rfl⟩ := map_eq_ok.mp h
            cases k with
            | zero => simp [htext]
            | succ k =>
                have hnext := ih hrest k
                simp only [List.getElem?_cons_succ, List.take_succ_cons, hnext]
                rw [List.countP_cons_of_pos (by simp [htext])]
                simp only [Nat.add_comm, Nat.add_left_comm]
          · cases h

theorem blockOfPart_eq_ok {parts : List ContentPart} {ordinals : List (Option Nat)}
    (h : textOrdinals 0 parts = .ok ordinals) (calls : List ToolCall) {ordinal : Nat}
    {block : ReasoningReplayBlock} :
    blockOfPart ordinals parts ordinal = .ok block ↔
      (LayoutRef.content ordinal).block parts calls = some block := by
  simp only [blockOfPart, LayoutRef.block, textOrdinals_get h ordinal]
  cases hpart : parts[ordinal]? with
  | none => simp
  | some part =>
      cases part with
      | text text =>
          have htext : (ContentPart.text text).isText = true := rfl
          simp [htext]
      | thinking thinking signature => cases signature <;> simp
      | imageUrl | redactedThinking | unknown => simp

theorem countRef_eq_ok {n : Nat} {refs : List Nat} {i : Nat} {counts : List Nat} :
    countRef (tally n refs) i = .ok counts ↔
      i < n ∧ refs.count i < 255 ∧ counts = tally n (refs ++ [i]) := by
  unfold countRef
  rw [tally_getElem?, tally_snoc]
  by_cases hi : i < n
  · by_cases hcount : refs.count i < 255
    · simp [hi, hcount, eq_comm]
    · simp [hi, hcount]
  · simp [hi]

/-! ## Reading a layout -/

section

variable {parts : List ContentPart} {calls : List ToolCall} {ordinals : List (Option Nat)}

/-- What has been read after some references. -/
def readOf (parts : List ContentPart) (calls : List ToolCall) (refs : List LayoutRef)
    (blocks : List ReasoningReplayBlock) : LayoutRead :=
  ⟨tally parts.length (contentRefs refs), tally calls.length (toolRefs refs), blocks⟩

/-- The place of a reference is one of the message. -/
theorem LayoutRef.block_isSome_lt {ref : LayoutRef} {block : ReasoningReplayBlock}
    (h : ref.block parts calls = some block) :
    match ref with
      | .content ordinal => ordinal < parts.length
      | .toolCall index => index < calls.length := by
  cases ref with
  | content ordinal =>
      by_contra hge
      have hnone : parts[ordinal]? = none := List.getElem?_eq_none (Nat.not_lt.mp hge)
      simp [LayoutRef.block, hnone] at h
  | toolCall index =>
      by_contra hge
      have hnone : calls[index]? = none := List.getElem?_eq_none (Nat.not_lt.mp hge)
      simp [LayoutRef.block, hnone] at h

/-- The call found by an id has that id. -/
theorem block_of_findIdx {callId : String} {index : Nat}
    (h : calls.findIdx? (·.id == callId) = some index) :
    (LayoutRef.toolCall index).block parts calls = some (.toolCallRef callId) := by
  obtain ⟨hlt, hid, -⟩ := List.findIdx?_eq_some_iff_getElem.mp h
  have hid : calls[index].id = callId := by simpa using hid
  simp [LayoutRef.block, List.getElem?_eq_getElem hlt, hid]

/-- One entry adds its reference and its block. -/
theorem readLayoutEntry_eq_ok (hordinals : textOrdinals 0 parts = .ok ordinals)
    {refs : List LayoutRef} {blocks : List ReasoningReplayBlock} {entry : Value}
    {read : LayoutRead} :
    readLayoutEntry ordinals parts calls (readOf parts calls refs blocks) entry = .ok read ↔
      ∃ ref block, layoutRef calls entry = some ref ∧ ref.block parts calls = some block ∧
        (match ref with
          | .content ordinal => (contentRefs refs).count ordinal < 255
          | .toolCall index => (toolRefs refs).count index < 255) ∧
        read = readOf parts calls (refs ++ [ref]) (blocks ++ [block]) := by
  unfold readLayoutEntry layoutRef
  split
  · rename_i hkind
    cases hordinal : (entry.field "ordinal").asU64 with
    | none => simp
    | some ordinal =>
        simp only [Option.map_some, Option.some.injEq, exists_and_left, exists_eq_left',
          bind_eq_ok, pure_eq_ok, blockOfPart_eq_ok hordinals calls]
        simp only [readOf, countRef_eq_ok]
        constructor
        · rintro ⟨_, ⟨-, hcount, rfl⟩, block, hblock, rfl⟩
          exact ⟨block, hblock, hcount, by simp [contentRefs, toolRefs]⟩
        · rintro ⟨block, hblock, hcount, rfl⟩
          exact ⟨_, ⟨LayoutRef.block_isSome_lt hblock, hcount, rfl⟩, block, hblock,
            by simp [contentRefs, toolRefs]⟩
  · rename_i hkind
    cases hcall : (entry.field "call_id").asStr with
    | none => simp
    | some callId =>
        cases hfound : calls.findIdx? (·.id == callId) with
        | none => simp [hfound]
        | some index =>
            have hblock : (LayoutRef.toolCall index).block parts calls = some (.toolCallRef callId) :=
              block_of_findIdx hfound
            simp only [hfound, Option.bind_some, Option.map_some, Option.some.injEq,
              exists_and_left, exists_eq_left', bind_eq_ok, pure_eq_ok, hblock]
            simp only [readOf, countRef_eq_ok]
            constructor
            · rintro ⟨_, ⟨-, hcount, rfl⟩, rfl⟩
              exact ⟨hcount, by simp [contentRefs, toolRefs]⟩
            · rintro ⟨hcount, rfl⟩
              exact ⟨_, ⟨LayoutRef.block_isSome_lt hblock, hcount, rfl⟩,
                by simp [contentRefs, toolRefs]⟩
  · simp

/-- A run of entries adds their references and their blocks. -/
theorem readLayout_eq_ok (hordinals : textOrdinals 0 parts = .ok ordinals)
    {refs : List LayoutRef} {blocks : List ReasoningReplayBlock} {entries : List Value}
    {read : LayoutRead}
    (h : entries.foldlM (readLayoutEntry ordinals parts calls) (readOf parts calls refs blocks) =
      .ok read) :
    ∃ moreRefs moreBlocks,
      List.Forall₂ (fun entry ref => layoutRef calls entry = some ref) entries moreRefs ∧
        List.Forall₂ (fun ref block => LayoutRef.block parts calls ref = some block) moreRefs
          moreBlocks ∧
        read = readOf parts calls (refs ++ moreRefs) (blocks ++ moreBlocks) := by
  induction entries generalizing refs blocks with
  | nil =>
      cases h
      exact ⟨[], [], .nil, .nil, by simp⟩
  | cons entry entries ih =>
      rw [List.foldlM_cons] at h
      obtain ⟨next, hentry, hrest⟩ := bind_eq_ok.mp h
      obtain ⟨ref, block, href, hblock, -, rfl⟩ := (readLayoutEntry_eq_ok hordinals).mp hentry
      obtain ⟨moreRefs, moreBlocks, hrefs, hblocks, rfl⟩ := ih hrest
      exact ⟨ref :: moreRefs, block :: moreBlocks, .cons href hrefs, .cons hblock hblocks,
        by simp⟩

/-- References that name each place at most once are read. -/
theorem readLayout_of_refs (hordinals : textOrdinals 0 parts = .ok ordinals)
    {refs : List LayoutRef} {blocks : List ReasoningReplayBlock} {entries : List Value}
    {moreRefs : List LayoutRef} {moreBlocks : List ReasoningReplayBlock}
    (hrefs : List.Forall₂ (fun entry ref => layoutRef calls entry = some ref) entries moreRefs)
    (hblocks : List.Forall₂ (fun ref block => LayoutRef.block parts calls ref = some block)
      moreRefs moreBlocks)
    (hparts : ∀ i, (contentRefs (refs ++ moreRefs)).count i ≤ 1)
    (htools : ∀ i, (toolRefs (refs ++ moreRefs)).count i ≤ 1) :
    entries.foldlM (readLayoutEntry ordinals parts calls) (readOf parts calls refs blocks) =
      .ok (readOf parts calls (refs ++ moreRefs) (blocks ++ moreBlocks)) := by
  induction hrefs generalizing refs blocks moreBlocks with
  | nil =>
      cases hblocks
      simp [pure, Except.pure]
  | @cons entry ref entries moreRefs href hrest ih =>
      obtain ⟨block, moreBlocks, hblock, hrestBlocks, rfl⟩ := List.forall₂_cons_left_iff.mp hblocks
      have hentry : readLayoutEntry ordinals parts calls (readOf parts calls refs blocks) entry =
          .ok (readOf parts calls (refs ++ [ref]) (blocks ++ [block])) := by
        refine (readLayoutEntry_eq_ok hordinals).mpr ⟨ref, block, href, hblock, ?_, rfl⟩
        cases ref with
        | content ordinal =>
            have hle := hparts ordinal
            rw [contentRefs_append, List.count_append] at hle
            simp only
            omega
        | toolCall index =>
            have hle := htools index
            rw [toolRefs_append, List.count_append] at hle
            simp only
            omega
      rw [List.foldlM_cons, hentry]
      have hsplit : refs ++ ref :: moreRefs = refs ++ [ref] ++ moreRefs := by simp
      rw [hsplit] at hparts htools ⊢
      have hmore := @ih (refs ++ [ref]) (blocks ++ [block]) _ hrestBlocks hparts htools
      rw [List.append_assoc blocks, List.singleton_append] at hmore
      exact hmore

end

/-- What the layout of a message says: places of the message, each exactly
once, and the blocks there. -/
structure Laid (message : Message) (entries : List Value) (parts : List ContentPart)
    (refs : List LayoutRef) (blocks : List ReasoningReplayBlock) : Prop where
  content : message.content = some (.parts parts)
  texts : parts.countP (·.isText) < 2 ^ 32
  ids : distinctIds message.toolCalls
  read : List.Forall₂ (fun entry ref => layoutRef message.toolCalls entry = some ref) entries refs
  made : List.Forall₂ (fun ref block => LayoutRef.block parts message.toolCalls ref = some block)
    refs blocks
  partsOnce : Once parts.length (contentRefs refs)
  callsOnce : Once message.toolCalls.length (toolRefs refs)

/-- The place of a reference that has a block. -/
theorem refs_lt {parts : List ContentPart} {calls : List ToolCall} {refs : List LayoutRef}
    {blocks : List ReasoningReplayBlock}
    (h : List.Forall₂ (fun ref block => LayoutRef.block parts calls ref = some block) refs
      blocks) :
    (∀ i ∈ contentRefs refs, i < parts.length) ∧ ∀ i ∈ toolRefs refs, i < calls.length := by
  induction h with
  | nil => exact ⟨by simp [contentRefs], by simp [toolRefs]⟩
  | @cons ref block refs blocks hblock _ ih =>
      have hlt := LayoutRef.block_isSome_lt hblock
      cases ref with
      | content ordinal =>
          exact ⟨List.forall_mem_cons.mpr ⟨hlt, ih.1⟩, ih.2⟩
      | toolCall index =>
          exact ⟨ih.1, List.forall_mem_cons.mpr ⟨hlt, ih.2⟩⟩

/-- A carrier is made exactly from a layout that names every part and every
call once. -/
theorem layoutCarrier_eq_ok (packages : Packages) {message : Message} {family layout : Value}
    {s : String} :
    layoutCarrier packages message family layout = .ok s ↔
      family.asStr = some claudeFamily ∧ ∃ entries parts refs blocks, layout = .array entries ∧
        entries.length ≤ maxBlocks ∧ Laid message entries parts refs blocks ∧
        encodeReasoningReplayCarrier packages blocks = .ok s := by
  have hstart : ∀ parts : List ContentPart,
      (⟨List.replicate parts.length 0, List.replicate message.toolCalls.length 0, []⟩ : LayoutRead) =
        readOf parts message.toolCalls [] [] := fun _ => rfl
  constructor
  · intro h
    unfold layoutCarrier at h
    split at h
    · cases h
    · rename_i hfamily
      split at h
      · rename_i entries parts hentries hcontent
        split at h
        · cases h
        · rename_i hlength
          obtain ⟨ordinals, hordinals, h⟩ := bind_eq_ok.mp h
          obtain ⟨_, hids, h⟩ := bind_eq_ok.mp h
          obtain ⟨read, hread, h⟩ := bind_eq_ok.mp h
          obtain ⟨_, honce, h⟩ := bind_eq_ok.mp h
          rw [refuse_eq_ok, not_not] at hids honce
          rw [hstart] at hread
          obtain ⟨refs, blocks, hrefs, hblocks, rfl⟩ := readLayout_eq_ok hordinals hread
          simp only [List.nil_append] at honce h
          have htexts := textOrdinals_eq_ok.mp ⟨ordinals, hordinals⟩
          obtain ⟨hpartsLt, hcallsLt⟩ := refs_lt hblocks
          exact ⟨not_not.mp hfamily, entries, parts, refs, blocks, Value.asArray_eq_some.mp hentries,
            Nat.not_lt.mp hlength, ⟨hcontent, by omega, hids, hrefs, hblocks,
              (tally_all_one hpartsLt).mp honce.1, (tally_all_one hcallsLt).mp honce.2⟩, h⟩
      · cases h
  · rintro ⟨hfamily, entries, parts, refs, blocks, rfl, hlength, hlaid, hencode⟩
    obtain ⟨ordinals, hordinals⟩ : ∃ ordinals, textOrdinals 0 parts = .ok ordinals :=
      textOrdinals_eq_ok.mpr (.inr (by rw [Nat.zero_add]; exact hlaid.texts))
    obtain ⟨hpartsLt, hcallsLt⟩ := refs_lt hlaid.made
    have hread := @readLayout_of_refs _ _ _ hordinals [] [] _ _ _ hlaid.read hlaid.made
      (count_le_one hlaid.partsOnce) (count_le_one hlaid.callsOnce)
    unfold layoutCarrier
    simp only [Value.asArray_array, hlaid.content]
    rw [if_neg (not_not.mpr hfamily), if_neg (Nat.not_lt.mpr hlength), hstart]
    refine bind_eq_ok.mpr ⟨ordinals, hordinals, bind_eq_ok.mpr ⟨(), ?_, bind_eq_ok.mpr
      ⟨_, hread, bind_eq_ok.mpr ⟨(), ?_, ?_⟩⟩⟩⟩
    · exact refuse_eq_ok.mpr (not_not.mpr hlaid.ids)
    · exact refuse_eq_ok.mpr (not_not.mpr ⟨(tally_all_one hpartsLt).mpr hlaid.partsOnce,
        (tally_all_one hcallsLt).mpr hlaid.callsOnce⟩)
    · exact hencode

end TokenStation.Responses
