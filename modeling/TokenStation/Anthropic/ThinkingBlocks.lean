import TokenStation.Anthropic.Bracketing
import TokenStation.Anthropic.Message

/-!
# Thinking blocks of a stream

Canonical events number their thinking blocks; a client numbers the content
blocks it is sent. The stream keeps one open thinking block for a whole turn,
so what the client assembles is compared here with the blocks the events name,
which are the blocks the envelope of the complete response carries.
-/

namespace TokenStation.Anthropic

open Library Library.Json Responses

/-! ## Fragments -/

/-- A fragment of a thinking block: its text or its signature. -/
structure ThinkingFragment where
  block : Nat × Nat
  isSignature : Bool
  text : String
deriving DecidableEq, Repr

/-- A thinking block as it is replayed. -/
structure ThinkingBlock where
  thinking : String
  signature : Option String
deriving DecidableEq, Repr

/-- The fragment an event carries. -/
def fragment : StreamEvent → Option ThinkingFragment
  | .thinkingDelta index blockIndex text => some ⟨(index, blockIndex), false, text⟩
  | .thinkingSignatureDelta index blockIndex text => some ⟨(index, blockIndex), true, text⟩
  | _ => none

def fragments (events : List StreamEvent) : List ThinkingFragment := events.filterMap fragment

/-- The fragments of one kind, joined. -/
def joined (isSignature : Bool) (fs : List ThinkingFragment) : String :=
  String.join ((fs.filter (·.isSignature == isSignature)).map (·.text))

/-- The signature of a block, if any part of one was reported. -/
def signatureOf (fs : List ThinkingFragment) : Option String :=
  if fs.any (·.isSignature) then some (joined true fs) else none

/-- The block made of all the fragments. -/
def blockOf (fs : List ThinkingFragment) : ThinkingBlock := ⟨joined false fs, signatureOf fs⟩

/-- The thinking blocks the fragments name, in order of first appearance. -/
def assembledThinking (fs : List ThinkingFragment) : List ThinkingBlock :=
  (fs.map (·.block)).eraseDups.map fun block => blockOf (fs.filter (·.block == block))

/-! ## The client -/

/-- Append a text to a field of a block. -/
def appendField (block : Value) (key text : String) : Value :=
  block.set key (.string ((block.field key).asStr.getD "" ++ text))

/-- Apply a delta to the block it names. -/
def applyDelta (block delta : Value) : Value :=
  match (delta.field "type").asStr with
  | some "thinking_delta" =>
      appendField block "thinking" ((delta.field "thinking").asStr.getD "")
  | some "signature_delta" =>
      appendField block "signature" ((delta.field "signature").asStr.getD "")
  | some "text_delta" => appendField block "text" ((delta.field "text").asStr.getD "")
  | some "input_json_delta" =>
      appendField block "partial_json" ((delta.field "partial_json").asStr.getD "")
  | _ => block

/-- Read one frame into the blocks held by number. -/
def clientStep (blocks : List (Nat × Value)) (f : AnthropicFrame) : List (Nat × Value) :=
  match f.index with
  | none => blocks
  | some index =>
      if f.event = "content_block_start" then
        insertEntry index (f.data.field "content_block") blocks
      else if f.event = "content_block_delta" then
        blocks.map fun e =>
          if e.1 = index then (e.1, applyDelta e.2 (f.data.field "delta")) else e
      else blocks

/-- The blocks of one message. -/
def clientBlocks (m : List AnthropicFrame) : List (Nat × Value) := m.foldl clientStep []

/-- A block of type `thinking`, read. -/
def readThinking (block : Value) : Option ThinkingBlock :=
  if (block.field "type").asStr = some "thinking" then
    some ⟨(block.field "thinking").asStr.getD "", (block.field "signature").asStr⟩
  else none

/-- The thinking blocks a client holds at the end of a message. -/
def clientThinking (m : List AnthropicFrame) : List ThinkingBlock :=
  (clientBlocks m).filterMap fun e => readThinking e.2

/-- The thinking blocks of an envelope. -/
def messageThinking (value : Value) : List ThinkingBlock :=
  ((value.field "content").asArray.getD []).filterMap readThinking

/-! ## Turns -/

def isDone : StreamEvent → Bool
  | .done _ _ => true
  | _ => false

def isError : StreamEvent → Bool
  | .error _ => true
  | _ => false

/-- The events before each `Done` of a stream; an error ends the stream. -/
def turns (events : List StreamEvent) : List (List StreamEvent) :=
  ((events.takeWhile fun event => !isError event).splitOnP isDone).dropLast

/-- The fragments of a turn name one block, and signature fragments that come
before its first text are empty and not the only ones. -/
structure KeptApart (fs : List ThinkingFragment) : Prop where
  oneBlock : ∀ f ∈ fs, ∀ g ∈ fs, f.block = g.block
  signedLater : ∀ f ∈ fs.takeWhile (·.isSignature),
    f.text = "" ∧ ∃ g ∈ fs.dropWhile (·.isSignature), g.isSignature = true

/-! ## What the stream keeps -/

/-- One more fragment on the only thinking block of a message. -/
def addFragment (block : Option ThinkingBlock) (f : ThinkingFragment) : Option ThinkingBlock :=
  match block, f.isSignature with
  | none, false => some ⟨f.text, none⟩
  | none, true => none
  | some b, false => some { b with thinking := b.thinking ++ f.text }
  | some b, true => some { b with signature := some (b.signature.getD "" ++ f.text) }

/-- The thinking block a message ends with. -/
def renderedThinking (fs : List ThinkingFragment) : Option ThinkingBlock := fs.foldl addFragment none

theorem joined_append (isSignature : Bool) (fs gs : List ThinkingFragment) :
    joined isSignature (fs ++ gs) = joined isSignature fs ++ joined isSignature gs := by
  simp [joined, String.join_append]

theorem joined_single (isSignature : Bool) (f : ThinkingFragment) :
    joined isSignature [f] = if f.isSignature = isSignature then f.text else "" := by
  unfold joined
  by_cases h : f.isSignature = isSignature <;> simp [h, String.join_cons, String.join_nil]

theorem signatureOf_append_text (fs : List ThinkingFragment) {f : ThinkingFragment}
    (h : f.isSignature = false) : signatureOf (fs ++ [f]) = signatureOf fs := by
  simp [signatureOf, joined_append, joined_single, h]

theorem signatureOf_append_signature (fs : List ThinkingFragment) {f : ThinkingFragment}
    (h : f.isSignature = true) :
    signatureOf (fs ++ [f]) = some ((signatureOf fs).getD "" ++ f.text) := by
  have hjoined : (signatureOf fs).getD "" = joined true fs := by
    unfold signatureOf
    split
    · rfl
    · rename_i hnone
      have hempty : fs.filter (·.isSignature == true) = [] := by
        simpa using hnone
      rw [joined, hempty]
      rfl
  rw [hjoined]
  simp [signatureOf, joined_append, joined_single, h]

/-- Once a text has opened the block, every fragment goes to it. -/
theorem foldl_addFragment (opened more : List ThinkingFragment) :
    more.foldl addFragment (some (blockOf opened)) = some (blockOf (opened ++ more)) := by
  induction more generalizing opened with
  | nil => simp
  | cons f more ih =>
      have hstep : addFragment (some (blockOf opened)) f = some (blockOf (opened ++ [f])) := by
        cases hf : f.isSignature with
        | false =>
            simp [addFragment, hf, blockOf, joined_append, joined_single, signatureOf_append_text]
        | true =>
            simp [addFragment, hf, blockOf, joined_append, joined_single,
              signatureOf_append_signature]
      rw [List.foldl_cons, hstep, ih, List.append_assoc]
      rfl

/-- The message's block starts with the first text: signatures before it are lost. -/
theorem renderedThinking_eq (fs : List ThinkingFragment) :
    renderedThinking fs =
      if fs.dropWhile (·.isSignature) = [] then none
      else some (blockOf (fs.dropWhile (·.isSignature))) := by
  induction fs with
  | nil => rfl
  | cons f fs ih =>
      rw [renderedThinking, List.foldl_cons]
      cases hf : f.isSignature with
      | true => simpa [addFragment, hf, renderedThinking] using ih
      | false =>
          have hone : some (⟨f.text, none⟩ : ThinkingBlock) = some (blockOf [f]) := by
            simp [blockOf, joined_single, signatureOf, hf]
          simp only [addFragment, hf, hone, foldl_addFragment]
          simp [hf]

/-! ## One block or several -/

theorem assembledThinking_oneBlock {f : ThinkingFragment} {fs : List ThinkingFragment}
    (h : ∀ g ∈ fs, g.block = f.block) : assembledThinking (f :: fs) = [blockOf (f :: fs)] := by
  have hblocks : (fs.map (·.block)).filter (fun b => !b == f.block) = [] := by
    simpa [List.filter_eq_nil_iff] using h
  have hkept : (f :: fs).filter (·.block == f.block) = f :: fs := by
    rw [List.filter_eq_self]
    intro g hg
    rcases List.mem_cons.mp hg with rfl | hg
    · simp
    · simp [h g hg]
  rw [assembledThinking, List.map_cons, List.eraseDups_cons, hblocks]
  simp [hkept]

theorem oneBlock_of_length {fs : List ThinkingFragment}
    (h : (assembledThinking fs).length ≤ 1) : ∀ f ∈ fs, ∀ g ∈ fs, f.block = g.block := by
  rw [assembledThinking, List.length_map] at h
  intro f hf g hg
  have hmem : ∀ f ∈ fs, f.block ∈ (fs.map (·.block)).eraseDups := fun f hf =>
    List.mem_eraseDups.mpr (List.mem_map_of_mem hf)
  match hd : (fs.map (·.block)).eraseDups with
  | [] => simpa [hd] using hmem f hf
  | [b] =>
      have hf' := hmem f hf
      have hg' := hmem g hg
      rw [hd, List.mem_singleton] at hf' hg'
      exact hf'.trans hg'.symm
  | _ :: _ :: _ => simp [hd] at h

/-- Fragments lost before the first text leave the signature as it is. -/
theorem signatureOf_append_iff (early late : List ThinkingFragment)
    (hearly : ∀ f ∈ early, f.isSignature = true) :
    signatureOf late = signatureOf (early ++ late) ↔
      ∀ f ∈ early, f.text = "" ∧ ∃ g ∈ late, g.isSignature = true := by
  have hjoined : joined true early = "" ↔ ∀ f ∈ early, f.text = "" := by
    have hall : early.filter (·.isSignature == true) = early := by
      rw [List.filter_eq_self]
      simpa using hearly
    rw [joined, hall]
    clear hall hearly
    induction early with
    | nil => simp [String.join_nil]
    | cons f early ih => simp [String.join_cons, ih]
  cases early with
  | nil => simp
  | cons f early =>
      have hsigned : (f :: early ++ late).any (·.isSignature) = true := by
        simp [hearly f List.mem_cons_self]
      rw [signatureOf, signatureOf, if_pos hsigned, joined_append]
      by_cases hlate : late.any (·.isSignature) = true
      · have hexists : ∃ g ∈ late, g.isSignature = true := by simpa using hlate
        rw [if_pos hlate, Option.some_inj]
        constructor
        · intro heq g hg
          have hempty : joined true (f :: early) = "" := by
            have hlength := congrArg String.length heq
            rw [String.length_append] at hlength
            exact String.length_eq_zero_iff.mp (by omega)
          exact ⟨hjoined.mp hempty g hg, hexists⟩
        · intro hall
          rw [hjoined.mpr fun g hg => (hall g hg).1]
          simp
      · rw [if_neg hlate]
        constructor
        · intro heq
          cases heq
        · intro hall
          obtain ⟨-, g, hg, hsig⟩ := hall f List.mem_cons_self
          exact absurd (List.any_eq_true.mpr ⟨g, hg, hsig⟩) hlate

/-- The message's block is what its fragments name exactly when they are kept apart. -/
theorem renderedThinking_iff (fs : List ThinkingFragment) :
    (renderedThinking fs).toList = assembledThinking fs ↔ KeptApart fs := by
  have hsplit := List.takeWhile_append_dropWhile (p := fun f : ThinkingFragment => f.isSignature)
    (l := fs)
  have hearly : ∀ f ∈ fs.takeWhile (·.isSignature), f.isSignature = true := fun f hf =>
    List.mem_takeWhile_imp hf
  have hsig := signatureOf_append_iff _ (fs.dropWhile (·.isSignature)) hearly
  rw [hsplit] at hsig
  have htext : joined false fs = joined false (fs.dropWhile (·.isSignature)) := by
    have hnone : joined false (fs.takeWhile (·.isSignature)) = "" := by
      have hempty : (fs.takeWhile (·.isSignature)).filter (·.isSignature == false) = [] := by
        rw [List.filter_eq_nil_iff]
        intro f hf
        simp [hearly f hf]
      rw [joined, hempty]
      rfl
    rw [← hsplit, joined_append, hnone, hsplit]
    simp
  rw [renderedThinking_eq]
  constructor
  · intro h
    have hlength : (assembledThinking fs).length ≤ 1 := by
      rw [← h]
      split <;> simp
    have hone := oneBlock_of_length hlength
    refine ⟨hone, ?_⟩
    cases hfs : fs with
    | nil => simp
    | cons f rest =>
        have hassembled := @assembledThinking_oneBlock f rest fun g hg =>
          hone g (by simp [hfs, hg]) f (by simp [hfs])
        rw [hfs] at h hsig
        rw [hassembled] at h
        refine hsig.mp ?_
        split at h
        · cases h
        · simp only [Option.toList_some, List.cons.injEq, blockOf, ThinkingBlock.mk.injEq] at h
          exact h.1.2
  · intro h
    cases hfs : fs with
    | nil => rfl
    | cons f rest =>
        have hassembled := @assembledThinking_oneBlock f rest fun g hg =>
          h.oneBlock g (by simp [hfs, hg]) f (by simp [hfs])
        have hopened : fs.dropWhile (·.isSignature) ≠ [] := by
          intro hnil
          have hf : f ∈ fs.takeWhile (·.isSignature) := by
            rw [hnil, List.append_nil] at hsplit
            rw [hsplit, hfs]
            exact List.mem_cons_self
          obtain ⟨-, g, hg, -⟩ := h.signedLater f hf
          rw [hnil] at hg
          cases hg
        rw [if_neg (hfs ▸ hopened), hassembled, ← hfs, blockOf, blockOf, ← htext,
          hsig.mpr h.signedLater]
        rfl

/-! ## The client follows the state -/

theorem clientBlocks_append (m n : List AnthropicFrame) :
    clientBlocks (m ++ n) = n.foldl clientStep (clientBlocks m) := by
  rw [clientBlocks, List.foldl_append]
  rfl

theorem field_set_self {v : Value} (h : v.isObject = true) (key : String) (value : Value) :
    (v.set key value).field key = value := by
  simp [Value.field, Value.get_set h]

theorem field_set_other {v : Value} (h : v.isObject = true) {key k : String} (hk : key ≠ k)
    (value : Value) : (v.set key value).field k = v.field k := by
  simp [Value.field, Value.get_set h, hk]

theorem readThinking_of_not_object {v : Value} (h : v.isObject = false) (key : String)
    (value : Value) (hkey : key ≠ "type") :
    readThinking v = none ∧ readThinking (v.set key value) = none := by
  cases v with
  | object => cases h
  | null =>
      simp [readThinking, Value.set, Value.field, Value.get, lookup, hkey]
  | _ => simp [readThinking, Value.set, Value.field, Value.get]

/-- A text delta extends the text of a thinking block. -/
theorem readThinking_appendField_thinking (v : Value) (text : String) :
    readThinking (appendField v "thinking" text) =
      (readThinking v).map fun b => { b with thinking := b.thinking ++ text } := by
  cases h : v.isObject with
  | false =>
      obtain ⟨hold, hnew⟩ := readThinking_of_not_object h "thinking" (.string
        ((v.field "thinking").asStr.getD "" ++ text)) (by decide)
      rw [appendField, hnew, hold]
      rfl
  | true =>
      rw [appendField, readThinking, readThinking, field_set_self h,
        field_set_other h (by decide), field_set_other h (by decide)]
      split <;> simp

/-- A signature delta extends the signature of a thinking block. -/
theorem readThinking_appendField_signature (v : Value) (text : String) :
    readThinking (appendField v "signature" text) =
      (readThinking v).map fun b => { b with signature := some (b.signature.getD "" ++ text) } := by
  cases h : v.isObject with
  | false =>
      obtain ⟨hold, hnew⟩ := readThinking_of_not_object h "signature" (.string
        ((v.field "signature").asStr.getD "" ++ text)) (by decide)
      rw [appendField, hnew, hold]
      rfl
  | true =>
      rw [appendField, readThinking, readThinking, field_set_self h,
        field_set_other h (by decide), field_set_other h (by decide)]
      split <;> simp

/-- Deltas of other kinds do not touch thinking blocks. -/
theorem readThinking_appendField_other (v : Value) {key : String} (text : String)
    (htype : key ≠ "type") (hthinking : key ≠ "thinking") (hsignature : key ≠ "signature") :
    readThinking (appendField v key text) = readThinking v := by
  cases h : v.isObject with
  | false =>
      obtain ⟨hold, hnew⟩ := readThinking_of_not_object h key (.string
        ((v.field key).asStr.getD "" ++ text)) htype
      rw [appendField, hnew, hold]
  | true =>
      rw [appendField, readThinking, readThinking, field_set_other h htype,
        field_set_other h hthinking, field_set_other h hsignature]

theorem readThinking_thinkingDelta (v : Value) (text : String) :
    readThinking (applyDelta v (.obj [("type", .string "thinking_delta"),
        ("thinking", .string text)])) =
      (readThinking v).map fun b => { b with thinking := b.thinking ++ text } := by
  rw [← readThinking_appendField_thinking]
  simp [applyDelta, Value.field, lookup]

theorem readThinking_signatureDelta (v : Value) (text : String) :
    readThinking (applyDelta v (.obj [("type", .string "signature_delta"),
        ("signature", .string text)])) =
      (readThinking v).map fun b => { b with signature := some (b.signature.getD "" ++ text) } := by
  rw [← readThinking_appendField_signature]
  simp [applyDelta, Value.field, lookup]

theorem readThinking_textDelta (v : Value) (text : String) :
    readThinking (applyDelta v (.obj [("type", .string "text_delta"), ("text", .string text)])) =
      readThinking v := by
  rw [← @readThinking_appendField_other v "text" text (by decide) (by decide) (by decide)]
  simp [applyDelta, Value.field, lookup]

theorem readThinking_inputDelta (v : Value) (text : String) :
    readThinking (applyDelta v (.obj [("type", .string "input_json_delta"),
        ("partial_json", .string text)])) = readThinking v := by
  rw [← @readThinking_appendField_other v "partial_json" text (by decide) (by decide) (by decide)]
  simp [applyDelta, Value.field, lookup]

/-- The client's thinking blocks are the message's only one, held under the
number the state has for it. -/
structure Assembling (s : AnthropicSseState) (blocks : List (Nat × Value))
    (r : Option ThinkingBlock) : Prop where
  below : ∀ e ∈ blocks, e.1 < s.nextIndex
  held : s.thinkingIndex.isSome = r.isSome
  plain : ∀ e ∈ blocks, s.thinkingIndex ≠ some e.1 → readThinking e.2 = none
  thinking : blocks.filterMap (fun e => readThinking e.2) = r.toList

theorem assembling_new (model messageId : String) :
    Assembling (.new model messageId) (clientBlocks []) none :=
  ⟨by simp [clientBlocks], rfl, by simp [clientBlocks], rfl⟩

theorem clientStep_blockStart (blocks : List (Nat × Value)) {index : Nat}
    (h : ∀ e ∈ blocks, e.1 < index) (contentBlock : Value) :
    clientStep blocks (blockStart index contentBlock) = blocks ++ [(index, contentBlock)] := by
  rw [← insertEntry_last h]
  simp [clientStep, blockStart, AnthropicFrame.index, Value.field, lookup]

theorem clientStep_blockDelta (blocks : List (Nat × Value)) (index : Nat) (delta : Value) :
    clientStep blocks (blockDelta index delta) =
      blocks.map fun e => if e.1 = index then (e.1, applyDelta e.2 delta) else e := by
  simp [clientStep, blockDelta, AnthropicFrame.index, Value.field, lookup]

/-- A delta that changes how blocks are read by `f`. -/
theorem Assembling.update {s : AnthropicSseState} {blocks : List (Nat × Value)}
    {r : Option ThinkingBlock} (h : Assembling s blocks r) (index : Nat) {delta : Value}
    (f : ThinkingBlock → ThinkingBlock)
    (hread : ∀ e ∈ blocks,
      readThinking (if e.1 = index then (e.1, applyDelta e.2 delta) else e).2 =
        (readThinking e.2).map f) :
    Assembling s (clientStep blocks (blockDelta index delta)) (r.map f) := by
  rw [clientStep_blockDelta]
  have hkey : ∀ e : Nat × Value,
      (if e.1 = index then (e.1, applyDelta e.2 delta) else e).1 = e.1 := by
    intro e
    split <;> rfl
  refine ⟨?_, ?_, ?_, ?_⟩
  · intro e he
    obtain ⟨d, hd, rfl⟩ := List.mem_map.mp he
    rw [hkey]
    exact h.below d hd
  · rw [h.held, Option.isSome_map]
  · intro e he hne
    obtain ⟨d, hd, rfl⟩ := List.mem_map.mp he
    rw [hkey] at hne
    rw [hread d hd, h.plain d hd hne]
    rfl
  · rw [List.filterMap_map]
    calc blocks.filterMap _
        = blocks.filterMap fun e => (readThinking e.2).map f :=
          List.filterMap_congr fun e he => hread e he
      _ = (blocks.filterMap fun e => readThinking e.2).map f := List.map_filterMap.symm
      _ = (r.map f).toList := by
          rw [h.thinking]
          cases r <;> rfl

/-- A delta that no reading shows. -/
theorem Assembling.unread {s : AnthropicSseState} {blocks : List (Nat × Value)}
    {r : Option ThinkingBlock} (h : Assembling s blocks r) (index : Nat) {delta : Value}
    (hdelta : ∀ v, readThinking (applyDelta v delta) = readThinking v) :
    Assembling s (clientStep blocks (blockDelta index delta)) r := by
  have hupdate : Assembling s (clientStep blocks (blockDelta index delta)) (r.map id) :=
    h.update index id fun e _ => by split <;> simp [hdelta]
  simpa using hupdate

/-- A delta of the thinking block. -/
theorem Assembling.delta {s : AnthropicSseState} {blocks : List (Nat × Value)}
    {r : Option ThinkingBlock} (h : Assembling s blocks r) {index : Nat}
    (hindex : s.thinkingIndex = some index) {delta : Value} {f : ThinkingBlock → ThinkingBlock}
    (hdelta : ∀ v, readThinking (applyDelta v delta) = (readThinking v).map f) :
    Assembling s (clientStep blocks (blockDelta index delta)) (r.map f) := by
  refine h.update index f fun e he => ?_
  split
  · exact hdelta e.2
  · rename_i hne
    rw [h.plain e he (by rw [hindex]; simpa using Ne.symm hne)]
    rfl

theorem clientStep_silent (blocks : List (Nat × Value)) {f : AnthropicFrame}
    (hstart : f.event ≠ "content_block_start") (hdelta : f.event ≠ "content_block_delta") :
    clientStep blocks f = blocks := by
  unfold clientStep
  split <;> simp [hstart, hdelta]

theorem foldl_clientStep_silent (blocks : List (Nat × Value)) {fs : List AnthropicFrame}
    (h : ∀ f ∈ fs, f.event ≠ "content_block_start" ∧ f.event ≠ "content_block_delta") :
    fs.foldl clientStep blocks = blocks := by
  induction fs with
  | nil => rfl
  | cons f fs ih =>
      obtain ⟨hstart, hdelta⟩ := h f List.mem_cons_self
      rw [List.foldl_cons, clientStep_silent blocks hstart hdelta]
      exact ih fun g hg => h g (List.mem_cons_of_mem _ hg)

theorem ensureMessageStart_silent (s : AnthropicSseState) :
    ∀ f ∈ s.ensureMessageStart.2,
      f.event ≠ "content_block_start" ∧ f.event ≠ "content_block_delta" := by
  unfold AnthropicSseState.ensureMessageStart
  split <;> simp [messageStart]

/-- The client stores a block that was opened under the next number. -/
theorem clientBlocks_openBlock {s t : AnthropicSseState} {blocks : List (Nat × Value)}
    (h : ∀ e ∈ blocks, e.1 < s.nextIndex) {contentBlock : Value} {index : Nat}
    {frames : List AnthropicFrame} (hopen : s.openBlock contentBlock = (index, t, frames)) :
    frames.foldl clientStep blocks = blocks ++ [(index, contentBlock)] ∧
      index = s.nextIndex ∧ t.nextIndex = index + 1 := by
  have hnext : s.ensureMessageStart.1.nextIndex = s.nextIndex := by
    unfold AnthropicSseState.ensureMessageStart
    split <;> rfl
  simp only [AnthropicSseState.openBlock, Prod.mk.injEq] at hopen
  obtain ⟨rfl, rfl, rfl⟩ := hopen
  rw [List.foldl_append, foldl_clientStep_silent blocks (ensureMessageStart_silent s), hnext]
  exact ⟨clientStep_blockStart blocks h contentBlock, rfl, rfl⟩

/-- Opening a block that is not a thinking block. -/
theorem assembling_openBlock {s t u : AnthropicSseState} {blocks : List (Nat × Value)}
    {r : Option ThinkingBlock} (h : Assembling s blocks r) {contentBlock : Value} {index : Nat}
    {frames : List AnthropicFrame} (hopen : s.openBlock contentBlock = (index, t, frames))
    (hread : readThinking contentBlock = none) (hnext : u.nextIndex = t.nextIndex)
    (hthinking : u.thinkingIndex = t.thinkingIndex) :
    Assembling u (frames.foldl clientStep blocks) r := by
  obtain ⟨hblocks, rfl, hlast⟩ := clientBlocks_openBlock h.below hopen
  have hindex : u.thinkingIndex = s.thinkingIndex := hthinking.trans (openBlock_fields hopen).1
  rw [hblocks]
  refine ⟨?_, ?_, ?_, ?_⟩
  · intro e he
    rw [hnext, hlast]
    rcases List.mem_append.mp he with he | he
    · exact (h.below e he).trans (Nat.lt_succ_self _)
    · obtain rfl := List.mem_singleton.mp he
      exact Nat.lt_succ_self _
  · rw [hindex, h.held]
  · intro e he hne
    rcases List.mem_append.mp he with he | he
    · exact h.plain e he (hindex ▸ hne)
    · obtain rfl := List.mem_singleton.mp he
      exact hread
  · rw [List.filterMap_append, h.thinking]
    simp [hread]

/-- Reaching for the text block does not show in the thinking blocks. -/
theorem assembling_textBlock {s t : AnthropicSseState} {blocks : List (Nat × Value)}
    {r : Option ThinkingBlock} (h : Assembling s blocks r) {index : Nat}
    {frames : List AnthropicFrame} (hblock : s.textBlock = (index, t, frames)) :
    Assembling t (frames.foldl clientStep blocks) r := by
  unfold AnthropicSseState.textBlock at hblock
  cases hindex : s.textIndex with
  | some i =>
      simp only [hindex, Prod.mk.injEq] at hblock
      obtain ⟨rfl, rfl, rfl⟩ := hblock
      exact h
  | none =>
      simp only [hindex, Prod.mk.injEq] at hblock
      obtain ⟨rfl, rfl, rfl⟩ := hblock
      refine assembling_openBlock h rfl ?_ rfl rfl
      simp [readThinking, Value.field, lookup]

/-- Reaching for a tool slot's block does not either. -/
theorem assembling_toolBlock {s t : AnthropicSseState} {blocks : List (Nat × Value)}
    {r : Option ThinkingBlock} (h : Assembling s blocks r) {slot : Nat}
    {id name : Option String} {index : Nat} {frames : List AnthropicFrame}
    (hblock : s.toolBlock slot id name = (index, t, frames)) :
    Assembling t (frames.foldl clientStep blocks) r := by
  unfold AnthropicSseState.toolBlock at hblock
  cases hindex : lookup slot s.toolBlocks with
  | some i =>
      simp only [hindex, Prod.mk.injEq] at hblock
      obtain ⟨rfl, rfl, rfl⟩ := hblock
      exact h
  | none =>
      simp only [hindex, Prod.mk.injEq] at hblock
      obtain ⟨rfl, rfl, rfl⟩ := hblock
      refine assembling_openBlock h rfl ?_ rfl rfl
      simp [readThinking, Value.field, lookup]

/-- Reaching for the thinking block: opened by the first text of the turn. -/
theorem assembling_thinkingBlock {s t : AnthropicSseState} {blocks : List (Nat × Value)}
    {r : Option ThinkingBlock} (h : Assembling s blocks r) {index : Nat}
    {frames : List AnthropicFrame} (hblock : s.thinkingBlock = (index, t, frames)) :
    Assembling t (frames.foldl clientStep blocks) (some (r.getD ⟨"", none⟩)) ∧
      t.thinkingIndex = some index := by
  have hheld := h.held
  unfold AnthropicSseState.thinkingBlock at hblock
  cases hindex : s.thinkingIndex with
  | some i =>
      simp only [hindex, Prod.mk.injEq] at hblock
      obtain ⟨rfl, rfl, rfl⟩ := hblock
      rw [hindex] at hheld
      obtain ⟨b, rfl⟩ := Option.isSome_iff_exists.mp hheld.symm
      exact ⟨h, hindex⟩
  | none =>
      rw [hindex] at hheld
      obtain rfl : r = none := by simpa using hheld.symm
      simp only [hindex] at hblock
      obtain ⟨i, u, fs, hopen⟩ : ∃ i u fs, s.openBlock (.obj [("type", .string "thinking"),
          ("thinking", .string "")]) = (i, u, fs) := ⟨_, _, _, rfl⟩
      rw [hopen] at hblock
      simp only [Prod.mk.injEq] at hblock
      obtain ⟨rfl, rfl, rfl⟩ := hblock
      obtain ⟨hblocks, rfl, hlast⟩ := clientBlocks_openBlock h.below hopen
      have hread : readThinking (.obj [("type", .string "thinking"),
          ("thinking", .string "")]) = some ⟨"", none⟩ := by
        simp [readThinking, Value.field, lookup]
      have hplain : ∀ e ∈ blocks, readThinking e.2 = none := fun e he =>
        h.plain e he (by simp [hindex])
      rw [hblocks]
      refine ⟨⟨?_, rfl, ?_, ?_⟩, rfl⟩
      · intro e he
        rw [hlast]
        rcases List.mem_append.mp he with he | he
        · exact (h.below e he).trans (Nat.lt_succ_self _)
        · obtain rfl := List.mem_singleton.mp he
          exact Nat.lt_succ_self _
      · intro e he hne
        rcases List.mem_append.mp he with he | he
        · exact hplain e he
        · obtain rfl := List.mem_singleton.mp he
          exact absurd rfl hne
      · rw [List.filterMap_append, h.thinking]
        simp [hread]

/-- An event adds its fragment to the client's thinking block. -/
theorem assembling_renderEvent {absorb : Usage → Usage → Usage} {s t : AnthropicSseState}
    {blocks : List (Nat × Value)} {r : Option ThinkingBlock} (h : Assembling s blocks r)
    {event : StreamEvent} (hcontent : event.isContent = true) {frames : List AnthropicFrame}
    (hevent : renderEvent absorb s event = (t, frames)) :
    Assembling t (frames.foldl clientStep blocks) ((fragment event).toList.foldl addFragment r) := by
  cases event with
  | thinkingDelta index blockIndex text =>
      obtain ⟨i, u, fs, hblock⟩ : ∃ i u fs, s.thinkingBlock = (i, u, fs) := ⟨_, _, _, rfl⟩
      simp only [renderEvent, hblock, Prod.mk.injEq] at hevent
      obtain ⟨rfl, rfl⟩ := hevent
      obtain ⟨hu, hi⟩ := assembling_thinkingBlock h hblock
      have hstep := hu.delta hi (readThinking_thinkingDelta · text)
      rw [List.foldl_append]
      cases r <;> simpa [fragment, addFragment] using hstep
  | delta index content =>
      obtain ⟨i, u, fs, hblock⟩ : ∃ i u fs, s.textBlock = (i, u, fs) := ⟨_, _, _, rfl⟩
      simp only [renderEvent, hblock, Prod.mk.injEq] at hevent
      obtain ⟨rfl, rfl⟩ := hevent
      rw [List.foldl_append]
      exact (assembling_textBlock h hblock).unread i (readThinking_textDelta · content)
  | toolCallDelta slot id name argumentsDelta =>
      obtain ⟨i, u, fs, hblock⟩ : ∃ i u fs, s.toolBlock slot id name = (i, u, fs) :=
        ⟨_, _, _, rfl⟩
      have hu := assembling_toolBlock h hblock
      simp only [renderEvent, hblock] at hevent
      split at hevent
      · cases hevent
        exact hu
      · cases hevent
        rw [List.foldl_append]
        exact hu.unread i (readThinking_inputDelta · argumentsDelta)
  | thinkingSignatureDelta index blockIndex text =>
      have hheld := h.held
      simp only [renderEvent] at hevent
      cases hindex : s.thinkingIndex with
      | some i =>
          simp only [hindex, Prod.mk.injEq] at hevent
          obtain ⟨rfl, rfl⟩ := hevent
          rw [hindex] at hheld
          obtain ⟨b, rfl⟩ := Option.isSome_iff_exists.mp hheld.symm
          exact h.delta hindex (readThinking_signatureDelta · text)
      | none =>
          simp only [hindex, Prod.mk.injEq] at hevent
          obtain ⟨rfl, rfl⟩ := hevent
          rw [hindex] at hheld
          obtain rfl : r = none := by simpa using hheld.symm
          exact h
  | redactedThinking =>
      cases hevent
      exact h
  | usage =>
      cases hevent
      exact ⟨h.below, h.held, h.plain, h.thinking⟩
  | finish =>
      cases hevent
      exact ⟨h.below, h.held, h.plain, h.thinking⟩
  | done => cases hcontent
  | error => cases hcontent

/-- The terminal frames leave the client's blocks as they are. -/
theorem clientBlocks_renderDone {s t : AnthropicSseState} {finishReason : Option FinishReason}
    {stopSequence : Option String} {frames : List AnthropicFrame}
    (h : renderDone s finishReason stopSequence = (t, frames)) (blocks : List (Nat × Value)) :
    frames.foldl clientStep blocks = blocks ∧ t = .new t.model t.messageId := by
  simp only [renderDone, AnthropicSseState.closeOpenBlocks, Prod.mk.injEq] at h
  obtain ⟨rfl, rfl⟩ := h
  refine ⟨foldl_clientStep_silent blocks ?_, rfl⟩
  intro f hf
  simp only [List.mem_append, List.mem_map, List.mem_cons, List.not_mem_nil, or_false] at hf
  rcases hf with (hf | ⟨i, -, rfl⟩) | rfl | rfl
  · exact ensureMessageStart_silent s f hf
  · simp [blockStop]
  · simp [messageDelta]
  · simp [messageStop]

/-! ## Runs -/

theorem goes_on_of_content {event : StreamEvent} (h : event.isContent = true) :
    (!isError event) = true ∧ isDone event = false := by
  cases event <;> first | exact ⟨rfl, rfl⟩ | cases h

/-- The events of a turn that a `Done` follows are split off. -/
theorem turns_done {turn : List StreamEvent} (h : ∀ event ∈ turn, event.isContent = true)
    (finishReason : Option FinishReason) (stopSequence : Option String)
    (events : List StreamEvent) :
    turns (turn ++ .done finishReason stopSequence :: events) = turn :: turns events := by
  have hlive := fun event hevent => goes_on_of_content (h event hevent)
  unfold turns
  rw [List.takeWhile_append_of_pos fun event hevent => (hlive event hevent).1,
    List.takeWhile_cons_of_pos (by rfl),
    List.splitOnP_append_cons_of_forall_mem (fun event hevent => (hlive event hevent).2) _ (by rfl),
    List.dropLast_cons_of_ne_nil (List.splitOnP_ne_nil _ _)]

/-- A turn that nothing or an error follows is not closed. -/
theorem turns_open {turn : List StreamEvent} (h : ∀ event ∈ turn, event.isContent = true)
    {events : List StreamEvent} (hend : (events.takeWhile fun event => !isError event) = []) :
    turns (turn ++ events) = [] := by
  have hlive := fun event hevent => goes_on_of_content (h event hevent)
  unfold turns
  rw [List.takeWhile_append_of_pos fun event hevent => (hlive event hevent).1, hend,
    List.append_nil, List.splitOnP_eq_singleton fun event hevent => (hlive event hevent).2]
  rfl

/-- The closed messages of a run hold the one block their turn rendered. -/
theorem clientThinking_run (absorb : Usage → Usage → Usage) (events : List StreamEvent)
    {s : AnthropicSseState} {m : List AnthropicFrame} {turn : List StreamEvent}
    (h : Rendering s m) (hturn : ∀ event ∈ turn, event.isContent = true)
    (hclient : Assembling s (clientBlocks m) (renderedThinking (fragments turn))) :
    (messages (m ++ (anthropicFrames absorb s events).2)).dropLast.map clientThinking =
      (turns (turn ++ events)).map fun turn => (renderedThinking (fragments turn)).toList := by
  induction events generalizing s m turn with
  | nil =>
      rw [turns_open hturn rfl, anthropicFrames, List.append_nil,
        messages_of_live fun f hf => (h.running.live f hf).1]
      rfl
  | cons event events ih =>
      obtain ⟨t, frames, hevent⟩ : ∃ t frames, renderEvent absorb s event = (t, frames) :=
        ⟨_, _, rfl⟩
      have hrun : (anthropicFrames absorb s (event :: events)).2 =
          frames ++ (anthropicFrames absorb t events).2 := by
        simp [anthropicFrames, h.active, hevent]
      rw [hrun]
      by_cases hcontent : event.isContent = true
      · have hstep := assembling_renderEvent hclient hcontent hevent
        rw [← List.append_assoc, ← List.singleton_append, ← List.append_assoc]
        refine ih (rendering_renderEvent h hcontent hevent) ?_ ?_
        · intro e he
          rcases List.mem_append.mp he with he | he
          · exact hturn e he
          · obtain rfl := List.mem_singleton.mp he
            exact hcontent
        · rw [clientBlocks_append]
          have hfragments : fragments (turn ++ [event]) =
              fragments turn ++ (fragment event).toList := by
            simp only [fragments, List.filterMap_append]
            cases hf : fragment event <;> simp [hf]
          rw [hfragments, renderedThinking, List.foldl_append]
          exact hstep
      · cases event with
        | done finishReason stopSequence =>
            obtain ⟨last, rfl, -, -, hlive, ht⟩ := closed_renderDone h hevent
            obtain ⟨hblocks, hnew⟩ := clientBlocks_renderDone hevent (clientBlocks m)
            have hsilent : clientBlocks (m ++ last) = clientBlocks m := by
              rw [List.foldl_append, List.foldl_cons, List.foldl_nil,
                clientStep_silent _ (by simp [messageStop]) (by simp [messageStop])] at hblocks
              rw [clientBlocks_append, hblocks]
            have hclient' : Assembling t (clientBlocks []) (renderedThinking (fragments [])) :=
              hnew ▸ assembling_new _ _
            have hrest := ih ht (by simp) hclient'
            have hmessages : messages (m ++ last ++ messageStop ::
                (anthropicFrames absorb t events).2) =
                  (m ++ last) :: messages (anthropicFrames absorb t events).2 :=
              messages_closed fun f hf => (hlive f hf).1
            have hne : messages (anthropicFrames absorb t events).2 ≠ [] :=
              List.splitOnP_ne_nil _ _
            rw [List.nil_append, List.nil_append] at hrest
            rw [turns_done hturn, List.map_cons, ← hrest, ← List.append_assoc, ← List.append_assoc,
              List.append_assoc, List.singleton_append, hmessages,
              List.dropLast_cons_of_ne_nil hne, List.map_cons]
            congr 1
            rw [clientThinking, hsilent, hclient.thinking]
        | error =>
            cases hevent
            rw [anthropicFrames_terminated absorb rfl, List.append_nil, turns_open hturn rfl,
              messages_of_live]
            · rfl
            · intro f hf
              rcases List.mem_append.mp hf with hf | hf
              · exact (h.running.live f hf).1
              · obtain rfl := List.mem_singleton.mp hf
                simp [errorFrame]
        | _ => exact absurd rfl hcontent

/-! ## The envelope of the complete response -/

/-- The block of a thinking part. -/
def thinkingPart : ContentPart → Option ThinkingBlock
  | .thinking thinking signature => some ⟨thinking, signature⟩
  | _ => none

/-- The thinking parts of a message. -/
def thinkingParts (message : Message) : List ThinkingBlock :=
  match message.content with
  | some (.parts parts) => parts.filterMap thinkingPart
  | _ => []

/-- A message assembled from the fragments: its thinking parts are the blocks
they name, and it has no part the codec does not model. -/
structure Assembles (fs : List ThinkingFragment) (message : Message) : Prop where
  thinking : thinkingParts message = assembledThinking fs
  modelled : ∀ parts, message.content = some (.parts parts) →
    ∀ value, ContentPart.unknown value ∉ parts

theorem readThinking_partBlock {part : ContentPart} (h : ∀ value, part ≠ .unknown value) :
    (partBlock part).bind readThinking = thinkingPart part := by
  cases part with
  | thinking text signature =>
      cases signature with
      | none => simp [partBlock, thinkingPart, readThinking, Value.field, lookup]
      | some signature =>
          simp [partBlock, thinkingPart, readThinking, Value.field, Value.get_set, lookup]
  | unknown value => exact absurd rfl (h value)
  | redactedThinking data => simp [partBlock, thinkingPart, readThinking, Value.field, lookup]
  | text => rfl
  | imageUrl => rfl

/-- The blocks of a message are read back as its thinking parts. -/
theorem readThinking_messageBlocks {packages : Packages} {quoted : String → String}
    {messageId : String} {message : Message} {blocks : List Value}
    (hmodelled : ∀ parts, message.content = some (.parts parts) →
      ∀ value, ContentPart.unknown value ∉ parts)
    (h : messageBlocks packages quoted messageId message = .ok blocks) :
    blocks.filterMap readThinking = thinkingParts message := by
  simp only [messageBlocks, Checked.bind_eq_ok, Checked.pure_eq_ok] at h
  obtain ⟨tools, htools, rfl⟩ := h
  have hread : tools.filterMap readThinking = [] := by
    rw [List.filterMap_eq_nil_iff]
    intro block hblock
    obtain ⟨call, -, hcall⟩ := Checked.mem_mapM htools hblock
    unfold toolUseBlock at hcall
    split at hcall
    · cases hcall
    · cases hcall
      simp [readThinking, Value.field, lookup]
  have htext : (if (visibleText message.content).isEmpty then []
      else [Value.obj [("type", .string "text"),
        ("text", .string (visibleText message.content))]]).filterMap readThinking = [] := by
    split <;> simp [readThinking, Value.field, lookup]
  rw [List.filterMap_append, List.filterMap_append, hread, htext, List.append_nil,
    List.append_nil]
  unfold thinkingParts
  cases hcontent : message.content with
  | none => rfl
  | some content =>
      cases content with
      | text => rfl
      | parts parts =>
          simp only [List.filterMap_filterMap]
          refine List.filterMap_congr fun part hpart => readThinking_partBlock ?_
          rintro value rfl
          exact hmodelled parts hcontent value hpart

/-- What a client assembles from the frames of a stream is, for every turn, the
thinking blocks its events name, if and only if every turn keeps to one block;
the envelope of the complete response always carries them. -/
theorem stream_thinking_blocks_iff (absorb : Usage → Usage → Usage) (model messageId : String)
    (events : List StreamEvent) (packages : Packages) (quoted : String → String) :
    ((messages (anthropicFrames absorb (.new model messageId) events).2).dropLast.map
        clientThinking = (turns events).map (fun turn => assembledThinking (fragments turn)) ↔
      ∀ turn ∈ turns events, KeptApart (fragments turn)) ∧
    ∀ turn ∈ turns events, ∀ response choice fallbackId value, response.choices = [choice] →
      Assembles (fragments turn) choice.message →
      anthropicMessageResponse packages quoted response fallbackId = .ok value →
      messageThinking value = assembledThinking (fragments turn) := by
  constructor
  · have hrun := clientThinking_run absorb events (rendering_new model messageId)
      (by simp : ∀ event ∈ ([] : List StreamEvent), event.isContent = true)
      (assembling_new model messageId)
    rw [List.nil_append, List.nil_append] at hrun
    rw [hrun, List.map_inj_left]
    exact forall₂_congr fun turn _ => renderedThinking_iff (fragments turn)
  · intro turn _ response choice fallbackId value hchoices hassembles hvalue
    obtain ⟨choice', blocks, hchoices', hblocks, hcontent⟩ :=
      anthropicMessageResponse_content packages quoted hvalue
    rw [hchoices, List.singleton_inj] at hchoices'
    subst hchoices'
    rw [messageThinking, hcontent, Value.asArray_array, Option.getD_some,
      readThinking_messageBlocks hassembles.modelled hblocks, hassembles.thinking]

/-- Two signed blocks of one turn, as interleaved thinking produces them. -/
def interleavedThinking : List StreamEvent :=
  [.thinkingDelta 0 0 "a", .thinkingSignatureDelta 0 0 "s", .thinkingDelta 0 1 "b",
    .thinkingSignatureDelta 0 1 "t", .done none none]

/-- The client holds one block with both texts and both signatures. -/
theorem interleaved_thinking_merged :
    (messages (anthropicFrames (fun _ report => report) (.new "m" "msg_1")
        interleavedThinking).2).dropLast.map clientThinking = [[⟨"ab", some "st"⟩]] ∧
      (messages (anthropicFrames (fun _ report => report) (.new "m" "msg_1")
        interleavedThinking).2).dropLast.map clientThinking ≠
      (turns interleavedThinking).map (fun turn => assembledThinking (fragments turn)) := by
  decide +kernel

end TokenStation.Anthropic
