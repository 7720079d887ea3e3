import TokenStation.Library.Fallible
import TokenStation.Responses.Replay
import TokenStation.Responses.Tools

/-!
# The Responses stream renderer

One render state per stream turns canonical events into Responses frames. A
call renders a batch of events into frames; when it fails, no frame of the
call is handed out, the numbering goes back to where it was and only an error
event can end the stream.
-/

namespace TokenStation.Responses

open Library Library.Json Library.Fallible

/-! ## State -/

inductive SlotKind where
  | text
  | reasoning
  | tool
deriving DecidableEq, Repr

/-- One output item; `index` is its place in the output. -/
structure Slot where
  kind : SlotKind
  index : Nat
  sourceIndex : Nat
  id : String
  text : String
  signature : String
  callId : String
  name : String
  closed : Bool
deriving DecidableEq, Repr

/-- Append to the text of a slot. -/
def Slot.write (slot : Slot) (text : String) : Slot := { slot with text := slot.text ++ text }

def Slot.sign (slot : Slot) (signature : String) : Slot :=
  { slot with signature := slot.signature ++ signature }

def Slot.rename (slot : Slot) (name : String) : Slot := { slot with name := name }

/-- Give a tool slot the identity of its call. -/
def Slot.identify (slot : Slot) (callId name id : String) : Slot :=
  { slot with callId := callId, name := name, id := id }

inductive ReplayBlockState where
  | thinking (thinking signature : String)
  | redacted (data : String)
deriving DecidableEq, Repr

structure ReplayUsage where
  layoutCount : Nat
  opaqueBytes : Nat
  oversizedReference : Bool
deriving DecidableEq, Repr

inductive ReplayLayout where
  | reasoning (index blockIndex : Nat)
  | text (position : Nat)
  | tool (position : Nat)
deriving DecidableEq, Repr

inductive StreamStatus where
  | active
  | awaitingError
  | completed
  | failed
deriving DecidableEq, Repr

/-- What the output items are made of. The tables are maps of the source whose
order is never observed. -/
structure Items where
  context : ResponsesContext
  slots : List Slot
  lookup : List ((SlotKind × Nat) × Nat)
  restore : Option ToolMap
  replayBlocks : List ((Nat × Nat) × ReplayBlockState)
  replayLayout : List ReplayLayout
  replayActive : List Nat
  replayCarriers : List (Nat × String)

/-- One stream's render state. -/
structure ResponsesSseState extends Items where
  status : StreamStatus
  created : Bool
  sequence : Nat
  usage : Usage
  finish : Option FinishReason
  lastReplayBlock : List (Nat × Nat)
  replayUsage : List (Nat × ReplayUsage)

/-- A render state and the frames of the current call. -/
structure Rendering extends ResponsesSseState where
  out : List ResponsesFrame

abbrev Render := Fallible CodecError Rendering

namespace Items

/-- The slot at a position. Positions come from `slot`, so there always is one. -/
def slotAt (s : Items) (position : Nat) : Slot :=
  s.slots.getD position ⟨.text, 0, 0, "", "", "", "", "", false⟩

def hasReplay (s : Items) (index : Nat) : Bool := s.replayActive.contains index

/-- Whether a choice has any thinking block. -/
def hasReplayBlocks (s : Items) (index : Nat) : Bool :=
  s.replayBlocks.any fun block => block.1.1 == index

/-- The open slot of a kind for a source index. -/
def openSlot (s : Items) (kind : SlotKind) (index : Nat) : Option Nat :=
  (Library.lookup (kind, index) s.lookup).filter fun position => !(s.slotAt position).closed

end Items

def idPrefix : SlotKind → String
  | .text => "msg"
  | .reasoning => "rs"
  | .tool => "fc"

/-- The slot a new item starts with. -/
def Items.newSlot (s : Items) (kind : SlotKind) (index : Nat) : Slot :=
  let id := idPrefix kind ++ "_" ++ s.context.responseId ++ "_" ++ toString s.slots.length
  ⟨kind, s.slots.length, index, id, "", "", "", "", false⟩

namespace ResponsesSseState

def new (context : ResponsesContext) : ResponsesSseState :=
  ⟨⟨context, [], [], none, [], [], [], []⟩, .active, false, 0, .default, none, [], []⟩

def isTerminated (s : ResponsesSseState) : Bool :=
  s.status == .completed || s.status == .failed

def usageOf (s : ResponsesSseState) (index : Nat) : ReplayUsage :=
  (Library.lookup index s.replayUsage).getD ⟨0, 0, false⟩

/-- Whether one more piece fits the replay bounds of a choice. -/
def fits (s : ResponsesSseState) (index currentBlockBytes appendedBytes : Nat)
    (newLayout : Bool) : Bool :=
  let usage := s.usageOf index
  !usage.oversizedReference && currentBlockBytes + appendedBytes ≤ maxOpaqueBlockBytes &&
    usage.opaqueBytes + appendedBytes ≤ maxOpaqueTotalBytes &&
    usage.layoutCount + newLayout.toNat ≤ maxBlocks

def clearFailedBuffers (s : ResponsesSseState) : ResponsesSseState :=
  { s with
    slots := [], lookup := [], restore := none, replayBlocks := [], replayLayout := [],
    lastReplayBlock := [], replayUsage := [], replayActive := [], replayCarriers := [] }

end ResponsesSseState

/-! ## Items and the response object -/

def reasoningItem (id text : String) (signature : Option String) (context : ResponsesContext) :
    Value :=
  let item := match context.reasoning with
    | .rawContent => Value.obj [("type", .string "reasoning"), ("id", .string id),
        ("summary", .array []),
        ("content", .array [.obj [("type", .string "reasoning_text"), ("text", .string text)]])]
    | .summary => Value.obj [("type", .string "reasoning"), ("id", .string id),
        ("status", .string "completed"),
        ("summary", .array [.obj [("type", .string "summary_text"), ("text", .string text)]])]
  if context.renderLegacyEncryptedReasoning then
    item.set "encrypted_content" ((signature.map .string).getD .null)
  else item

/-- The text of all message items. -/
def outputText (output : List Value) : String :=
  let texts := (output.filter fun v => (v.field "type").asStr == some "message").flatMap fun v =>
    ((v.field "content").asArray.getD []).filterMap fun part => (part.field "text").asStr
  texts.foldl (· ++ ·) ""

def incompleteReason : Option FinishReason → Option String
  | some .length => some "max_output_tokens"
  | some .contentFilter => some "content_filter"
  | _ => none

def responseObject (context : ResponsesContext) (output : List Value) (usage : Usage)
    (finish : Option FinishReason) : Except CodecError Value :=
  if usage.inputTokens + usage.outputTokens < 2 ^ 64 then
    let incomplete := incompleteReason finish
    .ok (.obj [("id", .string context.responseId), ("object", .string "response"),
      ("created_at", .int context.createdAt), ("model", .string context.model),
      ("status", .string (if incomplete.isSome then "incomplete" else "completed")),
      ("error", .null),
      ("incomplete_details",
        (incomplete.map fun reason => .obj [("reason", .string reason)]).getD .null),
      ("output", .array output), ("output_text", .string (outputText output)),
      ("usage", .obj [("input_tokens", .nat usage.inputTokens),
        ("output_tokens", .nat usage.outputTokens),
        ("total_tokens", .nat (usage.inputTokens + usage.outputTokens)),
        ("input_tokens_details", .obj [("cached_tokens", .nat usage.cacheReadTokens),
          ("cache_write_tokens", .nat usage.cacheWriteTokens)]),
        ("output_tokens_details", .obj [("reasoning_tokens", .nat usage.reasoningTokens)])])])
  else .error (invalid "usage.total_tokens" "token total overflow")

def errorCode : ErrorCode → String
  | .invalidRequest => "invalid_request"
  | .auth => "authentication_error"
  | .paymentRequired => "insufficient_quota"
  | .rateLimit => "rate_limit_exceeded"
  | .capacity => "server_overloaded"
  | .capability => "unsupported_capability"
  | .contextLength => "context_length_exceeded"
  | .contentPolicy => "invalid_prompt"
  | .upstreamUnavailable | .transportTruncated => "server_error"
  | .providerProtocolError => "upstream_protocol_error"
  | .timeout => "timeout"
  | .internal => "internal_error"

def failedResponse (context : ResponsesContext) (error : ErrorEnvelope) : Value :=
  .obj [("id", .string context.responseId), ("object", .string "response"),
    ("created_at", .int context.createdAt), ("model", .string context.model),
    ("status", .string "failed"), ("output", .array []),
    ("error", .obj [("type", .string "server_error"), ("code", .string (errorCode error.code)),
      ("message", .string error.message)])]

/-! ## Emitting frames and finding slots -/

/-- A payload with the frame's type and number. -/
def stamp (kind : String) (data : Value) (sequence : Nat) : Value :=
  (data.set "type" (.string kind)).set "sequence_number" (.nat sequence)

def emit (kind : String) (data : Value) : Render Unit := do
  let s ← get
  if s.sequence + 1 < 2 ^ 64 then
    modify fun s => { s with
      sequence := s.sequence + 1, out := s.out ++ [⟨kind, stamp kind data s.sequence⟩] }
  else fail (invalid "sequence_number" "stream event count overflow")

def createdPayload (context : ResponsesContext) : Value :=
  .obj [("response", .obj [("id", .string context.responseId), ("object", .string "response"),
    ("created_at", .int context.createdAt), ("model", .string context.model),
    ("status", .string "in_progress"), ("output", .array [])])]

/-- Announce the response, once. -/
def start : Render Unit := do
  let s ← get
  when (!s.created) do
    modify fun s => { s with created := true }
    emit "response.created" (createdPayload s.context)

/-- The slot of a kind for a source index, and whether it is new. -/
def slot (kind : SlotKind) (index : Nat) : Render (Nat × Bool) := do
  let s ← get
  match s.openSlot kind index with
  | some position => pure (position, false)
  | none =>
      let position := s.slots.length
      if position < 2 ^ 32 then do
        modify fun s => { s with
          slots := s.slots ++ [s.newSlot kind index],
          lookup := store (kind, index) position s.lookup }
        pure (position, true)
      else fail (invalid "output_index" "too many output items")

def updateSlot (position : Nat) (f : Slot → Slot) : Render Unit :=
  modify fun s => { s with slots := s.slots.modify position f }

section

variable (packages : Packages)

/-- The output item of a slot. -/
def Items.item (s : Items) (slot : Slot) : Except CodecError Value :=
  match slot.kind with
  | .text => .ok (.obj [("type", .string "message"), ("id", .string slot.id),
      ("role", .string "assistant"), ("status", .string "completed"),
      ("content", .array [.obj [("type", .string "output_text"), ("text", .string slot.text)]])])
  | .reasoning =>
      let item := reasoningItem slot.id slot.text
        (if slot.signature = "" then none else some slot.signature) s.context
      match Library.lookup slot.sourceIndex s.replayCarriers with
      | some carrier => .ok (item.set "encrypted_content" (.string carrier))
      | none => .ok item
  | .tool =>
      match s.restore with
      | none => .error (invalid "tools" "missing render context")
      | some map => toolItem packages slot.callId slot.name slot.text "completed" map

/-! ## Closing items -/

/-- The frames that end the content of an item. -/
def closeContent (s : Rendering) (slot : Slot) (item : Value) : Render Unit :=
  let itemFields := [("item_id", Value.string slot.id), ("output_index", .nat slot.index)]
  match slot.kind with
  | .text => do
      emit "response.output_text.done"
        (.obj (itemFields ++ [("content_index", .nat 0), ("text", .string slot.text)]))
      emit "response.content_part.done" (.obj (itemFields ++ [("content_index", .nat 0),
        ("part", .obj [("type", .string "output_text"), ("text", .string slot.text)])]))
  | .reasoning =>
      match s.context.reasoning with
      | .rawContent => emit "response.reasoning_text.done"
          (.obj (itemFields ++ [("content_index", .nat 0), ("text", .string slot.text)]))
      | .summary => do
          emit "response.reasoning_summary_text.done"
            (.obj (itemFields ++ [("summary_index", .nat 0), ("text", .string slot.text)]))
          emit "response.reasoning_summary_part.done" (.obj (itemFields ++
            [("summary_index", .nat 0),
              ("part", .obj [("type", .string "summary_text"), ("text", .string slot.text)])]))
  | .tool =>
      match s.restore.bind (Library.lookup slot.name) with
      | some .custom =>
          let fields := [("item_id", item.field "id"), ("output_index", .nat slot.index)]
          match (customInput packages slot.text).asStr with
          | none => fail (invalid "tool_calls.arguments.input" "custom tool input must be a string")
          | some input => do
              when (input != "") (emit "response.custom_tool_call_input.delta"
                (.obj (fields ++ [("delta", .string input)])))
              emit "response.custom_tool_call_input.done"
                (.obj (fields ++ [("input", .string input)]))
      | some .shell => emit "response.output_item.added"
          (.obj [("output_index", .nat slot.index), ("item", item)])
      | _ => emit "response.function_call_arguments.done"
          (.obj (itemFields ++ [("arguments", .string slot.text)]))

/-- End one item, once. -/
def close (position : Nat) : Render Unit := do
  let s ← get
  let slot := s.slotAt position
  when (!slot.closed) do
    let item ← lift (s.item packages slot)
    closeContent packages s slot item
    emit "response.output_item.done" (.obj [("output_index", .nat slot.index), ("item", item)])
    updateSlot position fun slot => { slot with closed := true }

/-- In raw mode, text and tool calls end the reasoning before them, unless it
is going to be replayed. -/
def closeRawReasoning (index : Nat) : Render Unit := do
  let s ← get
  when (!s.hasReplay index && s.context.reasoning == .rawContent)
    ((List.range s.slots.length).forM fun position => do
      let s ← get
      let slot := s.slotAt position
      when (slot.kind == .reasoning && slot.sourceIndex == index) (close packages position))

/-! ## Replay bookkeeping -/

def preflightReplayAppend (index currentBlockBytes appendedBytes : Nat) (newLayout : Bool) :
    Render Unit := do
  let s ← get
  if s.fits index currentBlockBytes appendedBytes newLayout then pure () else fail replayInvalid

def recordReplayAppend (index appendedBytes : Nat) (newLayout : Bool) : Render Unit :=
  modify fun s =>
    let usage := s.usageOf index
    { s with replayUsage := store index { usage with
        opaqueBytes := usage.opaqueBytes + appendedBytes,
        layoutCount := usage.layoutCount + newLayout.toNat } s.replayUsage }

def recordNonReplayLayout (index opaqueBytes : Nat) : Render Unit :=
  modify fun s =>
    let usage := s.usageOf index
    { s with replayUsage := store index ⟨usage.layoutCount + 1, usage.opaqueBytes + opaqueBytes,
        usage.oversizedReference || maxOpaqueBlockBytes < opaqueBytes⟩ s.replayUsage }

def pushLayout (entry : ReplayLayout) : Render Unit :=
  modify fun s => { s with replayLayout := s.replayLayout ++ [entry] }

/-- Blocks of a choice appear in increasing order. -/
def ensureReplayBlockOrder (index blockIndex : Nat) : Render Unit := do
  let s ← get
  if (Library.lookup (index, blockIndex) s.replayBlocks).isSome then pure ()
  else if (Library.lookup index s.lastReplayBlock).any (blockIndex ≤ ·) then fail replayInvalid
  else do
    modify fun s => { s with lastReplayBlock := store index blockIndex s.lastReplayBlock }
    pushLayout (.reasoning index blockIndex)

def storeReplayBlock (index blockIndex : Nat) (block : ReplayBlockState) : Render Unit :=
  modify fun s => { s with replayBlocks := store (index, blockIndex) block s.replayBlocks }

def activateReplay (index : Nat) : Render Unit :=
  modify fun s =>
    { s with replayActive := if s.hasReplay index then s.replayActive else index :: s.replayActive }

/-- The blocks of one choice's turn, in the order of the stream. -/
def Items.replayBlocksOf (s : Items) (index ordinal : Nat) :
    List ReplayLayout → Except CodecError (List ReasoningReplayBlock)
  | [] => .ok []
  | .reasoning choice blockIndex :: rest =>
      if choice = index then
        match Library.lookup (choice, blockIndex) s.replayBlocks with
        | none => .error replayInvalid
        | some (.thinking thinking signature) =>
            if signature = "" then .error replayInvalid
            else (s.replayBlocksOf index ordinal rest).map (.thinking thinking signature :: ·)
        | some (.redacted data) =>
            (s.replayBlocksOf index ordinal rest).map (.redactedThinking data :: ·)
      else s.replayBlocksOf index ordinal rest
  | .text position :: rest =>
      if s.slots[position]?.any fun slot => slot.kind == .text && slot.sourceIndex == index then
        if ordinal + 1 < 2 ^ 32 then
          (s.replayBlocksOf index (ordinal + 1) rest).map (.textRef ordinal :: ·)
        else .error replayInvalid
      else s.replayBlocksOf index ordinal rest
  | .tool position :: rest =>
      match s.slots[position]?.filter fun slot =>
          slot.kind == .tool && slot.sourceIndex == index with
      | none => s.replayBlocksOf index ordinal rest
      | some slot =>
          if slot.callId = "" then .error replayInvalid
          else (s.replayBlocksOf index ordinal rest).map (.toolCallRef slot.callId :: ·)

def Items.buildReplayCarrier (s : Items) (index : Nat) :
    Except CodecError String := do
  let blocks ← s.replayBlocksOf index 0 s.replayLayout
  encodeReasoningReplayCarrier packages blocks

def finalizeReplayCarriers : Render Unit := do
  let s ← get
  s.replayActive.forM fun index => do
    let s ← get
    let carrier ← lift (s.buildReplayCarrier packages index)
    modify fun s => { s with replayCarriers := store index carrier s.replayCarriers }

/-! ## Rendering events -/

/-- Announce a new text item. -/
def openText (position index : Nat) : Render Unit := do
  let s ← get
  let slot := s.slotAt position
  when (s.hasReplayBlocks index) (preflightReplayAppend index 0 0 true)
  pushLayout (.text position)
  recordNonReplayLayout index 0
  emit "response.output_item.added" (.obj [("output_index", .nat slot.index),
    ("item", .obj [("type", .string "message"), ("id", .string slot.id),
      ("status", .string "in_progress"), ("role", .string "assistant"), ("content", .array [])])])
  emit "response.content_part.added" (.obj [("item_id", .string slot.id),
    ("output_index", .nat slot.index), ("content_index", .nat 0),
    ("part", .obj [("type", .string "output_text"), ("text", .string ""),
      ("annotations", .array [])])])

def renderDelta (index : Nat) (content : String) : Render Unit := do
  closeRawReasoning packages index
  let (position, new) ← slot .text index
  when new (openText position index)
  updateSlot position (·.write content)
  let slot := (← get).slotAt position
  emit "response.output_text.delta" (.obj [("item_id", .string slot.id),
    ("output_index", .nat slot.index), ("content_index", .nat 0), ("delta", .string content)])

/-- Announce a new reasoning item. -/
def addReasoning (position : Nat) : Render Unit := do
  let slot := (← get).slotAt position
  emit "response.output_item.added" (.obj [("output_index", .nat slot.index),
    ("item", .obj [("type", .string "reasoning"), ("id", .string slot.id),
      ("status", .string "in_progress"), ("summary", .array [])])])

/-- In summary mode a thinking fragment also opens the summary part. -/
def openThinking (position : Nat) : Render Unit := do
  addReasoning position
  let s ← get
  let slot := s.slotAt position
  when (s.context.reasoning == .summary)
    (emit "response.reasoning_summary_part.added" (.obj [("item_id", .string slot.id),
      ("output_index", .nat slot.index), ("summary_index", .nat 0),
      ("part", .obj [("type", .string "summary_text"), ("text", .string "")])]))

/-- Add a fragment to a thinking block, or open the block with it. -/
def appendThinking (index blockIndex : Nat) (thinkingDelta : String) : Render Unit := do
  let s ← get
  let added := thinkingDelta.utf8ByteSize
  match Library.lookup (index, blockIndex) s.replayBlocks with
  | none => do
      preflightReplayAppend index 0 added true
      ensureReplayBlockOrder index blockIndex
      storeReplayBlock index blockIndex (.thinking thinkingDelta "")
      recordReplayAppend index added true
  | some (.thinking thinking signature) => do
      preflightReplayAppend index (thinking.utf8ByteSize + signature.utf8ByteSize) added false
      storeReplayBlock index blockIndex (.thinking (thinking ++ thinkingDelta) signature)
      recordReplayAppend index added false
  | some (.redacted _) => fail replayInvalid

def renderThinkingDelta (index blockIndex : Nat) (thinkingDelta : String) : Render Unit := do
  appendThinking index blockIndex thinkingDelta
  let (position, new) ← slot .reasoning index
  when new (openThinking position)
  updateSlot position (·.write thinkingDelta)
  let s ← get
  let slot := s.slotAt position
  let fields := [("item_id", Value.string slot.id), ("output_index", .nat slot.index),
    ("delta", .string thinkingDelta)]
  match s.context.reasoning with
  | .rawContent => emit "response.reasoning_text.delta" (.obj (fields ++ [("content_index", .nat 0)]))
  | .summary =>
      emit "response.reasoning_summary_text.delta" (.obj (fields ++ [("summary_index", .nat 0)]))

def renderSignatureDelta (index blockIndex : Nat) (signatureDelta : String) : Render Unit := do
  let s ← get
  match Library.lookup (index, blockIndex) s.replayBlocks with
  | some (.thinking thinking signature) => do
      let added := signatureDelta.utf8ByteSize
      preflightReplayAppend index (thinking.utf8ByteSize + signature.utf8ByteSize) added false
      storeReplayBlock index blockIndex (.thinking thinking (signature ++ signatureDelta))
      recordReplayAppend index added false
      when (signatureDelta != "") (activateReplay index)
      let (position, new) ← slot .reasoning index
      when new (addReasoning position)
      when s.context.renderLegacyEncryptedReasoning (updateSlot position (·.sign signatureDelta))
  | _ => fail replayInvalid

def renderRedacted (index blockIndex : Nat) (data : String) : Render Unit := do
  let s ← get
  if (Library.lookup (index, blockIndex) s.replayBlocks).isSome then fail replayInvalid
  else do
    preflightReplayAppend index 0 data.utf8ByteSize true
    ensureReplayBlockOrder index blockIndex
    storeReplayBlock index blockIndex (.redacted data)
    recordReplayAppend index data.utf8ByteSize true
    activateReplay index
    let (position, new) ← slot .reasoning index
    when new (addReasoning position)

/-- The identity a first tool fragment announces. -/
def firstIdentity (context : ResponsesContext) (index : Nat) (id name : Option String) :
    Except CodecError (String × String) :=
  if context.allowIncompleteToolCalls then
    .ok (id.getD ("call_" ++ context.responseId ++ "_" ++ toString index), name.getD "")
  else
    match id, name with
    | none, _ => .error (invalid "tool_call.id" "first fragment requires an id")
    | some _, none => .error (invalid "tool_call.name" "first fragment requires a name")
    | some id, some name => .ok (id, name)

def isCustom (map : ToolMap) (name : String) : Bool :=
  Library.lookup name map == some .custom

/-- Announce a new tool call; a local shell call is announced when it closes. -/
def openTool (position index : Nat) (id name : Option String) : Render Unit := do
  let s ← get
  let (callId, callName) ← lift (firstIdentity s.context index id name)
  match s.restore with
  | none => fail (invalid "tools" "missing context")
  | some map => do
      when (s.hasReplayBlocks index) (preflightReplayAppend index 0 callId.utf8ByteSize true)
      pushLayout (.tool position)
      recordNonReplayLayout index callId.utf8ByteSize
      updateSlot position (·.identify callId callName
        ((if isCustom map callName then "ctc_" else "fc_") ++ callId))
      when (callName != localShell) do
        let item ← lift (toolItem packages callId callName "" "in_progress" map)
        let slot := (← get).slotAt position
        emit "response.output_item.added" (.obj [("output_index", .nat slot.index), ("item", item)])

/-- A later fragment keeps the identity; a missing name may still arrive where
incomplete calls are allowed. -/
def continueTool (position : Nat) (id name : Option String) : Render Unit := do
  let s ← get
  let slot := s.slotAt position
  if id.any (· != slot.callId) then
    fail (invalid "tool_call.id" "identity changed between fragments")
  else
    match name with
    | none => pure ()
    | some name =>
        if slot.name = "" ∧ s.context.allowIncompleteToolCalls = true then
          updateSlot position (·.rename name)
        else if name = slot.name then pure ()
        else fail (invalid "tool_call.name" "identity changed between fragments")

def renderTool (index : Nat) (id name : Option String) (argumentsDelta : String) :
    Render Unit := do
  closeRawReasoning packages index
  let (position, new) ← slot .tool index
  (if new then openTool packages position index id name else continueTool position id name)
  updateSlot position (·.write argumentsDelta)
  let s ← get
  let slot := s.slotAt position
  let custom := s.restore.any fun map => isCustom map slot.name
  when (!custom && slot.name != localShell)
    (emit "response.function_call_arguments.delta" (.obj [("item_id", .string slot.id),
      ("output_index", .nat slot.index), ("delta", .string argumentsDelta)]))

def renderDone (finishReason : Option FinishReason) : Render Unit := do
  finalizeReplayCarriers packages
  (List.range (← get).slots.length).forM (close packages)
  let s ← get
  let output ← lift (s.slots.mapM (s.item packages))
  when finishReason.isSome (modify fun s => { s with finish := finishReason })
  let s ← get
  let response ← lift (responseObject s.context output s.usage s.finish)
  let kind := if (response.field "status").asStr = some "incomplete" then "response.incomplete"
    else "response.completed"
  emit kind (.obj [("response", response)])
  modify fun s => { s with status := .completed }

def renderError (error : ErrorEnvelope) : Render Unit := do
  let s ← get
  emit "response.failed" (.obj [("response", failedResponse s.context error)])
  modify fun s => { s with status := .failed }

def renderBody : StreamEvent → Render Unit
  | .delta index content => renderDelta packages index content
  | .thinkingDelta index blockIndex text => renderThinkingDelta index blockIndex text
  | .thinkingSignatureDelta index blockIndex text => renderSignatureDelta index blockIndex text
  | .redactedThinking index blockIndex data => renderRedacted index blockIndex data
  | .toolCallDelta index id name arguments _ => renderTool packages index id name arguments
  | .usage usage => modify fun s => { s with usage := packages.absorb s.usage usage }
  | .finish finishReason _ => modify fun s => { s with finish := finishReason }
  | .done finishReason _ => renderDone packages finishReason
  | .error error => renderError error

/-- Read the inbound tools, once. -/
def readTools : Render Unit := do
  let s ← get
  when s.restore.isNone do
    let map ← lift (restoreMap packages s.context.inboundTools)
    modify fun s => { s with restore := some map }

/-- One event. A terminated stream takes no further event, so leaving the loop
is the same as skipping the rest. -/
def renderEvent (event : StreamEvent) : Render Unit := do
  let s ← get
  when (!s.isTerminated && (s.status != .awaitingError || event.isError)) do
    when (!event.isError) (readTools packages)
    start
    renderBody packages event

def render (events : List StreamEvent) : Render Unit := do
  let s ← get
  when (events.isEmpty && s.status == .active) start
  events.forM (renderEvent packages)

/-- Render one batch of events. -/
def responsesFrames (events : List StreamEvent) (state : ResponsesSseState) :
    Except CodecError (List ResponsesFrame) × ResponsesSseState :=
  match render packages events ⟨state, []⟩ with
  | (.ok _, r) => (.ok r.out, r.toResponsesSseState)
  | (.error e, r) =>
      (.error e, { r.toResponsesSseState.clearFailedBuffers with
        sequence := state.sequence, created := state.created, status := .awaitingError })

end

end TokenStation.Responses
