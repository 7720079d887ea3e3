import TokenStation.Responses.Protocol

/-!
# Messages stream rendering

Canonical stream events become Messages frames. The state is one stream's
render state: which content blocks are open and under which numbers, whether
the message has been announced, and the usage folded so far. Every helper
returns the state after it and the frames it pushed.
-/

namespace TokenStation.Anthropic

open Library Library.Json Responses

/-- One frame: the event name and its payload. -/
structure AnthropicFrame where
  event : String
  data : Value

/-- One stream's render state. -/
structure AnthropicSseState where
  model : String
  messageId : String
  messageStarted : Bool
  nextIndex : Nat
  thinkingIndex : Option Nat
  textIndex : Option Nat
  /-- Tool slots with their content-block numbers, in slot order. -/
  toolBlocks : List (Nat × Nat)
  usage : Usage
  pendingFinishReason : Option FinishReason
  pendingStopSequence : Option String
  terminated : Bool

def AnthropicSseState.new (model messageId : String) : AnthropicSseState where
  model := model
  messageId := messageId
  messageStarted := false
  nextIndex := 0
  thinkingIndex := none
  textIndex := none
  toolBlocks := []
  usage := .default
  pendingFinishReason := none
  pendingStopSequence := none
  terminated := false

/-- The input tokens neither read from a cache nor written to one. -/
def uncachedInputTokens (usage : Usage) : Nat :=
  usage.inputTokens - usage.cacheReadTokens - usage.cacheWriteTokens

/-- The stop vocabulary of this wire. -/
def stopReason : Option FinishReason → Value
  | some .length => .string "max_tokens"
  | some .toolCalls => .string "tool_use"
  | some .contentFilter => .string "content_filter"
  | some .stopSequence => .string "stop_sequence"
  | some (.other raw) => .string raw
  | some .stop | none => .string "end_turn"

/-- The error vocabulary of this wire. -/
def errorType : ErrorCode → String
  | .auth => "authentication_error"
  | .rateLimit | .capacity => "rate_limit_error"
  | .invalidRequest | .capability | .contentPolicy | .paymentRequired | .contextLength =>
      "invalid_request_error"
  | .upstreamUnavailable | .timeout | .internal | .transportTruncated | .providerProtocolError =>
      "api_error"

/-- Report a token count that is not zero. -/
def reportTokens (key : String) (tokens : Nat) (usage : Value) : Value :=
  if 0 < tokens then usage.set key (.nat tokens) else usage

/-- The cache buckets, each reported when it is not zero. -/
def reportCache (usage : Usage) (reported : Value) : Value :=
  reportTokens "cache_creation_input_tokens" usage.cacheWriteTokens
    (reportTokens "cache_read_input_tokens" usage.cacheReadTokens reported)

/-- The usage on the terminal `message_delta`. -/
def terminalUsage (usage : Usage) : Value :=
  let reported := Value.obj [("output_tokens", .nat usage.outputTokens)]
  let reported :=
    if 0 < usage.inputTokens then
      reported.set "input_tokens" (.nat (uncachedInputTokens usage))
    else reported
  reportCache usage reported

/-! ## Frames -/

def messageStart (s : AnthropicSseState) : AnthropicFrame :=
  ⟨"message_start", .obj [("type", .string "message_start"),
    ("message", .obj [("id", .string s.messageId), ("type", .string "message"),
      ("role", .string "assistant"), ("content", .array []), ("model", .string s.model),
      ("stop_reason", .null), ("stop_sequence", .null),
      ("usage", reportCache s.usage (.obj [
        ("input_tokens", .nat (uncachedInputTokens s.usage)), ("output_tokens", .nat 0)]))])]⟩

def blockStart (index : Nat) (contentBlock : Value) : AnthropicFrame :=
  ⟨"content_block_start", .obj [("type", .string "content_block_start"), ("index", .nat index),
    ("content_block", contentBlock)]⟩

def blockDelta (index : Nat) (delta : Value) : AnthropicFrame :=
  ⟨"content_block_delta", .obj [("type", .string "content_block_delta"), ("index", .nat index),
    ("delta", delta)]⟩

def blockStop (index : Nat) : AnthropicFrame :=
  ⟨"content_block_stop", .obj [("type", .string "content_block_stop"), ("index", .nat index)]⟩

def messageDelta (reason : Option FinishReason) (sequence : Option String) (usage : Usage) :
    AnthropicFrame :=
  ⟨"message_delta", .obj [("type", .string "message_delta"),
    ("delta", .obj [("stop_reason", stopReason reason),
      ("stop_sequence", (sequence.map Value.string).getD .null)]),
    ("usage", terminalUsage usage)]⟩

def messageStop : AnthropicFrame := ⟨"message_stop", .obj [("type", .string "message_stop")]⟩

def errorFrame (error : ErrorEnvelope) : AnthropicFrame :=
  ⟨"error", .obj [("type", .string "error"),
    ("error", .obj [("type", .string (errorType error.code)),
      ("message", .string error.message)])]⟩

/-! ## Blocks -/

namespace AnthropicSseState

/-- Announce the message once, before the first block that needs it. -/
def ensureMessageStart (s : AnthropicSseState) : AnthropicSseState × List AnthropicFrame :=
  if s.messageStarted then (s, []) else ({ s with messageStarted := true }, [messageStart s])

/-- Open a block under the next number. -/
def openBlock (s : AnthropicSseState) (contentBlock : Value) :
    Nat × AnthropicSseState × List AnthropicFrame :=
  let (t, frames) := s.ensureMessageStart
  (t.nextIndex, { t with nextIndex := t.nextIndex + 1 },
    frames ++ [blockStart t.nextIndex contentBlock])

def thinkingBlock (s : AnthropicSseState) : Nat × AnthropicSseState × List AnthropicFrame :=
  match s.thinkingIndex with
  | some index => (index, s, [])
  | none =>
      let (index, t, frames) :=
        s.openBlock (.obj [("type", .string "thinking"), ("thinking", .string "")])
      (index, { t with thinkingIndex := some index }, frames)

def textBlock (s : AnthropicSseState) : Nat × AnthropicSseState × List AnthropicFrame :=
  match s.textIndex with
  | some index => (index, s, [])
  | none =>
      let (index, t, frames) :=
        s.openBlock (.obj [("type", .string "text"), ("text", .string "")])
      (index, { t with textIndex := some index }, frames)

/-- A text without the leading repetitions of `msg_`. -/
def trimMessagePrefix (text : List Char) : List Char :=
  match text with
  | 'm' :: 's' :: 'g' :: '_' :: rest => trimMessagePrefix rest
  | text => text

/-- The id of a call that has none of its own. -/
def derivedToolId (s : AnthropicSseState) : String :=
  "toolu_" ++ String.ofList (trimMessagePrefix s.messageId.toList) ++ "_" ++ toString s.nextIndex

def toolBlock (s : AnthropicSseState) (slot : Nat) (id name : Option String) :
    Nat × AnthropicSseState × List AnthropicFrame :=
  match lookup slot s.toolBlocks with
  | some index => (index, s, [])
  | none =>
      let block := Value.obj [("type", .string "tool_use"),
        ("id", .string (id.getD s.derivedToolId)),
        ("name", (name.map Value.string).getD .null), ("input", .obj [])]
      let (index, t, frames) := s.openBlock block
      (index, { t with toolBlocks := insertEntry slot index t.toolBlocks }, frames)

/-- The numbers of the open blocks: thinking, then text, then the tool slots in order. -/
def openBlocks (s : AnthropicSseState) : List Nat :=
  s.thinkingIndex.toList ++ s.textIndex.toList ++ s.toolBlocks.map Prod.snd

/-- Close every block this message opened. -/
def closeOpenBlocks (s : AnthropicSseState) : AnthropicSseState × List AnthropicFrame :=
  ({ s with thinkingIndex := none, textIndex := none, toolBlocks := [] },
    s.openBlocks.map blockStop)

/-- A state that can render another message of the same stream. -/
def resetMessage (s : AnthropicSseState) : AnthropicSseState := .new s.model s.messageId

end AnthropicSseState

/-! ## Rendering -/

section

variable (absorb : Usage → Usage → Usage)

/-- Render the terminal frames and start over. -/
def renderDone (s : AnthropicSseState) (finishReason : Option FinishReason)
    (stopSequence : Option String) : AnthropicSseState × List AnthropicFrame :=
  let reason := finishReason <|> s.pendingFinishReason
  let sequence := stopSequence <|> s.pendingStopSequence
  let (t, start) := s.ensureMessageStart
  let (u, stops) := t.closeOpenBlocks
  (u.resetMessage, start ++ stops ++ [messageDelta reason sequence u.usage, messageStop])

/-- Render one event. -/
def renderEvent (s : AnthropicSseState) : StreamEvent → AnthropicSseState × List AnthropicFrame
  | .thinkingDelta _ _ thinkingDelta =>
      let (index, t, frames) := s.thinkingBlock
      (t, frames ++ [blockDelta index (.obj [("type", .string "thinking_delta"),
        ("thinking", .string thinkingDelta)])])
  | .delta _ content =>
      let (index, t, frames) := s.textBlock
      (t, frames ++ [blockDelta index (.obj [("type", .string "text_delta"),
        ("text", .string content)])])
  | .toolCallDelta slot id name argumentsDelta _ =>
      let (index, t, frames) := s.toolBlock slot id name
      if argumentsDelta.isEmpty then (t, frames)
      else (t, frames ++ [blockDelta index (.obj [("type", .string "input_json_delta"),
        ("partial_json", .string argumentsDelta)])])
  | .thinkingSignatureDelta _ _ signatureDelta =>
      -- A signature never opens a block: without one there is nothing to sign.
      match s.thinkingIndex with
      | some index =>
          (s, [blockDelta index (.obj [("type", .string "signature_delta"),
            ("signature", .string signatureDelta)])])
      | none => (s, [])
  | .redactedThinking _ _ _ => (s, [])
  | .usage usage => ({ s with usage := absorb s.usage usage }, [])
  | .finish finishReason stopSequence =>
      ({ s with
        pendingFinishReason := finishReason <|> s.pendingFinishReason
        pendingStopSequence := stopSequence <|> s.pendingStopSequence }, [])
  | .done finishReason stopSequence => renderDone s finishReason stopSequence
  | .error error => ({ s with terminated := true }, [errorFrame error])

/-- Canonical stream events to Messages frames; nothing is rendered once an
error has been. -/
def anthropicFrames (s : AnthropicSseState) :
    List StreamEvent → AnthropicSseState × List AnthropicFrame
  | [] => (s, [])
  | event :: events =>
      if s.terminated then (s, [])
      else
        let (t, frames) := renderEvent absorb s event
        let (u, rest) := anthropicFrames t events
        (u, frames ++ rest)

/-- Calls with one batch of events each, on the same state. -/
def anthropicCalls (s : AnthropicSseState) :
    List (List StreamEvent) → AnthropicSseState × List (List AnthropicFrame)
  | [] => (s, [])
  | events :: batches =>
      let (t, frames) := anthropicFrames absorb s events
      let (u, rest) := anthropicCalls t batches
      (u, frames :: rest)

theorem anthropicFrames_terminated {s : AnthropicSseState} (h : s.terminated = true)
    (events : List StreamEvent) : anthropicFrames absorb s events = (s, []) := by
  cases events with
  | nil => rfl
  | cons event events => simp [anthropicFrames, h]

theorem anthropicFrames_append (s : AnthropicSseState) (events more : List StreamEvent) :
    anthropicFrames absorb s (events ++ more) =
      ((anthropicFrames absorb (anthropicFrames absorb s events).1 more).1,
        (anthropicFrames absorb s events).2 ++
          (anthropicFrames absorb (anthropicFrames absorb s events).1 more).2) := by
  induction events generalizing s with
  | nil => rfl
  | cons event events ih =>
      rw [List.cons_append, anthropicFrames, anthropicFrames]
      split
      · rename_i h
        simp [anthropicFrames_terminated absorb h more]
      · simp [ih]

/-- Batching does not show: the calls deliver what one call would. -/
theorem anthropicCalls_flatten (s : AnthropicSseState) (batches : List (List StreamEvent)) :
    ((anthropicCalls absorb s batches).1, (anthropicCalls absorb s batches).2.flatten) =
      anthropicFrames absorb s batches.flatten := by
  induction batches generalizing s with
  | nil => rfl
  | cons events batches ih =>
      rw [List.flatten_cons, anthropicFrames_append, ← ih]
      rfl

end

end TokenStation.Anthropic
