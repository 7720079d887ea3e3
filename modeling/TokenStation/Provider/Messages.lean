import TokenStation.Provider.Dialect

/-!
# Messages streams of an Anthropic provider

One stream's parser: which content blocks are open, the held terminal facts,
and the usage folded on the wire's own buckets. A failure reported in the
stream closes the parser; nothing follows it.
-/

namespace TokenStation.Provider

open Library Library.Json Responses Sse

/-- The fixed message for each code. -/
def messageOf : ErrorCode → String
  | .invalidRequest => "the upstream refused the request as malformed"
  | .auth => "the upstream rejected the credential"
  | .paymentRequired => "the upstream requires payment or the account is out of funds"
  | .rateLimit => "the upstream rate limited this request"
  | .contentPolicy => "the upstream refused on content-policy grounds"
  | .contextLength => "the request exceeds the model's context window"
  | .timeout => "the upstream did not answer in time"
  | .upstreamUnavailable => "the upstream is unavailable"
  | .transportTruncated => "the upstream connection dropped mid-response"
  | .providerProtocolError => "the upstream answered with an invalid body"
  | .capacity | .capability | .internal => "the upstream failed"

/-- What a provider said, when it is short enough to pass on. -/
def shortMessage (message : Option String) : Option String :=
  message.filter fun message => message.length ≤ 256

namespace Messages

/-! ## Usage -/

/-- The usage buckets as the wire reports them: the input counts only tokens
neither read from the cache nor written to it. -/
structure WireUsage where
  uncachedInput : Nat
  output : Nat
  cacheRead : Nat
  cacheWrite : Nat
  cacheWrite5m : Nat
  cacheWrite1h : Nat
deriving DecidableEq, Repr

/-- Which counts a report must carry. -/
inductive UsageReport where
  | message
  | streamStart
  | streamDelta

def UsageReport.inputRequired : UsageReport → Bool
  | .message | .streamStart => true
  | .streamDelta => false

def UsageReport.outputRequired : UsageReport → Bool
  | .message | .streamDelta => true
  | .streamStart => false

def wireCount (raw : Value) (key : String) (required : Bool) : Except ErrorEnvelope Nat :=
  match raw.get key with
  | none | some .null =>
      if required then .error (protocolError "the upstream usage lacks a required token count")
      else .ok 0
  | some value =>
      match value.asU64 with
      | some count => .ok count
      | none => .error (protocolError "the upstream usage has an invalid token count")

/-- A cumulative count: zero keeps the earlier value, which must not shrink. -/
def cumulative (earlier later : Nat) : Except ErrorEnvelope Nat :=
  if later = 0 then .ok earlier
  else if later < earlier then
    .error (protocolError "the upstream stream usage shrank a cumulative token count")
  else .ok later

/-- The tiers of a cache-creation breakdown, which must add up to its total. -/
def cacheTiers (raw : Value) (cacheWrite : Nat) : Except ErrorEnvelope (Nat × Nat) :=
  match raw.get "cache_creation" with
  | none | some .null => .ok (0, 0)
  | some tiers =>
      if tiers.isObject then
        if (raw.get "cache_creation_input_tokens").all Value.isNull then
          .error (protocolError
            "the upstream cache_creation breakdown lacks its cache_creation_input_tokens total")
        else do
          let fiveMinutes ← wireCount tiers "ephemeral_5m_input_tokens" true
          let oneHour ← wireCount tiers "ephemeral_1h_input_tokens" true
          if fiveMinutes + oneHour < 2 ^ 64 ∧ fiveMinutes + oneHour = cacheWrite then
            return (fiveMinutes, oneHour)
          else
            .error (protocolError
              "the upstream cache_creation tiers do not add up to cache_creation_input_tokens")
      else .error (protocolError "the upstream usage has an invalid cache_creation field")

/-- A sum that stops at the largest 64-bit number. -/
def saturatingAdd (left right : Nat) : Nat := min (left + right) (2 ^ 64 - 1)

namespace WireUsage

def default : WireUsage := ⟨0, 0, 0, 0, 0, 0⟩

/-- The buckets of one report. -/
def of (raw : Value) (report : UsageReport) : Except ErrorEnvelope WireUsage := do
  if raw.isObject = false then
    .error (protocolError "a Messages response must carry a usage object")
  else
    let uncachedInput ← wireCount raw "input_tokens" report.inputRequired
    let output ← wireCount raw "output_tokens" report.outputRequired
    let cacheRead ← wireCount raw "cache_read_input_tokens" false
    let cacheWrite ← wireCount raw "cache_creation_input_tokens" false
    let (fiveMinutes, oneHour) ← cacheTiers raw cacheWrite
    if uncachedInput + cacheRead + cacheWrite < 2 ^ 64 then
      return ⟨uncachedInput, output, cacheRead, cacheWrite, fiveMinutes, oneHour⟩
    else .error (protocolError "the upstream usage counts overflow")

def hasSplit (usage : WireUsage) : Bool := 0 < usage.cacheWrite5m || 0 < usage.cacheWrite1h

/-- Fold a later report in. The cache writes travel with their tiers. -/
def absorb (s later : WireUsage) : Except ErrorEnvelope WireUsage := do
  let uncachedInput ← cumulative s.uncachedInput later.uncachedInput
  let output ← cumulative s.output later.output
  let cacheRead ← cumulative s.cacheRead later.cacheRead
  let _ ← cumulative s.cacheWrite later.cacheWrite
  let writes :=
    if later.cacheWrite > s.cacheWrite ∨
        (later.cacheWrite = s.cacheWrite ∧ later.hasSplit = true ∧ s.hasSplit = false) then later
    else s
  return ⟨uncachedInput, output, cacheRead, writes.cacheWrite, writes.cacheWrite5m,
    writes.cacheWrite1h⟩

/-- The canonical counts: the input is the whole prompt. -/
def toIr (s : WireUsage) : Usage :=
  { Usage.default with
    inputTokens := saturatingAdd (saturatingAdd s.uncachedInput s.cacheRead) s.cacheWrite
    outputTokens := s.output
    cacheReadTokens := s.cacheRead
    cacheWriteTokens := s.cacheWrite
    cacheWrite5mTokens := s.cacheWrite5m
    cacheWrite1hTokens := s.cacheWrite1h }

end WireUsage

/-- The usage of a whole message. -/
def usageOf (raw : Value) : Except ErrorEnvelope Usage :=
  (WireUsage.of raw .message).map WireUsage.toIr

/-! ## State -/

/-- One stream, mid-parse. -/
structure AnthropicSseParser where
  /-- The upstream reported a failure: nothing follows it. -/
  closed : Bool
  sawFinish : Bool
  pendingFinishReason : Option FinishReason
  pendingStopSequence : Option String
  doneEmitted : Bool
  openBlocks : Finset Nat
  seenBlocks : Finset Nat
  /-- Every usage report so far. -/
  usage : WireUsage

def stopReasonToFinish : String → FinishReason
  | "end_turn" => .stop
  | "max_tokens" => .length
  | "tool_use" => .toolCalls
  | "stop_sequence" => .stopSequence
  | other => .other other

/-- The code of an upstream error type, when this dialect maps it. -/
def errorTypeCode : String → Option ErrorCode
  | "overloaded_error" => some .capacity
  | "rate_limit_error" => some .rateLimit
  | "authentication_error" | "permission_error" => some .auth
  | "invalid_request_error" | "not_found_error" => some .invalidRequest
  | _ => none

def blockIndex (data : Value) : Except ErrorEnvelope Nat :=
  match (data.get "index").bind Value.asU64 with
  | some index =>
      if index < 2 ^ 32 then .ok index
      else .error (protocolError "the upstream content block index is invalid")
  | none => .error (protocolError "the upstream content block index is invalid")

/-- The event of a text that carries something. -/
def textEvent (raw : Option String) (build : String → StreamEvent) : List StreamEvent :=
  ((raw.filter fun text => !text.isEmpty).map build).toList

namespace AnthropicSseParser

def start : AnthropicSseParser := ⟨false, false, none, none, false, ∅, ∅, .default⟩

def openBlock (s : AnthropicSseParser) (index : Nat) : Except ErrorEnvelope AnthropicSseParser :=
  if index ∈ s.seenBlocks ∨ index ∈ s.openBlocks then
    .error (protocolError "the upstream opened a content block twice")
  else .ok { s with
    seenBlocks := insert index s.seenBlocks
    openBlocks := insert index s.openBlocks }

def requireOpenBlock (s : AnthropicSseParser) (index : Nat) : Except ErrorEnvelope Unit :=
  if index ∈ s.openBlocks then .ok ()
  else .error (protocolError "the upstream sent a delta for a content block that is not open")

def closeBlock (s : AnthropicSseParser) (index : Nat) : Except ErrorEnvelope AnthropicSseParser :=
  if index ∈ s.openBlocks then .ok { s with openBlocks := s.openBlocks.erase index }
  else .error (protocolError "the upstream stopped a content block that is not open")

def requireAllBlocksClosed (s : AnthropicSseParser) : Except ErrorEnvelope Unit :=
  if s.openBlocks = ∅ then .ok ()
  else
    .error (protocolError "the upstream ended the message before every content block stopped")

/-- Take the held finish. -/
def takePendingFinish (s : AnthropicSseParser) : Option StreamEvent × AnthropicSseParser :=
  if s.sawFinish then
    (some (.finish s.pendingFinishReason s.pendingStopSequence),
      { s with sawFinish := false, pendingFinishReason := none, pendingStopSequence := none })
  else (none, s)

/-- One usage report, carrying the whole usage so far. -/
def reportUsage (s : AnthropicSseParser) (raw : Value) (report : UsageReport) :
    Except ErrorEnvelope (StreamEvent × AnthropicSseParser) := do
  let counts ← WireUsage.of raw report
  let usage ← s.usage.absorb counts
  return (.usage usage.toIr, { s with usage := usage })

/-- The events of one block's start. -/
def blockStartEvents (index : Nat) (block : Value) : List StreamEvent :=
  match (block.field "type").asStr with
  | some "redacted_thinking" =>
      ((block.field "data").asStr.map (StreamEvent.redactedThinking 0 index)).toList
  | some "thinking" => [.thinkingDelta 0 index ""]
  | some "tool_use" =>
      [.toolCallDelta index (block.field "id").asStr (block.field "name").asStr "" none]
  | _ => []

/-- The events of one block's delta. -/
def blockDeltaEvents (s : AnthropicSseParser) (data : Value) :
    Except ErrorEnvelope (List StreamEvent) := do
  let index ← blockIndex data
  s.requireOpenBlock index
  let delta := data.field "delta"
  match (delta.field "type").asStr with
  | some "text_delta" => return textEvent (delta.field "text").asStr (.delta 0)
  | some "thinking_delta" =>
      return textEvent (delta.field "thinking").asStr (.thinkingDelta 0 index)
  | some "signature_delta" =>
      return textEvent (delta.field "signature").asStr (.thinkingSignatureDelta 0 index)
  | some "input_json_delta" =>
      return [.toolCallDelta index none none ((delta.field "partial_json").asStr.getD "") none]
  | _ => return []

/-- End the stream with a failure the upstream reported. -/
def fail (s : AnthropicSseParser) (code : ErrorCode) (providerMessage : Option String) :
    List StreamEvent × AnthropicSseParser :=
  ([.error ⟨code, 502, messageOf code, shortMessage providerMessage⟩], { s with closed := true })

/-- The terminal facts of a message, sent with its usage when the frame has one. -/
def messageDeltaEvents (s : AnthropicSseParser) (data : Value) :
    Except ErrorEnvelope (List StreamEvent × AnthropicSseParser) := do
  s.requireAllBlocksClosed
  match ((data.field "delta").field "stop_reason").asStr with
  | none => return ([], s)
  | some reason =>
      let s := { s with
        sawFinish := true
        doneEmitted := false
        pendingFinishReason := some (stopReasonToFinish reason)
        pendingStopSequence := ((data.field "delta").field "stop_sequence").asStr }
      if (data.field "usage").isObject = false then return ([], s)
      else
        let (finish, s) := s.takePendingFinish
        let (usage, s) ← s.reportUsage (data.field "usage") .streamDelta
        return (finish.toList ++ [usage, .done none none], { s with doneEmitted := true })

/-- One stream event, already split from its framing. -/
def eventsOf (s : AnthropicSseParser) (event : String) (data : Value) :
    Except ErrorEnvelope (List StreamEvent × AnthropicSseParser) :=
  if s.closed then .ok ([], s)
  else
    match event with
    | "message_start" =>
        let usage := (data.field "message").field "usage"
        if usage.isObject then do
          let (usage, s) ← s.reportUsage usage .streamStart
          return ([usage], s)
        else .ok ([], s)
    | "content_block_start" => do
        let index ← blockIndex data
        let s ← s.openBlock index
        return (blockStartEvents index (data.field "content_block"), s)
    | "content_block_delta" => do
        let events ← s.blockDeltaEvents data
        return (events, s)
    | "content_block_stop" => do
        let index ← blockIndex data
        let s ← s.closeBlock index
        return ([], s)
    | "message_delta" => s.messageDeltaEvents data
    | "error" =>
        -- After the terminal close a failure changes nothing.
        if s.doneEmitted then .ok ([], s)
        else
          let error := data.field "error"
          let code := ((error.field "type").asStr.bind errorTypeCode).getD .upstreamUnavailable
          .ok (s.fail code (error.field "message").asStr)
    | _ => .ok ([], s)

/-- The end of the body. -/
def endOfStream (s : AnthropicSseParser) : List StreamEvent × AnthropicSseParser :=
  if s.closed then ([], s)
  else if s.doneEmitted then ([], { s with doneEmitted := false })
  else
    match s.takePendingFinish with
    | (none, s) => ([], s)
    | (some finish, s) => ([finish, .done none none], { s with doneEmitted := true })

end AnthropicSseParser

def splitError : SseSplitErrorV1 → ErrorEnvelope
  | .notUtf8 => protocolError "the upstream sent a stream frame that is not UTF-8"
  | .tooLarge => protocolError "the upstream sent a stream line or event over the size bound"

/-- One dispatched event; a frame that names no event type carries nothing. -/
def frame (packages : Packages) (s : AnthropicSseParser) (sse : SseFrameV1) :
    Except ErrorEnvelope (List StreamEvent × AnthropicSseParser) :=
  if sse.event = "message" then .ok ([], s)
  else
    match packages.fromStr sse.data with
    | none => .error (protocolError "the upstream sent a stream frame with invalid JSON")
    | some parsed => s.eventsOf sse.event parsed

end Messages

/-- The parser of Messages streams. -/
def anthropicSseParser (packages : Packages) : Dialect Messages.AnthropicSseParser where
  start := .start
  frame := Messages.frame packages
  splitError := Messages.splitError
  close s := .ok s.endOfStream

end TokenStation.Provider
