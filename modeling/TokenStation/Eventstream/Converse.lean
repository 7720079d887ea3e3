import TokenStation.Eventstream.ComponentReader
import TokenStation.Library.Checked
import TokenStation.Provider.Messages

/-!
# Converse streams

The parser of Converse's events: which content blocks are open, the finish reason
held until the usage report, and the failures an upstream reports in the stream.
-/

namespace TokenStation.Eventstream

open Library Library.Checked Library.Json Responses Provider

namespace Converse

def stopReasonToFinish (raw : String) : FinishReason :=
  if raw = "end_turn" then .stop
  else if raw = "tool_use" then .toolCalls
  else if raw = "max_tokens" then .length
  else if raw = "stop_sequence" then .stopSequence
  else if raw = "content_filtered" ∨ raw = "guardrail_intervened" then .contentFilter
  else .other raw

/-! ## Usage -/

def cacheDetailsInvalid : ErrorEnvelope :=
  protocolError
    "a Converse cacheDetails report must list each of 5m and 1h at most once with a non-negative inputTokens, summing to cacheWriteInputTokens"

/-- One entry of the cache details, added to the tiers read so far. -/
def cacheTier (tiers : Option Nat × Option Nat) (entry : Value) :
    Except ErrorEnvelope (Option Nat × Option Nat) :=
  match (entry.get "inputTokens").bind Value.asU64, (entry.get "ttl").bind Value.asStr with
  | some tokens, some ttl =>
      if ttl = "5m" then
        match tiers.1 with
        | none => .ok (some tokens, tiers.2)
        | some _ => .error cacheDetailsInvalid
      else if ttl = "1h" then
        match tiers.2 with
        | none => .ok (tiers.1, some tokens)
        | some _ => .error cacheDetailsInvalid
      else .error cacheDetailsInvalid
  | _, _ => .error cacheDetailsInvalid

/-- The five-minute and one-hour split of the cache writes. -/
def cacheWriteTiers (details : Option Value) (total : Nat) : Except ErrorEnvelope (Nat × Nat) :=
  match details with
  | none | some .null => .ok (0, 0)
  | some details =>
      match details.asArray with
      | none => .error cacheDetailsInvalid
      | some entries => do
          let tiers ← entries.foldlM cacheTier (none, none)
          let five := tiers.1.getD 0
          let hour := tiers.2.getD 0
          refuse (2 ^ 64 ≤ five + hour ∨ five + hour ≠ total) cacheDetailsInvalid
          return (five, hour)

def usageOf (raw : Value) : Except ErrorEnvelope Usage :=
  let field := fun key => (raw.get key).bind Value.asU64
  match field "inputTokens", field "outputTokens", field "totalTokens" with
  | some input, some output, some total => do
      let cacheRead := (field "cacheReadInputTokens").getD 0
      let cacheWrite := (field "cacheWriteInputTokens").getD 0
      let prompt := input + cacheRead + cacheWrite
      refuse (2 ^ 64 ≤ prompt + output ∨ prompt + output ≠ total) (protocolError
        "a Converse usage report's totalTokens must equal inputTokens, outputTokens and both cache buckets summed")
      let (five, hour) ← cacheWriteTiers (raw.get "cacheDetails") cacheWrite
      return { Usage.default with
        inputTokens := prompt
        outputTokens := output
        cacheReadTokens := cacheRead
        cacheWriteTokens := cacheWrite
        cacheWrite5mTokens := five
        cacheWrite1hTokens := hour }
  | _, _, _ => .error (protocolError
      "a Converse usage report must carry inputTokens, outputTokens and totalTokens")

/-! ## Blocks -/

/-- The content block an event names. -/
def blockIndex (data : Value) : Except ErrorEnvelope Nat :=
  match (data.get "contentBlockIndex").bind Value.asU64 with
  | some index =>
      if index < 2 ^ 32 then .ok index
      else .error (protocolError "the upstream content block index is invalid")
  | none => .error (protocolError "the upstream content block index is invalid")

structure ConverseSseParser where
  /-- The finish reason announced, held until the usage report. -/
  pendingFinish : Option FinishReason
  /-- Whether a usage report or a failure has closed the stream. -/
  closed : Bool
  openBlocks : Finset Nat
  seenBlocks : Finset Nat
deriving DecidableEq

def ConverseSseParser.new : ConverseSseParser := ⟨none, false, ∅, ∅⟩

namespace ConverseSseParser

def openBlock (s : ConverseSseParser) (index : Nat) : Except ErrorEnvelope ConverseSseParser :=
  if index ∉ s.seenBlocks ∧ index ∉ s.openBlocks then
    .ok { s with openBlocks := insert index s.openBlocks, seenBlocks := insert index s.seenBlocks }
  else .error (protocolError "the upstream opened a content block twice")

/-- A delta opens a block that nothing announced. -/
def openBlockForDelta (s : ConverseSseParser) (index : Nat) :
    Except ErrorEnvelope ConverseSseParser :=
  if index ∈ s.openBlocks then .ok s
  else if index ∉ s.seenBlocks then
    .ok { s with openBlocks := insert index s.openBlocks, seenBlocks := insert index s.seenBlocks }
  else
    .error (protocolError
      "the upstream sent a delta for a content block that already stopped")

/-- A block that nothing announced may still stop, once. -/
def closeBlock (s : ConverseSseParser) (index : Nat) : Except ErrorEnvelope ConverseSseParser :=
  if index ∈ s.openBlocks then .ok { s with openBlocks := s.openBlocks.erase index }
  else if index ∉ s.seenBlocks then .ok { s with seenBlocks := insert index s.seenBlocks }
  else .error (protocolError "the upstream stopped a content block twice")

/-- End the stream with a failure the upstream reported. -/
def fail (s : ConverseSseParser) (code : ErrorCode) (providerMessage : Option String) :
    List StreamEvent × ConverseSseParser :=
  ([.error ⟨code, 502, messageOf code, shortMessage providerMessage⟩], { s with closed := true })

end ConverseSseParser

/-! ## Events -/

/-- What the start of a block says: a tool's id and name, or nothing. -/
def startEvents (index : Nat) (data : Value) : List StreamEvent :=
  match (data.field "start").get "toolUse" with
  | none => []
  | some useBlock =>
      [.toolCallDelta index (useBlock.field "toolUseId").asStr (useBlock.field "name").asStr ""
        none]

/-- What a delta says: the first of its texts that is there. -/
def deltaEvents (index : Nat) (data : Value) : List StreamEvent :=
  let delta := data.field "delta"
  let reasoning := delta.field "reasoningContent"
  match (delta.field "text").asStr with
  | some text => [.delta 0 text]
  | none =>
      match ((delta.field "toolUse").field "input").asStr with
      | some fragment => [.toolCallDelta index none none fragment none]
      | none =>
          match (reasoning.field "text").asStr with
          | some text => [.thinkingDelta 0 index text]
          | none =>
              match (reasoning.field "signature").asStr with
              | some signature => [.thinkingSignatureDelta 0 index signature]
              | none =>
                  match (reasoning.field "redactedContent").asStr with
                  | some redacted => [.redactedThinking 0 index redacted]
                  | none => []

def exceptionMark : String := "exception:"
def errorMark : String := "error:"

/-- The first letter of an exception counts without its case. -/
def exceptionCode (exception : String) : Option ErrorCode :=
  match exception.toList with
  | [] => none
  | first :: rest =>
      let name := String.ofList (first.toUpper :: rest)
      if name = "ThrottlingException" then some .rateLimit
      else if name = "ModelTimeoutException" then some .timeout
      else if name = "ServiceUnavailableException" ∨ name = "ModelNotReadyException" then
        some .upstreamUnavailable
      else if name = "ModelErrorException" ∨ name = "InternalServerException" then some .capacity
      else if name = "ModelStreamErrorException" then some .transportTruncated
      else if name = "AccessDeniedException" ∨ name = "UnrecognizedClientException" then some .auth
      else if name = "ValidationException" ∨ name = "ResourceNotFoundException" then
        some .invalidRequest
      else none

/-- A failure the upstream reported in the stream, by its code. -/
def failureCode (event : String) : Option ErrorCode :=
  match event.toList.dropPrefix? exceptionMark.toList with
  | some name => some ((exceptionCode (String.ofList name)).getD .internal)
  | none =>
      if errorMark.toList.isPrefixOf event.toList then some .upstreamUnavailable else none

def eventsOf (s : ConverseSseParser) (event : String) (data : Value) :
    Except ErrorEnvelope (List StreamEvent × ConverseSseParser) :=
  if s.closed then .ok ([], s)
  else if event = "messageStart" then .ok ([], s)
  else if event = "contentBlockStop" then do
    let index ← blockIndex data
    let s ← s.closeBlock index
    return ([], s)
  else if event = "contentBlockStart" then do
    let index ← blockIndex data
    let s ← s.openBlock index
    return (startEvents index data, s)
  else if event = "contentBlockDelta" then do
    let index ← blockIndex data
    let s ← s.openBlockForDelta index
    return (deltaEvents index data, s)
  else if event = "messageStop" then
    if s.openBlocks ≠ ∅ then
      .error (protocolError
        "the upstream ended the message before every content block stopped")
    else
      let finish := stopReasonToFinish ((data.field "stopReason").asStr.getD "end_turn")
      .ok ([.finish (some finish) none], { s with pendingFinish := some finish })
  else if event = "metadata" then
    if s.openBlocks ≠ ∅ then
      .error (protocolError "the upstream completed before every content block stopped")
    else do
      let usage ← usageOf (data.field "usage")
      return ([.usage usage, .done s.pendingFinish none],
        { s with pendingFinish := none, closed := true })
  else
    match failureCode event with
    | some code => .ok (s.fail code (data.field "message").asStr)
    | none => .ok ([], s)

def converseStream : StreamParser ConverseSseParser := converseSseParser eventsOf

end Converse

end TokenStation.Eventstream
