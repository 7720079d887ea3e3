import TokenStation.Provider.UsageCounts

/-!
# Chat streams of an OpenAI-compatible provider

One stream's parser: every frame's content events, and the finish held until
usage arrives, the provider marks the end, or the body ends.
-/

namespace TokenStation.Provider

open Library Library.Json Responses Sse

namespace OpenAi

/-! ## Usage -/

/-- A required usage count. -/
def requiredCount (raw : Value) (key missing : String) : Except ErrorEnvelope Nat :=
  countUnder raw key missing

/-- An optional usage count: absent or `null` is zero. -/
def optionalCount (raw : Option Value) (key invalid : String) : Except ErrorEnvelope Nat :=
  countOrZero (raw.bind (·.get key)) invalid

/-- A details object: absent or `null`, or an object. -/
def usageDetails (raw : Value) (key invalid : String) : Except ErrorEnvelope (Option Value) :=
  objectOrNone (raw.get key) invalid

def checkedSum (left right : Nat) : Except ErrorEnvelope Nat :=
  if left + right < 2 ^ 64 then .ok (left + right)
  else .error (protocolError "the upstream usage counts overflow")

/-- Stop where a condition holds. -/
def refuseWhen (c : Prop) [Decidable c] (message : String) : Except ErrorEnvelope Unit :=
  Checked.refuse c (protocolError message)

def invalidCount : String := "the upstream usage has an invalid token count"

/-- The total adds up, with or without the orchestration input. -/
def checkTotal (total plainTotal orchestrationInput : Nat) : Except ErrorEnvelope Unit :=
  if total = plainTotal then .ok ()
  else do
    let withOrchestration ← checkedSum plainTotal orchestrationInput
    refuseWhen (total ≠ withOrchestration)
      "the upstream total_tokens does not equal prompt_tokens plus completion_tokens"

/-- The cached subset, under the details or at the top level. -/
def cachedCount (raw : Value) (promptDetails : Option Value) : Except ErrorEnvelope Nat :=
  if (promptDetails.bind (·.get "cached_tokens")).isSome then
    optionalCount promptDetails "cached_tokens" invalidCount
  else optionalCount (some raw) "prompt_cache_hit_tokens" invalidCount

/-- The presence of this count marks the explicit-cache mode. -/
def explicitCache (promptDetails : Option Value) : Bool :=
  (promptDetails.bind (·.get "cache_creation_input_tokens")).isSome

def cacheWriteCount (promptDetails : Option Value) : Except ErrorEnvelope Nat :=
  if explicitCache promptDetails then
    optionalCount promptDetails "cache_creation_input_tokens" invalidCount
  else optionalCount promptDetails "cache_write_tokens" invalidCount

/-- The usage object in the native cache convention: the cached tokens are a
part of the input. -/
def usageOf (raw : Value) : Except ErrorEnvelope Usage := do
  refuseWhen (raw.isObject = false) "a chat completion must carry a usage object"
  let prompt ← requiredCount raw "prompt_tokens"
    "the upstream usage lacks a valid prompt_tokens count"
  let completion ← requiredCount raw "completion_tokens"
    "the upstream usage lacks a valid completion_tokens count"
  let total ← requiredCount raw "total_tokens" "the upstream usage lacks a valid total_tokens count"
  let promptDetails ← usageDetails raw "prompt_tokens_details"
    "the upstream usage has an invalid prompt_tokens_details field"
  let completionDetails ← usageDetails raw "completion_tokens_details"
    "the upstream usage has an invalid completion_tokens_details field"
  let orchestrationInput ← optionalCount promptDetails "orchestration_input_tokens" invalidCount
  let orchestrationCached ←
    optionalCount promptDetails "orchestration_input_cached_tokens" invalidCount
  refuseWhen (orchestrationCached > orchestrationInput)
    "the upstream orchestration cached count exceeds its input count"
  let orchestrationOutput ←
    optionalCount completionDetails "orchestration_output_tokens" invalidCount
  let plainTotal ← checkedSum prompt completion
  checkTotal total plainTotal orchestrationInput
  let inputTokens ← checkedSum prompt orchestrationInput
  let outputTokens ← checkedSum completion orchestrationOutput
  let cached ← cachedCount raw promptDetails
  let cacheReadTokens ← checkedSum cached orchestrationCached
  let cacheWriteTokens ← cacheWriteCount promptDetails
  let cacheTokens ← checkedSum cacheReadTokens cacheWriteTokens
  refuseWhen (cacheTokens > inputTokens)
    "the upstream cached and cache-write counts exceed the prompt count"
  let reasoningTokens ← optionalCount completionDetails "reasoning_tokens" invalidCount
  refuseWhen (reasoningTokens > outputTokens)
    "the upstream reasoning_tokens exceeds the completion count"
  return { Usage.default with
    inputTokens := inputTokens
    outputTokens := outputTokens
    cacheReadTokens := cacheReadTokens
    explicitCacheReadTokens := if explicitCache promptDetails then cacheReadTokens else 0
    cacheWriteTokens := cacheWriteTokens
    reasoningTokens := reasoningTokens }

/-! ## The held finish -/

def finishReason : String → FinishReason
  | "stop" => .stop
  | "length" => .length
  | "tool_calls" => .toolCalls
  | "content_filter" => .contentFilter
  | other => .other other

/-- Whether a finish has arrived, apart from what it was mapped to. -/
structure PendingFinish where
  seen : Bool
  reason : Option FinishReason
  doneEmitted : Bool
deriving DecidableEq, Repr

namespace PendingFinish

def start : PendingFinish := ⟨false, none, false⟩

def record (_ : PendingFinish) (raw : String) : PendingFinish :=
  ⟨true, some (finishReason raw), false⟩

/-- Take the held finish. -/
def takeFinish (p : PendingFinish) : Option StreamEvent × PendingFinish :=
  if p.seen then (some (.finish p.reason none), { p with seen := false, reason := none })
  else (none, p)

/-- The provider's end marker: the held finish and the close, unless the
stream has just closed. -/
def finishMarker (p : PendingFinish) : List StreamEvent × PendingFinish :=
  if p.doneEmitted then ([], { p with doneEmitted := false })
  else (p.takeFinish.1.toList ++ [.done none none], ⟨false, none, true⟩)

def flushPendingFinish (p : PendingFinish) : List StreamEvent × PendingFinish :=
  if p.seen then p.finishMarker else ([], p)

end PendingFinish

/-! ## Frames -/

def indexOf (value : Value) : Nat :=
  let index := value.asU64.getD 0
  if index < 2 ^ 32 then index else 0

/-- A text that carries something. -/
def carried (text : Option String) : Option String := text.filter fun text => !text.isEmpty

/-- The event of one tool-call fragment. -/
def callEvent (call : Value) : StreamEvent :=
  .toolCallDelta (indexOf (call.field "index")) (call.field "id").asStr
    ((call.field "function").field "name").asStr
    (((call.field "function").field "arguments").asStr.getD "") none

/-- The content events of a choice: reasoning, text, tool-call fragments. -/
def choiceEvents (choice : Value) : List StreamEvent :=
  let index := indexOf (choice.field "index")
  let delta := choice.field "delta"
  let thinking := carried ((delta.field "reasoning_content").asStr <|>
    (delta.field "reasoning").asStr)
  let text := carried (delta.field "content").asStr
  (thinking.map (StreamEvent.thinkingDelta index 0)).toList ++
    (text.map (StreamEvent.delta index)).toList ++
    ((delta.field "tool_calls").asArray.getD []).map callEvent

/-- Record the finish reason a choice carries. -/
def recordChoice (p : PendingFinish) (choice : Value) : PendingFinish :=
  match (choice.field "finish_reason").asStr with
  | some reason => p.record reason
  | none => p

/-- The usage object of a frame. -/
def frameUsage (raw : Value) : Except ErrorEnvelope (Option Value) :=
  match raw.get "usage" with
  | none | some .null => .ok none
  | some usage =>
      if usage.isObject then .ok (some usage)
      else .error (protocolError "the upstream SSE event has an invalid usage field")

/-- The choices of a frame; a frame without usage must have them. -/
def frameChoices (raw : Value) (usage : Option Value) : Except ErrorEnvelope (Option (List Value)) :=
  match raw.get "choices" with
  | some (.array choices) => .ok (some choices)
  | none =>
      if usage.isSome then .ok none
      else .error (protocolError "the upstream SSE event has an invalid choices field")
  | some _ => .error (protocolError "the upstream SSE event has an invalid choices field")

/-- The events of a usage report, with the held finish before it and the close
after both. -/
def usageEvents (p : PendingFinish) (usage : Value) :
    Except ErrorEnvelope (List StreamEvent × PendingFinish) := do
  let counts ← usageOf usage
  match p.takeFinish with
  | (some finish, p) =>
      return ([finish, .usage counts, .done none none], { p with doneEmitted := true })
  | (none, p) => return ([.usage counts], p)

section

variable (packages : Packages)

/-- One complete frame's worth of events. -/
def eventsOfFrame (payload : String) (p : PendingFinish) :
    Except ErrorEnvelope (List StreamEvent × PendingFinish) :=
  match packages.fromStr payload with
  | none => .error (protocolError "the upstream emitted invalid SSE JSON")
  | some raw => do
      refuseWhen ((raw.get "error").any (fun error => !error.isNull) = true)
        "the upstream embedded an error in a successful SSE response"
      let usage ← frameUsage raw
      let choices ← frameChoices raw usage
      -- A frame without choices and usage is ignored, not refused.
      if choices.any List.isEmpty && usage.isNone then return ([], p)
      let events := (choices.getD []).flatMap choiceEvents
      let p := (choices.getD []).foldl recordChoice p
      match usage with
      | none => return (events, p)
      | some usage =>
          let (last, p) ← usageEvents p usage
          return (events ++ last, p)

def splitError : SseSplitErrorV1 → ErrorEnvelope
  | .notUtf8 => protocolError "the upstream emitted a non-UTF-8 SSE frame"
  | .tooLarge => protocolError "the upstream emitted an SSE line or event over the size bound"

def frame (p : PendingFinish) (sse : SseFrameV1) :
    Except ErrorEnvelope (List StreamEvent × PendingFinish) :=
  if sse.event = "error" then
    .ok ([.error (protocolError "the upstream emitted an SSE error event")], p)
  else if sse.data = "[DONE]" then .ok p.finishMarker
  else eventsOfFrame packages sse.data p

end

end OpenAi

/-- The parser of Chat streams. -/
def openaiSseParser (packages : Packages) : Dialect OpenAi.PendingFinish where
  start := .start
  frame := OpenAi.frame packages
  splitError := OpenAi.splitError
  close p := .ok p.flushPendingFinish

end TokenStation.Provider
