import TokenStation.Provider.UsageCounts

/-!
# Gemini text streams and answers

The reader of a buffered answer and the parser of a stream of whole-candidate
chunks. The chunk with a finish reason is the terminal one; usage counts are
held to it across the stream.
-/

namespace TokenStation.Provider

open Library Library.Json Responses Sse

namespace Gemini

/-! ## Shared readings -/

/-- A turn that produced a call finished because of the call. -/
def finishReasonOf (raw : String) (producedToolCalls : Bool) : FinishReason :=
  if producedToolCalls then .toolCalls
  else
    match raw with
    | "STOP" => .stop
    | "MAX_TOKENS" => .length
    | "SAFETY" | "PROHIBITED_CONTENT" | "BLOCKLIST" => .contentFilter
    | other => .other other

def metaCount (report : Value) (key : String) : Except ErrorEnvelope Nat :=
  countOrZero (report.get key) "the upstream usageMetadata has an invalid token count"

def metaSum (left right : Nat) : Except ErrorEnvelope Nat :=
  if left + right < 2 ^ 64 then .ok (left + right)
  else .error (protocolError "the upstream usageMetadata counts overflow")

def requiredMeta (report : Value) (key : String) : Except ErrorEnvelope Nat :=
  countUnder report key
    "the upstream usageMetadata lacks a valid promptTokenCount or totalTokenCount"

/-- Stop where a condition holds. -/
def refuseWhen (c : Prop) [Decidable c] (message : String) : Except ErrorEnvelope Unit :=
  Checked.refuse c (protocolError message)

/-- The candidates count; it may be missing when the total closes without it. -/
def candidatesCount (report : Value) (known total : Nat) : Except ErrorEnvelope Nat :=
  match report.get "candidatesTokenCount" with
  | some _ => metaCount report "candidatesTokenCount"
  | none =>
      if known < total then
        .error (protocolError "the upstream usageMetadata lacks candidatesTokenCount")
      else .ok 0

/-- The usage of an answer: thoughts are outside the candidates, and the total
is prompt, tool-use prompt, candidates and thoughts. -/
def usageOf (report : Value) : Except ErrorEnvelope Usage := do
  refuseWhen (report.isObject = false) "a Gemini response must carry usageMetadata"
  let prompt ← requiredMeta report "promptTokenCount"
  let total ← requiredMeta report "totalTokenCount"
  let cached ← metaCount report "cachedContentTokenCount"
  refuseWhen (cached > prompt) "the upstream cachedContentTokenCount exceeds promptTokenCount"
  let toolUse ← metaCount report "toolUsePromptTokenCount"
  let inputTokens ← metaSum prompt toolUse
  let thoughts ← metaCount report "thoughtsTokenCount"
  let known ← metaSum inputTokens thoughts
  let candidates ← candidatesCount report known total
  let outputTokens ← metaSum candidates thoughts
  let sum ← metaSum inputTokens outputTokens
  refuseWhen (sum ≠ total)
    "the upstream totalTokenCount does not equal prompt, tool-use prompt, candidates and thoughts"
  return { Usage.default with
    inputTokens := inputTokens
    outputTokens := outputTokens
    cacheReadTokens := cached
    reasoningTokens := thoughts }

/-- A call id made from the call's position and name. -/
def syntheticCallId (position : Nat) (name : String) : String :=
  "call_" ++ toString position ++ "_" ++ name

/-- The signature on a call part: absent, or a non-empty string. -/
def callSignature (part : Value) : Except ErrorEnvelope (Option String) :=
  match part.get "thoughtSignature" with
  | none | some .null => .ok none
  | some value =>
      match value.asStr.filter (fun signature => !signature.isEmpty) with
      | some signature => .ok (some signature)
      | none =>
          .error (protocolError
            "the upstream sent a functionCall whose thoughtSignature is not a non-empty string")

/-- The first element of an array. -/
def firstOf (value : Value) : Value := (value.asArray.bind List.head?).getD .null

/-! ## Streams -/

/-- The counts held across chunks, the total last. -/
def streamUsageCounts : List String :=
  ["promptTokenCount", "candidatesTokenCount", "thoughtsTokenCount", "toolUsePromptTokenCount",
    "cachedContentTokenCount", "totalTokenCount"]

/-- One stream, mid-parse. -/
structure GeminiSseParser where
  toolCallsSeen : Nat
  /-- The highest value seen so far of each count. -/
  countsSeen : List Nat
  terminated : Bool
deriving DecidableEq, Repr

def GeminiSseParser.start : GeminiSseParser := ⟨0, streamUsageCounts.map fun _ => 0, false⟩

/-- The finish reason of the first candidate that has one. -/
def firstReason : List Value → Except ErrorEnvelope (Option String)
  | [] => .ok none
  | candidate :: candidates =>
      let reason := candidate.field "finishReason"
      if reason.isNull then firstReason candidates
      else
        match reason.asStr with
        | some reason => .ok (some reason)
        | none => .error (protocolError "the upstream finishReason is not a string")

/-- The finish reason of a terminal chunk. -/
def streamFinishReason (frame : Value) : Except ErrorEnvelope (Option String) :=
  match (frame.field "candidates").asArray with
  | some candidates => firstReason candidates
  | none => .ok none

section

variable (packages : Packages)

/-- The arguments text of a call. -/
def argumentsText (call : Value) : String :=
  ((call.get "args").map packages.toText).getD "\x7b\x7d"

/-- The event of a text part. -/
def textEvent (part : Value) : Option StreamEvent :=
  ((part.field "text").asStr.filter fun text => !text.isEmpty).map fun text =>
    if (part.field "thought").asBool = some true then .thinkingDelta 0 0 text else .delta 0 text

/-- The events of the parts of a chunk, with the number of calls seen so far. -/
def partEvents (seen : Nat) : List Value → Except ErrorEnvelope (List StreamEvent × Nat)
  | [] => .ok ([], seen)
  | part :: parts =>
      match part.get "functionCall" with
      | some call => do
          let name := (call.field "name").asStr.getD ""
          let signature ← callSignature part
          let (events, seen') ← partEvents (seen + 1) parts
          return (.toolCallDelta (min seen (2 ^ 32 - 1)) (some (syntheticCallId seen name))
            (some name) (argumentsText packages call) signature :: events, seen')
      | none => do
          let (events, seen') ← partEvents seen parts
          return ((textEvent part).toList ++ events, seen')

/-- Hold a chunk's counts to the ones seen; an intermediate chunk is judged
only on the counts it carries. -/
def observe (report : Value) (terminal : Bool) : List (String × Nat) → Except ErrorEnvelope (List Nat)
  | [] => .ok []
  | (key, seen) :: counts =>
      if terminal = false ∧ (report.get key).all Value.isNull = true then do
        let rest ← observe report terminal counts
        return seen :: rest
      else do
        let value ← metaCount report key
        refuseWhen (value < seen) "the upstream usageMetadata counts decrease across the stream"
        let rest ← observe report terminal counts
        return value :: rest

namespace GeminiSseParser

def observeCounts (s : GeminiSseParser) (report : Value) (terminal : Bool) :
    Except ErrorEnvelope GeminiSseParser := do
  refuseWhen (report.isObject = false) "the upstream usageMetadata is not an object"
  let counts ← observe report terminal (streamUsageCounts.zip s.countsSeen)
  return { s with countsSeen := counts }

/-- The usage of the terminal chunk, when it carries one. -/
def terminalUsage (s : GeminiSseParser) :
    Option Value → Except ErrorEnvelope (List StreamEvent × GeminiSseParser)
  | none => .ok ([], s)
  | some report => do
      let usage ← usageOf report
      let s ← s.observeCounts report true
      return ([.usage usage], s)

/-- The events of one chunk. -/
def eventsOf (s : GeminiSseParser) (frame : Value) :
    Except ErrorEnvelope (List StreamEvent × GeminiSseParser) := do
  refuseWhen (s.terminated = true)
    "the upstream sent a stream frame after the terminal finishReason"
  let candidate := firstOf (frame.field "candidates")
  let parts := ((candidate.field "content").field "parts").asArray.getD []
  let (events, seen) ← partEvents packages s.toolCallsSeen parts
  let s := { s with toolCallsSeen := seen }
  match ← streamFinishReason frame with
  | none =>
      match frame.get "usageMetadata" with
      | none => return (events, s)
      | some report => do
          let s ← s.observeCounts report false
          return (events, s)
  | some reason => do
      let s := { s with terminated := true }
      let finish := StreamEvent.finish (some (finishReasonOf reason (0 < s.toolCallsSeen))) none
      let (usage, s) ← s.terminalUsage (frame.get "usageMetadata")
      return (events ++ finish :: usage ++ [.done none none], s)

end GeminiSseParser

def splitError : SseSplitErrorV1 → ErrorEnvelope
  | .notUtf8 => protocolError "the upstream sent a stream frame that is not UTF-8"
  | .tooLarge => protocolError "the upstream sent a stream line or event over the size bound"

def frame (s : GeminiSseParser) (sse : SseFrameV1) :
    Except ErrorEnvelope (List StreamEvent × GeminiSseParser) :=
  match packages.fromStr sse.data with
  | none => .error (protocolError "the upstream sent a stream frame with invalid JSON")
  | some parsed => s.eventsOf packages parsed

/-! ## Buffered answers -/

/-- What the parts of an answer add up to. -/
structure AnswerRead where
  text : List String
  thinking : List ContentPart
  toolCalls : List ToolCall

def readPart (read : AnswerRead) (part : Value) : Except ErrorEnvelope AnswerRead :=
  match part.get "functionCall" with
  | some call => do
      let name := (call.field "name").asStr.getD ""
      let signature ← callSignature part
      return { read with toolCalls := read.toolCalls ++
        [⟨syntheticCallId read.toolCalls.length name, name, argumentsText packages call,
          signature⟩] }
  | none =>
      match (part.field "text").asStr with
      | none => .ok read
      | some body =>
          if (part.field "thought").asBool = some true then
            .ok { read with thinking := read.thinking ++
              [.thinking body (part.field "thoughtSignature").asStr] }
          else .ok { read with text := read.text ++ [body] }

/-- Thinking parts first, then the joined text. -/
def AnswerRead.content (read : AnswerRead) : Option Content :=
  if read.thinking.isEmpty then
    if read.text.isEmpty then none else some (.text (String.join read.text))
  else
    some (.parts (read.thinking ++
      if read.text.isEmpty then [] else [.text (String.join read.text)]))

/-- A parsed answer as a canonical response. -/
def responseOf (raw : Value) : Except ErrorEnvelope ChatResponse := do
  refuseWhen ((raw.get "error").any (fun error => !error.isNull) = true)
    "the upstream embedded an error in a successful response"
  match (raw.field "candidates").asArray.bind List.head? with
  | none => .error (protocolError "the upstream 2xx response has no candidates")
  | some candidate => do
      let parts := ((candidate.field "content").field "parts").asArray.getD []
      let read ← parts.foldlM (readPart packages) ⟨[], [], []⟩
      let usage ← usageOf (raw.field "usageMetadata")
      return {
        id := ""
        model := (raw.field "modelVersion").asStr.getD ""
        choices := [{
          index := 0
          message := ⟨.assistant, read.content, read.toolCalls, none, none, []⟩
          finishReason := (candidate.field "finishReason").asStr.map fun raw =>
            finishReasonOf raw (!read.toolCalls.isEmpty)
          stopSequence := none }]
        usage := usage }

/-- Read a successful answer. -/
def parseResponse (body : String) : Except ErrorEnvelope ChatResponse :=
  match packages.fromStr body with
  | none => .error (protocolError "the upstream returned invalid JSON in a 2xx response")
  | some raw => responseOf packages raw

end

end Gemini

/-- The parser of Gemini text streams; the end of the body adds nothing. -/
def geminiSseParser (packages : Packages) : Dialect Gemini.GeminiSseParser where
  start := .start
  frame := Gemini.frame packages
  splitError := Gemini.splitError
  close s := .ok ([], s)

end TokenStation.Provider
