import TokenStation.Provider.ResponsesOutput

/-!
# Responses streams of a provider

One stream's parser: a closed list of events with strictly increasing numbers,
one response id, the identity of every item and part, and exactly one terminal
frame.
-/

namespace TokenStation.Provider

open Library Library.Json Responses Sse

namespace ResponsesApi

/-! ## State -/

structure ItemIdentity where
  outputIndex : Nat
  kind : String
  done : Bool

structure PartIdentity where
  kind : String
  done : Bool

structure CallState where
  ordinal : Nat
  callId : String
  name : String
  /-- The arguments emitted so far. -/
  emitted : String
  done : Bool

/-- One stream, mid-parse. -/
structure ResponsesStreamParser where
  ended : Bool
  lastSequence : Option Nat
  responseId : Option String
  items : List (String × ItemIdentity)
  parts : List ((String × Nat × Nat) × PartIdentity)
  calls : List (String × CallState)
  blocks : List ((String × Bool × Nat) × Nat)

/-- The closed list of event types. -/
def accepted : List String :=
  ["response.created", "response.in_progress", "response.queued", "response.completed",
    "response.incomplete", "response.failed", "response.output_item.added",
    "response.output_item.done", "response.content_part.added", "response.content_part.done",
    "response.output_text.delta", "response.output_text.done",
    "response.output_text.annotation.added", "response.refusal.delta", "response.refusal.done",
    "response.function_call_arguments.delta", "response.function_call_arguments.done",
    "response.reasoning_summary_part.added", "response.reasoning_summary_part.done",
    "response.reasoning_summary_text.delta", "response.reasoning_summary_text.done",
    "response.reasoning_text.delta", "response.reasoning_text.done"]

def indexOf (frame : Value) (key invalid : String) : Except ErrorEnvelope Nat :=
  match (frame.get key).bind Value.asU64 with
  | some index => .ok index
  | none => .error (protocolError invalid)

def itemIdOf (frame : Value) : Except ErrorEnvelope String :=
  match ((frame.get "item_id").bind Value.asStr).filter (fun id => !id.isEmpty) with
  | some id => .ok id
  | none => .error (protocolError "the upstream stream event has no item_id")

def textOf (frame : Value) (key : String) : Except ErrorEnvelope String :=
  match (frame.get key).bind Value.asStr with
  | some text => .ok text
  | none => .error (protocolError "the upstream stream event lacks its text payload")

/-- What a step of the parser gives. -/
abbrev Read : Type := Except ErrorEnvelope (List StreamEvent × ResponsesStreamParser)

namespace ResponsesStreamParser

def start : ResponsesStreamParser := ⟨false, none, none, [], [], [], []⟩

/-- The response id is non-empty and the same in every event that carries it. -/
def bindResponse (s : ResponsesStreamParser) (response : Option Value) :
    Except ErrorEnvelope ResponsesStreamParser :=
  match response.filter Value.isObject with
  | none => .error (protocolError "the upstream stream event carries no response object")
  | some response =>
      match ((response.get "id").bind Value.asStr).filter (fun id => !id.isEmpty) with
      | none => .error (protocolError "the upstream response object has no id")
      | some id =>
          match s.responseId with
          | some known =>
              if known ≠ id then
                .error (protocolError "the upstream changed response.id within one stream")
              else .ok s
          | none => .ok { s with responseId := some id }

/-- The number of a block, in the order the blocks are first seen. -/
def block (s : ResponsesStreamParser) (itemId : String) (content : Bool) (index : Nat) :
    Nat × ResponsesStreamParser :=
  let next := min s.blocks.length (2 ^ 32 - 1)
  match lookup (itemId, content, index) s.blocks with
  | some number => (number, s)
  | none => (next, { s with blocks := store (itemId, content, index) next s.blocks })

/-- A call's final arguments: what extends the emitted prefix is emitted once;
anything that contradicts it is an error. -/
def settleArguments (call : CallState) (arguments : String) :
    Except ErrorEnvelope (Option StreamEvent × CallState) :=
  match call.emitted.toList.isPrefixOf? arguments.toList with
  | none =>
      .error (protocolError
        "the upstream's final function call arguments contradict what it streamed")
  | some rest =>
      let event :=
        if rest.isEmpty then none
        else some (.toolCallDelta call.ordinal none none (String.ofList rest) none)
      .ok (event, { call with emitted := arguments })

/-- Record an item; one that was added may only be finished, once, as itself. -/
def recordItem (s : ResponsesStreamParser) (id : String) (outputIndex : Nat) (kind : String)
    (done : Bool) : Except ErrorEnvelope ResponsesStreamParser :=
  match lookup id s.items with
  | some previous =>
      if !done || previous.done || previous.outputIndex ≠ outputIndex || previous.kind ≠ kind then
        .error (protocolError "the upstream output item's added and done disagree")
      else .ok { s with items := store id { previous with done := true } s.items }
  | none => .ok { s with items := store id ⟨outputIndex, kind, done⟩ s.items }

/-- The event of a call item. -/
def callEvent (s : ResponsesStreamParser) (id callId name : String) (arguments : Option String)
    (done : Bool) : Read :=
  if done && arguments.isNone then
    .error (protocolError "the upstream function call has no arguments")
  else
    let arguments := arguments.getD ""
    match lookup id s.calls with
    | some call =>
        if call.callId ≠ callId || call.name ≠ name then
          .error (protocolError "the upstream changed a function call's id or name")
        else do
          let (event, call) ← settleArguments call arguments
          return (event.toList, { s with calls := store id { call with done := true } s.calls })
    | none =>
        if s.calls.length < 2 ^ 32 then
          .ok ([.toolCallDelta s.calls.length (some callId) (some name) arguments none],
            { s with calls := store id ⟨s.calls.length, callId, name, arguments, done⟩ s.calls })
        else .error (protocolError "the upstream opened too many function calls")

def outputItemEvent (s : ResponsesStreamParser) (frame : Value) (done : Bool) : Read := do
  let outputIndex ← indexOf frame "output_index" "the upstream output item has no output_index"
  match frame.get "item" with
  | none => .error (protocolError "the upstream output item event carries no item")
  | some raw => do
      let parsed ← outputItem raw
      match ((raw.get "id").bind Value.asStr).filter (fun id => !id.isEmpty) with
      | none => .error (protocolError "the upstream output item has no id")
      | some id => do
          let s ← s.recordItem id outputIndex (((raw.get "type").bind Value.asStr).getD "") done
          match parsed with
          | .functionCall callId name arguments => s.callEvent id callId name arguments done
          | _ => return ([], s)

def contentPartEvent (s : ResponsesStreamParser) (frame : Value) (done : Bool) : Read := do
  let itemId ← itemIdOf frame
  let outputIndex ← indexOf frame "output_index" "the upstream content part has no output_index"
  let contentIndex ←
    indexOf frame "content_index" "the upstream content part has no content_index"
  match ((frame.get "part").bind (·.get "type")).bind Value.asStr with
  | none => .error (protocolError "the upstream content part has no type")
  | some kind =>
      if kind ∉ ["output_text", "refusal", "reasoning_text"] then
        .error (protocolError
          "the upstream content part is of a type this dialect cannot represent")
      else
        let key := (itemId, outputIndex, contentIndex)
        match lookup key s.parts with
        | some previous =>
            if !done || previous.done || previous.kind ≠ kind then
              .error (protocolError "the upstream content part's added and done disagree")
            else return ([], { s with parts := store key { previous with done := true } s.parts })
        | none => return ([], { s with parts := store key ⟨kind, done⟩ s.parts })

/-- Where a content event belongs. -/
def contentLocation (frame : Value) : Except ErrorEnvelope Unit := do
  let _ ← itemIdOf frame
  let _ ← indexOf frame "output_index" "the upstream content event has no output_index"
  let _ ← indexOf frame "content_index" "the upstream content event has no content_index"

/-- The name on a final arguments event is absent, `null` or the call's own. -/
def checkName (call : CallState) : Option Value → Except ErrorEnvelope Unit
  | none | some .null => .ok ()
  | some value =>
      refuseWhen (value.asStr ≠ some call.name) "the upstream changed a function call's id or name"

def argumentsEvent (s : ResponsesStreamParser) (frame : Value) (done : Bool) : Read := do
  let itemId ← itemIdOf frame
  let _ ← indexOf frame "output_index" "the upstream arguments event has no output_index"
  let payload ← textOf frame (if done then "arguments" else "delta")
  match lookup itemId s.calls with
  | none => .error (protocolError "the upstream streamed arguments for a call it never opened")
  | some call =>
      if call.done then
        .error (protocolError "the upstream streamed arguments for a call it already finished")
      else if done then do
        checkName call (frame.get "name")
        let (event, call) ← settleArguments call payload
        return (event.toList, { s with calls := store itemId call s.calls })
      else if payload.isEmpty then return ([], s)
      else
        return ([.toolCallDelta call.ordinal none none payload none],
          { s with calls := store itemId { call with emitted := call.emitted ++ payload } s.calls })

def reasoningEvent (s : ResponsesStreamParser) (frame : Value) (content done : Bool) : Read := do
  let itemId ← itemIdOf frame
  let _ ← indexOf frame "output_index" "the upstream reasoning event has no output_index"
  let index ← indexOf frame (if content then "content_index" else "summary_index")
    "the upstream reasoning event has no part index"
  let payload ← textOf frame (if done then "text" else "delta")
  if done || payload.isEmpty then return ([], s)
  else
    let (blockIndex, s) := s.block itemId content index
    return ([.thinkingDelta 0 blockIndex payload], s)

/-- A terminal frame: the finish, the usage and the close. -/
def terminal (s : ResponsesStreamParser) (frame : Value) (status : String) : Read := do
  let s ← s.bindResponse (frame.get "response")
  let response := (frame.get "response").getD .null
  refuseWhen ((response.get "status").bind Value.asStr ≠ some status)
    "the upstream terminal event disagrees with its response status"
  let parsed ← responseOf response
  let finishReason := parsed.choices.head?.bind (·.finishReason)
  return ([.finish finishReason none, .usage parsed.usage, .done none none],
    { s with ended := true })

/-- The usage of a failed exchange, when the frame reports it exactly. -/
def failureUsage (frame : Value) (response : Option Value) : List StreamEvent :=
  if (frame.get "type").bind Value.asStr = some "response.failed" then
    match usageOf (response.bind (·.get "usage")) with
    | .ok usage => [.usage usage]
    | .error _ => []
  else []

/-- Bind the response object of a failure frame, when it has one. -/
def bindFailed (s : ResponsesStreamParser) (response : Option Value) :
    Except ErrorEnvelope ResponsesStreamParser :=
  if response.isSome then s.bindResponse response else .ok s

/-- A failure frame, recognised before the evidence rules. -/
def failure (s : ResponsesStreamParser) (frame error : Value) : Read := do
  let response := (frame.get "response").filter Value.isObject
  let s ← s.bindFailed response
  return (failureUsage frame response ++ [.error (failureEnvelope error)],
    { s with ended := true })

/-- A frame of a delta of visible text. -/
def textDelta (s : ResponsesStreamParser) (frame : Value) : Read := do
  contentLocation frame
  let delta ← textOf frame "delta"
  return (if delta.isEmpty then [] else [.delta 0 delta], s)

def textDone (s : ResponsesStreamParser) (frame : Value) (key : String) : Read := do
  contentLocation frame
  let _ ← textOf frame key
  return ([], s)

def annotation (s : ResponsesStreamParser) (frame : Value) : Read := do
  contentLocation frame
  let _ ← indexOf frame "annotation_index" "the upstream annotation has no index"
  refuseWhen ((frame.get "annotation").any Value.isObject = false)
    "the upstream annotation is not an object"
  return ([], s)

def summaryPart (s : ResponsesStreamParser) (frame : Value) : Read := do
  let _ ← itemIdOf frame
  let _ ← indexOf frame "output_index" "the upstream reasoning event has no output_index"
  let _ ← indexOf frame "summary_index" "the upstream reasoning event has no part index"
  refuseWhen (((frame.get "part").bind (·.get "type")).bind Value.asStr ≠ some "summary_text")
    "the upstream reasoning summary part is not summary_text"
  return ([], s)

/-- One numbered event of the closed list. -/
def dispatch (s : ResponsesStreamParser) (kind : String) (frame : Value) : Read :=
  match kind with
  | "response.created" | "response.in_progress" | "response.queued" => do
      let s ← s.bindResponse (frame.get "response")
      return ([], s)
  | "response.completed" => s.terminal frame "completed"
  | "response.incomplete" => s.terminal frame "incomplete"
  | "response.output_item.added" => s.outputItemEvent frame false
  | "response.output_item.done" => s.outputItemEvent frame true
  | "response.content_part.added" => s.contentPartEvent frame false
  | "response.content_part.done" => s.contentPartEvent frame true
  | "response.output_text.delta" | "response.refusal.delta" => s.textDelta frame
  | "response.output_text.done" => s.textDone frame "text"
  | "response.refusal.done" => s.textDone frame "refusal"
  | "response.output_text.annotation.added" => s.annotation frame
  | "response.function_call_arguments.delta" => s.argumentsEvent frame false
  | "response.function_call_arguments.done" => s.argumentsEvent frame true
  | "response.reasoning_summary_part.added" | "response.reasoning_summary_part.done" =>
      s.summaryPart frame
  | "response.reasoning_summary_text.delta" => s.reasoningEvent frame false false
  | "response.reasoning_summary_text.done" => s.reasoningEvent frame false true
  | "response.reasoning_text.delta" => s.reasoningEvent frame true false
  | "response.reasoning_text.done" => s.reasoningEvent frame true true
  | _ => .error (protocolError "the upstream sent a stream event type this dialect does not know")

/-- The number of a frame is greater than every earlier one. -/
def checkSequence (s : ResponsesStreamParser) (frame : Value) :
    Except ErrorEnvelope ResponsesStreamParser := do
  let sequence ←
    indexOf frame "sequence_number" "the upstream stream event has no sequence_number"
  refuseWhen (s.lastSequence.any (fun last => sequence ≤ last) = true)
    "the upstream sequence_number did not increase"
  return { s with lastSequence := some sequence }

end ResponsesStreamParser

/-- A frame that is no failure: its type is on the closed list, its number is
greater than every earlier one. -/
def numbered (s : ResponsesStreamParser) (parsed : Value) (kind : Option String) : Read :=
  match kind with
  | none => .error (protocolError "the upstream sent a stream frame without a type")
  | some kind =>
      if kind ∉ accepted then
        .error (protocolError "the upstream sent a stream event type this dialect does not know")
      else do
        let s ← s.checkSequence parsed
        s.dispatch kind parsed

/-- One parsed frame under its event name. -/
def readFrame (s : ResponsesStreamParser) (event : String) (parsed : Value) : Read :=
  if parsed.isObject = false then
    .error (protocolError "the upstream sent a stream frame that is not a JSON object")
  else
    let kind := (parsed.get "type").bind Value.asStr
    -- Exactly one terminal frame.
    if s.ended then
      if kind ∈ ["response.completed", "response.incomplete", "response.failed"].map some then
        .error (protocolError "the upstream sent a second terminal frame")
      else .error (protocolError "the upstream sent a frame after the terminal frame")
    else if kind.isSome ∧ event ≠ "message" ∧ kind ≠ some event then
      .error (protocolError "the upstream's SSE event name disagrees with the frame's type")
    else
      match failureOf parsed with
      | some error => s.failure parsed error
      | none => numbered s parsed kind

def frame (packages : Packages) (s : ResponsesStreamParser) (sse : SseFrameV1) : Read :=
  match packages.fromStr sse.data with
  | none => .error (protocolError "the upstream sent a stream frame with invalid JSON")
  | some parsed => readFrame s sse.event parsed

def splitError : SseSplitErrorV1 → ErrorEnvelope
  | .notUtf8 => protocolError "the upstream sent a stream line that is not UTF-8"
  | .tooLarge => protocolError "the upstream sent a stream frame over the size bound"

/-- A stream that never reached its terminal frame is truncated. -/
def truncated : ErrorEnvelope :=
  ⟨.transportTruncated, 502, messageOf .transportTruncated, none⟩

end ResponsesApi

/-- The reading of Responses streams, once a byte has been received. -/
def responsesStreamDialect (packages : Packages) : Dialect ResponsesApi.ResponsesStreamParser where
  start := .start
  frame := ResponsesApi.frame packages
  splitError := ResponsesApi.splitError
  close s := if s.ended then .ok ([], s) else .error ResponsesApi.truncated

namespace ResponsesApi

/-- The splitter, the stream, and whether a byte has been received. -/
structure ParserState where
  received : Bool
  rest : SseSplitterV1 × ResponsesStreamParser

def ParserState.start : ParserState := ⟨false, .new, .start⟩

/-- Read one chunk; the end of the body is accepted before any byte. -/
def parseChunk (packages : Packages) (p : ParserState) (chunk : List UInt8) :
    Except ErrorEnvelope (List StreamEvent × ParserState) :=
  if chunk = [] ∧ p.received = false then .ok ([], p)
  else
    ((responsesStreamDialect packages).parseChunk p.rest chunk).map fun next =>
      (next.1, ⟨true, next.2⟩)

theorem calls_received (packages : Packages) (rest : SseSplitterV1 × ResponsesStreamParser)
    (chunks : List (List UInt8)) :
    Batching.calls (parseChunk packages) ⟨true, rest⟩ chunks =
      Batching.calls (responsesStreamDialect packages).parseChunk rest chunks := by
  induction chunks generalizing rest with
  | nil => rfl
  | cons chunk chunks ih =>
      rw [Batching.calls, Batching.calls, parseChunk, if_neg (fun h => Bool.noConfusion h.2)]
      rcases (responsesStreamDialect packages).parseChunk rest chunk with e | ⟨now, next⟩
      · rfl
      · simp only [Except.map, ih]

/-- Before any byte, ends of the body are passed over; the dialect reads the rest. -/
theorem calls_start (packages : Packages) (chunks : List (List UInt8)) :
    Batching.calls (parseChunk packages) .start chunks =
      Batching.calls (responsesStreamDialect packages).parseChunk ParserState.start.rest
        (chunks.dropWhile List.isEmpty) := by
  induction chunks with
  | nil => rfl
  | cons chunk chunks ih =>
      by_cases hchunk : chunk = []
      · subst hchunk
        rw [Batching.calls, parseChunk, if_pos ⟨rfl, rfl⟩, List.dropWhile_cons_of_pos rfl, ← ih]
        exact ChunkedReading.Trace.pure_bind () _
      · rw [List.dropWhile_cons_of_neg (by simpa using hchunk), Batching.calls, Batching.calls,
          parseChunk, if_neg (fun h => hchunk h.1)]
        rcases (responsesStreamDialect packages).parseChunk ParserState.start.rest chunk with
          e | ⟨now, next⟩
        · rfl
        · simp only [Except.map, calls_received]

end ResponsesApi

end TokenStation.Provider
