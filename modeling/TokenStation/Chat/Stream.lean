import TokenStation.Anthropic.Message

/-!
# Chat stream rendering

Canonical stream events become Chat chunks. The older renderer writes what the
events carry; the stream over it adds identity and frame kinds, the role on
each choice's first delta, and the usage folded so far on the terminal frame.
-/

namespace TokenStation.Chat

open Library Library.Json Responses

/-! ## The older renderer -/

/-- One stream's render state. -/
structure OpenAiChatSseState where
  /-- Set by an error event: nothing is rendered afterwards. -/
  terminated : Bool
  /-- A finish reason waiting for the usage it should be sent with. -/
  pendingFinish : Option Value
  usage : Usage

def OpenAiChatSseState.default : OpenAiChatSseState := ⟨false, none, .default⟩

def chunkObject : String := "chat.completion.chunk"

def delta (index : Nat) (delta : Value) : Value :=
  .obj [("object", .string chunkObject), ("choices", .array [.obj [("index", .nat index),
    ("delta", delta), ("finish_reason", .null)]])]

/-- The choice of a terminal chunk. -/
def finishChoice (reason : Value) : Value :=
  .obj [("index", .nat 0), ("delta", .obj []), ("finish_reason", reason)]

def finishChunk (reason : Value) : Value :=
  .obj [("object", .string chunkObject), ("choices", .array [finishChoice reason])]

/-- Set a text field that is there. -/
def setText (key : String) (text : Option String) (value : Value) : Value :=
  match text with
  | some text => value.set key (.string text)
  | none => value

/-- The entry of one tool-call fragment. -/
def callFragment (index : Nat) (id name : Option String) (argumentsDelta : String)
    (signature : Option String) : Value :=
  let function := setText "name" name (.obj [("arguments", .string argumentsDelta)])
  let call := setText "id" id (.obj [("index", .nat index), ("function", function)])
  match signature with
  | some signature =>
      call.set "extra_content" (.obj [("google", .obj [("thought_signature", .string signature)])])
  | none => call

/-- Report a token count under a details object when it is not zero. -/
def setDetail (key count : String) (tokens : Nat) (reported : Value) : Value :=
  if 0 < tokens then reported.set key (.obj [(count, .nat tokens)]) else reported

/-- The counts of a usage report, with this total. -/
def reportedUsage (usage : Usage) (total : Nat) : Value :=
  setDetail "completion_tokens_details" "reasoning_tokens" usage.reasoningTokens
    (setDetail "prompt_tokens_details" "cached_tokens" usage.cacheReadTokens
      (.obj [("prompt_tokens", .nat usage.inputTokens),
        ("completion_tokens", .nat usage.outputTokens), ("total_tokens", .nat total)]))

/-- A sum under overflow checks: one that does not fit in 64 bits stops the program. -/
def sumU64 (left right : Nat) : Option Nat :=
  if left + right < 2 ^ 64 then some (left + right) else none

def usageChunk (pendingFinish : Option Value) (usage : Usage) : Option Value :=
  let chunk :=
    match pendingFinish with
    | none => Value.obj [("object", .string chunkObject), ("choices", .array [])]
    | some reason => finishChunk reason
  (sumU64 usage.inputTokens usage.outputTokens).map fun total =>
    chunk.set "usage" (reportedUsage usage total)

namespace OpenAiChatSseState

/-- Send a pending finish as its own chunk. -/
def flushPending (s : OpenAiChatSseState) : OpenAiChatSseState × List Value :=
  match s.pendingFinish with
  | some reason => ({ s with pendingFinish := none }, [finishChunk reason])
  | none => (s, [])

/-- Flush, then push a chunk. -/
def push (s : OpenAiChatSseState) (chunk : Value) : OpenAiChatSseState × List Value :=
  (s.flushPending.1, s.flushPending.2 ++ [chunk])

end OpenAiChatSseState

section

variable (packages : Packages)

def renderFinishReason (reason : Option FinishReason) : Value :=
  (reason.map packages.reasonValue).getD .null

/-- One event's chunks, or nothing where a sum stops the program. -/
def renderChatEvent (s : OpenAiChatSseState) :
    StreamEvent → Option (OpenAiChatSseState × List Value)
  | .thinkingDelta index _ thinkingDelta =>
      some (s.push (delta index (.obj [("reasoning_content", .string thinkingDelta)])))
  | .redactedThinking _ _ _ | .thinkingSignatureDelta _ _ _ => some (s, [])
  | .delta index content => some (s.push (delta index (.obj [("content", .string content)])))
  | .toolCallDelta index id name argumentsDelta signature =>
      some (s.push (delta 0 (.obj [("tool_calls",
        .array [callFragment index id name argumentsDelta signature])])))
  | .finish finishReason _ =>
      some ({ s.flushPending.1 with
        pendingFinish := some (renderFinishReason packages finishReason) }, s.flushPending.2)
  | .usage usage =>
      let folded := packages.absorb s.usage usage
      (usageChunk s.pendingFinish folded).map fun chunk =>
        ({ s with usage := folded, pendingFinish := none }, [chunk])
  | .done _ _ => some s.flushPending
  | .error _ => some ({ s with terminated := true }, [])

/-- Canonical stream events to Chat chunks. -/
def openaiChatFrames (s : OpenAiChatSseState) :
    List StreamEvent → Option (OpenAiChatSseState × List Value)
  | [] => some (s, [])
  | event :: events =>
      if s.terminated then some (s, [])
      else do
        let (t, chunks) ← renderChatEvent packages s event
        let (u, rest) ← openaiChatFrames t events
        return (u, chunks ++ rest)

/-- One event that reports no usage, which always renders. -/
def openaiChatFrame (s : OpenAiChatSseState) (event : StreamEvent) :
    OpenAiChatSseState × List Value :=
  (openaiChatFrames packages s [event]).getD (s, [])

theorem openaiChatFrame_eq {s : OpenAiChatSseState} (hlive : s.terminated = false)
    (event : StreamEvent) :
    openaiChatFrame packages s event = (renderChatEvent packages s event).getD (s, []) := by
  cases h : renderChatEvent packages s event <;> simp [openaiChatFrame, openaiChatFrames, hlive, h]

end

/-! ## The stream with identity -/

/-- The facts every chunk of one stream carries, supplied by the host. -/
structure ChatStreamContext where
  id : String
  model : String
  created : Int

/-- Which event produced a frame. -/
inductive OpenAiChatFrameKind where
  | delta
  | terminal
  | usage
deriving DecidableEq, Repr

/-- One rendered chunk: its kind and its payload. -/
structure OpenAiChatFrame where
  kind : OpenAiChatFrameKind
  data : Value

structure OpenAiChatStream where
  context : ChatStreamContext
  inner : OpenAiChatSseState
  /-- Choice indexes whose first delta frame has been emitted. -/
  rolesSent : List Nat
  usageFolded : Bool
  finishSeen : Bool
  /-- Whether the trailing frame without choices has been emitted. -/
  usageFrameSent : Bool

/-- The one rendering of this wire's usage object. -/
def openaiChatUsage (usage : Usage) : Except CodecError Value :=
  if usage.inputTokens + usage.outputTokens < 2 ^ 64 then
    .ok (reportedUsage usage (usage.inputTokens + usage.outputTokens))
  else
    .error (.outOfRange "usage.total_tokens"
      (toString usage.inputTokens ++ " + " ++ toString usage.outputTokens) "u64")

/-- Put the role in a rendered choice's delta, which has none of its own. -/
def withRole (choice : Value) : Value :=
  match choice.get "delta" with
  | some (.object entries) =>
      choice.set "delta" ((Value.object entries).set "role" (.string "assistant"))
  | _ => choice

/-- What rendering gives: the frames or the refusal, and the state after it. -/
abbrev Rendered : Type := Except CodecError (List OpenAiChatFrame) × OpenAiChatStream

/-- Go on after frames; a refusal stops. -/
def Rendered.followedBy (r : Rendered) (next : OpenAiChatStream → Rendered) : Rendered :=
  match r with
  | (.error e, s) => (.error e, s)
  | (.ok frames, s) =>
      match next s with
      | (.error e, t) => (.error e, t)
      | (.ok more, t) => (.ok (frames ++ more), t)

namespace OpenAiChatStream

/-- A fresh state for one stream. -/
def new (context : ChatStreamContext) : OpenAiChatStream :=
  ⟨context, .default, [], false, false, false⟩

/-- One complete chunk. -/
def chunk (s : OpenAiChatStream) (choices : List Value) (usage : Option Value) : Value :=
  let chunk := Value.obj [
    ("id", .string (Anthropic.prefixedId s.context.id "chatcmpl-" s.context.id)),
    ("object", .string chunkObject), ("created", .int s.context.created),
    ("model", .string s.context.model), ("choices", .array choices)]
  match usage with
  | some usage => chunk.set "usage" usage
  | none => chunk

/-- The usage of a terminal frame: the folded one, once any was reported. -/
def terminalUsage (s : OpenAiChatStream) : Except CodecError (Option Value) :=
  if s.usageFolded then (openaiChatUsage s.inner.usage).map some else .ok none

/-- Emit the pending finish, if any, with the usage folded so far. -/
def flushTerminal (s : OpenAiChatStream) : Rendered :=
  match s.inner.pendingFinish with
  | none => (.ok [], s)
  | some reason =>
      let t := { s with inner := { s.inner with pendingFinish := none } }
      match t.terminalUsage with
      | .error e => (.error e, t)
      | .ok usage => (.ok [⟨.terminal, t.chunk [finishChoice reason] usage⟩], t)

/-- The trailing usage frame of a stream that never finished. -/
def trailingUsage (s : OpenAiChatStream) : Rendered :=
  if s.finishSeen || !s.usageFolded || s.usageFrameSent then (.ok [], s)
  else
    match openaiChatUsage s.inner.usage with
    | .error e => (.error e, s)
    | .ok usage => (.ok [⟨.usage, s.chunk [] (some usage)⟩], { s with usageFrameSent := true })

section

variable (packages : Packages)

/-- The chunk of one content event with identity and, on its choice's first
delta, the role. -/
def pushDelta (s : OpenAiChatStream) (choice : Nat) (rendered : Value) :
    OpenAiChatStream × OpenAiChatFrame :=
  let choices := ((rendered.get "choices").bind Value.asArray).getD []
  if choice ∈ s.rolesSent then (s, ⟨.delta, s.chunk choices none⟩)
  else
    ({ s with rolesSent := choice :: s.rolesSent },
      ⟨.delta, s.chunk (choices.map withRole) none⟩)

/-- Add identity and the role to every rendered chunk. -/
def pushAll (s : OpenAiChatStream) (choice : Nat) :
    List Value → OpenAiChatStream × List OpenAiChatFrame
  | [] => (s, [])
  | rendered :: rest =>
      let (t, frame) := s.pushDelta choice rendered
      let (u, frames) := t.pushAll choice rest
      (u, frame :: frames)

/-- Render one content event through the older renderer. -/
def pushDeltas (s : OpenAiChatStream) (choice : Nat) (event : StreamEvent) :
    OpenAiChatStream × List OpenAiChatFrame :=
  let (inner, chunks) := openaiChatFrame packages s.inner event
  { s with inner := inner }.pushAll choice chunks

/-- Flush the pending finish, then render a content event. -/
def renderContent (s : OpenAiChatStream) (choice : Nat) (event : StreamEvent) : Rendered :=
  Rendered.followedBy s.flushTerminal fun t =>
    let (u, frames) := t.pushDeltas packages choice event
    (.ok frames, u)

def render (s : OpenAiChatStream) (event : StreamEvent) : Rendered :=
  match event with
  | .delta index _ | .thinkingDelta index _ _ => s.renderContent packages index event
  -- The older renderer puts every tool-call fragment on choice 0.
  | .toolCallDelta _ _ _ _ _ => s.renderContent packages 0 event
  | .redactedThinking _ _ _ | .thinkingSignatureDelta _ _ _ => (.ok [], s)
  | .finish _ _ =>
      Rendered.followedBy s.flushTerminal fun t =>
        -- With no finish pending this renders nothing and only records the new one.
        let (inner, _) := openaiChatFrame packages t.inner event
        (.ok [], { t with finishSeen := true, inner := inner })
  | .usage usage =>
      (.ok [], { s with
        usageFolded := true
        inner := { s.inner with usage := packages.absorb s.inner.usage usage } })
  | .done _ _ => Rendered.followedBy s.flushTerminal trailingUsage
  | .error _ => (.ok [], { s with inner := { s.inner with terminated := true } })

/-- Canonical stream events to complete chunks; a refusal ends the stream and
keeps back the frames of its call. -/
def frames (s : OpenAiChatStream) : List StreamEvent → Rendered
  | [] => (.ok [], s)
  | event :: events =>
      if s.inner.terminated then (.ok [], s)
      else
        match s.render packages event with
        | (.error e, t) => (.error e, { t with inner := { t.inner with terminated := true } })
        | (.ok now, t) => Rendered.followedBy (.ok now, t) fun t => t.frames events

end

end OpenAiChatStream

end TokenStation.Chat
