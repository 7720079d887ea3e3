import TokenStation.Library.Occurrence
import TokenStation.Library.Whitespace
import TokenStation.Requests.Rendering

/-!
# Messages a wire cannot spell

Each component renders the messages of a request one after another and refuses the
first part, call or result its wire has no spelling for.
-/

namespace TokenStation.Requests

open Library Library.Checked Library.Json Responses

/-- The parts of a content that is a list of parts. -/
def partsOf (content : Option Content) : List ContentPart := (content.bind asParts).getD []

def kindOf (value : Value) : Option String := (value.get "type").bind Value.asStr

/-- The refusal for a part a wire cannot spell. -/
def unmappablePart (wire : String) (value : Value) : ErrorEnvelope :=
  capability ("content block \x60" ++ (kindOf value).getD "<untyped>" ++ "\x60 has no " ++ wire ++
    " rendering; route the request to a provider that speaks its wire")

/-- The refusal for a turn whose markers form no layout. -/
def layoutOf {α : Type} (layout : Except Unit α) : Except ErrorEnvelope α :=
  layout.mapError fun _ => capability "invalid reasoning replay markers or layout"

/-! ## Chat Completions -/

namespace OpenAi

def openaiNativeUnknownPartTypes : List String := ["input_audio", "file"]

def isNative (value : Value) : Bool := (kindOf value).any openaiNativeUnknownPartTypes.contains

def checkPart : ContentPart → Except ErrorEnvelope Unit
  | .unknown value =>
      refuse (isNative value = false) (unmappablePart "OpenAI Chat Completions" value)
  | .text _ | .imageUrl _ | .thinking _ _ | .redactedThinking _ => .ok ()

def messageToOpenai (rendering : Rendering) (requiresReasoningContent : Bool)
    (message : Message) : Except ErrorEnvelope Value := do
  (partsOf message.content).forM checkPart
  return rendering.messageToOpenai requiresReasoningContent message

end OpenAi

/-! ## Responses -/

namespace OpenAiResponses

def unmappable (value : Value) : ErrorEnvelope := unmappablePart "OpenAI Responses" value

def unmappableIr (kind role : String) : ErrorEnvelope :=
  capability ("a \x60" ++ kind ++ "\x60 part in a " ++ role ++
    " message has no OpenAI Responses rendering; route the request to a provider that speaks its wire")

def namesFile (value : Value) : Bool := (value.get "file_id").any fun id => !id.isNull

/-- References whose token count the request does not show. -/
def refusedReference (value : Value) : Option ErrorEnvelope :=
  if kindOf value = some "input_file" then
    some (capability
      "an \x60input_file\x60 part names a document the upstream fetches or stores, whose size the request does not show; this dialect refuses it")
  else if namesFile value || (value.get "image_url").any namesFile then
    some (capability
      "a \x60file_id\x60 names a file stored in the upstream account, whose size the request does not show; this dialect refuses it")
  else none

/-- A part of a message that takes only text. -/
def checkTextPart (role : String) : ContentPart → Except ErrorEnvelope Unit
  | .text _ => .ok ()
  | .imageUrl _ => .error (unmappableIr "image_url" role)
  | .thinking _ _ => .error (unmappableIr "thinking" role)
  | .redactedThinking _ => .error (unmappableIr "redacted_thinking" role)
  | .unknown value => .error ((refusedReference value).getD (unmappable value))

def textOnly (rendering : Rendering) (role : String) (content : Option Content) :
    Except ErrorEnvelope String := do
  (partsOf content).forM (checkTextPart role)
  return rendering.textOnly content

def checkUserPart : ContentPart → Except ErrorEnvelope Unit
  | .text _ | .imageUrl _ => .ok ()
  | .unknown value =>
      match refusedReference value with
      | some refusal => .error refusal
      | none => refuse (kindOf value ≠ some "input_audio") (unmappable value)
  | .thinking _ _ => .error (unmappableIr "thinking" "user")
  | .redactedThinking _ => .error (unmappableIr "redacted_thinking" "user")

/-- A part of an assistant turn, which leaves thinking out. -/
def checkAssistantPart : ContentPart → Except ErrorEnvelope Unit
  | .text _ | .thinking _ _ | .redactedThinking _ => .ok ()
  | .imageUrl _ => .error (unmappableIr "image_url" "assistant")
  | .unknown value => .error ((refusedReference value).getD (unmappable value))

def checkMessage (message : Message) : Except ErrorEnvelope Unit :=
  match message.role with
  | .system => (partsOf message.content).forM (checkTextPart "system")
  | .user => (partsOf message.content).forM checkUserPart
  | .assistant => do
      let layout ← layoutOf (openaiLayout message)
      if layout.isSome then .ok () else (partsOf message.content).forM checkAssistantPart
  | .tool => do
      refuse (message.toolCallId = none) (capability
        "a tool result without a tool_call_id cannot be matched to its call on the OpenAI Responses wire")
      (partsOf message.content).forM (checkTextPart "tool")

def inputItems (rendering : Rendering) (messages : List Message) :
    Except ErrorEnvelope (List Value) := do
  messages.forM checkMessage
  return rendering.inputItems messages

end OpenAiResponses

/-! ## Messages -/

namespace Anthropic

def checkToolUse (call : ToolCall) : Except ErrorEnvelope Unit := do
  refuse (call.id = "") (capability
    "an assistant tool call has no id; Messages needs one to pair the result with the call")
  refuse (call.name = "") (capability
    "an assistant tool call has no name; Messages needs one to name the tool")

/-- An entry of a replayed turn; thinking without a signature has no block. -/
def checkReplayed : ReplayRef → Except ErrorEnvelope Unit
  | .content part =>
      refuse (isUnsignedThinking part = true) (capability "unsupported reasoning replay block")
  | .tool call => checkToolUse call

def checkMessage (message : Message) : Except ErrorEnvelope Unit :=
  match message.role with
  | .system | .user => .ok ()
  | .assistant => do
      let layout ← layoutOf (validatedLayout message)
      match layout with
      | some turn => turn.forM checkReplayed
      | none => message.toolCalls.forM checkToolUse
  | .tool =>
      refuse (message.toolCallId.all (fun id => id = "") = true) (capability
        "a tool result has no tool_call_id; Messages needs one to reference the call it answers")

def conversationOf (rendering : Rendering) (request : ChatRequest) :
    Except ErrorEnvelope (List (String × Option CacheControl) × List Value) := do
  request.messages.forM checkMessage
  return rendering.conversationOf request

end Anthropic

/-! ## Converse -/

namespace Converse

def imageFormats : List (String × String) :=
  [("image/png", "png"), ("image/jpeg", "jpeg"), ("image/gif", "gif"), ("image/webp", "webp")]

/-- The media type of a base64 data URL. -/
def checkImage (url : String) : Except ErrorEnvelope Unit :=
  match Text.stripText url "data:" with
  | none => .error (capability
      "Converse accepts inline image bytes only; fetch the image and inline it as a data URL")
  | some rest =>
      match position ";base64,".toList rest.toList with
      | none => .error (capability "a Converse image data URL must be base64-encoded")
      | some place =>
          let mediaType := rest.toList.take place
          refuse ((imageFormats.any fun format =>
              Text.eqIgnoreAsciiCase format.1.toList mediaType) = false)
            (capability ("Converse supports png, jpeg, gif and webp images; \x60" ++
              String.ofList mediaType ++ "\x60 is not one"))

/-- Whether a part has a block; thinking has one where it may be replayed. -/
def checkPart (allowReplay : Bool) : ContentPart → Except ErrorEnvelope Bool
  | .text _ => .ok true
  | .imageUrl imageUrl => (checkImage imageUrl.url).map fun _ => true
  | .thinking _ signature =>
      if allowReplay then do
        refuse (signature = none)
          (capability "a replayed Converse thinking block requires a signature")
        return true
      else .ok false
  | .redactedThinking _ => .ok allowReplay
  | .unknown _ => .ok false

/-- A call; its arguments are read as JSON unless they are blank. -/
def checkToolUse (kernel : Kernel) (call : ToolCall) : Except ErrorEnvelope Unit := do
  refuse (call.id = "") (capability
    "Converse requires a non-empty toolUseId; an empty one is rejected upstream as a generic validation error")
  refuse (call.name = "") (capability "Converse requires a non-empty tool name")
  refuse (trim call.arguments ≠ "" ∧ kernel.fromStr call.arguments = none) (capability
    "Converse needs tool arguments as a JSON object; these do not parse")

def checkReplayed (kernel : Kernel) : ReplayRef → Except ErrorEnvelope Unit
  | .content part => do
      let block ← checkPart true part
      refuse (block = false) (capability "unsupported reasoning replay block")
  | .tool call => checkToolUse kernel call

/-- The entries of a replayed turn, or the calls of a message without one. -/
def checkTurn (kernel : Kernel) (turn : Option (List ReplayRef)) (message : Message) :
    Except ErrorEnvelope Unit :=
  match turn with
  | none => message.toolCalls.forM (checkToolUse kernel)
  | some turn => turn.forM (checkReplayed kernel)

/-- The calls of an assistant turn. -/
def announced (turn : Option (List ReplayRef)) (message : Message) : List String :=
  match turn with
  | none => message.toolCalls.map ToolCall.id
  | some turn => turn.filterMap fun entry =>
      match entry with
      | .tool call => some call.id
      | .content _ => none

/-- One message, after the calls announced before it. -/
def checkMessage (kernel : Kernel) (calls : List String) (message : Message) :
    Except ErrorEnvelope (List String) :=
  match message.role with
  | .system => .ok calls
  | .tool =>
      match message.toolCallId with
      | none => .error (capability "a tool result must name the call it answers (tool_call_id)")
      | some id => do
          refuse (id = "") (capability
            "Converse requires a non-empty toolUseId on a tool result; an empty one can never match a prior toolUse")
          refuse (id ∉ calls) (capability
            ("a Converse tool result must answer a toolUse announced earlier in the same conversation; \x60" ++
              id ++ "\x60 names none"))
          return calls
  | .user => do
      (partsOf message.content).forM fun part => (checkPart false part).map fun _ => ()
      return calls
  | .assistant => do
      let turn ← layoutOf (validatedLayout message)
      checkTurn kernel turn message
      return calls ++ announced turn message

def conversationOf (kernel : Kernel) (rendering : Rendering) (request : ChatRequest)
    (points : CachePoints) : Except ErrorEnvelope (List Value × List Value) := do
  let _ ← request.messages.foldlM (checkMessage kernel) []
  return rendering.converseConversationOf request points

end Converse

end TokenStation.Requests
