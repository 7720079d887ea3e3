import TokenStation.Responses.Protocol

/-!
# Canonical messages

The conversation as the codec holds it between its wires: messages with their
parts, tool calls and extensions, and the answers a provider gave.
-/

namespace TokenStation.Responses

open Library Library.Json

inductive Role where
  | system
  | user
  | assistant
  | tool
deriving DecidableEq, Repr

structure ImageUrl where
  url : String
  detail : Option String
deriving DecidableEq, Repr

inductive ContentPart where
  | text (text : String)
  | imageUrl (imageUrl : ImageUrl)
  | thinking (thinking : String) (signature : Option String)
  | redactedThinking (data : String)
  | unknown (value : Value)

inductive Content where
  | text (text : String)
  | parts (parts : List ContentPart)

structure ToolCall where
  id : String
  name : String
  arguments : String
  /-- The provider's opaque signature of the call. -/
  signature : Option String
deriving DecidableEq, Repr

/-- Data beside the canonical fields, by name. -/
abbrev Extensions := List (String × Value)

structure Message where
  role : Role
  content : Option Content
  toolCalls : List ToolCall
  toolCallId : Option String
  name : Option String
  extensions : Extensions

/-- A message of one text. -/
def Message.text (role : Role) (text : String) : Message :=
  ⟨role, some (.text text), [], none, none, []⟩

structure Choice where
  index : Nat
  message : Message
  finishReason : Option FinishReason
  stopSequence : Option String

structure ChatResponse where
  id : String
  model : String
  choices : List Choice
  usage : Usage

/-- The text of a text part. -/
def ContentPart.asText : ContentPart → Option String
  | .text s => some s
  | _ => none

def ContentPart.isText (part : ContentPart) : Bool := part.asText.isSome

def ContentPart.asThinking : ContentPart → Option String
  | .thinking s _ => some s
  | _ => none

def ContentPart.asRedacted : ContentPart → Option String
  | .redactedThinking data => some data
  | _ => none

/-- The content parts of a message; plain text is one part. -/
def partsIn (message : Message) : List ContentPart :=
  match message.content with
  | some (.parts parts) => parts
  | some (.text text) => [.text text]
  | none => []

/-! ## What a stream gives -/

def streamedText (events : List StreamEvent) : List String :=
  events.filterMap fun event =>
    match event with
    | .delta _ content => some content
    | _ => none

def streamedThinking (events : List StreamEvent) : List String :=
  events.filterMap fun event =>
    match event with
    | .thinkingDelta _ _ text => some text
    | _ => none

end TokenStation.Responses
