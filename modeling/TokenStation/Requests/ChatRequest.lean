import TokenStation.Library.Checked
import TokenStation.Responses.Conversation

/-!
# Requests to a provider component

What a component gets to build an upstream request from: the canonical request and
the provider's configuration. Bodies are maps to which one key after another is
written.
-/

namespace TokenStation.Requests

open Library Library.Checked Library.Json Responses

/-! ## Requests -/

/-- The caller's choice between tools; a choice the other words do not spell is an
open value. -/
inductive ToolChoice where
  | auto
  | none
  | required
  | other (value : Value)

inductive CacheTtl where
  | fiveMinutes
  | oneHour
deriving DecidableEq, Repr

/-- A prompt-cache marker. -/
structure CacheControl where
  ttl : Option CacheTtl
deriving DecidableEq, Repr

structure ToolDef where
  name : String
  description : Option String
  parameters : Value
  strict : Option Bool
  cacheControl : Option CacheControl

inductive ResponseFormat where
  | text
  | jsonObject
  | jsonSchema (jsonSchema : Value)

structure Sampling where
  temperature : Option Number
  topP : Option Number
  topK : Option Nat
  maxOutputTokens : Option Nat
  stop : List String

inductive ReasoningMode where
  | enabled
  | disabled
  | adaptive
deriving DecidableEq, Repr

structure Reasoning where
  mode : Option ReasoningMode
  effort : Option String
  budgetTokens : Option Nat

structure ChatRequest where
  model : String
  messages : List Message
  stream : Bool
  sampling : Sampling
  tools : List ToolDef
  toolChoice : Option ToolChoice
  parallelToolCalls : Option Bool
  responseFormat : Option ResponseFormat
  reasoning : Reasoning
  hostValues : SortedMap String String
  extensions : SortedMap String Value

/-! ## Configurations -/

/-- What the operator declared of a model. -/
structure ModelCapability where
  model : String
  supportedParameters : List String

structure ProviderConfig where
  provider : String
  baseUrl : String
  auth : Option String
  models : List ModelCapability
  /-- The operator's values of the configuration keys. -/
  declared : SortedMap String String

/-- The first row of the request's model. -/
def ProviderConfig.row (config : ProviderConfig) (request : ChatRequest) :
    Option ModelCapability :=
  config.models.find? fun row => row.model == request.model

/-- Whether some row of the request's model declares a word. -/
def ProviderConfig.declares (config : ProviderConfig) (request : ChatRequest) (word : String) :
    Bool :=
  config.models.any fun row => row.model == request.model && row.supportedParameters.contains word

def capability (message : String) : ErrorEnvelope := ⟨.capability, 400, message, none⟩
def internal (message : String) : ErrorEnvelope := ⟨.internal, 500, message, none⟩

/-- The `strict` flag of a tool: its own, or the one an older producer wrote in a map. -/
def toolStrict (request : ChatRequest) (tool : ToolDef) : Option Bool :=
  tool.strict.or
    ((request.extensions.get "responses_tool_strict").bind fun strict =>
      (strict.get tool.name).bind Value.asBool)

/-- Whether the caller turned thinking on. -/
def thinkingRequested (request : ChatRequest) : Bool :=
  request.reasoning.mode = some .enabled || request.reasoning.mode = some .adaptive ||
    match (request.extensions.get "anthropic_thinking").bind fun thinking =>
        (thinking.get "type").bind Value.asStr with
    | some kind => kind == "adaptive" || kind == "enabled"
    | none => false

/-- The family of a message's reasoning replay. -/
def replayFamily (message : Message) : Option String :=
  (lookup "reasoning_replay_protocol_family" message.extensions).bind Value.asStr

def claudeFamily : String := "claude-signed-thinking"

/-- Whether a message of the request carries replayed Claude reasoning. -/
def requestsReasoningReplay (request : ChatRequest) : Bool :=
  request.messages.any fun message => replayFamily message == some claudeFamily

/-! ## Bodies -/

/-- The fields of a JSON body. -/
abbrev Body := SortedMap String Value

/-- Write a field where there is a value for it. -/
def write (body : Body) (key : String) (value : Option Value) : Body :=
  match value with
  | some value => body.insert key value
  | none => body

theorem get_write (body : Body) (key k : String) (value : Option Value) :
    (write body key value).get k = if key = k then value.or (body.get k) else body.get k := by
  cases value with
  | some value => rw [write, SortedMap.get_insert, Option.some_or]
  | none => rw [write, Option.none_or, ite_self]

/-- A value under a condition. -/
def onlyIf (c : Bool) (value : Value) : Option Value := if c then some value else none

/-! ## What the kernel and the contracts do -/

/-- The parts of other packages that building a request uses: how a choice and a
marker are serialized, how JSON text is read, how a canonical path is resolved below
the operator's endpoint, and which headers are well formed. -/
structure Kernel where
  toolChoiceJson : ToolChoice → Value
  cacheControlJson : CacheControl → Value
  fromStr : String → Option Value
  resolve : String → String → String
  safeHeaders : List (String × String) → Except String Unit
  headerName : String → Except String Unit

/-- How an upstream request authenticates. -/
inductive Auth where
  | bearer (secret : String)
  | header (name secret : String)
  | bearerAndHeader (name secret : String)
  | aws (secret : String)
deriving DecidableEq, Repr

structure HttpRequestDescriptor where
  url : String
  headers : List (String × String)
  body : Body
  auth : Option Auth

def headersOf (kernel : Kernel) (headers : List (String × String)) :
    Except ErrorEnvelope (List (String × String)) := do
  (kernel.safeHeaders headers).mapError internal
  return headers

/-- A secret in a header of its own. -/
def authHeader (kernel : Kernel) (name : String) (auth : Auth) :
    Except ErrorEnvelope (Option Auth) := do
  (kernel.headerName name).mapError internal
  return some auth

end TokenStation.Requests
