import TokenStation.Requests.ClaudeDialect
import TokenStation.Requests.ReasoningReplay

/-!
# What components share

The spelling of accepted messages on each wire, which no refusal depends on, and the
declarations, checks and addresses that the provider components share.
-/

namespace TokenStation.Requests

open Library Library.Checked Library.Json Responses

/-- What the host declared about Converse prompt caching for the target model. -/
structure CachePoints where
  enabled : Bool
  oneHour : Bool
  tools : Bool
deriving DecidableEq, Repr

/-- How the components write the messages they accept, each on its own wire. -/
structure Rendering where
  messageToOpenai : Bool → Message → Value
  inputItems : List Message → List Value
  textOnly : Option Content → String
  conversationOf : ChatRequest → List (String × Option CacheControl) × List Value
  converseConversationOf : ChatRequest → CachePoints → List Value × List Value

/-- Every message has a layout that can be replayed, or none. -/
def checkLayouts (request : ChatRequest) : Except ErrorEnvelope Unit :=
  refuse (request.messages.any (fun message => !(validatedLayout message).isOk) = true)
    (capability "invalid reasoning replay markers or layout")

/-- Replayed Claude reasoning goes only to a model that declares it. -/
def checkReplayCapability (request : ChatRequest) (config : ProviderConfig) :
    Except ErrorEnvelope Unit :=
  refuse ((requestsReasoningReplay request &&
      !config.declares request "reasoning_replay.claude.v1") = true)
    (capability "reasoning replay requires the target model capability reasoning_replay.claude.v1")

/-- Whether `reasoning_effort` may be sent for the chosen model. -/
def reasoningEffortAllowed (request : ChatRequest) (config : ProviderConfig) : Bool :=
  let requiresExplicitCapability := thinkingRequested request
  match config.row request with
  | none => !requiresExplicitCapability
  | some row =>
      row.supportedParameters.contains "reasoning_effort" ||
        (!requiresExplicitCapability && row.supportedParameters.isEmpty)

/-- An address without the slashes at its end. -/
def trimEndSlashes (url : String) : String :=
  String.ofList (url.toList.rdropWhile (· == '/'))

def texts (values : List String) : Value := .array (values.map .string)

end TokenStation.Requests
