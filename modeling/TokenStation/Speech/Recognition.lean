import TokenStation.Speech.Parts

/-!
# Recognition calls

What the components that speak the OpenAI audio protocol and ElevenLabs' prepare of
a client's transcription request: the upstream's parts, and the state in which the
answer will be read.
-/

namespace TokenStation.Speech

open Library Library.Checked Library.Json Responses

inductive SpeechOperationV1 where
  | synthesize
  | transcribe
  | translate
deriving DecidableEq, Repr

inductive SpeechMeteringFormV1 where
  | characters
  | seconds
  | tokens
deriving DecidableEq, Repr

inductive SpeechDialectWordV1 where
  | translate
  | verboseJson
deriving DecidableEq, Repr

inductive ResponseBodyFormV1 where
  | json
  | text
deriving DecidableEq, Repr

/-- One configured model. -/
structure ModelRow where
  model : String
  supportedParameters : List String

structure ProviderConfig where
  models : List ModelRow
  auth : Option String

structure SpeechCallContextV1 where
  upstreamModel : String
  operation : SpeechOperationV1
  meteringRequired : List SpeechMeteringFormV1

/-- A multipart request by reference. -/
structure MediaRequestDescriptorV1 where
  path : String
  query : Option Value
  auth : Option Value
  parts : List MediaPartV1

structure PreparedSpeechCallV1 where
  operation : SpeechOperationV1
  meteringForms : List SpeechMeteringFormV1
  descriptor : MediaRequestDescriptorV1
  responseBodyForm : ResponseBodyFormV1
  immutableFormFields : List String
  state : Value

def operationWord : SpeechOperationV1 → String
  | .synthesize => "synthesize"
  | .transcribe => "transcribe"
  | .translate => "translate"

def formWord : SpeechMeteringFormV1 → String
  | .characters => "characters"
  | .seconds => "seconds"
  | .tokens => "tokens"

/-! ## Model rows -/

def speechDialectPrefix : String := "speech."

def SpeechDialectWordV1.word : SpeechDialectWordV1 → String
  | .translate => "speech.translate"
  | .verboseJson => "speech.verbose_json"

def SpeechDialectWordV1.parse (word : String) : Option SpeechDialectWordV1 :=
  [SpeechDialectWordV1.translate, .verboseJson].find? fun candidate => candidate.word == word

/-- The dialect words of a row; a misspelt one is refused. -/
def speechDialectWordsV1 (supportedParameters : List String) : Option (List SpeechDialectWordV1) :=
  (supportedParameters.filter fun entry =>
    speechDialectPrefix.toList.isPrefixOf entry.toList).mapM SpeechDialectWordV1.parse

def rowWords (config : ProviderConfig) (model : String) :
    Except ErrorEnvelope (List SpeechDialectWordV1) :=
  match config.models.find? fun row => row.model == model with
  | none => .ok []
  | some row =>
      match speechDialectWordsV1 row.supportedParameters with
      | some words => .ok words
      | none => .error (invalid "the model row carries a misspelt speech dialect word")

/-- Whether the operation is one the package and the model declare. -/
def declaresOperation (config : ProviderConfig) (context : SpeechCallContextV1)
    (translates : Bool) : Except ErrorEnvelope Bool :=
  match context.operation with
  | .synthesize => .ok false
  | .transcribe => .ok true
  | .translate =>
      if translates then
        (rowWords config context.upstreamModel).map fun words => decide (.translate ∈ words)
      else .ok false

/-- The forms a recognition call is metered in. -/
def recognitionForms (config : ProviderConfig) (context : SpeechCallContextV1)
    (translates : Bool) : Except ErrorEnvelope (List SpeechMeteringFormV1) := do
  let declared ← declaresOperation config context translates
  refuse (declared = false) (capability ("the model '" ++ context.upstreamModel ++
    "' does not declare the operation " ++ operationWord context.operation))
  refuse (context.meteringRequired = []) (capability "the host requires no metering form")
  match context.meteringRequired.find? fun form => decide (form ≠ .seconds) with
  | some form => .error (capability ("this model cannot report " ++ formWord form))
  | none => .ok [.seconds]

def verboseRow (config : ProviderConfig) (model : String) : Except ErrorEnvelope Bool :=
  (rowWords config model).map fun words => decide (.verboseJson ∈ words)

/-! ## Descriptors -/

/-- The most parts a descriptor carries. -/
def maxParts : Nat := 64

/-- The checks of a descriptor's path, query and auth arm. -/
abbrev DescriptorGrammar := String → Option Value → Option Value → Except String Unit

section Prepare

variable (grammar : DescriptorGrammar)

def multipartDescriptor (path : String) (query auth : Option Value) (parts : List MediaPartV1) :
    Except ErrorEnvelope MediaRequestDescriptorV1 := do
  let refused (error : String) := internal ("built an invalid descriptor: " ++ error)
  (grammar path query auth).mapError refused
  refuse (parts = [] ∨ maxParts < parts.length)
    (refused "media descriptor multipart body has an invalid part count")
  return ⟨path, query, auth, parts⟩

/-! ## The OpenAI audio protocol -/

structure OpenAiAsr where
  path : String
  query : Option Value
  /-- Whether every text part `model` is removed. -/
  dropsModel : Bool
  translates : Bool
  auth : Option Value
  upstreamModel : String

def openaiImmutableFormFields : List String := ["model", "file", "response_format", "stream"]

/-- Whether the upstream is asked for the format that carries a duration. -/
def asksVerbose (row : Bool) (format : String) : Bool :=
  row || decide (format ∈ ["text", "srt", "vtt"])

def openaiPlan (protocol : OpenAiAsr) (verbose : Bool) : PartPlan where
  written :=
    (if protocol.dropsModel then [] else [⟨"model", "model", protocol.upstreamModel⟩]) ++
      if verbose then [⟨"response_format", "response_format", "verbose_json"⟩] else []
  droppedText := if protocol.dropsModel then ["model"] else []

def prepareOpenai (config : ProviderConfig) (request : List MediaPartViewV1)
    (context : SpeechCallContextV1) (protocol : OpenAiAsr) :
    Except ErrorEnvelope PreparedSpeechCallV1 := do
  let forms ← recognitionForms config context protocol.translates
  let parts ← requestParts request
  let format ← openaiFormat parts
  let row ← verboseRow config protocol.upstreamModel
  let verbose := asksVerbose row format
  let descriptor ← multipartDescriptor grammar protocol.path protocol.query protocol.auth
    (rewriteParts parts (openaiPlan protocol verbose))
  return {
    operation := context.operation
    meteringForms := forms
    descriptor
    responseBodyForm :=
      if verbose = true ∨ format ∈ ["json", "verbose_json"] then .json else .text
    immutableFormFields := openaiImmutableFormFields
    state := .obj [("op", .string (operationWord context.operation)), ("format", .string format),
      ("verbose", .bool verbose)] }

/-- The format an answer is read as, by the recorded state. -/
def formatRead (state : Value) : String :=
  if ((state.field "verbose").asBool.getD false) = true then "verbose_json"
  else (state.field "format").asStr.getD "json"

/-! ## ElevenLabs -/

def sttPath : String := "v1/speech-to-text"

def secretHeader : String := "xi-api-key"

def asrImmutableFormFields : List String := ["model_id", "file", "timestamps_granularity"]

/-- The arm that puts the configured secret into its header. -/
def secretAuth (config : ProviderConfig) : Option Value :=
  config.auth.map fun slot =>
    .obj [("arm", .string "header_secret"), ("header", .string secretHeader),
      ("slot", .string slot)]

def recognitionPlan (upstreamModel : String) : PartPlan where
  written := [⟨"model", "model_id", upstreamModel⟩,
    ⟨"timestamps_granularity", "timestamps_granularity", "word"⟩]
  renamedText := [("language", "language_code")]

def prepareRecognition (config : ProviderConfig) (request : List MediaPartViewV1)
    (context : SpeechCallContextV1) : Except ErrorEnvelope PreparedSpeechCallV1 := do
  let forms ← recognitionForms config context false
  let parts ← requestParts request
  let format ← openaiFormat parts
  let descriptor ← multipartDescriptor grammar sttPath none (secretAuth config)
    (rewriteParts parts (recognitionPlan context.upstreamModel))
  return {
    operation := context.operation
    meteringForms := forms
    descriptor
    responseBodyForm := .json
    immutableFormFields := asrImmutableFormFields
    state := .obj [("op", .string (operationWord context.operation)), ("format", .string format)] }

end Prepare

end TokenStation.Speech
