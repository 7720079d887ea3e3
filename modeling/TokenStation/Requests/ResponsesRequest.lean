import TokenStation.Requests.OpenAiRequest

/-!
# The OpenAI Responses component's requests

Responses bodies for the component's three families. The wire names a tool by a
choice of its own, which the component writes from either named form.
-/

namespace TokenStation.Requests

open Library Library.Checked Library.Json Responses

namespace OpenAiResponses

def family : String := "openai-responses"
def mantleFamily : String := "bedrock-mantle"
def codexFamily : String := "openai-codex"

/-- The name a choice gives, in the Chat form or in Anthropic's named-tool form. -/
def choiceName (value : Value) : Option String :=
  match (value.get "type").bind Value.asStr with
  | some kind =>
      if kind = "function" then
        ((value.get "function").bind fun function => function.get "name").bind Value.asStr
      else if kind = "tool" then (value.get "name").bind Value.asStr
      else none
  | none => none

def toolChoice : ToolChoice → Except ErrorEnvelope Value
  | .auto => .ok (.string "auto")
  | .none => .ok (.string "none")
  | .required => .ok (.string "required")
  | .other value =>
      match choiceName value with
      | some name => .ok (.obj [("type", .string "function"), ("name", .string name)])
      | none => .error (capability
          "this tool_choice has no OpenAI Responses rendering; the wire names a function, or takes auto, none or required")

def toolDeclaration (request : ChatRequest) (tool : ToolDef) : Value :=
  let out := write SortedMap.empty "type" (some (.string "function"))
  let out := write out "name" (some (.string tool.name))
  let out := write out "description" (tool.description.map Value.string)
  let out := write out "parameters" (some tool.parameters)
  let out := write out "strict" ((toolStrict request tool).map Value.bool)
  .object out.entries

/-- The keys of a schema's envelope that the wire takes. -/
def schemaFields (schema : Value) : Body :=
  ["name", "schema", "strict", "description"].foldl
    (fun out key => write out key (schema.get key))
    (write SortedMap.empty "type" (some (.string "json_schema")))

def textFormat : ResponseFormat → Except ErrorEnvelope Value
  | .text => .ok (.obj [("type", .string "text")])
  | .jsonObject => .ok (.obj [("type", .string "json_object")])
  | .jsonSchema schema =>
      if schema.isObject then .ok (.object (schemaFields schema).entries)
      else .error (capability "a json_schema response format must be an object")

/-! ## Client fields -/

def invalidField (field detail : String) : ErrorEnvelope :=
  ⟨.invalidRequest, 400, "the request's \x60" ++ field ++ "\x60 " ++ detail, none⟩

def checkText (field : String) (value : Value) : Except ErrorEnvelope Unit :=
  match value.asStr with
  | none => .error (invalidField field "must be a string")
  | some text =>
      refuse (512 < (Text.bytes text).length) (invalidField field "must contain at most 512 bytes")

def metadataInBounds (entry : String × Value) : Bool :=
  entry.1.length ≤ 64 && (entry.2.asStr.any fun text => text.length ≤ 512)

def checkMetadata (field : String) (value : Value) : Except ErrorEnvelope Unit :=
  match value.asObject with
  | none => .error (invalidField field "must be an object")
  | some entries => do
      refuse (16 < entries.length) (invalidField field "must hold at most 16 entries")
      refuse (entries.all metadataInBounds = false) (invalidField field
        "must map keys of at most 64 characters to strings of at most 512")

def checkTruncation (field : String) (value : Value) : Except ErrorEnvelope Unit :=
  refuse ((value.asStr.any fun text => text == "auto" || text == "disabled") = false)
    (invalidField field "must be auto or disabled")

/-- One client field; `null` is the same as absent. -/
def clientField (check : String → Value → Except ErrorEnvelope Unit) (request : ChatRequest)
    (field : String) (body : Body) : Except ErrorEnvelope Body :=
  match (request.extensions.get field).filter fun value => !value.isNull with
  | none => .ok body
  | some value => do
      check field value
      return body.insert field value

def clientFields (request : ChatRequest) (body : Body) : Except ErrorEnvelope Body := do
  let body ← clientField checkText request "user" body
  let body ← clientField checkMetadata request "metadata" body
  let body ← clientField checkText request "prompt_cache_key" body
  clientField checkTruncation request "truncation" body

/-- Codex gets none of the client fields. -/
def clientFieldsUnless (codex : Bool) (request : ChatRequest) (body : Body) :
    Except ErrorEnvelope Body :=
  if codex then .ok body else clientFields request body

/-! ## Bodies -/

/-- The leading system messages and the messages after them. -/
def leadingSystem (messages : List Message) : List Message × List Message :=
  messages.span fun message => message.role = .system

def instructionsOf (instructions : List String) (codex : Bool) : Option Value :=
  if !instructions.isEmpty then some (.string ("\n".intercalate instructions))
  else if codex then some (.string "You are a helpful assistant.")
  else none

/-- The fields before the tool choice. -/
def conversationFields (request : ChatRequest) (codex : Bool) (instructions : List String)
    (input : List Value) : Body :=
  let hasTools := !request.tools.isEmpty
  let body := write SortedMap.empty "model" (some (.string request.model))
  let body := write body "instructions" (instructionsOf instructions codex)
  let body := write body "input" (some (.array input))
  let body := write body "tools"
    (onlyIf hasTools (.array (request.tools.map (toolDeclaration request))))
  write body "parallel_tool_calls"
    (if hasTools then request.parallelToolCalls.map Value.bool else none)

/-- The fields between the tool choice and the client's own. -/
def parameterFields (request : ChatRequest) (config : ProviderConfig) (codex : Bool)
    (format : Option Value) (body : Body) : Body :=
  let body := write body "text" (format.map fun format => .obj [("format", format)])
  let body := write body "reasoning"
    (if reasoningEffortAllowed request config then
      request.reasoning.effort.map fun effort => .obj [("effort", .string effort)]
    else none)
  let body := write body "temperature"
    (if codex then none else request.sampling.temperature.map Value.number)
  let body := write body "top_p" (request.sampling.topP.map Value.number)
  write body "max_output_tokens"
    (if codex then none else request.sampling.maxOutputTokens.map Value.nat)

def includeValue : Value := texts ["reasoning.encrypted_content"]

/-- The fields after the client's own. -/
def endFields (request : ChatRequest) (config : ProviderConfig) (body : Body) : Body :=
  let body := write body "include"
    (onlyIf (config.declares request "reasoning_replay.openai.v1") includeValue)
  let body := write body "stream" (onlyIf request.stream (.bool true))
  write body "store" (some (.bool false))

def bodyOf (rendering : Rendering) (request : ChatRequest) (config : ProviderConfig)
    (codex : Bool) : Except ErrorEnvelope Body := do
  let (leading, rest) := leadingSystem request.messages
  let instructions ← leading.mapM fun message => textOnly rendering "system" message.content
  let input ← inputItems rendering rest
  let body := conversationFields request codex instructions input
  let choice ← request.toolChoice.mapM toolChoice
  let body := write body "tool_choice" choice
  let format ← request.responseFormat.mapM textFormat
  let body := parameterFields request config codex format body
  let body ← clientFieldsUnless codex request body
  refuse (request.sampling.stop ≠ []) (capability
    "OpenAI Responses does not support stop sequences; remove \x60stop\x60 from the request")
  return endFields request config body

/-- Whether the family is Codex's; other families than the three are refused. -/
def codexOf (config : ProviderConfig) : Except ErrorEnvelope Bool :=
  if config.provider = family ∨ config.provider = mantleFamily then .ok false
  else if config.provider = codexFamily then .ok true
  else .error (capability ("unsupported provider dialect \x60" ++ config.provider ++ "\x60"))

def headerList (config : ProviderConfig) (codex : Bool) : List (String × String) :=
  ("content-type", "application/json") ::
    if codex then
      ("accept", "text/event-stream") ::
        ((config.declared.get "account_id").map fun account =>
          ("chatgpt-account-id", account)).toList
    else []

/-- The request after every check of the tool choice. -/
def descriptorOf (kernel : Kernel) (rendering : Rendering) (request : ChatRequest)
    (config : ProviderConfig) (codex : Bool) : Except ErrorEnvelope HttpRequestDescriptor := do
  refuse ((codex && !request.stream) = true) (capability
    "the Codex backend serves only streaming requests; send the request with stream: true")
  refuse (requestsReasoningReplay request = true)
    (capability "the OpenAI Responses dialect cannot consume Claude reasoning replay")
  refuse ((request.messages.any isOpenaiFamily &&
      !config.declares request "reasoning_replay.openai.v1") = true)
    (capability "reasoning replay requires the target model capability reasoning_replay.openai.v1")
  let body ← bodyOf rendering request config codex
  let url := if codex then config.baseUrl ++ "/codex/responses"
    else kernel.resolve config.baseUrl "responses"
  let headers ← headersOf kernel (headerList config codex)
  return ⟨url, headers, body, config.auth.map Auth.bearer⟩

def buildHttpRequest (kernel : Kernel) (rendering : Rendering) (request : ChatRequest)
    (config : ProviderConfig) : Except ErrorEnvelope HttpRequestDescriptor := do
  let codex ← codexOf config
  refuseDeclaredForcedTool request config
  descriptorOf kernel rendering request config codex

/-! ## Tools in the body -/

theorem get_clientField {check : String → Value → Except ErrorEnvelope Unit}
    {request : ChatRequest} {field key : String} {body out : Body}
    (h : clientField check request field body = .ok out) (hne : key ≠ field) :
    out.get key = body.get key := by
  unfold clientField at h
  split at h
  · cases h
    rfl
  · obtain ⟨-, h⟩ := andThen_eq_ok.mp h
    cases h
    rw [SortedMap.get_insert, if_neg hne.symm]

theorem get_clientFieldsUnless {codex : Bool} {request : ChatRequest} {key : String}
    {body out : Body} (h : clientFieldsUnless codex request body = .ok out)
    (hne : key ≠ "user" ∧ key ≠ "metadata" ∧ key ≠ "prompt_cache_key" ∧ key ≠ "truncation") :
    out.get key = body.get key := by
  unfold clientFieldsUnless at h
  split_ifs at h
  · cases h
    rfl
  · obtain ⟨user, huser, h⟩ := bind_eq_ok.mp h
    obtain ⟨metadata, hmetadata, h⟩ := bind_eq_ok.mp h
    obtain ⟨cacheKey, hcacheKey, h⟩ := bind_eq_ok.mp h
    rw [get_clientField h hne.2.2.2, get_clientField hcacheKey hne.2.2.1,
      get_clientField hmetadata hne.2.1, get_clientField huser hne.1]

/-- What a finished request says of tools. -/
theorem get_descriptorOf {kernel : Kernel} {rendering : Rendering} {request : ChatRequest}
    {config : ProviderConfig} {codex : Bool} {descriptor : HttpRequestDescriptor}
    (h : descriptorOf kernel rendering request config codex = .ok descriptor) :
    request.toolChoice.mapM toolChoice = .ok (descriptor.body.get "tool_choice") ∧
      descriptor.body.get "tools" = onlyIf (!request.tools.isEmpty)
        (.array (request.tools.map (toolDeclaration request))) := by
  unfold descriptorOf at h
  obtain ⟨-, h⟩ := andThen_eq_ok.mp h
  obtain ⟨-, h⟩ := andThen_eq_ok.mp h
  obtain ⟨-, h⟩ := andThen_eq_ok.mp h
  obtain ⟨body, hbody, h⟩ := bind_eq_ok.mp h
  obtain ⟨headers, -, h⟩ := bind_eq_ok.mp h
  cases h
  unfold bodyOf at hbody
  obtain ⟨instructions, -, hbody⟩ := bind_eq_ok.mp hbody
  obtain ⟨input, -, hbody⟩ := bind_eq_ok.mp hbody
  obtain ⟨choice, hchoice, hbody⟩ := bind_eq_ok.mp hbody
  obtain ⟨format, -, hbody⟩ := bind_eq_ok.mp hbody
  obtain ⟨fields, hfields, hbody⟩ := bind_eq_ok.mp hbody
  obtain ⟨-, hbody⟩ := andThen_eq_ok.mp hbody
  cases hbody
  have hkept {key : String} (hne : key ≠ "user" ∧ key ≠ "metadata" ∧ key ≠ "prompt_cache_key" ∧
      key ≠ "truncation") := get_clientFieldsUnless hfields hne
  have hchoiceKept := hkept (show ("tool_choice" : String) ≠ "user" ∧ _ by decide)
  have htoolsKept := hkept (show ("tools" : String) ≠ "user" ∧ _ by decide)
  constructor
  · rw [hchoice]
    simp [endFields, get_write, hchoiceKept, parameterFields, conversationFields]
  · simp [endFields, get_write, htoolsKept, parameterFields, conversationFields]

end OpenAiResponses

end TokenStation.Requests
