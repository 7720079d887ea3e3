import TokenStation.Contracts.UrlSegment
import TokenStation.Requests.Messages

/-!
# The OpenAI-compatible component's requests

Chat Completions bodies for every family of the component, with the client fields
some families forward and the output cap one of them splits.
-/

namespace TokenStation.Requests

open Library Library.Checked Library.Json Responses

namespace OpenAi

def gitHubCopilot : String := "github-copilot"
def geminiOpenaiCompatible : String := "gemini-openai-compatible"
def glmCoding : String := "glm-coding"
def kimiCode : String := "kimi-code"
def bailian : String := "bailian-openai-compatible"
def azureOpenaiV1 : String := "azure-openai-v1"
def azureOpenaiDated : String := "azure-openai-dated"

def copilotHeaders : List (String × String) :=
  [("copilot-integration-id", "copilot-developer-cli"),
    ("editor-plugin-version", "copilot-chat/0.43.0"), ("editor-version", "vscode/1.123.0"),
    ("openai-intent", "conversation-panel"), ("x-github-api-version", "2025-04-01"),
    ("x-vscode-user-agent-library-version", "electron-fetch")]

/-! ## Addresses -/

def isDatedApiVersion (value : String) : Bool :=
  let suffix := "-preview".toList
  let date :=
    if suffix.isSuffixOf value.toList then value.toList.take (value.toList.length - suffix.length)
    else value.toList
  date.length == 10 && date.zipIdx.all fun (c, place) =>
    if place = 4 ∨ place = 7 then c == '-' else c.isDigit

def azureDatedUrl (request : ChatRequest) (config : ProviderConfig) :
    Except ErrorEnvelope String := do
  let version := (config.declared.get "api_version").getD "2024-10-21"
  refuse (isDatedApiVersion version = false)
    (internal "the \x60api_version\x60 configuration value is not a dated API version")
  refuse (request.model = "") (capability
    "Azure OpenAI addresses the deployment in the URL path, so a request without a model has no deployment to send to")
  return trimEndSlashes config.baseUrl ++ "/openai/deployments/" ++ Contracts.UrlSegment.encode request.model ++
    "/chat/completions?api-version=" ++ version

def urlOf (kernel : Kernel) (request : ChatRequest) (config : ProviderConfig) :
    Except ErrorEnvelope String :=
  if config.provider = gitHubCopilot then .ok (config.baseUrl ++ "/chat/completions")
  else if config.provider = glmCoding then
    .ok (trimEndSlashes config.baseUrl ++ "/api/coding/paas/v4/chat/completions")
  else if config.provider = kimiCode then
    .ok (trimEndSlashes config.baseUrl ++ "/v1/chat/completions")
  else if config.provider = bailian then
    .ok (trimEndSlashes config.baseUrl ++ "/chat/completions")
  else if config.provider = azureOpenaiDated then azureDatedUrl request config
  else .ok (kernel.resolve config.baseUrl "chat-completions")

/-! ## Bodies -/

/-- The wire name of the output cap. -/
def capField (config : ProviderConfig) : Except ErrorEnvelope String :=
  if config.provider = azureOpenaiV1 ∨ config.provider = azureOpenaiDated then
    let value := (config.declared.get "max_tokens_field").getD "max_completion_tokens"
    if value = "max_completion_tokens" then .ok "max_completion_tokens"
    else if value = "max_tokens" then .ok "max_tokens"
    else .error (internal
      "the \x60max_tokens_field\x60 configuration value is neither \x60max_completion_tokens\x60 nor \x60max_tokens\x60")
  else .ok "max_tokens"

def wantsReasoningContent (request : ChatRequest) (config : ProviderConfig) : Bool :=
  match config.row request with
  | none => (request.model.toList.take 8).map Char.toLower == "deepseek".toList
  | some row => row.supportedParameters.contains "reasoning_content"

def toolDeclaration (request : ChatRequest) (tool : ToolDef) : Value :=
  let function := write SortedMap.empty "name" (some (.string tool.name))
  let function := write function "description"
    (some ((tool.description.map Value.string).getD .null))
  let function := write function "parameters" (some tool.parameters)
  let function := write function "strict" ((toolStrict request tool).map Value.bool)
  .obj [("type", .string "function"), ("function", .object function.entries)]

def formatJson : ResponseFormat → Value
  | .text => .obj [("type", .string "text")]
  | .jsonObject => .obj [("type", .string "json_object")]
  | .jsonSchema schema => .obj [("type", .string "json_schema"), ("json_schema", schema)]

/-- The fields of a body; the choice is written whether or not there are tools. -/
def bodyFields (kernel : Kernel) (request : ChatRequest) (capKey : String)
    (messages : List Value) : Body :=
  let sampling := request.sampling
  let hasTools := !request.tools.isEmpty
  let body := write SortedMap.empty "model" (some (.string request.model))
  let body := write body "messages" (some (.array messages))
  let body := write body "stream" (onlyIf request.stream (.bool true))
  let body := write body "stream_options"
    (onlyIf request.stream (.obj [("include_usage", .bool true)]))
  let body := write body "temperature" (sampling.temperature.map Value.number)
  let body := write body "top_p" (sampling.topP.map Value.number)
  let body := write body capKey (sampling.maxOutputTokens.map Value.nat)
  let body := write body "stop" (onlyIf (!sampling.stop.isEmpty) (texts sampling.stop))
  let body := write body "tool_choice" (request.toolChoice.map kernel.toolChoiceJson)
  let body := write body "tools"
    (onlyIf hasTools (.array (request.tools.map (toolDeclaration request))))
  let body := write body "parallel_tool_calls"
    (if hasTools then request.parallelToolCalls.map Value.bool else none)
  write body "response_format" (request.responseFormat.map formatJson)

def bodyOf (kernel : Kernel) (rendering : Rendering) (request : ChatRequest)
    (config : ProviderConfig) : Except ErrorEnvelope Body := do
  let capKey ← capField config
  let messages ← request.messages.mapM
    (messageToOpenai rendering (wantsReasoningContent request config))
  return bodyFields kernel request capKey messages

/-- The families that forward client fields. -/
def clientPassthroughFamilies : List String :=
  ["openai-compatible", azureOpenaiV1, gitHubCopilot, azureOpenaiDated, glmCoding, kimiCode,
    bailian]

/-- A client field that the body does not have yet. -/
def forwardClientField (request : ChatRequest) (body : Body) (field : String) : Body :=
  match body.get field with
  | some _ => body
  | none => write body field (request.extensions.get field)

def forwardClientFields (request : ChatRequest) (config : ProviderConfig) (body : Body) : Body :=
  if config.provider ∈ clientPassthroughFamilies then
    forwardClientField request (forwardClientField request body "thinking") "enable_thinking"
  else body

def renderGlmThinking (request : ChatRequest) (config : ProviderConfig) (body : Body) : Body :=
  if config.provider = glmCoding then
    match request.reasoning.mode, body.get "thinking" with
    | some .enabled, none => body.insert "thinking" (.obj [("type", .string "enabled")])
    | some .disabled, none => body.insert "thinking" (.obj [("type", .string "disabled")])
    | _, _ => body
  else body

/-- Whether the body asks the model to think, and the body that says so. -/
def thinkingSwitch (request : ChatRequest) (body : Body) : Bool × Body :=
  match body.get "enable_thinking" with
  | some (.bool on) => (on, body)
  | _ =>
      if request.reasoning.mode = some .disabled then
        (false, body.insert "enable_thinking" (.bool false))
      else (true, body)

/-- The reasoning cap the client asked for. -/
def clientBudget (request : ChatRequest) : Except ErrorEnvelope (Option Nat) :=
  match request.extensions.get "thinking_budget" with
  | none | some .null => .ok none
  | some budget =>
      match budget.asU64 with
      | some n => .ok (some n)
      | none => .error (capability "thinking_budget must be a non-negative integer")

/-- Split the authorised cap between reasoning and answer. -/
def splitBailianCap (request : ChatRequest) (config : ProviderConfig) (body : Body) :
    Except ErrorEnvelope Body :=
  if config.provider ≠ bailian ∨ config.declares request "thinking_budget" = false then .ok body
  else
    let (thinking, body) := thinkingSwitch request body
    match request.sampling.maxOutputTokens.filter fun _ => thinking with
    | none => .ok body
    | some cap => do
        refuse (cap < 5) (capability
          "this model reasons by default and its upstream caps the reasoning apart from the answer; an output cap below 5 leaves no room for both")
        let client ← clientBudget request
        let room := cap - 3 - 1
        let wanted := (client.or request.reasoning.budgetTokens).getD ((cap - 3) / 2)
        let budget := min (max wanted 1) room
        return (body.insert "thinking_budget" (.nat budget)).insert "max_tokens"
          (.nat (cap - 3 - budget))

/-- How the family presents its secret. -/
def authOf (kernel : Kernel) (config : ProviderConfig) : Except ErrorEnvelope (Option Auth) :=
  if config.provider ∈ ["openai-compatible", gitHubCopilot, glmCoding, kimiCode, bailian] then
    .ok (config.auth.map Auth.bearer)
  else if config.provider = azureOpenaiV1 ∨ config.provider = azureOpenaiDated then
    match config.auth with
    | some secret => authHeader kernel "api-key" (.header "api-key" secret)
    | none => .ok none
  else if config.provider = geminiOpenaiCompatible then
    match config.auth with
    | some secret => authHeader kernel "x-goog-api-key" (.bearerAndHeader "x-goog-api-key" secret)
    | none => .ok none
  else .error (capability ("unsupported provider dialect \x60" ++ config.provider ++ "\x60"))

/-- What the component refuses before it looks at the tool choice. -/
def refuseReplay (request : ChatRequest) : Except ErrorEnvelope Unit := do
  refuse (requestsReasoningReplay request = true)
    (capability "the OpenAI-compatible dialect cannot consume Claude reasoning replay")
  refuse (request.messages.any isOpenaiFamily = true)
    (capability "the OpenAI-compatible dialect cannot consume OpenAI reasoning replay")

/-- The request after every check of the tool choice. -/
def descriptorOf (kernel : Kernel) (rendering : Rendering) (request : ChatRequest)
    (config : ProviderConfig) : Except ErrorEnvelope HttpRequestDescriptor := do
  let url ← urlOf kernel request config
  let headers ← headersOf kernel (("content-type", "application/json") ::
    if config.provider = gitHubCopilot then copilotHeaders else [])
  let body ← bodyOf kernel rendering request config
  let body := write body "reasoning_effort"
    (if reasoningEffortAllowed request config then request.reasoning.effort.map Value.string
      else none)
  let body := renderGlmThinking request config (forwardClientFields request config body)
  let body ← splitBailianCap request config body
  let auth ← authOf kernel config
  return ⟨url, headers, body, auth⟩

def buildHttpRequest (kernel : Kernel) (rendering : Rendering) (request : ChatRequest)
    (config : ProviderConfig) : Except ErrorEnvelope HttpRequestDescriptor := do
  refuseReplay request
  refuseDeclaredForcedTool request config
  descriptorOf kernel rendering request config

/-! ## Tools in the body -/

theorem capField_ne {config : ProviderConfig} {capKey : String} (h : capField config = .ok capKey) :
    capKey ≠ "tool_choice" ∧ capKey ≠ "tools" := by
  unfold capField at h
  dsimp only at h
  split_ifs at h <;> cases h <;> decide

/-- The choice as it came, and the tools there are. -/
theorem get_bodyFields (kernel : Kernel) (request : ChatRequest) {capKey : String}
    (messages : List Value) (hchoice : capKey ≠ "tool_choice") (htools : capKey ≠ "tools") :
    (bodyFields kernel request capKey messages).get "tool_choice" =
        request.toolChoice.map kernel.toolChoiceJson ∧
      (bodyFields kernel request capKey messages).get "tools" =
        onlyIf (!request.tools.isEmpty)
          (.array (request.tools.map (toolDeclaration request))) := by
  simp [bodyFields, get_write, hchoice, htools]

theorem get_forwardClientFields (request : ChatRequest) (config : ProviderConfig) (body : Body)
    {key : String} (hthinking : key ≠ "thinking") (henable : key ≠ "enable_thinking") :
    (forwardClientFields request config body).get key = body.get key := by
  have hfield (body : Body) {field : String} (h : key ≠ field) :
      (forwardClientField request body field).get key = body.get key := by
    unfold forwardClientField
    split
    · rfl
    · rw [get_write, if_neg h.symm]
  unfold forwardClientFields
  split_ifs
  · rw [hfield _ henable, hfield _ hthinking]
  · rfl

theorem get_renderGlmThinking (request : ChatRequest) (config : ProviderConfig) (body : Body)
    {key : String} (h : key ≠ "thinking") :
    (renderGlmThinking request config body).get key = body.get key := by
  unfold renderGlmThinking
  split_ifs
  · split
    · rw [SortedMap.get_insert, if_neg h.symm]
    · rw [SortedMap.get_insert, if_neg h.symm]
    · rfl
  · rfl

theorem get_thinkingSwitch (request : ChatRequest) (body : Body) {key : String}
    (h : key ≠ "enable_thinking") : (thinkingSwitch request body).2.get key = body.get key := by
  unfold thinkingSwitch
  split
  · rfl
  · split_ifs
    · rw [SortedMap.get_insert, if_neg h.symm]
    · rfl

theorem get_splitBailianCap {request : ChatRequest} {config : ProviderConfig} {body out : Body}
    {key : String} (h : splitBailianCap request config body = .ok out)
    (henable : key ≠ "enable_thinking") (hbudget : key ≠ "thinking_budget")
    (hmax : key ≠ "max_tokens") : out.get key = body.get key := by
  unfold splitBailianCap at h
  split_ifs at h
  · cases h
    rfl
  · dsimp only at h
    split at h
    · cases h
      exact get_thinkingSwitch request body henable
    · obtain ⟨-, h⟩ := andThen_eq_ok.mp h
      obtain ⟨client, -, h⟩ := bind_eq_ok.mp h
      cases h
      rw [SortedMap.get_insert, if_neg hmax.symm, SortedMap.get_insert, if_neg hbudget.symm]
      exact get_thinkingSwitch request body henable

/-- What a finished request says of tools. -/
theorem get_descriptorOf {kernel : Kernel} {rendering : Rendering} {request : ChatRequest}
    {config : ProviderConfig} {descriptor : HttpRequestDescriptor}
    (h : descriptorOf kernel rendering request config = .ok descriptor) :
    descriptor.body.get "tool_choice" = request.toolChoice.map kernel.toolChoiceJson ∧
      descriptor.body.get "tools" = onlyIf (!request.tools.isEmpty)
        (.array (request.tools.map (toolDeclaration request))) := by
  unfold descriptorOf at h
  obtain ⟨url, -, h⟩ := bind_eq_ok.mp h
  obtain ⟨headers, -, h⟩ := bind_eq_ok.mp h
  obtain ⟨body, hbody, h⟩ := bind_eq_ok.mp h
  obtain ⟨split, hsplit, h⟩ := bind_eq_ok.mp h
  obtain ⟨auth, -, h⟩ := bind_eq_ok.mp h
  cases h
  obtain ⟨capKey, hcap, hbody⟩ := bind_eq_ok.mp hbody
  obtain ⟨messages, -, hbody⟩ := bind_eq_ok.mp hbody
  cases hbody
  obtain ⟨hchoice, htools⟩ := capField_ne hcap
  have hfields := get_bodyFields kernel request messages hchoice htools
  have hkept {key : String} (hne : key ≠ "thinking" ∧ key ≠ "enable_thinking" ∧
      key ≠ "thinking_budget" ∧ key ≠ "max_tokens" ∧ key ≠ "reasoning_effort") :
      split.get key = (bodyFields kernel request capKey messages).get key := by
    rw [get_splitBailianCap hsplit hne.2.1 hne.2.2.1 hne.2.2.2.1,
      get_renderGlmThinking _ _ _ hne.1, get_forwardClientFields _ _ _ hne.1 hne.2.1, get_write,
      if_neg hne.2.2.2.2.symm]
  exact ⟨(hkept (by decide)).trans hfields.1, (hkept (by decide)).trans hfields.2⟩

end OpenAi

end TokenStation.Requests
