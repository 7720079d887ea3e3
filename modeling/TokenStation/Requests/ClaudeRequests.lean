import TokenStation.Contracts.UrlSegment
import TokenStation.Requests.Messages

/-!
# Requests in the Claude dialect

The bodies of the two components that read the whole dialect of a Claude model: the
Messages body, and the Converse body with its tool configuration.
-/

namespace TokenStation.Requests

open Library Library.Checked Library.Json Responses

/-! ## Messages -/

namespace Anthropic

inductive Family where
  | anthropic
  | claudeCodeLogin
  | claudeCodeSetupToken
deriving DecidableEq, Repr

def Family.of (config : ProviderConfig) : Except ErrorEnvelope Family :=
  if config.provider = "anthropic" then .ok .anthropic
  else if config.provider = "claude-code" then .ok .claudeCodeLogin
  else if config.provider = "claude-code-setup-token" then .ok .claudeCodeSetupToken
  else .error (capability ("unsupported provider dialect \x60" ++ config.provider ++ "\x60"))

def marked (kernel : Kernel) (block : Value) (marker : Option CacheControl) : Value :=
  match marker with
  | some marker => block.set "cache_control" (kernel.cacheControlJson marker)
  | none => block

def systemOf (kernel : Kernel) (system : List (String × Option CacheControl)) : Value :=
  if system.all fun text => text.2.isNone then
    .string ("\n".intercalate (system.map Prod.fst))
  else
    .array (system.map fun (text, marker) =>
      marked kernel (.obj [("type", .string "text"), ("text", .string text)]) marker)

def toolDeclaration (kernel : Kernel) (request : ChatRequest) (tool : ToolDef) : Value :=
  let declaration := write SortedMap.empty "name" (some (.string tool.name))
  let declaration := write declaration "description" (tool.description.map Value.string)
  let declaration := write declaration "input_schema" (some tool.parameters)
  let declaration := write declaration "strict" ((toolStrict request tool).map Value.bool)
  let declaration := write declaration "cache_control"
    (tool.cacheControl.map kernel.cacheControlJson)
  .object declaration.entries

/-- The choice the caller made, where the wire can spell it. -/
def choiceOf (request : ChatRequest) : Option Value :=
  match request.toolChoice with
  | some .auto => some (.obj [("type", .string "auto")])
  | some .required => some (.obj [("type", .string "any")])
  | some (.other value) =>
      ((value.get "function").bind fun function => function.get "name").map fun name =>
        .obj [("type", .string "tool"), ("name", name)]
  | some .none | none => none

/-- The tool declarations and the choice, which travel together. -/
def toolsOf (kernel : Kernel) (request : ChatRequest) : Option Value × Option Value :=
  match request.toolChoice with
  | some .none => (none, none)
  | _ =>
      let declarations := onlyIf (!request.tools.isEmpty)
        (.array (request.tools.map (toolDeclaration kernel request)))
      let choice := choiceOf request
      if declarations.isSome && request.parallelToolCalls == some false then
        (declarations, some ((choice.getD (.obj [("type", .string "auto")])).set
          "disable_parallel_tool_use" (.bool true)))
      else (declarations, choice)

def isEndUserHash (value : String) : Bool :=
  0 < value.length && value.length ≤ 128 &&
    value.toList.all fun c => c.isAlphanum || c == '_' || c == '-'

/-- The host's pseudonym of the end user. -/
def endUserHash (request : ChatRequest) : Except ErrorEnvelope (Option String) :=
  match request.hostValues.get "end_user_hash" with
  | none => .ok none
  | some value =>
      if isEndUserHash value then .ok (some value)
      else .error (internal
        "host value end_user_hash is not 1 to 128 bytes of [A-Za-z0-9_-]; the host must send a well-formed per-tenant hash or none")

/-- The fields of a body before its tools. -/
def conversationFields (kernel : Kernel) (request : ChatRequest) (dialect : Dialect)
    (system : List (String × Option CacheControl)) (messages : List Value)
    (thinking : Option Thinking) : Body :=
  let sampling := request.sampling
  let keeps := dialect.keepsSampling thinking
  let body := write SortedMap.empty "model"
    (onlyIf (request.model ≠ "") (.string request.model))
  let body := write body "system" (onlyIf (!system.isEmpty) (systemOf kernel system))
  let body := write body "messages" (some (.array messages))
  let body := write body "max_tokens" (some (.nat (sampling.maxOutputTokens.getD 4096)))
  let body := write body "temperature"
    (if keeps then sampling.temperature.map Value.number else none)
  let body := write body "top_p"
    (if keeps && (sampling.temperature.isNone || dialect.keepsTopPWithTemperature) then
      sampling.topP.map Value.number
    else none)
  let body := write body "top_k" (if keeps then sampling.topK.map Value.nat else none)
  let body := write body "stop_sequences" (onlyIf (!sampling.stop.isEmpty) (texts sampling.stop))
  write body "stream" (onlyIf request.stream (.bool true))

def thinkingFields (thinking : Option Thinking) : List (String × Value) :=
  thinking.toList.flatMap Thinking.fields

def bodyFields (kernel : Kernel) (request : ChatRequest) (dialect : Dialect)
    (system : List (String × Option CacheControl)) (messages : List Value)
    (thinking : Option Thinking) (endUser : Option String) : Body :=
  let body := conversationFields kernel request dialect system messages thinking
  let body := write body "tools" (toolsOf kernel request).1
  let body := write body "tool_choice" (toolsOf kernel request).2
  let body := body.insertAll (thinkingFields thinking)
  write body "metadata" (endUser.map fun userId => .obj [("user_id", .string userId)])

def bodyOf (kernel : Kernel) (rendering : Rendering) (request : ChatRequest)
    (dialect : Dialect) : Except ErrorEnvelope Body := do
  let (system, messages) ← conversationOf rendering request
  let thinking ← dialect.thinking request (some (request.sampling.maxOutputTokens.getD 4096)) true
  let endUser ← endUserHash request
  return bodyFields kernel request dialect system messages thinking endUser

/-- The body, after the checks every Messages wire runs before building one. -/
def checkedBodyOf (kernel : Kernel) (rendering : Rendering) (request : ChatRequest)
    (config : ProviderConfig) : Except ErrorEnvelope Body := do
  checkReplayCapability request config
  let dialect ← Dialect.of request config
  dialect.refuseForcedTool request
  bodyOf kernel rendering request dialect

def systemIdentity : String := "You are Claude Code, Anthropic's official CLI for Claude."

def startsWithIdentity (text : String) : Bool := systemIdentity.toList.isPrefixOf text.toList

/-- Put the Claude Code identity first in `system`. -/
def injectClaudeCodeIdentity (body : Body) : Body :=
  let identity := Value.obj [("type", .string "text"), ("text", .string systemIdentity)]
  match body.get "system" with
  | none => body.insert "system" (.array [identity])
  | some (.string text) =>
      if startsWithIdentity text then body
      else body.insert "system"
        (.array [identity, .obj [("type", .string "text"), ("text", .string text)]])
  | some (.array blocks) =>
      if (blocks.head?.bind fun block => (block.get "text").bind Value.asStr).any
          startsWithIdentity then body
      else body.insert "system" (.array (identity :: blocks))
  | some _ => body

def headerList (request : ChatRequest) (family : Family) : List (String × String) :=
  let accept := if request.stream then "text/event-stream" else "application/json"
  [("content-type", "application/json"), ("anthropic-version", "2023-06-01")] ++
    match family with
    | .anthropic => []
    | .claudeCodeLogin =>
        [("accept", accept),
          ("anthropic-beta", "claude-code-20250219,oauth-2025-04-20,interleaved-thinking-2025-05-14,prompt-caching-scope-2026-01-05"),
          ("x-app", "cli"), ("anthropic-dangerous-direct-browser-access", "true")]
    | .claudeCodeSetupToken =>
        [("accept", accept), ("anthropic-beta", "oauth-2025-04-20")]

def authOf (kernel : Kernel) (config : ProviderConfig) (family : Family) :
    Except ErrorEnvelope (Option Auth) :=
  match config.auth, family with
  | none, _ => .ok none
  | some secret, .claudeCodeSetupToken => .ok (some (.bearer secret))
  | some secret, .anthropic | some secret, .claudeCodeLogin =>
      authHeader kernel "x-api-key" (.header "x-api-key" secret)

def buildHttpRequest (kernel : Kernel) (rendering : Rendering) (request : ChatRequest)
    (config : ProviderConfig) : Except ErrorEnvelope HttpRequestDescriptor := do
  checkLayouts request
  let family ← Family.of config
  let body ← checkedBodyOf kernel rendering request config
  let body := if family = .claudeCodeLogin then injectClaudeCodeIdentity body else body
  let headers ← headersOf kernel (headerList request family)
  let auth ← authOf kernel config family
  return ⟨kernel.resolve config.baseUrl "messages", headers, body, auth⟩

/-! ### Tools in the body -/

theorem get_injectClaudeCodeIdentity (body : Body) {key : String} (h : key ≠ "system") :
    (injectClaudeCodeIdentity body).get key = body.get key := by
  unfold injectClaudeCodeIdentity
  dsimp only
  split
  · rw [SortedMap.get_insert, if_neg h.symm]
  · split_ifs
    · rfl
    · rw [SortedMap.get_insert, if_neg h.symm]
  · split_ifs
    · rfl
    · rw [SortedMap.get_insert, if_neg h.symm]
  · rfl

theorem notMem_thinkingFields (thinking : Option Thinking) {key : String}
    (hthinking : key ≠ "thinking") (houtput : key ≠ "output_config") :
    key ∉ (thinkingFields thinking).map Prod.fst := by
  rintro h
  obtain ⟨entry, hentry, rfl⟩ := List.mem_map.mp h
  obtain ⟨mode, -, hentry⟩ := List.mem_flatMap.mp hentry
  rcases Thinking.mem_fields hentry with h | h
  · exact hthinking h
  · exact houtput h

theorem get_bodyFields (kernel : Kernel) (request : ChatRequest) (dialect : Dialect)
    (system : List (String × Option CacheControl)) (messages : List Value)
    (thinking : Option Thinking) (endUser : Option String) :
    (bodyFields kernel request dialect system messages thinking endUser).get "tool_choice" =
        (toolsOf kernel request).2 ∧
      (bodyFields kernel request dialect system messages thinking endUser).get "tools" =
        (toolsOf kernel request).1 := by
  have hchoice := notMem_thinkingFields thinking (show "tool_choice" ≠ "thinking" by decide)
    (by decide)
  have htools := notMem_thinkingFields thinking (show "tools" ≠ "thinking" by decide) (by decide)
  constructor
  · simp [bodyFields, get_write, SortedMap.get_insertAll_of_notMem hchoice, conversationFields]
  · simp [bodyFields, get_write, SortedMap.get_insertAll_of_notMem htools, conversationFields]

/-- What a body says of tools. -/
theorem get_bodyOf {kernel : Kernel} {rendering : Rendering} {request : ChatRequest}
    {dialect : Dialect} {body : Body} (h : bodyOf kernel rendering request dialect = .ok body) :
    body.get "tool_choice" = (toolsOf kernel request).2 ∧
      body.get "tools" = (toolsOf kernel request).1 := by
  obtain ⟨⟨system, messages⟩, -, h⟩ := bind_eq_ok.mp h
  obtain ⟨thinking, -, h⟩ := bind_eq_ok.mp h
  obtain ⟨endUser, -, h⟩ := bind_eq_ok.mp h
  cases h
  exact get_bodyFields kernel request dialect system messages thinking endUser

end Anthropic

/-! ## Converse -/

namespace Converse

def CachePoints.default : CachePoints := ⟨false, false, false⟩

def cachePoints (request : ChatRequest) (config : ProviderConfig) : CachePoints :=
  match config.row request with
  | none => CachePoints.default
  | some model =>
      let declared := fun word => model.supportedParameters.contains word
      let enabled := declared "bedrock.converse.cache_point"
      ⟨enabled, enabled && declared "bedrock.converse.cache_point.ttl_1h",
        enabled && declared "bedrock.converse.cache_point.tools"⟩

def pointOf (points : CachePoints) (marker : Option CacheControl) : Option Value :=
  (marker.filter fun _ => points.enabled).map fun marker =>
    let point := Value.obj [("type", .string "default")]
    .obj [("cachePoint",
      if points.oneHour && marker.ttl == some .oneHour then point.set "ttl" (.string "1h")
      else point)]

def pointAfterTool (points : CachePoints) (marker : Option CacheControl) : Option Value :=
  if points.tools then pointOf points marker else none

def toolSpec (points : CachePoints) (tool : ToolDef) : List Value :=
  let schema :=
    if tool.parameters.isNull then
      .obj [("type", .string "object"), ("properties", .obj [])]
    else tool.parameters
  let spec := write SortedMap.empty "name" (some (.string tool.name))
  let spec := write spec "description" (tool.description.map Value.string)
  let spec := write spec "inputSchema" (some (.obj [("json", schema)]))
  .obj [("toolSpec", .object spec.entries)] :: (pointAfterTool points tool.cacheControl).toList

/-- The choice as Converse spells it; a choice without a readable name is left out. -/
def choiceOf (request : ChatRequest) : Option Value :=
  match request.toolChoice with
  | some .required => some (.obj [("any", .obj [])])
  | some .auto => some (.obj [("auto", .obj [])])
  | some (.other value) =>
      ((value.get "function").bind fun function => function.get "name").map fun name =>
        .obj [("tool", .obj [("name", name)])]
  | some .none | none => none

/-- The tool configuration, withheld whole when tools must not be offered. -/
def toolConfig (request : ChatRequest) (points : CachePoints) : Option Value :=
  match request.toolChoice, request.tools with
  | some .none, _ => none
  | _, [] => none
  | _, tools =>
      let config := write SortedMap.empty "tools"
        (some (.array (tools.flatMap (toolSpec points))))
      some (.object (write config "toolChoice" (choiceOf request)).entries)

def inferenceConfig (request : ChatRequest) (dialect : Dialect) (keepsSampling : Bool) :
    Option Value :=
  let sampling := request.sampling
  let config := write SortedMap.empty "maxTokens" (sampling.maxOutputTokens.map Value.nat)
  let config := write config "temperature"
    (if keepsSampling then sampling.temperature.map Value.number else none)
  let config := write config "topP"
    (if keepsSampling && (sampling.temperature.isNone || dialect.keepsTopPWithTemperature) then
      sampling.topP.map Value.number
    else none)
  let config := write config "stopSequences"
    (onlyIf (!sampling.stop.isEmpty) (texts sampling.stop))
  if config.entries.isEmpty then none else some (.object config.entries)

/-- Claude's own request fields, which ride beside the Converse fields. -/
def additionalFields (request : ChatRequest) (dialect : Dialect) (thinking : Option Thinking)
    (keepsSampling : Bool) : Option Value :=
  let fields := (SortedMap.empty : Body).insertAll (Anthropic.thinkingFields thinking)
  let fields := write fields "top_k"
    (if keepsSampling && dialect.claude then request.sampling.topK.map Value.nat else none)
  if fields.entries.isEmpty then none else some (.object fields.entries)

def bodyFields (request : ChatRequest) (dialect : Dialect) (points : CachePoints)
    (system messages : List Value) (thinking : Option Thinking) : Body :=
  let keeps := dialect.keepsSampling thinking
  let body := write SortedMap.empty "system" (onlyIf (!system.isEmpty) (.array system))
  let body := write body "messages" (some (.array messages))
  let body := write body "inferenceConfig" (inferenceConfig request dialect keeps)
  let body := write body "toolConfig" (toolConfig request points)
  write body "additionalModelRequestFields" (additionalFields request dialect thinking keeps)

def bodyOf (kernel : Kernel) (rendering : Rendering) (request : ChatRequest) (dialect : Dialect)
    (points : CachePoints) : Except ErrorEnvelope Body := do
  let (system, messages) ← conversationOf kernel rendering request points
  let thinking ← dialect.thinking request request.sampling.maxOutputTokens dialect.claude
  return bodyFields request dialect points system messages thinking

def urlOf (request : ChatRequest) (config : ProviderConfig) : String :=
  trimEndSlashes config.baseUrl ++ "/model/" ++ Contracts.UrlSegment.encode request.model ++ "/" ++
    if request.stream then "converse-stream" else "converse"

def headerList (request : ChatRequest) : List (String × String) :=
  [("content-type", "application/json"),
    ("accept", if request.stream then "application/vnd.amazon.eventstream" else "application/json"),
    ("x-amzn-bedrock-accept", "application/json")]

/-- The checks before the dialect is read. -/
def checkRequest (request : ChatRequest) (config : ProviderConfig) (family : String) :
    Except ErrorEnvelope Unit := do
  checkLayouts request
  refuse (config.provider ≠ family)
    (capability ("unsupported provider dialect \x60" ++ config.provider ++ "\x60"))
  refuse (request.model = "") (capability
    "Converse addresses the model in the URL path, so a request without one has no target to send to")
  checkReplayCapability request config

def buildConverseRequest (kernel : Kernel) (rendering : Rendering) (request : ChatRequest)
    (config : ProviderConfig) (family : String) (auth : Option Auth) :
    Except ErrorEnvelope HttpRequestDescriptor := do
  checkRequest request config family
  let dialect ← Dialect.of request config
  dialect.refuseForcedTool request
  let headers ← headersOf kernel (headerList request)
  let body ← bodyOf kernel rendering request dialect (cachePoints request config)
  return ⟨urlOf request config, headers, body, auth⟩

/-- The component whose requests the host signs. -/
def buildHttpRequest (kernel : Kernel) (rendering : Rendering) (request : ChatRequest)
    (config : ProviderConfig) : Except ErrorEnvelope HttpRequestDescriptor :=
  buildConverseRequest kernel rendering request config "bedrock" none

/-! ### Tools in the body -/

theorem get_bodyOf {kernel : Kernel} {rendering : Rendering} {request : ChatRequest}
    {dialect : Dialect} {points : CachePoints} {body : Body}
    (h : bodyOf kernel rendering request dialect points = .ok body) :
    body.get "toolConfig" = toolConfig request points := by
  obtain ⟨⟨system, messages⟩, -, h⟩ := bind_eq_ok.mp h
  obtain ⟨thinking, -, h⟩ := bind_eq_ok.mp h
  cases h
  simp [bodyFields, get_write]

end Converse

end TokenStation.Requests
