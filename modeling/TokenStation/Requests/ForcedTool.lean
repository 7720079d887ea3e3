import TokenStation.Requests.OtherRefusals

/-!
# Forced tool choices and models that take none

A host declares of some models that they only take automatic tool choice. One
predicate says which requests such a model refuses. Each of four components asks it
before it writes the body, after checks of its own.
-/

namespace TokenStation.Requests

open Library Library.Checked Library.Json Responses

inductive Component where
  | openAi
  | openAiResponses
  | anthropic
  | converse
deriving DecidableEq, Repr

namespace Component

def buildHttpRequest (kernel : Kernel) (rendering : Rendering) (request : ChatRequest)
    (config : ProviderConfig) : Component → Except ErrorEnvelope HttpRequestDescriptor
  | .openAi => OpenAi.buildHttpRequest kernel rendering request config
  | .openAiResponses => OpenAiResponses.buildHttpRequest kernel rendering request config
  | .anthropic => Anthropic.buildHttpRequest kernel rendering request config
  | .converse => Converse.buildHttpRequest kernel rendering request config

/-- What a component checks before it looks at the tool choice. -/
def checksBefore (request : ChatRequest) (config : ProviderConfig) :
    Component → Except ErrorEnvelope Unit
  | .openAi => OpenAi.refuseReplay request
  | .openAiResponses => (OpenAiResponses.codexOf config).map fun _ => ()
  | .anthropic => do
      checkLayouts request
      let _ ← Anthropic.Family.of config
      checkReplayCapability request config
      (Dialect.of request config).map fun _ => ()
  | .converse => do
      Converse.checkRequest request config "bedrock"
      (Dialect.of request config).map fun _ => ()

/-- The tool choice of a body, where the component's wire has it. -/
def bodyChoice (body : Body) : Component → Option Value
  | .converse => (body.get "toolConfig").bind fun config => config.get "toolChoice"
  | _ => body.get "tool_choice"

/-- The tools a body offers. -/
def bodyTools (body : Body) : Component → Option Value
  | .converse => (body.get "toolConfig").bind fun config => config.get "tools"
  | _ => body.get "tools"

end Component

/-- Whether a choice requires a call or names a tool in one of the wires' spellings. -/
def forcesCall (choice : Value) : Bool :=
  choice.asStr == some "required" || (choice.get "type").bind Value.asStr == some "any" ||
    (choice.get "any").isSome || (choice.get "name").isSome ||
    ((choice.get "function").bind fun function => function.get "name").isSome ||
    ((choice.get "tool").bind fun tool => tool.get "name").isSome

/-- The name in the Chat form of a choice, the one form that all components read. -/
def chatName (value : Value) : Option Value :=
  (value.get "function").bind fun function => function.get "name"

/-- No open choice without a Chat name forces a call all the same: on Chat Completions,
which gets it as it came, by its spelling, and on Responses by a name in Anthropic's form.
The two Claude components leave out what they cannot read. -/
def Component.ReadsChoice (kernel : Kernel) (request : ChatRequest) : Component → Prop
  | .openAi => ∀ value, request.toolChoice = some (.other value) → chatName value = none →
      forcesCall (kernel.toolChoiceJson (.other value)) = false
  | .openAiResponses => ∀ value, request.toolChoice = some (.other value) → chatName value = none →
      (value.get "type").bind Value.asStr = some "tool" → (value.get "name").bind Value.asStr = none
  | .anthropic | .converse => True

/-! ## Who is refused -/

section Refusals

variable {kernel : Kernel} {rendering : Rendering} {request : ChatRequest}
  {config : ProviderConfig}

theorem ok_bind {α β : Type} (a : α) (f : α → Except ErrorEnvelope β) :
    (Except.ok a >>= f) = f a := rfl

/-- After the check, only the check refuses in its own words. -/
theorem refused_iff_of_rest {α : Type} {rest : Except ErrorEnvelope α} (hrest : Unforced rest) :
    (refuseDeclaredForcedTool request config >>= fun _ => rest) =
        .error (capability forcedToolRefusal) ↔
      refusesForcedTool (declaredWords request config) request = true := by
  unfold refuseDeclaredForcedTool refuse
  cases refusesForcedTool (declaredWords request config) request with
  | true => exact ⟨fun _ => rfl, fun _ => rfl⟩
  | false => exact ⟨fun h => absurd h hrest, fun h => by cases h⟩

theorem map_unit_eq_ok {α : Type} {x : Except ErrorEnvelope α} {u : Unit}
    (h : x.map (fun _ => ()) = .ok u) : ∃ a, x = .ok a := by
  obtain ⟨a, ha, -⟩ := map_eq_ok.mp h
  exact ⟨a, ha⟩

/-- A component past its own checks refuses a forced choice for that reason exactly
where the predicate says so. -/
theorem refused_iff (component : Component)
    (hbefore : component.checksBefore request config = .ok ()) :
    component.buildHttpRequest kernel rendering request config =
        .error (capability forcedToolRefusal) ↔
      refusesForcedTool (declaredWords request config) request = true := by
  cases component with
  | openAi =>
      change OpenAi.refuseReplay request = .ok () at hbefore
      change OpenAi.buildHttpRequest kernel rendering request config = _ ↔ _
      rw [OpenAi.buildHttpRequest, hbefore, ok_bind]
      exact refused_iff_of_rest unforced_openAi
  | openAiResponses =>
      obtain ⟨codex, hcodex⟩ := map_unit_eq_ok hbefore
      change OpenAiResponses.buildHttpRequest kernel rendering request config = _ ↔ _
      rw [OpenAiResponses.buildHttpRequest, hcodex, ok_bind]
      exact refused_iff_of_rest (unforced_openAiResponses codex)
  | anthropic =>
      obtain ⟨hlayouts, hbefore⟩ := andThen_eq_ok.mp hbefore
      obtain ⟨family, hfamily, hbefore⟩ := bind_eq_ok.mp hbefore
      obtain ⟨hreplay, hbefore⟩ := andThen_eq_ok.mp hbefore
      obtain ⟨dialect, hdialect⟩ := map_unit_eq_ok hbefore
      change Anthropic.buildHttpRequest kernel rendering request config = _ ↔ _
      rw [Anthropic.buildHttpRequest, hlayouts, ok_bind, hfamily, ok_bind, Anthropic.checkedBodyOf,
        hreplay, ok_bind, hdialect, ok_bind, Dialect.refuseForcedTool_eq hdialect, bind_assoc]
      exact refused_iff_of_rest ((unforced_anthropic dialect).bind fun _ =>
        (Unforced.headersOf kernel _).bind fun _ => (unforced_anthropicAuth family).bind
        fun _ => Unforced.ok _)
  | converse =>
      obtain ⟨hchecks, hbefore⟩ := andThen_eq_ok.mp hbefore
      obtain ⟨dialect, hdialect⟩ := map_unit_eq_ok hbefore
      change Converse.buildConverseRequest kernel rendering request config "bedrock" none = _ ↔ _
      rw [Converse.buildConverseRequest, hchecks, ok_bind, hdialect, ok_bind,
        Dialect.refuseForcedTool_eq hdialect]
      exact refused_iff_of_rest ((Unforced.headersOf kernel _).bind fun _ =>
        (unforced_converse dialect _).bind fun _ => Unforced.ok _)

end Refusals

/-! ## What reaches the upstream -/

section Sent

variable {kernel : Kernel} {rendering : Rendering} {request : ChatRequest}
  {config : ProviderConfig}

theorem forcesTool_eq_false (h : refuseDeclaredForcedTool request config = .ok ())
    (hwords : toolChoiceAutoOnly ∈ declaredWords request config) : forcesTool request = false := by
  have hany : (declaredWords request config).any (fun word => word == toolChoiceAutoOnly) = true :=
    List.any_eq_true.mpr ⟨_, hwords, beq_self_eq_true _⟩
  have hnot := refuse_eq_ok.mp h
  rw [refusesForcedTool, hany, Bool.true_and, Bool.not_eq_true] at hnot
  exact hnot

/-- A choice that forces nothing, in a request with tools. -/
theorem automatic_cases (h : forcesTool request = false) (htools : request.tools ≠ []) :
    request.toolChoice = none ∨ request.toolChoice = some .auto ∨
      request.toolChoice = some .none ∨
      ∃ value, request.toolChoice = some (.other value) ∧ chatName value = none := by
  have hnonempty : (!request.tools.isEmpty) = true := by simpa using htools
  unfold forcesTool at h
  cases hchoice : request.toolChoice with
  | none => exact .inl rfl
  | some choice =>
      rw [hchoice] at h
      cases choice with
      | auto => exact .inr (.inl rfl)
      | none => exact .inr (.inr (.inl rfl))
      | required => rw [hnonempty] at h; cases h
      | other value =>
          simp only [hnonempty, Bool.true_and, Option.isSome_eq_false_iff,
            Option.isNone_iff_eq_none] at h
          exact .inr (.inr (.inr ⟨value, rfl, h⟩))

/-- A choice that names no tool in either form has no spelling on the Responses wire. -/
theorem choiceName_eq_none {value : Value} (hname : chatName value = none)
    (htool : (value.get "type").bind Value.asStr = some "tool" →
      (value.get "name").bind Value.asStr = none) : OpenAiResponses.choiceName value = none := by
  unfold OpenAiResponses.choiceName
  split
  · rename_i kind hkind
    split_ifs with hfunction hform
    · change (chatName value).bind Value.asStr = none
      rw [hname, Option.bind_none]
    · exact htool (hform ▸ hkind)
    · rfl
  · rfl

theorem openAi_unforced (hauto : kernel.toolChoiceJson .auto = .string "auto")
    (hnone : kernel.toolChoiceJson .none = .string "none")
    (hwords : toolChoiceAutoOnly ∈ declaredWords request config)
    (hreads : Component.openAi.ReadsChoice kernel request) {descriptor : HttpRequestDescriptor}
    (h : OpenAi.buildHttpRequest kernel rendering request config = .ok descriptor) :
    descriptor.body.get "tools" = none ∨
      ∀ choice, descriptor.body.get "tool_choice" = some choice → forcesCall choice = false := by
  obtain ⟨-, h⟩ := andThen_eq_ok.mp h
  obtain ⟨hchecked, h⟩ := andThen_eq_ok.mp h
  obtain ⟨hchoice, htools⟩ := OpenAi.get_descriptorOf h
  by_cases hempty : request.tools = []
  · left
    rw [htools, hempty]
    rfl
  · right
    rw [hchoice]
    rcases automatic_cases (forcesTool_eq_false hchecked hwords) hempty with
      h | h | h | ⟨value, h, hname⟩
    · rw [h]
      rintro choice ⟨⟩
    · rw [h, Option.map_some, hauto]
      rintro choice ⟨⟩
      decide
    · rw [h, Option.map_some, hnone]
      rintro choice ⟨⟩
      decide
    · rw [h, Option.map_some]
      rintro choice ⟨⟩
      exact hreads value h hname

theorem openAiResponses_unforced (hwords : toolChoiceAutoOnly ∈ declaredWords request config)
    (hreads : Component.openAiResponses.ReadsChoice kernel request)
    {descriptor : HttpRequestDescriptor}
    (h : OpenAiResponses.buildHttpRequest kernel rendering request config = .ok descriptor) :
    descriptor.body.get "tools" = none ∨
      ∀ choice, descriptor.body.get "tool_choice" = some choice → forcesCall choice = false := by
  obtain ⟨codex, -, h⟩ := bind_eq_ok.mp h
  obtain ⟨hchecked, h⟩ := andThen_eq_ok.mp h
  obtain ⟨hchoice, htools⟩ := OpenAiResponses.get_descriptorOf h
  by_cases hempty : request.tools = []
  · left
    rw [htools, hempty]
    rfl
  · right
    rcases automatic_cases (forcesTool_eq_false hchecked hwords) hempty with
      h | h | h | ⟨value, h, hname⟩
    · rw [h] at hchoice
      injection hchoice with hchoice
      rw [← hchoice]
      rintro choice ⟨⟩
    · rw [h] at hchoice
      injection hchoice with hchoice
      rw [← hchoice]
      rintro choice ⟨⟩
      decide
    · rw [h] at hchoice
      injection hchoice with hchoice
      rw [← hchoice]
      rintro choice ⟨⟩
      decide
    · have hrefused := choiceName_eq_none hname (hreads value h hname)
      rw [h, Option.mapM_some, OpenAiResponses.toolChoice, hrefused] at hchoice
      cases hchoice

/-- What Messages is told of a choice that forces nothing. -/
theorem toolsOf_unforced (kernel : Kernel) (h : forcesTool request = false) :
    (Anthropic.toolsOf kernel request).1 = none ∨
      ∀ choice, (Anthropic.toolsOf kernel request).2 = some choice → forcesCall choice = false := by
  by_cases hempty : request.tools = []
  · left
    unfold Anthropic.toolsOf
    split
    · rfl
    · simp [hempty, onlyIf]
  · right
    have hchoice : Anthropic.choiceOf request = none ∨
        Anthropic.choiceOf request = some (.obj [("type", .string "auto")]) := by
      unfold Anthropic.choiceOf
      rcases automatic_cases h hempty with h | h | h | ⟨value, h, hname⟩
      · rw [h]
        exact .inl rfl
      · rw [h]
        exact .inr rfl
      · rw [h]
        exact .inl rfl
      · rw [h]
        left
        change (chatName value).map _ = none
        rw [hname, Option.map_none]
    unfold Anthropic.toolsOf
    split
    · rintro choice ⟨⟩
    · dsimp only
      split_ifs
      · rcases hchoice with h | h <;>
        · rw [h]
          rintro choice ⟨⟩
          decide
      · rcases hchoice with h | h
        · rw [h]
          rintro choice ⟨⟩
        · rw [h]
          rintro choice ⟨⟩
          decide

theorem anthropic_unforced (hwords : toolChoiceAutoOnly ∈ declaredWords request config)
    {descriptor : HttpRequestDescriptor}
    (h : Anthropic.buildHttpRequest kernel rendering request config = .ok descriptor) :
    descriptor.body.get "tools" = none ∨
      ∀ choice, descriptor.body.get "tool_choice" = some choice → forcesCall choice = false := by
  obtain ⟨-, h⟩ := andThen_eq_ok.mp h
  obtain ⟨family, -, h⟩ := bind_eq_ok.mp h
  obtain ⟨body, hbody, h⟩ := bind_eq_ok.mp h
  obtain ⟨headers, -, h⟩ := bind_eq_ok.mp h
  obtain ⟨auth, -, h⟩ := bind_eq_ok.mp h
  cases h
  obtain ⟨-, hbody⟩ := andThen_eq_ok.mp hbody
  obtain ⟨dialect, hdialect, hbody⟩ := bind_eq_ok.mp hbody
  obtain ⟨hchecked, hbody⟩ := andThen_eq_ok.mp hbody
  rw [Dialect.refuseForcedTool_eq hdialect] at hchecked
  have hkept {key : String} (hne : key ≠ "system") :
      (if family = .claudeCodeLogin then Anthropic.injectClaudeCodeIdentity body else body).get
        key = body.get key := by
    split_ifs
    · exact Anthropic.get_injectClaudeCodeIdentity body hne
    · rfl
  obtain ⟨hchoice, htools⟩ := Anthropic.get_bodyOf hbody
  change (if family = .claudeCodeLogin then Anthropic.injectClaudeCodeIdentity body else body).get
    "tools" = none ∨ ∀ choice, (if family = .claudeCodeLogin then
      Anthropic.injectClaudeCodeIdentity body else body).get "tool_choice" = some choice → _
  rw [hkept (by decide), hkept (by decide), hchoice, htools]
  exact toolsOf_unforced kernel (forcesTool_eq_false hchecked hwords)

/-- Converse is told nothing but the automatic choice. -/
theorem toolConfig_unforced (points : CachePoints) (h : forcesTool request = false)
    {config choice : Value} (hconfig : Converse.toolConfig request points = some config)
    (hchoice : config.get "toolChoice" = some choice) : forcesCall choice = false := by
  unfold Converse.toolConfig at hconfig
  split at hconfig
  · cases hconfig
  · cases hconfig
  · rename_i htools
    cases hconfig
    have hget : (write (write SortedMap.empty "tools"
        (some (.array (request.tools.flatMap (Converse.toolSpec points))))) "toolChoice"
        (Converse.choiceOf request)).get "toolChoice" = some choice := hchoice
    rw [get_write, if_pos rfl, get_write, if_neg (by decide), SortedMap.get_empty,
      Option.or_none] at hget
    unfold Converse.choiceOf at hget
    rcases automatic_cases h htools with h | h | h | ⟨value, h, hname⟩
    · rw [h] at hget
      cases hget
    · rw [h] at hget
      cases hget
      decide
    · rw [h] at hget
      cases hget
    · rw [h] at hget
      change (chatName value).map _ = some choice at hget
      rw [hname] at hget
      cases hget

theorem converse_unforced (hwords : toolChoiceAutoOnly ∈ declaredWords request config)
    {descriptor : HttpRequestDescriptor}
    (h : Converse.buildHttpRequest kernel rendering request config = .ok descriptor)
    {choice : Value}
    (hchoice : Component.converse.bodyChoice descriptor.body = some choice) :
    forcesCall choice = false := by
  obtain ⟨-, h⟩ := andThen_eq_ok.mp h
  obtain ⟨dialect, hdialect, h⟩ := bind_eq_ok.mp h
  obtain ⟨hchecked, h⟩ := andThen_eq_ok.mp h
  obtain ⟨headers, -, h⟩ := bind_eq_ok.mp h
  obtain ⟨body, hbody, h⟩ := bind_eq_ok.mp h
  cases h
  rw [Dialect.refuseForcedTool_eq hdialect] at hchecked
  obtain ⟨toolConfig, hconfig, hchoice⟩ := Option.bind_eq_some_iff.mp hchoice
  have hbody := Converse.get_bodyOf hbody
  exact toolConfig_unforced _ (forcesTool_eq_false hchecked hwords) (hbody.symm.trans hconfig)
    hchoice

/-- A model that only takes automatic tool choice is sent no forced one beside tools,
and a component past its own checks refuses exactly what the predicate says. -/
theorem auto_only_is_never_forced (hauto : kernel.toolChoiceJson .auto = .string "auto")
    (hnone : kernel.toolChoiceJson .none = .string "none") (component : Component)
    (request : ChatRequest) (config : ProviderConfig) :
    (toolChoiceAutoOnly ∈ declaredWords request config → component.ReadsChoice kernel request →
      ∀ descriptor, component.buildHttpRequest kernel rendering request config = .ok descriptor →
        component.bodyTools descriptor.body = none ∨
          ∀ choice, component.bodyChoice descriptor.body = some choice →
            forcesCall choice = false) ∧
    (component.checksBefore request config = .ok () →
      (component.buildHttpRequest kernel rendering request config =
          .error (capability forcedToolRefusal) ↔
        refusesForcedTool (declaredWords request config) request = true)) := by
  refine ⟨fun hautoOnly hreads descriptor h => ?_, refused_iff component⟩
  cases component with
  | openAi => exact openAi_unforced hauto hnone hautoOnly hreads h
  | openAiResponses => exact openAiResponses_unforced hautoOnly hreads h
  | anthropic => exact anthropic_unforced hautoOnly h
  | converse => exact .inr fun choice hchoice => converse_unforced hautoOnly h hchoice

end Sent

/-! ## A request without tools -/

/-- The kernel where it matters here: words and open values as they are, any address,
any header. -/
def plainKernel : Kernel where
  toolChoiceJson choice :=
    match choice with
    | .auto => .string "auto"
    | .none => .string "none"
    | .required => .string "required"
    | .other value => value
  cacheControlJson _ := .obj [("type", .string "ephemeral")]
  fromStr _ := none
  resolve baseUrl _ := baseUrl
  safeHeaders _ := .ok ()
  headerName _ := .ok ()

/-- One turn of a user that says hi, on every wire. -/
def greetingRendering : Rendering where
  messageToOpenai _ _ := .obj [("role", .string "user"), ("content", .string "hi")]
  inputItems _ := [.obj [("type", .string "message"), ("role", .string "user"),
    ("content", .array [.obj [("type", .string "input_text"), ("text", .string "hi")]])]]
  textOnly _ := "hi"
  conversationOf _ := ([], [.obj [("role", .string "user"), ("content", .string "hi")]])
  converseConversationOf _ _ := ([], [.obj [("role", .string "user"),
    ("content", .array [.obj [("text", .string "hi")]])]])

def greeting (tools : List ToolDef) (toolChoice : Option ToolChoice) : ChatRequest where
  model := "m"
  messages := [.text .user "hi"]
  stream := false
  sampling := ⟨none, none, none, none, []⟩
  tools := tools
  toolChoice := toolChoice
  parallelToolCalls := none
  responseFormat := none
  reasoning := ⟨none, none, none⟩
  hostValues := .empty
  extensions := .empty

def autoOnlyConfig (provider : String) : ProviderConfig where
  provider := provider
  baseUrl := "https://upstream.example"
  auth := none
  models := [⟨"m", [toolChoiceAutoOnly]⟩]
  declared := .empty

/-- Without tools there is nothing to force, and the choice is sent as it came. -/
theorem required_is_sent_without_tools :
    toolChoiceAutoOnly ∈ declaredWords (greeting [] (some .required)) (autoOnlyConfig "anthropic") ∧
      ∃ descriptor, Component.anthropic.buildHttpRequest plainKernel greetingRendering
          (greeting [] (some .required)) (autoOnlyConfig "anthropic") = .ok descriptor ∧
        ∃ choice, Component.anthropic.bodyChoice descriptor.body = some choice ∧
          forcesCall choice = true :=
  ⟨by decide, _, rfl, _, rfl, by decide⟩

/-- A lookup tool. -/
def lookupTool : ToolDef := ⟨"lookup", none, .obj [("type", .string "object")], none, none⟩

/-- An open choice that names no tool. -/
def openChoice : ToolChoice := .other (.obj [("type", .string "auto")])

theorem greeting_is_not_forced :
    (∀ descriptor, Component.openAi.buildHttpRequest plainKernel greetingRendering
        (greeting [lookupTool] (some openChoice)) (autoOnlyConfig "openai-compatible") =
          .ok descriptor →
      Component.openAi.bodyTools descriptor.body = none ∨
        ∀ choice, Component.openAi.bodyChoice descriptor.body = some choice →
          forcesCall choice = false) ∧
    Component.openAi.buildHttpRequest plainKernel greetingRendering
        (greeting [lookupTool] (some .required)) (autoOnlyConfig "openai-compatible") =
      .error (capability forcedToolRefusal) := by
  constructor
  · refine (@auto_only_is_never_forced plainKernel greetingRendering rfl rfl .openAi
      (greeting [lookupTool] (some openChoice)) (autoOnlyConfig "openai-compatible")).1 (by decide) ?_
    intro value hvalue _
    cases hvalue
    decide
  · exact ((@auto_only_is_never_forced plainKernel greetingRendering rfl rfl .openAi
      (greeting [lookupTool] (some .required)) (autoOnlyConfig "openai-compatible")).2 rfl).mpr
      (by decide)

end TokenStation.Requests
