import TokenStation.Requests.ChatRequest

/-!
# The Claude model dialect

The words by which a host declares what a Claude model accepts, and what a request
may carry under them: sampling, thinking and forced tool choices.
-/

namespace TokenStation.Requests

open Library Library.Checked Library.Json Responses

def samplingNone : String := "anthropic.sampling.none"
def toolChoiceAutoOnly : String := "anthropic.tool_choice.auto_only"
def thinkingAdaptive : String := "anthropic.thinking.adaptive"
def thinkingBudget : String := "anthropic.thinking.budget"
def effortXhigh : String := "anthropic.effort.xhigh"
def samplingExclusive : String := "anthropic.sampling.exclusive"

def dialectParameters : List String :=
  [samplingNone, toolChoiceAutoOnly, thinkingAdaptive, thinkingBudget, effortXhigh,
    samplingExclusive]

/-! ## Thinking -/

inductive Thinking where
  | adaptive (effort : String)
  | budget (budgetTokens : Nat)
  /-- The caller's own configuration, written back as it came. -/
  | verbatim (mode : ReasoningMode) (budgetTokens : Option Nat) (effort : Option String)

def Thinking.isOn : Thinking → Bool
  | .verbatim .disabled _ _ => false
  | _ => true

def ReasoningMode.word : ReasoningMode → String
  | .enabled => "enabled"
  | .disabled => "disabled"
  | .adaptive => "adaptive"

/-- The fields a thinking mode adds to a body. -/
def Thinking.fields : Thinking → List (String × Value)
  | .adaptive effort =>
      [("thinking", .obj [("type", .string "adaptive")]),
        ("output_config", .obj [("effort", .string effort)])]
  | .budget budgetTokens =>
      [("thinking", .obj [("type", .string "enabled"), ("budget_tokens", .nat budgetTokens)])]
  | .verbatim mode budgetTokens effort =>
      let thinking := Value.obj [("type", .string mode.word)]
      let thinking :=
        match budgetTokens with
        | some tokens => thinking.set "budget_tokens" (.nat tokens)
        | none => thinking
      ("thinking", thinking) ::
        (effort.map fun effort => ("output_config", Value.obj [("effort", .string effort)])).toList

/-- Thinking writes two fields of a body. -/
theorem Thinking.mem_fields {thinking : Thinking} {entry : String × Value}
    (h : entry ∈ thinking.fields) : entry.1 = "thinking" ∨ entry.1 = "output_config" := by
  cases thinking with
  | adaptive effort =>
      rcases List.mem_cons.mp h with rfl | h
      · exact .inl rfl
      · obtain rfl := List.mem_singleton.mp h
        exact .inr rfl
  | budget budgetTokens =>
      obtain rfl := List.mem_singleton.mp h
      exact .inl rfl
  | verbatim mode budgetTokens effort =>
      rcases List.mem_cons.mp h with rfl | h
      · exact .inl rfl
      · obtain ⟨effort, -, rfl⟩ := Option.map_eq_some_iff.mp (Option.mem_toList.mp h)
        exact .inr rfl

inductive Shape where
  | adaptive
  | budget
deriving DecidableEq, Repr

inductive SamplingRule where
  | any
  | exclusive
  | none
deriving DecidableEq, Repr

/-- What the host declared about the target model. -/
structure Dialect where
  sampling : SamplingRule
  autoOnly : Bool
  shape : Option Shape
  xhigh : Bool
  claude : Bool
deriving DecidableEq, Repr

def Dialect.default : Dialect := ⟨.any, false, none, false, false⟩

/-! ## Forced tool choices -/

/-- Whether the request forces the model to call a tool. A named choice without a
readable name forces nothing. -/
def forcesTool (request : ChatRequest) : Bool :=
  match request.toolChoice with
  | some .required => !request.tools.isEmpty
  | some (.other value) =>
      !request.tools.isEmpty &&
        ((value.get "function").bind fun function => function.get "name").isSome
  | some .auto | some .none | none => false

/-- Whether a model declaring these words refuses the request's tool choice. -/
def refusesForcedTool (supportedParameters : List String) (request : ChatRequest) : Bool :=
  supportedParameters.any (fun word => word == toolChoiceAutoOnly) && forcesTool request

def forcedToolRefusal : String :=
  "the target model does not support forcing a tool call (tool_choice required or a named tool); use tool_choice auto"

/-- The words declared for the request's model. -/
def declaredWords (request : ChatRequest) (config : ProviderConfig) : List String :=
  (config.row request).toList.flatMap fun row => row.supportedParameters

/-- The refusal of components that read nothing else of the dialect. -/
def refuseDeclaredForcedTool (request : ChatRequest) (config : ProviderConfig) :
    Except ErrorEnvelope Unit :=
  refuse (refusesForcedTool (declaredWords request config) request) (capability forcedToolRefusal)

/-! ## The dialect of a model -/

/-- The dialect declared for the request's model. -/
def Dialect.of (request : ChatRequest) (config : ProviderConfig) : Except ErrorEnvelope Dialect :=
  match config.row request with
  | none => .ok .default
  | some model =>
      let declared := fun word => model.supportedParameters.contains word
      if declared thinkingAdaptive && declared thinkingBudget then
        .error (capability ("the model declares both " ++ thinkingAdaptive ++ " and " ++
          thinkingBudget))
      else
        .ok {
          sampling :=
            if declared samplingNone then .none
            else if declared samplingExclusive then .exclusive
            else .any
          autoOnly := declared toolChoiceAutoOnly
          shape :=
            if declared thinkingAdaptive then some .adaptive
            else if declared thinkingBudget then some .budget
            else none
          xhigh := declared effortXhigh
          claude := dialectParameters.any declared
        }

/-- Refuse a forced tool choice the model cannot honor. -/
def Dialect.refuseForcedTool (dialect : Dialect) (request : ChatRequest) :
    Except ErrorEnvelope Unit :=
  refuse (dialect.autoOnly && forcesTool request) (capability forcedToolRefusal)

inductive Level where
  | floor
  | low
  | medium
  | high
  | xhigh
deriving DecidableEq, Repr

def Level.of (effort : String) : Except ErrorEnvelope Level :=
  if effort = "none" ∨ effort = "minimal" then .ok .floor
  else if effort = "low" then .ok .low
  else if effort = "medium" then .ok .medium
  else if effort = "high" then .ok .high
  else if effort = "xhigh" then .ok .xhigh
  else
    .error (capability ("unsupported reasoning effort \x60" ++ effort ++
      "\x60 (expected one of none, minimal, low, medium, high, xhigh)"))

def Dialect.adaptiveEffort (dialect : Dialect) : Level → String
  | .floor | .low => "low"
  | .medium => "medium"
  | .xhigh => if dialect.xhigh then "xhigh" else "high"
  | .high => "high"

/-- The budget of a level; the lowest level has none. -/
def budgetOf : Level → Option Nat
  | .floor => none
  | .low => some 1024
  | .medium => some 4096
  | .high | .xhigh => some 16384

/-- How to ask the model to think. -/
def Dialect.thinking (dialect : Dialect) (request : ChatRequest) (maxTokens : Option Nat)
    (verbatim : Bool) : Except ErrorEnvelope (Option Thinking) :=
  match request.reasoning.mode, verbatim with
  | some mode, true =>
      .ok (some (.verbatim mode request.reasoning.budgetTokens request.reasoning.effort))
  | _, _ =>
      match dialect.shape, request.reasoning.effort with
      | some shape, some effort =>
          match Level.of effort with
          | .error error => .error error
          | .ok level =>
              match shape with
              | .adaptive => .ok (some (.adaptive (dialect.adaptiveEffort level)))
              | .budget =>
                  .ok ((budgetOf level).bind fun budget =>
                    if maxTokens.any (budget < ·) && !forcesTool request then some (.budget budget)
                    else none)
      | _, _ => .ok none

/-- Whether sampling parameters may be sent. -/
def Dialect.keepsSampling (dialect : Dialect) (thinking : Option Thinking) : Bool :=
  dialect.sampling != .none && !thinking.any Thinking.isOn

/-- Whether a `top_p` may be sent beside a temperature. -/
def Dialect.keepsTopPWithTemperature (dialect : Dialect) : Bool := dialect.sampling != .exclusive

/-! ## Both refusals are one -/

theorem declaredWords_contains {request : ChatRequest} {config : ProviderConfig} {word : String} :
    (declaredWords request config).any (fun w => w == word) =
      (config.row request).any fun row => row.supportedParameters.contains word := by
  cases hrow : config.row request with
  | none => simp [declaredWords, hrow]
  | some row =>
      have hwords : declaredWords request config = row.supportedParameters := by
        simp [declaredWords, hrow]
      rw [hwords, Option.any_some, Bool.eq_iff_iff, List.any_eq_true, List.contains_iff_mem]
      constructor
      · rintro ⟨w, hw, heq⟩
        exact eq_of_beq heq ▸ hw
      · exact fun h => ⟨word, h, beq_self_eq_true word⟩

/-- A dialect forbids forced choices where the model's words do. -/
theorem Dialect.autoOnly_of {request : ChatRequest} {config : ProviderConfig} {dialect : Dialect}
    (h : Dialect.of request config = .ok dialect) :
    dialect.autoOnly =
      (declaredWords request config).any fun word => word == toolChoiceAutoOnly := by
  rw [declaredWords_contains]
  unfold Dialect.of at h
  cases hrow : config.row request with
  | none =>
      rw [hrow] at h
      cases h
      rfl
  | some row =>
      simp only [hrow] at h
      split at h
      · cases h
      · cases h
        rfl

/-- A component that read the dialect refuses the same requests. -/
theorem Dialect.refuseForcedTool_eq {request : ChatRequest} {config : ProviderConfig}
    {dialect : Dialect} (h : Dialect.of request config = .ok dialect) :
    dialect.refuseForcedTool request = refuseDeclaredForcedTool request config := by
  unfold Dialect.refuseForcedTool refuseDeclaredForcedTool refusesForcedTool
  rw [Dialect.autoOnly_of h]

end TokenStation.Requests
