import TokenStation.Chat.Stream

/-!
# Chat completion envelopes

A complete canonical response becomes one Chat envelope. Its usage object is the third
rendering of the same counts; where the total fits they are one object, and where it does
not only one of them says so.
-/

namespace TokenStation.Chat

open Library Library.Json Library.Checked Responses

/-- The facts the wire needs and the response does not carry. -/
structure ResponseContext where
  created : Int
  fallbackId : String

/-- How a rendering ends: a sum that overflows stops the program. -/
inductive Outcome where
  | rendered (value : Value)
  | refused (error : CodecError)
  | stopped

/-- The thinking text and the visible text, parts joined. -/
def splitThinkingAndText : Option Content → String × String
  | none => ("", "")
  | some (.text text) => ("", text)
  | some (.parts parts) =>
      (String.join (parts.filterMap ContentPart.asThinking),
        String.join (parts.filterMap ContentPart.asText))

section

variable (packages : Packages) (quoted : String → String)

/-- One tool call; `quoted` is a text in its debug form. -/
def renderCall (index position : Nat) (call : ToolCall) : Except CodecError Value := do
  refuse (packages.fromStr call.arguments = none) (.unrenderable
    ("choices[" ++ toString index ++ "].message.tool_calls[" ++ toString position ++ "].arguments")
    ("tool call " ++ quoted call.name ++ " produced arguments that are not valid JSON"))
  let rendered := Value.obj [("id", .string call.id), ("type", .string "function"),
    ("function", .obj [("name", .string call.name), ("arguments", .string call.arguments)])]
  match call.signature with
  | some signature =>
      return rendered.set "extra_content"
        (.obj [("google", .obj [("thought_signature", .string signature)])])
  | none => return rendered

def renderChoice (index : Nat) (choice : Choice) : Except CodecError Value := do
  let (thinking, text) := splitThinkingAndText choice.message.content
  let message := Value.obj [("role", .string "assistant"),
    ("content", if text.isEmpty then .null else .string text)]
  let message :=
    if thinking.isEmpty then message else message.set "reasoning_content" (.string thinking)
  let calls ← choice.message.toolCalls.zipIdx.mapM fun call =>
    renderCall packages quoted index call.2 call.1
  let message := if calls.isEmpty then message else message.set "tool_calls" (.array calls)
  return .obj [("index", .nat choice.index), ("message", message),
    ("finish_reason", renderFinishReason packages choice.finishReason)]

def renderChoices (response : ChatResponse) : Except CodecError (List Value) :=
  response.choices.zipIdx.mapM fun choice => renderChoice packages quoted choice.2 choice.1

/-- A canonical response as a Chat completion envelope. -/
def openaiChatResponse (response : ChatResponse) (context : ResponseContext) : Outcome :=
  match renderChoices packages quoted response with
  | .error e => .refused e
  | .ok choices =>
      match sumU64 response.usage.inputTokens response.usage.outputTokens with
      | none => .stopped
      | some total =>
          .rendered (.obj [
            ("id", .string (Anthropic.prefixedId response.id "chatcmpl-" context.fallbackId)),
            ("object", .string "chat.completion"), ("created", .int context.created),
            ("model", .string response.model), ("choices", .array choices),
            ("usage", reportedUsage response.usage total)])

end

/-! ## The three renderings of usage -/

/-- The usage object of what was rendered. -/
def Outcome.usage : Outcome → Outcome
  | .rendered value => .rendered (value.field "usage")
  | .refused e => .refused e
  | .stopped => .stopped

def outcomeOf : Except CodecError Value → Outcome
  | .ok value => .rendered value
  | .error e => .refused e

/-- The chunk of one usage report in a stream. -/
def reportChunk (packages : Packages) (s : OpenAiChatSseState) (report : Usage) : Outcome :=
  match openaiChatFrames packages s [.usage report] with
  | some (_, [chunk]) => .rendered chunk
  | some _ => .rendered .null
  | none => .stopped

/-- An exact total, or a refusal that names it. -/
inductive TotalStated (usage : Usage) : Outcome → Prop
  | exact {object : Value}
      (h : object.get "total_tokens" = some (.nat (usage.inputTokens + usage.outputTokens))) :
      TotalStated usage (.rendered object)
  | outOfRange (value limit : String) :
      TotalStated usage (.refused (.outOfRange "usage.total_tokens" value limit))

/-- All three renderings of the same counts end alike. -/
structure TotalsAgree (usage : Usage) (response frames : Outcome) : Prop where
  stated : TotalStated usage (outcomeOf (openaiChatUsage usage))
  response : response.usage = outcomeOf (openaiChatUsage usage)
  frames : frames.usage = outcomeOf (openaiChatUsage usage)

theorem reportedUsage_total (usage : Usage) (total : Nat) :
    (reportedUsage usage total).get "total_tokens" = some (.nat total) := by
  unfold reportedUsage setDetail
  split <;> split <;> simp [lookup]

theorem usageChunk_usage {pendingFinish : Option Value} {usage : Usage} {chunk : Value}
    (h : usageChunk pendingFinish usage = some chunk) :
    chunk.field "usage" =
      reportedUsage usage (usage.inputTokens + usage.outputTokens) := by
  obtain ⟨total, htotal, rfl⟩ := Option.map_eq_some_iff.mp h
  unfold sumU64 at htotal
  split at htotal
  · obtain rfl := Option.some.inj htotal
    cases pendingFinish <;> simp [Value.field, finishChunk]
  · cases htotal

theorem usageChunk_eq_none {pendingFinish : Option Value} {usage : Usage} :
    usageChunk pendingFinish usage = none ↔ ¬usage.inputTokens + usage.outputTokens < 2 ^ 64 := by
  simp [usageChunk, sumU64]

theorem reportChunk_eq (packages : Packages) {s : OpenAiChatSseState}
    (hlive : s.terminated = false) (report : Usage) :
    reportChunk packages s report =
      match usageChunk s.pendingFinish (packages.absorb s.usage report) with
      | some chunk => .rendered chunk
      | none => .stopped := by
  cases h : usageChunk s.pendingFinish (packages.absorb s.usage report) <;>
    simp [reportChunk, openaiChatFrames, hlive, renderChatEvent, h]

/-- The renderings of a complete response, of a stream's report and of the counts alone agree
exactly where the total fits in 64 bits; beyond, two of them stop the program. -/
theorem totals_agree_iff (packages : Packages) (quoted : String → String)
    (response : ChatResponse) (context : ResponseContext) (s : OpenAiChatSseState)
    (report : Usage) (hreadable : (renderChoices packages quoted response).isOk = true)
    (hlive : s.terminated = false)
    (hsame : packages.absorb s.usage report = response.usage) :
    TotalsAgree response.usage (openaiChatResponse packages quoted response context)
        (reportChunk packages s report) ↔
      response.usage.inputTokens + response.usage.outputTokens < 2 ^ 64 := by
  obtain ⟨choices, hchoices⟩ := exists_of_isOk hreadable
  rw [reportChunk_eq packages hlive, hsame]
  constructor
  · intro h
    by_contra hlarge
    have hframes := h.frames
    rw [usageChunk_eq_none.mpr hlarge, openaiChatUsage, if_neg hlarge] at hframes
    cases hframes
  · intro hfits
    have husage : openaiChatUsage response.usage = .ok (reportedUsage response.usage
        (response.usage.inputTokens + response.usage.outputTokens)) := if_pos hfits
    refine ⟨?_, ?_, ?_⟩
    · rw [husage]
      exact .exact (reportedUsage_total _ _)
    · rw [openaiChatResponse, hchoices, sumU64, if_pos hfits, husage]
      simp [Outcome.usage, outcomeOf, Value.field, lookup]
    · cases hchunk : usageChunk s.pendingFinish response.usage with
      | none => exact absurd hfits (usageChunk_eq_none.mp hchunk)
      | some chunk =>
          rw [husage]
          exact congrArg Outcome.rendered (usageChunk_usage hchunk)

/-- An answer of one empty message with these counts. -/
def emptyAnswer (inputTokens outputTokens : Nat) : ChatResponse :=
  ⟨"", "model", [⟨0, .text .assistant "", none, none⟩],
    { Usage.default with inputTokens := inputTokens, outputTokens := outputTokens }⟩

theorem small_totals_agree :
    TotalsAgree (emptyAnswer 3 4).usage
        (openaiChatResponse .textual id (emptyAnswer 3 4) ⟨0, "fallback"⟩)
        (reportChunk .textual .default (emptyAnswer 3 4).usage) ↔ 3 + 4 < 2 ^ 64 :=
  totals_agree_iff .textual id (emptyAnswer 3 4) ⟨0, "fallback"⟩ .default (emptyAnswer 3 4).usage
    (by decide +kernel) rfl rfl

/-- Saturated input and one output token: the counts alone are refused, the other two stop. -/
theorem large_totals_stop :
    outcomeOf (openaiChatUsage (emptyAnswer (2 ^ 64 - 1) 1).usage) =
        .refused (.outOfRange "usage.total_tokens" "18446744073709551615 + 1" "u64") ∧
      openaiChatResponse .textual id (emptyAnswer (2 ^ 64 - 1) 1) ⟨0, "fallback"⟩ = .stopped ∧
      reportChunk .textual .default (emptyAnswer (2 ^ 64 - 1) 1).usage = .stopped ∧
      ¬TotalsAgree (emptyAnswer (2 ^ 64 - 1) 1).usage
        (openaiChatResponse .textual id (emptyAnswer (2 ^ 64 - 1) 1) ⟨0, "fallback"⟩)
        (reportChunk .textual .default (emptyAnswer (2 ^ 64 - 1) 1).usage) := by
  have husage : outcomeOf (openaiChatUsage (emptyAnswer (2 ^ 64 - 1) 1).usage) =
      .refused (.outOfRange "usage.total_tokens" "18446744073709551615 + 1" "u64") := rfl
  have hframes : reportChunk .textual .default (emptyAnswer (2 ^ 64 - 1) 1).usage = .stopped := rfl
  refine ⟨husage, rfl, hframes, fun h => ?_⟩
  have hsame := h.frames
  rw [husage, hframes] at hsame
  cases hsame

end TokenStation.Chat
