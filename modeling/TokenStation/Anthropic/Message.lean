import TokenStation.Anthropic.Stream
import TokenStation.Library.Checked
import TokenStation.Responses.Conversation

/-!
# Messages envelope

A complete canonical response becomes one Messages envelope: thinking,
redacted and unmodelled parts as they stand, then the visible text as one
block, then the tool calls.
-/

namespace TokenStation.Anthropic

open Library Library.Json Responses

/-- An id with its prefix; the host's fallback stands for an empty id. -/
def prefixedId (id lead fallback : String) : String :=
  let source := if id.isEmpty then fallback else id
  if lead.toList.isPrefixOf source.toList then source else lead ++ source

/-- The text of a message, parts joined. -/
def visibleText : Option Content → String
  | some (.text text) => text
  | some (.parts parts) => String.join (parts.filterMap ContentPart.asText)
  | none => ""

/-- The block of a part that is not plain content. -/
def partBlock : ContentPart → Option Value
  | .thinking thinking signature =>
      let block := Value.obj [("type", .string "thinking"), ("thinking", .string thinking)]
      match signature with
      | some signature => some (block.set "signature" (.string signature))
      | none => some block
  | .redactedThinking data =>
      some (.obj [("type", .string "redacted_thinking"), ("data", .string data)])
  | .unknown value => some value
  | .text _ | .imageUrl _ => none

section

variable (packages : Packages) (quoted : String → String)

/-- The block of a tool call; `quoted` is a text in its debug form. -/
def toolUseBlock (stem : String) (position : Nat) (call : ToolCall) : Except CodecError Value :=
  match packages.fromStr call.arguments with
  | none =>
      .error (.unrenderable
        ("choices[0].message.tool_calls[" ++ toString position ++ "].arguments")
        ("tool call " ++ quoted call.name ++ " produced arguments that are not valid JSON"))
  | some input =>
      let id :=
        if call.id.isEmpty then "toolu_" ++ stem ++ "_" ++ toString position else call.id
      .ok (.obj [("type", .string "tool_use"), ("id", .string id), ("name", .string call.name),
        ("input", input)])

/-- The content blocks of one message. -/
def messageBlocks (messageId : String) (message : Message) : Except CodecError (List Value) := do
  let stem := String.ofList (AnthropicSseState.trimMessagePrefix messageId.toList)
  let opaqueBlocks :=
    match message.content with
    | some (.parts parts) => parts.filterMap partBlock
    | _ => []
  let text := visibleText message.content
  let textBlocks :=
    if text.isEmpty then []
    else [Value.obj [("type", .string "text"), ("text", .string text)]]
  let toolBlocks ← message.toolCalls.zipIdx.mapM fun call =>
    toolUseBlock packages quoted stem call.2 call.1
  return opaqueBlocks ++ textBlocks ++ toolBlocks

/-- A canonical response as a Messages envelope. -/
def anthropicMessageResponse (response : ChatResponse) (fallbackId : String) :
    Except CodecError Value :=
  match response.choices with
  | [choice] => do
      let messageId := prefixedId response.id "msg_" fallbackId
      let blocks ← messageBlocks packages quoted messageId choice.message
      let usage := reportCache response.usage (.obj [
        ("input_tokens", .nat (uncachedInputTokens response.usage)),
        ("output_tokens", .nat response.usage.outputTokens)])
      return .obj [("id", .string messageId), ("type", .string "message"),
        ("role", .string "assistant"), ("model", .string response.model),
        ("content", .array blocks), ("stop_reason", stopReason choice.finishReason),
        ("stop_sequence", (choice.stopSequence.map Value.string).getD .null), ("usage", usage)]
  | choices =>
      .error (.unrenderable "choices"
        ("the Messages envelope carries exactly one message; upstream returned " ++
          toString choices.length))

/-- A rendered envelope carries the blocks of its only message. -/
theorem anthropicMessageResponse_content {response : ChatResponse} {fallbackId : String}
    {value : Value} (h : anthropicMessageResponse packages quoted response fallbackId = .ok value) :
    ∃ choice blocks, response.choices = [choice] ∧
      messageBlocks packages quoted (prefixedId response.id "msg_" fallbackId) choice.message =
        .ok blocks ∧
      value.field "content" = .array blocks := by
  unfold anthropicMessageResponse at h
  cases hchoices : response.choices with
  | nil => simp [hchoices] at h
  | cons choice rest =>
      cases rest with
      | cons => simp [hchoices] at h
      | nil =>
          simp only [hchoices, Checked.bind_eq_ok, Checked.pure_eq_ok] at h
          obtain ⟨blocks, hblocks, rfl⟩ := h
          refine ⟨choice, blocks, rfl, hblocks, ?_⟩
          simp [Value.field, lookup]

end

end TokenStation.Anthropic
