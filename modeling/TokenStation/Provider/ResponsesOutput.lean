import TokenStation.Provider.Messages
import TokenStation.Provider.UsageCounts

/-!
# Terminal objects of the Responses wire

A terminal `response` object as a canonical response: its status, its output
items, its usage, and the failures an upstream reports in place of one.
-/

namespace TokenStation.Provider

open Library Library.Json Responses

namespace ResponsesApi

/-! ## Usage -/

def requiredCount (usage : Value) (key missing : String) : Except ErrorEnvelope Nat :=
  countUnder usage key missing

def optionalCount (details : Option Value) (key : String) : Except ErrorEnvelope Nat :=
  countOrZero (details.bind (·.get key)) "the upstream usage has an invalid token count"

def details (usage : Value) (key : String) : Except ErrorEnvelope (Option Value) :=
  objectOrNone (usage.get key)
    "the upstream usage has a *_tokens_details value that is not an object"

/-- Stop where a condition holds. -/
def refuseWhen (c : Prop) [Decidable c] (message : String) : Except ErrorEnvelope Unit :=
  Checked.refuse c (protocolError message)

/-- The counts of a usage object. -/
def countsOf (usage : Value) : Except ErrorEnvelope Usage := do
  let input ← requiredCount usage "input_tokens"
    "the upstream usage lacks a valid input_tokens count"
  let output ← requiredCount usage "output_tokens"
    "the upstream usage lacks a valid output_tokens count"
  let total ← requiredCount usage "total_tokens"
    "the upstream usage lacks a valid total_tokens count"
  refuseWhen (2 ^ 64 ≤ input + output ∨ input + output ≠ total)
    "the upstream total_tokens does not equal input_tokens plus output_tokens"
  let inputDetails ← details usage "input_tokens_details"
  let outputDetails ← details usage "output_tokens_details"
  let cached ← optionalCount inputDetails "cached_tokens"
  let cacheWrite ← optionalCount inputDetails "cache_write_tokens"
  refuseWhen (2 ^ 64 ≤ cached + cacheWrite ∨ cached + cacheWrite > input)
    "the upstream cached and cache-write counts exceed input_tokens"
  let reasoning ← optionalCount outputDetails "reasoning_tokens"
  refuseWhen (reasoning > output) "the upstream reasoning_tokens exceeds output_tokens"
  return { Usage.default with
    inputTokens := input
    outputTokens := output
    cacheReadTokens := cached
    cacheWriteTokens := cacheWrite
    reasoningTokens := reasoning }

/-- The terminal usage; a missing report is an error. -/
def usageOf (usage : Option Value) : Except ErrorEnvelope Usage :=
  match usage.filter Value.isObject with
  | some usage => countsOf usage
  | none => .error (protocolError "the upstream response carries no usage object")

mutual

/-- Every counter is zero. -/
def zeroOnly : Value → Bool
  | .null => true
  | .number n => (Value.number n).asU64 == some 0
  | .object entries => zeroEntries entries
  | .array items => zeroItems items
  | .bool _ | .string _ => false

def zeroItems : List Value → Bool
  | [] => true
  | item :: items => zeroOnly item && zeroItems items

def zeroEntries : List (String × Value) → Bool
  | [] => true
  | (_, value) :: entries => zeroOnly value && zeroEntries entries

end

/-- Hosted-tool usage is absent, `null`, or zero in every counter. -/
def checkToolUsage : Option Value → Except ErrorEnvelope Unit
  | none | some .null => .ok ()
  | some usage =>
      if usage.isObject then
        refuseWhen (zeroOnly usage = false)
          "the upstream reported hosted-tool usage, which this dialect has no meter for"
      else .error (protocolError "the upstream tool_usage is neither null nor an object")

/-! ## Output items -/

def requiredStr (value : Value) (key missing : String) : Except ErrorEnvelope String :=
  match (value.get key).bind Value.asStr with
  | some text => .ok text
  | none => .error (protocolError missing)

/-- The text of one typed part. -/
def typedPart (kind : String) (entry : Value) : Except ErrorEnvelope String :=
  if (entry.get "type").bind Value.asStr = some kind then
    requiredStr entry "text" "the upstream reasoning part has no text"
  else
    .error (protocolError
      "the upstream reasoning item carries a part this dialect cannot represent")

def typedParts (value : Value) (key kind : String) (required : Bool) :
    Except ErrorEnvelope (List String) :=
  match value.get key with
  | some (.array parts) => parts.mapM (typedPart kind)
  | none =>
      if required then
        .error (protocolError
          "the upstream reasoning item has a summary or content that is not an array")
      else .ok []
  | some _ =>
      .error (protocolError
        "the upstream reasoning item has a summary or content that is not an array")

/-- One output item, read and validated. -/
inductive OutputItem where
  | message (text : String)
  | functionCall (callId name : String) (arguments : Option String)
  | reasoning (texts : List String)

/-- The text of one part of a message. -/
def messagePart (entry : Value) : Except ErrorEnvelope String :=
  match (entry.get "type").bind Value.asStr with
  | some "output_text" =>
      requiredStr entry "text" "the upstream output_text part has no text"
  | some "refusal" => requiredStr entry "refusal" "the upstream refusal part has no refusal text"
  | _ =>
      .error (protocolError
        "the upstream message carries a content part this dialect cannot represent")

/-- The arguments of a call item, when it has them. -/
def itemArguments (value : Value) : Except ErrorEnvelope (Option String) :=
  match value.get "arguments" with
  | none => .ok none
  | some (.string arguments) => .ok (some arguments)
  | some _ => .error (protocolError "the upstream function call arguments are not a string")

def outputItem (value : Value) : Except ErrorEnvelope OutputItem :=
  match (value.get "type").bind Value.asStr with
  | some "message" =>
      match (value.get "content").bind Value.asArray with
      | none => .error (protocolError "the upstream message item has no content array")
      | some parts => do
          let texts ← parts.mapM messagePart
          return .message (String.join texts)
  | some "function_call" => do
      let callId ← requiredStr value "call_id" "the upstream function call has no call_id"
      let name ← requiredStr value "name" "the upstream function call has no name"
      let arguments ← itemArguments value
      return .functionCall callId name arguments
  | some "reasoning" => do
      let summary ← typedParts value "summary" "summary_text" true
      let content ← typedParts value "content" "reasoning_text" false
      return .reasoning (summary ++ content)
  | some _ =>
      .error (protocolError
        ("the upstream returned an output item this dialect cannot represent; " ++
          "dropping it would hide content or cost"))
  | none => .error (protocolError "the upstream output item has no type")

/-! ## The response -/

/-- The finish reason a terminal object states, or why it is not a success. -/
def terminalStatus (raw : Value) : Except ErrorEnvelope FinishReason :=
  match (raw.get "status").bind Value.asStr with
  | some "completed" => .ok .stop
  | some "incomplete" =>
      match ((raw.get "incomplete_details").bind (·.get "reason")).bind Value.asStr with
      | some "max_output_tokens" => .ok .length
      | some "content_filter" => .ok .contentFilter
      | _ =>
          .error (protocolError
            "the upstream response is incomplete for a reason that does not settle")
  | _ => .error (protocolError "the upstream response did not complete")

/-- What the output items of a response add up to. -/
structure OutputRead where
  thinking : List ContentPart
  text : Option String
  toolCalls : List ToolCall

def readOutput (read : OutputRead) (entry : Value) : Except ErrorEnvelope OutputRead := do
  match ← outputItem entry with
  | .message piece => return { read with text := some (read.text.getD "" ++ piece) }
  | .functionCall _ _ none =>
      .error (protocolError "the upstream function call has no arguments")
  | .functionCall callId name (some arguments) =>
      return { read with toolCalls := read.toolCalls ++ [⟨callId, name, arguments, none⟩] }
  | .reasoning texts =>
      return { read with thinking := read.thinking ++ texts.map (ContentPart.thinking · none) }

/-- Thinking parts first, then the text. -/
def OutputRead.content (read : OutputRead) : Option Content :=
  if read.thinking.isEmpty then read.text.map Content.text
  else some (.parts (read.thinking ++ (read.text.map ContentPart.text).toList))

/-- A terminal `response` object as a canonical response. -/
def responseOf (raw : Value) : Except ErrorEnvelope ChatResponse := do
  refuseWhen ((raw.get "object").bind Value.asStr ≠ some "response")
    "the upstream 2xx body is not a response object"
  refuseWhen ((raw.get "error").any (fun error => !error.isNull) = true)
    "the upstream embedded an error in a successful response"
  let status ← terminalStatus raw
  checkToolUsage (raw.get "tool_usage")
  match (raw.get "output").bind Value.asArray with
  | none => .error (protocolError "the upstream response has no output array")
  | some output => do
      let read ← output.foldlM readOutput ⟨[], none, []⟩
      let usage ← usageOf (raw.get "usage")
      let finishReason := if read.toolCalls.isEmpty then status else .toolCalls
      return {
        id := ((raw.get "id").bind Value.asStr).getD ""
        model := ((raw.get "model").bind Value.asStr).getD ""
        choices := [{
          index := 0
          message := ⟨.assistant, read.content, read.toolCalls, none, none, []⟩
          finishReason := some finishReason
          stopSequence := none }]
        usage := usage }

/-! ## Failures -/

def asciiLowercase (c : Char) : Char := if 'A' ≤ c ∧ c ≤ 'Z' then Char.ofNat (c.toNat + 32) else c

def toAsciiLowercase (text : String) : String := String.ofList (text.toList.map asciiLowercase)

def contains (text piece : String) : Bool :=
  text.toList.tails.any fun tail => piece.toList.isPrefixOf tail

/-- An upstream error code through the closed table. -/
def failureCode (code : String) : ErrorCode :=
  let code := toAsciiLowercase code
  if code = "content_policy_violation" then .contentPolicy
  else if contains code "context_length" || contains code "maximum_context" then .contextLength
  else
    match code with
    | "rate_limit_exceeded" => .rateLimit
    | "server_error" => .upstreamUnavailable
    | "invalid_prompt" | "image_content_policy_violation" => .contentPolicy
    | "insufficient_quota" => .paymentRequired
    | "vector_store_timeout" => .timeout
    | "invalid_image" | "invalid_image_format" | "invalid_base64_image" | "invalid_image_url"
    | "image_too_large" | "image_too_small" | "image_parse_error" | "invalid_image_mode"
    | "image_file_too_large" | "unsupported_image_media_type" | "empty_image_file"
    | "failed_to_download_image" | "image_file_not_found" => .invalidRequest
    | _ => .internal

def failureEnvelope (error : Value) : ErrorEnvelope :=
  let code := failureCode (((error.get "code").bind Value.asStr).getD "")
  ⟨code, 502, messageOf code, shortMessage ((error.get "message").bind Value.asStr)⟩

/-- The error object of a failure frame; none for a frame that is not one. -/
def failureOf (frame : Value) : Option Value :=
  let top := (frame.get "error").filter Value.isObject
  match (frame.get "type").bind Value.asStr with
  | some "response.failed" =>
      let nested := ((frame.get "response").bind (·.get "error")).filter Value.isObject
      some ((nested <|> top).getD .null)
  | some "error" => some (top.getD frame)
  | _ => top

end ResponsesApi

end TokenStation.Provider
