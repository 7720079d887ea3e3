import TokenStation.Library.Base64
import TokenStation.Library.JsonText
import TokenStation.Library.Text

/-!
# Codec vocabulary

The canonical events and messages the Responses codec maps, its errors, and
what it uses of code outside the repository: the JSON and base64 packages and
the kernel's rule for folding usage reports.
-/

namespace TokenStation.Responses

open Library Library.Json

/-! ## Errors -/

/-- Why a conversion could not be completed, with the wire field it is about. -/
inductive CodecError where
  | reasoningReplayInvalid (field : String)
  | unknownValue (field value expected : String)
  | unrenderable (field detail : String)
  | outOfRange (field value limit : String)
deriving DecidableEq, Repr

def invalid (field detail : String) : CodecError := .unrenderable field detail

def unsupported (field expected : String) : CodecError :=
  .unknownValue field "an unsupported value" expected

def requiredStr (value : Value) (field : String) : Except CodecError String :=
  match value.asStr with
  | some s => .ok s
  | none => .error (invalid field "must be a string")

/-! ## Canonical stream events -/

/-- Token counts. The cache buckets are parts of the input, the explicit reads
a part of the cache reads, the two tiers parts of the cache writes, and
reasoning a part of the output. -/
structure Usage where
  inputTokens : Nat
  outputTokens : Nat
  cacheReadTokens : Nat
  cacheWriteTokens : Nat
  reasoningTokens : Nat
  explicitCacheReadTokens : Nat
  cacheWrite5mTokens : Nat
  cacheWrite1hTokens : Nat
deriving DecidableEq, Repr

def Usage.default : Usage := ⟨0, 0, 0, 0, 0, 0, 0, 0⟩

inductive FinishReason where
  | stop
  | stopSequence
  | length
  | toolCalls
  | contentFilter
  | other (reason : String)
deriving DecidableEq, Repr

inductive ErrorCode where
  | invalidRequest
  | auth
  | paymentRequired
  | rateLimit
  | capacity
  | capability
  | contextLength
  | contentPolicy
  | upstreamUnavailable
  | transportTruncated
  | providerProtocolError
  | timeout
  | internal
deriving DecidableEq, Repr

structure ErrorEnvelope where
  code : ErrorCode
  httpStatus : Nat
  message : String
  /-- What the provider itself said. -/
  providerMessage : Option String
deriving DecidableEq, Repr

inductive StreamEvent where
  | delta (index : Nat) (content : String)
  | thinkingDelta (index blockIndex : Nat) (thinkingDelta : String)
  | thinkingSignatureDelta (index blockIndex : Nat) (signatureDelta : String)
  | redactedThinking (index blockIndex : Nat) (data : String)
  | toolCallDelta (index : Nat) (id name : Option String) (argumentsDelta : String)
      (signature : Option String)
  | usage (usage : Usage)
  | finish (finishReason : Option FinishReason) (stopSequence : Option String)
  | done (finishReason : Option FinishReason) (stopSequence : Option String)
  | error (error : ErrorEnvelope)
deriving DecidableEq, Repr

/-- Events that build an answer or report on it; the others end the stream. -/
def StreamEvent.isContent : StreamEvent → Bool
  | .done _ _ | .error _ => false
  | _ => true

def StreamEvent.isError : StreamEvent → Bool
  | .error _ => true
  | _ => false

/-! ## Host facts and frames -/

inductive ResponsesReasoningMode where
  | rawContent
  | summary
deriving DecidableEq, Repr

/-- Response identity, time and restoration facts supplied by the host. -/
structure ResponsesContext where
  responseId : String
  model : String
  createdAt : Int
  inboundTools : Value
  reasoning : ResponsesReasoningMode
  allowIncompleteToolCalls : Bool
  renderLegacyEncryptedReasoning : Bool

/-- One event and its complete JSON payload. -/
structure ResponsesFrame where
  event : String
  data : Value

/-! ## Packages -/

/-- What the codec calls outside the repository. -/
structure Packages where
  /-- The JSON value of a text. -/
  fromStr : String → Option Value
  /-- The compact text of a JSON value. -/
  toText : Value → String
  /-- Unpadded base64 with the URL-safe alphabet. -/
  encode64 : List UInt8 → String
  decode64 : String → Option (List UInt8)
  /-- The kernel's folding of usage reports. -/
  absorb : Usage → Usage → Usage
  /-- The kernel's serialised finish reason. -/
  reasonValue : FinishReason → Value

/-- Packages that read and write as the library does; doubles have no text. -/
def Packages.textual : Packages where
  fromStr := Json.parse
  toText v := String.ofList (Json.write (fun _ => []) v)
  encode64 b := String.ofList (Base64.encode b)
  decode64 s := Base64.decode s.toList
  absorb _ report := report
  reasonValue reason :=
    match reason with
    | .stop => .string "stop"
    | .stopSequence => .string "stop_sequence"
    | .length => .string "length"
    | .toolCalls => .string "tool_calls"
    | .contentFilter => .string "content_filter"
    | .other raw => .string raw

/-- A client without tools that shows summaries. -/
def toollessContext : ResponsesContext := ⟨"r", "m", 0, .null, .summary, false, false⟩

/-- Texts that are empty after trimming white space. -/
def isBlank (s : String) : Bool :=
  s.toList.all fun c =>
    let n := c.toNat
    (9 ≤ n && n ≤ 13) || n == 0x20 || n == 0x85 || n == 0xa0 || n == 0x1680 ||
      (0x2000 ≤ n && n ≤ 0x200a) || n == 0x2028 || n == 0x2029 || n == 0x202f || n == 0x205f ||
      n == 0x3000

end TokenStation.Responses
