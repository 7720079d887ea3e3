import TokenStation.Library.Checked
import TokenStation.Responses.Protocol

/-!
# Replay carriers

A carrier packs the thinking blocks of one assistant turn, and references to
its texts and tool calls in order, into one opaque string: a prefix and the
base64 of a JSON object with a closed set of keys.
-/

namespace TokenStation.Responses

open Library Library.Json Library.Text Library.Checked

def carrierPrefix : String := "tsr.c1."

def carrierNamespace : String := "token-station.reasoning-replay"

def claudeFamily : String := "claude-signed-thinking"

def maxBlocks : Nat := 128

def maxOpaqueBlockBytes : Nat := 1024 * 1024

def maxOpaqueTotalBytes : Nat := 4 * 1024 * 1024

def maxEncodedBytes : Nat := 8 * 1024 * 1024

inductive ReasoningReplayBlock where
  | thinking (thinking signature : String)
  | redactedThinking (data : String)
  | textRef (ordinal : Nat)
  | toolCallRef (callId : String)
deriving DecidableEq, Repr

namespace ReasoningReplayBlock

/-- The bytes a block holds for the upstream, when its mandatory fields are
there. -/
def opaqueBytes : ReasoningReplayBlock → Option Nat
  | .thinking text signature =>
      if signature = "" then none else some (text.utf8ByteSize + signature.utf8ByteSize)
  | .redactedThinking data => some data.utf8ByteSize
  | .textRef _ => some 0
  | .toolCallRef callId => if callId = "" then none else some callId.utf8ByteSize

def toJson : ReasoningReplayBlock → Value
  | .thinking text signature => .obj [("kind", .string "thinking"), ("thinking", .string text),
      ("signature", .string signature)]
  | .redactedThinking data => .obj [("kind", .string "redacted_thinking"), ("data", .string data)]
  | .textRef ordinal => .obj [("kind", .string "text_ref"), ("ordinal", .nat ordinal)]
  | .toolCallRef callId => .obj [("kind", .string "tool_call_ref"), ("call_id", .string callId)]

end ReasoningReplayBlock

def replayInvalid : CodecError := .reasoningReplayInvalid "encrypted_content"

/-- The bounds on the blocks after the first `total` bytes. -/
def validateFrom (total : Nat) : List ReasoningReplayBlock → Except CodecError Unit
  | [] => .ok ()
  | block :: blocks =>
      match block.opaqueBytes with
      | none => .error replayInvalid
      | some bytes =>
          if bytes > maxOpaqueBlockBytes then .error replayInvalid
          else if total + bytes > maxOpaqueTotalBytes then .error replayInvalid
          else validateFrom (total + bytes) blocks

def validate (blocks : List ReasoningReplayBlock) : Except CodecError Unit :=
  if blocks.length > maxBlocks then .error replayInvalid else validateFrom 0 blocks

/-- The JSON object inside a carrier. -/
def carrierJson (blocks : List ReasoningReplayBlock) : Value :=
  .obj [("namespace", .string carrierNamespace), ("version", .nat 1),
    ("protocol_family", .string claudeFamily),
    ("blocks", .array (blocks.map ReasoningReplayBlock.toJson))]

def exactKeys (object : List (String × Value)) (keys : List String) : Bool :=
  object.length == keys.length && keys.all fun key => (lookup key object).isSome

def blockOfJson (block : Value) : Except CodecError ReasoningReplayBlock :=
  match block.asObject with
  | none => .error replayInvalid
  | some object =>
      let text := fun key => (block.field key).asStr
      match text "kind" with
      | some "thinking" =>
          if exactKeys object ["kind", "thinking", "signature"] then
            match text "thinking", text "signature" with
            | some thinking, some signature => .ok (.thinking thinking signature)
            | _, _ => .error replayInvalid
          else .error replayInvalid
      | some "redacted_thinking" =>
          if exactKeys object ["kind", "data"] then
            match text "data" with
            | some data => .ok (.redactedThinking data)
            | none => .error replayInvalid
          else .error replayInvalid
      | some "text_ref" =>
          if exactKeys object ["kind", "ordinal"] then
            match (block.field "ordinal").asU64 with
            | some ordinal =>
                if ordinal < 2 ^ 32 then .ok (.textRef ordinal) else .error replayInvalid
            | none => .error replayInvalid
          else .error replayInvalid
      | some "tool_call_ref" =>
          if exactKeys object ["kind", "call_id"] then
            match text "call_id" with
            | some callId => .ok (.toolCallRef callId)
            | none => .error replayInvalid
          else .error replayInvalid
      | _ => .error replayInvalid

section

variable (packages : Packages)

/-- The JSON bytes of a carrier. -/
def carrierBytes (blocks : List ReasoningReplayBlock) : List UInt8 :=
  bytes (packages.toText (carrierJson blocks))

def encodeReasoningReplayCarrier (blocks : List ReasoningReplayBlock) :
    Except CodecError String := do
  validate blocks
  let encoded := carrierPrefix ++ packages.encode64 (carrierBytes packages blocks)
  refuse (encoded.utf8ByteSize > carrierPrefix.utf8ByteSize + maxEncodedBytes) replayInvalid
  pure encoded

def decodeReasoningReplayCarrier (value : String) :
    Except CodecError (List ReasoningReplayBlock) :=
  match stripText value carrierPrefix with
  | none => .error replayInvalid
  | some encoded =>
      if encoded.utf8ByteSize > maxEncodedBytes ∨ '=' ∈ encoded.toList then .error replayInvalid
      else
        match packages.decode64 encoded with
        | none => .error replayInvalid
        | some bytes =>
            if bytes.length > maxOpaqueTotalBytes + maxBlocks * 256 then .error replayInvalid
            else
              match (fromUtf8 bytes).bind packages.fromStr with
              | none => .error replayInvalid
              | some value => decodeCarrierJson value
where
  decodeCarrierJson (value : Value) : Except CodecError (List ReasoningReplayBlock) :=
    match value.asObject with
    | none => .error replayInvalid
    | some object =>
        if !exactKeys object ["namespace", "version", "protocol_family", "blocks"] ∨
            (value.field "namespace").asStr ≠ some carrierNamespace ∨
            (value.field "version").asU64 ≠ some 1 ∨
            (value.field "protocol_family").asStr ≠ some claudeFamily then .error replayInvalid
        else
          match (value.field "blocks").asArray with
          | none => .error replayInvalid
          | some blocks =>
              if blocks.length > maxBlocks then .error replayInvalid
              else do
                let parsed ← blocks.mapM blockOfJson
                validate parsed
                pure parsed

end

end TokenStation.Responses
