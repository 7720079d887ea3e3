import TokenStation.Library.PaddedBase64
import TokenStation.Library.Text

/-!
# Transforms of media

The closed words a descriptor may put on a reference, and the codecs under them: base64 and
hexadecimal, data URLs, and raw samples wrapped as a WAV file.
-/

namespace TokenStation.Media

open Library.PaddedBase64 Library.Text

def maxMediaTypeBytes : Nat := 128
def maxWavSampleRate : Nat := 384000
def maxWavChannels : Nat := 8

/-- One word of the closed vocabulary. -/
inductive MediaTransform
  | asIs
  | base64
  | dataUrl
  | fromDataUrl
  | dataUrlPayload
  | fromBase64
  | fromHex
  | concat
  | wavPcmS16le (sampleRate channels : Nat)
  deriving DecidableEq

/-- Why a transform refused its input. -/
inductive TransformError
  | notText
  | invalidBase64
  | invalidHex
  | invalidDataUrl
  | invalidMediaType
  | invalidPcm
  | concatNeedsList
  deriving DecidableEq

/-! ## Base64 -/

def base64Symbols : List UInt8 :=
  bytes "ABCDEFGHIJKLMNOPQRSTUVWXYZabcdefghijklmnopqrstuvwxyz0123456789+/"

/-- The character a byte of the symbol table stands for. -/
def charFrom (byte : UInt8) : Char := Char.ofNat byte.toNat

/-- Slices of three bytes, the last one possibly shorter. -/
def chunks : List UInt8 → List (List UInt8)
  | [] => []
  | [a] => [[a]]
  | [a, b] => [[a, b]]
  | a :: b :: c :: rest => [a, b, c] :: chunks rest

/-- The bytes of a slice as one number of 24 bits. -/
def groupOf (chunk : List UInt8) : Nat :=
  chunk.zipIdx.foldl (fun group entry => group ||| entry.1.toNat <<< (16 - 8 * entry.2)) 0

/-- The sextet of a group, as a symbol. -/
def symbolAt (symbols : List UInt8) (group index : Nat) : Char :=
  charFrom (symbols.getD (group >>> (18 - 6 * index) &&& 0x3f) 0)

/-- Four symbols a slice, padded. -/
def encodePadded (symbols : List UInt8) (data : List UInt8) : String :=
  String.ofList ((chunks data).flatMap fun chunk =>
    (List.range 4).map fun index =>
      if index ≤ chunk.length then symbolAt symbols (groupOf chunk) index else '=')

def encodeBase64 (data : List UInt8) : String := encodePadded base64Symbols data

def base64Value (symbol : UInt8) : Option Nat :=
  if 65 ≤ symbol ∧ symbol ≤ 90 then some (symbol - 65).toNat
  else if 97 ≤ symbol ∧ symbol ≤ 122 then some ((symbol - 97).toNat + 26)
  else if 48 ≤ symbol ∧ symbol ≤ 57 then some ((symbol - 48).toNat + 52)
  else if symbol = 43 then some 62
  else if symbol = 47 then some 63
  else none

/-- The number of `=` at the end. -/
def paddingOf (group : List UInt8) : Nat := (group.reverse.takeWhile (· == 61)).length

/-- One group of four symbols; only the last may be padded. -/
def decodeGroup (last : Bool) (group : List UInt8) : Option (List UInt8) :=
  let padding := paddingOf group
  if padding > 2 || (padding > 0 && !last) then none
  else do
    let value ← (group.take (4 - padding)).foldlM
      (fun value symbol => (base64Value symbol).map (value <<< 6 ||| ·)) 0
    let value := value <<< (6 * padding)
    let produced := 3 - padding
    let unused := if padding = 2 then 16 else if padding = 1 then 8 else 0
    if unused > 0 && value &&& (1 <<< unused - 1) != 0 then none
    else return (List.range produced).map fun shift =>
      UInt8.ofNat (value >>> (16 - 8 * shift) &&& 0xff)

def decodeBase64 (text : String) : Except TransformError (List UInt8) :=
  let symbols := bytes text
  if symbols.length % 4 ≠ 0 then .error .invalidBase64
  else
    match readGroups decodeGroup (symbols.length / 4) 0 (chunksExact symbols) with
    | some data => .ok data
    | none => .error .invalidBase64

/-! ## Hexadecimal -/

def hexDigit (symbol : UInt8) : Option Nat :=
  if 48 ≤ symbol ∧ symbol ≤ 57 then some (symbol - 48).toNat
  else if 65 ≤ symbol ∧ symbol ≤ 70 then some ((symbol - 65).toNat + 10)
  else if 97 ≤ symbol ∧ symbol ≤ 102 then some ((symbol - 97).toNat + 10)
  else none

def hexBytes : List UInt8 → Option (List UInt8)
  | high :: low :: rest => do
      let high ← hexDigit high
      let low ← hexDigit low
      let data ← hexBytes rest
      return UInt8.ofNat (high <<< 4 ||| low) :: data
  | _ => some []

def decodeHex (text : String) : Except TransformError (List UInt8) :=
  let symbols := bytes text
  if symbols.length % 2 ≠ 0 then .error .invalidHex
  else
    match hexBytes symbols with
    | some data => .ok data
    | none => .error .invalidHex

/-! ## Data URLs -/

def isTchar (byte : UInt8) : Bool :=
  (48 ≤ byte && byte ≤ 57) || (65 ≤ byte && byte ≤ 90) || (97 ≤ byte && byte ≤ 122) ||
    (bytes "!#$%&'*+-.^_\x60|~").contains byte

def isToken (part : String) : Bool := !part.isEmpty && (bytes part).all isTchar

def isMediaType (value : String) : Bool :=
  if value.isEmpty || value.utf8ByteSize > maxMediaTypeBytes then false
  else
    match splitOnce value '/' with
    | none => false
    | some (kind, subtype) => isToken kind && isToken subtype

def stripPrefixIgnoreCase (value lead : String) : Option String :=
  if eqIgnoreAsciiCase (value.toList.take lead.length) lead.toList then
    some (String.ofList (value.toList.drop lead.length))
  else none

/-- Whether the segments mark the payload as base64, the mark being the last of them. -/
def markedBase64 : Bool → List (List Char) → Option Bool
  | base64, [] => some base64
  | base64, segment :: segments =>
      if eqIgnoreAsciiCase segment "base64".toList then markedBase64 true segments
      else if base64 then none
      else markedBase64 base64 segments

def parseDataUrlV1 (url : String) : Except TransformError (Option String × List UInt8) :=
  match stripPrefixIgnoreCase url "data:" with
  | none => .error .invalidDataUrl
  | some rest =>
      match splitOnce rest ',' with
      | none => .error .invalidDataUrl
      | some (header, payload) => do
          let segments := header.toList.splitOn ';'
          let mediaType := String.ofList (segments.headD [])
          match markedBase64 false segments.tail with
          | some true =>
              let mediaType ← if mediaType.isEmpty then .ok none
                else if isMediaType mediaType then .ok (some mediaType)
                else .error .invalidDataUrl
              match decodeBase64 payload with
              | .error _ => .error .invalidDataUrl
              | .ok data => .ok (mediaType, data)
          | _ => .error .invalidDataUrl

def dataUrlPayloadV1 (url : String) : Except TransformError String :=
  (parseDataUrlV1 url).map fun parsed => encodeBase64 parsed.2

/-! ## WAV -/

/-- A number in bytes, the lowest first. -/
def toLeBytes : Nat → Nat → List UInt8
  | 0, _ => []
  | count + 1, n => UInt8.ofNat n :: toLeBytes count (n / 256)

def wavPcmS16leV1 (pcm : List UInt8) (sampleRate channels : Nat) :
    Except TransformError (List UInt8) :=
  if !(1 ≤ sampleRate && sampleRate ≤ maxWavSampleRate) ||
      !(1 ≤ channels && channels ≤ maxWavChannels) then .error .invalidPcm
  else
    let blockAlign := 2 * channels
    let dataLen := pcm.length
    if dataLen ≥ 2 ^ 32 then .error .invalidPcm
    else if dataLen % blockAlign ≠ 0 then .error .invalidPcm
    else if dataLen + 36 ≥ 2 ^ 32 then .error .invalidPcm
    else if sampleRate * blockAlign ≥ 2 ^ 32 then .error .invalidPcm
    else .ok <|
      bytes "RIFF" ++ toLeBytes 4 (dataLen + 36) ++ bytes "WAVEfmt " ++ toLeBytes 4 16 ++
        toLeBytes 2 1 ++ toLeBytes 2 channels ++ toLeBytes 4 sampleRate ++
        toLeBytes 4 (sampleRate * blockAlign) ++ toLeBytes 2 blockAlign ++ toLeBytes 2 16 ++
        bytes "data" ++ toLeBytes 4 dataLen ++ pcm

/-! ## Words -/

def text (input : List UInt8) : Except TransformError String :=
  match fromUtf8 input with
  | some text => .ok text
  | none => .error .notText

def MediaTransform.apply (transform : MediaTransform) (input : List UInt8)
    (mediaType : Option String) : Except TransformError (List UInt8) :=
  match transform with
  | .asIs => .ok input
  | .base64 => .ok (bytes (encodeBase64 input))
  | .dataUrl =>
      match mediaType with
      | none => .error .invalidMediaType
      | some mediaType =>
          if !isMediaType mediaType then .error .invalidMediaType
          else .ok (bytes ("data:" ++ mediaType ++ ";base64," ++ encodeBase64 input))
  | .fromDataUrl => do
      let url ← text input
      let parsed ← parseDataUrlV1 url
      return parsed.2
  | .dataUrlPayload => do
      let url ← text input
      let payload ← dataUrlPayloadV1 url
      return bytes payload
  | .fromBase64 => do
      let symbols ← text input
      decodeBase64 symbols
  | .fromHex => do
      let digits ← text input
      decodeHex digits
  | .concat => .error .concatNeedsList
  | .wavPcmS16le sampleRate channels => wavPcmS16leV1 input sampleRate channels

end TokenStation.Media
