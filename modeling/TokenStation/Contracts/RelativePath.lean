import TokenStation.Library.Percent
import TokenStation.Library.Text

/-!
# Paths of the HTTP contract

An endpoint's path is fixed by its host; a relative path is chosen by a
provider and appended to it. Both are ASCII, so their pieces are pieces of
their bytes.
-/

namespace TokenStation.Contracts

open Library.Percent Library.Text

def slash : UInt8 := 0x2F
def backslash : UInt8 := 0x5C
def dot : UInt8 := 0x2E
def colon : UInt8 := 0x3A

inductive ContractErrorV1 where
  | invalidEndpoint
  | invalidRelativePath
deriving DecidableEq, Repr

def maxRelativePathBytes : Nat := 2 * 1024

def isAsciiDigit (byte : UInt8) : Bool := 0x30 ≤ byte && byte ≤ 0x39
def isAsciiLowercase (byte : UInt8) : Bool := 0x61 ≤ byte && byte ≤ 0x7A
def isAsciiUppercase (byte : UInt8) : Bool := 0x41 ≤ byte && byte ≤ 0x5A
def isAsciiAlphabetic (byte : UInt8) : Bool := isAsciiLowercase byte || isAsciiUppercase byte
def isAsciiAlphanumeric (byte : UInt8) : Bool := isAsciiAlphabetic byte || isAsciiDigit byte

def isAscii (path : List UInt8) : Bool := path.all (· < 0x80)

/-- Control bytes, the space, and the backslash. -/
def isForbiddenPathByte (byte : UInt8) : Bool := byte ≤ 0x20 || byte == 0x7F || byte == backslash

/-- Segments that resolution would drop or climb over. -/
def isDotSegment (segment : List UInt8) : Bool := segment == [dot] || segment == [dot, dot]

def isSafeSegment (segment : List UInt8) : Bool := !segment.isEmpty && !isDotSegment segment

def hasSafeSegments (path : List UInt8) : Bool := (path.splitOn slash).all isSafeSegment

def hasSchemeLikeFirstSegment (path : List UInt8) : Bool :=
  let first := (path.splitOn slash).headD []
  if colon ∈ first then
    match first.takeWhile (· != colon) with
    | [] => false
    | byte :: bytes =>
        isAsciiAlphabetic byte &&
          bytes.all fun byte => isAsciiAlphanumeric byte || byte ∈ [0x2B, 0x2D, dot]
  else false

/-! ## Escapes -/

/-- Whether an escape may decode to a slash inside one segment. -/
inductive EncodedSlash where
  | refuse
  | admitInSegment
deriving DecidableEq, Repr

/-- Decode a segment: what was decoded so far, and whether a slash was among
it. A malformed or forbidden escape gives nothing. -/
def decodeSegment (encodedSlash : EncodedSlash) (decoded : List UInt8) (hasEncodedSlash : Bool) :
    List UInt8 → Option (List UInt8 × Bool)
  | [] => some (decoded, hasEncodedSlash)
  | byte :: rest =>
      if byte ≠ percent then decodeSegment encodedSlash (decoded ++ [byte]) hasEncodedSlash rest
      else
        match rest with
        | high :: low :: rest =>
            match escaped percent high low with
            | some byte =>
                if byte = slash ∧ encodedSlash = .admitInSegment then
                  decodeSegment encodedSlash (decoded ++ [byte]) true rest
                else if byte ∈ [dot, slash, backslash, percent] then none
                else decodeSegment encodedSlash (decoded ++ [byte]) hasEncodedSlash rest
            | none => none
        | _ => none

def segmentHasInvalidOrForbiddenEscape (encodedSlash : EncodedSlash) (segment : List UInt8) :
    Bool :=
  match decodeSegment encodedSlash [] false segment with
  | none => true
  | some (decoded, hasEncodedSlash) =>
      hasEncodedSlash && (decoded.splitOn slash).any fun piece => !isSafeSegment piece

def hasInvalidOrForbiddenPercentEncoding (encodedSlash : EncodedSlash) (path : List UInt8) :
    Bool :=
  (path.splitOn slash).any (segmentHasInvalidOrForbiddenEscape encodedSlash)

/-! ## Paths -/

def startsWithSlash (path : List UInt8) : Bool := path.head? == some slash

/-- What a relative path may not be. -/
def refusesRelativePath (path : List UInt8) : Bool :=
  path.isEmpty || maxRelativePathBytes < path.length || !isAscii path || startsWithSlash path ||
    path.any (fun byte => byte ∈ [0x3F, 0x23]) || path.any isForbiddenPathByte ||
    hasInvalidOrForbiddenPercentEncoding .admitInSegment path || !hasSafeSegments path ||
    hasSchemeLikeFirstSegment path

/-- A provider-selected path relative to its endpoint. -/
structure RelativePathV1 where
  value : String
  accepted : refusesRelativePath (bytes value) = false

def RelativePathV1.parse (input : String) : Except ContractErrorV1 RelativePathV1 :=
  if h : refusesRelativePath (bytes input) = false then .ok ⟨input, h⟩
  else .error .invalidRelativePath

/-- Parsing keeps the text, and every relative path is parsed from its own. -/
theorem RelativePathV1.parse_eq_ok_iff {input : String} {path : RelativePathV1} :
    RelativePathV1.parse input = .ok path ↔ path.value = input := by
  unfold RelativePathV1.parse
  constructor
  · intro h
    split at h
    · cases h
      rfl
    · cases h
  · rintro rfl
    rw [dif_pos path.accepted]

/-- The path without its last slash, if it has one. -/
def stripTrailingSlash (path : List UInt8) : List UInt8 :=
  if path.getLast? = some slash then path.dropLast else path

def validateEndpointPath (path : String) : Except ContractErrorV1 Unit :=
  let path := bytes path
  if (!isAscii path || !startsWithSlash path ||
      (path ≠ [slash] && decide ([slash, slash] <:+: path)) || path.any isForbiddenPathByte ||
      hasInvalidOrForbiddenPercentEncoding .refuse path) = true then
    .error .invalidEndpoint
  else
    let withoutTrailing := stripTrailingSlash path.tail
    if (!withoutTrailing.isEmpty && !hasSafeSegments withoutTrailing ||
        hasSchemeLikeFirstSegment withoutTrailing) = true then
      .error .invalidEndpoint
    else .ok ()

end TokenStation.Contracts
