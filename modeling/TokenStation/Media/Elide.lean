import TokenStation.Media.Json
import TokenStation.Media.Limits

/-!
# Taking large strings out of documents

A string leaves a document when a declared path reaches it or it is too long; a
placeholder that describes it stays in its place.
-/

namespace TokenStation.Media

open Library.Checked Library.Text Json

/-! ## Declared paths -/

inductive Segment where
  | any
  | exact (key : String)
deriving DecidableEq, Repr

/-- One reference token: `~1` is a slash, `~0` a tilde. -/
def unescapeToken : List Char → Option (List Char)
  | '~' :: '0' :: rest => (unescapeToken rest).map ('~' :: ·)
  | '~' :: '1' :: rest => (unescapeToken rest).map ('/' :: ·)
  | '~' :: _ => none
  | c :: rest => (unescapeToken rest).map (c :: ·)
  | [] => some []

def segmentOf (raw : List Char) : Option Segment :=
  if raw = ['*'] then some .any else (unescapeToken raw).map fun key => .exact (String.ofList key)

/-- The segments of a pattern's text. -/
def segmentsOf (text : String) : Option (List Segment) :=
  if text = "" ∨ MediaLimitsV1.v1.elisionPathBytes < (bytes text).length ∨
      text.toList.head? ≠ some '/' then
    none
  else (text.toList.tail.splitOn '/').mapM segmentOf

/-- A declared elision path, with its segments. -/
structure PathPatternV1 where
  text : String
  segments : List Segment
  parsed : segmentsOf text = some segments

inductive PathStep where
  | key (name : String)
  | index (position : Nat)
deriving DecidableEq, Repr

def Segment.accepts : Segment → PathStep → Bool
  | .any, _ => true
  | .exact key, .key actual => key == actual
  | .exact index, .index actual => index == toString actual

def PathPatternV1.accepts (pattern : PathPatternV1) (path : List PathStep) : Bool :=
  pattern.segments.length == path.length &&
    (pattern.segments.zip path).all fun (segment, step) => segment.accepts step

/-! ## Elision -/

inductive ElisionErrorV1 where
  | invalidJson
  | tooDeep
  | duplicateKey
  | keyTooLong
  | reservedKey
  | tooManyPaths
deriving DecidableEq, Repr

def ElisionErrorV1.ofParse : ParseError → ElisionErrorV1
  | .notJson => .invalidJson
  | .tooDeep => .tooDeep

/-- The characters that take exactly so many bytes. -/
def prefixOfSize : Nat → List Char → Option (List Char)
  | 0, _ => some []
  | _ + 1, [] => none
  | n + 1, c :: rest =>
      if c.utf8Size ≤ n + 1 then (prefixOfSize (n + 1 - c.utf8Size) rest).map (c :: ·) else none

/-- The first character boundary going back. -/
def cutBack (value : List Char) : Nat → List Char
  | 0 => []
  | n + 1 => (prefixOfSize (n + 1) value).getD (cutBack value n)

/-- The longest prefix that fits and ends on a boundary. -/
def utf8Prefix (value : String) (limit : Nat) : String :=
  if (bytes value).length ≤ limit then value else String.ofList (cutBack value.toList limit)

structure ElisionState where
  blobs : List BlobV1
  nextId : Nat

section

variable (declared : List PathPatternV1) (limits : MediaLimitsV1)

def placeholderText (index : Nat) (decoded : String) : String :=
  "\x7b\"$south.blob\":\x7b\"id\":\"" ++ blobId index ++ "\",\"bytes\":" ++
    toString (bytes decoded).length ++ ",\"head\":" ++
    String.ofList (writeString (utf8Prefix decoded limits.blobHeadBytes)).quoted ++ "\x7d\x7d"

/-- The placeholder of a string, whose bytes become the next blob. -/
def placeholder (decoded : String) (state : ElisionState) : Node × ElisionState :=
  (.scalar (placeholderText limits state.nextId decoded),
    ⟨state.blobs ++ [⟨blobId state.nextId, bytes decoded, true⟩], state.nextId + 1⟩)

/-- Each key against its own rules and the keys before it. -/
def checkKeys (seen : List String) : List (JsonString × Node) → Except ElisionErrorV1 Unit
  | [] => .ok ()
  | (key, _) :: members => do
      refuse (isReserved key.decoded = true) .reservedKey
      refuse (limits.inlineStringBytes < (bytes key.decoded).length) .keyTooLong
      refuse (key.decoded ∈ seen) .duplicateKey
      checkKeys (key.decoded :: seen) members

mutual

def visit (path : List PathStep) :
    Node → ElisionState → Except ElisionErrorV1 (Node × ElisionState)
  | .scalar text, state => .ok (.scalar text, state)
  | .string string, state =>
      if declared.any (·.accepts path) || limits.inlineStringBytes < (bytes string.decoded).length
      then .ok (placeholder limits string.decoded state)
      else .ok (.string string, state)
  | .array items, state => do
      let (items, state) ← visitItems path 0 items state
      return (.array items, state)
  | .object members, state => do
      checkKeys limits [] members
      let (members, state) ← visitMembers path members state
      return (.object members, state)

def visitItems (path : List PathStep) (position : Nat) :
    List Node → ElisionState → Except ElisionErrorV1 (List Node × ElisionState)
  | [], state => .ok ([], state)
  | item :: items, state => do
      let (item, state) ← visit (path ++ [.index position]) item state
      let (items, state) ← visitItems path (position + 1) items state
      return (item :: items, state)

def visitMembers (path : List PathStep) :
    List (JsonString × Node) → ElisionState →
      Except ElisionErrorV1 (List (JsonString × Node) × ElisionState)
  | [], state => .ok ([], state)
  | (key, value) :: members, state => do
      let (value, state) ← visit (path ++ [.key key.decoded]) value state
      let (members, state) ← visitMembers path members state
      return ((key, value) :: members, state)

end

/-- A document as compact text with placeholders, and the strings they stand for. -/
def elideFrom (document : List UInt8) (firstId : Nat) :
    Except ElisionErrorV1 (String × List BlobV1) := do
  refuse (limits.elisionPaths < declared.length) .tooManyPaths
  let node ← (parseBytes document).mapError .ofParse
  let (node, state) ← visit declared limits [] node ⟨[], firstId⟩
  return (writeCompact node, state.blobs)

def elideV1 (document : List UInt8) : Except ElisionErrorV1 (String × List BlobV1) :=
  elideFrom declared limits document 0

end

end TokenStation.Media
