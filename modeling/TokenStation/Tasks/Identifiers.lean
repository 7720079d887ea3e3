import TokenStation.Contracts.UrlSegment
import TokenStation.Library.Checked
import TokenStation.Library.Json
import TokenStation.Library.Whitespace
import TokenStation.Responses.Protocol

/-!
# Task identifiers

The identifiers upstreams give to tasks, as the video task components read them and
put them into the URLs they poll: one path segment, an operation name, or a query
parameter.
-/

namespace TokenStation.Tasks

open Library Library.Checked Library.Json Library.Text Responses Contracts

/-! ## Grammars -/

def maxTaskIdBytes : Nat := 128
def maxArtifactRefBytes : Nat := 8 * 1024
def maxQueryValueBytes : Nat := 64
def maxQueryTotalBytes : Nat := 256

/-- The control characters of Unicode. -/
def isControl (c : Char) : Bool := c.toNat < 0x20 || (0x7F ≤ c.toNat && c.toNat < 0xA0)

def isDot (id : String) : Bool := id == "." || id == ".."

def hasControl (id : String) : Bool := id.toList.any isControl

def hasSlash (id : String) : Bool := id.toList.contains '/'

/-- Kling's identifiers. -/
def validId (id : String) : Bool :=
  id != "" && (bytes id).length ≤ maxArtifactRefBytes && !isDot id && !hasControl id

/-- The identifiers of Bailian and BytePlus. -/
def identifier (id : String) : Bool :=
  id != "" && trim id == id && !isDot id && (bytes id).length ≤ maxTaskIdBytes && !hasControl id

/-- The identifiers of MiniMax, which may be numbers. -/
def miniMaxIdentifier (value : Value) : Option String :=
  let id :=
    match value with
    | .string id => some (trim id)
    | .number (.posInt n) => some (toString n)
    | _ => none
  id.filter fun id =>
    id != "" && !isDot id && id.toList.head? != some '-' &&
      (bytes id).length ≤ maxArtifactRefBytes && !hasControl id

def isWordChar (c : Char) : Bool := c.isAlphanum || c == '-' || c == '_'

/-- Interaction identifiers: letters, digits, dashes and underscores. -/
def interactionId (id : String) : Bool :=
  id != "" && (bytes id).length ≤ maxTaskIdBytes && id.toList.all isWordChar

/-- The segments of a name. -/
def segments (name : String) : List (List Char) := name.toList.splitOn '/'

def isPlainSegment (segment : List Char) : Bool :=
  segment != [] && segment != ['.'] && segment != ['.', '.'] &&
    segment.all fun c => isWordChar c || c == '.'

/-- Every segment is a plain identifier, so that the name is a path as it is. -/
def plainSegments (name : String) : Bool := (segments name).all isPlainSegment

def hasPrefix (lead name : String) : Bool := lead.toList.isPrefixOf name.toList

def geminiOperationName (name : String) : Bool :=
  (bytes name).length ≤ maxTaskIdBytes && !hasPrefix "projects/" name &&
    (hasPrefix "models/" name || hasPrefix "operations/" name) && plainSegments name

def vertexOperationName (name : String) : Bool :=
  (bytes name).length ≤ maxArtifactRefBytes && hasPrefix "projects/" name && plainSegments name

/-- The poll path of a publisher model's operation, below the binding's own prefix. -/
def vertexOperationUnderBinding (name : String) : Option String :=
  match (segments name).map String.ofList with
  | [projects, _, locations, _, publishers, google, models, model, operations, id] =>
      if [projects, locations, publishers, google, models, operations] =
          ["projects", "locations", "publishers", "google", "models", "operations"] then
        some ("publishers/google/models/" ++ model ++ "/operations/" ++ id)
      else none
  | _ => none

/-! ## Segments -/

/-- `-_.~` -/
def unreservedMarks : List UInt8 := [0x2D, 0x5F, 0x2E, 0x7E]

def isUnreservedByte (byte : UInt8) : Bool := isAsciiAlphanumeric byte || byte ∈ unreservedMarks

def encodeSegmentByte (byte : UInt8) : List UInt8 :=
  if isUnreservedByte byte then [byte]
  else [Percent.percent, UrlSegment.hexDigit (byte >>> 4), UrlSegment.hexDigit (byte &&& 0x0F)]

/-- An identifier as exactly one path segment. -/
def encodeSegment (id : String) : String :=
  String.ofList (((bytes id).flatMap encodeSegmentByte).map fun byte => Char.ofNat byte.toNat)

/-! ## Addresses -/

/-- An address without the slashes at its end. -/
def trimEndSlashes (url : String) : String :=
  String.ofList (url.toList.rdropWhile (· == '/'))

/-- The scheme and authority of an address. -/
def origin (base : String) : String :=
  let afterScheme : List Char → Option (List Char × List Char) := fun url =>
    (List.range (url.length + 1)).findSome? fun place =>
      if [':', '/', '/'].isPrefixOf (url.drop place) then
        some (url.take (place + 3), url.drop (place + 3))
      else none
  let (scheme, rest) := (afterScheme base.toList).getD ([], base.toList)
  if rest.contains '/' then String.ofList (scheme ++ rest.takeWhile (· != '/')) else base

/-! ## Query declarations -/

/-- The sanctioned parameters that task components declare. -/
inductive QueryParameterV1 where
  | groupId
  | taskId
  | fileId
deriving DecidableEq, Repr

namespace QueryParameterV1

/-- Canonical order. -/
def all : List QueryParameterV1 := [.groupId, .taskId, .fileId]

def wireName : QueryParameterV1 → String
  | .groupId => "GroupId"
  | .taskId => "task_id"
  | .fileId => "file_id"

/-- One decimal grammar for all three. -/
def accepts (value : String) : Bool :=
  value != "" && (bytes value).length ≤ maxQueryValueBytes && value.toList.all Char.isDigit

end QueryParameterV1

/-- A query in canonical order, without a leading `?`. -/
def queryString (parameters : List (QueryParameterV1 × String)) : Option String :=
  if parameters = [] ∨ parameters.any (fun p => !QueryParameterV1.accepts p.2) = true ∨
      ¬(parameters.map Prod.fst).Nodup then
    none
  else
    let declared := QueryParameterV1.all.filterMap fun name =>
      (lookup name parameters).map fun value => name.wireName ++ "=" ++ value
    let serialized := "&".intercalate declared
    if (bytes serialized).length ≤ maxQueryTotalBytes then some serialized else none

end TokenStation.Tasks
