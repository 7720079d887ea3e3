import TokenStation.Library.Text

/-!
# The media vocabulary

The bounds both media worlds share, the reserved keys and the blobs that stand behind
the references of a view.
-/

namespace TokenStation.Media

open Library.Text

/-- Keys under this prefix are the placeholder namespace. -/
def reservedKeyPrefix : String := "$south."

/-- The key of a placeholder. -/
def blobKey : String := "$south.blob"

def isReserved (key : String) : Bool := reservedKeyPrefix.toList.isPrefixOf key.toList

structure MediaLimitsV1 where
  inlineStringBytes : Nat
  elisionPaths : Nat
  elisionPathBytes : Nat
  blobHeadBytes : Nat
  repeats : Nat
  artifactUrlBytes : Nat
  parts : Nat
  partHeaderBytes : Nat
  stateBytes : Nat
deriving DecidableEq, Repr

def MediaLimitsV1.v1 : MediaLimitsV1 where
  inlineStringBytes := 1024 * 1024
  elisionPaths := 32
  elisionPathBytes := 256
  blobHeadBytes := 64
  repeats := 10
  artifactUrlBytes := 8 * 1024
  parts := 64
  partHeaderBytes := 8 * 1024
  stateBytes := 8 * 1024

/-- The id of the `index`th blob. -/
def blobId (index : Nat) : String := "b" ++ toString index

/-- The bytes behind one reference, and whether they came from text. -/
structure BlobV1 where
  id : String
  bytes : List UInt8
  text : Bool
deriving DecidableEq, Repr

end TokenStation.Media
