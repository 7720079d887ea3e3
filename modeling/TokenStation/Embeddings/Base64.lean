import TokenStation.Media.Transform

/-!
# Base64 of embedding vectors

The codec of the embeddings contract, which reads a group through its bytes.
-/

namespace TokenStation.Embeddings

open Library.PaddedBase64 Library.Text Media

def base64Alphabet : List UInt8 :=
  bytes "ABCDEFGHIJKLMNOPQRSTUVWXYZabcdefghijklmnopqrstuvwxyz0123456789+/"

def base64Encode (data : List UInt8) : String := encodePadded base64Alphabet data

def sextet (symbol : UInt8) : Option Nat :=
  if 65 ≤ symbol ∧ symbol ≤ 90 then some (symbol - 65).toNat
  else if 97 ≤ symbol ∧ symbol ≤ 122 then some (symbol - 97 + 26).toNat
  else if 48 ≤ symbol ∧ symbol ≤ 57 then some (symbol - 48 + 52).toNat
  else if symbol = 43 then some 62
  else if symbol = 47 then some 63
  else none

/-- The three low bytes of a word, the highest first. -/
def lowBytes (group : Nat) : List UInt8 :=
  [UInt8.ofNat (group >>> 16), UInt8.ofNat (group >>> 8), UInt8.ofNat group]

/-- One group of four symbols: what the padding leaves out has to be zero. -/
def decodeQuad (last : Bool) (quad : List UInt8) : Option (List UInt8) :=
  let padding := paddingOf quad
  if padding > 2 || (padding > 0 && !last) then none
  else do
    let group ← (quad.take (4 - padding)).foldlM
      (fun group byte => (sextet byte).map (group <<< 6 ||| ·)) 0
    let decoded := lowBytes (group <<< (6 * padding))
    let kept := 3 - padding
    if (decoded.drop kept).any (· != 0) then none
    else return decoded.take kept

def base64Decode (text : String) : Option (List UInt8) :=
  let symbols := bytes text
  if symbols.length % 4 ≠ 0 then none
  else readGroups decodeQuad (symbols.length / 4) 0 (chunksExact symbols)

end TokenStation.Embeddings
