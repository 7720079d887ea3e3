import TokenStation.Media.Transform

/-!
# Base64 of the reference components

The components' codec knows both alphabets and reads a text as one stream of sextets.
-/

namespace TokenStation.Conformance.Base64

open Library.Text Media

inductive Alphabet
  | standard
  | urlSafe
  deriving DecidableEq

inductive Padding
  | canonical
  | indifferent
  deriving DecidableEq

namespace Alphabet

def symbols : Alphabet → List UInt8
  | .standard => bytes "ABCDEFGHIJKLMNOPQRSTUVWXYZabcdefghijklmnopqrstuvwxyz0123456789+/"
  | .urlSafe => bytes "ABCDEFGHIJKLMNOPQRSTUVWXYZabcdefghijklmnopqrstuvwxyz0123456789-_"

def sextet (alphabet : Alphabet) (symbol : UInt8) : Option Nat := alphabet.symbols.idxOf? symbol

end Alphabet

def encode (data : List UInt8) (alphabet : Alphabet) (pad : Bool) : String :=
  String.ofList ((chunks data).flatMap fun chunk =>
    (List.range (chunk.length + 1)).map (symbolAt alphabet.symbols (groupOf chunk)) ++
      if pad then List.replicate (3 - chunk.length) '=' else [])

/-- Reads symbols into a group of bits, and hands out a byte whenever eight are there. -/
def readSymbols (alphabet : Alphabet) : Nat → Nat → List UInt8 → Option (List UInt8 × Nat × Nat)
  | group, bits, [] => some ([], group, bits)
  | group, bits, symbol :: body => do
      let value ← alphabet.sextet symbol
      let group := (group <<< 6 ||| value) &&& 0xffff
      if bits + 6 ≥ 8 then
        let (decoded, rest) ← readSymbols alphabet group (bits + 6 - 8) body
        return (UInt8.ofNat (group >>> (bits + 6 - 8) &&& 0xff) :: decoded, rest)
      else readSymbols alphabet group (bits + 6) body

def decode (text : String) (alphabet : Alphabet) (padding : Padding) : Option (List UInt8) :=
  let symbols := bytes text
  let bodyLen := (symbols.rdropWhile (· == 61)).length
  let body := symbols.take bodyLen
  let pad := symbols.drop bodyLen
  let remainder := body.length % 4
  if remainder = 1 then none
  else
    let canonical := if remainder = 0 then 0 else 4 - remainder
    let padAllowed :=
      match padding with
      | .canonical => pad.length == canonical
      | .indifferent => pad.length ≤ canonical
    if !padAllowed then none
    else
      match readSymbols alphabet 0 0 body with
      | none => none
      | some (decoded, group, bits) =>
          if group &&& (1 <<< bits - 1) != 0 then none else some decoded

end TokenStation.Conformance.Base64
