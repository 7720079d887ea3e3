import Mathlib

/-!
# White space

The characters Unicode calls white space, and text without them at its ends.
-/

namespace TokenStation.Library

/-- The White_Space characters. -/
def isWhiteSpace (c : Char) : Bool :=
  let code := c.toNat
  (9 ≤ code && code ≤ 13) || code == 0x20 || code == 0x85 || code == 0xA0 || code == 0x1680 ||
    (0x2000 ≤ code && code ≤ 0x200A) || code == 0x2028 || code == 0x2029 || code == 0x202F ||
    code == 0x205F || code == 0x3000

/-- Text without the white space at its ends. -/
def trimWhiteSpace (text : List Char) : List Char :=
  (text.dropWhile isWhiteSpace).rdropWhile isWhiteSpace

def trim (text : String) : String := String.ofList (trimWhiteSpace text.toList)

end TokenStation.Library
