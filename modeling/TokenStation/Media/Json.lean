import TokenStation.Library.JsonText
import TokenStation.Library.Checked

/-!
# JSON documents as they are written

A tree that keeps the source text of every scalar and string and the order of every
member, the strict parser that builds it and the compact writer.
-/

namespace TokenStation.Media.Json

open Library.Checked
open Library.Json (skip isSpace hexValue unescape escape shortEscapes)

/-- The deepest nesting a document may have. -/
def maxMediaJsonDepth : Nat := 128

/-- A string as written, escapes intact, and as meant. -/
structure JsonString where
  raw : String
  decoded : String
deriving DecidableEq, Repr

/-- One parsed value; a scalar is kept as its source text. -/
inductive Node where
  | scalar (text : String)
  | string (text : JsonString)
  | array (items : List Node)
  | object (members : List (JsonString × Node))
deriving Repr, Inhabited

inductive ParseError where
  | notJson
  | tooDeep
deriving DecidableEq, Repr

def orNotJson {α : Type} (value : Option α) : Except ParseError α :=
  match value with
  | some a => .ok a
  | none => .error .notJson

/-- The text before what is left of it. -/
def consumed (text rest : List Char) : List Char := text.take (text.length - rest.length)

/-! ## Strings -/

def hex4 : List Char → Option (Nat × List Char)
  | a :: b :: c :: d :: rest => do
      let n := ((← hexValue a) * 16 + (← hexValue b)) * 256 + (← hexValue c) * 16 + (← hexValue d)
      some (n, rest)
  | _ => none

def isHighSurrogate (n : Nat) : Bool := 0xD800 ≤ n && n < 0xDC00

def isLowSurrogate (n : Nat) : Bool := 0xDC00 ≤ n && n < 0xE000

/-- The character an escape spells; a high surrogate takes the low one after it. -/
def unicodeEscape (text : List Char) : Option (Char × List Char) := do
  let (first, rest) ← hex4 text
  if isHighSurrogate first then
    match rest with
    | '\\' :: 'u' :: rest => do
        let (second, rest) ← hex4 rest
        if isLowSurrogate second then
          some (Char.ofNat (0x10000 + (first - 0xD800) * 2 ^ 10 + (second - 0xDC00)), rest)
        else none
    | _ => none
  else if isLowSurrogate first then none
  else some (Char.ofNat first, rest)

/-- One character of a string. -/
def readChar : List Char → Option (Char × List Char)
  | '\\' :: 'u' :: rest => unicodeEscape rest
  | '\\' :: e :: rest => (unescape e).map fun c => (c, rest)
  | c :: rest => if c = '"' ∨ c = '\\' ∨ c < ' ' then none else some (c, rest)
  | [] => none

/-- The characters up to the closing quote. -/
def readChars : Nat → List Char → Option (List Char × List Char)
  | 0, _ => none
  | _ + 1, '"' :: rest => some ([], rest)
  | fuel + 1, text => do
      let (c, rest) ← readChar text
      let (decoded, rest) ← readChars fuel rest
      some (c :: decoded, rest)

/-- A string after its opening quote. -/
def readString (text : List Char) : Option (JsonString × List Char) :=
  (readChars (text.length + 1) text).map fun (decoded, rest) =>
    (⟨String.ofList (consumed text rest).dropLast, String.ofList decoded⟩, rest)

/-! ## Numbers -/

def skipSign : List Char → List Char
  | '-' :: rest => rest
  | text => text

def someDigits : List Char → Option (List Char)
  | c :: rest => if c.isDigit then some (rest.dropWhile Char.isDigit) else none
  | [] => none

/-- No zero leads another digit. -/
def whole : List Char → Option (List Char)
  | '0' :: rest => some rest
  | text => someDigits text

def fraction : List Char → Option (List Char)
  | '.' :: rest => someDigits rest
  | text => some text

def skipExponentSign : List Char → List Char
  | '+' :: rest => rest
  | text => skipSign text

def exponent : List Char → Option (List Char)
  | c :: rest =>
      if c = 'e' ∨ c = 'E' then someDigits (skipExponentSign rest) else some (c :: rest)
  | [] => some []

/-- What is left after a number. -/
def number (text : List Char) : Option (List Char) :=
  (whole (skipSign text)).bind fun rest => (fraction rest).bind exponent

def readNumber (text : List Char) : Option (Node × List Char) :=
  (number text).map fun rest => (.scalar (String.ofList (consumed text rest)), rest)

/-! ## Documents -/

/-- A quoted key and the colon after it. -/
def readKey : List Char → Option (JsonString × List Char)
  | '"' :: text => do
      let (key, rest) ← readString text
      match skip rest with
      | ':' :: rest => some (key, skip rest)
      | _ => none
  | _ => none

mutual

/-- The value a text starts with, nested at most `limit` deep. -/
def readValue (limit : Nat) : Nat → Nat → List Char → Except ParseError (Node × List Char)
  | 0, _, _ => .error .notJson
  | fuel + 1, depth, text =>
      match text with
      | '\x7b' :: rest =>
          if limit < depth + 1 then .error .tooDeep
          else if (skip rest).head? = some '\x7d' then .ok (.object [], (skip rest).tail)
          else do
            let (key, rest) ← orNotJson (readKey (skip rest))
            let (node, rest) ← readValue limit fuel (depth + 1) rest
            let (members, rest) ← readMembers limit fuel (depth + 1) rest
            .ok (.object ((key, node) :: members), rest)
      | '[' :: rest =>
          if limit < depth + 1 then .error .tooDeep
          else if (skip rest).head? = some ']' then .ok (.array [], (skip rest).tail)
          else do
            let (node, rest) ← readValue limit fuel (depth + 1) (skip rest)
            let (items, rest) ← readItems limit fuel (depth + 1) rest
            .ok (.array (node :: items), rest)
      | '"' :: rest => (orNotJson (readString rest)).map fun p => (.string p.1, p.2)
      | 't' :: 'r' :: 'u' :: 'e' :: rest => .ok (.scalar "true", rest)
      | 'f' :: 'a' :: 'l' :: 's' :: 'e' :: rest => .ok (.scalar "false", rest)
      | 'n' :: 'u' :: 'l' :: 'l' :: rest => .ok (.scalar "null", rest)
      | text => orNotJson (readNumber text)

/-- The items after the first one, up to the closing bracket. -/
def readItems (limit : Nat) : Nat → Nat → List Char → Except ParseError (List Node × List Char)
  | 0, _, _ => .error .notJson
  | fuel + 1, depth, text =>
      match skip text with
      | ']' :: rest => .ok ([], rest)
      | ',' :: rest => do
          let (node, rest) ← readValue limit fuel depth (skip rest)
          let (items, rest) ← readItems limit fuel depth rest
          .ok (node :: items, rest)
      | _ => .error .notJson

/-- The members after the first one, up to the closing brace. -/
def readMembers (limit : Nat) :
    Nat → Nat → List Char → Except ParseError (List (JsonString × Node) × List Char)
  | 0, _, _ => .error .notJson
  | fuel + 1, depth, text =>
      match skip text with
      | '\x7d' :: rest => .ok ([], rest)
      | ',' :: rest => do
          let (key, rest) ← orNotJson (readKey (skip rest))
          let (node, rest) ← readValue limit fuel depth rest
          let (members, rest) ← readMembers limit fuel depth rest
          .ok ((key, node) :: members, rest)
      | _ => .error .notJson

end

/-- A strict document nested at most `limit` deep. -/
def parseWithin (limit : Nat) (text : String) : Except ParseError Node := do
  let (node, rest) ← readValue limit (text.toList.length + 1) 0 (skip text.toList)
  if skip rest = [] then .ok node else .error .notJson

def parse (text : String) : Except ParseError Node := parseWithin maxMediaJsonDepth text

/-- A document as bytes; what is not UTF-8 is refused. -/
def parseBytes (document : List UInt8) : Except ParseError Node :=
  match Library.Text.fromUtf8 document with
  | some text => parse text
  | none => .error .notJson

/-! ## Writing -/

def JsonString.quoted (s : JsonString) : List Char := '"' :: (s.raw.toList ++ ['"'])

/-- A string with the shortest escapes. -/
def writeString (value : String) : JsonString := ⟨String.ofList (value.toList.flatMap escape), value⟩

mutual

/-- The compact text of a tree. -/
def write : Node → List Char
  | .scalar text => text.toList
  | .string text => text.quoted
  | .array [] => ['[', ']']
  | .array (node :: items) => '[' :: (write node ++ writeItems items)
  | .object [] => ['\x7b', '\x7d']
  | .object ((key, node) :: members) =>
      '\x7b' :: (key.quoted ++ ':' :: (write node ++ writeMembers members))

/-- The items after the first one and the closing bracket. -/
def writeItems : List Node → List Char
  | [] => [']']
  | node :: items => ',' :: (write node ++ writeItems items)

/-- The members after the first one and the closing brace. -/
def writeMembers : List (JsonString × Node) → List Char
  | [] => ['\x7d']
  | (key, node) :: members =>
      ',' :: (key.quoted ++ ':' :: (write node ++ writeMembers members))

end

def writeCompact (node : Node) : String := String.ofList (write node)

end TokenStation.Media.Json
