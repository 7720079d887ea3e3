import TokenStation.Library.Text
import TokenStation.Library.Whitespace

/-!
# The local write tracker

A connection reports the bytes its writer takes, and the tracker reads them as
requests one after another: a header block that ends with an empty line, then
as many body bytes as the header declares. A complete request is reported once
when its last byte is taken and once when the connection is flushed.
-/

namespace TokenStation.LocalWrite

open TokenStation.Library

def maxHeaderBytes : Nat := 65536
def maxRequestIdBytes : Nat := 128

/-- A request identifier and a body length. -/
abbrev Event := String × Nat

structure WriteTracker where
  header : List UInt8 := []
  /-- The request, its body length and the body bytes taken so far. -/
  body : Option (String × Nat × Nat) := none
  complete : Option Event := none
  disabled : Bool := false
deriving DecidableEq, Repr

/-- The empty line that ends a header block. -/
def headerEnd : List UInt8 := [13, 10, 13, 10]

/-- The lines of a text, cut at each carriage return with a line feed. -/
def splitLines : List Char → List (List Char)
  | [] => [[]]
  | '\r' :: '\n' :: rest => [] :: splitLines rest
  | c :: rest =>
      match splitLines rest with
      | [] => [[c]]
      | line :: lines => (c :: line) :: lines

/-- The identifier and the length a header block has shown so far. -/
structure HeaderFields where
  id : Option (List Char) := none
  length : Option Nat := none

def isIdChar (c : Char) : Bool := c.isAlphanum || c == '_' || c == '-'

/-- The value of a line. Only the writer's single blank is taken off an identifier. -/
def lineValue (isId : Bool) (value : List Char) : Option (List Char) :=
  if isId then
    match value with
    | ' ' :: rest => some rest
    | _ => none
  else some (trimWhiteSpace value)

namespace HeaderFields

/-- The identifier, once. -/
def withId (fields : HeaderFields) (value : List Char) : Option HeaderFields :=
  if fields.id.isSome || value.isEmpty || maxRequestIdBytes < (String.ofList value).utf8ByteSize
      || !value.all isIdChar then none
  else some { fields with id := some value }

/-- The body length, once. -/
def withLength (fields : HeaderFields) (value : List Char) : Option HeaderFields :=
  if fields.length.isSome || value.isEmpty || !value.all Char.isDigit then none
  else if Nat.ofDigitChars 10 value 0 < 2 ^ 64 then
    some { fields with length := some (Nat.ofDigitChars 10 value 0) }
  else none

end HeaderFields

/-- One header line; nothing where the block is refused. -/
def readLine (fields : HeaderFields) (line : List Char) : Option HeaderFields :=
  (Text.splitOnceList ':' line).bind fun (name, value) =>
    let isId := Text.eqIgnoreAsciiCase name "x-request-id".toList
    (lineValue isId value).bind fun value =>
      if Text.eqIgnoreAsciiCase name "transfer-encoding".toList then none
      else
        (if isId then fields.withId value else some fields).bind fun fields =>
          if Text.eqIgnoreAsciiCase name "content-length".toList then fields.withLength value
          else some fields

def parseHeader (bytes : List UInt8) : Option Event := do
  let text ← Text.fromUtf8 bytes
  match splitLines text.toList with
  | [] => none
  | first :: lines =>
      if !("POST ".toList.isPrefixOf first) || !(" HTTP/1.1".toList.isSuffixOf first) then none
      else
        let fields ← (lines.filter fun line => !line.isEmpty).foldlM readLine {}
        let id ← fields.id
        let length ← fields.length
        some (String.ofList id, length)

namespace WriteTracker

def new : WriteTracker := {}

def clearHeader (t : WriteTracker) : WriteTracker := { t with header := [] }

def abort (t : WriteTracker) : WriteTracker :=
  { t.clearHeader with body := none, complete := none, disabled := true }

/-- The loop over a chunk while no header block has ended, with the bytes it
leaves; nothing where it aborts. -/
def acceptHeader (t : WriteTracker) : List UInt8 → Option (WriteTracker × List UInt8)
  | [] => some (t, [])
  | byte :: data =>
      if t.body.isSome then some (t, byte :: data)
      else if t.header.length = maxHeaderBytes then none
      else
        let t := { t with header := t.header ++ [byte] }
        if headerEnd.isSuffixOf t.header then
          match parseHeader t.header with
          | none => none
          | some (id, length) => acceptHeader { t.clearHeader with body := some (id, length, 0) } data
        else acceptHeader t data

/-- The count of a chunk's body bytes; the outer nothing is an overflowing count. -/
def acceptBody (t : WriteTracker) (data : List UInt8) : Option (WriteTracker × Option Event) :=
  match t.body with
  | none => some (t, none)
  | some (id, length, written) =>
      if 2 ^ 64 ≤ data.length then some (t.abort, none)
      else if length < written then none
      else if length - written < data.length then some (t.abort, none)
      else if 2 ^ 64 ≤ written + data.length then none
      else if written + data.length = length then
        some ({ t with complete := some (id, length), body := none }, some (id, length))
      else some ({ t with body := some (id, length, written + data.length) }, none)

/-- Take a chunk. -/
def accepted (t : WriteTracker) (data : List UInt8) : Option (WriteTracker × Option Event) :=
  if t.disabled || data.isEmpty then some (t, none)
  else if t.complete.isSome then some (t.abort, none)
  else
    match t.acceptHeader data with
    | none => some (t.abort, none)
    | some (t, data) => t.acceptBody data

def flushed (t : WriteTracker) : WriteTracker × Option Event :=
  ({ t with complete := none }, t.complete)

end WriteTracker

/-- A call of the connection. -/
inductive Call
  | accepted (chunk : List UInt8)
  | flushed
  | abort
deriving DecidableEq

/-- A call and what it reported. -/
abbrev Entry := Call × Option Event

namespace WriteTracker

/-- One call; nothing where a byte count overflows. -/
def step (t : WriteTracker) : Call → Option (WriteTracker × Option Event)
  | .accepted chunk => t.accepted chunk
  | .flushed => some t.flushed
  | .abort => some (t.abort, none)

/-- One call after a history of calls and what they reported. -/
def logged (state : WriteTracker × List Entry) (call : Call) : Option (WriteTracker × List Entry) :=
  (state.1.step call).map fun next => (next.1, state.2 ++ [(call, next.2)])

/-- A sequence of calls on a fresh tracker, with what each reported. -/
def run (calls : List Call) : Option (WriteTracker × List Entry) := calls.foldlM logged (new, [])

end WriteTracker

end TokenStation.LocalWrite
