import TokenStation.Library.ChunkedReading
import TokenStation.Library.Text

/-!
# The server-sent events decoder

The field-level builder, the incremental decoder and the whole-body decoder,
as the host grammar crate computes them. A failing call returns the state it
leaves behind together with the error, because the caller may still look at
that state.
-/

namespace TokenStation.Sse

open Library.Text Library.ChunkedReading

/-- The longest accepted line, without its terminator. -/
def maxSseLineBytes : Nat := 16 * 1024 * 1024

/-- The largest accepted event type plus LF-joined data. -/
def maxSseEventBytes : Nat := 16 * 1024 * 1024

/-- The most events the whole-body decoder returns. -/
def maxSseEvents : Nat := 262144

/-- The event type of an event whose stream named none. -/
def defaultSseEventType : String := "message"

def cr : UInt8 := 13

def lf : UInt8 := 10

/-- The UTF-8 bytes of U+FEFF. -/
def bom : List UInt8 := [0xEF, 0xBB, 0xBF]

inductive SseErrorV1
  | notUtf8
  | lineTooLong
  | eventTooLarge
  | tooManyEvents
  | undrainedEvent
  deriving DecidableEq, Repr

/-- One dispatched event. -/
structure SseEventV1 where
  event : String
  data : String
  deriving DecidableEq, Repr

/-- The field-level state after line splitting. -/
@[ext]
structure EventBuilder where
  atStreamStart : Bool
  eventType : String
  data : String
  deriving DecidableEq, Repr

namespace EventBuilder

def new : EventBuilder := ⟨true, "", ""⟩

/-- Dispatch the pending event, if it has any data, and reset both buffers. -/
def dispatch (b : EventBuilder) : Option SseEventV1 × EventBuilder :=
  if b.data = "" then (none, { b with eventType := "" })
  else
    let event := if b.eventType = "" then defaultSseEventType else b.eventType
    (some ⟨event, pop b.data⟩, { b with eventType := "", data := "" })

/-- The field name and value of a line that is neither blank nor a comment. -/
def fieldOf (line : String) : String × String :=
  match splitOnce line ':' with
  | some (field, value) => (field, (stripPrefix value ' ').getD value)
  | none => (line, "")

/-- Interpret one decoded line. -/
def text (b : EventBuilder) (line : String) :
    Except SseErrorV1 (Option SseEventV1) × EventBuilder :=
  if line = "" then (.ok b.dispatch.1, b.dispatch.2)
  else if startsWith line ':' then (.ok none, b)
  else
    let (field, value) := fieldOf line
    if field = "event" then
      if value.utf8ByteSize + b.data.utf8ByteSize > maxSseEventBytes then
        (.error .eventTooLarge, b)
      else (.ok none, { b with eventType := value })
    else if field = "data" then
      let size := b.eventType.utf8ByteSize + b.data.utf8ByteSize
      if size + value.utf8ByteSize + 1 > maxSseEventBytes then (.error .eventTooLarge, b)
      else (.ok none, { b with data := b.data ++ value ++ "\n" })
    else (.ok none, b)

/-- Drop a byte order mark, when the builder is still at the stream's start. -/
def unmarked (b : EventBuilder) (line : List UInt8) : List UInt8 :=
  if b.atStreamStart then (bom.isPrefixOf? line).getD line else line

/-- Interpret one line, given without its terminator. -/
def line (b : EventBuilder) (line : List UInt8) :
    Except SseErrorV1 (Option SseEventV1) × EventBuilder :=
  if line.length > maxSseLineBytes then (.error .lineTooLong, b)
  else
    match fromUtf8 (b.unmarked line) with
    | none => (.error .notUtf8, { b with atStreamStart := false })
    | some decoded => text { b with atStreamStart := false } decoded

end EventBuilder

/-- The position of the first line terminator byte. -/
def terminator (bytes : List UInt8) : Option Nat :=
  bytes.findIdx? fun byte => byte == cr || byte == lf

theorem terminator_lt {bytes : List UInt8} {n : Nat} (h : terminator bytes = some n) :
    n < bytes.length :=
  (List.findIdx?_eq_some_iff_findIdx_eq.mp h).1

/-- The incremental decoder. -/
structure SseDecoderV1 where
  buffer : List UInt8
  readPos : Nat
  scanPos : Nat
  position : Nat
  builder : EventBuilder
  failure : Option SseErrorV1

namespace SseDecoderV1

def new : SseDecoderV1 := ⟨[], 0, 0, 0, .new, none⟩

/-- Append one chunk; bytes pushed after an error are discarded. -/
def push (d : SseDecoderV1) (chunk : List UInt8) : SseDecoderV1 :=
  if d.failure.isSome then d
  else if d.readPos > 0 then
    { d with
      buffer := d.buffer.drop d.readPos ++ chunk
      scanPos := d.scanPos - d.readPos
      readPos := 0 }
  else { d with buffer := d.buffer ++ chunk }

/-- Read lines until one dispatches an event, more bytes are needed or a line
is refused. -/
def advance (d : SseDecoderV1) : Except SseErrorV1 (Option SseEventV1) × SseDecoderV1 :=
  let start := d.readPos
  let from_ := max d.scanPos start
  match _h : terminator (d.buffer.drop from_) with
  | none =>
      let d := { d with scanPos := d.buffer.length }
      if d.buffer.length - start > maxSseLineBytes then (.error .lineTooLong, d)
      else if start = d.buffer.length then
        (.ok none, { d with buffer := [], readPos := 0, scanPos := 0 })
      else (.ok none, d)
  | some offset =>
      let end_ := from_ + offset
      if end_ - start > maxSseLineBytes then (.error .lineTooLong, d)
      else if d.buffer[end_]? = some cr ∧ d.buffer[end_ + 1]? = none then
        -- A CR that may be the first half of a CRLF: wait for the next byte.
        (.ok none, { d with scanPos := end_ })
      else
        let terminatorLen :=
          if d.buffer[end_]? = some cr ∧ d.buffer[end_ + 1]? = some lf then 2 else 1
        let readPos := end_ + terminatorLen
        let read := d.builder.line ((d.buffer.drop start).take (end_ - start))
        let d := { d with
          readPos := readPos
          scanPos := readPos
          position := d.position + (readPos - start)
          builder := read.2 }
        match read.1 with
        | .error e => (.error e, d)
        | .ok (some event) => (.ok (some event), d)
        | .ok none => advance d
termination_by d.buffer.length - d.readPos
decreasing_by
  have := terminator_lt _h
  simp only [List.length_drop] at this
  simp only [from_, start] at *
  split <;> omega

/-- The next dispatched event, nothing when more bytes are needed, or the
first error, which is kept. -/
def nextEvent (d : SseDecoderV1) : Except SseErrorV1 (Option SseEventV1) × SseDecoderV1 :=
  match d.failure with
  | some error => (.error error, d)
  | none =>
      match d.advance with
      | (.ok event, d) => (.ok event, d)
      | (.error error, d) =>
          (.error error, { d with failure := some error, buffer := [], readPos := 0, scanPos := 0 })

/-- How many pushed bytes are not yet part of a line that has been read. -/
def bufferedLen (d : SseDecoderV1) : Nat := d.buffer.length - d.readPos

/-- End the input and return the event the end of input dispatches. -/
def finish (d : SseDecoderV1) : Except SseErrorV1 (Option SseEventV1) :=
  match d.nextEvent with
  | (.error error, _) => .error error
  | (.ok (some _), _) => .error .undrainedEvent
  | (.ok none, d) =>
      let rest := d.buffer.drop d.readPos
      if rest = [] then .ok d.builder.dispatch.1
      else
        let line := if rest.getLast? = some cr then rest.dropLast else rest
        match d.builder.line line with
        | (.error error, _) => .error error
        | (.ok (some event), _) => .ok (some event)
        | (.ok none, builder) => .ok builder.dispatch.1

end SseDecoderV1

/-- Append an event unless the whole-body bound is reached. -/
def pushBounded (events : List SseEventV1) : Option SseEventV1 →
    Except SseErrorV1 (List SseEventV1)
  | none => .ok events
  | some event =>
      if events.length = maxSseEvents then .error .tooManyEvents else .ok (events ++ [event])

/-- The loop of the whole-body decoder from a given builder, the events so far
and the rest of the body. -/
def decodeLoop (builder : EventBuilder) (events : List SseEventV1) (rest : List UInt8) :
    Except SseErrorV1 (List SseEventV1) :=
  match _h : terminator rest with
  | some end_ => do
      let read := builder.line (rest.take end_)
      let events ← pushBounded events (← read.1)
      let crlf := rest[end_]? = some cr ∧ rest[end_ + 1]? = some lf
      decodeLoop read.2 events (rest.drop (end_ + 1 + if crlf then 1 else 0))
  | none =>
      if rest = [] then pushBounded events builder.dispatch.1
      else do
        let read := builder.line rest
        let events ← pushBounded events (← read.1)
        pushBounded events read.2.dispatch.1
termination_by rest.length
decreasing_by
  have := terminator_lt _h
  simp only [List.length_drop]
  omega

/-- Decode a complete body into its events. -/
def decodeSseV1 (body : List UInt8) : Except SseErrorV1 (List SseEventV1) :=
  decodeLoop .new [] body

end TokenStation.Sse
