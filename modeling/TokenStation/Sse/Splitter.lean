import TokenStation.Sse.Lines

/-!
# The splitter a component links

The second reader of the grammar, written without the host's decoder. It keeps
the bytes of an unfinished line between chunks, reads a lone CR at once and
drops an LF that follows it, and bounds the unfinished line after each chunk
and the data of the pending event.
-/

namespace TokenStation.Sse

open Library.Text Library.ChunkedReading

/-- The most bytes one line, or one event's joined data, may hold. -/
def maxSseSplitBytes : Nat := 16 * 1024 * 1024

/-- One dispatched event. -/
structure SseFrameV1 where
  event : String
  data : String
  deriving DecidableEq, Repr

/-- Why the splitter refused the stream. -/
inductive SseSplitErrorV1
  | notUtf8
  | tooLarge
  deriving DecidableEq, Repr

/-- What one push produced: the events it completed, and any refusal. -/
structure SsePushV1 where
  frames : List SseFrameV1
  error : Option SseSplitErrorV1

/-- The splitter's state between chunks. -/
structure SseSplitterV1 where
  tail : List UInt8
  bomSettled : Bool
  afterCr : Bool
  event : String
  data : String
  hasData : Bool

namespace SseSplitterV1

def new : SseSplitterV1 := ⟨[], false, false, "", "", false⟩

/-- The field name and value of a line that is neither blank nor a comment. -/
def fieldOf (line : String) : String × String :=
  match splitOnce line ':' with
  | some (field, value) => (field, (stripPrefix value ' ').getD value)
  | none => (line, "")

/-- One line, without its terminator. -/
def line (s : SseSplitterV1) (line : String) :
    Except SseSplitErrorV1 (Option SseFrameV1) × SseSplitterV1 :=
  if line = "" then
    if s.hasData then
      let event := if s.event = "" then "message" else s.event
      (.ok (some ⟨event, s.data⟩), { s with event := "", data := "", hasData := false })
    else (.ok none, { s with event := "" })
  else if startsWith line ':' then (.ok none, s)
  else
    let (field, value) := fieldOf line
    if field = "event" then (.ok none, { s with event := value })
    else if field = "data" then
      let data := if s.hasData then s.data ++ "\n" ++ value else s.data ++ value
      let s := { s with data := data, hasData := true }
      if s.data.utf8ByteSize > maxSseSplitBytes then (.error .tooLarge, s) else (.ok none, s)
    else (.ok none, s)

/-- Read the whole lines of `rest`, the unread end of the tail. A refusal
leaves the tail as it is; otherwise only the unfinished line stays. -/
def readLines (s : SseSplitterV1) (rest : List UInt8) (frames : List SseFrameV1) :
    SsePushV1 × SseSplitterV1 :=
  match _h : terminator rest with
  | none =>
      let s := { s with tail := rest }
      if s.tail.length > maxSseSplitBytes then (⟨frames, some .tooLarge⟩, s)
      else (⟨frames, none⟩, s)
  | some offset =>
      match fromUtf8 (rest.take offset) with
      | none => (⟨frames, some .notUtf8⟩, s)
      | some decoded =>
          let isCr := rest[offset]? = some cr
          let used := if isCr ∧ rest[offset + 1]? = some lf then offset + 2 else offset + 1
          let s := if isCr ∧ rest[offset + 1]? = none then { s with afterCr := true } else s
          match s.line decoded with
          | (.error error, s) => (⟨frames, some error⟩, s)
          | (.ok frame, s) => readLines s (rest.drop used) (frames ++ frame.toList)
termination_by rest.length
decreasing_by
  have := terminator_lt _h
  simp only [List.length_drop]
  split <;> omega

/-- Append a chunk and return every event it completed, with any refusal. -/
def push (s : SseSplitterV1) (chunk : List UInt8) : SsePushV1 × SseSplitterV1 :=
  let skip := s.afterCr ∧ chunk.head? = some lf
  let s := if chunk = [] then s else { s with afterCr := false }
  let s := { s with tail := s.tail ++ if skip then chunk.drop 1 else chunk }
  if s.bomSettled then readLines s s.tail []
  else if s.tail.length < bom.length ∧ s.tail.isPrefixOf bom then (⟨[], none⟩, s)
  else
    let s := { s with tail := (bom.isPrefixOf? s.tail).getD s.tail, bomSettled := true }
    readLines s s.tail []

/-- The end of input: read an unterminated last line, then dispatch. -/
def finish (s : SseSplitterV1) : Except SseSplitErrorV1 (Option SseFrameV1) × SseSplitterV1 :=
  let s := { s with bomSettled := true, afterCr := false }
  if s.tail = [] then s.line ""
  else
    match fromUtf8 s.tail with
    | none => (.error .notUtf8, { s with tail := [] })
    | some decoded =>
        match { s with tail := [] }.line decoded with
        | (.error error, s) => (.error error, s)
        | (.ok _, s) => s.line ""

/-- Push every chunk, stop at the first refusal, and finish. -/
def run (s : SseSplitterV1) : List (List UInt8) → Trace SseFrameV1 SseSplitErrorV1 Unit
  | [] =>
      match s.finish with
      | (.error error, _) => .fail error
      | (.ok frame, _) => .emit frame.toList ()
  | chunk :: chunks =>
      match s.push chunk with
      | (⟨frames, some error⟩, _) => ⟨frames, .error error⟩
      | (⟨frames, none⟩, s) => (Trace.emit frames ()).bind fun _ => run s chunks

end SseSplitterV1

end TokenStation.Sse
