import TokenStation.Eventstream.Reencoding
import TokenStation.Library.Occurrence
import TokenStation.Library.Whitespace
import TokenStation.Provider.Dialect

/-!
# How components read re-encoded frames

The components of eventstream upstreams share a small reader of frames: two
boundary patterns, the last `event` and `data` line of a frame, and no bound on
sizes. Each of them hands what it read to a state machine of its own.
-/

namespace TokenStation.Eventstream

open Library Library.Text Library.Json Library.ChunkedReading Responses Sse Provider

/-- Where one frame's payload ends and where the frame itself ends. -/
def sseFrameBoundary (buffer : List UInt8) : Option (Nat × Nat) :=
  let newline := (position [lf, lf] buffer).map fun place => (place, place + 2)
  let crlf := (position [cr, lf, cr, lf] buffer).map fun place => (place, place + 4)
  match newline, crlf with
  | some newline, some crlf => some (if newline.1 ≤ crlf.1 then newline else crlf)
  | found, none => found
  | none, found => found

/-! ## Fields -/

/-- A terminated line without the CR before its end. -/
def withoutCr (line : List Char) : List Char :=
  if line.getLast? = some '\r' then line.dropLast else line

/-- The lines of a text; what follows the last LF is a line unless it is empty. -/
def textLines (text : List Char) : List (List Char) :=
  let segments := text.splitOn '\n'
  segments.dropLast.map withoutCr ++ (segments.getLast?.filter (· ≠ [])).toList

/-- The `event:` and `data:` values of one frame. -/
structure FrameFields where
  event : Option String
  data : Option String
deriving DecidableEq

def eventMark : List Char := ['e', 'v', 'e', 'n', 't', ':']

def dataMark : List Char := ['d', 'a', 't', 'a', ':']

/-- A later line of a field replaces an earlier one. -/
def FrameFields.line (fields : FrameFields) (line : List Char) : FrameFields :=
  match line.dropPrefix? eventMark with
  | some value => { fields with event := some (String.ofList (trimWhiteSpace value)) }
  | none =>
      match line.dropPrefix? dataMark with
      | some value => { fields with data := some (String.ofList (trimWhiteSpace value)) }
      | none => fields

def frameFields (frame : String) : FrameFields :=
  (textLines frame.toList).foldl FrameFields.line ⟨none, none⟩

/-! ## Parsers -/

/-- What the parsers of the components have of their own: which frames they still
look at, what an event does and how a body ends. -/
structure StreamParser (σ : Type) where
  isClosed : σ → Bool
  eventsOf : σ → String → Value → Except ErrorEnvelope (List StreamEvent × σ)
  endOfBody : σ → List StreamEvent × σ

/-- The parser of Kiro's streams. -/
def kiroStreamParser {σ : Type} (eventsOf : σ → String → Value → Except ErrorEnvelope (List StreamEvent × σ))
    (endOfBody : σ → List StreamEvent × σ) : StreamParser σ :=
  ⟨fun _ => false, eventsOf, endOfBody⟩

/-- The parser of Converse's streams, which end without an event of their own. -/
def converseSseParser {σ : Type}
    (eventsOf : σ → String → Value → Except ErrorEnvelope (List StreamEvent × σ)) : StreamParser σ :=
  ⟨fun _ => false, eventsOf, fun s => ([], s)⟩

/-- The parser of InvokeModel's streams, which ignores what follows a failure. -/
def invokeStreamParser {σ : Type} (isClosed : σ → Bool)
    (eventsOf : σ → String → Value → Except ErrorEnvelope (List StreamEvent × σ))
    (endOfStream : σ → List StreamEvent × σ) : StreamParser σ :=
  ⟨isClosed, eventsOf, endOfStream⟩

/-- A frame as it was cut, and the events it gave. -/
structure FrameCut where
  payload : List UInt8
  events : List StreamEvent

section Parser

variable {σ : Type} (fromStr : String → Option Value) (parser : StreamParser σ)

/-- One frame: its fields, its document and what the parser makes of it. -/
def handleFrame (s : σ) (payload : List UInt8) : Except ErrorEnvelope (List StreamEvent × σ) :=
  if parser.isClosed s then .ok ([], s)
  else
    match fromUtf8 payload with
    | none => .error (protocolError "the upstream sent a stream frame that is not UTF-8")
    | some frame =>
        match frameFields frame with
        | ⟨some event, some data⟩ =>
            match fromStr data with
            | none =>
                .error (protocolError "the upstream sent a stream frame with invalid JSON")
            | some parsed => parser.eventsOf s event parsed
        | _ => .ok ([], s)

/-- What a parser does with the bytes it has. -/
def componentReading (s : σ) (tail : List UInt8) : Reading σ FrameCut ErrorEnvelope :=
  match sseFrameBoundary tail with
  | none => .more
  | some (payloadEnd, frameEnd) =>
      match handleFrame fromStr parser s (tail.take payloadEnd) with
      | .error error => .fail error
      | .ok (events, next) => .step next frameEnd [⟨tail.take payloadEnd, events⟩]

end Parser

/-! ## Boundaries -/

theorem sseFrameBoundary_le {buffer : List UInt8} {payloadEnd frameEnd : Nat}
    (h : sseFrameBoundary buffer = some (payloadEnd, frameEnd)) :
    payloadEnd < frameEnd ∧ frameEnd ≤ buffer.length := by
  unfold sseFrameBoundary at h
  dsimp only at h
  cases hnewline : position [lf, lf] buffer with
  | none =>
      cases hcrlf : position [cr, lf, cr, lf] buffer with
      | none => simp [hnewline, hcrlf] at h
      | some j =>
          have hle := position_le hcrlf
          simp only [hnewline, hcrlf, Option.map_none, Option.map_some, Option.some.injEq,
            Prod.mk.injEq] at h
          obtain ⟨rfl, rfl⟩ := h
          exact ⟨by omega, hle⟩
  | some i =>
      have hle := position_le hnewline
      cases hcrlf : position [cr, lf, cr, lf] buffer with
      | none =>
          simp only [hnewline, hcrlf, Option.map_none, Option.map_some, Option.some.injEq,
            Prod.mk.injEq] at h
          obtain ⟨rfl, rfl⟩ := h
          exact ⟨by omega, hle⟩
      | some j =>
          have hle' := position_le hcrlf
          simp only [hnewline, hcrlf, Option.map_some, Option.some.injEq] at h
          split at h
          · cases h
            exact ⟨by omega, hle⟩
          · cases h
            exact ⟨by omega, hle'⟩

/-- The two patterns cannot overlap so that a shorter input shows the later one. -/
theorem newline_before {xs ys : List UInt8} {i j : Nat} (hnewline : position [lf, lf] xs = some i)
    (hnone : position [cr, lf, cr, lf] xs = none)
    (hcrlf : position [cr, lf, cr, lf] (xs ++ ys) = some j) : i ≤ j := by
  by_contra hlt
  have hle : i + 2 ≤ xs.length := position_le hnewline
  obtain ⟨hlead, -⟩ := prefix_of_position hcrlf
  by_cases hshort : j + 4 ≤ xs.length
  · exact position_ne_none (by omega) (prefix_drop_of_append hshort hlead) hnone
  · -- The CRLF begins one byte before the newlines, whose second byte it has as a CR.
    have hnext : i = j + 1 := by omega
    obtain ⟨rest, hrest⟩ := (prefix_of_position hnewline).1
    obtain ⟨rest', hrest'⟩ := hlead
    have hfirst : xs[j + 2]? = some lf := by
      have h := congrArg (·[1]?) hrest
      simpa [hnext] using h.symm
    have hsecond : (xs ++ ys)[j + 2]? = some cr := by
      have h := congrArg (·[2]?) hrest'
      simpa using h.symm
    rw [List.getElem?_append_left (by omega), hfirst] at hsecond
    exact absurd hsecond (by decide)

theorem crlf_before {xs ys : List UInt8} {i j : Nat}
    (hcrlf : position [cr, lf, cr, lf] xs = some i) (hnone : position [lf, lf] xs = none)
    (hnewline : position [lf, lf] (xs ++ ys) = some j) : i < j := by
  by_contra hle
  have hlength : i + 4 ≤ xs.length := position_le hcrlf
  obtain ⟨hlead, -⟩ := prefix_of_position hnewline
  have hshort : j + [lf, lf].length ≤ xs.length := by
    change j + 2 ≤ xs.length
    omega
  exact position_ne_none (by omega) (prefix_drop_of_append hshort hlead) hnone

/-- A boundary that was found stays where it is when more arrives. -/
theorem sseFrameBoundary_append {buffer : List UInt8} {found : Nat × Nat}
    (h : sseFrameBoundary buffer = some found) (more : List UInt8) :
    sseFrameBoundary (buffer ++ more) = some found := by
  unfold sseFrameBoundary at h ⊢
  dsimp only at h ⊢
  cases hnewline : position [lf, lf] buffer with
  | none =>
      cases hcrlf : position [cr, lf, cr, lf] buffer with
      | none => simp [hnewline, hcrlf] at h
      | some i =>
          rw [hnewline, hcrlf] at h
          rw [position_append hcrlf more]
          cases hlater : position [lf, lf] (buffer ++ more) with
          | none => exact h
          | some j =>
              have hlt := crlf_before hcrlf hnewline hlater
              rw [← h]
              simp [Nat.not_le.mpr hlt]
  | some i =>
      rw [position_append hnewline more]
      cases hcrlf : position [cr, lf, cr, lf] buffer with
      | none =>
          rw [hnewline, hcrlf] at h
          cases hlater : position [cr, lf, cr, lf] (buffer ++ more) with
          | none => exact h
          | some j =>
              have hle := newline_before hnewline hcrlf hlater
              rw [← h]
              simp [hle]
      | some j =>
          rw [hnewline, hcrlf] at h
          rw [position_append hcrlf more]
          exact h

section Reader

variable {σ : Type} (fromStr : String → Option Value) (parser : StreamParser σ)

theorem componentReading_used {s next : σ} {tail : List UInt8} {n : Nat} {cuts : List FrameCut}
    (h : componentReading fromStr parser s tail = .step next n cuts) : 0 < n ∧ n ≤ tail.length := by
  unfold componentReading at h
  split at h
  · cases h
  · rename_i hboundary
    split at h
    · cases h
    · cases h
      obtain ⟨hlt, hle⟩ := sseFrameBoundary_le hboundary
      exact ⟨by omega, hle⟩

theorem componentReading_stable {s : σ} {tail : List UInt8}
    (h : componentReading fromStr parser s tail ≠ .more) (more : List UInt8) :
    componentReading fromStr parser s (tail ++ more) = componentReading fromStr parser s tail := by
  unfold componentReading at h ⊢
  cases hboundary : sseFrameBoundary tail with
  | none => simp [hboundary] at h
  | some found =>
      obtain ⟨payloadEnd, frameEnd⟩ := found
      rw [sseFrameBoundary_append hboundary more]
      dsimp only
      obtain ⟨hlt, hle⟩ := sseFrameBoundary_le hboundary
      rw [List.take_append_of_le_length (by omega)]

/-- The framing loop of a parser. -/
def componentReader : Reader σ UInt8 FrameCut ErrorEnvelope where
  read := componentReading fromStr parser
  used_pos := componentReading_used fromStr parser
  stable := componentReading_stable fromStr parser

/-- What a parser has read, and what it goes on with. -/
def parseChunk (s : σ × List UInt8) (chunk : List UInt8) :
    Except ErrorEnvelope (List StreamEvent × (σ × List UInt8)) :=
  if chunk = [] then .ok ((parser.endOfBody s.1).1, ((parser.endOfBody s.1).2, s.2))
  else
    let cuts := (componentReader fromStr parser).drain s.1 (s.2 ++ chunk)
    cuts.result.map fun next => (cuts.items.flatMap (·.events), next)

/-- A body, chunk by chunk. -/
def parseChunks (s : σ × List UInt8) :
    List (List UInt8) → Except ErrorEnvelope (List StreamEvent × (σ × List UInt8))
  | [] => .ok ([], s)
  | chunk :: chunks => do
      let (events, next) ← parseChunk fromStr parser s chunk
      let (later, last) ← parseChunks next chunks
      return (events ++ later, last)

/-- The chunks of a body are read by the framing loop as they arrive. -/
theorem parseChunks_eq {chunks : List (List UInt8)} (h : ∀ chunk ∈ chunks, chunk ≠ [])
    (s : σ × List UInt8) :
    parseChunks fromStr parser s chunks =
      ((componentReader fromStr parser).feed s.1 s.2 chunks).result.map fun next =>
        (((componentReader fromStr parser).feed s.1 s.2 chunks).items.flatMap (·.events), next) := by
  induction chunks generalizing s with
  | nil => rfl
  | cons chunk chunks ih =>
      have hrest := ih fun c hc => h c (List.mem_cons_of_mem _ hc)
      rw [parseChunks, parseChunk, if_neg (h chunk List.mem_cons_self), Reader.feed]
      cases hdrain : (componentReader fromStr parser).drain s.1 (s.2 ++ chunk) with
      | mk items result =>
          cases result with
          | error e => rfl
          | ok next =>
              change (parseChunks fromStr parser next chunks >>= fun last =>
                pure (items.flatMap (·.events) ++ last.1, last.2)) = _
              rw [hrest]
              dsimp only [Trace.bind]
              cases ((componentReader fromStr parser).feed next.1 next.2 chunks).result with
              | error e => rfl
              | ok last => simp [Except.map, pure, Except.pure, Bind.bind, Except.bind]

end Reader

end TokenStation.Eventstream
