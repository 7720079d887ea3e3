import TokenStation.Sse.WholeBody

/-!
# Lines as fields

What the event-stream grammar says about one line, independent of any
implementation: it is blank, sets the event type, adds data, is ignored, or is
not UTF-8 at all. The builder is a function of that classification, and a run
over lines needs only the line texts.
-/

namespace TokenStation.Sse

open Library.Text Library.ChunkedReading

/-- What a line says. -/
inductive Field
  | malformed
  | blank
  | event (value : String)
  | data (value : String)
  | ignored
  deriving DecidableEq, Repr

namespace Field

/-- Classify a decoded line. -/
def ofText (line : String) : Field :=
  if line = "" then .blank
  else if startsWith line ':' then .ignored
  else
    let (field, value) := EventBuilder.fieldOf line
    if field = "event" then .event value
    else if field = "data" then .data value
    else .ignored

/-- Classify a line. -/
def ofBytes (line : List UInt8) : Field :=
  match fromUtf8 line with
  | none => .malformed
  | some decoded => ofText decoded

theorem ofText_ne_malformed (line : String) : ofText line ≠ .malformed := by
  unfold ofText
  dsimp only
  split_ifs <;> simp

theorem ofBytes_nil : ofBytes [] = .blank := by decide

/-- Only the empty line is blank. -/
theorem ofBytes_ne_blank {line : List UInt8} (h : line ≠ []) : ofBytes line ≠ .blank := by
  unfold ofBytes
  cases hline : fromUtf8 line with
  | none => simp
  | some decoded =>
      have hne : decoded ≠ "" := by
        rintro rfl
        exact h (bytes_of_fromUtf8 hline).symm
      simp only [ofText, if_neg hne]
      split_ifs <;> simp

end Field

namespace EventBuilder

/-- The effect of a classified line on the builder, under the event bound. -/
def apply (b : EventBuilder) : Field → Except SseErrorV1 (Option SseEventV1) × EventBuilder
  | .malformed => (.error .notUtf8, b)
  | .blank => (.ok b.dispatch.1, b.dispatch.2)
  | .event value =>
      if value.utf8ByteSize + b.data.utf8ByteSize > maxSseEventBytes then
        (.error .eventTooLarge, b)
      else (.ok none, { b with eventType := value })
  | .data value =>
      if b.eventType.utf8ByteSize + b.data.utf8ByteSize + value.utf8ByteSize + 1 >
          maxSseEventBytes then (.error .eventTooLarge, b)
      else (.ok none, { b with data := b.data ++ value ++ "\n" })
  | .ignored => (.ok none, b)

theorem text_eq_apply (b : EventBuilder) (line : String) :
    b.text line = b.apply (Field.ofText line) := by
  unfold text Field.ofText
  split
  · rfl
  · split
    · rfl
    · dsimp only
      split
      · rfl
      · split <;> rfl

/-- The builder sees a line only through its length and its classification. -/
theorem line_eq_apply (b : EventBuilder) (line : List UInt8) :
    b.line line =
      if line.length > maxSseLineBytes then (.error .lineTooLong, b)
      else EventBuilder.apply { b with atStreamStart := false } (Field.ofBytes (b.unmarked line)) := by
  unfold EventBuilder.line Field.ofBytes
  split
  · rfl
  · cases fromUtf8 (b.unmarked line) with
    | none => rfl
    | some decoded => exact text_eq_apply _ decoded

theorem dispatch_of_empty {b : EventBuilder} (h : b.data = "") :
    b.dispatch = (none, { b with eventType := "" }) := by
  simp [dispatch, h]

theorem dispatch_of_data {b : EventBuilder} (h : b.data ≠ "") :
    b.dispatch = (some ⟨if b.eventType = "" then defaultSseEventType else b.eventType,
      pop b.data⟩, { b with eventType := "", data := "" }) := by
  simp [dispatch, h]

end EventBuilder

theorem unmarked_cases (text : List UInt8) : EventBuilder.new.unmarked text = text ∨
    ∃ hidden, text = bom ++ hidden ∧ EventBuilder.new.unmarked text = hidden := by
  cases h : bom.isPrefixOf? text with
  | none => exact .inl (by simp [EventBuilder.unmarked, EventBuilder.new, h])
  | some hidden =>
      refine .inr ⟨hidden, (List.isPrefixOf?_eq_some_iff_append_eq.mp h).symm, ?_⟩
      simp [EventBuilder.unmarked, EventBuilder.new, h]

theorem fieldOf_size (line : String) : (EventBuilder.fieldOf line).1.utf8ByteSize +
    (EventBuilder.fieldOf line).2.utf8ByteSize ≤ line.utf8ByteSize := by
  unfold EventBuilder.fieldOf
  cases hsplit : splitOnce line ':' with
  | none => simp
  | some p =>
      have hline := splitOnce_eq_some hsplit
      have hvalue : ((stripPrefix p.2 ' ').getD p.2).utf8ByteSize ≤ p.2.utf8ByteSize := by
        cases hstrip : stripPrefix p.2 ' ' with
        | none => simp
        | some v => simp [stripPrefix_eq_some hstrip]
      rw [hline]
      simp only [String.utf8ByteSize_append]
      omega

/-- A field's value leaves room for the field's name in its line. -/
theorem ofBytes_value_size {text : List UInt8} {value : String}
    (h : Field.ofBytes text = .event value ∨ Field.ofBytes text = .data value) :
    value.utf8ByteSize + 4 ≤ text.length := by
  unfold Field.ofBytes at h
  cases hutf8 : fromUtf8 text with
  | none => simp [hutf8] at h
  | some line =>
      rw [← utf8ByteSize_of_fromUtf8 hutf8]
      have hsize := fieldOf_size line
      simp only [hutf8, Field.ofText] at h
      have hevent : "event".utf8ByteSize = 5 := by decide
      have hdata : "data".utf8ByteSize = 4 := by decide
      split_ifs at h with _ _ hf hf <;> simp_all <;> omega

/-- A builder past the start of its stream. -/
def mid (type data : String) : EventBuilder := ⟨false, type, data⟩

theorem line_mid (type data : String) {text : List UInt8} (h : text.length ≤ maxSseLineBytes) :
    (mid type data).line text = (mid type data).apply (Field.ofBytes text) := by
  rw [EventBuilder.line_eq_apply, if_neg (by omega)]
  rfl

/-- Interpret line texts and the end of input, without positions. -/
def interpret (b : EventBuilder) : List (List UInt8) → Trace SseEventV1 SseErrorV1 Unit
  | [] => .emit b.dispatch.1.toList ()
  | text :: texts =>
      match b.line text with
      | (.error e, _) => .fail e
      | (.ok event, b) => (Trace.emit event.toList ()).bind fun _ => interpret b texts

theorem interpret_ok {b b' : EventBuilder} {text : List UInt8} {event : Option SseEventV1}
    (h : b.line text = (.ok event, b')) (texts : List (List UInt8)) :
    interpret b (text :: texts) =
      ⟨event.toList ++ (interpret b' texts).items, (interpret b' texts).result⟩ := by
  simp [interpret, h]

theorem interpret_error {b b' : EventBuilder} {text : List UInt8} {e : SseErrorV1}
    (h : b.line text = (.error e, b')) (texts : List (List UInt8)) :
    interpret b (text :: texts) = .fail e := by
  simp [interpret, h]

theorem runAll_mapItems (b : EventBuilder) (pos : Nat) (ls : List Line) :
    (runAll (b, pos) ls).mapItems Prod.fst = interpret b (ls.map Line.text) := by
  induction ls generalizing b pos with
  | nil => simp [runEnd, interpret, Trace.mapItems, Trace.emit, Function.comp_def]
  | cons l ls ih =>
      rw [runAll_cons, Trace.mapItems_bind, List.map_cons, interpret, stepLine]
      dsimp only
      rcases b.line l.text with ⟨e | event, b'⟩
      · rfl
      · have hitems : (Trace.emit (ε := SseErrorV1) (event.toList.map fun e =>
            (e, pos + (l.text.length + l.ending.length)))
              (b', pos + (l.text.length + l.ending.length))).mapItems Prod.fst =
            .emit event.toList (b', pos + (l.text.length + l.ending.length)) := by
          simp [Trace.mapItems, Trace.emit, Function.comp_def]
        simp only [hitems, Trace.emit_bind, ih]

/-- The whole-body decoder returns exactly one event when the lines dispatch
exactly that one. -/
theorem bounded_eq_singleton {t : Trace (SseEventV1 × Nat) SseErrorV1 Unit} {event : SseEventV1} :
    bounded [] t = .ok [event] ↔ t.mapItems Prod.fst = .emit [event] () := by
  constructor
  · intro h
    unfold bounded at h
    split at h
    · simp at h
    · rcases t with ⟨items, e | u⟩
      · simp [Except.map] at h
      · simpa [Except.map, Trace.mapItems, Trace.emit] using h
  · intro h
    obtain ⟨hitems, hresult⟩ := Trace.ext_iff.mp h
    simp only [Trace.mapItems, Trace.emit] at hitems hresult
    have hlen : t.items.length = 1 := by simpa using congrArg List.length hitems
    have hle : ¬([] : List SseEventV1).length + t.items.length > maxSseEvents := by
      rw [hlen]
      decide
    rw [bounded, if_neg hle, hresult]
    simp [Except.map, hitems]

end TokenStation.Sse
