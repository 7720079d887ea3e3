import TokenStation.Sse.FrameCuts
import TokenStation.Sse.SplitterRefusals

/-!
# Frames written as events

A frame is written as its type, if it has one of its own, its data on one line
and a blank line. Written within the bounds, frames are read back one by one,
wherever the body is cut.
-/

namespace TokenStation.Sse

open Library.Text Library.ChunkedReading

/-- The lines of a frame. -/
def SseFrameV1.asLines (frame : SseFrameV1) : List Line :=
  (if frame.event = "message" then [] else [⟨bytes ("event: " ++ frame.event), [lf]⟩]) ++
    [⟨bytes ("data: " ++ frame.data), [lf]⟩, ⟨[], [lf]⟩]

/-- Frames written one after another. -/
def encode (frames : List SseFrameV1) : List UInt8 := bytesOf (frames.flatMap SseFrameV1.asLines)

/-- A frame that fits its lines: no line breaks, and within the bound. -/
structure SseFrameV1.Writable (frame : SseFrameV1) : Prop where
  named : frame.event ≠ ""
  event_unbroken : Unbroken (bytes frame.event)
  data_unbroken : Unbroken (bytes frame.data)
  event_fits : ("event: " ++ frame.event).utf8ByteSize ≤ maxSseSplitBytes
  data_fits : ("data: " ++ frame.data).utf8ByteSize ≤ maxSseSplitBytes

/-! ## Lines -/

theorem unbroken_append {xs ys : List UInt8} (hx : Unbroken xs) (hy : Unbroken ys) :
    Unbroken (xs ++ ys) := by
  intro b hb
  exact (List.mem_append.mp hb).elim (hx b) (hy b)

/-- A frame without line breaks. -/
def SseFrameV1.OneLined (frame : SseFrameV1) : Prop :=
  Unbroken (bytes frame.event) ∧ Unbroken (bytes frame.data)

theorem SseFrameV1.Writable.oneLined {frame : SseFrameV1} (h : frame.Writable) :
    frame.OneLined :=
  ⟨h.event_unbroken, h.data_unbroken⟩

theorem asLines_unbroken {frame : SseFrameV1} (h : frame.OneLined) :
    ∀ l ∈ frame.asLines, Unbroken l.text ∧ l.ending = [lf] := by
  intro l hl
  rw [SseFrameV1.asLines, List.mem_append] at hl
  rcases hl with hl | hl
  · split at hl
    · cases hl
    · rw [List.mem_singleton] at hl
      subst hl
      refine ⟨?_, rfl⟩
      rw [bytes_append]
      exact unbroken_append (by unfold Unbroken; decide +kernel) h.1
  · rcases List.mem_cons.mp hl with rfl | hl
    · refine ⟨?_, rfl⟩
      rw [bytes_append]
      exact unbroken_append (by unfold Unbroken; decide +kernel) h.2
    · rw [List.mem_singleton] at hl
      subst hl
      exact ⟨by simp [Unbroken], rfl⟩

theorem delimited_of_lf {ls : List Line} (h : ∀ l ∈ ls, Unbroken l.text ∧ l.ending = [lf]) :
    Delimited ls := by
  induction ls with
  | nil => trivial
  | cons l ls ih =>
      obtain ⟨htext, hending⟩ := h l List.mem_cons_self
      have hrest := ih fun m hm => h m (List.mem_cons_of_mem _ hm)
      cases ls with
      | nil => exact ⟨htext, .inl (.inl hending)⟩
      | cons m ls => exact ⟨htext, .inl hending, hrest⟩

/-! ## Reading them back -/

theorem stripPrefix_space (value : String) : stripPrefix (" " ++ value) ' ' = some value := by
  simp [stripPrefix]

theorem ofText_spaced (field value : String) (h : field = "event" ∨ field = "data") :
    Field.ofText (field ++ ": " ++ value) =
      if field = "event" then .event value else .data value := by
  have hne : field ++ ": " ++ value ≠ "" := by
    intro hempty
    simpa using congrArg String.toList hempty
  have hsplit : splitOnce (field ++ ": " ++ value) ':' = some (field, " " ++ value) := by
    rcases h with rfl | rfl <;> simp [splitOnce, splitOnceList]
  have hstart : startsWith (field ++ ": " ++ value) ':' = false := by
    rcases h with rfl | rfl <;> simp [startsWith]
  have hfield : EventBuilder.fieldOf (field ++ ": " ++ value) = (field, value) := by
    rw [EventBuilder.fieldOf, hsplit]
    simp [stripPrefix_space]
  simp only [Field.ofText, hne, hstart, hfield, if_false, Bool.false_eq_true]
  rcases h with rfl | rfl <;> simp

theorem ofBytes_event (value : String) :
    Field.ofBytes (bytes ("event: " ++ value)) = .event value := by
  rw [Field.ofBytes, fromUtf8_bytes]
  exact ofText_spaced "event" value (.inl rfl)

theorem ofBytes_data (value : String) :
    Field.ofBytes (bytes ("data: " ++ value)) = .data value := by
  rw [Field.ofBytes, fromUtf8_bytes]
  exact ofText_spaced "data" value (.inr rfl)

/-- Nothing is pending. -/
def SseSplitterV1.Idle (s : SseSplitterV1) : Prop :=
  s.event = "" ∧ s.data = "" ∧ s.hasData = false

theorem splitAll_line {strict : Bool} {s s' : SseSplitterV1} {frame : Option SseFrameV1}
    {l : Line} {ls : List Line} (hfits : l.text.length ≤ maxSseSplitBytes)
    (happly : s.apply (Field.ofBytes l.text) = (.ok frame, s')) :
    SseSplitterV1.splitAll strict s (l :: ls) =
      (Trace.emit frame.toList ()).bind fun _ => SseSplitterV1.splitAll strict s' ls := by
  rw [SseSplitterV1.splitAll, if_neg (by omega), happly]

/-- The lines of a frame dispatch it. -/
theorem splitAll_asLines {strict : Bool} {s : SseSplitterV1} (hidle : s.Idle)
    {frame : SseFrameV1} (h : frame.Writable) (ls : List Line) :
    ∃ s', s'.Idle ∧ SseSplitterV1.splitAll strict s (frame.asLines ++ ls) =
      (Trace.emit [frame] ()).bind fun _ => SseSplitterV1.splitAll strict s' ls := by
  obtain ⟨hevent, hdata, hhas⟩ := hidle
  have hfits : ¬frame.data.utf8ByteSize > maxSseSplitBytes := by
    have := h.data_fits
    rw [String.utf8ByteSize_append] at this
    omega
  -- The data line and the blank line after the type is known.
  have hrest : ∀ t : SseSplitterV1, t.data = "" → t.hasData = false →
      (if t.event = "" then "message" else t.event) = frame.event →
      ∃ s', s'.Idle ∧ SseSplitterV1.splitAll strict t
          ([⟨bytes ("data: " ++ frame.data), [lf]⟩, ⟨[], [lf]⟩] ++ ls) =
        (Trace.emit [frame] ()).bind fun _ => SseSplitterV1.splitAll strict s' ls := by
    intro t htdata hthas htevent
    have hjoined : t.joined frame.data = frame.data := by
      simp [SseSplitterV1.joined, htdata, hthas]
    have hfirst : t.apply (Field.ofBytes (bytes ("data: " ++ frame.data))) =
        (.ok none, { t with data := frame.data, hasData := true }) := by
      rw [ofBytes_data, SseSplitterV1.apply, hjoined, if_neg hfits]
    have hlast : SseSplitterV1.apply { t with data := frame.data, hasData := true }
        (Field.ofBytes []) =
          (.ok (some frame), { t with event := "", data := "", hasData := false }) := by
      rw [Field.ofBytes_nil, SseSplitterV1.apply, if_pos rfl]
      simp only [htevent]
    refine ⟨{ t with event := "", data := "", hasData := false }, ⟨rfl, rfl, rfl⟩, ?_⟩
    rw [List.cons_append, splitAll_line (by simpa using h.data_fits) hfirst, List.cons_append,
      splitAll_line (Nat.zero_le _) hlast]
    rfl
  by_cases hmessage : frame.event = "message"
  · rw [SseFrameV1.asLines, if_pos hmessage, List.nil_append]
    exact hrest s hdata hhas (by simp [hevent, hmessage])
  · rw [SseFrameV1.asLines, if_neg hmessage, List.singleton_append, List.cons_append,
      splitAll_line (by simpa using h.event_fits)
        (show s.apply (Field.ofBytes (bytes ("event: " ++ frame.event))) =
          (.ok none, { s with event := frame.event }) by rw [ofBytes_event]; rfl)]
    exact hrest { s with event := frame.event } hdata hhas (by simp [h.named])

/-- The lines of writable frames dispatch them before the lines after them. -/
theorem splitAll_encode {strict : Bool} {frames : List SseFrameV1}
    (h : ∀ frame ∈ frames, frame.Writable) {s : SseSplitterV1} (hidle : s.Idle)
    (ls : List Line) :
    ∃ s', s'.Idle ∧ SseSplitterV1.splitAll strict s (frames.flatMap SseFrameV1.asLines ++ ls) =
      (Trace.emit frames ()).bind fun _ => SseSplitterV1.splitAll strict s' ls := by
  induction frames generalizing s with
  | nil => exact ⟨s, hidle, by simp [Trace.emit_bind]⟩
  | cons frame frames ih =>
      obtain ⟨between, hbetween, hframe⟩ := @splitAll_asLines strict _ hidle _
        (h frame List.mem_cons_self) (frames.flatMap SseFrameV1.asLines ++ ls)
      obtain ⟨s', hidle', hframes⟩ :=
        ih (fun frame hmem => h frame (List.mem_cons_of_mem _ hmem)) hbetween
      refine ⟨s', hidle', ?_⟩
      rw [List.flatMap_cons, List.append_assoc, hframe, hframes, ← Trace.bind_assoc]
      rfl

/-- The data line of a frame over the bound is refused. -/
theorem splitAll_oversized {strict : Bool} {s : SseSplitterV1} (hidle : s.Idle)
    {frame : SseFrameV1} (hevent : ("event: " ++ frame.event).utf8ByteSize ≤ maxSseSplitBytes)
    (hlarge : maxSseSplitBytes < frame.data.utf8ByteSize) (ls : List Line) :
    SseSplitterV1.splitAll strict s (frame.asLines ++ ls) = .fail .tooLarge := by
  obtain ⟨-, hdata, hhas⟩ := hidle
  have hrefused : ∀ t : SseSplitterV1, t.data = "" → t.hasData = false →
      SseSplitterV1.splitAll strict t
        ([⟨bytes ("data: " ++ frame.data), [lf]⟩, ⟨[], [lf]⟩] ++ ls) = .fail .tooLarge := by
    intro t htdata hthas
    have hjoined : t.joined frame.data = frame.data := by
      simp [SseSplitterV1.joined, htdata, hthas]
    rw [List.cons_append, SseSplitterV1.splitAll]
    split
    · rfl
    · rw [ofBytes_data, SseSplitterV1.apply, hjoined, if_pos hlarge]
  by_cases hmessage : frame.event = "message"
  · rw [SseFrameV1.asLines, if_pos hmessage, List.nil_append]
    exact hrefused s hdata hhas
  · rw [SseFrameV1.asLines, if_neg hmessage, List.singleton_append, List.cons_append,
      splitAll_line (by simpa using hevent)
        (show s.apply (Field.ofBytes (bytes ("event: " ++ frame.event))) =
          (.ok none, { s with event := frame.event }) by rw [ofBytes_event]; rfl),
      hrefused { s with event := frame.event } hdata hhas]
    rfl

theorem encode_ne_nil {frames : List SseFrameV1} (h : frames ≠ []) : encode frames ≠ [] := by
  cases frames with
  | nil => exact absurd rfl h
  | cons frame frames =>
      intro hnil
      have hlength := congrArg List.length hnil
      simp [encode, SseFrameV1.asLines] at hlength

/-- No frame begins with a byte order mark. -/
theorem unmark_encode (frames : List SseFrameV1) :
    SseSplitterV1.unmark (encode frames) = encode frames := by
  have hhead : ∀ b ∈ (encode frames).head?, b ≠ 0xEF := by
    cases frames with
    | nil => simp [encode]
    | cons frame frames =>
        rw [encode, List.flatMap_cons, SseFrameV1.asLines]
        split
        · have hd : bytes "data: " = 100 :: bytes "ata: " := by decide
          simp [bytesOf_cons, hd]
        · have he : bytes "event: " = 101 :: bytes "vent: " := by decide
          simp [bytesOf_cons, he]
  have hbom : bom.isPrefixOf? (encode frames) = none := by
    rcases hbody : encode frames with _ | ⟨b, rest⟩
    · rfl
    · rw [hbody] at hhead
      have hb : b ≠ 0xEF := hhead b rfl
      simp [bom, List.isPrefixOf?, Ne.symm hb]
  rw [SseSplitterV1.unmark, hbom, Option.getD_none]

/-- A run over written frames is the reading of their lines. -/
theorem run_of_lines {frames : List SseFrameV1} (h : ∀ frame ∈ frames, frame.OneLined)
    {t : Trace SseFrameV1 SseSplitErrorV1 Unit}
    (hsplit : ∀ strict, SseSplitterV1.splitAll strict .new
      (frames.flatMap SseFrameV1.asLines) = t)
    {chunks : List (List UInt8)} (hflat : chunks.flatten = encode frames) :
    SseSplitterV1.new.run chunks = t := by
  have hlines : SseSplitterV1.unmarkedLines (encode frames) =
      frames.flatMap SseFrameV1.asLines := by
    have hdelimited : Delimited (frames.flatMap SseFrameV1.asLines) := by
      refine delimited_of_lf fun l hl => ?_
      obtain ⟨frame, hframe, hl⟩ := List.mem_flatMap.mp hl
      exact asLines_unbroken (h frame hframe) l hl
    rw [SseSplitterV1.unmarkedLines, unmark_encode, encode, lines_bytesOf hdelimited]
  have hall : ∀ strict, SseSplitterV1.splitAll strict .new
      (SseSplitterV1.unmarkedLines chunks.flatten) = t := by
    intro strict
    rw [hflat, hlines, hsplit]
  rcases SseSplitterV1.run_cases chunks with hrun | hbetween
  · rw [hrun, hall]
  · rw [hall, hall] at hbetween
    exact hbetween.eq

/-- Frames written within the bounds are read back, wherever the body is cut. -/
theorem run_encode {frames : List SseFrameV1} (h : ∀ frame ∈ frames, frame.Writable)
    {chunks : List (List UInt8)} (hflat : chunks.flatten = encode frames) :
    SseSplitterV1.new.run chunks = .emit frames () := by
  refine run_of_lines (fun frame hframe => (h frame hframe).oneLined) (fun strict => ?_) hflat
  obtain ⟨s, hidle, hsplit⟩ := @splitAll_encode strict _ h _
    (show SseSplitterV1.new.Idle from ⟨rfl, rfl, rfl⟩) []
  rw [List.append_nil] at hsplit
  rw [hsplit, SseSplitterV1.splitAll, SseSplitterV1.ended, SseSplitterV1.apply,
    if_neg (by simp [hidle.2.2])]
  simp [Trace.emit, Trace.bind]

/-- The first frame over the bound ends the run with a refusal. -/
theorem run_oversized {frames more : List SseFrameV1} {frame : SseFrameV1}
    (h : ∀ frame ∈ frames, frame.Writable) (hmore : ∀ f ∈ frame :: more, f.OneLined)
    (hevent : ("event: " ++ frame.event).utf8ByteSize ≤ maxSseSplitBytes)
    (hlarge : maxSseSplitBytes < frame.data.utf8ByteSize)
    {chunks : List (List UInt8)} (hflat : chunks.flatten = encode (frames ++ frame :: more)) :
    SseSplitterV1.new.run chunks = (Trace.emit frames ()).bind fun _ => .fail .tooLarge := by
  refine run_of_lines (fun f hf => ?_) (fun strict => ?_) hflat
  · exact (List.mem_append.mp hf).elim (fun hf => (h f hf).oneLined) (hmore f)
  · obtain ⟨s, hidle, hsplit⟩ := @splitAll_encode strict _ h _
      (show SseSplitterV1.new.Idle from ⟨rfl, rfl, rfl⟩)
      ((frame :: more).flatMap SseFrameV1.asLines)
    rw [List.flatMap_append, hsplit, List.flatMap_cons, splitAll_oversized hidle hevent hlarge]

end TokenStation.Sse
