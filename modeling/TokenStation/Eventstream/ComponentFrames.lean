import TokenStation.Eventstream.ComponentReader

/-!
# Re-encoded messages reach components one to one

However the re-encoded frames of some messages are cut into chunks, the framing
loop of a component cuts one frame a message, in order, and reads the message's
name and payload in it. On any bytes at all the frames and the first error are
those of the whole body.
-/

namespace TokenStation.Eventstream

open Library Library.Text Library.Json Library.ChunkedReading Responses Sse Provider

/-! ## White space around a payload -/

/-- Whether a text ends outside a string, given whether one is open and whether its
last character was an escaping backslash. -/
def endsOutside (inString escaped : Bool) : List Char → Bool
  | [] => !inString
  | ch :: rest =>
      if inString then endsOutside (!(!escaped && ch == '"')) (!escaped && ch == '\\') rest
      else if isSpace ch then endsOutside false escaped rest
      else endsOutside (ch == '"') escaped rest

/-- What the grammar says of accepted texts: strings are closed, and a value begins
and ends with characters that are no white space. -/
structure SerdeJson.Grammatical (serde : SerdeJson) : Prop where
  closed : ∀ text, serde.accepts text = true → endsOutside false false text.toList = true
  edges : ∀ text, serde.accepts text = true → ∀ front c back, text.toList = front ++ c :: back →
    isSpace c = false → front.all isSpace = true ∨ back.all isSpace = true →
      isWhiteSpace c = false

theorem isSpace_iff {c : Char} :
    isSpace c = true ↔ c = ' ' ∨ c = '\t' ∨ c = '\n' ∨ c = '\r' := by
  simp [isSpace, or_assoc]

theorem compactChars_space {ch : Char} (h : isSpace ch = true) (escaped : Bool)
    (rest : List Char) : compactChars false escaped (ch :: rest) = compactChars false escaped rest := by
  rw [compactChars, if_neg (by simp), if_pos (isSpace_iff.mp h)]

theorem compactChars_keep {ch : Char} (h : isSpace ch = false) (escaped : Bool)
    (rest : List Char) : compactChars false escaped (ch :: rest) =
      (compactChars (ch == '"') escaped rest).map (ch :: ·) := by
  rw [compactChars, if_neg (by simp), if_neg fun hspace => by
    rw [isSpace_iff.mpr hspace] at h
    cases h]

/-- In a string every character is kept. -/
theorem compactChars_string {ch : Char} {escaped : Bool} {rest out : List Char}
    (h : compactChars true escaped (ch :: rest) = .ok out) :
    ∃ later, out = ch :: later ∧
      compactChars (!(!escaped && ch == '"')) (!escaped && ch == '\\') rest = .ok later := by
  rw [compactChars, if_pos rfl] at h
  split at h
  · cases h
  · obtain ⟨later, hlater, rfl⟩ := Checked.map_eq_ok.mp h
    exact ⟨later, rfl, hlater⟩

/-- Nothing is left of white space only. -/
theorem compactChars_nil {inString escaped : Bool} {cs : List Char}
    (h : compactChars inString escaped cs = .ok []) (houtside : endsOutside inString escaped cs = true) :
    inString = false ∧ cs.all isSpace = true := by
  induction cs generalizing inString escaped with
  | nil => exact ⟨by simpa [endsOutside] using houtside, rfl⟩
  | cons ch cs ih =>
      cases inString with
      | true =>
          obtain ⟨later, hout, -⟩ := compactChars_string h
          cases hout
      | false =>
          cases hspace : isSpace ch with
          | true =>
              rw [compactChars_space hspace] at h
              rw [endsOutside, if_neg (by simp), if_pos hspace] at houtside
              obtain ⟨-, hall⟩ := ih h houtside
              exact ⟨rfl, by simp [hspace, hall]⟩
          | false =>
              rw [compactChars_keep hspace] at h
              obtain ⟨later, -, hout⟩ := Checked.map_eq_ok.mp h
              cases hout

/-- The first character kept outside a string. -/
theorem compactChars_head {escaped : Bool} {cs out : List Char} {c : Char}
    (h : compactChars false escaped cs = .ok out) (hc : out.head? = some c) :
    ∃ front back, cs = front ++ c :: back ∧ isSpace c = false ∧ front.all isSpace = true := by
  induction cs with
  | nil =>
      cases h
      cases hc
  | cons ch cs ih =>
      cases hspace : isSpace ch with
      | true =>
          rw [compactChars_space hspace] at h
          obtain ⟨front, back, rfl, hkept, hfront⟩ := ih h
          exact ⟨ch :: front, back, rfl, hkept, by simp [hspace, hfront]⟩
      | false =>
          rw [compactChars_keep hspace] at h
          obtain ⟨later, -, rfl⟩ := Checked.map_eq_ok.mp h
          obtain rfl : ch = c := Option.some.inj hc
          exact ⟨[], cs, rfl, hspace, rfl⟩

/-- The last character kept of a text whose strings are closed. -/
theorem compactChars_last {inString escaped : Bool} {cs out : List Char} {c : Char}
    (h : compactChars inString escaped cs = .ok out)
    (houtside : endsOutside inString escaped cs = true) (hc : out.getLast? = some c) :
    ∃ front back, cs = front ++ c :: back ∧ isSpace c = false ∧ back.all isSpace = true := by
  induction cs generalizing inString escaped out with
  | nil =>
      cases h
      cases hc
  | cons ch cs ih =>
      cases inString with
      | true =>
          obtain ⟨later, rfl, hlater⟩ := compactChars_string h
          rw [endsOutside, if_pos rfl] at houtside
          cases later with
          | nil =>
              obtain ⟨hclosed, hall⟩ := compactChars_nil hlater houtside
              obtain rfl : ch = c := by simpa using hc
              have hquote : escaped = false ∧ ch = '"' := by simpa using hclosed
              exact ⟨[], cs, rfl, by rw [hquote.2]; rfl, hall⟩
          | cons d later =>
              rw [List.getLast?_cons_cons] at hc
              obtain ⟨front, back, rfl, hkept, hback⟩ := ih hlater houtside hc
              exact ⟨ch :: front, back, rfl, hkept, hback⟩
      | false =>
          rw [endsOutside, if_neg (by simp)] at houtside
          cases hspace : isSpace ch with
          | true =>
              rw [compactChars_space hspace] at h
              rw [if_pos hspace] at houtside
              obtain ⟨front, back, rfl, hkept, hback⟩ := ih h houtside hc
              exact ⟨ch :: front, back, rfl, hkept, hback⟩
          | false =>
              rw [compactChars_keep hspace] at h
              rw [if_neg (by simp [hspace])] at houtside
              obtain ⟨later, hlater, rfl⟩ := Checked.map_eq_ok.mp h
              cases later with
              | nil =>
                  obtain ⟨-, hall⟩ := compactChars_nil hlater houtside
                  obtain rfl : ch = c := by simpa using hc
                  exact ⟨[], cs, rfl, hspace, hall⟩
              | cons d later =>
                  rw [List.getLast?_cons_cons] at hc
                  obtain ⟨front, back, rfl, hkept, hback⟩ := ih hlater houtside hc
                  exact ⟨ch :: front, back, rfl, hkept, hback⟩

theorem trimWhiteSpace_eq_self {text : List Char}
    (hhead : ∀ c, text.head? = some c → isWhiteSpace c = false)
    (hlast : ∀ c, text.getLast? = some c → isWhiteSpace c = false) :
    trimWhiteSpace text = text := by
  cases text with
  | nil => rfl
  | cons c text =>
      rw [trimWhiteSpace, List.dropWhile_cons_of_neg (by simp [hhead c rfl]),
        List.rdropWhile_eq_self_iff]
      intro hne
      simp [hlast _ (List.getLast?_eq_some_getLast hne)]

/-- A compact payload has no white space at its ends. -/
theorem trim_compactJson {serde : SerdeJson} (hserde : serde.Grammatical) {payload : List UInt8}
    {data : String} (h : compactJson serde payload = .ok data) :
    trimWhiteSpace data.toList = data.toList := by
  unfold compactJson at h
  split at h
  · cases h
  · rename_i text htext
    split at h
    · rename_i haccepts
      obtain ⟨out, hout, rfl⟩ := Checked.map_eq_ok.mp h
      rw [String.toList_ofList]
      refine trimWhiteSpace_eq_self (fun c hc => ?_) fun c hc => ?_
      · obtain ⟨front, back, hsplit, hkept, hfront⟩ := compactChars_head hout hc
        exact hserde.edges text haccepts front c back hsplit hkept (.inl hfront)
      · obtain ⟨front, back, hsplit, hkept, hback⟩ :=
          compactChars_last hout (hserde.closed text haccepts) hc
        exact hserde.edges text haccepts front c back hsplit hkept (.inr hback)
    · cases h

/-! ## One frame -/

/-- A frame ends at its blank line, whatever follows. -/
theorem sseFrameBoundary_written {front back : List UInt8} (hfront : Unbroken front)
    (hback : Unbroken back) (hne : back ≠ []) (rest : List UInt8) :
    sseFrameBoundary (front ++ lf :: back ++ [lf, lf] ++ rest) =
      some ((front ++ lf :: back).length, (front ++ lf :: back).length + 2) := by
  have hlf {text : List UInt8} (h : Unbroken text) : lf ∉ text := fun hmem => (h lf hmem).2 rfl
  have hcr {text : List UInt8} (h : Unbroken text) : cr ∉ text := fun hmem => (h cr hmem).1 rfl
  obtain ⟨b, later, rfl⟩ := List.exists_cons_of_ne_nil hne
  have hfirst : b ≠ lf := (hback b List.mem_cons_self).2
  have hnewline : position [lf, lf] (front ++ lf :: b :: later ++ [lf, lf] ++ rest) =
      some (front ++ lf :: b :: later).length := by
    have hstep : ¬[lf, lf] <+: lf :: (b :: later ++ (lf :: lf :: rest)) := by
      rw [List.cons_prefix_cons, List.cons_append, List.cons_prefix_cons]
      exact fun h => hfirst h.2.1.symm
    have hlast : position [lf, lf] (lf :: lf :: rest) = some 0 := by
      rw [position, if_pos ⟨rest, rfl⟩]
    have hsplit : front ++ lf :: b :: later ++ [lf, lf] ++ rest =
        front ++ (lf :: (b :: later ++ (lf :: lf :: rest))) := by simp
    rw [hsplit, position_notMem (hlf hfront), position, if_neg hstep, position_notMem (hlf hback),
      hlast]
    simp only [Option.map_some, List.length_append, List.length_cons, Option.some.injEq]
    omega
  have hcrlf : position [cr, lf, cr, lf] (front ++ lf :: b :: later ++ [lf, lf] ++ rest) =
      (position [cr, lf, cr, lf] rest).map (· + (front ++ lf :: b :: later ++ [lf, lf]).length) := by
    refine position_notMem ?_ rest
    simp only [List.mem_append, List.mem_cons, List.not_mem_nil, or_false, not_or]
    exact ⟨⟨hcr hfront, by decide, fun h => (hback b List.mem_cons_self).1 h.symm,
      fun h => hcr hback (List.mem_cons_of_mem _ h)⟩, by decide, by decide⟩
  rw [sseFrameBoundary, hnewline, hcrlf]
  cases position [cr, lf, cr, lf] rest with
  | none => rfl
  | some place =>
      simp only [Option.map_some]
      rw [if_pos]
      simp only [List.length_append]
      omega

theorem withoutCr_of_oneLine {line : List Char} (h : ∀ c ∈ line, c ≠ '\r' ∧ c ≠ '\n') :
    withoutCr line = line := by
  rw [withoutCr, if_neg]
  intro hlast
  exact (h _ (List.mem_of_getLast? hlast)).1 rfl

theorem trimWhiteSpace_space (text : List Char) : trimWhiteSpace (' ' :: text) = trimWhiteSpace text := by
  rw [trimWhiteSpace, List.dropWhile_cons_of_pos rfl, trimWhiteSpace]

/-- What a written frame reads as. -/
theorem frameFields_written {type data : String} (htype : OneLine type) (hdata : OneLine data) :
    frameFields ("event: " ++ type ++ "\ndata: " ++ data) =
      ⟨some (trim type), some (trim data)⟩ := by
  have hline (mark : List Char) (hmark : ∀ c ∈ mark, c ≠ '\r' ∧ c ≠ '\n') {text : String}
      (h : OneLine text) : ∀ c ∈ mark ++ ' ' :: text.toList, c ≠ '\r' ∧ c ≠ '\n' := by
    intro c hc
    rcases List.mem_append.mp hc with hc | hc
    · exact hmark c hc
    · rcases List.mem_cons.mp hc with rfl | hc
      · decide
      · exact h c hc
  have hevent := hline eventMark (by simp [eventMark]) htype
  have hvalue := hline dataMark (by simp [dataMark]) hdata
  have hsplit : ("event: " ++ type ++ "\ndata: " ++ data).toList =
      (eventMark ++ ' ' :: type.toList) ++ '\n' :: (dataMark ++ ' ' :: data.toList) := by
    simp [eventMark, dataMark]
  have hlines : textLines ("event: " ++ type ++ "\ndata: " ++ data).toList =
      [eventMark ++ ' ' :: type.toList, dataMark ++ ' ' :: data.toList] := by
    rw [textLines, hsplit, List.splitOn_append_cons_self_of_not_mem fun h => (hevent _ h).2 rfl,
      List.splitOn_eq_singleton fun h => (hvalue _ h).2 rfl]
    simp [withoutCr_of_oneLine hevent, dataMark]
  have hfirst (value : List Char) : FrameFields.line ⟨none, none⟩ (eventMark ++ value) =
      ⟨some (String.ofList (trimWhiteSpace value)), none⟩ := by
    rw [FrameFields.line, List.dropPrefix?_append_of_beq _ (beq_self_eq_true _)]
  have hsecond (fields : FrameFields) (value : List Char) :
      fields.line (dataMark ++ value) =
        ⟨fields.event, some (String.ofList (trimWhiteSpace value))⟩ := by
    have hother : (dataMark ++ value).dropPrefix? eventMark = none := by
      simp [dataMark, eventMark, List.dropPrefix?]
    rw [FrameFields.line, hother, List.dropPrefix?_append_of_beq _ (beq_self_eq_true _)]
  rw [frameFields, hlines, List.foldl_cons, List.foldl_cons, List.foldl_nil, hfirst, hsecond,
    trimWhiteSpace_space, trimWhiteSpace_space]
  rfl

/-! ## All frames -/

/-- A frame with both fields: its payload, and what a component reads in it. -/
structure MessageFrame where
  payload : List UInt8
  event : String
  data : String

/-- The fields of the payload are the event and the data. -/
def MessageFrame.IsRead (frame : MessageFrame) : Prop :=
  ∃ text, fromUtf8 frame.payload = some text ∧
    frameFields text = ⟨some frame.event, some frame.data⟩

/-- A frame has what the frame of its message has to say, the name without white space
at its ends. -/
def ReadsAs (serde : SerdeJson) (m : EventStreamMessageV1) (frame : MessageFrame) : Prop :=
  frame.IsRead ∧
    ∃ said, Says serde m said ∧ frame.event = trim said.event ∧ frame.data = said.data

/-- A payload as the re-encoding writes it. -/
def Written (payload : List UInt8) : Prop :=
  ∃ front back, payload = front ++ lf :: back ∧ Unbroken front ∧ Unbroken back ∧ back ≠ []

/-- A re-encoded frame is a written payload and a blank line, and reads as its message. -/
theorem written_of_reencode {serde : SerdeJson} (hserde : serde.Grammatical)
    {m : EventStreamMessageV1} {text : String} (h : reencodeEventstreamV1 serde m = .ok text) :
    ∃ frame : MessageFrame, bytes text = frame.payload ++ [lf, lf] ∧ Written frame.payload ∧
      ReadsAs serde m frame := by
  obtain ⟨header, name, start, data, hname, rfl, hsays, hcases⟩ := reencode_cases h
  obtain ⟨-, hne, hline⟩ := eventName_eq_ok.mp hname
  have hparts : OneLine start ∧ OneLine data ∧ trimWhiteSpace data.toList = data.toList := by
    rcases hcases with ⟨-, hstart, hdata⟩ | ⟨rfl, detail, -, rfl⟩
    · exact ⟨hstart, (compactJson_ok hdata).1, trim_compactJson hserde hdata⟩
    · refine ⟨oneLine_of_all (by decide), ?_, ?_⟩
      · have hopen : OneLine "\x7b\"message\":" ∧ OneLine "\x7d" :=
          ⟨oneLine_of_all (by decide), oneLine_of_all (by decide)⟩
        exact (hopen.1.append (oneLine_of_printable (serde.writeString_control detail))).append
          hopen.2
      · refine trimWhiteSpace_eq_self (fun c hc => ?_) fun c hc => ?_
        · have hfirst : some '\x7b' = some c := by simpa [errorData] using hc
          cases hfirst
          rfl
        · have hsplit : (errorData serde detail).toList =
              ("\x7b\"message\":" ++ serde.writeString detail).toList ++ ['\x7d'] := by
            simp [errorData]
          rw [hsplit, List.getLast?_concat, Option.some.injEq] at hc
          rw [← hc]
          rfl
  obtain ⟨hstart, hdata, htrim⟩ := hparts
  have htype : OneLine (start ++ name) := hstart.append hline
  have hbytes : bytes ("event: " ++ (start ++ name) ++ "\ndata: " ++ data) =
      bytes ("event: " ++ (start ++ name)) ++ lf :: bytes ("data: " ++ data) := by
    have hsplit : "event: " ++ (start ++ name) ++ "\ndata: " ++ data =
        ("event: " ++ (start ++ name)) ++ ("\n" ++ ("data: " ++ data)) := by
      apply String.toList_injective
      simp
    rw [hsplit, bytes_append, bytes_append "\n"]
    rfl
  refine ⟨⟨bytes ("event: " ++ (start ++ name) ++ "\ndata: " ++ data), trim (start ++ name), data⟩,
    ?_, ⟨_, _, hbytes, ?_, ?_, ?_⟩, ⟨_, fromUtf8_bytes _, ?_⟩,
    ⟨⟨start ++ name, data⟩, hsays, rfl, rfl⟩⟩
  · rw [bytes_append]
    rfl
  · exact ((oneLine_of_all (by decide) : OneLine "event: ").append htype).unbroken
  · exact ((oneLine_of_all (by decide) : OneLine "data: ").append hdata).unbroken
  · rw [bytes_append]
    exact List.append_ne_nil_of_left_ne_nil (by decide) _
  · rw [frameFields_written htype hdata, trim, trim, htrim, String.ofList_toList]

/-- A run that cut one frame for each of some payloads, or fewer where it stopped. -/
structure OneEach {σ : Type} (payloads : List (List UInt8))
    (t : Trace FrameCut ErrorEnvelope (σ × List UInt8)) : Prop where
  among : t.items.map FrameCut.payload <+: payloads
  all : ∀ next, t.result = .ok next → t.items.map FrameCut.payload = payloads ∧ next.2 = []

section Parser

variable {σ : Type} (fromStr : String → Option Value) (parser : StreamParser σ)

/-- What a parser makes of an event and its data. -/
def onFields (s : σ) (event data : String) : Except ErrorEnvelope (List StreamEvent × σ) :=
  if parser.isClosed s then .ok ([], s)
  else
    match fromStr data with
    | none => .error (protocolError "the upstream sent a stream frame with invalid JSON")
    | some parsed => parser.eventsOf s event parsed

/-- The frames of some messages handled in order up to the first that is refused, with
nothing left over. -/
def oneByOne (s : σ) : List MessageFrame → Trace FrameCut ErrorEnvelope (σ × List UInt8)
  | [] => .pure (s, [])
  | frame :: frames =>
      match onFields fromStr parser s frame.event frame.data with
      | .error error => .fail error
      | .ok (events, next) =>
          (Trace.emit [⟨frame.payload, events⟩] next).bind fun next => oneByOne next frames

/-- A frame with both fields is handled by what they say. -/
theorem handleFrame_of_isRead {frame : MessageFrame} (h : frame.IsRead) (s : σ) :
    handleFrame fromStr parser s frame.payload =
      onFields fromStr parser s frame.event frame.data := by
  obtain ⟨text, htext, hfields⟩ := h
  rw [handleFrame, onFields, htext]
  dsimp only
  rewrite [hfields]
  rfl

/-- Handling frames one by one cuts one for each. -/
theorem oneByOne_oneEach (s : σ) (frames : List MessageFrame) :
    OneEach (frames.map MessageFrame.payload) (oneByOne fromStr parser s frames) := by
  induction frames generalizing s with
  | nil =>
      refine ⟨List.prefix_rfl, fun next hnext => ?_⟩
      cases hnext
      exact ⟨rfl, rfl⟩
  | cons frame frames ih =>
      rw [oneByOne]
      cases onFields fromStr parser s frame.event frame.data with
      | error e => exact ⟨List.nil_prefix, fun next hnext => by cases hnext⟩
      | ok found =>
          obtain ⟨hamong, hall⟩ := ih found.2
          refine ⟨by simpa using hamong, fun next hnext => ?_⟩
          obtain ⟨hitems, htail⟩ := hall next hnext
          exact ⟨by simpa using hitems, htail⟩

theorem componentReading_nil (s : σ) : componentReading fromStr parser s [] = .more := rfl

/-- Written frames are cut and handled one by one. -/
theorem drain_written {frames : List MessageFrame}
    (h : ∀ frame ∈ frames, Written frame.payload ∧ frame.IsRead) (s : σ) :
    (componentReader fromStr parser).drain s (frames.flatMap fun frame => frame.payload ++ [lf, lf]) =
      oneByOne fromStr parser s frames := by
  induction frames generalizing s with
  | nil => rw [List.flatMap_nil, Reader.drain_more _ (componentReading_nil fromStr parser s), oneByOne]
  | cons frame frames ih =>
      obtain ⟨hwritten, hread⟩ := h frame List.mem_cons_self
      have hlater := ih fun f hf => h f (List.mem_cons_of_mem _ hf)
      rw [List.flatMap_cons]
      generalize (frames.flatMap fun frame => frame.payload ++ [lf, lf]) = rest at hlater ⊢
      have hboundary : sseFrameBoundary (frame.payload ++ [lf, lf] ++ rest) =
          some (frame.payload.length, frame.payload.length + 2) := by
        obtain ⟨front, back, hsplit, hfront, hback, hne⟩ := hwritten
        rw [hsplit]
        exact sseFrameBoundary_written hfront hback hne rest
      have htake : (frame.payload ++ [lf, lf] ++ rest).take frame.payload.length = frame.payload := by
        rw [List.append_assoc, List.take_left]
      have hdrop : (frame.payload ++ [lf, lf] ++ rest).drop (frame.payload.length + 2) = rest := by
        rw [show frame.payload.length + 2 = (frame.payload ++ [lf, lf]).length by
          rw [List.length_append, List.length_cons, List.length_singleton], List.drop_left]
      have hframe := handleFrame_of_isRead fromStr parser hread s
      rw [oneByOne]
      cases hhandled : onFields fromStr parser s frame.event frame.data with
      | error e =>
          rw [hhandled] at hframe
          have hstop : componentReading fromStr parser s (frame.payload ++ [lf, lf] ++ rest) =
              .fail e := by
            rw [componentReading, hboundary]
            dsimp only
            rw [htake, hframe]
          exact Reader.drain_fail _ hstop
      | ok found =>
          rw [hhandled] at hframe
          have hstep : componentReading fromStr parser s (frame.payload ++ [lf, lf] ++ rest) =
              .step found.2 (frame.payload.length + 2) [⟨frame.payload, found.1⟩] := by
            rw [componentReading, hboundary]
            dsimp only
            rw [htake, hframe]
          rw [Reader.drain_step _ hstep, hdrop]
          dsimp only
          rw [Trace.emit_bind, Trace.emit_bind, hlater found.2]

/-- However their bytes arrive, re-encoded messages are cut one frame each, and handled in
order by what they say; on any bytes the frames and the first error are those of the whole
body. -/
theorem components_read_reencoded (serde : SerdeJson) (hserde : serde.Grammatical)
    (fromStr : String → Option Value) (parser : StreamParser σ) (s : σ)
    (chunks : List (List UInt8)) (hchunks : ∀ chunk ∈ chunks, chunk ≠ []) :
    (∀ messages texts, List.Forall₂ (fun m text => reencodeEventstreamV1 serde m = .ok text)
        messages texts → chunks.flatten = texts.flatMap bytes →
      ∃ frames, List.Forall₂ (ReadsAs serde) messages frames ∧
        (componentReader fromStr parser).feed s [] chunks = oneByOne fromStr parser s frames ∧
        OneEach (frames.map MessageFrame.payload)
          ((componentReader fromStr parser).feed s [] chunks)) ∧
    (componentReader fromStr parser).feed s [] chunks =
      (componentReader fromStr parser).drain s chunks.flatten ∧
    parseChunks fromStr parser (s, []) chunks =
      ((componentReader fromStr parser).feed s [] chunks).result.map fun next =>
        (((componentReader fromStr parser).feed s [] chunks).items.flatMap (·.events), next) := by
  have hfeed : (componentReader fromStr parser).feed s [] chunks =
      (componentReader fromStr parser).drain s chunks.flatten := by
    rw [Reader.feed_eq_drain _ s [] (componentReading_nil fromStr parser s), List.nil_append]
  refine ⟨?_, hfeed, parseChunks_eq fromStr parser hchunks (s, [])⟩
  intro messages texts htexts hflat
  have hframes : ∃ frames : List MessageFrame, List.Forall₂ (ReadsAs serde) messages frames ∧
      (∀ frame ∈ frames, Written frame.payload ∧ frame.IsRead) ∧
      texts.flatMap bytes = frames.flatMap fun frame => frame.payload ++ [lf, lf] := by
    clear hflat
    induction htexts with
    | nil => exact ⟨[], .nil, fun _ h => (List.not_mem_nil h).elim, rfl⟩
    | cons hfirst _ ih =>
        obtain ⟨frames, hreads, hwritten, hbytes⟩ := ih
        obtain ⟨frame, htext, hframe, hread⟩ := written_of_reencode hserde hfirst
        exact ⟨frame :: frames, .cons hread hreads,
          List.forall_mem_cons.mpr ⟨⟨hframe, hread.1⟩, hwritten⟩,
          by rw [List.flatMap_cons, List.flatMap_cons, htext, hbytes]⟩
  obtain ⟨frames, hreads, hwritten, hbytes⟩ := hframes
  have hrun : (componentReader fromStr parser).feed s [] chunks =
      oneByOne fromStr parser s frames := by
    rw [hfeed, hflat, hbytes]
    exact drain_written fromStr parser hwritten s
  refine ⟨frames, hreads, hrun, ?_⟩
  rw [hrun]
  exact oneByOne_oneEach fromStr parser s frames

end Parser

/-- A library that accepts one text. -/
def spacedText : String := "\x7b \"n\" : [1, \" \"] \x7d"

def spacedSerde : SerdeJson := { textualSerde with accepts := fun text => text == spacedText }

theorem spacedSerde_grammatical : spacedSerde.Grammatical := by
  have htext {text : String} (h : spacedSerde.accepts text = true) :
      text.toList = '\x7b' :: (spacedText.toList.drop 1).dropLast ++ ['\x7d'] := by
    rw [beq_iff_eq.mp h]
    decide
  refine ⟨fun text h => ?_, ?_⟩
  · rw [beq_iff_eq.mp h]
    decide
  · intro text h front c back hsplit hkept hedge
    rw [htext h] at hsplit
    rcases hedge with hfront | hback
    · cases front with
      | nil =>
          cases (List.cons.inj hsplit).1
          rfl
      | cons d front =>
          cases (List.cons.inj hsplit).1
          cases (Bool.and_eq_true_iff.mp hfront).1
    · rcases List.eq_nil_or_concat back with rfl | ⟨back, d, rfl⟩
      · have hlast := congrArg List.getLast? hsplit
        rw [List.getLast?_concat, List.getLast?_concat, Option.some.injEq] at hlast
        rw [← hlast]
        rfl
      · rw [List.concat_eq_append] at hsplit hback
        have hlast := congrArg List.getLast? hsplit
        rw [List.getLast?_concat, ← List.cons_append, ← List.append_assoc, List.getLast?_concat,
          Option.some.injEq] at hlast
        rw [List.all_append, ← hlast] at hback
        cases (Bool.and_eq_true_iff.mp hback).2

/-- A parser that says the name of an event and how often it was called, and refuses
data that is no object. -/
def namingParser : StreamParser Nat :=
  converseSseParser fun s event data =>
    match data with
    | .object _ => .ok ([.delta s event], s + 1)
    | _ => .error (protocolError "the upstream sent a stream event that is no object")

/-- A reader of the compact payload. -/
def readCompact (text : String) : Option Value :=
  if text = "\x7b\"n\":[1,\" \"]\x7d" then
    some (.object [("n", .array [.nat 1, .string " "])])
  else none

theorem chunkMessage_read :
    (∃ frames, List.Forall₂ (ReadsAs spacedSerde) [chunkMessage] frames ∧
      (componentReader readCompact namingParser).feed 0 []
          [bytes "event: a: b\ndata: \x7b\"n\":[1,\" \"]\x7d\n", bytes "\n"] =
        oneByOne readCompact namingParser 0 frames ∧
      OneEach (frames.map MessageFrame.payload)
        ((componentReader readCompact namingParser).feed 0 []
          [bytes "event: a: b\ndata: \x7b\"n\":[1,\" \"]\x7d\n", bytes "\n"])) ∧
    oneByOne readCompact namingParser 0
        [⟨bytes "event: a: b\ndata: \x7b\"n\":[1,\" \"]\x7d", "a: b",
          "\x7b\"n\":[1,\" \"]\x7d"⟩] =
      ⟨[⟨bytes "event: a: b\ndata: \x7b\"n\":[1,\" \"]\x7d", [.delta 0 "a: b"]⟩],
        .ok (1, [])⟩ := by
  have htext : reencodeEventstreamV1 spacedSerde chunkMessage =
      .ok "event: a: b\ndata: \x7b\"n\":[1,\" \"]\x7d\n\n" := by
    decide +kernel
  refine ⟨?_, rfl⟩
  exact (components_read_reencoded spacedSerde spacedSerde_grammatical readCompact namingParser 0
    [bytes "event: a: b\ndata: \x7b\"n\":[1,\" \"]\x7d\n", bytes "\n"]
    (by decide)).1 [chunkMessage] _ (.cons htext .nil) (by decide +kernel)

end TokenStation.Eventstream
