import TokenStation.Eventstream.Encoding
import TokenStation.Library.JsonText
import TokenStation.Sse.FrameCuts

/-!
# The canonical SSE frame of a message

A deframed message is handed on as one frame of the event-stream grammar. Only
two facts about JSON enter: which texts are values, and how a string is
written. The header and frame limits leave room for the field names and for
the growth of an escaped string, so the grammar's own limits are never met.
-/

namespace TokenStation.Eventstream

open Library Library.Checked Library.Text Library.ChunkedReading Sse

/-- What the re-encoding uses of the JSON library: whether a text is one JSON
value, and the text of a string, which escapes control characters and takes at
most six bytes for each byte and two quotes. -/
structure SerdeJson where
  accepts : String → Bool
  writeString : String → String
  writeString_control : ∀ s, ∀ c ∈ (writeString s).toList, ' ' ≤ c
  writeString_size : ∀ s, (writeString s).utf8ByteSize ≤ 6 * s.utf8ByteSize + 2

def messageType : String := ":message-type"

def eventType : String := ":event-type"

def exceptionType : String := ":exception-type"

def errorCode : String := ":error-code"

def errorMessage : String := ":error-message"

namespace EventStreamMessageV1

def requiredString (m : EventStreamMessageV1) (header : String) :
    Except EventStreamErrorV1 String :=
  match m.headers.get header with
  | some (.string value) => .ok value
  | some _ => .error (.headerNotString header)
  | none => .error (.missingHeader header)

/-- A header value for the `event` line: not empty and on one line. -/
def eventName (m : EventStreamMessageV1) (header : String) : Except EventStreamErrorV1 String := do
  let value ← m.requiredString header
  if value = "" ∨ '\r' ∈ value.toList ∨ '\n' ∈ value.toList then .error (.invalidEventName header)
  else .ok value

end EventStreamMessageV1

/-- Drop the whitespace between tokens, given whether a string is open and
whether its last character was an escaping backslash. -/
def compactChars (inString escaped : Bool) : List Char → Except EventStreamErrorV1 (List Char)
  | [] => .ok []
  | ch :: rest =>
      if inString then
        if ch < ' ' then .error .payloadNotJson
        else
          let escaping := !escaped && ch == '\\'
          let closed := !escaped && ch == '"'
          (compactChars (!closed) escaping rest).map (ch :: ·)
      else if ch = ' ' ∨ ch = '\t' ∨ ch = '\n' ∨ ch = '\r' then compactChars false escaped rest
      else (compactChars (ch == '"') escaped rest).map (ch :: ·)

section

variable (serde : SerdeJson)

/-- The payload as one UTF-8 JSON value without whitespace between its tokens. -/
def compactJson (payload : List UInt8) : Except EventStreamErrorV1 String :=
  match fromUtf8 payload with
  | none => .error .payloadNotUtf8
  | some text =>
      if serde.accepts text then (compactChars false false text.toList).map String.ofList
      else .error .payloadNotJson

/-- Re-encode one message as one canonical SSE frame. -/
def reencodeEventstreamV1 (m : EventStreamMessageV1) : Except EventStreamErrorV1 String := do
  let type ← m.requiredString messageType
  if type = "event" then
    let name ← m.eventName eventType
    let data ← compactJson serde m.payload
    .ok ("event: " ++ name ++ "\ndata: " ++ data ++ "\n\n")
  else if type = "exception" then
    let name ← m.eventName exceptionType
    let data ← compactJson serde m.payload
    .ok ("event: exception:" ++ name ++ "\ndata: " ++ data ++ "\n\n")
  else if type = "error" then
    let code ← m.eventName errorCode
    let detail ← m.requiredString errorMessage
    .ok ("event: error:" ++ code ++ "\ndata: \x7b\"message\":" ++ serde.writeString detail ++
      "\x7d\n\n")
  else .error .unknownMessageType

end

/-! ## Texts on one line -/

/-- Compacting leaves one line, no longer than its input. -/
theorem compactChars_ok {inString escaped : Bool} {cs out : List Char}
    (h : compactChars inString escaped cs = .ok out) :
    OneLine (String.ofList out) ∧
      (String.ofList out).utf8ByteSize ≤ (String.ofList cs).utf8ByteSize := by
  have hcons : ∀ (ch : Char) (cs : List Char),
      (String.ofList (ch :: cs)).utf8ByteSize = ch.utf8Size + (String.ofList cs).utf8ByteSize := by
    intro ch cs
    rw [← length_bytes, ← length_bytes, bytes_ofList, bytes_ofList, List.flatMap_cons,
      List.length_append, String.length_utf8EncodeChar]
  have hkeep : ∀ {ch : Char} {cs : List Char} {r : Except EventStreamErrorV1 (List Char)}
      {out : List Char}, r.map (ch :: ·) = .ok out → ch ≠ '\r' ∧ ch ≠ '\n' →
      (∀ rest, r = .ok rest → OneLine (String.ofList rest) ∧
        (String.ofList rest).utf8ByteSize ≤ (String.ofList cs).utf8ByteSize) →
      OneLine (String.ofList out) ∧
        (String.ofList out).utf8ByteSize ≤ (String.ofList (ch :: cs)).utf8ByteSize := by
    intro ch cs r out hr hch hrest
    cases r with
    | error e => cases hr
    | ok rest =>
        cases hr
        obtain ⟨hline, hsize⟩ := hrest rest rfl
        constructor
        · intro c hc
          rw [String.toList_ofList, List.mem_cons] at hc
          rcases hc with rfl | hc
          · exact hch
          · exact hline c (by simpa using hc)
        · rw [hcons, hcons]
          omega
  induction cs generalizing inString escaped out with
  | nil =>
      cases h
      exact ⟨by simp [OneLine], Nat.le_refl _⟩
  | cons ch cs ih =>
      rw [compactChars] at h
      split at h
      · split at h
        · cases h
        · rename_i hprint
          refine hkeep h ?_ (fun rest hrest => ih hrest)
          constructor <;> rintro rfl <;> exact hprint (by decide)
      · split at h
        · obtain ⟨hline, hsize⟩ := ih h
          refine ⟨hline, ?_⟩
          rw [hcons]
          omega
        · rename_i hspace
          refine hkeep h ?_ (fun rest hrest => ih hrest)
          constructor <;> rintro rfl <;> simp at hspace

theorem compactJson_ok {serde : SerdeJson} {payload : List UInt8} {data : String}
    (h : compactJson serde payload = .ok data) :
    OneLine data ∧ data.utf8ByteSize ≤ payload.length := by
  unfold compactJson at h
  cases htext : fromUtf8 payload with
  | none => simp [htext] at h
  | some text =>
      simp only [htext] at h
      split at h
      · cases hcompact : compactChars false false text.toList with
        | error e => simp [hcompact, Except.map] at h
        | ok out =>
            simp only [hcompact, Except.map, Except.ok.injEq] at h
            subst h
            obtain ⟨hline, hsize⟩ := compactChars_ok hcompact
            rw [String.ofList_toList, utf8ByteSize_of_fromUtf8 htext] at hsize
            exact ⟨hline, hsize⟩
      · cases h

/-! ## One frame is one event -/

/-- A line of one field, as the re-encoding writes it. -/
theorem ofText_field (name : String) (hname : ':' ∉ name.toList) (hne : name ≠ "")
    (value : String) :
    EventBuilder.fieldOf (name ++ ": " ++ value) = (name, value) ∧
      name ++ ": " ++ value ≠ "" ∧ startsWith (name ++ ": " ++ value) ':' = false := by
  have hsplit : ∀ cs : List Char, ':' ∉ cs → ∀ rest,
      splitOnceList ':' (cs ++ ':' :: rest) = some (cs, rest) := by
    intro cs hcs rest
    induction cs with
    | nil => simp [splitOnceList]
    | cons c cs ih =>
        rw [List.mem_cons, not_or] at hcs
        simp [splitOnceList, Ne.symm hcs.1, ih hcs.2]
  have htext : (name ++ ": " ++ value).toList = name.toList ++ ':' :: ' ' :: value.toList := by
    simp
  have honce : splitOnce (name ++ ": " ++ value) ':' =
      some (name, String.ofList (' ' :: value.toList)) := by
    rw [splitOnce, htext, hsplit _ hname]
    simp
  refine ⟨?_, ?_, ?_⟩
  · rw [EventBuilder.fieldOf, honce]
    simp [stripPrefix]
  · intro hempty
    have := congrArg String.utf8ByteSize hempty
    simp at this
  · cases hcs : name.toList with
    | nil => exact absurd (String.toList_eq_nil_iff.mp hcs) hne
    | cons c cs =>
        rw [hcs, List.mem_cons, not_or] at hname
        simp [startsWith, hcs, Ne.symm hname.1]

theorem ofBytes_event (value : String) :
    Field.ofBytes (bytes ("event: " ++ value)) = .event value := by
  obtain ⟨hfield, hne, hstart⟩ := ofText_field "event" (by decide) (by decide) value
  rw [Field.ofBytes, fromUtf8_bytes]
  change Field.ofText ("event" ++ ": " ++ value) = _
  rw [Field.ofText, if_neg hne, if_neg (by rw [hstart]; decide), hfield]
  rfl

theorem ofBytes_data (value : String) :
    Field.ofBytes (bytes ("data: " ++ value)) = .data value := by
  obtain ⟨hfield, hne, hstart⟩ := ofText_field "data" (by decide) (by decide) value
  rw [Field.ofBytes, fromUtf8_bytes]
  change Field.ofText ("data" ++ ": " ++ value) = _
  rw [Field.ofText, if_neg hne, if_neg (by rw [hstart]; decide), hfield]
  rfl

/-- A written frame decodes to its one event when both fit the limits. -/
theorem decode_written {type data : String} (htype : OneLine type) (hne : type ≠ "")
    (hdata : OneLine data) (hline : type.utf8ByteSize + 7 ≤ maxSseLineBytes)
    (hsize : type.utf8ByteSize + data.utf8ByteSize + 6 ≤ maxSseEventBytes) :
    decodeSseV1 (bytes ("event: " ++ type ++ "\ndata: " ++ data ++ "\n\n")) =
      .ok [⟨type, data⟩] := by
  have hmax : maxSseLineBytes = maxSseEventBytes := rfl
  have hlf : ∀ s : String, bytes (s ++ "\n") = bytes s ++ [lf] := fun s => by
    rw [bytes_append]
    rfl
  have hbytes : bytes ("event: " ++ type ++ "\ndata: " ++ data ++ "\n\n") =
      bytesOf [⟨bytes ("event: " ++ type), [lf]⟩, ⟨bytes ("data: " ++ data), [lf]⟩, ⟨[], [lf]⟩] := by
    have hsplit : "event: " ++ type ++ "\ndata: " ++ data ++ "\n\n" =
        ("event: " ++ type ++ "\n") ++ (("data: " ++ data ++ "\n") ++ ("" ++ "\n")) := by
      apply String.toList_injective
      simp
    rw [hsplit, bytes_append _ ("data: " ++ data ++ "\n" ++ ("" ++ "\n")), hlf,
      bytes_append ("data: " ++ data ++ "\n"), hlf, hlf]
    simp [show bytes "" = [] from rfl]
  have hdelimited : Delimited [⟨bytes ("event: " ++ type), [lf]⟩, ⟨bytes ("data: " ++ data), [lf]⟩,
      ⟨[], [lf]⟩] := by
    have hword : OneLine "event: " ∧ OneLine "data: " :=
      ⟨oneLine_of_all (by decide), oneLine_of_all (by decide)⟩
    exact ⟨(hword.1.append htype).unbroken, .inl rfl, (hword.2.append hdata).unbroken, .inl rfl,
      by simp [Unbroken], .inl (.inl rfl)⟩
  have hsize1 : (bytes ("event: " ++ type)).length = 7 + type.utf8ByteSize := by
    rw [length_bytes, String.utf8ByteSize_append, show "event: ".utf8ByteSize = 7 by decide]
  have hsize2 : (bytes ("data: " ++ data)).length = 6 + data.utf8ByteSize := by
    rw [length_bytes, String.utf8ByteSize_append, show "data: ".utf8ByteSize = 6 by decide]
  have hfirst : EventBuilder.new.line (bytes ("event: " ++ type)) = (.ok none, mid type "") := by
    have hplain : EventBuilder.new.unmarked (bytes ("event: " ++ type)) =
        bytes ("event: " ++ type) := by
      rw [bytes_append]
      rfl
    rw [EventBuilder.line_eq_apply, if_neg (by omega), hplain, ofBytes_event, EventBuilder.apply,
      if_neg]
    · rfl
    · simp only [EventBuilder.new, String.utf8ByteSize_empty]
      omega
  have hsecond : (mid type "").line (bytes ("data: " ++ data)) =
      (.ok none, mid type (data ++ "\n")) := by
    rw [line_mid _ _ (by omega), ofBytes_data, EventBuilder.apply, if_neg]
    · simp [mid]
    · simp only [mid, String.utf8ByteSize_empty]
      omega
  have hthird : (mid type (data ++ "\n")).line [] = (.ok (some ⟨type, data⟩), .idle) := by
    have hpending : (mid type (data ++ "\n")).data ≠ "" := by
      intro hempty
      have := congrArg String.utf8ByteSize hempty
      simp [mid] at this
    have hpop : pop (data ++ "\n") = data := pop_push data '\n'
    rw [line_mid _ _ (Nat.zero_le _), Field.ofBytes_nil, EventBuilder.apply,
      EventBuilder.dispatch_of_data hpending]
    simp [mid, hne, hpop, EventBuilder.idle]
  rw [decodeSseV1_eq, bounded_eq_singleton, SseDecoderV1.run_eq_runAll, List.flatten_singleton,
    hbytes, lines_bytesOf hdelimited, runAll_mapItems]
  simp only [List.map_cons, List.map_nil]
  rw [interpret_ok hfirst, interpret_ok hsecond, interpret_ok hthird]
  rfl

/-! ## Room in a deframed message -/

/-- Every returned message was decoded from some frame. -/
theorem decoded_of_mem_drain {m : EventStreamMessageV1} {xs : List UInt8}
    (h : m ∈ (frameReader.drain () xs).items) : ∃ ys n, decodeFrame ys = .ok (some (m, n)) := by
  cases hread : frameReader.read () xs with
  | more => simp [frameReader.drain_more hread, Trace.pure] at h
  | fail e => simp [frameReader.drain_fail hread, Trace.fail] at h
  | step s' n out =>
      have hused := frameReader.used_pos hread
      rw [frameReader.drain_step hread, Trace.emit_bind, List.mem_append] at h
      rcases h with h | h
      · change frameReading () xs = _ at hread
        unfold frameReading at hread
        split at hread
        · cases hread
        · rename_i m' n' hframe
          cases hread
          rw [List.mem_singleton] at h
          exact ⟨xs, n, by rw [hframe, h]⟩
        · cases hread
      · exact decoded_of_mem_drain h
termination_by xs.length
decreasing_by
  simp only [List.length_drop]
  omega

theorem decoded_of_mem_run {m : EventStreamMessageV1} {chunks : List (List UInt8)}
    (h : m ∈ (AwsEventStreamDeframerV1.new.run chunks).items) :
    ∃ ys n, decodeFrame ys = .ok (some (m, n)) := by
  rw [run_new] at h
  refine decoded_of_mem_drain (?_ : m ∈ (frameReader.drain () chunks.flatten).items)
  have hclosing : ∀ pending, (closing pending).items = [] := by
    intro pending
    unfold closing
    split <;> rfl
  rcases hdrain : frameReader.drain () chunks.flatten with ⟨items, e | p⟩
  · simpa [hdrain, Trace.bind] using h
  · simpa [hdrain, Trace.bind, hclosing] using h

/-- A string header and the payload share the frame with the fixed fields. -/
theorem room_of_decoded {ys : List UInt8} {n : Nat} {m : EventStreamMessageV1}
    (h : decodeFrame ys = .ok (some (m, n))) {key value : String}
    (hget : m.headers.get key = some (.string value)) :
    value.utf8ByteSize ≤ 65535 ∧
      20 + key.utf8ByteSize + value.utf8ByteSize + m.payload.length ≤ maxSseEventBytes := by
  obtain ⟨headers, rest, hwf, ⟨-, hframe⟩, hheaders, -, -⟩ := decodeFrame_of_ok h
  have hmem : (key, EventStreamHeaderValueV1.string value) ∈ headers := by
    have hentry := mem_of_lookup hget
    rw [hheaders] at hentry
    exact (ofList_perm hwf).mem_iff.mp hentry
  have hvalue : value.utf8ByteSize ≤ 65535 := (hwf.each _ hmem).value
  have hinfix : encodeHeader (key, .string value) <:+: encodeHeaders headers := by
    rw [encodeHeaders, List.flatMap_def]
    exact List.infix_of_mem_flatten (List.mem_map_of_mem hmem)
  have hle := hinfix.length_le
  rw [length_encodeHeader] at hle
  simp only [EventStreamHeaderValueV1.encode, List.length_cons, List.length_append,
    BigEndian.length_toBytes, length_bytes] at hle
  rw [length_encodeFrame] at hframe
  have hmin : minEventstreamFrameBytes = 16 := rfl
  have hmax : maxEventstreamFrameBytes = maxSseEventBytes := rfl
  omega

theorem requiredString_eq_ok {m : EventStreamMessageV1} {header value : String} :
    m.requiredString header = .ok value ↔ m.headers.get header = some (.string value) := by
  unfold EventStreamMessageV1.requiredString
  split <;> simp_all

theorem eventName_eq_ok {m : EventStreamMessageV1} {header value : String} :
    m.eventName header = .ok value ↔
      m.requiredString header = .ok value ∧ value ≠ "" ∧ OneLine value := by
  change (m.requiredString header >>= _) = _ ↔ _
  rw [bind_eq_ok]
  constructor
  · rintro ⟨v, hv, hbody⟩
    split at hbody
    · cases hbody
    · rename_i hvalid
      cases hbody
      rw [not_or, not_or] at hvalid
      refine ⟨hv, hvalid.1, ?_⟩
      intro c hc
      exact ⟨fun h => hvalid.2.1 (h ▸ hc), fun h => hvalid.2.2 (h ▸ hc)⟩
  · rintro ⟨hv, hne, hline⟩
    refine ⟨value, hv, if_neg ?_⟩
    rw [not_or, not_or]
    exact ⟨hne, fun h => (hline _ h).1 rfl, fun h => (hline _ h).2 rfl⟩

/-- The data of an `error` frame: the message as the one member of an object. -/
def errorData (serde : SerdeJson) (detail : String) : String :=
  "\x7b\"message\":" ++ serde.writeString detail ++ "\x7d"

/-- What the frame of a message has to say. -/
inductive Says (serde : SerdeJson) (m : EventStreamMessageV1) : SseEventV1 → Prop
  | event {name data : String} (htype : m.requiredString messageType = .ok "event")
      (hname : m.requiredString eventType = .ok name)
      (hdata : compactJson serde m.payload = .ok data) : Says serde m ⟨name, data⟩
  | exception {name data : String} (htype : m.requiredString messageType = .ok "exception")
      (hname : m.requiredString exceptionType = .ok name)
      (hdata : compactJson serde m.payload = .ok data) :
      Says serde m ⟨"exception:" ++ name, data⟩
  | error {code detail : String} (htype : m.requiredString messageType = .ok "error")
      (hcode : m.requiredString errorCode = .ok code)
      (hdetail : m.requiredString errorMessage = .ok detail) :
      Says serde m ⟨"error:" ++ code, errorData serde detail⟩

/-- The three shapes a re-encoded frame can have. -/
theorem reencode_cases {serde : SerdeJson} {m : EventStreamMessageV1} {text : String}
    (h : reencodeEventstreamV1 serde m = .ok text) :
    ∃ header name start data, m.eventName header = .ok name ∧
      text = "event: " ++ (start ++ name) ++ "\ndata: " ++ data ++ "\n\n" ∧
      Says serde m ⟨start ++ name, data⟩ ∧
      ((start.utf8ByteSize ≤ header.utf8ByteSize ∧ OneLine start ∧
          compactJson serde m.payload = .ok data) ∨
        (start = "error:" ∧ ∃ detail, m.requiredString errorMessage = .ok detail ∧
          data = errorData serde detail)) := by
  obtain ⟨type, htype, h⟩ := bind_eq_ok.mp h
  split at h
  · rename_i heq
    subst heq
    obtain ⟨name, hname, h⟩ := bind_eq_ok.mp h
    obtain ⟨data, hdata, h⟩ := bind_eq_ok.mp h
    cases h
    refine ⟨eventType, name, "", data, hname, by simp, ?_, .inl ⟨by decide, ?_, hdata⟩⟩
    · rw [String.empty_append]
      exact .event htype (eventName_eq_ok.mp hname).1 hdata
    · simp [OneLine]
  · split at h
    · rename_i heq
      subst heq
      obtain ⟨name, hname, h⟩ := bind_eq_ok.mp h
      obtain ⟨data, hdata, h⟩ := bind_eq_ok.mp h
      cases h
      refine ⟨exceptionType, name, "exception:", data, hname, ?_,
        .exception htype (eventName_eq_ok.mp hname).1 hdata, .inl ⟨by decide, ?_, hdata⟩⟩
      · apply String.toList_injective
        simp
      · exact oneLine_of_all (by decide)
    · split at h
      · rename_i heq
        subst heq
        obtain ⟨code, hcode, h⟩ := bind_eq_ok.mp h
        obtain ⟨detail, hdetail, h⟩ := bind_eq_ok.mp h
        cases h
        refine ⟨errorCode, code, "error:", errorData serde detail, hcode, ?_,
          .error htype (eventName_eq_ok.mp hcode).1 hdetail, .inr ⟨rfl, detail, hdetail, rfl⟩⟩
        apply String.toList_injective
        simp [errorData]
      · cases h

/-- Whatever the deframer returns, a re-encoded frame is exactly one event of
the grammar, with the type and the data of its message. -/
theorem reencoded_frame_is_one_event (serde : SerdeJson) (chunks : List (List UInt8))
    (m : EventStreamMessageV1) (hm : m ∈ (AwsEventStreamDeframerV1.new.run chunks).items)
    (text : String) (h : reencodeEventstreamV1 serde m = .ok text) :
    ∃ event, decodeSseV1 (bytes text) = .ok [event] ∧ Says serde m event := by
  obtain ⟨ys, n, hframe⟩ := decoded_of_mem_run hm
  obtain ⟨header, name, start, data, hname, rfl, hsays, hcases⟩ := reencode_cases h
  obtain ⟨hvalue, hne, hline⟩ := eventName_eq_ok.mp hname
  obtain ⟨hshort, hroom⟩ := room_of_decoded hframe (requiredString_eq_ok.mp hvalue)
  have hmax : maxSseLineBytes = maxSseEventBytes := rfl
  have htype : start ++ name ≠ "" := by
    intro hempty
    have hsize := congrArg String.utf8ByteSize hempty
    rw [String.utf8ByteSize_append, String.utf8ByteSize_empty, Nat.add_eq_zero_iff] at hsize
    exact hne (String.utf8ByteSize_eq_zero_iff.mp hsize.2)
  refine ⟨⟨start ++ name, data⟩, ?_, hsays⟩
  rcases hcases with ⟨hstart, hstartline, hdata⟩ | ⟨rfl, detail, hdetail, rfl⟩
  · obtain ⟨hdataline, hdatasize⟩ := compactJson_ok hdata
    apply decode_written (hstartline.append hline) htype hdataline
    · rw [String.utf8ByteSize_append]
      omega
    · rw [String.utf8ByteSize_append]
      omega
  · obtain ⟨hdetailshort, -⟩ := room_of_decoded hframe (requiredString_eq_ok.mp hdetail)
    have hwritten := serde.writeString_size detail
    have hopen : ("\x7b\"message\":").utf8ByteSize = 11 := by decide
    have hclose : "\x7d".utf8ByteSize = 1 := by decide
    have herror : "error:".utf8ByteSize = 6 := by decide
    have hbound : maxSseEventBytes = 16777216 := rfl
    have hword : OneLine "error:" ∧ OneLine "\x7b\"message\":" ∧ OneLine "\x7d" :=
      ⟨oneLine_of_all (by decide), oneLine_of_all (by decide), oneLine_of_all (by decide)⟩
    have hdataline : OneLine (errorData serde detail) :=
      (hword.2.1.append (oneLine_of_printable (serde.writeString_control detail))).append hword.2.2
    apply decode_written (hword.1.append hline) htype hdataline
    · rw [String.utf8ByteSize_append]
      omega
    · simp only [errorData, String.utf8ByteSize_append]
      omega

/-- The JSON library's own reader and string writer, on texts without doubles. -/
def textualSerde : SerdeJson where
  accepts text := (Json.parse text).isSome
  writeString s := String.ofList (Json.writeString s)
  writeString_control s := by simpa using Json.writeString_printable s
  writeString_size := Json.writeString_size

/-- A message with a spaced payload, and what the deframer makes of it. -/
def chunkHeaders : List (String × EventStreamHeaderValueV1) :=
  [(":event-type", .string "a: b"), (":message-type", .string "event")]

def chunkMessage : EventStreamMessageV1 :=
  ⟨.ofList chunkHeaders, bytes "\x7b \"n\" : [1, \" \"] \x7d"⟩

theorem reencoded_frame_is_one_event_chunk :
    reencodeEventstreamV1 textualSerde chunkMessage =
        .ok "event: a: b\ndata: \x7b\"n\":[1,\" \"]\x7d\n\n" ∧
      ∃ event, decodeSseV1 (bytes "event: a: b\ndata: \x7b\"n\":[1,\" \"]\x7d\n\n") = .ok [event] ∧
        Says textualSerde chunkMessage event := by
  have hread : (AwsEventStreamDeframerV1.new.run
      [encodeFrame chunkHeaders chunkMessage.payload]).items = [chunkMessage] := by
    decide +kernel
  have htext : reencodeEventstreamV1 textualSerde chunkMessage =
      .ok "event: a: b\ndata: \x7b\"n\":[1,\" \"]\x7d\n\n" := by
    decide +kernel
  refine ⟨htext, ?_⟩
  exact reencoded_frame_is_one_event textualSerde
    [encodeFrame chunkHeaders chunkMessage.payload] chunkMessage (by simp [hread]) _ htext

end TokenStation.Eventstream
