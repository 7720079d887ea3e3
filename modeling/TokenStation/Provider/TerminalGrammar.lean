import TokenStation.Provider.DataBodies
import TokenStation.Provider.GeminiGrammar
import TokenStation.Provider.ResponsesGrammar

/-!
# Terminals of Gemini and Responses streams

Both parsers stream content up to one terminal, however the body is cut. A
Responses body ends after its terminal only, and its finish reason is that of
the terminal response, whatever calls the stream has announced.
-/

namespace TokenStation.Provider

open Library Library.ChunkedReading Library.Json Library.Text Responses Sse

/-! ## Responses runs -/

namespace ResponsesApi

variable {packages : Packages}

/-- The frames of the accepted calls of a Responses parser. -/
def acceptedFrames (packages : Packages) (chunks : List (List UInt8)) : List SseFrameV1 :=
  (responsesStreamDialect packages).accepted ParserState.start.rest
    (chunks.dropWhile List.isEmpty)

theorem items_read (packages : Packages) (chunks : List (List UInt8)) :
    ∃ t, (responsesStreamDialect packages).read .start (acceptedFrames packages chunks) =
      .ok ((Batching.calls (parseChunk packages) .start chunks).items, t) := by
  rw [calls_start]
  exact Dialect.items_silent (terminating packages).close ParserState.start.rest _

/-- The end of the body is accepted before any byte, or after a terminal. -/
theorem end_after_terminal {chunks : List (List UInt8)}
    (h : (Batching.calls (parseChunk packages) .start (chunks ++ [[]])).result = .ok ()) :
    chunks.flatten = [] ∨ ∃ content last,
      (Batching.calls (parseChunk packages) .start (chunks ++ [[]])).items = content ++ last ∧
        (∀ event ∈ content, event.isSpoken = true) ∧ Terminal last := by
  by_cases hbytes : chunks.dropWhile List.isEmpty = []
  · left
    rw [List.dropWhile_eq_nil_iff] at hbytes
    exact List.flatten_eq_nil_iff.mpr fun chunk hchunk => by simpa using hbytes chunk hchunk
  · right
    rw [calls_start, List.dropWhile_append, if_neg (by simpa using hbytes)] at h ⊢
    obtain ⟨t, hread, hclose⟩ := Dialect.close_of_end (terminating packages).close h
    have hended : t.ended = true := by
      by_contra hopen
      simp [responsesStreamDialect, hopen] at hclose
    obtain ⟨content, last, hevents, hcontent, ⟨-, hlast⟩ | ⟨hopen, -⟩⟩ :=
      (terminating packages).read_terminates (terminating packages).start hread
    · exact ⟨content, last, hevents, hcontent, hlast⟩
    · exact absurd hended hopen

/-! ### Calls and the finish reason -/

/-- A frame that carries a call item. -/
def announcesCall (packages : Packages) (sse : SseFrameV1) : Bool :=
  (packages.fromStr sse.data).any announces

/-- The last frame carries a response whose output holds a call item. -/
def endsWithCall (packages : Packages) (frames : List SseFrameV1) : Bool :=
  frames.getLast?.any fun sse =>
    (packages.fromStr sse.data).any fun frame => holdsCall ((frame.get "response").getD .null)

/-- In a stream that comes to a finish, a call fragment is sent exactly when a
frame carries a call item, and the finish reason is that of the last frame. -/
theorem finish_read {frames : List SseFrameV1} {s t : ResponsesStreamParser}
    {events : List StreamEvent}
    (h : (responsesStreamDialect packages).read s frames = .ok (events, t))
    {reason : Option FinishReason} {sequence : Option String}
    (hfinish : .finish reason sequence ∈ events) :
    (reason = some .toolCalls ↔ endsWithCall packages frames = true) ∧
      (((∃ event ∈ events, event.isCall = true) ∨ s.calls ≠ []) ↔
        (frames.any (announcesCall packages) = true ∨ s.calls ≠ [])) := by
  induction frames generalizing s events with
  | nil =>
      cases h
      cases hfinish
  | cons sse frames ih =>
      obtain ⟨now, rest, u, hnow, hrest, rfl⟩ := Dialect.read_cons_ok h
      obtain ⟨parsed, hparsed, hopen, haccepted⟩ := frame_ok hnow
      have hthis : announcesCall packages sse = announces parsed := by
        simp [announcesCall, hparsed]
      cases haccepted with
      | streamed hstreams =>
          have hfinish : .finish reason sequence ∈ rest := by
            rcases List.mem_append.mp hfinish with hmem | hmem
            · exact absurd (hstreams.spoken _ hmem) (by simp [StreamEvent.isSpoken])
            · exact hmem
          have hne : frames ≠ [] := by
            rintro rfl
            cases hrest
            cases hfinish
          obtain ⟨hreason, hcalls⟩ := ih hrest hfinish
          constructor
          · rw [hreason, endsWithCall, endsWithCall, List.getLast?_cons_of_ne_nil hne]
          · by_cases hnone : s.calls = []
            · have hopened := hstreams.opened hnone
              have hkept := hstreams.calls
              simp only [hnone, true_and] at hkept
              simp only [List.any_cons, hthis, Bool.or_eq_true, List.mem_append, or_and_right,
                exists_or, hopened, hnone, ne_eq, not_true_eq_false, or_false]
              have hu : u.calls ≠ [] ↔ announces parsed = true := by
                rw [ne_eq, hkept, Bool.not_eq_false]
              rw [hu] at hcalls
              rw [or_comm, hcalls, or_comm]
            · simp [hnone]
      | finished hended hcalls hquiet hreason =>
          obtain ⟨rfl, rfl, rfl⟩ := (terminating packages).read_ended hended hrest
          simp only [List.append_nil, List.mem_cons, StreamEvent.finish.injEq, reduceCtorEq,
            List.not_mem_nil, or_false] at hfinish
          obtain ⟨rfl, rfl⟩ := hfinish
          constructor
          · rw [Option.some.injEq, hreason]
            simp [endsWithCall, hparsed]
          · simp [hthis, hquiet, StreamEvent.isCall]
      | failed hended =>
          obtain ⟨rfl, rfl, rfl⟩ := (terminating packages).read_ended hended hrest
          simp at hfinish

end ResponsesApi

/-! ## The grammar of both streams -/

/-- Gemini and Responses streams are content up to at most one terminal, a
Responses body ends after its terminal or before any byte, and the counts of a
Gemini terminal are at least those of every earlier chunk. -/
theorem streams_grammatical (packages : Packages) (chunks : List (List UInt8)) :
    Grammatical Gemini.Terminal
        (Batching.calls (geminiSseParser packages).parseChunk (.new, .start) chunks).items ∧
      Grammatical ResponsesApi.Terminal
        (Batching.calls (ResponsesApi.parseChunk packages) .start chunks).items ∧
      ((Batching.calls (ResponsesApi.parseChunk packages) .start (chunks ++ [[]])).result =
          .ok () →
        chunks.flatten = [] ∨ ∃ content last,
          (Batching.calls (ResponsesApi.parseChunk packages) .start (chunks ++ [[]])).items =
              content ++ last ∧
            (∀ event ∈ content, event.isSpoken = true) ∧ ResponsesApi.Terminal last) ∧
      ((geminiSseParser packages).accepted (.new, .start) chunks).Pairwise fun earlier later =>
        Gemini.IsTerminal packages later →
          ∀ report, Gemini.usageReport packages earlier = some report →
            ∀ last, Gemini.usageReport packages later = some last →
              ∀ key ∈ Gemini.streamUsageCounts, countAt report key ≤ countAt last key := by
  refine ⟨(Gemini.terminating packages).items_terminate chunks, ?_,
    ResponsesApi.end_after_terminal, ?_⟩
  · rw [ResponsesApi.calls_start]
    obtain ⟨t, hread⟩ := Dialect.items_silent (ResponsesApi.terminating packages).close
      ResponsesApi.ParserState.start.rest (chunks.dropWhile List.isEmpty)
    exact ((ResponsesApi.terminating packages).read_terminates
      (ResponsesApi.terminating packages).start hread).grammatical
  · obtain ⟨t, hread⟩ :=
      Dialect.items_silent (Gemini.terminating packages).close (.new, .start) chunks
    exact Gemini.counts_rise rfl hread

/-- A failure reported before anything else is a terminal. -/
def failedBody : List UInt8 := bytes "data:\x7b\"type\":\"error\"\x7d\n\n"

theorem failed_body_terminates :
    ∃ content last,
      (Batching.calls (ResponsesApi.parseChunk .textual) .start ([failedBody] ++ [[]])).items =
          content ++ last ∧
        (∀ event ∈ content, event.isSpoken = true) ∧ ResponsesApi.Terminal last := by
  have hend : (Batching.calls (ResponsesApi.parseChunk .textual) .start
      ([failedBody] ++ [[]])).result = .ok () := by
    decide +kernel
  refine ((streams_grammatical .textual [failedBody]).2.2.1 hend).resolve_left ?_
  decide

/-! ## The finish reason of a Responses stream -/

/-- A finish reports calls exactly when the terminal response holds one, and
agrees with the streamed calls exactly when that response and the item events
agree on whether there are calls. -/
theorem finish_reason_iff (packages : Packages) (chunks : List (List UInt8))
    (reason : Option FinishReason) (sequence : Option String)
    (hfinish : .finish reason sequence ∈
      (Batching.calls (ResponsesApi.parseChunk packages) .start chunks).items) :
    (reason = some .toolCalls ↔
        ResponsesApi.endsWithCall packages (ResponsesApi.acceptedFrames packages chunks) = true) ∧
      ((reason = some .toolCalls ↔
          ∃ event ∈ (Batching.calls (ResponsesApi.parseChunk packages) .start chunks).items,
            event.isCall = true) ↔
        ResponsesApi.endsWithCall packages (ResponsesApi.acceptedFrames packages chunks) =
          (ResponsesApi.acceptedFrames packages chunks).any
            (ResponsesApi.announcesCall packages)) := by
  obtain ⟨t, hread⟩ := ResponsesApi.items_read packages chunks
  obtain ⟨hreason, hcalls⟩ := ResponsesApi.finish_read hread hfinish
  have hcalls : (∃ event ∈ (Batching.calls (ResponsesApi.parseChunk packages) .start chunks).items,
      event.isCall = true) ↔ (ResponsesApi.acceptedFrames packages chunks).any
        (ResponsesApi.announcesCall packages) = true := by
    simpa [ResponsesApi.ResponsesStreamParser.start] using hcalls
  exact ⟨hreason, by rw [Bool.eq_iff_iff, ← hreason, ← hcalls]⟩

/-- A call item, and a completed response without it. -/
def callLeftOut : List UInt8 :=
  bytes ("data:\x7b\"type\":\"response.output_item.added\",\"sequence_number\":0," ++
    "\"output_index\":0,\"item\":\x7b\"type\":\"function_call\",\"id\":\"i\"," ++
    "\"call_id\":\"c\",\"name\":\"f\"\x7d\x7d\n\n" ++
    "data:\x7b\"type\":\"response.completed\",\"sequence_number\":1," ++
    "\"response\":\x7b\"object\":\"response\",\"id\":\"r\",\"status\":\"completed\"," ++
    "\"output\":[],\"usage\":\x7b\"input_tokens\":1,\"output_tokens\":1," ++
    "\"total_tokens\":2\x7d\x7d\x7d\n\n")

/-- The data of its first frame. -/
def callAdded : String :=
  "\x7b\"type\":\"response.output_item.added\",\"sequence_number\":0," ++
    "\"output_index\":0,\"item\":\x7b\"type\":\"function_call\",\"id\":\"i\"," ++
    "\"call_id\":\"c\",\"name\":\"f\"\x7d\x7d"

/-- The data of its second frame. -/
def completedWithout : String :=
  "\x7b\"type\":\"response.completed\",\"sequence_number\":1," ++
    "\"response\":\x7b\"object\":\"response\",\"id\":\"r\",\"status\":\"completed\"," ++
    "\"output\":[],\"usage\":\x7b\"input_tokens\":1,\"output_tokens\":1," ++
    "\"total_tokens\":2\x7d\x7d\x7d"

def addedValue : Value :=
  .object [("item", .object [("call_id", .string "c"), ("id", .string "i"), ("name", .string "f"),
      ("type", .string "function_call")]),
    ("output_index", .nat 0), ("sequence_number", .nat 0),
    ("type", .string "response.output_item.added")]

def completedValue : Value :=
  .object [("response", .object [("id", .string "r"), ("object", .string "response"),
      ("output", .array []), ("status", .string "completed"),
      ("usage", .object [("input_tokens", .nat 1), ("output_tokens", .nat 1),
        ("total_tokens", .nat 2)])]),
    ("sequence_number", .nat 1), ("type", .string "response.completed")]

theorem callAdded_parsed : Packages.textual.fromStr callAdded = some addedValue := by
  change Json.parse callAdded = some addedValue
  cbv

theorem completedWithout_parsed :
    Packages.textual.fromStr completedWithout = some completedValue := by
  change Json.parse completedWithout = some completedValue
  cbv

/-- The two values are read one after the other. -/
theorem values_read : ∃ s t, ResponsesApi.readFrame .start "message" addedValue =
      .ok ([.toolCallDelta 0 (some "c") (some "f") "" none], s) ∧
    ResponsesApi.readFrame s "message" completedValue =
      .ok ([.finish (some .stop) none,
        .usage { Usage.default with inputTokens := 1, outputTokens := 1 }, .done none none], t) ∧
    t.ended = true :=
  ⟨_, _, rfl, rfl, rfl⟩

theorem plainData_callAdded : PlainData callAdded :=
  ⟨oneLine_of_all (by decide +kernel), by decide +kernel, by decide +kernel⟩

theorem plainData_completedWithout : PlainData completedWithout :=
  ⟨oneLine_of_all (by decide +kernel), by decide +kernel, by decide +kernel⟩

theorem callLeftOut_eq : callLeftOut = dataBody [callAdded, completedWithout] := by
  have hend : bytes "\n\n" = [lf, lf] := by decide
  have htext : callLeftOut = bytes ("data:" ++ callAdded ++ "\n\n" ++
      ("data:" ++ completedWithout ++ "\n\n")) := congrArg bytes (by decide +kernel)
  rw [htext, bytes_append, bytes_append _ "\n\n", bytes_append _ "\n\n", hend]
  simp [dataBody, dataFrame]

theorem ResponsesApi.frame_parsed {packages : Packages} {s : ResponsesApi.ResponsesStreamParser}
    {data : String} {parsed : Value} (h : packages.fromStr data = some parsed) :
    (responsesStreamDialect packages).frame s ⟨"message", data⟩ =
      ResponsesApi.readFrame s "message" parsed := by
  change ResponsesApi.frame packages s ⟨"message", data⟩ = _
  rw [ResponsesApi.frame, h]

theorem callLeftOut_run :
    (Batching.calls (ResponsesApi.parseChunk .textual) .start [callLeftOut, []]).result = .ok () ∧
      (Batching.calls (ResponsesApi.parseChunk .textual) .start [callLeftOut, []]).items =
        [.toolCallDelta 0 (some "c") (some "f") "" none, .finish (some .stop) none,
          .usage { Usage.default with inputTokens := 1, outputTokens := 1 },
          .done none none] := by
  obtain ⟨s, t, hadded, hcompleted, hended⟩ := values_read
  have hread := Dialect.read_pair ((ResponsesApi.frame_parsed callAdded_parsed).trans hadded)
    ((ResponsesApi.frame_parsed completedWithout_parsed).trans hcompleted)
  have hclose : (responsesStreamDialect .textual).close t = .ok ([], t) := if_pos hended
  have hplain : ∀ data ∈ [callAdded, completedWithout], PlainData data := by
    simp [plainData_callAdded, plainData_completedWithout]
  obtain ⟨hrun, -⟩ := Dialect.body_read (by simp) hplain hread hclose
  have hstart : ResponsesApi.ParserState.start.rest = (.new, .start) := rfl
  have hne : callLeftOut ≠ [] := by
    rw [callLeftOut_eq]
    simp [dataBody, dataFrame]
  rw [ResponsesApi.calls_start, List.dropWhile_cons_of_neg (by simpa using hne), hstart,
    callLeftOut_eq, hrun]
  exact ⟨rfl, rfl⟩

/-- The reason of that stream is not that of calls. -/
theorem call_left_out_reason :
    ResponsesApi.endsWithCall .textual
        (ResponsesApi.acceptedFrames .textual [callLeftOut, []]) = false := by
  have hreason := (finish_reason_iff .textual [callLeftOut, []] (some .stop) none
    (by rw [callLeftOut_run.2]; simp)).1
  rw [← Bool.not_eq_true, ← hreason]
  decide

/-- A stream is accepted whose call fragment is followed by a `stop`. -/
theorem call_left_out_of_response :
    (Batching.calls (ResponsesApi.parseChunk .textual) .start [callLeftOut, []]).result = .ok () ∧
      .finish (some .stop) none ∈
        (Batching.calls (ResponsesApi.parseChunk .textual) .start [callLeftOut, []]).items ∧
      ¬(some FinishReason.stop = some .toolCalls ↔
        ∃ event ∈ (Batching.calls (ResponsesApi.parseChunk .textual) .start
          [callLeftOut, []]).items, event.isCall = true) := by
  obtain ⟨hresult, hitems⟩ := callLeftOut_run
  rw [hitems]
  exact ⟨hresult, by simp, by simp [StreamEvent.isCall]⟩

end TokenStation.Provider
