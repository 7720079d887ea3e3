import TokenStation.Provider.CallsStreamed
import TokenStation.Provider.TerminalGrammar

/-!
# Arguments streamed once

However the body is cut, what the accepted frames state of a call's arguments is what its
fragments join to at that moment, and a call is over with its item.
-/

namespace TokenStation.Provider.ResponsesApi

open Library Library.ChunkedReading Library.Json Library.Gathering Library.Text Responses Sse

variable {packages : Packages}

/-! ## Runs -/

theorem read_keeps {frames : List SseFrameV1} {s t : ResponsesStreamParser}
    {events : List StreamEvent} {streamed : List Fragment} (hs : Linked s)
    (hkept : Bookkeeping s.calls streamed)
    (h : (responsesStreamDialect packages).read s frames = .ok (events, t)) :
    Linked t ∧ Bookkeeping t.calls (streamed ++ fragments events) := by
  induction frames generalizing s events streamed with
  | nil =>
      cases h
      rw [show fragments [] = [] from rfl, List.append_nil]
      exact ⟨hs, hkept⟩
  | cons sse frames ih =>
      obtain ⟨now, rest, u, hnow, hrest, rfl⟩ := Dialect.read_cons_ok h
      obtain ⟨hstep, hu⟩ := frame_step hs hnow
      rw [fragments_append, ← List.append_assoc]
      exact ih hu (hstep.keeps hkept) hrest

theorem read_finished {frames : List SseFrameV1} {s t : ResponsesStreamParser}
    {events : List StreamEvent} {streamed : List Fragment} (hs : Linked s)
    (hkept : Bookkeeping s.calls streamed)
    (h : (responsesStreamDialect packages).read s frames = .ok (events, t)) {id : String}
    {call : CallState} (hcall : lookup id s.calls = some call) (hdone : call.done = true) :
    ∀ fragment ∈ fragments events, fragment.ordinal ≠ call.ordinal := by
  induction frames generalizing s events streamed with
  | nil =>
      cases h
      exact fun _ hmem => absurd hmem List.not_mem_nil
  | cons sse frames ih =>
      obtain ⟨now, rest, u, hnow, hrest, rfl⟩ := Dialect.read_cons_ok h
      obtain ⟨hstep, hu⟩ := frame_step hs hnow
      obtain ⟨hcall', hfirst⟩ := hstep.finished hkept hcall hdone
      intro fragment hmem
      rw [fragments_append, List.mem_append] at hmem
      rcases hmem with hmem | hmem
      · exact hfirst fragment hmem
      · exact ih hu (hstep.keeps hkept) hrest hcall' fragment hmem

theorem read_split {front rest : List SseFrameV1} {sse : SseFrameV1}
    {s t : ResponsesStreamParser} {events : List StreamEvent}
    (h : (responsesStreamDialect packages).read s (front ++ sse :: rest) = .ok (events, t)) :
    ∃ before r now u later,
      (responsesStreamDialect packages).read s front = .ok (before, r) ∧
      frame packages r sse = .ok (now, u) ∧
      (responsesStreamDialect packages).read u rest = .ok (later, t) ∧
      events = before ++ (now ++ later) := by
  induction front generalizing s events with
  | nil =>
      obtain ⟨now, later, u, hnow, hlater, rfl⟩ := Dialect.read_cons_ok h
      exact ⟨[], s, now, u, later, rfl, hnow, hlater, rfl⟩
  | cons first front ih =>
      obtain ⟨opening, more, q, hopening, hmore, rfl⟩ := Dialect.read_cons_ok h
      obtain ⟨before, r, now, u, later, hbefore, hnow, hlater, rfl⟩ := ih hmore
      refine ⟨opening ++ before, r, now, u, later, ?_, hnow, hlater, ?_⟩
      · have hfirst : (responsesStreamDialect packages).read s [first] = .ok (opening, q) := by
          rw [Dialect.read, Batching.call, hopening]
          simp [Batching.call, Except.map]
        rw [← List.singleton_append, Dialect.read_append hfirst, hbefore]
        rfl
      · rw [List.append_assoc]

/-! ## A whole stream -/

/-- Right after a frame, the fragments of the call it speaks of join to the arguments it
states. A finished call item states them, and the call gets nothing after it. -/
structure Complete (frame : Value) (u : ResponsesStreamParser) (now later : List StreamEvent) :
    Prop where
  joined : ∀ id arguments, statedArguments frame = some (id, arguments) →
    ∃ call, lookup id u.calls = some call ∧
      gather call.ordinal (marked (fragments now)) = arguments ∧
      (finishesItem frame = true →
        ∀ fragment ∈ fragments later, fragment.ordinal ≠ call.ordinal)
  stated : finishesItem frame = true → (frame.get "item").any isCallItem = true →
    (statedArguments frame).isSome = true

/-- The calls are numbered and named as they come, what is kept of each is what was
streamed, and every frame that is no failure report leaves its call complete. -/
structure StreamedOnce (packages : Packages) (frames : List SseFrameV1)
    (events : List StreamEvent) (t : ResponsesStreamParser) : Prop where
  kept : Bookkeeping t.calls (fragments events)
  complete : ∀ front sse rest parsed, frames = front ++ sse :: rest →
    packages.fromStr sse.data = some parsed → failureOf parsed = none →
    ∃ now u later,
      (responsesStreamDialect packages).read .start (front ++ [sse]) = .ok (now, u) ∧
      (responsesStreamDialect packages).read u rest = .ok (later, t) ∧
      events = now ++ later ∧ Complete parsed u now later

theorem linked_start : Linked .start := fun _ _ hcall => by cases hcall

theorem read_streamedOnce {frames : List SseFrameV1} {events : List StreamEvent}
    {t : ResponsesStreamParser}
    (h : (responsesStreamDialect packages).read .start frames = .ok (events, t)) :
    StreamedOnce packages frames events t where
  kept := (read_keeps linked_start bookkeeping_nil h).2
  complete front sse rest parsed hsplit hparsed hnone := by
    subst hsplit
    obtain ⟨before, r, now, u, later, hbefore, hnow, hlater, rfl⟩ := read_split h
    obtain ⟨hr, hkeptBefore⟩ := read_keeps linked_start bookkeeping_nil hbefore
    obtain ⟨parsed', hparsed', -, hhandled⟩ := frame_handled hr hnow
    obtain rfl := Option.some.inj (hparsed.symm.trans hparsed')
    have hhandled := hhandled hnone
    have hkept := hhandled.step.keeps hkeptBefore
    rw [List.nil_append, ← fragments_append] at hkept
    refine ⟨before ++ now, u, later, ?_, hlater, (List.append_assoc ..).symm, ⟨?_, hhandled.stated⟩⟩
    · rw [Dialect.read_append hbefore]
      have hlast : (responsesStreamDialect packages).read r [sse] = .ok (now, u) := by
        have hframe : (responsesStreamDialect packages).frame r sse = .ok (now, u) := hnow
        rw [Dialect.read, Batching.call, hframe]
        simp [Batching.call, Except.map]
      rw [hlast]
      rfl
    · intro id arguments hstated
      obtain ⟨call, hcall, hemitted, hdone⟩ := hhandled.settles id arguments hstated
      refine ⟨call, hcall, (hkept.emitted id call hcall).trans hemitted, fun hfinishes => ?_⟩
      exact read_finished hhandled.linked hkept hlater hcall (hdone hfinishes)

/-- Whatever chunks a stream comes in, its call arguments are streamed once up to the last
accepted frame. -/
theorem arguments_streamed_once (packages : Packages) (chunks : List (List UInt8)) :
    ∃ t, (responsesStreamDialect packages).read .start (acceptedFrames packages chunks) =
        .ok ((Batching.calls (parseChunk packages) .start chunks).items, t) ∧
      StreamedOnce packages (acceptedFrames packages chunks)
        (Batching.calls (parseChunk packages) .start chunks).items t := by
  obtain ⟨t, hread⟩ := items_read packages chunks
  exact ⟨t, hread, read_streamedOnce hread⟩

/-- An opened call, and its final arguments in an event that also reports an error. -/
def failingArguments : List UInt8 :=
  bytes ("data:\x7b\"type\":\"response.output_item.added\",\"sequence_number\":0," ++
    "\"output_index\":0,\"item\":\x7b\"type\":\"function_call\",\"id\":\"i\"," ++
    "\"call_id\":\"c\",\"name\":\"f\"\x7d\x7d\n\n" ++
    "data:\x7b\"type\":\"response.function_call_arguments.done\",\"sequence_number\":1," ++
    "\"output_index\":0,\"item_id\":\"i\",\"arguments\":\"x\",\"error\":\x7b\x7d\x7d\n\n")

/-- The data of its second frame. -/
def argumentsDone : String :=
  "\x7b\"type\":\"response.function_call_arguments.done\",\"sequence_number\":1," ++
    "\"output_index\":0,\"item_id\":\"i\",\"arguments\":\"x\",\"error\":\x7b\x7d\x7d"

def argumentsValue : Value :=
  .object [("arguments", .string "x"), ("error", .object []), ("item_id", .string "i"),
    ("output_index", .nat 0), ("sequence_number", .nat 1),
    ("type", .string "response.function_call_arguments.done")]

theorem argumentsDone_parsed : Packages.textual.fromStr argumentsDone = some argumentsValue := by
  change Json.parse argumentsDone = some argumentsValue
  cbv

theorem plainData_argumentsDone : PlainData argumentsDone :=
  ⟨oneLine_of_all (by decide +kernel), by decide +kernel, by decide +kernel⟩

theorem failingArguments_eq : failingArguments = dataBody [callAdded, argumentsDone] := by
  have hend : bytes "\n\n" = [lf, lf] := by decide
  have htext : failingArguments = bytes ("data:" ++ callAdded ++ "\n\n" ++
      ("data:" ++ argumentsDone ++ "\n\n")) := congrArg bytes (by decide +kernel)
  rw [htext, bytes_append, bytes_append _ "\n\n", bytes_append _ "\n\n", hend]
  simp [dataBody, dataFrame]

/-- What the two values are read as. -/
theorem failing_values_read : ∃ s t, readFrame .start "message" addedValue =
      .ok ([.toolCallDelta 0 (some "c") (some "f") "" none], s) ∧
    readFrame s "message" argumentsValue =
      .ok ([.error ⟨.internal, 502, "the upstream failed", none⟩], t) ∧
    t.ended = true :=
  ⟨_, _, rfl, rfl, rfl⟩

/-- Such an event ends the stream as a failure, and its arguments are not streamed. -/
theorem failing_arguments_unsaid :
    (Batching.calls (parseChunk .textual) .start [failingArguments, []]).result = .ok () ∧
      (((acceptedFrames .textual [failingArguments, []]).getLast?.bind fun sse =>
        Packages.textual.fromStr sse.data).bind statedArguments) = some ("i", "x") ∧
      gather 0 (marked (fragments
        (Batching.calls (parseChunk .textual) .start [failingArguments, []]).items)) ≠ "x" := by
  obtain ⟨s, t, hadded, hfailed, hended⟩ := failing_values_read
  have hread := Dialect.read_pair ((frame_parsed callAdded_parsed).trans hadded)
    ((frame_parsed argumentsDone_parsed).trans hfailed)
  have hclose : (responsesStreamDialect .textual).close t = .ok ([], t) := if_pos hended
  have hplain : ∀ data ∈ [callAdded, argumentsDone], PlainData data := by
    simp [plainData_callAdded, plainData_argumentsDone]
  obtain ⟨hrun, haccepted⟩ := Dialect.body_read (by simp) hplain hread hclose
  have hstart : ParserState.start.rest = (.new, .start) := rfl
  have hne : failingArguments ≠ [] := by
    rw [failingArguments_eq]
    simp [dataBody, dataFrame]
  have hframes : acceptedFrames .textual [failingArguments, []] =
      [⟨"message", callAdded⟩, ⟨"message", argumentsDone⟩] := by
    rw [acceptedFrames, List.dropWhile_cons_of_neg (by simpa using hne), hstart,
      failingArguments_eq]
    exact haccepted
  have hcalls : Batching.calls (parseChunk .textual) .start [failingArguments, []] =
      .emit [.toolCallDelta 0 (some "c") (some "f") "" none,
        .error ⟨.internal, 502, "the upstream failed", none⟩] () := by
    rw [calls_start, List.dropWhile_cons_of_neg (by simpa using hne), hstart, failingArguments_eq]
    exact hrun
  rw [hcalls, hframes]
  refine ⟨rfl, ?_, by decide⟩
  change (Packages.textual.fromStr argumentsDone).bind statedArguments = _
  rw [argumentsDone_parsed]
  decide

end TokenStation.Provider.ResponsesApi
