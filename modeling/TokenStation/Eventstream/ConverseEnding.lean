import TokenStation.Eventstream.Converse

/-!
# How Converse streams end

A Converse stream is content, then the finish its `messageStop` announces, then a
failure or the usage report with the close. The parser holds the finish until the
report; what it does not hold is the content an upstream may still send in between.
-/

namespace TokenStation.Eventstream

open Library Library.Checked Library.ChunkedReading Library.Json Library.Text Responses Provider

namespace Converse

/-! ## Frames and runs -/

/-- The event and the document of one frame. -/
structure EventFrame where
  event : String
  data : Value

/-- What a frame's payload says, when it has an event and a document. -/
def frameOf (fromStr : String → Option Value) (payload : List UInt8) : Option EventFrame :=
  (fromUtf8 payload).bind fun frame =>
    match frameFields frame with
    | ⟨some event, some data⟩ => (fromStr data).map fun data => ⟨event, data⟩
    | _ => none

/-- The payloads of a body's complete frames. -/
def payloadsIn (body : List UInt8) : List (List UInt8) :=
  match _h : sseFrameBoundary body with
  | none => []
  | some (payloadEnd, frameEnd) => body.take payloadEnd :: payloadsIn (body.drop frameEnd)
termination_by body.length
decreasing_by
  have hbounds := sseFrameBoundary_le _h
  rw [List.length_drop]
  omega

/-- The frames of a body, in order. -/
def framesIn (fromStr : String → Option Value) (body : List UInt8) : List EventFrame :=
  (payloadsIn body).filterMap (frameOf fromStr)

/-- A frame and the events it gave. -/
structure Step where
  frame : EventFrame
  events : List StreamEvent

/-- The parser takes one frame after another. -/
inductive Run : ConverseSseParser → List Step → ConverseSseParser → Prop
  | nil (s : ConverseSseParser) : Run s [] s
  | cons {s next last : ConverseSseParser} {frame : EventFrame} {events : List StreamEvent}
      {steps : List Step} (h : eventsOf s frame.event frame.data = .ok (events, next))
      (rest : Run next steps last) : Run s (⟨frame, events⟩ :: steps) last

def eventsIn (steps : List Step) : List StreamEvent := steps.flatMap Step.events

section Bodies

variable {fromStr : String → Option Value}

/-- A frame without an event or a document does nothing. -/
theorem handleFrame_eq {s next : ConverseSseParser} {payload : List UInt8}
    {events : List StreamEvent}
    (h : handleFrame fromStr converseStream s payload = .ok (events, next)) :
    match frameOf fromStr payload with
    | some frame => eventsOf s frame.event frame.data = .ok (events, next)
    | none => events = [] ∧ next = s := by
  have hopen : converseStream.isClosed s = false := rfl
  unfold handleFrame at h
  rw [hopen] at h
  unfold frameOf
  cases hutf : fromUtf8 payload with
  | none => simp [hutf] at h
  | some frame =>
      rw [hutf] at h
      rw [Option.bind_some]
      simp only [Bool.false_eq_true, if_false] at h
      cases hread : frameFields frame with
      | mk event data =>
          rw [hread] at h
          cases event with
          | none =>
              cases h
              exact ⟨rfl, rfl⟩
          | some event =>
              cases data with
              | none =>
                  cases h
                  exact ⟨rfl, rfl⟩
              | some data =>
                  dsimp only at h ⊢
                  cases hdata : fromStr data with
                  | none => simp [hdata] at h
                  | some value =>
                      rw [hdata] at h
                      exact h

/-- Whatever a drained body gives is a run over the body's frames. -/
theorem run_of_drain {body : List UInt8} {s : ConverseSseParser}
    {last : ConverseSseParser × List UInt8}
    (h : ((componentReader fromStr converseStream).drain s body).result = .ok last) :
    ∃ steps, Run s steps last.1 ∧ steps.map Step.frame = framesIn fromStr body ∧
      eventsIn steps =
        ((componentReader fromStr converseStream).drain s body).items.flatMap FrameCut.events := by
  generalize hlength : body.length = n
  induction n using Nat.strong_induction_on generalizing body s with
  | _ n ih =>
      cases hboundary : sseFrameBoundary body with
      | none =>
          have hread : (componentReader fromStr converseStream).read s body = .more := by
            change componentReading fromStr converseStream s body = .more
            rw [componentReading, hboundary]
          rw [Reader.drain_more _ hread] at h ⊢
          cases h
          refine ⟨[], .nil s, ?_, rfl⟩
          rw [framesIn, payloadsIn]
          split
          · rfl
          · rename_i heq
            rw [hboundary] at heq
            cases heq
      | some found =>
          obtain ⟨payloadEnd, frameEnd⟩ := found
          obtain ⟨hlt, hle⟩ := sseFrameBoundary_le hboundary
          have hpayloads : payloadsIn body =
              body.take payloadEnd :: payloadsIn (body.drop frameEnd) := by
            rw [payloadsIn]
            split
            · rename_i heq
              rw [hboundary] at heq
              cases heq
            · rename_i heq
              rw [hboundary] at heq
              cases heq
              rfl
          cases hframe : handleFrame fromStr converseStream s (body.take payloadEnd) with
          | error e =>
              have hread : (componentReader fromStr converseStream).read s body = .fail e := by
                change componentReading fromStr converseStream s body = .fail e
                rw [componentReading, hboundary]
                simp only [hframe]
              rw [Reader.drain_fail _ hread] at h
              cases h
          | ok given =>
              obtain ⟨events, next⟩ := given
              have hread : (componentReader fromStr converseStream).read s body =
                  .step next frameEnd [⟨body.take payloadEnd, events⟩] := by
                change componentReading fromStr converseStream s body = _
                rw [componentReading, hboundary]
                simp only [hframe]
              rw [Reader.drain_step _ hread, Trace.emit_bind] at h ⊢
              obtain ⟨steps, hrun, hframes, hevents⟩ :=
                ih (body.drop frameEnd).length (by rw [List.length_drop]; omega) h rfl
              have hgiven := handleFrame_eq hframe
              dsimp only
              rw [framesIn, hpayloads, List.filterMap_cons, List.flatMap_append]
              cases hread : frameOf fromStr (body.take payloadEnd) with
              | none =>
                  rw [hread] at hgiven
                  obtain ⟨rfl, rfl⟩ := hgiven
                  exact ⟨steps, hrun, hframes, by simpa using hevents⟩
              | some frame =>
                  rw [hread] at hgiven
                  refine ⟨⟨frame, events⟩ :: steps, .cons hgiven hrun, ?_, ?_⟩
                  · rw [List.map_cons, hframes]
                    rfl
                  · rw [eventsIn, List.flatMap_cons]
                    rw [eventsIn] at hevents
                    rw [hevents]
                    simp

/-- Empty chunks change nothing. -/
theorem parseChunks_filter (s : ConverseSseParser × List UInt8) (chunks : List (List UInt8)) :
    parseChunks fromStr converseStream s (chunks.filter (· ≠ [])) =
      parseChunks fromStr converseStream s chunks := by
  induction chunks generalizing s with
  | nil => rfl
  | cons chunk chunks ih =>
      by_cases hempty : chunk = []
      · rw [List.filter_cons_of_neg (by simpa using hempty), ih, parseChunks, parseChunk,
          if_pos hempty]
        change _ = (parseChunks fromStr converseStream s chunks >>= fun last =>
          pure ([] ++ last.1, last.2))
        cases parseChunks fromStr converseStream s chunks <;> rfl
      · rw [List.filter_cons_of_pos (by simpa using hempty), parseChunks, parseChunks]
        simp only [ih]

theorem flatten_filter (chunks : List (List UInt8)) :
    (chunks.filter (· ≠ [])).flatten = chunks.flatten := by
  induction chunks with
  | nil => rfl
  | cons chunk chunks ih =>
      by_cases hempty : chunk = []
      · rw [List.filter_cons_of_neg (by simpa using hempty), ih, hempty]
        rfl
      · rw [List.filter_cons_of_pos (by simpa using hempty), List.flatten_cons, ih,
          List.flatten_cons]

/-- However a body arrives, what is accepted of it is a run over its frames. -/
theorem run_of_chunks {chunks : List (List UInt8)} {s : ConverseSseParser}
    {events : List StreamEvent} {last : ConverseSseParser × List UInt8}
    (h : parseChunks fromStr converseStream (s, []) chunks = .ok (events, last)) :
    ∃ steps, Run s steps last.1 ∧ steps.map Step.frame = framesIn fromStr chunks.flatten ∧
      eventsIn steps = events := by
  have hnonempty : ∀ chunk ∈ chunks.filter (· ≠ []), chunk ≠ [] := fun chunk hchunk => by
    simpa using (List.mem_filter.mp hchunk).2
  rw [← parseChunks_filter, parseChunks_eq fromStr converseStream hnonempty,
    Reader.feed_eq_drain _ s [] rfl, List.nil_append, flatten_filter] at h
  obtain ⟨last', hlast, heq⟩ := map_eq_ok.mp h
  cases heq
  exact run_of_drain hlast

end Bodies

/-! ## What a frame does -/

/-- Events that build the answer. -/
def buildsAnswer : StreamEvent → Bool
  | .delta _ _ | .thinkingDelta _ _ _ | .thinkingSignatureDelta _ _ _ | .redactedThinking _ _ _
  | .toolCallDelta _ _ _ _ _ => true
  | _ => false

/-- Whether a delta has one of the texts that are passed on. -/
def hasText (data : Value) : Bool :=
  let delta := data.field "delta"
  let reasoning := delta.field "reasoningContent"
  (delta.field "text").isString || ((delta.field "toolUse").field "input").isString ||
    (reasoning.field "text").isString || (reasoning.field "signature").isString ||
    (reasoning.field "redactedContent").isString

/-- Whether a frame announces a finish or says something of the answer. -/
def EventFrame.speaks (frame : EventFrame) : Bool :=
  frame.event = "messageStop" ||
    (frame.event = "contentBlockStart" &&
      ((frame.data.field "start").get "toolUse").isSome) ||
    (frame.event = "contentBlockDelta" && hasText frame.data)

/-- Whether a frame closes the stream. -/
def EventFrame.closes (frame : EventFrame) : Bool :=
  frame.event = "metadata" || (failureCode frame.event).isSome

/-- What an accepted frame does to a stream that is not closed. -/
inductive Effect (s : ConverseSseParser) (frame : EventFrame) :
    List StreamEvent → ConverseSseParser → Prop
  | silent {next : ConverseSseParser} (hcloses : frame.closes = false)
      (hspeaks : frame.speaks = false) (hpending : next.pendingFinish = s.pendingFinish)
      (hopen : next.closed = false) : Effect s frame [] next
  | answer {event : StreamEvent} {next : ConverseSseParser} (hcloses : frame.closes = false)
      (hspeaks : frame.speaks = true) (hevent : frame.event ≠ "messageStop")
      (hanswer : buildsAnswer event = true) (hpending : next.pendingFinish = s.pendingFinish)
      (hopen : next.closed = false) : Effect s frame [event] next
  | finish {reason : FinishReason} {next : ConverseSseParser} (hcloses : frame.closes = false)
      (hevent : frame.event = "messageStop") (hpending : next.pendingFinish = some reason)
      (hopen : next.closed = false) : Effect s frame [.finish (some reason) none] next
  | failure {error : ErrorEnvelope} {next : ConverseSseParser} (hcloses : frame.closes = true)
      (hclosed : next.closed = true) : Effect s frame [.error error] next
  | report {usage : Usage} {next : ConverseSseParser} (hcloses : frame.closes = true)
      (hclosed : next.closed = true) :
      Effect s frame [.usage usage, .done s.pendingFinish none] next

theorem startEvents_cases (index : Nat) (data : Value) :
    (((data.field "start").get "toolUse").isSome = false ∧ startEvents index data = []) ∨
      (((data.field "start").get "toolUse").isSome = true ∧
        ∃ id name, startEvents index data = [.toolCallDelta index id name "" none]) := by
  unfold startEvents
  cases (data.field "start").get "toolUse" with
  | none => exact .inl ⟨rfl, rfl⟩
  | some useBlock => exact .inr ⟨rfl, _, _, rfl⟩

theorem asStr_eq_none {v : Value} : v.asStr = none ↔ v.isString = false := by
  cases v <;> simp [Value.asStr, Value.isString]

theorem isString_of_asStr {v : Value} {text : String} (h : v.asStr = some text) :
    v.isString = true := by
  rw [Value.asStr_eq_some.mp h]
  rfl

theorem deltaEvents_cases (index : Nat) (data : Value) :
    (hasText data = false ∧ deltaEvents index data = []) ∨
      (hasText data = true ∧ ∃ event, deltaEvents index data = [event] ∧
        buildsAnswer event = true) := by
  unfold deltaEvents hasText
  dsimp only
  split
  · rename_i h
    exact .inr ⟨by simp [isString_of_asStr h], _, rfl, rfl⟩
  · rename_i htext
    split
    · rename_i h
      exact .inr ⟨by simp [isString_of_asStr h], _, rfl, rfl⟩
    · rename_i hinput
      split
      · rename_i h
        exact .inr ⟨by simp [isString_of_asStr h], _, rfl, rfl⟩
      · rename_i hthinking
        split
        · rename_i h
          exact .inr ⟨by simp [isString_of_asStr h], _, rfl, rfl⟩
        · rename_i hsignature
          split
          · rename_i h
            exact .inr ⟨by simp [isString_of_asStr h], _, rfl, rfl⟩
          · rename_i hredacted
            rw [asStr_eq_none] at htext hinput hthinking hsignature hredacted
            exact .inl ⟨by simp [htext, hinput, hthinking, hsignature, hredacted], rfl⟩

theorem openBlock_kept {s next : ConverseSseParser} {index : Nat}
    (h : s.openBlock index = .ok next) :
    next.pendingFinish = s.pendingFinish ∧ next.closed = s.closed := by
  unfold ConverseSseParser.openBlock at h
  split at h
  · cases h
    exact ⟨rfl, rfl⟩
  · cases h

theorem openBlockForDelta_kept {s next : ConverseSseParser} {index : Nat}
    (h : s.openBlockForDelta index = .ok next) :
    next.pendingFinish = s.pendingFinish ∧ next.closed = s.closed := by
  unfold ConverseSseParser.openBlockForDelta at h
  split at h
  · cases h
    exact ⟨rfl, rfl⟩
  · split at h
    · cases h
      exact ⟨rfl, rfl⟩
    · cases h

theorem closeBlock_kept {s next : ConverseSseParser} {index : Nat}
    (h : s.closeBlock index = .ok next) :
    next.pendingFinish = s.pendingFinish ∧ next.closed = s.closed := by
  unfold ConverseSseParser.closeBlock at h
  split at h
  · cases h
    exact ⟨rfl, rfl⟩
  · split at h
    · cases h
      exact ⟨rfl, rfl⟩
    · cases h

/-- The events of an open stream. -/
theorem closes_eq_false {event : String} (data : Value)
    (h : event ∈ ["messageStart", "contentBlockStop", "contentBlockStart", "contentBlockDelta",
      "messageStop"]) : EventFrame.closes ⟨event, data⟩ = false := by
  have hall : ∀ event ∈ ["messageStart", "contentBlockStop", "contentBlockStart",
      "contentBlockDelta", "messageStop"],
      (decide (event = "metadata") || (failureCode event).isSome) = false := by
    decide
  exact hall event h

theorem effect_of {s next : ConverseSseParser} {frame : EventFrame} {events : List StreamEvent}
    (hopen : s.closed = false) (h : eventsOf s frame.event frame.data = .ok (events, next)) :
    Effect s frame events next := by
  obtain ⟨event, data⟩ := frame
  unfold eventsOf at h
  rw [hopen, if_neg Bool.false_ne_true] at h
  dsimp only at h
  split at h
  · rename_i heq
    cases heq
    cases h
    exact .silent (closes_eq_false data (by simp)) (by simp [EventFrame.speaks]) rfl hopen
  split at h
  · rename_i heq
    cases heq
    obtain ⟨index, -, h⟩ := bind_eq_ok.mp h
    obtain ⟨t, ht, h⟩ := bind_eq_ok.mp h
    cases h
    obtain ⟨hpending, hclosed⟩ := closeBlock_kept ht
    exact .silent (closes_eq_false data (by simp)) (by simp [EventFrame.speaks]) hpending
      (hclosed.trans hopen)
  split at h
  · rename_i heq
    cases heq
    obtain ⟨index, -, h⟩ := bind_eq_ok.mp h
    obtain ⟨t, ht, h⟩ := bind_eq_ok.mp h
    obtain ⟨hpending, hclosed⟩ := openBlock_kept ht
    rcases startEvents_cases index data with ⟨hnone, hevents⟩ | ⟨hsome, id, name, hevents⟩
    · rw [hevents] at h
      cases h
      exact .silent (closes_eq_false data (by simp)) (by simp [EventFrame.speaks, hnone]) hpending
        (hclosed.trans hopen)
    · rw [hevents] at h
      cases h
      exact .answer (closes_eq_false data (by simp)) (by simp [EventFrame.speaks, hsome]) (by simp)
        rfl hpending (hclosed.trans hopen)
  split at h
  · rename_i heq
    cases heq
    obtain ⟨index, -, h⟩ := bind_eq_ok.mp h
    obtain ⟨t, ht, h⟩ := bind_eq_ok.mp h
    obtain ⟨hpending, hclosed⟩ := openBlockForDelta_kept ht
    rcases deltaEvents_cases index data with ⟨hnone, hevents⟩ | ⟨hsome, event, hevents, hanswer⟩
    · rw [hevents] at h
      cases h
      exact .silent (closes_eq_false data (by simp)) (by simp [EventFrame.speaks, hnone]) hpending
        (hclosed.trans hopen)
    · rw [hevents] at h
      cases h
      exact .answer (closes_eq_false data (by simp)) (by simp [EventFrame.speaks, hsome]) (by simp)
        hanswer hpending (hclosed.trans hopen)
  split at h
  · rename_i heq
    cases heq
    split at h
    · cases h
    · cases h
      exact .finish (closes_eq_false data (by simp)) rfl rfl rfl
  split at h
  · rename_i heq
    cases heq
    split at h
    · cases h
    · obtain ⟨usage, -, h⟩ := bind_eq_ok.mp h
      cases h
      exact .report rfl rfl
  · rename_i hstart hstop hblockStart hdelta hmessageStop hmetadata
    split at h
    · rename_i code hcode
      cases h
      exact .failure (by simp [EventFrame.closes, hcode]) rfl
    · rename_i hcode
      cases h
      exact .silent (by simp [EventFrame.closes, hcode, hmetadata])
        (by simp [EventFrame.speaks, hmessageStop, hblockStart, hdelta]) rfl hopen

/-- A closed stream says nothing. -/
theorem events_of_closed {s last : ConverseSseParser} {steps : List Step} (h : Run s steps last)
    (hclosed : s.closed = true) : eventsIn steps = [] := by
  induction h with
  | nil => rfl
  | cons h rest ih =>
      unfold eventsOf at h
      rw [hclosed, if_pos rfl] at h
      cases h
      rw [eventsIn, List.flatMap_cons]
      exact ih hclosed

/-! ## Two phases -/

/-- What follows the finish: nothing, a failure, or the report and the close, which
says the finish again. -/
def Ends (reason : Option FinishReason) (events : List StreamEvent) : Prop :=
  events = [] ∨ (∃ error, events = [.error error]) ∨
    ∃ usage, events = [.usage usage, .done reason none]

def finishEvents (reason : Option FinishReason) : List StreamEvent :=
  reason.toList.map fun reason => .finish (some reason) none

/-- Content, at most one finish, and one of the three endings. -/
def TwoPhases (events : List StreamEvent) : Prop :=
  ∃ content reason ending, events = content ++ finishEvents reason ++ ending ∧
    (∀ event ∈ content, buildsAnswer event = true) ∧ Ends reason ending

theorem not_ends_answer {reason : Option FinishReason} {event : StreamEvent}
    {events : List StreamEvent} (h : buildsAnswer event = true) : ¬Ends reason (event :: events) := by
  rintro (heq | ⟨error, heq⟩ | ⟨usage, heq⟩)
  · cases heq
  · cases heq
    cases h
  · cases heq
    cases h

theorem not_ends_finish {reason finish : Option FinishReason} {events : List StreamEvent} :
    ¬Ends reason (.finish finish none :: events) := by
  rintro (heq | ⟨error, heq⟩ | ⟨usage, heq⟩) <;> cases heq

theorem twoPhases_cons_answer {event : StreamEvent} {events : List StreamEvent}
    (h : buildsAnswer event = true) : TwoPhases (event :: events) ↔ TwoPhases events := by
  constructor
  · rintro ⟨content, reason, ending, heq, hcontent, hends⟩
    cases content with
    | nil =>
        cases reason with
        | none =>
            rw [List.nil_append, finishEvents, Option.toList_none, List.map_nil,
              List.nil_append] at heq
            exact absurd (heq ▸ hends) (not_ends_answer h)
        | some reason =>
            cases heq
            cases h
    | cons first content =>
        cases heq
        exact ⟨content, reason, ending, rfl, fun e he => hcontent e (List.mem_cons_of_mem _ he),
          hends⟩
  · rintro ⟨content, reason, ending, rfl, hcontent, hends⟩
    exact ⟨event :: content, reason, ending, rfl, List.forall_mem_cons.mpr ⟨h, hcontent⟩, hends⟩

theorem twoPhases_cons_finish {reason : FinishReason} {events : List StreamEvent} :
    TwoPhases (.finish (some reason) none :: events) ↔ Ends (some reason) events := by
  constructor
  · rintro ⟨content, reason', ending, heq, hcontent, hends⟩
    cases content with
    | nil =>
        cases reason' with
        | none =>
            rw [List.nil_append, finishEvents, Option.toList_none, List.map_nil,
              List.nil_append] at heq
            exact absurd (heq ▸ hends) not_ends_finish
        | some reason' =>
            cases heq
            exact hends
    | cons first content =>
        cases heq
        cases hcontent _ List.mem_cons_self
  · intro h
    exact ⟨[], some reason, events, rfl, fun _ h => (List.not_mem_nil h).elim, h⟩

theorem twoPhases_of_ends {events : List StreamEvent} (h : Ends none events) : TwoPhases events :=
  ⟨[], none, events, rfl, fun _ h => (List.not_mem_nil h).elim, h⟩

/-- Until the stream is closed, no frame after a `messageStop` speaks. -/
def QuietAfterFinish (frames : List EventFrame) : Prop :=
  (frames.takeWhile fun frame => !frame.closes).Pairwise fun before after =>
    before.event = "messageStop" → after.speaks = false

theorem speaks_of_finish {frame : EventFrame} (h : frame.event = "messageStop") :
    frame.speaks = true := by
  simp [EventFrame.speaks, h]

theorem takeWhile_open {frame : EventFrame} (frames : List EventFrame)
    (h : frame.closes = false) :
    (frame :: frames).takeWhile (fun frame => !frame.closes) =
      frame :: frames.takeWhile fun frame => !frame.closes :=
  List.takeWhile_cons_of_pos (by rw [h]; rfl)

theorem takeWhile_closed {frame : EventFrame} (frames : List EventFrame)
    (h : frame.closes = true) :
    (frame :: frames).takeWhile (fun frame => !frame.closes) = [] :=
  List.takeWhile_cons_of_neg (by rw [h]; decide)

theorem eventsIn_cons (frame : EventFrame) (events : List StreamEvent) (steps : List Step) :
    eventsIn (⟨frame, events⟩ :: steps) = events ++ eventsIn steps := rfl

/-- After a finish, the stream ends as it should exactly when nothing speaks. -/
theorem ends_iff {s last : ConverseSseParser} {steps : List Step} (h : Run s steps last)
    (hopen : s.closed = false) {reason : FinishReason} (hpending : s.pendingFinish = some reason) :
    Ends (some reason) (eventsIn steps) ↔
      ∀ frame ∈ (steps.map Step.frame).takeWhile (fun frame => !frame.closes),
        frame.speaks = false := by
  induction h with
  | nil =>
      refine iff_of_true (.inl rfl) ?_
      intro frame hframe
      cases hframe
  | @cons s next last frame events steps hstep rest ih =>
      rw [List.map_cons, eventsIn_cons]
      cases effect_of hopen hstep with
      | silent hcloses hspeaks hkept hnext =>
          rw [List.nil_append, ih hnext (hkept.trans hpending), takeWhile_open _ hcloses,
            List.forall_mem_cons]
          exact (and_iff_right hspeaks).symm
      | answer hcloses hspeaks hevent hanswer hkept hnext =>
          rw [takeWhile_open _ hcloses, List.forall_mem_cons]
          refine iff_of_false (not_ends_answer hanswer) ?_
          rintro ⟨hsilent, -⟩
          exact absurd (hspeaks.symm.trans hsilent) (by decide)
      | finish hcloses hevent hkept hnext =>
          rw [takeWhile_open _ hcloses, List.forall_mem_cons]
          refine iff_of_false not_ends_finish ?_
          rintro ⟨hsilent, -⟩
          exact absurd ((speaks_of_finish hevent).symm.trans hsilent) (by decide)
      | failure hcloses hclosed =>
          rw [takeWhile_closed _ hcloses, events_of_closed rest hclosed]
          refine iff_of_true (.inr (.inl ⟨_, rfl⟩)) ?_
          intro frame hframe
          cases hframe
      | report hcloses hclosed =>
          rw [takeWhile_closed _ hcloses, events_of_closed rest hclosed, hpending]
          refine iff_of_true (.inr (.inr ⟨_, rfl⟩)) ?_
          intro frame hframe
          cases hframe

/-- A stream has its two phases exactly when nothing speaks between them. -/
theorem twoPhases_iff {s last : ConverseSseParser} {steps : List Step} (h : Run s steps last)
    (hopen : s.closed = false) (hpending : s.pendingFinish = none) :
    TwoPhases (eventsIn steps) ↔ QuietAfterFinish (steps.map Step.frame) := by
  unfold QuietAfterFinish
  induction h with
  | nil => exact iff_of_true (twoPhases_of_ends (.inl rfl)) .nil
  | @cons s next last frame events steps hstep rest ih =>
      rw [List.map_cons, eventsIn_cons]
      cases effect_of hopen hstep with
      | silent hcloses hspeaks hkept hnext =>
          rw [List.nil_append, ih hnext (hkept.trans hpending), takeWhile_open _ hcloses,
            List.pairwise_cons]
          refine (and_iff_right ?_).symm
          intro after _ hevent
          exact absurd (hspeaks.symm.trans (speaks_of_finish hevent)) (by decide)
      | answer hcloses hspeaks hevent hanswer hkept hnext =>
          rw [List.singleton_append, twoPhases_cons_answer hanswer,
            ih hnext (hkept.trans hpending), takeWhile_open _ hcloses, List.pairwise_cons]
          exact (and_iff_right fun _ _ h => absurd h hevent).symm
      | finish hcloses hevent hkept hnext =>
          rw [List.singleton_append, twoPhases_cons_finish, ends_iff rest hnext hkept,
            takeWhile_open _ hcloses, List.pairwise_cons]
          constructor
          · intro hsilent
            exact ⟨fun after hafter _ => hsilent after hafter,
              List.pairwise_of_forall_mem_list fun _ _ after hafter _ => hsilent after hafter⟩
          · rintro ⟨hsilent, -⟩ after hafter
            exact hsilent after hafter hevent
      | failure hcloses hclosed =>
          rw [takeWhile_closed _ hcloses, events_of_closed rest hclosed]
          exact iff_of_true (twoPhases_of_ends (.inr (.inl ⟨_, rfl⟩))) .nil
      | report hcloses hclosed =>
          rw [takeWhile_closed _ hcloses, events_of_closed rest hclosed, hpending]
          exact iff_of_true (twoPhases_of_ends (.inr (.inr ⟨_, rfl⟩))) .nil

/-! ## Blocks -/

/-- Whether an event names a block. -/
def names (index : Nat) : StreamEvent → Bool
  | .thinkingDelta _ block _ | .thinkingSignatureDelta _ block _ | .redactedThinking _ block _
  | .toolCallDelta block _ _ _ _ => block = index
  | _ => false

/-- Whether an event opens a call. -/
def opensCall (index : Nat) : StreamEvent → Bool
  | .toolCallDelta block (some _) _ _ _ => block = index
  | _ => false

/-- A call's id comes with the first event of its slot. -/
def FirstOfSlot (events : List StreamEvent) : Prop :=
  events.Pairwise fun before after => ∀ index, opensCall index after = true →
    names index before = false

/-- Nothing of a block is said after the block's stop. -/
def NothingAfterStop (steps : List Step) : Prop :=
  steps.Pairwise fun before after => before.frame.event = "contentBlockStop" →
    ∀ index, blockIndex before.frame.data = .ok index → blockIndex after.frame.data = .ok index →
      ∀ event ∈ after.events, buildsAnswer event = false

/-- Open blocks have been seen. -/
def Tidy (s : ConverseSseParser) : Prop := s.openBlocks ⊆ s.seenBlocks

/-- A block that has stopped, or a stream that has closed. -/
def Stopped (index : Nat) (s : ConverseSseParser) : Prop :=
  s.closed = true ∨ (index ∈ s.seenBlocks ∧ index ∉ s.openBlocks)

/-- What an accepted frame does to the blocks. -/
inductive BlockEffect (s : ConverseSseParser) (frame : EventFrame) (events : List StreamEvent)
    (next : ConverseSseParser) : Prop
  | untouched (hopen : next.openBlocks = s.openBlocks) (hseen : next.seenBlocks = s.seenBlocks)
      (hclosed : s.closed = true → next.closed = true)
      (hstop : frame.event = "contentBlockStop" → next.closed = true)
      (hevents : ∀ event ∈ events, buildsAnswer event = false)
  | stopped (index : Nat) (hblock : blockIndex frame.data = .ok index) (hsilent : events = [])
      (hopen : next.openBlocks = s.openBlocks.erase index)
      (hseen : next.seenBlocks = insert index s.seenBlocks) (hclosed : s.closed = false)
  | said (index : Nat) (hblock : blockIndex frame.data = .ok index)
      (hevent : frame.event ≠ "contentBlockStop")
      (hfree : index ∈ s.openBlocks ∨ index ∉ s.seenBlocks)
      (hopen : next.openBlocks = insert index s.openBlocks)
      (hseen : next.seenBlocks = insert index s.seenBlocks) (hclosed : s.closed = false)
      (hone : events.length ≤ 1)
      (hnames : ∀ event ∈ events, ∀ i, names i event = true → i = index)
      (hopens : ∀ event ∈ events, ∀ i, opensCall i event = true → i = index ∧ i ∉ s.seenBlocks)

theorem opensCall_of_names {index : Nat} {event : StreamEvent}
    (h : opensCall index event = true) : names index event = true := by
  cases event with
  | toolCallDelta block id name arguments signature =>
      cases id with
      | none => cases h
      | some id => exact h
  | _ => cases h

theorem not_names_of_not_answer {event : StreamEvent} (h : buildsAnswer event = false)
    (index : Nat) : names index event = false := by
  cases event with
  | delta | thinkingDelta | thinkingSignatureDelta | redactedThinking | toolCallDelta => cases h
  | _ => rfl

theorem mem_deltaEvents {index : Nat} {data : Value} {event : StreamEvent}
    (h : event ∈ deltaEvents index data) :
    (∀ i, names i event = true → i = index) ∧ ∀ i, opensCall i event = false := by
  have hcases (answer : StreamEvent) (hanswer : deltaEvents index data = [answer])
      (hnames : ∀ i, names i answer = true → i = index) (hopens : ∀ i, opensCall i answer = false) :
      (∀ i, names i event = true → i = index) ∧ ∀ i, opensCall i event = false := by
    rw [hanswer] at h
    obtain rfl := List.mem_singleton.mp h
    exact ⟨hnames, hopens⟩
  have hblock (i : Nat) (h : decide (index = i) = true) : i = index := (of_decide_eq_true h).symm
  rcases deltaEvents_cases index data with ⟨-, hnone⟩ | ⟨-, answer, hanswer, -⟩
  · rw [hnone] at h
    cases h
  · have hkept := hanswer
    unfold deltaEvents at hanswer
    dsimp only at hanswer
    split at hanswer
    · cases hanswer
      exact hcases _ hkept (fun _ h => by cases h) fun _ => rfl
    split at hanswer
    · cases hanswer
      exact hcases _ hkept hblock fun _ => rfl
    split at hanswer
    · cases hanswer
      exact hcases _ hkept hblock fun _ => rfl
    split at hanswer
    · cases hanswer
      exact hcases _ hkept hblock fun _ => rfl
    split at hanswer
    · cases hanswer
      exact hcases _ hkept hblock fun _ => rfl
    · cases hanswer

theorem blockEffect_of {s next : ConverseSseParser} {frame : EventFrame}
    {events : List StreamEvent} (htidy : Tidy s)
    (h : eventsOf s frame.event frame.data = .ok (events, next)) :
    BlockEffect s frame events next := by
  obtain ⟨event, data⟩ := frame
  unfold eventsOf at h
  dsimp only at h
  split at h
  · rename_i hclosed
    cases h
    exact .untouched rfl rfl id (fun _ => hclosed) fun _ h => (List.not_mem_nil h).elim
  rename_i hopen
  rw [Bool.not_eq_true] at hopen
  split at h
  · rename_i heq
    cases heq
    cases h
    exact .untouched rfl rfl id (by simp) fun _ h => (List.not_mem_nil h).elim
  split at h
  · obtain ⟨index, hindex, h⟩ := bind_eq_ok.mp h
    obtain ⟨t, ht, h⟩ := bind_eq_ok.mp h
    cases h
    unfold ConverseSseParser.closeBlock at ht
    split at ht
    · rename_i hmem
      cases ht
      exact .stopped index hindex rfl rfl (Finset.insert_eq_self.mpr (htidy hmem)).symm hopen
    · rename_i hnot
      split at ht
      · cases ht
        exact .stopped index hindex rfl (Finset.erase_eq_of_notMem hnot).symm rfl hopen
      · cases ht
  split at h
  · rename_i heq
    cases heq
    obtain ⟨index, hindex, h⟩ := bind_eq_ok.mp h
    obtain ⟨t, ht, h⟩ := bind_eq_ok.mp h
    cases h
    unfold ConverseSseParser.openBlock at ht
    split at ht
    · rename_i hnew
      cases ht
      rcases startEvents_cases index data with ⟨-, hevents⟩ | ⟨-, id, name, hevents⟩
      · exact .said index hindex (by simp) (.inr hnew.1) rfl rfl hopen (by rw [hevents]; simp)
          (by rw [hevents]; simp) (by rw [hevents]; simp)
      · refine .said index hindex (by simp) (.inr hnew.1) rfl rfl hopen (by rw [hevents]; simp) ?_ ?_
        · rw [hevents]
          intro event hevent i hi
          obtain rfl := List.mem_singleton.mp hevent
          exact (of_decide_eq_true hi).symm
        · rw [hevents]
          intro event hevent i hi
          obtain rfl := List.mem_singleton.mp hevent
          have hindex : i = index := (of_decide_eq_true (opensCall_of_names hi)).symm
          exact ⟨hindex, hindex ▸ hnew.1⟩
    · cases ht
  split at h
  · rename_i heq
    cases heq
    obtain ⟨index, hindex, h⟩ := bind_eq_ok.mp h
    obtain ⟨t, ht, h⟩ := bind_eq_ok.mp h
    cases h
    have hone : (deltaEvents index data).length ≤ 1 := by
      rcases deltaEvents_cases index data with ⟨-, hevents⟩ | ⟨-, event, hevents, -⟩
      · rw [hevents]
        exact Nat.zero_le _
      · rw [hevents]
        exact le_rfl
    have hnames : ∀ event ∈ deltaEvents index data, ∀ i, names i event = true → i = index :=
      fun event hevent => (mem_deltaEvents hevent).1
    have hopens : ∀ event ∈ deltaEvents index data, ∀ i, opensCall i event = true →
        i = index ∧ i ∉ s.seenBlocks := fun event hevent i hi => by
      rw [(mem_deltaEvents hevent).2 i] at hi
      cases hi
    unfold ConverseSseParser.openBlockForDelta at ht
    split at ht
    · rename_i hmem
      cases ht
      exact .said index hindex (by simp) (.inl hmem) (Finset.insert_eq_self.mpr hmem).symm
        (Finset.insert_eq_self.mpr (htidy hmem)).symm hopen hone hnames hopens
    · split at ht
      · rename_i hnew
        cases ht
        exact .said index hindex (by simp) (.inr hnew) rfl rfl hopen hone hnames hopens
      · cases ht
  rename_i hstop _ _
  split at h
  · split at h
    · cases h
    · cases h
      refine .untouched rfl rfl id (fun h => absurd h hstop) ?_
      intro event hevent
      obtain rfl := List.mem_singleton.mp hevent
      rfl
  split at h
  · split at h
    · cases h
    · obtain ⟨usage, -, h⟩ := bind_eq_ok.mp h
      cases h
      refine .untouched rfl rfl (fun _ => rfl) (fun _ => rfl) ?_
      intro event hevent
      rcases List.mem_cons.mp hevent with rfl | hevent
      · rfl
      · obtain rfl := List.mem_singleton.mp hevent
        rfl
  split at h
  · cases h
    refine .untouched rfl rfl (fun _ => rfl) (fun _ => rfl) ?_
    intro event hevent
    obtain rfl := List.mem_singleton.mp hevent
    rfl
  · cases h
    exact .untouched rfl rfl id (fun h => absurd h hstop) fun _ h => (List.not_mem_nil h).elim

theorem tidy_next {s next : ConverseSseParser} {frame : EventFrame} {events : List StreamEvent}
    (htidy : Tidy s) (h : BlockEffect s frame events next) : Tidy next := by
  unfold Tidy at htidy ⊢
  cases h with
  | untouched hopen hseen =>
      rw [hopen, hseen]
      exact htidy
  | stopped index hblock hsilent hopen hseen =>
      rw [hopen, hseen]
      exact (Finset.erase_subset _ _).trans (htidy.trans (Finset.subset_insert _ _))
  | said index hblock hevent hfree hopen hseen =>
      rw [hopen, hseen]
      exact Finset.insert_subset_insert _ htidy

/-- Stopped blocks stay stopped. -/
theorem stopped_next {s next : ConverseSseParser} {frame : EventFrame} {events : List StreamEvent}
    {index : Nat} (hstopped : Stopped index s) (h : BlockEffect s frame events next) :
    Stopped index next := by
  cases h with
  | untouched hopen hseen hclosed =>
      unfold Stopped
      rw [hopen, hseen]
      exact hstopped.imp hclosed id
  | stopped i hblock hsilent hopen hseen hclosed =>
      obtain hclosed' | ⟨hmem, hnot⟩ := hstopped
      · exact absurd (hclosed'.symm.trans hclosed) (by decide)
      · right
        rw [hopen, hseen]
        exact ⟨Finset.mem_insert_of_mem hmem, fun h => hnot (Finset.mem_of_mem_erase h)⟩
  | said i hblock hevent hfree hopen hseen hclosed =>
      obtain hclosed' | ⟨hmem, hnot⟩ := hstopped
      · exact absurd (hclosed'.symm.trans hclosed) (by decide)
      · right
        rw [hopen, hseen]
        refine ⟨Finset.mem_insert_of_mem hmem, fun h => ?_⟩
        rcases Finset.mem_insert.mp h with rfl | h
        · exact hfree.elim hnot fun hnew => hnew hmem
        · exact hnot h

/-- Nothing is said of a stopped block. -/
theorem silent_of_stopped {s next : ConverseSseParser} {frame : EventFrame}
    {events : List StreamEvent} {index : Nat} (hstopped : Stopped index s)
    (h : BlockEffect s frame events next) (hblock : blockIndex frame.data = .ok index) :
    ∀ event ∈ events, buildsAnswer event = false := by
  cases h with
  | untouched _ _ _ _ hevents => exact hevents
  | stopped i hblock' hsilent =>
      rw [hsilent]
      exact fun _ h => (List.not_mem_nil h).elim
  | said i hblock' hevent hfree hopen hseen hclosed =>
      obtain rfl := Except.ok.inj (hblock'.symm.trans hblock)
      obtain hclosed' | ⟨hmem, hnot⟩ := hstopped
      · exact absurd (hclosed'.symm.trans hclosed) (by decide)
      · exact hfree.elim (fun h => absurd h hnot) fun h => absurd hmem h

theorem silent_run {s last : ConverseSseParser} {steps : List Step} {index : Nat}
    (h : Run s steps last) (htidy : Tidy s) (hstopped : Stopped index s) :
    ∀ step ∈ steps, blockIndex step.frame.data = .ok index →
      ∀ event ∈ step.events, buildsAnswer event = false := by
  induction h with
  | nil => exact fun _ h => (List.not_mem_nil h).elim
  | cons hstep rest ih =>
      have heffect := blockEffect_of htidy hstep
      exact List.forall_mem_cons.mpr ⟨silent_of_stopped hstopped heffect,
        ih (tidy_next htidy heffect) (stopped_next hstopped heffect)⟩

theorem nothingAfterStop_run {s last : ConverseSseParser} {steps : List Step}
    (h : Run s steps last) (htidy : Tidy s) : NothingAfterStop steps := by
  induction h with
  | nil => exact .nil
  | @cons s next last frame events steps hstep rest ih =>
      have heffect := blockEffect_of htidy hstep
      refine List.pairwise_cons.mpr ⟨?_, ih (tidy_next htidy heffect)⟩
      intro after hafter hevent index hbefore hindex
      have hstopped : Stopped index next := by
        cases heffect with
        | untouched _ _ _ hstop => exact .inl (hstop hevent)
        | stopped i hblock hsilent hopen hseen =>
            obtain rfl := Except.ok.inj (hblock.symm.trans hbefore)
            right
            rw [hopen, hseen]
            exact ⟨Finset.mem_insert_self _ _, Finset.notMem_erase _ _⟩
        | said _ _ hnot => exact absurd hevent hnot
      exact silent_run rest (tidy_next htidy heffect) hstopped after hafter hindex

/-- Calls are opened in slots that no event has named. -/
theorem firstOfSlot_run {s last : ConverseSseParser} {steps : List Step} (h : Run s steps last)
    (htidy : Tidy s) :
    FirstOfSlot (eventsIn steps) ∧ ∀ event ∈ eventsIn steps, ∀ index,
      opensCall index event = true → index ∉ s.seenBlocks := by
  induction h with
  | nil => exact ⟨.nil, fun _ h => (List.not_mem_nil h).elim⟩
  | @cons s next last frame events steps hstep rest ih =>
      have heffect := blockEffect_of htidy hstep
      obtain ⟨hfirst, hfresh⟩ := ih (tidy_next htidy heffect)
      rw [eventsIn_cons]
      have hgiven : FirstOfSlot events ∧ s.seenBlocks ⊆ next.seenBlocks ∧
          ∀ event ∈ events, ∀ index, (names index event = true → index ∈ next.seenBlocks) ∧
            (opensCall index event = true → index ∉ s.seenBlocks) := by
        have hunnamed (hsilent : ∀ event ∈ events, buildsAnswer event = false) :
            ∀ event ∈ events, ∀ index, names index event = false :=
          fun event hevent => not_names_of_not_answer (hsilent event hevent)
        have hnever (hnone : ∀ event ∈ events, ∀ index, names index event = false) :
            FirstOfSlot events ∧
              ∀ event ∈ events, ∀ index, (names index event = true → index ∈ next.seenBlocks) ∧
                (opensCall index event = true → index ∉ s.seenBlocks) := by
          refine ⟨List.pairwise_of_forall_mem_list fun before hbefore _ _ index _ =>
            hnone before hbefore index, fun event hevent index => ⟨fun h => ?_, fun h => ?_⟩⟩
          · exact absurd (h.symm.trans (hnone event hevent index)) (by decide)
          · exact absurd ((opensCall_of_names h).symm.trans (hnone event hevent index)) (by decide)
        cases heffect with
        | untouched hopen hseen hclosed hstop hevents =>
            obtain ⟨hslot, hnamed⟩ := hnever (hunnamed hevents)
            exact ⟨hslot, hseen ▸ Finset.Subset.refl _, hnamed⟩
        | stopped index hblock hsilent hopen hseen =>
            obtain ⟨hslot, hnamed⟩ := hnever (by simp [hsilent])
            exact ⟨hslot, hseen ▸ Finset.subset_insert _ _, hnamed⟩
        | said index hblock hevent hfree hopen hseen hclosed hone hnames hopens =>
            refine ⟨?_, hseen ▸ Finset.subset_insert _ _, fun event hevent i => ⟨fun h => ?_,
              fun h => (hopens event hevent i h).2⟩⟩
            · match events, hone with
              | [], _ => exact .nil
              | [event], _ => exact List.pairwise_singleton _ _
            · rw [hseen, hnames event hevent i h]
              exact Finset.mem_insert_self _ _
      obtain ⟨hslot, hseen, hnamed⟩ := hgiven
      constructor
      · refine List.pairwise_append.mpr ⟨hslot, hfirst, ?_⟩
        intro before hbefore after hafter index hopens
        have hnot := hfresh after hafter index hopens
        rw [Bool.eq_false_iff]
        exact fun h => hnot ((hnamed before hbefore index).1 h)
      · intro event hevent index hopens
        rcases List.mem_append.mp hevent with hevent | hevent
        · exact (hnamed event hevent index).2 hopens
        · exact fun h => hfresh event hevent index hopens (hseen h)

/-! ## The ending -/

/-- How a stream should go: two phases, ids first, and nothing after a block's stop. -/
structure EndsInTwoPhases (steps : List Step) : Prop where
  phases : TwoPhases (eventsIn steps)
  ids_first : FirstOfSlot (eventsIn steps)
  after_stop : NothingAfterStop steps

/-- However its bytes arrive, an accepted stream goes as it should exactly when no
frame speaks between its first `messageStop` and its close. -/
theorem two_phases_iff_quiet (fromStr : String → Option Value) (chunks : List (List UInt8))
    (events : List StreamEvent) (last : ConverseSseParser × List UInt8)
    (h : parseChunks fromStr converseStream (.new, []) chunks = .ok (events, last)) :
    ∃ steps, Run .new steps last.1 ∧ steps.map Step.frame = framesIn fromStr chunks.flatten ∧
      eventsIn steps = events ∧
      (EndsInTwoPhases steps ↔ QuietAfterFinish (framesIn fromStr chunks.flatten)) := by
  obtain ⟨steps, hrun, hframes, hevents⟩ := run_of_chunks h
  refine ⟨steps, hrun, hframes, hevents, ?_⟩
  have htidy : Tidy .new := Finset.Subset.refl _
  have hphases := twoPhases_iff hrun rfl rfl
  rw [hframes] at hphases
  constructor
  · exact fun hends => hphases.mp hends.phases
  · exact fun hquiet => ⟨hphases.mpr hquiet, (firstOfSlot_run hrun htidy).1,
      nothingAfterStop_run hrun htidy⟩

/-- A JSON library that reads the three documents used here. -/
def threeDocuments (text : String) : Option Value :=
  if text = "\x7b\"stopReason\":\"end_turn\"\x7d" then
    some (.obj [("stopReason", .string "end_turn")])
  else if text = "\x7b\"contentBlockIndex\":0,\"delta\":\x7b\"text\":\"late\"\x7d\x7d" then
    some (.obj [("contentBlockIndex", .nat 0), ("delta", .obj [("text", .string "late")])])
  else if text =
      "\x7b\"usage\":\x7b\"inputTokens\":2,\"outputTokens\":1,\"totalTokens\":3\x7d\x7d" then
    some (.obj [("usage", .obj [("inputTokens", .nat 2), ("outputTokens", .nat 1),
      ("totalTokens", .nat 3)])])
  else none

def stopFrame : List UInt8 :=
  bytes "event: messageStop\ndata: \x7b\"stopReason\":\"end_turn\"\x7d\n\n"

def lateFrame : List UInt8 :=
  bytes "event: contentBlockDelta\ndata: \x7b\"contentBlockIndex\":0,\"delta\":\x7b\"text\":\"late\"\x7d\x7d\n\n"

def metadataFrame : List UInt8 :=
  bytes "event: metadata\ndata: \x7b\"usage\":\x7b\"inputTokens\":2,\"outputTokens\":1,\"totalTokens\":3\x7d\x7d\n\n"

theorem stopped_stream_ends : ∃ steps,
    EndsInTwoPhases steps ∧ (eventsIn steps).length = 3 := by
  obtain ⟨⟨events, last⟩, hread⟩ := exists_of_isOk (x := parseChunks threeDocuments converseStream
    (.new, []) [stopFrame, metadataFrame]) (by decide +kernel)
  have hlength : ((parseChunks threeDocuments converseStream (.new, [])
      [stopFrame, metadataFrame]).map fun given => given.1.length) = .ok 3 := by
    decide +kernel
  obtain ⟨steps, -, -, hevents, hends⟩ := two_phases_iff_quiet threeDocuments
    [stopFrame, metadataFrame] events last hread
  refine ⟨steps, hends.mpr (by unfold QuietAfterFinish; decide +kernel), ?_⟩
  rw [hread] at hlength
  rw [hevents]
  exact Except.ok.inj hlength

/-- Content after the finish is passed on. -/
theorem late_content_is_accepted : ∃ last,
    parseChunks threeDocuments converseStream (.new, []) [stopFrame, lateFrame] =
        .ok ([.finish (some .stop) none, .delta 0 "late"], last) ∧
      ¬TwoPhases [.finish (some .stop) none, .delta 0 "late"] := by
  refine ⟨(⟨some .stop, false, {0}, {0}⟩, []), by decide +kernel, ?_⟩
  rw [twoPhases_cons_finish]
  exact not_ends_answer rfl

end Converse

end TokenStation.Eventstream
