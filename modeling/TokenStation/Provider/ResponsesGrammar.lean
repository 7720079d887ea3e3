import TokenStation.Provider.ResponsesStream
import TokenStation.Provider.TerminalFrames

/-!
# The grammar of Responses streams

A frame of a Responses stream streams content, ends the stream or reports its
failure. A call is announced by the item event that carries it, while the
finish reason is read off the output of the terminal response.
-/

namespace TokenStation.Responses

/-- Fragments of a call. -/
def StreamEvent.isCall : StreamEvent → Bool
  | .toolCallDelta _ _ _ _ _ => true
  | _ => false

end TokenStation.Responses

namespace TokenStation.Provider

open Library Library.ChunkedReading Library.Json Responses Sse

namespace ResponsesApi

/-- The finish, the usage and the close, or a failure after its usage. -/
def Terminal (events : List StreamEvent) : Prop :=
  (∃ (reason : Option FinishReason) (usage : Usage),
      events = [.finish reason none, .usage usage, .done none none]) ∨
    ∃ (usage : Option Usage) (e : ErrorEnvelope),
      events = (usage.map StreamEvent.usage).toList ++ [.error e]

/-- An item that is a call. -/
def isCallItem (item : Value) : Bool :=
  (item.get "type").bind Value.asStr == some "function_call"

/-- A frame that carries a call item. -/
def announces (frame : Value) : Bool :=
  ["response.output_item.added", "response.output_item.done"].any
      (fun kind => (frame.get "type").bind Value.asStr == some kind) &&
    (frame.get "item").any isCallItem

/-- A response whose output holds a call item. -/
def holdsCall (response : Value) : Bool :=
  (((response.get "output").bind Value.asArray).getD []).any isCallItem

/-! ## What a handler does -/

/-- A handler's effect on a stream that goes on: its events are content, and
a call is opened by the item that carries it. -/
structure Streams (s : ResponsesStreamParser) (opens : Bool) (events : List StreamEvent)
    (t : ResponsesStreamParser) : Prop where
  spoken : ∀ event ∈ events, event.isSpoken = true
  ended : t.ended = s.ended
  calls : t.calls = [] ↔ s.calls = [] ∧ opens = false
  opened : s.calls = [] → ((∃ event ∈ events, event.isCall = true) ↔ opens = true)

/-- Handlers that leave the calls alone. -/
theorem streams_quiet {s t : ResponsesStreamParser} {events : List StreamEvent}
    (hspoken : ∀ event ∈ events, event.isSpoken = true ∧ event.isCall = false)
    (hended : t.ended = s.ended) (hcalls : t.calls = s.calls) : Streams s false events t where
  spoken event hevent := (hspoken event hevent).1
  ended := hended
  calls := by simp [hcalls]
  opened _ := by
    simp only [Bool.false_eq_true, iff_false, not_exists, not_and, Bool.not_eq_true]
    exact fun event hevent => (hspoken event hevent).2

/-- Handlers of a call that is open already. -/
theorem streams_known {s t : ResponsesStreamParser} {opens : Bool} {events : List StreamEvent}
    (hspoken : ∀ event ∈ events, event.isSpoken = true) (hended : t.ended = s.ended)
    (hknown : s.calls ≠ []) (hcalls : t.calls ≠ []) : Streams s opens events t where
  spoken := hspoken
  ended := hended
  calls := by simp [hknown, hcalls]
  opened h := absurd h hknown

theorem store_ne_nil {κ ν : Type} [DecidableEq κ] (key : κ) (value : ν)
    (entries : List (κ × ν)) : store key value entries ≠ [] := by
  cases entries with
  | nil => simp [store]
  | cons e entries =>
      rw [store]
      split <;> simp

theorem calls_ne_nil {s : ResponsesStreamParser} {id : String} {call : CallState}
    (h : lookup id s.calls = some call) : s.calls ≠ [] := by
  rintro hnil
  rw [hnil] at h
  cases h

theorem bindResponse_ok {s t : ResponsesStreamParser} {response : Option Value}
    (h : s.bindResponse response = .ok t) : t.ended = s.ended ∧ t.calls = s.calls := by
  unfold ResponsesStreamParser.bindResponse at h
  split at h
  · cases h
  · split at h
    · cases h
    · split at h
      · split at h
        · cases h
        · cases h
          exact ⟨rfl, rfl⟩
      · cases h
        exact ⟨rfl, rfl⟩

theorem recordItem_ok {s t : ResponsesStreamParser} {id kind : String} {outputIndex : Nat}
    {done : Bool} (h : s.recordItem id outputIndex kind done = .ok t) :
    t.ended = s.ended ∧ t.calls = s.calls := by
  unfold ResponsesStreamParser.recordItem at h
  split at h
  · split at h
    · cases h
    · cases h
      exact ⟨rfl, rfl⟩
  · cases h
    exact ⟨rfl, rfl⟩

/-- The rest of a call's arguments, if there is one. -/
theorem settleArguments_ok {call next : CallState} {arguments : String}
    {event : Option StreamEvent}
    (h : ResponsesStreamParser.settleArguments call arguments = .ok (event, next)) :
    ∀ fragment ∈ event.toList, fragment.isSpoken = true := by
  unfold ResponsesStreamParser.settleArguments at h
  split at h
  · cases h
  · rename_i rest _
    simp only [Except.ok.injEq, Prod.mk.injEq] at h
    obtain ⟨rfl, -⟩ := h
    split <;> simp [StreamEvent.isSpoken]

theorem callEvent_ok {s t : ResponsesStreamParser} {id callId name : String}
    {arguments : Option String} {done : Bool} {events : List StreamEvent}
    (h : s.callEvent id callId name arguments done = .ok (events, t)) :
    Streams s true events t := by
  unfold ResponsesStreamParser.callEvent at h
  split at h
  · cases h
  · dsimp only at h
    split at h
    · rename_i call hcall
      split at h
      · cases h
      · rw [Checked.bind_eq_ok] at h
        obtain ⟨⟨event, next⟩, hsettle, h⟩ := h
        rw [Checked.pure_eq_ok, Prod.mk.injEq] at h
        obtain ⟨rfl, rfl⟩ := h
        exact streams_known (settleArguments_ok hsettle) rfl (calls_ne_nil hcall)
          (store_ne_nil _ _ _)
    · split at h
      · cases h
        exact {
          spoken := by simp [StreamEvent.isSpoken]
          ended := rfl
          calls := by simp [store_ne_nil]
          opened := by simp [StreamEvent.isCall] }
      · cases h

/-- An item is read as a call exactly when it is one. -/
theorem outputItem_ok {raw : Value} {item : OutputItem} (h : outputItem raw = .ok item) :
    isCallItem raw = true ↔ ∃ callId name arguments, item = .functionCall callId name arguments := by
  unfold outputItem at h
  unfold isCallItem
  generalize (raw.get "type").bind Value.asStr = kind at h ⊢
  split at h
  · split at h
    · cases h
    · rw [Checked.bind_eq_ok] at h
      obtain ⟨texts, -, h⟩ := h
      rw [Checked.pure_eq_ok] at h
      subst h
      simp
  · simp only [Checked.bind_eq_ok, Checked.pure_eq_ok] at h
    obtain ⟨callId, -, name, -, arguments, -, rfl⟩ := h
    simp
  · simp only [Checked.bind_eq_ok, Checked.pure_eq_ok] at h
    obtain ⟨summary, -, content, -, rfl⟩ := h
    simp
  · cases h
  · cases h

theorem outputItemEvent_ok {s t : ResponsesStreamParser} {frame : Value} {done : Bool}
    {events : List StreamEvent} (h : s.outputItemEvent frame done = .ok (events, t)) :
    Streams s ((frame.get "item").any isCallItem) events t := by
  rw [ResponsesStreamParser.outputItemEvent, Checked.bind_eq_ok] at h
  obtain ⟨outputIndex, -, h⟩ := h
  split at h
  · cases h
  · rename_i raw hraw
    rw [Checked.bind_eq_ok] at h
    obtain ⟨item, hitem, h⟩ := h
    have hcall := outputItem_ok hitem
    rw [hraw, Option.any_some]
    split at h
    · cases h
    · rw [Checked.bind_eq_ok] at h
      obtain ⟨u, hrecord, h⟩ := h
      obtain ⟨hended, hcalls⟩ := recordItem_ok hrecord
      split at h
      · rename_i callId name arguments
        rw [hcall.mpr ⟨_, _, _, rfl⟩]
        obtain ⟨hspoken, hended', hcalls', hopened⟩ := callEvent_ok h
        exact ⟨hspoken, hended'.trans hended, by rw [hcalls', hcalls],
          fun hnone => hopened (hcalls.trans hnone)⟩
      · rename_i hother
        rw [Checked.pure_eq_ok, Prod.mk.injEq] at h
        obtain ⟨rfl, rfl⟩ := h
        have hnot : isCallItem raw = false := by
          rw [← Bool.not_eq_true, hcall]
          rintro ⟨callId, name, arguments, rfl⟩
          exact hother _ _ _ rfl
        rw [hnot]
        exact streams_quiet (by simp) hended hcalls

theorem contentPartEvent_ok {s t : ResponsesStreamParser} {frame : Value} {done : Bool}
    {events : List StreamEvent} (h : s.contentPartEvent frame done = .ok (events, t)) :
    Streams s false events t := by
  rw [ResponsesStreamParser.contentPartEvent, Checked.bind_eq_ok] at h
  obtain ⟨itemId, -, h⟩ := h
  rw [Checked.bind_eq_ok] at h
  obtain ⟨outputIndex, -, h⟩ := h
  rw [Checked.bind_eq_ok] at h
  obtain ⟨contentIndex, -, h⟩ := h
  split at h
  · cases h
  · split at h
    · cases h
    · dsimp only at h
      split at h
      · split at h
        · cases h
        · cases h
          exact streams_quiet (by simp) rfl rfl
      · cases h
        exact streams_quiet (by simp) rfl rfl

theorem textDelta_ok {s t : ResponsesStreamParser} {frame : Value} {events : List StreamEvent}
    (h : s.textDelta frame = .ok (events, t)) : Streams s false events t := by
  rw [ResponsesStreamParser.textDelta, Checked.bind_eq_ok] at h
  obtain ⟨_, -, h⟩ := h
  rw [Checked.bind_eq_ok] at h
  obtain ⟨delta, -, h⟩ := h
  rw [Checked.pure_eq_ok, Prod.mk.injEq] at h
  obtain ⟨rfl, rfl⟩ := h
  refine streams_quiet ?_ rfl rfl
  split <;> simp [StreamEvent.isSpoken, StreamEvent.isCall]

theorem textDone_ok {s t : ResponsesStreamParser} {frame : Value} {key : String}
    {events : List StreamEvent} (h : s.textDone frame key = .ok (events, t)) :
    Streams s false events t := by
  rw [ResponsesStreamParser.textDone, Checked.bind_eq_ok] at h
  obtain ⟨_, -, h⟩ := h
  rw [Checked.bind_eq_ok] at h
  obtain ⟨_, -, h⟩ := h
  cases h
  exact streams_quiet (by simp) rfl rfl

theorem annotation_ok {s t : ResponsesStreamParser} {frame : Value} {events : List StreamEvent}
    (h : s.annotation frame = .ok (events, t)) : Streams s false events t := by
  rw [ResponsesStreamParser.annotation, Checked.bind_eq_ok] at h
  obtain ⟨_, -, h⟩ := h
  rw [Checked.bind_eq_ok] at h
  obtain ⟨_, -, h⟩ := h
  rw [Checked.bind_eq_ok] at h
  obtain ⟨_, -, h⟩ := h
  cases h
  exact streams_quiet (by simp) rfl rfl

theorem summaryPart_ok {s t : ResponsesStreamParser} {frame : Value} {events : List StreamEvent}
    (h : s.summaryPart frame = .ok (events, t)) : Streams s false events t := by
  rw [ResponsesStreamParser.summaryPart, Checked.bind_eq_ok] at h
  obtain ⟨_, -, h⟩ := h
  rw [Checked.bind_eq_ok] at h
  obtain ⟨_, -, h⟩ := h
  rw [Checked.bind_eq_ok] at h
  obtain ⟨_, -, h⟩ := h
  rw [Checked.bind_eq_ok] at h
  obtain ⟨_, -, h⟩ := h
  cases h
  exact streams_quiet (by simp) rfl rfl

theorem block_ok (s : ResponsesStreamParser) (itemId : String) (content : Bool) (index : Nat) :
    (s.block itemId content index).2.ended = s.ended ∧
      (s.block itemId content index).2.calls = s.calls := by
  unfold ResponsesStreamParser.block
  dsimp only
  split <;> exact ⟨rfl, rfl⟩

theorem reasoningEvent_ok {s t : ResponsesStreamParser} {frame : Value} {content done : Bool}
    {events : List StreamEvent} (h : s.reasoningEvent frame content done = .ok (events, t)) :
    Streams s false events t := by
  rw [ResponsesStreamParser.reasoningEvent, Checked.bind_eq_ok] at h
  obtain ⟨itemId, -, h⟩ := h
  rw [Checked.bind_eq_ok] at h
  obtain ⟨_, -, h⟩ := h
  rw [Checked.bind_eq_ok] at h
  obtain ⟨index, -, h⟩ := h
  rw [Checked.bind_eq_ok] at h
  obtain ⟨payload, -, h⟩ := h
  split at h
  · cases h
    exact streams_quiet (by simp) rfl rfl
  · rw [Checked.pure_eq_ok, Prod.mk.injEq] at h
    obtain ⟨rfl, rfl⟩ := h
    obtain ⟨hended, hcalls⟩ := block_ok s itemId content index
    exact streams_quiet (by simp [StreamEvent.isSpoken, StreamEvent.isCall]) hended hcalls

theorem argumentsEvent_ok {s t : ResponsesStreamParser} {frame : Value} {done : Bool}
    {events : List StreamEvent} (h : s.argumentsEvent frame done = .ok (events, t)) :
    Streams s false events t := by
  rw [ResponsesStreamParser.argumentsEvent, Checked.bind_eq_ok] at h
  obtain ⟨itemId, -, h⟩ := h
  rw [Checked.bind_eq_ok] at h
  obtain ⟨_, -, h⟩ := h
  rw [Checked.bind_eq_ok] at h
  obtain ⟨payload, -, h⟩ := h
  split at h
  · cases h
  · rename_i call hcall
    have hknown := calls_ne_nil hcall
    split at h
    · cases h
    · split at h
      · rw [Checked.bind_eq_ok] at h
        obtain ⟨_, -, h⟩ := h
        rw [Checked.bind_eq_ok] at h
        obtain ⟨⟨event, next⟩, hsettle, h⟩ := h
        rw [Checked.pure_eq_ok, Prod.mk.injEq] at h
        obtain ⟨rfl, rfl⟩ := h
        exact streams_known (settleArguments_ok hsettle) rfl hknown (store_ne_nil _ _ _)
      · split at h
        · cases h
          exact streams_quiet (by simp) rfl rfl
        · cases h
          exact streams_known (by simp [StreamEvent.isSpoken]) rfl hknown (store_ne_nil _ _ _)

/-! ## The terminal response -/

theorem readOutput_ok {read next : OutputRead} {entry : Value}
    (h : readOutput read entry = .ok next) :
    next.toolCalls = [] ↔ read.toolCalls = [] ∧ isCallItem entry = false := by
  rw [readOutput, Checked.bind_eq_ok] at h
  obtain ⟨item, hitem, h⟩ := h
  have hcall := outputItem_ok hitem
  split at h
  · have hnot : isCallItem entry = false := by simpa using hcall
    rw [Checked.pure_eq_ok] at h
    simp [← h, hnot]
  · cases h
  · have hyes : isCallItem entry = true := hcall.mpr ⟨_, _, _, rfl⟩
    rw [Checked.pure_eq_ok] at h
    simp [← h, hyes]
  · have hnot : isCallItem entry = false := by simpa using hcall
    rw [Checked.pure_eq_ok] at h
    simp [← h, hnot]

theorem foldlM_readOutput {output : List Value} {read next : OutputRead}
    (h : output.foldlM readOutput read = .ok next) :
    next.toolCalls = [] ↔ read.toolCalls = [] ∧ output.any isCallItem = false := by
  induction output generalizing read with
  | nil =>
      cases h
      simp
  | cons entry output ih =>
      rw [List.foldlM_cons, Checked.bind_eq_ok] at h
      obtain ⟨between, hentry, h⟩ := h
      rw [ih h, readOutput_ok hentry, List.any_cons, Bool.or_eq_false_iff, and_assoc]

theorem terminalStatus_ok {raw : Value} {reason : FinishReason}
    (h : terminalStatus raw = .ok reason) : reason ≠ .toolCalls := by
  unfold terminalStatus at h
  split at h
  · cases h
    decide
  · split at h
    · cases h
      decide
    · cases h
      decide
    · cases h
  · cases h

/-- The finish reason of a response: the calls of its output come first. -/
theorem responseOf_ok {raw : Value} {parsed : ChatResponse} (h : responseOf raw = .ok parsed) :
    ∃ reason, parsed.choices.head?.bind (·.finishReason) = some reason ∧
      (reason = .toolCalls ↔ holdsCall raw = true) := by
  rw [responseOf, Checked.bind_eq_ok] at h
  obtain ⟨_, -, h⟩ := h
  rw [Checked.bind_eq_ok] at h
  obtain ⟨_, -, h⟩ := h
  rw [Checked.bind_eq_ok] at h
  obtain ⟨status, hstatus, h⟩ := h
  rw [Checked.bind_eq_ok] at h
  obtain ⟨_, -, h⟩ := h
  split at h
  · cases h
  · rename_i output houtput
    rw [Checked.bind_eq_ok] at h
    obtain ⟨read, hread, h⟩ := h
    rw [Checked.bind_eq_ok] at h
    obtain ⟨usage, -, h⟩ := h
    rw [Checked.pure_eq_ok] at h
    subst h
    have hcalls := foldlM_readOutput hread
    have hholds : holdsCall raw = output.any isCallItem := by simp [holdsCall, houtput]
    refine ⟨_, rfl, ?_⟩
    rw [hholds]
    by_cases hempty : read.toolCalls = []
    · have hnone := (hcalls.mp hempty).2
      simp [hempty, hnone, terminalStatus_ok hstatus]
    · have hsome : output.any isCallItem = true := by
        by_contra hnone
        exact hempty (hcalls.mpr ⟨rfl, by simpa using hnone⟩)
      simp [hempty, hsome]

/-! ## Frames -/

/-- What an accepted frame does: it streams, ends the stream, or reports its
failure. -/
inductive Accepted (s : ResponsesStreamParser) (frame : Value) :
    List StreamEvent → ResponsesStreamParser → Prop where
  | streamed {events : List StreamEvent} {t : ResponsesStreamParser}
      (h : Streams s (announces frame) events t) : Accepted s frame events t
  | finished {reason : FinishReason} {usage : Usage} {t : ResponsesStreamParser}
      (hended : t.ended = true) (hcalls : t.calls = s.calls) (hquiet : announces frame = false)
      (hreason : reason = .toolCalls ↔
        holdsCall ((frame.get "response").getD .null) = true) :
      Accepted s frame [.finish (some reason) none, .usage usage, .done none none] t
  | failed {usage : Option Usage} {e : ErrorEnvelope} {t : ResponsesStreamParser}
      (hended : t.ended = true) :
      Accepted s frame ((usage.map StreamEvent.usage).toList ++ [.error e]) t

theorem terminal_ok {s t : ResponsesStreamParser} {frame : Value} {status : String}
    {events : List StreamEvent} (hquiet : announces frame = false)
    (h : s.terminal frame status = .ok (events, t)) : Accepted s frame events t := by
  rw [ResponsesStreamParser.terminal, Checked.bind_eq_ok] at h
  obtain ⟨u, hbind, h⟩ := h
  rw [Checked.bind_eq_ok] at h
  obtain ⟨_, -, h⟩ := h
  rw [Checked.bind_eq_ok] at h
  obtain ⟨parsed, hparsed, h⟩ := h
  rw [Checked.pure_eq_ok, Prod.mk.injEq] at h
  obtain ⟨rfl, rfl⟩ := h
  obtain ⟨reason, hfirst, hreason⟩ := responseOf_ok hparsed
  rw [hfirst]
  exact .finished rfl (bindResponse_ok hbind).2 hquiet hreason

theorem failure_ok {s t : ResponsesStreamParser} {frame error : Value}
    {events : List StreamEvent} (h : s.failure frame error = .ok (events, t)) :
    Accepted s frame events t := by
  rw [ResponsesStreamParser.failure, Checked.bind_eq_ok] at h
  obtain ⟨u, -, h⟩ := h
  rw [Checked.pure_eq_ok, Prod.mk.injEq] at h
  obtain ⟨rfl, rfl⟩ := h
  unfold ResponsesStreamParser.failureUsage
  split
  · split
    · rename_i usage _
      exact @Accepted.failed _ _ (some usage) _ _ rfl
    · exact @Accepted.failed _ _ none _ _ rfl
  · exact @Accepted.failed _ _ none _ _ rfl

theorem bound_ok {s t : ResponsesStreamParser} {response : Option Value}
    {events : List StreamEvent}
    (h : (do let s ← s.bindResponse response; return ([], s) : Read) = .ok (events, t)) :
    Streams s false events t := by
  rw [Checked.bind_eq_ok] at h
  obtain ⟨u, hbind, h⟩ := h
  rw [Checked.pure_eq_ok, Prod.mk.injEq] at h
  obtain ⟨rfl, rfl⟩ := h
  exact streams_quiet (by simp) (bindResponse_ok hbind).1 (bindResponse_ok hbind).2

theorem dispatch_ok {s t : ResponsesStreamParser} {frame : Value} {kind : String}
    {events : List StreamEvent} (hkind : (frame.get "type").bind Value.asStr = some kind)
    (h : s.dispatch kind frame = .ok (events, t)) : Accepted s frame events t := by
  have hquiet : kind ∉ ["response.output_item.added", "response.output_item.done"] →
      announces frame = false := by
    intro hnot
    simp only [announces, hkind]
    simp_all
  have hitem : kind ∈ ["response.output_item.added", "response.output_item.done"] →
      Streams s ((frame.get "item").any isCallItem) events t → Accepted s frame events t := by
    intro hmem hstreams
    have hannounces : announces frame = (frame.get "item").any isCallItem := by
      simp only [announces, hkind]
      simp_all
    exact .streamed (by rw [hannounces]; exact hstreams)
  have hother : kind ∉ ["response.output_item.added", "response.output_item.done"] →
      Streams s false events t → Accepted s frame events t := by
    intro hnot hstreams
    exact .streamed (by rw [hquiet hnot]; exact hstreams)
  unfold ResponsesStreamParser.dispatch at h
  split at h
  · exact hother (by decide) (bound_ok h)
  · exact hother (by decide) (bound_ok h)
  · exact hother (by decide) (bound_ok h)
  · exact terminal_ok (hquiet (by decide)) h
  · exact terminal_ok (hquiet (by decide)) h
  · exact hitem (by decide) (outputItemEvent_ok h)
  · exact hitem (by decide) (outputItemEvent_ok h)
  · exact hother (by decide) (contentPartEvent_ok h)
  · exact hother (by decide) (contentPartEvent_ok h)
  · exact hother (by decide) (textDelta_ok h)
  · exact hother (by decide) (textDelta_ok h)
  · exact hother (by decide) (textDone_ok h)
  · exact hother (by decide) (textDone_ok h)
  · exact hother (by decide) (annotation_ok h)
  · exact hother (by decide) (argumentsEvent_ok h)
  · exact hother (by decide) (argumentsEvent_ok h)
  · exact hother (by decide) (summaryPart_ok h)
  · exact hother (by decide) (summaryPart_ok h)
  · exact hother (by decide) (reasoningEvent_ok h)
  · exact hother (by decide) (reasoningEvent_ok h)
  · exact hother (by decide) (reasoningEvent_ok h)
  · exact hother (by decide) (reasoningEvent_ok h)
  · cases h

theorem checkSequence_ok {s t : ResponsesStreamParser} {frame : Value}
    (h : s.checkSequence frame = .ok t) : t.ended = s.ended ∧ t.calls = s.calls := by
  rw [ResponsesStreamParser.checkSequence, Checked.bind_eq_ok] at h
  obtain ⟨sequence, -, h⟩ := h
  rw [Checked.bind_eq_ok] at h
  obtain ⟨_, -, h⟩ := h
  rw [Checked.pure_eq_ok] at h
  subst h
  exact ⟨rfl, rfl⟩

/-- Only the end of the stream and its calls matter to what a frame does. -/
theorem Accepted.of_same {s u t : ResponsesStreamParser} {frame : Value}
    {events : List StreamEvent} (h : Accepted u frame events t) (hended : u.ended = s.ended)
    (hcalls : u.calls = s.calls) : Accepted s frame events t := by
  cases h with
  | streamed h =>
      exact .streamed ⟨h.spoken, h.ended.trans hended, by rw [h.calls, hcalls],
        fun hnone => h.opened (hcalls.trans hnone)⟩
  | finished hend hsame hquiet hreason =>
      exact .finished hend (hsame.trans hcalls) hquiet hreason
  | failed hend => exact .failed hend

variable {packages : Packages}

theorem frame_ok {s t : ResponsesStreamParser} {sse : SseFrameV1} {events : List StreamEvent}
    (h : frame packages s sse = .ok (events, t)) :
    ∃ parsed, packages.fromStr sse.data = some parsed ∧ s.ended = false ∧
      Accepted s parsed events t := by
  unfold frame at h
  split at h
  · cases h
  · rename_i parsed hparsed
    refine ⟨parsed, hparsed, ?_⟩
    unfold readFrame at h
    split at h
    · cases h
    · dsimp only at h
      split at h
      · split at h <;> cases h
      · rename_i hended
        refine ⟨by simpa using hended, ?_⟩
        split at h
        · cases h
        · split at h
          · exact failure_ok h
          · unfold numbered at h
            split at h
            · cases h
            · rename_i kind hkind
              split at h
              · cases h
              · rw [Checked.bind_eq_ok] at h
                obtain ⟨u, hsequence, h⟩ := h
                obtain ⟨hsame, hcalls⟩ := checkSequence_ok hsequence
                exact (dispatch_ok hkind h).of_same hsame hcalls

theorem Accepted.terminates {s t : ResponsesStreamParser} {frame : Value}
    {events : List StreamEvent} (hopen : s.ended = false) (h : Accepted s frame events t) :
    Terminates Terminal (t.ended = true) events := by
  cases h with
  | streamed h =>
      exact ⟨events, [], by simp, h.spoken, .inr ⟨by simp [h.ended, hopen], rfl⟩⟩
  | finished hended hcalls hquiet hreason =>
      exact ⟨[], _, rfl, by simp, .inl ⟨hended, .inl ⟨_, _, rfl⟩⟩⟩
  | failed hended => exact ⟨[], _, rfl, by simp, .inl ⟨hended, .inr ⟨_, _, rfl⟩⟩⟩

theorem terminating (packages : Packages) :
    (responsesStreamDialect packages).Terminating (fun s => s.ended = true) Terminal where
  start := Bool.false_ne_true
  last := by
    rintro s sse ⟨events, t⟩ hended h
    obtain ⟨parsed, -, hopen, -⟩ := frame_ok h
    simp [hopen] at hended
  step := by
    intro s sse events t _ h
    obtain ⟨parsed, -, hopen, haccepted⟩ := frame_ok h
    exact haccepted.terminates hopen
  close := by
    intro s last t h
    simp only [responsesStreamDialect] at h
    split at h
    · cases h
      exact ⟨rfl, rfl⟩
    · cases h

end ResponsesApi

end TokenStation.Provider
