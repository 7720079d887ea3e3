import TokenStation.Chat.Stream
import TokenStation.Library.Batching

/-!
# Batching of Chat streams

What the calls on one Chat stream hand out when its events come in batches. A
refused call keeps back the frames it had rendered, so batching shows exactly
when something was rendered before the first event that is refused.
-/

namespace TokenStation.Chat

open Library Library.Json Library.ChunkedReading Responses

/-! ## What a history of events has left open -/

def asUsage : StreamEvent → Option Usage
  | .usage usage => some usage
  | _ => none

def isFinish : StreamEvent → Bool
  | .finish _ _ => true
  | _ => false

def isDone : StreamEvent → Bool
  | .done _ _ => true
  | _ => false

def isError : StreamEvent → Bool
  | .error _ => true
  | _ => false

/-- Events with a chunk of their own. -/
def isDelta : StreamEvent → Bool
  | .delta _ _ | .thinkingDelta _ _ _ | .toolCallDelta _ _ _ _ _ => true
  | _ => false

/-- Events that send a pending finish. -/
def flushes (event : StreamEvent) : Bool := isDelta event || isFinish event || isDone event

/-- The usage folded from the reports of a history. -/
def usageOf (absorb : Usage → Usage → Usage) (history : List StreamEvent) : Usage :=
  (history.filterMap asUsage).foldl absorb .default

/-- Some usage has been reported. -/
def reported (history : List StreamEvent) : Bool := history.any fun event => (asUsage event).isSome

def finished (history : List StreamEvent) : Bool := history.any isFinish

/-- The last event that could send a finish was one itself. -/
def finishPending (history : List StreamEvent) : Bool :=
  (history.filter flushes).getLast?.any isFinish

/-- A `Done` has followed a usage report. -/
def usageSent (history : List StreamEvent) : Bool :=
  (history.dropWhile fun event => (asUsage event).isNone).any isDone

/-- The event sends the pending finish of the history. -/
def SendsFinish (history : List StreamEvent) (event : StreamEvent) : Prop :=
  flushes event = true ∧ finishPending history = true

/-- The event sends the reported usage of a history that never finished. -/
def SendsUsage (history : List StreamEvent) (event : StreamEvent) : Prop :=
  isDone event = true ∧ reported history = true ∧ finished history = false ∧
    usageSent history = false

/-- A frame of the event would carry a usage total that does not fit. -/
def Refused (absorb : Usage → Usage → Usage) (history : List StreamEvent) (event : StreamEvent) :
    Prop :=
  2 ^ 64 ≤ (usageOf absorb history).inputTokens + (usageOf absorb history).outputTokens ∧
    (reported history = true ∧ SendsFinish history event ∨ SendsUsage history event)

/-- The event renders a frame. -/
def Renders (history : List StreamEvent) (event : StreamEvent) : Prop :=
  isDelta event = true ∨ SendsFinish history event ∨ SendsUsage history event

/-- The event after this history, not past an error, is the first refused one. -/
structure FirstRefused (absorb : Usage → Usage → Usage) (events history : List StreamEvent)
    (event : StreamEvent) : Prop where
  split : history ++ [event] <+: events
  live : history.any isError = false
  earlier : ∀ p e, p ++ [e] <+: history → ¬Refused absorb p e
  refused : Refused absorb history event

/-- No event of the history renders a frame. -/
def RendersNothing (history : List StreamEvent) : Prop :=
  ∀ p e, p ++ [e] <+: history → ¬Renders p e

/-- Nothing is rendered before the first event that is refused. -/
def NothingKeptBack (absorb : Usage → Usage → Usage) (events : List StreamEvent) : Prop :=
  ∀ history event, FirstRefused absorb events history event → RendersNothing history

/-! ## Calls -/

/-- The frames with the state after them, or the refusal. -/
def Rendered.settled (r : Rendered) : Except CodecError (List OpenAiChatFrame × OpenAiChatStream) :=
  r.1.map fun frames => (frames, r.2)

variable (packages : Packages)

/-- What the calls on a stream hand out, one batch of events each. -/
def OpenAiChatStream.calls (s : OpenAiChatStream) (batches : List (List StreamEvent)) :
    Trace OpenAiChatFrame CodecError Unit :=
  Batching.calls (fun s batch => (s.frames packages batch).settled) s batches

/-- The handling of one event. -/
def OpenAiChatStream.step (s : OpenAiChatStream) (event : StreamEvent) :
    Except CodecError (List OpenAiChatFrame × OpenAiChatStream) :=
  if s.inner.terminated then .ok ([], s) else (s.render packages event).settled

theorem call_terminated {s : OpenAiChatStream} (h : s.inner.terminated = true)
    (events : List StreamEvent) :
    Batching.call (OpenAiChatStream.step packages) s events = .ok ([], s) := by
  induction events with
  | nil => rfl
  | cons event events ih => simp [Batching.call, OpenAiChatStream.step, h, ih, Except.map]

theorem frames_eq_call (s : OpenAiChatStream) (events : List StreamEvent) :
    (s.frames packages events).settled =
      Batching.call (OpenAiChatStream.step packages) s events := by
  induction events generalizing s with
  | nil => rfl
  | cons event events ih =>
      rw [OpenAiChatStream.frames]
      split
      · rename_i h
        rw [call_terminated packages h]
        rfl
      · rename_i h
        rw [Batching.call, OpenAiChatStream.step, if_neg h]
        rcases hrender : s.render packages event with ⟨e | now, t⟩
        · rfl
        · simp only [Rendered.settled, Except.map, ← ih, Rendered.followedBy]
          rcases t.frames packages events with ⟨e | rest, u⟩ <;> rfl

theorem calls_eq (s : OpenAiChatStream) (batches : List (List StreamEvent)) :
    s.calls packages batches =
      Batching.calls (Batching.call (OpenAiChatStream.step packages)) s batches := by
  have h : (fun (s : OpenAiChatStream) batch => (s.frames packages batch).settled) =
      Batching.call (OpenAiChatStream.step packages) := by
    funext s batch
    exact frames_eq_call packages s batch
  rw [OpenAiChatStream.calls, h]

/-! ## One event on a stream that has rendered a history -/

/-- The stream's state is what the history leaves open. -/
structure Follows (s : OpenAiChatStream) (history : List StreamEvent) : Prop where
  usage : s.inner.usage = usageOf packages.absorb history
  folded : s.usageFolded = reported history
  seen : s.finishSeen = finished history
  pending : s.inner.pendingFinish.isSome = finishPending history
  sent : finished history = false → s.usageFrameSent = usageSent history
  live : s.inner.terminated = history.any isError

theorem follows_new (context : ChatStreamContext) : Follows packages (.new context) [] :=
  ⟨rfl, rfl, rfl, rfl, fun _ => rfl, rfl⟩

section

variable (history : List StreamEvent) (event : StreamEvent)

theorem usageOf_snoc (absorb : Usage → Usage → Usage) :
    usageOf absorb (history ++ [event]) =
      ((asUsage event).map (absorb (usageOf absorb history))).getD (usageOf absorb history) := by
  unfold usageOf
  cases h : asUsage event <;> simp [h]

theorem reported_snoc : reported (history ++ [event]) =
    (reported history || (asUsage event).isSome) := by
  simp [reported]

theorem finished_snoc : finished (history ++ [event]) = (finished history || isFinish event) := by
  simp [finished]

theorem finishPending_snoc : finishPending (history ++ [event]) =
    if flushes event then isFinish event else finishPending history := by
  unfold finishPending
  split <;> simp_all

theorem usageSent_snoc : usageSent (history ++ [event]) =
    (usageSent history || (reported history && isDone event)) := by
  unfold usageSent reported
  induction history with
  | nil => cases event <;> rfl
  | cons e history ih =>
      cases he : asUsage e with
      | none => simp [he, ih]
      | some usage =>
          simp [he]
          cases e <;> simp_all [asUsage, isDone]

theorem finished_of_pending (h : finishPending history = true) : finished history = true := by
  unfold finishPending at h
  cases hlast : (history.filter flushes).getLast? with
  | none => simp [hlast] at h
  | some e =>
      have hmem := List.mem_of_getLast? hlast
      simp only [hlast, Option.any_some] at h
      exact List.any_eq_true.mpr ⟨e, (List.mem_filter.mp hmem).1, h⟩

end

section

variable {packages}
variable {s : OpenAiChatStream} {history : List StreamEvent}

/-- What a state must be one event later. -/
theorem follows_snoc (h : Follows packages s history) (event : StreamEvent) {t : OpenAiChatStream}
    (husage : t.inner.usage =
      ((asUsage event).map (packages.absorb s.inner.usage)).getD s.inner.usage)
    (hfolded : t.usageFolded = (s.usageFolded || (asUsage event).isSome))
    (hseen : t.finishSeen = (s.finishSeen || isFinish event))
    (hpending : t.inner.pendingFinish.isSome =
      if flushes event then isFinish event else s.inner.pendingFinish.isSome)
    (hsent : t.finishSeen = false →
      t.usageFrameSent = (s.usageFrameSent || (s.usageFolded && isDone event)))
    (hlive : t.inner.terminated = (s.inner.terminated || isError event)) :
    Follows packages t (history ++ [event]) := by
  constructor
  · rw [husage, usageOf_snoc, h.usage]
  · rw [hfolded, reported_snoc, h.folded]
  · rw [hseen, finished_snoc, h.seen]
  · rw [hpending, finishPending_snoc, h.pending]
  · intro hnever
    rw [finished_snoc, ← h.seen, ← hseen] at hnever
    rw [hsent hnever, usageSent_snoc, h.folded, h.sent]
    rw [hseen, h.seen, Bool.or_eq_false_iff] at hnever
    exact hnever.1
  · rw [hlive, h.live]
    simp

/-- The stream after its pending finish has been taken. -/
def OpenAiChatStream.taken (s : OpenAiChatStream) : OpenAiChatStream :=
  { s with inner := { s.inner with pendingFinish := none } }

/-- The terminal of a pending finish. -/
theorem flushTerminal_pending {s : OpenAiChatStream} {reason : Value}
    (hreason : s.inner.pendingFinish = some reason) :
    s.flushTerminal =
      match s.taken.terminalUsage with
      | .error e => (.error e, s.taken)
      | .ok usage => (.ok [⟨.terminal, s.taken.chunk [finishChoice reason] usage⟩], s.taken) := by
  simp only [OpenAiChatStream.flushTerminal, hreason]
  rfl

/-- Sending the pending finish is refused when the usage on it does not fit. -/
theorem flushTerminal_cases (h : Follows packages s history) :
    (finishPending history = true ∧ reported history = true ∧
      2 ^ 64 ≤ (usageOf packages.absorb history).inputTokens +
        (usageOf packages.absorb history).outputTokens ∧
      ∃ e t, s.flushTerminal = (.error e, t)) ∨
    (¬(finishPending history = true ∧ reported history = true ∧
      2 ^ 64 ≤ (usageOf packages.absorb history).inputTokens +
        (usageOf packages.absorb history).outputTokens) ∧
      ∃ frames, s.flushTerminal = (.ok frames, s.taken) ∧
        (frames = [] ↔ finishPending history = false)) := by
  have hpending := h.pending
  cases hreason : s.inner.pendingFinish with
  | none =>
      rw [hreason, Option.isSome_none] at hpending
      refine .inr ⟨by simp [← hpending], [], ?_, by simp [← hpending]⟩
      have htaken : s.taken = s := by
        rw [OpenAiChatStream.taken, ← hreason]
      simp [OpenAiChatStream.flushTerminal, hreason, htaken]
  | some reason =>
      rw [hreason, Option.isSome_some] at hpending
      have husage : s.taken.terminalUsage =
          if reported history then (openaiChatUsage (usageOf packages.absorb history)).map some
          else .ok none := by
        rw [← h.folded, ← h.usage]
        rfl
      rw [flushTerminal_pending hreason, husage]
      by_cases hreported : reported history = true
      · by_cases hsize : (usageOf packages.absorb history).inputTokens +
            (usageOf packages.absorb history).outputTokens < 2 ^ 64
        · refine .inr ⟨fun hbig => absurd hbig.2.2 (Nat.not_le.mpr hsize), ?_⟩
          rw [if_pos hreported, openaiChatUsage, if_pos hsize]
          exact ⟨_, rfl, by simp [← hpending]⟩
        · refine .inl ⟨hpending.symm, hreported, Nat.le_of_not_lt hsize, ?_⟩
          rw [if_pos hreported, openaiChatUsage, if_neg hsize]
          exact ⟨_, _, rfl⟩
      · refine .inr ⟨fun hbig => hreported hbig.2.1, ?_⟩
        simp [hreported, ← hpending]

theorem isDelta_cases {event : StreamEvent} (h : isDelta event = true) :
    asUsage event = none ∧ isFinish event = false ∧ isDone event = false ∧
      isError event = false := by
  cases event with
  | delta | thinkingDelta | toolCallDelta => exact ⟨rfl, rfl, rfl, rfl⟩
  | thinkingSignatureDelta | redactedThinking | usage | finish | done | error => cases h

/-- A content event renders one chunk. -/
theorem pushDeltas_eq (packages : Packages) (hlive : s.inner.terminated = false)
    (hpending : s.inner.pendingFinish = none) (choice : Nat) {event : StreamEvent}
    (h : isDelta event = true) :
    ∃ roles frame, s.pushDeltas packages choice event = ({ s with rolesSent := roles }, [frame]) := by
  have hone : ∃ chunk, openaiChatFrame packages s.inner event = (s.inner, [chunk]) := by
    cases event with
    | delta | thinkingDelta | toolCallDelta =>
        simp [openaiChatFrame_eq packages hlive, renderChatEvent, OpenAiChatSseState.push,
          OpenAiChatSseState.flushPending, hpending]
    | thinkingSignatureDelta | redactedThinking | usage | finish | done | error => cases h
  obtain ⟨chunk, hchunk⟩ := hone
  simp only [OpenAiChatStream.pushDeltas, hchunk, OpenAiChatStream.pushAll,
    OpenAiChatStream.pushDelta]
  split
  · exact ⟨_, _, rfl⟩
  · exact ⟨_, _, rfl⟩

/-- An event that only sends the pending finish and then leaves the stream as
`next` makes it. -/
theorem flushed_cases (h : Follows packages s history) {event : StreamEvent}
    (hflushes : flushes event = true) (husage : ¬SendsUsage history event)
    {next : OpenAiChatStream → Rendered} {own : List OpenAiChatFrame} {t : OpenAiChatStream}
    (hnext : next s.taken = (.ok own, t)) (hown : own = [] ↔ isDelta event = false)
    (hfollows : Follows packages t (history ++ [event])) :
    (Refused packages.absorb history event ∧
      ∃ e t, Rendered.followedBy s.flushTerminal next = (.error e, t)) ∨
    (¬Refused packages.absorb history event ∧ ∃ frames t,
      Rendered.followedBy s.flushTerminal next = (.ok frames, t) ∧
        (frames = [] ↔ ¬Renders history event) ∧ Follows packages t (history ++ [event])) := by
  rcases flushTerminal_cases h with ⟨hpending, hreported, hsize, e, u, hflush⟩ |
    ⟨hfits, frames, hflush, hframes⟩
  · refine .inl ⟨⟨hsize, .inl ⟨hreported, hflushes, hpending⟩⟩, e, u, ?_⟩
    rw [hflush, Rendered.followedBy]
  · refine .inr ⟨?_, frames ++ own, t, ?_, ?_, hfollows⟩
    · rintro ⟨hsize, ⟨hreported, -, hpending⟩ | hsends⟩
      · exact hfits ⟨hpending, hreported, hsize⟩
      · exact husage hsends
    · rw [hflush, Rendered.followedBy, hnext]
    · rw [List.append_eq_nil_iff, hframes, hown]
      unfold Renders SendsFinish
      simp [hflushes, husage, and_comm]

/-- A history that never finished has no finish pending. -/
theorem pending_of_never (h : finished history = false) : finishPending history = false := by
  rw [Bool.eq_false_iff]
  intro hpending
  rw [finished_of_pending history hpending] at h
  cases h

/-- The trailing usage of a stream that never finished. -/
theorem render_trailing (h : Follows packages s history)
    {reason : Option FinishReason} {sequence : Option String}
    (hsends : SendsUsage history (.done reason sequence)) :
    (Refused packages.absorb history (.done reason sequence) ∧
      ∃ e t, s.render packages (.done reason sequence) = (.error e, t)) ∨
    (¬Refused packages.absorb history (.done reason sequence) ∧ ∃ frame,
      s.render packages (.done reason sequence) = (.ok [frame], { s with usageFrameSent := true })) := by
  obtain ⟨-, hreported, hnever, hunsent⟩ := hsends
  have hpending := pending_of_never hnever
  have hnone : s.inner.pendingFinish = none := by
    have hsome := h.pending.trans hpending
    simpa using hsome
  have hrender : s.render packages (.done reason sequence) = Rendered.followedBy (.ok [], s)
      OpenAiChatStream.trailingUsage := by
    simp [OpenAiChatStream.render, OpenAiChatStream.flushTerminal, hnone]
  have hguard : (s.finishSeen || !s.usageFolded || s.usageFrameSent) = false := by
    rw [h.seen, h.folded, h.sent hnever, hnever, hreported, hunsent]
    rfl
  rw [hrender, Rendered.followedBy, OpenAiChatStream.trailingUsage, hguard, h.usage]
  by_cases hsize : (usageOf packages.absorb history).inputTokens +
      (usageOf packages.absorb history).outputTokens < 2 ^ 64
  · refine .inr ⟨fun hrefused => absurd hrefused.1 (Nat.not_le.mpr hsize), ?_⟩
    rw [openaiChatUsage, if_pos hsize]
    exact ⟨_, rfl⟩
  · refine .inl ⟨⟨Nat.le_of_not_lt hsize, .inr ⟨rfl, hreported, hnever, hunsent⟩⟩, ?_⟩
    rw [openaiChatUsage, if_neg hsize]
    exact ⟨_, _, rfl⟩

theorem rendered_pushDeltas {s t : OpenAiChatStream} {choice : Nat} {event : StreamEvent}
    {frames : List OpenAiChatFrame} (h : s.pushDeltas packages choice event = (t, frames)) :
    ((.ok (s.pushDeltas packages choice event).2, (s.pushDeltas packages choice event).1) :
      Rendered) = (.ok frames, t) := by
  rw [h]

theorem render_cases (h : Follows packages s history) (hlive : history.any isError = false)
    (event : StreamEvent) :
    (Refused packages.absorb history event ∧ ∃ e t, s.render packages event = (.error e, t)) ∨
    (¬Refused packages.absorb history event ∧ ∃ frames t, s.render packages event = (.ok frames, t) ∧
      (frames = [] ↔ ¬Renders history event) ∧ Follows packages t (history ++ [event])) := by
  have hterminated : s.taken.inner.terminated = false := h.live.trans hlive
  have hcontent : ∀ choice, isDelta event = true →
      (Refused packages.absorb history event ∧
        ∃ e t, s.renderContent packages choice event = (.error e, t)) ∨
      (¬Refused packages.absorb history event ∧ ∃ frames t,
        s.renderContent packages choice event = (.ok frames, t) ∧
        (frames = [] ↔ ¬Renders history event) ∧ Follows packages t (history ++ [event])) := by
    intro choice hdelta
    obtain ⟨roles, frame, hpush⟩ := pushDeltas_eq packages hterminated rfl choice hdelta
    obtain ⟨hnotUsage, hnotFinish, hnotDone, hnotError⟩ := isDelta_cases hdelta
    have hquiet : ¬SendsUsage history event := fun hsends => by
      simp [SendsUsage, hnotDone] at hsends
    have hnext := rendered_pushDeltas hpush
    refine flushed_cases h (by simp [flushes, hdelta]) hquiet hnext (by simp [hdelta]) ?_
    refine follows_snoc h event ?_ ?_ ?_ ?_ ?_ ?_
    · simp [hnotUsage, OpenAiChatStream.taken]
    · simp [hnotUsage, OpenAiChatStream.taken]
    · simp [hnotFinish, OpenAiChatStream.taken]
    · simp [flushes, hdelta, hnotFinish, OpenAiChatStream.taken]
    · simp [hnotDone, OpenAiChatStream.taken]
    · simp [hnotError, OpenAiChatStream.taken]
  cases event with
  | delta index content => exact hcontent index rfl
  | thinkingDelta index blockIndex text => exact hcontent index rfl
  | toolCallDelta index id name arguments signature => exact hcontent 0 rfl
  | thinkingSignatureDelta | redactedThinking =>
      refine .inr ⟨by simp [Refused, SendsFinish, SendsUsage, flushes, isDelta, isFinish, isDone],
        [], s, rfl, by simp [Renders, SendsFinish, SendsUsage, flushes, isDelta, isFinish, isDone],
        follows_snoc h _ rfl ?_ ?_ rfl ?_ ?_⟩ <;> simp [asUsage, isFinish, isDone, isError]
  | usage usage =>
      refine .inr ⟨by simp [Refused, SendsFinish, SendsUsage, flushes, isDelta, isFinish, isDone],
        [], _, rfl, by simp [Renders, SendsFinish, SendsUsage, flushes, isDelta, isFinish, isDone],
        follows_snoc h _ rfl ?_ ?_ rfl ?_ ?_⟩ <;> simp [asUsage, isFinish, isDone, isError]
  | finish finishReason stopSequence =>
      have hquiet : ¬SendsUsage history (.finish finishReason stopSequence) := fun hsends =>
        absurd hsends.1 (by simp [isDone])
      have hrecord : openaiChatFrame packages s.taken.inner (.finish finishReason stopSequence) =
          ({ s.taken.inner with
            pendingFinish := some (renderFinishReason packages finishReason) }, []) :=
        openaiChatFrame_eq packages hterminated _
      rw [OpenAiChatStream.render]
      refine flushed_cases h rfl hquiet (by rw [hrecord]) (by simp [isDelta])
        (follows_snoc h _ ?_ ?_ ?_ ?_ ?_ ?_)
      · simp [asUsage, OpenAiChatStream.taken]
      · simp [asUsage, OpenAiChatStream.taken]
      · simp [isFinish]
      · simp [flushes, isFinish]
      · simp
      · simp [isError, OpenAiChatStream.taken]
  | done finishReason stopSequence =>
      by_cases hsends : SendsUsage history (.done finishReason stopSequence)
      · have hrender := render_trailing h hsends
        rcases hrender with ⟨hrefused, e, t, hrender⟩ | ⟨hfits, frame, hrender⟩
        · exact .inl ⟨hrefused, e, t, hrender⟩
        · refine .inr ⟨hfits, [frame], _, hrender, by simp [Renders, hsends],
            follows_snoc h _ rfl ?_ ?_ ?_ ?_ ?_⟩
          · simp [asUsage]
          · simp [isFinish]
          · simp [flushes, isDelta, isFinish, isDone, h.pending, pending_of_never hsends.2.2.1]
          · simp [h.folded, hsends.2.1, isDone]
          · simp [isError]
      · have htrailing : s.taken.trailingUsage = (.ok [], s.taken) := by
          refine if_pos ?_
          simp only [SendsUsage, isDone, true_and] at hsends
          simp only [OpenAiChatStream.taken, h.seen, h.folded, Bool.or_eq_true,
            Bool.not_eq_true', Bool.or_assoc]
          by_contra hnone
          simp only [not_or, Bool.not_eq_true, Bool.not_eq_false] at hnone
          exact hsends ⟨hnone.2.1, hnone.1, (h.sent hnone.1) ▸ hnone.2.2⟩
        refine flushed_cases h rfl hsends htrailing (by simp [isDelta])
          (follows_snoc h _ rfl ?_ ?_ ?_ ?_ ?_)
        · simp [asUsage, OpenAiChatStream.taken]
        · simp [isFinish, OpenAiChatStream.taken]
        · simp [flushes, isDelta, isFinish, isDone, OpenAiChatStream.taken]
        · intro hnever
          simp only [SendsUsage, isDone, true_and] at hsends
          rw [show s.taken.finishSeen = finished history from h.seen] at hnever
          simp only [OpenAiChatStream.taken, isDone, Bool.and_true, h.folded, h.sent hnever]
          cases hreported : reported history with
          | false => simp
          | true => simpa [hnever, hreported] using hsends
        · simp [isError, OpenAiChatStream.taken]
  | error error =>
      refine .inr ⟨by simp [Refused, SendsFinish, SendsUsage, flushes, isDelta, isFinish, isDone],
        [], _, rfl, by simp [Renders, SendsFinish, SendsUsage, flushes, isDelta, isFinish, isDone],
        follows_snoc h _ rfl ?_ ?_ rfl ?_ ?_⟩ <;> simp [asUsage, isFinish, isDone, isError]

end

/-! ## Runs -/

section

variable {packages}

theorem prefix_snoc_iff {p events : List StreamEvent} {e event : StreamEvent} :
    p ++ [e] <+: events ++ [event] ↔ p ++ [e] <+: events ∨ p = events ∧ e = event := by
  rw [List.prefix_concat_iff]
  constructor
  · rintro (heq | hfront)
    · obtain ⟨hp, he⟩ := List.append_inj' heq rfl
      exact .inr ⟨hp, List.singleton_inj.mp he⟩
    · exact .inl hfront
  · rintro (hfront | ⟨rfl, rfl⟩)
    · exact .inr hfront
    · exact .inl rfl

theorem rendersNothing_snoc (events : List StreamEvent) (event : StreamEvent) :
    RendersNothing (events ++ [event]) ↔ RendersNothing events ∧ ¬Renders events event := by
  simp only [RendersNothing, prefix_snoc_iff]
  constructor
  · intro h
    exact ⟨fun p e hp => h p e (.inl hp), h _ _ (.inr ⟨rfl, rfl⟩)⟩
  · rintro ⟨hall, hlast⟩ p e (hp | ⟨rfl, rfl⟩)
    · exact hall p e hp
    · exact hlast

/-- The first refused event does not change when events are added. -/
theorem firstRefused_snoc {absorb : Usage → Usage → Usage} {events history : List StreamEvent}
    {event added : StreamEvent} :
    FirstRefused absorb (events ++ [added]) history event ↔
      FirstRefused absorb events history event ∨
        history = events ∧ event = added ∧ FirstRefused absorb (events ++ [added]) events added := by
  constructor
  · intro h
    rcases prefix_snoc_iff.mp h.split with hfront | ⟨rfl, rfl⟩
    · exact .inl { h with split := hfront }
    · exact .inr ⟨rfl, rfl, h⟩
  · rintro (h | ⟨rfl, rfl, h⟩)
    · exact { h with split := h.split.trans (List.prefix_append _ _) }
    · exact h

/-- How far a fresh stream gets with the events. -/
inductive Progress (context : ChatStreamContext) (events : List StreamEvent) : Prop
  /-- Every event was rendered. -/
  | running (frames : List OpenAiChatFrame) (t : OpenAiChatStream)
      (call : Batching.call (OpenAiChatStream.step packages) (.new context) events =
        .ok (frames, t))
      (live : events.any isError = false)
      (follows : Follows packages t events)
      (accepted : ∀ p e, p ++ [e] <+: events → ¬Refused packages.absorb p e)
      (nothing : frames = [] ↔ RendersNothing events)
  /-- An error event ended the stream. -/
  | closed (frames : List OpenAiChatFrame) (t : OpenAiChatStream)
      (call : Batching.call (OpenAiChatStream.step packages) (.new context) events =
        .ok (frames, t))
      (terminated : t.inner.terminated = true)
      (ended : events.any isError = true)
      (none : ∀ history event, ¬FirstRefused packages.absorb events history event)
  /-- An event was refused. -/
  | refused (e : CodecError) (history : List StreamEvent) (event : StreamEvent)
      (call : Batching.call (OpenAiChatStream.step packages) (.new context) events = .error e)
      (first : FirstRefused packages.absorb events history event)
      (nothing : Batching.produced (OpenAiChatStream.step packages) (.new context) events = [] ↔
        RendersNothing history)

theorem step_of_live {s : OpenAiChatStream} {history : List StreamEvent}
    (h : Follows packages s history) (hlive : history.any isError = false) (event : StreamEvent) :
    s.step packages event = (s.render packages event).settled := by
  rw [OpenAiChatStream.step, h.live, hlive]
  rfl

theorem progress (context : ChatStreamContext) (events : List StreamEvent) :
    @Progress packages context events := by
  induction events using List.reverseRecOn with
  | nil =>
      refine .running [] _ rfl rfl (follows_new packages context) ?_ ?_
      · simp
      · simp [RendersNothing]
  | append_singleton events event ih =>
      cases ih with
      | running frames t hcall hlive hfollows haccepted hnothing =>
          have hnext : Batching.call (OpenAiChatStream.step packages) (.new context)
              (events ++ [event]) =
                ((t.render packages event).settled).map fun now => (frames ++ now.1, now.2) := by
            rw [Batching.call_append, hcall]
            simp only [Batching.call, step_of_live hfollows hlive]
            rcases (t.render packages event).settled with e | now <;> simp [Except.map]
          rcases render_cases hfollows hlive event with ⟨hrefused, e, u, hrender⟩ |
            ⟨hfits, now, u, hrender, hnow, hfollows'⟩
          · refine .refused e events event ?_ ⟨List.prefix_refl _, hlive, haccepted, hrefused⟩ ?_
            · rw [hnext, hrender]
              rfl
            · rw [Batching.produced_append, hcall, Batching.produced_of_ok hcall]
              simp only [Batching.produced, step_of_live hfollows hlive, hrender]
              simpa [Rendered.settled, Except.map] using hnothing
          · rw [hrender] at hnext
            cases hevent : isError event with
            | true =>
                have hended : (events ++ [event]).any isError = true := by simp [hevent]
                refine .closed (frames ++ now) u hnext (hfollows'.live.trans hended) hended ?_
                · intro history added hfirst
                  rcases firstRefused_snoc.mp hfirst with hfirst | ⟨-, -, hfirst⟩
                  · exact haccepted _ _ hfirst.split hfirst.refused
                  · exact hfits hfirst.refused
            | false =>
                refine .running (frames ++ now) u hnext ?_ hfollows' ?_ ?_
                · simp only [List.any_append, hlive, List.any_cons, hevent, List.any_nil]
                  rfl
                · intro p e hp
                  rcases prefix_snoc_iff.mp hp with hp | ⟨rfl, rfl⟩
                  · exact haccepted p e hp
                  · exact hfits
                · rw [List.append_eq_nil_iff, hnothing, hnow, rendersNothing_snoc]
      | closed frames t hcall hterminated hended hnone =>
          refine .closed frames t ?_ hterminated (by simp [hended]) ?_
          · rw [Batching.call_append, hcall]
            simp [call_terminated packages hterminated, Except.map]
          · intro history added hfirst
            rcases firstRefused_snoc.mp hfirst with hfirst | ⟨-, -, hfirst⟩
            · exact hnone _ _ hfirst
            · rw [hfirst.live] at hended
              cases hended
      | refused e history first hcall hfirst hnothing =>
          refine .refused e history first ?_ (firstRefused_snoc.mpr (.inl hfirst)) ?_
          · rw [Batching.call_append, hcall]
          · rw [Batching.produced_append, hcall, List.append_nil]
            exact hnothing

/-- Only one history leads to the first refused event. -/
theorem firstRefused_unique {absorb : Usage → Usage → Usage} {events history history' : List StreamEvent}
    {event event' : StreamEvent} (h : FirstRefused absorb events history event)
    (h' : FirstRefused absorb events history' event') : history = history' := by
  rcases List.prefix_or_prefix_of_prefix h.split h'.split with hp | hp
  · rcases prefix_snoc_iff.mp hp with hp | ⟨heq, -⟩
    · exact absurd h.refused (h'.earlier _ _ hp)
    · exact heq
  · rcases prefix_snoc_iff.mp hp with hp | ⟨heq, -⟩
    · exact absurd h'.refused (h.earlier _ _ hp)
    · exact heq.symm

end

/-- Every batching of the events hands out the same frames and the same error
exactly when nothing is rendered before the first refused event. -/
theorem chat_batching_independent_iff (context : ChatStreamContext) (events : List StreamEvent) :
    (∀ batches batches' : List (List StreamEvent), batches.flatten = events →
        batches'.flatten = events →
        (OpenAiChatStream.new context).calls packages batches =
          (OpenAiChatStream.new context).calls packages batches') ↔
      NothingKeptBack packages.absorb events := by
  simp only [calls_eq, Batching.calls_batched_iff]
  cases @progress packages context events with
  | running frames t hcall hlive hfollows haccepted hnothing =>
      refine ⟨fun _ history event hfirst => ?_, fun _ => .inl ⟨frames, t, hcall⟩⟩
      exact absurd hfirst.refused (haccepted _ _ hfirst.split)
  | closed frames t hcall hterminated hended hnone =>
      exact ⟨fun _ history event hfirst => absurd hfirst (hnone history event),
        fun _ => .inl ⟨frames, t, hcall⟩⟩
  | refused e history first hcall hfirst hnothing =>
      rw [hcall, hnothing]
      constructor
      · rintro (⟨frames, t, hok⟩ | hquiet) history' event hfirst'
        · cases hok
        · rw [← firstRefused_unique hfirst hfirst']
          exact hquiet
      · exact fun hquiet => .inr (hquiet history first hfirst)

/-- A usage report whose total does not fit. -/
def overflowing : Usage := { Usage.default with inputTokens := 2 ^ 64 - 1, outputTokens := 1 }

/-- A text, a finish and a usage report that overflows. -/
def overflowingAnswer : List StreamEvent :=
  [.delta 0 "a", .finish (some .stop) none, .usage overflowing, .done none none]

/-- Given one by one, the text is handed out before the refusal; given at once,
it is kept back. -/
theorem chat_refusal_keeps_back_text :
    let stream := OpenAiChatStream.new ⟨"c", "m", 0⟩
    ((stream.calls .textual (overflowingAnswer.map ([·]))).items.map (·.kind) = [.delta] ∧
      (stream.calls .textual [overflowingAnswer]).items.map (·.kind) = []) ∧
    stream.calls .textual (overflowingAnswer.map ([·])) ≠
      stream.calls .textual [overflowingAnswer] := by
  have hkinds : ((OpenAiChatStream.new ⟨"c", "m", 0⟩).calls .textual
        (overflowingAnswer.map ([·]))).items.map (·.kind) = [.delta] ∧
      ((OpenAiChatStream.new ⟨"c", "m", 0⟩).calls .textual
        [overflowingAnswer]).items.map (·.kind) = [] := by
    decide +kernel
  refine ⟨hkinds, fun hsame => ?_⟩
  have hitems := hkinds.1
  rw [hsame, hkinds.2] at hitems
  cases hitems

end TokenStation.Chat
