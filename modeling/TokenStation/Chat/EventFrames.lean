import TokenStation.Chat.Batching

/-!
# The frames of one event

What one event emits is said of the events before it alone: the finish it sends, the
content it carries and the usage it closes with. Rendering emits just that.
-/

namespace TokenStation.Chat

open Library Library.Json Library.Checked Responses

/-! ## What is left of the events before -/

/-- The choice a content event belongs to, with its delta. -/
def choiceDelta : StreamEvent → Option (Nat × Value)
  | .delta index content => some (index, .obj [("content", .string content)])
  | .thinkingDelta index _ thinking => some (index, .obj [("reasoning_content", .string thinking)])
  | .toolCallDelta index id name argumentsDelta signature =>
      some (0, .obj [("tool_calls",
        .array [callFragment index id name argumentsDelta signature])])
  | _ => none

/-- The choices that have had a delta. -/
def choicesSeen (history : List StreamEvent) : List Nat :=
  history.filterMap fun event => (choiceDelta event).map (·.1)

def asFinish : StreamEvent → Option (Option FinishReason)
  | .finish finishReason _ => some finishReason
  | _ => none

/-- The reason of a finish that waits to be sent. -/
def pendingReason (history : List StreamEvent) : Option (Option FinishReason) :=
  (history.filter flushes).getLast?.bind asFinish

section

variable (packages : Packages) (context : ChatStreamContext)

/-- One complete chunk with the stream's identity. -/
def chunkOf (choices : List Value) (usage : Option Value) : Value :=
  (OpenAiChatStream.new context).chunk choices usage

/-- The usage on a frame: the object of everything reported so far, once something was. -/
def UsageAt (history : List StreamEvent) (usage : Option Value) : Prop :=
  if reported history then
    ∃ object, openaiChatUsage (usageOf packages.absorb history) = .ok object ∧ usage = some object
  else usage = none

/-- The frame of a finish that was waiting. -/
def SentFinish (history : List StreamEvent) (frames : List OpenAiChatFrame) : Prop :=
  match pendingReason history with
  | none => frames = []
  | some reason => ∃ usage, UsageAt packages history usage ∧ frames =
      [⟨.terminal, chunkOf context [finishChoice (renderFinishReason packages reason)] usage⟩]

/-- The choice of a delta frame, with the role on the first of its index. -/
def deltaChoice (history : List StreamEvent) (choice : Nat) (delta : Value) : Value :=
  let plain := Value.obj [("index", .nat choice), ("delta", delta), ("finish_reason", .null)]
  if choice ∈ choicesSeen history then plain else withRole plain

/-- The frame of a content event. -/
def deltaFrames (history : List StreamEvent) (event : StreamEvent) : List OpenAiChatFrame :=
  match choiceDelta event with
  | none => []
  | some (choice, delta) =>
      [⟨.delta, chunkOf context [deltaChoice history choice delta] none⟩]

/-- The frame of usage that no finish carries. -/
def ClosedUsage (history : List StreamEvent) (event : StreamEvent)
    (frames : List OpenAiChatFrame) : Prop :=
  SendsUsage history event ∧ (∃ object,
      openaiChatUsage (usageOf packages.absorb history) = .ok object ∧
        frames = [⟨.usage, chunkOf context [] (some object)⟩]) ∨
    ¬SendsUsage history event ∧ frames = []

/-- What an event emits after the events before it. -/
inductive Emitted (history : List StreamEvent) (event : StreamEvent) :
    List OpenAiChatFrame → Prop
  | flushed {sent closing : List OpenAiChatFrame} (hflushes : flushes event = true)
      (hsent : SentFinish packages context history sent)
      (hclosing : ClosedUsage packages context history event closing) :
      Emitted history event (sent ++ (deltaFrames context history event ++ closing))
  | quiet (hquiet : flushes event = false) : Emitted history event []

end

/-! ## Rendering one event -/

section

variable {packages : Packages} {context : ChatStreamContext}

/-- The stream's state is what the events before have left, choices and reasons included. -/
structure Shows (packages : Packages) (context : ChatStreamContext) (s : OpenAiChatStream)
    (history : List StreamEvent) : Prop where
  follows : Follows packages s history
  context : s.context = context
  roles : ∀ choice, choice ∈ s.rolesSent ↔ choice ∈ choicesSeen history
  pending : s.inner.pendingFinish = (pendingReason history).map (renderFinishReason packages)

theorem shows_new (packages : Packages) (context : ChatStreamContext) :
    Shows packages context (.new context) [] :=
  ⟨follows_new packages context, rfl, fun _ => Iff.rfl, rfl⟩

theorem chunk_eq {s : OpenAiChatStream} (h : s.context = context) (choices : List Value)
    (usage : Option Value) : s.chunk choices usage = chunkOf context choices usage := by
  rw [← h]
  rfl

theorem choicesSeen_snoc (history : List StreamEvent) (event : StreamEvent) :
    choicesSeen (history ++ [event]) =
      choicesSeen history ++ ((choiceDelta event).map (·.1)).toList := by
  unfold choicesSeen
  rw [List.filterMap_append, List.filterMap_cons]
  cases (choiceDelta event).map (·.1) <;> rfl

theorem pendingReason_snoc (history : List StreamEvent) (event : StreamEvent) :
    pendingReason (history ++ [event]) =
      if flushes event then asFinish event else pendingReason history := by
  unfold pendingReason
  split <;> simp_all

theorem terminalUsage_ok {s : OpenAiChatStream} {history : List StreamEvent}
    (h : Follows packages s history) {usage : Option Value}
    (hok : s.taken.terminalUsage = .ok usage) : UsageAt packages history usage := by
  have hfolded : s.taken.usageFolded = reported history := h.folded
  have hcounts : s.taken.inner.usage = usageOf packages.absorb history := h.usage
  rw [OpenAiChatStream.terminalUsage, hfolded, hcounts] at hok
  unfold UsageAt
  split at hok
  · next hreported =>
      rw [if_pos hreported]
      obtain ⟨object, hobject, rfl⟩ := map_eq_ok.mp hok
      exact ⟨object, hobject, rfl⟩
  · next hreported =>
      rw [if_neg hreported]
      cases hok
      rfl

/-- A finish that was waiting is sent and taken. -/
theorem flushTerminal_ok {s t : OpenAiChatStream} {history : List StreamEvent}
    (h : Shows packages context s history) {sent : List OpenAiChatFrame}
    (hok : s.flushTerminal = (.ok sent, t)) :
    SentFinish packages context history sent ∧ t = s.taken := by
  unfold OpenAiChatStream.flushTerminal at hok
  rw [h.pending] at hok
  unfold SentFinish
  cases hreason : pendingReason history with
  | none =>
      rw [hreason] at hok
      obtain ⟨hframes, rfl⟩ := Prod.mk.inj hok
      have hnone : s.inner.pendingFinish = none := by rw [h.pending, hreason, Option.map_none]
      refine ⟨(Except.ok.inj hframes).symm, ?_⟩
      rw [OpenAiChatStream.taken, ← hnone]
  | some reason =>
      rw [hreason] at hok
      simp only [Option.map_some] at hok
      split at hok
      · cases hok
      · next usage husage =>
          obtain ⟨hframes, rfl⟩ := Prod.mk.inj hok
          refine ⟨⟨usage, terminalUsage_ok h.follows husage, ?_⟩, rfl⟩
          rw [← Except.ok.inj hframes, ← chunk_eq (s := s.taken) h.context]
          rfl

theorem followedBy_eq_ok {r : Rendered} {next : OpenAiChatStream → Rendered}
    {frames : List OpenAiChatFrame} {t : OpenAiChatStream}
    (h : Rendered.followedBy r next = (.ok frames, t)) :
    ∃ first middle more, r = (.ok first, middle) ∧ next middle = (.ok more, t) ∧
      frames = first ++ more := by
  obtain ⟨result, middle⟩ := r
  cases result with
  | error e => cases h
  | ok first =>
      unfold Rendered.followedBy at h
      dsimp only at h
      split at h
      · cases h
      · next more u hnext =>
          obtain ⟨hframes, rfl⟩ := Prod.mk.inj h
          exact ⟨first, middle, more, rfl, hnext, (Except.ok.inj hframes).symm⟩

theorem pushDeltas_frame {s : OpenAiChatStream} {history : List StreamEvent}
    (h : Shows packages context s history) (hlive : s.inner.terminated = false)
    {event : StreamEvent} {choice : Nat} {delta : Value}
    (hdelta : choiceDelta event = some (choice, delta)) :
    ∃ roles, s.taken.pushDeltas packages choice event =
        ({ s.taken with rolesSent := roles },
          [⟨.delta, chunkOf context [deltaChoice history choice delta] none⟩]) ∧
      ∀ other, other ∈ roles ↔ other = choice ∨ other ∈ choicesSeen history := by
  have hchunk : openaiChatFrame packages s.taken.inner event =
      (s.taken.inner, [Chat.delta choice delta]) := by
    rw [openaiChatFrame_eq packages (show s.taken.inner.terminated = false from hlive)]
    cases event with
    | delta | thinkingDelta | toolCallDelta =>
        obtain ⟨rfl, rfl⟩ := Prod.mk.inj (Option.some.inj hdelta)
        rfl
    | thinkingSignatureDelta | redactedThinking | usage | finish | done | error => cases hdelta
  have hchoices : ((Chat.delta choice delta).get "choices").bind Value.asArray =
      some [Value.obj [("index", .nat choice), ("delta", delta), ("finish_reason", .null)]] := by
    simp [Chat.delta, lookup]
  have hroles : choice ∈ s.taken.rolesSent ↔ choice ∈ choicesSeen history := h.roles choice
  simp only [OpenAiChatStream.pushDeltas, hchunk, OpenAiChatStream.pushAll,
    OpenAiChatStream.pushDelta, hchoices, Option.getD_some, List.map_cons, List.map_nil]
  by_cases hseen : choice ∈ choicesSeen history
  · rw [if_pos (hroles.mpr hseen), deltaChoice, if_pos hseen]
    refine ⟨s.rolesSent, ?_, fun other => ?_⟩
    · rw [← chunk_eq (s := s.taken) h.context]
      rfl
    · rw [h.roles]
      exact ⟨.inr, fun hcases => hcases.elim (fun heq => heq ▸ hseen) id⟩
  · rw [if_neg (fun hmem => hseen (hroles.mp hmem)), deltaChoice, if_neg hseen]
    refine ⟨choice :: s.rolesSent, ?_, fun other => ?_⟩
    · rw [← chunk_eq (s := s.taken) h.context]
      rfl
    · rw [List.mem_cons, h.roles]

theorem trailingUsage_ok {s t : OpenAiChatStream} {history : List StreamEvent}
    (h : Shows packages context s history) {finishReason : Option FinishReason}
    {stopSequence : Option String} {closing : List OpenAiChatFrame}
    (hok : s.taken.trailingUsage = (.ok closing, t)) :
    ClosedUsage packages context history (.done finishReason stopSequence) closing ∧
      t.context = s.context ∧ t.rolesSent = s.rolesSent ∧ t.inner.pendingFinish = none := by
  have hguard : (s.taken.finishSeen || !s.taken.usageFolded || s.taken.usageFrameSent) = true ↔
      ¬SendsUsage history (.done finishReason stopSequence) := by
    have hseen : s.taken.finishSeen = finished history := h.follows.seen
    have hfolded : s.taken.usageFolded = reported history := h.follows.folded
    have hsent : finished history = false → s.taken.usageFrameSent = usageSent history :=
      h.follows.sent
    rw [hseen, hfolded, SendsUsage]
    cases hfinished : finished history with
    | true => simp
    | false =>
        rw [hsent hfinished]
        simp [isDone, imp_iff_not_or]
  unfold OpenAiChatStream.trailingUsage at hok
  split at hok
  · next hquiet =>
      obtain ⟨hframes, rfl⟩ := Prod.mk.inj hok
      exact ⟨.inr ⟨hguard.mp hquiet, (Except.ok.inj hframes).symm⟩, rfl, rfl, rfl⟩
  · next hsends =>
      split at hok
      · cases hok
      · next object hobject =>
          obtain ⟨hframes, rfl⟩ := Prod.mk.inj hok
          rw [show s.taken.inner.usage = usageOf packages.absorb history from h.follows.usage]
            at hobject
          refine ⟨.inl ⟨?_, object, hobject, ?_⟩, rfl, rfl, rfl⟩
          · by_contra hnot
            exact hsends (hguard.mpr hnot)
          · rw [← Except.ok.inj hframes, ← chunk_eq (s := s.taken) h.context]

theorem closed_quiet {history : List StreamEvent} {event : StreamEvent}
    (h : isDone event = false) : ClosedUsage packages context history event [] :=
  .inr ⟨fun hsends => Bool.false_ne_true (h.symm.trans hsends.1), rfl⟩

/-- Rendering an event emits what the events before it left to emit, and goes on from there. -/
theorem render_emitted {s t : OpenAiChatStream} {history : List StreamEvent}
    (h : Shows packages context s history) (hlive : history.any isError = false)
    {event : StreamEvent} {now : List OpenAiChatFrame}
    (hok : s.render packages event = (.ok now, t)) :
    Emitted packages context history event now ∧
      Shows packages context t (history ++ [event]) := by
  have hterminated : s.inner.terminated = false := h.follows.live.trans hlive
  have hfollows : Follows packages t (history ++ [event]) := by
    rcases render_cases h.follows hlive event with ⟨-, e, u, herror⟩ | ⟨-, frames, u, hframes, -, hu⟩
    · rw [hok] at herror
      cases herror
    · rw [hok] at hframes
      obtain ⟨-, rfl⟩ := Prod.mk.inj hframes
      exact hu
  -- What an event without content or a finish leaves as it was.
  have hsame : choiceDelta event = none → flushes event = false → t.context = s.context →
      t.rolesSent = s.rolesSent → t.inner.pendingFinish = s.inner.pendingFinish →
      Shows packages context t (history ++ [event]) := by
    intro hdelta hflushes hcontext hroles hpending
    refine ⟨hfollows, hcontext.trans h.context, fun choice => ?_, ?_⟩
    · rw [hroles, h.roles, choicesSeen_snoc, hdelta, Option.map_none, Option.toList_none,
        List.append_nil]
    · rw [hpending, h.pending, pendingReason_snoc, if_neg (by rw [hflushes]; exact Bool.false_ne_true)]
  have hcontent : ∀ choice delta, choiceDelta event = some (choice, delta) →
      s.renderContent packages choice event = (.ok now, t) →
      Emitted packages context history event now ∧
        Shows packages context t (history ++ [event]) := by
    intro choice delta hdelta hrender
    obtain ⟨sent, middle, own, hflush, hpush, rfl⟩ := followedBy_eq_ok hrender
    obtain ⟨hsent, rfl⟩ := flushTerminal_ok h hflush
    obtain ⟨roles, hframe, hroles⟩ := pushDeltas_frame h hterminated hdelta
    rw [hframe] at hpush
    obtain ⟨hown, rfl⟩ := Prod.mk.inj hpush
    have hflushes : flushes event = true ∧ asFinish event = none ∧ isDone event = false := by
      cases event with
      | delta | thinkingDelta | toolCallDelta => exact ⟨rfl, rfl, rfl⟩
      | thinkingSignatureDelta | redactedThinking | usage | finish | done | error => cases hdelta
    constructor
    · have hemitted := Emitted.flushed hflushes.1 hsent (closed_quiet hflushes.2.2)
      rw [List.append_nil, deltaFrames, hdelta] at hemitted
      rwa [← Except.ok.inj hown]
    · refine ⟨hfollows, h.context, fun other => ?_, ?_⟩
      · rw [choicesSeen_snoc, hdelta, hroles]
        simp [or_comm]
      · rw [pendingReason_snoc, if_pos hflushes.1, hflushes.2.1]
        rfl
  cases event with
  | delta index content => exact hcontent index _ rfl hok
  | thinkingDelta index blockIndex thinking => exact hcontent index _ rfl hok
  | toolCallDelta index id name argumentsDelta signature => exact hcontent 0 _ rfl hok
  | thinkingSignatureDelta | redactedThinking =>
      cases hok
      exact ⟨.quiet rfl, hsame rfl rfl rfl rfl rfl⟩
  | usage usage =>
      cases hok
      exact ⟨.quiet rfl, hsame rfl rfl rfl rfl rfl⟩
  | error error =>
      cases hok
      exact ⟨.quiet rfl, hsame rfl rfl rfl rfl rfl⟩
  | finish finishReason stopSequence =>
      rw [OpenAiChatStream.render] at hok
      obtain ⟨sent, middle, own, hflush, hrecord, rfl⟩ := followedBy_eq_ok hok
      obtain ⟨hsent, rfl⟩ := flushTerminal_ok h hflush
      have hrendered : openaiChatFrame packages s.taken.inner
          (.finish finishReason stopSequence) = ({ s.taken.inner with
            pendingFinish := some (renderFinishReason packages finishReason) }, []) :=
        openaiChatFrame_eq packages (show s.taken.inner.terminated = false from hterminated) _
      rw [hrendered] at hrecord
      obtain ⟨hown, rfl⟩ := Prod.mk.inj hrecord
      constructor
      · have hemitted := Emitted.flushed rfl hsent
          (@closed_quiet packages context history (.finish finishReason stopSequence) rfl)
        rwa [← Except.ok.inj hown]
      · refine ⟨hfollows, h.context, fun other => ?_, ?_⟩
        · rw [choicesSeen_snoc, show choiceDelta (.finish finishReason stopSequence) = none from rfl,
            Option.map_none, Option.toList_none, List.append_nil]
          exact h.roles other
        · rw [pendingReason_snoc]
          rfl
  | done finishReason stopSequence =>
      obtain ⟨sent, middle, closing, hflush, htrailing, rfl⟩ := followedBy_eq_ok hok
      obtain ⟨hsent, rfl⟩ := flushTerminal_ok h hflush
      obtain ⟨hclosing, hcontext, hroles, hpending⟩ := trailingUsage_ok h htrailing
      refine ⟨.flushed rfl hsent hclosing, ⟨hfollows, hcontext.trans h.context, fun other => ?_, ?_⟩⟩
      · rw [choicesSeen_snoc, hroles, show choiceDelta (.done finishReason stopSequence) = none from
          rfl, Option.map_none, Option.toList_none, List.append_nil]
        exact h.roles other
      · rw [hpending, pendingReason_snoc]
        rfl

end

end TokenStation.Chat
