import TokenStation.Responses.Stream

/-!
# The envelope of a stream

Whatever the batches and whichever calls fail, the frames handed out over all
calls are numbered without gaps, start with the created frame and hold at most
one terminal frame, the last. After a failed call only the terminal failure is
left to send.
-/

namespace TokenStation.Responses

open Library Library.Json Library.Fallible

def createdEvent : String := "response.created"

def terminalEvents : List String :=
  ["response.completed", "response.incomplete", "response.failed"]

/-- The number a frame carries. -/
def ResponsesFrame.sequenceNumber (f : ResponsesFrame) : Option Nat :=
  (f.data.field "sequence_number").asU64

/-- Frames numbered from zero, opened by the created frame, and ended by a
terminal frame when `ended`. -/
structure Enveloped (frames : List ResponsesFrame) (ended : Bool) : Prop where
  numbered : ∀ (i : Nat) (f : ResponsesFrame), frames[i]? = some f → f.sequenceNumber = some i
  created : ∀ (i : Nat) (f : ResponsesFrame), frames[i]? = some f → (f.event = createdEvent ↔ i = 0)
  terminal : ∀ (i : Nat) (f : ResponsesFrame), frames[i]? = some f →
    f.event ∈ terminalEvents → ended = true ∧ i + 1 = frames.length

theorem Enveloped.nil : Enveloped [] false := by
  constructor <;> simp

theorem Enveloped.snoc {frames : List ResponsesFrame} (h : Enveloped frames false)
    {f : ResponsesFrame} (hnumber : f.sequenceNumber = some frames.length)
    (hcreated : f.event = createdEvent ↔ frames = []) :
    Enveloped (frames ++ [f]) (f.event ∈ terminalEvents) := by
  have hcases : ∀ i g, (frames ++ [f])[i]? = some g →
      frames[i]? = some g ∨ (i = frames.length ∧ g = f) := by
    intro i g hg
    rw [List.getElem?_append] at hg
    split at hg
    · exact .inl hg
    · rename_i hlt
      have hi : i = frames.length := by
        have := (List.getElem?_eq_some_iff.mp hg).1
        simp only [List.length_singleton] at this
        omega
      subst hi
      simpa using hg.symm
  refine ⟨?_, ?_, ?_⟩
  · intro i g hg
    rcases hcases i g hg with hg | ⟨rfl, rfl⟩
    · exact h.numbered i g hg
    · exact hnumber
  · intro i g hg
    rcases hcases i g hg with hg | ⟨rfl, rfl⟩
    · exact h.created i g hg
    · rw [hcreated, List.length_eq_zero_iff]
  · intro i g hg hterminal
    rcases hcases i g hg with hg | ⟨rfl, rfl⟩
    · have := (h.terminal i g hg hterminal).1
      simp at this
    · simp [hterminal]

/-- A running stream, announced, with `sent` frames before the current call. -/
structure Live (sent : List ResponsesFrame) (r : Rendering) : Prop where
  frames : Enveloped (sent ++ r.out) false
  sequence : r.sequence = (sent ++ r.out).length
  created : r.created = true
  announced : sent ++ r.out ≠ []
  running : r.isTerminated = false

/-- A step that keeps the status and leaves a running stream running. -/
def Keeps (sent : List ResponsesFrame) (s t : Rendering) : Prop :=
  t.status = s.status ∧ (Live sent s → Live sent t)

theorem Keeps.refl (sent : List ResponsesFrame) (s : Rendering) : Keeps sent s s := ⟨rfl, id⟩

theorem Keeps.trans {sent : List ResponsesFrame} {s t u : Rendering} (hst : Keeps sent s t)
    (htu : Keeps sent t u) : Keeps sent s u :=
  ⟨htu.1.trans hst.1, htu.2 ∘ hst.2⟩

/-- A step that touches neither the frames nor the envelope's own fields. -/
theorem Keeps.silent {sent : List ResponsesFrame} {s t : Rendering} (hout : t.out = s.out)
    (hsequence : t.sequence = s.sequence) (hcreated : t.created = s.created)
    (hstatus : t.status = s.status) : Keeps sent s t := by
  refine ⟨hstatus, fun h => ?_⟩
  refine ⟨hout ▸ h.frames, by rw [hsequence, hout, h.sequence], hcreated.trans h.created,
    hout ▸ h.announced, ?_⟩
  have hrunning := h.running
  unfold ResponsesSseState.isTerminated at hrunning ⊢
  rwa [hstatus]

section

variable {sent : List ResponsesFrame} {α β : Type}

theorem keeps_bind {m : Render α} {f : α → Render β} (hm : Within (Keeps sent) m)
    (hf : ∀ a, Within (Keeps sent) (f a)) : Within (Keeps sent) (m >>= f) :=
  Within.bind Keeps.trans hm hf

theorem keeps_get {f : Rendering → Render β} (hf : ∀ s, Within (Keeps sent) (f s)) :
    Within (Keeps sent) (get >>= f) :=
  keeps_bind (Within.get (Keeps.refl sent)) hf

theorem keeps_lift {r : Except CodecError α} {f : α → Render β}
    (hf : ∀ a, Within (Keeps sent) (f a)) : Within (Keeps sent) (lift r >>= f) :=
  keeps_bind (Within.lift (Keeps.refl sent) r) hf

theorem keeps_pure (a : α) : Within (Keeps sent) (pure a : Render α) :=
  Within.pure (Keeps.refl sent) a

theorem keeps_when {m : Render Unit} (c : Bool) (hm : Within (Keeps sent) m) :
    Within (Keeps sent) (when c m) :=
  Within.when (Keeps.refl sent) c hm

theorem keeps_forM {ι : Type} {body : ι → Render PUnit} (hbody : ∀ i, Within (Keeps sent) (body i))
    (l : List ι) : Within (Keeps sent) (l.forM body) :=
  Within.forM (Keeps.refl sent) Keeps.trans hbody l

theorem keeps_modify {g : Rendering → Rendering} (hg : ∀ s, (g s).out = s.out ∧
    (g s).sequence = s.sequence ∧ (g s).created = s.created ∧ (g s).status = s.status) :
    Within (Keeps sent) (modify g : Render Unit) :=
  Within.modify fun s => Keeps.silent (hg s).1 (hg s).2.1 (hg s).2.2.1 (hg s).2.2.2

/-! ## Emitting -/

theorem emit_returns {kind : String} {data : Value} {s t : Rendering}
    (h : Returns (emit kind data) s () t) :
    t = { s with
      sequence := s.sequence + 1, out := s.out ++ [⟨kind, stamp kind data s.sequence⟩] } := by
  rw [emit, returns_get_bind] at h
  split at h
  · exact returns_modify.mp h
  · exact absurd h not_returns_fail

theorem sequenceNumber_stamp {data : Value} (h : data.isObject = true) (kind : String) (n : Nat) :
    (⟨kind, stamp kind data n⟩ : ResponsesFrame).sequenceNumber = some n := by
  simp [ResponsesFrame.sequenceNumber, stamp, Value.field, h]

/-- Frames of a running stream: neither the first nor a terminal one. -/
def Ordinary (kind : String) : Prop := kind ≠ createdEvent ∧ kind ∉ terminalEvents

instance (kind : String) : Decidable (Ordinary kind) := inferInstanceAs (Decidable (_ ∧ _))

theorem keeps_emit {kind : String} (hkind : Ordinary kind) {data : Value}
    (hdata : data.isObject = true) : Within (Keeps sent) (emit kind data) := by
  intro s _ t h
  obtain rfl := emit_returns h
  refine ⟨rfl, fun hs => ?_⟩
  have hframe := hs.frames.snoc (f := ⟨kind, stamp kind data s.sequence⟩)
    (by rw [sequenceNumber_stamp hdata, hs.sequence])
    ⟨fun heq => absurd heq hkind.1, fun hnil => absurd hnil hs.announced⟩
  rw [decide_eq_false hkind.2, List.append_assoc] at hframe
  exact ⟨hframe, by simp [hs.sequence, Nat.add_assoc], hs.created, by simp, hs.running⟩

/-! ## The renderers -/

theorem keeps_updateSlot (position : Nat) (f : Slot → Slot) :
    Within (Keeps sent) (updateSlot position f) :=
  keeps_modify fun _ => ⟨rfl, rfl, rfl, rfl⟩

theorem keeps_slot (kind : SlotKind) (index : Nat) : Within (Keeps sent) (slot kind index) := by
  refine keeps_get fun s => ?_
  split
  · exact keeps_pure _
  · simp only
    split
    · exact keeps_bind (keeps_modify fun _ => ⟨rfl, rfl, rfl, rfl⟩) fun _ => keeps_pure _
    · exact Within.fail _

theorem keeps_preflight (index current appended : Nat) (newLayout : Bool) :
    Within (Keeps sent) (preflightReplayAppend index current appended newLayout) := by
  refine keeps_get fun s => ?_
  split
  · exact keeps_pure _
  · exact Within.fail _

theorem keeps_ensureReplayBlockOrder (index blockIndex : Nat) :
    Within (Keeps sent) (ensureReplayBlockOrder index blockIndex) := by
  refine keeps_get fun s => ?_
  split
  · exact keeps_pure _
  · split
    · exact Within.fail _
    · exact keeps_bind (keeps_modify fun _ => ⟨rfl, rfl, rfl, rfl⟩) fun _ =>
        keeps_modify fun _ => ⟨rfl, rfl, rfl, rfl⟩

variable (packages : Packages)

theorem keeps_closeContent (s : Rendering) (slot : Slot) (item : Value) :
    Within (Keeps sent) (closeContent packages s slot item) := by
  unfold closeContent
  simp only
  split
  · exact keeps_bind (keeps_emit (by decide) rfl) fun _ => keeps_emit (by decide) rfl
  · split
    · exact keeps_emit (by decide) rfl
    · exact keeps_bind (keeps_emit (by decide) rfl) fun _ => keeps_emit (by decide) rfl
  · split
    · split
      · exact Within.fail _
      · exact keeps_bind (keeps_when _ (keeps_emit (by decide) rfl)) fun _ =>
          keeps_emit (by decide) rfl
    · exact keeps_emit (by decide) rfl
    · exact keeps_emit (by decide) rfl

theorem keeps_close (position : Nat) : Within (Keeps sent) (close packages position) := by
  refine keeps_get fun s => keeps_when _ (keeps_lift fun item => ?_)
  refine keeps_bind (keeps_closeContent packages _ _ _) fun _ => ?_
  exact keeps_bind (keeps_emit (by decide) rfl) fun _ => keeps_updateSlot _ _

theorem keeps_closeRawReasoning (index : Nat) :
    Within (Keeps sent) (closeRawReasoning packages index) := by
  refine keeps_get fun s => keeps_when _ (keeps_forM (fun position => ?_) _)
  exact keeps_get fun s => keeps_when _ (keeps_close packages position)

theorem keeps_finalizeReplayCarriers :
    Within (Keeps sent) (finalizeReplayCarriers packages) := by
  refine keeps_get fun s => keeps_forM (fun index => ?_) _
  exact keeps_get fun s => keeps_lift fun carrier => keeps_modify fun _ => ⟨rfl, rfl, rfl, rfl⟩

theorem keeps_openText (position index : Nat) : Within (Keeps sent) (openText position index) := by
  refine keeps_get fun s => keeps_bind (keeps_when _ (keeps_preflight _ _ _ _)) fun _ => ?_
  refine keeps_bind (keeps_modify fun _ => ⟨rfl, rfl, rfl, rfl⟩) fun _ => ?_
  refine keeps_bind (keeps_modify fun _ => ⟨rfl, rfl, rfl, rfl⟩) fun _ => ?_
  exact keeps_bind (keeps_emit (by decide) rfl) fun _ => keeps_emit (by decide) rfl

theorem keeps_renderDelta (index : Nat) (content : String) :
    Within (Keeps sent) (renderDelta packages index content) := by
  refine keeps_bind (keeps_closeRawReasoning packages index) fun _ => ?_
  refine keeps_bind (keeps_slot _ _) fun p => ?_
  refine keeps_bind (keeps_when _ (keeps_openText _ _)) fun _ => ?_
  exact keeps_bind (keeps_updateSlot _ _) fun _ => keeps_get fun s => keeps_emit (by decide) rfl

theorem keeps_addReasoning (position : Nat) : Within (Keeps sent) (addReasoning position) :=
  keeps_get fun _ => keeps_emit (by decide) rfl

theorem keeps_openThinking (position : Nat) : Within (Keeps sent) (openThinking position) := by
  refine keeps_bind (keeps_addReasoning position) fun _ => keeps_get fun s => ?_
  exact keeps_when _ (keeps_emit (by decide) rfl)

theorem keeps_appendThinking (index blockIndex : Nat) (text : String) :
    Within (Keeps sent) (appendThinking index blockIndex text) := by
  refine keeps_get fun s => ?_
  simp only
  split
  · refine keeps_bind (keeps_preflight _ _ _ _) fun _ => ?_
    refine keeps_bind (keeps_ensureReplayBlockOrder _ _) fun _ => ?_
    exact keeps_bind (keeps_modify fun _ => ⟨rfl, rfl, rfl, rfl⟩) fun _ =>
      keeps_modify fun _ => ⟨rfl, rfl, rfl, rfl⟩
  · refine keeps_bind (keeps_preflight _ _ _ _) fun _ => ?_
    exact keeps_bind (keeps_modify fun _ => ⟨rfl, rfl, rfl, rfl⟩) fun _ =>
      keeps_modify fun _ => ⟨rfl, rfl, rfl, rfl⟩
  · exact Within.fail _

theorem keeps_renderThinkingDelta (index blockIndex : Nat) (text : String) :
    Within (Keeps sent) (renderThinkingDelta index blockIndex text) := by
  refine keeps_bind (keeps_appendThinking index blockIndex text) fun _ => ?_
  refine keeps_bind (keeps_slot _ _) fun p => ?_
  refine keeps_bind (keeps_when _ (keeps_openThinking _)) fun _ => ?_
  refine keeps_bind (keeps_updateSlot _ _) fun _ => keeps_get fun s => ?_
  simp only
  split
  · exact keeps_emit (by decide) rfl
  · exact keeps_emit (by decide) rfl

theorem keeps_renderSignatureDelta (index blockIndex : Nat) (text : String) :
    Within (Keeps sent) (renderSignatureDelta index blockIndex text) := by
  refine keeps_get fun s => ?_
  split
  · refine keeps_bind (keeps_preflight _ _ _ _) fun _ => ?_
    refine keeps_bind (keeps_modify fun _ => ⟨rfl, rfl, rfl, rfl⟩) fun _ => ?_
    refine keeps_bind (keeps_modify fun _ => ⟨rfl, rfl, rfl, rfl⟩) fun _ => ?_
    refine keeps_bind (keeps_when _ (keeps_modify fun _ => ⟨rfl, rfl, rfl, rfl⟩)) fun _ => ?_
    refine keeps_bind (keeps_slot _ _) fun p => ?_
    exact keeps_bind (keeps_when _ (keeps_addReasoning _)) fun _ =>
      keeps_when _ (keeps_updateSlot _ _)
  · exact Within.fail _

theorem keeps_renderRedacted (index blockIndex : Nat) (data : String) :
    Within (Keeps sent) (renderRedacted index blockIndex data) := by
  refine keeps_get fun s => ?_
  split
  · exact Within.fail _
  · refine keeps_bind (keeps_preflight _ _ _ _) fun _ => ?_
    refine keeps_bind (keeps_ensureReplayBlockOrder _ _) fun _ => ?_
    refine keeps_bind (keeps_modify fun _ => ⟨rfl, rfl, rfl, rfl⟩) fun _ => ?_
    refine keeps_bind (keeps_modify fun _ => ⟨rfl, rfl, rfl, rfl⟩) fun _ => ?_
    refine keeps_bind (keeps_modify fun _ => ⟨rfl, rfl, rfl, rfl⟩) fun _ => ?_
    exact keeps_bind (keeps_slot _ _) fun p => keeps_when _ (keeps_addReasoning _)

theorem keeps_openTool (position index : Nat) (id name : Option String) :
    Within (Keeps sent) (openTool packages position index id name) := by
  refine keeps_get fun s => keeps_lift fun identity => ?_
  simp only
  split
  · exact Within.fail _
  · refine keeps_bind (keeps_when _ (keeps_preflight _ _ _ _)) fun _ => ?_
    refine keeps_bind (keeps_modify fun _ => ⟨rfl, rfl, rfl, rfl⟩) fun _ => ?_
    refine keeps_bind (keeps_modify fun _ => ⟨rfl, rfl, rfl, rfl⟩) fun _ => ?_
    refine keeps_bind (keeps_updateSlot _ _) fun _ => keeps_when _ (keeps_lift fun item => ?_)
    exact keeps_get fun s => keeps_emit (by decide) rfl

theorem keeps_continueTool (position : Nat) (id name : Option String) :
    Within (Keeps sent) (continueTool position id name) := by
  refine keeps_get fun s => ?_
  simp only
  split
  · exact Within.fail _
  · split
    · exact keeps_pure _
    · split
      · exact keeps_updateSlot _ _
      · split
        · exact keeps_pure _
        · exact Within.fail _

theorem keeps_renderTool (index : Nat) (id name : Option String) (arguments : String) :
    Within (Keeps sent) (renderTool packages index id name arguments) := by
  refine keeps_bind (keeps_closeRawReasoning packages index) fun _ => ?_
  refine keeps_bind (keeps_slot _ _) fun p => ?_
  refine keeps_bind ?_ fun _ => ?_
  · split
    · exact keeps_openTool packages _ _ _ _
    · exact keeps_continueTool _ _ _
  · refine keeps_bind (keeps_updateSlot _ _) fun _ => keeps_get fun s => ?_
    exact keeps_when _ (keeps_emit (by decide) rfl)

end

/-! ## Events and calls -/

/-- What holds between calls: the frames sent so far have the envelope. -/
structure Steady (sent : List ResponsesFrame) (s : ResponsesSseState) : Prop where
  frames : Enveloped sent s.isTerminated
  sequence : s.sequence = sent.length
  created : s.created = true ↔ sent ≠ []

theorem Live.steady {sent : List ResponsesFrame} {r : Rendering} (h : Live sent r) :
    Steady (sent ++ r.out) r.toResponsesSseState :=
  ⟨h.running ▸ h.frames, h.sequence, ⟨fun _ => h.announced, fun _ => h.created⟩⟩

section

variable {sent : List ResponsesFrame} {s t : Rendering}

/-- Whatever comes first, the created frame is sent before it. -/
theorem live_of_start (hs : Steady (sent ++ s.out) s.toResponsesSseState)
    (hrunning : s.isTerminated = false) (h : Returns start s () t) :
    Live sent t ∧ t.status = s.status := by
  rw [start, returns_get_bind, returns_when, returns_modify_bind] at h
  rcases h with ⟨hnew, h⟩ | ⟨hcreated, rfl⟩
  · obtain rfl := emit_returns h
    have hempty : sent ++ s.out = [] := by
      by_contra hne
      simp [hs.created.mpr hne] at hnew
    have hframe := (hrunning ▸ hs.frames).snoc
      (f := ⟨createdEvent, stamp createdEvent (createdPayload s.context) s.sequence⟩)
      (by rw [sequenceNumber_stamp rfl, hs.sequence]) ⟨fun _ => hempty, fun _ => rfl⟩
    rw [List.append_assoc] at hframe
    exact ⟨⟨hframe, by simp [hs.sequence, Nat.add_assoc], rfl, by simp, hrunning⟩, rfl⟩
  · have hcreated : t.created = true := by simpa using hcreated
    exact ⟨⟨hrunning ▸ hs.frames, hs.sequence, hcreated, hs.created.mp hcreated, hrunning⟩, rfl⟩

/-- A terminal frame ends the envelope. -/
theorem Live.ended {kind : String} {data : Value} (hs : Live sent s)
    (hkind : kind ∈ terminalEvents) (hdata : data.isObject = true)
    (h : Returns (emit kind data) s () t) :
    Enveloped (sent ++ t.out) true ∧ t.sequence = (sent ++ t.out).length ∧ t.created = true ∧
      sent ++ t.out ≠ [] := by
  obtain rfl := emit_returns h
  have hne : kind ≠ createdEvent := by
    rintro rfl
    revert hkind
    decide
  have hframe := hs.frames.snoc (f := ⟨kind, stamp kind data s.sequence⟩)
    (by rw [sequenceNumber_stamp hdata, hs.sequence])
    ⟨fun heq => absurd heq hne, fun hnil => absurd hnil hs.announced⟩
  rw [decide_eq_true hkind, List.append_assoc] at hframe
  exact ⟨hframe, by simp [hs.sequence, Nat.add_assoc], hs.created, by simp⟩

variable (packages : Packages)

theorem steady_renderDone {finishReason : Option FinishReason} (hs : Live sent s)
    (h : Returns (renderDone packages finishReason) s () t) :
    Steady (sent ++ t.out) t.toResponsesSseState := by
  obtain ⟨_, s₁, hfinal, h⟩ := returns_bind.mp h
  obtain ⟨_, s₂, hclose, h⟩ := returns_bind.mp (returns_get_bind.mp h)
  obtain ⟨output, -, h⟩ := returns_lift_bind.mp (returns_get_bind.mp h)
  obtain ⟨_, s₃, hfinish, h⟩ := returns_bind.mp h
  obtain ⟨response, -, h⟩ := returns_lift_bind.mp (returns_get_bind.mp h)
  obtain ⟨_, s₄, hemit, hstatus⟩ := returns_bind.mp h
  have h₁ := (keeps_finalizeReplayCarriers packages hfinal).2 hs
  have h₂ := (keeps_forM (keeps_close packages) _ hclose).2 h₁
  have h₃ : Live sent s₃ := by
    rcases returns_when.mp hfinish with ⟨-, hfinish⟩ | ⟨-, rfl⟩
    · obtain rfl := returns_modify.mp hfinish
      exact ⟨h₂.frames, h₂.sequence, h₂.created, h₂.announced, h₂.running⟩
    · exact h₂
  obtain ⟨hframes, hsequence, hcreated, hne⟩ := h₃.ended (by split <;> decide) rfl hemit
  obtain rfl := returns_modify.mp hstatus
  exact ⟨hframes, hsequence, ⟨fun _ => hne, fun _ => hcreated⟩⟩

theorem steady_renderError {error : ErrorEnvelope} (hs : Live sent s)
    (h : Returns (renderError error) s () t) :
    Steady (sent ++ t.out) t.toResponsesSseState := by
  obtain ⟨_, s₁, hemit, hstatus⟩ := returns_bind.mp (returns_get_bind.mp h)
  obtain ⟨hframes, hsequence, hcreated, hne⟩ := hs.ended (by decide) rfl hemit
  obtain rfl := returns_modify.mp hstatus
  exact ⟨hframes, hsequence, ⟨fun _ => hne, fun _ => hcreated⟩⟩

theorem steady_renderBody {event : StreamEvent} (hs : Live sent s)
    (h : Returns (renderBody packages event) s () t) :
    Steady (sent ++ t.out) t.toResponsesSseState := by
  cases event with
  | delta => exact ((keeps_renderDelta packages _ _ h).2 hs).steady
  | thinkingDelta => exact ((keeps_renderThinkingDelta _ _ _ h).2 hs).steady
  | thinkingSignatureDelta => exact ((keeps_renderSignatureDelta _ _ _ h).2 hs).steady
  | redactedThinking => exact ((keeps_renderRedacted _ _ _ h).2 hs).steady
  | toolCallDelta => exact ((keeps_renderTool packages _ _ _ _ h).2 hs).steady
  | usage =>
      obtain rfl := returns_modify.mp h
      exact Live.steady ⟨hs.frames, hs.sequence, hs.created, hs.announced, hs.running⟩
  | finish =>
      obtain rfl := returns_modify.mp h
      exact Live.steady ⟨hs.frames, hs.sequence, hs.created, hs.announced, hs.running⟩
  | done => exact steady_renderDone packages hs h
  | error => exact steady_renderError hs h

theorem readTools_frames (h : Returns (readTools packages) s () t) :
    ∃ restore, t = { s with restore } := by
  rw [readTools, returns_get_bind, returns_when] at h
  rcases h with ⟨-, h⟩ | ⟨-, rfl⟩
  · obtain ⟨map, -, h⟩ := returns_lift_bind.mp h
    exact ⟨some map, returns_modify.mp h⟩
  · exact ⟨t.restore, rfl⟩

theorem steady_renderEvent {event : StreamEvent}
    (hs : Steady (sent ++ s.out) s.toResponsesSseState)
    (h : Returns (renderEvent packages event) s () t) :
    Steady (sent ++ t.out) t.toResponsesSseState := by
  rw [renderEvent, returns_get_bind, returns_when] at h
  rcases h with ⟨hgo, h⟩ | ⟨-, rfl⟩
  · obtain ⟨_, s₁, hread, h⟩ := returns_bind.mp h
    obtain ⟨_, s₂, hstart, hbody⟩ := returns_bind.mp h
    have hrunning : s.isTerminated = false := by
      cases hterminated : s.isTerminated with
      | false => rfl
      | true => simp [hterminated] at hgo
    have hread : ∃ restore, s₁ = { s with restore } := by
      rcases returns_when.mp hread with ⟨-, hread⟩ | ⟨-, rfl⟩
      · exact readTools_frames packages hread
      · exact ⟨s₁.restore, rfl⟩
    obtain ⟨restore, rfl⟩ := hread
    obtain ⟨hlive, -⟩ := live_of_start (s := { s with restore })
      ⟨hs.frames, hs.sequence, hs.created⟩ hrunning hstart
    exact steady_renderBody packages hlive hbody
  · exact hs

theorem steady_render {events : List StreamEvent}
    (hs : Steady (sent ++ s.out) s.toResponsesSseState)
    (h : Returns (render packages events) s () t) :
    Steady (sent ++ t.out) t.toResponsesSseState := by
  obtain ⟨_, s₁, hfirst, hevents⟩ := returns_bind.mp (returns_get_bind.mp h)
  have h₁ : Steady (sent ++ s₁.out) s₁.toResponsesSseState := by
    rcases returns_when.mp hfirst with ⟨hactive, hstart⟩ | ⟨-, rfl⟩
    · have hrunning : s.isTerminated = false := by
        simp only [Bool.and_eq_true, beq_iff_eq] at hactive
        simp [ResponsesSseState.isTerminated, hactive.2]
      exact (live_of_start hs hrunning hstart).1.steady
    · exact hs
  exact Within.forM (R := fun s t => Steady (sent ++ s.out) s.toResponsesSseState →
      Steady (sent ++ t.out) t.toResponsesSseState) (fun _ h => h) (fun h₁ h₂ h => h₂ (h₁ h))
    (fun event _ _ _ h hs => steady_renderEvent packages hs h) events hevents h₁

/-- A terminated stream skips every event. -/
theorem forM_terminated {s : Rendering} (hs : s.isTerminated = true) (events : List StreamEvent) :
    events.forM (renderEvent packages) s = (.ok (), s) := by
  induction events with
  | nil => rfl
  | cons event events ih =>
      have hskip : Returns (renderEvent packages event) s () s := by
        rw [renderEvent, returns_get_bind, returns_when]
        exact .inr ⟨by simp [hs], rfl⟩
      exact returns_forM_cons.mpr ⟨s, hskip, ih⟩

theorem render_terminated {s : Rendering} (hs : s.isTerminated = true)
    (events : List StreamEvent) : render packages events s = (.ok (), s) := by
  have hactive : (s.status == .active) = false := by
    cases hstatus : s.status <;> simp_all [ResponsesSseState.isTerminated]
  have hrender : Returns (render packages events) s () s := by
    rw [render, returns_get_bind, returns_bind]
    exact ⟨(), s, returns_when.mpr (.inr ⟨by simp [hactive], rfl⟩),
      forM_terminated packages hs events⟩
  exact hrender

/-- One call keeps the envelope; a failed one sends nothing and leaves the
stream waiting for an error. -/
theorem steady_responsesFrames {sent : List ResponsesFrame} {s : ResponsesSseState}
    (hs : Steady sent s) (events : List StreamEvent) :
    (∃ frames t, responsesFrames packages events s = (.ok frames, t) ∧ Steady (sent ++ frames) t) ∨
      ∃ e t, responsesFrames packages events s = (.error e, t) ∧ Steady sent t ∧
        t.status = .awaitingError := by
  cases hterminated : s.isTerminated with
  | true =>
      refine .inl ⟨[], s, ?_, by rwa [List.append_nil]⟩
      rw [responsesFrames, render_terminated packages (s := ⟨s, []⟩) hterminated]
  | false =>
      rw [responsesFrames]
      cases hrender : render packages events ⟨s, []⟩ with
      | mk result r =>
          cases result with
          | ok u =>
              refine .inl ⟨r.out, r.toResponsesSseState, rfl, ?_⟩
              exact steady_render packages (by rwa [List.append_nil]) hrender
          | error e =>
              refine .inr ⟨e, _, rfl, ⟨?_, hs.sequence, hs.created⟩, rfl⟩
              have hframes := hs.frames
              rwa [hterminated] at hframes

/-! ## After a failure -/

/-- The frames that can still end a stream that waits for an error. -/
def failureEvents (created : Bool) : List String :=
  if created then ["response.failed"] else [createdEvent, "response.failed"]

theorem start_events {s t : Rendering} (h : Returns start s () t) :
    t.status = s.status ∧
      t.out.map (·.event) = s.out.map (·.event) ++ if s.created then [] else [createdEvent] := by
  rw [start, returns_get_bind, returns_when, returns_modify_bind] at h
  rcases h with ⟨hnew, h⟩ | ⟨hcreated, rfl⟩
  · obtain rfl := emit_returns h
    have hnew : s.created = false := by simpa using hnew
    simp [hnew, createdEvent]
  · have hcreated : t.created = true := by simpa using hcreated
    simp [hcreated]

/-- While a stream waits, an event is skipped or is the error that ends it. -/
theorem renderEvent_awaiting {s t : Rendering} {event : StreamEvent}
    (hs : s.status = .awaitingError) (h : Returns (renderEvent packages event) s () t) :
    t = s ∨ (t.status = .failed ∧
      t.out.map (·.event) = s.out.map (·.event) ++ failureEvents s.created) := by
  rw [renderEvent, returns_get_bind, returns_when] at h
  rcases h with ⟨hgo, h⟩ | ⟨-, rfl⟩
  · cases event with
    | error error =>
        obtain ⟨_, s₁, hread, hrest⟩ := returns_bind.mp h
        obtain ⟨_, s₂, hstart, hbody⟩ := returns_bind.mp hrest
        have hsame : s₁ = s := by simpa [StreamEvent.isError] using hread
        obtain ⟨-, hevents⟩ := start_events hstart
        obtain ⟨_, s₃, hemit, hfailed⟩ := returns_bind.mp (returns_get_bind.mp hbody)
        have hout := congrArg (fun r => r.out.map (·.event)) (emit_returns hemit)
        obtain rfl := returns_modify.mp hfailed
        refine .inr ⟨rfl, hout.trans ?_⟩
        rw [List.map_append, hevents, List.append_assoc, hsame]
        cases s.created <;> rfl
    | _ => simp [hs, StreamEvent.isError] at hgo
  · exact .inl rfl

theorem forM_awaiting {s t : Rendering} {events : List StreamEvent}
    (hs : s.status = .awaitingError) (h : Returns (events.forM (renderEvent packages)) s () t) :
    t = s ∨ (t.status = .failed ∧
      t.out.map (·.event) = s.out.map (·.event) ++ failureEvents s.created) := by
  induction events with
  | nil => exact .inl (returns_forM_nil.mp h)
  | cons event events ih =>
      obtain ⟨u, hevent, hrest⟩ := returns_forM_cons.mp h
      rcases renderEvent_awaiting packages hs hevent with rfl | ⟨hfailed, hevents⟩
      · exact ih hrest
      · have hskip := forM_terminated packages (s := u)
          (by simp [ResponsesSseState.isTerminated, hfailed]) events
        obtain rfl : u = t := congrArg Prod.snd (hskip.symm.trans hrest)
        exact .inr ⟨hfailed, hevents⟩

/-- A call on a waiting stream sends nothing or the failure that ends it. -/
theorem responsesFrames_awaiting {s : ResponsesSseState} (hs : s.status = .awaitingError)
    (events : List StreamEvent) :
    (∃ t, responsesFrames packages events s = (.ok [], t) ∧ t.status = .awaitingError ∧
        t.created = s.created) ∨
      (∃ frames t, responsesFrames packages events s = (.ok frames, t) ∧ t.isTerminated = true ∧
        frames.map (·.event) = failureEvents s.created) ∨
      ∃ e t, responsesFrames packages events s = (.error e, t) ∧ t.status = .awaitingError ∧
        t.created = s.created := by
  rw [responsesFrames]
  cases hrender : render packages events ⟨s, []⟩ with
  | mk result r =>
      cases result with
      | error e => exact .inr (.inr ⟨e, _, rfl, rfl, rfl⟩)
      | ok u =>
          obtain ⟨_, s₁, hfirst, hevents⟩ := returns_bind.mp (returns_get_bind.mp hrender)
          have hsame : s₁ = ⟨s, []⟩ := by
            rcases returns_when.mp hfirst with ⟨hactive, -⟩ | ⟨-, h⟩
            · simp [hs] at hactive
            · exact h
          subst hsame
          rcases forM_awaiting packages hs hevents with rfl | ⟨hfailed, hframes⟩
          · exact .inl ⟨s, rfl, hs, rfl⟩
          · refine .inr (.inl ⟨r.out, _, rfl, ?_, hframes⟩)
            simp [ResponsesSseState.isTerminated, hfailed]

/-! ## Whole streams -/

/-- Call after call over one render state: the results, and the state left. -/
def responsesCalls (state : ResponsesSseState) :
    List (List StreamEvent) → List (Except CodecError (List ResponsesFrame)) × ResponsesSseState
  | [] => ([], state)
  | batch :: batches =>
      let call := responsesFrames packages batch state
      let rest := responsesCalls call.2 batches
      (call.1 :: rest.1, rest.2)

/-- The frames handed out by the calls that succeeded. -/
def delivered (results : List (Except CodecError (List ResponsesFrame))) : List ResponsesFrame :=
  results.flatMap fun result => result.toOption.getD []

@[simp] theorem delivered_nil : delivered [] = [] := rfl

@[simp] theorem delivered_ok (frames : List ResponsesFrame)
    (results : List (Except CodecError (List ResponsesFrame))) :
    delivered (.ok frames :: results) = frames ++ delivered results := rfl

@[simp] theorem delivered_error (e : CodecError)
    (results : List (Except CodecError (List ResponsesFrame))) :
    delivered (.error e :: results) = delivered results := rfl

theorem steady_responsesCalls {sent : List ResponsesFrame} {s : ResponsesSseState}
    (hs : Steady sent s) (batches : List (List StreamEvent)) :
    Steady (sent ++ delivered (responsesCalls packages s batches).1)
      (responsesCalls packages s batches).2 := by
  induction batches generalizing sent s with
  | nil => simpa [responsesCalls] using hs
  | cons batch batches ih =>
      rcases steady_responsesFrames packages hs batch with
        ⟨frames, t, hcall, ht⟩ | ⟨e, t, hcall, ht, -⟩
      · have hrest := ih ht
        rw [List.append_assoc] at hrest
        simpa [responsesCalls, hcall] using hrest
      · simpa [responsesCalls, hcall] using ih ht

theorem delivered_terminated {s : ResponsesSseState} (hs : s.isTerminated = true)
    (batches : List (List StreamEvent)) :
    delivered (responsesCalls packages s batches).1 = [] := by
  induction batches with
  | nil => rfl
  | cons batch batches ih =>
      have hcall : responsesFrames packages batch s = (.ok [], s) := by
        rw [responsesFrames, render_terminated packages (s := ⟨s, []⟩) hs]
      simpa [responsesCalls, hcall] using ih

theorem delivered_awaiting {s : ResponsesSseState} (hs : s.status = .awaitingError)
    (batches : List (List StreamEvent)) :
    delivered (responsesCalls packages s batches).1 = [] ∨
      (delivered (responsesCalls packages s batches).1).map (·.event) =
        failureEvents s.created := by
  induction batches generalizing s with
  | nil => exact .inl rfl
  | cons batch batches ih =>
      rcases responsesFrames_awaiting packages hs batch with
        ⟨t, hcall, ht, hcreated⟩ | ⟨frames, t, hcall, ht, hframes⟩ | ⟨e, t, hcall, ht, hcreated⟩
      · simpa [responsesCalls, hcall, hcreated] using ih ht
      · have hrest := delivered_terminated packages ht batches
        right
        simp [responsesCalls, hcall, hrest, hframes]
      · simpa [responsesCalls, hcall, hcreated] using ih ht

/-- What follows a failed call comes from a stream that waits for an error. -/
theorem after_failure {sent : List ResponsesFrame} {s : ResponsesSseState} (hs : Steady sent s)
    {batches : List (List StreamEvent)}
    {before after : List (Except CodecError (List ResponsesFrame))} {e : CodecError}
    (h : (responsesCalls packages s batches).1 = before ++ .error e :: after) :
    ∃ t rest, t.status = .awaitingError ∧ Steady (sent ++ delivered before) t ∧
      after = (responsesCalls packages t rest).1 := by
  induction batches generalizing sent s before with
  | nil => simp [responsesCalls] at h
  | cons batch batches ih =>
      cases before with
      | nil =>
          rw [responsesCalls, List.nil_append] at h
          obtain ⟨hfirst, hrest⟩ := List.cons.inj h
          rcases steady_responsesFrames packages hs batch with
            ⟨frames, t, hcall, -⟩ | ⟨e', t, hcall, ht, hstatus⟩
          · rw [hcall] at hfirst
            cases hfirst
          · refine ⟨t, batches, hstatus, by simpa using ht, ?_⟩
            rw [← hrest, hcall]
      | cons result before =>
          rw [responsesCalls, List.cons_append] at h
          obtain ⟨rfl, hrest⟩ := List.cons.inj h
          rcases steady_responsesFrames packages hs batch with
            ⟨frames, t, hcall, ht⟩ | ⟨e', t, hcall, ht, -⟩
          · rw [hcall] at hrest
            obtain ⟨u, rest, hu, hsteady, hafter⟩ := ih ht hrest
            refine ⟨u, rest, hu, ?_, hafter⟩
            simpa [hcall] using hsteady
          · rw [hcall] at hrest
            obtain ⟨u, rest, hu, hsteady, hafter⟩ := ih ht hrest
            refine ⟨u, rest, hu, ?_, hafter⟩
            simpa [hcall] using hsteady

/-- The envelope of every stream: numbers without gaps, the created frame first
and only first, at most one terminal frame and that the last, and after a
failed call nothing but the failure that ends the stream. -/
theorem responses_stream_envelope (context : ResponsesContext)
    (batches : List (List StreamEvent)) :
    let results := (responsesCalls packages (.new context) batches).1
    let frames := delivered results
    (∀ (i : Nat) (f : ResponsesFrame), frames[i]? = some f → f.sequenceNumber = some i) ∧
      (∀ (i : Nat) (f : ResponsesFrame), frames[i]? = some f →
        (f.event = createdEvent ↔ i = 0)) ∧
      (∀ (i : Nat) (f : ResponsesFrame), frames[i]? = some f → f.event ∈ terminalEvents →
        i + 1 = frames.length) ∧
      ∀ before e after, results = before ++ .error e :: after →
        delivered after = [] ∨ (delivered after).map (·.event) =
          if delivered before = [] then [createdEvent, "response.failed"]
          else ["response.failed"] := by
  have hnew : Steady [] (.new context) := ⟨.nil, rfl, by simp [ResponsesSseState.new]⟩
  have hsteady := steady_responsesCalls packages hnew batches
  rw [List.nil_append] at hsteady
  refine ⟨hsteady.frames.numbered, hsteady.frames.created,
    fun i f hf hterminal => (hsteady.frames.terminal i f hf hterminal).2, ?_⟩
  intro before e after hresults
  obtain ⟨t, rest, hstatus, ht, rfl⟩ := after_failure packages hnew hresults
  rcases delivered_awaiting packages hstatus rest with hnone | hevents
  · exact .inl hnone
  · refine .inr (hevents.trans ?_)
    have hcreated := ht.created
    rw [List.nil_append] at hcreated
    by_cases hsent : delivered before = []
    · have hfalse : t.created = false := by
        cases hc : t.created with
        | false => rfl
        | true => exact absurd hsent (hcreated.mp hc)
      simp [hsent, hfalse, failureEvents]
    · simp [hsent, hcreated.mpr hsent, failureEvents]

end

end TokenStation.Responses
