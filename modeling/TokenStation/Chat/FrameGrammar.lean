import TokenStation.Chat.EventFrames

/-!
# The grammar of a Chat stream's frames

Where roles, terminal frames and usage stand among the frames of a stream, however its
events were batched.
-/

namespace TokenStation.Chat

open Library Library.Json Library.Checked Responses

/-! ## Reading frames -/

/-- The first choice of a frame. -/
def OpenAiChatFrame.choice (frame : OpenAiChatFrame) : Value :=
  ((frame.data.field "choices").asArray.getD []).head?.getD .null

def OpenAiChatFrame.role (frame : OpenAiChatFrame) : Option Value :=
  (frame.choice.field "delta").get "role"

/-- The delta frames of a choice. -/
def ofChoice (index : Nat) (frames : List OpenAiChatFrame) : List OpenAiChatFrame :=
  frames.filter fun frame =>
    frame.kind == .delta && (frame.choice.get "index").bind Value.asU64 == some index

/-- The choices of each terminal frame. -/
def terminals (frames : List OpenAiChatFrame) : List Value :=
  (frames.filter fun frame => frame.kind == .terminal).map (·.data.field "choices")

def usageFrames (frames : List OpenAiChatFrame) : List OpenAiChatFrame :=
  frames.filter fun frame => frame.kind == .usage

/-- The first frame has the role, no other has one. -/
def RoleOnFirst (frames : List OpenAiChatFrame) : Prop :=
  ∀ before frame after, frames = before ++ frame :: after →
    frame.role = if before.isEmpty then some (.string "assistant") else none

/-- Something is sent before an error. -/
def reachesFlush (events : List StreamEvent) : Bool :=
  (events.takeWhile fun event => !isError event).any flushes

/-- The reasons of the finishes that something follows before an error. -/
def flushedFinishes : List StreamEvent → List (Option FinishReason)
  | [] => []
  | event :: events =>
      if isError event then []
      else (if reachesFlush events then (asFinish event).toList else []) ++ flushedFinishes events

section

variable (packages : Packages) (context : ChatStreamContext)

def terminalChoices (reason : Option FinishReason) : Value :=
  .array [finishChoice (renderFinishReason packages reason)]

/-- The frames each event emitted, taken together. -/
structure FrameGrammar (events : List StreamEvent) (outputs : List (List OpenAiChatFrame)) :
    Prop where
  roles : ∀ index, RoleOnFirst (ofChoice index outputs.flatten)
  roleless : ∀ frame ∈ outputs.flatten, frame.kind ≠ .delta → frame.role = none
  finishes : terminals outputs.flatten = (flushedFinishes events).map (terminalChoices packages)
  once : (usageFrames outputs.flatten).length ≤ 1
  unfinished : ∀ history event rest now frame, events = history ++ event :: rest →
    outputs[history.length]? = some now → frame ∈ now → frame.kind = .usage →
    finished history = false
  usage : ∀ history event rest now frame, events = history ++ event :: rest →
    outputs[history.length]? = some now → frame ∈ now →
    if frame.kind = .delta then frame.data.get "usage" = none
    else UsageAt packages history (frame.data.get "usage")
  closed : ∀ history event rest now, events = history ++ event :: rest →
    outputs[history.length]? = some now → (history ++ [event]).any isError = true → now = []

/-! ## One event -/

theorem chunkOf_choices (choices : List Value) (usage : Option Value) :
    (chunkOf context choices usage).get "choices" = some (.array choices) := by
  cases usage <;> simp [chunkOf, OpenAiChatStream.chunk, OpenAiChatStream.new, lookup]

theorem chunkOf_usage (choices : List Value) (usage : Option Value) :
    (chunkOf context choices usage).get "usage" = usage := by
  cases usage <;> simp [chunkOf, OpenAiChatStream.chunk, OpenAiChatStream.new, lookup]

theorem choice_chunkOf (kind : OpenAiChatFrameKind) (choice : Value) (usage : Option Value) :
    (OpenAiChatFrame.mk kind (chunkOf context [choice] usage)).choice = choice := by
  simp [OpenAiChatFrame.choice, Value.field, chunkOf_choices]

theorem choiceDelta_object {event : StreamEvent} {choice : Nat} {delta : Value}
    (h : choiceDelta event = some (choice, delta)) :
    ∃ entries, delta = .object entries ∧ delta.get "role" = none := by
  cases event with
  | delta | thinkingDelta | toolCallDelta =>
      obtain ⟨-, rfl⟩ := Prod.mk.inj (Option.some.inj h)
      exact ⟨_, rfl, by simp [lookup]⟩
  | thinkingSignatureDelta | redactedThinking | usage | finish | done | error => cases h

theorem deltaChoice_index {history : List StreamEvent} {event : StreamEvent} {choice : Nat}
    {delta : Value} (h : choiceDelta event = some (choice, delta)) :
    (deltaChoice history choice delta).get "index" = some (.nat choice) := by
  obtain ⟨entries, rfl, -⟩ := choiceDelta_object h
  unfold deltaChoice
  split <;> simp [withRole, lookup]

theorem deltaChoice_role {history : List StreamEvent} {event : StreamEvent} {choice : Nat}
    {delta : Value} (h : choiceDelta event = some (choice, delta)) :
    ((deltaChoice history choice delta).field "delta").get "role" =
      if choice ∈ choicesSeen history then none else some (.string "assistant") := by
  obtain ⟨entries, rfl, hrole⟩ := choiceDelta_object h
  unfold deltaChoice
  split
  · simp [Value.field, lookup, hrole]
  · have hobject : (Value.object entries).isObject = true := rfl
    simp [Value.field, withRole, lookup, Value.get_set hobject]

theorem ofChoice_append (index : Nat) (frames more : List OpenAiChatFrame) :
    ofChoice index (frames ++ more) = ofChoice index frames ++ ofChoice index more := by
  rw [ofChoice, List.filter_append]
  rfl

theorem terminals_append (frames more : List OpenAiChatFrame) :
    terminals (frames ++ more) = terminals frames ++ terminals more := by
  rw [terminals, List.filter_append, List.map_append]
  rfl

theorem usageFrames_append (frames more : List OpenAiChatFrame) :
    usageFrames (frames ++ more) = usageFrames frames ++ usageFrames more := by
  rw [usageFrames, List.filter_append]
  rfl

theorem sentFinish_cases {history : List StreamEvent} {sent : List OpenAiChatFrame}
    (h : SentFinish packages context history sent) :
    pendingReason history = none ∧ sent = [] ∨
      ∃ reason usage, pendingReason history = some reason ∧ UsageAt packages history usage ∧
        sent = [⟨.terminal,
          chunkOf context [finishChoice (renderFinishReason packages reason)] usage⟩] := by
  unfold SentFinish at h
  cases hreason : pendingReason history with
  | none =>
      rw [hreason] at h
      exact .inl ⟨rfl, h⟩
  | some reason =>
      rw [hreason] at h
      obtain ⟨usage, husage, hsent⟩ := h
      exact .inr ⟨reason, usage, rfl, husage, hsent⟩

theorem sentFinish_frames {history : List StreamEvent} {sent : List OpenAiChatFrame}
    (h : SentFinish packages context history sent) (index : Nat) :
    ofChoice index sent = [] ∧ usageFrames sent = [] ∧
      terminals sent = (pendingReason history).toList.map (terminalChoices packages) := by
  rcases sentFinish_cases packages context h with ⟨hreason, rfl⟩ | ⟨reason, usage, hreason, -, rfl⟩
  · rw [hreason]
    exact ⟨rfl, rfl, rfl⟩
  · rw [hreason]
    refine ⟨rfl, rfl, ?_⟩
    simp [terminals, Value.field, chunkOf_choices, terminalChoices]

theorem deltaFrames_frames (history : List StreamEvent) (event : StreamEvent) :
    usageFrames (deltaFrames context history event) = [] ∧
      terminals (deltaFrames context history event) = [] := by
  unfold deltaFrames
  split
  · exact ⟨rfl, rfl⟩
  · exact ⟨rfl, rfl⟩

theorem closedUsage_frames {history : List StreamEvent} {event : StreamEvent}
    {closing : List OpenAiChatFrame} (h : ClosedUsage packages context history event closing)
    (index : Nat) : ofChoice index closing = [] ∧ terminals closing = [] := by
  rcases h with ⟨-, object, -, rfl⟩ | ⟨-, rfl⟩
  · exact ⟨rfl, rfl⟩
  · exact ⟨rfl, rfl⟩

theorem emitted_ofChoice {history : List StreamEvent} {event : StreamEvent}
    {now : List OpenAiChatFrame} (h : Emitted packages context history event now) (index : Nat) :
    ofChoice index now = if index ∈ ((choiceDelta event).map (·.1)) then
      deltaFrames context history event else [] := by
  cases h with
  | flushed hflushes hsent hclosing =>
      rw [ofChoice_append, ofChoice_append, (sentFinish_frames packages context hsent index).1,
        (closedUsage_frames packages context hclosing index).1, List.nil_append, List.append_nil]
      unfold deltaFrames
      cases hdelta : choiceDelta event with
      | none => rfl
      | some pair =>
          obtain ⟨choice, delta⟩ := pair
          have hread := @deltaChoice_index history event choice delta hdelta
          by_cases hindex : choice = index
          · subst hindex
            simp [ofChoice, choice_chunkOf, hread]
          · simp [ofChoice, choice_chunkOf, hread, hindex]
  | quiet hquiet =>
      cases event with
      | delta | thinkingDelta | toolCallDelta | finish | done => cases hquiet
      | thinkingSignatureDelta | redactedThinking | usage | error => rfl

theorem emitted_terminals {history : List StreamEvent} {event : StreamEvent}
    {now : List OpenAiChatFrame} (h : Emitted packages context history event now) :
    terminals now = if flushes event then
      (pendingReason history).toList.map (terminalChoices packages) else [] := by
  cases h with
  | flushed hflushes hsent hclosing =>
      rw [terminals_append, terminals_append, (sentFinish_frames packages context hsent 0).2.2,
        (deltaFrames_frames context history event).2,
        (closedUsage_frames packages context hclosing 0).2, if_pos hflushes, List.append_nil,
        List.append_nil]
  | quiet hquiet => rw [if_neg (by rw [hquiet]; exact Bool.false_ne_true)]; rfl

theorem emitted_usageFrames {history : List StreamEvent} {event : StreamEvent}
    {now : List OpenAiChatFrame} (h : Emitted packages context history event now) :
    SendsUsage history event ∧ (usageFrames now).length = 1 ∨
      ¬SendsUsage history event ∧ usageFrames now = [] := by
  cases h with
  | flushed hflushes hsent hclosing =>
      rw [usageFrames_append, usageFrames_append, (sentFinish_frames packages context hsent 0).2.1,
        (deltaFrames_frames context history event).1, List.nil_append, List.nil_append]
      rcases hclosing with ⟨hsends, object, -, rfl⟩ | ⟨hquiet, rfl⟩
      · exact .inl ⟨hsends, rfl⟩
      · exact .inr ⟨hquiet, rfl⟩
  | quiet hquiet =>
      refine .inr ⟨fun hsends => ?_, rfl⟩
      have hdone := hsends.1
      cases event with
      | delta | thinkingDelta | toolCallDelta | finish | done => cases hquiet
      | thinkingSignatureDelta | redactedThinking | usage | error => cases hdone

/-- A frame of an event is its terminal, its delta or the closing usage. -/
theorem emitted_frame {history : List StreamEvent} {event : StreamEvent}
    {now : List OpenAiChatFrame} (h : Emitted packages context history event now)
    {frame : OpenAiChatFrame} (hmem : frame ∈ now) :
    (if frame.kind = .delta then frame.data.get "usage" = none
      else UsageAt packages history (frame.data.get "usage") ∧ frame.role = none) ∧
      (frame.kind = .usage → finished history = false) := by
  cases h with
  | quiet hquiet => exact absurd hmem List.not_mem_nil
  | flushed hflushes hsent hclosing =>
      rcases List.mem_append.mp hmem with hmem | hmem
      · rcases sentFinish_cases packages context hsent with ⟨-, rfl⟩ | ⟨reason, usage, -, husage, rfl⟩
        · exact absurd hmem List.not_mem_nil
        · obtain rfl := List.mem_singleton.mp hmem
          refine ⟨?_, fun hkind => by cases hkind⟩
          rw [if_neg (by simp), chunkOf_usage, OpenAiChatFrame.role, choice_chunkOf]
          exact ⟨husage, by simp [finishChoice, Value.field, lookup]⟩
      · rcases List.mem_append.mp hmem with hmem | hmem
        · unfold deltaFrames at hmem
          split at hmem
          · exact absurd hmem List.not_mem_nil
          · obtain rfl := List.mem_singleton.mp hmem
            refine ⟨?_, fun hkind => by cases hkind⟩
            rw [if_pos rfl, chunkOf_usage]
        · rcases hclosing with ⟨hsends, object, hobject, rfl⟩ | ⟨-, rfl⟩
          · obtain rfl := List.mem_singleton.mp hmem
            refine ⟨?_, fun _ => hsends.2.2.1⟩
            rw [if_neg (by simp), chunkOf_usage]
            constructor
            · rw [UsageAt, if_pos hsends.2.1]
              exact ⟨object, hobject, rfl⟩
            · have hchoice : (OpenAiChatFrame.mk .usage (chunkOf context [] (some object))).choice =
                  .null := by
                simp [OpenAiChatFrame.choice, Value.field, chunkOf_choices]
              rw [OpenAiChatFrame.role, hchoice]
              rfl
          · exact absurd hmem List.not_mem_nil

/-! ## All events -/

/-- What the events emit one after another, nothing after an error. -/
inductive Emits : List StreamEvent → List StreamEvent → List (List OpenAiChatFrame) → Prop
  | nil (history : List StreamEvent) : Emits history [] []
  | live {history events : List StreamEvent} {event : StreamEvent} {now : List OpenAiChatFrame}
      {outputs : List (List OpenAiChatFrame)} (hlive : history.any isError = false)
      (h : Emitted packages context history event now)
      (hrest : Emits (history ++ [event]) events outputs) :
      Emits history (event :: events) (now :: outputs)
  | ended {history events : List StreamEvent} {event : StreamEvent}
      {outputs : List (List OpenAiChatFrame)} (hover : history.any isError = true)
      (hrest : Emits (history ++ [event]) events outputs) :
      Emits history (event :: events) ([] :: outputs)

variable {packages context}

theorem emits_over {history events : List StreamEvent} {outputs : List (List OpenAiChatFrame)}
    (h : Emits packages context history events outputs) (hover : history.any isError = true) :
    outputs.flatten = [] := by
  induction h with
  | nil => rfl
  | live hlive => exact absurd (hlive.symm.trans hover) Bool.false_ne_true
  | ended hover' hrest ih => exact ih (by simp [hover])

/-- What one event of a run emitted. -/
theorem emits_at {first events outputs} (h : Emits packages context first events outputs)
    {history rest : List StreamEvent} {event : StreamEvent} {now : List OpenAiChatFrame}
    (hsplit : events = history ++ event :: rest) (hnow : outputs[history.length]? = some now) :
    Emitted packages context (first ++ history) event now ∧
        (first ++ history).any isError = false ∨
      (first ++ history).any isError = true ∧ now = [] := by
  induction h generalizing history with
  | nil => exact absurd hsplit (by simp)
  | live hlive hemitted hrest ih =>
      cases history with
      | nil =>
          obtain ⟨rfl, rfl⟩ := List.cons.inj hsplit
          obtain rfl := Option.some.inj hnow
          rw [List.append_nil]
          exact .inl ⟨hemitted, hlive⟩
      | cons head history =>
          obtain ⟨rfl, htail⟩ := List.cons.inj hsplit
          have hstep := ih htail hnow
          rwa [List.append_assoc, List.singleton_append] at hstep
  | ended hover hrest ih =>
      cases history with
      | nil =>
          obtain rfl := Option.some.inj hnow
          rw [List.append_nil]
          exact .inr ⟨hover, rfl⟩
      | cons head history =>
          obtain ⟨rfl, htail⟩ := List.cons.inj hsplit
          have hstep := ih htail hnow
          rwa [List.append_assoc, List.singleton_append] at hstep

theorem emits_frame {first events outputs} (h : Emits packages context first events outputs)
    {frame : OpenAiChatFrame} (hmem : frame ∈ outputs.flatten) (hkind : frame.kind ≠ .delta) :
    frame.role = none := by
  induction h with
  | nil => exact absurd hmem List.not_mem_nil
  | live hlive hemitted hrest ih =>
      rw [List.flatten_cons, List.mem_append] at hmem
      rcases hmem with hnow | hlater
      · have hframe := (emitted_frame packages context hemitted hnow).1
        rw [if_neg hkind] at hframe
        exact hframe.2
      · exact ih hlater
  | ended hover hrest ih => exact ih hmem

theorem roleOnFirst_cons {frame : OpenAiChatFrame} {frames : List OpenAiChatFrame}
    (hfirst : frame.role = some (.string "assistant")) (hrest : ∀ f ∈ frames, f.role = none) :
    RoleOnFirst (frame :: frames) := by
  intro before f after hsplit
  cases before with
  | nil =>
      obtain ⟨rfl, -⟩ := List.cons.inj hsplit
      exact hfirst
  | cons head before =>
      obtain ⟨-, htail⟩ := List.cons.inj hsplit
      exact hrest f (htail ▸ List.mem_append_right _ List.mem_cons_self)

/-- A choice that has had a delta gets no role again, and one that has not gets it first. -/
theorem emits_roles {first events outputs} (h : Emits packages context first events outputs)
    (index : Nat) :
    (index ∈ choicesSeen first → ∀ frame ∈ ofChoice index outputs.flatten, frame.role = none) ∧
      (index ∉ choicesSeen first → RoleOnFirst (ofChoice index outputs.flatten)) := by
  induction h with
  | nil =>
      refine ⟨fun _ frame hmem => absurd hmem List.not_mem_nil, fun _ before frame after hsplit => ?_⟩
      exact absurd hsplit (by simp [ofChoice])
  | @live history events event now outputs hlive hemitted hrest ih =>
      rw [List.flatten_cons, ofChoice_append, emitted_ofChoice packages context hemitted index]
      rw [choicesSeen_snoc] at ih
      by_cases hown : index ∈ (choiceDelta event).map (·.1)
      · rw [if_pos hown]
        obtain ⟨⟨choice, delta⟩, hdelta, rfl⟩ := Option.map_eq_some_iff.mp hown
        have hlater := ih.1 (by simp [hdelta])
        have hrole : ∀ frame ∈ deltaFrames context history event, frame.role =
            if choice ∈ choicesSeen history then none else some (.string "assistant") := by
          intro frame hmem
          rw [deltaFrames, hdelta, List.mem_singleton] at hmem
          rw [hmem, OpenAiChatFrame.role, choice_chunkOf, deltaChoice_role hdelta]
        constructor
        · intro hseen frame hmem
          rcases List.mem_append.mp hmem with hnow | hmore
          · rw [hrole frame hnow, if_pos hseen]
          · exact hlater frame hmore
        · intro hnew
          rw [deltaFrames, hdelta] at hrole ⊢
          refine roleOnFirst_cons ?_ hlater
          rw [hrole _ List.mem_cons_self, if_neg hnew]
      · rw [if_neg hown, List.nil_append]
        have hsame : index ∈ choicesSeen history ++ ((choiceDelta event).map (·.1)).toList ↔
            index ∈ choicesSeen history := by
          rw [List.mem_append, Option.mem_toList]
          exact ⟨fun hcases => hcases.resolve_right hown, .inl⟩
        exact ⟨fun hseen => ih.1 (hsame.mpr hseen), fun hnew => ih.2 fun hseen =>
          hnew (hsame.mp hseen)⟩
  | @ended history events event outputs hover hrest ih =>
      rw [List.flatten_cons, List.nil_append, emits_over hrest (by simp [hover])]
      refine ⟨fun _ frame hmem => absurd hmem List.not_mem_nil, fun _ before frame after hsplit => ?_⟩
      exact absurd hsplit (by simp [ofChoice])

theorem reachesFlush_cons (event : StreamEvent) (events : List StreamEvent) :
    reachesFlush (event :: events) =
      (!isError event && (flushes event || reachesFlush events)) := by
  unfold reachesFlush
  rw [List.takeWhile_cons]
  cases isError event <;> simp

/-- The terminal frames are those of the waiting finish and of the finishes still to come. -/
theorem emits_terminals {first events outputs} (h : Emits packages context first events outputs)
    (hlive : first.any isError = false) :
    terminals outputs.flatten = ((if reachesFlush events then (pendingReason first).toList else []) ++
      flushedFinishes events).map (terminalChoices packages) := by
  induction h with
  | nil => rfl
  | ended hover => exact absurd (hlive.symm.trans hover) Bool.false_ne_true
  | @live history events event now outputs _ hemitted hrest ih =>
      rw [List.flatten_cons, terminals_append, emitted_terminals packages context hemitted,
        reachesFlush_cons, flushedFinishes]
      cases herror : isError event with
      | true =>
          have hquiet : flushes event = false := by
            cases event with
            | error => rfl
            | delta | thinkingDelta | toolCallDelta | thinkingSignatureDelta | redactedThinking |
              usage | finish | done => cases herror
          rw [emits_over hrest (by simp [herror]), hquiet]
          rfl
      | false =>
          rw [ih (by simp [hlive, herror]), pendingReason_snoc]
          cases hflushes : flushes event with
          | true => simp
          | false =>
              have hnone : asFinish event = none := by
                cases event with
                | delta | thinkingDelta | toolCallDelta | finish | done => cases hflushes
                | thinkingSignatureDelta | redactedThinking | usage | error => rfl
              simp [hnone]

theorem emits_once {first events outputs} (h : Emits packages context first events outputs) :
    (usageFrames outputs.flatten).length ≤ 1 ∧
      (usageSent first = true → usageFrames outputs.flatten = []) := by
  induction h with
  | nil => exact ⟨Nat.zero_le _, fun _ => rfl⟩
  | ended hover hrest ih =>
      rw [List.flatten_cons, List.nil_append, emits_over hrest (by simp [hover])]
      exact ⟨Nat.zero_le _, fun _ => rfl⟩
  | @live history events event now outputs hlive hemitted hrest ih =>
      rw [List.flatten_cons, usageFrames_append]
      rw [usageSent_snoc] at ih
      rcases emitted_usageFrames packages context hemitted with ⟨hsends, hone⟩ | ⟨-, hnone⟩
      · rw [ih.2 (by simp [hsends.2.1, hsends.1]), List.append_nil]
        refine ⟨hone.le, fun hsent => ?_⟩
        exact absurd (hsent.symm.trans hsends.2.2.2) (by decide)
      · rw [hnone, List.nil_append]
        exact ⟨ih.1, fun hsent => ih.2 (by simp [hsent])⟩

theorem emits_grammar {events outputs} (h : Emits packages context [] events outputs) :
    FrameGrammar packages events outputs where
  roles index := (emits_roles h index).2 List.not_mem_nil
  roleless frame hmem hkind := emits_frame h hmem hkind
  finishes := by
    rw [emits_terminals h rfl]
    cases reachesFlush events <;> rfl
  once := (emits_once h).1
  unfinished history event rest now frame hsplit hnow hmem hkind := by
    rcases emits_at h hsplit hnow with ⟨hemitted, -⟩ | ⟨-, rfl⟩
    · exact (emitted_frame packages context hemitted hmem).2 hkind
    · exact absurd hmem List.not_mem_nil
  usage history event rest now frame hsplit hnow hmem := by
    rcases emits_at h hsplit hnow with ⟨hemitted, -⟩ | ⟨-, rfl⟩
    · have hframe := (emitted_frame packages context hemitted hmem).1
      split
      · next hkind =>
          rw [if_pos hkind] at hframe
          exact hframe
      · next hkind =>
          rw [if_neg hkind] at hframe
          exact hframe.1
    · exact absurd hmem List.not_mem_nil
  closed history event rest now hsplit hnow herror := by
    rcases emits_at h hsplit hnow with ⟨hemitted, hlive⟩ | ⟨-, rfl⟩
    · rw [List.nil_append] at hemitted hlive
      cases hemitted with
      | quiet => rfl
      | flushed hflushes =>
          rw [List.any_append, hlive] at herror
          cases event with
          | error => cases hflushes
          | delta | thinkingDelta | toolCallDelta | thinkingSignatureDelta | redactedThinking |
            usage | finish | done => cases herror
    · rfl

/-! ## Runs -/

variable (packages)

/-- Render the events one call each. -/
def OpenAiChatStream.oneByOne (s : OpenAiChatStream) :
    List StreamEvent → Except CodecError (List (List OpenAiChatFrame) × OpenAiChatStream)
  | [] => .ok ([], s)
  | event :: events => do
      let (now, t) ← (s.frames packages [event]).settled
      let (rest, u) ← OpenAiChatStream.oneByOne t events
      return (now :: rest, u)

theorem frames_singleton (s : OpenAiChatStream) (event : StreamEvent) :
    (s.frames packages [event]).settled = s.step packages event := by
  rw [frames_eq_call, Batching.call]
  cases s.step packages event with
  | error e => rfl
  | ok now => simp [Batching.call, Except.map]

theorem oneByOne_of_call {s t : OpenAiChatStream} {events : List StreamEvent}
    {frames : List OpenAiChatFrame}
    (h : Batching.call (OpenAiChatStream.step packages) s events = .ok (frames, t)) :
    ∃ outputs, s.oneByOne packages events = .ok (outputs, t) ∧ frames = outputs.flatten := by
  induction events generalizing s frames with
  | nil =>
      cases h
      exact ⟨[], rfl, rfl⟩
  | cons event events ih =>
      rw [Batching.call] at h
      cases hstep : s.step packages event with
      | error e =>
          rw [hstep] at h
          cases h
      | ok now =>
          rw [hstep] at h
          obtain ⟨rest, hrest, hpair⟩ := map_eq_ok.mp h
          obtain ⟨rfl, rfl⟩ := Prod.mk.inj hpair
          obtain ⟨outputs, hone, hflat⟩ := ih hrest
          refine ⟨now.1 :: outputs, ?_, by rw [List.flatten_cons, ← hflat]⟩
          rw [OpenAiChatStream.oneByOne, frames_singleton, hstep]
          simp [hone, bind, Except.bind, pure, Except.pure]

theorem call_batches (s : OpenAiChatStream) (batches : List (List StreamEvent)) :
    Batching.call (fun s batch => (s.frames packages batch).settled) s batches =
      Batching.call (OpenAiChatStream.step packages) s batches.flatten := by
  induction batches generalizing s with
  | nil => rfl
  | cons batch batches ih =>
      rw [List.flatten_cons, Batching.call_append, Batching.call, frames_eq_call]
      cases Batching.call (OpenAiChatStream.step packages) s batch with
      | error e => rfl
      | ok now => simp only [ih]

theorem step_terminated {s : OpenAiChatStream} (h : s.inner.terminated = true)
    (event : StreamEvent) : s.step packages event = .ok ([], s) := if_pos h

variable {packages}

theorem oneByOne_emits {s t : OpenAiChatStream} {history events : List StreamEvent}
    {outputs : List (List OpenAiChatFrame)}
    (hs : Shows packages context s history ∨
      s.inner.terminated = true ∧ history.any isError = true)
    (h : s.oneByOne packages events = .ok (outputs, t)) :
    Emits packages context history events outputs := by
  induction events generalizing s history outputs with
  | nil =>
      cases h
      exact .nil history
  | cons event events ih =>
      simp only [OpenAiChatStream.oneByOne, frames_singleton, bind_eq_ok, pure_eq_ok] at h
      obtain ⟨⟨now, u⟩, hstep, ⟨rest, last⟩, hrest, hpair⟩ := h
      obtain ⟨rfl, rfl⟩ := Prod.mk.inj hpair
      cases herror : history.any isError with
      | true =>
          have hterminated : s.inner.terminated = true := by
            rcases hs with hshows | ⟨hterminated, -⟩
            · exact hshows.follows.live.trans herror
            · exact hterminated
          rw [step_terminated packages hterminated] at hstep
          obtain ⟨rfl, rfl⟩ := Prod.mk.inj (Except.ok.inj hstep)
          exact .ended herror (ih (.inr ⟨hterminated, by simp [herror]⟩) hrest)
      | false =>
          have hshows : Shows packages context s history :=
            hs.resolve_right fun hover => Bool.false_ne_true (herror.symm.trans hover.2)
          have hterminated : s.inner.terminated = false := hshows.follows.live.trans herror
          rw [OpenAiChatStream.step, hterminated, if_neg Bool.false_ne_true] at hstep
          obtain ⟨frames, hframes, hpair⟩ := map_eq_ok.mp hstep
          obtain ⟨rfl, rfl⟩ := Prod.mk.inj hpair
          have hrender : s.render packages event = (.ok frames, (s.render packages event).2) :=
            Prod.ext hframes rfl
          obtain ⟨hemitted, hnext⟩ := render_emitted hshows herror hrender
          exact .live herror hemitted (ih (.inl hnext) hrest)

variable (packages context)

/-- However the events of a stream are batched, as long as none is refused the frames are those
of rendering each event alone, and they follow the grammar: roles on first deltas, a terminal
for every finish that something follows, one usage frame at most, on a stream that never
finished, the usage so far on every other frame but deltas, and nothing from an error on. -/
theorem chat_frames_follow_grammar (batches : List (List StreamEvent))
    (frames : List OpenAiChatFrame) (t : OpenAiChatStream)
    (h : Batching.call (fun s batch => (OpenAiChatStream.frames packages s batch).settled)
      (.new context) batches = .ok (frames, t)) :
    ∃ outputs, (OpenAiChatStream.new context).oneByOne packages batches.flatten =
        .ok (outputs, t) ∧ frames = outputs.flatten ∧
      FrameGrammar packages batches.flatten outputs := by
  rw [call_batches] at h
  obtain ⟨outputs, hone, hflat⟩ := oneByOne_of_call packages h
  exact ⟨outputs, hone, hflat, emits_grammar (oneByOne_emits (.inl (shows_new packages context)) hone)⟩

end

/-- Text, a finish and its usage, in two batches. -/
def greeting : List (List StreamEvent) :=
  [[.delta 0 "Hello", .finish (some .stop) none],
    [.usage { Usage.default with inputTokens := 3, outputTokens := 1 }, .done (some .stop) none]]

theorem greeting_follows_grammar : ∃ r outputs,
    Batching.call (fun s batch => (OpenAiChatStream.frames .textual s batch).settled)
        (.new ⟨"1", "model", 0⟩) greeting = .ok r ∧
      r.1 = outputs.flatten ∧ FrameGrammar .textual greeting.flatten outputs := by
  obtain ⟨r, hr⟩ := exists_of_isOk (show (Batching.call (fun s batch =>
    (OpenAiChatStream.frames .textual s batch).settled) (.new ⟨"1", "model", 0⟩)
      greeting).isOk = true by decide +kernel)
  obtain ⟨outputs, -, hflat, hgrammar⟩ :=
    chat_frames_follow_grammar .textual ⟨"1", "model", 0⟩ greeting r.1 r.2 hr
  exact ⟨r, outputs, hr, hflat, hgrammar⟩

end TokenStation.Chat
