import TokenStation.Provider.Closing
import TokenStation.Provider.Messages
import TokenStation.Provider.OpenAi

/-!
# Streams that close once

Chat and Messages streams are sorted by their frames alone: what of content,
usage, finish reasons, end markers and failures each frame brings. A stream
closes once and last exactly when, after the frame that closes it, its frames
bring nothing more.
-/

namespace TokenStation.Provider

open Library Library.ChunkedReading Library.Json Library.Text Responses Sse

/-! ## Chat streams -/

namespace OpenAi

/-- What a frame brings to the close of its stream. -/
inductive Sign where
  /-- An `error` event. -/
  | failure
  /-- The `[DONE]` marker. -/
  | marker
  /-- A payload: whether it carries content, ends a choice and reports usage. -/
  | report (speaks finishes counts : Bool)
deriving DecidableEq, Repr

/-- A choice that carries reasoning, text or a call fragment. -/
def speaks (choice : Value) : Bool :=
  let delta := choice.field "delta"
  (carried ((delta.field "reasoning_content").asStr <|> (delta.field "reasoning").asStr)).isSome ||
    (carried (delta.field "content").asStr).isSome ||
    !((delta.field "tool_calls").asArray.getD []).isEmpty

def finishes (choice : Value) : Bool := (choice.field "finish_reason").asStr.isSome

def choicesOf (raw : Value) : List Value := ((raw.get "choices").bind Value.asArray).getD []

def reportOf (raw : Value) : Sign :=
  .report ((choicesOf raw).any speaks) ((choicesOf raw).any finishes)
    ((raw.get "usage").any Value.isObject)

def sign (packages : Packages) (sse : SseFrameV1) : Sign :=
  if sse.event = "error" then .failure
  else if sse.data = "[DONE]" then .marker
  else ((packages.fromStr sse.data).map reportOf).getD (.report false false false)

/-- The frames after the close bring nothing: no content, no usage, no finish
that is held to the end of the body, at most one repeated marker, and at most
one failure. -/
def Silent (ended failed held armed : Bool) : List Sign → Prop
  | [] => ended = true → held = false
  | .failure :: rest => failed = false ∧ Silent ended true held armed rest
  | .marker :: rest => armed = true ∧ Silent ended failed held false rest
  | .report speaks finishes counts :: rest =>
      speaks = false ∧ counts = false ∧
        Silent ended failed (held || finishes) (armed && !finishes) rest

/-- From the frame that closes the stream on, the frames are silent. -/
def Settled (ended held : Bool) : List Sign → Prop
  | [] => True
  | .failure :: rest => Silent ended true held false rest
  | .marker :: rest => Silent ended false false true rest
  | .report _ finishes counts :: rest =>
      if counts = true ∧ (held || finishes) = true then Silent ended false false true rest
      else Settled ended (held || finishes) rest

/-! ### Frames and their signs -/

theorem choiceEvents_output {choice : Value} :
    ∀ event ∈ choiceEvents choice, event.isOutput = true := by
  intro event hevent
  simp only [choiceEvents, List.mem_append, Option.mem_toList,
    Option.map_eq_some_iff, List.mem_map] at hevent
  rcases hevent with (⟨_, _, rfl⟩ | ⟨_, _, rfl⟩) | ⟨_, _, rfl⟩ <;> rfl

theorem choiceEvents_eq_nil {choice : Value} :
    choiceEvents choice = [] ↔ speaks choice = false := by
  simp only [choiceEvents, speaks, List.append_eq_nil_iff, Option.toList_eq_nil_iff,
    Option.map_eq_none_iff, List.map_eq_nil_iff, Bool.or_eq_false_iff, Bool.not_eq_false',
    List.isEmpty_iff, Option.isSome_eq_false_iff, Option.isNone_iff_eq_none]

theorem flatMap_eq_nil {choices : List Value} :
    choices.flatMap choiceEvents = [] ↔ choices.any speaks = false := by
  rw [List.flatMap_eq_nil_iff, List.any_eq_false]
  exact forall₂_congr fun choice _ => by rw [choiceEvents_eq_nil, Bool.not_eq_true]

theorem content_output (choices : List Value) :
    ∀ event ∈ choices.flatMap choiceEvents, event.isOutput = true := by
  intro event hevent
  obtain ⟨choice, -, hevent⟩ := List.mem_flatMap.mp hevent
  exact choiceEvents_output event hevent

theorem recorded (choices : List Value) (p : PendingFinish) :
    (choices.foldl recordChoice p).seen = (p.seen || choices.any finishes) ∧
      (choices.foldl recordChoice p).doneEmitted =
        (p.doneEmitted && !choices.any finishes) := by
  induction choices generalizing p with
  | nil => simp
  | cons choice choices ih =>
      rw [List.foldl_cons, (ih _).1, (ih _).2, List.any_cons]
      cases hreason : (choice.field "finish_reason").asStr with
      | none => simp [recordChoice, finishes, hreason]
      | some reason => simp [recordChoice, finishes, hreason, PendingFinish.record]

theorem frameUsage_ok {raw : Value} {usage : Option Value} (h : frameUsage raw = .ok usage) :
    (raw.get "usage").any Value.isObject = usage.isSome := by
  unfold frameUsage at h
  split at h
  · rename_i hraw
    cases h
    simp [hraw]
  · rename_i hraw
    cases h
    simp [hraw, Value.isObject]
  · rename_i value _ hraw
    split at h
    · rename_i hobject
      cases h
      simp [hraw, hobject]
    · cases h

theorem frameChoices_ok {raw : Value} {usage : Option Value} {choices : Option (List Value)}
    (h : frameChoices raw usage = .ok choices) : choices.getD [] = choicesOf raw := by
  unfold frameChoices at h
  split at h
  · rename_i hraw
    cases h
    simp [choicesOf, hraw, Value.asArray]
  · rename_i hraw
    split at h
    · cases h
      simp [choicesOf, hraw]
    · cases h
  · cases h

/-- The usage report of a payload, with the finish that was held for it. -/
theorem usageEvents_ok {p q : PendingFinish} {usage : Value} {events : List StreamEvent}
    (h : usageEvents p usage = .ok (events, q)) :
    ∃ counts, (p.seen = true ∧
        events = [.finish p.reason none, .usage counts, .done none none] ∧
        q = ⟨false, none, true⟩) ∨
      (p.seen = false ∧ events = [.usage counts] ∧ q = p) := by
  rw [usageEvents, Checked.bind_eq_ok] at h
  obtain ⟨counts, -, h⟩ := h
  refine ⟨counts, ?_⟩
  by_cases hseen : p.seen = true
  · simp only [PendingFinish.takeFinish, hseen, if_true, Checked.pure_eq_ok,
      Prod.mk.injEq] at h
    exact .inl ⟨hseen, h.1.symm, h.2.symm⟩
  · rw [Bool.not_eq_true] at hseen
    simp only [PendingFinish.takeFinish, hseen, Bool.false_eq_true, if_false, Checked.pure_eq_ok,
      Prod.mk.injEq] at h
    exact .inr ⟨hseen, h.1.symm, h.2.symm⟩

variable {packages : Packages}

theorem payload_ok {payload : String} {p q : PendingFinish} {events : List StreamEvent}
    (h : eventsOfFrame packages payload p = .ok (events, q)) :
    ∃ raw, packages.fromStr payload = some raw ∧
      ∃ last, events = (choicesOf raw).flatMap choiceEvents ++ last ∧
        if (raw.get "usage").any Value.isObject = true then
          ∃ usage, usageEvents ((choicesOf raw).foldl recordChoice p) usage = .ok (last, q)
        else last = [] ∧ q = (choicesOf raw).foldl recordChoice p := by
  unfold eventsOfFrame at h
  split at h
  · cases h
  · rename_i raw hraw
    refine ⟨raw, hraw, ?_⟩
    rw [Checked.bind_eq_ok] at h
    obtain ⟨-, -, h⟩ := h
    rw [Checked.bind_eq_ok] at h
    obtain ⟨usage, husage, h⟩ := h
    rw [Checked.bind_eq_ok] at h
    obtain ⟨choices, hchoices, h⟩ := h
    rw [frameChoices_ok hchoices] at h
    rw [frameUsage_ok husage]
    split at h
    · -- A frame with no choices and no usage.
      rename_i hskip
      rw [Bool.and_eq_true, Option.any_eq_true] at hskip
      obtain ⟨⟨none_left, rfl, hempty⟩, hnone⟩ := hskip
      rw [Checked.pure_eq_ok, Prod.mk.injEq] at h
      have hno : choicesOf raw = [] := by
        rw [← frameChoices_ok hchoices]
        simpa using hempty
      have husage : usage.isSome = false := by simpa using hnone
      exact ⟨[], by simp [hno, ← h.1], by simp [husage, hno, ← h.2]⟩
    · cases usage with
      | none =>
          rw [Checked.pure_eq_ok, Prod.mk.injEq] at h
          exact ⟨[], by simp [← h.1], by simp [← h.2]⟩
      | some usage =>
          rw [Checked.bind_eq_ok] at h
          obtain ⟨⟨last, r⟩, hlast, h⟩ := h
          rw [Checked.pure_eq_ok, Prod.mk.injEq] at h
          obtain ⟨rfl, rfl⟩ := h
          exact ⟨last, rfl, by simpa using ⟨usage, hlast⟩⟩

/-- A finish that is held has not been sent. -/
def PendingFinish.Fresh (p : PendingFinish) : Prop := p.seen = true → p.doneEmitted = false

theorem fresh_recorded {p : PendingFinish} (h : p.Fresh) (choices : List Value) :
    (choices.foldl recordChoice p).Fresh := by
  intro hseen
  rw [(recorded choices p).1] at hseen
  rw [(recorded choices p).2]
  cases hfinishes : choices.any finishes with
  | false => simp [h (by simpa [hfinishes] using hseen)]
  | true => simp

/-- The end of the body sends a held finish, and with it a `done`. -/
theorem settled_closing_iff {phase : Phase} (hphase : phase ≠ .streaming) {ended : Bool}
    {p : PendingFinish} (hfresh : p.Fresh) :
    phase.Follows ((openaiSseParser packages).closing p ended) ↔
      (ended = true → p.seen = false) := by
  cases ended with
  | false => simp [Dialect.closing, Phase.follows_nil]
  | true =>
      simp only [Dialect.closing, if_true, openaiSseParser, PendingFinish.flushPendingFinish]
      by_cases hseen : p.seen = true
      · simp only [hseen, if_true, PendingFinish.finishMarker, hfresh hseen, Bool.false_eq_true,
          if_false, PendingFinish.takeFinish]
        cases phase <;> simp_all [Phase.Follows, Phase.next]
      · simp [hseen, Phase.follows_nil]

/-- After the close, of a repeated end marker. -/
theorem settled_marker_iff {phase : Phase} (hphase : phase ≠ .streaming) {p : PendingFinish}
    {events : List StreamEvent} :
    phase.Follows (p.finishMarker.1 ++ events) ↔
      p.doneEmitted = true ∧ phase.Follows events := by
  by_cases hdone : p.doneEmitted = true
  · simp [PendingFinish.finishMarker, hdone]
  · simp only [PendingFinish.finishMarker, hdone, PendingFinish.takeFinish]
    cases phase with
    | streaming => exact absurd rfl hphase
    | done => cases p.seen <;> simp [Phase.Follows, Phase.next]
    | failed => cases p.seen <;> simp [Phase.Follows, Phase.next]

/-- After the close, a usage report breaks it. -/
theorem settled_usage {phase : Phase} (hphase : phase ≠ .streaming) {p q : PendingFinish}
    {usage : Value} {last events : List StreamEvent}
    (h : usageEvents p usage = .ok (last, q)) : ¬phase.Follows (last ++ events) := by
  obtain ⟨counts, ⟨-, rfl, -⟩ | ⟨-, rfl, -⟩⟩ := usageEvents_ok h <;>
    cases phase <;> simp_all [Phase.Follows, Phase.next]

/-- After the close, only silent frames keep the stream closed. -/
theorem settled_follows_iff {frames : List SseFrameV1} (ended : Bool) (phase : Phase)
    (hphase : phase ≠ .streaming) {p q : PendingFinish} (hfresh : p.Fresh)
    {events : List StreamEvent}
    (h : (openaiSseParser packages).read p frames = .ok (events, q)) :
    phase.Follows (events ++ (openaiSseParser packages).closing q ended) ↔
      Silent ended (decide (phase = .failed)) p.seen p.doneEmitted
        (frames.map (sign packages)) := by
  induction frames generalizing phase p events with
  | nil =>
      cases h
      rw [List.nil_append, settled_closing_iff hphase hfresh]
      rfl
  | cons sse frames ih =>
      obtain ⟨now, rest, t, hnow, hrest, rfl⟩ := Dialect.read_cons_ok h
      rw [List.map_cons, sign, List.append_assoc]
      simp only [openaiSseParser, frame] at hnow
      split at hnow
      · rename_i herror
        cases hnow
        rw [if_pos herror, Silent]
        cases phase with
        | streaming => exact absurd rfl hphase
        | done =>
            rw [← decide_eq_true (rfl : Phase.failed = .failed), ← ih .failed (by simp) hfresh hrest]
            simp [Phase.Follows, Phase.next]
        | failed => simp [Phase.Follows, Phase.next]
      · rename_i herror
        rw [if_neg herror]
        split at hnow
        · rename_i hmarker
          rw [Except.ok.injEq, Prod.ext_iff] at hnow
          obtain ⟨rfl, rfl⟩ := hnow
          rw [if_pos hmarker, Silent, settled_marker_iff hphase]
          refine and_congr_right fun hdone => ?_
          have hseen : p.seen = false := by
            by_contra hseen
            simp [hfresh (by simpa using hseen)] at hdone
          rw [ih phase hphase (by simp [PendingFinish.Fresh, PendingFinish.finishMarker, hdone]) hrest]
          simp [PendingFinish.finishMarker, hdone]
        · rename_i hmarker
          rw [if_neg hmarker]
          obtain ⟨raw, hraw, last, rfl, hlast⟩ := payload_ok hnow
          rw [hraw, Option.map_some, Option.getD_some, reportOf, Silent, List.append_assoc,
            Phase.settled_follows_append hphase (content_output _), flatMap_eq_nil]
          refine and_congr_right fun _ => ?_
          split at hlast
          · rename_i hcounts
            obtain ⟨usage, hlast⟩ := hlast
            simp [hcounts, settled_usage hphase hlast]
          · rename_i hcounts
            obtain ⟨rfl, rfl⟩ := hlast
            rw [List.nil_append, ih phase hphase (fresh_recorded hfresh _) hrest,
              (recorded _ p).1, (recorded _ p).2]
            simp [hcounts]

/-- Before the close, the stream closes well if the frames from it on are silent. -/
theorem streaming_follows_iff {ended : Bool} {frames : List SseFrameV1} {p q : PendingFinish}
    (hopen : p.doneEmitted = false) {events : List StreamEvent}
    (h : (openaiSseParser packages).read p frames = .ok (events, q)) :
    Phase.streaming.Follows (events ++ (openaiSseParser packages).closing q ended) ↔
      Settled ended p.seen (frames.map (sign packages)) := by
  induction frames generalizing p events with
  | nil =>
      cases h
      have hclosing : Phase.streaming.Follows ((openaiSseParser packages).closing q ended) := by
        cases ended with
        | false => exact Phase.follows_nil _
        | true =>
            simp only [Dialect.closing, if_true, openaiSseParser,
              PendingFinish.flushPendingFinish, PendingFinish.finishMarker, hopen,
              Bool.false_eq_true, if_false, PendingFinish.takeFinish]
            cases hseen : q.seen <;> simp [Phase.Follows, Phase.next]
      simpa [Settled] using hclosing
  | cons sse frames ih =>
      obtain ⟨now, rest, t, hnow, hrest, rfl⟩ := Dialect.read_cons_ok h
      rw [List.map_cons, sign, List.append_assoc]
      simp only [openaiSseParser, frame] at hnow
      split at hnow
      · rename_i herror
        cases hnow
        rw [if_pos herror, Settled, ← hopen]
        exact settled_follows_iff _ .failed (by simp) (fun _ => hopen) hrest
      · rename_i herror
        rw [if_neg herror]
        split at hnow
        · rename_i hmarker
          rw [Except.ok.injEq, Prod.ext_iff] at hnow
          obtain ⟨rfl, rfl⟩ := hnow
          have hsettled := settled_follows_iff ended .done (by simp)
            (by simp [PendingFinish.Fresh, PendingFinish.finishMarker, hopen]) hrest
          rw [if_pos hmarker, Settled]
          simp only [PendingFinish.finishMarker, hopen, Bool.false_eq_true, if_false] at hsettled ⊢
          refine Iff.trans ?_ hsettled
          rw [PendingFinish.takeFinish]
          cases hseen : p.seen <;> simp [Phase.Follows, Phase.next]
        · rename_i hmarker
          rw [if_neg hmarker]
          obtain ⟨raw, hraw, last, rfl, hlast⟩ := payload_ok hnow
          rw [hraw, Option.map_some, Option.getD_some, reportOf, Settled, List.append_assoc,
            Phase.streaming_follows_append (content_output _)]
          have hrecorded := recorded (choicesOf raw) p
          rw [hopen, Bool.false_and] at hrecorded
          split at hlast
          · rename_i hcounts
            obtain ⟨usage, hlast⟩ := hlast
            obtain ⟨counts, ⟨hheld, rfl, rfl⟩ | ⟨hheld, rfl, rfl⟩⟩ := usageEvents_ok hlast
            · rw [if_pos ⟨hcounts, by rw [← hrecorded.1, hheld]⟩]
              exact settled_follows_iff _ .done (by simp)
                (fun hseen => Bool.noConfusion hseen) hrest
            · rw [if_neg (by rw [← hrecorded.1, hheld]; simp), ← hrecorded.1]
              exact ih hrecorded.2 hrest
          · rename_i hcounts
            obtain ⟨rfl, rfl⟩ := hlast
            rw [if_neg (fun h => hcounts h.1), List.nil_append, ih hrecorded.2 hrest,
              hrecorded.1]

end OpenAi

/-! ## Messages streams -/

namespace Messages

/-- What a frame brings to the close of its stream. -/
inductive Sign where
  /-- A failure the upstream reports. -/
  | failure
  /-- Content, or the usage of the message's start. -/
  | output
  /-- A stop reason, and whether its frame reports usage. -/
  | finish (counts : Bool)
  | other
deriving DecidableEq, Repr

/-- A block whose start is an event. -/
def announces (block : Value) : Bool :=
  match (block.field "type").asStr with
  | some "redacted_thinking" => (block.field "data").asStr.isSome
  | some "thinking" => true
  | some "tool_use" => true
  | _ => false

/-- A block delta that is an event. -/
def speaks (delta : Value) : Bool :=
  match (delta.field "type").asStr with
  | some "text_delta" => (delta.field "text").asStr.any fun text => !text.isEmpty
  | some "thinking_delta" => (delta.field "thinking").asStr.any fun text => !text.isEmpty
  | some "signature_delta" => (delta.field "signature").asStr.any fun text => !text.isEmpty
  | some "input_json_delta" => true
  | _ => false

def signOf (event : String) (data : Value) : Sign :=
  match event with
  | "message_start" =>
      if ((data.field "message").field "usage").isObject then .output else .other
  | "content_block_start" => if announces (data.field "content_block") then .output else .other
  | "content_block_delta" => if speaks (data.field "delta") then .output else .other
  | "message_delta" =>
      if ((data.field "delta").field "stop_reason").asStr.isSome then
        .finish (data.field "usage").isObject
      else .other
  | "error" => .failure
  | _ => .other

def sign (packages : Packages) (sse : SseFrameV1) : Sign :=
  if sse.event = "message" then .other
  else ((packages.fromStr sse.data).map (signOf sse.event)).getD .other

/-- The frames after the close bring nothing: no content, no usage, no stop
reason that is held to the end of the body. A failure ends the stream. -/
def Silent (ended held armed : Bool) : List Sign → Prop
  | [] => ended = true → held = false
  | .failure :: rest => armed = true → Silent ended held armed rest
  | .output :: _ => False
  | .finish counts :: rest => counts = false ∧ Silent ended true false rest
  | .other :: rest => Silent ended held armed rest

/-- From the frame that closes the stream on, the frames are silent. -/
def Settled (ended : Bool) : List Sign → Prop
  | [] => True
  | .failure :: _ => True
  | .finish true :: rest => Silent ended false true rest
  | .output :: rest | .finish false :: rest | .other :: rest => Settled ended rest

/-! ### Frames and their signs -/

/-- The state's flags: the failure, the held finish and the sent `done`. -/
def AnthropicSseParser.flags (s : AnthropicSseParser) : Bool × Bool × Bool :=
  (s.closed, s.sawFinish, s.doneEmitted)

/-- What a frame with this sign does to a stream that has not failed. -/
inductive Effect (s : AnthropicSseParser) :
    Sign → List StreamEvent → AnthropicSseParser → Prop where
  | silenced (hdone : s.doneEmitted = true) : Effect s .failure [] s
  | failure {e : ErrorEnvelope} {t : AnthropicSseParser} (hdone : s.doneEmitted = false)
      (hclosed : t.closed = true) : Effect s .failure [.error e] t
  | output {events : List StreamEvent} {t : AnthropicSseParser} (hne : events ≠ [])
      (hout : ∀ event ∈ events, event.isOutput = true) (hflags : t.flags = s.flags) :
      Effect s .output events t
  | finish {reason : Option FinishReason} {sequence : Option String} {counts : Usage}
      {t : AnthropicSseParser} (hflags : t.flags = (s.closed, false, true)) :
      Effect s (.finish true) [.finish reason sequence, .usage counts, .done none none] t
  | held {t : AnthropicSseParser} (hflags : t.flags = (s.closed, true, false)) :
      Effect s (.finish false) [] t
  | other {t : AnthropicSseParser} (hflags : t.flags = s.flags) : Effect s .other [] t

theorem reportUsage_ok {s t : AnthropicSseParser} {raw : Value} {report : UsageReport}
    {event : StreamEvent} (h : s.reportUsage raw report = .ok (event, t)) :
    (∃ counts, event = .usage counts) ∧ t.flags = s.flags := by
  rw [AnthropicSseParser.reportUsage, Checked.bind_eq_ok] at h
  obtain ⟨counts, -, h⟩ := h
  rw [Checked.bind_eq_ok] at h
  obtain ⟨usage, -, h⟩ := h
  rw [Checked.pure_eq_ok, Prod.mk.injEq] at h
  obtain ⟨rfl, rfl⟩ := h
  exact ⟨⟨_, rfl⟩, rfl⟩

/-- The effect of events that are output when there are any. -/
theorem effect_of_events {s t : AnthropicSseParser} {events : List StreamEvent} {speaking : Bool}
    (hout : ∀ event ∈ events, event.isOutput = true) (hflags : t.flags = s.flags)
    (hsome : events ≠ [] ↔ speaking = true) :
    Effect s (if speaking = true then .output else .other) events t := by
  split
  · rename_i h
    exact .output (hsome.mpr h) hout hflags
  · rename_i h
    obtain rfl : events = [] := by
      by_contra hne
      exact h (hsome.mp hne)
    exact .other hflags

theorem textEvent_spec {raw : Option String} (build : String → StreamEvent)
    (hbuild : ∀ text, (build text).isOutput = true) :
    (∀ event ∈ textEvent raw build, event.isOutput = true) ∧
      (textEvent raw build ≠ [] ↔ raw.any (fun text => !text.isEmpty) = true) := by
  cases raw with
  | none => simp [textEvent]
  | some text =>
      by_cases hempty : text.isEmpty = true
      · simp [textEvent, Option.filter, hempty]
      · simp [textEvent, Option.filter, hempty, hbuild]

theorem blockStartEvents_spec (index : Nat) (block : Value) :
    (∀ event ∈ AnthropicSseParser.blockStartEvents index block, event.isOutput = true) ∧
      (AnthropicSseParser.blockStartEvents index block ≠ [] ↔ announces block = true) := by
  unfold AnthropicSseParser.blockStartEvents announces
  generalize (block.field "type").asStr = kind
  split
  · cases (block.field "data").asStr <;> simp [StreamEvent.isOutput]
  · simp [StreamEvent.isOutput]
  · simp [StreamEvent.isOutput]
  · simp_all

theorem blockDeltaEvents_spec {s : AnthropicSseParser} {data : Value}
    {events : List StreamEvent} (h : s.blockDeltaEvents data = .ok events) :
    (∀ event ∈ events, event.isOutput = true) ∧
      (events ≠ [] ↔ speaks (data.field "delta") = true) := by
  rw [AnthropicSseParser.blockDeltaEvents, Checked.bind_eq_ok] at h
  obtain ⟨index, -, h⟩ := h
  rw [Checked.bind_eq_ok] at h
  obtain ⟨-, -, h⟩ := h
  unfold speaks
  dsimp only at h
  generalize ((data.field "delta").field "type").asStr = kind at h ⊢
  split at h <;> (rw [Checked.pure_eq_ok] at h; subst h)
  · exact textEvent_spec (.delta 0) fun _ => rfl
  · exact textEvent_spec (.thinkingDelta 0 index) fun _ => rfl
  · exact textEvent_spec (.thinkingSignatureDelta 0 index) fun _ => rfl
  · simp [StreamEvent.isOutput]
  · simp_all

theorem messageDeltaEvents_spec {s t : AnthropicSseParser} {data : Value}
    {events : List StreamEvent} (h : s.messageDeltaEvents data = .ok (events, t)) :
    Effect s (signOf "message_delta" data) events t := by
  rw [AnthropicSseParser.messageDeltaEvents, Checked.bind_eq_ok] at h
  obtain ⟨-, -, h⟩ := h
  cases hreason : ((data.field "delta").field "stop_reason").asStr with
  | none =>
      simp only [hreason, Checked.pure_eq_ok, Prod.mk.injEq] at h
      obtain ⟨rfl, rfl⟩ := h
      rw [show signOf "message_delta" data = .other by simp [signOf, hreason]]
      exact .other rfl
  | some reason =>
      simp only [hreason] at h
      cases hcounts : (data.field "usage").isObject with
      | false =>
          simp only [hcounts, if_true, Checked.pure_eq_ok, Prod.mk.injEq] at h
          obtain ⟨rfl, rfl⟩ := h
          rw [show signOf "message_delta" data = .finish false by
            simp [signOf, hreason, hcounts]]
          exact .held rfl
      | true =>
          simp only [hcounts, Bool.true_eq_false, if_false,
            AnthropicSseParser.takePendingFinish, if_true, Checked.bind_eq_ok, Checked.pure_eq_ok,
            Prod.mk.injEq] at h
          obtain ⟨⟨usage, u⟩, husage, rfl, rfl⟩ := h
          obtain ⟨⟨counts, rfl⟩, hflags⟩ := reportUsage_ok husage
          rw [show signOf "message_delta" data = .finish true by
            simp [signOf, hreason, hcounts]]
          refine .finish ?_
          simp only [AnthropicSseParser.flags, Prod.mk.injEq] at hflags ⊢
          exact ⟨hflags.1, hflags.2.1, trivial⟩

/-- Every accepted event has the effect of its sign. -/
theorem eventsOf_spec {s t : AnthropicSseParser} {event : String} {data : Value}
    {events : List StreamEvent} (hopen : s.closed = false)
    (h : s.eventsOf event data = .ok (events, t)) : Effect s (signOf event data) events t := by
  unfold AnthropicSseParser.eventsOf at h
  rw [hopen, if_neg Bool.false_ne_true] at h
  split at h
  · dsimp only at h
    split at h
    · rename_i hobject
      rw [Checked.bind_eq_ok] at h
      obtain ⟨⟨usage, u⟩, husage, h⟩ := h
      rw [Checked.pure_eq_ok, Prod.mk.injEq] at h
      obtain ⟨rfl, rfl⟩ := h
      obtain ⟨⟨counts, rfl⟩, hflags⟩ := reportUsage_ok husage
      rw [show signOf "message_start" data = .output by simp [signOf, hobject]]
      exact .output (by simp) (by simp [StreamEvent.isOutput]) hflags
    · rename_i hobject
      cases h
      rw [show signOf "message_start" data = .other by simp [signOf, hobject]]
      exact .other rfl
  · rw [Checked.bind_eq_ok] at h
    obtain ⟨index, -, h⟩ := h
    rw [Checked.bind_eq_ok] at h
    obtain ⟨u, hopened, h⟩ := h
    rw [Checked.pure_eq_ok, Prod.mk.injEq] at h
    obtain ⟨rfl, rfl⟩ := h
    unfold AnthropicSseParser.openBlock at hopened
    split at hopened
    · cases hopened
    · cases hopened
      obtain ⟨hout, hsome⟩ := blockStartEvents_spec index (data.field "content_block")
      exact effect_of_events hout rfl hsome
  · rw [Checked.bind_eq_ok] at h
    obtain ⟨now, hnow, h⟩ := h
    rw [Checked.pure_eq_ok, Prod.mk.injEq] at h
    obtain ⟨rfl, rfl⟩ := h
    obtain ⟨hout, hsome⟩ := blockDeltaEvents_spec hnow
    exact effect_of_events hout rfl hsome
  · rw [Checked.bind_eq_ok] at h
    obtain ⟨index, -, h⟩ := h
    rw [Checked.bind_eq_ok] at h
    obtain ⟨u, hclosed, h⟩ := h
    rw [Checked.pure_eq_ok, Prod.mk.injEq] at h
    obtain ⟨rfl, rfl⟩ := h
    unfold AnthropicSseParser.closeBlock at hclosed
    split at hclosed
    · cases hclosed
      exact .other rfl
    · cases hclosed
  · exact messageDeltaEvents_spec h
  · split at h
    · rename_i hdone
      cases h
      exact .silenced hdone
    · rename_i hdone
      cases h
      exact .failure (by simpa using hdone) rfl
  · cases h
    rw [show signOf event data = .other by
      unfold signOf
      split <;> simp_all]
    exact .other rfl

variable {packages : Packages}

theorem frame_spec {s t : AnthropicSseParser} {sse : SseFrameV1} {events : List StreamEvent}
    (hopen : s.closed = false) (h : frame packages s sse = .ok (events, t)) :
    Effect s (sign packages sse) events t := by
  rw [frame] at h
  rw [sign]
  split at h
  · rename_i hevent
    cases h
    rw [if_pos hevent]
    exact .other rfl
  · rename_i hevent
    rw [if_neg hevent]
    split at h
    · cases h
    · rename_i parsed hparsed
      rw [hparsed]
      exact eventsOf_spec hopen h

/-- After a failure no frame is an event. -/
theorem closed_frame {s t : AnthropicSseParser} {sse : SseFrameV1} {events : List StreamEvent}
    (hclosed : s.closed = true) (h : frame packages s sse = .ok (events, t)) :
    events = [] ∧ t = s := by
  rw [frame] at h
  split at h
  · cases h
    exact ⟨rfl, rfl⟩
  · split at h
    · cases h
    · unfold AnthropicSseParser.eventsOf at h
      rw [if_pos hclosed] at h
      cases h
      exact ⟨rfl, rfl⟩

theorem closed_read {s t : AnthropicSseParser} {frames : List SseFrameV1}
    {events : List StreamEvent} (hclosed : s.closed = true) (ended : Bool)
    (h : (anthropicSseParser packages).read s frames = .ok (events, t)) :
    events ++ (anthropicSseParser packages).closing t ended = [] := by
  induction frames generalizing s events with
  | nil =>
      cases h
      cases ended with
      | false => rfl
      | true => simp [Dialect.closing, anthropicSseParser, AnthropicSseParser.endOfStream, hclosed]
  | cons sse frames ih =>
      obtain ⟨now, rest, u, hnow, hrest, rfl⟩ := Dialect.read_cons_ok h
      obtain ⟨rfl, rfl⟩ := closed_frame hclosed hnow
      exact ih hclosed hrest

/-- A finish that is held has not been sent. -/
def AnthropicSseParser.Fresh (s : AnthropicSseParser) : Prop :=
  s.closed = false ∧ (s.sawFinish = true → s.doneEmitted = false)

theorem fresh_of_flags {s t : AnthropicSseParser} (h : s.Fresh) (hflags : t.flags = s.flags) :
    t.Fresh := by
  simp only [AnthropicSseParser.flags, Prod.mk.injEq] at hflags
  rw [AnthropicSseParser.Fresh, hflags.1, hflags.2.1, hflags.2.2]
  exact h

/-- After the close, only silent frames keep the stream closed. -/
theorem done_follows_iff {frames : List SseFrameV1} (ended : Bool) {s t : AnthropicSseParser}
    (hfresh : s.Fresh) {events : List StreamEvent}
    (h : (anthropicSseParser packages).read s frames = .ok (events, t)) :
    Phase.done.Follows (events ++ (anthropicSseParser packages).closing t ended) ↔
      Silent ended s.sawFinish s.doneEmitted (frames.map (sign packages)) := by
  induction frames generalizing s events with
  | nil =>
      cases h
      cases ended with
      | false => simp [Silent, Dialect.closing, Phase.follows_nil]
      | true =>
          simp only [List.nil_append, Dialect.closing, if_true, anthropicSseParser,
            AnthropicSseParser.endOfStream, hfresh.1, Bool.false_eq_true, if_false,
            AnthropicSseParser.takePendingFinish, List.map_nil, Silent]
          cases hseen : t.sawFinish with
          | false => cases t.doneEmitted <;> simp [Phase.follows_nil]
          | true => simp [hfresh.2 hseen, Phase.Follows, Phase.next]
  | cons sse frames ih =>
      obtain ⟨now, rest, u, hnow, hrest, rfl⟩ := Dialect.read_cons_ok h
      have heffect := frame_spec hfresh.1 hnow
      rw [List.map_cons, List.append_assoc]
      revert heffect
      generalize sign packages sse = what
      intro heffect
      cases heffect with
      | silenced hdone =>
          simp only [Silent, hdone, true_implies, List.nil_append]
          rw [ih hfresh hrest, hdone]
      | failure hdone hclosed =>
          simp only [Silent, hdone, Bool.false_eq_true, false_implies, iff_true]
          rw [closed_read hclosed ended hrest]
          simp [Phase.Follows, Phase.next]
      | output hne hout hflags =>
          simp only [Silent, iff_false]
          rw [Phase.settled_follows_append (by simp) hout]
          exact fun h => hne h.1
      | finish hflags => simp [Silent, Phase.Follows, Phase.next]
      | held hflags =>
          simp only [AnthropicSseParser.flags, Prod.mk.injEq] at hflags
          have hfresh' : u.Fresh := ⟨hflags.1.trans hfresh.1, fun _ => hflags.2.2⟩
          simp only [Silent, true_and, List.nil_append]
          rw [ih hfresh' hrest, hflags.2.1, hflags.2.2]
      | other hflags =>
          rw [Silent, List.nil_append, ih (fresh_of_flags hfresh hflags) hrest]
          simp only [AnthropicSseParser.flags, Prod.mk.injEq] at hflags
          rw [hflags.2.1, hflags.2.2]

/-- Before the close, the stream closes well if the frames from it on are silent. -/
theorem streaming_follows_iff {frames : List SseFrameV1} (ended : Bool)
    {s t : AnthropicSseParser} (hopen : s.closed = false) (hdone : s.doneEmitted = false)
    {events : List StreamEvent}
    (h : (anthropicSseParser packages).read s frames = .ok (events, t)) :
    Phase.streaming.Follows (events ++ (anthropicSseParser packages).closing t ended) ↔
      Settled ended (frames.map (sign packages)) := by
  induction frames generalizing s events with
  | nil =>
      cases h
      cases ended with
      | false => simp [Settled, Dialect.closing, Phase.follows_nil]
      | true =>
          simp only [List.nil_append, Dialect.closing, if_true, anthropicSseParser,
            AnthropicSseParser.endOfStream, hopen, hdone, Bool.false_eq_true, if_false,
            AnthropicSseParser.takePendingFinish, List.map_nil, Settled]
          cases t.sawFinish <;> simp [Phase.Follows, Phase.next]
  | cons sse frames ih =>
      obtain ⟨now, rest, u, hnow, hrest, rfl⟩ := Dialect.read_cons_ok h
      have heffect := frame_spec hopen hnow
      rw [List.map_cons, List.append_assoc]
      revert heffect
      generalize sign packages sse = what
      intro heffect
      cases heffect with
      | silenced hsent => exact absurd hsent (by simp [hdone])
      | failure _ hclosed =>
          rw [Settled, closed_read hclosed ended hrest]
          simp [Phase.Follows, Phase.next]
      | output hne hout hflags =>
          simp only [AnthropicSseParser.flags, Prod.mk.injEq] at hflags
          rw [Settled, Phase.streaming_follows_append hout,
            ih (hflags.1.trans hopen) (hflags.2.2.trans hdone) hrest]
      | finish hflags =>
          simp only [AnthropicSseParser.flags, Prod.mk.injEq] at hflags
          have hfresh : u.Fresh := ⟨hflags.1.trans hopen, by simp [hflags.2.1]⟩
          have hsettled := done_follows_iff ended hfresh hrest
          rw [hflags.2.1, hflags.2.2] at hsettled
          rw [Settled, ← hsettled]
          simp [Phase.Follows, Phase.next]
      | held hflags =>
          simp only [AnthropicSseParser.flags, Prod.mk.injEq] at hflags
          rw [Settled, List.nil_append, ih (hflags.1.trans hopen) hflags.2.2 hrest]
      | other hflags =>
          simp only [AnthropicSseParser.flags, Prod.mk.injEq] at hflags
          rw [Settled, List.nil_append, ih (hflags.1.trans hopen) (hflags.2.2.trans hdone) hrest]

end Messages

/-! ## When streams close once -/

/-- The frames of the accepted calls settle the close of a Chat stream. -/
def OpenAi.SettledStream (packages : Packages) (chunks : List (List UInt8)) : Prop :=
  Settled ((openaiSseParser packages).events chunks).result.isOk false
    (((openaiSseParser packages).accepted (.new, .start) (chunks ++ [[]])).map (sign packages))

/-- The frames of the accepted calls settle the close of a Messages stream. -/
def Messages.SettledStream (packages : Packages) (chunks : List (List UInt8)) : Prop :=
  Settled ((anthropicSseParser packages).events chunks).result.isOk
    (((anthropicSseParser packages).accepted (.new, .start) (chunks ++ [[]])).map (sign packages))

/-- A stream closes once and last exactly when its frames are silent from the
one that closes it on. -/
theorem streams_close_once_iff (packages : Packages) (chunks : List (List UInt8))
    (hchunks : ∀ chunk ∈ chunks, chunk ≠ []) :
    (ClosesOnce ((openaiSseParser packages).events chunks).items ↔
        OpenAi.SettledStream packages chunks) ∧
      (ClosesOnce ((anthropicSseParser packages).events chunks).items ↔
        Messages.SettledStream packages chunks) := by
  constructor
  · obtain ⟨events, t, hread, hitems⟩ :=
      Dialect.items_events (d := openaiSseParser packages) chunks hchunks
    rw [closesOnce_iff, hitems]
    exact OpenAi.streaming_follows_iff rfl hread
  · obtain ⟨events, t, hread, hitems⟩ :=
      Dialect.items_events (d := anthropicSseParser packages) chunks hchunks
    rw [closesOnce_iff, hitems]
    exact Messages.streaming_follows_iff _ rfl rfl hread

/-- An end marker sent twice closes a stream once. -/
theorem repeated_marker_closes_once :
    ClosesOnce ((openaiSseParser .textual).events
      [bytes "data:[DONE]\n\ndata:[DONE]\n\n"]).items := by
  have hread : ((openaiSseParser .textual).accepted (.new, .start)
        ([bytes "data:[DONE]\n\ndata:[DONE]\n\n"] ++ [[]])).map (OpenAi.sign .textual) =
      [.marker, .marker] := by
    decide +kernel
  have hchunks : ∀ chunk ∈ [bytes "data:[DONE]\n\ndata:[DONE]\n\n"], chunk ≠ [] := by
    decide +kernel
  refine (streams_close_once_iff .textual _ hchunks).1.mpr ?_
  rw [OpenAi.SettledStream, hread]
  exact ⟨rfl, fun _ => rfl⟩

/-- A Chat stream with a text after its error event. -/
def textAfterError : List UInt8 :=
  bytes ("event:error\ndata:\n\n" ++
    "data:\x7b\"choices\":[\x7b\"delta\":\x7b\"content\":\"x\"\x7d\x7d]\x7d\n\n")

/-- A Messages stream with a block after the frame that closes it. -/
def blockAfterDone : List UInt8 :=
  bytes ("event:message_delta\ndata:\x7b\"delta\":\x7b\"stop_reason\":\"end_turn\"\x7d," ++
    "\"usage\":\x7b\"output_tokens\":1\x7d\x7d\n\nevent:content_block_start\n" ++
    "data:\x7b\"index\":0,\"content_block\":\x7b\"type\":\"thinking\"\x7d\x7d\n\n")

/-- A Chat stream goes on after an error event, and a Messages stream after
the frame that closed it. -/
theorem stream_goes_on_after_close :
    ¬ClosesOnce ((openaiSseParser .textual).events [textAfterError]).items ∧
      ¬ClosesOnce ((anthropicSseParser .textual).events [blockAfterDone]).items := by
  have hchat : ((openaiSseParser .textual).events [textAfterError]).items =
      [.error (protocolError "the upstream emitted an SSE error event"), .delta 0 "x"] := by
    decide +kernel
  have hmessages : ((anthropicSseParser .textual).events [blockAfterDone]).items =
      [.finish (some .stop) none, .usage { Usage.default with outputTokens := 1 },
        .done none none, .thinkingDelta 0 0 ""] := by
    decide +kernel
  rw [closesOnce_iff, closesOnce_iff, hchat, hmessages]
  exact ⟨id, id⟩

end TokenStation.Provider
