import TokenStation.Chat.Batching
import TokenStation.Provider.AcceptedFrames
import TokenStation.Provider.OpenAi
import TokenStation.Provider.WrittenFrames
import TokenStation.Responses.Assembly

/-!
# Chat streams read back

The chunks a Chat stream is rendered as are read by the parser of Chat streams
as the events they were rendered from.
-/

namespace TokenStation.Provider

open Library Library.Json Library.Text Responses Sse

namespace OpenAi

/-! ## Content events -/

/-- An event with a chunk of its own that the wire carries whole. -/
def IsContent : StreamEvent → Prop
  | .delta index text | .thinkingDelta index _ text => index < 2 ^ 32 ∧ text ≠ ""
  | .toolCallDelta index _ _ _ signature => index < 2 ^ 32 ∧ signature = none
  | _ => False

/-- The event as the wire carries it: thinking has no blocks of its own. -/
def onWire : StreamEvent → StreamEvent
  | .thinkingDelta index _ text => .thinkingDelta index 0 text
  | event => event

/-- The choice an event is rendered on, and its delta. -/
def rendered : StreamEvent → Nat × Value
  | .delta index text => (index, .obj [("content", .string text)])
  | .thinkingDelta index _ text => (index, .obj [("reasoning_content", .string text)])
  | .toolCallDelta index id name arguments _ =>
      (0, .obj [("tool_calls", .array [Chat.callFragment index id name arguments none])])
  | _ => (0, .null)

/-- A choice that has not finished. -/
def openChoice (index : Nat) (delta : Value) : Value :=
  .obj [("index", .nat index), ("delta", delta), ("finish_reason", .null)]

theorem choices_delta (index : Nat) (delta : Value) :
    (((Chat.delta index delta).get "choices").bind Value.asArray).getD [] =
      [openChoice index delta] := by
  simp [Chat.delta, openChoice, lookup]

theorem indexOf_nat {index : Nat} (h : index < 2 ^ 32) : indexOf (.nat index) = index := by
  simp only [indexOf, Value.asU64_nat, Option.getD_some]
  exact if_pos h

theorem carried_text {text : String} (h : text ≠ "") : carried (some text) = some text := by
  simp [carried, Option.filter, h]

theorem get_setText {value : Value} (hobject : value.isObject = true) (key k : String)
    (text : Option String) :
    (Chat.setText key text value).get k =
      if key = k then (text.map Value.string).orElse fun _ => value.get k else value.get k := by
  cases text <;> simp [Chat.setText, hobject]

/-- A tool-call fragment is read back. -/
theorem callEvent_fragment {index : Nat} (h : index < 2 ^ 32) (id name : Option String)
    (arguments : String) :
    callEvent (Chat.callFragment index id name arguments none) =
      .toolCallDelta index id name arguments none := by
  unfold callEvent Chat.callFragment
  have hasStr : ∀ text : Option String, ((text.map Value.string).getD .null).asStr = text := by
    intro text
    cases text <;> rfl
  simp [Value.field, get_setText, lookup, indexOf_nat h, hasStr]

/-- The choice of a content event is read as the event. -/
theorem choiceEvents_rendered {event : StreamEvent} (h : IsContent event) :
    choiceEvents (openChoice (rendered event).1 (rendered event).2) = [onWire event] := by
  cases event with
  | delta index text =>
      obtain ⟨hindex, htext⟩ := h
      simp [choiceEvents, openChoice, rendered, Value.field, lookup, indexOf_nat hindex,
        carried_text htext, onWire]
      simp [carried]
  | thinkingDelta index block text =>
      obtain ⟨hindex, htext⟩ := h
      simp [choiceEvents, openChoice, rendered, Value.field, lookup, indexOf_nat hindex,
        carried_text htext, onWire]
      simp [carried]
  | toolCallDelta index id name arguments signature =>
      obtain ⟨hindex, rfl⟩ := h
      simp [choiceEvents, openChoice, rendered, Value.field, lookup, callEvent_fragment hindex,
        onWire]
      simp [carried]
  | thinkingSignatureDelta | redactedThinking | usage | finish | done | error => cases h

/-- The role on a first delta is read by nobody. -/
theorem withRole_read {choice : Value} (p : PendingFinish) :
    choiceEvents (Chat.withRole choice) = choiceEvents choice ∧
      recordChoice p (Chat.withRole choice) = recordChoice p choice := by
  unfold Chat.withRole
  split
  · rename_i entries hdelta
    have hobject : choice.isObject = true := by
      cases choice with
      | object => rfl
      | null | bool | number | string | array => cases hdelta
    have hentries : (Value.object entries).isObject = true := rfl
    simp [choiceEvents, recordChoice, Value.field, Value.get_set hobject, Value.get_set hentries,
      hdelta]
  · exact ⟨rfl, rfl⟩

/-! ## Chunks -/

/-- A chunk of one choice and no report. -/
structure IsChunk (data choice : Value) : Prop where
  shallow : Shallow 12 data
  object : data.isObject = true
  error : data.get "error" = none
  usage : data.get "usage" = none
  choices : data.get "choices" = some (.array [choice])

variable {packages : Packages}

/-- A written object is no marker. -/
theorem frame_written (hp : packages.Lawful) {data : Value} (hexact : Exact data)
    (hobject : data.isObject = true) (p : PendingFinish) :
    (openaiSseParser packages).frame p (writtenFrame packages "message" data) =
      eventsOfFrame packages (packages.toText data) p := by
  have hmarker : packages.toText data ≠ "[DONE]" := by
    intro h
    have hhead := toText_object hp hexact hobject
    rw [h] at hhead
    revert hhead
    decide
  simp [openaiSseParser, frame, writtenFrame, hmarker]

theorem frame_chunk (hp : packages.Lawful) {data choice : Value} (h : IsChunk data choice)
    (p : PendingFinish) :
    (openaiSseParser packages).frame p (writtenFrame packages "message" data) =
      .ok (choiceEvents choice, recordChoice p choice) := by
  rw [frame_written hp h.shallow.exact h.object, eventsOfFrame,
    fromStr_toText hp h.shallow (by decide)]
  simp [refuseWhen, Checked.refuse, frameUsage, frameChoices, h.error, h.usage, h.choices, bind,
    Except.bind, pure, Except.pure]

/-! ## Rendering content -/

theorem shallow_setText {n : Nat} {value : Value} (h : Shallow (n + 1) value) (key : String)
    (text : Option String) : Shallow (n + 1) (Chat.setText key text value) := by
  cases text with
  | none => exact h
  | some text => exact h.set (.string text) key

theorem shallow_fragment {index : Nat} (h : index < 2 ^ 32) (id name : Option String)
    (arguments : String) : Shallow 2 (Chat.callFragment index id name arguments none) := by
  refine shallow_setText (.obj ?_) "id" id
  simp only [List.forall_mem_cons, List.not_mem_nil, false_implies, implies_true, and_true]
  exact ⟨.nat (by omega), shallow_setText (.obj (by simp [Shallow.string])) "name" name⟩

/-- What an event is rendered as is a choice of 32 bits and a shallow delta. -/
theorem rendered_ok {event : StreamEvent} (h : IsContent event) :
    (rendered event).1 < 2 ^ 32 ∧ Shallow 4 (rendered event).2 ∧
      ∃ entries, (rendered event).2 = .obj entries := by
  cases event with
  | delta index text => exact ⟨h.1, .obj (by simp [Shallow.string]), _, rfl⟩
  | thinkingDelta index block text => exact ⟨h.1, .obj (by simp [Shallow.string]), _, rfl⟩
  | toolCallDelta index id name arguments signature =>
      refine ⟨Nat.two_pow_pos 32, .obj ?_, _, rfl⟩
      simp only [List.forall_mem_singleton]
      exact .array (by simpa using shallow_fragment h.1 id name arguments)
  | thinkingSignatureDelta | redactedThinking | usage | finish | done | error => cases h

theorem shallow_openChoice {event : StreamEvent} (h : IsContent event) :
    Shallow 5 (openChoice (rendered event).1 (rendered event).2) := by
  obtain ⟨hindex, hdelta, -⟩ := rendered_ok h
  refine .obj ?_
  simp only [List.forall_mem_cons, List.not_mem_nil, false_implies, implies_true, and_true]
  exact ⟨.nat (by omega), hdelta, .null⟩

theorem shallow_withRole {n : Nat} {choice : Value} (h : Shallow (n + 2) choice) :
    Shallow (n + 2) (Chat.withRole choice) := by
  unfold Chat.withRole
  split
  · rename_i entries hdelta
    exact h.set ((h.get hdelta).set (.string "assistant") "role") "delta"
  · exact h

/-- The host's facts fit their types. -/
def Dated (context : Chat.ChatStreamContext) : Prop :=
  -(2 ^ 63) ≤ context.created ∧ context.created < 2 ^ 63

theorem shallow_chunk {s : Chat.OpenAiChatStream} (hdated : Dated s.context)
    {choices : List Value} (h : ∀ choice ∈ choices, Shallow 5 choice) :
    Shallow 7 (s.chunk choices none) := by
  refine .obj ?_
  simp only [List.forall_mem_cons, List.not_mem_nil, false_implies, implies_true, and_true]
  exact ⟨.string _, .string _, .int hdated.1 hdated.2, .string _, .array h⟩

theorem isChunk_chunk {s : Chat.OpenAiChatStream} (hdated : Dated s.context) {choice : Value}
    (h : Shallow 5 choice) : IsChunk (s.chunk [choice] none) choice where
  shallow := (shallow_chunk hdated (by simpa using h)).mono (by decide)
  object := by simp [Chat.OpenAiChatStream.chunk]
  error := by simp [Chat.OpenAiChatStream.chunk, lookup]
  usage := by simp [Chat.OpenAiChatStream.chunk, lookup]
  choices := by simp [Chat.OpenAiChatStream.chunk, lookup]

/-- Nothing is pending and nothing has been reported. -/
structure Fresh (context : Chat.ChatStreamContext) (s : Chat.OpenAiChatStream) : Prop where
  context : s.context = context
  live : s.inner.terminated = false
  pending : s.inner.pendingFinish = none
  usage : s.inner.usage = .default
  folded : s.usageFolded = false

theorem openaiChatFrame_content {s : Chat.OpenAiChatSseState} (hlive : s.terminated = false)
    (hpending : s.pendingFinish = none) {event : StreamEvent} (h : IsContent event) :
    Chat.openaiChatFrame packages s event =
      (s, [Chat.delta (rendered event).1 (rendered event).2]) := by
  cases event with
  | delta | thinkingDelta =>
      simp [Chat.openaiChatFrame_eq packages hlive, Chat.renderChatEvent, Chat.OpenAiChatSseState.push,
        Chat.OpenAiChatSseState.flushPending, hpending, rendered]
  | toolCallDelta index id name arguments signature =>
      obtain ⟨-, rfl⟩ := h
      simp [Chat.openaiChatFrame_eq packages hlive, Chat.renderChatEvent, Chat.OpenAiChatSseState.push,
        Chat.OpenAiChatSseState.flushPending, hpending, rendered]
  | thinkingSignatureDelta | redactedThinking | usage | finish | done | error => cases h

/-- A content event is rendered as one chunk, which is read as the event. -/
theorem step_content {context : Chat.ChatStreamContext} (hdated : Dated context)
    {s : Chat.OpenAiChatStream} (hs : Fresh context s) {event : StreamEvent}
    (h : IsContent event) :
    ∃ frame t choice, s.step packages event = .ok ([frame], t) ∧ Fresh context t ∧
      IsChunk frame.data choice ∧ choiceEvents choice = [onWire event] ∧
      ∀ p, recordChoice p choice = p := by
  have hraw := choiceEvents_rendered h
  have hunfinished : ∀ p, recordChoice p (openChoice (rendered event).1 (rendered event).2) = p := by
    intro p
    simp [recordChoice, openChoice, Value.field, lookup]
  have hshallow := shallow_openChoice h
  have hpushed : ∀ choice, ∃ frame t read,
      s.pushDeltas packages choice event = (t, [frame]) ∧ Fresh context t ∧
        IsChunk frame.data read ∧ choiceEvents read = [onWire event] ∧
        ∀ p, recordChoice p read = p := by
    intro choice
    have hfresh : ∀ roles, Fresh context { s with rolesSent := roles } := fun roles =>
      ⟨hs.context, hs.live, hs.pending, hs.usage, hs.folded⟩
    have hdated' : Dated s.context := hs.context ▸ hdated
    simp only [Chat.OpenAiChatStream.pushDeltas,
      openaiChatFrame_content hs.live hs.pending h, Chat.OpenAiChatStream.pushAll,
      Chat.OpenAiChatStream.pushDelta, choices_delta]
    split
    · exact ⟨_, _, _, rfl, hfresh s.rolesSent, isChunk_chunk hdated' hshallow, hraw, hunfinished⟩
    · refine ⟨_, _, _, rfl, hfresh _, isChunk_chunk hdated' (shallow_withRole hshallow),
        (withRole_read .start).1.trans hraw, fun p => ?_⟩
      rw [(withRole_read p).2, hunfinished]
  have hflush : s.flushTerminal = (.ok [], s) := by
    rw [Chat.OpenAiChatStream.flushTerminal, hs.pending]
  have hcontent : ∀ choice, ∃ frame t read,
      (s.renderContent packages choice event).settled = .ok ([frame], t) ∧ Fresh context t ∧
        IsChunk frame.data read ∧ choiceEvents read = [onWire event] ∧
        ∀ p, recordChoice p read = p := by
    intro choice
    obtain ⟨frame, t, read, hpush, hrest⟩ := hpushed choice
    refine ⟨frame, t, read, ?_, hrest⟩
    rw [Chat.OpenAiChatStream.renderContent, hflush]
    simp [Chat.Rendered.followedBy, hpush, Chat.Rendered.settled, Except.map]
  unfold Chat.OpenAiChatStream.step
  rw [hs.live]
  cases event with
  | delta index text => exact hcontent index
  | thinkingDelta index block text => exact hcontent index
  | toolCallDelta => exact hcontent 0
  | thinkingSignatureDelta | redactedThinking | usage | finish | done | error => cases h

/-! ## Usage -/

/-- Counts of a report the wire takes. -/
structure Reportable (usage : Usage) : Prop where
  cached : usage.cacheReadTokens ≤ usage.inputTokens
  reasoning : usage.reasoningTokens ≤ usage.outputTokens
  total : usage.inputTokens + usage.outputTokens < 2 ^ 64

/-- The counts of a report that the wire carries. -/
def carriedUsage (usage : Usage) : Usage :=
  { Usage.default with
    inputTokens := usage.inputTokens
    outputTokens := usage.outputTokens
    cacheReadTokens := usage.cacheReadTokens
    reasoningTokens := usage.reasoningTokens }

theorem get_setDetail {reported : Value} (hobject : reported.isObject = true)
    (key count k : String) (tokens : Nat) :
    (Chat.setDetail key count tokens reported).get k =
      if key = k ∧ 0 < tokens then some (.obj [(count, .nat tokens)]) else reported.get k := by
  unfold Chat.setDetail
  split
  · rename_i hpos
    rw [Value.get_set hobject]
    simp [hpos]
  · rename_i hzero
    simp [hzero]

theorem isObject_setDetail {reported : Value} (hobject : reported.isObject = true)
    (key count : String) (tokens : Nat) :
    (Chat.setDetail key count tokens reported).isObject = true := by
  unfold Chat.setDetail
  split
  · exact Value.isObject_set hobject _ _
  · exact hobject

/-- A count under a details object is read back, zero when there is none. -/
theorem optionalCount_detail (count key invalid : String) (tokens : Nat) :
    optionalCount (if 0 < tokens then some (.obj [(count, .nat tokens)]) else none) key invalid =
      .ok (if count = key then tokens else 0) := by
  by_cases hpos : 0 < tokens
  · by_cases hkey : count = key
    · simp [optionalCount, countOrZero, hpos, hkey, lookup, Value.nat, Value.asU64]
    · simp [optionalCount, countOrZero, hpos, hkey, lookup]
  · have hzero : tokens = 0 := by omega
    simp [optionalCount, countOrZero, hzero]

theorem usageOf_reported {usage : Usage} (h : Reportable usage) :
    OpenAi.usageOf (Chat.reportedUsage usage (usage.inputTokens + usage.outputTokens)) =
      .ok (carriedUsage usage) := by
  let prompt := if 0 < usage.cacheReadTokens then
    some (Value.obj [("cached_tokens", .nat usage.cacheReadTokens)]) else none
  let completion := if 0 < usage.reasoningTokens then
    some (Value.obj [("reasoning_tokens", .nat usage.reasoningTokens)]) else none
  have hdetails : ∀ (raw : Value) (key count invalid : String) (tokens : Nat),
      raw.get key = (if 0 < tokens then some (.obj [(count, .nat tokens)]) else none) →
      usageDetails raw key invalid =
        .ok (if 0 < tokens then some (.obj [(count, .nat tokens)]) else none) := by
    intro raw key count invalid tokens hget
    by_cases hpos : 0 < tokens
    · rw [if_pos hpos] at hget ⊢
      simp [usageDetails, objectOrNone, hget, Value.obj, Value.isObject]
    · rw [if_neg hpos] at hget ⊢
      simp [usageDetails, objectOrNone, hget]
  have hprompt : ∀ invalid, usageDetails
      (Chat.reportedUsage usage (usage.inputTokens + usage.outputTokens))
      "prompt_tokens_details" invalid = .ok prompt := by
    intro invalid
    refine hdetails _ _ "cached_tokens" _ _ ?_
    simp [Chat.reportedUsage, get_setDetail, isObject_setDetail, lookup]
  have hcompletion : ∀ invalid, usageDetails
      (Chat.reportedUsage usage (usage.inputTokens + usage.outputTokens))
      "completion_tokens_details" invalid = .ok completion := by
    intro invalid
    refine hdetails _ _ "reasoning_tokens" _ _ ?_
    simp [Chat.reportedUsage, get_setDetail, isObject_setDetail, lookup]
  have hcached : cachedCount
      (Chat.reportedUsage usage (usage.inputTokens + usage.outputTokens)) prompt =
        .ok usage.cacheReadTokens := by
    by_cases hpos : 0 < usage.cacheReadTokens
    · simp [cachedCount, prompt, hpos, lookup, optionalCount, countOrZero, Value.nat, Value.asU64]
    · have hzero : usage.cacheReadTokens = 0 := by omega
      simp [cachedCount, prompt, hzero, optionalCount, countOrZero, Chat.reportedUsage, get_setDetail,
        isObject_setDetail, lookup]
  have hcacheWrite : cacheWriteCount prompt = .ok 0 ∧ explicitCache prompt = false := by
    have hexplicit : explicitCache prompt = false := by
      by_cases hpos : 0 < usage.cacheReadTokens
      · simp [explicitCache, prompt, hpos, lookup]
      · simp [explicitCache, prompt, hpos]
    refine ⟨?_, hexplicit⟩
    rw [cacheWriteCount, hexplicit]
    exact optionalCount_detail "cached_tokens" "cache_write_tokens" invalidCount _
  have hreasoning : optionalCount completion "reasoning_tokens" invalidCount =
      .ok usage.reasoningTokens :=
    optionalCount_detail "reasoning_tokens" "reasoning_tokens" invalidCount _
  have hzero : optionalCount prompt "orchestration_input_tokens" invalidCount = .ok 0 ∧
      optionalCount prompt "orchestration_input_cached_tokens" invalidCount = .ok 0 ∧
      optionalCount completion "orchestration_output_tokens" invalidCount = .ok 0 :=
    ⟨optionalCount_detail "cached_tokens" _ _ _, optionalCount_detail "cached_tokens" _ _ _,
      optionalCount_detail "reasoning_tokens" _ _ _⟩
  have hcounts : ∀ key missing count, (key, count) ∈
      [("prompt_tokens", usage.inputTokens), ("completion_tokens", usage.outputTokens),
        ("total_tokens", usage.inputTokens + usage.outputTokens)] →
      requiredCount (Chat.reportedUsage usage (usage.inputTokens + usage.outputTokens)) key
        missing = .ok count := by
    intro key missing count hmem
    simp only [List.mem_cons, Prod.mk.injEq, List.not_mem_nil, or_false] at hmem
    rcases hmem with ⟨rfl, rfl⟩ | ⟨rfl, rfl⟩ | ⟨rfl, rfl⟩ <;>
      simp [requiredCount, countUnder, Chat.reportedUsage, get_setDetail, isObject_setDetail, lookup]
  have hobject : (Chat.reportedUsage usage (usage.inputTokens + usage.outputTokens)).isObject =
      true := by
    simp [Chat.reportedUsage, isObject_setDetail]
  have hinput : usage.inputTokens < 2 ^ 64 := by have := h.total; omega
  have houtput : usage.outputTokens < 2 ^ 64 := by have := h.total; omega
  have hcacheFits : usage.cacheReadTokens < 2 ^ 64 := h.cached.trans_lt hinput
  unfold OpenAi.usageOf
  rw [hcounts "prompt_tokens" _ usage.inputTokens (by simp),
    hcounts "completion_tokens" _ usage.outputTokens (by simp),
    hcounts "total_tokens" _ (usage.inputTokens + usage.outputTokens) (by simp), hprompt,
    hcompletion]
  simp only [refuseWhen, Checked.refuse, hobject, hzero, hcached, hcacheWrite, hreasoning,
    checkedSum, checkTotal, h.total, Nat.add_zero, hinput, houtput, hcacheFits, if_true, if_false,
    bind, Except.bind, pure, Except.pure, Bool.true_eq_false, Nat.lt_irrefl, gt_iff_lt,
    Nat.not_lt.mpr h.cached, Nat.not_lt.mpr h.reasoning, Bool.false_eq_true]
  rfl

/-! ## Rendering the end -/

/-- The finish reasons of the wire, with their names. -/
def wireReasons : List (FinishReason × String) :=
  [(.stop, "stop"), (.length, "length"), (.toolCalls, "tool_calls"),
    (.contentFilter, "content_filter")]

theorem finishReason_wire {reason : FinishReason} {name : String}
    (h : (reason, name) ∈ wireReasons) : finishReason name = reason := by
  simp only [wireReasons, List.mem_cons, Prod.mk.injEq, List.not_mem_nil, or_false] at h
  rcases h with ⟨rfl, rfl⟩ | ⟨rfl, rfl⟩ | ⟨rfl, rfl⟩ | ⟨rfl, rfl⟩ <;> rfl

/-- The report on a terminal chunk. -/
def terminalReport (usage : Option Usage) : Option Value :=
  usage.map fun usage => Chat.reportedUsage usage (usage.inputTokens + usage.outputTokens)

/-- The terminal chunk. -/
def terminalChunk (s : Chat.OpenAiChatStream) (name : String) (usage : Option Usage) : Value :=
  s.chunk [Chat.finishChoice (.string name)] (terminalReport usage)

/-- The events that end a stream. -/
def ending (reason : FinishReason) (usage : Option Usage) : List StreamEvent :=
  .finish (some reason) none ::
    (usage.map fun usage => StreamEvent.usage (carriedUsage usage)).toList ++ [.done none none]

/-- A finish, at most one report and the close are rendered as one chunk. -/
theorem call_ending {context : Chat.ChatStreamContext} {s : Chat.OpenAiChatStream}
    (hs : Fresh context s) (habsorb : ∀ usage, packages.absorb .default usage = usage)
    {reason : FinishReason} {name : String} (hname : packages.reasonValue reason = .string name)
    (sequence : Option String) {usage : Option Usage} (husage : ∀ u ∈ usage, Reportable u)
    (doneReason : Option FinishReason) (doneSequence : Option String) :
    ∃ t, Batching.call (Chat.OpenAiChatStream.step packages) s
        (.finish (some reason) sequence :: (usage.map StreamEvent.usage).toList ++
          [.done doneReason doneSequence]) =
      .ok ([⟨.terminal, terminalChunk s name usage⟩], t) := by
  have hflush : s.flushTerminal = (.ok [], s) := by
    rw [Chat.OpenAiChatStream.flushTerminal, hs.pending]
  let held : Chat.OpenAiChatStream := { s with
    finishSeen := true
    inner := { s.inner with pendingFinish := some (.string name) } }
  let told : Chat.OpenAiChatStream := { held with
    usageFolded := usage.isSome
    inner := { held.inner with usage := usage.getD .default } }
  have hfinish : s.step packages (.finish (some reason) sequence) = .ok ([], held) := by
    simp [Chat.OpenAiChatStream.step, hs.live, Chat.OpenAiChatStream.render, hflush,
      Chat.Rendered.followedBy, Chat.openaiChatFrame, Chat.openaiChatFrames, Chat.renderChatEvent,
      Chat.OpenAiChatSseState.flushPending, hs.pending, Chat.renderFinishReason, hname,
      Chat.Rendered.settled, Except.map, held]
  have hreport : Batching.call (Chat.OpenAiChatStream.step packages) held
      (usage.map StreamEvent.usage).toList = .ok ([], told) := by
    cases usage with
    | none =>
        have hsame : told = held := by
          simp only [told, held, Option.isSome_none, ← hs.folded, Option.getD_none, ← hs.usage]
        rw [hsame]
        rfl
    | some u =>
        simp [Batching.call, Chat.OpenAiChatStream.step, held, hs.live, hs.usage,
          Chat.OpenAiChatStream.render, habsorb, Chat.Rendered.settled, Except.map, told]
  have hterminal : told.taken.terminalUsage = .ok (terminalReport usage) := by
    cases usage with
    | none => rfl
    | some u =>
        have htotal := (husage u rfl).total
        change (Chat.openaiChatUsage u).map some = _
        rw [Chat.openaiChatUsage, if_pos htotal]
        rfl
  have hdone : told.step packages (.done doneReason doneSequence) =
      .ok ([⟨.terminal, terminalChunk s name usage⟩], told.taken) := by
    have hsent : told.flushTerminal =
        (.ok [⟨.terminal, terminalChunk s name usage⟩], told.taken) := by
      have hpending : told.inner.pendingFinish = some (.string name) := rfl
      rw [Chat.flushTerminal_pending hpending, hterminal]
      rfl
    have hseen : told.taken.finishSeen = true := rfl
    have hlive : told.inner.terminated = false := hs.live
    simp [Chat.OpenAiChatStream.step, hlive, Chat.OpenAiChatStream.render, hsent,
      Chat.Rendered.followedBy, Chat.OpenAiChatStream.trailingUsage, hseen,
      Chat.Rendered.settled, Except.map]
  refine ⟨told.taken, ?_⟩
  rw [List.cons_append, Batching.call, hfinish]
  simp [Batching.call_append, hreport, Batching.call, hdone, Except.map]

/-! ## Reading the end -/

theorem shallow_terminal {s : Chat.OpenAiChatStream} (hdated : Dated s.context) (name : String)
    {usage : Option Usage} (husage : ∀ u ∈ usage, Reportable u) :
    Shallow 7 (terminalChunk s name usage) := by
  have hchoice : Shallow 5 (Chat.finishChoice (.string name)) := by
    refine .obj ?_
    simp only [List.forall_mem_cons, List.not_mem_nil, false_implies, implies_true, and_true]
    exact ⟨.nat (by decide), .obj (by simp), .string _⟩
  have hchunk := @shallow_chunk s hdated [Chat.finishChoice (.string name)]
    (by simpa using hchoice)
  cases usage with
  | none => exact hchunk
  | some u =>
      obtain ⟨hcached, hreasoning, htotal⟩ := husage u rfl
      refine hchunk.set ?_ "usage"
      have hdetail : ∀ (key count : String) (tokens : Nat) (reported : Value),
          tokens < 2 ^ 64 → Shallow 2 reported →
          Shallow 2 (Chat.setDetail key count tokens reported) := by
        intro key count tokens reported htokens hreported
        unfold Chat.setDetail
        split
        · exact hreported.set (.obj (by simpa using Shallow.nat htokens)) key
        · exact hreported
      refine ((hdetail _ _ _ _ (by omega) (hdetail _ _ _ _ (by omega) (.obj ?_))).mono
        (by decide))
      simp only [List.forall_mem_cons, List.not_mem_nil, false_implies, implies_true, and_true]
      exact ⟨.nat (by omega), .nat (by omega), .nat htotal⟩

theorem terminal_gets (s : Chat.OpenAiChatStream) (name : String) (usage : Option Usage) :
    (terminalChunk s name usage).isObject = true ∧
      (terminalChunk s name usage).get "error" = none ∧
      (terminalChunk s name usage).get "usage" = terminalReport usage ∧
      (terminalChunk s name usage).get "choices" =
        some (.array [Chat.finishChoice (.string name)]) := by
  cases usage <;> simp [terminalChunk, terminalReport, Chat.OpenAiChatStream.chunk, lookup]

/-- The terminal chunk is read as the finish, at once with a report and held
without one. -/
theorem frame_terminal (hp : packages.Lawful) {s : Chat.OpenAiChatStream}
    (hdated : Dated s.context) {reason : FinishReason} {name : String}
    (hname : (reason, name) ∈ wireReasons) {usage : Option Usage}
    (husage : ∀ u ∈ usage, Reportable u) :
    (openaiSseParser packages).frame .start
        (writtenFrame packages "message" (terminalChunk s name usage)) =
      .ok (match usage with
        | none => ([], ⟨true, some reason, false⟩)
        | some u => ([.finish (some reason) none, .usage (carriedUsage u), .done none none],
            ⟨false, none, true⟩)) := by
  have hshallow := shallow_terminal hdated name husage
  obtain ⟨hobject, herror, hreport, hchoices⟩ := terminal_gets s name usage
  have hevents : choiceEvents (Chat.finishChoice (.string name)) = [] := by
    simp [choiceEvents, Chat.finishChoice, Value.field, lookup]
    simp [carried]
  have hrecord : recordChoice .start (Chat.finishChoice (.string name)) =
      ⟨true, some reason, false⟩ := by
    simp [recordChoice, Chat.finishChoice, Value.field, lookup, PendingFinish.record,
      finishReason_wire hname]
  rw [frame_written hp hshallow.exact hobject, eventsOfFrame,
    fromStr_toText hp hshallow (by decide)]
  cases usage with
  | none =>
      have hnone : (terminalChunk s name none).get "usage" = none := hreport
      simp [refuseWhen, Checked.refuse, frameUsage, frameChoices, herror, hnone, hchoices, hevents,
        hrecord, bind, Except.bind, pure, Except.pure]
  | some u =>
      have hsome : frameUsage (terminalChunk s name (some u)) =
          .ok (some (Chat.reportedUsage u (u.inputTokens + u.outputTokens))) := by
        have hreported : (Chat.reportedUsage u (u.inputTokens + u.outputTokens)).isObject = true := by
          simp [Chat.reportedUsage, isObject_setDetail]
        rw [frameUsage, hreport]
        cases hvalue : Chat.reportedUsage u (u.inputTokens + u.outputTokens) with
        | object entries => simp [terminalReport, hvalue, Value.isObject]
        | null | bool | number | string | array =>
            rw [hvalue] at hreported
            cases hreported
      simp [refuseWhen, Checked.refuse, frameChoices, herror, hsome, hchoices, hevents, hrecord,
        usageEvents, usageOf_reported (husage u rfl), PendingFinish.takeFinish, bind, Except.bind,
        pure, Except.pure]

/-- The terminal chunk and the end marker are read as the end of the stream. -/
theorem read_ending (hp : packages.Lawful) {s : Chat.OpenAiChatStream} (hdated : Dated s.context)
    {reason : FinishReason} {name : String} (hname : (reason, name) ∈ wireReasons)
    {usage : Option Usage} (husage : ∀ u ∈ usage, Reportable u) :
    ∃ q, (openaiSseParser packages).read .start
        [writtenFrame packages "message" (terminalChunk s name usage), ⟨"message", "[DONE]"⟩] =
      .ok (ending reason usage, q) ∧ q.flushPendingFinish = ([], q) := by
  have hterminal := frame_terminal hp hdated hname husage
  have hmarker : ∀ p, (openaiSseParser packages).frame p ⟨"message", "[DONE]"⟩ =
      .ok p.finishMarker := fun p => rfl
  cases usage with
  | none =>
      refine ⟨⟨false, none, true⟩, ?_, rfl⟩
      rw [Dialect.read, Batching.call, hterminal]
      simp [Batching.call, hmarker, PendingFinish.finishMarker, PendingFinish.takeFinish, ending,
        Except.map]
  | some u =>
      refine ⟨⟨false, none, false⟩, ?_, rfl⟩
      rw [Dialect.read, Batching.call, hterminal]
      simp [Batching.call, hmarker, PendingFinish.finishMarker, ending, Except.map]

/-! ## Whole streams -/

/-- Content is rendered chunk by chunk, and read back event by event. -/
theorem call_content (hp : packages.Lawful) {context : Chat.ChatStreamContext}
    (hdated : Dated context) {s : Chat.OpenAiChatStream} (hs : Fresh context s)
    {content : List StreamEvent} (h : ∀ event ∈ content, IsContent event) :
    ∃ frames t, Batching.call (Chat.OpenAiChatStream.step packages) s content = .ok (frames, t) ∧
      Fresh context t ∧ (∀ frame ∈ frames, Exact frame.data) ∧
      ∀ p, (openaiSseParser packages).read p
          (frames.map fun frame => writtenFrame packages "message" frame.data) =
        .ok (content.map onWire, p) := by
  induction content generalizing s with
  | nil => exact ⟨[], s, rfl, hs, by simp, fun _ => rfl⟩
  | cons event content ih =>
      obtain ⟨frame, between, choice, hstep, hbetween, hchunk, hevents, hrecord⟩ :=
        step_content hdated hs (h event List.mem_cons_self)
      obtain ⟨frames, t, hcall, ht, hexact, hread⟩ :=
        ih hbetween fun event hmem => h event (List.mem_cons_of_mem _ hmem)
      refine ⟨frame :: frames, t, ?_, ht,
        List.forall_mem_cons.mpr ⟨hchunk.shallow.exact, hexact⟩, fun p => ?_⟩
      · rw [Batching.call, hstep]
        simp [hcall, Except.map]
      · rw [List.map_cons, Dialect.read, Batching.call, frame_chunk hp hchunk, hevents, hrecord]
        change (Except.map _ ((openaiSseParser packages).read p _)) = _
        rw [hread]
        rfl

/-- A choice that is read as a text holds it. -/
theorem holdsText_choice {choice : Value} {index : Nat} {text : String}
    (h : choiceEvents choice = [.delta index text]) : HoldsText text choice := by
  have hfield : ∀ {v w : Value} {key : String}, v.field key = w → w ≠ .null →
      HoldsText text w → HoldsText text v := by
    intro v w key hfield hne hholds
    cases hget : v.get key with
    | none =>
        rw [Value.field, hget] at hfield
        exact absurd hfield.symm hne
    | some u =>
        rw [Value.field, hget, Option.getD_some] at hfield
        subst hfield
        exact .field key hget hholds
  have hcontent : ((choice.field "delta").field "content").asStr = some text := by
    have hmem : StreamEvent.delta index text ∈ choiceEvents choice := by simp [h]
    simp only [choiceEvents, List.mem_append, Option.mem_toList, Option.map_eq_some_iff,
      List.mem_map] at hmem
    rcases hmem with (⟨_, -, hthinking⟩ | ⟨found, hfound, htext⟩) | ⟨call, -, hcall⟩
    · cases hthinking
    · cases htext
      exact (Option.filter_eq_some_iff.mp hfound).1
    · cases hcall
  have hstring := Value.asStr_eq_some.mp hcontent
  have hdelta : HoldsText text (choice.field "delta") := hfield hstring (by simp) .here
  refine hfield rfl (fun hnull => ?_) hdelta
  rw [hnull] at hstring
  cases hstring

/-- Chunks as data events, with the end marker after them. -/
def chatBody (packages : Packages) (frames : List Chat.OpenAiChatFrame) : List SseFrameV1 :=
  frames.map (fun frame => writtenFrame packages "message" frame.data) ++
    [⟨"message", "[DONE]"⟩]

theorem writable_marker : (⟨"message", "[DONE]"⟩ : SseFrameV1).Writable where
  named := by decide
  event_unbroken := (oneLine_of_all (by decide)).unbroken
  data_unbroken := (oneLine_of_all (by decide)).unbroken
  event_fits := by decide
  data_fits := by decide

end OpenAi

open OpenAi

/-- A Chat stream is read back as the events it was rendered from, however the
events are batched and the body is cut, when its lines are within the bound. -/
theorem chat_stream_read_back {packages : Packages} (hp : packages.Lawful)
    (habsorb : ∀ usage, packages.absorb .default usage = usage)
    (hreasons : ∀ entry ∈ wireReasons, packages.reasonValue entry.1 = .string entry.2)
    {context : Chat.ChatStreamContext} (hdated : Dated context) {content : List StreamEvent}
    (hcontent : ∀ event ∈ content, IsContent event) {reason : FinishReason}
    (hreason : reason ∈ wireReasons.map Prod.fst) (sequence : Option String)
    {usage : Option Usage} (husage : ∀ u ∈ usage, Reportable u)
    (doneReason : Option FinishReason) (doneSequence : Option String)
    {batches : List (List StreamEvent)}
    (hbatches : batches.flatten =
      finishedStream content reason sequence usage doneReason doneSequence) :
    ∃ frames, (Chat.OpenAiChatStream.new context).calls packages batches = .emit frames () ∧
      ((∀ frame ∈ frames,
          ("data: " ++ packages.toText frame.data).utf8ByteSize ≤ maxSseSplitBytes) →
        ∀ chunks : List (List UInt8), (∀ chunk ∈ chunks, chunk ≠ []) →
          chunks.flatten = encode (chatBody packages frames) →
          outcome ((openaiSseParser packages).events chunks) =
            .ok (content.map onWire ++ ending reason usage)) := by
  obtain ⟨⟨found, name⟩, hname, rfl⟩ := List.mem_map.mp hreason
  have hfresh : Fresh context (.new context) := ⟨rfl, rfl, rfl, rfl, rfl⟩
  obtain ⟨frames, s, hcall, hs, hexact, hread⟩ := call_content hp hdated hfresh hcontent
  obtain ⟨t, hlast⟩ := call_ending hs habsorb (hreasons _ hname) sequence husage doneReason
    doneSequence
  have hdated' : Dated s.context := hs.context ▸ hdated
  obtain ⟨q, hending, hclose⟩ := read_ending hp hdated' hname husage
  refine ⟨frames ++ [⟨.terminal, terminalChunk s name usage⟩], ?_, fun hfits chunks hchunks
    hflat => ?_⟩
  · rw [Chat.calls_eq]
    refine Batching.calls_ok (t := t) ?_
    rw [hbatches, finishedStream, Batching.call_append, hcall]
    simp only [hlast, Except.map]
  · have hwritable : ∀ frame ∈ chatBody packages (frames ++ [⟨.terminal, terminalChunk s name
        usage⟩]), frame.Writable := by
      intro frame hframe
      rcases List.mem_append.mp hframe with hframe | hframe
      · obtain ⟨chunk, hchunk, rfl⟩ := List.mem_map.mp hframe
        refine writable_written hp (oneLine_of_all (by decide)) (by decide) (by decide) ?_
          (hfits chunk hchunk)
        rcases List.mem_append.mp hchunk with hchunk | hchunk
        · exact hexact chunk hchunk
        · rw [List.mem_singleton.mp hchunk]
          exact (shallow_terminal hdated' name husage).exact
      · rw [List.mem_singleton.mp hframe]
        exact writable_marker
    have hall : (openaiSseParser packages).read .start (chatBody packages (frames ++
        [⟨.terminal, terminalChunk s name usage⟩])) =
          .ok (content.map onWire ++ ending found usage, q) := by
      rw [chatBody, List.map_append, List.append_assoc, Dialect.read_append (hread .start)]
      exact congrArg (Except.map _) hending
    have hend : (openaiSseParser packages).close q = .ok ([], q) := congrArg Except.ok hclose
    rw [Dialect.outcome_encode hwritable hchunks hflat hall hend, List.append_nil]

def chatContext : Chat.ChatStreamContext := ⟨"m", "model", 0⟩

theorem dated_chatContext : Dated chatContext := by
  unfold Dated
  decide

/-- One text and one call, read back from a body in one chunk. -/
theorem text_and_call_read_back :
    outcome ((openaiSseParser .textual).events [encode (chatBody .textual
        ((Chat.OpenAiChatStream.new chatContext).calls .textual [finishedStream
          [.delta 0 "a", .toolCallDelta 1 (some "c") (some "f") "" none] .toolCalls none none none
          none]).items)]) =
      .ok ([.delta 0 "a", .toolCallDelta 1 (some "c") (some "f") "" none] ++
        ending .toolCalls none) := by
  obtain ⟨frames, hframes, hread⟩ := @chat_stream_read_back .textual lawful_textual (fun _ => rfl)
    (by simp [wireReasons, Packages.textual]) chatContext dated_chatContext
    [.delta 0 "a", .toolCallDelta 1 (some "c") (some "f") "" none] (by simp [IsContent])
    .toolCalls (by decide) none none (by simp) none none [_] List.flatten_singleton
  rw [hframes]
  refine hread ?_ _ ?_ List.flatten_singleton
  · have hitems : frames = ((Chat.OpenAiChatStream.new chatContext).calls .textual [finishedStream
        [.delta 0 "a", .toolCallDelta 1 (some "c") (some "f") "" none] .toolCalls none none none
        none]).items := by
      rw [hframes]
      rfl
    rw [hitems]
    decide +kernel
  · exact List.forall_mem_singleton.mpr (encode_ne_nil (by simp [chatBody]))

/-- A text over the bound of a line is rendered, and then refused. -/
theorem overlong_text_refused :
    ∃ frames, (Chat.OpenAiChatStream.new chatContext).calls .textual
        [finishedStream [.delta 0 overlongText] .stop none none none none] = .emit frames () ∧
      outcome ((openaiSseParser .textual).events [encode (chatBody .textual frames)]) =
        .error (protocolError "the upstream emitted an SSE line or event over the size bound") := by
  have hfresh : Fresh chatContext (.new chatContext) := ⟨rfl, rfl, rfl, rfl, rfl⟩
  have hcontent : IsContent (.delta 0 overlongText) := ⟨by decide, overlongText_ne⟩
  obtain ⟨frame, s, choice, hstep, hs, hchunk, hevents, -⟩ :=
    @step_content .textual _ dated_chatContext _ hfresh _ hcontent
  have hname : (FinishReason.stop, "stop") ∈ wireReasons := by decide
  obtain ⟨t, hlast⟩ := @call_ending .textual _ _ hs (fun _ => rfl) .stop "stop" rfl none none
    (by simp) none none
  have hshallow := @shallow_terminal s (hs.context ▸ dated_chatContext) "stop" none (by simp)
  refine ⟨[frame, ⟨.terminal, terminalChunk s "stop" none⟩], ?_, ?_⟩
  · rw [Chat.calls_eq]
    refine Batching.calls_ok (t := t) ?_
    rw [List.flatten_singleton, finishedStream, List.singleton_append, Batching.call, hstep]
    simp only [hlast, Except.map, List.singleton_append]
  · have hholds : HoldsText overlongText frame.data :=
      .field "choices" hchunk.choices (.item (List.mem_singleton_self _) (holdsText_choice hevents))
    have hword : OneLine "message" := oneLine_of_all (by decide)
    refine @Dialect.outcome_oversized _ (openaiSseParser .textual) [] [] .start _
      (writtenFrame .textual "message" frame.data)
      [writtenFrame .textual "message" (terminalChunk s "stop" none), ⟨"message", "[DONE]"⟩]
      (by simp) ?_ (show "event: message".utf8ByteSize ≤ _ by decide)
      (overlong_size hholds hchunk.shallow.exact) ?_ (by simp [chatBody]) rfl
    · refine List.forall_mem_cons.mpr ⟨oneLined_written lawful_textual hword hchunk.shallow.exact,
        List.forall_mem_cons.mpr ⟨oneLined_written lawful_textual hword hshallow.exact,
          List.forall_mem_singleton.mpr writable_marker.oneLined⟩⟩
    · exact List.forall_mem_singleton.mpr (encode_ne_nil (by simp [chatBody]))

end TokenStation.Provider
