import TokenStation.Anthropic.Stream
import TokenStation.Provider.AcceptedFrames
import TokenStation.Provider.Messages
import TokenStation.Provider.WrittenFrames

/-!
# Messages frames read one by one

What the parser of Messages streams makes of the frames the renderer writes:
the announcement, the start, the deltas and the stop of a block, and the end
of the message. While a message is rendered its first blocks are open.
-/

namespace TokenStation.Provider

open Library Library.Json Library.Text Responses Sse Anthropic

namespace Messages

/-- The parser with the first `n` blocks open. -/
def reading (n : Nat) : AnthropicSseParser :=
  { AnthropicSseParser.start with openBlocks := Finset.range n, seenBlocks := Finset.range n }

/-- The event types of a message without a failure. -/
def frameNames : List String :=
  ["message_start", "content_block_start", "content_block_delta", "content_block_stop",
    "message_delta", "message_stop"]

def writtenFrames (packages : Packages) (frames : List AnthropicFrame) : List SseFrameV1 :=
  frames.map fun f => writtenFrame packages f.event f.data

/-- Frames that can be written, and are read as these events. -/
structure Reads (packages : Packages) (r : AnthropicSseParser) (frames : List AnthropicFrame)
    (events : List StreamEvent) (t : AnthropicSseParser) : Prop where
  shallow : ∀ f ∈ frames, Shallow 8 f.data
  named : ∀ f ∈ frames, f.event ∈ frameNames
  read : (anthropicSseParser packages).read r (writtenFrames packages frames) = .ok (events, t)

section

variable {packages : Packages} {r s t : AnthropicSseParser} {n : Nat}

theorem Reads.nil : Reads packages r [] [] r := ⟨by simp, by simp, rfl⟩

theorem Reads.append {frames more : List AnthropicFrame} {events rest : List StreamEvent}
    (h : Reads packages r frames events s) (h' : Reads packages s more rest t) :
    Reads packages r (frames ++ more) (events ++ rest) t where
  shallow f hf := (List.mem_append.mp hf).elim (h.shallow f) (h'.shallow f)
  named f hf := (List.mem_append.mp hf).elim (h.named f) (h'.named f)
  read := by
    have hread := h.read
    rw [writtenFrames] at hread
    rw [writtenFrames, List.map_append, Dialect.read_append hread]
    change Except.map _ ((anthropicSseParser packages).read s (writtenFrames packages more)) = _
    rw [h'.read]
    rfl

/-- A frame is read as its event. -/
theorem reads_one (hp : packages.Lawful) {f : AnthropicFrame} {events : List StreamEvent}
    (hnamed : f.event ∈ frameNames) (hshallow : Shallow 8 f.data)
    (hevents : r.eventsOf f.event f.data = .ok (events, t)) :
    Reads packages r [f] events t where
  shallow := List.forall_mem_singleton.mpr hshallow
  named := List.forall_mem_singleton.mpr hnamed
  read := by
    have hmessage : f.event ≠ "message" := by
      intro h
      rw [h] at hnamed
      revert hnamed
      decide
    have hframe : (anthropicSseParser packages).frame r (writtenFrame packages f.event f.data) =
        .ok (events, t) := by
      simp only [anthropicSseParser, frame, writtenFrame, if_neg hmessage,
        fromStr_toText hp hshallow (by decide), hevents]
    rw [writtenFrames, List.map_singleton, Dialect.read, Batching.call, hframe]
    simp [Batching.call, Except.map]

/-! ## Blocks -/

theorem blockIndex_nat {data : Value} {index : Nat} (h : data.get "index" = some (.nat index))
    (hindex : index < 2 ^ 32) : blockIndex data = .ok index := by
  rw [blockIndex, h, Option.bind_some, Value.asU64_nat]
  exact if_pos hindex

theorem reads_blockStart (hp : packages.Lawful) (hn : n < 2 ^ 32) {block : Value}
    (hblock : Shallow 3 block) :
    Reads packages (reading n) [blockStart n block] (AnthropicSseParser.blockStartEvents n block)
      (reading (n + 1)) := by
  refine reads_one hp (by simp [frameNames, blockStart]) ?_ ?_
  · refine (Shallow.obj (n := 3) ?_).mono (by decide)
    simp only [List.forall_mem_cons, List.not_mem_nil, false_implies, implies_true, and_true]
    exact ⟨.string _, .nat (by omega), hblock⟩
  · have hindex : blockIndex (blockStart n block).data = .ok n :=
      blockIndex_nat (by simp [blockStart, lookup]) hn
    have hblock : (blockStart n block).data.field "content_block" = block := by
      simp [blockStart, Value.field, lookup]
    have hopen : (reading n).openBlock n = .ok (reading (n + 1)) := by
      rw [AnthropicSseParser.openBlock, if_neg (by simp [reading])]
      simp [reading, Finset.range_add_one]
    unfold AnthropicSseParser.eventsOf
    rw [if_neg (by simp [reading, AnthropicSseParser.start])]
    change (do
      let index ← blockIndex (blockStart n block).data
      let s ← (reading n).openBlock index
      return (AnthropicSseParser.blockStartEvents index ((blockStart n block).data.field "content_block"), s)) = _
    rw [hindex, hblock]
    simp only [bind, Except.bind, hopen, pure, Except.pure]

/-- A delta of an open block leaves the parser as it was. -/
theorem reads_blockDelta (hp : packages.Lawful) {index : Nat} (hopen : index < n)
    (hn : n ≤ 2 ^ 32) {delta : Value} (hdelta : Shallow 3 delta) {events : List StreamEvent}
    (hevents : (match (delta.field "type").asStr with
      | some "text_delta" => textEvent (delta.field "text").asStr (.delta 0)
      | some "thinking_delta" => textEvent (delta.field "thinking").asStr (.thinkingDelta 0 index)
      | some "signature_delta" =>
          textEvent (delta.field "signature").asStr (.thinkingSignatureDelta 0 index)
      | some "input_json_delta" =>
          [.toolCallDelta index none none ((delta.field "partial_json").asStr.getD "") none]
      | _ => []) = events) :
    Reads packages (reading n) [blockDelta index delta] events (reading n) := by
  refine reads_one hp (by simp [frameNames, blockDelta]) ?_ ?_
  · refine (Shallow.obj (n := 3) ?_).mono (by decide)
    simp only [List.forall_mem_cons, List.not_mem_nil, false_implies, implies_true, and_true]
    exact ⟨.string _, .nat (by omega), hdelta⟩
  · have hindex : blockIndex (blockDelta index delta).data = .ok index :=
      blockIndex_nat (by simp [blockDelta, lookup]) (by omega)
    have hvalue : (blockDelta index delta).data.field "delta" = delta := by
      simp [blockDelta, Value.field, lookup]
    have hrequired : (reading n).requireOpenBlock index = .ok () := by
      rw [AnthropicSseParser.requireOpenBlock, if_pos (by simpa [reading] using hopen)]
    have hread : (reading n).blockDeltaEvents (blockDelta index delta).data = .ok events := by
      rw [AnthropicSseParser.blockDeltaEvents, hindex, hvalue]
      simp only [bind, Except.bind, hrequired, pure, Except.pure]
      rw [← hevents]
      split <;> simp_all
    unfold AnthropicSseParser.eventsOf
    rw [if_neg (by simp [reading, AnthropicSseParser.start])]
    change (do
      let events ← (reading n).blockDeltaEvents (blockDelta index delta).data
      return (events, reading n)) = _
    rw [hread]
    rfl

/-- The stops of the open blocks close them. -/
theorem reads_stops (hp : packages.Lawful) {blocks : List Nat} (hnodup : blocks.Nodup)
    (hfits : ∀ index ∈ blocks, index < 2 ^ 32) (hclosed : r.closed = false)
    (hopen : r.openBlocks = blocks.toFinset) :
    Reads packages r (blocks.map blockStop) [] { r with openBlocks := ∅ } := by
  induction blocks generalizing r with
  | nil =>
      have hsame : { r with openBlocks := ∅ } = r := by
        rw [List.toFinset_nil] at hopen
        rw [← hopen]
      rw [hsame]
      exact .nil
  | cons index blocks ih =>
      obtain ⟨hfresh, hnodup⟩ := List.nodup_cons.mp hnodup
      have hindex : blockIndex (blockStop index).data = .ok index :=
        blockIndex_nat (by simp [blockStop, lookup]) (hfits index List.mem_cons_self)
      have hclose : r.closeBlock index = .ok { r with openBlocks := blocks.toFinset } := by
        rw [AnthropicSseParser.closeBlock, if_pos (by simp [hopen]), hopen, List.toFinset_cons,
          Finset.erase_insert (by simpa using hfresh)]
      have hone : Reads packages r [blockStop index] [] { r with openBlocks := blocks.toFinset } := by
        refine reads_one hp (by simp [frameNames, blockStop]) ?_ ?_
        · refine (Shallow.obj (n := 0) ?_).mono (by decide)
          simp only [List.forall_mem_cons, List.not_mem_nil, false_implies, implies_true, and_true]
          exact ⟨.string _, .nat ((hfits index List.mem_cons_self).trans (by decide))⟩
        · unfold AnthropicSseParser.eventsOf
          rw [if_neg (by simp [hclosed])]
          change (do
            let index ← blockIndex (blockStop index).data
            let s ← r.closeBlock index
            return ([], s)) = _
          rw [hindex]
          simp only [bind, Except.bind, hclose, pure, Except.pure]
      exact hone.append (ih hnodup (fun i hi => hfits i (List.mem_cons_of_mem _ hi)) hclosed rfl)

end

/-! ## Usage -/

/-- Counts of a report the wire takes. -/
structure Billable (usage : Usage) : Prop where
  cached : usage.cacheReadTokens + usage.cacheWriteTokens ≤ usage.inputTokens
  input : usage.inputTokens < 2 ^ 64
  output : usage.outputTokens < 2 ^ 64

/-- The buckets of a usage on the wire. -/
def wire (usage : Usage) : WireUsage :=
  ⟨uncachedInputTokens usage, usage.outputTokens, usage.cacheReadTokens, usage.cacheWriteTokens,
    0, 0⟩

/-- The buckets before anything was said. -/
def announced (usage : Usage) : WireUsage := { wire usage with output := 0 }

/-- The counts of a report that the wire carries. -/
def carriedUsage (usage : Usage) : Usage :=
  { Usage.default with
    inputTokens := usage.inputTokens
    outputTokens := usage.outputTokens
    cacheReadTokens := usage.cacheReadTokens
    cacheWriteTokens := usage.cacheWriteTokens }

theorem toIr_wire {usage : Usage} (h : Billable usage) : (wire usage).toIr = carriedUsage usage := by
  obtain ⟨hcached, hinput, -⟩ := h
  have hfirst : uncachedInputTokens usage + usage.cacheReadTokens ≤ 2 ^ 64 - 1 := by
    unfold uncachedInputTokens
    omega
  have hsum : uncachedInputTokens usage + usage.cacheReadTokens + usage.cacheWriteTokens =
      usage.inputTokens := by
    unfold uncachedInputTokens
    omega
  have hinputs : saturatingAdd (saturatingAdd (uncachedInputTokens usage) usage.cacheReadTokens)
      usage.cacheWriteTokens = usage.inputTokens := by
    unfold saturatingAdd
    rw [Nat.min_eq_left hfirst, hsum]
    omega
  simp [WireUsage.toIr, wire, carriedUsage, hinputs, Usage.default]

theorem get_reportTokens {value : Value} (hobject : value.isObject = true) (key k : String)
    (tokens : Nat) :
    (reportTokens key tokens value).get k =
      if key = k ∧ 0 < tokens then some (.nat tokens) else value.get k := by
  unfold reportTokens
  split
  · rename_i hpos
    rw [Value.get_set hobject]
    simp [hpos]
  · rename_i hzero
    simp [hzero]

theorem isObject_reportTokens {value : Value} (hobject : value.isObject = true) (key : String)
    (tokens : Nat) : (reportTokens key tokens value).isObject = true := by
  unfold reportTokens
  split
  · exact Value.isObject_set hobject _ _
  · exact hobject

theorem shallow_reportTokens {value : Value} (h : Shallow 2 value) (key : String) {tokens : Nat}
    (htokens : tokens < 2 ^ 64) : Shallow 2 (reportTokens key tokens value) := by
  unfold reportTokens
  split
  · exact h.set (.nat htokens) key
  · exact h

/-- A count that is reported when it is not zero. -/
theorem wireCount_optional {raw : Value} {key : String} {tokens : Nat}
    (h : raw.get key = if 0 < tokens then some (.nat tokens) else none) :
    wireCount raw key false = .ok tokens := by
  by_cases hpos : 0 < tokens
  · rw [if_pos hpos] at h
    simp [wireCount, h, Value.nat, Value.asU64]
  · have hzero : tokens = 0 := by omega
    rw [if_neg hpos] at h
    simp [wireCount, h, hzero]

theorem wireCount_present {raw : Value} {key : String} {tokens : Nat}
    (h : raw.get key = some (.nat tokens)) (required : Bool) :
    wireCount raw key required = .ok tokens := by
  simp [wireCount, h, Value.nat, Value.asU64]

/-- A report of these counts is read as them. -/
theorem of_ok {raw : Value} {report : UsageReport} {uncached output read write : Nat}
    (hobject : raw.isObject = true)
    (hinput : wireCount raw "input_tokens" report.inputRequired = .ok uncached)
    (houtput : wireCount raw "output_tokens" report.outputRequired = .ok output)
    (hread : wireCount raw "cache_read_input_tokens" false = .ok read)
    (hwrite : wireCount raw "cache_creation_input_tokens" false = .ok write)
    (htiers : raw.get "cache_creation" = none) (hsum : uncached + read + write < 2 ^ 64) :
    WireUsage.of raw report = .ok ⟨uncached, output, read, write, 0, 0⟩ := by
  simp only [WireUsage.of, hobject, hinput, houtput, hread, hwrite, cacheTiers, htiers, hsum, bind,
    Except.bind, pure, Except.pure, Bool.true_eq_false, if_false, if_true]

theorem cumulative_same (count : Nat) : cumulative count count = .ok count := by
  unfold cumulative
  split
  · rfl
  · rw [if_neg (Nat.lt_irrefl count)]

theorem cumulative_zero (count : Nat) : cumulative 0 count = .ok count := by
  unfold cumulative
  split
  · rename_i h
    rw [h]
  · rw [if_neg (Nat.not_lt_zero count)]

/-- The whole usage goes on from nothing, and from what was announced. -/
theorem absorb_wire (usage : Usage) :
    WireUsage.default.absorb (announced usage) = .ok (announced usage) ∧
      WireUsage.default.absorb (wire usage) = .ok (wire usage) ∧
      (announced usage).absorb (wire usage) = .ok (wire usage) := by
  have hzero : ∀ count : Nat, ¬0 < count → count = 0 := fun count h => by omega
  refine ⟨?_, ?_, ?_⟩
  · simp only [WireUsage.absorb, announced, wire, WireUsage.default, cumulative_zero, bind,
      Except.bind, pure, Except.pure, WireUsage.hasSplit]
    by_cases hpos : 0 < usage.cacheWriteTokens
    · simp [hpos]
    · simp [hzero _ hpos]
  · simp only [WireUsage.absorb, wire, WireUsage.default, cumulative_zero, bind, Except.bind, pure,
      Except.pure, WireUsage.hasSplit]
    by_cases hpos : 0 < usage.cacheWriteTokens
    · simp [hpos]
    · simp [hzero _ hpos]
  · simp [WireUsage.absorb, announced, wire, cumulative_zero, cumulative_same, bind, Except.bind,
      pure, Except.pure, WireUsage.hasSplit]

/-! ## The announcement and the end -/

section

variable {packages : Packages} {r : AnthropicSseParser}

/-- The start of a message reports the usage in it. -/
theorem eventsOf_start {data : Value} (hclosed : r.closed = false) :
    r.eventsOf "message_start" data =
      if ((data.field "message").field "usage").isObject then
        (r.reportUsage ((data.field "message").field "usage") .streamStart).map
          fun next => ([next.1], next.2)
      else .ok ([], r) := by
  unfold AnthropicSseParser.eventsOf
  rw [if_neg (by simp [hclosed])]
  simp only []
  split_ifs
  · cases r.reportUsage ((data.field "message").field "usage") .streamStart <;> rfl
  · rfl

/-- The announcement reports the input counts known when it is sent. -/
theorem reads_announce (hp : packages.Lawful) {s : AnthropicSseState} (husage : Billable s.usage)
    (hclosed : r.closed = false) (hfresh : r.usage = .default) :
    Reads packages r [messageStart s] [.usage (announced s.usage).toIr]
      { r with usage := announced s.usage } := by
  let raw := reportCache s.usage (.obj [("input_tokens", .nat (uncachedInputTokens s.usage)),
    ("output_tokens", .nat 0)])
  have hcounts : uncachedInputTokens s.usage + s.usage.cacheReadTokens +
      s.usage.cacheWriteTokens < 2 ^ 64 := by
    have := husage.cached
    have := husage.input
    unfold uncachedInputTokens
    omega
  have hraw : raw.isObject = true := by
    simp [raw, reportCache, isObject_reportTokens]
  have hof : WireUsage.of raw .streamStart = .ok (announced s.usage) := by
    refine of_ok hraw (wireCount_present ?_ _) (wireCount_present ?_ _) (wireCount_optional ?_)
      (wireCount_optional ?_) ?_ hcounts
    · simp [raw, wire, reportCache, get_reportTokens, isObject_reportTokens, lookup]
    · simp [raw, reportCache, get_reportTokens, isObject_reportTokens, lookup]
    · by_cases hpos : 0 < s.usage.cacheReadTokens <;>
        simp [raw, wire, reportCache, get_reportTokens, isObject_reportTokens, lookup, hpos]
    · by_cases hpos : 0 < s.usage.cacheWriteTokens <;>
        simp [raw, wire, reportCache, get_reportTokens, isObject_reportTokens, lookup, hpos]
    · simp [raw, reportCache, get_reportTokens, isObject_reportTokens, lookup]
  have hfield : ((messageStart s).data.field "message").field "usage" = raw := by
    simp [messageStart, Value.field, lookup, raw]
  have hshallow : Shallow 2 raw := by
    refine shallow_reportTokens (shallow_reportTokens (.obj (n := 1) ?_) _ (by omega)) _ (by omega)
    simp only [List.forall_mem_cons, List.not_mem_nil, false_implies, implies_true, and_true]
    exact ⟨.nat (by omega), .nat (by omega)⟩
  refine reads_one hp (by simp [frameNames, messageStart]) ?_ ?_
  · refine (Shallow.obj (n := 4) ?_).mono (by decide)
    simp only [List.forall_mem_cons, List.not_mem_nil, false_implies, implies_true, and_true]
    refine ⟨.string _, .obj (n := 3) ?_⟩
    simp only [List.forall_mem_cons, List.not_mem_nil, false_implies, implies_true, and_true]
    exact ⟨.string _, .string _, .string _, .array (n := 2) (by simp), .string _, .null, .null,
      hshallow.mono (by decide)⟩
  · change r.eventsOf "message_start" (messageStart s).data = _
    rw [eventsOf_start hclosed, hfield, if_pos hraw, AnthropicSseParser.reportUsage, hof, hfresh]
    simp only [bind, Except.bind, (absorb_wire s.usage).1, pure, Except.pure, Except.map]

/-- The finish reasons of the wire. -/
def wireReasons : List FinishReason := [.stop, .length, .toolCalls, .stopSequence]

theorem stopReason_wire {reason : FinishReason} (h : reason ∈ wireReasons) :
    ∃ name, stopReason (some reason) = .string name ∧ stopReasonToFinish name = reason := by
  simp only [wireReasons, List.mem_cons, List.not_mem_nil, or_false] at h
  rcases h with rfl | rfl | rfl | rfl <;> exact ⟨_, rfl, rfl⟩

theorem get_terminalUsage (usage : Usage) (k : String) :
    (terminalUsage usage).get k =
      if "cache_creation_input_tokens" = k ∧ 0 < usage.cacheWriteTokens then
        some (.nat usage.cacheWriteTokens)
      else if "cache_read_input_tokens" = k ∧ 0 < usage.cacheReadTokens then
        some (.nat usage.cacheReadTokens)
      else if "input_tokens" = k ∧ 0 < usage.inputTokens then
        some (.nat (uncachedInputTokens usage))
      else if "output_tokens" = k then some (.nat usage.outputTokens) else none := by
  have hset : ((Value.obj [("output_tokens", .nat usage.outputTokens)]).set "input_tokens"
      (.nat (uncachedInputTokens usage))).isObject = true := by simp
  by_cases hpos : 0 < usage.inputTokens
  · simp [terminalUsage, reportCache, get_reportTokens, isObject_reportTokens, hset, hpos, lookup]
  · simp [terminalUsage, reportCache, get_reportTokens, isObject_reportTokens, hpos, lookup]

theorem isObject_terminalUsage (usage : Usage) : (terminalUsage usage).isObject = true := by
  unfold terminalUsage
  refine isObject_reportTokens (isObject_reportTokens ?_ _ _) _ _
  split <;> simp

theorem uncached_sum {usage : Usage} (h : Billable usage) :
    uncachedInputTokens usage + usage.cacheReadTokens + usage.cacheWriteTokens < 2 ^ 64 := by
  obtain ⟨hcached, hinput, -⟩ := h
  unfold uncachedInputTokens
  omega

theorem shallow_terminalUsage {usage : Usage} (h : Billable usage) :
    Shallow 2 (terminalUsage usage) := by
  have hsum := uncached_sum h
  have hbase : Shallow 2 (.obj [("output_tokens", .nat usage.outputTokens)]) :=
    .obj (by simpa using Shallow.nat h.output)
  unfold terminalUsage
  refine shallow_reportTokens (shallow_reportTokens ?_ _ (by omega)) _ (by omega)
  split
  · exact hbase.set (.nat (by omega)) _
  · exact hbase

/-- The counts of the terminal report. -/
theorem of_terminalUsage {usage : Usage} (h : Billable usage) :
    WireUsage.of (terminalUsage usage) .streamDelta = .ok (wire usage) := by
  refine of_ok (isObject_terminalUsage usage) ?_ (wireCount_present ?_ _) (wireCount_optional ?_)
    (wireCount_optional ?_) ?_ (uncached_sum h)
  · by_cases hpos : 0 < usage.inputTokens
    · exact wireCount_present (by simp [get_terminalUsage, hpos]) _
    · have hzero : uncachedInputTokens usage = 0 := by
        unfold uncachedInputTokens
        omega
      simp [wireCount, get_terminalUsage, hpos, hzero, UsageReport.inputRequired]
  · simp [get_terminalUsage]
  · by_cases hpos : 0 < usage.cacheReadTokens <;> simp [get_terminalUsage, hpos]
  · by_cases hpos : 0 < usage.cacheWriteTokens <;> simp [get_terminalUsage, hpos]
  · simp [get_terminalUsage]

/-- The terminal frames close the message with its usage. -/
theorem reads_terminal (hp : packages.Lawful) {reason : FinishReason}
    (hreason : reason ∈ wireReasons) (sequence : Option String) {usage : Usage}
    (husage : Billable usage) (hclosed : r.closed = false) (hopen : r.openBlocks = ∅)
    (habsorb : r.usage.absorb (wire usage) = .ok (wire usage)) :
    ∃ t, Reads packages r [messageDelta (some reason) sequence usage, messageStop]
        [.finish (some reason) sequence, .usage (carriedUsage usage), .done none none] t ∧
      t.endOfStream.1 = [] := by
  obtain ⟨name, hname, hfinish⟩ := stopReason_wire hreason
  let t : AnthropicSseParser := { r with
    sawFinish := false
    pendingFinishReason := none
    pendingStopSequence := none
    doneEmitted := true
    openBlocks := ∅
    usage := wire usage }
  have hdelta : r.messageDeltaEvents (messageDelta (some reason) sequence usage).data =
      .ok ([.finish (some reason) sequence, .usage (carriedUsage usage), .done none none], t) := by
    have hreasonField : (((messageDelta (some reason) sequence usage).data.field "delta").field
        "stop_reason").asStr = some name := by
      simp [messageDelta, Value.field, lookup, hname]
    have hsequenceField : (((messageDelta (some reason) sequence usage).data.field "delta").field
        "stop_sequence").asStr = sequence := by
      cases sequence <;> simp [messageDelta, Value.field, lookup]
    have husageField : (messageDelta (some reason) sequence usage).data.field "usage" =
        terminalUsage usage := by
      simp [messageDelta, Value.field, lookup]
    simp only [AnthropicSseParser.messageDeltaEvents, AnthropicSseParser.requireAllBlocksClosed,
      hopen, if_true, hreasonField, hsequenceField, husageField, isObject_terminalUsage,
      Bool.true_eq_false, if_false, AnthropicSseParser.takePendingFinish,
      AnthropicSseParser.reportUsage, of_terminalUsage husage, habsorb, hfinish, toIr_wire husage,
      bind, Except.bind, pure, Except.pure]
    rfl
  have hfirst : Reads packages r [messageDelta (some reason) sequence usage]
      [.finish (some reason) sequence, .usage (carriedUsage usage), .done none none] t := by
    refine reads_one hp (by simp [frameNames, messageDelta]) ?_ ?_
    · refine (Shallow.obj (n := 3) ?_).mono (by decide)
      simp only [List.forall_mem_cons, List.not_mem_nil, false_implies, implies_true, and_true]
      refine ⟨.string _, .obj (n := 2) ?_, (shallow_terminalUsage husage).mono (by decide)⟩
      simp only [List.forall_mem_cons, List.not_mem_nil, false_implies, implies_true, and_true]
      refine ⟨hname ▸ .string _, ?_⟩
      cases sequence with
      | none => exact .null
      | some sequence => exact .string _
    · unfold AnthropicSseParser.eventsOf
      rw [if_neg (by simp [hclosed])]
      exact hdelta
  have hsecond : Reads packages t [messageStop] [] t := by
    refine reads_one hp (by simp [frameNames, messageStop]) ?_ ?_
    · exact (Shallow.obj (n := 0) (by simpa using Shallow.string _)).mono (by decide)
    · unfold AnthropicSseParser.eventsOf
      rw [if_neg (by simp [t, hclosed])]
      rfl
  refine ⟨t, hfirst.append hsecond, ?_⟩
  simp [AnthropicSseParser.endOfStream, t, hclosed]

end

end Messages

end TokenStation.Provider
