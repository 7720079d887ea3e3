import TokenStation.Provider.MessagesAgreement

/-!
# Finished Messages streams

At the end of a stream the blocks are closed and the terminal frames report
the reason and the usage. A whole rendered stream, written as events, is read
back as one that assembles to the same answer.
-/

namespace TokenStation.Provider

open Library Library.Json Library.Text Responses Sse Anthropic

namespace Messages

section

variable {packages : Packages} {content events : List StreamEvent} {s : AnthropicSseState}
  {frames : List AnthropicFrame}

/-! ## The end of a message -/

theorem renderDone_frames (s : AnthropicSseState) (reason : Option FinishReason)
    (sequence : Option String) :
    (Anthropic.renderDone s reason sequence).2 =
      (if s.messageStarted then [] else [messageStart s]) ++ s.openBlocks.map blockStop ++
        [messageDelta (reason <|> s.pendingFinishReason) (sequence <|> s.pendingStopSequence)
          s.usage, messageStop] := by
  unfold Anthropic.renderDone AnthropicSseState.ensureMessageStart
  by_cases hstarted : s.messageStarted = true
  · simp only [if_pos hstarted, AnthropicSseState.closeOpenBlocks]
  · simp only [if_neg hstarted, AnthropicSseState.closeOpenBlocks]
    rfl

/-- The announcement of the end, when nothing was announced before. -/
def lateStart (s : AnthropicSseState) (usage : Usage) : List AnthropicFrame :=
  if s.messageStarted then [] else [messageStart { s with usage := usage }]

theorem frames_end {absorb : Usage → Usage → Usage} (habsorb : ∀ u, absorb .default u = u)
    (hs : Numbered content s) (reason : FinishReason) (sequence : Option String) (usage : Usage)
    (doneReason : Option FinishReason) (doneSequence : Option String) :
    (anthropicFrames absorb s
        [.finish (some reason) sequence, .usage usage, .done doneReason doneSequence]).2 =
      lateStart s usage ++ s.openBlocks.map blockStop ++
        [messageDelta (some (doneReason.getD reason)) (doneSequence <|> sequence) usage,
          messageStop] := by
  have hreason : (doneReason <|> (some reason <|> none)) = some (doneReason.getD reason) := by
    cases doneReason <;> rfl
  have hsequence : (doneSequence <|> (sequence <|> none)) = (doneSequence <|> sequence) := by
    cases sequence <;> rfl
  simp only [anthropicFrames, hs.live, Bool.false_eq_true, if_false, Anthropic.renderEvent, hs.usage,
    habsorb, hs.reason, hs.sequence, renderDone_frames, hreason, hsequence, List.nil_append,
    List.append_nil]
  rfl

/-- What is read of the frames up to the stops: the report of a late announcement. -/
theorem lateStart_reads (hp : packages.Lawful) (s : AnthropicSseState) {usage : Usage}
    (husage : Billable usage) (n : Nat) :
    ∃ announced r, Reads packages (reading n) (lateStart s usage) announced r ∧
      (announced = [] ∨ ∃ early, announced = [.usage early]) ∧ r.closed = false ∧
      r.openBlocks = Finset.range n ∧ r.usage.absorb (wire usage) = .ok (wire usage) := by
  unfold lateStart
  obtain ⟨-, hfirst, hlater⟩ := absorb_wire usage
  split
  · exact ⟨[], reading n, .nil, .inl rfl, rfl, rfl, hfirst⟩
  · refine ⟨_, _, reads_announce hp (s := { s with usage := usage }) husage rfl rfl,
      .inr ⟨_, rfl⟩, rfl, rfl, ?_⟩
    exact hlater

/-- The end is read as the finish, the whole usage and the close. -/
theorem Shown.ends (hp : packages.Lawful) {absorb : Usage → Usage → Usage}
    (habsorb : ∀ u, absorb .default u = u) (h : Shown packages content s frames events)
    (hfits : (blocksOf content).length ≤ 2 ^ 32) {usage : Usage} (husage : Billable usage)
    {reason : FinishReason} {doneReason : Option FinishReason}
    (hreason : doneReason.getD reason ∈ wireReasons) (sequence doneSequence : Option String) :
    ∃ announced t, (announced = [] ∨ ∃ early, announced = [.usage early]) ∧
      Reads packages (reading 0) (frames ++ (anthropicFrames absorb s
          [.finish (some reason) sequence, .usage usage, .done doneReason doneSequence]).2)
        (events ++ announced ++ [.finish (some (doneReason.getD reason))
          (doneSequence <|> sequence), .usage (carriedUsage usage), .done none none]) t ∧
      t.endOfStream.1 = [] := by
  obtain ⟨announced, r, hstart, hannounced, hclosed, hopen, habsorbed⟩ :=
    lateStart_reads hp s husage s.nextIndex
  have hcount := h.numbered.count
  have hblocks : r.openBlocks = s.openBlocks.toFinset := by
    ext index
    rw [hopen, List.mem_toFinset, Finset.mem_range, h.numbered.opened.mem_iff, List.mem_range]
  have hnodup : s.openBlocks.Nodup := h.numbered.opened.nodup_iff.mpr List.nodup_range
  have hsmall : ∀ index ∈ s.openBlocks, index < 2 ^ 32 := by
    intro index hindex
    rw [h.numbered.opened.mem_iff, List.mem_range] at hindex
    omega
  have hstops := reads_stops hp hnodup hsmall hclosed hblocks
  obtain ⟨t, hterminal, hend⟩ := @reads_terminal packages { r with openBlocks := ∅ } hp _ hreason
    (doneSequence <|> sequence) _ husage hclosed rfl habsorbed
  refine ⟨announced, t, hannounced, ?_, hend⟩
  rw [frames_end habsorb h.numbered]
  have hall := h.reads.append ((hstart.append hstops).append hterminal)
  rwa [List.append_nil, ← List.append_assoc events] at hall

end

/-! ## A whole stream -/

theorem callless_reports {announced : List StreamEvent}
    (h : announced = [] ∨ ∃ early, announced = [.usage early]) :
    streamedText announced = [] ∧ streamedThinking announced = [] ∧
      streamedSignature announced = [] ∧ Callless announced ∧ IsBody announced := by
  rcases h with rfl | ⟨early, rfl⟩
  · exact ⟨rfl, rfl, rfl, by simp [Callless], by simp [IsBody]⟩
  · exact ⟨rfl, rfl, rfl, by simp [Callless], by simp [IsBody]⟩

theorem event_names {name : String} (h : name ∈ frameNames) :
    OneLine name ∧ name ≠ "" ∧ ("event: " ++ name).utf8ByteSize ≤ maxSseSplitBytes := by
  have hnames : ∀ name ∈ frameNames, (name.toList.all fun c => c != '\r' && c != '\n') = true ∧
      name ≠ "" ∧ ("event: " ++ name).utf8ByteSize ≤ maxSseSplitBytes := by decide
  obtain ⟨hline, hnamed, hshort⟩ := hnames _ h
  exact ⟨oneLine_of_all hline, hnamed, hshort⟩

theorem writable_reads {packages : Packages} (hp : packages.Lawful) {r t : AnthropicSseParser}
    {frames : List AnthropicFrame} {events : List StreamEvent}
    (h : Reads packages r frames events t)
    (hlines : ∀ f ∈ frames, ("data: " ++ packages.toText f.data).utf8ByteSize ≤ maxSseSplitBytes) :
    ∀ frame ∈ writtenFrames packages frames, frame.Writable := by
  intro frame hframe
  obtain ⟨f, hf, rfl⟩ := List.mem_map.mp hframe
  obtain ⟨hline, hnamed, hshort⟩ := event_names (h.named f hf)
  exact writable_written hp hline hnamed hshort (h.shallow f hf).exact (hlines f hf)

/-- A Messages stream of any content, finished once and written within the
bounds, is read back as a stream that assembles to the same answer. -/
theorem messages_stream_read_back {packages : Packages} (hp : packages.Lawful)
    (habsorb : ∀ usage, packages.absorb .default usage = usage) (model messageId : String)
    {content : List StreamEvent} (hcontent : IsContent content)
    (hblocks : (blocksOf content).length ≤ 2 ^ 32) {reason : FinishReason}
    (sequence : Option String) {usage : Usage} (husage : Billable usage)
    (doneReason : Option FinishReason) (doneSequence : Option String)
    (hreason : doneReason.getD reason ∈ wireReasons) {batches : List (List StreamEvent)}
    (hbatches : batches.flatten =
      finishedStream content reason sequence (some usage) doneReason doneSequence)
    {frames : List AnthropicFrame}
    (hframes : frames =
      (anthropicCalls packages.absorb (.new model messageId) batches).2.flatten)
    (hlines : ∀ frame ∈ frames,
      ("data: " ++ packages.toText frame.data).utf8ByteSize ≤ maxSseSplitBytes)
    {chunks : List (List UInt8)} (hchunks : ∀ chunk ∈ chunks, chunk ≠ [])
    (hflat : chunks.flatten = encode (writtenFrames packages frames)) :
    ∃ head, outcome ((anthropicSseParser packages).events chunks) =
        .ok (head ++ [.finish (some (doneReason.getD reason)) (doneSequence <|> sequence),
          .usage (carriedUsage usage), .done none none]) ∧
      IsBody head ∧
      String.join (streamedText head) = String.join (streamedText content) ∧
      String.join (streamedThinking head) = String.join (streamedThinking content) ∧
      String.join (streamedSignature head) = String.join (streamedSignature content) ∧
      callsBySlot head = callsBySlot content := by
  obtain ⟨s, first, events, hrender, hshown⟩ :=
    shown_content hp model messageId hcontent hblocks packages.absorb
  obtain ⟨announced, t, hannounced, hreads, hend⟩ :=
    hshown.ends hp habsorb hblocks husage hreason sequence doneSequence
  have hall : frames = first ++ (anthropicFrames packages.absorb s
      [.finish (some reason) sequence, .usage usage, .done doneReason doneSequence]).2 := by
    have hflatten : (anthropicCalls packages.absorb (.new model messageId) batches).2.flatten =
        (anthropicFrames packages.absorb (.new model messageId) batches.flatten).2 :=
      congrArg Prod.snd (anthropicCalls_flatten packages.absorb (.new model messageId) batches)
    rw [hframes, hflatten, hbatches]
    change (anthropicFrames packages.absorb _ (content ++ [.finish (some reason) sequence,
      .usage usage, .done doneReason doneSequence])).2 = _
    rw [anthropicFrames_append, hrender]
  rw [← hall] at hreads
  obtain ⟨htext, hthinking, hsignature, hcallless, hbody⟩ := callless_reports hannounced
  refine ⟨events ++ announced, ?_, isBody_append hshown.body hbody, ?_, ?_, ?_, ?_⟩
  · have hclose : (anthropicSseParser packages).close t = .ok ([], t.endOfStream.2) :=
      congrArg Except.ok (Prod.ext hend rfl)
    have hstart : reading 0 = (anthropicSseParser packages).start := rfl
    rw [Dialect.outcome_encode (writable_reads hp hreads hlines) hchunks hflat
      (hstart ▸ hreads.read) hclose, List.append_nil]
  · rw [streamedText_append, htext, List.append_nil, hshown.gathers.text]
  · rw [streamedThinking_append, hthinking, List.append_nil, hshown.gathers.thinking]
  · rw [streamedSignature_append, hsignature, List.append_nil, hshown.gathers.signature]
  · rw [callsBySlot, callsBySlot, slotCalls_callless hcallless, hshown.gathers.calls.values]

theorem isContent_snoc {content : List StreamEvent} {event : StreamEvent} (h : IsContent content)
    (hfollows : MayFollow content event) : IsContent (content ++ [event]) := by
  intro before next hfront
  rcases List.prefix_concat_iff.mp hfront with hall | hbefore
  · obtain ⟨rfl, hlast⟩ := List.append_inj' hall rfl
    cases hlast
    exact hfollows
  · exact h before next hbefore

theorem isContent_nil : IsContent [] := fun before event h => by simp at h

/-- Signed thinking, a call and a text. -/
def spokenMessage : List StreamEvent :=
  [.thinkingDelta 0 0 "t", .thinkingSignatureDelta 0 0 "s",
    .toolCallDelta 1 (some "c") (some "f") "\x7b\x7d" none, .delta 0 "a"]

def spokenUsage : Usage :=
  { Usage.default with inputTokens := 7, outputTokens := 3, cacheReadTokens := 2 }

/-- One message is read back from a body in one chunk. -/
theorem spoken_message_read_back :
    ∃ head, outcome ((anthropicSseParser .textual).events [encode (writtenFrames .textual
        (anthropicCalls Packages.textual.absorb (.new "model" "msg_1")
          [finishedStream spokenMessage .toolCalls none (some spokenUsage) none none]).2.flatten)]) =
        .ok (head ++ [.finish (some .toolCalls) none, .usage (carriedUsage spokenUsage),
          .done none none]) ∧
      IsBody head ∧
      String.join (streamedText head) = String.join (streamedText spokenMessage) ∧
      String.join (streamedThinking head) = String.join (streamedThinking spokenMessage) ∧
      String.join (streamedSignature head) = String.join (streamedSignature spokenMessage) ∧
      callsBySlot head = callsBySlot spokenMessage := by
  have hthinking := @isContent_snoc _ (.thinkingDelta 0 0 "t") isContent_nil trivial
  have hsigned := @isContent_snoc _ (.thinkingSignatureDelta 0 0 "s") hthinking
    (by decide : BlockKey.thinking ∈ blocksOf [.thinkingDelta 0 0 "t"])
  have hcalled := @isContent_snoc _ (.toolCallDelta 1 (some "c") (some "f") "\x7b\x7d" none) hsigned
    (Or.inr ⟨⟨"c", rfl, by decide⟩, "f", rfl⟩)
  have hcontent : IsContent spokenMessage := @isContent_snoc _ (.delta 0 "a") hcalled trivial
  refine @messages_stream_read_back .textual lawful_textual (fun _ => rfl) "model" "msg_1"
    spokenMessage hcontent (by decide) .toolCalls none spokenUsage
    ⟨by decide, by decide, by decide⟩ none none (by decide) [_] List.flatten_singleton _ rfl ?_ _ ?_
    List.flatten_singleton
  · decide +kernel
  · exact List.forall_mem_singleton.mpr (encode_ne_nil (by simp [writtenFrames, finishedStream,
      spokenMessage, anthropicCalls, anthropicFrames, Anthropic.renderEvent, AnthropicSseState.new]))

/-! ## Streams that are refused -/

/-- A block over the last index is refused. -/
theorem frame_index_over {packages : Packages} (hp : packages.Lawful) {r : AnthropicSseParser}
    (hclosed : r.closed = false) {index : Nat} (hover : 2 ^ 32 ≤ index) (hindex : index < 2 ^ 64)
    {block : Value} (hblock : Shallow 3 block) :
    (anthropicSseParser packages).frame r
        (writtenFrame packages (blockStart index block).event (blockStart index block).data) =
      .error (protocolError "the upstream content block index is invalid") := by
  have hshallow : Shallow 8 (blockStart index block).data := by
    refine (Shallow.obj (n := 3) ?_).mono (by decide)
    simp only [List.forall_mem_cons, List.not_mem_nil, false_implies, implies_true, and_true]
    exact ⟨.string _, .nat hindex, hblock⟩
  have hrefused : blockIndex (blockStart index block).data =
      .error (protocolError "the upstream content block index is invalid") := by
    have hget : (blockStart index block).data.get "index" = some (.nat index) := by
      simp [blockStart, lookup]
    rw [blockIndex, hget, Option.bind_some, Value.asU64_nat]
    exact if_neg (by omega)
  have hevents : r.eventsOf (blockStart index block).event (blockStart index block).data =
      .error (protocolError "the upstream content block index is invalid") := by
    unfold AnthropicSseParser.eventsOf
    rw [if_neg (by simp [hclosed])]
    change (do
      let index ← blockIndex (blockStart index block).data
      _) = _
    rw [hrefused]
    rfl
  have hname : (blockStart index block).event ≠ "message" := by simp [blockStart]
  simp only [anthropicSseParser, frame, writtenFrame, if_neg hname,
    fromStr_toText hp hshallow (by decide), hevents]

theorem writtenFrames_cons (packages : Packages) (frames : List AnthropicFrame) (f : AnthropicFrame)
    (more : List AnthropicFrame) :
    writtenFrames packages (frames ++ f :: more) =
      writtenFrames packages frames ++ writtenFrame packages f.event f.data ::
        writtenFrames packages more := by
  rw [writtenFrames, List.map_append, List.map_cons]
  rfl

theorem read_refused {packages : Packages} {r t : AnthropicSseParser} {frames : List AnthropicFrame}
    {f : AnthropicFrame} {events : List StreamEvent} {e : ErrorEnvelope}
    (h : Reads packages r frames events t)
    (hf : (anthropicSseParser packages).frame t (writtenFrame packages f.event f.data) = .error e)
    (more : List AnthropicFrame) :
    (anthropicSseParser packages).read r (writtenFrames packages (frames ++ f :: more)) =
      .error e := by
  rw [writtenFrames_cons, Dialect.read_append h.read, Dialect.read, Batching.call, hf]
  rfl

/-- A text after as many calls as there are block numbers opens a block that is refused. -/
theorem Shown.text_over {packages : Packages} (hp : packages.Lawful) {content : List StreamEvent}
    {s : AnthropicSseState} {frames : List AnthropicFrame} {events : List StreamEvent}
    (h : Shown packages content s frames events) (hcount : (blocksOf content).length = 2 ^ 32)
    (hnew : .text ∉ blocksOf content) (absorb : Usage → Usage → Usage) (choice : Nat)
    (text : String) (more : List StreamEvent) :
    (anthropicSseParser packages).read .start (writtenFrames packages
        (frames ++ (anthropicFrames absorb s (.delta choice text :: more)).2)) =
      .error (protocolError "the upstream content block index is invalid") := by
  have hindex : s.nextIndex = 2 ^ 32 := h.numbered.count.trans hcount
  have hnone : s.textIndex = none := by
    have hunknown : numberOf s .text = none := by
      rw [← Option.not_isSome_iff_eq_none, h.numbered.isSome_iff]
      exact hnew
    exact hunknown
  let block := Value.obj [("type", .string "text"), ("text", .string "")]
  have hblock : Shallow 3 block := shallow_texts [("type", "text"), ("text", "")]
  obtain ⟨announced, hstart⟩ : ∃ announced, Reads packages (reading s.nextIndex)
      s.ensureMessageStart.2 announced (reading s.nextIndex) := by
    unfold AnthropicSseState.ensureMessageStart
    split
    · exact ⟨[], .nil⟩
    · have hbill : Billable s.usage := by
        rw [h.numbered.usage]
        exact ⟨by decide, by decide, by decide⟩
      have hannounce := reads_announce (r := reading s.nextIndex) hp hbill rfl rfl
      have hzero : Messages.announced s.usage = WireUsage.default := by
        rw [h.numbered.usage]
        rfl
      rw [hzero] at hannounce
      exact ⟨_, hannounce⟩
  obtain ⟨rest, hrest⟩ : ∃ rest, (anthropicFrames absorb s (.delta choice text :: more)).2 =
      s.ensureMessageStart.2 ++ blockStart s.nextIndex block :: rest := by
    have hsame : s.ensureMessageStart.1.nextIndex = s.nextIndex := by
      unfold AnthropicSseState.ensureMessageStart
      split <;> rfl
    simp only [anthropicFrames, h.numbered.live, Bool.false_eq_true, if_false, Anthropic.renderEvent,
      AnthropicSseState.textBlock, hnone, AnthropicSseState.openBlock, hsame, List.append_assoc,
      List.cons_append, List.nil_append]
    exact ⟨_, rfl⟩
  rw [hrest, ← List.append_assoc]
  refine read_refused (h.reads.append hstart) ?_ rest
  rw [hindex]
  exact frame_index_over hp rfl (Nat.le_refl _) (by decide) hblock

/-- Calls in the first slots, each with an id and a name. -/
def manyCalls (n : Nat) : List StreamEvent :=
  (List.range n).map fun slot => .toolCallDelta slot (some "c") (some "f") "" none

theorem isContent_manyCalls (n : Nat) : IsContent (manyCalls n) := by
  induction n with
  | zero => exact isContent_nil
  | succ n ih =>
      rw [manyCalls, List.range_succ, List.map_append]
      exact isContent_snoc ih (.inr ⟨⟨"c", rfl, by decide⟩, "f", rfl⟩)

theorem blocksOf_manyCalls (n : Nat) : blocksOf (manyCalls n) = (List.range n).map .call := by
  induction n with
  | zero => rfl
  | succ n ih =>
      have hnew : BlockKey.call n ∉ (List.range n).map BlockKey.call := by simp
      have hsnoc : manyCalls (n + 1) =
          manyCalls n ++ [.toolCallDelta n (some "c") (some "f") "" none] := by
        rw [manyCalls, List.range_succ, List.map_append]
        rfl
      rw [hsnoc, blocksOf_snoc, ih, List.range_succ, List.map_append]
      simp [blockOf, hnew]

/-- A frame over the bound is refused when the frames before it are read. -/
theorem outcome_overlong {packages : Packages} (hp : packages.Lawful) {t : AnthropicSseParser}
    {frames more : List AnthropicFrame} {f : AnthropicFrame} {events : List StreamEvent}
    (h : Reads packages .start frames events t)
    (hlines : ∀ f ∈ frames, ("data: " ++ packages.toText f.data).utf8ByteSize ≤ maxSseSplitBytes)
    (hshallow : ∀ g ∈ f :: more, Shallow 8 g.data) (hnamed : ∀ g ∈ f :: more, g.event ∈ frameNames)
    (hlarge : maxSseSplitBytes < (packages.toText f.data).utf8ByteSize) :
    outcome ((anthropicSseParser packages).events
        [encode (writtenFrames packages (frames ++ f :: more))]) =
      .error (protocolError "the upstream sent a stream line or event over the size bound") := by
  obtain ⟨-, -, hshort⟩ := event_names (hnamed f List.mem_cons_self)
  have honeLined : ∀ frame ∈ writtenFrames packages (f :: more), frame.OneLined := by
    intro frame hframe
    obtain ⟨g, hg, rfl⟩ := List.mem_map.mp hframe
    exact oneLined_written hp (event_names (hnamed g hg)).1 (hshallow g hg).exact
  have hne : ∀ chunk ∈ [encode (writtenFrames packages (frames ++ f :: more))], chunk ≠ [] :=
    List.forall_mem_singleton.mpr (encode_ne_nil (by simp [writtenFrames]))
  have hflat : [encode (writtenFrames packages (frames ++ f :: more))].flatten =
      encode (writtenFrames packages frames ++ writtenFrame packages f.event f.data ::
        writtenFrames packages more) := by
    rw [List.flatten_singleton, writtenFrames_cons]
  exact Dialect.outcome_oversized (writable_reads hp h hlines) honeLined hshort hlarge hne hflat
    h.read

/-- The first frames of a text, and the frame that carries it. -/
def textOpening : List AnthropicFrame :=
  [messageStart (.new "model" "msg_1"),
    blockStart 0 (.obj [("type", .string "text"), ("text", .string "")])]

def textDelta (text : String) : AnthropicFrame :=
  blockDelta 0 (.obj [("type", .string "text_delta"), ("text", .string text)])

theorem reads_textOpening {packages : Packages} (hp : packages.Lawful) :
    Reads packages .start textOpening [.usage .default] (reading 1) := by
  have hannounce := @reads_announce packages .start hp (.new "model" "msg_1")
    ⟨by decide, by decide, by decide⟩ rfl rfl
  exact hannounce.append (@reads_blockStart packages 0 hp (by decide) _
    (shallow_texts [("type", "text"), ("text", "")]))

/-- A text over the bound of a line is rendered, and then refused. -/
theorem overlong_message :
    outcome ((anthropicSseParser .textual).events [encode (writtenFrames .textual
        (anthropicFrames Packages.textual.absorb (.new "model" "msg_1")
          (finishedStream [.delta 0 overlongText] .stop none (some spokenUsage) none none)).2)]) =
      .error (protocolError "the upstream sent a stream line or event over the size bound") := by
  have hcontent : IsContent [.delta 0 overlongText] :=
    @isContent_snoc _ (.delta 0 overlongText) isContent_nil trivial
  have hblocks : (blocksOf [.delta 0 overlongText]).length ≤ 2 ^ 32 := by
    change [BlockKey.text].eraseDups.length ≤ _
    decide
  obtain ⟨s, frames, events, hrender, hshown⟩ := shown_content lawful_textual "model" "msg_1"
    hcontent hblocks Packages.textual.absorb
  obtain ⟨announced, t, -, hreads, -⟩ := @Shown.ends _ _ _ _ _ lawful_textual
    Packages.textual.absorb (fun _ => rfl) hshown hblocks spokenUsage
    ⟨by decide, by decide, by decide⟩ .stop none (by decide) none none
  have hframes : frames = textOpening ++ [textDelta overlongText] :=
    (congrArg Prod.snd hrender).symm
  have hall : (anthropicFrames Packages.textual.absorb (.new "model" "msg_1")
      (finishedStream [.delta 0 overlongText] .stop none (some spokenUsage) none none)).2 =
        textOpening ++ textDelta overlongText :: (anthropicFrames Packages.textual.absorb s
          [.finish (some .stop) none, .usage spokenUsage, .done none none]).2 := by
    change (anthropicFrames Packages.textual.absorb _ ([.delta 0 overlongText] ++
      [.finish (some .stop) none, .usage spokenUsage, .done none none])).2 = _
    rw [anthropicFrames_append, hrender, hframes, List.append_assoc]
    rfl
  rw [hframes, List.append_assoc, List.singleton_append] at hreads
  rw [hall]
  have hholds : HoldsText overlongText (textDelta overlongText).data :=
    .field "delta" (w := .obj [("type", .string "text_delta"), ("text", .string overlongText)])
      (by simp [textDelta, blockDelta, lookup]) (.field "text" (by simp [lookup]) .here)
  have hexact := (hreads.shallow _ (List.mem_append_right _ List.mem_cons_self)).exact
  exact outcome_overlong lawful_textual (reads_textOpening lawful_textual) (by decide +kernel)
    (fun f hf => hreads.shallow f (List.mem_append_right _ hf))
    (fun f hf => hreads.named f (List.mem_append_right _ hf)) (overlong_size hholds hexact)

/-- A text over the bound of a line is refused, and so is a block over the last
number; a reason given at the end takes the place of the one before. -/
theorem messages_not_read_back :
    outcome ((anthropicSseParser .textual).events [encode (writtenFrames .textual
        (anthropicFrames Packages.textual.absorb (.new "model" "msg_1")
          (finishedStream [.delta 0 overlongText] .stop none (some spokenUsage) none none)).2)]) =
      .error (protocolError "the upstream sent a stream line or event over the size bound") ∧
    (IsContent (manyCalls (2 ^ 32) ++ [.delta 0 "a"]) ∧
      (anthropicSseParser .textual).read .start (writtenFrames .textual
          (anthropicFrames Packages.textual.absorb (.new "model" "msg_1")
            (finishedStream (manyCalls (2 ^ 32) ++ [.delta 0 "a"]) .stop none (some spokenUsage)
              none none)).2) =
        .error (protocolError "the upstream content block index is invalid")) ∧
    ∃ head, outcome ((anthropicSseParser .textual).events [encode (writtenFrames .textual
        (anthropicFrames Packages.textual.absorb (.new "model" "msg_1")
          (finishedStream [] .stop none (some spokenUsage) (some .length) none)).2)]) =
      .ok (head ++ [.finish (some .length) none, .usage (carriedUsage spokenUsage),
        .done none none]) := by
  refine ⟨overlong_message, ⟨isContent_snoc (isContent_manyCalls _) trivial, ?_⟩, ?_⟩
  · have hlength : (blocksOf (manyCalls (2 ^ 32))).length = 2 ^ 32 := by
      rw [blocksOf_manyCalls, List.length_map, List.length_range]
    obtain ⟨s, frames, events, hrender, hshown⟩ := shown_content lawful_textual "model" "msg_1"
      (isContent_manyCalls (2 ^ 32)) hlength.le Packages.textual.absorb
    have hrefused := hshown.text_over lawful_textual hlength (by simp [blocksOf_manyCalls])
      Packages.textual.absorb 0 "a" [.finish (some .stop) none, .usage spokenUsage, .done none none]
    rw [finishedStream, List.append_assoc, anthropicFrames_append, hrender]
    exact hrefused
  · obtain ⟨announced, t, -, hreads, hend⟩ := @Shown.ends _ _ _ _ _ lawful_textual
      Packages.textual.absorb (fun _ => rfl) (.nothing "model" "msg_1") (by simp [blocksOf])
      spokenUsage ⟨by decide, by decide, by decide⟩ .stop (some .length) (by decide) none none
    have hclose : (anthropicSseParser .textual).close t = .ok ([], t.endOfStream.2) :=
      congrArg Except.ok (Prod.ext hend rfl)
    rw [List.nil_append] at hreads
    refine ⟨announced, ?_⟩
    rw [show finishedStream [] .stop none (some spokenUsage) (some .length) none =
      [.finish (some .stop) none, .usage spokenUsage, .done (some .length) none] from rfl]
    rw [Dialect.outcome_encode (writable_reads lawful_textual hreads (by decide +kernel)) ?_
      List.flatten_singleton hreads.read hclose, List.append_nil, List.nil_append]
    · rfl
    · have hnumbered := (@Shown.nothing .textual "model" "msg_1").numbered
      have hframes := @frames_end _ _ Packages.textual.absorb (fun _ => rfl) hnumbered .stop none
        spokenUsage (some .length) none
      exact List.forall_mem_singleton.mpr (encode_ne_nil (by simp [writtenFrames, hframes]))

end Messages

end TokenStation.Provider
