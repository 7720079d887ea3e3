import TokenStation.Anthropic.Stream

/-!
# Stream bracketing

What a client relies on when it reads the frames between two `message_stop`s:
the message is announced once and first, blocks are numbered in the order they
open, deltas name open blocks, and a closed message has stopped each of them.
-/

namespace TokenStation.Anthropic

open Library Library.Json Responses

/-! ## Reading frames -/

/-- The block a frame names. -/
def AnthropicFrame.index (f : AnthropicFrame) : Option Nat := (f.data.field "index").asU64

/-- Frames about one content block. -/
def AnthropicFrame.isBlock (f : AnthropicFrame) : Bool :=
  f.event == "content_block_start" || f.event == "content_block_delta" ||
    f.event == "content_block_stop"

/-- The blocks named by the frames of one kind, in frame order. -/
def named (event : String) (m : List AnthropicFrame) : List (Option Nat) :=
  (m.filter (·.event == event)).map (·.index)

/-- The blocks started. -/
def started (m : List AnthropicFrame) : List (Option Nat) := named "content_block_start" m

/-- The blocks stopped. -/
def stopped (m : List AnthropicFrame) : List (Option Nat) := named "content_block_stop" m

/-- The messages of a stream: the frames before, between and after its `message_stop`s. -/
def messages (frames : List AnthropicFrame) : List (List AnthropicFrame) :=
  frames.splitOnP (·.event == "message_stop")

/-- How the frames of one message, closed or not, are bracketed. -/
structure Bracketed (m : List AnthropicFrame) : Prop where
  announcedOnce : m.countP (·.event == "message_start") ≤ 1
  announcedFirst : ∀ before f, before ++ [f] <+: m → f.isBlock = true →
    ∃ g ∈ before, g.event = "message_start"
  numbered : started m = (List.range (started m).length).map some
  deltasOpen : ∀ before f, before ++ [f] <+: m → f.event = "content_block_delta" →
    ∃ i, f.index = some i ∧ some i ∈ started before ∧ some i ∉ stopped before

/-- A message that its `message_stop` follows: the last frame is the
`message_delta`, and each started block was stopped once. -/
structure Closed (m : List AnthropicFrame) : Prop where
  terminal : ∃ body f, m = body ++ [f] ∧ f.event = "message_delta"
  stops : (stopped m).Perm (started m)

/-! ## Appending frames -/

@[simp] theorem named_append (event : String) (m n : List AnthropicFrame) :
    named event (m ++ n) = named event m ++ named event n := by
  simp [named]

@[simp] theorem started_append (m n : List AnthropicFrame) :
    started (m ++ n) = started m ++ started n := named_append _ m n

@[simp] theorem stopped_append (m n : List AnthropicFrame) :
    stopped (m ++ n) = stopped m ++ stopped n := named_append _ m n

theorem named_single_ne {event : String} {f : AnthropicFrame} (h : f.event ≠ event) :
    named event [f] = [] := by
  simp [named, h]

theorem named_single {event : String} {f : AnthropicFrame} (h : f.event = event) :
    named event [f] = [f.index] := by
  simp [named, h]

theorem bracketed_nil : Bracketed [] where
  announcedOnce := by simp
  announcedFirst := by simp
  numbered := by simp [started, named]
  deltasOpen := by simp

/-- A prefix of an extended list is the whole list or a prefix of the shorter one. -/
theorem snoc_prefix_snoc {before m : List AnthropicFrame} {f g : AnthropicFrame} :
    before ++ [f] <+: m ++ [g] ↔ before = m ∧ f = g ∨ before ++ [f] <+: m := by
  rw [List.prefix_concat_iff]
  simp

/-- One more frame keeps the brackets when it is allowed where it stands. -/
theorem Bracketed.snoc {m : List AnthropicFrame} {f : AnthropicFrame} (h : Bracketed m)
    (hannounce : f.event = "message_start" → m.countP (·.event == "message_start") = 0)
    (hblock : f.isBlock = true → ∃ g ∈ m, g.event = "message_start")
    (hstart : f.event = "content_block_start" → f.index = some (started m).length)
    (hdelta : f.event = "content_block_delta" →
      ∃ i, f.index = some i ∧ some i ∈ started m ∧ some i ∉ stopped m) :
    Bracketed (m ++ [f]) where
  announcedOnce := by
    have honce := h.announcedOnce
    by_cases hf : f.event = "message_start"
    · simp [hannounce hf, hf]
    · simpa [hf] using honce
  announcedFirst before g hp hg := by
    rcases snoc_prefix_snoc.mp hp with ⟨rfl, rfl⟩ | hp
    · exact hblock hg
    · exact h.announcedFirst before g hp hg
  numbered := by
    have hnumbered := h.numbered
    by_cases hf : f.event = "content_block_start"
    · have hf' : started [f] = [some (started m).length] := by
        rw [started, named_single hf, hstart hf]
      rw [started_append, hf', List.length_append, List.length_singleton, List.range_succ,
        List.map_append, ← hnumbered]
      rfl
    · have hf' : started [f] = [] := named_single_ne hf
      rw [started_append, hf', List.append_nil]
      exact hnumbered
  deltasOpen before g hp hg := by
    rcases snoc_prefix_snoc.mp hp with ⟨rfl, rfl⟩ | hp
    · exact hdelta hg
    · exact h.deltasOpen before g hp hg

/-- Stops of announced blocks keep the brackets. -/
theorem Bracketed.stops {m : List AnthropicFrame} (h : Bracketed m)
    (hannounced : ∃ g ∈ m, g.event = "message_start") (indexes : List Nat) :
    Bracketed (m ++ indexes.map blockStop) := by
  induction indexes using List.reverseRecOn with
  | nil => simpa using h
  | append_singleton indexes index ih =>
      rw [List.map_append, ← List.append_assoc]
      obtain ⟨g, hg, hevent⟩ := hannounced
      refine ih.snoc ?_ (fun _ => ⟨g, by simp [hg], hevent⟩) ?_ ?_ <;> simp [blockStop]

/-! ## A message under construction -/

/-- The message the state is rendering, before its terminal frames. -/
structure Running (messageStarted : Bool) (nextIndex : Nat) (m : List AnthropicFrame) :
    Prop where
  bracketed : Bracketed m
  announced : messageStarted = true → ∃ g ∈ m, g.event = "message_start"
  silent : messageStarted = false → m = []
  started_eq : started m = (List.range nextIndex).map some
  stopped_eq : stopped m = []
  live : ∀ f ∈ m, f.event ≠ "message_stop" ∧ f.event ≠ "error"

theorem running_nil : Running false 0 [] where
  bracketed := bracketed_nil
  announced h := by cases h
  silent _ := rfl
  started_eq := rfl
  stopped_eq := rfl
  live := by simp

theorem Running.started_length {b : Bool} {n : Nat} {m : List AnthropicFrame}
    (h : Running b n m) : (started m).length = n := by
  rw [h.started_eq]
  simp

/-- Announcing the message opens it. -/
theorem Running.announce {n : Nat} {m : List AnthropicFrame} (h : Running false n m)
    (s : AnthropicSseState) : Running true n (m ++ [messageStart s]) := by
  have hm := h.silent rfl
  subst hm
  have hn := h.started_length
  obtain rfl : n = 0 := by simpa [started, named] using hn.symm
  refine ⟨?_, ?_, ?_, rfl, rfl, ?_⟩
  · refine bracketed_nil.snoc ?_ ?_ ?_ ?_ <;> simp [messageStart, AnthropicFrame.isBlock]
  · simp [messageStart]
  · simp
  · simp [messageStart]

/-- The next block starts under the next number. -/
theorem Running.startBlock {n : Nat} {m : List AnthropicFrame} (h : Running true n m)
    (contentBlock : Value) : Running true (n + 1) (m ++ [blockStart n contentBlock]) := by
  have hindex : (blockStart n contentBlock).index = some n := by
    simp [blockStart, AnthropicFrame.index, Value.field, lookup]
  refine ⟨?_, ?_, by simp, ?_, ?_, ?_⟩
  · refine h.bracketed.snoc ?_ (fun _ => h.announced rfl) ?_ ?_
    · simp [blockStart]
    · intro _
      rw [hindex, h.started_length]
    · simp [blockStart]
  · intro _
    obtain ⟨g, hg, hevent⟩ := h.announced rfl
    exact ⟨g, by simp [hg], hevent⟩
  · have hf : started [blockStart n contentBlock] = [(blockStart n contentBlock).index] :=
      named_single rfl
    rw [hindex] at hf
    rw [started_append, h.started_eq, hf, List.range_succ, List.map_append]
    rfl
  · rw [stopped_append, h.stopped_eq]
    exact named_single_ne (by simp [blockStart])
  · intro f hf
    rcases List.mem_append.mp hf with hf | hf
    · exact h.live f hf
    · obtain rfl := List.mem_singleton.mp hf
      simp [blockStart]

/-- A delta for a started block. -/
theorem Running.delta {n : Nat} {m : List AnthropicFrame} (h : Running true n m) {i : Nat}
    (hi : i < n) (delta : Value) : Running true n (m ++ [blockDelta i delta]) := by
  have hindex : (blockDelta i delta).index = some i := by
    simp [blockDelta, AnthropicFrame.index, Value.field, lookup]
  refine ⟨?_, ?_, by simp, ?_, ?_, ?_⟩
  · refine h.bracketed.snoc ?_ (fun _ => h.announced rfl) ?_ ?_
    · simp [blockDelta]
    · simp [blockDelta]
    · intro _
      refine ⟨i, hindex, ?_, ?_⟩
      · rw [h.started_eq]
        simpa using hi
      · simp [h.stopped_eq]
  · intro _
    obtain ⟨g, hg, hevent⟩ := h.announced rfl
    exact ⟨g, by simp [hg], hevent⟩
  · rw [started_append, h.started_eq]
    simp [started, named_single_ne, blockDelta]
  · rw [stopped_append, h.stopped_eq]
    exact named_single_ne (by simp [blockDelta])
  · intro f hf
    rcases List.mem_append.mp hf with hf | hf
    · exact h.live f hf
    · obtain rfl := List.mem_singleton.mp hf
      simp [blockDelta]

/-! ## States -/

/-- The state agrees with the frames of its message: what it counts as started
is started, and each started block is held open under one name. -/
structure Rendering (s : AnthropicSseState) (m : List AnthropicFrame) : Prop where
  active : s.terminated = false
  running : Running s.messageStarted s.nextIndex m
  held : s.openBlocks.Perm (List.range s.nextIndex)

theorem rendering_new (model messageId : String) : Rendering (.new model messageId) [] :=
  ⟨rfl, running_nil, by simp [AnthropicSseState.openBlocks, AnthropicSseState.new]⟩

theorem Rendering.lt_next {s : AnthropicSseState} {m : List AnthropicFrame} (h : Rendering s m)
    {i : Nat} (hi : i ∈ s.openBlocks) : i < s.nextIndex :=
  List.mem_range.mp (h.held.mem_iff.mp hi)

/-- A state is announced as soon as it holds a block. -/
theorem Rendering.started_of_held {s : AnthropicSseState} {m : List AnthropicFrame}
    (h : Rendering s m) {i : Nat} (hi : i ∈ s.openBlocks) : s.messageStarted = true := by
  by_contra hne
  have hm := h.running.silent (by simpa using hne)
  have hlength := h.running.started_length
  rw [hm] at hlength
  have hlt := h.lt_next hi
  simp [started, named] at hlength
  omega

/-- A delta to a held block. -/
theorem Rendering.delta {s : AnthropicSseState} {m : List AnthropicFrame} (h : Rendering s m)
    {i : Nat} (hi : i ∈ s.openBlocks) (delta : Value) :
    Rendering s (m ++ [blockDelta i delta]) := by
  have hrunning := h.running
  rw [h.started_of_held hi] at hrunning
  refine ⟨h.active, ?_, h.held⟩
  rw [h.started_of_held hi]
  exact hrunning.delta (h.lt_next hi) delta

theorem rendering_ensureMessageStart {s : AnthropicSseState} {m : List AnthropicFrame}
    (h : Rendering s m) :
    Rendering s.ensureMessageStart.1 (m ++ s.ensureMessageStart.2) ∧
      s.ensureMessageStart.1.messageStarted = true := by
  unfold AnthropicSseState.ensureMessageStart
  cases hs : s.messageStarted with
  | true => simpa [hs] using h
  | false =>
      have hrunning := h.running
      rw [hs] at hrunning
      exact ⟨⟨h.active, hrunning.announce s, h.held⟩, rfl⟩

/-- Opening a block starts it under the next number; whoever holds it then
makes the state agree with its frames again. -/
theorem rendering_openBlock {s t : AnthropicSseState} {m : List AnthropicFrame}
    (h : Rendering s m) {contentBlock : Value} {index : Nat} {frames : List AnthropicFrame}
    (hopen : s.openBlock contentBlock = (index, t, frames)) {u : AnthropicSseState}
    (hactive : u.terminated = t.terminated) (hstarted : u.messageStarted = t.messageStarted)
    (hnext : u.nextIndex = t.nextIndex) (hheld : u.openBlocks.Perm (index :: t.openBlocks)) :
    Rendering u (m ++ frames) := by
  obtain ⟨hensured, hannounced⟩ := rendering_ensureMessageStart h
  simp only [AnthropicSseState.openBlock, Prod.mk.injEq] at hopen
  obtain ⟨rfl, rfl, rfl⟩ := hopen
  have hrunning := hensured.running
  rw [hannounced] at hrunning
  refine ⟨hactive.trans hensured.active, ?_, ?_⟩
  · rw [hstarted, hnext, ← List.append_assoc]
    exact hannounced ▸ hrunning.startBlock contentBlock
  · rw [hnext, List.range_succ]
    exact hheld.trans ((hensured.held.cons _).trans (List.perm_append_singleton _ _).symm)

theorem openBlock_fields {s t : AnthropicSseState} {contentBlock : Value} {index : Nat}
    {frames : List AnthropicFrame} (hopen : s.openBlock contentBlock = (index, t, frames)) :
    t.thinkingIndex = s.thinkingIndex ∧ t.textIndex = s.textIndex ∧
      t.toolBlocks = s.toolBlocks := by
  simp only [AnthropicSseState.openBlock, Prod.mk.injEq] at hopen
  obtain ⟨-, rfl, -⟩ := hopen
  unfold AnthropicSseState.ensureMessageStart
  split <;> exact ⟨rfl, rfl, rfl⟩

theorem openBlocks_thinking {t : AnthropicSseState} (h : t.thinkingIndex = none) (index : Nat) :
    ({ t with thinkingIndex := some index } : AnthropicSseState).openBlocks =
      index :: t.openBlocks := by
  simp [AnthropicSseState.openBlocks, h]

theorem openBlocks_text {t : AnthropicSseState} (h : t.textIndex = none) (index : Nat) :
    (({ t with textIndex := some index } : AnthropicSseState).openBlocks).Perm
      (index :: t.openBlocks) := by
  simp only [AnthropicSseState.openBlocks, h, Option.toList_some, Option.toList_none,
    List.append_nil, List.append_assoc, List.singleton_append]
  exact List.perm_middle

theorem openBlocks_tool {t : AnthropicSseState} {slot : Nat} (h : lookup slot t.toolBlocks = none)
    (index : Nat) :
    (({ t with toolBlocks := insertEntry slot index t.toolBlocks } :
      AnthropicSseState).openBlocks).Perm (index :: t.openBlocks) := by
  have hvalues := (insertEntry_perm h index).map Prod.snd
  simp only [AnthropicSseState.openBlocks]
  exact (hvalues.append_left _).trans List.perm_middle

/-- Reaching for the thinking block, opened or not. -/
theorem rendering_thinkingBlock {s t : AnthropicSseState} {m : List AnthropicFrame}
    (h : Rendering s m) {index : Nat} {frames : List AnthropicFrame}
    (hblock : s.thinkingBlock = (index, t, frames)) :
    Rendering t (m ++ frames) ∧ index ∈ t.openBlocks := by
  unfold AnthropicSseState.thinkingBlock at hblock
  cases hindex : s.thinkingIndex with
  | some i =>
      simp only [hindex, Prod.mk.injEq] at hblock
      obtain ⟨rfl, rfl, rfl⟩ := hblock
      exact ⟨by simpa using h, by simp [AnthropicSseState.openBlocks, hindex]⟩
  | none =>
      simp only [hindex] at hblock
      obtain ⟨i, u, fs, hopen⟩ : ∃ i u fs, s.openBlock (.obj [("type", .string "thinking"),
          ("thinking", .string "")]) = (i, u, fs) := ⟨_, _, _, rfl⟩
      rw [hopen] at hblock
      simp only [Prod.mk.injEq] at hblock
      obtain ⟨rfl, rfl, rfl⟩ := hblock
      have hnone := (openBlock_fields hopen).1.trans hindex
      refine ⟨rendering_openBlock h hopen rfl rfl rfl ?_, ?_⟩
      · rw [openBlocks_thinking hnone]
      · simp [AnthropicSseState.openBlocks]

/-- Reaching for the text block, opened or not. -/
theorem rendering_textBlock {s t : AnthropicSseState} {m : List AnthropicFrame}
    (h : Rendering s m) {index : Nat} {frames : List AnthropicFrame}
    (hblock : s.textBlock = (index, t, frames)) :
    Rendering t (m ++ frames) ∧ index ∈ t.openBlocks := by
  unfold AnthropicSseState.textBlock at hblock
  cases hindex : s.textIndex with
  | some i =>
      simp only [hindex, Prod.mk.injEq] at hblock
      obtain ⟨rfl, rfl, rfl⟩ := hblock
      exact ⟨by simpa using h, by simp [AnthropicSseState.openBlocks, hindex]⟩
  | none =>
      simp only [hindex] at hblock
      obtain ⟨i, u, fs, hopen⟩ : ∃ i u fs, s.openBlock (.obj [("type", .string "text"),
          ("text", .string "")]) = (i, u, fs) := ⟨_, _, _, rfl⟩
      rw [hopen] at hblock
      simp only [Prod.mk.injEq] at hblock
      obtain ⟨rfl, rfl, rfl⟩ := hblock
      have hnone := (openBlock_fields hopen).2.1.trans hindex
      exact ⟨rendering_openBlock h hopen rfl rfl rfl (openBlocks_text hnone i),
        by simp [AnthropicSseState.openBlocks]⟩

/-- Reaching for a tool slot's block, opened or not. -/
theorem rendering_toolBlock {s t : AnthropicSseState} {m : List AnthropicFrame}
    (h : Rendering s m) {slot : Nat} {id name : Option String} {index : Nat}
    {frames : List AnthropicFrame} (hblock : s.toolBlock slot id name = (index, t, frames)) :
    Rendering t (m ++ frames) ∧ index ∈ t.openBlocks := by
  unfold AnthropicSseState.toolBlock at hblock
  cases hindex : lookup slot s.toolBlocks with
  | some i =>
      simp only [hindex, Prod.mk.injEq] at hblock
      obtain ⟨rfl, rfl, rfl⟩ := hblock
      have hmem := List.mem_map_of_mem (f := Prod.snd) (mem_of_lookup hindex)
      exact ⟨by simpa using h, List.mem_append_right _ hmem⟩
  | none =>
      simp only [hindex] at hblock
      obtain ⟨i, u, fs, hopen⟩ : ∃ i u fs, s.openBlock (.obj [("type", .string "tool_use"),
          ("id", .string (id.getD s.derivedToolId)),
          ("name", (name.map Value.string).getD .null), ("input", .obj [])]) = (i, u, fs) :=
        ⟨_, _, _, rfl⟩
      rw [hopen] at hblock
      simp only [Prod.mk.injEq] at hblock
      obtain ⟨rfl, rfl, rfl⟩ := hblock
      have hnone : lookup slot u.toolBlocks = none := by
        rw [(openBlock_fields hopen).2.2, hindex]
      have hheld := openBlocks_tool hnone i
      exact ⟨rendering_openBlock h hopen rfl rfl rfl hheld,
        hheld.mem_iff.mpr List.mem_cons_self⟩

/-! ## Events -/

theorem stopped_blockStop (indexes : List Nat) :
    stopped (indexes.map blockStop) = indexes.map some := by
  induction indexes with
  | nil => rfl
  | cons index indexes ih =>
      have hindex : stopped [blockStop index] = [some index] := by
        simp [stopped, named, blockStop, AnthropicFrame.index, Value.field, lookup]
      rw [List.map_cons, ← List.singleton_append, stopped_append, ih, hindex]
      rfl

/-- Stopping every block and a `message_delta` close the message. -/
theorem Running.close {n : Nat} {m : List AnthropicFrame} (h : Running true n m)
    {indexes : List Nat} (hheld : indexes.Perm (List.range n)) {f : AnthropicFrame}
    (hf : f.event = "message_delta") :
    Bracketed (m ++ indexes.map blockStop ++ [f]) ∧
      Closed (m ++ indexes.map blockStop ++ [f]) ∧
      ∀ g ∈ m ++ indexes.map blockStop ++ [f],
        g.event ≠ "message_stop" ∧ g.event ≠ "error" := by
  have hstops := h.bracketed.stops (h.announced rfl) indexes
  refine ⟨?_, ⟨⟨_, f, rfl, hf⟩, ?_⟩, ?_⟩
  · refine hstops.snoc ?_ ?_ ?_ ?_ <;> simp [hf, AnthropicFrame.isBlock]
  · have hstart : started (indexes.map blockStop) = [] := by
      simp [started, named, blockStop]
    have hstarted : started [f] = [] := named_single_ne (by simp [hf])
    have hstopped : stopped [f] = [] := named_single_ne (by simp [hf])
    rw [stopped_append, stopped_append, started_append, started_append, h.stopped_eq,
      h.started_eq, stopped_blockStop, hstart, hstarted, hstopped]
    simpa using hheld.map some
  · intro g hg
    simp only [List.mem_append, List.mem_map, List.mem_singleton] at hg
    rcases hg with (hg | ⟨i, -, rfl⟩) | rfl
    · exact h.live g hg
    · simp [blockStop]
    · simp [hf]

/-- The terminal frames close the message. -/
theorem closed_renderDone {s t : AnthropicSseState} {m : List AnthropicFrame}
    (h : Rendering s m) {finishReason : Option FinishReason} {stopSequence : Option String}
    {frames : List AnthropicFrame} (hdone : renderDone s finishReason stopSequence = (t, frames)) :
    ∃ last, frames = last ++ [messageStop] ∧ Bracketed (m ++ last) ∧ Closed (m ++ last) ∧
      (∀ f ∈ m ++ last, f.event ≠ "message_stop" ∧ f.event ≠ "error") ∧ Rendering t [] := by
  obtain ⟨hensured, hannounced⟩ := rendering_ensureMessageStart h
  simp only [renderDone, AnthropicSseState.closeOpenBlocks, Prod.mk.injEq] at hdone
  obtain ⟨rfl, rfl⟩ := hdone
  generalize hf : messageDelta _ _ s.ensureMessageStart.1.usage = f
  have hevent : f.event = "message_delta" := by
    rw [← hf]
    rfl
  have hrunning := hensured.running
  rw [hannounced] at hrunning
  obtain ⟨hbracketed, hclosed, hlive⟩ := hrunning.close hensured.held hevent
  refine ⟨s.ensureMessageStart.2 ++ s.ensureMessageStart.1.openBlocks.map blockStop ++ [f],
    by simp, ?_⟩
  rw [← List.append_assoc, ← List.append_assoc]
  exact ⟨hbracketed, hclosed, hlive, rendering_new _ _⟩

/-- Every event other than `Done` and `Error` goes on with the message. -/
theorem rendering_renderEvent {absorb : Usage → Usage → Usage} {s t : AnthropicSseState}
    {m : List AnthropicFrame} (h : Rendering s m) {event : StreamEvent}
    (hcontent : event.isContent = true) {frames : List AnthropicFrame}
    (hevent : renderEvent absorb s event = (t, frames)) : Rendering t (m ++ frames) := by
  cases event with
  | thinkingDelta =>
      obtain ⟨i, u, fs, hblock⟩ : ∃ i u fs, s.thinkingBlock = (i, u, fs) := ⟨_, _, _, rfl⟩
      simp only [renderEvent, hblock, Prod.mk.injEq] at hevent
      obtain ⟨rfl, rfl⟩ := hevent
      obtain ⟨hu, hi⟩ := rendering_thinkingBlock h hblock
      rw [← List.append_assoc]
      exact hu.delta hi _
  | delta =>
      obtain ⟨i, u, fs, hblock⟩ : ∃ i u fs, s.textBlock = (i, u, fs) := ⟨_, _, _, rfl⟩
      simp only [renderEvent, hblock, Prod.mk.injEq] at hevent
      obtain ⟨rfl, rfl⟩ := hevent
      obtain ⟨hu, hi⟩ := rendering_textBlock h hblock
      rw [← List.append_assoc]
      exact hu.delta hi _
  | toolCallDelta slot id name argumentsDelta =>
      obtain ⟨i, u, fs, hblock⟩ : ∃ i u fs, s.toolBlock slot id name = (i, u, fs) :=
        ⟨_, _, _, rfl⟩
      obtain ⟨hu, hi⟩ := rendering_toolBlock h hblock
      simp only [renderEvent, hblock] at hevent
      split at hevent
      · cases hevent
        exact hu
      · cases hevent
        rw [← List.append_assoc]
        exact hu.delta hi _
  | thinkingSignatureDelta =>
      simp only [renderEvent] at hevent
      cases hindex : s.thinkingIndex with
      | some i =>
          simp only [hindex, Prod.mk.injEq] at hevent
          obtain ⟨rfl, rfl⟩ := hevent
          exact h.delta (by simp [AnthropicSseState.openBlocks, hindex]) _
      | none =>
          simp only [hindex, Prod.mk.injEq] at hevent
          obtain ⟨rfl, rfl⟩ := hevent
          simpa using h
  | redactedThinking =>
      cases hevent
      simpa using h
  | usage =>
      cases hevent
      rw [List.append_nil]
      exact ⟨h.active, h.running, h.held⟩
  | finish =>
      cases hevent
      rw [List.append_nil]
      exact ⟨h.active, h.running, h.held⟩
  | done => cases hcontent
  | error => cases hcontent

/-! ## Runs -/

/-- What holds of all frames of a stream. -/
structure WellFormed (frames : List AnthropicFrame) : Prop where
  bracketed : ∀ m ∈ messages frames, Bracketed m
  closed : ∀ m ∈ (messages frames).dropLast, Closed m
  errorLast : ∀ f ∈ frames.dropLast, f.event ≠ "error"

/-- Frames without a `message_stop` are one message. -/
theorem messages_of_live {m : List AnthropicFrame} (h : ∀ f ∈ m, f.event ≠ "message_stop") :
    messages m = [m] :=
  List.splitOnP_eq_singleton fun f hf => by simpa using h f hf

/-- A message and its `message_stop` are split off. -/
theorem messages_closed {m rest : List AnthropicFrame} (h : ∀ f ∈ m, f.event ≠ "message_stop") :
    messages (m ++ messageStop :: rest) = m :: messages rest :=
  List.splitOnP_append_cons_of_forall_mem (fun f hf => by simpa using h f hf) _ (by rfl) _

/-- Frames of one message that no `message_stop` follows. -/
theorem wellFormed_live {m : List AnthropicFrame} (hm : Bracketed m)
    (hstop : ∀ f ∈ m, f.event ≠ "message_stop") (herror : ∀ f ∈ m.dropLast, f.event ≠ "error") :
    WellFormed m := by
  have hmessages := messages_of_live hstop
  refine ⟨?_, ?_, herror⟩
  · rw [hmessages]
    simpa using hm
  · rw [hmessages]
    simp

/-- A closed message before well-formed frames. -/
theorem WellFormed.cons {m rest : List AnthropicFrame} (h : WellFormed rest)
    (hm : Bracketed m) (hclosed : Closed m)
    (hlive : ∀ f ∈ m, f.event ≠ "message_stop" ∧ f.event ≠ "error") :
    WellFormed (m ++ messageStop :: rest) := by
  have hmessages : messages (m ++ messageStop :: rest) = m :: messages rest :=
    messages_closed fun f hf => (hlive f hf).1
  refine ⟨?_, ?_, ?_⟩
  · rw [hmessages]
    simpa using ⟨hm, h.bracketed⟩
  · have hne : messages rest ≠ [] := List.splitOnP_ne_nil _ _
    rw [hmessages, List.dropLast_cons_of_ne_nil hne]
    simpa using ⟨hclosed, h.closed⟩
  · rw [List.dropLast_append_cons]
    intro f hf
    rcases List.mem_append.mp hf with hf | hf
    · exact (hlive f hf).2
    · cases rest with
      | nil => cases hf
      | cons g rest =>
          rw [List.dropLast_cons_cons] at hf
          rcases List.mem_cons.mp hf with rfl | hf
          · simp [messageStop]
          · exact h.errorLast f hf

/-- The frames of a run, with those its message already has, are well formed. -/
theorem wellFormed_anthropicFrames (absorb : Usage → Usage → Usage) (events : List StreamEvent)
    {s : AnthropicSseState} {m : List AnthropicFrame} (h : Rendering s m) :
    WellFormed (m ++ (anthropicFrames absorb s events).2) := by
  induction events generalizing s m with
  | nil =>
      rw [anthropicFrames, List.append_nil]
      exact wellFormed_live h.running.bracketed (fun f hf => (h.running.live f hf).1)
        fun f hf => (h.running.live f (List.dropLast_subset m hf)).2
  | cons event events ih =>
      obtain ⟨t, frames, hevent⟩ : ∃ t frames, renderEvent absorb s event = (t, frames) :=
        ⟨_, _, rfl⟩
      have hrun : (anthropicFrames absorb s (event :: events)).2 =
          frames ++ (anthropicFrames absorb t events).2 := by
        simp [anthropicFrames, h.active, hevent]
      rw [hrun]
      by_cases hcontent : event.isContent = true
      · rw [← List.append_assoc]
        exact ih (rendering_renderEvent h hcontent hevent)
      · cases event with
        | done =>
            obtain ⟨last, rfl, hbracketed, hclosed, hlive, ht⟩ := closed_renderDone h hevent
            have hrest := ih ht
            rw [List.nil_append] at hrest
            have := hrest.cons hbracketed hclosed hlive
            simpa using this
        | error =>
            cases hevent
            rw [anthropicFrames_terminated absorb rfl, List.append_nil]
            refine wellFormed_live (h.running.bracketed.snoc ?_ ?_ ?_ ?_) ?_ ?_
            · simp [errorFrame]
            · simp [errorFrame, AnthropicFrame.isBlock]
            · simp [errorFrame]
            · simp [errorFrame]
            · intro f hf
              rcases List.mem_append.mp hf with hf | hf
              · exact (h.running.live f hf).1
              · obtain rfl := List.mem_singleton.mp hf
                simp [errorFrame]
            · rw [List.dropLast_concat]
              exact fun f hf => (h.running.live f hf).2
        | _ => exact absurd rfl hcontent

/-- The frames of a stream are bracketed, whatever the events and however they
are batched. -/
theorem anthropic_stream_bracketed (absorb : Usage → Usage → Usage) (model messageId : String)
    (batches : List (List StreamEvent)) :
    WellFormed (anthropicCalls absorb (.new model messageId) batches).2.flatten := by
  have hrun := wellFormed_anthropicFrames absorb batches.flatten (rendering_new model messageId)
  rw [List.nil_append, ← anthropicCalls_flatten] at hrun
  exact hrun

end TokenStation.Anthropic
