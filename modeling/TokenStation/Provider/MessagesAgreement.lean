import TokenStation.Library.Gathering
import TokenStation.Provider.MessagesReading
import TokenStation.Provider.TerminalFrames
import TokenStation.Responses.Assembly

/-!
# Messages streams read back

The renderer numbers the blocks in the order in which their text, thinking or
call first appears, and keeps all of them open to the end. The parser reads
what was rendered as a stream that assembles to the same answer.
-/

namespace TokenStation.Provider

open Library Library.Gathering Library.Json Library.Text Responses Sse Anthropic

namespace Messages

/-! ## Content -/

/-- The blocks of a message. -/
inductive BlockKey where
  | thinking
  | text
  | call (slot : Nat)
deriving DecidableEq

/-- The block an event opens when it comes first. -/
def blockOf : StreamEvent → Option BlockKey
  | .thinkingDelta _ _ _ => some .thinking
  | .delta _ _ => some .text
  | .toolCallDelta slot _ _ _ _ => some (.call slot)
  | _ => none

/-- The blocks of a stream, in order of first appearance. -/
def blocksOf (content : List StreamEvent) : List BlockKey := (content.filterMap blockOf).eraseDups

/-- What may come after these events: a signature after thinking, and the first
fragment of a call with its id and name. -/
def MayFollow (before : List StreamEvent) : StreamEvent → Prop
  | .delta _ _ | .thinkingDelta _ _ _ => True
  | .thinkingSignatureDelta _ _ _ => .thinking ∈ blocksOf before
  | .toolCallDelta slot id name _ _ =>
      .call slot ∈ blocksOf before ∨ (∃ i, id = some i ∧ i ≠ "") ∧ ∃ n, name = some n
  | _ => False

/-- Text, thinking, signatures and calls as the wire takes them. -/
def IsContent (content : List StreamEvent) : Prop :=
  ∀ before event, before ++ [event] <+: content → MayFollow before event

theorem blocksOf_snoc (content : List StreamEvent) (event : StreamEvent) :
    blocksOf (content ++ [event]) = blocksOf content ++
      match blockOf event with
      | none => []
      | some key => if key ∈ blocksOf content then [] else [key] := by
  unfold blocksOf
  rw [List.filterMap_append]
  cases h : blockOf event with
  | none => simp [h]
  | some key =>
      simp only [List.filterMap_cons, h, List.filterMap_nil, eraseDups_snoc, List.mem_eraseDups]

/-- The number of a block, once it is open. -/
def numberOf (s : AnthropicSseState) : BlockKey → Option Nat
  | .thinking => s.thinkingIndex
  | .text => s.textIndex
  | .call slot => lookup slot s.toolBlocks

/-! ## Numbering -/

/-- The blocks of the content are numbered and open, and nothing is pending. -/
structure Numbered (content : List StreamEvent) (s : AnthropicSseState) : Prop where
  live : s.terminated = false
  usage : s.usage = .default
  reason : s.pendingFinishReason = none
  sequence : s.pendingStopSequence = none
  count : s.nextIndex = (blocksOf content).length
  numbers : ∀ key, numberOf s key = (blocksOf content).idxOf? key
  opened : s.openBlocks.Perm (List.range s.nextIndex)

section

variable {content : List StreamEvent} {s : AnthropicSseState} {key : BlockKey} {index : Nat}

theorem Numbered.isSome_iff (h : Numbered content s) :
    (numberOf s key).isSome ↔ key ∈ blocksOf content := by
  rw [h.numbers, List.isSome_idxOf?]

theorem Numbered.lt (h : Numbered content s) (hkey : numberOf s key = some index) :
    index < s.nextIndex := by
  rw [h.numbers] at hkey
  rw [h.count]
  exact (List.idxOf?_eq_some_iff.mp hkey).1

theorem Numbered.oneToOne (h : Numbered content s) :
    OneToOne (fun slot => numberOf s (.call slot)) := by
  intro slot other index hslot hother
  simp only [h.numbers] at hslot hother
  obtain ⟨_, hslot, -⟩ := List.idxOf?_eq_some_iff.mp hslot
  obtain ⟨_, hother, -⟩ := List.idxOf?_eq_some_iff.mp hother
  simp_all

/-- The state once the block is opened under the next number. -/
def opening (s : AnthropicSseState) (key : BlockKey) : AnthropicSseState :=
  let t := { s with messageStarted := true, nextIndex := s.nextIndex + 1 }
  match key with
  | .thinking => { t with thinkingIndex := some s.nextIndex }
  | .text => { t with textIndex := some s.nextIndex }
  | .call slot => { t with toolBlocks := insertEntry slot s.nextIndex s.toolBlocks }

theorem numberOf_opening (s : AnthropicSseState) (key other : BlockKey) :
    numberOf (opening s key) other =
      if key = other then some s.nextIndex else numberOf s other := by
  cases key with
  | thinking | text => cases other <;> simp [numberOf, opening]
  | call slot =>
      cases other with
      | thinking | text => simp [numberOf, opening]
      | call slot' => simp [numberOf, opening, lookup_insertEntry]

theorem numbered_same (h : Numbered content s) {event : StreamEvent}
    (hknown : ∀ key, blockOf event = some key → key ∈ blocksOf content) :
    Numbered (content ++ [event]) s := by
  have hsame : blocksOf (content ++ [event]) = blocksOf content := by
    rw [blocksOf_snoc]
    cases hkey : blockOf event with
    | none => simp
    | some key => simp [hknown key hkey]
  exact ⟨h.live, h.usage, h.reason, h.sequence, hsame ▸ h.count, hsame ▸ h.numbers, h.opened⟩

theorem openBlocks_opening (h : numberOf s key = none) :
    (opening s key).openBlocks.Perm (s.nextIndex :: s.openBlocks) := by
  cases key with
  | thinking =>
      have hnone : s.thinkingIndex = none := h
      simp [AnthropicSseState.openBlocks, opening, hnone]
  | text =>
      have hnone : s.textIndex = none := h
      simp only [AnthropicSseState.openBlocks, opening, hnone, Option.toList_none,
        Option.toList_some, List.append_nil]
      exact (List.perm_append_comm.append_right _)
  | call slot =>
      have hperm := (insertEntry_perm h s.nextIndex).map Prod.snd
      exact (hperm.append_left _).trans List.perm_middle

theorem numbered_opening (h : Numbered content s) {event : StreamEvent}
    (hevent : blockOf event = some key) (hnew : key ∉ blocksOf content) :
    Numbered (content ++ [event]) (opening s key) := by
  have hblocks : blocksOf (content ++ [event]) = blocksOf content ++ [key] := by
    rw [blocksOf_snoc, hevent]
    simp [hnew]
  have hnext : (opening s key).nextIndex = s.nextIndex + 1 := by
    cases key <;> rfl
  have hnone : numberOf s key = none := by
    rw [← Option.not_isSome_iff_eq_none, h.isSome_iff]
    exact hnew
  refine ⟨?_, ?_, ?_, ?_, ?_, fun other => ?_, ?_⟩
  · cases key <;> exact h.live
  · cases key <;> exact h.usage
  · cases key <;> exact h.reason
  · cases key <;> exact h.sequence
  · rw [hnext, hblocks, List.length_append, h.count, List.length_singleton]
  · have happend : ∀ l : List BlockKey, (l ++ [key]).idxOf? other =
        (l.idxOf? other).or (if key = other then some l.length else none) := by
      intro l
      change (l ++ [key]).findIdx? (· == other) = (l.findIdx? (· == other)).or _
      rw [List.findIdx?_append]
      by_cases hsame : key = other <;> simp [hsame]
    rw [numberOf_opening, hblocks, happend, h.numbers, h.count]
    by_cases hsame : key = other
    · have hold : (blocksOf content).idxOf? other = none :=
        List.idxOf?_eq_none_iff.mpr (hsame ▸ hnew)
      simp [hsame, hold]
    · simp [hsame]
  · rw [hnext, List.range_succ]
    exact (openBlocks_opening hnone).trans
      ((h.opened.cons _).trans (List.perm_append_singleton _ _).symm)

/-- The frames that open a block, and what they are read as. -/
theorem openBlock_reads {packages : Packages} (hp : packages.Lawful) (h : Numbered content s)
    (hfits : s.nextIndex < 2 ^ 32) {block : Value} (hblock : Shallow 3 block) :
    ∃ frames announced, s.openBlock block =
        (s.nextIndex, { s with messageStarted := true, nextIndex := s.nextIndex + 1 }, frames) ∧
      (announced = [] ∨ announced = [.usage .default]) ∧
      Reads packages (reading s.nextIndex) frames
        (announced ++ AnthropicSseParser.blockStartEvents s.nextIndex block)
        (reading (s.nextIndex + 1)) := by
  have hstart := reads_blockStart hp hfits hblock
  by_cases hstarted : s.messageStarted = true
  · have hsame : { s with messageStarted := true } = s := by rw [← hstarted]
    refine ⟨_, [], ?_, .inl rfl, hstart⟩
    rw [AnthropicSseState.openBlock, AnthropicSseState.ensureMessageStart, if_pos hstarted]
    simp only [List.nil_append, ← hstarted]
  · refine ⟨[messageStart s] ++ [blockStart s.nextIndex block], [.usage .default], ?_, .inr rfl,
      Reads.append ?_ hstart⟩
    · rw [AnthropicSseState.openBlock, AnthropicSseState.ensureMessageStart, if_neg hstarted]
    · have hbill : Billable s.usage := by
        rw [h.usage]
        exact ⟨by decide, by decide, by decide⟩
      have hannounce := reads_announce (r := reading s.nextIndex) hp hbill rfl rfl
      have hzero : announced s.usage = WireUsage.default := by
        rw [h.usage]
        rfl
      rw [hzero] at hannounce
      exact hannounce

end

/-! ## Assembling -/

/-- The events assemble to what the content does, calls under their blocks' numbers. -/
structure Gathers (content : List StreamEvent) (s : AnthropicSseState)
    (events : List StreamEvent) : Prop where
  text : String.join (streamedText events) = String.join (streamedText content)
  thinking : String.join (streamedThinking events) = String.join (streamedThinking content)
  signature : String.join (streamedSignature events) = String.join (streamedSignature content)
  calls : Paired (fun slot => numberOf s (.call slot)) (slotCalls content) (slotCalls events)
  slots : ∀ slot, (lookup slot (slotCalls content)).isSome ↔ .call slot ∈ blocksOf content

/-- Events of the content, without the end of a stream. -/
def IsBody (events : List StreamEvent) : Prop :=
  ∀ event ∈ events, (∀ reason sequence, event ≠ .done reason sequence) ∧
    ∀ reason sequence, event ≠ .finish reason sequence

/-- Events that carry no call. -/
def Callless (events : List StreamEvent) : Prop :=
  ∀ event ∈ events, ∀ slot id name arguments signature,
    event ≠ .toolCallDelta slot id name arguments signature

theorem slotCalls_callless {events more : List StreamEvent} (h : Callless more) :
    slotCalls (events ++ more) = slotCalls events := by
  rw [slotCalls_append]
  induction more generalizing events with
  | nil => rfl
  | cons event more ih =>
      have hhead : addToSlot (slotCalls events) event = slotCalls events := by
        cases event with
        | toolCallDelta slot id name arguments signature =>
            exact absurd rfl (h _ List.mem_cons_self slot id name arguments signature)
        | delta | thinkingDelta | thinkingSignatureDelta | redactedThinking | usage | finish
        | done | error => rfl
      rw [List.foldl_cons, hhead]
      exact ih fun event hmem => h event (List.mem_cons_of_mem _ hmem)

section

variable {content events : List StreamEvent} {s t : AnthropicSseState} {event : StreamEvent}

theorem blocksOf_call {slot : Nat} (hevent : ∀ id name arguments signature,
    event ≠ .toolCallDelta slot id name arguments signature) :
    .call slot ∈ blocksOf (content ++ [event]) ↔ .call slot ∈ blocksOf content := by
  rw [blocksOf_snoc, List.mem_append]
  cases hkey : blockOf event with
  | none => simp
  | some key =>
      have hne : key ≠ .call slot := by
        rintro rfl
        cases event with
        | toolCallDelta slot' id name arguments signature =>
            cases hkey
            exact hevent id name arguments signature rfl
        | delta | thinkingDelta => cases hkey
        | thinkingSignatureDelta | redactedThinking | usage | finish | done | error => cases hkey
      dsimp only
      split
      · simp
      · simp [Ne.symm hne]

/-- An event that is no call adds its texts. -/
theorem gathers_texts (h : Gathers content s events) (hevent : Callless [event])
    {now : List StreamEvent} (hnow : Callless now)
    (hnames : ∀ slot index, numberOf s (.call slot) = some index →
      numberOf t (.call slot) = some index)
    (htext : String.join (streamedText now) = String.join (streamedText [event]))
    (hthinking : String.join (streamedThinking now) = String.join (streamedThinking [event]))
    (hsignature : String.join (streamedSignature now) = String.join (streamedSignature [event])) :
    Gathers (content ++ [event]) t (events ++ now) where
  text := by simp only [streamedText_append, String.join_append, h.text, htext]
  thinking := by simp only [streamedThinking_append, String.join_append, h.thinking, hthinking]
  signature := by
    simp only [streamedSignature_append, String.join_append, h.signature, hsignature]
  calls := by
    rw [slotCalls_callless hevent, slotCalls_callless hnow]
    exact h.calls.rename_more fun slot index hslot => hnames slot index hslot
  slots slot := by
    rw [slotCalls_callless hevent, h.slots, blocksOf_call fun id name arguments signature =>
      hevent event List.mem_cons_self slot id name arguments signature]

theorem streamedText_call (slot : Nat) (id name : Option String) (arguments : String)
    (signature : Option String) :
    streamedText [.toolCallDelta slot id name arguments signature] = [] ∧
      streamedThinking [.toolCallDelta slot id name arguments signature] = [] ∧
      streamedSignature [.toolCallDelta slot id name arguments signature] = [] :=
  ⟨rfl, rfl, rfl⟩

/-- The fragment of a call that goes on, sent when it is not empty. -/
def fragment (index : Nat) (arguments : String) : List StreamEvent :=
  if arguments.isEmpty then [] else [.toolCallDelta index none none arguments none]

theorem fragment_silent (index : Nat) (arguments : String) :
    streamedText (fragment index arguments) = [] ∧ streamedThinking (fragment index arguments) = [] ∧
      streamedSignature (fragment index arguments) = [] := by
  unfold fragment
  split <;> exact ⟨rfl, rfl, rfl⟩

/-- A call that is known goes on under its block's number. -/
theorem foldl_fragment {calls : List (Nat × ToolCall)} {index : Nat} {call : ToolCall}
    (h : lookup index calls = some call) (arguments : String) :
    (fragment index arguments).foldl addToSlot calls =
      store index { call with arguments := call.arguments ++ arguments } calls := by
  unfold fragment
  split
  · rename_i hempty
    have hnil : arguments = "" := by simpa using hempty
    have hsame : { call with arguments := call.arguments ++ arguments } = call := by
      rw [hnil, String.append_empty]
    rw [hsame, store_self h]
    rfl
  · simp [addToSlot, h, ToolCall.extend]

theorem gathers_known (h : Gathers content s events) (hs : Numbered content s) {slot index : Nat}
    (hslot : numberOf s (.call slot) = some index) (id name : Option String) (arguments : String)
    (signature : Option String) :
    Gathers (content ++ [.toolCallDelta slot id name arguments signature]) s
      (events ++ fragment index arguments) := by
  have hmem : .call slot ∈ blocksOf content := by
    rw [← hs.isSome_iff, hslot]
    rfl
  obtain ⟨call, hcall⟩ := Option.isSome_iff_exists.mp ((h.slots slot).mpr hmem)
  have hsame := h.calls.lookup_eq hs.oneToOne hslot
  obtain ⟨htext, hthinking, hsignature⟩ := streamedText_call slot id name arguments signature
  obtain ⟨htext', hthinking', hsignature'⟩ := fragment_silent index arguments
  have hstored : slotCalls (content ++ [.toolCallDelta slot id name arguments signature]) =
      store slot { call with arguments := call.arguments ++ arguments } (slotCalls content) := by
    simp [slotCalls_append, addToSlot, hcall, ToolCall.extend]
  refine ⟨?_, ?_, ?_, ?_, fun other => ?_⟩
  · simp only [streamedText_append, htext, htext', List.append_nil, h.text]
  · simp only [streamedThinking_append, hthinking, hthinking', List.append_nil, h.thinking]
  · simp only [streamedSignature_append, hsignature, hsignature', List.append_nil, h.signature]
  · rw [hstored, slotCalls_append, foldl_fragment (hsame ▸ hcall)]
    exact h.calls.store hs.oneToOne hslot _
  · have hblocks : blocksOf (content ++ [.toolCallDelta slot id name arguments signature]) =
        blocksOf content := by
      rw [blocksOf_snoc]
      simp [blockOf, hmem]
    rw [hstored, hblocks, ← h.slots, lookup_store]
    split
    · rename_i heq
      simp [← heq, hcall]
    · rfl

/-- A new call begins with the number of its block. -/
theorem gathers_begun (h : Gathers content s events) (hs : Numbered content s) {slot : Nat}
    (hnew : .call slot ∉ blocksOf content) (id name arguments : String)
    (signature : Option String) {announced : List StreamEvent}
    (hannounced : announced = [] ∨ announced = [.usage .default]) :
    Gathers (content ++ [.toolCallDelta slot (some id) (some name) arguments signature])
      (opening s (.call slot))
      (events ++ (announced ++ [.toolCallDelta s.nextIndex (some id) (some name) "" none] ++
        fragment s.nextIndex arguments)) := by
  have hs' : Numbered (content ++ [.toolCallDelta slot (some id) (some name) arguments signature])
      (opening s (.call slot)) := numbered_opening hs rfl hnew
  have hnumber : numberOf (opening s (.call slot)) (.call slot) = some s.nextIndex := by
    rw [numberOf_opening, if_pos rfl]
  have hnone : lookup slot (slotCalls content) = none := by
    rw [← Option.not_isSome_iff_eq_none, h.slots]
    exact hnew
  have hcalls : Paired (fun slot' => numberOf (opening s (.call slot)) (.call slot'))
      (slotCalls content) (slotCalls events) := h.calls.rename_more fun other index hother => by
      rw [numberOf_opening, if_neg, hother]
      rintro heq
      cases heq
      have hsome : (numberOf s (.call slot)).isSome = true := by rw [hother]; rfl
      exact hnew (hs.isSome_iff.mp hsome)
  have hfresh : lookup s.nextIndex (slotCalls events) = none := by
    rw [← hcalls.lookup_eq hs'.oneToOne hnumber, hnone]
  obtain ⟨htext, hthinking, hsignature⟩ :=
    streamedText_call slot (some id) (some name) arguments signature
  obtain ⟨htext', hthinking', hsignature'⟩ := fragment_silent s.nextIndex arguments
  have hquiet : streamedText announced = [] ∧ streamedThinking announced = [] ∧
      streamedSignature announced = [] ∧ Callless announced := by
    rcases hannounced with rfl | rfl
    · exact ⟨rfl, rfl, rfl, by simp [Callless]⟩
    · exact ⟨rfl, rfl, rfl, by simp [Callless]⟩
  obtain ⟨hquietText, hquietThinking, hquietSignature, hcallless⟩ := hquiet
  have hstored : slotCalls (content ++
      [.toolCallDelta slot (some id) (some name) arguments signature]) =
        store slot ⟨id, name, arguments, none⟩ (slotCalls content) := by
    simp [slotCalls_append, addToSlot, hnone, ToolCall.extend]
  refine ⟨?_, ?_, ?_, ?_, fun other => ?_⟩
  · simp only [streamedText_append, htext, htext', hquietText, List.append_nil, List.nil_append]
    rw [show streamedText [.toolCallDelta s.nextIndex (some id) (some name) "" none] = [] from rfl,
      List.append_nil, h.text]
  · simp only [streamedThinking_append, hthinking, hthinking', hquietThinking, List.append_nil,
      List.nil_append]
    rw [show streamedThinking [.toolCallDelta s.nextIndex (some id) (some name) "" none] = [] from
      rfl, List.append_nil, h.thinking]
  · simp only [streamedSignature_append, hsignature, hsignature', hquietSignature, List.append_nil,
      List.nil_append]
    rw [show streamedSignature [.toolCallDelta s.nextIndex (some id) (some name) "" none] = [] from
      rfl, List.append_nil, h.signature]
  · have hbegun : slotCalls (events ++ (announced ++
        [.toolCallDelta s.nextIndex (some id) (some name) "" none] ++
          fragment s.nextIndex arguments)) =
        store s.nextIndex ⟨id, name, arguments, none⟩ (slotCalls events) := by
      have hfirst : slotCalls (events ++ announced ++
          [.toolCallDelta s.nextIndex (some id) (some name) "" none]) =
            store s.nextIndex ⟨id, name, "", none⟩ (slotCalls events) := by
        rw [slotCalls_append, slotCalls_callless hcallless]
        simp [addToSlot, hfresh, ToolCall.extend]
      have hbegins : lookup s.nextIndex (store s.nextIndex ⟨id, name, "", none⟩
          (slotCalls events)) = some (⟨id, name, "", none⟩ : ToolCall) := by simp [lookup_store]
      rw [← List.append_assoc, ← List.append_assoc, slotCalls_append, hfirst,
        foldl_fragment hbegins, store_store,
        String.empty_append]
    rw [hstored, hbegun]
    exact hcalls.store hs'.oneToOne hnumber _
  · have hblocks : blocksOf (content ++
        [.toolCallDelta slot (some id) (some name) arguments signature]) =
          blocksOf content ++ [.call slot] := by
      rw [blocksOf_snoc]
      simp [blockOf, hnew]
    rw [hstored, hblocks, List.mem_append, ← h.slots, lookup_store]
    split
    · rename_i heq
      simp [heq]
    · rename_i hne
      simp [Ne.symm hne]

end

/-! ## One event -/

/-- The frames of this content are read as these events, which assemble alike. -/
structure Shown (packages : Packages) (content : List StreamEvent) (s : AnthropicSseState)
    (frames : List AnthropicFrame) (events : List StreamEvent) : Prop where
  numbered : Numbered content s
  gathers : Gathers content s events
  body : IsBody events
  reads : Reads packages (reading 0) frames events (reading s.nextIndex)

section

variable {packages : Packages} {content events : List StreamEvent} {s : AnthropicSseState}
  {frames : List AnthropicFrame}

theorem isBody_append {more : List StreamEvent} (h : IsBody events) (h' : IsBody more) :
    IsBody (events ++ more) := fun event hevent =>
  (List.mem_append.mp hevent).elim (h event) (h' event)

theorem textEvent_join (text : String) (build : String → StreamEvent) :
    textEvent (some text) build = if text = "" then [] else [build text] := by
  by_cases h : text = ""
  · simp [textEvent, h, Option.filter]
  · simp [textEvent, h, Option.filter]

theorem shallow_texts (entries : List (String × String)) :
    Shallow 3 (.obj (entries.map fun e => (e.1, .string e.2))) := by
  refine Shallow.mono (m := 1) (.obj fun e he => ?_) (by decide)
  obtain ⟨entry, -, rfl⟩ := List.mem_map.mp he
  exact .string _

/-- The block of an event, open before or opened for it. -/
inductive Opens (s : AnthropicSseState) (key : BlockKey) (block : Value) :
    Nat → AnthropicSseState → List AnthropicFrame → Prop where
  | before {index : Nat} (hindex : numberOf s key = some index) : Opens s key block index s []
  | now {opened : List AnthropicFrame} (hnone : numberOf s key = none)
      (hopen : s.openBlock block =
        (s.nextIndex, { s with messageStarted := true, nextIndex := s.nextIndex + 1 }, opened)) :
      Opens s key block s.nextIndex (opening s key) opened

/-- The events carry what the event does, and no call. -/
structure Carries (now : List StreamEvent) (event : StreamEvent) : Prop where
  text : String.join (streamedText now) = String.join (streamedText [event])
  thinking : String.join (streamedThinking now) = String.join (streamedThinking [event])
  signature : String.join (streamedSignature now) = String.join (streamedSignature [event])
  callless : Callless now
  body : IsBody now

/-- Events that carry nothing may come first. -/
theorem Carries.after {now start : List StreamEvent} {event : StreamEvent} (h : Carries now event)
    (htext : String.join (streamedText start) = "")
    (hthinking : String.join (streamedThinking start) = "")
    (hsignature : String.join (streamedSignature start) = "") (hcallless : Callless start)
    (hbody : IsBody start) : Carries (start ++ now) event where
  text := by rw [streamedText_append, String.join_append, htext, String.empty_append, h.text]
  thinking := by
    rw [streamedThinking_append, String.join_append, hthinking, String.empty_append, h.thinking]
  signature := by
    rw [streamedSignature_append, String.join_append, hsignature, String.empty_append,
      h.signature]
  callless event hevent := (List.mem_append.mp hevent).elim (hcallless event) (h.callless event)
  body := isBody_append hbody h.body

/-- A text or thinking event, with its block open before or opened for it. -/
theorem Shown.spoken (hp : packages.Lawful) (h : Shown packages content s frames events)
    {key : BlockKey} {event : StreamEvent} (hevent : blockOf event = some key)
    (hkey : ∀ slot, key ≠ .call slot) (hcallless : Callless [event])
    (hfits : (blocksOf (content ++ [event])).length ≤ 2 ^ 32) {block delta : Value}
    (hblock : Shallow 3 block) {now : Nat → List StreamEvent}
    (hread : ∀ index n, index < n → n ≤ 2 ^ 32 →
      Reads packages (reading n) [blockDelta index delta] (now index) (reading n))
    (hnow : ∀ index, Carries (now index) event)
    (hstart : ∀ index, String.join (streamedText
        (AnthropicSseParser.blockStartEvents index block)) = "" ∧
      String.join (streamedThinking (AnthropicSseParser.blockStartEvents index block)) = "" ∧
      String.join (streamedSignature (AnthropicSseParser.blockStartEvents index block)) = "" ∧
      Callless (AnthropicSseParser.blockStartEvents index block) ∧
      IsBody (AnthropicSseParser.blockStartEvents index block))
    {index : Nat} {t : AnthropicSseState} {opened : List AnthropicFrame}
    (hopens : Opens s key block index t opened) :
    ∃ more, Shown packages (content ++ [event]) t (frames ++ (opened ++ [blockDelta index delta]))
      (events ++ more) := by
  cases hopens with
  | before hindex =>
      have hmem : key ∈ blocksOf content := by
        rw [← h.numbered.isSome_iff, hindex]
        rfl
      have hsame : ∀ key', blockOf event = some key' → key' ∈ blocksOf content := by
        intro key' hkey'
        rw [hevent] at hkey'
        cases hkey'
        exact hmem
      have hcount := (numbered_same h.numbered hsame).count
      have hcarries := hnow index
      refine ⟨now index, numbered_same h.numbered hsame, gathers_texts h.gathers hcallless
        hcarries.callless (fun _ _ hslot => hslot) hcarries.text hcarries.thinking
        hcarries.signature, isBody_append h.body hcarries.body, ?_⟩
      exact h.reads.append (hread index _ (h.numbered.lt hindex) (hcount ▸ hfits))
  | now hnone hopen =>
      have hnew : key ∉ blocksOf content := by
        rw [← h.numbered.isSome_iff, hnone]
        simp
      have hnumbered := numbered_opening h.numbered hevent hnew
      have hcount := hnumbered.count
      have hnext : (opening s key).nextIndex = s.nextIndex + 1 := by
        cases key <;> rfl
      rw [hnext] at hcount
      obtain ⟨opened', announced, hopen', hannounced, hreads⟩ :=
        openBlock_reads hp h.numbered (by omega) hblock
      rw [hopen, Prod.mk.injEq, Prod.mk.injEq] at hopen'
      obtain ⟨-, -, rfl⟩ := hopen'
      obtain ⟨htext, hthinking, hsignature, hquiet, hbody⟩ := hstart s.nextIndex
      have hcarries : Carries (announced ++
          (AnthropicSseParser.blockStartEvents s.nextIndex block ++ now s.nextIndex)) event := by
        refine ((hnow s.nextIndex).after htext hthinking hsignature hquiet hbody).after ?_ ?_ ?_ ?_ ?_
        all_goals rcases hannounced with rfl | rfl <;> first | rfl | simp [Callless, IsBody]
      refine ⟨announced ++ (AnthropicSseParser.blockStartEvents s.nextIndex block ++
        now s.nextIndex), hnumbered, gathers_texts h.gathers hcallless hcarries.callless ?_
        hcarries.text hcarries.thinking hcarries.signature, isBody_append h.body hcarries.body, ?_⟩
      · intro slot index hslot
        rw [numberOf_opening, if_neg (hkey slot), hslot]
      · rw [hnext, ← List.append_assoc announced]
        exact h.reads.append (hreads.append (hread _ _ (by omega) (by omega)))

theorem openBlock_eq (s : AnthropicSseState) (block : Value) : ∃ opened, s.openBlock block =
    (s.nextIndex, { s with messageStarted := true, nextIndex := s.nextIndex + 1 }, opened) := by
  unfold AnthropicSseState.openBlock AnthropicSseState.ensureMessageStart
  by_cases hstarted : s.messageStarted = true
  · simp [hstarted]
  · simp [hstarted]

theorem thinkingBlock_opens (s : AnthropicSseState) : ∃ index t opened,
    s.thinkingBlock = (index, t, opened) ∧ Opens s .thinking
      (.obj [("type", .string "thinking"), ("thinking", .string "")]) index t opened := by
  unfold AnthropicSseState.thinkingBlock
  cases hindex : s.thinkingIndex with
  | some index => exact ⟨index, s, [], rfl, .before hindex⟩
  | none =>
      obtain ⟨opened, hopen⟩ := openBlock_eq s
        (.obj [("type", .string "thinking"), ("thinking", .string "")])
      refine ⟨_, _, opened, ?_, .now hindex hopen⟩
      simp only [hopen]
      rfl

theorem textBlock_opens (s : AnthropicSseState) : ∃ index t opened,
    s.textBlock = (index, t, opened) ∧ Opens s .text
      (.obj [("type", .string "text"), ("text", .string "")]) index t opened := by
  unfold AnthropicSseState.textBlock
  cases hindex : s.textIndex with
  | some index => exact ⟨index, s, [], rfl, .before hindex⟩
  | none =>
      obtain ⟨opened, hopen⟩ := openBlock_eq s
        (.obj [("type", .string "text"), ("text", .string "")])
      refine ⟨_, _, opened, ?_, .now hindex hopen⟩
      simp only [hopen]
      rfl

/-- The event of a text that is not empty carries it; an empty one carries nothing. -/
theorem carries_textEvent {text : String} {build : String → StreamEvent} {event : StreamEvent}
    (htext : String.join (streamedText [build text]) = String.join (streamedText [event]))
    (hthinking :
      String.join (streamedThinking [build text]) = String.join (streamedThinking [event]))
    (hsignature :
      String.join (streamedSignature [build text]) = String.join (streamedSignature [event]))
    (hempty : text = "" → String.join (streamedText [event]) = "" ∧
      String.join (streamedThinking [event]) = "" ∧ String.join (streamedSignature [event]) = "")
    (hcallless : Callless [build text]) (hbody : IsBody [build text]) :
    Carries (textEvent (some text) build) event := by
  rw [textEvent_join]
  split
  · rename_i hnil
    obtain ⟨htext, hthinking, hsignature⟩ := hempty hnil
    exact ⟨htext.symm, hthinking.symm, hsignature.symm, by simp [Callless], by simp [IsBody]⟩
  · exact ⟨htext, hthinking, hsignature, hcallless, hbody⟩

theorem Shown.thinkingDelta (hp : packages.Lawful) (h : Shown packages content s frames events)
    (choice block : Nat) (text : String)
    (hfits : (blocksOf (content ++ [.thinkingDelta choice block text])).length ≤ 2 ^ 32)
    (absorb : Usage → Usage → Usage) :
    ∃ t more now, Anthropic.renderEvent absorb s (.thinkingDelta choice block text) = (t, more) ∧
      Shown packages (content ++ [.thinkingDelta choice block text]) t (frames ++ more)
        (events ++ now) := by
  obtain ⟨index, t, opened, hblock, hopens⟩ := thinkingBlock_opens s
  have hread : ∀ index n, index < n → n ≤ 2 ^ 32 → Reads packages (reading n)
      [blockDelta index (.obj [("type", .string "thinking_delta"), ("thinking", .string text)])]
      (textEvent (some text) (.thinkingDelta 0 index)) (reading n) := fun index n hindex hn =>
    reads_blockDelta hp hindex hn (shallow_texts [("type", "thinking_delta"), ("thinking", text)])
      (by simp [Value.field, lookup])
  have hnow : ∀ index, Carries (textEvent (some text) (.thinkingDelta 0 index))
      (.thinkingDelta choice block text) := fun index => by
    refine carries_textEvent rfl rfl rfl (fun hempty => ?_) (by simp [Callless]) (by simp [IsBody])
    exact ⟨rfl, by simp [streamedThinking, hempty], rfl⟩
  obtain ⟨now, hshown⟩ := h.spoken hp rfl (by simp) (by simp [Callless]) hfits
    (shallow_texts [("type", "thinking"), ("thinking", "")]) hread hnow (fun index => by
      simp [AnthropicSseParser.blockStartEvents, Value.field, lookup, streamedText,
        streamedThinking, streamedSignature, Callless, IsBody]) hopens
  refine ⟨t, _, now, ?_, hshown⟩
  simp only [Anthropic.renderEvent, hblock]

theorem Shown.textDelta (hp : packages.Lawful) (h : Shown packages content s frames events)
    (choice : Nat) (text : String)
    (hfits : (blocksOf (content ++ [.delta choice text])).length ≤ 2 ^ 32)
    (absorb : Usage → Usage → Usage) :
    ∃ t more now, Anthropic.renderEvent absorb s (.delta choice text) = (t, more) ∧
      Shown packages (content ++ [.delta choice text]) t (frames ++ more) (events ++ now) := by
  obtain ⟨index, t, opened, hblock, hopens⟩ := textBlock_opens s
  have hread : ∀ index n, index < n → n ≤ 2 ^ 32 → Reads packages (reading n)
      [blockDelta index (.obj [("type", .string "text_delta"), ("text", .string text)])]
      (textEvent (some text) (.delta 0)) (reading n) := fun index n hindex hn =>
    reads_blockDelta hp hindex hn (shallow_texts [("type", "text_delta"), ("text", text)])
      (by simp [Value.field, lookup])
  have hnow : ∀ _ : Nat, Carries (textEvent (some text) (.delta 0)) (.delta choice text) :=
    fun _ => by
      refine carries_textEvent rfl rfl rfl (fun hempty => ?_) (by simp [Callless])
        (by simp [IsBody])
      exact ⟨by simp [streamedText, hempty], rfl, rfl⟩
  obtain ⟨now, hshown⟩ := h.spoken hp rfl (by simp) (by simp [Callless]) hfits
    (shallow_texts [("type", "text"), ("text", "")]) hread hnow (fun index => by
      simp [AnthropicSseParser.blockStartEvents, Value.field, lookup, streamedText,
        streamedThinking, streamedSignature, Callless, IsBody]) hopens
  refine ⟨t, _, now, ?_, hshown⟩
  simp only [Anthropic.renderEvent, hblock]

/-- A signature goes to the thinking block, which is open. -/
theorem Shown.signatureDelta (hp : packages.Lawful) (h : Shown packages content s frames events)
    (choice block : Nat) (text : String) (hthinking : .thinking ∈ blocksOf content)
    (hfits : (blocksOf (content ++ [.thinkingSignatureDelta choice block text])).length ≤ 2 ^ 32)
    (absorb : Usage → Usage → Usage) :
    ∃ t more now, Anthropic.renderEvent absorb s (.thinkingSignatureDelta choice block text) = (t, more) ∧
      Shown packages (content ++ [.thinkingSignatureDelta choice block text]) t (frames ++ more)
        (events ++ now) := by
  obtain ⟨index, hindex⟩ := Option.isSome_iff_exists.mp (h.numbered.isSome_iff.mpr hthinking)
  have hthinkingIndex : s.thinkingIndex = some index := hindex
  have hnumbered := numbered_same h.numbered
    (show ∀ key, blockOf (.thinkingSignatureDelta choice block text) = some key →
      key ∈ blocksOf content from fun _ hkey => by cases hkey)
  have hcount := hnumbered.count
  have hcarries : Carries (textEvent (some text) (.thinkingSignatureDelta 0 index))
      (.thinkingSignatureDelta choice block text) := by
    refine carries_textEvent rfl rfl rfl (fun hempty => ?_) (by simp [Callless]) (by simp [IsBody])
    exact ⟨rfl, rfl, by simp [streamedSignature, hempty]⟩
  have hread : Reads packages (reading s.nextIndex)
      [blockDelta index (.obj [("type", .string "signature_delta"), ("signature", .string text)])]
      (textEvent (some text) (.thinkingSignatureDelta 0 index)) (reading s.nextIndex) :=
    reads_blockDelta hp (h.numbered.lt hindex) (hcount ▸ hfits)
      (shallow_texts [("type", "signature_delta"), ("signature", text)])
      (by simp [Value.field, lookup])
  refine ⟨s, _, textEvent (some text) (.thinkingSignatureDelta 0 index), ?_, hnumbered,
    gathers_texts h.gathers (by simp [Callless]) hcarries.callless (fun _ _ hslot => hslot)
      hcarries.text hcarries.thinking hcarries.signature, isBody_append h.body hcarries.body,
    h.reads.append hread⟩
  simp only [Anthropic.renderEvent, hthinkingIndex]

/-- The deltas of a call's fragment. -/
def argumentFrames (index : Nat) (arguments : String) : List AnthropicFrame :=
  if arguments.isEmpty then []
  else [blockDelta index (.obj [("type", .string "input_json_delta"),
    ("partial_json", .string arguments)])]

theorem reads_argumentFrames (hp : packages.Lawful) {index n : Nat} (hindex : index < n)
    (hn : n ≤ 2 ^ 32) (arguments : String) :
    Reads packages (reading n) (argumentFrames index arguments) (fragment index arguments)
      (reading n) := by
  unfold argumentFrames fragment
  split
  · exact .nil
  · exact reads_blockDelta hp hindex hn
      (shallow_texts [("type", "input_json_delta"), ("partial_json", arguments)])
      (by simp [Value.field, lookup])

theorem isBody_fragment (index : Nat) (arguments : String) : IsBody (fragment index arguments) := by
  unfold fragment
  split <;> simp [IsBody]

theorem renderEvent_call {slot index : Nat} {id name : Option String} {t : AnthropicSseState}
    {opened : List AnthropicFrame} (h : s.toolBlock slot id name = (index, t, opened))
    (arguments : String) (signature : Option String) (absorb : Usage → Usage → Usage) :
    Anthropic.renderEvent absorb s (.toolCallDelta slot id name arguments signature) =
      (t, opened ++ argumentFrames index arguments) := by
  unfold argumentFrames
  by_cases hempty : arguments.isEmpty = true
  · simp [Anthropic.renderEvent, h, hempty]
  · simp [Anthropic.renderEvent, h, hempty]

/-- A fragment of a call, begun by it or before it. -/
theorem Shown.callDelta (hp : packages.Lawful) (h : Shown packages content s frames events)
    {slot : Nat} {id name : Option String} {arguments : String} {signature : Option String}
    (hfollows : MayFollow content (.toolCallDelta slot id name arguments signature))
    (hfits : (blocksOf (content ++ [.toolCallDelta slot id name arguments signature])).length ≤
      2 ^ 32) (absorb : Usage → Usage → Usage) :
    ∃ t more now,
      Anthropic.renderEvent absorb s (.toolCallDelta slot id name arguments signature) = (t, more) ∧
      Shown packages (content ++ [.toolCallDelta slot id name arguments signature]) t
        (frames ++ more) (events ++ now) := by
  by_cases hknown : .call slot ∈ blocksOf content
  · obtain ⟨index, hindex⟩ := Option.isSome_iff_exists.mp (h.numbered.isSome_iff.mpr hknown)
    have hnumbered := numbered_same h.numbered
      (show ∀ key, blockOf (.toolCallDelta slot id name arguments signature) = some key →
        key ∈ blocksOf content from fun _ hkey => by cases hkey; exact hknown)
    have hcount := hnumbered.count
    have hblock : s.toolBlock slot id name = (index, s, []) := by
      have hlookup : lookup slot s.toolBlocks = some index := hindex
      simp only [AnthropicSseState.toolBlock, hlookup]
    refine ⟨s, _, fragment index arguments, renderEvent_call hblock arguments signature absorb,
      hnumbered, gathers_known h.gathers h.numbered hindex id name arguments signature,
      isBody_append h.body (isBody_fragment index arguments), ?_⟩
    exact h.reads.append
      (reads_argumentFrames hp (h.numbered.lt hindex) (hcount ▸ hfits) arguments)
  · obtain ⟨⟨i, rfl, -⟩, n, rfl⟩ := hfollows.resolve_left hknown
    have hnumbered : Numbered (content ++ [.toolCallDelta slot (some i) (some n) arguments
        signature]) (opening s (.call slot)) := numbered_opening h.numbered rfl hknown
    have hcount := hnumbered.count
    have hnext : (opening s (.call slot)).nextIndex = s.nextIndex + 1 := rfl
    rw [hnext] at hcount
    let block := Value.obj [("type", .string "tool_use"), ("id", .string i), ("name", .string n),
      ("input", .obj [])]
    have hshallow : Shallow 3 block := by
      refine (Shallow.obj (n := 1) ?_).mono (by decide)
      simp only [List.forall_mem_cons, List.not_mem_nil, false_implies, implies_true, and_true]
      exact ⟨.string _, .string _, .string _, .obj (n := 0) (by simp)⟩
    obtain ⟨opened, announced, hopen, hannounced, hreads⟩ :=
      openBlock_reads hp h.numbered (by omega) hshallow
    have hnone : lookup slot s.toolBlocks = none := by
      have hunknown : numberOf s (.call slot) = none := by
        rw [← Option.not_isSome_iff_eq_none, h.numbered.isSome_iff]
        exact hknown
      exact hunknown
    have hblock : s.toolBlock slot (some i) (some n) =
        (s.nextIndex, opening s (.call slot), opened) := by
      have hopen' : s.openBlock (.obj [("type", .string "tool_use"), ("id", .string i),
          ("name", .string n), ("input", .obj [])]) = _ := hopen
      simp only [AnthropicSseState.toolBlock, hnone, Option.getD_some, Option.map_some, hopen']
      rfl
    have hstart : AnthropicSseParser.blockStartEvents s.nextIndex block =
        [.toolCallDelta s.nextIndex (some i) (some n) "" none] := by
      simp [AnthropicSseParser.blockStartEvents, block, Value.field, lookup]
    rw [hstart] at hreads
    refine ⟨_, _, _, renderEvent_call hblock arguments signature absorb, hnumbered,
      gathers_begun h.gathers h.numbered hknown i n arguments signature hannounced, ?_, ?_⟩
    · refine isBody_append h.body (isBody_append (isBody_append ?_ ?_) (isBody_fragment _ _))
      · rcases hannounced with rfl | rfl <;> simp [IsBody]
      · simp [IsBody]
    · rw [hnext]
      exact h.reads.append (hreads.append
        (reads_argumentFrames hp (by omega) (by omega) arguments))

/-! ## A whole message -/

/-- One event of the content. -/
theorem Shown.step (hp : packages.Lawful) (h : Shown packages content s frames events)
    {event : StreamEvent} (hfollows : MayFollow content event)
    (hfits : (blocksOf (content ++ [event])).length ≤ 2 ^ 32) (absorb : Usage → Usage → Usage) :
    ∃ t more now, Anthropic.renderEvent absorb s event = (t, more) ∧
      Shown packages (content ++ [event]) t (frames ++ more) (events ++ now) := by
  cases event with
  | delta choice text => exact h.textDelta hp choice text hfits absorb
  | thinkingDelta choice block text => exact h.thinkingDelta hp choice block text hfits absorb
  | thinkingSignatureDelta choice block text =>
      exact h.signatureDelta hp choice block text hfollows hfits absorb
  | toolCallDelta slot id name arguments signature => exact h.callDelta hp hfollows hfits absorb
  | redactedThinking | usage | finish | done | error => exact hfollows.elim

theorem Shown.nothing (model messageId : String) :
    Shown packages [] (.new model messageId) [] [] where
  numbered := ⟨rfl, rfl, rfl, rfl, rfl, fun key => by cases key <;> rfl, .refl _⟩
  gathers := ⟨rfl, rfl, rfl, .nil, by simp [slotCalls, blocksOf, lookup]⟩
  body := by simp [IsBody]
  reads := .nil

theorem blocksOf_mono {before content : List StreamEvent} (h : before <+: content) :
    (blocksOf before).length ≤ (blocksOf content).length := by
  obtain ⟨rest, rfl⟩ := h
  induction rest using List.reverseRecOn with
  | nil => simp
  | append_singleton rest event ih =>
      rw [← List.append_assoc, blocksOf_snoc, List.length_append]
      omega

theorem IsContent.front {before content : List StreamEvent} (h : IsContent content)
    (hfront : before <+: content) : IsContent before :=
  fun first event hfirst => h first event (hfirst.trans hfront)

/-- The content is rendered as frames that are read as it. -/
theorem shown_content (hp : packages.Lawful) (model messageId : String) {content : List StreamEvent}
    (h : IsContent content) (hfits : (blocksOf content).length ≤ 2 ^ 32)
    (absorb : Usage → Usage → Usage) :
    ∃ s frames events, anthropicFrames absorb (.new model messageId) content = (s, frames) ∧
      Shown packages content s frames events := by
  induction content using List.reverseRecOn with
  | nil => exact ⟨_, _, _, rfl, .nothing model messageId⟩
  | append_singleton content event ih =>
      have hfront : content <+: content ++ [event] := List.prefix_append _ _
      obtain ⟨s, frames, events, hrender, hshown⟩ :=
        ih (h.front hfront) ((blocksOf_mono hfront).trans hfits)
      obtain ⟨t, more, now, hevent, hnext⟩ :=
        hshown.step hp (h _ _ (List.prefix_refl _)) hfits absorb
      refine ⟨t, frames ++ more, events ++ now, ?_, hnext⟩
      rw [anthropicFrames_append, hrender]
      simp [anthropicFrames, hshown.numbered.live, hevent]

end

end Messages

end TokenStation.Provider
