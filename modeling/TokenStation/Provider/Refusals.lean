import TokenStation.Provider.Gemini
import TokenStation.Provider.OpenAi
import TokenStation.Provider.ResponsesStream

/-!
# What the dialects refuse in their own words

No dialect refuses a frame, or the end of a body, in the words it has for a
body the splitter found too large.
-/

namespace TokenStation.Provider

open Library Library.Json Responses Sse

/-- The words for a body that is too large are used for nothing else. -/
structure Dialect.OwnWords {σ : Type} (d : Dialect σ) : Prop where
  frame : ∀ p frame, d.frame p frame ≠ .error (d.splitError .tooLarge)
  close : ∀ p, d.close p ≠ .error (d.splitError .tooLarge)
  notUtf8 : d.splitError .notUtf8 ≠ d.splitError .tooLarge

/-- A computation that does not end in this refusal. -/
def NeverSays {α : Type} (bad : ErrorEnvelope) (x : Except ErrorEnvelope α) : Prop :=
  x ≠ .error bad

section

variable {α β : Type} {bad : ErrorEnvelope}

theorem never_ok {a : α} : NeverSays bad (.ok a) := by simp [NeverSays]

theorem never_pure {a : α} : NeverSays bad (pure a) := never_ok

theorem never_error {message : String} (h : message ≠ bad.message) :
    NeverSays bad (.error (protocolError message) : Except ErrorEnvelope α) := by
  intro heq
  cases heq
  exact h rfl

theorem never_bind {x : Except ErrorEnvelope α} {f : α → Except ErrorEnvelope β}
    (hx : NeverSays bad x) (hf : ∀ a, NeverSays bad (f a)) : NeverSays bad (x >>= f) := by
  intro h
  rcases Checked.bind_eq_error.mp h with h | ⟨a, -, h⟩
  · exact hx h
  · exact hf a h

theorem never_refuse {c : Prop} [Decidable c] {message : String} (h : message ≠ bad.message) :
    NeverSays bad (Checked.refuse c (protocolError message)) := by
  unfold Checked.refuse
  split
  · exact never_error h
  · exact never_ok

theorem never_mapM {f : α → Except ErrorEnvelope β} (hf : ∀ a, NeverSays bad (f a)) (l : List α) :
    NeverSays bad (l.mapM f) := by
  induction l with
  | nil =>
      rw [List.mapM_nil]
      exact never_pure
  | cons a l ih =>
      rw [List.mapM_cons]
      exact never_bind (hf a) fun b => never_bind ih fun bs => never_pure

theorem never_foldlM {f : β → α → Except ErrorEnvelope β} (hf : ∀ b a, NeverSays bad (f b a))
    (l : List α) (b : β) : NeverSays bad (l.foldlM f b) := by
  induction l generalizing b with
  | nil => exact never_pure
  | cons a l ih =>
      rw [List.foldlM_cons]
      exact never_bind (hf b a) fun c => ih c

theorem never_countUnder {raw : Value} {key missing : String} (h : missing ≠ bad.message) :
    NeverSays bad (countUnder raw key missing) := by
  unfold countUnder
  split
  · exact never_ok
  · exact never_error h

theorem never_countOrZero {found : Option Value} {invalid : String} (h : invalid ≠ bad.message) :
    NeverSays bad (countOrZero found invalid) := by
  unfold countOrZero
  split
  · exact never_ok
  · exact never_ok
  · split
    · exact never_ok
    · exact never_error h

theorem never_objectOrNone {found : Option Value} {invalid : String} (h : invalid ≠ bad.message) :
    NeverSays bad (objectOrNone found invalid) := by
  unfold objectOrNone
  split
  · exact never_ok
  · exact never_ok
  · split
    · exact never_ok
    · exact never_error h

end

/-! ### Chat -/

namespace OpenAi

variable {packages : Packages}

theorem never_checkedSum (left right : Nat) :
    NeverSays (splitError .tooLarge) (checkedSum left right) := by
  unfold checkedSum
  split
  · exact never_ok
  · exact never_error (by decide)

theorem never_usageOf (raw : Value) : NeverSays (splitError .tooLarge) (usageOf raw) := by
  unfold usageOf
  refine never_bind (never_refuse (by decide)) fun _ => ?_
  refine never_bind (never_countUnder (by decide)) fun _ => ?_
  refine never_bind (never_countUnder (by decide)) fun _ => ?_
  refine never_bind (never_countUnder (by decide)) fun _ => ?_
  refine never_bind (never_objectOrNone (by decide)) fun _ => ?_
  refine never_bind (never_objectOrNone (by decide)) fun _ => ?_
  refine never_bind (never_countOrZero (by decide)) fun _ => ?_
  refine never_bind (never_countOrZero (by decide)) fun _ => ?_
  refine never_bind (never_refuse (by decide)) fun _ => ?_
  refine never_bind (never_countOrZero (by decide)) fun _ => ?_
  refine never_bind (never_checkedSum _ _) fun _ => ?_
  refine never_bind ?_ fun _ => ?_
  · unfold checkTotal
    split
    · exact never_ok
    · exact never_bind (never_checkedSum _ _) fun _ => never_refuse (by decide)
  refine never_bind (never_checkedSum _ _) fun _ => ?_
  refine never_bind (never_checkedSum _ _) fun _ => ?_
  refine never_bind ?_ fun _ => ?_
  · unfold cachedCount
    split <;> exact never_countOrZero (by decide)
  refine never_bind (never_checkedSum _ _) fun _ => ?_
  refine never_bind ?_ fun _ => ?_
  · unfold cacheWriteCount
    split <;> exact never_countOrZero (by decide)
  refine never_bind (never_checkedSum _ _) fun _ => ?_
  refine never_bind (never_refuse (by decide)) fun _ => ?_
  refine never_bind (never_countOrZero (by decide)) fun _ => ?_
  exact never_bind (never_refuse (by decide)) fun _ => never_pure

theorem never_usageEvents (p : PendingFinish) (usage : Value) :
    NeverSays (splitError .tooLarge) (usageEvents p usage) := by
  refine never_bind (never_usageOf usage) fun counts => ?_
  split <;> exact never_pure

theorem never_frame (p : PendingFinish) (sse : SseFrameV1) :
    NeverSays (splitError .tooLarge) (frame packages p sse) := by
  unfold frame
  split
  · exact never_ok
  · split
    · exact never_ok
    · unfold eventsOfFrame
      split
      · exact never_error (by decide)
      · refine never_bind (never_refuse (by decide)) fun _ => ?_
        refine never_bind ?_ fun usage => ?_
        · unfold frameUsage
          split
          · exact never_ok
          · exact never_ok
          · split
            · exact never_ok
            · exact never_error (by decide)
        refine never_bind ?_ fun choices => ?_
        · unfold frameChoices
          split
          · exact never_ok
          · split
            · exact never_ok
            · exact never_error (by decide)
          · exact never_error (by decide)
        split
        · exact never_pure
        · split
          · exact never_pure
          · exact never_bind (never_usageEvents _ _) fun _ => never_pure

end OpenAi

theorem ownWords_openai (packages : Packages) : (openaiSseParser packages).OwnWords where
  frame := OpenAi.never_frame
  close _ := never_ok
  notUtf8 := show OpenAi.splitError .notUtf8 ≠ OpenAi.splitError .tooLarge by decide

/-! ### Messages -/

namespace Messages

variable {packages : Packages}

theorem never_wireCount (raw : Value) (key : String) (required : Bool) :
    NeverSays (splitError .tooLarge) (wireCount raw key required) := by
  unfold wireCount
  split
  · split
    · exact never_error (by decide)
    · exact never_ok
  · split
    · exact never_error (by decide)
    · exact never_ok
  · split
    · exact never_ok
    · exact never_error (by decide)

theorem never_cumulative (earlier later : Nat) :
    NeverSays (splitError .tooLarge) (cumulative earlier later) := by
  unfold cumulative
  split
  · exact never_ok
  · split
    · exact never_error (by decide)
    · exact never_ok

theorem never_cacheTiers (raw : Value) (cacheWrite : Nat) :
    NeverSays (splitError .tooLarge) (cacheTiers raw cacheWrite) := by
  unfold cacheTiers
  split
  · exact never_ok
  · exact never_ok
  · split
    · split
      · exact never_error (by decide)
      · refine never_bind (never_wireCount _ _ _) fun _ => ?_
        refine never_bind (never_wireCount _ _ _) fun _ => ?_
        split
        · exact never_pure
        · exact never_error (by decide)
    · exact never_error (by decide)

theorem never_of (raw : Value) (report : UsageReport) :
    NeverSays (splitError .tooLarge) (WireUsage.of raw report) := by
  unfold WireUsage.of
  split
  · exact never_error (by decide)
  · refine never_bind (never_wireCount _ _ _) fun _ => ?_
    refine never_bind (never_wireCount _ _ _) fun _ => ?_
    refine never_bind (never_wireCount _ _ _) fun _ => ?_
    refine never_bind (never_wireCount _ _ _) fun _ => ?_
    refine never_bind (never_cacheTiers _ _) fun tiers => ?_
    dsimp only
    split
    · exact never_pure
    · exact never_error (by decide)

theorem never_reportUsage (s : AnthropicSseParser) (raw : Value) (report : UsageReport) :
    NeverSays (splitError .tooLarge) (s.reportUsage raw report) := by
  refine never_bind (never_of raw report) fun counts => never_bind ?_ fun _ => never_pure
  refine never_bind (never_cumulative _ _) fun _ => ?_
  refine never_bind (never_cumulative _ _) fun _ => ?_
  refine never_bind (never_cumulative _ _) fun _ => ?_
  exact never_bind (never_cumulative _ _) fun _ => never_pure

theorem never_blockIndex (data : Value) : NeverSays (splitError .tooLarge) (blockIndex data) := by
  unfold blockIndex
  split
  · split
    · exact never_ok
    · exact never_error (by decide)
  · exact never_error (by decide)

theorem never_eventsOf (s : AnthropicSseParser) (event : String) (data : Value) :
    NeverSays (splitError .tooLarge) (s.eventsOf event data) := by
  unfold AnthropicSseParser.eventsOf
  split
  · exact never_ok
  · split
    · dsimp only
      split
      · exact never_bind (never_reportUsage _ _ _) fun _ => never_pure
      · exact never_ok
    · refine never_bind (never_blockIndex _) fun index => never_bind ?_ fun _ => never_pure
      unfold AnthropicSseParser.openBlock
      split
      · exact never_error (by decide)
      · exact never_ok
    · refine never_bind (never_bind (never_blockIndex _) fun index => never_bind ?_ fun _ => ?_)
        fun _ => never_pure
      · unfold AnthropicSseParser.requireOpenBlock
        split
        · exact never_ok
        · exact never_error (by decide)
      · dsimp only
        split <;> exact never_pure
    · refine never_bind (never_blockIndex _) fun index => never_bind ?_ fun _ => never_pure
      unfold AnthropicSseParser.closeBlock
      split
      · exact never_ok
      · exact never_error (by decide)
    · refine never_bind ?_ fun _ => ?_
      · unfold AnthropicSseParser.requireAllBlocksClosed
        split
        · exact never_ok
        · exact never_error (by decide)
      · split
        · exact never_pure
        · split
          · exact never_pure
          · exact never_bind (never_reportUsage _ _ _) fun _ => never_pure
    · split
      · exact never_ok
      · exact never_ok
    · exact never_ok

theorem never_frame (s : AnthropicSseParser) (sse : SseFrameV1) :
    NeverSays (splitError .tooLarge) (frame packages s sse) := by
  unfold frame
  split
  · exact never_ok
  · split
    · exact never_error (by decide)
    · exact never_eventsOf _ _ _

end Messages

theorem ownWords_anthropic (packages : Packages) : (anthropicSseParser packages).OwnWords where
  frame := Messages.never_frame
  close _ := never_ok
  notUtf8 := show Messages.splitError .notUtf8 ≠ Messages.splitError .tooLarge by decide

/-! ### Gemini -/

namespace Gemini

variable {packages : Packages}

theorem never_metaSum (left right : Nat) :
    NeverSays (splitError .tooLarge) (metaSum left right) := by
  unfold metaSum
  split
  · exact never_ok
  · exact never_error (by decide)

theorem never_usageOf (report : Value) : NeverSays (splitError .tooLarge) (usageOf report) := by
  refine never_bind (never_refuse (by decide)) fun _ => ?_
  refine never_bind (never_countUnder (by decide)) fun _ => ?_
  refine never_bind (never_countUnder (by decide)) fun _ => ?_
  refine never_bind (never_countOrZero (by decide)) fun _ => ?_
  refine never_bind (never_refuse (by decide)) fun _ => ?_
  refine never_bind (never_countOrZero (by decide)) fun _ => ?_
  refine never_bind (never_metaSum _ _) fun _ => ?_
  refine never_bind (never_countOrZero (by decide)) fun _ => ?_
  refine never_bind (never_metaSum _ _) fun _ => ?_
  refine never_bind ?_ fun _ => ?_
  · unfold candidatesCount
    split
    · exact never_countOrZero (by decide)
    · split
      · exact never_error (by decide)
      · exact never_ok
  refine never_bind (never_metaSum _ _) fun _ => ?_
  refine never_bind (never_metaSum _ _) fun _ => ?_
  exact never_bind (never_refuse (by decide)) fun _ => never_pure

theorem never_partEvents (seen : Nat) (parts : List Value) :
    NeverSays (splitError .tooLarge) (partEvents packages seen parts) := by
  induction parts generalizing seen with
  | nil => exact never_ok
  | cons part parts ih =>
      rw [partEvents]
      split
      · refine never_bind ?_ fun _ => never_bind (ih _) fun _ => never_pure
        unfold callSignature
        split
        · exact never_ok
        · exact never_ok
        · split
          · exact never_ok
          · exact never_error (by decide)
      · exact never_bind (ih _) fun _ => never_pure

theorem never_observe (report : Value) (terminal : Bool) (counts : List (String × Nat)) :
    NeverSays (splitError .tooLarge) (observe report terminal counts) := by
  induction counts with
  | nil => exact never_ok
  | cons count counts ih =>
      rw [observe]
      split
      · exact never_bind ih fun _ => never_pure
      · refine never_bind (never_countOrZero (by decide)) fun _ => ?_
        exact never_bind (never_refuse (by decide)) fun _ => never_bind ih fun _ => never_pure

theorem never_observeCounts (s : GeminiSseParser) (report : Value) (terminal : Bool) :
    NeverSays (splitError .tooLarge) (s.observeCounts report terminal) :=
  never_bind (never_refuse (by decide)) fun _ =>
    never_bind (never_observe _ _ _) fun _ => never_pure

theorem never_firstReason (candidates : List Value) :
    NeverSays (splitError .tooLarge) (firstReason candidates) := by
  induction candidates with
  | nil => exact never_ok
  | cons candidate candidates ih =>
      rw [firstReason]
      split
      · exact ih
      · split
        · exact never_ok
        · exact never_error (by decide)

theorem never_streamFinishReason (frame : Value) :
    NeverSays (splitError .tooLarge) (streamFinishReason frame) := by
  unfold streamFinishReason
  split
  · exact never_firstReason _
  · exact never_ok

theorem never_frame (s : GeminiSseParser) (sse : SseFrameV1) :
    NeverSays (splitError .tooLarge) (frame packages s sse) := by
  unfold frame
  split
  · exact never_error (by decide)
  · refine never_bind (never_refuse (by decide)) fun _ => ?_
    refine never_bind (never_partEvents _ _) fun _ => ?_
    refine never_bind (never_streamFinishReason _) fun _ => ?_
    split
    · split
      · exact never_pure
      · exact never_bind (never_observeCounts _ _ _) fun _ => never_pure
    · refine never_bind ?_ fun _ => never_pure
      unfold GeminiSseParser.terminalUsage
      split
      · exact never_ok
      · refine never_bind (never_usageOf _) fun _ => ?_
        exact never_bind (never_observeCounts _ _ _) fun _ => never_pure

end Gemini

theorem ownWords_gemini (packages : Packages) : (geminiSseParser packages).OwnWords where
  frame := Gemini.never_frame
  close _ := never_ok
  notUtf8 := show Gemini.splitError .notUtf8 ≠ Gemini.splitError .tooLarge by decide

/-! ### Responses -/

namespace ResponsesApi

variable {packages : Packages}

theorem never_usageOf (usage : Option Value) :
    NeverSays (splitError .tooLarge) (usageOf usage) := by
  unfold usageOf
  split
  · refine never_bind (never_countUnder (by decide)) fun _ => ?_
    refine never_bind (never_countUnder (by decide)) fun _ => ?_
    refine never_bind (never_countUnder (by decide)) fun _ => ?_
    refine never_bind (never_refuse (by decide)) fun _ => ?_
    refine never_bind (never_objectOrNone (by decide)) fun _ => ?_
    refine never_bind (never_objectOrNone (by decide)) fun _ => ?_
    refine never_bind (never_countOrZero (by decide)) fun _ => ?_
    refine never_bind (never_countOrZero (by decide)) fun _ => ?_
    refine never_bind (never_refuse (by decide)) fun _ => ?_
    refine never_bind (never_countOrZero (by decide)) fun _ => ?_
    exact never_bind (never_refuse (by decide)) fun _ => never_pure
  · exact never_error (by decide)

theorem never_requiredStr (value : Value) (key : String) {missing : String}
    (h : missing ≠ (splitError .tooLarge).message) :
    NeverSays (splitError .tooLarge) (requiredStr value key missing) := by
  unfold requiredStr
  split
  · exact never_ok
  · exact never_error h

theorem never_typedParts (value : Value) (key kind : String) (required : Bool) :
    NeverSays (splitError .tooLarge) (typedParts value key kind required) := by
  unfold typedParts
  split
  · refine never_mapM (fun entry => ?_) _
    unfold typedPart
    split
    · exact never_requiredStr _ _ (by decide)
    · exact never_error (by decide)
  · split
    · exact never_error (by decide)
    · exact never_ok
  · exact never_error (by decide)

theorem never_messagePart (entry : Value) :
    NeverSays (splitError .tooLarge) (messagePart entry) := by
  unfold messagePart
  split
  · exact never_requiredStr _ _ (by decide)
  · exact never_requiredStr _ _ (by decide)
  · exact never_error (by decide)

theorem never_outputItem (value : Value) : NeverSays (splitError .tooLarge) (outputItem value) := by
  unfold outputItem
  split
  · split
    · exact never_error (by decide)
    · exact never_bind (never_mapM never_messagePart _) fun _ => never_pure
  · refine never_bind (never_requiredStr _ _ (by decide)) fun _ => ?_
    refine never_bind (never_requiredStr _ _ (by decide)) fun _ => ?_
    refine never_bind ?_ fun _ => never_pure
    unfold itemArguments
    split
    · exact never_ok
    · exact never_ok
    · exact never_error (by decide)
  · refine never_bind (never_typedParts _ _ _ _) fun _ => ?_
    exact never_bind (never_typedParts _ _ _ _) fun _ => never_pure
  · exact never_error (by decide)
  · exact never_error (by decide)

theorem never_responseOf (raw : Value) : NeverSays (splitError .tooLarge) (responseOf raw) := by
  refine never_bind (never_refuse (by decide)) fun _ => ?_
  refine never_bind (never_refuse (by decide)) fun _ => ?_
  refine never_bind ?_ fun _ => ?_
  · unfold terminalStatus
    split
    · exact never_ok
    · split
      · exact never_ok
      · exact never_ok
      · exact never_error (by decide)
    · exact never_error (by decide)
  refine never_bind ?_ fun _ => ?_
  · unfold checkToolUsage
    split
    · exact never_ok
    · exact never_ok
    · split
      · exact never_refuse (by decide)
      · exact never_error (by decide)
  split
  · exact never_error (by decide)
  · refine never_bind (never_foldlM (fun read entry => ?_) _ _) fun _ => ?_
    · refine never_bind (never_outputItem entry) fun _ => ?_
      split
      · exact never_pure
      · exact never_error (by decide)
      · exact never_pure
      · exact never_pure
    · exact never_bind (never_usageOf _) fun _ => never_pure

theorem never_indexOf (frame : Value) (key : String) {invalid : String}
    (h : invalid ≠ (splitError .tooLarge).message) :
    NeverSays (splitError .tooLarge) (indexOf frame key invalid) := by
  unfold indexOf
  split
  · exact never_ok
  · exact never_error h

theorem never_itemIdOf (frame : Value) : NeverSays (splitError .tooLarge) (itemIdOf frame) := by
  unfold itemIdOf
  split
  · exact never_ok
  · exact never_error (by decide)

theorem never_textOf (frame : Value) (key : String) :
    NeverSays (splitError .tooLarge) (textOf frame key) := by
  unfold textOf
  split
  · exact never_ok
  · exact never_error (by decide)

variable (s : ResponsesStreamParser)

theorem never_bindResponse (response : Option Value) :
    NeverSays (splitError .tooLarge) (s.bindResponse response) := by
  unfold ResponsesStreamParser.bindResponse
  split
  · exact never_error (by decide)
  · split
    · exact never_error (by decide)
    · split
      · split
        · exact never_error (by decide)
        · exact never_ok
      · exact never_ok

theorem never_settleArguments (call : CallState) (arguments : String) :
    NeverSays (splitError .tooLarge) (ResponsesStreamParser.settleArguments call arguments) := by
  unfold ResponsesStreamParser.settleArguments
  split
  · exact never_error (by decide)
  · exact never_ok

theorem never_outputItemEvent (frame : Value) (done : Bool) :
    NeverSays (splitError .tooLarge) (s.outputItemEvent frame done) := by
  refine never_bind (never_indexOf _ _ (by decide)) fun _ => ?_
  split
  · exact never_error (by decide)
  · refine never_bind (never_outputItem _) fun _ => ?_
    split
    · exact never_error (by decide)
    · refine never_bind ?_ fun t => ?_
      · unfold ResponsesStreamParser.recordItem
        split
        · split
          · exact never_error (by decide)
          · exact never_ok
        · exact never_ok
      · split
        · unfold ResponsesStreamParser.callEvent
          split
          · exact never_error (by decide)
          · dsimp only
            split
            · split
              · exact never_error (by decide)
              · exact never_bind (never_settleArguments _ _) fun _ => never_pure
            · split
              · exact never_ok
              · exact never_error (by decide)
        · exact never_pure

theorem never_contentPartEvent (frame : Value) (done : Bool) :
    NeverSays (splitError .tooLarge) (s.contentPartEvent frame done) := by
  refine never_bind (never_itemIdOf _) fun _ => ?_
  refine never_bind (never_indexOf _ _ (by decide)) fun _ => ?_
  refine never_bind (never_indexOf _ _ (by decide)) fun _ => ?_
  split
  · exact never_error (by decide)
  · split
    · exact never_error (by decide)
    · dsimp only
      split
      · split
        · exact never_error (by decide)
        · exact never_pure
      · exact never_pure

theorem never_contentLocation (frame : Value) :
    NeverSays (splitError .tooLarge) (ResponsesStreamParser.contentLocation frame) := by
  refine never_bind (never_itemIdOf _) fun _ => ?_
  refine never_bind (never_indexOf _ _ (by decide)) fun _ => ?_
  exact never_bind (never_indexOf _ _ (by decide)) fun _ => never_pure

theorem never_argumentsEvent (frame : Value) (done : Bool) :
    NeverSays (splitError .tooLarge) (s.argumentsEvent frame done) := by
  refine never_bind (never_itemIdOf _) fun _ => ?_
  refine never_bind (never_indexOf _ _ (by decide)) fun _ => ?_
  refine never_bind (never_textOf _ _) fun _ => ?_
  split
  · exact never_error (by decide)
  · split
    · exact never_error (by decide)
    · split
      · refine never_bind ?_ fun _ => ?_
        · unfold ResponsesStreamParser.checkName
          split
          · exact never_ok
          · exact never_ok
          · exact never_refuse (by decide)
        · exact never_bind (never_settleArguments _ _) fun _ => never_pure
      · split <;> exact never_pure

theorem never_reasoningEvent (frame : Value) (content done : Bool) :
    NeverSays (splitError .tooLarge) (s.reasoningEvent frame content done) := by
  refine never_bind (never_itemIdOf _) fun _ => ?_
  refine never_bind (never_indexOf _ _ (by decide)) fun _ => ?_
  refine never_bind (never_indexOf _ _ (by decide)) fun _ => ?_
  refine never_bind (never_textOf _ _) fun _ => ?_
  split <;> exact never_pure

theorem never_terminal (frame : Value) (status : String) :
    NeverSays (splitError .tooLarge) (s.terminal frame status) := by
  refine never_bind (never_bindResponse _ _) fun _ => ?_
  refine never_bind (never_refuse (by decide)) fun _ => ?_
  exact never_bind (never_responseOf _) fun _ => never_pure

theorem never_dispatch (kind : String) (frame : Value) :
    NeverSays (splitError .tooLarge) (s.dispatch kind frame) := by
  unfold ResponsesStreamParser.dispatch
  have hdone : ∀ key, NeverSays (splitError .tooLarge) (s.textDone frame key) := fun key =>
    never_bind (never_contentLocation _) fun _ => never_bind (never_textOf _ _) fun _ => never_pure
  have hdelta : NeverSays (splitError .tooLarge) (s.textDelta frame) :=
    never_bind (never_contentLocation _) fun _ => never_bind (never_textOf _ _) fun _ => never_pure
  have hsummary : NeverSays (splitError .tooLarge) (s.summaryPart frame) := by
    refine never_bind (never_itemIdOf _) fun _ => ?_
    refine never_bind (never_indexOf _ _ (by decide)) fun _ => ?_
    refine never_bind (never_indexOf _ _ (by decide)) fun _ => ?_
    exact never_bind (never_refuse (by decide)) fun _ => never_pure
  have hannotation : NeverSays (splitError .tooLarge) (s.annotation frame) := by
    refine never_bind (never_contentLocation _) fun _ => ?_
    refine never_bind (never_indexOf _ _ (by decide)) fun _ => ?_
    exact never_bind (never_refuse (by decide)) fun _ => never_pure
  split
  case h_1 | h_2 | h_3 =>
    exact never_bind (never_bindResponse _ _) fun _ => never_pure
  all_goals
    first
    | exact never_terminal _ _ _
    | exact never_outputItemEvent _ _ _
    | exact never_contentPartEvent _ _ _
    | exact hdelta
    | exact hdone _
    | exact hannotation
    | exact never_argumentsEvent _ _ _
    | exact hsummary
    | exact never_reasoningEvent _ _ _ _
    | exact never_error (by decide)

theorem never_frame (sse : SseFrameV1) :
    NeverSays (splitError .tooLarge) (frame packages s sse) := by
  unfold frame
  split
  · exact never_error (by decide)
  · unfold readFrame
    split
    · exact never_error (by decide)
    · dsimp only
      split
      · split <;> exact never_error (by decide)
      · split
        · exact never_error (by decide)
        · split
          · refine never_bind ?_ fun _ => never_pure
            unfold ResponsesStreamParser.bindFailed
            split
            · exact never_bindResponse _ _
            · exact never_ok
          · unfold numbered
            split
            · exact never_error (by decide)
            · split
              · exact never_error (by decide)
              · refine never_bind (never_bind (never_indexOf _ _ (by decide)) fun _ => ?_)
                  fun _ => never_dispatch _ _ _
                exact never_bind (never_refuse (by decide)) fun _ => never_pure

end ResponsesApi

theorem ownWords_responses (packages : Packages) :
    (responsesStreamDialect packages).OwnWords where
  frame := ResponsesApi.never_frame
  close s := by
    unfold responsesStreamDialect
    dsimp only
    split
    · exact never_ok
    · intro same
      exact absurd (Except.error.inj same) (by decide)
  notUtf8 :=
    show ResponsesApi.splitError .notUtf8 ≠ ResponsesApi.splitError .tooLarge by decide

end TokenStation.Provider
