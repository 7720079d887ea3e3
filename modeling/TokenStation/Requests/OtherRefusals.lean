import TokenStation.Requests.ClaudeRequests
import TokenStation.Requests.ResponsesRequest

/-!
# Refusals that are not about the tool choice

Everything a component refuses besides the tool choice, in its messages or in its
parameters, it refuses in other words.
-/

namespace TokenStation.Requests

open Library Library.Checked Library.Json Responses

/-- Not refused for a forced tool choice. -/
def Unforced {α : Type} (x : Except ErrorEnvelope α) : Prop :=
  x ≠ .error (capability forcedToolRefusal)

namespace Unforced

variable {α β : Type}

theorem ok (a : α) : Unforced (.ok a : Except ErrorEnvelope α) := by
  intro h
  cases h

theorem bind {x : Except ErrorEnvelope α} {f : α → Except ErrorEnvelope β} (hx : Unforced x)
    (hf : ∀ a, Unforced (f a)) : Unforced (x >>= f) := by
  intro h
  rcases bind_eq_error.mp h with h | ⟨a, -, h⟩
  · exact hx h
  · exact hf a h

theorem mapM {f : α → Except ErrorEnvelope β} (hf : ∀ a, Unforced (f a)) (l : List α) :
    Unforced (l.mapM f) := by
  induction l with
  | nil => exact ok []
  | cons a l ih =>
      rw [List.mapM_cons]
      exact (hf a).bind fun b => ih.bind fun bs => ok (b :: bs)

theorem map {x : Except ErrorEnvelope α} {f : α → β} (hx : Unforced x) : Unforced (x.map f) := by
  cases x with
  | ok a => exact ok _
  | error e =>
      intro h
      cases h
      exact hx rfl

theorem forM {f : α → Except ErrorEnvelope Unit} (hf : ∀ a, Unforced (f a)) (l : List α) :
    Unforced (l.forM f) := by
  induction l with
  | nil => exact ok ()
  | cons a l ih => exact (hf a).bind fun _ => ih

theorem foldlM {f : β → α → Except ErrorEnvelope β} (hf : ∀ b a, Unforced (f b a)) (b : β)
    (l : List α) : Unforced (l.foldlM f b) := by
  induction l generalizing b with
  | nil => exact ok b
  | cons a l ih =>
      rw [List.foldlM_cons]
      exact (hf b a).bind ih

theorem optionMapM {f : α → Except ErrorEnvelope β} (hf : ∀ a, Unforced (f a)) (a : Option α) :
    Unforced (a.mapM f) := by
  cases a with
  | none => exact ok none
  | some a => exact (hf a).bind fun b => ok (some b)

/-- An error of another code or text. -/
theorem error {e : ErrorEnvelope}
    (h : e.code ≠ .capability ∨ e.message.toList.head? ≠ some 't' ∨ e.message ≠ forcedToolRefusal) :
    Unforced (.error e : Except ErrorEnvelope α) := by
  intro heq
  cases heq
  rcases h with h | h | h
  · exact h rfl
  · exact h (by simp [capability, forcedToolRefusal])
  · exact h rfl

theorem refuse {c : Prop} [Decidable c] {e : ErrorEnvelope}
    (h : Unforced (.error e : Except ErrorEnvelope Unit)) : Unforced (Checked.refuse c e) := by
  unfold Checked.refuse
  split
  · exact h
  · exact ok ()

theorem internal {x : Except String α} : Unforced (x.mapError Requests.internal) := by
  cases x with
  | ok a => exact ok a
  | error text => exact error (.inl (show ErrorCode.internal ≠ .capability by decide))

theorem headersOf (kernel : Kernel) (headers : List (String × String)) :
    Unforced (Requests.headersOf kernel headers) := internal.bind fun _ => ok headers

theorem authHeader (kernel : Kernel) (name : String) (auth : Auth) :
    Unforced (Requests.authHeader kernel name auth) := internal.bind fun _ => ok (some auth)

end Unforced

/-- A refusal whose text begins differently. -/
theorem unforced_capability {α : Type} (first : Char) (text : String) (rest : String)
    (h : text.toList.head? = some first) (hfirst : first ≠ 't') :
    Unforced (.error (capability (text ++ rest)) : Except ErrorEnvelope α) := by
  refine Unforced.error (.inr (.inl ?_))
  change (text ++ rest).toList.head? ≠ some 't'
  rw [String.toList_append, List.head?_append, h, Option.some_or]
  exact fun heq => hfirst (Option.some.inj heq)

theorem unforced_text {α : Type} {text : String} (h : text ≠ forcedToolRefusal) :
    Unforced (.error (capability text) : Except ErrorEnvelope α) :=
  Unforced.error (.inr (.inr h))

theorem unforced_thinking (dialect : Dialect) (request : ChatRequest) (maxTokens : Option Nat)
    (verbatim : Bool) : Unforced (dialect.thinking request maxTokens verbatim) := by
  unfold Dialect.thinking
  split
  · exact Unforced.ok _
  · split
    · rename_i effort _ _
      have hlevel : Unforced (Level.of effort) := by
        unfold Level.of
        split_ifs
        iterate 5 exact Unforced.ok _
        rw [String.append_assoc]
        exact unforced_capability 'u' _ _ (by simp) (by decide)
      split
      · rename_i heq
        intro h
        cases h
        exact hlevel heq
      · split
        · exact Unforced.ok _
        · exact Unforced.ok _
    · exact Unforced.ok _

/-! ## Messages -/

theorem unforced_unmappablePart {α : Type} (wire : String) (value : Value) :
    Unforced (.error (unmappablePart wire value) : Except ErrorEnvelope α) := by
  unfold unmappablePart
  rw [String.append_assoc, String.append_assoc, String.append_assoc]
  exact unforced_capability 'c' _ _ (by simp) (by decide)

theorem unforced_layoutOf {α : Type} (layout : Except Unit α) : Unforced (layoutOf layout) := by
  cases layout with
  | ok a => exact Unforced.ok a
  | error => exact unforced_text (by simp [forcedToolRefusal])

theorem unforced_messageToOpenai (rendering : Rendering) (requiresReasoningContent : Bool)
    (message : Message) :
    Unforced (OpenAi.messageToOpenai rendering requiresReasoningContent message) := by
  refine Unforced.bind (Unforced.forM (fun part => ?_) _) fun _ => Unforced.ok _
  cases part with
  | unknown value => exact Unforced.refuse (unforced_unmappablePart _ value)
  | _ => exact Unforced.ok ()

namespace OpenAiResponses

theorem unforced_unmappableIr {α : Type} (kind role : String) :
    Unforced (.error (unmappableIr kind role) : Except ErrorEnvelope α) := by
  unfold unmappableIr
  rw [String.append_assoc, String.append_assoc, String.append_assoc]
  exact unforced_capability 'a' _ _ (by simp) (by decide)

theorem unforced_refusedReference {value : Value} {refusal : ErrorEnvelope}
    (h : refusedReference value = some refusal) :
    Unforced (.error refusal : Except ErrorEnvelope Unit) := by
  unfold refusedReference at h
  split_ifs at h
  · cases h
    exact unforced_text (by simp [forcedToolRefusal])
  · cases h
    exact unforced_text (by simp [forcedToolRefusal])

/-- A part that is no text is refused as a reference or by its kind. -/
theorem unforced_unknown (value : Value) :
    Unforced (.error ((refusedReference value).getD (unmappable value)) :
      Except ErrorEnvelope Unit) := by
  cases h : refusedReference value with
  | some refusal => exact unforced_refusedReference h
  | none => exact unforced_unmappablePart _ value

theorem unforced_checkTextPart (role : String) (part : ContentPart) :
    Unforced (checkTextPart role part) := by
  cases part with
  | text => exact Unforced.ok ()
  | unknown value => exact unforced_unknown value
  | _ => exact unforced_unmappableIr _ role

theorem unforced_textOnly (rendering : Rendering) (role : String) (content : Option Content) :
    Unforced (textOnly rendering role content) :=
  (Unforced.forM (unforced_checkTextPart role) _).bind fun _ => Unforced.ok _

theorem unforced_checkUserPart (part : ContentPart) : Unforced (checkUserPart part) := by
  cases part with
  | text => exact Unforced.ok ()
  | imageUrl => exact Unforced.ok ()
  | unknown value =>
      rw [checkUserPart]
      split
      · rename_i refusal h
        exact unforced_refusedReference h
      · exact Unforced.refuse (unforced_unmappablePart _ value)
  | _ => exact unforced_unmappableIr _ _

theorem unforced_checkAssistantPart (part : ContentPart) :
    Unforced (checkAssistantPart part) := by
  cases part with
  | imageUrl => exact unforced_unmappableIr _ _
  | unknown value => exact unforced_unknown value
  | _ => exact Unforced.ok ()

theorem unforced_inputItems (rendering : Rendering) (messages : List Message) :
    Unforced (inputItems rendering messages) := by
  refine Unforced.bind (Unforced.forM (fun message => ?_) _) fun _ => Unforced.ok _
  unfold checkMessage
  split
  · exact Unforced.forM (unforced_checkTextPart _) _
  · exact Unforced.forM unforced_checkUserPart _
  · refine (unforced_layoutOf _).bind fun layout => ?_
    split_ifs
    · exact Unforced.ok ()
    · exact Unforced.forM unforced_checkAssistantPart _
  · exact (Unforced.refuse (unforced_text (by simp [forcedToolRefusal]))).bind fun _ =>
      Unforced.forM (unforced_checkTextPart _) _

end OpenAiResponses

theorem Anthropic.unforced_checkToolUse (call : ToolCall) : Unforced (checkToolUse call) :=
  (Unforced.refuse (unforced_text (by simp [forcedToolRefusal]))).bind fun _ =>
    Unforced.refuse (unforced_text (by simp [forcedToolRefusal]))

theorem Anthropic.unforced_conversationOf (rendering : Rendering) (request : ChatRequest) :
    Unforced (conversationOf rendering request) := by
  refine Unforced.bind (Unforced.forM (fun message => ?_) _) fun _ => Unforced.ok _
  unfold checkMessage
  split
  · exact Unforced.ok ()
  · exact Unforced.ok ()
  · refine (unforced_layoutOf _).bind fun layout => ?_
    cases layout with
    | none => exact Unforced.forM unforced_checkToolUse _
    | some turn =>
        refine Unforced.forM (fun entry => ?_) turn
        cases entry with
        | content part => exact Unforced.refuse (unforced_text (by simp [forcedToolRefusal]))
        | tool call => exact unforced_checkToolUse call
  · exact Unforced.refuse (unforced_text (by simp [forcedToolRefusal]))

namespace Converse

theorem unforced_checkPart (allowReplay : Bool) (part : ContentPart) :
    Unforced (checkPart allowReplay part) := by
  cases part with
  | imageUrl imageUrl =>
      refine Unforced.map ?_
      unfold checkImage
      split
      · exact unforced_text (by simp [forcedToolRefusal])
      · split
        · exact unforced_text (by simp [forcedToolRefusal])
        · refine Unforced.refuse ?_
          rw [String.append_assoc]
          exact unforced_capability 'C' _ _ (by simp) (by decide)
  | thinking text signature =>
      unfold checkPart
      split_ifs
      · exact (Unforced.refuse (unforced_text (by simp [forcedToolRefusal]))).bind fun _ => Unforced.ok _
      · exact Unforced.ok _
  | _ => exact Unforced.ok _

theorem unforced_checkToolUse (kernel : Kernel) (call : ToolCall) :
    Unforced (checkToolUse kernel call) :=
  (Unforced.refuse (unforced_text (by simp [forcedToolRefusal]))).bind fun _ =>
    (Unforced.refuse (unforced_text (by simp [forcedToolRefusal]))).bind fun _ =>
      Unforced.refuse (unforced_text (by simp [forcedToolRefusal]))

theorem unforced_conversationOf (kernel : Kernel) (rendering : Rendering) (request : ChatRequest)
    (points : CachePoints) : Unforced (conversationOf kernel rendering request points) := by
  refine Unforced.bind (Unforced.foldlM (fun calls message => ?_) _ _) fun _ => Unforced.ok _
  unfold checkMessage
  split
  · exact Unforced.ok _
  · split
    · exact unforced_text (by simp [forcedToolRefusal])
    · refine (Unforced.refuse (unforced_text (by simp [forcedToolRefusal]))).bind fun _ =>
        (Unforced.refuse ?_).bind fun _ => Unforced.ok _
      rw [String.append_assoc]
      exact unforced_capability 'a' _ _ (by simp) (by decide)
  · exact (Unforced.forM (fun part => (unforced_checkPart false part).map) _).bind
      fun _ => Unforced.ok _
  · refine (unforced_layoutOf _).bind fun turn => Unforced.bind ?_ fun _ => Unforced.ok _
    unfold checkTurn
    cases turn with
    | none => exact Unforced.forM (unforced_checkToolUse kernel) _
    | some turn =>
        refine Unforced.forM (fun entry => ?_) turn
        cases entry with
        | content part =>
            exact (unforced_checkPart true part).bind fun _ =>
              Unforced.refuse (unforced_text (by simp [forcedToolRefusal]))
        | tool call => exact unforced_checkToolUse kernel call

end Converse

/-! ## Requests -/

section Rests

variable {kernel : Kernel} {rendering : Rendering} {request : ChatRequest}
  {config : ProviderConfig}

theorem unforced_openAi : Unforced (OpenAi.descriptorOf kernel rendering request config) := by
  unfold OpenAi.descriptorOf
  have hurl : Unforced (OpenAi.urlOf kernel request config) := by
    unfold OpenAi.urlOf OpenAi.azureDatedUrl
    split_ifs
    iterate 4 exact Unforced.ok _
    · refine Unforced.bind (Unforced.refuse ?_) fun _ => Unforced.bind (Unforced.refuse ?_)
        fun _ => Unforced.ok _
      · exact Unforced.error (.inl (by decide))
      · exact unforced_text (by simp [forcedToolRefusal])
    · exact Unforced.ok _
  have hbody : Unforced (OpenAi.bodyOf kernel rendering request config) := by
    unfold OpenAi.bodyOf OpenAi.capField
    refine Unforced.bind ?_ fun _ => Unforced.bind (Unforced.mapM ?_ _) fun _ => Unforced.ok _
    · dsimp only
      split_ifs
      · exact Unforced.ok _
      · exact Unforced.ok _
      · exact Unforced.error (.inl (by decide))
      · exact Unforced.ok _
    · exact unforced_messageToOpenai rendering _
  have hsplit (body : Body) : Unforced (OpenAi.splitBailianCap request config body) := by
    unfold OpenAi.splitBailianCap
    split_ifs
    · exact Unforced.ok _
    · dsimp only
      split
      · exact Unforced.ok _
      · refine Unforced.bind (Unforced.refuse (unforced_text (by simp [forcedToolRefusal]))) fun _ =>
          Unforced.bind ?_ fun _ => Unforced.ok _
        unfold OpenAi.clientBudget
        split
        · exact Unforced.ok _
        · exact Unforced.ok _
        · split
          · exact Unforced.ok _
          · exact unforced_text (by simp [forcedToolRefusal])
  have hauth : Unforced (OpenAi.authOf kernel config) := by
    unfold OpenAi.authOf
    split_ifs
    · exact Unforced.ok _
    · split
      · exact Unforced.authHeader kernel _ _
      · exact Unforced.ok _
    · split
      · exact Unforced.authHeader kernel _ _
      · exact Unforced.ok _
    · rw [String.append_assoc]
      exact unforced_capability 'u' _ _ (by simp) (by decide)
  exact hurl.bind fun _ => (Unforced.headersOf kernel _).bind fun _ => hbody.bind fun _ =>
    (hsplit _).bind fun _ => hauth.bind fun _ => Unforced.ok _

theorem unforced_clientFields (body : Body) :
    Unforced (OpenAiResponses.clientFields request body) := by
  have hfield {check : String → Value → Except ErrorEnvelope Unit}
      (hcheck : ∀ field value, Unforced (check field value)) (field : String) (body : Body) :
      Unforced (OpenAiResponses.clientField check request field body) := by
    unfold OpenAiResponses.clientField
    split
    · exact Unforced.ok _
    · exact (hcheck _ _).bind fun _ => Unforced.ok _
  have hinvalid (field detail : String) :
      Unforced (.error (OpenAiResponses.invalidField field detail) : Except ErrorEnvelope Unit) :=
    Unforced.error (.inl (show ErrorCode.invalidRequest ≠ .capability by decide))
  have htext (field : String) (value : Value) :
      Unforced (OpenAiResponses.checkText field value) := by
    unfold OpenAiResponses.checkText
    split
    · exact hinvalid _ _
    · exact Unforced.refuse (hinvalid _ _)
  have hmetadata (field : String) (value : Value) :
      Unforced (OpenAiResponses.checkMetadata field value) := by
    unfold OpenAiResponses.checkMetadata
    split
    · exact hinvalid _ _
    · exact (Unforced.refuse (hinvalid _ _)).bind fun _ => Unforced.refuse (hinvalid _ _)
  have htruncation (field : String) (value : Value) :
      Unforced (OpenAiResponses.checkTruncation field value) := Unforced.refuse (hinvalid _ _)
  exact (hfield htext _ _).bind fun _ => (hfield hmetadata _ _).bind fun _ =>
    (hfield htext _ _).bind fun _ => hfield htruncation _ _

theorem unforced_openAiResponses (codex : Bool) :
    Unforced (OpenAiResponses.descriptorOf kernel rendering request config codex) := by
  unfold OpenAiResponses.descriptorOf
  have hchoice (choice : ToolChoice) : Unforced (OpenAiResponses.toolChoice choice) := by
    unfold OpenAiResponses.toolChoice
    split
    iterate 3 exact Unforced.ok _
    split
    · exact Unforced.ok _
    · exact unforced_text (by simp [forcedToolRefusal])
  have hformat (format : ResponseFormat) : Unforced (OpenAiResponses.textFormat format) := by
    unfold OpenAiResponses.textFormat
    split
    · exact Unforced.ok _
    · exact Unforced.ok _
    · split_ifs
      · exact Unforced.ok _
      · exact unforced_text (by simp [forcedToolRefusal])
  have hfields (body : Body) :
      Unforced (OpenAiResponses.clientFieldsUnless codex request body) := by
    unfold OpenAiResponses.clientFieldsUnless
    split_ifs
    · exact Unforced.ok _
    · exact unforced_clientFields body
  have hstop : Unforced (refuse (request.sampling.stop ≠ []) (capability
      "OpenAI Responses does not support stop sequences; remove \x60stop\x60 from the request")) :=
    Unforced.refuse (unforced_text (by simp [forcedToolRefusal]))
  have hbody : Unforced (OpenAiResponses.bodyOf rendering request config codex) := by
    have htexts (messages : List Message) : Unforced (messages.mapM fun message =>
        OpenAiResponses.textOnly rendering "system" message.content) :=
      Unforced.mapM (fun message => OpenAiResponses.unforced_textOnly rendering _ message.content)
        messages
    unfold OpenAiResponses.bodyOf
    exact (htexts _).bind fun _ => (OpenAiResponses.unforced_inputItems rendering _).bind fun _ =>
      (Unforced.optionMapM hchoice _).bind fun _ =>
      (Unforced.optionMapM hformat _).bind fun _ => (hfields _).bind fun _ =>
      hstop.bind fun _ => Unforced.ok _
  exact (Unforced.refuse (unforced_text (by simp [forcedToolRefusal]))).bind fun _ =>
    (Unforced.refuse (unforced_text (by simp [forcedToolRefusal]))).bind fun _ =>
    (Unforced.refuse (unforced_text (by simp [forcedToolRefusal]))).bind fun _ =>
    hbody.bind fun _ => (Unforced.headersOf kernel _).bind fun _ => Unforced.ok _

theorem unforced_anthropic (dialect : Dialect) :
    Unforced (Anthropic.bodyOf kernel rendering request dialect) := by
  have huser : Unforced (Anthropic.endUserHash request) := by
    unfold Anthropic.endUserHash
    split
    · exact Unforced.ok _
    · split_ifs
      · exact Unforced.ok _
      · exact Unforced.error (.inl (by decide))
  unfold Anthropic.bodyOf
  exact (Anthropic.unforced_conversationOf rendering request).bind fun _ =>
    (unforced_thinking _ _ _ _).bind fun _ => huser.bind fun _ => Unforced.ok _

theorem unforced_anthropicAuth (family : Anthropic.Family) :
    Unforced (Anthropic.authOf kernel config family) := by
  unfold Anthropic.authOf
  split
  · exact Unforced.ok _
  · exact Unforced.ok _
  · exact Unforced.authHeader kernel _ _
  · exact Unforced.authHeader kernel _ _

theorem unforced_converse (dialect : Dialect) (points : CachePoints) :
    Unforced (Converse.bodyOf kernel rendering request dialect points) := by
  unfold Converse.bodyOf
  exact (Converse.unforced_conversationOf kernel rendering request points).bind fun _ =>
    (unforced_thinking _ _ _ _).bind fun _ => Unforced.ok _

end Rests

end TokenStation.Requests
