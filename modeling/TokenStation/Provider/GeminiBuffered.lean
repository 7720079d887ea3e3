import TokenStation.Provider.GeminiGrammar
import TokenStation.Provider.Judging
import TokenStation.Provider.WrittenFrames
import TokenStation.Responses.Assembly

/-!
# Streamed and buffered Gemini answers

A buffered answer and the chunks its parts are cut into are read by two walks:
one over all parts, and one that carries the number of calls from chunk to
chunk. The events of the chunks assemble to the buffered answer.
-/

namespace TokenStation.Responses

/-- A fragment with an id begins a call; one without goes on with the last. -/
def addFragment (calls : List ToolCall) : StreamEvent → List ToolCall
  | .toolCallDelta _ (some id) name arguments signature =>
      calls ++ [⟨id, name.getD "", arguments, signature⟩]
  | .toolCallDelta _ none _ arguments _ =>
      match calls.getLast? with
      | none => calls
      | some call => calls.dropLast ++ [{ call with arguments := call.arguments ++ arguments }]
  | _ => calls

/-- The calls of a stream whose fragments come call by call. -/
def assembledCalls (events : List StreamEvent) : List ToolCall := events.foldl addFragment []

end TokenStation.Responses

namespace TokenStation.Provider

open Library Library.ChunkedReading Library.Json Library.Text Responses Sse

namespace Gemini

/-! ## Bodies and their chunks -/

/-- An object with one candidate: its parts, its finish reason, its report. -/
structure Holds (frame : Value) (parts : List Value) (reason : Value) (report : Option Value) :
    Prop where
  candidate : ∃ candidate, frame.get "candidates" = some (.array [candidate]) ∧
    ((candidate.field "content").field "parts").asArray.getD [] = parts ∧
    candidate.field "finishReason" = reason
  report : frame.get "usageMetadata" = report

/-- Chunks that carry the parts of a body in order, the last of them its
finish reason and its report. -/
def IsCut (raw : Value) (frames : List Value) : Prop :=
  ∃ (pieces : List (List Value)) (rest : List Value) (reason : String) (report : Option Value)
    (begun : List Value) (last : Value),
    Holds raw (pieces.flatten ++ rest) (.string reason) report ∧
      frames = begun ++ [last] ∧
      List.Forall₂ (fun frame piece => Holds frame piece .null none) begun pieces ∧
      Holds last rest (.string reason) report

/-- The events assemble to the answer's one choice. -/
structure Assembles (events : List StreamEvent) (response : ChatResponse) : Prop where
  choice : ∃ choice, response.choices = [choice] ∧
    String.join (streamedText events) =
        String.join ((partsIn choice.message).filterMap (·.asText)) ∧
      String.join (streamedThinking events) =
        String.join ((partsIn choice.message).filterMap (·.asThinking)) ∧
      assembledCalls events = choice.message.toolCalls ∧
      ∃ content, events = content ++ [.finish choice.finishReason none, .usage response.usage,
        .done none none] ∧ ∀ event ∈ content, event.isSpoken = true

/-! ## The two walks over parts -/

variable {packages : Packages}

/-- The thinking texts of an answer read so far. -/
def AnswerRead.thoughts (read : AnswerRead) : String :=
  String.join (read.thinking.filterMap (·.asThinking))

/-- These events lead from one reading to the other. -/
structure Leads (events : List StreamEvent) (read next : AnswerRead) : Prop where
  text : String.join next.text = String.join read.text ++ String.join (streamedText events)
  thoughts : next.thoughts = read.thoughts ++ String.join (streamedThinking events)
  calls : events.foldl addFragment read.toolCalls = next.toolCalls

theorem leads_refl (read : AnswerRead) : Leads [] read read :=
  ⟨by simp [streamedText], by simp [streamedThinking], rfl⟩

theorem Leads.trans {events more : List StreamEvent} {read between next : AnswerRead}
    (h : Leads events read between) (h' : Leads more between next) :
    Leads (events ++ more) read next where
  text := by rw [h'.text, h.text, streamedText_append, String.join_append, String.append_assoc]
  thoughts := by
    rw [h'.thoughts, h.thoughts, streamedThinking_append, String.join_append,
      String.append_assoc]
  calls := by rw [List.foldl_append, h.calls, h'.calls]

theorem textEvent_calls (part : Value) (calls : List ToolCall) :
    (textEvent part).toList.foldl addFragment calls = calls := by
  unfold textEvent
  cases (part.field "text").asStr.filter fun text => !text.isEmpty with
  | none => rfl
  | some text =>
      rw [Option.map_some, Option.toList_some, List.foldl_cons, List.foldl_nil]
      split <;> rfl

/-- A part that is no call: an empty text is kept by the one walk and passed
over by the other. -/
theorem textPart_ok {read next : AnswerRead} {part : Value}
    (h : (match (part.field "text").asStr with
      | none => .ok read
      | some body =>
          if (part.field "thought").asBool = some true then
            .ok { read with thinking := read.thinking ++
              [.thinking body (part.field "thoughtSignature").asStr] }
          else .ok { read with text := read.text ++ [body] } : Except ErrorEnvelope AnswerRead) =
        .ok next) :
    next.toolCalls = read.toolCalls ∧ Leads (textEvent part).toList read next := by
  have hcalls := textEvent_calls part read.toolCalls
  suffices hsuffices : next.toolCalls = read.toolCalls ∧
      String.join next.text =
        String.join read.text ++ String.join (streamedText (textEvent part).toList) ∧
      next.thoughts =
        read.thoughts ++ String.join (streamedThinking (textEvent part).toList) from
    ⟨hsuffices.1, hsuffices.2.1, hsuffices.2.2, hcalls.trans hsuffices.1.symm⟩
  clear hcalls
  unfold textEvent
  cases htext : (part.field "text").asStr with
  | none =>
      rw [htext] at h
      cases h
      simp [streamedText, streamedThinking]
  | some body =>
      have hkept : body ≠ "" → (some body).filter (fun text => !text.isEmpty) = some body :=
        fun hne => by simp [Option.filter, hne]
      have hdropped : (some "").filter (fun text => !String.isEmpty text) = none := by decide
      by_cases hthought : (part.field "thought").asBool = some true
      · simp only [htext, hthought, if_true, Except.ok.injEq] at h
        subst h
        by_cases hempty : body = ""
        · simp [hempty, hdropped, streamedText, streamedThinking, AnswerRead.thoughts,
            ContentPart.asThinking]
        · simp [hkept hempty, hthought, streamedText, streamedThinking, AnswerRead.thoughts,
            ContentPart.asThinking]
      · simp only [htext, hthought, if_false, Except.ok.injEq] at h
        subst h
        by_cases hempty : body = ""
        · simp [hempty, hdropped, streamedText, streamedThinking, AnswerRead.thoughts]
        · simp [hkept hempty, hthought, streamedText, streamedThinking, AnswerRead.thoughts]

/-- One walk from where the other has come to. -/
theorem walks_agree {parts : List Value} {read next : AnswerRead}
    (h : parts.foldlM (readPart packages) read = .ok next) :
    ∃ events, partEvents packages read.toolCalls.length parts =
        .ok (events, next.toolCalls.length) ∧ Leads events read next := by
  induction parts generalizing read with
  | nil =>
      cases h
      exact ⟨[], rfl, leads_refl _⟩
  | cons part parts ih =>
      rw [List.foldlM_cons, Checked.bind_eq_ok] at h
      obtain ⟨between, hpart, hrest⟩ := h
      obtain ⟨events, hevents, hleads⟩ := ih hrest
      unfold readPart at hpart
      rw [partEvents]
      cases hcall : part.get "functionCall" with
      | some call =>
          simp only [hcall, Checked.bind_eq_ok, Checked.pure_eq_ok] at hpart
          obtain ⟨signature, hsignature, rfl⟩ := hpart
          rw [List.length_append, List.length_singleton] at hevents
          refine ⟨[.toolCallDelta (min read.toolCalls.length (2 ^ 32 - 1))
            (some (syntheticCallId read.toolCalls.length ((call.field "name").asStr.getD "")))
            (some ((call.field "name").asStr.getD "")) (argumentsText packages call)
            signature] ++ events, ?_, Leads.trans ?_ hleads⟩
          · simp [hsignature, hevents, bind, Except.bind, pure, Except.pure]
          · exact ⟨by simp [streamedText], by simp [streamedThinking, AnswerRead.thoughts],
              by simp [addFragment]⟩
      | none =>
          simp only [hcall] at hpart
          obtain ⟨hcalls, hthis⟩ := textPart_ok hpart
          rw [hcalls] at hevents
          exact ⟨(textEvent part).toList ++ events,
            by simp [hevents, bind, Except.bind, pure, Except.pure], hthis.trans hleads⟩

/-! ## The chunks of a body -/

theorem holds_first {frame : Value} {parts : List Value} {reason : Value}
    {report : Option Value} (h : Holds frame parts reason report) :
    (((firstOf (frame.field "candidates")).field "content").field "parts").asArray.getD [] =
        parts ∧
      streamFinishReason frame = firstReason [firstOf (frame.field "candidates")] ∧
      (firstOf (frame.field "candidates")).field "finishReason" = reason := by
  obtain ⟨candidate, hcandidates, hparts, hreason⟩ := h.candidate
  have hfield : frame.field "candidates" = .array [candidate] := by
    simp [Value.field, hcandidates]
  have hfirst : firstOf (frame.field "candidates") = candidate := by
    simp [firstOf, hfield, Value.asArray]
  rw [hfirst]
  exact ⟨hparts, by simp [streamFinishReason, hfield, Value.asArray], hreason⟩

/-- An intermediate chunk gives the events of its parts. -/
theorem eventsOf_begun {s : GeminiSseParser} {frame : Value} {piece : List Value}
    (hopen : s.terminated = false) (h : Holds frame piece .null none)
    {events : List StreamEvent} {seen : Nat}
    (hparts : partEvents packages s.toolCallsSeen piece = .ok (events, seen)) :
    s.eventsOf packages frame = .ok (events, { s with toolCallsSeen := seen }) := by
  obtain ⟨hpiece, hreason, hnull⟩ := holds_first h
  have hnone : streamFinishReason frame = .ok none := by
    rw [hreason, firstReason, hnull]
    rfl
  unfold GeminiSseParser.eventsOf
  simp only [hopen, Bool.false_eq_true, refuseWhen, Checked.refuse, if_false, hpiece, hparts,
    hnone, h.report, bind, Except.bind, pure, Except.pure]

theorem metaCount_of_candidates {report : Value} {known total count : Nat}
    (h : candidatesCount report known total = .ok count) :
    ∃ n, metaCount report "candidatesTokenCount" = .ok n := by
  unfold candidatesCount at h
  split at h
  · exact ⟨count, h⟩
  · rename_i hnone
    exact ⟨0, by simp [metaCount, countOrZero, hnone]⟩

/-- A usage report that is read has all its counts. -/
theorem metaCount_of_usage {report : Value} {usage : Usage} (h : usageOf report = .ok usage) :
    ∀ key ∈ streamUsageCounts, ∃ n, metaCount report key = .ok n := by
  rw [usageOf, Checked.bind_eq_ok] at h
  obtain ⟨_, -, h⟩ := h
  rw [Checked.bind_eq_ok] at h
  obtain ⟨prompt, hprompt, h⟩ := h
  rw [Checked.bind_eq_ok] at h
  obtain ⟨total, htotal, h⟩ := h
  rw [Checked.bind_eq_ok] at h
  obtain ⟨cached, hcached, h⟩ := h
  rw [Checked.bind_eq_ok] at h
  obtain ⟨_, -, h⟩ := h
  rw [Checked.bind_eq_ok] at h
  obtain ⟨toolUse, htoolUse, h⟩ := h
  rw [Checked.bind_eq_ok] at h
  obtain ⟨input, -, h⟩ := h
  rw [Checked.bind_eq_ok] at h
  obtain ⟨thoughts, hthoughts, h⟩ := h
  rw [Checked.bind_eq_ok] at h
  obtain ⟨known, -, h⟩ := h
  rw [Checked.bind_eq_ok] at h
  obtain ⟨candidates, hcandidates, -⟩ := h
  simp only [streamUsageCounts, List.forall_mem_cons, List.not_mem_nil, false_implies,
    implies_true, and_true]
  exact ⟨⟨_, countOrZero_of_countUnder hprompt _⟩, metaCount_of_candidates hcandidates, ⟨_, hthoughts⟩,
    ⟨_, htoolUse⟩, ⟨_, hcached⟩, ⟨_, countOrZero_of_countUnder htotal _⟩⟩

/-- Nothing is above a count that has not been seen yet. -/
theorem observe_unseen {report : Value} {keys : List String}
    (h : ∀ key ∈ keys, ∃ n, metaCount report key = .ok n) :
    ∃ counts, observe report true (keys.zip (keys.map fun _ => 0)) = .ok counts := by
  induction keys with
  | nil => exact ⟨[], rfl⟩
  | cons key keys ih =>
      obtain ⟨counts, hcounts⟩ := ih fun key hkey => h key (List.mem_cons_of_mem _ hkey)
      obtain ⟨n, hn⟩ := h key List.mem_cons_self
      refine ⟨n :: counts, ?_⟩
      rw [List.map_cons, List.zip_cons_cons, observe, if_neg (by simp)]
      simp only [hn, refuseWhen, Checked.refuse, hcounts, bind, Except.bind, pure, Except.pure,
        Nat.not_lt_zero, if_false]

/-- The last chunk gives the events of its parts and the terminal. -/
theorem eventsOf_last {s : GeminiSseParser} {frame report : Value} {rest : List Value}
    {reason : String} {usage : Usage} (hopen : s.terminated = false)
    (hunseen : s.countsSeen = streamUsageCounts.map fun _ => 0)
    (h : Holds frame rest (.string reason) (some report)) (husage : usageOf report = .ok usage)
    {events : List StreamEvent} {seen : Nat}
    (hparts : partEvents packages s.toolCallsSeen rest = .ok (events, seen)) :
    ∃ t, s.eventsOf packages frame =
      .ok (events ++ [.finish (some (finishReasonOf reason (0 < seen))) none, .usage usage,
        .done none none], t) := by
  obtain ⟨hpiece, hreason, hstring⟩ := holds_first h
  have hsome : streamFinishReason frame = .ok (some reason) := by
    rw [hreason, firstReason, hstring]
    rfl
  obtain ⟨counts, hcounts⟩ := observe_unseen (metaCount_of_usage husage)
  have hobject : report.isObject = true := by
    by_contra hnot
    rw [usageOf, Checked.bind_eq_ok] at husage
    obtain ⟨_, hrefused, -⟩ := husage
    simp only [refuseWhen, Checked.refuse_eq_ok] at hrefused
    exact hrefused (by simpa using hnot)
  refine ⟨{ s with toolCallsSeen := seen, terminated := true, countsSeen := counts }, ?_⟩
  unfold GeminiSseParser.eventsOf
  simp only [hopen, Bool.false_eq_true, refuseWhen, Checked.refuse, if_false, hpiece, hparts,
    hsome, h.report, GeminiSseParser.terminalUsage, GeminiSseParser.observeCounts, husage,
    hobject, hunseen, hcounts, bind, Except.bind, pure, Except.pure, Bool.true_eq_false,
    List.append_assoc, List.cons_append, List.nil_append]

/-- The frames of these chunks. -/
def Carries (packages : Packages) (sses : List SseFrameV1) (frames : List Value) : Prop :=
  List.Forall₂ (fun sse frame => packages.fromStr sse.data = some frame) sses frames

theorem frame_of_parsed {s : GeminiSseParser} {sse : SseFrameV1} {frame : Value}
    (h : packages.fromStr sse.data = some frame) :
    (geminiSseParser packages).frame s sse = s.eventsOf packages frame := by
  simp [geminiSseParser, Gemini.frame, h]

/-- The walk over the chunks before the last. -/
theorem read_begun {begun : List Value} {pieces : List (List Value)}
    (hholds : List.Forall₂ (fun frame piece => Holds frame piece .null none) begun pieces)
    {sses : List SseFrameV1} (hcarries : Carries packages sses begun) {s : GeminiSseParser}
    (hopen : s.terminated = false) {read next : AnswerRead}
    (hseen : s.toolCallsSeen = read.toolCalls.length)
    (hfold : pieces.flatten.foldlM (readPart packages) read = .ok next) :
    ∃ events, (geminiSseParser packages).read s sses =
        .ok (events, { s with toolCallsSeen := next.toolCalls.length }) ∧
      Leads events read next ∧ ∀ event ∈ events, event.isSpoken = true := by
  induction hholds generalizing sses s read with
  | nil =>
      cases hcarries
      cases hfold
      refine ⟨[], ?_, leads_refl _, by simp⟩
      rw [← hseen]
      rfl
  | @cons frame piece begun pieces hthis _ ih =>
      obtain ⟨sse, others, hsse, hothers, rfl⟩ := List.forall₂_cons_right_iff.mp hcarries
      rw [List.flatten_cons, List.foldlM_append, Checked.bind_eq_ok] at hfold
      obtain ⟨between, hpiece, hrest⟩ := hfold
      obtain ⟨now, hparts, hnow⟩ := walks_agree hpiece
      rw [← hseen] at hparts
      obtain ⟨rest, hread, hleads, hspoken⟩ :=
        @ih _ hothers { s with toolCallsSeen := between.toolCalls.length } hopen _ rfl hrest
      refine ⟨now ++ rest, ?_, hnow.trans hleads, fun event hevent => ?_⟩
      · rw [Dialect.read, Batching.call, frame_of_parsed hsse,
          eventsOf_begun hopen hthis hparts]
        dsimp only
        rw [← Dialect.read, hread]
        rfl
      · exact (List.mem_append.mp hevent).elim (partEvents_spoken hparts event)
          (hspoken event)

/-- What an accepted answer was read from. -/
theorem responseOf_holds {raw : Value} {parts : List Value} {reason : String}
    {report : Option Value} {response : ChatResponse}
    (h : Holds raw parts (.string reason) report)
    (hresponse : responseOf packages raw = .ok response) :
    ∃ read value usage, report = some value ∧ usageOf value = .ok usage ∧
      response.usage = usage ∧
      parts.foldlM (readPart packages) ⟨[], [], []⟩ = .ok read ∧
      response.choices = [{
        index := 0
        message := ⟨.assistant, read.content, read.toolCalls, none, none, []⟩
        finishReason := some (finishReasonOf reason (!read.toolCalls.isEmpty))
        stopSequence := none }] := by
  obtain ⟨candidate, hcandidates, hparts, hreason⟩ := h.candidate
  have hfirst : (raw.field "candidates").asArray.bind List.head? = some candidate := by
    simp [Value.field, hcandidates, Value.asArray]
  rw [responseOf, Checked.bind_eq_ok] at hresponse
  obtain ⟨_, -, hresponse⟩ := hresponse
  simp only [hfirst, hparts] at hresponse
  rw [Checked.bind_eq_ok] at hresponse
  obtain ⟨read, hread, hresponse⟩ := hresponse
  rw [Checked.bind_eq_ok] at hresponse
  obtain ⟨usage, husage, hresponse⟩ := hresponse
  rw [Checked.pure_eq_ok] at hresponse
  subst hresponse
  cases report with
  | none =>
      have hnull : raw.field "usageMetadata" = .null := by simp [Value.field, h.report]
      rw [hnull] at husage
      cases husage
  | some value =>
      have hvalue : raw.field "usageMetadata" = value := by simp [Value.field, h.report]
      rw [hvalue] at husage
      exact ⟨read, value, usage, rfl, husage, rfl, hread, by simp [hreason, Value.asStr]⟩

/-- The thinking parts of an answer are thinking. -/
theorem thinking_parts {parts : List Value} {read next : AnswerRead}
    (h : parts.foldlM (readPart packages) read = .ok next)
    (hread : ∀ part ∈ read.thinking, part.asText = none) :
    ∀ part ∈ next.thinking, part.asText = none := by
  refine Checked.foldlM_keeps (P := fun read : AnswerRead =>
    ∀ part ∈ read.thinking, part.asText = none) ?_ hread h
  intro part _ read next hpart hkept
  unfold readPart at hpart
  split at hpart
  · rw [Checked.bind_eq_ok] at hpart
    obtain ⟨signature, -, hpart⟩ := hpart
    rw [Checked.pure_eq_ok] at hpart
    subst hpart
    exact hkept
  · split at hpart
    · cases hpart
      exact hkept
    · split at hpart
      · cases hpart
        intro part hmem
        rcases List.mem_append.mp hmem with hmem | hmem
        · exact hkept part hmem
        · rw [List.mem_singleton] at hmem
          subst hmem
          rfl
      · cases hpart
        exact hkept

/-- The content of an answer is its thinking and its text. -/
theorem content_ok (read : AnswerRead) (calls : List ToolCall)
    (hthinking : ∀ part ∈ read.thinking, part.asText = none) :
    String.join ((partsIn ⟨.assistant, read.content, calls, none, none, []⟩).filterMap
        (·.asText)) = String.join read.text ∧
      String.join ((partsIn ⟨.assistant, read.content, calls, none, none, []⟩).filterMap
        (·.asThinking)) = read.thoughts := by
  have hnone : read.thinking.filterMap (·.asText) = [] :=
    List.filterMap_eq_nil_iff.mpr hthinking
  unfold AnswerRead.content AnswerRead.thoughts
  by_cases hempty : read.thinking = []
  · by_cases htext : read.text = []
    · simp [hempty, htext, partsIn]
    · simp [hempty, htext, partsIn, ContentPart.asText, ContentPart.asThinking]
  · by_cases htext : read.text = []
    · simp [hempty, htext, partsIn, hnone]
    · have hpart : ContentPart.asText (.text (String.join read.text)) =
          some (String.join read.text) := rfl
      simp [hempty, htext, partsIn, hnone, hpart, ContentPart.asThinking]

/-- The chunks of an accepted body are accepted, and their events assemble to
its answer. -/
theorem read_cut {raw : Value} {frames : List Value} (hcut : IsCut raw frames)
    {response : ChatResponse} (hresponse : responseOf packages raw = .ok response)
    {sses : List SseFrameV1} (hcarries : Carries packages sses frames) :
    ∃ events t, (geminiSseParser packages).read .start sses = .ok (events, t) ∧
      Assembles events response := by
  obtain ⟨pieces, rest, reason, report, begun, last, hraw, rfl, hbegun, hlast⟩ := hcut
  obtain ⟨read, value, usage, rfl, husage, hanswer, hread, hchoices⟩ :=
    responseOf_holds hraw hresponse
  have hthinking : ∀ part ∈ read.thinking, part.asText = none :=
    thinking_parts hread (by simp)
  rw [List.foldlM_append, Checked.bind_eq_ok] at hread
  obtain ⟨between, hfold, hrest⟩ := hread
  obtain ⟨sses₁, sses₂, h₁, h₂, rfl⟩ : ∃ sses₁ sses₂, Carries packages sses₁ begun ∧
      Carries packages sses₂ [last] ∧ sses = sses₁ ++ sses₂ :=
    ⟨_, _, List.forall₂_take_append sses begun [last] hcarries,
      List.forall₂_drop_append sses begun [last] hcarries, (List.take_append_drop _ _).symm⟩
  obtain ⟨sse, others, hsse, hnil, rfl⟩ := List.forall₂_cons_right_iff.mp h₂
  cases hnil
  obtain ⟨events, hevents, hleads, hspoken⟩ :=
    @read_begun _ _ _ hbegun _ h₁ GeminiSseParser.start rfl ⟨[], [], []⟩ between rfl hfold
  obtain ⟨now, hparts, hnow⟩ := walks_agree hrest
  obtain ⟨t, hterminal⟩ := @eventsOf_last packages
    { GeminiSseParser.start with toolCallsSeen := between.toolCalls.length } last value rest
    reason usage rfl rfl hlast husage now read.toolCalls.length hparts
  have hfinish : decide (0 < read.toolCalls.length) = !read.toolCalls.isEmpty := by
    cases read.toolCalls <;> rfl
  have hall := hleads.trans hnow
  obtain ⟨htext, hthoughts⟩ := content_ok read read.toolCalls hthinking
  refine ⟨events ++ (now ++ [.finish (some (finishReasonOf reason (0 < read.toolCalls.length)))
    none, .usage usage, .done none none]), t, ?_, ⟨_, hchoices, ?_, ?_, ?_, events ++ now, ?_, ?_⟩⟩
  · rw [Dialect.read_append hevents, Dialect.read, Batching.call, frame_of_parsed hsse, hterminal]
    simp [Batching.call, Except.map]
  · rw [htext, ← List.append_assoc, streamedText_append]
    simpa [streamedText] using hall.text.symm
  · rw [hthoughts, ← List.append_assoc, streamedThinking_append]
    simpa [streamedThinking, AnswerRead.thoughts] using hall.thoughts.symm
  · rw [assembledCalls, ← List.append_assoc, List.foldl_append, hall.calls]
    rfl
  · rw [hanswer, hfinish, List.append_assoc]
  · intro event hevent
    exact (List.mem_append.mp hevent).elim (hspoken event) (partEvents_spoken hparts event)

/-- The chunks of a body as data events. -/
def asEvents (texts : List String) : List SseFrameV1 := texts.map fun text => ⟨"message", text⟩

/-! ## Small answers -/

def textPart (text : String) : Value := .object [("text", .string text)]

/-- An answer with these parts. -/
def answer (parts : List Value) : Value :=
  .object [
    ("candidates", .array [.object [
      ("content", .object [("parts", .array parts)]),
      ("finishReason", .string "STOP")]]),
    ("usageMetadata", .object [
      ("candidatesTokenCount", .nat 1),
      ("promptTokenCount", .nat 1),
      ("totalTokenCount", .nat 2)])]

/-- A chunk with these parts that is not the last. -/
def chunk (parts : List Value) : Value :=
  .object [("candidates", .array [.object [("content", .object [("parts", .array parts)])]])]

theorem holds_answer (parts : List Value) :
    Holds (answer parts) parts (.string "STOP") ((answer parts).get "usageMetadata") :=
  ⟨⟨_, rfl, rfl, rfl⟩, rfl⟩

theorem holds_chunk (parts : List Value) : Holds (chunk parts) parts .null none :=
  ⟨⟨_, rfl, rfl, rfl⟩, rfl⟩

theorem exact_answer (text : String) : Exact (answer [textPart text]) := by
  simp only [answer, textPart, Exact, ExactItems, ExactEntries, Value.nat, ordered_iff_keys,
    List.map_cons, List.map_nil]
  decide

theorem holdsText_answer (text : String) : HoldsText text (answer [textPart text]) := by
  have hpart : HoldsText text (textPart text) := .field "text" rfl .here
  have hparts : HoldsText text (.array [textPart text]) := .item (List.mem_singleton_self _) hpart
  have hcontent : HoldsText text (.object [("parts", .array [textPart text])]) :=
    .field "parts" rfl hparts
  exact .field "candidates" rfl (.item (List.mem_singleton_self _) (.field "content" rfl hcontent))

end Gemini

open Gemini

/-- A buffered answer and the chunks its parts are cut into, each within the
bound of a line, assemble to the same answer. -/
theorem cut_answer_streamed {packages : Packages} {body : String} {raw : Value}
    {response : ChatResponse} (hraw : packages.fromStr body = some raw)
    (hresponse : parseResponse packages body = .ok response) {frames : List Value}
    (hcut : IsCut raw frames) {texts : List String}
    (htexts : List.Forall₂ (fun text frame => packages.fromStr text = some frame) texts frames)
    (hfits : ∀ frame ∈ asEvents texts, frame.Writable) {chunks : List (List UInt8)}
    (hchunks : ∀ chunk ∈ chunks, chunk ≠ []) (hflat : chunks.flatten = encode (asEvents texts)) :
    ∃ events, outcome ((geminiSseParser packages).events chunks) = .ok events ∧
      Assembles events response := by
  have hcarries : Carries packages (asEvents texts) frames :=
    List.forall₂_map_left_iff.mpr htexts
  have hresponseOf : responseOf packages raw = .ok response := by
    rw [← hresponse, parseResponse, hraw]
  obtain ⟨events, t, hread, hassembles⟩ := read_cut hcut hresponseOf hcarries
  refine ⟨events, ?_, hassembles⟩
  rw [Dialect.outcome_encode hfits hchunks hflat hread rfl, List.append_nil]

/-- Two texts in one answer, and in two chunks. -/
theorem two_texts_streamed :
    ∃ response events,
      parseResponse .textual (Packages.textual.toText (answer [textPart "a", textPart "b"])) =
        .ok response ∧
      outcome ((geminiSseParser .textual).events [encode (asEvents
        [Packages.textual.toText (chunk [textPart "a"]),
          Packages.textual.toText (answer [textPart "b"])])]) = .ok events ∧
      Assembles events response := by
  have hraw : Packages.textual.fromStr (Packages.textual.toText
      (answer [textPart "a", textPart "b"])) = some (answer [textPart "a", textPart "b"]) := by
    refine parse_write _ ?_
    simp only [answer, textPart, Exact, ExactItems, ExactEntries, Value.nat, ordered_iff_keys,
      List.map_cons, List.map_nil]
    decide
  have hchunk : Exact (chunk [textPart "a"]) := by
    simp only [chunk, textPart, Exact, ExactItems, ExactEntries, ordered_iff_keys, List.map_cons,
      List.map_nil]
    decide
  have hresponse : ∃ response, parseResponse .textual (Packages.textual.toText
      (answer [textPart "a", textPart "b"])) = .ok response := by
    rw [parseResponse, hraw]
    exact ⟨_, rfl⟩
  obtain ⟨response, hresponse⟩ := hresponse
  have hcut : IsCut (answer [textPart "a", textPart "b"])
      [chunk [textPart "a"], answer [textPart "b"]] :=
    ⟨[[textPart "a"]], _, _, _, _, _, holds_answer _, rfl, .cons (holds_chunk _) .nil,
      holds_answer _⟩
  obtain ⟨events, hevents, hassembles⟩ := cut_answer_streamed hraw hresponse hcut
    (.cons (parse_write _ hchunk) (.cons (parse_write _ (exact_answer _)) .nil))
    (by
      refine List.forall_mem_cons.mpr ⟨?_, List.forall_mem_singleton.mpr ?_⟩
      · exact writable_written lawful_textual (oneLine_of_all (by decide)) (by decide) (by decide)
          hchunk (by decide +kernel)
      · exact writable_written lawful_textual (oneLine_of_all (by decide)) (by decide) (by decide)
          (exact_answer _) (by decide +kernel))
    (List.forall_mem_singleton.mpr (encode_ne_nil (List.cons_ne_nil _ _))) List.flatten_singleton
  exact ⟨response, events, hresponse, hevents, hassembles⟩

/-- An answer whose one text part is over the bound of a line is read when it
is buffered and refused when it is streamed. -/
theorem overlong_part_streamed :
    ∃ response,
      parseResponse .textual (Packages.textual.toText (answer [textPart overlongText])) =
        .ok response ∧
      Packages.textual.fromStr (Packages.textual.toText (answer [textPart overlongText])) =
        some (answer [textPart overlongText]) ∧
      IsCut (answer [textPart overlongText]) [answer [textPart overlongText]] ∧
      outcome ((geminiSseParser .textual).events
          [encode (asEvents [Packages.textual.toText (answer [textPart overlongText])])]) =
        .error (protocolError "the upstream sent a stream line or event over the size bound") := by
  have hexact := exact_answer overlongText
  have hparse : Packages.textual.fromStr (Packages.textual.toText
      (answer [textPart overlongText])) = some (answer [textPart overlongText]) :=
    parse_write _ hexact
  have hsize := overlong_size (holdsText_answer overlongText) hexact
  have hbody : asEvents [Packages.textual.toText (answer [textPart overlongText])] =
      [writtenFrame .textual "message" (answer [textPart overlongText])] := rfl
  have hresponse : ∃ response, parseResponse .textual (Packages.textual.toText
      (answer [textPart overlongText])) = .ok response := by
    rw [parseResponse, hparse]
    exact ⟨_, rfl⟩
  obtain ⟨response, hresponse⟩ := hresponse
  refine ⟨response, hresponse, hparse,
    ⟨[], _, _, _, [], _, holds_answer _, rfl, .nil, holds_answer _⟩, ?_⟩
  rw [hbody]
  refine @Dialect.outcome_oversized _ (geminiSseParser .textual) [] [] .start _
    (writtenFrame .textual "message" (answer [textPart overlongText])) [] (by simp) ?_
    (show "event: message".utf8ByteSize ≤ _ by decide)
    hsize ?_ (by simp) rfl
  · exact List.forall_mem_singleton.mpr (oneLined_written lawful_textual
      (oneLine_of_all (by decide)) hexact)
  · exact List.forall_mem_singleton.mpr (encode_ne_nil (by simp))

end TokenStation.Provider
