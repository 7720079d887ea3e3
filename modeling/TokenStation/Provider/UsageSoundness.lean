import TokenStation.Provider.Gemini
import TokenStation.Provider.OpenAi
import TokenStation.Provider.ResponsesOutput

/-!
# What usage reports are read as

Each dialect has its own conventions for what counts are parts of others. The
canonical counts are compared with the sums of the wire counts they stand for,
taken without bounds.
-/

namespace TokenStation.Provider

open Library Library.Json Responses

/-- The wire counts that each canonical count stands for. -/
structure WireCounts where
  input : List Nat
  output : List Nat
  cacheRead : List Nat
  explicitCacheRead : List Nat
  cacheWrite : Nat
  reasoning : Nat
  fiveMinutes : Nat
  oneHour : Nat

/-- Whether everything that was consumed can be counted together. -/
def WireCounts.Fits (w : WireCounts) : Prop := w.input.sum + w.output.sum < 2 ^ 64

/-- Every canonical count is the sum of the wire counts it stands for. -/
structure SumsOf (w : WireCounts) (u : Usage) : Prop where
  input : u.inputTokens = w.input.sum
  output : u.outputTokens = w.output.sum
  cacheRead : u.cacheReadTokens = w.cacheRead.sum
  explicitCacheRead : u.explicitCacheReadTokens = w.explicitCacheRead.sum
  cacheWrite : u.cacheWriteTokens = w.cacheWrite
  reasoning : u.reasoningTokens = w.reasoning
  fiveMinutes : u.cacheWrite5mTokens = w.fiveMinutes
  oneHour : u.cacheWrite1hTokens = w.oneHour

/-- Parts stay within their wholes. -/
structure Nested (u : Usage) : Prop where
  cached : u.cacheReadTokens + u.cacheWriteTokens ≤ u.inputTokens
  explicit : u.explicitCacheReadTokens ≤ u.cacheReadTokens
  reasoning : u.reasoningTokens ≤ u.outputTokens
  tiers : u.cacheWrite5mTokens + u.cacheWrite1hTokens = 0 ∨
    u.cacheWrite5mTokens + u.cacheWrite1hTokens = u.cacheWriteTokens

/-- Usage that can be billed: nested, exact, and with a total. -/
structure Sound (w : WireCounts) (u : Usage) : Prop where
  nested : Nested u
  sums : SumsOf w u
  total : u.inputTokens + u.outputTokens < 2 ^ 64

theorem sound_iff {w : WireCounts} {u : Usage} (hnested : Nested u) (hsums : SumsOf w u) :
    Sound w u ↔ w.Fits := by
  have htotal : u.inputTokens + u.outputTokens < 2 ^ 64 ↔ w.Fits := by
    rw [WireCounts.Fits, hsums.input, hsums.output]
  exact ⟨fun h => htotal.mp h.total, fun h => ⟨hnested, hsums, htotal.mpr h⟩⟩

/-! ## Chat completions -/

namespace OpenAi

/-- Orchestration is counted on top of the plain counts. -/
def wireCounts (raw : Value) : WireCounts :=
  let prompt := raw.field "prompt_tokens_details"
  let completion := raw.field "completion_tokens_details"
  let cached := if (prompt.get "cached_tokens").isSome then countAt prompt "cached_tokens"
    else countAt raw "prompt_cache_hit_tokens"
  let explicit := (prompt.get "cache_creation_input_tokens").isSome
  let cacheRead := [cached, countAt prompt "orchestration_input_cached_tokens"]
  { input := [countAt raw "prompt_tokens", countAt prompt "orchestration_input_tokens"]
    output := [countAt raw "completion_tokens", countAt completion "orchestration_output_tokens"]
    cacheRead := cacheRead
    explicitCacheRead := if explicit then cacheRead else []
    cacheWrite := if explicit then countAt prompt "cache_creation_input_tokens"
      else countAt prompt "cache_write_tokens"
    reasoning := countAt completion "reasoning_tokens"
    fiveMinutes := 0
    oneHour := 0 }

theorem checkedSum_ok {left right sum : Nat} (h : checkedSum left right = .ok sum) :
    sum = left + right := by
  unfold checkedSum at h
  split at h
  · cases h
    rfl
  · cases h

theorem cachedCount_ok {raw : Value} {details : Option Value} {cached : Nat}
    (hdetails : ∀ k, details.bind (·.get k) = (raw.field "prompt_tokens_details").get k)
    (h : cachedCount raw details = .ok cached) :
    cached = if ((raw.field "prompt_tokens_details").get "cached_tokens").isSome then
      countAt (raw.field "prompt_tokens_details") "cached_tokens"
      else countAt raw "prompt_cache_hit_tokens" := by
  unfold cachedCount at h
  rw [hdetails] at h
  split at h
  · rename_i hsome
    rw [if_pos hsome]
    exact countOrZero_ok h (hdetails _)
  · rename_i hnone
    rw [if_neg hnone]
    exact countOrZero_ok h rfl

theorem cacheWriteCount_ok {raw : Value} {details : Option Value} {cacheWrite : Nat}
    (hdetails : ∀ k, details.bind (·.get k) = (raw.field "prompt_tokens_details").get k)
    (h : cacheWriteCount details = .ok cacheWrite) :
    cacheWrite = if explicitCache details then
        countAt (raw.field "prompt_tokens_details") "cache_creation_input_tokens"
      else countAt (raw.field "prompt_tokens_details") "cache_write_tokens" := by
  unfold cacheWriteCount at h
  split at h
  · rename_i hexplicit
    rw [if_pos hexplicit]
    exact countOrZero_ok h (hdetails _)
  · rename_i himplicit
    rw [if_neg himplicit]
    exact countOrZero_ok h (hdetails _)

theorem usageOf_ok {raw : Value} {u : Usage} (h : usageOf raw = .ok u) :
    SumsOf (wireCounts raw) u ∧ Nested u := by
  simp only [usageOf, Checked.bind_eq_ok, Checked.pure_eq_ok] at h
  obtain ⟨_, -, prompt, hprompt, completion, hcompletion, total, -, promptDetails, hpromptDetails,
    completionDetails, hcompletionDetails, orchestrationInput, horchestrationInput,
    orchestrationCached, horchestrationCached, _, -, orchestrationOutput, horchestrationOutput,
    plainTotal, -, _, -, input, hinput, output, houtput, cached, hcached, cacheRead, hcacheRead,
    cacheWrite, hcacheWrite, cacheTokens, hcacheTokens, _, hwithin, reasoning, hreasoning, _,
    hreasoningWithin, rfl⟩ := h
  have hpromptField := objectOrNone_ok hpromptDetails
  have hcompletionField := objectOrNone_ok hcompletionDetails
  have hexplicit : explicitCache promptDetails =
      ((raw.field "prompt_tokens_details").get "cache_creation_input_tokens").isSome := by
    rw [explicitCache, hpromptField]
  have hread : cacheRead = (wireCounts raw).cacheRead.sum := by
    rw [checkedSum_ok hcacheRead, cachedCount_ok hpromptField hcached,
      countOrZero_ok horchestrationCached (hpromptField _)]
    simp [wireCounts]
  rw [refuseWhen, Checked.refuse_eq_ok] at hwithin hreasoningWithin
  refine ⟨⟨?_, ?_, hread, ?_, ?_, ?_, rfl, rfl⟩, ⟨?_, ?_, ?_, .inl rfl⟩⟩
  · change input = _
    rw [checkedSum_ok hinput, countUnder_ok hprompt,
      countOrZero_ok horchestrationInput (hpromptField _)]
    simp [wireCounts]
  · change output = _
    rw [checkedSum_ok houtput, countUnder_ok hcompletion,
      countOrZero_ok horchestrationOutput (hcompletionField _)]
    simp [wireCounts]
  · change (if explicitCache promptDetails then cacheRead else 0) = _
    rw [hexplicit, hread]
    by_cases hsome : ((raw.field "prompt_tokens_details").get
        "cache_creation_input_tokens").isSome = true
    · simp [wireCounts, hsome]
    · simp [wireCounts, hsome]
  · change cacheWrite = _
    rw [cacheWriteCount_ok hpromptField hcacheWrite, hexplicit]
    rfl
  · exact countOrZero_ok hreasoning (hcompletionField _)
  · change cacheRead + cacheWrite ≤ input
    rw [checkedSum_ok hcacheTokens] at hwithin
    omega
  · change (if explicitCache promptDetails then cacheRead else 0) ≤ cacheRead
    split
    · exact Nat.le_refl _
    · exact Nat.zero_le _
  · change reasoning ≤ output
    omega

end OpenAi

/-! ## Responses -/

namespace ResponsesApi

/-- The details are parts of the plain counts. -/
def wireCounts (raw : Value) : WireCounts where
  input := [countAt raw "input_tokens"]
  output := [countAt raw "output_tokens"]
  cacheRead := [countAt (raw.field "input_tokens_details") "cached_tokens"]
  explicitCacheRead := []
  cacheWrite := countAt (raw.field "input_tokens_details") "cache_write_tokens"
  reasoning := countAt (raw.field "output_tokens_details") "reasoning_tokens"
  fiveMinutes := 0
  oneHour := 0

theorem usageOf_ok {raw : Option Value} {u : Usage} (h : usageOf raw = .ok u) :
    Sound (wireCounts (raw.getD .null)) u := by
  unfold usageOf at h
  split at h
  · rename_i usage husage
    obtain ⟨rfl, -⟩ := Option.filter_eq_some_iff.mp husage
    simp only [countsOf, Checked.bind_eq_ok, Checked.pure_eq_ok] at h
    obtain ⟨input, hinput, output, houtput, total, -, _, htotal, inputDetails, hinputDetails,
      outputDetails, houtputDetails, cached, hcached, cacheWrite, hcacheWrite, _, hwithin,
      reasoning, hreasoning, _, hreasoningWithin, rfl⟩ := h
    have hinputField := objectOrNone_ok hinputDetails
    have houtputField := objectOrNone_ok houtputDetails
    rw [refuseWhen, Checked.refuse_eq_ok] at htotal hwithin hreasoningWithin
    refine ⟨⟨?_, Nat.zero_le _, ?_, .inl rfl⟩, ⟨?_, ?_, ?_, rfl, ?_, ?_, rfl, rfl⟩, ?_⟩
    · change cached + cacheWrite ≤ input
      omega
    · change reasoning ≤ output
      omega
    · exact (countUnder_ok hinput).trans (by simp [wireCounts])
    · exact (countUnder_ok houtput).trans (by simp [wireCounts])
    · exact (countOrZero_ok hcached (hinputField _)).trans (by simp [wireCounts])
    · exact countOrZero_ok hcacheWrite (hinputField _)
    · exact countOrZero_ok hreasoning (houtputField _)
    · change input + output < 2 ^ 64
      omega
  · cases h

end ResponsesApi

/-! ## Gemini -/

namespace Gemini

/-- Thoughts are outside the candidates, tool-use prompts outside the prompt. -/
def wireCounts (raw : Value) : WireCounts where
  input := [countAt raw "promptTokenCount", countAt raw "toolUsePromptTokenCount"]
  output := [countAt raw "candidatesTokenCount", countAt raw "thoughtsTokenCount"]
  cacheRead := [countAt raw "cachedContentTokenCount"]
  explicitCacheRead := []
  cacheWrite := 0
  reasoning := countAt raw "thoughtsTokenCount"
  fiveMinutes := 0
  oneHour := 0

theorem metaSum_ok {left right sum : Nat} (h : metaSum left right = .ok sum) :
    sum = left + right ∧ left + right < 2 ^ 64 := by
  unfold metaSum at h
  split at h
  · rename_i hfits
    cases h
    exact ⟨rfl, hfits⟩
  · cases h

theorem candidatesCount_ok {raw : Value} {known total count : Nat}
    (h : candidatesCount raw known total = .ok count) :
    count = countAt raw "candidatesTokenCount" := by
  unfold candidatesCount at h
  split at h
  · exact countOrZero_ok h rfl
  · rename_i hnone
    split at h
    · cases h
    · cases h
      rw [countAt, hnone]
      rfl

theorem usageOf_ok {raw : Value} {u : Usage} (h : usageOf raw = .ok u) :
    Sound (wireCounts raw) u := by
  simp only [usageOf, Checked.bind_eq_ok, Checked.pure_eq_ok] at h
  obtain ⟨_, -, prompt, hprompt, total, -, cached, hcached, _, hwithin, toolUse, htoolUse, input,
    hinput, thoughts, hthoughts, known, -, candidates, hcandidates, output, houtput, sum, hsum, _,
    -, rfl⟩ := h
  rw [refuseWhen, Checked.refuse_eq_ok] at hwithin
  obtain ⟨hinput, -⟩ := metaSum_ok hinput
  obtain ⟨houtput, -⟩ := metaSum_ok houtput
  obtain ⟨-, hfits⟩ := metaSum_ok hsum
  refine ⟨⟨?_, Nat.zero_le _, ?_, .inl rfl⟩, ⟨?_, ?_, ?_, rfl, rfl, ?_, rfl, rfl⟩, hfits⟩
  · change cached + 0 ≤ input
    omega
  · change thoughts ≤ output
    omega
  · change input = _
    rw [hinput, countUnder_ok hprompt, countOrZero_ok htoolUse rfl]
    simp [wireCounts]
  · change output = _
    rw [houtput, candidatesCount_ok hcandidates, countOrZero_ok hthoughts rfl]
    simp [wireCounts]
  · exact (countOrZero_ok hcached rfl).trans (by simp [wireCounts])
  · exact countOrZero_ok hthoughts rfl

end Gemini

/-! ## Messages -/

namespace Messages

/-- The buckets a report writes. -/
def bucketsAt (raw : Value) : WireUsage where
  uncachedInput := countAt raw "input_tokens"
  output := countAt raw "output_tokens"
  cacheRead := countAt raw "cache_read_input_tokens"
  cacheWrite := countAt raw "cache_creation_input_tokens"
  cacheWrite5m := countAt (raw.field "cache_creation") "ephemeral_5m_input_tokens"
  cacheWrite1h := countAt (raw.field "cache_creation") "ephemeral_1h_input_tokens"

/-- The largest count of a bucket. -/
def largest (bucket : WireUsage → Nat) (reports : List WireUsage) : Nat :=
  (reports.map bucket).foldl max 0

/-- The first report that splits the largest cache write into tiers. -/
def tiered (reports : List WireUsage) : Option WireUsage :=
  reports.find? fun r => decide (r.cacheWrite = largest (·.cacheWrite) reports) && r.hasSplit

/-- Counts are cumulative, so each bucket stands for its largest report; the
input buckets are disjoint. -/
def wireCounts (reports : List WireUsage) : WireCounts where
  input := [largest (·.uncachedInput) reports, largest (·.cacheRead) reports,
    largest (·.cacheWrite) reports]
  output := [largest (·.output) reports]
  cacheRead := [largest (·.cacheRead) reports]
  explicitCacheRead := []
  cacheWrite := largest (·.cacheWrite) reports
  reasoning := 0
  fiveMinutes := ((tiered reports).map (·.cacheWrite5m)).getD 0
  oneHour := ((tiered reports).map (·.cacheWrite1h)).getD 0

/-- The tiers are unknown, or make up the total. -/
def WireUsage.Split (usage : WireUsage) : Prop :=
  usage.cacheWrite5m + usage.cacheWrite1h = 0 ∨
    usage.cacheWrite5m + usage.cacheWrite1h = usage.cacheWrite

theorem wireCount_ok {raw : Value} {key : String} {required : Bool} {count : Nat}
    (h : wireCount raw key required = .ok count) : count = countAt raw key := by
  unfold wireCount at h
  rw [countAt]
  split at h
  · rename_i hnone
    split at h
    · cases h
    · cases h
      rw [hnone]
      rfl
  · rename_i hnull
    split at h
    · cases h
    · cases h
      rw [hnull]
      rfl
  · rename_i found _ hfound
    split at h
    · rename_i n hn
      cases h
      rw [hfound, Option.bind_some, hn, Option.getD_some]
    · cases h

theorem cacheTiers_ok {raw : Value} {cacheWrite fiveMinutes oneHour : Nat}
    (h : cacheTiers raw cacheWrite = .ok (fiveMinutes, oneHour)) :
    fiveMinutes = countAt (raw.field "cache_creation") "ephemeral_5m_input_tokens" ∧
      oneHour = countAt (raw.field "cache_creation") "ephemeral_1h_input_tokens" ∧
      (fiveMinutes + oneHour = 0 ∨ fiveMinutes + oneHour = cacheWrite) := by
  unfold cacheTiers at h
  rw [Value.field]
  split at h
  · rename_i hnone
    cases h
    rw [hnone]
    exact ⟨rfl, rfl, .inl rfl⟩
  · rename_i hnull
    cases h
    rw [hnull]
    exact ⟨rfl, rfl, .inl rfl⟩
  · rename_i tiers _ htiers
    rw [htiers, Option.getD_some]
    split at h
    · split at h
      · cases h
      · simp only [Checked.bind_eq_ok] at h
        obtain ⟨short, hshort, long, hlong, h⟩ := h
        split at h
        · rename_i hsum
          cases h
          exact ⟨wireCount_ok hshort, wireCount_ok hlong, .inr hsum.2⟩
        · cases h
    · cases h

/-- A report that is read stands for the buckets it writes. -/
theorem of_buckets {raw : Value} {report : UsageReport} {w : WireUsage}
    (h : WireUsage.of raw report = .ok w) : w = bucketsAt raw ∧ w.Split := by
  unfold WireUsage.of at h
  split at h
  · cases h
  · simp only [Checked.bind_eq_ok] at h
    obtain ⟨uncached, huncached, output, houtput, cacheRead, hcacheRead, cacheWrite, hcacheWrite,
      ⟨fiveMinutes, oneHour⟩, htiers, h⟩ := h
    obtain ⟨hfive, hone, hsplit⟩ := cacheTiers_ok htiers
    dsimp only at h
    split at h
    · cases h
      refine ⟨?_, hsplit⟩
      rw [bucketsAt, ← wireCount_ok huncached, ← wireCount_ok houtput, ← wireCount_ok hcacheRead,
        ← wireCount_ok hcacheWrite, ← hfive, ← hone]
    · cases h

/-! ### Folding reports -/

theorem largest_snoc (bucket : WireUsage → Nat) (reports : List WireUsage) (r : WireUsage) :
    largest bucket (reports ++ [r]) = max (largest bucket reports) (bucket r) := by
  simp [largest]

theorem le_largest (bucket : WireUsage → Nat) {reports : List WireUsage} {r : WireUsage}
    (h : r ∈ reports) : bucket r ≤ largest bucket reports := by
  induction reports using List.reverseRecOn with
  | nil => cases h
  | append_singleton reports last ih =>
      rw [largest_snoc]
      rcases List.mem_append.mp h with h | h
      · exact (ih h).trans (Nat.le_max_left _ _)
      · rw [List.mem_singleton.mp h]
        exact Nat.le_max_right _ _

theorem cumulative_ok {earlier later count : Nat} (h : cumulative earlier later = .ok count) :
    count = max earlier later ∧ (later < earlier → later = 0) := by
  unfold cumulative at h
  split at h
  · rename_i hzero
    cases h
    exact ⟨by omega, fun _ => hzero⟩
  · split at h
    · cases h
    · cases h
      exact ⟨by omega, fun hless => absurd hless ‹_›⟩

/-- The usage stands for the reports folded into it. -/
structure Folds (reports : List WireUsage) (w : WireUsage) : Prop where
  uncachedInput : w.uncachedInput = largest (·.uncachedInput) reports
  output : w.output = largest (·.output) reports
  cacheRead : w.cacheRead = largest (·.cacheRead) reports
  cacheWrite : w.cacheWrite = largest (·.cacheWrite) reports
  fiveMinutes : w.cacheWrite5m = ((tiered reports).map (·.cacheWrite5m)).getD 0
  oneHour : w.cacheWrite1h = ((tiered reports).map (·.cacheWrite1h)).getD 0
  split : w.Split

theorem folds_nil : Folds [] .default := ⟨rfl, rfl, rfl, rfl, rfl, rfl, .inl rfl⟩

theorem unsplit_iff {w : WireUsage} :
    w.hasSplit = false ↔ w.cacheWrite5m = 0 ∧ w.cacheWrite1h = 0 := by
  simp [WireUsage.hasSplit]

theorem tiered_split {reports : List WireUsage} {r : WireUsage} (h : tiered reports = some r) :
    r.hasSplit = true := by
  have hfound := List.find?_some h
  exact (Bool.and_eq_true_iff.mp hfound).2

theorem Folds.hasSplit_iff {reports : List WireUsage} {w : WireUsage} (h : Folds reports w) :
    w.hasSplit = (tiered reports).isSome := by
  have hfive := h.fiveMinutes
  have hone := h.oneHour
  cases htiered : tiered reports with
  | none =>
      rw [htiered] at hfive hone
      rw [Option.isSome_none, unsplit_iff]
      exact ⟨hfive, hone⟩
  | some r =>
      rw [htiered] at hfive hone
      have hsplit := tiered_split htiered
      rw [WireUsage.hasSplit] at hsplit ⊢
      rw [hfive, hone]
      exact hsplit

/-- A larger cache write brings its own tiers. -/
theorem tiered_larger {reports : List WireUsage} {r : WireUsage}
    (h : largest (·.cacheWrite) reports < r.cacheWrite) :
    tiered (reports ++ [r]) = if r.hasSplit then some r else none := by
  have hlargest : largest (·.cacheWrite) (reports ++ [r]) = r.cacheWrite := by
    rw [largest_snoc]
    exact Nat.max_eq_right h.le
  have hnone : reports.find? (fun q =>
      decide (q.cacheWrite = r.cacheWrite) && q.hasSplit) = none := by
    rw [List.find?_eq_none]
    intro q hq hsome
    have hle := le_largest (·.cacheWrite) hq
    have heq : q.cacheWrite = r.cacheWrite := of_decide_eq_true (Bool.and_eq_true_iff.mp hsome).1
    omega
  rw [tiered, hlargest, List.find?_append, hnone, Option.none_or]
  by_cases hsplit : r.hasSplit = true
  · simp [hsplit]
  · simp [hsplit]

/-- A cache write that is not larger keeps the first tiers. -/
theorem tiered_kept {reports : List WireUsage} {r : WireUsage}
    (h : r.cacheWrite ≤ largest (·.cacheWrite) reports) :
    tiered (reports ++ [r]) = (tiered reports).or
      (if r.cacheWrite = largest (·.cacheWrite) reports ∧ r.hasSplit = true then some r
        else none) := by
  have hlargest : largest (·.cacheWrite) (reports ++ [r]) = largest (·.cacheWrite) reports := by
    rw [largest_snoc]
    exact Nat.max_eq_left h
  rw [tiered, hlargest, List.find?_append]
  rw [tiered]
  congr 1
  by_cases hsame : r.cacheWrite = largest (·.cacheWrite) reports
  · by_cases hsplit : r.hasSplit = true
    · simp [hsame, hsplit]
    · simp [hsplit]
  · simp [hsame]

theorem Folds.absorb {reports : List WireUsage} {w r t : WireUsage} (h : Folds reports w)
    (hr : r.Split) (habsorb : w.absorb r = .ok t) : Folds (reports ++ [r]) t := by
  simp only [WireUsage.absorb, Checked.bind_eq_ok, Checked.pure_eq_ok] at habsorb
  obtain ⟨uncached, huncached, output, houtput, cacheRead, hcacheRead, writes, hwrites, rfl⟩ :=
    habsorb
  obtain ⟨huncached, -⟩ := cumulative_ok huncached
  obtain ⟨houtput, -⟩ := cumulative_ok houtput
  obtain ⟨hcacheRead, -⟩ := cumulative_ok hcacheRead
  have hsplit := h.hasSplit_iff
  have hwrite := h.cacheWrite
  have hfive := h.fiveMinutes
  have hone := h.oneHour
  have hunsplit : r.hasSplit = false → r.cacheWrite5m = 0 ∧ r.cacheWrite1h = 0 := unsplit_iff.mp
  have hthree : largest (·.uncachedInput) (reports ++ [r]) = uncached ∧
      largest (·.output) (reports ++ [r]) = output ∧
      largest (·.cacheRead) (reports ++ [r]) = cacheRead := by
    rw [largest_snoc, largest_snoc, largest_snoc, ← h.uncachedInput, ← h.output, ← h.cacheRead]
    exact ⟨huncached.symm, houtput.symm, hcacheRead.symm⟩
  obtain ⟨hfirst, hsecond, hthird⟩ := hthree
  by_cases hlarger : r.cacheWrite > w.cacheWrite
  · rw [if_pos (.inl hlarger)]
    have htiered := @tiered_larger reports r (hwrite ▸ hlarger)
    refine ⟨hfirst.symm, hsecond.symm, hthird.symm, ?_, ?_, ?_, hr⟩
    · rw [largest_snoc, ← hwrite]
      exact (Nat.max_eq_right hlarger.le).symm
    · rw [htiered]
      split
      · rfl
      · rename_i hno
        exact (hunsplit (Bool.eq_false_iff.mpr hno)).1
    · rw [htiered]
      split
      · rfl
      · rename_i hno
        exact (hunsplit (Bool.eq_false_iff.mpr hno)).2
  · have hkept := @tiered_kept reports r (hwrite ▸ Nat.not_lt.mp hlarger)
    have hlargest : largest (·.cacheWrite) (reports ++ [r]) = w.cacheWrite := by
      rw [largest_snoc, ← hwrite]
      exact Nat.max_eq_left (Nat.not_lt.mp hlarger)
    by_cases hsplits : r.cacheWrite = w.cacheWrite ∧ r.hasSplit = true ∧ w.hasSplit = false
    · obtain ⟨hsame, hrsplit, hwsplit⟩ := hsplits
      have hnone : tiered reports = none := by
        rw [hsplit, Option.isSome_eq_false_iff, Option.isNone_iff_eq_none] at hwsplit
        exact hwsplit
      rw [hnone, Option.none_or, if_pos ⟨hwrite ▸ hsame, hrsplit⟩] at hkept
      rw [if_pos (.inr ⟨hsame, hrsplit, hwsplit⟩)]
      refine ⟨hfirst.symm, hsecond.symm, hthird.symm, ?_, ?_, ?_, hr⟩
      · rw [hlargest, hsame]
      · rw [hkept]
        rfl
      · rw [hkept]
        rfl
    · have hsame : tiered (reports ++ [r]) = tiered reports := by
        rw [hkept]
        cases htiered : tiered reports with
        | some q => rfl
        | none =>
            rw [htiered] at hsplit
            rw [Option.none_or, if_neg]
            rintro ⟨heq, hrsplit⟩
            exact hsplits ⟨heq.trans hwrite.symm, hrsplit, hsplit⟩
      rw [if_neg (not_or.mpr ⟨hlarger, hsplits⟩)]
      exact ⟨hfirst.symm, hsecond.symm, hthird.symm, hlargest.symm, hsame ▸ hfive, hsame ▸ hone,
        h.split⟩

/-- The whole usage is sound when everything that was consumed fits. -/
theorem Folds.sound_iff {reports : List WireUsage} {w : WireUsage} (h : Folds reports w) :
    Sound (wireCounts reports) w.toIr ↔ (wireCounts reports).Fits := by
  have huncached := h.uncachedInput
  have houtput := h.output
  have hread := h.cacheRead
  have hwrite := h.cacheWrite
  have hinputs : (wireCounts reports).input.sum = w.uncachedInput + w.cacheRead + w.cacheWrite := by
    rw [huncached, hread, hwrite]
    simp [wireCounts, Nat.add_assoc]
  have houtputs : (wireCounts reports).output.sum = w.output := by
    rw [houtput]
    simp [wireCounts]
  constructor
  · intro hsound
    rw [WireCounts.Fits, ← hsound.sums.input, ← hsound.sums.output]
    exact hsound.total
  · intro hfits
    rw [WireCounts.Fits, hinputs, houtputs] at hfits
    have hinput : w.toIr.inputTokens = w.uncachedInput + w.cacheRead + w.cacheWrite := by
      change saturatingAdd (saturatingAdd w.uncachedInput w.cacheRead) w.cacheWrite = _
      unfold saturatingAdd
      omega
    refine ⟨⟨?_, Nat.zero_le _, Nat.zero_le _, h.split⟩, ⟨?_, houtputs.symm, ?_, rfl, hwrite,
      rfl, h.fiveMinutes, h.oneHour⟩, ?_⟩
    · rw [hinput]
      change w.cacheRead + w.cacheWrite ≤ _
      omega
    · rw [hinput, hinputs]
    · change w.cacheRead = _
      rw [hread]
      simp [wireCounts]
    · rw [hinput]
      exact hfits

/-- The reports of one stream, in order. -/
def reportAll (s : AnthropicSseParser) (reports : List (Value × UsageReport)) :
    Except ErrorEnvelope (List StreamEvent × AnthropicSseParser) :=
  Batching.call (fun s report =>
    (s.reportUsage report.1 report.2).map fun next => ([next.1], next.2)) s reports

def bucketsOf (reports : List (Value × UsageReport)) : List WireUsage :=
  reports.map fun report => bucketsAt report.1

theorem reportUsage_folds {s t : AnthropicSseParser} {raw : Value} {report : UsageReport}
    {event : StreamEvent} {reports : List WireUsage} (hs : Folds reports s.usage)
    (h : s.reportUsage raw report = .ok (event, t)) :
    Folds (reports ++ [bucketsAt raw]) t.usage ∧ event = .usage t.usage.toIr := by
  simp only [AnthropicSseParser.reportUsage, Checked.bind_eq_ok, Checked.pure_eq_ok] at h
  obtain ⟨counts, hcounts, usage, husage, h⟩ := h
  cases h
  obtain ⟨rfl, hsplit⟩ := of_buckets hcounts
  exact ⟨hs.absorb hsplit husage, rfl⟩

/-- After any reports the usage stands for them, and the last event carries it. -/
theorem reportAll_folds {reports : List (Value × UsageReport)} {events : List StreamEvent}
    {t : AnthropicSseParser} (h : reportAll .start reports = .ok (events, t)) :
    Folds (bucketsOf reports) t.usage ∧
      ∀ usage, events.getLast? = some (.usage usage) → usage = t.usage.toIr := by
  induction reports using List.reverseRecOn generalizing events t with
  | nil =>
      cases h
      exact ⟨folds_nil, fun usage h => by cases h⟩
  | append_singleton reports last ih =>
      rw [reportAll, Batching.call_append] at h
      split at h
      · cases h
      · rename_i before s hbefore
        obtain ⟨hs, -⟩ := ih hbefore
        rw [Checked.map_eq_ok] at h
        obtain ⟨⟨now, u⟩, hnow, h⟩ := h
        cases h
        rw [Batching.call] at hnow
        split at hnow
        · cases hnow
        · rename_i next u' hnext
          rw [Checked.map_eq_ok] at hnext
          obtain ⟨⟨event, v⟩, hreport, hnext⟩ := hnext
          cases hnext
          cases hnow
          obtain ⟨hfolds, rfl⟩ := reportUsage_folds hs hreport
          refine ⟨?_, fun usage husage => ?_⟩
          · rw [bucketsOf, List.map_append]
            exact hfolds
          · simp at husage
            exact husage.symm

theorem usageOf_folds {raw : Value} {u : Usage} (h : usageOf raw = .ok u) :
    ∃ w, Folds [bucketsAt raw] w ∧ u = w.toIr := by
  obtain ⟨w, hw, rfl⟩ := Checked.map_eq_ok.mp h
  obtain ⟨rfl, hsplit⟩ := of_buckets hw
  refine ⟨_, folds_nil.absorb hsplit (t := bucketsAt raw) ?_, rfl⟩
  have hzero : ∀ count, cumulative 0 count = .ok count := by
    intro count
    unfold cumulative
    split
    · rename_i h
      rw [h]
    · rw [if_neg (Nat.not_lt_zero count)]
  simp only [WireUsage.absorb, WireUsage.default, hzero, bind, Except.bind, pure, Except.pure]
  by_cases hpos : 0 < (bucketsAt raw).cacheWrite
  · simp [hpos]
  · have hwrite : (bucketsAt raw).cacheWrite = 0 := by omega
    have hnone : (bucketsAt raw).cacheWrite5m = 0 ∧ (bucketsAt raw).cacheWrite1h = 0 := by
      have := hsplit
      unfold WireUsage.Split at this
      omega
    have hunsplit : (bucketsAt raw).hasSplit = false := unsplit_iff.mpr hnone
    simp only [hwrite, hunsplit, Nat.lt_irrefl, gt_iff_lt, Bool.false_eq_true, false_and, and_false,
      or_self, if_false]
    rw [← hwrite]
    cases hbuckets : bucketsAt raw
    simp_all

end Messages

/-! ## Every dialect -/

/-- Accepted usage is sound in the Responses and Gemini dialects always, and in
the Chat and Messages dialects exactly when all that was consumed fits. -/
theorem usage_sound_iff (raw : Value) (body : Option Value)
    (reports : List (Value × Messages.UsageReport)) (events : List StreamEvent)
    (t : Messages.AnthropicSseParser) (u : Usage) :
    (OpenAi.usageOf raw = .ok u →
      (Sound (OpenAi.wireCounts raw) u ↔ (OpenAi.wireCounts raw).Fits)) ∧
    (ResponsesApi.usageOf body = .ok u →
      Sound (ResponsesApi.wireCounts (body.getD .null)) u) ∧
    (Gemini.usageOf raw = .ok u → Sound (Gemini.wireCounts raw) u) ∧
    (Messages.usageOf raw = .ok u →
      (Sound (Messages.wireCounts [Messages.bucketsAt raw]) u ↔
        (Messages.wireCounts [Messages.bucketsAt raw]).Fits)) ∧
    (Messages.reportAll .start reports = .ok (events, t) →
      events.getLast? = some (.usage u) →
      (Sound (Messages.wireCounts (Messages.bucketsOf reports)) u ↔
        (Messages.wireCounts (Messages.bucketsOf reports)).Fits)) := by
  refine ⟨fun h => ?_, ResponsesApi.usageOf_ok, Gemini.usageOf_ok, fun h => ?_,
    fun h hlast => ?_⟩
  · obtain ⟨hsums, hnested⟩ := OpenAi.usageOf_ok h
    exact sound_iff hnested hsums
  · obtain ⟨w, hw, rfl⟩ := Messages.usageOf_folds h
    exact hw.sound_iff
  · obtain ⟨hfolds, husage⟩ := Messages.reportAll_folds h
    rw [husage u hlast]
    exact hfolds.sound_iff

/-- A Chat report of plain counts, and a stream of one Messages report. -/
def plainReport : Value :=
  .obj [("prompt_tokens", .nat 5), ("completion_tokens", .nat 3), ("total_tokens", .nat 8)]

def plainMessage : Value := .obj [("input_tokens", .nat 5), ("output_tokens", .nat 3)]

theorem plain_usage_sound :
    Sound (OpenAi.wireCounts plainReport)
        { Usage.default with inputTokens := 5, outputTokens := 3 } ∧
      Sound (Messages.wireCounts [Messages.bucketsAt plainMessage])
        { Usage.default with inputTokens := 5, outputTokens := 3 } := by
  have hsound (events : List StreamEvent) (t : Messages.AnthropicSseParser) :=
    usage_sound_iff plainReport none [(plainMessage, .message)] events t
      { Usage.default with inputTokens := 5, outputTokens := 3 }
  constructor
  · exact ((hsound [] .start).1 rfl).mpr (by unfold WireCounts.Fits; decide)
  · exact ((hsound _ _).2.2.2.2 rfl rfl).mpr (by unfold WireCounts.Fits; decide)

/-- Half of the counts on top of the other half. -/
def orchestratedReport : Value :=
  .obj [("prompt_tokens", .nat (2 ^ 63)), ("completion_tokens", .nat 0),
    ("total_tokens", .nat (2 ^ 63)),
    ("completion_tokens_details", .obj [("orchestration_output_tokens", .nat (2 ^ 63))])]

/-- The largest input, and then a cache read beside it. -/
def cachedLater : List (Value × Messages.UsageReport) :=
  [(.obj [("input_tokens", .nat (2 ^ 64 - 1))], .streamStart),
    (.obj [("output_tokens", .nat 0), ("cache_read_input_tokens", .nat (2 ^ 64 - 1)),
      ("cache_creation_input_tokens", .nat 0)], .streamDelta),
    (.obj [("output_tokens", .nat 0), ("cache_creation_input_tokens", .nat 1)], .streamDelta)]

/-- A Chat total is over the bound; a folded input is saturated, and smaller
than its cached parts. -/
theorem usage_unsound :
    (∃ u, OpenAi.usageOf orchestratedReport = .ok u ∧ u.inputTokens + u.outputTokens = 2 ^ 64) ∧
      ∃ events t u, Messages.reportAll .start cachedLater = .ok (events, t) ∧
        events.getLast? = some (.usage u) ∧
        u.inputTokens < u.cacheReadTokens + u.cacheWriteTokens ∧
        u.inputTokens ≠ (Messages.wireCounts (Messages.bucketsOf cachedLater)).input.sum := by
  refine ⟨⟨_, rfl, rfl⟩, _, _, _, rfl, rfl, ?_, ?_⟩
  · decide
  · decide

end TokenStation.Provider
