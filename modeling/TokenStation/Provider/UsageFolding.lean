import TokenStation.Provider.UsageSoundness

/-!
# Usage reports folded twice

The parser folds the wire buckets of every report and passes on the whole so far. What
a consumer that keeps the last non-zero value of each field makes of these is compared
with what the parser said last.
-/

namespace TokenStation.Provider.Messages

open Library.Checked Library.Json Responses

/-- The usage after each of the reports. -/
def foldReports (usage : WireUsage) :
    List (Value × UsageReport) → Except ErrorEnvelope (List WireUsage)
  | [] => .ok []
  | (raw, report) :: reports => do
      let later ← WireUsage.of raw report
      let usage ← usage.absorb later
      let rest ← foldReports usage reports
      return usage :: rest

theorem reportUsage_eq_ok {s t : AnthropicSseParser} {raw : Value} {report : UsageReport}
    {event : StreamEvent} :
    s.reportUsage raw report = .ok (event, t) ↔
      foldReports s.usage [(raw, report)] = .ok [t.usage] ∧ event = .usage t.usage.toIr ∧
        t = { s with usage := t.usage } := by
  simp only [AnthropicSseParser.reportUsage, foldReports, bind_eq_ok, pure_eq_ok]
  constructor
  · rintro ⟨later, hof, usage, habsorb, hpair⟩
    cases hpair
    exact ⟨⟨later, hof, usage, habsorb, [], rfl, rfl⟩, rfl, rfl⟩
  · rintro ⟨⟨later, hof, usage, habsorb, rest, hrest, hlist⟩, rfl, ht⟩
    obtain rfl := (List.cons.inj hlist).1
    exact ⟨later, hof, t.usage, habsorb, by rw [← ht]⟩

/-! ## One report -/

/-- The four buckets that only grow. -/
structure WireUsage.Grows (s t : WireUsage) : Prop where
  uncachedInput : s.uncachedInput ≤ t.uncachedInput
  output : s.output ≤ t.output
  cacheRead : s.cacheRead ≤ t.cacheRead
  cacheWrite : s.cacheWrite ≤ t.cacheWrite

theorem cumulative_le {earlier later count : Nat} (h : cumulative earlier later = .ok count) :
    earlier ≤ count := by
  rw [(cumulative_ok h).1]
  exact Nat.le_max_left _ _

/-- The cache writes and their tiers are those of the larger total, or of the one that is split. -/
theorem absorb_eq_ok {s later t : WireUsage} (h : s.absorb later = .ok t) :
    s.Grows t ∧
      ((s.cacheWrite < later.cacheWrite ∨
          (later.cacheWrite = s.cacheWrite ∧ later.hasSplit = true ∧ s.hasSplit = false)) ∧
        t.cacheWrite = later.cacheWrite ∧ t.cacheWrite5m = later.cacheWrite5m ∧
          t.cacheWrite1h = later.cacheWrite1h ∨
      ¬s.cacheWrite < later.cacheWrite ∧
        t.cacheWrite = s.cacheWrite ∧ t.cacheWrite5m = s.cacheWrite5m ∧
          t.cacheWrite1h = s.cacheWrite1h) := by
  simp only [WireUsage.absorb, bind_eq_ok, pure_eq_ok] at h
  obtain ⟨uncached, huncached, output, houtput, read, hread, write, -, rfl⟩ := h
  split
  · next htaken =>
      refine ⟨⟨cumulative_le huncached, cumulative_le houtput, cumulative_le hread, ?_⟩,
        .inl ⟨htaken, rfl, rfl, rfl⟩⟩
      rcases htaken with hmore | ⟨hsame, -⟩
      · exact hmore.le
      · exact hsame.ge
  · next hkept =>
      exact ⟨⟨cumulative_le huncached, cumulative_le houtput, cumulative_le hread, Nat.le_refl _⟩,
        .inr ⟨fun hmore => hkept (.inl hmore), rfl, rfl, rfl⟩⟩

theorem absorb_split {s later t : WireUsage} (h : s.absorb later = .ok t) (hs : s.Split)
    (hlater : later.Split) : t.Split := by
  unfold WireUsage.Split at hs hlater ⊢
  obtain ⟨-, ⟨-, hwrite, hfive, hhour⟩ | ⟨-, hwrite, hfive, hhour⟩⟩ := absorb_eq_ok h
  · rwa [hwrite, hfive, hhour]
  · rwa [hwrite, hfive, hhour]

/-! ## The consumer -/

/-- Zero keeps the earlier value. -/
def lastNonZero (earlier later : Nat) : Nat := if later = 0 then earlier else later

theorem lastNonZero_eq_right {earlier later : Nat} :
    lastNonZero earlier later = later ↔ (later = 0 → earlier = 0) := by
  unfold lastNonZero
  split <;> omega

/-- A consumer's fold, field by field. -/
def keepLastNonZero (earlier later : Usage) : Usage where
  inputTokens := lastNonZero earlier.inputTokens later.inputTokens
  outputTokens := lastNonZero earlier.outputTokens later.outputTokens
  cacheReadTokens := lastNonZero earlier.cacheReadTokens later.cacheReadTokens
  cacheWriteTokens := lastNonZero earlier.cacheWriteTokens later.cacheWriteTokens
  reasoningTokens := lastNonZero earlier.reasoningTokens later.reasoningTokens
  explicitCacheReadTokens :=
    lastNonZero earlier.explicitCacheReadTokens later.explicitCacheReadTokens
  cacheWrite5mTokens := lastNonZero earlier.cacheWrite5mTokens later.cacheWrite5mTokens
  cacheWrite1hTokens := lastNonZero earlier.cacheWrite1hTokens later.cacheWrite1hTokens

/-- Everything but the two tiers is the same. -/
structure SameButTiers (u v : Usage) : Prop where
  input : u.inputTokens = v.inputTokens
  output : u.outputTokens = v.outputTokens
  cacheRead : u.cacheReadTokens = v.cacheReadTokens
  cacheWrite : u.cacheWriteTokens = v.cacheWriteTokens
  reasoning : u.reasoningTokens = v.reasoningTokens
  explicit : u.explicitCacheReadTokens = v.explicitCacheReadTokens

/-- A larger total brings a count for each tier that has one. -/
def WireUsage.Brings (s later : WireUsage) : Prop :=
  s.cacheWrite < later.cacheWrite →
    (later.cacheWrite5m = 0 → s.cacheWrite5m = 0) ∧ (later.cacheWrite1h = 0 → s.cacheWrite1h = 0)

theorem lastNonZero_of_le {earlier later : Nat} (h : earlier ≤ later) :
    lastNonZero earlier later = later :=
  lastNonZero_eq_right.mpr fun hzero => by omega

theorem input_le {s t : WireUsage} (h : s.Grows t) : s.toIr.inputTokens ≤ t.toIr.inputTokens := by
  have huncached := h.uncachedInput
  have hread := h.cacheRead
  have hwrite := h.cacheWrite
  simp only [WireUsage.toIr, saturatingAdd]
  omega

theorem consumer_sameButTiers {s t : WireUsage} {u : Usage} (h : s.Grows t)
    (hu : SameButTiers u s.toIr) : SameButTiers (keepLastNonZero u t.toIr) t.toIr where
  input := by
    rw [keepLastNonZero, hu.input]
    exact lastNonZero_of_le (input_le h)
  output := by
    rw [keepLastNonZero, hu.output]
    exact lastNonZero_of_le h.output
  cacheRead := by
    rw [keepLastNonZero, hu.cacheRead]
    exact lastNonZero_of_le h.cacheRead
  cacheWrite := by
    rw [keepLastNonZero, hu.cacheWrite]
    exact lastNonZero_of_le h.cacheWrite
  reasoning := by
    rw [keepLastNonZero, hu.reasoning]
    rfl
  explicit := by
    rw [keepLastNonZero, hu.explicit]
    rfl

/-- One report is folded to itself when it brings what it has to. -/
theorem consumer_step {s later t : WireUsage} (h : s.absorb later = .ok t) :
    keepLastNonZero s.toIr t.toIr = t.toIr ↔ s.Brings later := by
  obtain ⟨hgrows, hwrites⟩ := absorb_eq_ok h
  have hsame := consumer_sameButTiers hgrows ⟨rfl, rfl, rfl, rfl, rfl, rfl⟩
  have htiers : keepLastNonZero s.toIr t.toIr = t.toIr ↔
      (t.cacheWrite5m = 0 → s.cacheWrite5m = 0) ∧ (t.cacheWrite1h = 0 → s.cacheWrite1h = 0) := by
    rw [← lastNonZero_eq_right, ← lastNonZero_eq_right]
    constructor
    · intro heq
      exact ⟨congrArg Usage.cacheWrite5mTokens heq, congrArg Usage.cacheWrite1hTokens heq⟩
    · rintro ⟨hfive, hhour⟩
      rw [Usage.mk.injEq]
      exact ⟨hsame.input, hsame.output, hsame.cacheRead, hsame.cacheWrite, hsame.reasoning,
        hsame.explicit, hfive, hhour⟩
  rw [htiers, WireUsage.Brings]
  rcases hwrites with ⟨htaken, -, hfive, hhour⟩ | ⟨hkept, -, hfive, hhour⟩
  · rw [hfive, hhour]
    rcases htaken with hmore | ⟨hequal, -, hsplit⟩
    · exact ⟨fun hbrings _ => hbrings, fun hbrings => hbrings hmore⟩
    · have hzero : s.cacheWrite5m = 0 ∧ s.cacheWrite1h = 0 := by
        simpa [WireUsage.hasSplit] using hsplit
      exact ⟨fun _ hmore => absurd hmore (by omega), fun _ => ⟨fun _ => hzero.1, fun _ => hzero.2⟩⟩
  · rw [hfive, hhour]
    exact ⟨fun _ hmore => absurd hmore hkept, fun _ => ⟨id, id⟩⟩

/-! ## Runs of reports -/

/-- After every report the consumer has exactly what was reported. -/
def Tracks (consumer : Usage) (reported : List Usage) : Prop :=
  ∀ front last, front ++ [last] <+: reported →
    (front ++ [last]).foldl keepLastNonZero consumer = last

theorem tracks_cons {consumer first : Usage} {reported : List Usage} :
    Tracks consumer (first :: reported) ↔
      keepLastNonZero consumer first = first ∧ Tracks first reported := by
  constructor
  · intro h
    have hfirst := h [] first (List.prefix_append [first] reported)
    refine ⟨hfirst, fun front last hprefix => ?_⟩
    have hfold := h (first :: front) last (List.cons_prefix_cons.mpr ⟨rfl, hprefix⟩)
    rw [List.cons_append, List.foldl_cons] at hfold
    rwa [show keepLastNonZero consumer first = first from hfirst] at hfold
  · rintro ⟨hfirst, hrest⟩ front last hprefix
    cases front with
    | nil =>
        obtain rfl := (List.cons_prefix_cons.mp hprefix).1
        exact hfirst
    | cons head front =>
        obtain ⟨rfl, htail⟩ := List.cons_prefix_cons.mp hprefix
        rw [List.cons_append, List.foldl_cons, hfirst]
        exact hrest front last htail

/-- Every report of a run brings what it has to, given the usage before it. -/
def BringAll (usage : WireUsage) : List (Value × UsageReport) → Prop
  | [] => True
  | (raw, report) :: reports =>
      ∀ later folded, WireUsage.of raw report = .ok later → usage.absorb later = .ok folded →
        usage.Brings later ∧ BringAll folded reports

/-- What every run of accepted reports keeps. -/
structure Consistent (usage : WireUsage) (reports : List (Value × UsageReport))
    (folded : List WireUsage) : Prop where
  grows : List.IsChain WireUsage.Grows (usage :: folded)
  split : ∀ t ∈ folded, t.Split
  buckets : ∀ front last, front ++ [last] <+: folded.map WireUsage.toIr →
    SameButTiers ((front ++ [last]).foldl keepLastNonZero usage.toIr) last
  tracks : Tracks usage.toIr (folded.map WireUsage.toIr) ↔ BringAll usage reports

theorem foldl_sameButTiers {usage : WireUsage} {folded : List WireUsage}
    (hgrows : List.IsChain WireUsage.Grows (usage :: folded)) {consumer : Usage}
    (hconsumer : SameButTiers consumer usage.toIr) : ∀ front last,
    front ++ [last] <+: folded.map WireUsage.toIr →
    SameButTiers ((front ++ [last]).foldl keepLastNonZero consumer) last := by
  induction folded generalizing usage consumer with
  | nil =>
      intro front last hprefix
      rw [List.map_nil, List.prefix_nil] at hprefix
      exact absurd hprefix (by simp)
  | cons first folded ih =>
      intro front last hprefix
      rw [List.isChain_cons_cons] at hgrows
      have hfirst := consumer_sameButTiers hgrows.1 hconsumer
      cases front with
      | nil =>
          obtain rfl := (List.cons_prefix_cons.mp hprefix).1
          exact hfirst
      | cons head front =>
          obtain ⟨rfl, htail⟩ := List.cons_prefix_cons.mp hprefix
          exact ih hgrows.2 hfirst front last htail

theorem foldReports_consistent {usage : WireUsage} (hsplit : usage.Split)
    {reports : List (Value × UsageReport)} {folded : List WireUsage}
    (h : foldReports usage reports = .ok folded) : Consistent usage reports folded := by
  induction reports generalizing usage folded with
  | nil =>
      cases h
      refine ⟨.singleton _, (fun _ hmem => by cases hmem), ?_, ?_⟩
      · exact foldl_sameButTiers (.singleton _) ⟨rfl, rfl, rfl, rfl, rfl, rfl⟩
      · refine ⟨fun _ => trivial, fun _ front last hprefix => ?_⟩
        rw [List.map_nil, List.prefix_nil] at hprefix
        exact absurd hprefix (by simp)
  | cons first reports ih =>
      obtain ⟨raw, report⟩ := first
      simp only [foldReports, bind_eq_ok, pure_eq_ok] at h
      obtain ⟨later, hof, next, habsorb, rest, hrest, rfl⟩ := h
      have hnext := absorb_split habsorb hsplit (of_buckets hof).2
      have hrun := ih hnext hrest
      have hgrows : List.IsChain WireUsage.Grows (usage :: next :: rest) :=
        .cons_cons (absorb_eq_ok habsorb).1 hrun.grows
      refine ⟨hgrows, List.forall_mem_cons.mpr ⟨hnext, hrun.split⟩, ?_, ?_⟩
      · exact foldl_sameButTiers hgrows ⟨rfl, rfl, rfl, rfl, rfl, rfl⟩
      · rw [List.map_cons, tracks_cons, consumer_step habsorb, hrun.tracks, BringAll]
        constructor
        · rintro ⟨hbrings, hall⟩ later' folded' hof' habsorb'
          obtain rfl := Except.ok.inj (hof.symm.trans hof')
          obtain rfl := Except.ok.inj (habsorb.symm.trans habsorb')
          exact ⟨hbrings, hall⟩
        · intro hall
          exact hall later next hof habsorb

/-- Whatever reports a stream's parser accepts, its buckets only grow and the tiers make up
the total or are unknown. A consumer of the reports has all but the tiers right, and the
tiers too, exactly as long as no larger total leaves out a tier that had a count. -/
theorem accepted_reports_consistent (reports : List (Value × UsageReport))
    (folded : List WireUsage) (h : foldReports .default reports = .ok folded) :
    Consistent .default reports folded :=
  foldReports_consistent (.inl rfl) h

/-- A report of a message's start or end, with a cache-creation breakdown. -/
def cacheReport (output total five hour : Nat) : Value :=
  .object [("cache_creation", .object [("ephemeral_1h_input_tokens", .nat hour),
    ("ephemeral_5m_input_tokens", .nat five)]), ("cache_creation_input_tokens", .nat total),
    ("input_tokens", .nat 10), ("output_tokens", .nat output)]

theorem growing_tiers_tracked :
    Consistent .default [(cacheReport 1 300 300 0, .streamStart), (cacheReport 7 500 300 200,
        .streamDelta)]
      [⟨10, 1, 0, 300, 300, 0⟩, ⟨10, 7, 0, 500, 300, 200⟩] :=
  accepted_reports_consistent _ _ (by decide +kernel)

/-- A tier does not go back to zero in the consumer. -/
theorem tier_kept_by_consumer :
    foldReports .default [(cacheReport 1 300 300 0, .streamStart),
        (cacheReport 7 500 0 500, .streamDelta)] =
      .ok [⟨10, 1, 0, 300, 300, 0⟩, ⟨10, 7, 0, 500, 0, 500⟩] ∧
    ([⟨10, 1, 0, 300, 300, 0⟩, ⟨10, 7, 0, 500, 0, 500⟩].map WireUsage.toIr).foldl keepLastNonZero
        .default =
      { WireUsage.toIr ⟨10, 7, 0, 500, 0, 500⟩ with cacheWrite5mTokens := 300 } ∧
    { WireUsage.toIr ⟨10, 7, 0, 500, 0, 500⟩ with cacheWrite5mTokens := 300 } ≠
      WireUsage.toIr ⟨10, 7, 0, 500, 0, 500⟩ := by
  refine ⟨by decide +kernel, by decide +kernel, by decide +kernel⟩

end TokenStation.Provider.Messages
