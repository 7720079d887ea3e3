import TokenStation.Provider.Gemini
import TokenStation.Provider.TerminalFrames

/-!
# The grammar of Gemini streams

A chunk with a finish reason is terminal: it sends the finish, the usage it
carries and the close. The counts of its usage report are at least those of
every earlier report.
-/

namespace TokenStation.Provider

open Library Library.ChunkedReading Library.Json Responses Sse

namespace Gemini

/-- The finish, the usage when the terminal chunk carries one, and the close. -/
def Terminal (events : List StreamEvent) : Prop :=
  ∃ (reason : Option FinishReason) (usage : Option Usage),
    events = .finish reason none :: (usage.map StreamEvent.usage).toList ++ [.done none none]

variable {packages : Packages}

theorem partEvents_spoken {parts : List Value} {seen seen' : Nat} {events : List StreamEvent}
    (h : partEvents packages seen parts = .ok (events, seen')) :
    ∀ event ∈ events, event.isSpoken = true := by
  induction parts generalizing seen events with
  | nil =>
      cases h
      simp
  | cons part parts ih =>
      rw [partEvents] at h
      split at h
      · rw [Checked.bind_eq_ok] at h
        obtain ⟨signature, -, h⟩ := h
        rw [Checked.bind_eq_ok] at h
        obtain ⟨⟨rest, count⟩, hrest, h⟩ := h
        rw [Checked.pure_eq_ok, Prod.mk.injEq] at h
        obtain ⟨rfl, rfl⟩ := h
        exact List.forall_mem_cons.mpr ⟨rfl, ih hrest⟩
      · rw [Checked.bind_eq_ok] at h
        obtain ⟨⟨rest, count⟩, hrest, h⟩ := h
        rw [Checked.pure_eq_ok, Prod.mk.injEq] at h
        obtain ⟨rfl, rfl⟩ := h
        intro event hevent
        rcases List.mem_append.mp hevent with hevent | hevent
        · rw [Option.mem_toList, textEvent, Option.map_eq_some_iff] at hevent
          obtain ⟨text, -, rfl⟩ := hevent
          split <;> rfl
        · exact ih hrest event hevent

/-- What an accepted chunk is: an intermediate one, or the terminal one. -/
inductive Accepted (s : GeminiSseParser) (frame : Value) :
    List StreamEvent → GeminiSseParser → Prop where
  | intermediate {content : List StreamEvent} {seen : Nat} {t : GeminiSseParser}
      (hreason : streamFinishReason frame = .ok none)
      (hcontent : ∀ event ∈ content, event.isSpoken = true)
      (hcounts : match frame.get "usageMetadata" with
        | none => t = { s with toolCallsSeen := seen }
        | some report => { s with toolCallsSeen := seen }.observeCounts report false = .ok t) :
      Accepted s frame content t
  | terminal {content usage : List StreamEvent} {seen : Nat} {t : GeminiSseParser}
      {reason : String} {finish : Option FinishReason}
      (hreason : streamFinishReason frame = .ok (some reason))
      (hcontent : ∀ event ∈ content, event.isSpoken = true)
      (hcounts : { s with toolCallsSeen := seen, terminated := true }.terminalUsage
        (frame.get "usageMetadata") = .ok (usage, t)) :
      Accepted s frame (content ++ .finish finish none :: usage ++ [.done none none]) t

theorem eventsOf_ok {s t : GeminiSseParser} {frame : Value} {events : List StreamEvent}
    (h : s.eventsOf packages frame = .ok (events, t)) :
    s.terminated = false ∧ Accepted s frame events t := by
  rw [GeminiSseParser.eventsOf, Checked.bind_eq_ok] at h
  obtain ⟨_, hopen, h⟩ := h
  simp only [refuseWhen, Checked.refuse_eq_ok, Bool.not_eq_true] at hopen
  refine ⟨hopen, ?_⟩
  rw [Checked.bind_eq_ok] at h
  obtain ⟨⟨content, seen⟩, hparts, h⟩ := h
  have hcontent := partEvents_spoken hparts
  rw [Checked.bind_eq_ok] at h
  obtain ⟨reason, hreason, h⟩ := h
  cases reason with
  | none =>
      dsimp only at h
      split at h
      · rename_i hmeta
        rw [Checked.pure_eq_ok, Prod.mk.injEq] at h
        obtain ⟨rfl, rfl⟩ := h
        exact .intermediate hreason hcontent (by rw [hmeta])
      · rename_i report hmeta
        rw [Checked.bind_eq_ok] at h
        obtain ⟨u, hcounts, h⟩ := h
        rw [Checked.pure_eq_ok, Prod.mk.injEq] at h
        obtain ⟨rfl, rfl⟩ := h
        exact .intermediate hreason hcontent (by rw [hmeta]; exact hcounts)
  | some reason =>
      dsimp only at h
      rw [Checked.bind_eq_ok] at h
      obtain ⟨⟨usage, u⟩, hcounts, h⟩ := h
      rw [Checked.pure_eq_ok, Prod.mk.injEq] at h
      obtain ⟨rfl, rfl⟩ := h
      exact .terminal hreason hcontent hcounts

theorem observeCounts_ok {s t : GeminiSseParser} {report : Value} {terminal : Bool}
    (h : s.observeCounts report terminal = .ok t) :
    ∃ counts, observe report terminal (streamUsageCounts.zip s.countsSeen) = .ok counts ∧
      t = { s with countsSeen := counts } := by
  rw [GeminiSseParser.observeCounts, Checked.bind_eq_ok] at h
  obtain ⟨-, -, h⟩ := h
  rw [Checked.bind_eq_ok] at h
  obtain ⟨counts, hcounts, h⟩ := h
  exact ⟨counts, hcounts, (Checked.pure_eq_ok.mp h).symm⟩

theorem terminalUsage_ok {s t : GeminiSseParser} {raw : Option Value} {usage : List StreamEvent}
    (h : s.terminalUsage raw = .ok (usage, t)) :
    (∃ counts : Option Usage, usage = (counts.map StreamEvent.usage).toList) ∧
      (raw = none → t = s) ∧
      ∀ report, raw = some report → s.observeCounts report true = .ok t := by
  cases raw with
  | none =>
      cases h
      exact ⟨⟨none, rfl⟩, fun _ => rfl, by simp⟩
  | some report =>
      rw [GeminiSseParser.terminalUsage, Checked.bind_eq_ok] at h
      obtain ⟨counts, -, h⟩ := h
      rw [Checked.bind_eq_ok] at h
      obtain ⟨u, hcounts, h⟩ := h
      rw [Checked.pure_eq_ok, Prod.mk.injEq] at h
      obtain ⟨rfl, rfl⟩ := h
      refine ⟨⟨some counts, rfl⟩, by simp, fun other hother => ?_⟩
      rw [Option.some.injEq] at hother
      exact hother ▸ hcounts

theorem frame_ok {s t : GeminiSseParser} {sse : SseFrameV1} {events : List StreamEvent}
    (h : frame packages s sse = .ok (events, t)) :
    ∃ parsed, packages.fromStr sse.data = some parsed ∧ s.terminated = false ∧
      Accepted s parsed events t := by
  rw [frame] at h
  split at h
  · cases h
  · rename_i parsed hparsed
    exact ⟨parsed, hparsed, eventsOf_ok h⟩

theorem Accepted.terminates {s t : GeminiSseParser} {frame : Value} {events : List StreamEvent}
    (hopen : s.terminated = false) (h : Accepted s frame events t) :
    Terminates Terminal (t.terminated = true) events := by
  cases h with
  | intermediate hreason hcontent hcounts =>
      refine ⟨events, [], by simp, hcontent, .inr ⟨?_, rfl⟩⟩
      have hsame : t.terminated = s.terminated := by
        split at hcounts
        · rw [hcounts]
        · obtain ⟨counts, -, rfl⟩ := observeCounts_ok hcounts
          rfl
      simp [hsame, hopen]
  | @terminal content usage seen t reason finish hreason hcontent hcounts =>
      obtain ⟨⟨counts, rfl⟩, hnone, hsome⟩ := terminalUsage_ok hcounts
      refine ⟨content, _, by rw [List.append_assoc], hcontent, .inl ⟨?_, finish, counts, rfl⟩⟩
      cases hmeta : frame.get "usageMetadata" with
      | none => rw [hnone hmeta]
      | some report =>
          obtain ⟨counts, -, rfl⟩ := observeCounts_ok (hsome report hmeta)
          rfl

theorem terminating (packages : Packages) :
    (geminiSseParser packages).Terminating (fun s => s.terminated = true) Terminal where
  start := Bool.false_ne_true
  last := by
    rintro s sse ⟨events, t⟩ hended h
    obtain ⟨parsed, -, hopen, -⟩ := frame_ok h
    simp [hopen] at hended
  step := by
    intro s sse events t _ h
    obtain ⟨parsed, -, hopen, haccepted⟩ := frame_ok h
    exact haccepted.terminates hopen
  close := by
    intro s last t h
    cases h
    exact ⟨rfl, rfl⟩

/-! ## Counts across chunks -/

/-- No count of the report is above the one seen. -/
def Covers (seen : List Nat) (report : Value) : Prop :=
  List.Forall₂ (fun key count => countAt report key ≤ count) streamUsageCounts seen

/-- The usage report of a chunk. -/
def usageReport (packages : Packages) (sse : SseFrameV1) : Option Value :=
  (packages.fromStr sse.data).bind (·.get "usageMetadata")

/-- A chunk with a finish reason. -/
def IsTerminal (packages : Packages) (sse : SseFrameV1) : Prop :=
  ∃ parsed reason, packages.fromStr sse.data = some parsed ∧
    streamFinishReason parsed = .ok (some reason)

/-- The counts after a report are those of the report, or the ones seen when
an intermediate report leaves them out. -/
theorem observe_ok {report : Value} {terminal : Bool} {keys : List String}
    {seen counts : List Nat} (hlen : keys.length = seen.length)
    (h : observe report terminal (keys.zip seen) = .ok counts) :
    List.Forall₂ (· ≤ ·) seen counts ∧
      List.Forall₂ (fun key count => countAt report key ≤ count) keys counts ∧
      (terminal = true → counts = keys.map (countAt report)) := by
  induction keys generalizing seen counts with
  | nil =>
      obtain rfl : seen = [] := List.length_eq_zero_iff.mp hlen.symm
      cases h
      exact ⟨.nil, .nil, fun _ => rfl⟩
  | cons key keys ih =>
      cases seen with
      | nil => cases hlen
      | cons before seen =>
          have hlen : keys.length = seen.length := Nat.succ.inj hlen
          rw [List.zip_cons_cons, observe] at h
          split at h
          · rename_i hskip
            rw [Checked.bind_eq_ok] at h
            obtain ⟨rest, hrest, h⟩ := h
            rw [Checked.pure_eq_ok] at h
            subst h
            obtain ⟨hrise, hcover, -⟩ := ih hlen hrest
            have hzero : countAt report key = 0 := by
              cases hvalue : report.get key with
              | none => simp [countAt, hvalue]
              | some value =>
                  have hnull : value.isNull = true := by simpa [hvalue] using hskip.2
                  cases value <;> simp_all [countAt, Value.isNull, Value.asU64]
            refine ⟨.cons (Nat.le_refl _) hrise, .cons ?_ hcover, ?_⟩
            · rw [hzero]
              exact Nat.zero_le _
            · simp [hskip.1]
          · rw [Checked.bind_eq_ok] at h
            obtain ⟨count, hcount, h⟩ := h
            rw [Checked.bind_eq_ok] at h
            obtain ⟨_, hrise, h⟩ := h
            rw [Checked.bind_eq_ok] at h
            obtain ⟨rest, hrest, h⟩ := h
            rw [Checked.pure_eq_ok] at h
            subst h
            simp only [refuseWhen, Checked.refuse_eq_ok, Nat.not_lt] at hrise
            obtain ⟨hrises, hcover, hexact⟩ := ih hlen hrest
            have hthis : count = countAt report key := countOrZero_ok hcount rfl
            refine ⟨.cons hrise hrises, .cons (by rw [hthis]) hcover, fun hterminal => ?_⟩
            rw [List.map_cons, ← hthis, hexact hterminal]

/-- What a chunk does to the counts seen. -/
theorem counts_ok {s t : GeminiSseParser} {sse : SseFrameV1} {events : List StreamEvent}
    (hlen : streamUsageCounts.length = s.countsSeen.length)
    (h : frame packages s sse = .ok (events, t)) :
    List.Forall₂ (· ≤ ·) s.countsSeen t.countsSeen ∧
      ∀ report, usageReport packages sse = some report → Covers t.countsSeen report ∧
        (IsTerminal packages sse → t.countsSeen = streamUsageCounts.map (countAt report)) := by
  obtain ⟨parsed, hparsed, -, haccepted⟩ := frame_ok h
  have hreport : usageReport packages sse = parsed.get "usageMetadata" := by
    simp [usageReport, hparsed]
  rw [hreport]
  have hsame : List.Forall₂ (· ≤ ·) s.countsSeen s.countsSeen :=
    List.forall₂_same.mpr fun _ _ => Nat.le_refl _
  cases haccepted with
  | intermediate hreason hcontent hcounts =>
      cases hmeta : parsed.get "usageMetadata" with
      | none =>
          rw [hmeta] at hcounts
          rw [hcounts]
          exact ⟨hsame, by simp⟩
      | some report =>
          rw [hmeta] at hcounts
          obtain ⟨counts, hobserve, rfl⟩ := observeCounts_ok hcounts
          obtain ⟨hrise, hcover, -⟩ := observe_ok hlen hobserve
          refine ⟨hrise, fun other hother => ?_⟩
          rw [Option.some.injEq] at hother
          subst hother
          refine ⟨hcover, ?_⟩
          rintro ⟨parsed', reason, hparsed', hreason'⟩
          rw [hparsed, Option.some.injEq] at hparsed'
          subst hparsed'
          rw [hreason] at hreason'
          cases hreason'
  | terminal hreason hcontent hcounts =>
      obtain ⟨-, hnone, hsome⟩ := terminalUsage_ok hcounts
      cases hmeta : parsed.get "usageMetadata" with
      | none =>
          rw [hnone hmeta]
          exact ⟨hsame, by simp⟩
      | some report =>
          obtain ⟨counts, hobserve, rfl⟩ := observeCounts_ok (hsome report hmeta)
          obtain ⟨hrise, hcover, hexact⟩ := observe_ok hlen hobserve
          refine ⟨hrise, fun other hother => ?_⟩
          rw [Option.some.injEq] at hother
          subst hother
          exact ⟨hcover, fun _ => hexact rfl⟩

theorem Covers.rise {seen later : List Nat} {report : Value} (h : Covers seen report)
    (hrise : List.Forall₂ (· ≤ ·) seen later) : Covers later report := by
  unfold Covers at h ⊢
  revert h hrise
  generalize streamUsageCounts = keys
  intro h hrise
  induction h generalizing later with
  | nil =>
      cases hrise
      exact .nil
  | cons hcount _ ih =>
      cases hrise with
      | cons hle hrise => exact .cons (Nat.le_trans hcount hle) (ih hrise)

theorem Covers.le {report last : Value}
    (h : Covers (streamUsageCounts.map (countAt last)) report) :
    ∀ key ∈ streamUsageCounts, countAt report key ≤ countAt last key := by
  unfold Covers at h
  revert h
  generalize streamUsageCounts = keys
  intro h key hkey
  induction keys with
  | nil => cases hkey
  | cons first keys ih =>
      cases h with
      | cons hcount h =>
          rcases List.mem_cons.mp hkey with rfl | hkey
          · exact hcount
          · exact ih h hkey

/-- A report that is covered stays below the terminal one. -/
theorem covered_le {frames : List SseFrameV1} {s t : GeminiSseParser}
    {events : List StreamEvent} (hlen : streamUsageCounts.length = s.countsSeen.length)
    (h : (geminiSseParser packages).read s frames = .ok (events, t)) {report : Value}
    (hcovers : Covers s.countsSeen report) :
    ∀ sse ∈ frames, IsTerminal packages sse → ∀ last, usageReport packages sse = some last →
      ∀ key ∈ streamUsageCounts, countAt report key ≤ countAt last key := by
  induction frames generalizing s events with
  | nil => simp
  | cons sse frames ih =>
      obtain ⟨now, rest, u, hnow, hrest, rfl⟩ := Dialect.read_cons_ok h
      obtain ⟨hrise, hreport⟩ := counts_ok hlen hnow
      have hcovers := hcovers.rise hrise
      intro other hother hterminal last hlast
      rcases List.mem_cons.mp hother with rfl | hother
      · rw [(hreport last hlast).2 hterminal] at hcovers
        exact hcovers.le
      · exact ih (hlen.trans hrise.length_eq) hrest hcovers other hother hterminal last hlast

/-- The counts of the terminal report are at least those of every earlier one. -/
theorem counts_rise {frames : List SseFrameV1} {s t : GeminiSseParser}
    {events : List StreamEvent} (hlen : streamUsageCounts.length = s.countsSeen.length)
    (h : (geminiSseParser packages).read s frames = .ok (events, t)) :
    frames.Pairwise fun earlier later => IsTerminal packages later →
      ∀ report, usageReport packages earlier = some report →
        ∀ last, usageReport packages later = some last →
          ∀ key ∈ streamUsageCounts, countAt report key ≤ countAt last key := by
  induction frames generalizing s events with
  | nil => exact .nil
  | cons sse frames ih =>
      obtain ⟨now, rest, u, hnow, hrest, rfl⟩ := Dialect.read_cons_ok h
      obtain ⟨hrise, hreport⟩ := counts_ok hlen hnow
      have hlen := hlen.trans hrise.length_eq
      refine List.pairwise_cons.mpr ⟨fun later hlater hterminal report hearlier last hlast => ?_,
        ih hlen hrest⟩
      exact covered_le hlen hrest (hreport report hearlier).1 later hlater hterminal last hlast

end Gemini

end TokenStation.Provider
