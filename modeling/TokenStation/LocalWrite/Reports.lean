import TokenStation.LocalWrite.Requests

/-!
# What the tracker reports

Over every sequence of calls, a flush reports a request only when the bytes taken
since the last one it reported are exactly that request, a chunk reports it once
before, and nothing is reported any more once a byte was refused. Requests that
are taken in chunks and flushed one after another are all reported, in order.
-/

namespace TokenStation.LocalWrite

/-- The bytes taken since the last request that a flush reported. -/
def sinceReport (history : List Entry) : List UInt8 :=
  history.foldl (fun bytes entry =>
    match entry with
    | (.accepted chunk, _) => bytes ++ chunk
    | (.flushed, some _) => []
    | _ => bytes) []

/-- What the chunks reported, in order. -/
def acceptedReports (history : List Entry) : List Event :=
  history.filterMap fun entry =>
    match entry with
    | (.accepted _, report) => report
    | _ => none

/-- What the flushes reported, in order. -/
def flushedReports (history : List Entry) : List Event :=
  history.filterMap fun entry =>
    match entry with
    | (.flushed, report) => report
    | _ => none

/-- Whether the tracker was aborted or took a byte that it refuses. -/
def Stopped (history : List Entry) : Prop :=
  Call.abort ∈ history.map Prod.fst ∨ Refused (sinceReport history)

/-- What holds of a tracker and the history of its calls. -/
structure Follows (history : List Entry) (t : WriteTracker) : Prop where
  progress : Call.abort ∉ history.map Prod.fst → Progress (sinceReport history) t
  aborted : Call.abort ∈ history.map Prod.fst → t = { disabled := true }
  live : t.disabled = false → acceptedReports history = flushedReports history ++ t.complete.toList
  reports : flushedReports history <+: acceptedReports history
  pending : (acceptedReports history).length ≤ (flushedReports history).length + 1

theorem follows_new : Follows [] WriteTracker.new :=
  ⟨fun _ => .header unfinished_nil, fun h => by simp at h, fun _ => rfl, List.prefix_refl _,
    Nat.zero_le _⟩

/-- A complete request and refused bytes exclude each other. -/
theorem Progress.of_refused {bytes : List UInt8} {t : WriteTracker} (h : Progress bytes t)
    (hrefused : Refused bytes) : t = { disabled := true } := by
  cases h with
  | refused _ => rfl
  | complete h =>
      rw [← List.append_nil bytes] at h
      exact absurd h hrefused.not_request
  | header h =>
      cases hrefused with
      | overlong hlong _ => exact absurd h.1 (by omega)
      | header hblock hlead _ => exact absurd hlead (h.no_block hblock)
      | overrun hblock hlead _ _ => exact absurd hlead (h.no_block hblock)
  | @body block body id length hbytes hblock hparse hlt =>
      have hwhole : IsRequest (bytes ++ List.replicate (length - body.length) 0) (id, length) := by
        refine ⟨block, body ++ List.replicate (length - body.length) 0, by simp [hbytes], hblock,
          hparse, ?_⟩
        rw [List.length_append, List.length_replicate]
        omega
      exact absurd hwhole hrefused.not_request

theorem Follows.of_stopped {history : List Entry} {t : WriteTracker} (h : Follows history t)
    (hstopped : Stopped history) : t = { disabled := true } := by
  by_cases haborted : Call.abort ∈ history.map Prod.fst
  · exact h.aborted haborted
  · exact (h.progress haborted).of_refused (hstopped.resolve_left haborted)

/-! ## One call -/

@[simp] theorem sinceReport_accepted (history : List Entry) (chunk : List UInt8)
    (report : Option Event) :
    sinceReport (history ++ [(.accepted chunk, report)]) = sinceReport history ++ chunk := by
  simp [sinceReport]

@[simp] theorem sinceReport_reported (history : List Entry) (event : Event) :
    sinceReport (history ++ [(.flushed, some event)]) = [] := by
  simp [sinceReport]

@[simp] theorem sinceReport_unreported (history : List Entry) :
    sinceReport (history ++ [(.flushed, none)]) = sinceReport history := by
  simp [sinceReport]

@[simp] theorem acceptedReports_accepted (history : List Entry) (chunk : List UInt8)
    (report : Option Event) :
    acceptedReports (history ++ [(.accepted chunk, report)])
      = acceptedReports history ++ report.toList := by
  cases report <;> simp [acceptedReports]

@[simp] theorem acceptedReports_flushed (history : List Entry) (report : Option Event) :
    acceptedReports (history ++ [(.flushed, report)]) = acceptedReports history := by
  simp [acceptedReports]

@[simp] theorem flushedReports_accepted (history : List Entry) (chunk : List UInt8)
    (report : Option Event) :
    flushedReports (history ++ [(.accepted chunk, report)]) = flushedReports history := by
  simp [flushedReports]

@[simp] theorem flushedReports_flushed (history : List Entry) (report : Option Event) :
    flushedReports (history ++ [(.flushed, report)]) = flushedReports history ++ report.toList := by
  cases report <;> simp [flushedReports]

@[simp] theorem acceptedReports_abort (history : List Entry) :
    acceptedReports (history ++ [(.abort, none)]) = acceptedReports history := by
  simp [acceptedReports]

@[simp] theorem flushedReports_abort (history : List Entry) :
    flushedReports (history ++ [(.abort, none)]) = flushedReports history := by
  simp [flushedReports]

/-- A call that leaves a stopped tracker as it is. -/
theorem Follows.quiet {history : List Entry} {call : Call}
    (h : Follows history { disabled := true }) (haborted : Call.abort ∈ history.map Prod.fst) :
    Follows (history ++ [(call, none)]) { disabled := true } := by
  refine ⟨fun hnot => absurd (by simp [haborted]) hnot, fun _ => rfl, (fun h => by cases h), ?_, ?_⟩
  · have := h.reports
    cases call <;> simpa using this
  · have := h.pending
    cases call <;> simpa using this

/-- What a call reports is whole. -/
def Whole (history : List Entry) (call : Call) (event : Event) : Prop :=
  match call with
  | .accepted chunk => IsRequest (sinceReport history ++ chunk) event
  | .flushed => IsRequest (sinceReport history) event
  | .abort => False

theorem Progress.of_complete {bytes : List UInt8} {t : WriteTracker} {event : Event}
    (h : Progress bytes t) (hevent : t.complete = some event) :
    IsRequest bytes event ∧ t = { complete := some event } := by
  cases h with
  | complete h =>
      cases hevent
      exact ⟨h, rfl⟩
  | header _ | body _ _ _ _ | refused _ => cases hevent

theorem Progress.of_disabled {bytes : List UInt8} {t : WriteTracker} (h : Progress bytes t)
    (hdisabled : t.disabled = true) : Refused bytes := by
  cases h with
  | refused h => exact h
  | header _ | body _ _ _ _ | complete _ => cases hdisabled

/-- A whole request is complete. -/
theorem Progress.of_request {bytes : List UInt8} {t : WriteTracker} {event : Event}
    (h : Progress bytes t) (hrequest : IsRequest bytes event) : t = { complete := some event } := by
  have hself : IsRequest (bytes ++ []) event := by rwa [List.append_nil]
  cases h with
  | complete h =>
      rw [(h.eq_of_prefix hself).2]
  | refused h => exact absurd hself h.not_request
  | header h =>
      obtain ⟨block, body, rfl, hblock, -, -⟩ := hrequest
      exact absurd (List.prefix_append _ _) (h.no_block hblock)
  | body hbytes hblock hparse hlt =>
      obtain ⟨other, rest, hrest, hother, hotherParse, hlength⟩ := hrequest
      have hlead := List.prefix_append other rest
      rw [← hrest, hbytes] at hlead
      obtain rfl := hblock.unique hother (List.prefix_append _ _) hlead
      rw [hbytes] at hrest
      obtain rfl := List.append_cancel_left hrest
      rw [hparse] at hotherParse
      cases hotherParse
      exact absurd hlength hlt.ne

/-- A chunk keeps the tracker in line with its history. -/
theorem Follows.accepted {history : List Entry} {t next : WriteTracker} {chunk : List UInt8}
    {report : Option Event} (h : Follows history t) (haborted : Call.abort ∉ history.map Prod.fst)
    (hprogress : Progress (sinceReport history ++ chunk) next) (hreport : Reporting t next report) :
    Follows (history ++ [(.accepted chunk, report)]) next := by
  have hdisabled : t.disabled = true → next = { disabled := true } := fun hdisabled =>
    hprogress.of_refused (((h.progress haborted).of_disabled hdisabled).append chunk)
  have hliving : next.disabled = false → t.disabled = false := by
    intro hnext
    by_contra hstopped
    rw [hdisabled (by simpa using hstopped)] at hnext
    cases hnext
  have hnot : Call.abort ∉ (history ++ [(Call.accepted chunk, report)]).map Prod.fst := by
    simpa using haborted
  refine ⟨fun _ => ?_, fun habort => absurd habort hnot, fun hnext => ?_, ?_, ?_⟩
  · rwa [sinceReport_accepted]
  · have hlive := h.live (hliving hnext)
    rw [acceptedReports_accepted, flushedReports_accepted, hlive]
    rcases hreport with ⟨hnone, rfl⟩ | ⟨rfl, rfl | rfl⟩
    · rw [hnone]
      simp
    · simp
    · cases hnext
  · rw [acceptedReports_accepted, flushedReports_accepted]
    exact h.reports.trans (List.prefix_append _ _)
  · rw [acceptedReports_accepted, flushedReports_accepted, List.length_append]
    rcases hreport with ⟨hnone, rfl⟩ | ⟨rfl, -⟩
    · cases hstopped : t.disabled with
      | true =>
          rw [hdisabled hstopped]
          exact h.pending
      | false =>
          have hlive := h.live hstopped
          rw [hnone, Option.toList_none, List.append_nil] at hlive
          rw [hlive]
          cases next.complete <;> simp
    · exact h.pending

/-- A flush keeps the tracker in line with its history. -/
theorem Follows.flushed {history : List Entry} {t : WriteTracker} (h : Follows history t)
    (haborted : Call.abort ∉ history.map Prod.fst) :
    Follows (history ++ [(.flushed, t.complete)]) { t with complete := none } := by
  have hnot : ∀ report, Call.abort ∉ (history ++ [(Call.flushed, report)]).map Prod.fst := by
    simpa using haborted
  cases hcomplete : t.complete with
  | none =>
      have hsame : { t with complete := none } = t := by rw [← hcomplete]
      rw [hsame]
      refine ⟨fun _ => ?_, fun habort => absurd habort (hnot _), fun hlive => ?_, ?_, ?_⟩
      · rw [sinceReport_unreported]
        exact h.progress haborted
      · simpa using h.live hlive
      · simpa using h.reports
      · simpa using h.pending
  | some event =>
      obtain ⟨-, rfl⟩ := (h.progress haborted).of_complete hcomplete
      have hlive := h.live rfl
      refine ⟨fun _ => ?_, fun habort => absurd habort (hnot _), fun _ => ?_, ?_, ?_⟩
      · rw [sinceReport_reported]
        exact .header unfinished_nil
      · simpa using hlive
      · rw [acceptedReports_flushed, flushedReports_flushed, hlive]
      · rw [acceptedReports_flushed, flushedReports_flushed, hlive]
        exact Nat.le_succ _

/-- A call overflows nothing, keeps the tracker in line with its history, and reports a request
only where it is whole, and nothing once the tracker was stopped. -/
theorem Follows.step {history : List Entry} {t : WriteTracker} (h : Follows history t)
    (call : Call) :
    ∃ next report, t.step call = some (next, report) ∧ Follows (history ++ [(call, report)]) next ∧
      (Stopped history → report = none) ∧ ∀ event, report = some event → Whole history call event := by
  by_cases haborted : Call.abort ∈ history.map Prod.fst
  · obtain rfl := h.aborted haborted
    refine ⟨{ disabled := true }, none, ?_, h.quiet haborted, fun _ => rfl,
      (fun event hevent => by cases hevent)⟩
    cases call <;> rfl
  · have hheld := h.progress haborted
    cases call with
    | abort =>
        refine ⟨_, _, rfl, ⟨fun hnot => absurd (by simp) hnot, fun _ => rfl,
          (fun hlive => by cases hlive), by simpa using h.reports, by simpa using h.pending⟩,
          fun _ => rfl, (fun event hevent => by cases hevent)⟩
    | flushed =>
        refine ⟨_, _, rfl, h.flushed haborted, fun hstopped => ?_,
          fun event hevent => (hheld.of_complete hevent).1⟩
        rw [h.of_stopped hstopped]
    | accepted chunk =>
        obtain ⟨next, report, hnext, hprogress, hreport⟩ := hheld.accepted chunk
        refine ⟨next, report, hnext, h.accepted haborted hprogress hreport, fun hstopped => ?_, ?_⟩
        · have hquiet := h.of_stopped hstopped
          rcases hreport with ⟨-, rfl⟩ | ⟨rfl, -⟩
          · rw [hprogress.of_refused ((hstopped.resolve_left haborted).append chunk)]
          · rfl
        · rintro event rfl
          rcases hreport with ⟨-, hevent⟩ | ⟨hnone, -⟩
          · exact (hprogress.of_complete hevent.symm).1
          · cases hnone

/-! ## Whole runs -/

/-- What an entry may report after a history: whole requests, and nothing once stopped. -/
structure Sound (history : List Entry) (entry : Entry) : Prop where
  silent : Stopped history → entry.2 = none
  whole : ∀ event, entry.2 = some event → Whole history entry.1 event

/-- What holds between every entry and the history before it. -/
def AllSound (history : List Entry) : Prop :=
  ∀ front entry rest, history = front ++ entry :: rest → Sound front entry

theorem AllSound.snoc {history : List Entry} {entry : Entry} (h : AllSound history)
    (hentry : Sound history entry) : AllSound (history ++ [entry]) := by
  intro front other rest heq
  rcases List.eq_nil_or_concat rest with rfl | ⟨rest, last, rfl⟩
  · obtain ⟨rfl, hlast⟩ := List.append_inj' heq rfl
    cases hlast
    exact hentry
  · rw [List.concat_eq_append, ← List.cons_append, ← List.append_assoc] at heq
    exact h front other rest (List.append_inj' heq rfl).1

/-- The reports of every shorter history are in step. -/
def InStep (history : List Entry) : Prop :=
  ∀ front, front <+: history → flushedReports front <+: acceptedReports front ∧
    (acceptedReports front).length ≤ (flushedReports front).length + 1

theorem prefix_snoc {α : Type} {front history : List α} {last : α}
    (h : front <+: history ++ [last]) : front = history ++ [last] ∨ front <+: history := by
  obtain ⟨rest, heq⟩ := h
  rcases List.eq_nil_or_concat rest with rfl | ⟨rest, other, rfl⟩
  · rw [List.append_nil] at heq
    exact .inl heq
  · rw [List.concat_eq_append, ← List.append_assoc] at heq
    exact .inr ⟨rest, (List.append_inj' heq rfl).1⟩

/-- A run of a tracker, with what every entry and every shorter history has to say. -/
structure Ran (history : List Entry) (t : WriteTracker) : Prop where
  follows : Follows history t
  sound : AllSound history
  inStep : InStep history

theorem ran_new : Ran [] WriteTracker.new := by
  refine ⟨follows_new, fun front entry rest heq => ?_, fun front hfront => ?_⟩
  · cases front <;> cases heq
  · rw [List.prefix_nil.mp hfront]
    exact ⟨follows_new.reports, follows_new.pending⟩

theorem Ran.step {history : List Entry} {t : WriteTracker} (h : Ran history t) (call : Call) :
    ∃ next report, WriteTracker.logged (t, history) call =
      some (next, history ++ [(call, report)]) ∧ Ran (history ++ [(call, report)]) next := by
  obtain ⟨next, report, hstep, hfollows, hsilent, hwhole⟩ := h.follows.step call
  refine ⟨next, report, ?_, hfollows, h.sound.snoc ⟨hsilent, hwhole⟩, fun front hfront => ?_⟩
  · rw [WriteTracker.logged, hstep]
    rfl
  · rcases prefix_snoc hfront with rfl | hfront
    · exact ⟨hfollows.reports, hfollows.pending⟩
    · exact h.inStep front hfront

theorem Ran.steps {history : List Entry} {t : WriteTracker} (h : Ran history t)
    (calls : List Call) :
    ∃ next more, calls.foldlM WriteTracker.logged (t, history) = some (next, history ++ more) ∧
      more.map Prod.fst = calls ∧ Ran (history ++ more) next := by
  induction calls generalizing history t with
  | nil => exact ⟨t, [], by simp, rfl, by simpa using h⟩
  | cons call calls ih =>
      obtain ⟨next, report, hstep, hran⟩ := h.step call
      obtain ⟨last, more, hsteps, hcalls, hlast⟩ := ih hran
      refine ⟨last, (call, report) :: more, ?_, by rw [List.map_cons, hcalls], ?_⟩
      · rw [List.foldlM_cons, hstep]
        simpa using hsteps
      · simpa using hlast

/-! ### Requests taken one after another -/

theorem sinceReport_chunks (history : List Entry) {more : List Entry} {chunks : List (List UInt8)}
    (h : more.map Prod.fst = chunks.map Call.accepted) :
    sinceReport (history ++ more) = sinceReport history ++ chunks.flatten ∧
      flushedReports (history ++ more) = flushedReports history := by
  induction chunks generalizing history more with
  | nil =>
      obtain rfl := List.map_eq_nil_iff.mp h
      simp
  | cons chunk chunks ih =>
      obtain ⟨entry, more, rfl, hentry, hmore⟩ := List.map_eq_cons_iff.mp h
      obtain ⟨call, report⟩ := entry
      obtain rfl : call = Call.accepted chunk := hentry
      obtain ⟨hsince, hflushed⟩ := ih (history ++ [(.accepted chunk, report)]) hmore
      rw [List.append_assoc, List.singleton_append] at hsince hflushed
      rw [hsince, hflushed]
      simp

/-- The calls that take requests in chunks and flush after each of them. -/
def callsOf (requests : List (List (List UInt8) × Event)) : List Call :=
  requests.flatMap fun request => request.1.map Call.accepted ++ [.flushed]

/-- A request that is taken in chunks and then flushed is reported by the flush. -/
theorem Ran.request {history : List Entry} {t : WriteTracker} (h : Ran history t)
    (haborted : Call.abort ∉ history.map Prod.fst) (hsince : sinceReport history = [])
    {chunks : List (List UInt8)} {event : Event} (hrequest : IsRequest chunks.flatten event) :
    ∃ more, (chunks.map Call.accepted ++ [Call.flushed]).foldlM WriteTracker.logged (t, history) =
        some (WriteTracker.new, history ++ more) ∧ Ran (history ++ more) WriteTracker.new ∧
      Call.abort ∉ (history ++ more).map Prod.fst ∧ sinceReport (history ++ more) = [] ∧
      flushedReports (history ++ more) = flushedReports history ++ [event] := by
  obtain ⟨taken, more, hsteps, hcalls, hran⟩ := h.steps (chunks.map Call.accepted)
  obtain ⟨hbytes, hflushed⟩ := sinceReport_chunks history hcalls
  rw [hsince, List.nil_append] at hbytes
  have hnot : Call.abort ∉ (history ++ more).map Prod.fst := by
    rw [List.map_append, hcalls]
    simpa using haborted
  have hheld := hran.follows.progress hnot
  rw [hbytes] at hheld
  obtain rfl := hheld.of_request hrequest
  have hlogged : WriteTracker.logged ({ complete := some event }, history ++ more) .flushed =
      some (WriteTracker.new, history ++ more ++ [(.flushed, some event)]) := rfl
  obtain ⟨next, report, hflush, hnext⟩ := hran.step .flushed
  rw [hlogged] at hflush
  obtain ⟨rfl, hentry⟩ := Prod.mk.inj (Option.some.inj hflush)
  rw [← hentry] at hnext
  refine ⟨more ++ [(.flushed, some event)], ?_, ?_, ?_, ?_, ?_⟩
  · rw [List.foldlM_append, hsteps, Option.bind_eq_bind, Option.bind_some, List.foldlM_cons, hlogged,
      List.append_assoc]
    rfl
  · rw [← List.append_assoc]
    exact hnext
  · rw [← List.append_assoc]
    simpa using hnot
  · rw [← List.append_assoc, sinceReport_reported]
  · rw [← List.append_assoc, flushedReports_flushed, hflushed]
    rfl

theorem Ran.requests {history : List Entry} (h : Ran history WriteTracker.new)
    (haborted : Call.abort ∉ history.map Prod.fst) (hsince : sinceReport history = [])
    (requests : List (List (List UInt8) × Event))
    (hrequests : ∀ request ∈ requests, IsRequest request.1.flatten request.2) :
    ∃ more, (callsOf requests).foldlM WriteTracker.logged (WriteTracker.new, history) =
        some (WriteTracker.new, history ++ more) ∧ Ran (history ++ more) WriteTracker.new ∧
      flushedReports (history ++ more) = flushedReports history ++ requests.map Prod.snd := by
  induction requests generalizing history with
  | nil => exact ⟨[], by simp [callsOf], by simpa using h, by simp⟩
  | cons request requests ih =>
      obtain ⟨more, hcalls, hran, hnot, hnext, hflushed⟩ :=
        h.request haborted hsince (hrequests request List.mem_cons_self)
      obtain ⟨rest, hrestCalls, hrest, hrestFlushed⟩ := ih hran hnot hnext
        fun other hother => hrequests other (List.mem_cons_of_mem _ hother)
      refine ⟨more ++ rest, ?_, ?_, ?_⟩
      · rw [callsOf, List.flatMap_cons, List.foldlM_append, hcalls, Option.bind_eq_bind,
          Option.bind_some, ← List.append_assoc]
        exact hrestCalls
      · rw [← List.append_assoc]
        exact hrest
      · rw [← List.append_assoc, hrestFlushed, hflushed]
        simp

/-- What the calls of a run report: no byte count overflows, a flush reports a request only when
the bytes since the last flushed report are that request, a chunk only when they become one,
flushes follow chunks one by one, and a stopped tracker is silent. Requests taken in chunks and
flushed one after another are all reported, in order. -/
theorem tracker_reports_requests :
    (∀ calls, ∃ t history, WriteTracker.run calls = some (t, history) ∧
      history.map Prod.fst = calls ∧ InStep history ∧
      (∀ front report rest, history = front ++ (.flushed, report) :: rest →
        (Stopped front → report = none) ∧
        ∀ event, report = some event → IsRequest (sinceReport front) event) ∧
      (∀ front chunk report rest, history = front ++ (.accepted chunk, report) :: rest →
        (Stopped front → report = none) ∧
        ∀ event, report = some event → IsRequest (sinceReport front ++ chunk) event)) ∧
    ∀ requests : List (List (List UInt8) × Event),
      (∀ request ∈ requests, IsRequest request.1.flatten request.2) →
      ∃ t history, WriteTracker.run (callsOf requests) = some (t, history) ∧
        acceptedReports history = requests.map Prod.snd ∧
        flushedReports history = requests.map Prod.snd := by
  constructor
  · intro calls
    obtain ⟨t, history, hrun, hcalls, hran⟩ := ran_new.steps calls
    rw [List.nil_append] at hrun hran
    refine ⟨t, history, hrun, hcalls, hran.inStep, fun front report rest heq => ?_,
      fun front chunk report rest heq => ?_⟩
    · exact ⟨(hran.sound front _ rest heq).silent, (hran.sound front _ rest heq).whole⟩
    · exact ⟨(hran.sound front _ rest heq).silent, (hran.sound front _ rest heq).whole⟩
  · intro requests hrequests
    obtain ⟨history, hrun, hran, hflushed⟩ := ran_new.requests (by simp) rfl requests hrequests
    rw [List.nil_append] at hrun hran hflushed
    have hlive := hran.follows.live rfl
    refine ⟨_, history, hrun, ?_, hflushed⟩
    rw [hlive, hflushed]
    exact List.append_nil _

theorem HeaderBlock.of_inits {block : List UInt8} (hends : headerEnd.isSuffixOf block = true)
    (hfirst : (block.inits.all fun front => !headerEnd.isSuffixOf front || front == block) = true)
    (hbounded : block.length ≤ maxHeaderBytes) : HeaderBlock block := by
  refine ⟨List.isSuffixOf_iff_suffix.mp hends, fun front hfront hfrontEnds => ?_, hbounded⟩
  have hfront := List.all_eq_true.mp hfirst front ((List.mem_inits _ _).mpr hfront)
  rw [List.isSuffixOf_iff_suffix.mpr hfrontEnds] at hfront
  simpa using hfront

/-- A header block that declares one byte. -/
def shortHeader : List UInt8 :=
  Library.Text.bytes "POST / HTTP/1.1\r\nx-request-id: a\r\ncontent-length: 1\r\n\r\n"

/-- A request in two chunks and one in a single chunk, both flushed. -/
theorem two_requests_reported : ∃ t history,
    WriteTracker.run (callsOf [([shortHeader, [98]], ("a", 1)), ([shortHeader ++ [99]], ("a", 1))]) =
      some (t, history) ∧
      acceptedReports history = [("a", 1), ("a", 1)] ∧
      flushedReports history = [("a", 1), ("a", 1)] := by
  have hblock : HeaderBlock shortHeader :=
    .of_inits (by decide +kernel) (by decide +kernel) (by decide +kernel)
  have hparse : parseHeader shortHeader = some ("a", 1) := by decide +kernel
  refine tracker_reports_requests.2 _ fun request hrequest => ?_
  simp only [List.mem_cons, List.not_mem_nil, or_false] at hrequest
  rcases hrequest with rfl | rfl
  · exact ⟨shortHeader, [98], by simp, hblock, hparse, rfl⟩
  · exact ⟨shortHeader, [99], by simp, hblock, hparse, rfl⟩

end TokenStation.LocalWrite
