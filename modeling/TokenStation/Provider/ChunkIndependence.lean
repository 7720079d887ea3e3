import TokenStation.Provider.Judging
import TokenStation.Provider.Refusals

/-!
# Provider streams and the chunking of their bodies

Two chunkings of one body give the same outcome unless the splitter reads an
over-long line in one of them and refuses it in the other. The condition is
stated over the lines of the body and what the dialect refuses of the frames
they complete.
-/

namespace TokenStation.Provider

open Library Library.ChunkedReading Library.Json Library.Text Responses Sse

variable {σ : Type}

namespace Dialect

variable (d : Dialect σ)

/-- The first thing the lines are refused for is their size. -/
def TooLargeAhead (p : σ) (s : SseSplitterV1) : List Line → Prop
  | [] => False
  | l :: ls =>
      (maxSseSplitBytes < l.text.length ∧ l.ending = []) ∨
      match s.apply (Field.ofBytes l.text) with
      | (.error e, _) => e = .tooLarge
      | (.ok none, s) => TooLargeAhead p s ls
      | (.ok (some frame), s) =>
          match d.frame p frame with
          | .error _ => False
          | .ok (_, q) => TooLargeAhead q s ls

/-- The first over-long line, if everything before it is accepted, is refused
for its size or followed by lines that are. -/
def OverlongSettled (p : σ) (s : SseSplitterV1) : List Line → Prop
  | [] => True
  | l :: ls =>
      if maxSseSplitBytes < l.text.length then d.TooLargeAhead p s (l :: ls)
      else
        match s.apply (Field.ofBytes l.text) with
        | (.error _, _) => True
        | (.ok none, s) => OverlongSettled p s ls
        | (.ok (some frame), s) =>
            match d.frame p frame with
            | .error _ => True
            | .ok (_, q) => OverlongSettled q s ls

variable {d}

theorem map_append_eq_error {events : List StreamEvent}
    {x : Except ErrorEnvelope (List StreamEvent)} {e : ErrorEnvelope} :
    x.map (events ++ ·) = .error e ↔ x = .error e := by
  cases x <;> simp [Except.map]

theorem map_append_inj {events : List StreamEvent}
    {x y : Except ErrorEnvelope (List StreamEvent)} :
    x.map (events ++ ·) = y.map (events ++ ·) ↔ x = y := by
  cases x <;> cases y <;> simp [Except.map]

theorem judge_none (p : σ) (t : Trace SseFrameV1 SseSplitErrorV1 Unit) :
    d.judge p ((Trace.emit (none : Option SseFrameV1).toList ()).bind fun _ => t) =
      d.judge p t := by
  rcases t with ⟨items, result⟩
  rfl

theorem judge_some (p : σ) (frame : SseFrameV1) (t : Trace SseFrameV1 SseSplitErrorV1 Unit) :
    d.judge p ((Trace.emit (some frame).toList ()).bind fun _ => t) =
      match d.frame p frame with
      | .error e => .error e
      | .ok (events, q) => (d.judge q t).map (events ++ ·) := by
  rw [judge_bind, read, Option.toList_some, Batching.call]
  rcases d.frame p frame with e | ⟨events, q⟩
  · rfl
  · simp [Batching.call, Except.map]

theorem judge_ended (hwords : d.OwnWords) (p : σ) (s : SseSplitterV1) :
    d.judge p s.ended ≠ .error (d.splitError .tooLarge) := by
  have hclose : ∀ q, d.judge q (.emit [] ()) ≠ .error (d.splitError .tooLarge) := by
    intro q
    have hne := hwords.close q
    simp only [judge, read, Trace.emit, Batching.call]
    rcases hlast : d.close q with e | last
    · rw [hlast] at hne
      simpa [Except.map] using hne
    · simp [Except.map]
  have hended : ∀ frame : Option SseFrameV1,
      d.judge p ((Trace.emit frame.toList ()).bind fun _ => .emit [] ()) ≠
        .error (d.splitError .tooLarge) := by
    intro frame
    cases frame with
    | none => rw [judge_none]; exact hclose p
    | some frame =>
        rw [judge_some]
        rcases hframe : d.frame p frame with e | ⟨events, q⟩
        · simpa [hframe] using hwords.frame p frame
        · rw [ne_eq, map_append_eq_error]
          exact hclose q
  obtain ⟨frame, hframe⟩ : ∃ frame : Option SseFrameV1, s.ended = .emit frame.toList () := by
    simp only [SseSplitterV1.ended, SseSplitterV1.apply]
    by_cases hdata : s.hasData = true
    · simp only [hdata, if_true]
      exact ⟨_, rfl⟩
    · simp only [hdata]
      exact ⟨_, rfl⟩
  have hne := hended frame
  rw [Trace.emit_bind, show (Trace.emit [] () : Trace SseFrameV1 SseSplitErrorV1 Unit).items = []
    from rfl, List.append_nil] at hne
  rw [hframe]
  exact hne

theorem judge_lenient_iff (hwords : d.OwnWords) (p : σ) (s : SseSplitterV1) (ls : List Line) :
    d.judge p (SseSplitterV1.splitAll false s ls) = .error (d.splitError .tooLarge) ↔
      d.TooLargeAhead p s ls := by
  induction ls generalizing p s with
  | nil => simpa [SseSplitterV1.splitAll, TooLargeAhead] using judge_ended hwords p s
  | cons l ls ih =>
      rw [SseSplitterV1.splitAll, TooLargeAhead]
      simp only [Bool.false_eq_true, false_or]
      by_cases hlong : maxSseSplitBytes < l.text.length ∧ l.ending = []
      · simp [hlong, judge_fail]
      · rw [if_neg hlong]
        simp only [hlong, false_or]
        rcases happly : s.apply (Field.ofBytes l.text) with ⟨e | frame, s'⟩
        · cases e with
          | tooLarge => simp [judge_fail]
          | notUtf8 => simpa [judge_fail] using hwords.notUtf8
        · cases frame with
          | none => simp only [judge_none, ih]
          | some frame =>
              simp only [judge_some]
              rcases hframe : d.frame p frame with e | ⟨events, q⟩
              · have hne := hwords.frame p frame
                rw [hframe] at hne
                simpa using hne
              · simp only [map_append_eq_error, ih]

theorem judge_strict_eq_iff (hwords : d.OwnWords) (p : σ) (s : SseSplitterV1) (ls : List Line) :
    d.judge p (SseSplitterV1.splitAll true s ls) = d.judge p (SseSplitterV1.splitAll false s ls) ↔
      d.OverlongSettled p s ls := by
  induction ls generalizing p s with
  | nil => simp [SseSplitterV1.splitAll, OverlongSettled]
  | cons l ls ih =>
      rw [OverlongSettled]
      by_cases hlong : maxSseSplitBytes < l.text.length
      · rw [if_pos hlong, ← judge_lenient_iff hwords, SseSplitterV1.splitAll,
          if_pos ⟨hlong, .inl rfl⟩, judge_fail]
        exact eq_comm
      · rw [if_neg hlong, SseSplitterV1.splitAll, SseSplitterV1.splitAll,
          if_neg (fun h => hlong h.1), if_neg (fun h => hlong h.1)]
        rcases happly : s.apply (Field.ofBytes l.text) with ⟨e | frame, s'⟩
        · simp
        · cases frame with
          | none => simp only [judge_none, ih]
          | some frame =>
              simp only [judge_some]
              rcases hframe : d.frame p frame with e | ⟨events, q⟩
              · simp
              · simp only [map_append_inj, ih]

theorem judge_refused {p : σ} {t : Trace SseFrameV1 SseSplitErrorV1 Unit} {e : SseSplitErrorV1}
    (h : t.result = .error e) :
    d.judge p t =
      match d.read p t.items with
      | .error refusal => .error refusal
      | .ok _ => .error (d.splitError e) := by
  rw [judge, h]
  rcases d.read p t.items with refusal | ⟨events, q⟩ <;> rfl

/-- A run between two readings with one verdict has that verdict. -/
theorem judge_between {p : σ} {run strict lenient : Trace SseFrameV1 SseSplitErrorV1 Unit}
    (h : SseSplitterV1.Between run strict lenient) (hsame : d.judge p strict = d.judge p lenient) :
    d.judge p run = d.judge p lenient := by
  obtain ⟨rest, hrest⟩ := h.strict_items
  rcases hread : d.read p run.items with e | ⟨events, q⟩
  · -- The lenient reading goes on after the refused frame.
    obtain ⟨more, hmore⟩ := h.lenient_items
    have hlenient : d.read p lenient.items = .error e := by
      rw [read] at hread ⊢
      rw [← hmore, Batching.call_append, hread]
    rw [judge_refused h.refused, hread, judge, hlenient]
  · have hbefore : ∃ out, d.read p strict.items = .ok out := by
      rw [read, ← hrest, Batching.call_append] at hread
      rcases hnow : Batching.call d.frame p strict.items with e | out
      · simp [hnow] at hread
      · exact ⟨out, hnow⟩
    obtain ⟨out, hout⟩ := hbefore
    rw [judge_refused h.refused, hread, ← hsame, judge_refused h.strict_refused, hout]

end Dialect

/-- Every way of cutting the body into non-empty chunks has the same outcome. -/
def ChunkIndependent (events : List (List UInt8) → Trace StreamEvent ErrorEnvelope Unit)
    (body : List UInt8) : Prop :=
  ∀ chunks chunks' : List (List UInt8), (∀ chunk ∈ chunks, chunk ≠ []) →
    (∀ chunk ∈ chunks', chunk ≠ []) → chunks.flatten = body → chunks'.flatten = body →
    outcome (events chunks) = outcome (events chunks')

theorem chunkIndependent_iff {d : Dialect σ} (hwords : d.OwnWords) (body : List UInt8) :
    ChunkIndependent d.events body ↔
      d.OverlongSettled d.start .new (SseSplitterV1.unmarkedLines body) := by
  rw [← Dialect.judge_strict_eq_iff hwords]
  constructor
  · intro h
    by_cases hbody : body = []
    · subst hbody
      rfl
    · have hslow : ∀ chunk ∈ SseSplitterV1.slowly body, chunk ≠ [] := by
        intro chunk hchunk
        rcases List.mem_cons.mp hchunk with rfl | hchunk
        · simpa [List.take_eq_nil_iff] using hbody
        · obtain ⟨b, -, rfl⟩ := List.mem_map.mp hchunk
          exact List.cons_ne_nil _ _
      have hwhole : ∀ chunk ∈ [body], chunk ≠ [] := by simpa using hbody
      have hsame := h _ _ hslow hwhole (SseSplitterV1.flatten_slowly body) (by simp)
      rwa [d.outcome_events _ hslow, d.outcome_events _ hwhole, SseSplitterV1.run_slowly,
        SseSplitterV1.run_whole] at hsame
  · intro hsame
    have hone : ∀ chunks : List (List UInt8), (∀ chunk ∈ chunks, chunk ≠ []) →
        chunks.flatten = body → outcome (d.events chunks) =
          d.judge d.start (SseSplitterV1.splitAll false .new (SseSplitterV1.unmarkedLines body)) := by
      rintro chunks hchunks rfl
      rw [d.outcome_events _ hchunks]
      rcases SseSplitterV1.run_cases chunks with hrun | hbetween
      · rw [hrun]
      · exact Dialect.judge_between hbetween hsame
    intro chunks chunks' hchunks hchunks' hflat hflat'
    rw [hone chunks hchunks hflat, hone chunks' hchunks' hflat']

/-! ## The Responses parser -/

namespace ResponsesApi

variable (packages : Packages)

/-- The events of the calls for these chunks and the end of the body. -/
def events (chunks : List (List UInt8)) : Trace StreamEvent ErrorEnvelope Unit :=
  Batching.calls (parseChunk packages) .start (chunks ++ [[]])

theorem events_cons (chunk : List UInt8) (chunks : List (List UInt8)) (hchunk : chunk ≠ []) :
    events packages (chunk :: chunks) =
      (responsesStreamDialect packages).events (chunk :: chunks) := by
  rw [events, List.cons_append, calls_start, List.dropWhile_cons_of_neg (by simpa using hchunk)]
  rfl

/-- The body that is not empty is read by the dialect. -/
theorem chunkIndependent_events (body : List UInt8) :
    ChunkIndependent (events packages) body ↔
      ChunkIndependent (responsesStreamDialect packages).events body := by
  have hsame : ∀ chunks : List (List UInt8), chunks ≠ [] → (∀ chunk ∈ chunks, chunk ≠ []) →
      events packages chunks = (responsesStreamDialect packages).events chunks := by
    intro chunks hne hchunks
    cases chunks with
    | nil => exact absurd rfl hne
    | cons chunk chunks => exact events_cons packages chunk chunks (hchunks _ List.mem_cons_self)
  have hempty : ∀ chunks : List (List UInt8), (∀ chunk ∈ chunks, chunk ≠ []) →
      chunks.flatten = [] → chunks = [] := by
    intro chunks hchunks hflat
    cases chunks with
    | nil => rfl
    | cons chunk chunks =>
        exact absurd (List.append_eq_nil_iff.mp hflat).1 (hchunks _ List.mem_cons_self)
  have hboth : ∀ chunks chunks' : List (List UInt8), (∀ chunk ∈ chunks, chunk ≠ []) →
      (∀ chunk ∈ chunks', chunk ≠ []) → chunks.flatten = body → chunks'.flatten = body →
      (outcome (events packages chunks) = outcome (events packages chunks') ↔
        outcome ((responsesStreamDialect packages).events chunks) =
          outcome ((responsesStreamDialect packages).events chunks')) := by
    intro chunks chunks' hchunks hchunks' hflat hflat'
    by_cases hbody : body = []
    · subst hbody
      rw [hempty chunks hchunks hflat, hempty chunks' hchunks' hflat']
      simp
    · have hne : chunks ≠ [] := fun h => hbody (by rw [← hflat, h]; rfl)
      have hne' : chunks' ≠ [] := fun h => hbody (by rw [← hflat', h]; rfl)
      rw [hsame chunks hne hchunks, hsame chunks' hne' hchunks']
  constructor
  · intro h chunks chunks' hchunks hchunks' hflat hflat'
    exact (hboth chunks chunks' hchunks hchunks' hflat hflat').mp
      (h chunks chunks' hchunks hchunks' hflat hflat')
  · intro h chunks chunks' hchunks hchunks' hflat hflat'
    exact (hboth chunks chunks' hchunks hchunks' hflat hflat').mpr
      (h chunks chunks' hchunks hchunks' hflat hflat')

end ResponsesApi

/-- A stream parser is chunk independent on a body exactly when the first
over-long line it comes to is refused for its size however it arrives. -/
theorem parsers_chunk_independent_iff (packages : Packages) (body : List UInt8) :
    (ChunkIndependent (anthropicSseParser packages).events body ↔
        (anthropicSseParser packages).OverlongSettled .start .new
          (SseSplitterV1.unmarkedLines body)) ∧
      (ChunkIndependent (openaiSseParser packages).events body ↔
        (openaiSseParser packages).OverlongSettled .start .new
          (SseSplitterV1.unmarkedLines body)) ∧
      (ChunkIndependent (ResponsesApi.events packages) body ↔
        (responsesStreamDialect packages).OverlongSettled .start .new
          (SseSplitterV1.unmarkedLines body)) ∧
      (ChunkIndependent (geminiSseParser packages).events body ↔
        (geminiSseParser packages).OverlongSettled .start .new
          (SseSplitterV1.unmarkedLines body)) := by
  refine ⟨chunkIndependent_iff (ownWords_anthropic packages) body,
    chunkIndependent_iff (ownWords_openai packages) body, ?_,
    chunkIndependent_iff (ownWords_gemini packages) body⟩
  rw [ResponsesApi.chunkIndependent_events]
  exact chunkIndependent_iff (ownWords_responses packages) body

/-- One ignored line over the bound, read when its terminator arrives with it
and refused when the terminator comes in a chunk of its own. -/
theorem overlong_line_parsers_chunked :
    ¬ChunkIndependent (anthropicSseParser .textual).events
        (letters (maxSseSplitBytes + 1) ++ [lf]) ∧
      ¬ChunkIndependent (openaiSseParser .textual).events
        (letters (maxSseSplitBytes + 1) ++ [lf]) ∧
      ¬ChunkIndependent (ResponsesApi.events .textual)
        (letters (maxSseSplitBytes + 1) ++ [lf]) ∧
      ¬ChunkIndependent (geminiSseParser .textual).events
        (letters (maxSseSplitBytes + 1) ++ [lf]) := by
  have hfirst : letters (maxSseSplitBytes + 1) ≠ [] := List.cons_ne_nil _ _
  have hcut : ∀ chunk ∈ [letters (maxSseSplitBytes + 1), [lf]], chunk ≠ [] := by
    simp [hfirst]
  have hwhole : ∀ chunk ∈ [letters (maxSseSplitBytes + 1) ++ [lf]], chunk ≠ [] := by
    simp
  have hdialect : ∀ {σ : Type} (d : Dialect σ),
      (d.close d.start).map Prod.fst ≠ .error (d.splitError .tooLarge) →
      ¬ChunkIndependent d.events (letters (maxSseSplitBytes + 1) ++ [lf]) := by
    intro σ d hclose h
    have hsame := h _ _ hwhole hcut (by simp) (by simp)
    rw [d.outcome_events _ hwhole, d.outcome_events _ hcut, run_letters_whole,
      run_letters_cut _ (Nat.le_refl _), Dialect.judge_fail] at hsame
    simp only [Dialect.judge, Dialect.read, Trace.emit, Batching.call] at hsame
    rcases hlast : d.close d.start with e | last
    · rw [hlast] at hsame hclose
      exact hclose hsame
    · rw [hlast] at hsame
      simp [Except.map] at hsame
  refine ⟨hdialect _ (by simp [anthropicSseParser, Except.map]),
    hdialect _ (by simp [openaiSseParser, Except.map]), ?_,
    hdialect _ (by simp [geminiSseParser, Except.map])⟩
  rw [ResponsesApi.chunkIndependent_events]
  refine hdialect _ fun h => ?_
  exact absurd (Except.error.inj h) (by decide)

end TokenStation.Provider
