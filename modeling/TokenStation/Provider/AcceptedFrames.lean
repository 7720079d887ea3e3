import TokenStation.Provider.Judging

/-!
# The frames of the accepted calls

A refused call ends the stream and hands out nothing, not even the events of
the frames it completed. The events of a stream up to its first refusal are
therefore those of the frames of its accepted calls, with what the end of the
body adds when that call is accepted too.
-/

namespace TokenStation.Provider

open Library Library.ChunkedReading Responses Sse

variable {σ : Type}

/-- The frames a chunk completes; the empty chunk is the end of the body. -/
def handed (splitter : SseSplitterV1) (chunk : List UInt8) : List SseFrameV1 :=
  if chunk = [] then
    match splitter.finish with
    | (.error _, _) => []
    | (.ok frame, _) => frame.toList
  else (splitter.push chunk).1.frames

namespace Dialect

variable (d : Dialect σ)

/-- The frames of the calls before the first refused one. -/
def accepted (p : SseSplitterV1 × σ) : List (List UInt8) → List SseFrameV1
  | [] => []
  | chunk :: chunks =>
      match d.parseChunk p chunk with
      | .error _ => []
      | .ok (_, q) => handed p.1 chunk ++ accepted q chunks

/-- What the end of the body adds, when it is reached. -/
def closing (s : σ) (ended : Bool) : List StreamEvent :=
  if ended then
    match d.close s with
    | .error _ => []
    | .ok (last, _) => last
  else []

variable {d}

theorem parseChunk_ok {p q : SseSplitterV1 × σ} {chunk : List UInt8} {events : List StreamEvent}
    (hchunk : chunk ≠ []) (h : d.parseChunk p chunk = .ok (events, q)) :
    d.read p.2 (handed p.1 chunk) = .ok (events, q.2) := by
  rw [parseChunk, if_neg hchunk] at h
  rw [handed, if_neg hchunk]
  rcases hpush : p.1.push chunk with ⟨⟨frames, refusal⟩, rest⟩
  rw [hpush] at h
  simp only at h ⊢
  rcases hread : d.read p.2 frames with e | ⟨now, t⟩
  · simp [hread, bind, Except.bind] at h
  · cases refusal with
    | some e => simp [hread, bind, Except.bind] at h
    | none =>
        simp only [hread, bind, Except.bind, pure, Except.pure, Except.ok.injEq,
          Prod.mk.injEq] at h
        obtain ⟨rfl, rfl⟩ := h
        rfl

theorem parseChunk_end {p q : SseSplitterV1 × σ} {events : List StreamEvent}
    (h : d.parseChunk p [] = .ok (events, q)) :
    ∃ now last t, d.read p.2 (handed p.1 []) = .ok (now, t) ∧ d.close t = .ok (last, q.2) ∧
      events = now ++ last := by
  rw [parseChunk, if_pos rfl] at h
  rw [handed, if_pos rfl]
  rcases hfinish : p.1.finish with ⟨e | frame, rest⟩
  · simp [hfinish] at h
  · simp only [hfinish] at h
    rcases hread : d.read p.2 frame.toList with e | ⟨now, t⟩
    · simp [hread, bind, Except.bind] at h
    · rcases hclose : d.close t with e | ⟨last, u⟩
      · simp [hread, hclose, bind, Except.bind] at h
      · simp only [hread, hclose, bind, Except.bind, pure, Except.pure, Except.ok.injEq,
          Prod.mk.injEq] at h
        obtain ⟨rfl, rfl⟩ := h
        exact ⟨now, last, t, rfl, hclose, rfl⟩

theorem read_append {s : σ} {frames more : List SseFrameV1} {t : σ}
    {events : List StreamEvent} (h : d.read s frames = .ok (events, t)) :
    d.read s (frames ++ more) = (d.read t more).map fun rest => (events ++ rest.1, rest.2) := by
  rw [read] at h ⊢
  rw [Batching.call_append, h]
  rfl

/-- A frame read with the frames after it. -/
theorem read_cons_ok {s u : σ} {frame : SseFrameV1} {frames : List SseFrameV1}
    {events : List StreamEvent} (h : d.read s (frame :: frames) = .ok (events, u)) :
    ∃ now rest t, d.frame s frame = .ok (now, t) ∧ d.read t frames = .ok (rest, u) ∧
      events = now ++ rest := by
  rw [read, Batching.call] at h
  rcases hframe : d.frame s frame with e | ⟨now, t⟩
  · simp [hframe] at h
  · simp only [hframe] at h
    rcases hrest : Batching.call d.frame t frames with e | ⟨rest, v⟩
    · simp [hrest, Except.map] at h
    · simp only [hrest, Except.map, Except.ok.injEq, Prod.mk.injEq] at h
      obtain ⟨rfl, rfl⟩ := h
      exact ⟨now, rest, t, rfl, hrest, rfl⟩

/-- The events of a stream are those of its accepted frames and of its end. -/
theorem items_calls (p : SseSplitterV1 × σ) (chunks : List (List UInt8))
    (hchunks : ∀ chunk ∈ chunks, chunk ≠ []) :
    ∃ events t, d.read p.2 (d.accepted p (chunks ++ [[]])) = .ok (events, t) ∧
      (Batching.calls d.parseChunk p (chunks ++ [[]])).items =
        events ++
          d.closing t (Batching.calls d.parseChunk p (chunks ++ [[]])).result.isOk := by
  induction chunks generalizing p with
  | nil =>
      rw [List.nil_append, accepted, Batching.calls]
      rcases hend : d.parseChunk p [] with e | ⟨events, q⟩
      · exact ⟨[], p.2, rfl, rfl⟩
      · obtain ⟨now, last, t, hread, hclose, rfl⟩ := parseChunk_end hend
        refine ⟨now, t, ?_, ?_⟩
        · simpa [accepted] using hread
        · simp [closing, hclose, Batching.calls, Trace.pure, Trace.bind, Trace.emit, Except.isOk,
            Except.toBool]
  | cons chunk chunks ih =>
      have hchunk : chunk ≠ [] := hchunks chunk List.mem_cons_self
      rw [List.cons_append, accepted, Batching.calls]
      rcases hnow : d.parseChunk p chunk with e | ⟨now, q⟩
      · exact ⟨[], p.2, rfl, rfl⟩
      · obtain ⟨rest, t, hread, hitems⟩ :=
          ih q fun chunk h => hchunks chunk (List.mem_cons_of_mem _ h)
        refine ⟨now ++ rest, t, ?_, ?_⟩
        · rw [read_append (parseChunk_ok hchunk hnow), hread]
          rfl
        · dsimp only
          rw [Trace.emit_bind, hitems, List.append_assoc]

theorem items_events (chunks : List (List UInt8)) (hchunks : ∀ chunk ∈ chunks, chunk ≠ []) :
    ∃ events t, d.read d.start (d.accepted (.new, d.start) (chunks ++ [[]])) = .ok (events, t) ∧
      (d.events chunks).items = events ++ d.closing t (d.events chunks).result.isOk :=
  items_calls (.new, d.start) chunks hchunks

/-- The end of the body adds nothing, if it is accepted at all. -/
def SilentClose (d : Dialect σ) : Prop :=
  ∀ ⦃s last t⦄, d.close s = .ok (last, t) → last = [] ∧ t = s

theorem parseChunk_silent (hclose : d.SilentClose) {p q : SseSplitterV1 × σ}
    {chunk : List UInt8} {events : List StreamEvent} (h : d.parseChunk p chunk = .ok (events, q)) :
    d.read p.2 (handed p.1 chunk) = .ok (events, q.2) := by
  by_cases hchunk : chunk = []
  · subst hchunk
    obtain ⟨events, last, t, hread, hlast, rfl⟩ := parseChunk_end h
    obtain ⟨rfl, hsame⟩ := hclose hlast
    rw [hread, List.append_nil, hsame]
  · exact parseChunk_ok hchunk h

/-- Where the end of the body adds nothing, the events are those of the frames. -/
theorem items_silent (hclose : d.SilentClose) (p : SseSplitterV1 × σ)
    (chunks : List (List UInt8)) :
    ∃ t, d.read p.2 (d.accepted p chunks) =
      .ok ((Batching.calls d.parseChunk p chunks).items, t) := by
  induction chunks generalizing p with
  | nil => exact ⟨p.2, rfl⟩
  | cons chunk chunks ih =>
      rw [accepted, Batching.calls]
      rcases hnow : d.parseChunk p chunk with e | ⟨now, q⟩
      · exact ⟨p.2, rfl⟩
      · obtain ⟨t, hrest⟩ := ih q
        refine ⟨t, ?_⟩
        dsimp only
        rw [read_append (parseChunk_silent hclose hnow), hrest, Trace.emit_bind]
        rfl

/-- Where the end of the body is accepted, the dialect closes after the frames. -/
theorem close_of_end (hclose : d.SilentClose) {p : SseSplitterV1 × σ}
    {chunks : List (List UInt8)}
    (h : (Batching.calls d.parseChunk p (chunks ++ [[]])).result = .ok ()) :
    ∃ t, d.read p.2 (d.accepted p (chunks ++ [[]])) =
        .ok ((Batching.calls d.parseChunk p (chunks ++ [[]])).items, t) ∧
      d.close t = .ok ([], t) := by
  induction chunks generalizing p with
  | nil =>
      rw [List.nil_append, Batching.calls] at h
      rw [List.nil_append, Batching.calls, accepted]
      rcases hend : d.parseChunk p [] with e | ⟨events, q⟩
      · simp [hend, Trace.fail] at h
      · obtain ⟨now, last, t, hread, hlast, rfl⟩ := parseChunk_end hend
        obtain ⟨rfl, hsame⟩ := hclose hlast
        refine ⟨t, ?_, hsame ▸ hlast⟩
        simpa [accepted, Batching.calls, Trace.pure, Trace.bind, Trace.emit] using hread
  | cons chunk chunks ih =>
      rw [List.cons_append, Batching.calls] at h
      rw [List.cons_append, Batching.calls, accepted]
      rcases hnow : d.parseChunk p chunk with e | ⟨now, q⟩
      · simp [hnow, Trace.fail] at h
      · simp only [hnow, Trace.emit_bind] at h
        obtain ⟨t, hrest, hlast⟩ := ih h
        refine ⟨t, ?_, hlast⟩
        dsimp only
        rw [read_append (parseChunk_silent hclose hnow), hrest, Trace.emit_bind]
        rfl

end Dialect

end TokenStation.Provider
