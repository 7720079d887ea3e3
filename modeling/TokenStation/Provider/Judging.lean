import TokenStation.Provider.Dialect
import TokenStation.Sse.SplitterRefusals

/-!
# What a dialect makes of the splitter's frames

However the chunks fall, a parser's outcome is what its dialect makes of the
frames the splitter cuts: the first frame the dialect refuses, else the
splitter's refusal, else every event with what the end of the body adds.
-/

namespace TokenStation.Provider

open Library Library.ChunkedReading Responses Sse

variable {σ : Type}

/-! ## Outcomes -/

theorem outcome_fail (e : ErrorEnvelope) : outcome (.fail e) = .error e := rfl

theorem outcome_bind (events : List StreamEvent) (t : Trace StreamEvent ErrorEnvelope Unit) :
    outcome ((Trace.emit events ()).bind fun _ => t) = (outcome t).map (events ++ ·) := by
  rcases t with ⟨items, e | u⟩ <;> rfl

namespace Dialect

variable (d : Dialect σ)

/-- The verdict on a whole body, from the frames and the refusal of its splitter. -/
def judge (p : σ) (frames : Trace SseFrameV1 SseSplitErrorV1 Unit) :
    Except ErrorEnvelope (List StreamEvent) :=
  match d.read p frames.items with
  | .error e => .error e
  | .ok (events, q) =>
      match frames.result with
      | .error e => .error (d.splitError e)
      | .ok () => (d.close q).map fun last => events ++ last.1

theorem judge_fail (p : σ) (e : SseSplitErrorV1) : d.judge p (.fail e) = .error (d.splitError e) :=
  rfl

/-- Frames that come first are judged first. -/
theorem judge_bind (p : σ) (now : List SseFrameV1) (t : Trace SseFrameV1 SseSplitErrorV1 Unit) :
    d.judge p ((Trace.emit now ()).bind fun _ => t) =
      match d.read p now with
      | .error e => .error e
      | .ok (events, q) => (d.judge q t).map (events ++ ·) := by
  unfold judge read
  rw [Trace.emit_bind, Batching.call_append]
  rcases Batching.call d.frame p now with e | ⟨events, q⟩
  · rfl
  · rcases hmore : Batching.call d.frame q t.items with e | ⟨more, r⟩
    · simp [hmore, Except.map]
    · rcases ht : t.result with e | u
      · simp [hmore, Except.map]
      · rcases hclose : d.close r with e | last <;> simp [hmore, hclose, Except.map]

/-- The outcome of a parser that has come to these states. -/
theorem outcome_calls (splitter : SseSplitterV1) (p : σ) (chunks : List (List UInt8))
    (hchunks : ∀ chunk ∈ chunks, chunk ≠ []) :
    outcome (Batching.calls d.parseChunk (splitter, p) (chunks ++ [[]])) =
      d.judge p (splitter.run chunks) := by
  induction chunks generalizing splitter p with
  | nil =>
      rw [List.nil_append, Batching.calls, SseSplitterV1.run, parseChunk, if_pos rfl]
      rcases hfinish : splitter.finish with ⟨e | frame, rest⟩
      · rfl
      · simp only [judge, Trace.emit, bind, Except.bind]
        rcases d.read p frame.toList with e | ⟨events, q⟩
        · rfl
        · rcases hclose : d.close q with e | ⟨last, r⟩
          · simp [hclose, outcome_fail, Except.map]
          · simp [hclose, pure, Except.pure, Batching.calls, Trace.pure, Trace.bind, outcome,
              Except.map]
  | cons chunk chunks ih =>
      have hchunk : chunk ≠ [] := hchunks chunk List.mem_cons_self
      rw [List.cons_append, Batching.calls, SseSplitterV1.run, parseChunk, if_neg hchunk]
      rcases hpush : splitter.push chunk with ⟨⟨frames, refusal⟩, rest⟩
      simp only [bind, Except.bind]
      rcases hread : d.read p frames with e | ⟨events, q⟩
      · cases refusal with
        | none => rw [judge_bind, hread, outcome_fail]
        | some refusal => simp [judge, hread, outcome_fail]
      · cases refusal with
        | none =>
            have ih := ih rest q fun chunk h => hchunks chunk (List.mem_cons_of_mem _ h)
            rw [judge_bind, hread]
            simp only [← ih]
            exact outcome_bind events _
        | some refusal => simp [judge, hread, outcome_fail]

/-- The outcome over every chunk and the end of the body. -/
theorem outcome_events (chunks : List (List UInt8)) (hchunks : ∀ chunk ∈ chunks, chunk ≠ []) :
    outcome (d.events chunks) = d.judge d.start (SseSplitterV1.new.run chunks) :=
  d.outcome_calls .new d.start chunks hchunks

end Dialect

end TokenStation.Provider
