import TokenStation.Sse.Lines

/-!
# The whole-body decoder

The second implementation of the grammar walks the body once, without a
buffer. It interprets the same lines as the incremental decoder and differs
only by its bound on the number of events.
-/

namespace TokenStation.Sse

open Library.Text Library.ChunkedReading

theorem decodeLoop_of_some {b : EventBuilder} {events : List SseEventV1} {rest : List UInt8}
    {n : Nat} (h : terminator rest = some n) :
    decodeLoop b events rest = (b.line (rest.take n)).1.bind fun event =>
      (pushBounded events event).bind fun events =>
        decodeLoop (b.line (rest.take n)).2 events (rest.drop (lineUsed rest n)) := by
  have hused : (n + 1 + if rest[n]? = some cr ∧ rest[n + 1]? = some lf then 1 else 0) =
      lineUsed rest n := by
    unfold lineUsed
    split <;> omega
  rw [← hused, decodeLoop]
  split
  · rename_i n' h'
    obtain rfl : n' = n := Option.some.inj (h'.symm.trans h)
    rfl
  · simp_all

theorem decodeLoop_of_none {b : EventBuilder} {events : List SseEventV1} {rest : List UInt8}
    (h : terminator rest = none) :
    decodeLoop b events rest =
      if rest = [] then pushBounded events b.dispatch.1
      else (b.line rest).1.bind fun event => (pushBounded events event).bind fun events =>
        pushBounded events (b.line rest).2.dispatch.1 := by
  rw [decodeLoop]
  split
  · simp_all
  · rfl

/-- The whole-body loop over lines that have already been split. -/
def decodeLines (b : EventBuilder) (events : List SseEventV1) : List Line →
    Except SseErrorV1 (List SseEventV1)
  | [] => pushBounded events b.dispatch.1
  | l :: ls => (b.line l.text).1.bind fun event => (pushBounded events event).bind fun events =>
      decodeLines (b.line l.text).2 events ls

theorem decodeLoop_eq_decodeLines (b : EventBuilder) (events : List SseEventV1)
    (rest : List UInt8) : decodeLoop b events rest = decodeLines b events (lines rest) := by
  cases hterm : terminator rest with
  | none =>
      rw [decodeLoop_of_none hterm, lines_of_none hterm]
      split <;> rfl
  | some n =>
      obtain ⟨l, htext, hlen, hlines⟩ := lines_of_some hterm
      have hlt := terminator_lt hterm
      have hpos : 0 < lineUsed rest n := by
        unfold lineUsed
        split <;> omega
      rw [decodeLoop_of_some hterm, hlines, decodeLines, htext]
      congr 1
      funext event
      congr 1
      funext events
      exact decodeLoop_eq_decodeLines _ events (rest.drop (lineUsed rest n))
termination_by rest.length
decreasing_by simp only [List.length_drop]; omega

/-- The result of a run under the bound on the number of events, given the
events before it. -/
def bounded (events : List SseEventV1) (t : Trace (SseEventV1 × Nat) SseErrorV1 Unit) :
    Except SseErrorV1 (List SseEventV1) :=
  if events.length + t.items.length > maxSseEvents then .error .tooManyEvents
  else t.result.map fun _ => events ++ t.items.map Prod.fst

theorem pushBounded_eq {events : List SseEventV1} (h : events.length ≤ maxSseEvents)
    (event : Option SseEventV1) :
    pushBounded events event =
      if events.length + event.toList.length > maxSseEvents then .error .tooManyEvents
      else .ok (events ++ event.toList) := by
  cases event with
  | none => simp [pushBounded, h]
  | some event =>
      have hiff : events.length = maxSseEvents ↔ events.length + 1 > maxSseEvents := by omega
      simp [pushBounded, hiff]

/-- Items before a run count towards the bound in the same way. -/
theorem bounded_emit_bind (events : List SseEventV1) (items : List (SseEventV1 × Nat))
    {σ : Type*} (a : σ) (f : σ → Trace (SseEventV1 × Nat) SseErrorV1 Unit) :
    bounded events ((Trace.emit items a).bind f) =
      bounded (events ++ items.map Prod.fst) (f a) := by
  rcases hf : (f a).result with e | _ <;>
    simp [bounded, hf, Except.map, Nat.add_assoc]

theorem bounded_emit_bind_of_gt (events : List SseEventV1) (items : List (SseEventV1 × Nat))
    {σ : Type*} (a : σ) (f : σ → Trace (SseEventV1 × Nat) SseErrorV1 Unit)
    (h : events.length + items.length > maxSseEvents) :
    bounded events ((Trace.emit items a).bind f) = .error .tooManyEvents := by
  have : events.length + (items.length + (f a).items.length) > maxSseEvents := by omega
  simp [bounded, this]

/-- The whole-body loop is the run over the lines under the event bound. -/
theorem decodeLines_eq (b : EventBuilder) (events : List SseEventV1) (pos : Nat) (ls : List Line)
    (h : events.length ≤ maxSseEvents) :
    decodeLines b events ls = bounded events (runAll (b, pos) ls) := by
  induction ls generalizing b events pos with
  | nil =>
      rw [decodeLines, pushBounded_eq h]
      simp [runEnd, bounded, Trace.emit, Except.map, Function.comp_def]
  | cons l ls ih =>
      rw [decodeLines, runAll_cons, stepLine]
      rcases hline : b.line l.text with ⟨e | event, b'⟩
      · have hle : ¬events.length > maxSseEvents := by omega
        simp only [Except.bind, Trace.fail_bind]
        simp [bounded, Trace.fail, Except.map, hle]
      · simp only [Except.bind]
        rw [pushBounded_eq h]
        have hitems : (event.toList.map fun e =>
            (e, pos + (l.text.length + l.ending.length))).length = event.toList.length := by simp
        by_cases hgt : events.length + event.toList.length > maxSseEvents
        · rw [if_pos hgt, bounded_emit_bind_of_gt _ _ _ _ (by omega)]
        · rw [if_neg hgt, bounded_emit_bind]
          simp only [List.map_map, Function.comp_def, List.map_id']
          exact ih b' _ _ (by rw [List.length_append]; omega)

/-- The whole-body decoder is the run of the incremental decoder, except that
it refuses more events than its bound. -/
theorem decodeSseV1_eq (body : List UInt8) :
    decodeSseV1 body = bounded [] (SseDecoderV1.new.run [body]) := by
  rw [decodeSseV1, decodeLoop_eq_decodeLines, decodeLines_eq _ _ 0 _ (Nat.zero_le _),
    SseDecoderV1.run_eq_runAll, List.flatten_singleton]

/-- Chunking cannot be observed: every chunking of a body gives the events,
positions and first error of the whole body, and the whole-body decoder
agrees with them whenever its bound on the number of events is not hit. -/
theorem sse_chunking_invariant (body : List UInt8) (chunks : List (List UInt8))
    (hchunks : chunks.flatten = body) :
    SseDecoderV1.new.run chunks = SseDecoderV1.new.run [body] ∧
      (decodeSseV1 body ≠ .error .tooManyEvents →
        decodeSseV1 body = match (SseDecoderV1.new.run [body]).result with
          | .ok _ => .ok ((SseDecoderV1.new.run [body]).items.map Prod.fst)
          | .error e => .error e) := by
  refine ⟨?_, fun hbound => ?_⟩
  · rw [SseDecoderV1.run_new, SseDecoderV1.run_new, hchunks, List.flatten_singleton]
  · rw [decodeSseV1_eq, bounded] at hbound ⊢
    split at hbound
    · exact absurd rfl hbound
    · rename_i hle
      rw [if_neg hle]
      rcases (SseDecoderV1.new.run [body]).result with e | _ <;> rfl

/-- A CRLF and a pending event split across chunks, with the one event at the
end of its frame. -/
theorem sse_chunking_invariant_split_crlf :
    SseDecoderV1.new.run [bytes "data: 1\r", [], bytes "\n\r\n"] =
        SseDecoderV1.new.run [bytes "data: 1\r\n\r\n"] ∧
      (SseDecoderV1.new.run [bytes "data: 1\r\n\r\n"]).items = [(⟨"message", "1"⟩, 11)] ∧
      decodeSseV1 (bytes "data: 1\r\n\r\n") =
        match (SseDecoderV1.new.run [bytes "data: 1\r\n\r\n"]).result with
        | .ok _ => .ok ((SseDecoderV1.new.run [bytes "data: 1\r\n\r\n"]).items.map Prod.fst)
        | .error e => .error e := by
  have h := sse_chunking_invariant (bytes "data: 1\r\n\r\n")
    [bytes "data: 1\r", [], bytes "\n\r\n"] (by decide)
  exact ⟨h.1, by decide +kernel, h.2 (by decide +kernel)⟩

end TokenStation.Sse
