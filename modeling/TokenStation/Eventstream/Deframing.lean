import TokenStation.Eventstream.Frame

/-!
# Deframing in chunks

Decoding one frame never revises an answer, so the deframer is a chunked
reader behind a lazily compacted buffer. Any chunking of a body gives the
messages and the first error of the buffered path.
-/

namespace TokenStation.Eventstream

open Library.ChunkedReading

/-- What the deframer finds at the front of the bytes it has not consumed. -/
def frameReading (_ : Unit) (pending : List UInt8) :
    Reading Unit EventStreamMessageV1 EventStreamErrorV1 :=
  match decodeFrame pending with
  | .ok none => .more
  | .ok (some (message, frameLen)) => .step () frameLen [message]
  | .error e => .fail e

theorem frameReading_used {s s' : Unit} {xs : List UInt8} {n : Nat}
    {out : List EventStreamMessageV1} (h : frameReading s xs = .step s' n out) :
    0 < n ∧ n ≤ xs.length := by
  unfold frameReading at h
  split at h
  · cases h
  · rename_i message frameLen hframe
    cases h
    have hused := decodeFrame_used hframe
    have hmin : minEventstreamFrameBytes = 16 := rfl
    omega
  · cases h

theorem frameReading_stable {s : Unit} {xs : List UInt8} (h : frameReading s xs ≠ .more)
    (ys : List UInt8) : frameReading s (xs ++ ys) = frameReading s xs := by
  have hframe : decodeFrame xs ≠ .ok none := by
    intro hnone
    exact h (by simp [frameReading, hnone])
  unfold frameReading
  rw [decodeFrame_stable hframe]

/-- The frame reader of the deframer. -/
def frameReader : Reader Unit UInt8 EventStreamMessageV1 EventStreamErrorV1 where
  read := frameReading
  used_pos := frameReading_used
  stable := frameReading_stable

/-- The end of input after these bytes. -/
def closing (pending : List UInt8) : Trace EventStreamMessageV1 EventStreamErrorV1 Unit :=
  if pending = [] then .pure () else .fail .truncatedFrame

namespace AwsEventStreamDeframerV1

/-- The deframer holds these unconsumed bytes. -/
structure Holds (d : AwsEventStreamDeframerV1) (pending : List UInt8) : Prop where
  failure : d.failure = none
  unread : d.buffer.drop d.readPos = pending
  readPos_le : d.readPos ≤ d.buffer.length

variable {d : AwsEventStreamDeframerV1} {pending : List UInt8}

theorem holds_new : Holds new [] := ⟨rfl, rfl, Nat.le_refl _⟩

theorem Holds.push (h : d.Holds pending) (chunk : List UInt8) :
    (d.push chunk).Holds (pending ++ chunk) := by
  unfold AwsEventStreamDeframerV1.push
  rw [if_neg (by simp [h.failure])]
  split
  · exact ⟨h.failure, by simp [h.unread], by simp⟩
  · have hzero : d.readPos = 0 := by omega
    refine ⟨h.failure, ?_, by simp [hzero]⟩
    rw [← h.unread, hzero]
    rfl

/-- One pull answers as the frame reader does. -/
theorem Holds.nextMessage (h : d.Holds pending) :
    match frameReading () pending with
    | .more => d.nextMessage = (.ok none, d)
    | .fail e => ∃ d', d.nextMessage = (.error e, d')
    | .step _ n out => ∃ d' m, out = [m] ∧ d.nextMessage = (.ok (some m), d') ∧
        d'.Holds (pending.drop n) := by
  unfold frameReading AwsEventStreamDeframerV1.nextMessage
  rw [h.failure, h.unread]
  cases hframe : decodeFrame pending with
  | error e => exact ⟨_, rfl⟩
  | ok found =>
      cases found with
      | none => rfl
      | some found =>
          obtain ⟨m, n⟩ := found
          have hused := (decodeFrame_used hframe).2.2
          have hlen := congrArg List.length h.unread
          have hle := h.readPos_le
          rw [List.length_drop] at hlen
          refine ⟨_, m, rfl, rfl, ?_⟩
          dsimp only
          split
          · rename_i hend
            refine ⟨rfl, ?_, Nat.le_refl _⟩
            rw [List.drop_nil, eq_comm, List.drop_eq_nil_iff]
            omega
          · refine ⟨rfl, ?_, ?_⟩
            · rw [← List.drop_drop, h.unread]
            · dsimp only
              omega

/-- Draining the deframer drains the frame reader. -/
theorem Holds.drain {d : AwsEventStreamDeframerV1} {pending : List UInt8} (h : d.Holds pending) :
    Trace.Rel (fun d p => Holds d p.2 ∧ frameReading () p.2 = .more) d.drain
      (frameReader.drain () pending) := by
  have hnext := h.nextMessage
  cases hread : frameReading () pending with
  | more =>
      simp only [hread] at hnext
      rw [frameReader.drain_more hread, AwsEventStreamDeframerV1.drain]
      split
      · simp_all
      · rename_i d' heq
        obtain ⟨-, rfl⟩ := Prod.mk.inj (hnext.symm.trans heq)
        exact Trace.Rel.pure ⟨h, hread⟩
      · simp_all
  | fail e =>
      simp only [hread] at hnext
      obtain ⟨d', hnext⟩ := hnext
      rw [frameReader.drain_fail hread, AwsEventStreamDeframerV1.drain]
      split
      · rename_i e' d'' heq
        obtain ⟨he, -⟩ := Prod.mk.inj (hnext.symm.trans heq)
        cases he
        exact Trace.Rel.fail e
      · simp_all
      · simp_all
  | step s' n out =>
      have hused := frameReading_used hread
      simp only [hread] at hnext
      obtain ⟨d', m, rfl, hnext, hrest⟩ := hnext
      rw [frameReader.drain_step hread, AwsEventStreamDeframerV1.drain]
      split
      · simp_all
      · simp_all
      · rename_i m' d'' heq
        obtain ⟨hm, rfl⟩ := Prod.mk.inj (hnext.symm.trans heq)
        cases hm
        refine Trace.Rel.bind (R := fun _ _ => True) ⟨rfl, .inr ⟨(), (), rfl, rfl, trivial⟩⟩ ?_
        intro _ _ _
        exact hrest.drain
termination_by pending.length
decreasing_by
  simp only [List.length_drop]
  omega

/-- A deframer with nothing more to pull ends as its unconsumed bytes say. -/
theorem Holds.finish (h : d.Holds pending) (hidle : frameReading () pending = .more) :
    (⟨[], d.finish⟩ : Trace EventStreamMessageV1 EventStreamErrorV1 Unit) = closing pending := by
  have hnext := h.nextMessage
  simp only [hidle] at hnext
  have hlen : d.bufferedLen = pending.length := by
    rw [← h.unread, List.length_drop]
    rfl
  unfold AwsEventStreamDeframerV1.finish closing
  rw [hnext]
  simp only [hlen, List.length_eq_zero_iff]
  split <;> rfl

theorem Holds.run (h : d.Holds pending) (hidle : frameReading () pending = .more)
    (chunks : List (List UInt8)) :
    d.run chunks = (frameReader.feed () pending chunks).bind fun p => closing p.2 := by
  induction chunks generalizing d pending with
  | nil =>
      rw [AwsEventStreamDeframerV1.run, Reader.feed, Trace.pure_bind]
      exact h.finish hidle
  | cons chunk chunks ih =>
      rw [AwsEventStreamDeframerV1.run, Reader.feed, Trace.bind_assoc]
      apply Trace.Rel.eq
      refine Trace.Rel.bind (h.push chunk).drain ?_
      rintro d' ⟨u, p⟩ ⟨hholds, hmore⟩
      rw [ih hholds hmore]
      exact ⟨rfl, by
        rcases hresult : ((frameReader.feed () p chunks).bind fun p => closing p.2).result with e | a
        · exact .inl ⟨e, rfl, rfl⟩
        · exact .inr ⟨a, a, rfl, rfl, rfl⟩⟩

end AwsEventStreamDeframerV1

theorem frameReading_nil : frameReading () [] = .more := by
  simp [frameReading, decodeFrame, preludeBytes]

/-- However the input is chunked, the deframer reads its frames. -/
theorem run_new (chunks : List (List UInt8)) :
    AwsEventStreamDeframerV1.new.run chunks =
      (frameReader.drain () chunks.flatten).bind fun p => closing p.2 := by
  rw [AwsEventStreamDeframerV1.holds_new.run frameReading_nil,
    frameReader.feed_eq_drain () [] frameReading_nil, List.nil_append]

/-- The buffered path collects the messages of the frame reader. -/
theorem deframeFrom_eq (messages : List EventStreamMessageV1) (rest : List UInt8) :
    deframeFrom messages rest =
      match ((frameReader.drain () rest).bind fun p => closing p.2).result with
      | .ok _ => .ok (messages ++ ((frameReader.drain () rest).bind fun p => closing p.2).items)
      | .error e => .error e := by
  rw [deframeFrom]
  split
  · rename_i hnil
    subst hnil
    have hread : frameReader.read () [] = .more := frameReading_nil
    rw [frameReader.drain_more hread, Trace.pure_bind]
    simp [closing, Trace.pure]
  · rename_i hne
    split
    · rename_i e hframe
      have hread : frameReader.read () rest = .fail e := by
        simp [frameReader, frameReading, hframe]
      rw [frameReader.drain_fail hread]
      rfl
    · rename_i hframe
      have hread : frameReader.read () rest = .more := by
        simp [frameReader, frameReading, hframe]
      rw [frameReader.drain_more hread]
      simp [closing, hne, Trace.fail]
    · rename_i m n hframe
      have hread : frameReader.read () rest = .step () n [m] := by
        simp [frameReader, frameReading, hframe]
      have hused := frameReader.used_pos hread
      rw [frameReader.drain_step hread, Trace.bind_assoc,
        deframeFrom_eq (messages ++ [m]) (rest.drop n)]
      simp
termination_by rest.length
decreasing_by
  simp only [List.length_drop]
  omega

/-- Every chunking of a body gives the messages and the first error of the
buffered path, and a frame that is decided stays decided. -/
theorem eventstream_chunk_independent (body : List UInt8) (chunks : List (List UInt8))
    (hchunks : chunks.flatten = body) :
    AwsEventStreamDeframerV1.new.run chunks = AwsEventStreamDeframerV1.new.run [body] ∧
      (deframeAwsEventstreamV1 body =
        match (AwsEventStreamDeframerV1.new.run chunks).result with
        | .ok _ => .ok (AwsEventStreamDeframerV1.new.run chunks).items
        | .error e => .error e) ∧
      ∀ start rest, decodeFrame start ≠ .ok none → decodeFrame (start ++ rest) = decodeFrame start := by
  refine ⟨?_, ?_, fun start rest h => decodeFrame_stable h rest⟩
  · rw [run_new, run_new, hchunks, List.flatten_singleton]
  · rw [deframeAwsEventstreamV1, deframeFrom_eq, run_new, hchunks, List.nil_append]

/-- The empty message, cut inside its prelude, and the start of a second one. -/
theorem eventstream_chunk_independent_empty_message :
    (AwsEventStreamDeframerV1.new.run
        [[0, 0, 0, 16, 0, 0], [], [0, 0, 5, 194, 72, 235, 125, 152, 200, 255, 0]]).items =
          [⟨.empty, []⟩] ∧
      deframeAwsEventstreamV1
        [0, 0, 0, 16, 0, 0, 0, 0, 5, 194, 72, 235, 125, 152, 200, 255, 0] =
          .error .truncatedFrame := by
  obtain ⟨hrun, hdeframe, -⟩ := eventstream_chunk_independent
    [0, 0, 0, 16, 0, 0, 0, 0, 5, 194, 72, 235, 125, 152, 200, 255, 0]
    [[0, 0, 0, 16, 0, 0], [], [0, 0, 5, 194, 72, 235, 125, 152, 200, 255, 0]] rfl
  have hresult : (AwsEventStreamDeframerV1.new.run
      [[0, 0, 0, 16, 0, 0], [], [0, 0, 5, 194, 72, 235, 125, 152, 200, 255, 0]]).result =
        .error .truncatedFrame := by
    decide +kernel
  rw [hresult] at hdeframe
  exact ⟨by decide +kernel, hdeframe⟩

end TokenStation.Eventstream
