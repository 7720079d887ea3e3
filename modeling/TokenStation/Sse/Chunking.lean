import TokenStation.Sse.Decoder

/-!
# Chunking invariance of the decoder

The driver pushes each chunk, drains the decoder and finally ends the input,
as the decoder's own documentation does. Its buffer, read and scan positions
implement a line reader over the bytes not yet consumed; a line reader never
revises an answer, so the chunking cannot be observed.
-/

namespace TokenStation.Sse

open Library.Text Library.ChunkedReading

namespace SseDecoderV1

/-- An event is returned only after at least one more byte has been read. -/
theorem bufferedLen_advance {d d' : SseDecoderV1} {event : SseEventV1}
    (h : d.advance = (.ok (some event), d')) : d'.bufferedLen < d.bufferedLen := by
  fun_induction advance d with
  | case7 d start from_ offset hterm end_ hlen hwait len readPos read dread ev hread =>
      have hlt := terminator_lt hterm
      obtain ⟨-, rfl⟩ := Prod.mk.inj h
      simp only [List.length_drop, from_] at hlt
      simp only [bufferedLen, dread, readPos, end_, from_, start, len] at hlt ⊢
      split <;> omega
  | case8 d start from_ offset hterm end_ hlen hwait len readPos read dread hread ih =>
      have hlt := terminator_lt hterm
      have hd := ih h
      simp only [List.length_drop, from_] at hlt
      simp only [bufferedLen, dread, readPos, end_, from_, start, len] at hlt hd ⊢
      split at hd <;> omega
  | case1 | case2 | case3 | case4 | case5 | case6 => simp at h

theorem bufferedLen_nextEvent {d d' : SseDecoderV1} {event : SseEventV1}
    (h : d.nextEvent = (.ok (some event), d')) : d'.bufferedLen < d.bufferedLen := by
  unfold nextEvent at h
  split at h
  · simp at h
  · split at h
    · rename_i hadvance
      obtain ⟨h₁, rfl⟩ := Prod.mk.inj h
      rw [Except.ok.inj h₁] at hadvance
      exact bufferedLen_advance hadvance
    · simp at h

/-- Pull events until none is left, noting the position after each. -/
def drain (d : SseDecoderV1) : Trace (SseEventV1 × Nat) SseErrorV1 SseDecoderV1 :=
  match _h : d.nextEvent with
  | (.error error, _) => .fail error
  | (.ok none, d) => .pure d
  | (.ok (some event), d) => (Trace.emit [(event, d.position)] ()).bind fun _ => d.drain
termination_by d.bufferedLen
decreasing_by exact bufferedLen_nextEvent _h

/-- End the input; its event ends where the input does. -/
def close (d : SseDecoderV1) : Trace (SseEventV1 × Nat) SseErrorV1 Unit :=
  let end_ := d.position + d.bufferedLen
  match d.finish with
  | .error error => .fail error
  | .ok event => .emit (event.toList.map fun e => (e, end_)) ()

/-- Push the chunks one after another, draining after each, then end the input. -/
def run (d : SseDecoderV1) : List (List UInt8) → Trace (SseEventV1 × Nat) SseErrorV1 Unit
  | [] => d.close
  | chunk :: chunks => (d.push chunk).drain.bind fun d => d.run chunks

end SseDecoderV1

theorem terminator_append_of_some {xs : List UInt8} {n : Nat} (h : terminator xs = some n)
    (ys : List UInt8) : terminator (xs ++ ys) = some n := by
  unfold terminator at h ⊢
  rw [List.findIdx?_append, h]
  rfl

theorem terminator_append_of_none {xs : List UInt8} (h : terminator xs = none)
    (ys : List UInt8) : terminator (xs ++ ys) = (terminator ys).map (· + xs.length) := by
  unfold terminator at h ⊢
  rw [List.findIdx?_append, h]
  rfl

/-- What the decoder makes of the bytes it has not consumed: the first line
and its terminator, unless the line or the byte after a CR is still missing. -/
def lineReading (s : EventBuilder × Nat) (pending : List UInt8) :
    Reading (EventBuilder × Nat) (SseEventV1 × Nat) SseErrorV1 :=
  match terminator pending with
  | none => if pending.length > maxSseLineBytes then .fail .lineTooLong else .more
  | some end_ =>
      if end_ > maxSseLineBytes then .fail .lineTooLong
      else if pending[end_]? = some cr ∧ pending[end_ + 1]? = none then .more
      else
        let used := end_ + if pending[end_]? = some cr ∧ pending[end_ + 1]? = some lf then 2 else 1
        let read := s.1.line (pending.take end_)
        match read.1 with
        | .error e => .fail e
        | .ok event => .step (read.2, s.2 + used) used (event.toList.map fun e => (e, s.2 + used))

theorem used_le {xs : List UInt8} {n : Nat} (h : n < xs.length) :
    (n + if xs[n]? = some cr ∧ xs[n + 1]? = some lf then 2 else 1) ≤ xs.length := by
  split
  · rename_i hc
    have := (List.getElem?_eq_some_iff.mp hc.2).1
    omega
  · omega

theorem lineReading_used {s s' : EventBuilder × Nat} {xs : List UInt8} {n : Nat}
    {out : List (SseEventV1 × Nat)} (h : lineReading s xs = .step s' n out) :
    0 < n ∧ n ≤ xs.length := by
  unfold lineReading at h
  split at h
  · split at h <;> cases h
  · rename_i end_ hterm
    have hle := used_le (terminator_lt hterm)
    split at h
    · cases h
    · split at h
      · cases h
      · dsimp only at h
        split at h
        · cases h
        · cases h
          exact ⟨by split <;> omega, hle⟩

/-- Only a missing terminator or a missing byte after a CR is an open
question, so later bytes never change a line that has been read. -/
theorem lineReading_stable {s : EventBuilder × Nat} {xs : List UInt8}
    (h : lineReading s xs ≠ .more) (ys : List UInt8) :
    lineReading s (xs ++ ys) = lineReading s xs := by
  cases hterm : terminator xs with
  | none =>
      have hlong : xs.length > maxSseLineBytes := by
        by_contra hshort
        exact h (by simp [lineReading, hterm, hshort])
      have hx : lineReading s xs = .fail .lineTooLong := by
        simp [lineReading, hterm, hlong]
      rw [hx]
      unfold lineReading
      rw [terminator_append_of_none hterm]
      cases terminator ys with
      | none =>
          have : (xs ++ ys).length > maxSseLineBytes := by
            rw [List.length_append]; omega
          simp only [Option.map_none, if_pos this]
      | some k =>
          have : k + xs.length > maxSseLineBytes := by omega
          simp only [Option.map_some, if_pos this]
  | some n =>
      have hn := terminator_lt hterm
      unfold lineReading at h ⊢
      rw [terminator_append_of_some hterm ys]
      rw [hterm] at h ⊢
      dsimp only at h ⊢
      split
      · rfl
      · rename_i hlen
        rw [if_neg hlen] at h
        -- The byte after a CR is already in `xs`, or the reading would be `more`.
        have hwait : ¬(xs[n]? = some cr ∧ xs[n + 1]? = none) := by
          intro hw
          exact h (if_pos hw)
        have hget : (xs ++ ys)[n]? = xs[n]? := List.getElem?_append_left hn
        have hnext : xs[n]? = some cr → (xs ++ ys)[n + 1]? = xs[n + 1]? := by
          intro hcr
          apply List.getElem?_append_left
          by_contra hge
          exact hwait ⟨hcr, List.getElem?_eq_none (by omega)⟩
        rw [List.take_append_of_le_length (by omega), hget]
        by_cases hcr : xs[n]? = some cr
        · rw [hnext hcr]
        · simp [hcr]

/-- The line reader of the decoder. -/
def lineReader : Reader (EventBuilder × Nat) UInt8 (SseEventV1 × Nat) SseErrorV1 where
  read := lineReading
  used_pos := lineReading_used
  stable := lineReading_stable

namespace SseDecoderV1

/-- The decoder holds a builder, a position and unconsumed bytes, of which the
ones before the scan position contain no terminator. -/
structure Holds (d : SseDecoderV1) (s : EventBuilder × Nat) (pending : List UInt8) : Prop where
  failure : d.failure = none
  builder : d.builder = s.1
  position : d.position = s.2
  unread : d.buffer.drop d.readPos = pending
  readPos_le : d.readPos ≤ d.buffer.length
  scanPos_le : d.scanPos ≤ d.buffer.length
  scanned : terminator (pending.take (d.scanPos - d.readPos)) = none

variable {d : SseDecoderV1} {s : EventBuilder × Nat} {pending : List UInt8}

theorem holds_new : Holds new (.new, 0) [] :=
  ⟨rfl, rfl, rfl, rfl, Nat.le_refl _, Nat.le_refl _, rfl⟩

theorem Holds.length_unread (h : d.Holds s pending) :
    pending.length = d.buffer.length - d.readPos := by
  rw [← h.unread, List.length_drop]

/-- Pushing a chunk appends it to the unconsumed bytes. -/
theorem Holds.push (h : d.Holds s pending) (chunk : List UInt8) :
    (d.push chunk).Holds s (pending ++ chunk) := by
  have hlen := h.length_unread
  have hle := h.scanPos_le
  have hscan : terminator ((pending ++ chunk).take (d.scanPos - d.readPos)) = none := by
    rw [List.take_append_of_le_length (by omega)]
    exact h.scanned
  unfold SseDecoderV1.push
  rw [if_neg (by simp [h.failure])]
  split
  · refine ⟨h.failure, h.builder, h.position, ?_, by simp, ?_, ?_⟩
    · simp [h.unread]
    · simp only [List.length_append, List.length_drop]
      omega
    · simpa using hscan
  · have hzero : d.readPos = 0 := by omega
    refine ⟨h.failure, h.builder, h.position, ?_, ?_, ?_, hscan⟩
    · rw [← h.unread, hzero]
      rfl
    · simp [hzero]
    · simp only [List.length_append]
      omega

/-- Searching from the scan position finds the first terminator of the
unconsumed bytes. -/
theorem Holds.terminator_unread (h : d.Holds s pending) :
    terminator pending = (terminator (d.buffer.drop (max d.scanPos d.readPos))).map
      (· + (max d.scanPos d.readPos - d.readPos)) := by
  have hlen := h.length_unread
  have hle := h.scanPos_le
  have hdrop : d.buffer.drop (max d.scanPos d.readPos) =
      pending.drop (d.scanPos - d.readPos) := by
    rw [← h.unread, List.drop_drop]
    congr 1
    omega
  have hmax : max d.scanPos d.readPos - d.readPos = d.scanPos - d.readPos := by omega
  have htake : (pending.take (d.scanPos - d.readPos)).length = d.scanPos - d.readPos := by
    rw [List.length_take]
    omega
  calc
    terminator pending = terminator (pending.take (d.scanPos - d.readPos) ++
        pending.drop (d.scanPos - d.readPos)) := by rw [List.take_append_drop]
    _ = _ := by rw [terminator_append_of_none h.scanned, htake, hdrop, hmax]

/-- How one round of the decoder's loop answers a reading: it waits, fails,
returns the event of the line, or goes on after the line. -/
def Answers (d : SseDecoderV1) (s : EventBuilder × Nat) (pending : List UInt8) :
    Reading (EventBuilder × Nat) (SseEventV1 × Nat) SseErrorV1 → Prop
  | .more => ∃ d', d.advance = (.ok none, d') ∧ d'.Holds s pending
  | .fail e => ∃ d', d.advance = (.error e, d')
  | .step s' n out => ∃ d' : SseDecoderV1, d'.Holds s' (pending.drop n) ∧
      ((out = [] ∧ d.advance = d'.advance) ∨
        ∃ event, out = [(event, d'.position)] ∧ d.advance = (.ok (some event), d'))

theorem Holds.answers_of_none (h : d.Holds s pending) (hterm : terminator pending = none) :
    d.Answers s pending
      (if pending.length > maxSseLineBytes then .fail .lineTooLong else .more) := by
  have hlen := h.length_unread
  have hnone : terminator (d.buffer.drop (max d.scanPos d.readPos)) = none := by
    simpa [h.terminator_unread] using hterm
  have hadvance : d.advance =
      if d.buffer.length - d.readPos > maxSseLineBytes then
        (.error .lineTooLong, { d with scanPos := d.buffer.length })
      else if d.readPos = d.buffer.length then
        (.ok none, { d with buffer := [], readPos := 0, scanPos := 0 })
      else (.ok none, { d with scanPos := d.buffer.length }) := by
    rw [advance]
    split
    · rfl
    · simp_all
  by_cases hlong : d.buffer.length - d.readPos > maxSseLineBytes
  · rw [hlen, if_pos hlong]
    exact ⟨_, by rw [hadvance, if_pos hlong]⟩
  · rw [hlen, if_neg hlong]
    rw [if_neg hlong] at hadvance
    by_cases hend : d.readPos = d.buffer.length
    · have hnil : pending = [] := List.length_eq_zero_iff.mp (by omega)
      rw [if_pos hend] at hadvance
      exact ⟨_, hadvance, h.failure, h.builder, h.position, hnil.symm, by simp, by simp,
        by simp [hnil, terminator]⟩
    · rw [if_neg hend] at hadvance
      refine ⟨_, hadvance, h.failure, h.builder, h.position, h.unread, h.readPos_le, by simp, ?_⟩
      rw [List.take_of_length_le (by simp [hlen])]
      exact hterm

/-- The loop round on a terminated line, in terms of the unconsumed bytes. -/
theorem Holds.advance_of_some (h : d.Holds s pending) {n : Nat}
    (hterm : terminator pending = some n) :
    d.advance =
      if n > maxSseLineBytes then (.error .lineTooLong, d)
      else if pending[n]? = some cr ∧ pending[n + 1]? = none then
        (.ok none, { d with scanPos := d.readPos + n })
      else
        let used := n + if pending[n]? = some cr ∧ pending[n + 1]? = some lf then 2 else 1
        let read := s.1.line (pending.take n)
        let d' := { d with
          readPos := d.readPos + used
          scanPos := d.readPos + used
          position := s.2 + used
          builder := read.2 }
        match read.1 with
        | .error e => (.error e, d')
        | .ok (some event) => (.ok (some event), d')
        | .ok none => d'.advance := by
  have hsome := h.terminator_unread
  rw [hterm] at hsome
  obtain ⟨offset, hoffset, hn⟩ := Option.map_eq_some_iff.mp hsome.symm
  have hend : max d.scanPos d.readPos + offset = d.readPos + n := by omega
  rw [advance]
  split
  · rename_i hnone
    rw [hoffset] at hnone
    cases hnone
  · rename_i offset' hoffset'
    obtain rfl : offset' = offset := Option.some.inj (hoffset'.symm.trans hoffset)
    simp only [hend, ← h.unread, List.getElem?_drop, h.builder, Nat.add_sub_cancel_left,
      Nat.add_assoc]
    rewrite [h.position]
    rfl

theorem Holds.answers_of_some (h : d.Holds s pending) {n : Nat}
    (hterm : terminator pending = some n) : d.Answers s pending (lineReading s pending) := by
  have hlen := h.length_unread
  have hn := terminator_lt hterm
  have hused := used_le hn
  have hadvance := h.advance_of_some hterm
  have hscanned : terminator (pending.take n) = none := by
    rw [terminator, List.findIdx?_eq_none_iff]
    intro byte hbyte
    obtain ⟨i, hi, rfl⟩ := List.getElem_of_mem hbyte
    rw [List.length_take] at hi
    obtain ⟨_, -, hbefore⟩ := List.findIdx?_eq_some_iff_getElem.mp hterm
    simpa using hbefore i (by omega)
  unfold lineReading
  simp only [hterm]
  by_cases hlong : n > maxSseLineBytes
  · rw [if_pos hlong]
    exact ⟨_, by rw [hadvance, if_pos hlong]⟩
  · rw [if_neg hlong] at hadvance ⊢
    by_cases hwait : pending[n]? = some cr ∧ pending[n + 1]? = none
    · rw [if_pos hwait] at hadvance ⊢
      refine ⟨_, hadvance, h.failure, h.builder, h.position, h.unread, h.readPos_le, ?_, ?_⟩
      · simp only
        omega
      · simpa using hscanned
    · rw [if_neg hwait] at hadvance ⊢
      generalize hk : (n + if pending[n]? = some cr ∧ pending[n + 1]? = some lf then 2 else 1) = k
        at hused hadvance ⊢
      dsimp only at hadvance ⊢
      have hholds : Holds { d with
          readPos := d.readPos + k
          scanPos := d.readPos + k
          position := s.2 + k
          builder := (s.1.line (pending.take n)).2 }
          ((s.1.line (pending.take n)).2, s.2 + k) (pending.drop k) := by
        refine ⟨h.failure, rfl, rfl, ?_, ?_, ?_, ?_⟩
        · rw [← h.unread, List.drop_drop]
        · simp only
          omega
        · simp only
          omega
        · simp [terminator]
      split at hadvance
      · rename_i e he
        simp only [he]
        exact ⟨_, hadvance⟩
      · rename_i event he
        simp only [he]
        exact ⟨_, hholds, .inr ⟨event, rfl, hadvance⟩⟩
      · rename_i he
        simp only [he]
        exact ⟨_, hholds, .inl ⟨rfl, hadvance⟩⟩

theorem Holds.answers (h : d.Holds s pending) :
    d.Answers s pending (lineReading s pending) := by
  cases hterm : terminator pending with
  | none =>
      have := h.answers_of_none hterm
      simpa only [lineReading, hterm] using this
  | some n => exact h.answers_of_some hterm

/-- The whole loop against the line reader: it reads lines without events
until one dispatches, one is refused, or more bytes are needed. -/
theorem Holds.advance_drain {d : SseDecoderV1} {s : EventBuilder × Nat} {pending : List UInt8}
    (h : d.Holds s pending) :
    (∃ e d', d.advance = (.error e, d') ∧ lineReader.drain s pending = .fail e) ∨
    (∃ d' s' rest, d.advance = (.ok none, d') ∧ d'.Holds s' rest ∧
      lineReader.drain s pending = .pure (s', rest)) ∨
    (∃ event d' s' rest, d.advance = (.ok (some event), d') ∧ d'.Holds s' rest ∧
      lineReader.drain s pending =
        (Trace.emit [(event, d'.position)] ()).bind fun _ => lineReader.drain s' rest) := by
  have hanswers := h.answers
  cases hr : lineReading s pending with
  | more =>
      rw [hr] at hanswers
      obtain ⟨d', hd, hh⟩ := hanswers
      exact .inr (.inl ⟨d', s, pending, hd, hh, lineReader.drain_more hr⟩)
  | fail e =>
      rw [hr] at hanswers
      obtain ⟨d', hd⟩ := hanswers
      exact .inl ⟨e, d', hd, lineReader.drain_fail hr⟩
  | step s' n out =>
      rw [hr] at hanswers
      obtain ⟨hpos, hle⟩ := lineReading_used hr
      have hdrain := lineReader.drain_step hr
      obtain ⟨d', hh, ⟨rfl, hd⟩ | ⟨event, rfl, hd⟩⟩ := hanswers
      · -- A line without an event: the loop and the reader both go on after it.
        have hskip : lineReader.drain s pending = lineReader.drain s' (pending.drop n) := hdrain
        rw [hd, hskip]
        exact hh.advance_drain
      · exact .inr (.inr ⟨event, d', s', pending.drop n, hd, hh, hdrain⟩)
termination_by pending.length
decreasing_by simp only [List.length_drop]; omega

theorem drain_of_error {e : SseErrorV1} {d' : SseDecoderV1}
    (h : d.nextEvent = (.error e, d')) : d.drain = .fail e := by
  rw [drain]; split <;> simp_all

theorem drain_of_none {d' : SseDecoderV1} (h : d.nextEvent = (.ok none, d')) :
    d.drain = .pure d' := by
  rw [drain]; split <;> simp_all

theorem drain_of_event {event : SseEventV1} {d' : SseDecoderV1}
    (h : d.nextEvent = (.ok (some event), d')) :
    d.drain = (Trace.emit [(event, d'.position)] ()).bind fun _ => d'.drain := by
  rw [drain]; split <;> simp_all

/-- Pulling events until none is left is draining the line reader. -/
theorem Holds.drain_rel {d : SseDecoderV1} {s : EventBuilder × Nat} {pending : List UInt8}
    (h : d.Holds s pending) :
    Trace.Rel (fun d' p => d'.Holds p.1 p.2) d.drain (lineReader.drain s pending) := by
  rcases h.advance_drain with ⟨e, d', hd, hr⟩ | ⟨d', s', rest, hd, hh, hr⟩ |
      ⟨event, d', s', rest, hd, hh, hr⟩
  · rw [hr, drain_of_error (by simp only [nextEvent, h.failure, hd]; rfl)]
    exact .fail e
  · rw [hr, drain_of_none (by simp only [nextEvent, h.failure, hd]; rfl)]
    exact .pure hh
  · have hnext : d.nextEvent = (.ok (some event), d') := by
      simp only [nextEvent, h.failure, hd]
    have hlt := bufferedLen_nextEvent hnext
    rw [hr, drain_of_event hnext]
    exact ⟨by simp [hh.drain_rel.items_eq], hh.drain_rel.result_rel⟩
termination_by d.bufferedLen

/-- What the end of input makes of the bytes left after draining. -/
def closing (s : EventBuilder × Nat) (rest : List UInt8) :
    Trace (SseEventV1 × Nat) SseErrorV1 Unit :=
  let end_ := s.2 + rest.length
  if rest = [] then .emit (s.1.dispatch.1.toList.map fun e => (e, end_)) ()
  else
    let line := if rest.getLast? = some cr then rest.dropLast else rest
    match s.1.line line with
    | (.error error, _) => .fail error
    | (.ok (some event), _) => .emit [(event, end_)] ()
    | (.ok none, builder) => .emit (builder.dispatch.1.toList.map fun e => (e, end_)) ()

theorem Holds.close_eq (h : d.Holds s pending) (hidle : lineReading s pending = .more) :
    d.close = closing s pending := by
  have hanswers := h.answers
  rw [hidle] at hanswers
  obtain ⟨d', hd, hh⟩ := hanswers
  have hnext : d.nextEvent = (.ok none, d') := by simp only [nextEvent, h.failure, hd]
  have hend : d.position + d.bufferedLen = s.2 + pending.length := by
    rw [h.position, h.length_unread]
    rfl
  unfold close closing finish
  simp only [hnext, hend, hh.unread, hh.builder]
  by_cases hnil : pending = []
  · simp [hnil]
  · simp only [if_neg hnil]
    rcases s.1.line _ with ⟨e | _ | event, builder⟩ <;> rfl

theorem Holds.run_eq {d : SseDecoderV1} {s : EventBuilder × Nat} {pending : List UInt8}
    (h : d.Holds s pending) (hidle : lineReading s pending = .more) (chunks : List (List UInt8)) :
    d.run chunks = (lineReader.feed s pending chunks).bind fun p => closing p.1 p.2 := by
  induction chunks generalizing d s pending with
  | nil => simp [run, Reader.feed, h.close_eq hidle]
  | cons chunk chunks ih =>
      rw [run, Reader.feed, Trace.bind_assoc]
      have hrel := (h.push chunk).drain_rel
      rcases hrel with ⟨hitems, ⟨e, hd, hr⟩ | ⟨d', p, hd, hr, hh⟩⟩
      · simp only [Trace.bind, hd, hr, hitems]
      · simp only [Trace.bind, hd, hr, hitems]
        rw [ih hh (lineReader.drain_idle hr)]
        rfl

/-- However the input is chunked, the run reads it with the line reader and
then ends it. -/
theorem run_new (chunks : List (List UInt8)) :
    new.run chunks =
      (lineReader.drain (.new, 0) chunks.flatten).bind fun p => closing p.1 p.2 := by
  have hidle : lineReading (.new, 0) [] = .more := rfl
  rw [holds_new.run_eq hidle, lineReader.feed_eq_drain (.new, 0) [] hidle, List.nil_append]

end SseDecoderV1

end TokenStation.Sse
