import TokenStation.Sse.Fields
import TokenStation.Sse.Splitter

/-!
# The splitter as a reader of lines

A settled splitter reads lines like a chunked reader whose state notes a CR at
the end of the last line. Two such readers bound all its runs: the lenient one
never looks at the length of a line, the strict one refuses every line over
the bound. Which over-long lines a run refuses depends on where its chunks
end, and every run lies between the two.
-/

namespace TokenStation.Sse

open Library.Text Library.ChunkedReading

namespace SseSplitterV1

/-- The pending data with the value of one more `data` line. -/
def joined (s : SseSplitterV1) (value : String) : String :=
  if s.hasData then s.data ++ "\n" ++ value else s.data ++ value

/-- The effect of a classified line on the splitter. -/
def apply (s : SseSplitterV1) : Field →
    Except SseSplitErrorV1 (Option SseFrameV1) × SseSplitterV1
  | .malformed => (.error .notUtf8, s)
  | .blank =>
      if s.hasData then
        (.ok (some ⟨if s.event = "" then "message" else s.event, s.data⟩),
          { s with event := "", data := "", hasData := false })
      else (.ok none, { s with event := "" })
  | .event value => (.ok none, { s with event := value })
  | .data value =>
      if (s.joined value).utf8ByteSize > maxSseSplitBytes then
        (.error .tooLarge, { s with data := s.joined value, hasData := true })
      else (.ok none, { s with data := s.joined value, hasData := true })
  | .ignored => (.ok none, s)

theorem line_eq_apply (s : SseSplitterV1) (line : String) :
    s.line line = s.apply (Field.ofText line) := by
  unfold SseSplitterV1.line Field.ofText
  split
  · rfl
  · split
    · rfl
    · rw [show EventBuilder.fieldOf line = fieldOf line from rfl]
      dsimp only
      split
      · rfl
      · split <;> rfl

/-- The settled splitter with these unread bytes and this note of a CR. -/
def holding (s : SseSplitterV1) (tail : List UInt8) (afterCr : Bool) : SseSplitterV1 :=
  { s with tail := tail, bomSettled := true, afterCr := afterCr }

/-- A line is read without regard to the unread bytes and the CR note. -/
theorem apply_holding (s : SseSplitterV1) (tail : List UInt8) (afterCr : Bool) (f : Field) :
    (s.holding tail afterCr).apply f = ((s.apply f).1, (s.apply f).2.holding tail afterCr) := by
  cases f with
  | blank =>
      simp only [apply]
      by_cases hdata : s.hasData = true
      · have hhold : (s.holding tail afterCr).hasData = true := hdata
        rw [if_pos hdata, if_pos hhold]
        rfl
      · have hhold : ¬(s.holding tail afterCr).hasData = true := hdata
        rw [if_neg hdata, if_neg hhold]
        rfl
  | data value =>
      have hjoined : (s.holding tail afterCr).joined value = s.joined value := rfl
      simp only [apply, hjoined]
      split <;> rfl
  | malformed => rfl
  | event value => rfl
  | ignored => rfl

/-- What the splitter finds at the front of its unread bytes: the LF of a
CRLF whose CR has been read, or a line. -/
def reading (strict : Bool) (s : SseSplitterV1) (xs : List UInt8) :
    Reading SseSplitterV1 SseFrameV1 SseSplitErrorV1 :=
  if s.afterCr ∧ xs.head? = some lf then .step (s.holding s.tail false) 1 []
  else
    match terminator xs with
    | none => if strict ∧ xs.length > maxSseSplitBytes then .fail .tooLarge else .more
    | some n =>
        if strict ∧ n > maxSseSplitBytes then .fail .tooLarge
        else
          match s.apply (Field.ofBytes (xs.take n)) with
          | (.error e, _) => .fail e
          | (.ok frame, s) => .step (s.holding s.tail (decide (xs[n]? = some cr))) (n + 1)
              frame.toList

theorem le_of_terminator_append {xs ys : List UInt8} {n : Nat} (h : terminator xs = none)
    (hn : terminator (xs ++ ys) = some n) : xs.length ≤ n := by
  rw [terminator_append_of_none h, Option.map_eq_some_iff] at hn
  obtain ⟨k, -, rfl⟩ := hn
  omega

theorem reading_used {strict : Bool} {s s' : SseSplitterV1} {xs : List UInt8} {n : Nat}
    {out : List SseFrameV1} (h : reading strict s xs = .step s' n out) :
    0 < n ∧ n ≤ xs.length := by
  unfold reading at h
  split at h
  · rename_i hlf
    cases h
    have : xs ≠ [] := by
      rintro rfl
      simp at hlf
    exact ⟨Nat.one_pos, List.length_pos_iff.mpr this⟩
  · split at h
    · split at h <;> cases h
    · rename_i k hterm
      have := terminator_lt hterm
      split at h
      · cases h
      · split at h
        · cases h
        · cases h
          omega

theorem reading_stable {strict : Bool} {s : SseSplitterV1} {xs : List UInt8}
    (h : reading strict s xs ≠ .more) (ys : List UInt8) :
    reading strict s (xs ++ ys) = reading strict s xs := by
  have hne : xs ≠ [] := by
    rintro rfl
    simp [reading, terminator] at h
  have hhead : (xs ++ ys).head? = xs.head? := List.head?_append_of_ne_nil _ hne
  unfold reading at h ⊢
  rw [hhead]
  split
  · rfl
  · rename_i hlf
    rw [if_neg hlf] at h
    cases hterm : terminator xs with
    | none =>
        simp only [hterm] at h
        split at h
        · rename_i hlong
          simp only [if_pos hlong]
          cases hterm' : terminator (xs ++ ys) with
          | none =>
              have : strict ∧ (xs ++ ys).length > maxSseSplitBytes := by
                rw [List.length_append]
                exact ⟨hlong.1, by omega⟩
              simp only [if_pos this]
          | some n =>
              have hle := le_of_terminator_append hterm hterm'
              have : strict ∧ n > maxSseSplitBytes := ⟨hlong.1, by omega⟩
              simp only [if_pos this]
        · exact absurd rfl h
    | some n =>
        have hlt := terminator_lt hterm
        rw [terminator_append_of_some hterm]
        dsimp only
        rw [List.take_append_of_le_length (Nat.le_of_lt hlt), List.getElem?_append_left hlt]

/-- The lenient or the strict reader. -/
def reader (strict : Bool) : Reader SseSplitterV1 UInt8 SseFrameV1 SseSplitErrorV1 :=
  ⟨reading strict, reading_used, reading_stable⟩

/-! ## A push is a drain followed by the bound on the unfinished line -/

/-- The splitter's own state for a reader's state and its unread bytes: the
note of a CR is kept only while nothing follows it. -/
def resting (s : SseSplitterV1) (rest : List UInt8) : SseSplitterV1 :=
  s.holding rest (s.afterCr && rest.isEmpty)

/-- A push that returned the frames of a drain after `frames`, and its refusal
or that of the bound. -/
structure Pushed (out : SsePushV1 × SseSplitterV1) (frames : List SseFrameV1)
    (t : Trace SseFrameV1 SseSplitErrorV1 (SseSplitterV1 × List UInt8)) : Prop where
  frames_eq : out.1.frames = frames ++ t.items
  error_eq : ∀ e, t.result = .error e → out.1.error = some e
  tooLong : ∀ p, t.result = .ok p → p.2.length > maxSseSplitBytes → out.1.error = some .tooLarge
  within : ∀ p, t.result = .ok p → p.2.length ≤ maxSseSplitBytes →
    out.1.error = none ∧ out.2 = p.1.resting p.2

theorem Pushed.emit_bind {out : SsePushV1 × SseSplitterV1} {frames items : List SseFrameV1}
    {t : Trace SseFrameV1 SseSplitErrorV1 (SseSplitterV1 × List UInt8)}
    (h : Pushed out (frames ++ items) t) :
    Pushed out frames ((Trace.emit items ()).bind fun _ => t) :=
  ⟨by rw [h.frames_eq, List.append_assoc]; rfl, h.error_eq, h.tooLong, h.within⟩

theorem readLines_of_none {s : SseSplitterV1} {rest : List UInt8} {frames : List SseFrameV1}
    (h : terminator rest = none) :
    readLines s rest frames =
      if rest.length > maxSseSplitBytes then (⟨frames, some .tooLarge⟩, { s with tail := rest })
      else (⟨frames, none⟩, { s with tail := rest }) := by
  rw [readLines]
  split
  · rfl
  · simp_all

/-- The state with which the splitter reads the line that ends at `n`. -/
theorem noting_eq (s : SseSplitterV1) (tail rest : List UInt8) (afterCr : Bool) (n : Nat) :
    (if rest[n]? = some cr ∧ rest[n + 1]? = none then
        { s.holding tail afterCr with afterCr := true } else s.holding tail afterCr) =
      s.holding tail (afterCr || decide (rest[n]? = some cr ∧ rest[n + 1]? = none)) := by
  split
  · rename_i h
    simp [holding, h]
  · rename_i h
    simp only [h, decide_false, Bool.or_false]

theorem readLines_error {s s' : SseSplitterV1} {rest : List UInt8} {n : Nat}
    {e : SseSplitErrorV1} (tail : List UInt8) (afterCr : Bool) (hterm : terminator rest = some n)
    (h : s.apply (Field.ofBytes (rest.take n)) = (.error e, s')) (frames : List SseFrameV1) :
    (readLines (s.holding tail afterCr) rest frames).1 = ⟨frames, some e⟩ := by
  rw [readLines]
  split
  · simp_all
  · rename_i n' hterm'
    obtain rfl : n' = n := Option.some.inj (hterm'.symm.trans hterm)
    unfold Field.ofBytes at h
    cases hdecoded : fromUtf8 (rest.take n') with
    | none =>
        rw [hdecoded] at h
        cases h
        rfl
    | some decoded =>
        rw [hdecoded] at h
        dsimp only at h ⊢
        rw [noting_eq, line_eq_apply, apply_holding, h]

theorem readLines_ok {s s' : SseSplitterV1} {tail rest : List UInt8} {afterCr : Bool}
    {n : Nat} {frame : Option SseFrameV1} (hterm : terminator rest = some n)
    (h : s.apply (Field.ofBytes (rest.take n)) = (.ok frame, s')) (frames : List SseFrameV1) :
    readLines (s.holding tail afterCr) rest frames =
      readLines (s'.holding tail (afterCr || decide (rest[n]? = some cr ∧ rest[n + 1]? = none)))
        (rest.drop (lineUsed rest n)) (frames ++ frame.toList) := by
  rw [readLines]
  split
  · simp_all
  · rename_i n' hterm'
    obtain rfl : n' = n := Option.some.inj (hterm'.symm.trans hterm)
    have hused : (if rest[n']? = some cr ∧ rest[n' + 1]? = some lf then n' + 2 else n' + 1) =
        lineUsed rest n' := by
      unfold lineUsed
      split <;> rfl
    unfold Field.ofBytes at h
    cases hdecoded : fromUtf8 (rest.take n') with
    | none =>
        rw [hdecoded] at h
        simp [apply] at h
    | some decoded =>
        rw [hdecoded] at h
        dsimp only at h ⊢
        rw [hused, noting_eq, line_eq_apply, apply_holding, h]

/-- The lenient reader on a terminated line. -/
theorem reading_line (strict : Bool) {s : SseSplitterV1} {xs : List UInt8} {n : Nat}
    (hlf : s.afterCr = true → xs.head? ≠ some lf) (hterm : terminator xs = some n)
    (hshort : strict = true → n ≤ maxSseSplitBytes) :
    reading strict s xs = match s.apply (Field.ofBytes (xs.take n)) with
      | (.error e, _) => .fail e
      | (.ok frame, s) => .step (s.holding s.tail (decide (xs[n]? = some cr))) (n + 1)
          frame.toList := by
  have hno : ¬(strict = true ∧ n > maxSseSplitBytes) := fun h => by
    have := hshort h.1
    omega
  rw [reading, if_neg (fun h => hlf h.1 h.2), hterm]
  dsimp only
  rw [if_neg hno]

/-- After a line, the reader and the splitter stand before the same bytes. -/
theorem drain_after_line (strict : Bool) (s : SseSplitterV1) {xs : List UInt8} {n : Nat}
    (hterm : terminator xs = some n) :
    ∃ a : Bool, (a = true → (xs.drop (lineUsed xs n)).head? ≠ some lf) ∧
      (a && (xs.drop (lineUsed xs n)).isEmpty) = decide (xs[n]? = some cr ∧ xs[n + 1]? = none) ∧
      (reader strict).drain (s.holding s.tail (decide (xs[n]? = some cr))) (xs.drop (n + 1)) =
        (reader strict).drain (s.holding s.tail a) (xs.drop (lineUsed xs n)) := by
  have hlt := terminator_lt hterm
  have hempty : (xs.drop (n + 1)).isEmpty = decide (xs[n + 1]? = none) := by
    rw [Bool.eq_iff_iff, List.isEmpty_iff, List.drop_eq_nil_iff, decide_eq_true_iff,
      List.getElem?_eq_none_iff]
  by_cases hcr : xs[n]? = some cr
  · by_cases hnext : xs[n + 1]? = some lf
    · have hused : lineUsed xs n = n + 1 + 1 := by simp [lineUsed, hcr, hnext]
      refine ⟨false, by simp, by simp [hnext], ?_⟩
      have hread : (reader strict).read (s.holding s.tail true) (xs.drop (n + 1)) =
          .step (s.holding s.tail false) 1 [] := by
        have hhead : (xs.drop (n + 1)).head? = some lf := by rw [List.head?_drop, hnext]
        change reading strict _ _ = _
        rw [reading, if_pos ⟨rfl, hhead⟩]
        rfl
      simp only [hcr, decide_true]
      rw [Reader.drain_step _ hread, List.drop_drop, hused]
      rfl
    · have hused : lineUsed xs n = n + 1 := by simp [lineUsed, hnext]
      refine ⟨true, ?_, ?_, by simp [hcr, hused]⟩
      · rw [hused, List.head?_drop]
        exact fun _ => hnext
      · rw [hused, hempty]
        simp [hcr]
  · have hused : lineUsed xs n = n + 1 := by simp [lineUsed, hcr]
    exact ⟨false, by simp, by simp [hcr], by simp [hcr, hused]⟩

theorem readLines_pushed (s : SseSplitterV1) (tail rest : List UInt8) (frames : List SseFrameV1)
    (hlf : s.afterCr = true → rest.head? ≠ some lf) :
    Pushed (readLines (s.holding tail (s.afterCr && rest.isEmpty)) rest frames) frames
      ((reader false).drain s rest) := by
  cases hterm : terminator rest with
  | none =>
      have hmore : (reader false).read s rest = .more := by
        change reading false s rest = .more
        rw [reading, if_neg (fun h => hlf h.1 h.2), hterm]
        simp
      rw [Reader.drain_more _ hmore, readLines_of_none hterm]
      refine ⟨?_, by simp [Trace.pure], ?_, ?_⟩
      · split <;> simp [Trace.pure]
      · rintro p hp hlong
        cases hp
        rw [if_pos hlong]
      · rintro p hp hshort
        cases hp
        rw [if_neg (Nat.not_lt.mpr hshort)]
        exact ⟨rfl, rfl⟩
  | some n =>
      have hlt := terminator_lt hterm
      have hpos : 0 < lineUsed rest n := by
        unfold lineUsed
        split <;> omega
      have hnonempty : rest.isEmpty = false := by
        rw [List.isEmpty_eq_false_iff]
        exact List.ne_nil_of_length_pos (by omega)
      have hread := reading_line false hlf hterm (by simp)
      rcases happly : s.apply (Field.ofBytes (rest.take n)) with ⟨e | frame, s'⟩
      · rw [happly] at hread
        rw [Reader.drain_fail (reader false) hread]
        have hout := readLines_error tail (s.afterCr && rest.isEmpty) hterm
          happly frames
        exact ⟨by simp [hout, Trace.fail], by simp [hout, Trace.fail], by simp [Trace.fail],
          by simp [Trace.fail]⟩
      · rw [happly] at hread
        obtain ⟨a, ha, hrest, hdrain⟩ := drain_after_line false s' hterm
        rw [Reader.drain_step (reader false) hread, hdrain, readLines_ok hterm happly, hnonempty,
          Bool.and_false, Bool.false_or, ← hrest]
        exact (readLines_pushed (s'.holding s'.tail a) tail (rest.drop (lineUsed rest n))
          (frames ++ frame.toList) ha).emit_bind
termination_by rest.length
decreasing_by simp only [List.length_drop]; omega

/-- An idle reader has no line end in its unread bytes. -/
theorem idle_head {strict : Bool} {s : SseSplitterV1} {rest : List UInt8}
    (h : reading strict s rest = .more) : terminator rest = none := by
  unfold reading at h
  split at h
  · cases h
  · cases hterm : terminator rest with
    | none => rfl
    | some n =>
        simp only [hterm] at h
        split at h
        · cases h
        · split at h <;> cases h

/-- Pushing a chunk to an idle splitter drains its unread bytes and the chunk. -/
theorem push_pushed {s : SseSplitterV1} {rest : List UInt8} (h : reading false s rest = .more)
    (chunk : List UInt8) :
    Pushed ((s.resting rest).push chunk) [] ((reader false).drain s (rest ++ chunk)) := by
  have hidle := terminator_eq_none_iff.mp (idle_head h)
  by_cases hskip : (s.resting rest).afterCr = true ∧ chunk.head? = some lf
  · have hcr : s.afterCr = true ∧ rest = [] := by simpa [resting, holding] using hskip.1
    obtain ⟨chunk, rfl⟩ : ∃ tail, chunk = lf :: tail := by
      cases chunk with
      | nil => simp at hskip
      | cons b tail => exact ⟨tail, by simpa using hskip.2⟩
    have hread : (reader false).read s (lf :: chunk) = .step (s.holding s.tail false) 1 [] := by
      change reading false _ _ = _
      rw [reading, if_pos ⟨hcr.1, rfl⟩]
    have hpush : (s.resting rest).push (lf :: chunk) =
        readLines (s.holding chunk false) chunk [] := by
      simp [push, resting, holding, hcr]
    rw [hcr.2, List.nil_append, Reader.drain_step _ hread, ← hcr.2, hpush]
    exact (readLines_pushed (s.holding s.tail false) chunk chunk [] (by simp [holding])).emit_bind
  · have hlf : s.afterCr = true → (rest ++ chunk).head? ≠ some lf := by
      intro hcr hhead
      cases rest with
      | nil => exact hskip ⟨by simp [resting, holding, hcr], by simpa using hhead⟩
      | cons b rest =>
          have hb : b = lf := by simpa using hhead
          exact (hidle b (by simp)).2 hb
    have hpush : (s.resting rest).push chunk =
        readLines (s.holding (rest ++ chunk) (s.afterCr && (rest ++ chunk).isEmpty))
          (rest ++ chunk) [] := by
      cases chunk with
      | nil => simp [push, resting, holding]
      | cons b chunk =>
          have hb : ¬((s.resting rest).afterCr = true ∧ b = lf) := by simpa using hskip
          have hne : (rest ++ b :: chunk).isEmpty = false := by cases rest <;> rfl
          simp only [push, List.head?_cons, Option.some.injEq, if_neg hb, hne, Bool.and_false]
          simp [resting, holding]
    rw [hpush]
    exact readLines_pushed s _ _ [] hlf

/-! ## Runs -/

/-- What the splitter returns for the blank line at the end of input. -/
def ended (s : SseSplitterV1) : Trace SseFrameV1 SseSplitErrorV1 Unit :=
  match (s.apply .blank).1 with
  | .error e => .fail e
  | .ok frame => .emit frame.toList ()

/-- The end of input after these unread bytes. -/
def closing (s : SseSplitterV1) (rest : List UInt8) : Trace SseFrameV1 SseSplitErrorV1 Unit :=
  if rest = [] then s.ended
  else
    match s.apply (Field.ofBytes rest) with
    | (.error e, _) => .fail e
    | (.ok _, s) => s.ended

/-- Drain after each chunk and bound the unread bytes, then end the input. -/
def checked (s : SseSplitterV1) (rest : List UInt8) :
    List (List UInt8) → Trace SseFrameV1 SseSplitErrorV1 Unit
  | [] => s.closing rest
  | chunk :: chunks => ((reader false).drain s (rest ++ chunk)).bind fun p =>
      if p.2.length > maxSseSplitBytes then .fail .tooLarge else checked p.1 p.2 chunks

theorem ended_holding (s : SseSplitterV1) (tail : List UInt8) (afterCr : Bool) :
    (s.holding tail afterCr).ended = s.ended := by
  rw [ended, apply_holding, ended]

theorem finish_of_resting (s : SseSplitterV1) (rest : List UInt8) :
    (s.resting rest).finish = if rest = [] then (s.holding rest false).line "" else
      match fromUtf8 rest with
      | none => (.error .notUtf8, s.holding [] false)
      | some decoded =>
          match (s.holding [] false).line decoded with
          | (.error error, s) => (.error error, s)
          | (.ok _, s) => s.line "" := rfl

theorem finish_resting (s : SseSplitterV1) (rest : List UInt8) :
    (match (s.resting rest).finish with
      | (.error error, _) => Trace.fail error
      | (.ok frame, _) => Trace.emit frame.toList ()) = s.closing rest := by
  have hblank : Field.ofText "" = .blank := by decide
  rw [finish_of_resting]
  unfold closing
  by_cases hrest : rest = []
  · rw [if_pos hrest, if_pos hrest, line_eq_apply, hblank, apply_holding]
    unfold ended
    cases (s.apply .blank).1 <;> rfl
  · rw [if_neg hrest, if_neg hrest]
    unfold Field.ofBytes
    cases fromUtf8 rest with
    | none => rfl
    | some decoded =>
        dsimp only
        rw [line_eq_apply, apply_holding]
        rcases s.apply (Field.ofText decoded) with ⟨e | frame, s'⟩
        · rfl
        · dsimp only
          rw [line_eq_apply, hblank, apply_holding]
          unfold ended
          cases (s'.apply .blank).1 <;> rfl

/-- The runs of an idle splitter. -/
theorem run_resting {s : SseSplitterV1} {rest : List UInt8} (h : reading false s rest = .more)
    (chunks : List (List UInt8)) : (s.resting rest).run chunks = s.checked rest chunks := by
  induction chunks generalizing s rest with
  | nil => exact finish_resting s rest
  | cons chunk chunks ih =>
      obtain ⟨hframes, herror, hover, hwithin⟩ := push_pushed h chunk
      rw [run, checked]
      rcases hpush : (s.resting rest).push chunk with ⟨⟨frames, error⟩, s'⟩
      rw [hpush] at hframes herror hover hwithin
      simp only [List.nil_append] at hframes
      dsimp only at herror hover hwithin
      cases hdrain : ((reader false).drain s (rest ++ chunk)).result with
      | error e =>
          rw [herror e hdrain]
          simp [Trace.bind, hdrain, hframes]
      | ok p =>
          by_cases hlong : p.2.length > maxSseSplitBytes
          · rw [hover p hdrain hlong]
            simp [Trace.bind, hdrain, hlong, hframes, Trace.fail]
          · obtain ⟨herror, hnext⟩ := hwithin p hdrain (Nat.le_of_not_gt hlong)
            have hidle : reading false p.1 p.2 = .more := (reader false).drain_idle hdrain
            rw [herror, hnext]
            dsimp only
            rw [ih hidle]
            simp [Trace.bind, hdrain, hlong, hframes, Trace.emit]

end SseSplitterV1

end TokenStation.Sse
