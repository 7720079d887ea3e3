import TokenStation.Sse.SplitterBounds

/-!
# Refusals of the splitter and the chunking

The splitter bounds an unfinished line only at the end of a chunk, so it reads
an over-long line that arrives whole and refuses one that a chunk end cuts. The
difference cannot be observed exactly when the first such line, and what
follows it, is refused as too large anyway before another frame is complete.
-/

namespace TokenStation.Sse

open Library.Text Library.ChunkedReading

/-- The size of the pending data with one more `data` line. -/
def joinedSize (pending : Option Nat) (value : String) : Nat :=
  match pending with
  | none => value.utf8ByteSize
  | some size => size + 1 + value.utf8ByteSize

/-- The pending data, or an unterminated last line, outgrows the bound before
the lines complete a frame or turn out not to be UTF-8. -/
def Outgrows (pending : Option Nat) : List Line → Prop
  | [] => False
  | l :: ls =>
      (l.text.length > maxSseSplitBytes ∧ l.ending = []) ∨
      match Field.ofBytes l.text with
      | .malformed => False
      | .blank => pending = none ∧ Outgrows none ls
      | .data value => joinedSize pending value > maxSseSplitBytes ∨
          Outgrows (some (joinedSize pending value)) ls
      | _ => Outgrows pending ls

/-- The first over-long line, if the lines before it are accepted, is followed
by the refusal it would itself deserve. -/
def OverlongRefused (pending : Option Nat) : List Line → Prop
  | [] => True
  | l :: ls =>
      if l.text.length > maxSseSplitBytes then Outgrows pending (l :: ls)
      else
        match Field.ofBytes l.text with
        | .malformed => True
        | .blank => OverlongRefused none ls
        | .data value => joinedSize pending value > maxSseSplitBytes ∨
            OverlongRefused (some (joinedSize pending value)) ls
        | _ => OverlongRefused pending ls

namespace SseSplitterV1

/-- The size of the splitter's pending data. -/
def pendingSize (s : SseSplitterV1) : Option Nat :=
  if s.hasData then some s.data.utf8ByteSize else none

/-- Data is pending only under its flag. -/
def Tidy (s : SseSplitterV1) : Prop := s.hasData = false → s.data = ""

theorem tidy_new : new.Tidy := fun _ => rfl

theorem size_joined {s : SseSplitterV1} (h : s.Tidy) (value : String) :
    (s.joined value).utf8ByteSize = joinedSize s.pendingSize value := by
  unfold joined joinedSize pendingSize
  cases hdata : s.hasData with
  | true =>
      have hnl : "\n".utf8ByteSize = 1 := by decide
      simp [hnl]
  | false => simp [h hdata]

/-- Everything an accepted line can do to a tidy splitter. -/
theorem apply_cases {s s' : SseSplitterV1} {f : Field} {frame : Option SseFrameV1}
    (htidy : s.Tidy) (h : s.apply f = (.ok frame, s')) :
    s'.Tidy ∧
    ((f = .blank ∧ s'.pendingSize = none ∧ (frame = none ↔ s.pendingSize = none)) ∨
     (∃ value, f = .data value ∧ joinedSize s.pendingSize value ≤ maxSseSplitBytes ∧
        s'.pendingSize = some (joinedSize s.pendingSize value) ∧ frame = none) ∨
     (((∃ value, f = .event value) ∨ f = .ignored) ∧ s'.pendingSize = s.pendingSize ∧
        frame = none)) := by
  cases f with
  | malformed => simp [apply] at h
  | blank =>
      simp only [apply] at h
      split at h
      · rename_i hdata
        cases h
        exact ⟨fun _ => rfl, .inl ⟨rfl, rfl, by simp [pendingSize, hdata]⟩⟩
      · rename_i hdata
        cases h
        have hdata : s.hasData = false := by simpa using hdata
        exact ⟨fun _ => htidy hdata, .inl ⟨rfl, by simp [pendingSize, hdata],
          by simp [pendingSize, hdata]⟩⟩
  | event value =>
      cases h
      exact ⟨htidy, .inr (.inr ⟨.inl ⟨value, rfl⟩, rfl, rfl⟩)⟩
  | data value =>
      simp only [apply] at h
      split at h
      · simp at h
      · rename_i hsize
        cases h
        rw [size_joined htidy] at hsize
        refine ⟨fun hfalse => by simp at hfalse,
          .inr (.inl ⟨value, rfl, Nat.le_of_not_gt hsize, ?_, rfl⟩)⟩
        rw [← size_joined htidy]
        simp [pendingSize]
  | ignored =>
      cases h
      exact ⟨htidy, .inr (.inr ⟨.inr rfl, rfl, rfl⟩)⟩

/-- A refused line is not UTF-8 or is data that outgrows the bound. -/
theorem apply_error_cases {s s' : SseSplitterV1} {f : Field} {e : SseSplitErrorV1}
    (htidy : s.Tidy) (h : s.apply f = (.error e, s')) :
    (f = .malformed ∧ e = .notUtf8) ∨
    (∃ value, f = .data value ∧ e = .tooLarge ∧
      joinedSize s.pendingSize value > maxSseSplitBytes) := by
  cases f with
  | malformed =>
      cases h
      exact .inl ⟨rfl, rfl⟩
  | blank =>
      simp only [apply] at h
      split at h <;> simp at h
  | event value => simp [apply] at h
  | data value =>
      simp only [apply] at h
      split at h
      · rename_i hsize
        cases h
        rw [size_joined htidy] at hsize
        exact .inr ⟨value, rfl, rfl, hsize⟩
      · simp at h
  | ignored => simp [apply] at h

theorem ended_ne_fail (s : SseSplitterV1) (e : SseSplitErrorV1) : s.ended ≠ .fail e := by
  unfold ended
  simp only [apply]
  split <;> rename_i heq <;> split at heq <;> cases heq <;> simp [Trace.emit, Trace.fail]

theorem emit_bind_eq_fail {frame : Option SseFrameV1}
    {t : Trace SseFrameV1 SseSplitErrorV1 Unit} {e : SseSplitErrorV1} :
    (Trace.emit frame.toList ()).bind (fun _ => t) = .fail e ↔ frame = none ∧ t = .fail e := by
  rcases t with ⟨items, result⟩
  cases frame <;> simp [Trace.fail]

/-- The lenient reading refuses lines as too large, before any frame, exactly
when they outgrow the bound. -/
theorem splitAll_eq_fail_iff {s : SseSplitterV1} (htidy : s.Tidy) (ls : List Line) :
    splitAll false s ls = .fail .tooLarge ↔ Outgrows s.pendingSize ls := by
  induction ls generalizing s with
  | nil => simp [splitAll, Outgrows, ended_ne_fail]
  | cons l ls ih =>
      rw [splitAll, Outgrows]
      simp only [Bool.false_eq_true, false_or]
      by_cases hlong : l.text.length > maxSseSplitBytes ∧ l.ending = []
      · simp [hlong]
      · rw [if_neg hlong]
        simp only [hlong, false_or]
        rcases happly : s.apply (Field.ofBytes l.text) with ⟨e | frame, s'⟩
        · rcases apply_error_cases htidy happly with ⟨hf, rfl⟩ | ⟨value, hf, rfl, hsize⟩
          · simp [hf, Trace.fail]
          · simp [hf, hsize]
        · dsimp only
          rw [emit_bind_eq_fail]
          obtain ⟨htidy', ⟨hf, hsize, hframe⟩ | ⟨value, hf, hle, hsize, rfl⟩ |
            ⟨⟨value, hf⟩ | hf, hsize, rfl⟩⟩ := apply_cases htidy happly
          · rw [hf, ih htidy', hsize, hframe]
          · simp [hf, ih htidy', hsize, Nat.not_lt.mpr hle]
          · simp [hf, ih htidy', hsize]
          · simp [hf, ih htidy', hsize]

/-- The two readings agree exactly when an over-long line is refused anyway. -/
theorem splitAll_strict_eq_iff {s : SseSplitterV1} (htidy : s.Tidy) (ls : List Line) :
    splitAll true s ls = splitAll false s ls ↔ OverlongRefused s.pendingSize ls := by
  induction ls generalizing s with
  | nil => simp [splitAll, OverlongRefused]
  | cons l ls ih =>
      rw [OverlongRefused]
      by_cases hlong : l.text.length > maxSseSplitBytes
      · rw [if_pos hlong, ← splitAll_eq_fail_iff htidy, splitAll, if_pos ⟨hlong, .inl rfl⟩]
        exact eq_comm
      · rw [if_neg hlong, splitAll, splitAll, if_neg (fun h => hlong h.1),
          if_neg (fun h => hlong h.1)]
        rcases happly : s.apply (Field.ofBytes l.text) with ⟨e | frame, s'⟩
        · rcases apply_error_cases htidy happly with ⟨hf, rfl⟩ | ⟨value, hf, rfl, hsize⟩
          · simp [hf]
          · simp [hf, hsize]
        · have hcancel : ((Trace.emit frame.toList ()).bind (fun _ => splitAll true s' ls) =
              (Trace.emit frame.toList ()).bind fun _ => splitAll false s' ls) ↔
                splitAll true s' ls = splitAll false s' ls := by
            simp [Trace.ext_iff]
          dsimp only
          rw [hcancel]
          obtain ⟨htidy', ⟨hf, hsize, -⟩ | ⟨value, hf, hle, hsize, -⟩ |
            ⟨⟨value, hf⟩ | hf, hsize, -⟩⟩ := apply_cases htidy happly
          · rw [hf, ih htidy', hsize]
          · simp [hf, ih htidy', hsize, Nat.not_lt.mpr hle]
          · simp [hf, ih htidy', hsize]
          · simp [hf, ih htidy', hsize]

/-- Between equal readings there is only one run. -/
theorem Between.eq {run t : Trace SseFrameV1 SseSplitErrorV1 Unit} (h : Between run t t) :
    run = t :=
  Trace.ext ((h.lenient_items.eq_of_length_le h.strict_items.length_le))
    (h.refused.trans h.strict_refused.symm)

end SseSplitterV1

/-- Every chunking of an input gives the same frames and the same refusal
exactly when its first over-long line is refused however it arrives. -/
theorem splitter_chunk_independent_iff (body : List UInt8) :
    (∀ chunks chunks' : List (List UInt8), chunks.flatten = body → chunks'.flatten = body →
        SseSplitterV1.new.run chunks = SseSplitterV1.new.run chunks') ↔
      OverlongRefused none (SseSplitterV1.unmarkedLines body) := by
  have hiff := SseSplitterV1.splitAll_strict_eq_iff SseSplitterV1.tidy_new
    (SseSplitterV1.unmarkedLines body)
  rw [show SseSplitterV1.new.pendingSize = none from rfl] at hiff
  rw [← hiff]
  constructor
  · intro h
    rw [← SseSplitterV1.run_slowly, ← SseSplitterV1.run_whole]
    exact h _ _ (SseSplitterV1.flatten_slowly body) (List.flatten_singleton)
  · intro heq
    have hone : ∀ chunks : List (List UInt8), chunks.flatten = body →
        SseSplitterV1.new.run chunks =
          SseSplitterV1.splitAll false .new (SseSplitterV1.unmarkedLines body) := by
      rintro chunks rfl
      rcases SseSplitterV1.run_cases chunks with hrun | hbetween
      · exact hrun
      · rw [heq] at hbetween
        exact hbetween.eq
    intro chunks chunks' h h'
    rw [hone chunks h, hone chunks' h']

/-! ## An over-long line -/

/-- A line of this many letters. -/
def letters (n : Nat) : List UInt8 := List.replicate n 97

theorem unbroken_letters (n : Nat) : Unbroken (letters n) := by
  intro b hb
  rw [List.eq_of_mem_replicate hb]
  decide

theorem fromUtf8_letters (n : Nat) :
    fromUtf8 (letters n) = some (String.ofList (List.replicate n 'a')) := by
  rw [fromUtf8_eq_some_iff, bytes_replicate, show bytes (String.singleton 'a') = [97] by decide,
    List.flatten_replicate_singleton, letters]

theorem splitOnceList_replicate (n : Nat) :
    splitOnceList ':' (List.replicate n 'a') = none := by
  induction n with
  | zero => rfl
  | succ n ih => simp [List.replicate_succ, splitOnceList, ih]

theorem ofBytes_letters (n : Nat) : Field.ofBytes (letters (n + 1)) = .ignored := by
  have hne : ∀ name : String, name.toList.head? ≠ some 'a' →
      String.ofList (List.replicate (n + 1) 'a') ≠ name := by
    rintro name hname rfl
    exact hname (by simp [List.replicate_succ])
  have hstart : startsWith (String.ofList (List.replicate (n + 1) 'a')) ':' = false := by
    simp [startsWith, List.replicate_succ]
  have hfield : EventBuilder.fieldOf (String.ofList (List.replicate (n + 1) 'a')) =
      (String.ofList (List.replicate (n + 1) 'a'), "") := by
    rw [EventBuilder.fieldOf, splitOnce, String.toList_ofList, splitOnceList_replicate,
      Option.map_none]
  simp only [Field.ofBytes, fromUtf8_letters, Field.ofText, hne "" (by decide), hstart, hfield,
    hne "event" (by decide), hne "data" (by decide), if_false, Bool.false_eq_true]

theorem not_opening_letters (n : Nat) (rest : List UInt8) :
    ¬SseSplitterV1.Opening (letters (n + 1) ++ rest) := by
  rintro ⟨-, hfront⟩
  rw [letters, List.replicate_succ, List.cons_append, List.isPrefixOf_iff_prefix] at hfront
  obtain ⟨tail, htail⟩ := hfront
  simp [bom] at htail

theorem unmark_letters (n : Nat) (rest : List UInt8) :
    SseSplitterV1.unmark (letters (n + 1) ++ rest) = letters (n + 1) ++ rest := by
  rw [letters, List.replicate_succ]
  rfl

/-- An over-long line of no consequence is read when it arrives whole. -/
theorem run_letters_whole (n : Nat) :
    SseSplitterV1.new.run [letters (n + 1) ++ [lf]] = .emit [] () := by
  have hlines : lines (letters (n + 1) ++ [lf]) = [⟨letters (n + 1), [lf]⟩] := by
    have h : lines (letters (n + 1) ++ ([lf] ++ [])) = ⟨letters (n + 1), [lf]⟩ :: lines [] :=
      lines_cons (l := ⟨letters (n + 1), [lf]⟩) (unbroken_letters _) (.inl rfl)
    rw [List.append_nil] at h
    exact h
  rw [SseSplitterV1.run_whole, SseSplitterV1.unmarkedLines, unmark_letters, hlines]
  simp only [SseSplitterV1.splitAll, ofBytes_letters]
  simp [SseSplitterV1.apply, SseSplitterV1.ended, SseSplitterV1.new]

/-- A chunk that ends inside such a line is refused. -/
theorem run_letters_cut (n : Nat) (h : n ≥ maxSseSplitBytes) (chunks : List (List UInt8)) :
    SseSplitterV1.new.run (letters (n + 1) :: chunks) = .fail .tooLarge := by
  have hmore : (SseSplitterV1.reader false).read .new (letters (n + 1)) = .more := by
    simp [SseSplitterV1.reader, SseSplitterV1.reading, SseSplitterV1.new,
      terminator_eq_none_iff.mpr (unbroken_letters (n + 1))]
  have hmark := unmark_letters n []
  have hopen := not_opening_letters n []
  rw [List.append_nil] at hmark hopen
  have hlong : (letters (n + 1)).length > maxSseSplitBytes := by
    rw [letters, List.length_replicate]
    omega
  rw [SseSplitterV1.run_new_chunk _ _ (fun h => absurd h hopen), hmark,
    SseSplitterV1.run_resting (SseSplitterV1.reading_new_nil false), SseSplitterV1.checked,
    List.nil_append, Reader.drain_more _ hmore, Trace.pure_bind, if_pos hlong]

/-- One ignored line of one byte more than the bound: read when it arrives with
its terminator, refused when the terminator comes in a chunk of its own. -/
theorem splitter_overlong_line_chunked :
    SseSplitterV1.new.run [letters (maxSseSplitBytes + 1) ++ [lf]] = .emit [] () ∧
      SseSplitterV1.new.run [letters (maxSseSplitBytes + 1), [lf]] = .fail .tooLarge ∧
      SseSplitterV1.new.run [letters (maxSseSplitBytes + 1) ++ [lf]] ≠
        SseSplitterV1.new.run [letters (maxSseSplitBytes + 1), [lf]] := by
  have hwhole := run_letters_whole maxSseSplitBytes
  have hcut := run_letters_cut maxSseSplitBytes (Nat.le_refl _) [[lf]]
  refine ⟨hwhole, hcut, ?_⟩
  rw [hwhole, hcut]
  simp [Trace.emit, Trace.fail]

end TokenStation.Sse
