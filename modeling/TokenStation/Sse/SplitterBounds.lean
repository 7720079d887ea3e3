import TokenStation.Sse.SplitterReading

/-!
# All runs of the splitter

A run is the lenient reading of the whole input, or it refuses an over-long
line and then lies between the strict and the lenient reading. Both extremes
occur: the input as one chunk, and its bytes one at a time. In terms of lines
they differ only in whether a terminated over-long line is refused.
-/

namespace TokenStation.Sse

open Library.Text Library.ChunkedReading

namespace SseSplitterV1

/-- A reading of the whole input, the bound on its last line and its end. -/
def whole (strict : Bool) (s : SseSplitterV1) (xs : List UInt8) :
    Trace SseFrameV1 SseSplitErrorV1 Unit :=
  ((reader strict).drain s xs).bind fun p =>
    if p.2.length > maxSseSplitBytes then .fail .tooLarge else p.1.closing p.2

theorem whole_append (strict : Bool) (s : SseSplitterV1) (xs ys : List UInt8) :
    whole strict s (xs ++ ys) =
      ((reader strict).drain s xs).bind fun p => whole strict p.1 (p.2 ++ ys) := by
  rw [whole, Reader.drain_append, Trace.bind_assoc]
  rfl

/-! ## Between the strict and the lenient reading -/

theorem reading_strict (s : SseSplitterV1) (xs : List UInt8) :
    reading true s xs = reading false s xs ∨ reading true s xs = .fail .tooLarge := by
  unfold reading
  split
  · exact .inl rfl
  · cases terminator xs with
    | none =>
        dsimp only
        split
        · exact .inr rfl
        · exact .inl (by simp)
    | some n =>
        dsimp only
        split
        · exact .inr rfl
        · exact .inl (by simp)

/-- The strict reading follows the lenient one until it refuses a line. -/
theorem drain_strict (s : SseSplitterV1) (xs : List UInt8) :
    (reader true).drain s xs = (reader false).drain s xs ∨
      ((reader true).drain s xs).result = .error .tooLarge ∧
        ((reader true).drain s xs).items <+: ((reader false).drain s xs).items := by
  rcases reading_strict s xs with heq | hfail
  · cases hread : reading false s xs with
    | more =>
        rw [hread] at heq
        exact .inl (by rw [Reader.drain_more (reader true) heq, Reader.drain_more (reader false) hread])
    | fail e =>
        rw [hread] at heq
        exact .inl (by rw [Reader.drain_fail (reader true) heq, Reader.drain_fail (reader false) hread])
    | step s' n out =>
        rw [hread] at heq
        obtain ⟨hpos, hle⟩ := reading_used hread
        rw [Reader.drain_step (reader true) heq, Reader.drain_step (reader false) hread]
        rcases drain_strict s' (xs.drop n) with hsame | ⟨hresult, hitems⟩
        · exact .inl (by rw [hsame])
        · exact .inr ⟨hresult, (List.prefix_append_right_inj out).mpr hitems⟩
  · rw [Reader.drain_fail (reader true) hfail]
    exact .inr ⟨rfl, List.nil_prefix⟩
termination_by xs.length
decreasing_by simp only [List.length_drop]; omega

theorem idle_strict_length {s : SseSplitterV1} {rest : List UInt8}
    (h : reading true s rest = .more) : rest.length ≤ maxSseSplitBytes := by
  have hterm := idle_head h
  unfold reading at h
  split at h
  · cases h
  · rw [hterm] at h
    by_contra hlong
    simp [Nat.lt_of_not_le hlong] at h

/-- A run that refuses an over-long line between the two readings. -/
structure Between (run strict lenient : Trace SseFrameV1 SseSplitErrorV1 Unit) : Prop where
  refused : run.result = .error .tooLarge
  strict_refused : strict.result = .error .tooLarge
  strict_items : strict.items <+: run.items
  lenient_items : run.items <+: lenient.items

/-- Every run is the lenient reading or lies between the two. -/
theorem checked_cases {s : SseSplitterV1} {rest : List UInt8} (hidle : reading false s rest = .more)
    (hrest : rest.length ≤ maxSseSplitBytes) (chunks : List (List UInt8)) :
    s.checked rest chunks = whole false s (rest ++ chunks.flatten) ∨
      Between (s.checked rest chunks) (whole true s (rest ++ chunks.flatten))
        (whole false s (rest ++ chunks.flatten)) := by
  induction chunks generalizing s rest with
  | nil =>
      rw [List.flatten_nil, List.append_nil, whole, Reader.drain_more (reader false) hidle,
        Trace.pure_bind, if_neg (Nat.not_lt.mpr hrest)]
      exact .inl rfl
  | cons chunk chunks ih =>
      rw [checked, List.flatten_cons, ← List.append_assoc, whole_append, whole_append]
      have hstrict := drain_strict s (rest ++ chunk)
      cases hdrain : ((reader false).drain s (rest ++ chunk)).result with
      | error e => exact .inl (by simp [Trace.bind, hdrain])
      | ok p =>
          have hidle' : reading false p.1 p.2 = .more := (reader false).drain_idle hdrain
          -- Either the strict reading has already refused, or it stands where the run does.
          have hahead : ((reader true).drain s (rest ++ chunk)).result = .error .tooLarge ∧
              ((reader true).drain s (rest ++ chunk)).items <+:
                ((reader false).drain s (rest ++ chunk)).items ∨
              (reader true).drain s (rest ++ chunk) = (reader false).drain s (rest ++ chunk) ∧
                p.2.length ≤ maxSseSplitBytes := by
            rcases hstrict with hsame | hrefused
            · have hidle₁ : reading true p.1 p.2 = .more :=
                (reader true).drain_idle (by rw [hsame, hdrain])
              exact .inr ⟨hsame, idle_strict_length hidle₁⟩
            · exact .inl hrefused
          by_cases hlong : p.2.length > maxSseSplitBytes
          · rcases hahead with ⟨hresult, hitems⟩ | ⟨-, hshort⟩
            · refine .inr ⟨?_, ?_, ?_, ?_⟩
              · simp [Trace.bind, hdrain, hlong, Trace.fail]
              · simp [Trace.bind, hresult]
              · simpa [Trace.bind, hdrain, hresult, hlong, Trace.fail] using hitems
              · simp [Trace.bind, hdrain, hlong, Trace.fail]
            · omega
          · rcases ih hidle' (Nat.le_of_not_gt hlong) with heq | hbetween
            · refine .inl ?_
              simp [Trace.bind, hdrain, hlong, heq]
            · obtain ⟨h1, h2, h3, h4⟩ := hbetween
              rcases hahead with ⟨hresult, hitems⟩ | ⟨hsame, -⟩
              · refine .inr ⟨?_, ?_, ?_, ?_⟩
                · simp [Trace.bind, hdrain, hlong, h1]
                · simp [Trace.bind, hresult]
                · simp only [Trace.bind, hdrain, hresult, if_neg hlong]
                  exact hitems.trans (List.prefix_append _ _)
                · simpa [Trace.bind, hdrain, hlong] using h4
              · rw [hsame]
                refine .inr ⟨?_, ?_, ?_, ?_⟩
                · simp [Trace.bind, hdrain, hlong, h1]
                · simp [Trace.bind, hdrain, h2]
                · simpa [Trace.bind, hdrain, hlong] using h3
                · simpa [Trace.bind, hdrain, hlong] using h4

/-- On few bytes the strict reading refuses nothing but the unfinished line. -/
theorem drain_few (s : SseSplitterV1) (xs : List UInt8) (h : xs.length ≤ maxSseSplitBytes + 1) :
    (reader true).drain s xs = ((reader false).drain s xs).bind fun p =>
      if p.2.length > maxSseSplitBytes then .fail .tooLarge else .pure p := by
  rcases reading_strict s xs with heq | hfail
  · cases hread : reading false s xs with
    | more =>
        rw [hread] at heq
        have hshort := idle_strict_length heq
        rw [Reader.drain_more (reader true) heq, Reader.drain_more (reader false) hread,
          Trace.pure_bind, if_neg (Nat.not_lt.mpr hshort)]
    | fail e =>
        rw [hread] at heq
        rw [Reader.drain_fail (reader true) heq, Reader.drain_fail (reader false) hread,
          Trace.fail_bind]
    | step s' n out =>
        rw [hread] at heq
        obtain ⟨hpos, hle⟩ := reading_used hread
        rw [Reader.drain_step (reader true) heq, Reader.drain_step (reader false) hread,
          Trace.bind_assoc]
        congr 1
        funext _
        exact drain_few s' (xs.drop n) (by rw [List.length_drop]; omega)
  · by_cases hlf : s.afterCr = true ∧ xs.head? = some lf
    · simp [reading, hlf] at hfail
    · cases hterm : terminator xs with
      | none =>
          have hmore : reading false s xs = .more := by
            rw [reading, if_neg hlf, hterm]
            simp
          have hlong : xs.length > maxSseSplitBytes := by
            by_contra hshort
            rw [reading, if_neg hlf, hterm] at hfail
            simp [Nat.not_lt.mpr (Nat.le_of_not_gt hshort)] at hfail
          rw [Reader.drain_fail (reader true) hfail, Reader.drain_more (reader false) hmore,
            Trace.pure_bind, if_pos hlong]
      | some n =>
          have hlt := terminator_lt hterm
          have hread := reading_line true (fun h h' => hlf ⟨h, h'⟩) hterm
            (fun _ => by omega)
          have hread' := reading_line false (fun h h' => hlf ⟨h, h'⟩) hterm
            (by simp)
          rw [Reader.drain_fail (reader true) hfail,
            Reader.drain_fail (reader false) (hread'.trans (hread.symm.trans hfail)),
            Trace.fail_bind]
termination_by xs.length
decreasing_by simp only [List.length_drop]; omega

/-- Single bytes after few bytes give the strict reading. -/
theorem checked_slow (s : SseSplitterV1) (rest chunk : List UInt8) (chunks : List (List UInt8))
    (h : (rest ++ chunk).length ≤ maxSseSplitBytes + 1) (hchunks : ∀ c ∈ chunks, c.length ≤ 1) :
    s.checked rest (chunk :: chunks) = whole true s (rest ++ chunk ++ chunks.flatten) := by
  induction chunks generalizing s rest chunk with
  | nil =>
      rw [checked, List.flatten_nil, List.append_nil, whole, drain_few s _ h, Trace.bind_assoc]
      congr 1
      funext p
      split
      · rfl
      · rename_i hshort
        rw [Trace.pure_bind, if_neg hshort]
        rfl
  | cons c chunks ih =>
      rw [checked, whole_append, drain_few s _ h, Trace.bind_assoc]
      congr 1
      funext p
      split
      · rfl
      · rename_i hshort
        have hc := hchunks c (by simp)
        rw [Trace.pure_bind, ih p.1 p.2 c (by rw [List.length_append]; omega)
          (fun d hd => hchunks d (by simp [hd])), List.flatten_cons, List.append_assoc]

/-! ## The readings over lines -/

/-- The lenient or strict reading of lines; the end of input always refuses an
over-long unterminated line. -/
def splitAll (strict : Bool) (s : SseSplitterV1) : List Line →
    Trace SseFrameV1 SseSplitErrorV1 Unit
  | [] => s.ended
  | l :: ls =>
      if l.text.length > maxSseSplitBytes ∧ (strict ∨ l.ending = []) then .fail .tooLarge
      else
        match s.apply (Field.ofBytes l.text) with
        | (.error e, _) => .fail e
        | (.ok frame, s) => (Trace.emit frame.toList ()).bind fun _ => splitAll strict s ls

theorem splitAll_holding (strict : Bool) (s : SseSplitterV1) (tail : List UInt8) (a : Bool)
    (ls : List Line) : splitAll strict (s.holding tail a) ls = splitAll strict s ls := by
  induction ls generalizing s with
  | nil => exact ended_holding s tail a
  | cons l ls ih =>
      rw [splitAll, splitAll, apply_holding]
      rcases s.apply (Field.ofBytes l.text) with ⟨e | frame, s'⟩
      · rfl
      · simp only [ih]

/-- A line that is not blank dispatches nothing. -/
theorem apply_ok_of_ne_blank {s s' : SseSplitterV1} {f : Field} {frame : Option SseFrameV1}
    (hne : f ≠ .blank) (h : s.apply f = (.ok frame, s')) : frame = none := by
  cases f with
  | malformed => simp [apply] at h
  | blank => exact absurd rfl hne
  | event value => simp_all [apply]
  | data value =>
      simp only [apply] at h
      split at h <;> simp_all
  | ignored => simp_all [apply]

theorem closing_eq_splitAll {strict : Bool} {s : SseSplitterV1} {rest : List UInt8}
    (hrest : rest.length ≤ maxSseSplitBytes) :
    s.closing rest = splitAll strict s (if rest = [] then [] else [⟨rest, []⟩]) := by
  unfold closing
  split
  · rfl
  · rename_i hne
    have hno : ¬(rest.length > maxSseSplitBytes ∧ (strict = true ∨ ([] : List UInt8) = [])) := by
      omega
    rw [splitAll, if_neg hno]
    rcases happly : s.apply (Field.ofBytes rest) with ⟨e | frame, s'⟩
    · rfl
    · rw [apply_ok_of_ne_blank (Field.ofBytes_ne_blank hne) happly]
      rfl

theorem whole_eq_splitAll (strict : Bool) (s : SseSplitterV1) (xs : List UInt8)
    (hlf : s.afterCr = true → xs.head? ≠ some lf) :
    whole strict s xs = splitAll strict s (lines xs) := by
  cases hterm : terminator xs with
  | none =>
      rw [lines_of_none hterm]
      have hread : reading strict s xs =
          if strict = true ∧ xs.length > maxSseSplitBytes then .fail .tooLarge else .more := by
        rw [reading, if_neg (fun h => hlf h.1 h.2), hterm]
      by_cases hlong : xs.length > maxSseSplitBytes
      · have hne : xs ≠ [] := List.ne_nil_of_length_pos (by omega)
        rw [if_neg hne, splitAll, if_pos ⟨hlong, .inr rfl⟩, whole]
        cases strict with
        | true =>
            rw [if_pos ⟨rfl, hlong⟩] at hread
            rw [Reader.drain_fail (reader true) hread, Trace.fail_bind]
        | false =>
            rw [if_neg (by simp)] at hread
            rw [Reader.drain_more (reader false) hread, Trace.pure_bind, if_pos hlong]
      · rw [if_neg (fun h => hlong h.2)] at hread
        rw [whole, Reader.drain_more (reader strict) hread, Trace.pure_bind, if_neg hlong]
        exact closing_eq_splitAll (Nat.le_of_not_gt hlong)
  | some n =>
      obtain ⟨l, htext, hends, hlines⟩ := lines_of_some hterm
      have hlt := terminator_lt hterm
      have hlength : l.text.length = n := by
        rw [htext, List.length_take]
        omega
      have hpos : n < lineUsed xs n := by
        unfold lineUsed
        split <;> omega
      have hending : l.ending ≠ [] := List.ne_nil_of_length_pos (by omega)
      rw [hlines, splitAll, whole, hlength, htext]
      by_cases hlong : strict = true ∧ n > maxSseSplitBytes
      · have hread : reading strict s xs = .fail .tooLarge := by
          rw [reading, if_neg (fun h => hlf h.1 h.2), hterm]
          exact if_pos hlong
        rw [if_pos ⟨hlong.2, .inl hlong.1⟩, Reader.drain_fail (reader strict) hread,
          Trace.fail_bind]
      · have hread := reading_line strict hlf hterm (fun h => by
          by_contra hn
          exact hlong ⟨h, Nat.lt_of_not_le hn⟩)
        have hno : ¬(n > maxSseSplitBytes ∧ (strict = true ∨ l.ending = [])) := by
          rintro ⟨hn, h | h⟩
          · exact hlong ⟨h, hn⟩
          · exact hending h
        rw [if_neg hno]
        rcases happly : s.apply (Field.ofBytes (xs.take n)) with ⟨e | frame, s'⟩
        · rw [happly] at hread
          rw [Reader.drain_fail (reader strict) hread, Trace.fail_bind]
        · rw [happly] at hread
          obtain ⟨a, ha, -, hdrain⟩ := drain_after_line strict s' hterm
          rw [Reader.drain_step (reader strict) hread, hdrain, Trace.bind_assoc]
          dsimp only
          congr 1
          funext _
          rw [← splitAll_holding strict s' s'.tail a]
          exact whole_eq_splitAll strict (s'.holding s'.tail a) (xs.drop (lineUsed xs n)) ha
termination_by xs.length
decreasing_by simp only [List.length_drop]; omega

/-! ## The leading byte order mark -/

/-- A splitter that has seen part of a byte order mark and nothing else. -/
def unsettled (tail : List UInt8) : SseSplitterV1 := { new with tail := tail }

/-- Bytes that may still become a byte order mark. -/
def Opening (tail : List UInt8) : Prop := tail.length < bom.length ∧ tail.isPrefixOf bom = true

/-- The input without a leading byte order mark. -/
def unmark (body : List UInt8) : List UInt8 := (bom.isPrefixOf? body).getD body

theorem push_settled (chunk : List UInt8) :
    (new.resting []).push chunk = readLines (new.holding chunk false) chunk [] := by
  cases chunk <;> simp [push, resting, holding, new]

theorem push_unsettled (tail chunk : List UInt8) :
    (unsettled tail).push chunk =
      if (tail ++ chunk).length < bom.length ∧ (tail ++ chunk).isPrefixOf bom = true then
        (⟨[], none⟩, unsettled (tail ++ chunk))
      else (new.resting []).push (unmark (tail ++ chunk)) := by
  have hskip : ¬((unsettled tail).afterCr = true ∧ chunk.head? = some lf) := by
    simp [unsettled, new]
  have hstate : (if chunk = [] then unsettled tail
      else { unsettled tail with afterCr := false }) = unsettled tail := by
    split <;> rfl
  rw [push_settled, push]
  simp only [hskip, if_false, hstate]
  rfl

theorem run_hold (tail : List UInt8) {chunk : List UInt8} (h : Opening (tail ++ chunk))
    (chunks : List (List UInt8)) :
    (unsettled tail).run (chunk :: chunks) = (unsettled (tail ++ chunk)).run chunks := by
  unfold Opening at h
  rw [run, push_unsettled, if_pos h]
  simp

theorem run_settle (tail : List UInt8) {chunk : List UInt8} (h : ¬Opening (tail ++ chunk))
    (chunks : List (List UInt8)) :
    (unsettled tail).run (chunk :: chunks) =
      (new.resting []).run (unmark (tail ++ chunk) :: chunks) := by
  unfold Opening at h
  rw [run, run, push_unsettled, if_neg h]

theorem Opening.unmark_eq {tail : List UInt8} (h : Opening tail) : unmark tail = tail := by
  cases hbom : bom.isPrefixOf? tail with
  | none => simp [unmark, hbom]
  | some rest =>
      have hlen := congrArg List.length (List.isPrefixOf?_eq_some_iff_append_eq.mp hbom)
      have hlt := h.1
      rw [List.length_append] at hlen
      omega

theorem reading_new_nil (strict : Bool) : reading strict new [] = .more := by
  simp [reading, new, terminator]

/-- The end of input settles what may still become a byte order mark. -/
theorem run_opening {tail : List UInt8} (h : Opening tail) :
    (unsettled tail).run [] = (new.resting []).run [tail] := by
  have hshort : tail.length ≤ maxSseSplitBytes := by
    have hlt := h.1
    have : bom.length = 3 := by decide
    have : maxSseSplitBytes = 16 * 1024 * 1024 := rfl
    omega
  have hterm : terminator tail = none := by
    rw [terminator_eq_none_iff]
    intro b hb
    have hbom : ∀ b ∈ bom, b ≠ cr ∧ b ≠ lf := by simp [bom, cr, lf]
    exact hbom b ((List.isPrefixOf_iff_prefix.mp h.2).subset hb)
  have hmore : (reader false).read new tail = .more := by
    simp [reader, reading, hterm, new]
  rw [run_resting (reading_new_nil false), checked, List.nil_append,
    Reader.drain_more (reader false) hmore, Trace.pure_bind, if_neg (Nat.not_lt.mpr hshort), checked,
    ← finish_resting]
  rfl

theorem not_opening_append {xs ys : List UInt8} (h : ¬Opening xs) :
    unmark (xs ++ ys) = unmark xs ++ ys := by
  unfold unmark
  cases hxs : bom.isPrefixOf? xs with
  | some rest =>
      have hrest := List.isPrefixOf?_eq_some_iff_append_eq.mp hxs
      have happend : bom.isPrefixOf? (xs ++ ys) = some (rest ++ ys) := by
        rw [List.isPrefixOf?_eq_some_iff_append_eq, ← hrest, List.append_assoc]
      rw [happend]
      rfl
  | none =>
      cases hall : bom.isPrefixOf? (xs ++ ys) with
      | none => rfl
      | some rest =>
          have hrest := List.isPrefixOf?_eq_some_iff_append_eq.mp hall
          -- The mark ends inside `ys`, so `xs` is a proper part of it.
          rcases List.append_eq_append_iff.mp hrest.symm with ⟨m, hm, -⟩ | ⟨m, hm, -⟩
          · cases m with
            | nil =>
                rw [List.append_nil] at hm
                have : bom.isPrefixOf? xs = some [] := by
                  rw [List.isPrefixOf?_eq_some_iff_append_eq, List.append_nil, hm]
                rw [this] at hxs
                cases hxs
            | cons b m =>
                refine absurd ⟨?_, ?_⟩ h
                · rw [hm, List.length_append, List.length_cons]
                  omega
                · rw [List.isPrefixOf_iff_prefix]
                  exact ⟨b :: m, hm.symm⟩
          · have : bom.isPrefixOf? xs = some m := by
              rw [List.isPrefixOf?_eq_some_iff_append_eq, hm]
            rw [this] at hxs
            cases hxs

/-- Whatever the chunks, the splitter reads some chunks of the input without
its leading mark. -/
theorem run_unsettled {tail : List UInt8} (h : Opening tail) (chunks : List (List UInt8)) :
    ∃ chunks', chunks'.flatten = unmark (tail ++ chunks.flatten) ∧
      (unsettled tail).run chunks = (new.resting []).run chunks' := by
  induction chunks generalizing tail with
  | nil =>
      refine ⟨[tail], ?_, run_opening h⟩
      rw [List.flatten_nil, List.append_nil, h.unmark_eq, List.flatten_singleton]
  | cons chunk chunks ih =>
      rw [List.flatten_cons, ← List.append_assoc]
      by_cases hopen : Opening (tail ++ chunk)
      · obtain ⟨chunks', hflat, hrun⟩ := ih hopen
        exact ⟨chunks', hflat, (run_hold tail hopen chunks).trans hrun⟩
      · refine ⟨unmark (tail ++ chunk) :: chunks, ?_, run_settle tail hopen chunks⟩
        rw [List.flatten_cons, not_opening_append hopen]

theorem opening_nil : Opening [] := by
  unfold Opening
  decide

theorem run_new_chunk (body : List UInt8) (chunks : List (List UInt8))
    (h : Opening body → chunks = []) :
    new.run (body :: chunks) = (new.resting []).run (unmark body :: chunks) := by
  change (unsettled []).run (body :: chunks) = _
  by_cases hopen : Opening body
  · rw [h hopen, run_hold [] hopen, List.nil_append, run_opening hopen, hopen.unmark_eq]
  · exact run_settle [] hopen chunks

/-- The lines of an input without its leading byte order mark. -/
def unmarkedLines (body : List UInt8) : List Line := lines (unmark body)

/-- Every run of the splitter is the lenient reading of the input's lines, or
lies between the strict and the lenient reading. -/
theorem run_cases (chunks : List (List UInt8)) :
    new.run chunks = splitAll false new (unmarkedLines chunks.flatten) ∨
      Between (new.run chunks) (splitAll true new (unmarkedLines chunks.flatten))
        (splitAll false new (unmarkedLines chunks.flatten)) := by
  obtain ⟨chunks', hflat, hrun⟩ := run_unsettled opening_nil chunks
  rw [List.nil_append] at hflat
  change new.run chunks = _ at hrun
  have hcr : new.afterCr = true → (unmark chunks.flatten).head? ≠ some lf := by simp [new]
  have h := checked_cases (reading_new_nil false) (Nat.zero_le _) chunks'
  rw [List.nil_append, hflat, whole_eq_splitAll false new _ hcr, whole_eq_splitAll true new _ hcr,
    ← run_resting (reading_new_nil false), ← hrun] at h
  exact h

/-- One chunk gives the lenient reading. -/
theorem run_whole (body : List UInt8) :
    new.run [body] = splitAll false new (unmarkedLines body) := by
  rw [run_new_chunk body [] (fun _ => rfl), run_resting (reading_new_nil false), unmarkedLines,
    ← whole_eq_splitAll false new _ (by simp [new]), whole]
  rfl

/-- The first bytes of the input and then one byte at a time. -/
def slowly (body : List UInt8) : List (List UInt8) := body.take 3 :: (body.drop 3).map ([·])

theorem flatten_slowly (body : List UInt8) : (slowly body).flatten = body := by
  rw [slowly, List.flatten_cons, ← List.flatMap_def, List.flatMap_singleton', List.take_append_drop]

/-- Single bytes give the strict reading. -/
theorem run_slowly (body : List UInt8) :
    new.run (slowly body) = splitAll true new (unmarkedLines body) := by
  have hbom : bom.length = 3 := by decide
  have hopen : Opening (body.take 3) → (body.drop 3).map ([·]) = [] := by
    intro h
    have hlt := h.1
    rw [List.length_take] at hlt
    rw [List.map_eq_nil_iff, List.drop_eq_nil_iff]
    omega
  have hlen : ([] ++ unmark (body.take 3)).length ≤ maxSseSplitBytes + 1 := by
    have hle : (unmark (body.take 3)).length ≤ (body.take 3).length := by
      unfold unmark
      cases hpre : bom.isPrefixOf? (body.take 3) with
      | none => exact Nat.le_refl _
      | some rest =>
          rw [← List.isPrefixOf?_eq_some_iff_append_eq.mp hpre]
          simp
    rw [List.length_take] at hle
    have : maxSseSplitBytes = 16 * 1024 * 1024 := rfl
    rw [List.nil_append]
    omega
  have hflat : unmark (body.take 3) ++ ((body.drop 3).map ([·])).flatten = unmark body := by
    by_cases h : Opening (body.take 3)
    · have hdrop := hopen h
      rw [hdrop, List.flatten_nil, List.append_nil]
      rw [List.map_eq_nil_iff, List.drop_eq_nil_iff] at hdrop
      rw [List.take_of_length_le hdrop]
    · rw [← not_opening_append h, ← List.flatten_cons]
      exact congrArg unmark (flatten_slowly body)
  have hsingle : ∀ c ∈ (body.drop 3).map ([·]), c.length ≤ 1 := by
    intro c hc
    obtain ⟨b, -, rfl⟩ := List.mem_map.mp hc
    exact Nat.le_refl 1
  rw [slowly, run_new_chunk _ _ hopen, run_resting (reading_new_nil false),
    checked_slow new [] _ _ hlen hsingle, List.nil_append, hflat, unmarkedLines,
    whole_eq_splitAll true new _ (by simp [new])]

end SseSplitterV1

end TokenStation.Sse
