import TokenStation.Sse.Chunking

/-!
# A body as a list of lines

Splitting a body at LF, CR and CRLF gives back exactly the lines the decoder
reads, whatever its buffer does. A run of the decoder is then a fold over
lines, and a consecutive group of lines is split again into itself.
-/

namespace TokenStation.Sse

open Library.Text Library.ChunkedReading

/-- One line with the terminator bytes that ended it, none at the end of input. -/
@[ext]
structure Line where
  text : List UInt8
  ending : List UInt8
  deriving DecidableEq, Repr

namespace Line

/-- The bytes of a line, its terminator included. -/
def bytes (l : Line) : List UInt8 := l.text ++ l.ending

end Line

/-- The bytes of consecutive lines. -/
def bytesOf (ls : List Line) : List UInt8 := ls.flatMap Line.bytes

@[simp] theorem bytesOf_nil : bytesOf [] = [] := rfl

@[simp] theorem bytesOf_cons (l : Line) (ls : List Line) :
    bytesOf (l :: ls) = l.text ++ (l.ending ++ bytesOf ls) := by
  simp [bytesOf, Line.bytes]

@[simp] theorem bytesOf_append (ls ms : List Line) :
    bytesOf (ls ++ ms) = bytesOf ls ++ bytesOf ms := by
  simp [bytesOf]

/-- The lines of a body whose first line has already begun. -/
def linesFrom (begun : List UInt8) : List UInt8 → List Line
  | [] => if begun = [] then [] else [⟨begun, []⟩]
  | b :: rest =>
      if b = lf then ⟨begun, [lf]⟩ :: linesFrom [] rest
      else if b = cr then
        match rest with
        | [] => [⟨begun, [cr]⟩]
        | c :: rest =>
            if c = lf then ⟨begun, [cr, lf]⟩ :: linesFrom [] rest
            else ⟨begun, [cr]⟩ :: linesFrom [] (c :: rest)
      else linesFrom (begun ++ [b]) rest

/-- The lines of a body; an unterminated last line is a line too. -/
def lines (body : List UInt8) : List Line := linesFrom [] body

/-- Bytes without CR and LF. -/
def Unbroken (text : List UInt8) : Prop := ∀ b ∈ text, b ≠ cr ∧ b ≠ lf

theorem terminator_eq_none_iff {text : List UInt8} : terminator text = none ↔ Unbroken text := by
  simp [terminator, Unbroken]

/-- A text without line ends. -/
def OneLine (s : String) : Prop := ∀ c ∈ s.toList, c ≠ '\r' ∧ c ≠ '\n'

/-- Fixed words are checked letter by letter. -/
theorem oneLine_of_all {s : String} (h : (s.toList.all fun c => c != '\r' && c != '\n') = true) :
    OneLine s := by
  intro c hc
  simpa using List.all_eq_true.mp h c hc

theorem OneLine.append {s t : String} (hs : OneLine s) (ht : OneLine t) : OneLine (s ++ t) := by
  intro c hc
  rw [String.toList_append, List.mem_append] at hc
  rcases hc with hc | hc
  · exact hs c hc
  · exact ht c hc

theorem OneLine.unbroken {s : String} (h : OneLine s) : Unbroken (bytes s) := by
  intro b hb
  constructor
  · rintro rfl
    obtain ⟨c, hc, hnat⟩ := ascii_mem_bytes hb (by decide)
    exact (h c hc).1 (Char.ext (UInt32.toNat_inj.mp hnat))
  · rintro rfl
    obtain ⟨c, hc, hnat⟩ := ascii_mem_bytes hb (by decide)
    exact (h c hc).2 (Char.ext (UInt32.toNat_inj.mp hnat))

theorem oneLine_of_printable {s : String} (h : ∀ c ∈ s.toList, ' ' ≤ c) : OneLine s := by
  intro c hc
  have hle := h c hc
  constructor <;> rintro rfl <;> revert hle <;> decide

@[simp] theorem linesFrom_nil (begun : List UInt8) :
    linesFrom begun [] = if begun = [] then [] else [⟨begun, []⟩] := rfl

@[simp] theorem linesFrom_lf (begun rest : List UInt8) :
    linesFrom begun (lf :: rest) = ⟨begun, [lf]⟩ :: linesFrom [] rest := by
  rw [linesFrom.eq_def]
  simp

@[simp] theorem linesFrom_crlf (begun rest : List UInt8) :
    linesFrom begun (cr :: lf :: rest) = ⟨begun, [cr, lf]⟩ :: linesFrom [] rest := by
  rw [linesFrom.eq_def]
  simp [cr, lf]

theorem linesFrom_cr (begun : List UInt8) {rest : List UInt8} (h : rest.head? ≠ some lf) :
    linesFrom begun (cr :: rest) = ⟨begun, [cr]⟩ :: linesFrom [] rest := by
  rw [linesFrom.eq_def]
  cases rest with
  | nil => simp [cr, lf]
  | cons c rest =>
      have hc : c ≠ lf := by simpa using h
      have hcr : cr ≠ lf := by decide
      simp [hc, hcr]

theorem linesFrom_other (begun rest : List UInt8) {b : UInt8} (h : b ≠ cr ∧ b ≠ lf) :
    linesFrom begun (b :: rest) = linesFrom (begun ++ [b]) rest := by
  rw [linesFrom.eq_def]
  simp [h.1, h.2]

theorem linesFrom_unbroken {text : List UInt8} (h : Unbroken text) (begun rest : List UInt8) :
    linesFrom begun (text ++ rest) = linesFrom (begun ++ text) rest := by
  induction text generalizing begun with
  | nil => simp
  | cons b text ih =>
      have htext : Unbroken text := fun c hc => h c (by simp [hc])
      rw [List.cons_append, linesFrom_other _ _ (h b (by simp)), ih htext]
      simp

/-- The terminator bytes a line may carry before `rest`: a CR followed by an LF
is never a terminator of its own. -/
def EndsBefore (ending rest : List UInt8) : Prop :=
  ending = [lf] ∨ ending = [cr, lf] ∨ (ending = [cr] ∧ rest.head? ≠ some lf)

/-- A terminated line is split off. -/
theorem lines_cons {l : Line} {rest : List UInt8} (htext : Unbroken l.text)
    (hending : EndsBefore l.ending rest) :
    lines (l.text ++ (l.ending ++ rest)) = l :: lines rest := by
  rcases l with ⟨text, ending⟩
  rw [lines, linesFrom_unbroken htext, List.nil_append]
  rcases hending with h | h | ⟨h, hhead⟩ <;> simp only at h <;> subst h
  · exact linesFrom_lf text rest
  · exact linesFrom_crlf text rest
  · exact linesFrom_cr text hhead

theorem lines_last {text : List UInt8} (htext : Unbroken text) (hne : text ≠ []) :
    lines text = [⟨text, []⟩] := by
  have h := linesFrom_unbroken htext [] []
  simp only [List.append_nil, List.nil_append] at h
  rw [lines, h, linesFrom_nil, if_neg hne]

theorem terminator_eq_some {rest : List UInt8} {n : Nat} (h : terminator rest = some n) :
    Unbroken (rest.take n) ∧ (rest[n]? = some cr ∨ rest[n]? = some lf) := by
  obtain ⟨hlt, hat, hbefore⟩ := List.findIdx?_eq_some_iff_getElem.mp h
  constructor
  · intro b hb
    obtain ⟨i, hi, rfl⟩ := List.getElem_of_mem hb
    rw [List.length_take] at hi
    simpa using hbefore i (by omega)
  · rw [List.getElem?_eq_getElem hlt]
    simpa using hat

/-- How many bytes the first line and its terminator take. -/
def lineUsed (rest : List UInt8) (n : Nat) : Nat :=
  n + if rest[n]? = some cr ∧ rest[n + 1]? = some lf then 2 else 1

/-- The first terminator splits a body into a line, its ending and the rest. -/
theorem exists_line {rest : List UInt8} {n : Nat} (h : terminator rest = some n) :
    ∃ l : Line, l.text = rest.take n ∧ l.text.length + l.ending.length = lineUsed rest n ∧
      EndsBefore l.ending (rest.drop (lineUsed rest n)) ∧
      rest = l.text ++ (l.ending ++ rest.drop (lineUsed rest n)) := by
  have hlt := terminator_lt h
  have hlen : (rest.take n).length = n := by rw [List.length_take]; omega
  have hdrop : rest.drop n = rest[n] :: rest.drop (n + 1) := List.drop_eq_getElem_cons hlt
  have hsplit : rest = rest.take n ++ rest[n] :: rest.drop (n + 1) := by
    rw [← hdrop, List.take_append_drop]
  have hhead : (rest.drop (n + 1)).head? = rest[n + 1]? := by
    rw [List.head?_drop]
  rcases (terminator_eq_some h).2 with hcr | hlf
  · have hb : rest[n] = cr := by simpa [List.getElem?_eq_getElem hlt] using hcr
    by_cases hnext : rest[n + 1]? = some lf
    · have hused : lineUsed rest n = n + 2 := by simp [lineUsed, hcr, hnext]
      obtain ⟨hlt₂, hb₂⟩ := List.getElem?_eq_some_iff.mp hnext
      refine ⟨⟨rest.take n, [cr, lf]⟩, rfl, by simp [hused, hlen], .inr (.inl rfl), ?_⟩
      rw [hused]
      conv_lhs => rw [hsplit, hb, List.drop_eq_getElem_cons hlt₂, hb₂]
      simp
    · have hused : lineUsed rest n = n + 1 := by simp [lineUsed, hnext]
      refine ⟨⟨rest.take n, [cr]⟩, rfl, by simp [hused, hlen], .inr (.inr ⟨rfl, ?_⟩), ?_⟩
      · rwa [hused, hhead]
      · rw [hused]
        conv_lhs => rw [hsplit, hb]
        simp
  · have hb : rest[n] = lf := by simpa [List.getElem?_eq_getElem hlt] using hlf
    have hused : lineUsed rest n = n + 1 := by
      have : ¬(rest[n]? = some cr ∧ rest[n + 1]? = some lf) := by
        rw [hlf]
        simp [cr, lf]
      simp [lineUsed, this]
    refine ⟨⟨rest.take n, [lf]⟩, rfl, by simp [hused, hlen], .inl rfl, ?_⟩
    rw [hused]
    conv_lhs => rw [hsplit, hb]
    simp

/-- Splitting a body off at its first terminator. -/
theorem lines_of_some {rest : List UInt8} {n : Nat} (h : terminator rest = some n) :
    ∃ l : Line, l.text = rest.take n ∧ l.text.length + l.ending.length = lineUsed rest n ∧
      lines rest = l :: lines (rest.drop (lineUsed rest n)) := by
  obtain ⟨l, htext, hlen, hends, hrest⟩ := exists_line h
  refine ⟨l, htext, hlen, ?_⟩
  have hunbroken : Unbroken l.text := htext ▸ (terminator_eq_some h).1
  conv_lhs => rw [hrest]
  exact lines_cons hunbroken hends

theorem lines_of_none {rest : List UInt8} (h : terminator rest = none) :
    lines rest = if rest = [] then [] else [⟨rest, []⟩] := by
  split
  · subst_vars
    rfl
  · exact lines_last (terminator_eq_none_iff.mp h) (by assumption)

/-- Interpret one line and move the position past it. -/
def stepLine (s : EventBuilder × Nat) (l : Line) :
    Trace (SseEventV1 × Nat) SseErrorV1 (EventBuilder × Nat) :=
  let end_ := s.2 + (l.text.length + l.ending.length)
  match s.1.line l.text with
  | (.error e, _) => .fail e
  | (.ok event, b) => .emit (event.toList.map fun e => (e, end_)) (b, end_)

/-- Interpret lines one after another. -/
def runLines (s : EventBuilder × Nat) : List Line →
    Trace (SseEventV1 × Nat) SseErrorV1 (EventBuilder × Nat)
  | [] => .pure s
  | l :: ls => (stepLine s l).bind fun s => runLines s ls

/-- Dispatch what is pending at the end of input. -/
def runEnd (s : EventBuilder × Nat) : Trace (SseEventV1 × Nat) SseErrorV1 Unit :=
  .emit (s.1.dispatch.1.toList.map fun e => (e, s.2)) ()

/-- Interpret all lines of an input and then its end. -/
def runAll (s : EventBuilder × Nat) (ls : List Line) : Trace (SseEventV1 × Nat) SseErrorV1 Unit :=
  (runLines s ls).bind runEnd

@[simp] theorem runAll_nil (s : EventBuilder × Nat) : runAll s [] = runEnd s := by
  simp [runAll, runLines]

@[simp] theorem runAll_cons (s : EventBuilder × Nat) (l : Line) (ls : List Line) :
    runAll s (l :: ls) = (stepLine s l).bind fun s => runAll s ls := by
  rw [runAll, runLines, Trace.bind_assoc]
  rfl

/-- A line that dispatches leaves nothing pending. -/
theorem EventBuilder.line_dispatched {b b' : EventBuilder} {l : List UInt8} {event : SseEventV1}
    (h : b.line l = (.ok (some event), b')) : b' = ⟨false, "", ""⟩ := by
  unfold EventBuilder.line at h
  split at h
  · simp at h
  · split at h
    · simp at h
    · unfold EventBuilder.text at h
      split at h
      · unfold EventBuilder.dispatch at h
        dsimp only at h
        split at h
        · simp at h
        · exact (Prod.mk.inj h).2.symm
      · dsimp only at h
        split_ifs at h <;> simp at h

theorem EventBuilder.line_too_long {b : EventBuilder} {l : List UInt8}
    (h : l.length > maxSseLineBytes) : b.line l = (.error .lineTooLong, b) := by
  simp [EventBuilder.line, h]

/-- The end of input reads a last line and then dispatches what is pending. -/
theorem closing_line {s : EventBuilder × Nat} {rest : List UInt8} {l : Line} (hne : rest ≠ [])
    (htext : (if rest.getLast? = some cr then rest.dropLast else rest) = l.text)
    (hlen : l.text.length + l.ending.length = rest.length) :
    SseDecoderV1.closing s rest = runAll s [l] := by
  unfold SseDecoderV1.closing
  simp only [if_neg hne, htext, runAll_cons, runAll_nil, stepLine, hlen]
  rcases h : s.1.line l.text with ⟨e | _ | event, b⟩
  · rfl
  · rfl
  · rw [EventBuilder.line_dispatched h]
    rfl

/-- Reading a body with the line reader and ending it interprets its lines. -/
theorem drain_eq_runAll (s : EventBuilder × Nat) (rest : List UInt8) :
    ((lineReader.drain s rest).bind fun p => SseDecoderV1.closing p.1 p.2) =
      runAll s (lines rest) := by
  cases hterm : terminator rest with
  | none =>
      rw [lines_of_none hterm]
      by_cases hnil : rest = []
      · subst hnil
        rw [if_pos rfl, lineReader.drain_more rfl, Trace.pure_bind, runAll_nil]
        simp [SseDecoderV1.closing, runEnd]
      · rw [if_neg hnil]
        by_cases hlong : rest.length > maxSseLineBytes
        · have hfail : lineReading s rest = .fail .lineTooLong := by
            simp [lineReading, hterm, hlong]
          rw [lineReader.drain_fail hfail]
          simp [stepLine, EventBuilder.line_too_long hlong]
        · have hmore : lineReading s rest = .more := by simp [lineReading, hterm, hlong]
          rw [lineReader.drain_more hmore, Trace.pure_bind]
          refine closing_line hnil (if_neg ?_) (by simp)
          intro hlast
          exact (terminator_eq_none_iff.mp hterm cr (List.mem_of_getLast? hlast)).1 rfl
  | some n =>
      obtain ⟨l, htext, hlen, hlines⟩ := lines_of_some hterm
      have hlt := terminator_lt hterm
      rw [hlines]
      by_cases hlong : n > maxSseLineBytes
      · have hfail : lineReading s rest = .fail .lineTooLong := by
          simp [lineReading, hterm, hlong]
        have htake : l.text.length > maxSseLineBytes := by
          rw [htext, List.length_take]
          omega
        rw [lineReader.drain_fail hfail]
        simp [stepLine, EventBuilder.line_too_long htake]
      · by_cases hwait : rest[n]? = some cr ∧ rest[n + 1]? = none
        · -- A final CR: the reader waits for the byte after it, which never comes.
          have hmore : lineReading s rest = .more := by
            simp only [lineReading, hterm, if_neg hlong, if_pos hwait]
          have hlast : rest.length = n + 1 := by
            have := List.getElem?_eq_none_iff.mp hwait.2
            omega
          have hused : lineUsed rest n = n + 1 := by simp [lineUsed, hwait]
          have hdrop : rest.drop (lineUsed rest n) = [] := List.drop_eq_nil_of_le (by omega)
          rw [lineReader.drain_more hmore, Trace.pure_bind, hdrop]
          change SseDecoderV1.closing s rest = runAll s [l]
          refine closing_line (List.ne_nil_of_length_pos (by omega)) ?_ (by omega)
          rw [if_pos, List.dropLast_eq_take, hlast, Nat.add_sub_cancel, htext]
          rw [List.getLast?_eq_getElem?, hlast, Nat.add_sub_cancel, hwait.1]
        · have hread : lineReading s rest = match s.1.line l.text with
              | (.error e, _) => .fail e
              | (.ok event, b) => .step (b, s.2 + lineUsed rest n) (lineUsed rest n)
                  (event.toList.map fun e => (e, s.2 + lineUsed rest n)) := by
            simp only [lineReading, hterm, if_neg hlong, if_neg hwait, htext]
            rcases s.1.line (rest.take n) with ⟨e | event, b⟩ <;> rfl
          rcases hline : s.1.line l.text with ⟨e | event, b⟩
          · rw [hline] at hread
            rw [lineReader.drain_fail hread]
            simp [stepLine, hline]
          · rw [hline] at hread
            have hpos := (lineReading_used hread).1
            rw [lineReader.drain_step hread, Trace.bind_assoc, runAll_cons]
            simp only [stepLine, hline, hlen, Trace.emit_bind,
              drain_eq_runAll _ (rest.drop (lineUsed rest n))]
termination_by rest.length
decreasing_by simp only [List.length_drop]; omega

/-- However the input is chunked, a run of the decoder interprets its lines. -/
theorem SseDecoderV1.run_eq_runAll (chunks : List (List UInt8)) :
    SseDecoderV1.new.run chunks = runAll (.new, 0) (lines chunks.flatten) := by
  rw [SseDecoderV1.run_new, drain_eq_runAll]

end TokenStation.Sse
