import TokenStation.Library.Decimals
import TokenStation.Library.TextBlocks
import TokenStation.Speech.WordCues

/-!
# Subtitle documents

Cues are written as an `srt` or a `vtt` document and read back as the public
formats say: blocks between empty lines. A document gives its cues back exactly
when no trimmed text has a carriage return or an empty line.
-/

namespace TokenStation.Speech

open Library Library.Decimals Library.TextBlocks

/-! ## Writing -/

section Rounding

-- How a product of doubles is rounded to a double; a product past all doubles stays large.
variable (toDouble : ℚ → ℚ)

/-- The milliseconds of a number of seconds; an unsigned 64-bit number saturates. -/
def cueMillis (seconds : ℚ) : Nat :=
  min (⌊toDouble (seconds * 1000) + 1 / 2⌋.toNat) (2 ^ 64 - 1)

/-- The text of a number of milliseconds. -/
def clockText (separator : Char) (millis : Nat) : List Char :=
  padded 2 (millis / 3600000) ++ [':'] ++ padded 2 (millis / 60000 % 60) ++ [':']
    ++ padded 2 (millis / 1000 % 60) ++ [separator] ++ padded 3 (millis % 1000)

def cueTime (seconds : ℚ) (separator : Char) : List Char :=
  clockText separator (cueMillis toDouble seconds)

def arrow : List Char := ['-', '-', '>']

def vttHeader : List Char := ['W', 'E', 'B', 'V', 'T', 'T']

def renderSubtitles (cues : List (Cue ℚ)) (vtt : Bool) : List Char :=
  let separator := if vtt then '.' else ','
  (if vtt then vttHeader ++ ['\n', '\n'] else [])
    ++ cues.zipIdx.flatMap fun cue =>
      (if vtt then [] else Nat.toDigits 10 (cue.2 + 1) ++ ['\n'])
        ++ (cueTime toDouble cue.1.start separator ++ [' '] ++ arrow ++ [' ']
          ++ cueTime toDouble cue.1.finish separator ++ ['\n']
          ++ trimWhiteSpace cue.1.text ++ ['\n', '\n'])

end Rounding

/-! ## Reading -/

/-- One cue as the formats show it; only `srt` has indexes. -/
structure ShownCue where
  index : Option Nat
  start : Nat
  finish : Nat
  text : List Char
deriving DecidableEq

/-- The number that digits of a length show. -/
def readDigits (allowed : Nat → Bool) (text : List Char) : Option Nat :=
  if text.all Char.isDigit && allowed text.length then some (natOf text) else none

/-- The milliseconds of a time: hours of two digits or more, minutes, seconds, milliseconds. -/
def readClock (separator : Char) (text : List Char) : Option Nat :=
  match text.splitOn ':' with
  | [hours, minutes, rest] =>
      match rest.splitOn separator with
      | [seconds, millis] => do
          let hours ← readDigits (2 ≤ ·) hours
          let minutes ← readDigits (· == 2) minutes
          let seconds ← readDigits (· == 2) seconds
          let millis ← readDigits (· == 3) millis
          if minutes < 60 ∧ seconds < 60 then
            some (((hours * 60 + minutes) * 60 + seconds) * 1000 + millis)
          else none
      | _ => none
  | _ => none

/-- The two times of a time line. -/
def readTimes (separator : Char) (line : List Char) : Option (Nat × Nat) :=
  match line.splitOn ' ' with
  | [start, middle, finish] =>
      if middle = arrow then do
        return (← readClock separator start, ← readClock separator finish)
      else none
  | _ => none

/-- A block behind its index line: a time line and the lines of the text. -/
def readTimed (separator : Char) (index : Option Nat) : List (List Char) → Option ShownCue
  | times :: lines => do
      let (start, finish) ← readTimes separator times
      return ⟨index, start, finish, joinLines lines⟩
  | [] => none

def readSrtBlock : List (List Char) → Option ShownCue
  | number :: lines => do readTimed ',' (some (← readDigits (1 ≤ ·) number)) lines
  | [] => none

/-- The cues of a document. -/
def readSubtitles (vtt : Bool) (document : List Char) : Option (List ShownCue) :=
  if vtt then
    match textBlocks document with
    | header :: blocks =>
        if header = [vttHeader] then blocks.mapM (readTimed '.' none) else none
    | [] => none
  else (textBlocks document).mapM readSrtBlock

/-- What a document should show: the cues in order, numbered from one. -/
def shownCues (toDouble : ℚ → ℚ) (cues : List (Cue ℚ)) (vtt : Bool) : List ShownCue :=
  cues.zipIdx.map fun cue =>
    ⟨if vtt then none else some (cue.2 + 1), cueMillis toDouble cue.1.start,
      cueMillis toDouble cue.1.finish, trimWhiteSpace cue.1.text⟩

/-! ## Lists of optional values -/

section Optional

variable {α β : Type} {f : α → Option β} {l : List α}

theorem mapM_all {g : α → β} (h : ∀ a ∈ l, f a = some (g a)) : l.mapM f = some (l.map g) := by
  induction l with
  | nil => rfl
  | cons a l ih =>
      rw [List.mapM_cons, h a (by simp), ih fun b hb => h b (List.mem_cons_of_mem _ hb)]
      rfl

theorem mem_of_mapM {bs : List β} (h : l.mapM f = some bs) {b : β} (hb : b ∈ bs) :
    ∃ a ∈ l, f a = some b := by
  induction l generalizing bs with
  | nil =>
      cases h
      cases hb
  | cons a l ih =>
      rw [List.mapM_cons] at h
      obtain ⟨first, hfirst, h⟩ := Option.bind_eq_some_iff.mp h
      obtain ⟨rest, hrest, h⟩ := Option.bind_eq_some_iff.mp h
      cases h
      rcases List.mem_cons.mp hb with rfl | hb
      · exact ⟨a, by simp, hfirst⟩
      · obtain ⟨other, hother, hvalue⟩ := ih hrest hb
        exact ⟨other, List.mem_cons_of_mem _ hother, hvalue⟩

end Optional

/-! ## Times -/

theorem readDigits_eq {allowed : Nat → Bool} {text : List Char} (hdigits : Digits text)
    (hallowed : allowed text.length = true) : readDigits allowed text = some (natOf text) := by
  rw [readDigits, if_pos]
  rw [Bool.and_eq_true, List.all_eq_true]
  exact ⟨hdigits, hallowed⟩

theorem readDigits_padded {width n : Nat} (hwidth : 0 < width) (h : n < 10 ^ width) :
    readDigits (· == width) (padded width n) = some n := by
  rw [readDigits_eq (digits_padded width n) (by simp [length_padded hwidth h]), natOf_padded]

theorem not_mem_padded {c : Char} (hc : c.isDigit = false) (width n : Nat) :
    c ∉ padded width n := by
  intro hmem
  have := digits_padded width n c hmem
  rw [hc] at this
  cases this

theorem splitOn_padded {c : Char} (hc : c.isDigit = false) (width n : Nat) (rest : List Char) :
    (padded width n ++ c :: rest).splitOn c = padded width n :: rest.splitOn c :=
  List.splitOn_append_cons_self_of_not_mem (not_mem_padded hc width n) rest

theorem readClock_clockText {separator : Char} (hdigit : separator.isDigit = false)
    (hcolon : separator ≠ ':') (millis : Nat) :
    readClock separator (clockText separator millis) = some millis := by
  have hseconds : ':' ∉ padded 2 (millis / 1000 % 60) ++ separator :: padded 3 (millis % 1000) := by
    rw [List.mem_append, List.mem_cons]
    rintro (hmem | hmem | hmem)
    · exact not_mem_padded rfl _ _ hmem
    · exact hcolon hmem.symm
    · exact not_mem_padded rfl _ _ hmem
  have hparts : (clockText separator millis).splitOn ':' =
      [padded 2 (millis / 3600000), padded 2 (millis / 60000 % 60),
        padded 2 (millis / 1000 % 60) ++ separator :: padded 3 (millis % 1000)] := by
    simp only [clockText, List.append_assoc, List.cons_append, List.nil_append]
    rw [splitOn_padded rfl, splitOn_padded rfl, List.splitOn_eq_singleton hseconds]
  have hrest : (padded 2 (millis / 1000 % 60) ++ separator :: padded 3 (millis % 1000)).splitOn
      separator = [padded 2 (millis / 1000 % 60), padded 3 (millis % 1000)] := by
    rw [splitOn_padded hdigit, List.splitOn_eq_singleton (not_mem_padded hdigit _ _)]
  have hhours : readDigits (2 ≤ ·) (padded 2 (millis / 3600000)) = some (millis / 3600000) := by
    rw [readDigits_eq (digits_padded _ _) (by simp [le_length_padded]), natOf_padded]
  unfold readClock
  simp only [hparts, hrest, hhours]
  rw [readDigits_padded (by decide) (by omega), readDigits_padded (by decide) (by omega),
    readDigits_padded (by decide) (by omega)]
  simp only [Option.bind_eq_bind, Option.bind_some]
  rw [if_pos (by omega)]
  exact congrArg some (by omega)

theorem space_not_mem_clockText {separator : Char} (h : separator ≠ ' ') (millis : Nat) :
    ' ' ∉ clockText separator millis := by
  simp only [clockText, List.mem_append, List.mem_singleton, not_or]
  refine ⟨⟨⟨⟨⟨⟨?_, by decide⟩, ?_⟩, by decide⟩, ?_⟩, h.symm⟩, ?_⟩ <;> exact not_mem_padded rfl _ _

/-- The separator of the seconds and the milliseconds. -/
def separatorOf (vtt : Bool) : Char := if vtt then '.' else ','

section Documents

variable (toDouble : ℚ → ℚ)

def timeLine (cue : Cue ℚ) (vtt : Bool) : List Char :=
  clockText (separatorOf vtt) (cueMillis toDouble cue.start) ++ ' ' :: (arrow ++ ' ' ::
    clockText (separatorOf vtt) (cueMillis toDouble cue.finish))

theorem readTimes_timeLine (cue : Cue ℚ) (vtt : Bool) :
    readTimes (separatorOf vtt) (timeLine toDouble cue vtt) =
      some (cueMillis toDouble cue.start, cueMillis toDouble cue.finish) := by
  have hspace : separatorOf vtt ≠ ' ' := by cases vtt <;> decide
  have hdigit : (separatorOf vtt).isDigit = false := by cases vtt <;> rfl
  have hcolon : separatorOf vtt ≠ ':' := by cases vtt <;> decide
  have hparts : (timeLine toDouble cue vtt).splitOn ' ' =
      [clockText (separatorOf vtt) (cueMillis toDouble cue.start), arrow,
        clockText (separatorOf vtt) (cueMillis toDouble cue.finish)] := by
    rw [timeLine, List.splitOn_append_cons_self_of_not_mem (space_not_mem_clockText hspace _),
      List.splitOn_append_cons_self_of_not_mem (by decide),
      List.splitOn_eq_singleton (space_not_mem_clockText hspace _)]
  simp only [readTimes, hparts, if_true, readClock_clockText hdigit hcolon]
  rfl

/-! ## The blocks of a document -/

/-- A cue as the text of its block. -/
def cueBlock (vtt : Bool) (cue : Cue ℚ × Nat) : List Char :=
  (if vtt then [] else Nat.toDigits 10 (cue.2 + 1) ++ ['\n'])
    ++ (timeLine toDouble cue.1 vtt ++ '\n' :: trimWhiteSpace cue.1.text)

/-- A document closes its blocks, behind the header of a `vtt` one. -/
theorem renderSubtitles_eq (cues : List (Cue ℚ)) (vtt : Bool) :
    renderSubtitles toDouble cues vtt =
      ((if vtt then [vttHeader] else []) ++ cues.zipIdx.map (cueBlock toDouble vtt)).flatMap
        closed := by
  cases vtt <;>
    simp [renderSubtitles, cueBlock, closed, timeLine, cueTime, separatorOf, List.flatMap_map]

theorem cue_printable {c : Char} (hdigit : c.isDigit = false)
    (hmarks : c ∉ [' ', '-', '>', ':', '.', ',']) (cue : Cue ℚ) (vtt : Bool) :
    c ∉ timeLine toDouble cue vtt := by
  simp only [List.mem_cons, List.not_mem_nil, or_false, not_or] at hmarks
  obtain ⟨hspace, hdash, hangle, hcolon, hdot, hcomma⟩ := hmarks
  have hseparator : c ≠ separatorOf vtt := by cases vtt <;> assumption
  have hclock : ∀ millis, c ∉ clockText (separatorOf vtt) millis := by
    intro millis
    simp only [clockText, List.mem_append, List.mem_singleton, not_or]
    exact ⟨⟨⟨⟨⟨⟨not_mem_padded hdigit _ _, hcolon⟩, not_mem_padded hdigit _ _⟩, hcolon⟩,
      not_mem_padded hdigit _ _⟩, hseparator⟩, not_mem_padded hdigit _ _⟩
  simp only [timeLine, arrow, List.mem_append, List.mem_cons, List.not_mem_nil, or_false, not_or]
  exact ⟨hclock _, hspace, ⟨hdash, hdash, hangle⟩, hspace, hclock _⟩

theorem timeLine_ne_nil (cue : Cue ℚ) (vtt : Bool) : timeLine toDouble cue vtt ≠ [] := by
  simp [timeLine]

theorem not_mem_toDigits {c : Char} (hc : c.isDigit = false) (n : Nat) :
    c ∉ Nat.toDigits 10 n := by
  intro hmem
  rw [Nat.isDigit_of_mem_toDigits (by decide) (by decide) hmem] at hc
  cases hc

/-- The lines of a cue. -/
theorem splitOn_cueBlock (vtt : Bool) (cue : Cue ℚ × Nat) :
    (cueBlock toDouble vtt cue).splitOn '\n' =
      (if vtt then [] else [Nat.toDigits 10 (cue.2 + 1)]) ++
        timeLine toDouble cue.1 vtt :: (trimWhiteSpace cue.1.text).splitOn '\n' := by
  have htimes := List.splitOn_append_cons_self_of_not_mem
    (@cue_printable toDouble '\n' rfl (by decide) cue.1 vtt) (trimWhiteSpace cue.1.text)
  cases vtt with
  | true => simpa [cueBlock] using htimes
  | false =>
      have hindex := List.splitOn_append_cons_self_of_not_mem
        (@not_mem_toDigits '\n' rfl (cue.2 + 1))
        (timeLine toDouble cue.1 false ++ '\n' :: trimWhiteSpace cue.1.text)
      rw [htimes] at hindex
      simpa [cueBlock] using hindex

/-- A text that holds together makes a block that does. -/
theorem oneBlock_cueBlock {vtt : Bool} {cue : Cue ℚ × Nat}
    (h : OneBlock (trimWhiteSpace cue.1.text)) : OneBlock (cueBlock toDouble vtt cue) := by
  constructor
  · rw [cueBlock, List.mem_append, List.mem_append, List.mem_cons, not_or, not_or, not_or]
    refine ⟨?_, cue_printable toDouble rfl (by decide) cue.1 vtt, by decide, h.1⟩
    cases vtt with
    | true => simp
    | false =>
        rw [if_neg Bool.false_ne_true, List.mem_append, not_or]
        exact ⟨not_mem_toDigits rfl _, by decide⟩
  · rw [splitOn_cueBlock, List.mem_append, List.mem_cons, not_or, not_or]
    refine ⟨?_, (timeLine_ne_nil toDouble cue.1 vtt).symm, h.2⟩
    cases vtt with
    | true => simp
    | false => simp [Nat.toDigits_ne_nil]

/-- What a cue shows. -/
def shownCue (vtt : Bool) (cue : Cue ℚ × Nat) : ShownCue :=
  ⟨if vtt then none else some (cue.2 + 1), cueMillis toDouble cue.1.start,
    cueMillis toDouble cue.1.finish, trimWhiteSpace cue.1.text⟩

theorem readTimed_cue (vtt : Bool) (index : Option Nat) (cue : Cue ℚ) :
    readTimed (separatorOf vtt) index
        (timeLine toDouble cue vtt :: (trimWhiteSpace cue.text).splitOn '\n') =
      some ⟨index, cueMillis toDouble cue.start, cueMillis toDouble cue.finish,
        trimWhiteSpace cue.text⟩ := by
  rw [readTimed, readTimes_timeLine]
  simp only [joinLines, List.intercalate_splitOn]
  rfl

theorem readSrtBlock_cue (cue : Cue ℚ × Nat) :
    readSrtBlock ((cueBlock toDouble false cue).splitOn '\n') =
      some (shownCue toDouble false cue) := by
  have hindex : readDigits (1 ≤ ·) (Nat.toDigits 10 (cue.2 + 1)) = some (cue.2 + 1) := by
    rw [readDigits_eq (fun c hc => Nat.isDigit_of_mem_toDigits (by decide) (by decide) hc)
      (decide_eq_true Nat.length_toDigits_pos)]
    exact congrArg some Nat.ofDigitChars_ten_toDigits
  have htimed := readTimed_cue toDouble false (some (cue.2 + 1)) cue.1
  have hcomma : separatorOf false = ',' := rfl
  rw [hcomma] at htimed
  rw [splitOn_cueBlock, if_neg Bool.false_ne_true, List.singleton_append, readSrtBlock, hindex,
    Option.bind_eq_bind, Option.bind_some, htimed, shownCue, if_neg Bool.false_ne_true]

theorem readVttBlock_cue (cue : Cue ℚ × Nat) :
    readTimed '.' none ((cueBlock toDouble true cue).splitOn '\n') =
      some (shownCue toDouble true cue) := by
  have htimed := readTimed_cue toDouble true none cue.1
  have hdot : separatorOf true = '.' := rfl
  rw [hdot] at htimed
  rw [splitOn_cueBlock, if_pos rfl, List.nil_append, htimed, shownCue, if_pos rfl]

/-- Cues whose texts hold together are read back. -/
theorem readSubtitles_render (vtt : Bool) {cues : List (Cue ℚ)}
    (h : ∀ cue ∈ cues, OneBlock (trimWhiteSpace cue.text)) :
    readSubtitles vtt (renderSubtitles toDouble cues vtt) = some (shownCues toDouble cues vtt) := by
  have hblocks : ∀ block ∈ cues.zipIdx.map (cueBlock toDouble vtt), OneBlock block := by
    intro block hblock
    obtain ⟨cue, hcue, rfl⟩ := List.mem_map.mp hblock
    exact oneBlock_cueBlock toDouble (h cue.1 (List.fst_mem_of_mem_zipIdx hcue))
  have hread : ∀ read : List (List Char) → Option ShownCue,
      (∀ cue, read ((cueBlock toDouble vtt cue).splitOn '\n') = some (shownCue toDouble vtt cue)) →
        ((cues.zipIdx.map (cueBlock toDouble vtt)).map fun text => text.splitOn '\n').mapM read =
          some (shownCues toDouble cues vtt) := by
    intro read hcue
    rw [List.mapM_map, List.mapM_map]
    exact mapM_all fun cue _ => hcue cue
  rw [readSubtitles, renderSubtitles_eq]
  cases vtt with
  | true =>
      have hheader : vttHeader.splitOn '\n' = [vttHeader] :=
        List.splitOn_eq_singleton (by decide)
      have hone : OneBlock vttHeader := ⟨by decide, by rw [hheader]; decide⟩
      rw [if_pos rfl, if_pos rfl, List.singleton_append,
        textBlocks_closed (List.forall_mem_cons.mpr ⟨hone, hblocks⟩), List.map_cons, hheader]
      exact hread _ (readVttBlock_cue toDouble)
  | false =>
      rw [if_neg Bool.false_ne_true, if_neg Bool.false_ne_true, List.nil_append,
        textBlocks_closed hblocks]
      exact hread _ (readSrtBlock_cue toDouble)

end Documents

/-! ## What a document can show -/

theorem readTimed_text {separator : Char} {index : Option Nat} {block : List (List Char)}
    {shown : ShownCue} (h : readTimed separator index block = some shown) :
    ∃ times lines, block = times :: lines ∧ shown.text = joinLines lines := by
  cases block with
  | nil => cases h
  | cons times lines =>
      obtain ⟨parts, -, hshown⟩ := Option.bind_eq_some_iff.mp h
      cases hshown
      exact ⟨times, lines, rfl, rfl⟩

/-- A cue of a document shows the lines of a block. -/
theorem readSubtitles_text {vtt : Bool} {document : List Char} {shown : List ShownCue}
    (h : readSubtitles vtt document = some shown) {cue : ShownCue} (hcue : cue ∈ shown) :
    ∃ front lines, front ++ lines ∈ textBlocks document ∧ cue.text = joinLines lines := by
  cases vtt with
  | true =>
      rw [readSubtitles, if_pos rfl] at h
      cases hblocks : textBlocks document with
      | nil => rw [hblocks] at h; cases h
      | cons header blocks =>
          rw [hblocks] at h
          have hheader : header = [vttHeader] := by
            by_contra hother
            simp [hother] at h
          simp only [if_pos hheader] at h
          obtain ⟨block, hblock, hread⟩ := mem_of_mapM h hcue
          obtain ⟨times, lines, rfl, htext⟩ := readTimed_text hread
          exact ⟨[times], lines, List.mem_cons_of_mem _ hblock, htext⟩
  | false =>
      rw [readSubtitles, if_neg Bool.false_ne_true] at h
      obtain ⟨block, hblock, hread⟩ := mem_of_mapM h hcue
      cases block with
      | nil => cases hread
      | cons number rest =>
          obtain ⟨index, -, hread⟩ := Option.bind_eq_some_iff.mp hread
          obtain ⟨times, lines, rfl, htext⟩ := readTimed_text hread
          exact ⟨[number, times], lines, hblock, htext⟩

/-- No document shows a text with a carriage return or an empty line. -/
theorem oneBlock_of_shown {vtt : Bool} {document : List Char} {shown : List ShownCue}
    (h : readSubtitles vtt document = some shown) {cue : ShownCue} (hcue : cue ∈ shown)
    (hne : cue.text ≠ []) : OneBlock cue.text := by
  obtain ⟨front, lines, hblock, htext⟩ := readSubtitles_text h hcue
  have hlines : lines ≠ [] := by
    rintro rfl
    exact hne htext
  rw [htext]
  exact oneBlock_joinLines hlines fun line hline =>
    textBlocks_lines hblock (List.mem_append_right _ hline)

/-- A document gives its cues back, numbered, with their times and their trimmed texts,
exactly when no trimmed text has a carriage return or an empty line. -/
theorem subtitles_read_back_iff (toDouble : ℚ → ℚ) (vtt : Bool) (cues : List (Cue ℚ))
    (hne : ∀ cue ∈ cues, trimWhiteSpace cue.text ≠ []) :
    readSubtitles vtt (renderSubtitles toDouble cues vtt) =
        some (shownCues toDouble cues vtt) ↔
      ∀ cue ∈ cues, '\r' ∉ trimWhiteSpace cue.text ∧
        [] ∉ (trimWhiteSpace cue.text).splitOn '\n' := by
  constructor
  · intro h cue hcue
    obtain ⟨i, hi, rfl⟩ := List.getElem_of_mem hcue
    have hshown : shownCue toDouble vtt (cues[i], i) ∈ shownCues toDouble cues vtt :=
      List.mem_map_of_mem (List.mem_zipIdx_iff_getElem?.mpr (List.getElem?_eq_getElem hi))
    exact oneBlock_of_shown h hshown (hne _ hcue)
  · exact readSubtitles_render toDouble vtt

/-- Two lines of text come back; with an empty line between them they do not. -/
theorem empty_line_parts_cue :
    readSubtitles false (renderSubtitles id [⟨0, 1, ['a', '\n', 'b']⟩] false) =
        some (shownCues id [⟨0, 1, ['a', '\n', 'b']⟩] false) ∧
      readSubtitles true (renderSubtitles id [⟨0, 1, ['a', '\n', '\n', 'b']⟩] true) ≠
        some (shownCues id [⟨0, 1, ['a', '\n', '\n', 'b']⟩] true) := by
  have hlines : trimWhiteSpace ['a', '\n', 'b'] = ['a', '\n', 'b'] := by decide
  have hblank : trimWhiteSpace ['a', '\n', '\n', 'b'] = ['a', '\n', '\n', 'b'] := by decide
  constructor
  · refine (subtitles_read_back_iff id false _ ?_).mpr ?_
    · rw [List.forall_mem_singleton, hlines]
      decide
    · rw [List.forall_mem_singleton, hlines]
      decide
  · intro h
    have hone := (subtitles_read_back_iff id true _ (by
      rw [List.forall_mem_singleton, hblank]
      decide)).mp h
    rw [List.forall_mem_singleton, hblank] at hone
    exact hone.2 (by decide)

end TokenStation.Speech
