import TokenStation.Library.GreedySplit
import TokenStation.Library.Whitespace

/-!
# Subtitle cues from timed words

Timed words are grouped into cues in one pass: a cue closes before a word that
does not fit it, after a word that ends a sentence, and at the end. The cues are
those of the one split of the words that the stated rule allows.
-/

namespace TokenStation.Speech

open Library

/-- One subtitle cue; its text is untrimmed. -/
structure Cue (Time : Type) where
  start : Time
  finish : Time
  text : List Char
deriving DecidableEq

/-- One timed word, with the spacing before it. -/
structure Word (Speaker : Type) where
  text : List Char
  start : ℚ
  finish : ℚ
  speaker : Option Speaker
  spacingBefore : List Char

def cueGapSeconds : ℚ := 1
def cueMaxSeconds : ℚ := 7
def cueMaxCharacters : Nat := 84
def cueSentenceEnd : List Char := ['.', '!', '?', '\u3002', '\uFF01', '\uFF1F']

/-- Whether a text ends, trailing white space aside, in sentence punctuation. -/
def endsSentence (text : List Char) : Bool :=
  ((text.rdropWhile isWhiteSpace).getLast?).any fun c => cueSentenceEnd.contains c

section Pass

variable {Speaker : Type} [BEq Speaker]

/-- The cues closed so far and the open one, with the speaker it started with. -/
abbrev CueState (Speaker : Type) := List (Cue ℚ) × Option (Cue ℚ × Option Speaker)

/-- What the pass does with one word. -/
def takeWord (state : CueState Speaker) (word : Word Speaker) : CueState Speaker :=
  let (cues, opened) : CueState Speaker :=
    match state with
    | (cues, some (cue, speaker)) =>
        let candidate := cue.text ++ word.spacingBefore ++ word.text
        let closes := decide (cueGapSeconds ≤ word.start - cue.finish)
          || word.speaker != speaker
          || decide (cueMaxSeconds < word.finish - cue.start)
          || decide (cueMaxCharacters < (trimWhiteSpace candidate).length)
        if closes then (cues ++ [cue], none)
        else (cues, some ({ cue with text := candidate, finish := word.finish }, speaker))
    | (cues, none) => (cues, none)
  let opened := opened.getD (⟨word.start, word.finish, word.text⟩, word.speaker)
  if endsSentence word.text then (cues ++ [opened.1], none) else (cues, some opened)

def wordCues (words : List (Word Speaker)) : List (Cue ℚ) :=
  let (cues, opened) := words.foldl takeWord ([], none)
  cues ++ (opened.map Prod.fst).toList

/-! ## The rule -/

/-- The text of words joined by their own spacing. -/
def joinedText : List (Word Speaker) → List Char
  | [] => []
  | first :: rest => first.text ++ rest.flatMap fun word => word.spacingBefore ++ word.text

/-- Whether a word opens a new group behind a group. -/
def opensCue (group : List (Word Speaker)) (word : Word Speaker) : Prop :=
  match group.head?, group.getLast? with
  | some first, some last =>
      endsSentence last.text = true
        ∨ cueGapSeconds ≤ word.start - last.finish
        ∨ (word.speaker != first.speaker) = true
        ∨ cueMaxSeconds < word.finish - first.start
        ∨ cueMaxCharacters < (trimWhiteSpace (joinedText (group ++ [word]))).length
  | _, _ => False

instance (group : List (Word Speaker)) (word : Word Speaker) : Decidable (opensCue group word) := by
  unfold opensCue
  split <;> infer_instance

/-- The cue of a group: from the start of its first word to the end of its last. -/
def cueOf (first : Word Speaker) (rest : List (Word Speaker)) : Cue ℚ :=
  ⟨first.start, (rest.getLastD first).finish, joinedText (first :: rest)⟩

def groupCue : List (Word Speaker) → Option (Cue ℚ)
  | [] => none
  | first :: rest => some (cueOf first rest)

omit [BEq Speaker] in
theorem filterMap_groupCue (first : Word Speaker) (rest : List (Word Speaker))
    (groups : List (List (Word Speaker))) : ((first :: rest) :: groups).filterMap groupCue =
      cueOf first rest :: groups.filterMap groupCue := rfl

omit [BEq Speaker] in
theorem joinedText_snoc (first word : Word Speaker) (rest : List (Word Speaker)) :
    joinedText (first :: rest ++ [word])
      = joinedText (first :: rest) ++ word.spacingBefore ++ word.text := by
  simp [joinedText]

omit [BEq Speaker] in
theorem cueOf_snoc (first word : Word Speaker) (rest : List (Word Speaker)) :
    cueOf first (rest ++ [word])
      = ⟨first.start, word.finish, joinedText (first :: rest) ++ word.spacingBefore ++ word.text⟩ := by
  rw [← joinedText_snoc]
  simp [cueOf, joinedText]

/-! ## The pass follows the rule -/

/-- The state of the pass behind the words of an unfinished group. -/
def stateOf (cues : List (Cue ℚ)) (first : Word Speaker) (rest : List (Word Speaker)) :
    CueState Speaker :=
  if endsSentence (rest.getLastD first).text then (cues ++ [cueOf first rest], none)
  else (cues, some (cueOf first rest, first.speaker))

theorem takeWord_none (cues : List (Cue ℚ)) (word : Word Speaker) :
    takeWord (cues, none) word = stateOf cues word [] := by
  simp [takeWord, stateOf, cueOf, joinedText]

theorem takeWord_stateOf (cues : List (Cue ℚ)) (first word : Word Speaker)
    (rest : List (Word Speaker)) :
    takeWord (stateOf cues first rest) word =
      if opensCue (first :: rest) word then stateOf (cues ++ [cueOf first rest]) word []
      else stateOf cues first (rest ++ [word]) := by
  have hlast : (first :: rest).getLast? = some (rest.getLastD first) := by
    rw [List.getLast?_cons, List.getLastD_eq_getLast?]
  unfold stateOf
  by_cases hends : endsSentence (rest.getLastD first).text = true
  · have hopens : opensCue (first :: rest) word := by
      rw [opensCue, List.head?_cons, hlast]
      exact .inl hends
    rw [if_pos hends, if_pos hopens, takeWord_none]
    rfl
  · have hcloses : opensCue (first :: rest) word ↔
        (decide (cueGapSeconds ≤ word.start - (cueOf first rest).finish)
          || word.speaker != first.speaker
          || decide (cueMaxSeconds < word.finish - (cueOf first rest).start)
          || decide (cueMaxCharacters < (trimWhiteSpace
              ((cueOf first rest).text ++ word.spacingBefore ++ word.text)).length)) = true := by
      simp only [Bool.or_eq_true, decide_eq_true_eq, or_assoc]
      simp only [opensCue, List.head?_cons, hlast, hends, joinedText_snoc, false_or, cueOf,
        Bool.false_eq_true]
    rw [if_neg hends]
    by_cases hopens : opensCue (first :: rest) word
    · rw [if_pos hopens]
      simp only [takeWord, if_pos (hcloses.mp hopens), Option.getD_none]
      simp [cueOf, joinedText]
    · rw [if_neg hopens]
      have hnot := fun h => hopens (hcloses.mpr h)
      have hnext : (rest ++ [word]).getLastD first = word := by simp
      simp only [takeWord, if_neg hnot, Option.getD_some, hnext, cueOf_snoc]
      rfl

/-- The cues of a state, the open one included. -/
def CueState.all (state : CueState Speaker) : List (Cue ℚ) :=
  state.1 ++ (state.2.map Prod.fst).toList

omit [BEq Speaker] in
theorem all_stateOf (cues : List (Cue ℚ)) (first : Word Speaker) (rest : List (Word Speaker)) :
    (stateOf cues first rest).all = cues ++ [cueOf first rest] := by
  unfold stateOf
  split <;> simp [CueState.all]

theorem foldl_takeWord (cues : List (Cue ℚ)) (first : Word Speaker) (rest words : List (Word Speaker)) :
    (words.foldl takeWord (stateOf cues first rest)).all
      = cues ++ (groupsFrom opensCue (first :: rest) words).filterMap groupCue := by
  induction words generalizing cues first rest with
  | nil => simp [groupsFrom, all_stateOf, groupCue]
  | cons word words ih =>
      rw [List.foldl_cons, takeWord_stateOf, groupsFrom]
      split
      · rw [ih, filterMap_groupCue, List.append_assoc]
        rfl
      · exact ih cues first (rest ++ [word])

theorem wordCues_eq (words : List (Word Speaker)) :
    wordCues words = (greedyGroups opensCue words).filterMap groupCue := by
  cases words with
  | nil => rfl
  | cons word words =>
      have h := foldl_takeWord [] word [] words
      rw [← takeWord_none] at h
      exact h

/-- The cues are those of the one split of the words in which a word opens a new
group exactly when the rule says so. -/
theorem word_cues_partition (words : List (Word Speaker)) :
    ∃ groups, SplitsBy opensCue words groups
      ∧ (∀ other, SplitsBy opensCue words other → other = groups)
      ∧ (wordCues words).map some = groups.map groupCue := by
  have hsplits : SplitsBy opensCue words (greedyGroups opensCue words) :=
    splitsBy_greedyGroups words
  refine ⟨_, hsplits, fun other h => h.eq_greedyGroups, ?_⟩
  rw [wordCues_eq]
  have hcues : ∀ groups : List (List (Word Speaker)), (∀ group ∈ groups, group ≠ []) →
      (groups.filterMap groupCue).map some = groups.map groupCue := by
    intro groups hne
    induction groups with
    | nil => rfl
    | cons group groups ih =>
        obtain ⟨first, rest, rfl⟩ := List.exists_cons_of_ne_nil (hne group (by simp))
        rw [filterMap_groupCue, List.map_cons, List.map_cons, ih fun g hg => hne g (by simp [hg])]
        rfl
  exact hcues _ hsplits.nonempty

end Pass

end TokenStation.Speech
