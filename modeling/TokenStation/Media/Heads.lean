import TokenStation.Media.Elide
import TokenStation.Media.JsonParse

/-!
# What declared paths and heads mean

A declared path is a list of reference tokens that cover the steps to a string, and
the head of a blob is the longest prefix that fits.
-/

namespace TokenStation.Media

open Library.Checked Library.Text Library.Json

/-! ## Paths -/

/-- What a segment stands for in a path. -/
inductive Segment.Covers : Segment → PathStep → Prop
  | any (step : PathStep) : Covers .any step
  | key (name : String) : Covers (.exact name) (.key name)
  | index (position : Nat) : Covers (.exact (toString position)) (.index position)

/-- A reference token and the text it spells. -/
inductive TokenText : List Char → List Char → Prop
  | nil : TokenText [] []
  | tilde {raw text : List Char} (h : TokenText raw text) : TokenText ('~' :: '0' :: raw) ('~' :: text)
  | slash {raw text : List Char} (h : TokenText raw text) : TokenText ('~' :: '1' :: raw) ('/' :: text)
  | plain {c : Char} (hc : c ≠ '~') {raw text : List Char} (h : TokenText raw text) :
      TokenText (c :: raw) (c :: text)

/-- A token and the segment it declares; `*` alone covers any step. -/
inductive SegmentText : List Char → Segment → Prop
  | any : SegmentText ['*'] .any
  | exact {raw text : List Char} (hraw : raw ≠ ['*']) (h : TokenText raw text) :
      SegmentText raw (.exact (String.ofList text))

/-- Each token of the pattern, one after every slash, covers a step of the path. -/
def PathPatternV1.Matches (pattern : PathPatternV1) (path : List PathStep) : Prop :=
  ∃ tokens segments, tokens ≠ [] ∧ (∀ token ∈ tokens, '/' ∉ token) ∧
    pattern.text.toList = '/' :: ['/'].intercalate tokens ∧
    List.Forall₂ SegmentText tokens segments ∧ List.Forall₂ Segment.Covers segments path

theorem Segment.accepts_iff {segment : Segment} {step : PathStep} :
    segment.accepts step = true ↔ segment.Covers step := by
  constructor
  · intro h
    cases segment with
    | any => exact .any step
    | exact key =>
        cases step with
        | key name =>
            obtain rfl := beq_iff_eq.mp h
            exact .key key
        | index position =>
            obtain rfl := beq_iff_eq.mp h
            exact .index position
  · rintro (_ | _ | _)
    · rfl
    · exact beq_self_eq_true _
    · exact beq_self_eq_true _

theorem PathPatternV1.accepts_eq_true {pattern : PathPatternV1} {path : List PathStep} :
    pattern.accepts path = true ↔ List.Forall₂ Segment.Covers pattern.segments path := by
  unfold PathPatternV1.accepts
  generalize pattern.segments = segments
  induction segments generalizing path with
  | nil => cases path <;> simp
  | cons segment segments ih =>
      cases path with
      | nil => simp
      | cons step path =>
          rw [List.forall₂_cons, ← Segment.accepts_iff, ← ih]
          simp [and_left_comm]

theorem unescapeToken_sound : ∀ {raw text : List Char}, unescapeToken raw = some text →
    TokenText raw text := by
  intro raw
  induction raw using unescapeToken.induct with
  | case1 rest ih =>
      intro text h
      obtain ⟨spelled, hrest, rfl⟩ := Option.map_eq_some_iff.mp h
      exact .tilde (ih hrest)
  | case2 rest ih =>
      intro text h
      obtain ⟨spelled, hrest, rfl⟩ := Option.map_eq_some_iff.mp h
      exact .slash (ih hrest)
  | case3 rest hzero hone =>
      intro text h
      rw [unescapeToken] at h
      · cases h
      · exact hzero
      · exact hone
  | case4 c rest hzero hone htilde ih =>
      intro text h
      rw [unescapeToken] at h
      · obtain ⟨spelled, hrest, rfl⟩ := Option.map_eq_some_iff.mp h
        exact .plain htilde (ih hrest)
      · exact hzero
      · exact hone
      · exact htilde
  | case5 =>
      intro text h
      obtain rfl := Option.some.inj h
      exact .nil

theorem unescapeToken_complete {raw text : List Char} (h : TokenText raw text) :
    unescapeToken raw = some text := by
  induction h with
  | nil => rfl
  | tilde h ih => rw [unescapeToken, ih, Option.map_some]
  | slash h ih => rw [unescapeToken, ih, Option.map_some]
  | plain hc h ih =>
      rw [unescapeToken, ih, Option.map_some]
      · intro rest hcontra
        exact absurd hcontra hc
      · intro rest hcontra
        exact absurd hcontra hc
      · exact hc

theorem segmentOf_iff {raw : List Char} {segment : Segment} :
    segmentOf raw = some segment ↔ SegmentText raw segment := by
  unfold segmentOf
  constructor
  · intro h
    split at h
    · next hraw =>
        obtain rfl := Option.some.inj h
        rw [hraw]
        exact .any
    · next hraw =>
        obtain ⟨text, htoken, rfl⟩ := Option.map_eq_some_iff.mp h
        exact .exact hraw (unescapeToken_sound htoken)
  · rintro (_ | ⟨hraw, htoken⟩)
    · rfl
    · rw [if_neg hraw, unescapeToken_complete htoken, Option.map_some]

theorem mapM_eq_some_iff {α β : Type} {f : α → Option β} {l : List α} {m : List β} :
    l.mapM f = some m ↔ List.Forall₂ (fun a b => f a = some b) l m := by
  induction l generalizing m with
  | nil =>
      rw [List.mapM_nil, List.forall₂_nil_left_iff]
      exact ⟨fun h => (Option.some.inj h).symm, fun h => h ▸ rfl⟩
  | cons a l ih =>
      rw [List.mapM_cons, List.forall₂_cons_left_iff, Option.bind_eq_bind,
        Option.bind_eq_some_iff]
      constructor
      · rintro ⟨b, hb, hrest⟩
        obtain ⟨bs, hbs, hm⟩ := Option.bind_eq_some_iff.mp hrest
        exact ⟨b, bs, hb, ih.mp hbs, (Option.some.inj hm).symm⟩
      · rintro ⟨b, bs, hb, hbs, rfl⟩
        exact ⟨b, hb, Option.bind_eq_some_iff.mpr ⟨bs, ih.mpr hbs, rfl⟩⟩

theorem not_mem_splitOn {α : Type} [DecidableEq α] {x : α} {l : List α} :
    ∀ piece ∈ l.splitOn x, x ∉ piece := by
  induction l with
  | nil => simp
  | cons y l ih =>
      rw [List.splitOn_cons_eq_if_modifyHead]
      split
      · intro piece hpiece
        rcases List.mem_cons.mp hpiece with rfl | hpiece
        · exact List.not_mem_nil
        · exact ih piece hpiece
      · next hne =>
          intro piece hpiece
          obtain ⟨first, rest, hsplit⟩ := List.exists_cons_of_ne_nil (List.splitOn_ne_nil x l)
          rw [hsplit] at hpiece ih
          rcases List.mem_cons.mp hpiece with rfl | hpiece
          · have hfirst := ih first List.mem_cons_self
            have hxy : x ≠ y := fun hxy => hne (beq_iff_eq.mpr hxy.symm)
            exact List.not_mem_cons_of_ne_of_not_mem hxy hfirst
          · exact ih piece (List.mem_cons_of_mem _ hpiece)

/-- The tokens of a pattern's text are its segments' and no others'. -/
theorem PathPatternV1.segments_iff (pattern : PathPatternV1) (segments : List Segment) :
    (∃ tokens, tokens ≠ [] ∧ (∀ token ∈ tokens, '/' ∉ token) ∧
      pattern.text.toList = '/' :: ['/'].intercalate tokens ∧
      List.Forall₂ SegmentText tokens segments) ↔ pattern.segments = segments := by
  have h := pattern.parsed
  unfold segmentsOf at h
  split at h
  · cases h
  · next hguard =>
      obtain ⟨-, -, hhead⟩ := not_or.mp hguard |>.imp id not_or.mp
      obtain ⟨tail, htail⟩ := List.head?_eq_some_iff.mp (not_not.mp hhead)
      rw [htail, List.tail_cons] at h
      constructor
      · rintro ⟨tokens, hne, hslash, htext, htokens⟩
        rw [htail, List.cons.injEq] at htext
        rw [htext.2, List.splitOn_intercalate '/' hslash hne,
          mapM_eq_some_iff.mpr (htokens.imp fun _ _ => segmentOf_iff.mpr)] at h
        exact (Option.some.inj h).symm
      · rintro rfl
        refine ⟨tail.splitOn '/', List.splitOn_ne_nil '/' tail, not_mem_splitOn, ?_, ?_⟩
        · rw [List.intercalate_splitOn, htail]
        · exact (mapM_eq_some_iff.mp h).imp fun _ _ => segmentOf_iff.mp

theorem PathPatternV1.accepts_iff {pattern : PathPatternV1} {path : List PathStep} :
    pattern.accepts path = true ↔ pattern.Matches path := by
  rw [PathPatternV1.accepts_eq_true]
  constructor
  · intro h
    obtain ⟨tokens, hne, hslash, htext, htokens⟩ := (pattern.segments_iff _).mpr rfl
    exact ⟨tokens, pattern.segments, hne, hslash, htext, htokens, h⟩
  · rintro ⟨tokens, segments, hne, hslash, htext, htokens, h⟩
    rwa [(pattern.segments_iff segments).mp ⟨tokens, hne, hslash, htext, htokens⟩]

/-! ## Heads -/

/-- A prefix that fits and is not shorter than any other that does. -/
structure IsHead (limit : Nat) (text head : String) : Prop where
  starts : head.toList <+: text.toList
  fits : (bytes head).length ≤ limit
  longest : ∀ other : String, other.toList <+: text.toList → (bytes other).length ≤ limit →
    other.toList <+: head.toList

theorem prefixOfSize_eq_some {value front : List Char} {n : Nat} :
    prefixOfSize n value = some front ↔ front <+: value ∧ textSize front = n := by
  induction value generalizing n front with
  | nil =>
      cases n with
      | zero =>
          rw [prefixOfSize, List.prefix_nil]
          constructor
          · intro h
            obtain rfl := Option.some.inj h
            exact ⟨rfl, rfl⟩
          · rintro ⟨rfl, -⟩
            rfl
      | succ n =>
          constructor
          · intro h
            cases h
          · rintro ⟨hfront, hsize⟩
            obtain rfl := List.prefix_nil.mp hfront
            cases hsize
  | cons c rest ih =>
      cases n with
      | zero =>
          constructor
          · intro h
            obtain rfl := Option.some.inj h
            exact ⟨List.nil_prefix, rfl⟩
          · rintro ⟨-, hsize⟩
            cases front with
            | nil => rfl
            | cons d front =>
                rw [textSize_cons] at hsize
                have hd := Char.utf8Size_pos d
                omega
      | succ n =>
          rw [prefixOfSize]
          constructor
          · intro h
            split at h
            · next hfits =>
                obtain ⟨front, hrest, rfl⟩ := Option.map_eq_some_iff.mp h
                obtain ⟨hfront, hsize⟩ := ih.mp hrest
                refine ⟨List.cons_prefix_cons.mpr ⟨rfl, hfront⟩, ?_⟩
                rw [textSize_cons]
                omega
            · cases h
          · rintro ⟨hfront, hsize⟩
            cases front with
            | nil => cases hsize
            | cons d front =>
                obtain ⟨rfl, hrest⟩ := List.cons_prefix_cons.mp hfront
                rw [textSize_cons] at hsize
                rw [if_pos (by omega), ih.mpr ⟨hrest, by omega⟩]
                rfl

theorem cutBack_leads (value : List Char) (n : Nat) :
    cutBack value n <+: value ∧ textSize (cutBack value n) ≤ n := by
  induction n with
  | zero => exact ⟨List.nil_prefix, Nat.le_refl 0⟩
  | succ n ih =>
      rw [cutBack]
      cases hfront : prefixOfSize (n + 1) value with
      | none => exact ⟨ih.1, Nat.le_succ_of_le ih.2⟩
      | some front =>
          obtain ⟨hlead, hsize⟩ := prefixOfSize_eq_some.mp hfront
          exact ⟨hlead, hsize.le⟩

theorem prefix_of_textSize_le {value front other : List Char} (hfront : front <+: value)
    (hother : other <+: value) (h : textSize other ≤ textSize front) : other <+: front := by
  rcases List.prefix_or_prefix_of_prefix hfront hother with hle | hle
  · obtain ⟨more, rfl⟩ := hle
    cases more with
    | nil =>
        rw [List.append_nil]
    | cons c more =>
        rw [textSize_append, textSize_cons] at h
        have hc := Char.utf8Size_pos c
        omega
  · exact hle

theorem cutBack_longest {value other : List Char} {n : Nat} (hother : other <+: value)
    (hsize : textSize other ≤ n) : other <+: cutBack value n := by
  refine prefix_of_textSize_le (cutBack_leads value n).1 hother ?_
  induction n with
  | zero =>
      rw [Nat.le_zero.mp hsize]
      exact Nat.zero_le _
  | succ n ih =>
      rw [cutBack]
      cases hfront : prefixOfSize (n + 1) value with
      | none =>
          rcases Nat.lt_or_eq_of_le hsize with hlt | heq
          · exact ih (by omega)
          · rw [prefixOfSize_eq_some.mpr ⟨hother, heq⟩] at hfront
            cases hfront
      | some front =>
          obtain ⟨-, hfull⟩ := prefixOfSize_eq_some.mp hfront
          exact hsize.trans_eq hfull.symm

theorem length_bytes_eq (text : String) : (bytes text).length = textSize text.toList := by
  rw [length_bytes, ← utf8ByteSize_ofList, String.ofList_toList]

theorem utf8Prefix_isHead (text : String) (limit : Nat) :
    IsHead limit text (utf8Prefix text limit) := by
  unfold utf8Prefix
  split
  · next hfits => exact ⟨List.prefix_refl _, hfits, fun other hother _ => hother⟩
  · obtain ⟨hlead, hsize⟩ := cutBack_leads text.toList limit
    refine ⟨?_, ?_, fun other hother hfits => ?_⟩
    · rwa [String.toList_ofList]
    · rwa [length_bytes_eq, String.toList_ofList]
    · rw [String.toList_ofList]
      exact cutBack_longest hother (by rwa [← length_bytes_eq])

end TokenStation.Media
