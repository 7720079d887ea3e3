import TokenStation.Manifest.ExactMatching

/-!
# Every way to read a URL

The search for values finds the readings of a URL in order and stops at its
limit. A reading gives each parameter one text, and no two of those found are
equal.
-/

namespace TokenStation.Manifest

open Library Library.TextCuts

/-- Every way a text fills parts, after the values taken before. -/
def readings (syntaxOf : List Char → Option ValueSyntaxV1) :
    List Part → List Char → ConfigValues → List ConfigValues
  | [], text, taken => if text.isEmpty then [taken] else []
  | .literal literal :: rest, text, taken =>
      match text.dropPrefix? literal with
      | some text => readings syntaxOf rest text taken
      | none => []
  | .param name :: rest, text, taken =>
      match syntaxOf name with
      | none => []
      | some declared =>
          (List.range text.length).flatMap fun last =>
            let candidate := text.take (last + 1)
            if canTake declared (taken.get name) candidate then
              readings syntaxOf rest (text.drop (last + 1)) (taken.insert name candidate)
            else []

/-! ## The limit -/

theorem take_take_append {α : Type} (front rest : List α) (limit : Nat) :
    (front.take limit ++ rest).take limit = (front ++ rest).take limit := by
  rcases Nat.le_total front.length limit with h | h
  · rw [List.take_of_length_le h]
  · rw [List.take_append_of_le_length (by rw [List.length_take]; omega), List.take_take,
      Nat.min_self, List.take_append_of_le_length h]

/-- A fold that only adds, up to a limit. -/
theorem foldl_take {α β : Type} {limit : Nat} {f : List β → α → List β} {g : α → List β}
    {items : List α} {found : List β} (hfound : found.length ≤ limit)
    (hstep : ∀ a found, found.length ≤ limit → f found a = (found ++ g a).take limit) :
    items.foldl f found = (found ++ items.flatMap g).take limit := by
  induction items generalizing found with
  | nil =>
      rw [List.foldl_nil, List.flatMap_nil, List.append_nil, List.take_of_length_le hfound]
  | cons a items ih =>
      rw [List.foldl_cons, hstep a found hfound, ih (List.length_take_le _ _), List.flatMap_cons,
        take_take_append, List.append_assoc]

/-- The search finds the readings in order, up to its limit. -/
theorem fills_eq {syntaxOf : List Char → Option ValueSyntaxV1} {limit : Nat} {split : List Part}
    {text : List Char} {taken : ConfigValues} {found : List ConfigValues}
    (hfound : found.length ≤ limit) :
    fills syntaxOf limit split text taken found =
      (found ++ readings syntaxOf split text taken).take limit := by
  have hfull {found more : List ConfigValues} (hle : found.length ≤ limit)
      (hge : limit ≤ found.length) : found = (found ++ more).take limit := by
    rw [List.take_append_of_le_length hge, List.take_of_length_le hle]
  have hnone {found : List ConfigValues} (hle : found.length ≤ limit) :
      found = (found ++ []).take limit := by
    rw [List.append_nil, List.take_of_length_le hle]
  induction split generalizing text taken found with
  | nil =>
      rw [fills, readings]
      split
      · rename_i hge
        exact hfull hfound hge
      · split
        · rw [List.take_of_length_le]
          rw [List.length_append, List.length_singleton]
          omega
        · exact hnone hfound
  | cons part split ih =>
      cases part with
      | literal literal =>
          rw [fills, readings]
          split
          · rename_i hge
            exact hfull hfound hge
          · cases text.dropPrefix? literal with
            | none => exact hnone hfound
            | some rest => exact ih hfound
      | param name =>
          rw [fills, readings]
          split
          · rename_i hge
            exact hfull hfound hge
          · cases syntaxOf name with
            | none => exact hnone hfound
            | some declared =>
                refine foldl_take hfound fun last found hle => ?_
                dsimp only
                split
                · rename_i hge
                  exact hfull hle hge
                · split
                  · exact ih hle
                  · exact hnone hle

/-! ## What a reading is -/

/-- Values that extend those taken and spell the text. -/
structure ReadsAs (syntaxOf : List Char → Option ValueSyntaxV1) (split : List Part)
    (text : List Char) (taken values : ConfigValues) : Prop where
  extends_taken : ∀ name taker, taken.get name = some taker → values.get name = some taker
  named : ∀ name, values.get name ≠ none → taken.get name ≠ none ∨ name ∈ names split
  fits : ∀ name ∈ names split, ∃ taker, values.get name = some taker ∧ Fits syntaxOf name taker
  spells : spell split ((names split).map fun name => (values.get name).getD []) = text

theorem canTake_iff {syntaxOf : List Char → Option ValueSyntaxV1} {name : List Char}
    {declared : ValueSyntaxV1} (hdeclared : syntaxOf name = some declared)
    {taken : Option (List Char)} {candidate : List Char} (hne : candidate ≠ []) :
    canTake declared taken candidate = true ↔
      Fits syntaxOf name candidate ∧ ∀ before, taken = some before → before = candidate := by
  simp only [canTake, Bool.and_eq_true, Bool.not_eq_true', List.any_eq_false, Bool.not_eq_true]
  constructor
  · rintro ⟨⟨hplain, hadmits⟩, htaken⟩
    refine ⟨⟨hne, hplain, declared, hdeclared, hadmits⟩, ?_⟩
    rintro before rfl
    simpa using htaken
  · rintro ⟨⟨-, hplain, other, hother, hadmits⟩, htaken⟩
    rw [hdeclared] at hother
    cases hother
    refine ⟨⟨hplain, hadmits⟩, ?_⟩
    cases taken with
    | none => rfl
    | some before => simpa using htaken before rfl

theorem readsAs_nil {syntaxOf : List Char → Option ValueSyntaxV1} {text : List Char}
    {taken values : ConfigValues} :
    ReadsAs syntaxOf [] text taken values ↔ text = [] ∧ values = taken := by
  constructor
  · intro h
    refine ⟨h.spells.symm, SortedMap.ext_get fun name => ?_⟩
    cases htaken : taken.get name with
    | some taker => exact h.extends_taken name taker htaken
    | none =>
        by_contra hsome
        rcases h.named name hsome with hne | hname
        · exact hne htaken
        · cases hname
  · rintro ⟨rfl, rfl⟩
    exact ⟨fun _ _ h => h, fun _ h => .inl h, by simp [names], rfl⟩

theorem readsAs_literal {syntaxOf : List Char → Option ValueSyntaxV1} {split : List Part}
    {literal text : List Char} {taken values : ConfigValues} :
    ReadsAs syntaxOf (.literal literal :: split) text taken values ↔
      ∃ rest, text = literal ++ rest ∧ ReadsAs syntaxOf split rest taken values := by
  constructor
  · intro h
    exact ⟨_, h.spells.symm, h.extends_taken, h.named, h.fits, rfl⟩
  · rintro ⟨rest, rfl, h⟩
    exact ⟨h.extends_taken, h.named, h.fits, by rw [← h.spells]; rfl⟩

theorem readsAs_param {syntaxOf : List Char → Option ValueSyntaxV1} {split : List Part}
    {name text : List Char} {taken values : ConfigValues} :
    ReadsAs syntaxOf (.param name :: split) text taken values ↔
      ∃ candidate rest, text = candidate ++ rest ∧ Fits syntaxOf name candidate ∧
        (∀ before, taken.get name = some before → before = candidate) ∧
        ReadsAs syntaxOf split rest (taken.insert name candidate) values := by
  constructor
  · intro h
    obtain ⟨candidate, hvalue, hfits⟩ := h.fits name List.mem_cons_self
    refine ⟨candidate, _, ?_, hfits, ?_, ?_, ?_, ?_, rfl⟩
    · rw [← h.spells, names_param, List.map_cons, spell, List.headD_cons, List.tail_cons, hvalue]
      rfl
    · intro before hbefore
      have hsame := h.extends_taken name before hbefore
      rw [hvalue] at hsame
      exact (Option.some.inj hsame).symm
    · intro other taker htaker
      rw [SortedMap.get_insert] at htaker
      split at htaker
      · rename_i heq
        rw [← heq, hvalue, htaker]
      · exact h.extends_taken other taker htaker
    · intro other hother
      rw [SortedMap.get_insert]
      rcases h.named other hother with htaken | hmem
      · left
        split
        · exact Option.some_ne_none _
        · exact htaken
      · rcases List.mem_cons.mp hmem with rfl | hmem
        · left
          rw [if_pos rfl]
          exact Option.some_ne_none _
        · exact .inr hmem
    · exact fun other hother => h.fits other (List.mem_cons_of_mem _ hother)
  · rintro ⟨candidate, rest, rfl, hfits, htaken, h⟩
    have hvalue : values.get name = some candidate :=
      h.extends_taken name candidate (by rw [SortedMap.get_insert, if_pos rfl])
    refine ⟨?_, ?_, ?_, ?_⟩
    · intro other taker htaker
      by_cases heq : name = other
      · subst heq
        rw [htaken taker htaker]
        exact hvalue
      · exact h.extends_taken other taker (by rw [SortedMap.get_insert, if_neg heq]; exact htaker)
    · intro other hother
      by_cases heq : name = other
      · exact .inr (heq ▸ List.mem_cons_self)
      · rcases h.named other hother with htaker | hmem
        · rw [SortedMap.get_insert, if_neg heq] at htaker
          exact .inl htaker
        · exact .inr (List.mem_cons_of_mem _ hmem)
    · intro other hother
      rcases List.mem_cons.mp hother with rfl | hother
      · exact ⟨candidate, hvalue, hfits⟩
      · exact h.fits other hother
    · rw [names_param, List.map_cons, spell, List.headD_cons, List.tail_cons, hvalue, h.spells]
      rfl

/-- The search lists the readings. -/
theorem mem_readings_iff {syntaxOf : List Char → Option ValueSyntaxV1} {split : List Part}
    {text : List Char} {taken values : ConfigValues} :
    values ∈ readings syntaxOf split text taken ↔ ReadsAs syntaxOf split text taken values := by
  induction split generalizing text taken with
  | nil =>
      rw [readings, readsAs_nil]
      cases text with
      | nil => simp
      | cons c text => simp
  | cons part split ih =>
      cases part with
      | literal literal =>
          rw [readings, readsAs_literal]
          cases hdrop : text.dropPrefix? literal with
          | none =>
              refine iff_of_false (List.not_mem_nil) ?_
              rintro ⟨rest, rfl, -⟩
              have hsome := List.dropPrefix?_append_of_beq rest (beq_self_eq_true literal)
              rw [hdrop] at hsome
              cases hsome
          | some rest =>
              obtain ⟨mark, rfl, hmark⟩ := List.dropPrefix?_eq_some_iff.mp hdrop
              obtain rfl := eq_of_beq hmark
              dsimp only
              rw [ih]
              constructor
              · exact fun h => ⟨rest, rfl, h⟩
              · rintro ⟨other, heq, h⟩
                rwa [List.append_cancel_left heq]
      | param name =>
          rw [readings, readsAs_param]
          cases hdeclared : syntaxOf name with
          | none =>
              refine iff_of_false (List.not_mem_nil) ?_
              rintro ⟨candidate, rest, -, hfits, -⟩
              obtain ⟨declared, hsome, -⟩ := hfits.admitted
              rw [hdeclared] at hsome
              cases hsome
          | some declared =>
              dsimp only
              rw [List.mem_flatMap]
              constructor
              · rintro ⟨last, hlast, h⟩
                rw [List.mem_range] at hlast
                have hne : text.take (last + 1) ≠ [] :=
                  List.ne_nil_of_length_pos (by rw [List.length_take]; omega)
                split at h
                · rename_i hcan
                  obtain ⟨hfits, htaken⟩ := (canTake_iff hdeclared hne).mp hcan
                  exact ⟨_, _, (List.take_append_drop (last + 1) text).symm, hfits, htaken,
                    ih.mp h⟩
                · cases h
              · rintro ⟨candidate, rest, rfl, hfits, htaken, h⟩
                have hpos := List.length_pos_of_ne_nil hfits.nonempty
                have hcut : candidate.length - 1 + 1 = candidate.length := by omega
                refine ⟨candidate.length - 1, ?_, ?_⟩
                · rw [List.mem_range, List.length_append]
                  omega
                · rw [hcut, List.take_left, List.drop_left,
                    if_pos ((canTake_iff hdeclared hfits.nonempty).mpr ⟨hfits, htaken⟩)]
                  exact ih.mpr h

/-- No reading is listed twice. -/
theorem nodup_readings {syntaxOf : List Char → Option ValueSyntaxV1} {split : List Part}
    {text : List Char} {taken : ConfigValues} : (readings syntaxOf split text taken).Nodup := by
  induction split generalizing text taken with
  | nil =>
      rw [readings]
      split
      · exact List.nodup_singleton _
      · exact List.nodup_nil
  | cons part split ih =>
      cases part with
      | literal literal =>
          rw [readings]
          cases text.dropPrefix? literal with
          | none => exact List.nodup_nil
          | some rest => exact ih
      | param name =>
          rw [readings]
          cases syntaxOf name with
          | none => exact List.nodup_nil
          | some declared =>
              dsimp only
              rw [List.nodup_flatMap]
              constructor
              · intro last _
                split
                · exact ih
                · exact List.nodup_nil
              · refine List.pairwise_lt_range.imp_of_mem ?_
                intro first last hfirst hlast hlt values hone hother
                rw [List.mem_range] at hfirst hlast
                dsimp only at hone hother
                split at hone
                · split at hother
                  · have hvalue := (mem_readings_iff.mp hone).extends_taken name _
                      (by rw [SortedMap.get_insert, if_pos rfl])
                    have hsame := (mem_readings_iff.mp hother).extends_taken name _
                      (by rw [SortedMap.get_insert, if_pos rfl])
                    rw [hvalue] at hsame
                    have hlength := congrArg List.length (Option.some.inj hsame)
                    rw [List.length_take, List.length_take] at hlength
                    omega
                  · cases hother
                · cases hone

end TokenStation.Manifest
