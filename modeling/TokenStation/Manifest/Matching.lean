import TokenStation.Manifest.Declared

/-!
# Matching a URL against a template

The matcher decides whether some texts, one for each place of a parameter,
spell the URL. Measures that add up over a text add up over what parts spell.
-/

namespace TokenStation.Manifest

open Library Library.TextCuts

/-- A text the matcher lets a parameter take. -/
structure Fits (syntaxOf : List Char → Option ValueSyntaxV1) (name text : List Char) : Prop where
  nonempty : text ≠ []
  plain : ∀ c ∈ text, isBoundary c = false
  admitted : ∃ declared, syntaxOf name = some declared ∧ declared.admits text = true

theorem names_literal (text : List Char) (later : List Part) :
    names (.literal text :: later) = names later := rfl

/-- The matcher decides whether fitting texts spell the URL. -/
theorem matchesParts_iff {syntaxOf : List Char → Option ValueSyntaxV1} {split : List Part}
    {text : List Char} :
    matchesParts syntaxOf split text = true ↔
      ∃ texts, List.Forall₂ (Fits syntaxOf) (names split) texts ∧ spell split texts = text := by
  induction split generalizing text with
  | nil =>
      rw [matchesParts, List.isEmpty_iff]
      constructor
      · rintro rfl
        exact ⟨[], .nil, rfl⟩
      · rintro ⟨texts, -, rfl⟩
        rfl
  | cons part split ih =>
      cases part with
      | literal literal =>
          rw [matchesParts, names_literal]
          constructor
          · intro h
            split at h
            · rename_i rest hdrop
              obtain ⟨mark, htext, hmark⟩ := List.dropPrefix?_eq_some_iff.mp hdrop
              obtain ⟨texts, hfits, hspell⟩ := ih.mp h
              refine ⟨texts, hfits, ?_⟩
              rw [spell, hspell, htext, eq_of_beq hmark]
            · cases h
          · rintro ⟨texts, hfits, rfl⟩
            have hdrop : (literal ++ spell split texts).dropPrefix? literal =
                some (spell split texts) :=
              List.dropPrefix?_eq_some_iff.mpr ⟨literal, rfl, beq_self_eq_true literal⟩
            rw [spell, hdrop]
            exact ih.mpr ⟨texts, hfits, rfl⟩
      | param name =>
          rw [matchesParts, names_param]
          constructor
          · intro h
            split at h
            · cases h
            · rename_i declared hdeclared
              obtain ⟨last, hlast, h⟩ := List.any_eq_true.mp h
              simp only [Bool.and_eq_true, Bool.not_eq_true'] at h
              obtain ⟨⟨hplain, hadmits⟩, h⟩ := h
              obtain ⟨texts, hfits, hspell⟩ := ih.mp h
              rw [List.mem_range] at hlast
              refine ⟨text.take (last + 1) :: texts, .cons ⟨?_, ?_, declared, hdeclared, hadmits⟩
                hfits, ?_⟩
              · exact List.ne_nil_of_length_pos (by rw [List.length_take]; omega)
              · exact fun c hc => Bool.eq_false_of_not_eq_true
                  (List.any_eq_false.mp hplain c hc)
              · rw [spell, List.headD_cons, List.tail_cons, hspell, List.take_append_drop]
          · rintro ⟨texts, hfits, rfl⟩
            cases hfits with
            | @cons _ text _ texts hfirst hrest =>
                obtain ⟨declared, hdeclared, hadmits⟩ := hfirst.admitted
                have hpos := List.length_pos_of_ne_nil hfirst.nonempty
                have hcut : text.length - 1 + 1 = text.length := by omega
                rw [hdeclared]
                refine List.any_eq_true.mpr ⟨text.length - 1, ?_, ?_⟩
                · rw [List.mem_range, spell, List.headD_cons, List.length_append]
                  omega
                · rw [hcut, spell, List.headD_cons, List.tail_cons, List.take_left,
                    List.drop_left]
                  simp only [Bool.and_eq_true, Bool.not_eq_true']
                  refine ⟨⟨?_, hadmits⟩, ih.mpr ⟨texts, hrest, rfl⟩⟩
                  exact List.any_eq_false.mpr fun c hc => by rw [hfirst.plain c hc]; exact
                    Bool.false_ne_true

/-! ## Measures -/

/-- The text of the literals. -/
def literals : List Part → List Char
  | [] => []
  | .literal text :: later => text ++ literals later
  | .param _ :: later => literals later

/-- What adds up over texts adds up over what parts spell. -/
theorem measure_spell {μ : List Char → Nat} (hnil : μ [] = 0)
    (happend : ∀ text more, μ (text ++ more) = μ text + μ more) {split : List Part}
    {texts : List (List Char)} (hlength : texts.length = (names split).length) :
    μ (spell split texts) = μ (literals split) + (texts.map μ).sum := by
  induction split generalizing texts with
  | nil =>
      obtain rfl := List.length_eq_zero_iff.mp hlength
      rw [spell, literals, hnil]
      rfl
  | cons part split ih =>
      cases part with
      | literal text =>
          rw [spell, literals, happend, happend, ih hlength, Nat.add_assoc]
      | param name =>
          cases texts with
          | nil => cases hlength
          | cons text texts =>
              rw [spell, literals, List.headD_cons, List.tail_cons, happend,
                ih (Nat.succ.inj hlength), List.map_cons, List.sum_cons]
              omega

theorem count_spell (c : Char) {split : List Part} {texts : List (List Char)}
    (hlength : texts.length = (names split).length) :
    (spell split texts).count c =
      (literals split).count c + (texts.map fun text => text.count c).sum :=
  measure_spell (μ := fun text => text.count c) rfl (fun _ _ => List.count_append) hlength

/-- A character of a text is a character of what it spells. -/
theorem mem_spell {c : Char} {split : List Part} {texts : List (List Char)}
    (hlength : texts.length = (names split).length) {text : List Char} (htext : text ∈ texts)
    (hc : c ∈ text) : c ∈ spell split texts := by
  rw [← List.count_pos_iff, count_spell c hlength]
  have hone := List.count_pos_iff.mpr hc
  have hsum : text.count c ≤ (texts.map fun text => text.count c).sum :=
    List.single_le_sum (fun n _ => Nat.zero_le n) _ (List.mem_map.mpr ⟨text, htext, rfl⟩)
  omega

theorem mem_source_of_mem_literals {split : List Part} {c : Char} (hc : c ∈ literals split) :
    c ∈ source split := by
  induction split with
  | nil => cases hc
  | cons part split ih =>
      cases part with
      | literal text =>
          rcases List.mem_append.mp hc with hc | hc
          · exact List.mem_append_left _ hc
          · exact List.mem_append_right _ (ih hc)
      | param name =>
          rw [source]
          simp [ih hc]

/-! ## Ends -/

theorem spell_eq_nil {split : List Part} {texts : List (List Char)}
    (hlength : texts.length = (names split).length) (hne : ∀ text ∈ texts, text ≠ [])
    (h : spell split texts = []) : source split = [] := by
  induction split generalizing texts with
  | nil => rfl
  | cons part split ih =>
      cases part with
      | literal text =>
          obtain ⟨rfl, h⟩ := List.append_eq_nil_iff.mp h
          exact ih hlength hne h
      | param name =>
          match texts, hlength with
          | text :: texts, _ =>
              exact absurd (List.append_eq_nil_iff.mp h).1 (hne text List.mem_cons_self)

theorem source_eq_nil {split : List Part} (texts : List (List Char)) (h : source split = []) :
    spell split texts = [] := by
  induction split with
  | nil => rfl
  | cons part split ih =>
      cases part with
      | literal text =>
          obtain ⟨rfl, h⟩ := List.append_eq_nil_iff.mp h
          exact ih h
      | param name => cases h

/-- Filled with texts that hold no slash, a template ends in a slash when it
did before. -/
theorem spell_last_slash {split : List Part} {texts : List (List Char)}
    (hlength : texts.length = (names split).length) (hne : ∀ text ∈ texts, text ≠ [])
    (hslash : ∀ text ∈ texts, '/' ∉ text) :
    (spell split texts).getLast? = some '/' ↔ (source split).getLast? = some '/' := by
  induction split generalizing texts with
  | nil => rfl
  | cons part split ih =>
      cases part with
      | literal text =>
          have hrest := ih hlength hne hslash
          have hempty : spell split texts = [] ↔ source split = [] :=
            ⟨spell_eq_nil hlength hne, source_eq_nil texts⟩
          rw [spell, source, List.getLast?_append, List.getLast?_append]
          by_cases h : spell split texts = []
          · rw [h, hempty.mp h]
          · have h' := fun heq => h (hempty.mpr heq)
            rw [List.getLast?_eq_some_getLast h, List.getLast?_eq_some_getLast h'] at hrest ⊢
            exact hrest
      | param name =>
          cases texts with
          | nil => cases hlength
          | cons text texts =>
              have hrest := ih (Nat.succ.inj hlength)
                (fun text h => hne text (List.mem_cons_of_mem _ h))
                (fun text h => hslash text (List.mem_cons_of_mem _ h))
              rw [spell, source, List.headD_cons, List.tail_cons, List.getLast?_append,
                ← List.cons_append, List.getLast?_append, List.getLast?_cons]
              constructor
              · intro h
                cases hlast : (spell split texts).getLast? with
                | none =>
                    rw [hlast, Option.none_or] at h
                    exact absurd (List.mem_of_getLast? h) (hslash text List.mem_cons_self)
                | some c =>
                    rw [hlast] at h hrest
                    rw [hrest.mp h]
                    rfl
              · intro h
                cases hlast : (source split).getLast? with
                | none => rw [hlast] at h; cases h
                | some c =>
                    rw [hlast] at h hrest
                    rw [hrest.mpr h]
                    rfl

theorem trimEnd_eq_self {url : List Char} (h : url.getLast? ≠ some '/') : trimEnd url = url := by
  rw [trimEnd, List.rdropWhile_eq_self_iff]
  intro hne hslash
  rw [isSlash, beq_iff_eq] at hslash
  exact h (by rw [List.getLast?_eq_some_getLast hne, hslash])

theorem trimEnd_getLast? (url : List Char) : (trimEnd url).getLast? ≠ some '/' := by
  intro h
  have hne : trimEnd url ≠ [] := by
    intro hnil
    rw [hnil] at h
    cases h
  rw [List.getLast?_eq_some_getLast hne] at h
  have hlast : isSlash ((trimEnd url).getLast hne) = true := by
    rw [Option.some.inj h]
    rfl
  exact List.rdropWhile_last_not isSlash url hne hlast

end TokenStation.Manifest
