import TokenStation.Manifest.Matching

/-!
# When matching is exact

A URL should match a family's endpoint exactly when some values fill it. Path
values are encoded and shared between the places of a parameter, the matcher
reads each place by itself and as it stands, and it drops the slashes at the
end of the URL only.
-/

namespace TokenStation.Manifest

open Library Library.TextCuts

/-- Matching tells whether a URL is filled from accepted values. -/
def Exact (manifest : ComponentManifestV1) (family : List Char) : Prop :=
  ∀ url, manifest.endpointAdmits family url = true ↔
    ∃ values filled, manifest.validateConfigValues family values = .ok () ∧
      manifest.fillEndpoint family values = .ok (some filled) ∧ trimEnd filled = trimEnd url

/-- The parameters of a template, and whether each is in the host part. -/
def paramsOf (template : List Char) : List (List Char × Bool) :=
  match templateParams template with
  | .ok params => params
  | .error _ => []

/-- The parts of a template. -/
def splitOf (template : List Char) : List Part := (parts template).getD []

/-- A text of its own for each place of a parameter spells what one text for
each parameter spells. -/
def RepeatsAgree (fits : List Char → List Char → Prop) (split : List Part) : Prop :=
  ∀ texts, List.Forall₂ fits (names split) texts →
    ∃ value : List Char → List Char, (∀ name ∈ names split, fits name (value name)) ∧
      spell split ((names split).map value) = spell split texts

/-- A value that stands in a path as it is, and that the matcher reads back. -/
structure Readable (text : List Char) : Prop where
  encoded : encodeSegment text = text
  dotless : '.' ∉ text

/-- The template and the syntaxes of its parameters can be read back. -/
structure Invertible (manifest : ComponentManifestV1) (family template : List Char) : Prop where
  noSlash : template.getLast? ≠ some '/'
  readable : ∀ p ∈ paramsOf template, p.2 = false →
    ∀ text, Admissible manifest family p.1 text → Readable text
  repeats : RepeatsAgree (Fits (manifest.syntaxOf family)) (splitOf template)

/-- A template in which no parameter occurs twice leaves nothing to agree on. -/
theorem repeatsAgree_of_nodup {fits : List Char → List Char → Prop} {split : List Part}
    (h : (names split).Nodup) : RepeatsAgree fits split := by
  intro texts hfits
  generalize names split = occurring at h hfits
  suffices hvalue : ∃ value : List Char → List Char, occurring.map value = texts by
    obtain ⟨value, hvalue⟩ := hvalue
    refine ⟨value, ?_, by rw [hvalue]⟩
    rw [← hvalue, List.forall₂_map_right_iff] at hfits
    exact fun name hname => (List.forall₂_same.mp hfits) name hname
  induction hfits with
  | nil => exact ⟨fun _ => [], rfl⟩
  | @cons name text rest texts _ _ ih =>
      obtain ⟨hnew, hrest⟩ := List.nodup_cons.mp h
      obtain ⟨value, hvalue⟩ := ih hrest
      refine ⟨Function.update value name text, ?_⟩
      rw [List.map_cons, Function.update_self, ← hvalue]
      refine congrArg _ (List.map_congr_left fun other hother => Function.update_of_ne ?_ _ _)
      rintro rfl
      exact hnew hother

/-! ## Encoding -/

/-- Percent signs count most, then the length. -/
def weight (text : List Char) : Nat := text.count '%' * 4097 + text.length

theorem weight_append (text more : List Char) :
    weight (text ++ more) = weight text + weight more := by
  rw [weight, weight, weight, List.count_append, List.length_append]
  omega

theorem weight_spell {split : List Part} {texts : List (List Char)}
    (hlength : texts.length = (names split).length) :
    weight (spell split texts) = weight (literals split) + (texts.map weight).sum :=
  measure_spell rfl weight_append hlength

theorem percent_not_segment : isSegmentChar '%' = false := by decide

theorem encodeSegment_of_segment {text : List Char} (h : ∀ c ∈ text, isSegmentChar c = true) :
    encodeSegment text = text := by
  induction text with
  | nil => rfl
  | cons c text ih =>
      have hc : encodeChar c = [c] := if_pos (h c List.mem_cons_self)
      change encodeChar c ++ encodeSegment text = c :: text
      rw [hc, ih fun d hd => h d (List.mem_cons_of_mem _ hd)]
      rfl

/-- An escaped character starts with a percent sign and weighs more than it
did. -/
theorem encodeChar_escaped {c : Char} (h : isSegmentChar c = false) :
    '%' ∈ encodeChar c ∧ weight [c] < weight (encodeChar c) := by
  have hencode : encodeChar c = (String.utf8EncodeChar c).flatMap escapeByte := by
    rw [encodeChar, h]
    rfl
  have hne : String.utf8EncodeChar c ≠ [] := by
    rw [← List.length_pos_iff, String.length_utf8EncodeChar]
    exact Char.utf8Size_pos c
  obtain ⟨byte, bytes, hbytes⟩ := List.exists_cons_of_ne_nil hne
  rw [hencode, hbytes, List.flatMap_cons]
  have hfirst : weight (escapeByte byte) ≥ 4097 + 3 := by
    have hcount : 1 ≤ (escapeByte byte).count '%' :=
      List.count_pos_iff.mpr List.mem_cons_self
    have hlength : (escapeByte byte).length = 3 := rfl
    rw [weight, hlength]
    omega
  have hone : weight [c] ≤ 4097 + 1 := by
    have hcount : [c].count '%' ≤ 1 := List.count_le_length
    rw [weight, List.length_singleton]
    omega
  refine ⟨List.mem_append_left _ List.mem_cons_self, ?_⟩
  rw [weight_append]
  omega

theorem weight_encodeSegment (text : List Char) :
    weight text ≤ weight (encodeSegment text) ∧
      ((∃ c ∈ text, isSegmentChar c = false) →
        weight text < weight (encodeSegment text) ∧ '%' ∈ encodeSegment text) := by
  induction text with
  | nil => exact ⟨Nat.le_refl _, by simp⟩
  | cons c text ih =>
      have hencode : encodeSegment (c :: text) = encodeChar c ++ encodeSegment text := rfl
      have hcons : weight (c :: text) = weight [c] + weight text := weight_append [c] text
      rw [hencode, weight_append, hcons]
      by_cases hc : isSegmentChar c = true
      · have hchar : encodeChar c = [c] := if_pos hc
        rw [hchar]
        refine ⟨Nat.add_le_add_left ih.1 _, ?_⟩
        rintro ⟨d, hd, hescaped⟩
        rcases List.mem_cons.mp hd with rfl | hd
        · rw [hc] at hescaped
          cases hescaped
        · obtain ⟨hlt, hmem⟩ := ih.2 ⟨d, hd, hescaped⟩
          exact ⟨Nat.add_lt_add_left hlt _, List.mem_append_right _ hmem⟩
      · obtain ⟨hmem, hlt⟩ := encodeChar_escaped (Bool.eq_false_of_not_eq_true hc)
        refine ⟨by omega, fun _ => ⟨by omega, List.mem_append_left _ hmem⟩⟩

/-- Nothing is encoded, or a percent sign appears. -/
theorem encodeSegment_eq_or (text : List Char) :
    encodeSegment text = text ∨ '%' ∈ encodeSegment text := by
  by_cases h : ∃ c ∈ text, isSegmentChar c = false
  · exact .inr ((weight_encodeSegment text).2 h).2
  · simp only [not_exists, not_and, Bool.not_eq_false] at h
    exact .inl (encodeSegment_of_segment h)

theorem length_encodeSegment_le (text : List Char) :
    (encodeSegment text).length ≤ 12 * text.length := by
  induction text with
  | nil => exact Nat.le_refl 0
  | cons c text ih =>
      have hchar : (encodeChar c).length ≤ 12 := by
        unfold encodeChar
        split
        · exact (by decide : 1 ≤ 12)
        · have hsize := Char.utf8Size_le_four c
          have hlength : ((String.utf8EncodeChar c).flatMap escapeByte).length =
              3 * c.utf8Size := by
            rw [List.length_flatMap, ← String.length_utf8EncodeChar]
            induction String.utf8EncodeChar c with
            | nil => rfl
            | cons byte bytes ih =>
                rw [List.map_cons, List.sum_cons, ih, List.length_cons]
                change 3 + _ = _
                omega
          omega
      change (encodeChar c ++ encodeSegment text).length ≤ 12 * (text.length + 1)
      rw [List.length_append]
      omega

/-! ## Declared endpoints -/

section Declared

variable {manifest : ComponentManifestV1} {family : List Char} {pieces : TemplatePieces}

theorem Declared.paramsOf_eq (h : Declared manifest family pieces) :
    paramsOf pieces.template = pieces.params := by
  rw [paramsOf, h.accepted]

theorem TemplatePieces.splitOf_eq (pieces : TemplatePieces) :
    splitOf pieces.template = pieces.whole := by
  rw [splitOf, pieces.parts_eq]
  rfl

theorem Declared.endpointAdmits_iff (h : Declared manifest family pieces) {url : List Char} :
    manifest.endpointAdmits family url = true ↔
      ∃ texts, List.Forall₂ (Fits (manifest.syntaxOf family)) (names pieces.whole) texts ∧
        spell pieces.whole texts = trimEnd url := by
  rw [ComponentManifestV1.endpointAdmits, h.endpoint]
  dsimp only
  rw [pieces.parts_eq]
  exact matchesParts_iff

theorem Fits.admissible {name text : List Char}
    (h : Fits (manifest.syntaxOf family) name text) : Admissible manifest family name text := by
  obtain ⟨declared, hdeclared, hadmits⟩ := h.admitted
  obtain ⟨declaration, hget, rfl⟩ := Option.map_eq_some_iff.mp hdeclared
  exact ⟨declaration, hget, hadmits⟩

theorem Declared.bounds (h : Declared manifest family pieces) {name text : List Char}
    (htext : Admissible manifest family name text) : text ≠ [] ∧ text.length ≤ 4096 := by
  obtain ⟨declaration, hget, hadmits⟩ := htext
  exact ValueSyntaxV1.bounds (h.keys name declaration hget).wellFormed hadmits

theorem Declared.fits (h : Declared manifest family pieces) {name text : List Char}
    (htext : Admissible manifest family name text) (hplain : ∀ c ∈ text, isBoundary c = false) :
    Fits (manifest.syntaxOf family) name text := by
  refine ⟨(h.bounds htext).1, hplain, ?_⟩
  obtain ⟨declaration, hget, hadmits⟩ := htext
  exact ⟨declaration.syn, by rw [ComponentManifestV1.syntaxOf, hget]; rfl, hadmits⟩

/-- A value in the host part is a label. -/
theorem Declared.isDnsLabel (h : Declared manifest family pieces) {p : List Char × Bool}
    (hp : p ∈ pieces.params) (hhost : p.2 = true) {text : List Char}
    (htext : Admissible manifest family p.1 text) : isDnsLabel text = true := by
  obtain ⟨declaration, hget, -, hsafe⟩ := h.params p hp
  obtain ⟨other, hother, hadmits⟩ := htext
  rw [hget] at hother
  cases hother
  exact ValueSyntaxV1.isDnsLabel_of_admits (hsafe hhost) hadmits

theorem isDnsLabel_not_mem {text : List Char} (h : isDnsLabel text = true) {c : Char}
    (hc : isLabelChar c = false) : c ∉ text := fun hmem =>
  isLabelChar_ne (isDnsLabel_chars h c hmem) hc rfl

theorem plain_of_not_mem {text : List Char} (hslash : '/' ∉ text) (hdot : '.' ∉ text) :
    ∀ c ∈ text, isBoundary c = false := by
  intro c hc
  rw [isBoundary, isSlash, Bool.or_eq_false_iff, beq_eq_false_iff_ne, beq_eq_false_iff_ne]
  exact ⟨fun heq => hslash (heq ▸ hc), fun heq => hdot (heq ▸ hc)⟩

theorem Fits.slash_not_mem {syntaxOf : List Char → Option ValueSyntaxV1} {name text : List Char}
    (h : Fits syntaxOf name text) : '/' ∉ text := fun hmem => by cases h.plain '/' hmem

theorem Fits.dot_not_mem {syntaxOf : List Char → Option ValueSyntaxV1} {name text : List Char}
    (h : Fits syntaxOf name text) : '.' ∉ text := fun hmem => by cases h.plain '.' hmem

/-- Encoded text has no slash. -/
theorem slash_not_mem_encodeSegment (text : List Char) : '/' ∉ encodeSegment text := by
  intro hmem
  obtain ⟨c, -, hc⟩ := List.mem_flatMap.mp hmem
  unfold encodeChar at hc
  split at hc
  · rename_i hsegment
    rw [List.mem_singleton] at hc
    rw [← hc] at hsegment
    exact absurd hsegment (by decide)
  · obtain ⟨byte, -, hbyte⟩ := List.mem_flatMap.mp hc
    have hdigit (nibble : UInt8) : hexDigit nibble ≠ '/' := by
      intro heq
      rw [hexDigit, List.getD_eq_getElem?_getD] at heq
      cases hget : hexDigits[nibble.toNat]? with
      | none =>
          rw [hget] at heq
          exact absurd heq (by decide)
      | some digit =>
          rw [hget] at heq
          have hdigits : '/' ∈ hexDigits := heq ▸ List.mem_of_getElem? hget
          exact absurd hdigits (by decide)
    simp only [escapeByte, List.mem_cons, List.not_mem_nil, or_false] at hbyte
    rcases hbyte with heq | heq | heq
    · exact absurd heq (by decide)
    · exact hdigit _ heq.symm
    · exact hdigit _ heq.symm

theorem encodeSegment_ne_nil {text : List Char} (h : text ≠ []) : encodeSegment text ≠ [] := by
  intro hnil
  have hweight := (weight_encodeSegment text).1
  have hzero : weight [] = 0 := rfl
  have hpos := List.length_pos_of_ne_nil h
  rw [hnil, hzero, weight] at hweight
  omega

/-- What stands for a value is a text with no slash. -/
theorem Declared.shown_plain (h : Declared manifest family pieces) {p : List Char × Bool}
    (hp : p ∈ pieces.params) {text : List Char} (htext : Admissible manifest family p.1 text) :
    shown text p.2 ≠ [] ∧ '/' ∉ shown text p.2 := by
  unfold shown
  split
  · rename_i hhost
    exact ⟨(h.bounds htext).1, isDnsLabel_not_mem (h.isDnsLabel hp hhost htext) (by decide)⟩
  · exact ⟨encodeSegment_ne_nil (h.bounds htext).1, slash_not_mem_encodeSegment text⟩

/-- Each text fits a name. -/
theorem exists_fitting {fits : List Char → List Char → Prop} {occurring texts : List (List Char)}
    (h : List.Forall₂ fits occurring texts) {text : List Char} (htext : text ∈ texts) :
    ∃ name ∈ occurring, fits name text := by
  induction h with
  | nil => cases htext
  | @cons name _ _ _ hfirst _ ih =>
      rcases List.mem_cons.mp htext with rfl | htext
      · exact ⟨name, List.mem_cons_self, hfirst⟩
      · obtain ⟨other, hother, hfit⟩ := ih htext
        exact ⟨other, List.mem_cons_of_mem _ hother, hfit⟩

/-- The texts of the places of a filled template. -/
def shownTexts (pieces : TemplatePieces) (value : List Char → List Char) : List (List Char) :=
  pieces.params.map fun p => shown (value p.1) p.2

theorem length_shownTexts (value : List Char → List Char) :
    (shownTexts pieces value).length = (names pieces.whole).length := by
  rw [shownTexts, List.length_map, ← pieces.names_params, List.length_map]

/-- A filled template ends in a slash when the template does. -/
theorem Declared.last_slash (h : Declared manifest family pieces)
    {value : List Char → List Char}
    (hvalue : ∀ p ∈ pieces.params, Admissible manifest family p.1 (value p.1)) :
    (spell pieces.whole (shownTexts pieces value)).getLast? = some '/' ↔
      pieces.template.getLast? = some '/' := by
  have hsource : source pieces.whole = pieces.template :=
    (parts_eq_some_iff.mp pieces.parts_eq).source_eq
  have hshown : ∀ text ∈ shownTexts pieces value, text ≠ [] ∧ '/' ∉ text := by
    intro text htext
    obtain ⟨p, hp, rfl⟩ := List.mem_map.mp htext
    exact h.shown_plain hp (hvalue p hp)
  rw [spell_last_slash (length_shownTexts value) (fun text h => (hshown text h).1)
    (fun text h => (hshown text h).2), hsource]

theorem last_slash_of_fits {texts : List (List Char)}
    (hfits : List.Forall₂ (Fits (manifest.syntaxOf family)) (names pieces.whole) texts) :
    (spell pieces.whole texts).getLast? = some '/' ↔ pieces.template.getLast? = some '/' := by
  have hsource : source pieces.whole = pieces.template :=
    (parts_eq_some_iff.mp pieces.parts_eq).source_eq
  have hall : ∀ text ∈ texts, text ≠ [] ∧ '/' ∉ text := by
    intro text htext
    obtain ⟨name, -, hfit⟩ := exists_fitting hfits htext
    exact ⟨hfit.nonempty, hfit.slash_not_mem⟩
  rw [spell_last_slash hfits.length_eq.symm (fun text h => (hall text h).1)
    (fun text h => (hall text h).2), hsource]

end Declared

end TokenStation.Manifest
