import TokenStation.Manifest.ExactMatching

/-!
# Exactness of the endpoint match

Matching is exact for the templates that can be read back, and for no others:
a percent sign in a filled URL leads to heavier and heavier ones, a dot in a
value is one more than the template has, and a slash that ends the template is
never matched.
-/

namespace TokenStation.Manifest

open Library Library.TextCuts

section

variable {manifest : ComponentManifestV1} {family : List Char} {pieces : TemplatePieces}

/-- The texts of places fit when each value does and stands as it is. -/
theorem fits_shownTexts {value : List Char → List Char}
    (hvalue : ∀ p ∈ pieces.params, Fits (manifest.syntaxOf family) p.1 (shown (value p.1) p.2)) :
    List.Forall₂ (Fits (manifest.syntaxOf family)) (names pieces.whole)
      (shownTexts pieces value) := by
  rw [← pieces.names_params, shownTexts, List.forall₂_map_left_iff, List.forall₂_map_right_iff,
    List.forall₂_same]
  exact hvalue

theorem shownTexts_eq {value : List Char → List Char}
    (hvalue : ∀ p ∈ pieces.params, shown (value p.1) p.2 = value p.1) :
    shownTexts pieces value = (names pieces.whole).map value := by
  rw [← pieces.names_params, shownTexts, List.map_map]
  exact List.map_congr_left hvalue

theorem mem_params_of_name {name : List Char} (hname : name ∈ names pieces.whole) :
    ∃ p ∈ pieces.params, p.1 = name := by
  rw [← pieces.names_params] at hname
  exact List.mem_map.mp hname

theorem name_mem_of_params {p : List Char × Bool} (hp : p ∈ pieces.params) :
    p.1 ∈ names pieces.whole := by
  rw [← pieces.names_params]
  exact List.mem_map.mpr ⟨p, hp, rfl⟩

/-- What is filled does not end in a slash. -/
theorem Declared.trimEnd_filled (h : Declared manifest family pieces)
    (hslash : pieces.template.getLast? ≠ some '/') {value : List Char → List Char}
    (hvalue : ∀ p ∈ pieces.params, Admissible manifest family p.1 (value p.1)) :
    trimEnd (spell pieces.whole (shownTexts pieces value)) =
      spell pieces.whole (shownTexts pieces value) :=
  trimEnd_eq_self (mt (h.last_slash hvalue).mp hslash)

theorem trimEnd_read
    (hslash : pieces.template.getLast? ≠ some '/') {texts : List (List Char)}
    (hfits : List.Forall₂ (Fits (manifest.syntaxOf family)) (names pieces.whole) texts) :
    trimEnd (spell pieces.whole texts) = spell pieces.whole texts :=
  trimEnd_eq_self (mt (last_slash_of_fits hfits).mp hslash)

/-! ## Templates that can be read back -/

/-- Every admissible value stands as it is and fits. -/
theorem Declared.shown_fits (h : Declared manifest family pieces)
    (hreadable : ∀ p ∈ pieces.params, p.2 = false → ∀ text,
      Admissible manifest family p.1 text → Readable text)
    {p : List Char × Bool} (hp : p ∈ pieces.params) {text : List Char}
    (htext : Admissible manifest family p.1 text) :
    shown text p.2 = text ∧ Fits (manifest.syntaxOf family) p.1 text := by
  cases hhost : p.2 with
  | true =>
      have hlabel := h.isDnsLabel hp hhost htext
      exact ⟨rfl, h.fits htext (plain_of_not_mem (isDnsLabel_not_mem hlabel (by decide))
        (isDnsLabel_not_mem hlabel (by decide)))⟩
  | false =>
      obtain ⟨hencoded, hdotless⟩ := hreadable p hp hhost text htext
      have hslash := slash_not_mem_encodeSegment text
      rw [hencoded] at hslash
      exact ⟨hencoded, h.fits htext (plain_of_not_mem hslash hdotless)⟩

theorem Declared.exact_of_invertible (h : Declared manifest family pieces)
    (hinv : Invertible manifest family pieces.template) : Exact manifest family := by
  have hreadable := hinv.readable
  have hrepeats := hinv.repeats
  rw [h.paramsOf_eq] at hreadable
  rw [pieces.splitOf_eq] at hrepeats
  intro url
  rw [h.endpointAdmits_iff]
  constructor
  · rintro ⟨texts, hfits, hspell⟩
    obtain ⟨value, hvalue, hsame⟩ := hrepeats texts hfits
    obtain ⟨values, haccepted, hused⟩ := @Declared.exists_values _ _ _ h value
      fun p hp => (hvalue p.1 (name_mem_of_params hp)).admissible
    have hshown : ∀ p ∈ pieces.params,
        shown (used manifest family values p.1) p.2 = used manifest family values p.1 :=
      fun p hp => (h.shown_fits hreadable hp (h.usedValue_eq haccepted hp).2).1
    have hmap : (names pieces.whole).map (used manifest family values) =
        (names pieces.whole).map value := by
      refine List.map_congr_left fun name hname => ?_
      obtain ⟨p, hp, rfl⟩ := mem_params_of_name hname
      exact hused p hp
    refine ⟨values, _, validateConfigValues_ok_iff.mpr haccepted, h.fillEndpoint_eq haccepted, ?_⟩
    change trimEnd (spell pieces.whole (shownTexts pieces (used manifest family values))) = _
    rw [shownTexts_eq hshown, hmap, hsame, hspell, ← hspell]
    exact trimEnd_read hinv.noSlash hfits
  · rintro ⟨values, filled, hvalid, hfill, htrim⟩
    have haccepted := validateConfigValues_ok_iff.mp hvalid
    rw [h.fillEndpoint_eq haccepted] at hfill
    cases hfill
    have hused := fun p hp => (h.usedValue_eq haccepted (p := p) hp).2
    refine ⟨shownTexts pieces (used manifest family values), ?_, ?_⟩
    · refine fits_shownTexts fun p hp => ?_
      obtain ⟨hshown, hfits⟩ := h.shown_fits hreadable hp (hused p hp)
      rwa [hshown]
    · rw [← htrim]
      exact (h.trimEnd_filled hinv.noSlash hused).symm

/-! ## No others -/

/-- A filled URL is matched, place by place. -/
theorem Declared.exists_reading (h : Declared manifest family pieces)
    (hexact : Exact manifest family) {value : List Char → List Char}
    (hvalue : ∀ p ∈ pieces.params, Admissible manifest family p.1 (value p.1)) :
    ∃ texts, List.Forall₂ (Fits (manifest.syntaxOf family)) (names pieces.whole) texts ∧
      spell pieces.whole texts = trimEnd (spell pieces.whole (shownTexts pieces value)) := by
  obtain ⟨values, haccepted, hused⟩ := h.exists_values hvalue
  have hsame : shownTexts pieces (used manifest family values) = shownTexts pieces value :=
    List.map_congr_left fun p hp => by rw [hused p hp]
  refine h.endpointAdmits_iff.mp ((hexact _).mpr ⟨values, _,
    validateConfigValues_ok_iff.mpr haccepted, h.fillEndpoint_eq haccepted, ?_⟩)
  exact congrArg (fun texts => trimEnd (spell pieces.whole texts)) hsame

theorem Declared.noSlash_of_exact (h : Declared manifest family pieces)
    (hexact : Exact manifest family) : pieces.template.getLast? ≠ some '/' := by
  intro hslash
  obtain ⟨value, hvalue⟩ := h.exists_admissible
  obtain ⟨texts, hfits, hspell⟩ := h.exists_reading hexact hvalue
  have hlast := (last_slash_of_fits hfits).mpr hslash
  rw [hspell] at hlast
  exact trimEnd_getLast? _ hlast

/-- The template has no percent sign of its own. -/
theorem percent_not_mem_literals : '%' ∉ literals pieces.whole := by
  intro hmem
  have hsource : source pieces.whole = pieces.template :=
    (parts_eq_some_iff.mp pieces.parts_eq).source_eq
  have htemplate := mem_source_of_mem_literals hmem
  rw [hsource, TemplatePieces.template] at htemplate
  rcases List.mem_append.mp htemplate with hmark | hrest
  · exact absurd hmark (by decide)
  · exact absurd (pieces.chars '%' hrest) (by decide)

theorem exists_percent {texts : List (List Char)}
    (hlength : texts.length = (names pieces.whole).length)
    (h : '%' ∈ spell pieces.whole texts) : ∃ text ∈ texts, '%' ∈ text := by
  by_contra hnone
  simp only [not_exists, not_and] at hnone
  rw [← List.count_pos_iff, count_spell _ hlength,
    List.count_eq_zero_of_not_mem percent_not_mem_literals, Nat.zero_add] at h
  have hzero : (texts.map fun text => text.count '%').sum = 0 := by
    rw [List.sum_eq_zero_iff]
    intro n hn
    obtain ⟨text, htext, rfl⟩ := List.mem_map.mp hn
    exact List.count_eq_zero_of_not_mem (hnone text htext)
  omega

/-- The heaviest of the texts that stand at a name's places. -/
theorem exists_heaviest (occurring texts : List (List Char)) :
    ∃ value : List Char → List Char, ∀ name text, (name, text) ∈ occurring.zip texts →
      (name, value name) ∈ occurring.zip texts ∧ weight text ≤ weight (value name) := by
  classical
  have hexists (name : List Char) : ∃ best, ∀ text, (name, text) ∈ occurring.zip texts →
      (name, best) ∈ occurring.zip texts ∧ weight text ≤ weight best := by
    let standing := ((occurring.zip texts).filter fun e => e.1 = name).map Prod.snd
    have hmem (text : List Char) : text ∈ standing ↔ (name, text) ∈ occurring.zip texts := by
      simp [standing]
    cases hmax : standing.argmax weight with
    | none =>
        rw [List.argmax_eq_none] at hmax
        refine ⟨[], fun text htext => ?_⟩
        rw [← hmem, hmax] at htext
        cases htext
    | some best =>
        exact ⟨best, fun text htext => ⟨(hmem best).mp (List.argmax_mem hmax),
          List.le_of_mem_argmax ((hmem text).mpr htext) hmax⟩⟩
  choose value hvalue using hexists
  exact ⟨value, fun name text h => hvalue name text h⟩

/-- A heavy text has a percent sign, or it would be long. -/
theorem percent_mem_of_weight {text : List Char} (hlength : text.length ≤ 4096)
    (h : 4097 ≤ weight text) : '%' ∈ text := by
  rw [← List.count_pos_iff]
  rw [weight] at h
  omega

theorem weight_of_percent_mem {text : List Char} (h : '%' ∈ text) : 4097 ≤ weight text := by
  have hcount := List.count_pos_iff.mpr h
  rw [weight]
  omega

/-- What stands for a value weighs no less, and more where a percent sign is
encoded. -/
theorem Declared.weight_shown (h : Declared manifest family pieces) {p : List Char × Bool}
    (hp : p ∈ pieces.params) {text : List Char} (htext : Admissible manifest family p.1 text) :
    weight text ≤ weight (shown text p.2) ∧
      ('%' ∈ text → weight text < weight (shown text p.2) ∧ '%' ∈ shown text p.2) := by
  cases hhost : p.2 with
  | true =>
      refine ⟨Nat.le_refl _, fun hpercent => ?_⟩
      exact absurd hpercent (isDnsLabel_not_mem (h.isDnsLabel hp hhost htext) (by decide))
  | false =>
      obtain ⟨hle, hlt⟩ := weight_encodeSegment text
      exact ⟨hle, fun hpercent => hlt ⟨'%', hpercent, percent_not_segment⟩⟩

theorem mem_spell_shownTexts {value : List Char → List Char} {p : List Char × Bool}
    (hp : p ∈ pieces.params) {c : Char} (hc : c ∈ shown (value p.1) p.2) :
    c ∈ spell pieces.whole (shownTexts pieces value) :=
  mem_spell (length_shownTexts value) (List.mem_map.mpr ⟨p, hp, rfl⟩) hc

/-- A filled URL with a percent sign leads to a heavier one. -/
theorem Declared.exists_heavier (h : Declared manifest family pieces)
    (hexact : Exact manifest family) {value : List Char → List Char}
    (hvalue : ∀ p ∈ pieces.params, Admissible manifest family p.1 (value p.1))
    (hpercent : '%' ∈ spell pieces.whole (shownTexts pieces value)) :
    ∃ heavier : List Char → List Char,
      (∀ p ∈ pieces.params, Admissible manifest family p.1 (heavier p.1)) ∧
      '%' ∈ spell pieces.whole (shownTexts pieces heavier) ∧
      weight (spell pieces.whole (shownTexts pieces value)) <
        weight (spell pieces.whole (shownTexts pieces heavier)) := by
  obtain ⟨texts, hfits, hspell⟩ := h.exists_reading hexact hvalue
  rw [h.trimEnd_filled (h.noSlash_of_exact hexact) hvalue] at hspell
  rw [← hspell] at hpercent ⊢
  have hlength := hfits.length_eq
  have hzipFits {name text : List Char} (hmem : (name, text) ∈ (names pieces.whole).zip texts) :
      Fits (manifest.syntaxOf family) name text := (List.forall₂_iff_zip.mp hfits).2 hmem
  have hparams : pieces.params.length = texts.length := by
    rw [← hlength, ← pieces.names_params, List.length_map]
  obtain ⟨heavier, hheavier⟩ := exists_heaviest (names pieces.whole) texts
  have hzip {p : List Char × Bool} {text : List Char} (hmem : (p, text) ∈ pieces.params.zip texts) :
      p ∈ pieces.params ∧ Admissible manifest family p.1 (heavier p.1) ∧
        weight text ≤ weight (heavier p.1) := by
    have hname : (p.1, text) ∈ (names pieces.whole).zip texts := by
      rw [← pieces.names_params, List.zip_map_left]
      exact List.mem_map.mpr ⟨(p, text), hmem, rfl⟩
    obtain ⟨hbest, hle⟩ := hheavier p.1 text hname
    exact ⟨(List.of_mem_zip hmem).1, (hzipFits hbest).admissible, hle⟩
  have htexts : texts = (pieces.params.zip texts).map Prod.snd :=
    (List.map_snd_zip hparams.symm.le).symm
  have hpairs : pieces.params = (pieces.params.zip texts).map Prod.fst :=
    (List.map_fst_zip hparams.le).symm
  have hadmissible : ∀ p ∈ pieces.params, Admissible manifest family p.1 (heavier p.1) := by
    intro p hp
    rw [hpairs] at hp
    obtain ⟨⟨p, text⟩, hmem, rfl⟩ := List.mem_map.mp hp
    exact (hzip hmem).2.1
  obtain ⟨text, htext, hsign⟩ := exists_percent hlength.symm hpercent
  rw [htexts] at htext
  obtain ⟨⟨p, text⟩, hmem, rfl⟩ := List.mem_map.mp htext
  obtain ⟨hp, hadm, hle⟩ := hzip hmem
  have hbest : '%' ∈ heavier p.1 :=
    percent_mem_of_weight (h.bounds hadm).2 ((weight_of_percent_mem hsign).trans hle)
  obtain ⟨hlt, hshown⟩ := (h.weight_shown hp hadm).2 hbest
  refine ⟨heavier, hadmissible, mem_spell_shownTexts hp hshown, ?_⟩
  rw [weight_spell hlength.symm, weight_spell (length_shownTexts heavier)]
  refine Nat.add_lt_add_left ?_ _
  have hsum : shownTexts pieces heavier =
      (pieces.params.zip texts).map fun e => shown (heavier e.1.1) e.1.2 := by
    rw [shownTexts]
    conv_lhs => rw [hpairs]
    rw [List.map_map]
    rfl
  rw [hsum, List.map_map]
  conv_lhs => rw [htexts]
  rw [List.map_map]
  refine List.sum_lt_sum _ _ ?_ ⟨(p, text), hmem, hle.trans_lt hlt⟩
  rintro ⟨q, other⟩ hother
  obtain ⟨hq, hqadm, hqle⟩ := hzip hother
  exact hqle.trans (h.weight_shown hq hqadm).1

theorem Declared.weight_filled_le (h : Declared manifest family pieces)
    {value : List Char → List Char}
    (hvalue : ∀ p ∈ pieces.params, Admissible manifest family p.1 (value p.1)) :
    weight (spell pieces.whole (shownTexts pieces value)) ≤
      weight (literals pieces.whole) + pieces.params.length * (12 * 4096 * 4098) := by
  rw [weight_spell (length_shownTexts value)]
  have hone : ∀ n ∈ (shownTexts pieces value).map weight, n ≤ 12 * 4096 * 4098 := by
    intro n hn
    obtain ⟨text, htext, rfl⟩ := List.mem_map.mp hn
    obtain ⟨p, hp, rfl⟩ := List.mem_map.mp htext
    have hlength : (shown (value p.1) p.2).length ≤ 12 * 4096 := by
      have hshort := (h.bounds (hvalue p hp)).2
      unfold shown
      split
      · omega
      · exact (length_encodeSegment_le _).trans (Nat.mul_le_mul_left 12 hshort)
    have hcount := List.count_le_length (a := '%') (l := shown (value p.1) p.2)
    rw [weight]
    omega
  have hsum := List.sum_le_card_nsmul _ _ hone
  rw [List.length_map, shownTexts, List.length_map, smul_eq_mul] at hsum
  exact Nat.add_le_add_left hsum _

/-- No filled URL has a percent sign. -/
theorem Declared.no_percent (h : Declared manifest family pieces)
    (hexact : Exact manifest family) {value : List Char → List Char}
    (hvalue : ∀ p ∈ pieces.params, Admissible manifest family p.1 (value p.1)) :
    '%' ∉ spell pieces.whole (shownTexts pieces value) := by
  intro hpercent
  have hheavy (n : Nat) : ∃ heavy : List Char → List Char,
      (∀ p ∈ pieces.params, Admissible manifest family p.1 (heavy p.1)) ∧
      '%' ∈ spell pieces.whole (shownTexts pieces heavy) ∧
      n ≤ weight (spell pieces.whole (shownTexts pieces heavy)) := by
    induction n with
    | zero => exact ⟨value, hvalue, hpercent, Nat.zero_le _⟩
    | succ n ih =>
        obtain ⟨heavy, hheavy, hsign, hle⟩ := ih
        obtain ⟨heavier, hheavier, hsign, hlt⟩ := h.exists_heavier hexact hheavy hsign
        exact ⟨heavier, hheavier, hsign, by omega⟩
  obtain ⟨heavy, hadmissible, -, hle⟩ := hheavy
    (weight (literals pieces.whole) + pieces.params.length * (12 * 4096 * 4098) + 1)
  have hbound := h.weight_filled_le hadmissible
  omega

/-- Any admissible value can stand at its place. -/
theorem Declared.exists_standing (h : Declared manifest family pieces) {p : List Char × Bool}
    {text : List Char} (htext : Admissible manifest family p.1 text) :
    ∃ value : List Char → List Char, value p.1 = text ∧
      ∀ q ∈ pieces.params, Admissible manifest family q.1 (value q.1) := by
  classical
  obtain ⟨value, hvalue⟩ := h.exists_admissible
  refine ⟨Function.update value p.1 text, Function.update_self _ _ _, fun q hq => ?_⟩
  by_cases heq : q.1 = p.1
  · rw [heq, Function.update_self]
    exact htext
  · rw [Function.update_of_ne heq]
    exact hvalue q hq

theorem Declared.readable_of_exact (h : Declared manifest family pieces)
    (hexact : Exact manifest family) {p : List Char × Bool} (hp : p ∈ pieces.params)
    (hpath : p.2 = false) {text : List Char} (htext : Admissible manifest family p.1 text) :
    Readable text := by
  obtain ⟨value, rfl, hvalue⟩ := h.exists_standing htext
  have hshown : shown (value p.1) p.2 = encodeSegment (value p.1) := by rw [hpath]; rfl
  have hencoded : encodeSegment (value p.1) = value p.1 := by
    refine (encodeSegment_eq_or _).resolve_right fun hpercent => ?_
    exact h.no_percent hexact hvalue (mem_spell_shownTexts hp (by rw [hshown]; exact hpercent))
  refine ⟨hencoded, fun hdot => ?_⟩
  obtain ⟨texts, hfits, hspell⟩ := h.exists_reading hexact hvalue
  rw [h.trimEnd_filled (h.noSlash_of_exact hexact) hvalue] at hspell
  have hread : (texts.map fun text => text.count '.').sum = 0 := by
    rw [List.sum_eq_zero_iff]
    intro n hn
    obtain ⟨text, htext, rfl⟩ := List.mem_map.mp hn
    obtain ⟨name, -, hfit⟩ := exists_fitting hfits htext
    exact List.count_eq_zero_of_not_mem hfit.dot_not_mem
  have hcount := congrArg (List.count '.') hspell
  rw [count_spell _ hfits.length_eq.symm, count_spell _ (length_shownTexts value), hread] at hcount
  have hone : (value p.1).count '.' ≤
      ((shownTexts pieces value).map fun text => text.count '.').sum := by
    refine List.single_le_sum (fun n _ => Nat.zero_le n) _
      (List.mem_map.mpr ⟨shown (value p.1) p.2, List.mem_map.mpr ⟨p, hp, rfl⟩, ?_⟩)
    rw [hshown, hencoded]
  have hpos := List.count_pos_iff.mpr hdot
  omega

theorem Declared.invertible_of_exact (h : Declared manifest family pieces)
    (hexact : Exact manifest family) : Invertible manifest family pieces.template := by
  have hslash := h.noSlash_of_exact hexact
  have hreadable : ∀ p ∈ pieces.params, p.2 = false → ∀ text,
      Admissible manifest family p.1 text → Readable text :=
    fun p hp hpath text htext => h.readable_of_exact hexact hp hpath htext
  refine ⟨hslash, by rw [h.paramsOf_eq]; exact hreadable, ?_⟩
  rw [pieces.splitOf_eq]
  intro texts hfits
  have hadmits := h.endpointAdmits_iff.mpr ⟨texts, hfits, (trimEnd_read hslash hfits).symm⟩
  obtain ⟨values, filled, hvalid, hfill, htrim⟩ := (hexact _).mp hadmits
  have haccepted := validateConfigValues_ok_iff.mp hvalid
  rw [h.fillEndpoint_eq haccepted] at hfill
  cases hfill
  have hused := fun p hp => (h.usedValue_eq haccepted (p := p) hp).2
  have hstands := fun p hp => h.shown_fits hreadable (p := p) hp (hused p hp)
  refine ⟨used manifest family values, ?_, ?_⟩
  · intro name hname
    obtain ⟨p, hp, rfl⟩ := mem_params_of_name hname
    exact (hstands p hp).2
  · change trimEnd (spell pieces.whole (shownTexts pieces (used manifest family values))) = _
      at htrim
    rw [h.trimEnd_filled hslash hused, trimEnd_read hslash hfits,
      shownTexts_eq fun p hp => (hstands p hp).1] at htrim
    exact htrim

end

/-- Matching is exact for the templates that can be read back. -/
theorem endpoint_admits_exact_iff {manifest : ComponentManifestV1} {family template : List Char}
    (hvalid : manifest.validateEndpoints = .ok ())
    (hget : manifest.endpoint.get family = some template) :
    Exact manifest family ↔ Invertible manifest family template := by
  obtain ⟨pieces, rfl, h⟩ := declared_of_validateEndpoints hvalid hget
  exact ⟨h.invertible_of_exact, h.exact_of_invertible⟩

/-- A version in the path, of any token. -/
def versionTemplate : List Char := "https://api.example.com/\x7bversion\x7d".toList

def versionKeys : ConfigKeys := .ofList [("version".toList, ⟨.token, true, none⟩)]

def versionManifest : ComponentManifestV1 where
  providers := ["acme".toList]
  configSchema := .ofList [("acme".toList, versionKeys)]
  endpoint := .ofList [("acme".toList, versionTemplate)]

theorem version_valid : versionManifest.validateEndpoints = .ok () := by decide +kernel

theorem version_exact_iff :
    Exact versionManifest "acme".toList ↔
      Invertible versionManifest "acme".toList versionTemplate :=
  endpoint_admits_exact_iff version_valid (by decide)

/-- `1.5` is a token, and the URL it fills is not matched. -/
theorem version_not_exact :
    ∃ manifest family, manifest.validateEndpoints = .ok () ∧
      (manifest.endpoint.get family).isSome = true ∧ ¬ Exact manifest family := by
  refine ⟨versionManifest, "acme".toList, version_valid, by decide, fun hexact => ?_⟩
  have hadmits := (hexact "https://api.example.com/1.5".toList).mpr
    ⟨.ofList [("version".toList, "1.5".toList)], "https://api.example.com/1.5".toList,
      by decide +kernel, by decide +kernel, rfl⟩
  revert hadmits
  decide +kernel

end TokenStation.Manifest
