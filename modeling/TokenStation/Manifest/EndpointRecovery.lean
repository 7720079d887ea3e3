import TokenStation.Manifest.EndpointExact
import TokenStation.Manifest.Recovery

/-!
# Recovering the values of a filled endpoint

The values a URL was filled from come back when it has no other reading, when
they stand in it as they are, and when no required key is left out of the
template.
-/

namespace TokenStation.Manifest

open Library Library.Checked Library.TextCuts

/-- The URL gives back the values its parameters were filled with, or it is
refused as ambiguous. -/
def Recovers (manifest : ComponentManifestV1) (family template : List Char)
    (values : ConfigValues) (url : List Char) : Prop :=
  manifest.endpointValues family url = .error .ambiguous ∨
    ∃ recovered, manifest.endpointValues family url = .ok recovered ∧
      ∀ name, recovered.get name =
        if name ∈ names (splitOf template) then manifest.usedValue family values name else none

/-- Two ways to read a URL. -/
def Ambiguous (manifest : ComponentManifestV1) (family template url : List Char) : Prop :=
  ∃ values other, values ≠ other ∧
    ReadsAs (manifest.syntaxOf family) (splitOf template) (trimEnd url) .empty values ∧
    ReadsAs (manifest.syntaxOf family) (splitOf template) (trimEnd url) .empty other

/-- The values stand in the URL as they are, and they are all that is required. -/
structure Recoverable (manifest : ComponentManifestV1) (family template : List Char)
    (values : ConfigValues) : Prop where
  noSlash : template.getLast? ≠ some '/'
  readable : ∀ p ∈ paramsOf template, p.2 = false →
    Readable (used manifest family values p.1)
  required : ∀ key declaration, (manifest.keysOf family).get key = some declaration →
    declaration.required = true → key ∈ names (splitOf template)

section

variable {manifest : ComponentManifestV1} {family : List Char} {pieces : TemplatePieces}
  {values : ConfigValues}

/-- The values of the template's parameters alone. -/
def usedValues (manifest : ComponentManifestV1) (family : List Char) (split : List Part)
    (values : ConfigValues) : ConfigValues :=
  SortedMap.empty.insertAll
    ((names split).map fun name => (name, used manifest family values name))

theorem get_usedValues (split : List Part) (name : List Char) :
    (usedValues manifest family split values).get name =
      if name ∈ names split then some (used manifest family values name) else none := by
  rw [usedValues, SortedMap.get_insertAll, SortedMap.get_empty]
  by_cases hname : name ∈ names split
  · rw [if_pos hname, if_pos hname]
  · rw [if_neg hname, if_neg hname]

theorem Declared.usedValue_of_name (h : Declared manifest family pieces)
    (hvalues : Accepted manifest family values) {name : List Char}
    (hname : name ∈ names pieces.whole) :
    manifest.usedValue family values name = some (used manifest family values name) := by
  obtain ⟨p, hp, rfl⟩ := mem_params_of_name hname
  exact (h.usedValue_eq hvalues hp).1

/-- The values a template was filled with are a reading of the URL. -/
theorem Declared.readsAs_used (h : Declared manifest family pieces)
    (hvalues : Accepted manifest family values)
    (hrecoverable : Recoverable manifest family pieces.template values) :
    ReadsAs (manifest.syntaxOf family) pieces.whole
      (spell pieces.whole (shownTexts pieces (used manifest family values))) .empty
      (usedValues manifest family pieces.whole values) := by
  have hreadable := hrecoverable.readable
  rw [h.paramsOf_eq] at hreadable
  have hstands (p : List Char × Bool) (hp : p ∈ pieces.params) :
      shown (used manifest family values p.1) p.2 = used manifest family values p.1 ∧
        Fits (manifest.syntaxOf family) p.1 (used manifest family values p.1) := by
    have hadmissible := (h.usedValue_eq hvalues hp).2
    cases hhost : p.2 with
    | true =>
        have hlabel := h.isDnsLabel hp hhost hadmissible
        exact ⟨rfl, h.fits hadmissible (plain_of_not_mem (isDnsLabel_not_mem hlabel (by decide))
          (isDnsLabel_not_mem hlabel (by decide)))⟩
    | false =>
        obtain ⟨hencoded, hdotless⟩ := hreadable p hp hhost
        have hslash := slash_not_mem_encodeSegment (used manifest family values p.1)
        rw [hencoded] at hslash
        exact ⟨hencoded, h.fits hadmissible (plain_of_not_mem hslash hdotless)⟩
  refine ⟨fun _ _ hget => (Option.some_ne_none _ hget.symm).elim, ?_, ?_, ?_⟩
  · intro name hname
    rw [get_usedValues] at hname
    right
    by_contra hnot
    exact hname (if_neg hnot)
  · intro name hname
    obtain ⟨p, hp, rfl⟩ := mem_params_of_name hname
    exact ⟨_, by rw [get_usedValues, if_pos hname], (hstands p hp).2⟩
  · rw [shownTexts_eq fun p hp => (hstands p hp).1]
    refine congrArg _ (List.map_congr_left fun name hname => ?_)
    rw [get_usedValues, if_pos hname]
    rfl

/-- What a filled URL weighs tells whether anything was encoded. -/
theorem Declared.encoded_of_spell (h : Declared manifest family pieces)
    {value : List Char → List Char}
    (hvalue : ∀ p ∈ pieces.params, Admissible manifest family p.1 (value p.1))
    (hspell : spell pieces.whole ((names pieces.whole).map value) =
      spell pieces.whole (shownTexts pieces value)) :
    ∀ p ∈ pieces.params, p.2 = false → encodeSegment (value p.1) = value p.1 := by
  intro p hp hpath
  by_contra hne
  have hescaped : ∃ c ∈ value p.1, isSegmentChar c = false := by
    by_contra hnone
    simp only [not_exists, not_and, Bool.not_eq_false] at hnone
    exact hne (encodeSegment_of_segment hnone)
  have hweight := congrArg weight hspell
  rw [weight_spell (List.length_map _), weight_spell (length_shownTexts value),
    ← pieces.names_params, shownTexts, List.map_map, List.map_map, List.map_map] at hweight
  have hlt := List.sum_lt_sum (l := pieces.params) (fun p => weight (value p.1))
    (fun p => weight (shown (value p.1) p.2)) (fun q hq => (h.weight_shown hq (hvalue q hq)).1)
    ⟨p, hp, by rw [hpath]; exact ((weight_encodeSegment (value p.1)).2 hescaped).1⟩
  exact absurd (Nat.add_left_cancel hweight) hlt.ne

theorem trimEnd_length_le (url : List Char) : utf8Len (trimEnd url) ≤ utf8Len url := by
  obtain ⟨front, hfront⟩ := List.rdropWhile_prefix isSlash (l := url)
  calc utf8Len (trimEnd url) ≤ utf8Len (trimEnd url) + utf8Len front := Nat.le_add_right _ _
    _ = utf8Len url := by rw [← utf8Len_append]; exact congrArg utf8Len hfront

/-- A single reading, filled again. -/
def confirmed (manifest : ComponentManifestV1) (family text : List Char) (found : ConfigValues) :
    Except EndpointValuesErrorV1 ConfigValues :=
  match manifest.fillEndpoint family found with
  | .ok (some filled) => if filled = text then .ok found else .error .notThisEndpoint
  | _ => .error .notThisEndpoint

theorem confirmed_ne_ambiguous (text : List Char) (found : ConfigValues) :
    confirmed manifest family text found ≠ .error .ambiguous := by
  unfold confirmed
  split
  · split
    · exact fun h => by cases h
    · exact fun h => by cases h
  · exact fun h => by cases h

theorem confirmed_eq_ok_iff {text : List Char} {found recovered : ConfigValues} :
    confirmed manifest family text found = .ok recovered ↔
      manifest.fillEndpoint family found = .ok (some text) ∧ found = recovered := by
  unfold confirmed
  split
  · rename_i filled hfill
    rw [hfill]
    split
    · rename_i hsame
      rw [hsame]
      exact ⟨fun h => ⟨rfl, Except.ok.inj h⟩, fun h => by rw [h.2]⟩
    · rename_i hdiffers
      refine iff_of_false (fun h => by cases h) fun h => ?_
      exact hdiffers (Option.some.inj (Except.ok.inj h.1))
  · rename_i hnone
    exact iff_of_false (fun h => by cases h) fun h => hnone text h.1

/-- What the search hands on. -/
theorem Declared.endpointValues_eq (h : Declared manifest family pieces) {url : List Char}
    (hlength : utf8Len url ≤ maxBaseUrlBytes) :
    manifest.endpointValues family url =
      match (readings (manifest.syntaxOf family) pieces.whole (trimEnd url) .empty).take 2 with
      | [] => .error .notThisEndpoint
      | [found] => confirmed manifest family (trimEnd url) found
      | _ => .error .ambiguous := by
  have hshort := (trimEnd_length_le url).trans hlength
  rw [ComponentManifestV1.endpointValues, h.endpoint]
  dsimp only
  rw [pieces.parts_eq]
  dsimp only
  rw [if_neg (not_lt.mpr hshort), fills_eq (Nat.zero_le 2), List.nil_append]
  rfl

theorem mem_readings_of_pieces {url : List Char} {found : ConfigValues} :
    found ∈ readings (manifest.syntaxOf family) pieces.whole (trimEnd url) .empty ↔
      ReadsAs (manifest.syntaxOf family) (splitOf pieces.template) (trimEnd url) .empty found := by
  rw [mem_readings_iff, pieces.splitOf_eq]

/-- The only reading, and what follows when it is given back. -/
theorem Declared.recoverable_of_recovered (h : Declared manifest family pieces)
    (hvalues : Accepted manifest family values) {recovered : ConfigValues} {filled : List Char}
    (hreads : ReadsAs (manifest.syntaxOf family) pieces.whole
      (trimEnd (spell pieces.whole (shownTexts pieces (used manifest family values)))) .empty
      recovered)
    (hfill : manifest.fillEndpoint family recovered = .ok (some filled))
    (hsame : filled =
      trimEnd (spell pieces.whole (shownTexts pieces (used manifest family values))))
    (hget : ∀ name, recovered.get name =
      if name ∈ names pieces.whole then manifest.usedValue family values name else none) :
    Recoverable manifest family pieces.template values := by
  have hadmissible := fun p hp => (h.usedValue_eq hvalues (p := p) hp).2
  have haccepted := h.accepted_of_fillEndpoint hfill
  have hgetUsed {name : List Char} (hname : name ∈ names pieces.whole) :
      recovered.get name = some (used manifest family values name) := by
    rw [hget, if_pos hname, h.usedValue_of_name hvalues hname]
  have husedSame : shownTexts pieces (used manifest family recovered) =
      shownTexts pieces (used manifest family values) := by
    refine List.map_congr_left fun p hp => ?_
    have hname := name_mem_of_params hp
    have hrecovered : used manifest family recovered p.1 = used manifest family values p.1 := by
      rw [used, ComponentManifestV1.usedValue, hgetUsed hname]
      rfl
    rw [hrecovered]
  have hfilled := h.fillEndpoint_eq haccepted
  rw [hfill] at hfilled
  change Except.ok (some filled) = .ok (some (spell pieces.whole
    (shownTexts pieces (used manifest family recovered)))) at hfilled
  rw [husedSame] at hfilled
  obtain rfl := Option.some.inj (Except.ok.inj hfilled)
  have hread : spell pieces.whole ((names pieces.whole).map (used manifest family values)) =
      spell pieces.whole (shownTexts pieces (used manifest family values)) := by
    rw [← hsame] at hreads
    conv_rhs => rw [← hreads.spells]
    refine congrArg _ (List.map_congr_left fun name hname => ?_)
    rw [hgetUsed hname]
    rfl
  refine ⟨?_, ?_, ?_⟩
  · rw [Ne, ← h.last_slash hadmissible, hsame]
    exact trimEnd_getLast? _
  · rw [h.paramsOf_eq]
    intro p hp hpath
    refine ⟨h.encoded_of_spell hadmissible hread p hp hpath, ?_⟩
    obtain ⟨taker, htaker, hfits⟩ := hreads.fits p.1 (name_mem_of_params hp)
    rw [hgetUsed (name_mem_of_params hp)] at htaker
    cases htaker
    exact hfits.dot_not_mem
  · rw [pieces.splitOf_eq]
    intro key declaration hkey hrequired
    by_contra hnot
    have hnone : recovered.get key = none := by rw [hget, if_neg hnot]
    rw [haccepted.present key declaration hkey hnone] at hrequired
    cases hrequired

/-- The values the parameters were filled with fill the endpoint again. -/
theorem Declared.fillEndpoint_used (h : Declared manifest family pieces)
    (hvalues : Accepted manifest family values)
    (hrecoverable : Recoverable manifest family pieces.template values) :
    manifest.fillEndpoint family (usedValues manifest family pieces.whole values) =
      .ok (some (spell pieces.whole (shownTexts pieces (used manifest family values)))) := by
  have hrequired := hrecoverable.required
  rw [pieces.splitOf_eq] at hrequired
  have haccepted : Accepted manifest family (usedValues manifest family pieces.whole values) := by
    refine ⟨?_, ?_, ?_⟩
    · intro key hnone
      rw [get_usedValues, if_neg]
      intro hname
      obtain ⟨p, hp, rfl⟩ := mem_params_of_name hname
      obtain ⟨declaration, hkey, -⟩ := h.params p hp
      rw [hnone] at hkey
      cases hkey
    · intro key declaration hkey hnone
      by_contra hnot
      rw [get_usedValues,
        if_pos (hrequired key declaration hkey (Bool.eq_true_of_not_eq_false hnot))] at hnone
      cases hnone
    · intro key declaration hkey value hvalue
      rw [get_usedValues] at hvalue
      split at hvalue
      · rename_i hname
        cases hvalue
        obtain ⟨p, hp, rfl⟩ := mem_params_of_name hname
        obtain ⟨other, hother, hadmits⟩ := (h.usedValue_eq hvalues hp).2
        rw [hkey] at hother
        cases hother
        exact hadmits
      · cases hvalue
  rw [h.fillEndpoint_eq haccepted]
  change Except.ok (some (spell pieces.whole (shownTexts pieces
    (used manifest family (usedValues manifest family pieces.whole values))))) = _
  have hsame : shownTexts pieces (used manifest family (usedValues manifest family pieces.whole
      values)) = shownTexts pieces (used manifest family values) := by
    refine List.map_congr_left fun p hp => ?_
    have hrecovered : used manifest family (usedValues manifest family pieces.whole values) p.1 =
        used manifest family values p.1 := by
      rw [used, ComponentManifestV1.usedValue, get_usedValues,
        if_pos (name_mem_of_params hp)]
      rfl
    rw [hrecovered]
  rw [hsame]

end

/-- The values come back exactly when the URL is read in two ways, or the
values stand in it as they are and no required key is missing. -/
theorem endpoint_values_recover_iff {manifest : ComponentManifestV1}
    {family template url : List Char} {values : ConfigValues}
    (hvalid : manifest.validateEndpoints = .ok ())
    (hget : manifest.endpoint.get family = some template)
    (hvalues : manifest.validateConfigValues family values = .ok ())
    (hfill : manifest.fillEndpoint family values = .ok (some url))
    (hlength : utf8Len url ≤ maxBaseUrlBytes) :
    Recovers manifest family template values url ↔
      Ambiguous manifest family template url ∨
        Recoverable manifest family template values := by
  obtain ⟨pieces, rfl, h⟩ := declared_of_validateEndpoints hvalid hget
  have haccepted := validateConfigValues_ok_iff.mp hvalues
  have hfilled := h.fillEndpoint_eq haccepted
  rw [hfill] at hfilled
  change Except.ok (some url) = .ok (some (spell pieces.whole
    (shownTexts pieces (used manifest family values)))) at hfilled
  have hurl := Option.some.inj (Except.ok.inj hfilled)
  have hadmissible := fun p hp => (h.usedValue_eq haccepted (p := p) hp).2
  have hmem {found : ConfigValues} := @mem_readings_of_pieces manifest family pieces url found
  have hnodup := @nodup_readings (manifest.syntaxOf family) pieces.whole (trimEnd url) .empty
  have hown (hrecoverable : Recoverable manifest family pieces.template values) :
      trimEnd url = url ∧ usedValues manifest family pieces.whole values ∈
        readings (manifest.syntaxOf family) pieces.whole (trimEnd url) .empty := by
    have htrim := h.trimEnd_filled hrecoverable.noSlash hadmissible
    rw [← hurl] at htrim
    refine ⟨htrim, mem_readings_iff.mpr ?_⟩
    rw [htrim, hurl]
    exact h.readsAs_used haccepted hrecoverable
  rw [Recovers, h.endpointValues_eq hlength]
  match hread : readings (manifest.syntaxOf family) pieces.whole (trimEnd url) .empty with
  | [] =>
      rw [hread] at hown hmem
      refine iff_of_false ?_ ?_
      · rintro (herror | ⟨recovered, hok, -⟩)
        · cases herror
        · cases hok
      · rintro (⟨found, -, -, hfound, -⟩ | hrecoverable)
        · cases hmem.mpr hfound
        · cases (hown hrecoverable).2
  | [found] =>
      rw [hread] at hown hmem
      have hunambiguous : ¬ Ambiguous manifest family pieces.template url := by
        rintro ⟨one, other, hne, hone, hother⟩
        exact hne ((List.mem_singleton.mp (hmem.mpr hone)).trans
          (List.mem_singleton.mp (hmem.mpr hother)).symm)
      rw [or_iff_right hunambiguous]
      constructor
      · rintro (herror | ⟨recovered, hok, hrecovered⟩)
        · exact absurd herror (confirmed_ne_ambiguous _ _)
        · obtain ⟨hfoundFill, rfl⟩ := confirmed_eq_ok_iff.mp hok
          rw [pieces.splitOf_eq] at hrecovered
          refine h.recoverable_of_recovered haccepted ?_ hfoundFill (by rw [hurl]) hrecovered
          rw [← hurl, ← pieces.splitOf_eq]
          exact hmem.mp List.mem_cons_self
      · intro hrecoverable
        obtain ⟨htrim, hused⟩ := hown hrecoverable
        obtain rfl := List.mem_singleton.mp hused
        refine .inr ⟨usedValues manifest family pieces.whole values,
          confirmed_eq_ok_iff.mpr ⟨?_, rfl⟩, ?_⟩
        · rw [h.fillEndpoint_used haccepted hrecoverable, ← hurl, htrim]
        · intro name
          rw [get_usedValues, pieces.splitOf_eq]
          by_cases hname : name ∈ names pieces.whole
          · rw [if_pos hname, if_pos hname, h.usedValue_of_name haccepted hname]
          · rw [if_neg hname, if_neg hname]
  | one :: other :: more =>
      rw [hread] at hmem hnodup
      refine iff_of_true (.inl rfl) (.inl ⟨one, other, ?_, hmem.mp List.mem_cons_self,
        hmem.mp (List.mem_cons_of_mem _ List.mem_cons_self)⟩)
      rintro rfl
      exact (List.nodup_cons.mp hnodup).1 List.mem_cons_self

/-- `2024` is read back from the URL it fills. -/
theorem version_recovers_iff :
    Recovers versionManifest "acme".toList versionTemplate
        (.ofList [("version".toList, "2024".toList)]) "https://api.example.com/2024".toList ↔
      Ambiguous versionManifest "acme".toList versionTemplate
          "https://api.example.com/2024".toList ∨
        Recoverable versionManifest "acme".toList versionTemplate
          (.ofList [("version".toList, "2024".toList)]) :=
  endpoint_values_recover_iff (by decide +kernel) (by decide +kernel) (by decide +kernel)
    (by decide +kernel) (by decide +kernel)

/-- `1.5` fills a URL that gives nothing back. -/
theorem version_not_recovered :
    ∃ manifest family template values url, manifest.validateEndpoints = .ok () ∧
      manifest.endpoint.get family = some template ∧
      manifest.validateConfigValues family values = .ok () ∧
      manifest.fillEndpoint family values = .ok (some url) ∧
      utf8Len url ≤ maxBaseUrlBytes ∧ ¬ Recovers manifest family template values url := by
  refine ⟨versionManifest, "acme".toList, versionTemplate,
    .ofList [("version".toList, "1.5".toList)], "https://api.example.com/1.5".toList,
    by decide +kernel, by decide +kernel, by decide +kernel, by decide +kernel,
    by decide +kernel, ?_⟩
  have hvalues : versionManifest.endpointValues "acme".toList
      "https://api.example.com/1.5".toList = .error .notThisEndpoint := by decide +kernel
  rintro (herror | ⟨recovered, hok, -⟩)
  · rw [hvalues] at herror
    cases herror
  · rw [hvalues] at hok
    cases hok

end TokenStation.Manifest
