import TokenStation.Manifest.Endpoint

/-!
# Declared endpoints

What a validated manifest says about a family's endpoint: every parameter is a
declared key with a well-formed syntax, accepted values have their syntaxes,
and any choice of admissible values is a choice of the operator.
-/

namespace TokenStation.Manifest

open Library Library.Checked Library.TextCuts

/-- What validation grants for one key. -/
structure ConfigKeyV1.Sound (declaration : ConfigKeyV1) : Prop where
  wellFormed : declaration.syn.isWellFormed = true
  optional : ∀ default, declaration.default = some default →
    declaration.required = false ∧ declaration.syn.admits default = true

/-- A family with a declared endpoint. -/
structure Declared (manifest : ComponentManifestV1) (family : List Char)
    (pieces : TemplatePieces) : Prop where
  endpoint : manifest.endpoint.get family = some pieces.template
  accepted : templateParams pieces.template = .ok pieces.params
  keys : ∀ key declaration, (manifest.keysOf family).get key = some declaration →
    declaration.Sound
  params : ∀ p ∈ pieces.params, ∃ declaration,
    (manifest.keysOf family).get p.1 = some declaration ∧
      (declaration.required = true ∨ declaration.default ≠ none) ∧
      (p.2 = true → declaration.syn.isLabelSafe = true)

theorem checkKey_ok {family key : List Char} {declaration : ConfigKeyV1}
    (h : checkKey family (key, declaration) = .ok ()) : declaration.Sound := by
  simp only [checkKey, bind_eq_ok, refuse_eq_ok] at h
  obtain ⟨-, -, -, hwell, h⟩ := h
  refine ⟨Bool.eq_true_of_not_eq_false hwell, ?_⟩
  intro default hdefault
  rw [hdefault] at h
  simp only [bind_eq_ok, refuse_eq_ok] at h
  obtain ⟨-, hrequired, hadmits⟩ := h
  exact ⟨Bool.eq_false_of_not_eq_true hrequired, Bool.eq_true_of_not_eq_false hadmits⟩

theorem key_of_checkKey {family key : List Char} {declaration : ConfigKeyV1}
    (h : checkKey family (key, declaration) = .ok ()) :
    key ≠ [] ∧ utf8Len key ≤ 64 ∧ key.all isNameChar = true := by
  simp only [checkKey, bind_eq_ok, refuse_eq_ok, not_or, not_lt, Bool.not_eq_false] at h
  obtain ⟨-, hname, -⟩ := h
  exact hname

/-- Each key of a family passed its check. -/
theorem checkKey_of_validateEndpoints {manifest : ComponentManifestV1} {family key : List Char}
    {declaration : ConfigKeyV1} (hvalid : manifest.validateEndpoints = .ok ())
    (hkey : (manifest.keysOf family).get key = some declaration) :
    checkKey family (key, declaration) = .ok () := by
  simp only [ComponentManifestV1.validateEndpoints, bind_eq_ok, forM_eq_ok] at hvalid
  obtain ⟨-, hschema, -⟩ := hvalid
  rw [ComponentManifestV1.keysOf] at hkey
  cases hkeys : manifest.configSchema.get family with
  | none =>
      rw [hkeys] at hkey
      cases hkey
  | some keys =>
      rw [hkeys, Option.getD_some] at hkey
      have hfamily := hschema (family, keys) (SortedMap.mem_entries_iff.mpr hkeys)
      simp only [checkKeys, bind_eq_ok, refuse_eq_ok, forM_eq_ok] at hfamily
      obtain ⟨-, -, hfamily⟩ := hfamily
      exact hfamily (key, declaration) (SortedMap.mem_entries_iff.mpr hkey)

theorem checkParam_ok {family : List Char} {keys : Option ConfigKeys} {name : List Char}
    {inHost : Bool} (h : checkParam family keys (name, inHost) = .ok ()) :
    ∃ declaration, keys.bind (·.get name) = some declaration ∧
      (declaration.required = true ∨ declaration.default ≠ none) ∧
      (inHost = true → declaration.syn.isLabelSafe = true) := by
  simp only [checkParam] at h
  split at h
  · cases h
  · rename_i declaration hget
    simp only [bind_eq_ok, refuse_eq_ok] at h
    obtain ⟨-, hpresent, hsafe⟩ := h
    refine ⟨declaration, hget, ?_, ?_⟩
    · by_cases hrequired : declaration.required = true
      · exact .inl hrequired
      · exact .inr fun hnone => hpresent ⟨Bool.eq_false_of_not_eq_true hrequired, hnone⟩
    · intro hhost
      by_contra hnot
      exact hsafe ⟨hhost, Bool.eq_false_of_not_eq_true hnot⟩

theorem declared_of_validateEndpoints {manifest : ComponentManifestV1} {family : List Char}
    {template : List Char} (hvalid : manifest.validateEndpoints = .ok ())
    (hget : manifest.endpoint.get family = some template) :
    ∃ pieces : TemplatePieces, template = pieces.template ∧ Declared manifest family pieces := by
  have hendpoints := hvalid
  simp only [ComponentManifestV1.validateEndpoints, bind_eq_ok, forM_eq_ok] at hendpoints
  obtain ⟨-, -, hendpoint⟩ := hendpoints
  have hcheck := hendpoint (family, template) (SortedMap.mem_entries_iff.mpr hget)
  simp only [checkEndpoint, bind_eq_ok, refuse_eq_ok] at hcheck
  obtain ⟨-, -, hcheck⟩ := hcheck
  split at hcheck
  · cases hcheck
  · rename_i params hparams
    obtain ⟨pieces, rfl, rfl⟩ := exists_pieces hparams
    rw [forM_eq_ok] at hcheck
    refine ⟨pieces, rfl, hget, hparams, ?_, ?_⟩
    · intro key declaration hkey
      exact checkKey_ok (checkKey_of_validateEndpoints hvalid hkey)
    · intro p hp
      obtain ⟨declaration, hdeclaration, hrest⟩ := checkParam_ok (hcheck p hp)
      refine ⟨declaration, ?_, hrest⟩
      rw [ComponentManifestV1.keysOf]
      cases hkeys : manifest.configSchema.get family with
      | none => rw [hkeys] at hdeclaration; cases hdeclaration
      | some keys => rw [hkeys] at hdeclaration; exact hdeclaration

/-! ## Accepted values -/

section Values

variable {manifest : ComponentManifestV1} {family : List Char} {values : ConfigValues}

/-- Values the family's keys accept. -/
structure Accepted (manifest : ComponentManifestV1) (family : List Char)
    (values : ConfigValues) : Prop where
  known : ∀ key, (manifest.keysOf family).get key = none → values.get key = none
  present : ∀ key declaration, (manifest.keysOf family).get key = some declaration →
    values.get key = none → declaration.required = false
  admitted : ∀ key declaration, (manifest.keysOf family).get key = some declaration →
    ∀ value, values.get key = some value → declaration.syn.admits value = true

theorem checkValue_ok_iff {key : List Char} {declaration : ConfigKeyV1} :
    checkValue values (key, declaration) = .ok () ↔
      (values.get key = none → declaration.required = false) ∧
        ∀ value, values.get key = some value → declaration.syn.admits value = true := by
  simp only [checkValue]
  cases values.get key with
  | none => simp [refuse_eq_ok]
  | some value => simp [refuse_eq_ok]

theorem validateConfigValues_ok_iff :
    manifest.validateConfigValues family values = .ok () ↔ Accepted manifest family values := by
  simp only [ComponentManifestV1.validateConfigValues]
  constructor
  · intro h
    split at h
    · cases h
    · rename_i hfind
      rw [List.find?_eq_none] at hfind
      rw [forM_eq_ok] at h
      have hkey (key : List Char) (declaration : ConfigKeyV1)
          (hget : (manifest.keysOf family).get key = some declaration) :=
        checkValue_ok_iff.mp (h (key, declaration) (SortedMap.mem_entries_iff.mpr hget))
      refine ⟨?_, fun key declaration hget => (hkey key declaration hget).1,
        fun key declaration hget => (hkey key declaration hget).2⟩
      intro key hnone
      by_contra hsome
      obtain ⟨value, hvalue⟩ := Option.ne_none_iff_exists'.mp hsome
      have hentry := hfind (key, value) (SortedMap.mem_entries_iff.mpr hvalue)
      simp [hnone] at hentry
  · intro h
    split
    · rename_i unknown hfind
      have hnone := List.find?_some hfind
      have hget := SortedMap.mem_entries_iff.mp (List.mem_of_find?_eq_some hfind)
      rw [Option.isNone_iff_eq_none] at hnone
      rw [h.known _ hnone] at hget
      cases hget
    · rw [forM_eq_ok]
      rintro ⟨key, declaration⟩ hentry
      have hget := SortedMap.mem_entries_iff.mp hentry
      exact checkValue_ok_iff.mpr ⟨h.present key declaration hget, h.admitted key declaration hget⟩

/-- A text some admissible value of the key has. -/
def Admissible (manifest : ComponentManifestV1) (family name text : List Char) : Prop :=
  ∃ declaration, (manifest.keysOf family).get name = some declaration ∧
    declaration.syn.admits text = true

variable {pieces : TemplatePieces}

/-- Every parameter has an admissible value, the operator's or the default. -/
theorem Declared.exists_usedValue (h : Declared manifest family pieces)
    (hvalues : Accepted manifest family values) {p : List Char × Bool} (hp : p ∈ pieces.params) :
    ∃ text, manifest.usedValue family values p.1 = some text ∧
      Admissible manifest family p.1 text := by
  obtain ⟨declaration, hget, hpresent, -⟩ := h.params p hp
  cases hvalue : values.get p.1 with
  | some text =>
      refine ⟨text, by rw [ComponentManifestV1.usedValue, hvalue]; rfl, declaration, hget, ?_⟩
      exact hvalues.admitted p.1 declaration hget text hvalue
  | none =>
      have hoptional := hvalues.present p.1 declaration hget hvalue
      have hdefault : declaration.default ≠ none := by
        rcases hpresent with hrequired | hdefault
        · rw [hoptional] at hrequired
          cases hrequired
        · exact hdefault
      obtain ⟨default, hdefault⟩ := Option.ne_none_iff_exists'.mp hdefault
      refine ⟨default, ?_, declaration, hget, ((h.keys p.1 declaration hget).optional _ hdefault).2⟩
      rw [ComponentManifestV1.usedValue, hvalue, hget]
      exact hdefault

/-- The value a parameter was filled with. -/
def used (manifest : ComponentManifestV1) (family : List Char) (values : ConfigValues)
    (name : List Char) : List Char := (manifest.usedValue family values name).getD []

theorem Declared.usedValue_eq (h : Declared manifest family pieces)
    (hvalues : Accepted manifest family values) {p : List Char × Bool} (hp : p ∈ pieces.params) :
    manifest.usedValue family values p.1 = some (used manifest family values p.1) ∧
      Admissible manifest family p.1 (used manifest family values p.1) := by
  obtain ⟨text, hused, hadmissible⟩ := h.exists_usedValue hvalues hp
  rw [used, hused]
  exact ⟨rfl, hadmissible⟩

/-- What an operator's values spell. -/
theorem Declared.fillEndpoint_eq (h : Declared manifest family pieces)
    (hvalues : Accepted manifest family values) :
    manifest.fillEndpoint family values = .ok (some (spell pieces.whole
      (pieces.params.map fun p => shown (used manifest family values p.1) p.2))) := by
  have hused : ∀ name ∈ pieces.params.map Prod.fst,
      manifest.usedValue family values name = some (used manifest family values name) := by
    intro name hname
    obtain ⟨p, hp, rfl⟩ := List.mem_map.mp hname
    exact (h.usedValue_eq hvalues hp).1
  have hfill := pieces.fillTemplate_eq hused
  rw [ComponentManifestV1.fillEndpoint, h.endpoint]
  dsimp only
  rw [validateConfigValues_ok_iff.mpr hvalues, hfill]
  rfl

/-- Only accepted values fill an endpoint. -/
theorem Declared.accepted_of_fillEndpoint (h : Declared manifest family pieces)
    {filled : Option (List Char)} (hfill : manifest.fillEndpoint family values = .ok filled) :
    Accepted manifest family values := by
  rw [ComponentManifestV1.fillEndpoint, h.endpoint] at hfill
  simp only [bind_eq_ok] at hfill
  obtain ⟨_, hvalid, -⟩ := hfill
  exact validateConfigValues_ok_iff.mp hvalid

/-- Admissible texts, one for each parameter, are what some values use. -/
theorem Declared.exists_values (h : Declared manifest family pieces)
    {value : List Char → List Char}
    (hvalue : ∀ p ∈ pieces.params, Admissible manifest family p.1 (value p.1)) :
    ∃ values, Accepted manifest family values ∧
      ∀ p ∈ pieces.params, used manifest family values p.1 = value p.1 := by
  classical
  have hexists (key : List Char) (declaration : ConfigKeyV1) : ∃ text,
      ((manifest.keysOf family).get key = some declaration → declaration.syn.admits text = true) ∧
        (Admissible manifest family key (value key) → text = value key) := by
    by_cases hadmissible : Admissible manifest family key (value key)
    · refine ⟨value key, fun hget => ?_, fun _ => rfl⟩
      obtain ⟨other, hother, hadmits⟩ := hadmissible
      rw [hget] at hother
      cases hother
      exact hadmits
    · by_cases hget : (manifest.keysOf family).get key = some declaration
      · obtain ⟨text, htext⟩ :=
          ValueSyntaxV1.exists_admits (h.keys key declaration hget).wellFormed
        exact ⟨text, fun _ => htext, fun hnot => absurd hnot hadmissible⟩
      · exact ⟨[], fun hnot => absurd hnot hget, fun hnot => absurd hnot hadmissible⟩
  choose text hadmits htext using hexists
  refine ⟨(manifest.keysOf family).mapValues text, ⟨?_, ?_, ?_⟩, ?_⟩
  · intro key hnone
    rw [SortedMap.get_mapValues, hnone]
    rfl
  · intro key declaration hget hnone
    rw [SortedMap.get_mapValues, hget] at hnone
    cases hnone
  · intro key declaration hget value hsome
    rw [SortedMap.get_mapValues, hget] at hsome
    cases hsome
    exact hadmits key declaration hget
  · intro p hp
    obtain ⟨declaration, hget, -⟩ := hvalue p hp
    rw [used, ComponentManifestV1.usedValue, SortedMap.get_mapValues, hget]
    exact htext p.1 declaration (hvalue p hp)

/-- Every parameter can be filled. -/
theorem Declared.exists_admissible (h : Declared manifest family pieces) :
    ∃ value : List Char → List Char, ∀ p ∈ pieces.params, Admissible manifest family p.1 (value p.1) := by
  classical
  have hexists (name : List Char) : ∃ text, ∀ p ∈ pieces.params, p.1 = name →
      Admissible manifest family name text := by
    by_cases hname : ∃ p ∈ pieces.params, p.1 = name
    · obtain ⟨p, hp, rfl⟩ := hname
      obtain ⟨declaration, hget, -⟩ := h.params p hp
      obtain ⟨text, htext⟩ := ValueSyntaxV1.exists_admits (h.keys p.1 declaration hget).wellFormed
      exact ⟨text, fun _ _ _ => ⟨declaration, hget, htext⟩⟩
    · exact ⟨[], fun p hp heq => absurd ⟨p, hp, heq⟩ hname⟩
  choose value hvalue using hexists
  exact ⟨value, fun p hp => hvalue p.1 p hp rfl⟩

end Values

end TokenStation.Manifest
