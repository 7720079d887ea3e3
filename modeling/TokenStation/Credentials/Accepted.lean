import TokenStation.Credentials.Check

/-!
# What gate 1 leaves of a section

The checks of an accepted section, of each of its recipes and of each of their
steps, read back one by one.
-/

namespace TokenStation.Credentials

open Library Library.Checked Manifest

variable {credentials : CredentialsV1}

theorem within_eq_ok {place : String} {x : Except String Unit} {u : Unit} :
    within place x = .ok u ↔ x = .ok () := mapError_eq_ok

/-! ## The section -/

/-- What the section's own checks leave. -/
structure Accepted (credentials : CredentialsV1) : Prop where
  fields : ∀ e ∈ credentials.fields.entries, checkField e = .ok ()
  groups : ∀ group ∈ credentials.requireOneOf, checkGroup credentials group = .ok ()
  slots : ∀ e ∈ credentials.slots.entries, checkSlotSource credentials e.1 e.2 = .ok ()
  attributes : ∀ e ∈ credentials.attributes.entries, checkAttribute credentials e = .ok ()
  apart : checkApart credentials = .ok ()
  recipes : ∀ e ∈ credentials.recipes.entries, checkNamedRecipe credentials e = .ok ()

theorem accepted_of_check {secretSlots providers : List Text}
    (h : check credentials secretSlots providers = .ok ()) : Accepted credentials := by
  simp only [check, andThen_eq_ok, forM_eq_ok, within_eq_ok] at h
  obtain ⟨-, -, hfields, hslots, -, -, hattributes, hapart, hrecipes⟩ := h
  simp only [checkFields, andThen_eq_ok, forM_eq_ok] at hfields
  refine ⟨hfields.1, hfields.2.1, ?_, hattributes, hapart, hrecipes⟩
  intro e he
  have hslot := hslots e he
  simp only [checkSlot, andThen_eq_ok] at hslot
  exact hslot.2

section Section

variable (haccepted : Accepted credentials)

include haccepted

/-- A default belongs to a field that is not secret. -/
theorem Accepted.default_of_secret {name : Text} {field : CredentialFieldV1}
    (h : credentials.fields.get name = some field) (hsecret : field.secret = true) :
    field.default = none := by
  have hfield := haccepted.fields (name, field) (SortedMap.mem_entries_iff.mpr h)
  simp only [checkField, andThen_eq_ok, refuse_eq_ok] at hfield
  have hdefault := hfield.2.2.1
  unfold checkDefault at hdefault
  split at hdefault
  · assumption
  · simp only [andThen_eq_ok, refuse_eq_ok] at hdefault
    exact absurd hsecret hdefault.1

theorem Accepted.syn_wellFormed {name : Text} {field : CredentialFieldV1} {syn : ValueSyntaxV1}
    (h : credentials.fields.get name = some field) (hsyn : field.syn = some syn) :
    syn.isWellFormed = true := by
  have hfield := haccepted.fields (name, field) (SortedMap.mem_entries_iff.mpr h)
  simp only [checkField, andThen_eq_ok, refuse_eq_ok, hsyn] at hfield
  simpa using hfield.2.1

theorem Accepted.group {group : List Text} (h : group ∈ credentials.requireOneOf) :
    group ≠ [] ∧ ∀ field ∈ group, (credentials.fields.get field).isSome := by
  have hgroup := haccepted.groups group h
  rw [checkGroup, refuse_eq_ok, not_or] at hgroup
  refine ⟨hgroup.1, fun field hfield => ?_⟩
  simpa [Option.isSome_iff_ne_none] using fun hnone =>
    hgroup.2 (List.any_eq_true.mpr ⟨field, hfield, by simpa using hnone⟩)

/-- A minted slot names a recipe. -/
theorem Accepted.minted {slot recipe : Text}
    (h : credentials.slots.get slot = some (.minted recipe)) :
    ∃ declared, credentials.recipes.get recipe = some declared := by
  have hslot := haccepted.slots (slot, .minted recipe) (SortedMap.mem_entries_iff.mpr h)
  simp only [checkSlotSource, refuse_eq_ok] at hslot
  exact Option.ne_none_iff_exists'.mp (by simpa using hslot)

theorem Accepted.isName_recipe {name : Text} {recipe : RecipeV1}
    (h : credentials.recipes.get name = some recipe) : isName name = true := by
  have hrecipe := haccepted.recipes (name, recipe) (SortedMap.mem_entries_iff.mpr h)
  simp only [checkNamedRecipe, andThen_eq_ok, refuse_eq_ok] at hrecipe
  simpa using hrecipe.1

theorem Accepted.recipe {name : Text} {recipe : RecipeV1}
    (h : credentials.recipes.get name = some recipe) :
    checkRecipe credentials name recipe = .ok () := by
  have hrecipe := haccepted.recipes (name, recipe) (SortedMap.mem_entries_iff.mpr h)
  simp only [checkNamedRecipe, andThen_eq_ok, within_eq_ok] at hrecipe
  exact hrecipe.2

theorem Accepted.complete {name : Text} {recipe : RecipeV1}
    (h : credentials.recipes.get name = some recipe) (hselect : recipe.select = []) :
    checkComplete credentials recipe = .ok () := by
  have hrecipe := haccepted.recipe h
  rwa [checkRecipe, if_neg (by simpa using hselect)] at hrecipe

theorem Accepted.selector {name : Text} {recipe : RecipeV1}
    (h : credentials.recipes.get name = some recipe) (hselect : recipe.select ≠ []) :
    checkSelector credentials name recipe = .ok () := by
  have hrecipe := haccepted.recipe h
  rwa [checkRecipe, if_pos hselect] at hrecipe

/-- No name is an attribute of the section and of a recipe. -/
theorem Accepted.not_shared {name recipe : Text} {declared : RecipeV1} {attr : AttributeV1}
    (hrecipe : credentials.recipes.get recipe = some declared)
    (hattr : declared.attributes.get name = some attr) :
    credentials.attributes.get name = none := by
  have hapart := haccepted.apart
  unfold checkApart at hapart
  split at hapart
  · rename_i hnone
    rw [sharedAttribute, List.findSome?_eq_none_iff] at hnone
    have hfound := hnone (recipe, declared) (SortedMap.mem_entries_iff.mpr hrecipe)
    rw [Option.map_eq_none_iff, List.find?_eq_none] at hfound
    simpa using hfound (name, attr) (SortedMap.mem_entries_iff.mpr hattr)
  · cases hapart

end Section

/-! ## Attributes -/

/-- An attribute of the section or of a complete recipe comes from one field that
is not secret and has a syntax. -/
theorem checkAttribute_ok {name : Text} {declared : AttributeV1}
    (h : checkAttribute credentials (name, declared) = .ok ()) :
    isName name = true ∧ declared.exports = true ∧ declared.selectedRecipe = false ∧
      ∃ field known syn, declared.field = some field ∧
        credentials.fields.get field = some known ∧ known.secret = false ∧ known.syn = some syn := by
  simp only [checkAttribute, andThen_eq_ok, refuse_eq_ok, not_or,
    Bool.not_eq_false] at h
  obtain ⟨⟨hname, hexports⟩, hsource⟩ := h
  split at hsource
  · cases hsource
  · rename_i field hfield
    simp only [andThen_eq_ok, refuse_eq_ok, not_not] at hsource
    obtain ⟨hsecret, hsyn⟩ := hsource
    obtain ⟨hfield, hselected⟩ := Option.filter_eq_some_iff.mp hfield
    rw [CredentialsV1.isSecret, Option.map_eq_some_iff] at hsecret
    obtain ⟨known, hknown, hsecret⟩ := hsecret
    rw [hknown] at hsyn
    obtain ⟨syn, hsyn⟩ := Option.ne_none_iff_exists'.mp (by simpa using hsyn : known.syn ≠ none)
    exact ⟨hname, hexports, by simpa using hselected, field, known, syn, hfield, hknown, hsecret, hsyn⟩

/-- A selector's attribute is the name of the recipe it chooses. -/
theorem checkSelectorAttribute_ok {name : Text} {declared : AttributeV1}
    (h : checkSelectorAttribute (name, declared) = .ok ()) :
    isName name = true ∧ declared.exports = true ∧ declared.selectedRecipe = true ∧
      declared.field = none ∧ declared.persist = false := by
  simpa [checkSelectorAttribute] using h

/-! ## Recipes -/

section Recipes

variable {recipe : RecipeV1}

/-- What the checks of a complete recipe leave. -/
structure Complete (credentials : CredentialsV1) (recipe : RecipeV1) : Prop where
  bounds : checkBounds recipe = .ok ()
  attributes : ∀ e ∈ recipe.attributes.entries, checkAttribute credentials e = .ok ()
  steps : checkSteps credentials [] recipe.steps = .ok ()
  presentation : checkPresentation credentials recipe = .ok ()
  assertions : ∀ signer ∈ recipe.steps, checkAssertion recipe signer = .ok ()

theorem complete_of_check (h : checkComplete credentials recipe = .ok ()) :
    Complete credentials recipe := by
  simp only [checkComplete, andThen_eq_ok, forM_eq_ok] at h
  obtain ⟨-, -, hbounds, hattributes, hsteps, -, hpresentation, -, hassertions⟩ := h
  exact ⟨hbounds, hattributes, hsteps, hpresentation, hassertions⟩

/-- Each listed step is checked after the outputs of those before it, and its id
is a new name. -/
theorem checkSteps_ok {before steps : List StepV1}
    (h : checkSteps credentials before steps = .ok ()) {front later : List StepV1} {step : StepV1}
    (hsplit : steps = front ++ step :: later) :
    isName step.id = true ∧ step.id ∉ (before ++ front).map (·.id) ∧
      checkStep credentials ((before ++ front).flatMap outputsOf) step (later.map (·.id)) =
        .ok () := by
  induction front generalizing before steps with
  | nil =>
      subst hsplit
      simp only [List.nil_append, checkSteps, andThen_eq_ok, refuse_eq_ok, within_eq_ok,
        not_or] at h
      rw [List.append_nil]
      exact ⟨by simpa using h.1.1, h.1.2, h.2.1⟩
  | cons first front ih =>
      subst hsplit
      simp only [List.cons_append, checkSteps, andThen_eq_ok] at h
      have hrest := ih h.2.2 rfl
      rwa [List.append_assoc, List.singleton_append] at hrest

variable (hcomplete : Complete credentials recipe)

include hcomplete

theorem Complete.step {front later : List StepV1} {step : StepV1}
    (hsplit : recipe.steps = front ++ step :: later) :
    checkStep credentials (front.flatMap outputsOf) step (later.map (·.id)) = .ok () :=
  (checkSteps_ok hcomplete.steps hsplit).2.2

/-- Step ids are distinct. -/
theorem Complete.nodup : (recipe.steps.map (·.id)).Nodup := by
  rw [List.nodup_iff_pairwise_ne, List.pairwise_map, List.pairwise_iff_getElem]
  intro i j hi hj hij
  have hsplit : recipe.steps = recipe.steps.take j ++ recipe.steps[j] :: recipe.steps.drop (j + 1) :=
    by rw [List.getElem_cons_drop, List.take_append_drop]
  have hnew := (checkSteps_ok hcomplete.steps hsplit).2.1
  intro heq
  apply hnew
  rw [List.nil_append, ← heq]
  refine List.mem_map_of_mem (List.mem_take_iff_getElem.mpr ⟨i, ?_, rfl⟩)
  omega

theorem Complete.exists_step {step : StepV1} (h : step ∈ recipe.steps) :
    ∃ outputs later, checkStep credentials outputs step later = .ok () := by
  obtain ⟨front, later, hsplit⟩ := List.append_of_mem h
  exact ⟨_, _, hcomplete.step hsplit⟩

theorem Complete.find_step {step : StepV1} (h : step ∈ recipe.steps) :
    recipe.steps.find? (fun candidate => candidate.id == step.id) = some step := by
  obtain ⟨front, later, hsplit⟩ := List.append_of_mem h
  have hnew := (checkSteps_ok hcomplete.steps hsplit).2.1
  rw [hsplit, List.find?_append, List.find?_eq_none.mpr, Option.none_or,
    List.find?_cons_of_pos (by simp)]
  intro candidate hcandidate heq
  exact hnew (beq_iff_eq.mp heq ▸ List.mem_map_of_mem (by simpa using hcandidate))

end Recipes

/-! ## Steps -/

section Steps

variable {outputs later : List Text} {step : StepV1}

/-- What the checks of a step leave. -/
structure SoundStep (credentials : CredentialsV1) (outputs : List Text) (step : StepV1)
    (later : List Text) : Prop where
  requires : ∀ field ∈ step.requires, (credentials.fields.get field).isSome
  kind : checkKind credentials outputs step = .ok ()
  values : ∀ e ∈ step.params.entries ++ step.headers.entries, checkValue credentials outputs e = .ok ()
  auth : ∀ auth, step.auth = some auth → checkAuth credentials outputs auth = .ok ()
  statuses : ∀ e ∈ step.onStatus.entries, checkStatus later e = .ok ()
  extractions : ∀ e ∈ step.extract.entries, checkExtraction credentials e = .ok ()

theorem soundStep_of_check (h : checkStep credentials outputs step later = .ok ()) :
    SoundStep credentials outputs step later := by
  simp only [checkStep, andThen_eq_ok, forM_eq_ok, refuse_eq_ok] at h
  obtain ⟨hrequires, hkind, hvalues, -, hauth, hstatuses, hextractions⟩ := h
  refine ⟨?_, hkind, hvalues, ?_, hstatuses, hextractions⟩
  · intro field hfield
    simpa [Option.isSome_iff_ne_none] using hrequires field hfield
  · intro auth hstep
    exact hauth auth (by simp [hstep])

/-- What the check of a source leaves: one source, a declared field, an earlier
output. -/
structure SoundSource (credentials : CredentialsV1) (outputs : List Text) (source : ValueSourceV1) :
    Prop where
  one : sourceCount source = 1
  field : ∀ field, source.field = some field → (credentials.fields.get field).isSome
  output : ∀ output, source.output = some output → output ∈ outputs

theorem soundSource_of_check {source : ValueSourceV1}
    (h : checkSource credentials outputs source = .ok ()) :
    SoundSource credentials outputs source := by
  simp only [checkSource, andThen_eq_ok, refuse_eq_ok, not_not] at h
  obtain ⟨hone, -, hfield, houtput⟩ := h
  refine ⟨hone, ?_, ?_⟩
  · intro field hsource
    simp only [checkFieldSource, hsource, andThen_eq_ok, refuse_eq_ok] at hfield
    simpa [Option.isSome_iff_ne_none] using hfield.1
  · intro output hsource
    simpa [checkOutputSource, hsource] using houtput

end Steps

end TokenStation.Credentials
