import TokenStation.Credentials.Exported
import TokenStation.Manifest.Declared

/-!
# The value channel

A host gives a component two kinds of plain values: the configuration keys of its
family, and the attributes its credentials export. The attributes are made by one
side and admitted by the other, by name. What is exported under an accepted manifest
is always admitted, and no name is both a key and an attribute.
-/

namespace TokenStation.Credentials

open Library Library.Checked Library.TextCuts Manifest

/-! ## Names -/

/-- Distinct names in order. -/
def sortedNames (names : List Text) : List Text :=
  (SortedMap.ofList (names.map fun name => (name, ()))).entries.map Prod.fst

theorem mem_sortedNames {names : List Text} {name : Text} :
    name ∈ sortedNames names ↔ name ∈ names := by
  have hget := SortedMap.get_insertAll (fun _ => ()) .empty names name
  rw [sortedNames, ← not_iff_not, ← SortedMap.get_eq_none_iff, SortedMap.ofList, hget]
  split
  · rename_i hname
    simp [hname]
  · rename_i hname
    simp [hname]

/-- The attributes the section and its recipes export. -/
def CredentialsV1.attributeNames (credentials : CredentialsV1) : List Text :=
  sortedNames (credentials.attributes.entries.map Prod.fst ++
    credentials.recipes.entries.flatMap fun e => e.2.attributes.entries.map Prod.fst)

/-! ## Admitted attributes -/

section Admits

variable (credentials : CredentialsV1)

/-- Whether a value has the syntax of the field an attribute exports. -/
def CredentialsV1.fieldAdmits (attr : AttributeV1) (value : Text) : Bool :=
  ((attr.field.bind credentials.fields.get).bind (·.syn)).any fun syn => syn.admits value

/-- The recipes that export an attribute, with their declarations of it. -/
def CredentialsV1.declarers (name : Text) : List (RecipeV1 × AttributeV1) :=
  credentials.recipes.entries.filterMap fun e =>
    (e.2.attributes.get name).map fun attr => (e.2, attr)

def CredentialsV1.recipeAdmits (value : Text) : RecipeV1 × AttributeV1 → Bool
  | (recipe, attr) =>
      if attr.selectedRecipe then recipe.select.any fun rule => rule.recipe == value
      else attr.field.isSome && credentials.fieldAdmits attr value

/-- Whether a value is one that the section's declarations of an attribute admit;
none where no recipe exports it. -/
def CredentialsV1.admitsAttribute (name value : Text) : Option Bool :=
  match credentials.attributes.get name with
  | some attr => some (credentials.fieldAdmits attr value)
  | none =>
      match credentials.declarers name with
      | [] => none
      | declared => some (declared.any (credentials.recipeAdmits value))

end Admits

/-! ## The manifest -/

/-- The sections of a manifest that the value channel reads. -/
structure ComponentManifestV1 extends Manifest.ComponentManifestV1 where
  hostValues : List Text
  secrets : List Text
  credentials : Option CredentialsV1

/-- What a world's host does for its components. -/
structure WorldSchemaV1 where
  valueChannel : Bool
  requestDeclarations : Bool

inductive ManifestErrorV1 where
  | invalidEndpoint (error : Manifest.ManifestErrorV1)
  | invalidCredentials (detail : String)
  | endpointIsAProviderWorldDeclaration
  | instanceIsAProviderWorldDeclaration (declaration : String)
  | hostValueIsNotInTheVocabulary (value : Text)
  | hostValueDeclaredTwice (value : Text)
  | declaredValueNameCollision (family name : Text)
deriving DecidableEq

def hostValueAttemptId : Text := "attempt_id".toList

def hostValueEndUserHash : Text := "end_user_hash".toList

/-- The closed vocabulary of a request's host values. -/
def hostValueNames : List Text := [hostValueAttemptId, hostValueEndUserHash]

/-- Host values in order, each after those seen. -/
def checkHostValues (seen : List Text) : List Text → Except ManifestErrorV1 Unit
  | [] => .ok ()
  | value :: later => do
      refuse (value ∉ hostValueNames) (.hostValueIsNotInTheVocabulary value)
      refuse (value ∈ seen) (.hostValueDeclaredTwice value)
      checkHostValues (value :: seen) later

namespace ComponentManifestV1

variable (manifest : ComponentManifestV1)

/-- The section that applies to a family. -/
def credentialsFor (family : Text) : Option CredentialsV1 :=
  manifest.credentials.filter fun credentials =>
    manifest.providers.contains family && credentials.appliesTo family

/-- No attribute has the name of one of the family's keys. -/
def checkCollision (family : Text) : Except ManifestErrorV1 Unit :=
  match manifest.configSchema.get family, manifest.credentialsFor family with
  | some keys, some credentials =>
      match credentials.attributeNames.find? fun name => (keys.get name).isSome with
      | some name => .error (.declaredValueNameCollision family name)
      | none => .ok ()
  | _, _ => .ok ()

/-- Gate 1 for the value channel. -/
def validateComponentValues (world : WorldSchemaV1) : Except ManifestErrorV1 Unit := do
  refuse (world.requestDeclarations = false ∧ manifest.hostValues ≠ [])
    (.instanceIsAProviderWorldDeclaration "host_values")
  if world.valueChannel then
    checkHostValues [] manifest.hostValues
    manifest.providers.forM manifest.checkCollision
  else
    refuse (manifest.credentials.any fun credentials => !credentials.attributeNames.isEmpty)
      (.instanceIsAProviderWorldDeclaration "credential attributes")

/-- Where a world takes endpoints. -/
def validateDelivery (world : WorldSchemaV1) : Except ManifestErrorV1 Unit :=
  if world.requestDeclarations then manifest.validateEndpoints.mapError .invalidEndpoint
  else
    refuse (manifest.endpoint.entries ≠ [] ∨
        world.valueChannel = false ∧ manifest.configSchema.entries ≠ [])
      .endpointIsAProviderWorldDeclaration

/-- Keys without endpoints are checked by the same rules. -/
def validateKeys (world : WorldSchemaV1) : Except ManifestErrorV1 Unit :=
  if world.valueChannel && !world.requestDeclarations then
    manifest.validateEndpoints.mapError .invalidEndpoint
  else .ok ()

/-- Gate 1 for these sections. -/
def validate (world : WorldSchemaV1) : Except ManifestErrorV1 Unit := do
  manifest.credentials.toList.forM fun credentials =>
    (check credentials manifest.secrets manifest.providers).mapError .invalidCredentials
  manifest.validateDelivery world
  manifest.validateKeys world
  manifest.validateComponentValues world

/-- The keys a host may declare for a family. -/
def declaredKeys (family : Text) : List Text :=
  if manifest.providers.contains family then
    sortedNames ((manifest.keysOf family).entries.map Prod.fst ++
      (manifest.credentialsFor family).toList.flatMap (·.attributeNames))
  else []

end ComponentManifestV1

/-- Why no values were declared. -/
inductive DeclaredValuesErrorV1 where
  | config (error : ConfigErrorV1)
  | undeclaredAttribute (name : Text)
  | invalidAttribute (name : Text)

/-- One attribute, admitted by the section that applies. -/
def declareAttribute (credentials : Option CredentialsV1) (declared : SortedMap Text Text) :
    Text × Text → Except DeclaredValuesErrorV1 (SortedMap Text Text)
  | (name, value) =>
      match credentials.bind fun credentials => credentials.admitsAttribute name value with
      | none => .error (.undeclaredAttribute name)
      | some false => .error (.invalidAttribute name)
      | some true => .ok (declared.insert name value)

namespace ComponentManifestV1

variable (manifest : ComponentManifestV1)

/-- The operator's values, a key's default where there is none. -/
def configured (family : Text) (config : ConfigValues) : SortedMap Text Text :=
  .ofList ((manifest.keysOf family).entries.filterMap fun e =>
    ((config.get e.1).or e.2.default).map fun value => (e.1, value))

/-- What a component is given for one attempt. -/
def declaredValues (family : Text) (config : ConfigValues) (attributes : SortedMap Text Text) :
    Except DeclaredValuesErrorV1 (SortedMap Text Text) := do
  (manifest.validateConfigValues family config).mapError .config
  attributes.entries.foldlM (declareAttribute (manifest.credentialsFor family))
    (manifest.configured family config)

theorem configured_get (family : Text) (config : ConfigValues) (key : Text) :
    (manifest.configured family config).get key =
      ((manifest.keysOf family).get key).bind fun declaration =>
        (config.get key).or declaration.default :=
  SortedMap.get_ofList_filterMap
    (fun key (declaration : ConfigKeyV1) => (config.get key).or declaration.default)
    (manifest.keysOf family) key

end ComponentManifestV1

/-! ## Exported attributes are admitted -/

/-- Every value is one that the section admits under its name. -/
def Admitted (credentials : CredentialsV1) (values : SortedMap Text Text) : Prop :=
  ∀ name value, values.get name = some value → credentials.admitsAttribute name value = some true

section Exports

variable {credentials : CredentialsV1} {stored fields values persisted : SortedMap Text Text}

theorem admitted_empty : Admitted credentials .empty := fun _ _ h => by cases h

theorem Admitted.insert (h : Admitted credentials values) {name value : Text}
    (hvalue : credentials.admitsAttribute name value = some true) :
    Admitted credentials (values.insert name value) := by
  intro key found hfound
  rw [SortedMap.get_insert] at hfound
  split at hfound
  · rename_i heq
    cases hfound
    rwa [← heq]
  · exact h key found hfound

theorem Admitted.insertAll (h : Admitted credentials values) {entries : List (Text × Text)}
    (hentries : ∀ e ∈ entries, credentials.admitsAttribute e.1 e.2 = some true) :
    Admitted credentials (values.insertAll entries) := by
  intro name value hvalue
  rcases SortedMap.mem_of_get_insertAll hvalue with hmem | hvalue
  · exact hentries _ hmem
  · exact h name value hvalue

theorem Admitted.of_mem (h : Admitted credentials values) :
    ∀ e ∈ values.entries, credentials.admitsAttribute e.1 e.2 = some true :=
  fun _ he => h _ _ (SortedMap.mem_entries_iff.mp he)

/-- An exported field attribute is a present value of its field. -/
theorem fieldAttributes_mem {declared : SortedMap Text AttributeV1} {name value : Text}
    (h : (fieldAttributes credentials declared fields).get name = some value) :
    ∃ attr field, (name, attr) ∈ declared.entries ∧ attr.field = some field ∧
      fields.get field = some value := by
  rcases SortedMap.mem_of_get_insertAll h with hmem | hmem
  · obtain ⟨⟨key, attr⟩, hdeclared, hvalue⟩ := List.mem_filterMap.mp hmem
    dsimp only at hvalue
    split at hvalue
    · simp only [Option.bind_eq_bind, Option.bind_eq_some_iff, Option.pure_def,
        Option.some.injEq, Prod.mk.injEq] at hvalue
      obtain ⟨field, hfield, _, -, found, hfound, rfl, rfl⟩ := hvalue
      exact ⟨attr, field, hdeclared, hfield, hfound⟩
    · cases hvalue
  · cases hmem

/-- A present value of an accepted attribute's field has the field's syntax. -/
theorem fieldAdmits_of_present (hfields : resolveFields credentials stored = .ok fields)
    {name field value : Text} {attr : AttributeV1}
    (hattribute : checkAttribute credentials (name, attr) = .ok ())
    (hfield : attr.field = some field) (hvalue : fields.get field = some value) :
    credentials.fieldAdmits attr value = true := by
  obtain ⟨-, -, -, source, known, syn, hsource, hknown, -, hsyn⟩ := checkAttribute_ok hattribute
  rw [hfield, Option.some.injEq] at hsource
  subst hsource
  rw [CredentialsV1.fieldAdmits, hfield, Option.bind_some, hknown, Option.bind_some, hsyn]
  exact (resolveFields_syn hfields hknown hvalue).2 syn hsyn

theorem admitsAttribute_of_section {name value : Text} {attr : AttributeV1}
    (hattribute : credentials.attributes.get name = some attr)
    (hvalue : credentials.fieldAdmits attr value = true) :
    credentials.admitsAttribute name value = some true := by
  rw [CredentialsV1.admitsAttribute, hattribute]
  exact congrArg some hvalue

section Sound

variable (haccepted : Accepted credentials)

include haccepted

theorem admitsAttribute_of_recipe {name value recipe : Text} {declared : RecipeV1}
    {attr : AttributeV1} (hrecipe : credentials.recipes.get recipe = some declared)
    (hattribute : declared.attributes.get name = some attr)
    (hvalue : credentials.recipeAdmits value (declared, attr) = true) :
    credentials.admitsAttribute name value = some true := by
  have hmem : (declared, attr) ∈ credentials.declarers name :=
    List.mem_filterMap.mpr ⟨(recipe, declared), SortedMap.mem_entries_iff.mpr hrecipe,
      Option.map_eq_some_iff.mpr ⟨attr, hattribute, rfl⟩⟩
  rw [CredentialsV1.admitsAttribute, haccepted.not_shared hrecipe hattribute]
  dsimp only
  split
  · rename_i hnone
    rw [hnone] at hmem
    cases hmem
  · exact congrArg some (List.any_eq_true.mpr ⟨_, hmem, hvalue⟩)

variable (hfields : resolveFields credentials stored = .ok fields)

include hfields

theorem admitted_section : Admitted credentials
    (fieldAttributes credentials credentials.attributes fields) := by
  intro name value h
  obtain ⟨attr, field, hmem, hfield, hvalue⟩ := fieldAttributes_mem h
  exact admitsAttribute_of_section (SortedMap.mem_entries_iff.mp hmem)
    (fieldAdmits_of_present hfields (haccepted.attributes _ hmem) hfield hvalue)

/-- The attributes of a complete recipe are admitted. -/
theorem admitted_recipe {name : Text} {recipe : RecipeV1}
    (hrecipe : credentials.recipes.get name = some recipe) (hselect : recipe.select = []) :
    Admitted credentials (fieldAttributes credentials recipe.attributes fields) := by
  intro key value h
  obtain ⟨attr, field, hmem, hfield, hvalue⟩ := fieldAttributes_mem h
  have hattribute := (complete_of_check (haccepted.complete hrecipe hselect)).attributes _ hmem
  refine admitsAttribute_of_recipe haccepted hrecipe (SortedMap.mem_entries_iff.mp hmem) ?_
  rw [CredentialsV1.recipeAdmits, (checkAttribute_ok hattribute).2.2.1,
    fieldAdmits_of_present hfields hattribute hfield hvalue, hfield]
  rfl

theorem admitted_chosen {name : Text} {chosen : Chosen}
    (hchosen : select credentials name fields = .ok chosen) :
    Admitted credentials (attributesOf credentials chosen fields) := by
  obtain ⟨hrecipe, hselect, hchosenBy⟩ := select_ok hchosen
  refine Admitted.insertAll (Admitted.insertAll admitted_empty ?_)
    (admitted_recipe haccepted hfields hrecipe hselect).of_mem
  intro e he
  obtain ⟨⟨key, attr⟩, hattribute, rfl⟩ := List.mem_map.mp he
  rw [List.mem_flatMap] at hattribute
  obtain ⟨selector, hselector, hattribute⟩ := hattribute
  rw [Option.mem_toList] at hselector
  rw [List.mem_filter, Bool.and_eq_true] at hattribute
  cases hchosenBy with
  | direct _ hnone =>
      rw [hnone] at hselector
      cases hselector
  | rule known rule hknown hnamed hrule hname =>
      rw [hknown] at hselector
      cases hselector
      refine admitsAttribute_of_recipe haccepted hnamed
        (SortedMap.mem_entries_iff.mp hattribute.1) ?_
      rw [CredentialsV1.recipeAdmits, if_pos hattribute.2.2, List.any_eq_true]
      exact ⟨rule, List.mem_of_find?_eq_some hrule, beq_iff_eq.mpr hname⟩

theorem admitted_exportedValues {slot : Text} {chosen : Option Chosen}
    (hchosen : chosenFor credentials slot fields = .ok chosen) :
    Admitted credentials (exportedValues credentials chosen fields) := by
  refine Admitted.insertAll (admitted_section haccepted hfields) ?_
  intro e he
  obtain ⟨found, hfound, hmem⟩ := List.mem_flatMap.mp he
  rw [Option.mem_toList] at hfound
  subst hfound
  unfold chosenFor at hchosen
  split at hchosen
  · obtain ⟨found', hselect, heq⟩ := map_eq_ok.mp hchosen
    cases heq
    exact (admitted_chosen haccepted hfields hselect).of_mem e hmem
  · cases hchosen

end Sound

theorem admitted_persistOne (hpersisted : Admitted credentials persisted)
    {exported : ExportedAttributesV1} (e : Text × AttributeV1)
    (h : Admitted credentials exported.values ∧ Admitted credentials exported.persist) :
    Admitted credentials (persistOne persisted exported e).values ∧
      Admitted credentials (persistOne persisted exported e).persist := by
  obtain ⟨hvalues, hpersist⟩ := h
  unfold persistOne
  split
  · split
    · rename_i value hvalue
      exact ⟨hvalues, hpersist.insert (hvalues _ _ hvalue)⟩
    · split
      · rename_i value hvalue
        exact ⟨hvalues.insert (hpersisted _ _ (Option.filter_eq_some_iff.mp hvalue).1), hpersist⟩
      · exact ⟨hvalues, hpersist⟩
  · exact ⟨hvalues, hpersist⟩

theorem admitted_persist (hpersisted : Admitted credentials persisted)
    (declared : List (Text × AttributeV1)) {exported : ExportedAttributesV1}
    (h : Admitted credentials exported.values ∧ Admitted credentials exported.persist) :
    Admitted credentials (declared.foldl (persistOne persisted) exported).values ∧
      Admitted credentials (declared.foldl (persistOne persisted) exported).persist := by
  induction declared generalizing exported with
  | nil => exact h
  | cons e declared ih => exact ih (admitted_persistOne hpersisted e h)

/-- One call keeps what is stored admitted, and exports admitted values. -/
theorem admitted_exported (haccepted : Accepted credentials)
    (hpersisted : Admitted credentials persisted) {slot : Text} {exported : ExportedAttributesV1}
    (h : exportedAttributesV1 credentials slot stored persisted = .ok exported) :
    Admitted credentials exported.values ∧ Admitted credentials exported.persist := by
  unfold exportedAttributesV1 at h
  split at h
  · cases h
    exact ⟨admitted_empty, admitted_empty⟩
  · simp only [bind_eq_ok, pure_eq_ok] at h
    obtain ⟨fields, hfields, chosen, hchosen, rfl⟩ := h
    exact admitted_persist hpersisted _
      ⟨admitted_exportedValues haccepted hfields hchosen, admitted_empty⟩

/-- A stored attribute: some earlier call returned it, over stored attributes. -/
inductive PersistedValue (credentials : CredentialsV1) : Text → Text → Prop where
  | returned {slot name value : Text} {stored persisted : SortedMap Text Text}
      {exported : ExportedAttributesV1}
      (hpersisted : ∀ name value, persisted.get name = some value →
        PersistedValue credentials name value)
      (hcall : exportedAttributesV1 credentials slot stored persisted = .ok exported)
      (hvalue : exported.persist.get name = some value) : PersistedValue credentials name value

/-- A union of what earlier calls returned to be stored. -/
def Persisted (credentials : CredentialsV1) (persisted : SortedMap Text Text) : Prop :=
  ∀ name value, persisted.get name = some value → PersistedValue credentials name value

/-- Whatever earlier calls had stored is admitted. -/
theorem admits_of_persisted (haccepted : Accepted credentials) {name value : Text}
    (h : PersistedValue credentials name value) :
    credentials.admitsAttribute name value = some true := by
  induction h with
  | returned _ hcall hreturned ih =>
      exact (admitted_exported haccepted ih hcall).2 _ _ hreturned

end Exports

/-! ## Keys and values of the channel -/

/-- A value a component may be given. -/
def isComponentValue (value : Text) : Bool :=
  1 ≤ utf8Len value && utf8Len value ≤ 4096 && value.all isPrintable

theorem isComponentValue_of_printable {value : Text} (hne : value ≠ [])
    (hlength : value.length ≤ 4096) (hprintable : ∀ c ∈ value, isPrintable c = true) :
    isComponentValue value = true := by
  have hpos := List.length_pos_of_ne_nil hne
  simp only [isComponentValue, utf8Len_of_printable hprintable, Bool.and_eq_true,
    decide_eq_true_eq, List.all_eq_true]
  exact ⟨⟨hpos, hlength⟩, hprintable⟩

/-- Every value of a well-formed syntax may be given. -/
theorem isComponentValue_of_admits {syn : ValueSyntaxV1} {value : Text}
    (hwell : syn.isWellFormed = true) (h : syn.admits value = true) :
    isComponentValue value = true :=
  isComponentValue_of_printable (syn.bounds hwell h).1 (syn.bounds hwell h).2
    (syn.printable hwell h)

theorem isComponentValue_of_isName {name : Text} (h : isName name = true) :
    isComponentValue name = true := by
  simp only [isName, Bool.and_eq_true, decide_eq_true_eq, List.all_eq_true] at h
  have hlength := length_le_utf8Len name
  refine isComponentValue_of_printable (ne_nil_of_utf8Len h.1.1) (by omega) fun c hc => ?_
  have hchar := h.2 c hc
  rw [isNameChar, Bool.or_eq_true, Bool.or_eq_true, beq_iff_eq] at hchar
  rcases hchar with (hchar | hchar) | rfl
  · exact isPrintable_of_isAlphanum (isAlphanum_of_isLower hchar)
  · exact isPrintable_of_isAlphanum (isAlphanum_of_isDigit hchar)
  · rfl

section Sound

variable {credentials : CredentialsV1} (haccepted : Accepted credentials)

include haccepted

theorem isComponentValue_of_fieldAdmits {attr : AttributeV1} {value : Text}
    (h : credentials.fieldAdmits attr value = true) : isComponentValue value = true := by
  rw [CredentialsV1.fieldAdmits, Option.any_eq_true] at h
  obtain ⟨syn, hsyn, hadmits⟩ := h
  obtain ⟨known, hknown, hsyn⟩ := Option.bind_eq_some_iff.mp hsyn
  obtain ⟨field, -, hknown⟩ := Option.bind_eq_some_iff.mp hknown
  exact isComponentValue_of_admits (haccepted.syn_wellFormed hknown hsyn) hadmits

/-- The name of each attribute of an accepted recipe is one, and so is each recipe a
rule names. -/
theorem recipe_names {name recipe : Text} {declared : RecipeV1} {attr : AttributeV1}
    (hrecipe : credentials.recipes.get recipe = some declared)
    (hattribute : declared.attributes.get name = some attr) :
    isName name = true ∧ ∀ rule ∈ declared.select, isName rule.recipe = true := by
  have hmem := SortedMap.mem_entries_iff.mpr hattribute
  by_cases hselect : declared.select = []
  · have hcomplete := complete_of_check (haccepted.complete hrecipe hselect)
    refine ⟨(checkAttribute_ok (hcomplete.attributes _ hmem)).1, fun rule hrule => ?_⟩
    rw [hselect] at hrule
    cases hrule
  · obtain ⟨hattributes, -, hrules⟩ := checkSelector_ok (haccepted.selector hrecipe hselect)
    refine ⟨(checkSelectorAttribute_ok (hattributes _ hmem)).1, fun rule hrule => ?_⟩
    obtain ⟨target, htarget, -⟩ := checkRuleTarget_ok (checkRule_ok (hrules rule hrule)).1
    exact haccepted.isName_recipe htarget

/-- An admitted attribute is one of the section's, under a name, and has a value that
may be given. -/
theorem admitsAttribute_sound {name value : Text}
    (h : credentials.admitsAttribute name value = some true) :
    name ∈ credentials.attributeNames ∧ isName name = true ∧ isComponentValue value = true := by
  rw [CredentialsV1.attributeNames, mem_sortedNames, List.mem_append]
  unfold CredentialsV1.admitsAttribute at h
  split at h
  · rename_i attr hattribute
    have hmem := SortedMap.mem_entries_iff.mpr hattribute
    rw [Option.some.injEq] at h
    exact ⟨.inl (List.mem_map_of_mem hmem), (checkAttribute_ok (haccepted.attributes _ hmem)).1,
      isComponentValue_of_fieldAdmits haccepted h⟩
  · split at h
    · cases h
    · rw [Option.some.injEq, List.any_eq_true] at h
      obtain ⟨⟨declared, attr⟩, hdeclared, hvalue⟩ := h
      obtain ⟨⟨recipe, found⟩, hrecipe, hattribute⟩ := List.mem_filterMap.mp hdeclared
      obtain ⟨found', hattribute, heq⟩ := Option.map_eq_some_iff.mp hattribute
      cases heq
      obtain ⟨hname, hrules⟩ :=
        recipe_names haccepted (SortedMap.mem_entries_iff.mp hrecipe) hattribute
      refine ⟨.inr (List.mem_flatMap.mpr ⟨_, hrecipe,
        List.mem_map_of_mem (SortedMap.mem_entries_iff.mpr hattribute)⟩), hname, ?_⟩
      rw [CredentialsV1.recipeAdmits] at hvalue
      split at hvalue
      · obtain ⟨rule, hrule, hvalue⟩ := List.any_eq_true.mp hvalue
        rw [beq_iff_eq] at hvalue
        exact hvalue ▸ isComponentValue_of_isName (hrules rule hrule)
      · exact isComponentValue_of_fieldAdmits haccepted (Bool.and_eq_true_iff.mp hvalue).2

end Sound

/-! ## Accepted manifests -/

section Manifests

variable {manifest : ComponentManifestV1} {world : WorldSchemaV1} {family : Text}
  {credentials : CredentialsV1}

theorem credentialsFor_eq_some (h : manifest.credentialsFor family = some credentials) :
    manifest.credentials = some credentials ∧ family ∈ manifest.providers := by
  obtain ⟨hsome, happlies⟩ := Option.filter_eq_some_iff.mp h
  rw [Bool.and_eq_true, List.contains_iff_mem] at happlies
  exact ⟨hsome, happlies.1⟩

/-- What gate 1 leaves of a manifest in a world with a value channel. -/
structure Channeled (manifest : ComponentManifestV1) : Prop where
  accepted : ∀ credentials, manifest.credentials = some credentials → Accepted credentials
  endpoints : manifest.validateEndpoints = .ok ()
  apart : ∀ family ∈ manifest.providers, manifest.checkCollision family = .ok ()

theorem channeled_of_validate (hchannel : world.valueChannel = true)
    (h : manifest.validate world = .ok ()) : Channeled manifest := by
  simp only [ComponentManifestV1.validate, ComponentManifestV1.validateComponentValues,
    andThen_eq_ok, forM_eq_ok, mapError_eq_ok, hchannel, if_true] at h
  obtain ⟨hcredentials, hdelivery, hkeys, -, -, hcollisions⟩ := h
  refine ⟨fun credentials hsome => ?_, ?_, hcollisions⟩
  · exact accepted_of_check (hcredentials credentials (by simp [hsome]))
  · cases hdeclarations : world.requestDeclarations with
    | true =>
        rw [ComponentManifestV1.validateDelivery, if_pos hdeclarations] at hdelivery
        exact mapError_eq_ok.mp hdelivery
    | false =>
        rw [ComponentManifestV1.validateKeys, if_pos (by simp [hchannel, hdeclarations])] at hkeys
        exact mapError_eq_ok.mp hkeys

/-- No attribute of the section that applies is a key of the family. -/
theorem Channeled.not_key (h : Channeled manifest)
    (hcredentials : manifest.credentialsFor family = some credentials) {name : Text}
    (hname : name ∈ credentials.attributeNames) : (manifest.keysOf family).get name = none := by
  have hapart := h.apart family (credentialsFor_eq_some hcredentials).2
  rw [ComponentManifestV1.checkCollision, hcredentials] at hapart
  rw [ComponentManifestV1.keysOf]
  cases hkeys : manifest.configSchema.get family with
  | none => rfl
  | some keys =>
      rw [hkeys] at hapart
      dsimp only at hapart
      split at hapart
      · cases hapart
      · rename_i hnone
        simpa using List.find?_eq_none.mp hnone name hname

/-- A configured value is named and may be given. -/
theorem Channeled.configured_sound (h : Channeled manifest) {config : ConfigValues}
    (hconfig : manifest.validateConfigValues family config = .ok ()) {key value : Text}
    (hvalue : (manifest.configured family config).get key = some value) :
    (∃ declaration, (manifest.keysOf family).get key = some declaration) ∧
      isName key = true ∧ isComponentValue value = true := by
  rw [ComponentManifestV1.configured_get, Option.bind_eq_some_iff] at hvalue
  obtain ⟨declaration, hdeclaration, hvalue⟩ := hvalue
  have hkey := checkKey_of_validateEndpoints h.endpoints hdeclaration
  have hsound := checkKey_ok hkey
  obtain ⟨hne, hlength, hchars⟩ := key_of_checkKey hkey
  have hpos := (List.length_pos_of_ne_nil hne).trans_le (length_le_utf8Len key)
  refine ⟨⟨declaration, hdeclaration⟩, by simp [isName, hlength, hchars, Nat.succ_le_of_lt hpos],
    isComponentValue_of_admits hsound.wellFormed ?_⟩
  rw [Option.or_eq_some_iff] at hvalue
  rcases hvalue with hvalue | ⟨-, hvalue⟩
  · exact (validateConfigValues_ok_iff.mp hconfig).admitted key declaration hdeclaration value hvalue
  · exact (hsound.optional value hvalue).2

/-- Admitted attributes are all declared, one after another. -/
theorem declareAttributes_ok {attributes : List (Text × Text)}
    (h : ∀ e ∈ attributes, credentials.admitsAttribute e.1 e.2 = some true)
    (declared : SortedMap Text Text) :
    attributes.foldlM (declareAttribute (some credentials)) declared =
      .ok (declared.insertAll attributes) := by
  induction attributes generalizing declared with
  | nil => rfl
  | cons e attributes ih =>
      have hfirst : declareAttribute (some credentials) declared e =
          .ok (declared.insert e.1 e.2) := by
        rw [declareAttribute, Option.bind_some, h e List.mem_cons_self]
      rw [List.foldlM_cons, hfirst]
      exact ih (fun f hf => h f (List.mem_cons_of_mem _ hf)) _

/-- The channel closes: under an accepted manifest whatever a family's credentials
export is declared beside its configuration, each under a name of its own. -/
theorem value_channel_closes (manifest : ComponentManifestV1) (world : WorldSchemaV1)
    (hchannel : world.valueChannel = true) (hvalid : manifest.validate world = .ok ())
    (family : Text) (credentials : CredentialsV1)
    (hcredentials : manifest.credentialsFor family = some credentials) (config : ConfigValues)
    (hconfig : manifest.validateConfigValues family config = .ok ()) (slot : Text)
    (stored persisted : SortedMap Text Text) (hpersisted : Persisted credentials persisted)
    (exported : ExportedAttributesV1)
    (hexported : exportedAttributesV1 credentials slot stored persisted = .ok exported) :
    ∃ declared, manifest.declaredValues family config exported.values = .ok declared ∧
      (∀ key value, declared.get key = some value → key ∈ manifest.declaredKeys family) ∧
      (∀ key declaration, (manifest.keysOf family).get key = some declaration →
        declared.get key = (config.get key).or declaration.default) ∧
      (∀ name value, exported.values.get name = some value → declared.get name = some value) ∧
      ∀ key value, declared.get key = some value →
        isName key = true ∧ isComponentValue value = true := by
  have hchanneled := channeled_of_validate hchannel hvalid
  obtain ⟨hsome, hfamily⟩ := credentialsFor_eq_some hcredentials
  have haccepted := hchanneled.accepted credentials hsome
  have hadmitted := (admitted_exported haccepted
    (fun name value h => admits_of_persisted haccepted (hpersisted name value h)) hexported).1
  have hsound {name value : Text} (h : exported.values.get name = some value) :
      name ∈ credentials.attributeNames ∧ isName name = true ∧ isComponentValue value = true :=
    admitsAttribute_sound haccepted (hadmitted name value h)
  have hget (key : Text) : ((manifest.configured family config).insertAll
      exported.values.entries).get key =
        (exported.values.get key).or ((manifest.configured family config).get key) :=
    SortedMap.get_insertAll_entries _ _ key
  refine ⟨(manifest.configured family config).insertAll exported.values.entries, ?_, ?_, ?_, ?_, ?_⟩
  · rw [ComponentManifestV1.declaredValues, hcredentials, hconfig]
    exact declareAttributes_ok hadmitted.of_mem _
  · intro key value hvalue
    rw [hget, Option.or_eq_some_iff] at hvalue
    rw [ComponentManifestV1.declaredKeys, if_pos (by simpa using hfamily), mem_sortedNames,
      List.mem_append, hcredentials]
    rcases hvalue with hvalue | ⟨-, hvalue⟩
    · exact .inr (by simpa using (hsound hvalue).1)
    · obtain ⟨⟨declaration, hdeclaration⟩, -⟩ := hchanneled.configured_sound hconfig hvalue
      exact .inl (List.mem_map_of_mem (SortedMap.mem_entries_iff.mpr hdeclaration))
  · intro key declaration hdeclaration
    have hnone : exported.values.get key = none := by
      rw [Option.eq_none_iff_forall_ne_some]
      intro value hvalue
      rw [hchanneled.not_key hcredentials (hsound hvalue).1] at hdeclaration
      cases hdeclaration
    rw [hget, hnone, Option.none_or, ComponentManifestV1.configured_get, hdeclaration,
      Option.bind_some]
  · intro name value hvalue
    rw [hget, hvalue, Option.some_or]
  · intro key value hvalue
    rw [hget, Option.or_eq_some_iff] at hvalue
    rcases hvalue with hvalue | ⟨-, hvalue⟩
    · exact (hsound hvalue).2
    · exact (hchanneled.configured_sound hconfig hvalue).2

end Manifests

/-- A stored attribute stands in for a field that is no longer stored. -/
def carrying : CredentialsV1 :=
  { oneRecipe { steps := [exchange ['a'] ['t']]
                present := some [.output (outputOf ['a'] ['t'])]
                rotatesRefreshMaterial := some false
                attributes := .ofList
                  [(['p'], { field := some ['p'], exports := true, persist := true })] } with
    fields := .ofList [(['k'], { secret := true }), (['p'], { secret := false, syn := some .digits })] }

def carryingManifest : ComponentManifestV1 :=
  { providers := [['f']]
    configSchema := .ofList [(['f'], .ofList [(['e'], ⟨.token, false, some ['x']⟩)])]
    endpoint := .empty
    hostValues := []
    secrets := [['s']]
    credentials := some carrying }

def sevenStored : SortedMap Text Text := .ofList [(['p'], ['7'])]

theorem carryingManifest_closes :
    ∃ declared, carryingManifest.declaredValues ['f'] .empty sevenStored = .ok declared ∧
      declared.get ['p'] = some ['7'] ∧ declared.get ['e'] = some ['x'] := by
  have hearlier : exportedAttributesV1 carrying ['s'] sevenStored .empty =
      .ok ⟨sevenStored, sevenStored⟩ := by rfl
  have hempty : Persisted carrying .empty := fun _ _ h => by cases h
  have hpersisted : Persisted carrying sevenStored :=
    fun _ _ hvalue => .returned hempty hearlier hvalue
  obtain ⟨declared, hdeclared, -, hkeys, hattributes, -⟩ := value_channel_closes carryingManifest
    ⟨true, true⟩ rfl (by decide +kernel) ['f'] carrying rfl .empty (by rfl) ['s'] .empty sevenStored hpersisted
    ⟨sevenStored, .empty⟩ (by rfl)
  exact ⟨declared, hdeclared, hattributes ['p'] ['7'] rfl, hkeys ['e'] ⟨.token, false, some ['x']⟩ rfl⟩

end TokenStation.Credentials
