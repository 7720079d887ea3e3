import TokenStation.Credentials.Assertions

/-!
# Exported attributes

The values a credential gives to the component for every attempt. Two credentials
that differ only in the values of their secrets choose the same recipe, export the
same attributes and fill the same endpoints.
-/

namespace TokenStation.Credentials

open Library Library.Checked Manifest

/-- The attributes one credential exports, and those of them the host stores. -/
structure ExportedAttributesV1 where
  values : SortedMap Text Text
  persist : SortedMap Text Text

/-- A persisted attribute: its value is stored, or the last stored one stands in. -/
def persistOne (persisted : SortedMap Text Text) (exported : ExportedAttributesV1)
    (e : Text × AttributeV1) : ExportedAttributesV1 :=
  if e.2.persist then
    match exported.values.get e.1 with
    | some value => ⟨exported.values, exported.persist.insert e.1 value⟩
    | none =>
        match (persisted.get e.1).filter (· ≠ []) with
        | some value => ⟨exported.values.insert e.1 value, exported.persist⟩
        | none => exported
  else exported

/-- The recipe a slot's attributes are taken from, where one mints the slot. -/
def chosenFor (credentials : CredentialsV1) (slot : Text) (fields : SortedMap Text Text) :
    Except RecipeOutcomeV1 (Option Chosen) :=
  match credentials.slots.get slot with
  | some (.minted name) => (select credentials name fields).map some
  | _ => .ok none

/-- What the section and the chosen recipe export before anything is persisted. -/
def exportedValues (credentials : CredentialsV1) (chosen : Option Chosen)
    (fields : SortedMap Text Text) : SortedMap Text Text :=
  (fieldAttributes credentials credentials.attributes fields).insertAll
    (chosen.toList.flatMap fun chosen => (attributesOf credentials chosen fields).entries)

def isMinted (credentials : CredentialsV1) (slot : Text) : Bool :=
  match credentials.slots.get slot with
  | some (.minted _) => true
  | _ => false

/-- The attributes a credential exports for a slot. -/
def exportedAttributesV1 (credentials : CredentialsV1) (slot : Text)
    (stored persisted : SortedMap Text Text) : Except RecipeOutcomeV1 ExportedAttributesV1 :=
  if credentials.attributes.entries = [] ∧ isMinted credentials slot = false then
    .ok ⟨.empty, .empty⟩
  else do
    let fields ← resolveFields credentials stored
    let chosen ← chosenFor credentials slot fields
    let declared := credentials.attributes.entries ++
      chosen.toList.flatMap fun chosen => chosen.recipe.attributes.entries
    return declared.foldl (persistOne persisted)
      ⟨exportedValues credentials chosen fields, .empty⟩

/-! ## Credentials that differ in secrets only -/

/-- Stored fields that agree but for the values of secrets that are present. -/
structure SecretsApart (credentials : CredentialsV1) (stored stored' : SortedMap Text Text) :
    Prop where
  plain : ∀ name declared, credentials.fields.get name = some declared → declared.secret = false →
    stored.get name = stored'.get name
  secret : ∀ name declared, credentials.fields.get name = some declared → declared.secret = true →
    ((stored.get name).filter (· ≠ [])).isSome = ((stored'.get name).filter (· ≠ [])).isSome

/-- Present fields that agree but for the values of secrets. -/
structure PresentApart (credentials : CredentialsV1) (fields fields' : SortedMap Text Text) :
    Prop where
  present : ∀ name, (fields.get name).isSome = (fields'.get name).isSome
  plain : ∀ name declared, credentials.fields.get name = some declared → declared.secret = false →
    fields.get name = fields'.get name

variable {credentials : CredentialsV1} {stored stored' fields fields' : SortedMap Text Text}

theorem presentApart (haccepted : Accepted credentials)
    (hstored : SecretsApart credentials stored stored')
    (hfields : resolveFields credentials stored = .ok fields)
    (hfields' : resolveFields credentials stored' = .ok fields') :
    PresentApart credentials fields fields' := by
  have hplain : ∀ name declared, credentials.fields.get name = some declared →
      declared.secret = false → fields.get name = fields'.get name := by
    intro name declared hdeclared hsecret
    rw [resolveFields_get hfields, resolveFields_get hfields', hdeclared, Option.bind_some,
      Option.bind_some, presentValue, presentValue, hstored.plain name declared hdeclared hsecret]
  refine ⟨fun name => ?_, hplain⟩
  cases hdeclared : credentials.fields.get name with
  | none => rw [resolveFields_get hfields, resolveFields_get hfields', hdeclared]; rfl
  | some declared =>
      cases hsecret : declared.secret with
      | false => rw [hplain name declared hdeclared hsecret]
      | true =>
          rw [resolveFields_get hfields, resolveFields_get hfields', hdeclared, Option.bind_some,
            Option.bind_some, presentValue, presentValue,
            haccepted.default_of_secret hdeclared hsecret, Option.filter_none, Option.or_none,
            Option.or_none]
          exact hstored.secret name declared hdeclared hsecret

section Apart

variable (happart : PresentApart credentials fields fields')

include happart

/-- An accepted rule reads the presence of fields and the values of plain ones. -/
theorem ruleMatches_congr {rule : SelectRuleV1} (h : checkRuleTest credentials rule = .ok ()) :
    ruleMatches fields rule = ruleMatches fields' rule := by
  unfold ruleMatches
  unfold checkRuleTest at h
  cases htest : rule.test with
  | none => rfl
  | some test =>
      rw [htest] at h
      cases test with
      | fieldPresent field => exact happart.present field
      | allPresent all =>
          dsimp only
          rw [show (fun field => (fields.get field).isSome) =
            fun field => (fields'.get field).isSome from funext happart.present]
      | fieldIn field values =>
          dsimp only at h ⊢
          rw [refuse_eq_ok, not_or, not_not] at h
          obtain ⟨declared, hdeclared, hsecret⟩ := Option.map_eq_some_iff.mp h.1
          rw [happart.plain field declared hdeclared hsecret]

theorem select_congr (haccepted : Accepted credentials) (name : Text) :
    select credentials name fields = select credentials name fields' := by
  unfold select
  cases hrecipe : credentials.recipes.get name with
  | none => rfl
  | some recipe =>
      dsimp only
      split
      · rfl
      · rename_i hselect
        obtain ⟨-, -, hrules⟩ := checkSelector_ok (haccepted.selector hrecipe hselect)
        have hfind : recipe.select.find? (ruleMatches fields) =
            recipe.select.find? (ruleMatches fields') :=
          List.find?_congr fun rule hrule =>
            ruleMatches_congr happart (checkRule_ok (hrules rule hrule)).2
        rw [hfind]

theorem fieldAttributes_congr (declared : SortedMap Text AttributeV1) :
    fieldAttributes credentials declared fields = fieldAttributes credentials declared fields' := by
  unfold fieldAttributes
  refine congrArg SortedMap.ofList (List.filterMap_congr fun e _ => ?_)
  split
  · cases e.2.field with
    | none => rfl
    | some field =>
        cases hknown : (credentials.fields.get field).filter fun declared => !declared.secret with
        | none => simp [hknown]
        | some known =>
            obtain ⟨hknown', hsecret⟩ := Option.filter_eq_some_iff.mp hknown
            simp [hknown, happart.plain field known hknown' (by simpa using hsecret)]
  · rfl

theorem attributesOf_congr (chosen : Chosen) :
    attributesOf credentials chosen fields = attributesOf credentials chosen fields' := by
  rw [attributesOf, attributesOf, fieldAttributes_congr happart]

theorem chosenFor_congr (haccepted : Accepted credentials) (slot : Text) :
    chosenFor credentials slot fields = chosenFor credentials slot fields' := by
  unfold chosenFor
  split
  · rw [select_congr happart haccepted]
  · rfl

theorem exportedValues_congr (chosen : Option Chosen) :
    exportedValues credentials chosen fields = exportedValues credentials chosen fields' := by
  unfold exportedValues
  rw [fieldAttributes_congr happart]
  refine congrArg _ (congrArg (List.flatMap · _) (funext fun chosen => ?_))
  rw [attributesOf_congr happart]

/-- A template parameter is read from a plain field. -/
theorem paramValue_congr {run run' : Run} (hcredentials : run.credentials = credentials)
    (hcredentials' : run'.credentials = credentials) (hfields : run.fields = fields)
    (hfields' : run'.fields = fields') (step : StepV1) (malformed : RecipeOutcomeV1) :
    paramValue run step malformed = paramValue run' step malformed := by
  funext name
  unfold paramValue
  cases step.endpointParams.get name with
  | none => rfl
  | some reference =>
      dsimp only
      rw [hcredentials, hcredentials']
      split
      · rfl
      · rename_i hchecked
        rw [Bool.or_eq_true, not_or, Bool.not_eq_true, Bool.not_eq_false', Option.any_eq_true] at hchecked
        obtain ⟨declared, hdeclared, hplain⟩ := hchecked.1
        rw [Bool.and_eq_true, Bool.not_eq_true'] at hplain
        have hvalue := happart.plain reference.field declared hdeclared hplain.2
        unfold fieldOf
        rw [hfields, hfields', hvalue]

end Apart

/-- Runs that differ in secrets only choose the same recipe and fill the same
endpoints. -/
theorem urlOf_congr (haccepted : Accepted credentials)
    (hstored : SecretsApart credentials stored stored') {slot : Text} {now now' : Int}
    {run run' : Run} (hbegun : Begun credentials slot stored now run)
    (hbegun' : Begun credentials slot stored' now' run') :
    run.chosen = run'.chosen ∧ ∀ step, urlOf run step = urlOf run' step := by
  have happart := presentApart haccepted hstored hbegun.fields_eq hbegun'.fields_eq
  obtain ⟨name, hslot, hselect⟩ := hbegun.minted
  obtain ⟨name', hslot', hselect'⟩ := hbegun'.minted
  obtain rfl : name = name' := by
    rw [hslot, Option.some.injEq, SlotV1.minted.injEq] at hslot'
    exact hslot'
  have hchosen : run.chosen = run'.chosen := by
    rw [select_congr happart haccepted, hselect', Except.ok.injEq] at hselect
    exact hselect.symm
  refine ⟨hchosen, fun step => ?_⟩
  unfold urlOf
  rw [Run.recipe, Run.recipe, hchosen]
  split
  · rfl
  · split
    · rfl
    · dsimp only
      rw [paramValue_congr happart hbegun.credentials_eq hbegun'.credentials_eq rfl rfl]

/-- The part of a URL before any query. -/
def beforeQuery (url : Text) : Text := url.takeWhile (· != '?')

theorem beforeQuery_append (url query : Text) :
    beforeQuery (url ++ '?' :: query) = beforeQuery url := by
  induction url with
  | nil => rfl
  | cons c url ih =>
      rw [beforeQuery, beforeQuery, List.cons_append, List.takeWhile_cons, List.takeWhile_cons]
      split
      · exact congrArg (List.cons c) ih
      · rfl

/-- For an accepted section and stored fields that satisfy its rules and differ in the
values of secrets only: the recipe, the exported attributes and every rendered URL
before its query are the same. -/
theorem secrets_do_not_steer (credentials : CredentialsV1) (secretSlots providers : List Text)
    (stored stored' fields fields' : SortedMap Text Text)
    (hcheck : check credentials secretSlots providers = .ok ())
    (hfields : resolveFields credentials stored = .ok fields)
    (hfields' : resolveFields credentials stored' = .ok fields')
    (hstored : SecretsApart credentials stored stored') :
    (∀ recipe, select credentials recipe fields = select credentials recipe fields') ∧
    (∀ slot persisted, exportedAttributesV1 credentials slot stored persisted =
      exportedAttributesV1 credentials slot stored' persisted) ∧
    ∀ slot now now' run run' serde, begin credentials slot stored now = .ok run →
      begin credentials slot stored' now' = .ok run' →
        (∀ step, urlOf run step = urlOf run' step) ∧
        ∀ step produced produced' request request', render serde run produced step = .ok request →
          render serde run' produced' step = .ok request' →
            beforeQuery request.url = beforeQuery request'.url := by
  have haccepted := accepted_of_check hcheck
  have happart := presentApart haccepted hstored hfields hfields'
  refine ⟨select_congr happart haccepted, fun slot persisted => ?_, ?_⟩
  · unfold exportedAttributesV1
    split
    · rfl
    · rw [hfields, hfields']
      change (chosenFor credentials slot fields >>= _) = (chosenFor credentials slot fields' >>= _)
      rw [chosenFor_congr happart haccepted]
      refine bind_congr fun chosen => ?_
      rw [exportedValues_congr happart]
  · intro slot now now' run run' serde hbegin hbegin'
    obtain ⟨-, hurls⟩ := urlOf_congr haccepted hstored (begun_of_begin hbegin) (begun_of_begin hbegin')
    refine ⟨hurls, fun step produced produced' request request' hrender hrender' => ?_⟩
    have hbefore {run : Run} {produced : SortedMap Text Library.Json.Value}
        {request : RenderedRequestV1} (h : render serde run produced step = .ok request) :
        ∃ url, urlOf run step.id = .ok url ∧ beforeQuery request.url = beforeQuery url := by
      obtain ⟨url, hurl, hrequest⟩ := render_url h
      refine ⟨url, hurl, ?_⟩
      rcases hrequest with heq | ⟨query, heq⟩
      · rw [heq]
      · rw [heq, beforeQuery_append]
    obtain ⟨url, hurl, hquery⟩ := hbefore hrender
    obtain ⟨url', hurl', hquery'⟩ := hbefore hrender'
    rw [hurls, hurl', Except.ok.injEq] at hurl
    rw [hquery, hquery', hurl]

/-- An exchange with a plain field in its path and a secret one in a header. -/
def regional : StepV1 :=
  { exchange ['c'] ['t'] with
    endpoint := some (httpsMark ++ ['a', '.', 'b', '/', '\x7b', 'g', '\x7d'])
    endpointParams := .ofList [(['g'], { field := ['g'] })]
    headers := .ofList [(['h'], { field := some ['k'] })] }

/-- A selector over a recipe for credentials with the secret and one for those without.
The chosen recipe's name and the plain field are exported. -/
def steered : CredentialsV1 :=
  { schema := credentialRecipeSchema
    fields := .ofList [(['g'], { secret := false, syn := some .token }), (['k'], { secret := true })]
    slots := .ofList [(['s'], .minted ['r'])]
    recipes := .ofList
      [(['r'],
          { select := [⟨some (.fieldPresent ['k']), ['m']⟩, ⟨none, ['n']⟩]
            attributes := .ofList [(['w'], { selectedRecipe := true, exports := true })] }),
        (['m'],
          { steps := [regional]
            present := some [.output (outputOf ['c'] ['t'])]
            rotatesRefreshMaterial := some false
            attributes := .ofList [(['g'], { field := some ['g'], exports := true })] }),
        (['n'],
          { steps := [exchange ['a'] ['t']]
            present := some [.output (outputOf ['a'] ['t'])]
            rotatesRefreshMaterial := some false })] }

def storedWith (secret : Text) : SortedMap Text Text := .ofList [(['g'], ['e']), (['k'], secret)]

theorem storedWith_apart : SecretsApart steered (storedWith ['v']) (storedWith ['u']) := by
  constructor
  · intro name declared hdeclared hsecret
    rcases List.mem_cons.mp (SortedMap.mem_entries_iff.mpr hdeclared) with hmem | hmem
    · cases hmem
      rfl
    · cases List.mem_singleton.mp hmem
      cases hsecret
  · intro name declared hdeclared hsecret
    rcases List.mem_cons.mp (SortedMap.mem_entries_iff.mpr hdeclared) with hmem | hmem
    · cases hmem
      cases hsecret
    · cases List.mem_singleton.mp hmem
      rfl

theorem steered_by_plain_fields :
    (exportedAttributesV1 steered ['s'] (storedWith ['v']) .empty).map (·.values.entries) =
        .ok [(['g'], ['e']), (['w'], ['m'])] ∧
      exportedAttributesV1 steered ['s'] (storedWith ['v']) .empty =
        exportedAttributesV1 steered ['s'] (storedWith ['u']) .empty ∧
      ∃ run run', begin steered ['s'] (storedWith ['v']) 0 = .ok run ∧
        begin steered ['s'] (storedWith ['u']) 0 = .ok run' ∧
          (urlOf run ['c']).toOption = some (httpsMark ++ ['a', '.', 'b', '/', 'e']) ∧
            urlOf run ['c'] = urlOf run' ['c'] := by
  have hsteer := secrets_do_not_steer steered [['s']] [] (storedWith ['v']) (storedWith ['u'])
    (storedWith ['v']) (storedWith ['u']) (by decide +kernel) rfl rfl storedWith_apart
  refine ⟨rfl, hsteer.2.1 ['s'] .empty, _, _, rfl, rfl, by decide +kernel, ?_⟩
  exact (hsteer.2.2 ['s'] 0 0 _ _ rootJson rfl rfl).1 ['c']

end TokenStation.Credentials
