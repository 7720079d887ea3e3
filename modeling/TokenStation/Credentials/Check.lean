import TokenStation.Credentials.Section
import TokenStation.Library.Checked
import TokenStation.Manifest.Template

/-!
# What gate 1 asks of a credentials section

The checks of the section, in the order they are made, each with the text of
its refusal. Outputs are tracked in the order the steps are listed.
-/

namespace TokenStation.Credentials

open Library Library.Checked Library.TextCuts Manifest

def credentialRecipeSchema : Text := "south.credential-recipe.v1".toList

def maxRecipeSteps : Nat := 4
def maxPresentCandidates : Nat := 4
def hostMinTtlSeconds : Nat := 60
def hostMaxTtlSeconds : Nat := 24 * 60 * 60

/-- A name as messages show it. -/
def shown (name : Text) : String := "`" ++ String.ofList name ++ "`"

/-- A check whose refusal says where it was made. -/
def within (place : String) (check : Except String Unit) : Except String Unit :=
  check.mapError fun detail => place ++ detail

def isName (value : Text) : Bool :=
  1 ≤ utf8Len value && utf8Len value ≤ 64 && value.all isNameChar

def isFileChar (c : Char) : Bool := c.isLower || c.isDigit || c == '-'

def isNameLikeFile (kind : Text) : Bool :=
  1 ≤ utf8Len kind && utf8Len kind ≤ 64 && kind.all isFileChar

/-- A JSON Pointer; the whole document only where the caller says so. -/
def isPointer (pointer : Text) (rootAllowed : Bool) : Bool :=
  if pointer.isEmpty then rootAllowed
  else
    utf8Len pointer ≤ 256 && pointer.head? == some '/' &&
      (pointer.tail.splitOn '~').tail.all fun rest => rest.head? == some '0' || rest.head? == some '1'

/-- Headers a recipe may not set. -/
def reservedStepHeaders : List Text :=
  ["authorization".toList, "proxy-authorization".toList, "cookie".toList, "host".toList,
    "content-length".toList, "content-type".toList, "transfer-encoding".toList,
    "connection".toList]

def isHeaderName (name : Text) : Bool :=
  1 ≤ utf8Len name && utf8Len name ≤ 64 && name.all isFileChar && name ∉ reservedStepHeaders

/-- A decimal number, with or without a plus sign, that fits 16 bits. -/
def parseU16 (text : Text) : Option Nat :=
  let digits := (text.dropPrefix? ['+']).getD text
  let value := digits.foldl (fun n c => n * 10 + (c.toNat - '0'.toNat)) 0
  if !digits.isEmpty && digits.all Char.isDigit && value < 2 ^ 16 then some value else none

/-! ## Sources -/

section Sources

variable (credentials : CredentialsV1) (outputs : List Text)

def sourceCount (source : ValueSourceV1) : Nat :=
  ([source.constant.isSome, source.field.isSome, source.output.isSome, source.nowPlus.isSome,
    source.endpointOf.isSome].filter id).length

def checkFieldSource (source : ValueSourceV1) : Except String Unit :=
  match source.field with
  | none => .ok ()
  | some field => do
      refuse ((credentials.fields.get field).isNone) ("names an undeclared field " ++ shown field)
      refuse (source.pointer.any fun pointer => !isPointer pointer false) "a malformed pointer"

def checkOutputSource (source : ValueSourceV1) : Except String Unit :=
  match source.output with
  | none => .ok ()
  | some output =>
      refuse (output ∉ outputs) (shown output ++ " is not an output of an earlier step")

def checkSource (source : ValueSourceV1) : Except String Unit := do
  refuse (sourceCount source ≠ 1) "a value has exactly one source"
  refuse (source.pointer.isSome ∧ source.field.isNone) "pointer is allowed only with field"
  checkFieldSource credentials source
  checkOutputSource outputs source

/-! ## Steps -/

/-- One endpoint parameter: a whole field that is not secret and has a syntax,
one that fits a label in the host part. -/
def checkEndpointParam (endpointParams : SortedMap Text FieldRefV1) :
    Text × Bool → Except String Unit
  | (param, inHost) =>
      match endpointParams.get param with
      | none => .error "endpoint_params must fill exactly the template's parameters"
      | some reference =>
          match credentials.fields.get reference.field with
          | none => .error ("endpoint parameter " ++ shown param ++ " names an undeclared field")
          | some field =>
              match field.syn.filter fun _ => !field.secret && reference.pointer.isNone with
              | none => .error ("endpoint parameter " ++ shown param ++
                  " must come from a whole non-secret field with a syntax")
              | some declared =>
                  refuse (inHost = true ∧ declared.isLabelSafe = false)
                    ("host parameter " ++ shown param ++ "'s syntax must fit inside a DNS label")

def checkMethod (step : StepV1) : Except String Unit :=
  match step.kind, step.method with
  | .oauth2Token, none | .oauth2Token, some .post => .ok ()
  | .oauth2Token, some .get => .error "oauth2_token is a POST"
  | _, none => .error "an exchange declares its method"
  | _, _ => .ok ()

def checkHttpStep (step : StepV1) : Except String Unit :=
  match step.endpoint with
  | none => .error "an HTTP step needs an endpoint"
  | some endpoint => do
      let params ← templateParams endpoint
      let named := (params.map Prod.fst).dedup
      refuse (named.length ≠ step.endpointParams.entries.length ∨
          ∃ e ∈ step.endpointParams.entries, e.1 ∉ named)
        "endpoint_params must fill exactly the template's parameters"
      params.forM (checkEndpointParam credentials step.endpointParams)
      checkMethod step
      refuse (step.params.entries ≠ [] ∧ step.encoding = none ∧ step.method ≠ some .get)
        "a step with a body declares its encoding"
      refuse (step.alg.isSome ∨ step.key.isSome ∨ step.claims.entries ≠ [])
        "alg, key and claims belong to jwt_sign"

def subClaim : Text := ['s', 'u', 'b']
def audClaim : Text := ['a', 'u', 'd']
def expClaim : Text := ['e', 'x', 'p']

def checkClaim : Text × ValueSourceV1 → Except String Unit
  | (claim, source) => do
      within ("claim " ++ shown claim ++ " ") (checkSource credentials outputs source)
      refuse (claim = subClaim ∧ source.constant.isSome) "sub may not be a constant"
      refuse (source.endpointOf.isSome ∧ claim ≠ audClaim) "endpoint_of is admitted only as aud"

/-- The key comes from a secret field; its other sources are not looked at. -/
def checkKey (step : StepV1) : Except String Unit :=
  match step.key with
  | none => .error "jwt_sign needs key"
  | some key =>
      refuse (key.field.bind credentials.isSecret ≠ some true)
        "the signing key must come from a secret field"

def checkJwtStep (step : StepV1) : Except String Unit := do
  refuse (step.endpoint.isSome ∨ step.method.isSome ∨ step.params.entries ≠ [] ∨
      step.headers.entries ≠ [] ∨ step.auth.isSome ∨ step.onStatus.entries ≠ [] ∨
      step.extract.entries ≠ [])
    "jwt_sign has no endpoint, method, params, headers, auth, on_status or extract"
  refuse step.alg.isNone "jwt_sign needs alg"
  checkKey credentials step
  refuse (step.claims.entries = []) "jwt_sign needs claims"
  step.claims.entries.forM (checkClaim credentials outputs)

def extractPointers (extract : ExtractV1) : List Text :=
  [extract.pointer, extract.relativeSeconds, extract.epochSeconds, extract.epochMillis,
    extract.jwtExp].reduceOption

def checkExtraction : Text × ExtractV1 → Except String Unit
  | (name, extract) => do
      refuse (isName name = false) ("extraction " ++ shown name ++ " is not snake_case")
      refuse ((extractPointers extract).length +
            (if extract.fixedWindow = some true then 1 else 0) +
            (if extract.jwtClaim.isSome then 1 else 0) ≠ 1 ∨
          extract.fixedWindow = some false)
        ("extraction " ++ shown name ++ " has exactly one source")
      refuse ((extractPointers extract).any fun pointer => !isPointer pointer false)
        ("extraction " ++ shown name ++ " has a malformed pointer")
      refuse (extract.jwtClaim.any fun claim =>
          !isPointer claim.token false || !isPointer claim.pointer false)
        ("extraction " ++ shown name ++ " has a malformed jwt_claim")
      refuse (extract.mustEqualField.any fun field => (credentials.fields.get field).isNone)
        ("extraction " ++ shown name ++ " must equal an undeclared field")

/-- A parameter or header: an endpoint is named only in claims. -/
def checkValue : Text × ValueSourceV1 → Except String Unit
  | (name, source) => do
      within (shown name ++ " ") (checkSource credentials outputs source)
      refuse source.endpointOf.isSome "endpoint_of is admitted only as a claim"

def checkHeaders (step : StepV1) : Except String Unit :=
  match step.headers.entries.find? fun e => !isHeaderName e.1 with
  | some e => .error ("header " ++ shown e.1 ++ " is malformed or reserved")
  | none => .ok ()

def checkAuth (auth : StepAuthV1) : Except String Unit := do
  refuse (isHeaderName (auth.scheme.map Char.toLower) = false)
    "auth scheme is not an RFC 7235 token"
  within "auth " (checkSource credentials outputs auth.value)

def fourXx : Text := ['4', 'x', 'x']
def fiveXx : Text := ['5', 'x', 'x']

def isStatusKey (status : Text) : Bool :=
  status == fourXx || status == fiveXx ||
    (utf8Len status == 3 && (parseU16 status).any fun code => 100 ≤ code && code ≤ 599)

def checkStatus (later : List Text) : Text × StatusActionV1 → Except String Unit
  | (status, action) => do
      refuse (isStatusKey status = false)
        ("on_status key " ++ shown status ++ " is not a status code or class")
      match action with
      | .goto target =>
          refuse (target ∉ later) ("goto " ++ shown target ++ " must name a later step")
      | .reauthRequired | .transient => .ok ()

def checkKind (step : StepV1) : Except String Unit :=
  if step.kind = .jwtSign then checkJwtStep credentials outputs step
  else checkHttpStep credentials step

def checkStep (step : StepV1) (later : List Text) : Except String Unit := do
  step.requires.forM fun field =>
    refuse ((credentials.fields.get field).isNone) ("requires an undeclared field " ++ shown field)
  checkKind credentials outputs step
  (step.params.entries ++ step.headers.entries).forM (checkValue credentials outputs)
  checkHeaders step
  step.auth.toList.forM (checkAuth credentials outputs)
  step.onStatus.entries.forM (checkStatus later)
  step.extract.entries.forM (checkExtraction credentials)

end Sources

/-! ## Recipes -/

/-- The outputs a step makes available to later steps. -/
def outputsOf (step : StepV1) : List Text :=
  (if step.kind = .jwtSign then [jwtOf step] else []) ++
    step.extract.entries.map fun e => outputOf step.id e.1

/-- The steps in order, each after those before it. -/
def checkSteps (credentials : CredentialsV1) (before : List StepV1) :
    List StepV1 → Except String Unit
  | [] => .ok ()
  | step :: later => do
      refuse (isName step.id = false ∨ step.id ∈ before.map (·.id))
        ("step id " ++ shown step.id ++ " is malformed or repeated")
      within ("step " ++ shown step.id ++ ": ")
        (checkStep credentials (before.flatMap outputsOf) step (later.map (·.id)))
      checkSteps credentials (before ++ [step]) later

/-- A complete recipe's attributes: each from one field that is not secret and
has a syntax. -/
def checkAttribute (credentials : CredentialsV1) : Text × AttributeV1 → Except String Unit
  | (name, declared) => do
      refuse (isName name = false ∨ declared.exports = false)
        ("attribute " ++ shown name ++ " must be a snake_case name with export: true")
      match declared.field.filter fun _ => !declared.selectedRecipe with
      | none => .error ("attribute " ++ shown name ++ " of a complete recipe comes from " ++
          "exactly one field; only a selector exports the selected recipe")
      | some field => do
          refuse (credentials.isSecret field ≠ some false)
            ("attribute " ++ shown name ++ " must come from a field declared non-secret")
          refuse ((credentials.fields.get field).all fun declared => declared.syn.isNone)
            ("attribute " ++ shown name ++
              " must come from a field that declares a value syntax")

def checkCandidate (credentials : CredentialsV1) (outputs : List Text) :
    PresentCandidateV1 → Except String Unit
  | .output output =>
      refuse (output ∉ outputs) ("present " ++ shown output ++ " is not an output of any step")
  | .field field validitySeconds => do
      refuse (credentials.isSecret field ≠ some true)
        ("present field " ++ shown field ++ " is not a declared secret field")
      refuse (validitySeconds < hostMinTtlSeconds ∨ hostMaxTtlSeconds < validitySeconds)
        ("present field " ++ shown field ++ " has a validity outside the host's 60 s to 24 h")

/-- The candidates in order, each after those before it. -/
def checkCandidates (credentials : CredentialsV1) (outputs : List Text)
    (before : List PresentCandidateV1) : List PresentCandidateV1 → Except String Unit
  | [] => .ok ()
  | candidate :: later => do
      refuse (candidate ∈ before) "present repeats a candidate"
      checkCandidate credentials outputs candidate
      checkCandidates credentials outputs (before ++ [candidate]) later

def checkPresent (credentials : CredentialsV1) (outputs : List Text)
    (present : List PresentCandidateV1) : Except String Unit := do
  refuse (present = [] ∨ maxPresentCandidates < present.length)
    "present lists one to 4 candidates"
  checkCandidates credentials outputs [] present

/-- The lifetime a claim `exp` gives from now on. -/
def lifetimeOf (signer : StepV1) : Option Int := (signer.claims.get expClaim).bind (·.nowPlus)

/-- A presented token is not cached for longer than it is valid. -/
def checkPresented (recipe : RecipeV1) (present : List PresentCandidateV1) (signer : StepV1) :
    Except String Unit :=
  if signer.kind = .jwtSign ∧ .output (jwtOf signer) ∈ present then
    match lifetimeOf signer, recipe.defaultSeconds with
    | some lifetime, some cached =>
        refuse (lifetime < cached)
          "a presented JWT needs exp as now_plus and default_seconds no longer than that lifetime"
    | _, _ =>
        .error
          "a presented JWT needs exp as now_plus and default_seconds no longer than that lifetime"
  else .ok ()

/-- The sources of a step's request. -/
def requestSources (step : StepV1) : List ValueSourceV1 :=
  step.params.entries.map Prod.snd ++ step.headers.entries.map Prod.snd ++
    step.auth.toList.map (·.value)

/-- The steps a signed assertion is sent to. -/
def receivers (recipe : RecipeV1) (signer : StepV1) : List Text :=
  (recipe.steps.filter fun step =>
    (requestSources step).any fun source => source.output = some (jwtOf signer)).map (·.id)

def checkTarget (recipe : RecipeV1) (signer : StepV1) : Except String Unit :=
  match signer.claims.entries.findSome? fun e => e.2.endpointOf with
  | none => .ok ()
  | some target =>
      refuse (∀ step ∈ recipe.steps, step.id = target → step.kind = .jwtSign)
        ("endpoint_of " ++ shown target ++ " names no HTTP step of this recipe")

def checkReceivers (recipe : RecipeV1) (signer : StepV1) : Except String Unit :=
  match receivers recipe signer with
  | [] => .ok ()
  | [receiver] =>
      refuse ((signer.claims.get audClaim).bind (·.endpointOf) ≠ some receiver)
        ("the assertion of step " ++ shown signer.id ++ " is sent to " ++ shown receiver ++
          ", so its aud must be \x7b\"endpoint_of\": \"" ++ String.ofList receiver ++ "\"\x7d")
  | _ => .error ("the assertion of step " ++ shown signer.id ++ " is sent to more than one step")

/-- A signed assertion that is sent to a step is bound to that step. -/
def checkAssertion (recipe : RecipeV1) (signer : StepV1) : Except String Unit :=
  if signer.kind = .jwtSign then do
    checkTarget recipe signer
    checkReceivers recipe signer
  else .ok ()

/-- A bound on the lifetime only narrows the host's. -/
def checkTtl (ttl : Option Nat) : Except String Unit :=
  refuse (ttl.any fun ttl => ttl < hostMinTtlSeconds || hostMaxTtlSeconds < ttl)
    "a TTL bound may only narrow the host's 60 s to 24 h clamp"

def checkRange (recipe : RecipeV1) : Except String Unit :=
  match recipe.minTtlSeconds, recipe.maxTtlSeconds with
  | some min, some max => refuse (max < min) "min_ttl_seconds exceeds max_ttl_seconds"
  | _, _ => .ok ()

/-- A freshly minted value is not already due for refresh. -/
def checkMargin (recipe : RecipeV1) : Except String Unit :=
  match recipe.refreshMarginSeconds with
  | none => .ok ()
  | some margin =>
      refuse (recipe.minTtlSeconds.getD hostMinTtlSeconds ≤ margin)
        "refresh_margin_seconds must be shorter than the shortest validity after the clamp"

def checkBounds (recipe : RecipeV1) : Except String Unit := do
  checkRange recipe
  checkMargin recipe
  checkTtl recipe.minTtlSeconds
  checkTtl recipe.maxTtlSeconds

/-- A rule names a complete recipe, none of whose attributes the selector exports. -/
def checkRuleTarget (credentials : CredentialsV1) (name : Text) (selector : RecipeV1)
    (rule : SelectRuleV1) : Except String Unit :=
  match credentials.recipes.get rule.recipe with
  | none => .error ("select names no recipe " ++ shown rule.recipe)
  | some target => do
      refuse (rule.recipe = name ∨ target.select ≠ []) "a selector names only complete recipes"
      match selector.attributes.entries.find? fun e => (target.attributes.get e.1).isSome with
      | none => .ok ()
      | some shared => .error ("attribute " ++ shown shared.1 ++
          " is exported by both the selector and recipe " ++ shown rule.recipe)

/-- A rule's test reads the value of no secret. -/
def checkRuleTest (credentials : CredentialsV1) (rule : SelectRuleV1) : Except String Unit :=
  match rule.test with
  | none => .ok ()
  | some (.fieldPresent field) =>
      refuse ((credentials.isSecret field).isNone)
        ("select tests an undeclared field " ++ shown field)
  | some (.allPresent fields) =>
      refuse (fields = [] ∨ fields.any fun field => (credentials.isSecret field).isNone)
        "all_present names no field or an undeclared one"
  | some (.fieldIn field values) =>
      refuse (credentials.isSecret field ≠ some false ∨ values = [])
        ("field_in may test only a non-secret field, " ++ shown field ++ " is not one")

def checkRule (credentials : CredentialsV1) (name : Text) (selector : RecipeV1)
    (rule : SelectRuleV1) : Except String Unit := do
  checkRuleTarget credentials name selector rule
  checkRuleTest credentials rule

/-- A selector exports only the name of the recipe it chose. -/
def checkSelectorAttribute : Text × AttributeV1 → Except String Unit
  | (name, declared) =>
      refuse (isName name = false ∨ declared.exports = false ∨
          declared.selectedRecipe = false ∨ declared.field.isSome ∨ declared.persist = true)
        ("selector attribute " ++ shown name ++ " must be a snake_case name with " ++
          "selected_recipe: true and export: true, no field and no persist")

/-- Every rule but the last has a test; the last has none. -/
def checkTests (recipe : RecipeV1) : Except String Unit :=
  match recipe.select.getLast? with
  | none => .error "select is empty"
  | some last =>
      refuse (last.test.isSome ∨ recipe.select.dropLast.any fun rule => rule.test.isNone)
        "every select rule but the last has a test; the last has none"

def checkSelector (credentials : CredentialsV1) (name : Text) (recipe : RecipeV1) :
    Except String Unit := do
  refuse (recipe ≠ { select := recipe.select, attributes := recipe.attributes })
    "a selector holds only select and attributes"
  recipe.attributes.entries.forM checkSelectorAttribute
  checkTests recipe
  recipe.select.forM (checkRule credentials name recipe)

def checkWriteBack (credentials : CredentialsV1) (outputs : List Text) :
    Text × Text → Except String Unit
  | (field, output) => do
      refuse (credentials.isSecret field ≠ some true)
        ("write_back target " ++ shown field ++ " must be a declared secret field")
      refuse (output ∉ outputs)
        ("write_back source " ++ shown output ++ " is not an output of any step")

def usesFixedWindow (recipe : RecipeV1) : Bool :=
  recipe.steps.any fun step => step.extract.entries.any fun e => e.2.fixedWindow == some true

def checkRotation (recipe : RecipeV1) : Except String Unit :=
  match recipe.rotatesRefreshMaterial with
  | none => .error "rotates_refresh_material is required and has no default"
  | some rotates => do
      refuse (rotates = true ∧ recipe.writeBack.entries = [])
        "a recipe that rotates must declare write_back"
      refuse (rotates = false ∧ recipe.writeBack.entries ≠ [])
        "write_back is declared only by a recipe that rotates"

def checkPresentation (credentials : CredentialsV1) (recipe : RecipeV1) : Except String Unit :=
  match recipe.present with
  | none => .error "present is required"
  | some present => do
      checkPresent credentials (recipe.steps.flatMap outputsOf) present
      recipe.steps.forM (checkPresented recipe present)

def checkComplete (credentials : CredentialsV1) (recipe : RecipeV1) : Except String Unit := do
  refuse (recipe.steps = [] ∨ maxRecipeSteps < recipe.steps.length) "a recipe has one to 4 steps"
  checkRotation recipe
  checkBounds recipe
  recipe.attributes.entries.forM (checkAttribute credentials)
  checkSteps credentials [] recipe.steps
  refuse (usesFixedWindow recipe = true ∧ recipe.fixedValiditySeconds.isNone)
    "a fixed_window clock needs fixed_validity_seconds"
  checkPresentation credentials recipe
  recipe.writeBack.entries.forM (checkWriteBack credentials (recipe.steps.flatMap outputsOf))
  recipe.steps.forM (checkAssertion recipe)

def checkRecipe (credentials : CredentialsV1) (name : Text) (recipe : RecipeV1) :
    Except String Unit :=
  if recipe.select ≠ [] then checkSelector credentials name recipe
  else checkComplete credentials recipe

/-! ## The section -/

section Section

variable (credentials : CredentialsV1)

def isMediaType (media : Text) : Bool := media.contains '/' && media.all isGraphic

/-- A default belongs to a field that is not secret, and has its syntax. -/
def checkDefault (name : Text) (field : CredentialFieldV1) : Except String Unit :=
  match field.default with
  | none => .ok ()
  | some default => do
      refuse (field.secret = true)
        ("field " ++ shown name ++ " is secret and may not have a default")
      refuse (field.syn.any fun declared => !declared.admits default)
        ("field " ++ shown name ++ "'s default does not have its syntax")

def checkField : Text × CredentialFieldV1 → Except String Unit
  | (name, field) => do
      refuse (isName name = false) ("field name " ++ shown name ++ " is not lowercase snake_case")
      refuse (field.syn.any fun declared => !declared.isWellFormed)
        ("field " ++ shown name ++ " has a malformed syntax")
      checkDefault name field
      refuse (field.media.any fun media => !isMediaType media)
        ("field " ++ shown name ++ " has a malformed media type")

def checkGroup (group : List Text) : Except String Unit :=
  refuse (group = [] ∨ group.any fun field => (credentials.fields.get field).isNone)
    "a require_one_of group is empty or names an undeclared field"

def checkImport : Text × ImportRuleV1 → Except String Unit
  | (field, rule) => do
      refuse ((credentials.fields.get field).isNone)
        ("import names an undeclared field " ++ shown field)
      refuse (isNameLikeFile rule.file = false ∨ rule.pointers = [] ∨
          rule.pointers.any fun pointer => !isPointer pointer true)
        ("import of " ++ shown field ++ " has a malformed file kind or pointer")

def checkFields : Except String Unit := do
  credentials.fields.entries.forM checkField
  credentials.requireOneOf.forM (checkGroup credentials)
  credentials.importRules.entries.forM (checkImport credentials)

def checkFamilies (providers : List Text) : Except String Unit :=
  match credentials.families with
  | none => .ok ()
  | some families => do
      refuse (families = [] ∨ ¬families.Nodup) "families lists one or more families, each once"
      match families.find? fun family => family ∉ providers with
      | none => .ok ()
      | some family => .error ("families names " ++ shown family ++
          ", which the package does not declare")

def checkSlotSource (slot : Text) : SlotV1 → Except String Unit
  | .minted recipe =>
      refuse ((credentials.recipes.get recipe).isNone)
        ("slot " ++ shown slot ++ " names no recipe " ++ shown recipe)
  | .field field =>
      refuse (credentials.isSecret field ≠ some true)
        ("slot " ++ shown slot ++ " must name a declared secret field")
  | .static => .ok ()

def checkSlot (secretSlots : List Text) : Text × SlotV1 → Except String Unit
  | (slot, kind) => do
      refuse (slot ∉ secretSlots)
        ("slot " ++ shown slot ++ " is not declared under permissions.secrets")
      checkSlotSource credentials slot kind

def checkSecretSlots (secretSlots : List Text) : Except String Unit :=
  match secretSlots.find? fun slot =>
    credentials.slots.get slot ∈ [none, some .static] with
  | none => .ok ()
  | some slot => .error ("slot " ++ shown slot ++
      " must name its source: minted by a recipe or a declared secret field")

def checkSeed : Except String Unit :=
  match credentials.seed with
  | none => .ok ()
  | some seed => do
      match credentials.slots.get seed.slot with
      | some (.minted _) => .ok ()
      | _ => .error "the seed must fill a minted slot"
      refuse (isNameLikeFile seed.file = false ∨ isPointer seed.present false = false ∨
          isPointer seed.expiresAt.pointer false = false)
        "the seed names a malformed file kind or pointer"

/-- Whether a section attribute is also one of a recipe. -/
def sharedAttribute : Option (Text × Text) :=
  credentials.recipes.entries.findSome? fun recipe =>
    (recipe.2.attributes.entries.find? fun e => (credentials.attributes.get e.1).isSome).map
      fun e => (e.1, recipe.1)

/-- A name is exported by the section or by recipes, not by both. -/
def checkApart : Except String Unit :=
  match sharedAttribute credentials with
  | none => .ok ()
  | some (name, recipe) => .error ("section attribute " ++ shown name ++
      " is also an attribute of recipe " ++ shown recipe)

def checkNamedRecipe : Text × RecipeV1 → Except String Unit
  | (name, recipe) => do
      refuse (isName name = false) ("recipe name " ++ shown name ++ " is not lowercase snake_case")
      within ("recipe " ++ shown name ++ ": ") (checkRecipe credentials name recipe)

/-- Gate 1 for the section, given the manifest's secret slots and families. -/
def check (secretSlots providers : List Text) : Except String Unit := do
  refuse (credentials.schema ≠ credentialRecipeSchema)
    "schema must be `south.credential-recipe.v1`"
  checkFamilies credentials providers
  checkFields credentials
  credentials.slots.entries.forM (checkSlot credentials secretSlots)
  checkSecretSlots credentials secretSlots
  checkSeed credentials
  within "section attributes: " (credentials.attributes.entries.forM (checkAttribute credentials))
  checkApart credentials
  credentials.recipes.entries.forM (checkNamedRecipe credentials)

end Section

end TokenStation.Credentials
