import TokenStation.Contracts.UrlSegment
import TokenStation.Credentials.Check
import TokenStation.Library.Base64
import TokenStation.Library.Json

/-!
# The recipe interpreter

One run of a slot's recipe: fields are resolved, a recipe is selected, its steps
are taken in turn, and what it presents is clamped to the host's lifetime. Time,
signatures and responses are given; so are the functions of the JSON library.
-/

namespace TokenStation.Credentials

open Library Library.Checked Library.Json Manifest

/-- Functions of the JSON library. -/
structure SerdeJson where
  fromStr : Text → Option Value
  fromSlice : List UInt8 → Option Value
  pointer : Value → Text → Option Value
  toText : Value → Text

/-! ## Times -/

def minI64 : Int := -2 ^ 63
def maxI64 : Int := 2 ^ 63 - 1

/-- The nearest 64-bit integer. -/
def saturate (n : Int) : Int := max minI64 (min maxI64 n)

def saturatingAdd (a b : Int) : Int := saturate (a + b)
def saturatingSub (a b : Int) : Int := saturate (a - b)

def asI64 : Value → Option Int
  | .number (.posInt n) => if (n : Int) ≤ maxI64 then some n else none
  | .number (.negInt n) => some n
  | _ => none

/-! ## Effects and outcomes -/

/-- One exchange request, exactly as the recipe renders it. -/
structure RenderedRequestV1 where
  step : Text
  method : Text
  url : Text
  headers : SortedMap Text Text
  body : Option Text

/-- A response to one exchange. -/
structure FakeResponseV1 where
  status : Nat
  body : Value

/-- What is outside the recipe. A response may depend on every request so far;
none is a transport failure. -/
structure RecipeEffectsV1 where
  now : Int
  fits : minI64 ≤ now ∧ now ≤ maxI64
  sign : JwtAlgorithmV1 → List UInt8 → List UInt8 → Except String (List UInt8)
  respond : List RenderedRequestV1 → Option FakeResponseV1

/-- A minted slot value. -/
structure MintedV1 where
  present : Text
  expiresAt : Int
  outputs : SortedMap Text Value
  writeBack : SortedMap Text Text
  attributes : SortedMap Text Text

/-- How a run ended. -/
inductive RecipeOutcomeV1 where
  | minted (minted : MintedV1)
  | useStored
  | configuration (field : Option Text) (detail : String)
  | reauthRequired (step : Text) (status : Nat) (detail : String)
  | transient (step : Option Text) (status : Option Nat) (detail : String)

/-- One run of a slot's recipe. -/
structure RecipeRunV1 where
  recipe : Option Text
  requests : List RenderedRequestV1
  outcome : RecipeOutcomeV1

/-! ## Fields -/

/-- A stored value that is not empty, or the default. -/
def presentValue (stored : SortedMap Text Text) (name : Text) (declared : CredentialFieldV1) :
    Option Text :=
  ((stored.get name).filter (· ≠ [])).or (declared.default.filter (· ≠ []))

def resolveField (stored : SortedMap Text Text) (present : SortedMap Text Text) :
    Text × CredentialFieldV1 → Except RecipeOutcomeV1 (SortedMap Text Text)
  | (name, declared) =>
      match presentValue stored name declared with
      | some value =>
          if declared.syn.any fun syn => !syn.admits value then
            .error (.configuration (some name)
              ("field " ++ shown name ++ " does not have its declared syntax"))
          else .ok (present.insert name value)
      | none =>
          if declared.required then
            .error (.configuration (some name) ("required field " ++ shown name ++ " is empty"))
          else .ok present

/-- A group as a message shows it. -/
def shownGroup (group : List Text) : String :=
  "[" ++ ", ".intercalate (group.map fun field => "\"" ++ String.ofList field ++ "\"") ++ "]"

/-- Present field values: non-empty, or the declared default, each with its
declared syntax. -/
def resolveFields (credentials : CredentialsV1) (stored : SortedMap Text Text) :
    Except RecipeOutcomeV1 (SortedMap Text Text) := do
  let present ← credentials.fields.entries.foldlM (resolveField stored) .empty
  credentials.requireOneOf.forM fun group =>
    refuse (group.all fun field => (present.get field).isNone)
      (.configuration group.head? ("none of " ++ shownGroup group ++ " is present"))
  return present

/-! ## Selection -/

/-- A slot's recipe after its selector, if any, ran. -/
structure Chosen where
  selector : Option RecipeV1
  name : Text
  recipe : RecipeV1

/-- Whether a rule's test holds of present fields. -/
def ruleMatches (fields : SortedMap Text Text) (rule : SelectRuleV1) : Bool :=
  match rule.test with
  | none => true
  | some (.fieldPresent field) => (fields.get field).isSome
  | some (.allPresent all) => all.all fun field => (fields.get field).isSome
  | some (.fieldIn field values) =>
      (fields.get field).any fun value => values.any (Text.eqIgnoreAsciiCase value)

def select (credentials : CredentialsV1) (name : Text) (fields : SortedMap Text Text) :
    Except RecipeOutcomeV1 Chosen :=
  match credentials.recipes.get name with
  | none => .error (.configuration none ("no recipe " ++ shown name))
  | some recipe =>
      if recipe.select = [] then .ok ⟨none, name, recipe⟩
      else
        match recipe.select.find? (ruleMatches fields) with
        | none => .error (.configuration none
            ("no rule of selector " ++ shown name ++ " matched"))
        | some rule =>
            match (credentials.recipes.get rule.recipe).filter fun target => target.select = [] with
            | none => .error (.configuration none
                ("selector " ++ shown name ++ " names no complete recipe " ++ shown rule.recipe))
            | some target => .ok ⟨some recipe, rule.recipe, target⟩

/-! ## Attributes -/

/-- Attributes taken from present fields that are not secret. -/
def fieldAttributes (credentials : CredentialsV1) (declared : SortedMap Text AttributeV1)
    (fields : SortedMap Text Text) : SortedMap Text Text :=
  .ofList (declared.entries.filterMap fun e =>
    if e.2.exports && !e.2.selectedRecipe then do
      let field ← e.2.field
      let _ ← (credentials.fields.get field).filter fun declared => !declared.secret
      let value ← fields.get field
      return (e.1, value)
    else none)

/-- The exported attributes of a chosen recipe. -/
def attributesOf (credentials : CredentialsV1) (chosen : Chosen) (fields : SortedMap Text Text) :
    SortedMap Text Text :=
  let fromSelector := (chosen.selector.toList.flatMap fun selector =>
    selector.attributes.entries.filter fun e => e.2.exports && e.2.selectedRecipe).map
      fun e => (e.1, chosen.name)
  (SortedMap.ofList fromSelector).insertAll
    (fieldAttributes credentials chosen.recipe.attributes fields).entries

/-! ## Values -/

/-- A run of a chosen recipe over present fields. -/
structure Run where
  credentials : CredentialsV1
  chosen : Chosen
  fields : SortedMap Text Text
  now : Int

def Run.recipe (run : Run) : RecipeV1 := run.chosen.recipe

def textBytes (text : Text) : List UInt8 := text.flatMap String.utf8EncodeChar

/-- The step of a `step.output` name. -/
def stepOf (output : Text) : Text :=
  if '.' ∈ output then output.takeWhile (· != '.') else output

section Values

variable (serde : SerdeJson) (run : Run)

/-- A value as header, form or key text. -/
def text (value : Value) : Text :=
  match value with
  | .string text => text.toList
  | other => serde.toText other

def constantValue : ConstantV1 → Value
  | .text text => .string (String.ofList text)
  | .integer integer => .int integer
  | .boolean boolean => .bool boolean

def fieldOf (name : Text) : Except RecipeOutcomeV1 Text :=
  match run.fields.get name with
  | some value => .ok value
  | none => .error (.configuration (some name) ("field " ++ shown name ++ " is absent"))

/-- A field's value, or what a pointer finds in the document it holds. -/
def fieldValue (field : Text) (pointer : Option Text) : Except RecipeOutcomeV1 Value := do
  let value ← fieldOf run field
  match pointer with
  | none => return .string (String.ofList value)
  | some pointer =>
      match serde.fromStr value with
      | none => .error (.configuration (some field)
          ("field " ++ shown field ++ " is not a JSON document"))
      | some document =>
          match (serde.pointer document pointer).filter fun value => !value.isNull with
          | some value => return value
          | none => .error (.configuration (some field)
              ("field " ++ shown field ++ " has nothing at " ++ shown pointer))

/-- What a template parameter is filled with. -/
def paramValue (step : StepV1) (malformed : RecipeOutcomeV1) (name : Text) :
    Except RecipeOutcomeV1 Text :=
  match step.endpointParams.get name with
  | none => .error malformed
  | some reference =>
      let checked := (run.credentials.fields.get reference.field).any fun field =>
        field.syn.isSome && !field.secret
      if !checked || reference.pointer.isSome then .error malformed
      else (fieldOf run reference.field).map encodeSegment

/-- A template with each parameter in braces replaced. -/
def fillUrl (malformed : RecipeOutcomeV1) (value : Text → Except RecipeOutcomeV1 Text)
    (template : Text) : Except RecipeOutcomeV1 Text :=
  let lead := template.takeWhile (· != openBrace)
  match _hopen : template.dropWhile (· != openBrace) with
  | [] => .ok lead
  | _ :: after =>
      let name := after.takeWhile (· != closeBrace)
      match _hclose : after.dropWhile (· != closeBrace) with
      | [] => .error malformed
      | _ :: rest => do
          let filled ← value name
          let later ← fillUrl malformed value rest
          return lead ++ filled ++ later
termination_by template.length
decreasing_by
  have hopen := congrArg List.length _hopen
  have hclose := congrArg List.length _hclose
  have hlead := (List.dropWhile_suffix (fun c => c != openBrace) (l := template)).length_le
  have hname := (List.dropWhile_suffix (fun c => c != closeBrace) (l := after)).length_le
  rw [List.length_cons] at hopen hclose
  omega

/-- The step's endpoint with its template parameters filled. -/
def urlOf (stepId : Text) : Except RecipeOutcomeV1 Text :=
  match run.recipe.steps.find? fun step => step.id == stepId with
  | none => .error (.configuration none ("no step " ++ shown stepId))
  | some step =>
      match step.endpoint with
      | none => .error (.configuration none ("step " ++ shown stepId ++ " has no endpoint"))
      | some endpoint =>
          let malformed :=
            .configuration none ("step " ++ shown stepId ++ "'s template is malformed")
          fillUrl malformed (paramValue run step malformed) endpoint

variable (outputs : SortedMap Text Value)

def sourceValue (source : ValueSourceV1) : Except RecipeOutcomeV1 Value :=
  match source.constant with
  | some constant => .ok (constantValue constant)
  | none =>
      match source.field with
      | some field => fieldValue serde run field source.pointer
      | none =>
          match source.output with
          | some output =>
              match outputs.get output with
              | some value => .ok value
              | none => .error (.transient (some (stepOf output)) none
                  ("output " ++ shown output ++ " is absent"))
          | none =>
              match source.nowPlus with
              | some offset => .ok (.int (saturatingAdd run.now offset))
              | none =>
                  match source.endpointOf with
                  | some step => (urlOf run step).map fun url => .string (String.ofList url)
                  | none => .error (.configuration none "a value names no source")

/-- Named sources, each with its value. -/
def sourceValues (sources : List (Text × ValueSourceV1)) :
    Except RecipeOutcomeV1 (List (Text × Value)) :=
  sources.mapM fun e => (sourceValue serde run outputs e.2).map fun value => (e.1, value)

end Values

/-! ## Requests -/

def isFormChar (c : Char) : Bool := c.isAlphanum || c ∈ ['*', '-', '.', '_']

def encodeForm (value : Text) : Text :=
  value.flatMap fun c =>
    if c = ' ' then ['+']
    else if isFormChar c then [c]
    else (String.utf8EncodeChar c).flatMap escapeByte

/-- `application/x-www-form-urlencoded`, in the params' key order. -/
def form (serde : SerdeJson) (params : List (Text × Value)) : Text :=
  ['&'].intercalate (params.map fun e => encodeForm e.1 ++ '=' :: encodeForm (text serde e.2))

def getMethod : Text := "GET".toList
def postMethod : Text := "POST".toList

def methodOf (step : StepV1) : Except RecipeOutcomeV1 Text :=
  match step.kind, step.method with
  | .oauth2Token, _ => .ok postMethod
  | _, some .post => .ok postMethod
  | _, some .get => .ok getMethod
  | _, none => .error (.configuration none ("step " ++ shown step.id ++ " has no method"))

def jsonObject (entries : List (Text × Value)) : Value :=
  .obj (entries.map fun e => (String.ofList e.1, e.2))

section Requests

variable (serde : SerdeJson) (run : Run) (outputs : SortedMap Text Value)

def authHeader (auth : StepAuthV1) : Except RecipeOutcomeV1 (Text × Text) := do
  let value ← sourceValue serde run outputs auth.value
  return ("authorization".toList, auth.scheme ++ ' ' :: text serde value)

def contentType : Text := "content-type".toList

def render (step : StepV1) : Except RecipeOutcomeV1 RenderedRequestV1 := do
  let method ← methodOf step
  let url ← urlOf run step.id
  let declared ← sourceValues serde run outputs step.headers.entries
  let auth ← step.auth.toList.mapM (authHeader serde run outputs)
  let headers := (SortedMap.ofList (declared.map fun e => (e.1, text serde e.2))).insertAll auth
  let params ← sourceValues serde run outputs step.params.entries
  if params = [] then return ⟨step.id, method, url, headers, none⟩
  else if method = getMethod then
    return ⟨step.id, method, url ++ '?' :: form serde params, headers, none⟩
  else if step.encoding = some .json then
    return ⟨step.id, method, url, headers.insert contentType "application/json".toList,
      some (serde.toText (jsonObject params))⟩
  else
    return ⟨step.id, method, url,
      headers.insert contentType "application/x-www-form-urlencoded".toList,
      some (form serde params)⟩

/-! ## Signatures -/

/-- The claims serialized first, in this order. -/
def registeredClaims : List Text :=
  [['i', 's', 's'], subClaim, audClaim, expClaim, ['n', 'b', 'f'], ['i', 'a', 't'],
    ['j', 't', 'i']]

/-- A signer's claims in the order they are serialized. -/
def orderedClaims (step : StepV1) : List (Text × ValueSourceV1) :=
  (registeredClaims.filterMap fun name => (step.claims.get name).map fun source => (name, source)) ++
    step.claims.entries.filter fun e => e.1 ∉ registeredClaims

def claimsText (claims : List (Text × Value)) : Text :=
  '\x7b' :: ([','].intercalate (claims.map fun e =>
    serde.toText (.string (String.ofList e.1)) ++ ':' :: serde.toText e.2) ++ ['\x7d'])

def algName : JwtAlgorithmV1 → Text
  | .hs256 => "HS256".toList
  | .rs256 => "RS256".toList
  | .es256 => "ES256".toList

def jwtHeader (alg : JwtAlgorithmV1) : Text :=
  "\x7b\"typ\":\"JWT\",\"alg\":\"".toList ++ algName alg ++ "\"\x7d".toList

/-- What is signed: the header and the claims. -/
def signingInput (alg : JwtAlgorithmV1) (claims : List (Text × Value)) : Text :=
  Base64.encode (textBytes (jwtHeader alg)) ++
    '.' :: Base64.encode (textBytes (claimsText serde claims))

/-- The key a signing step signs with. -/
def signingKey (source : ValueSourceV1) : Except RecipeOutcomeV1 Text :=
  (sourceValue serde run outputs source).map (text serde)

/-- The JWS compact form. -/
def sign (effects : RecipeEffectsV1) (step : StepV1) : Except RecipeOutcomeV1 Text :=
  let invalid :=
    .configuration none ("step " ++ shown step.id ++ " is not a complete jwt_sign")
  match step.alg, step.key with
  | some alg, some keySource => do
      let key ← signingKey serde run outputs keySource
      let claims ← sourceValues serde run outputs (orderedClaims step)
      let input := signingInput serde alg claims
      match effects.sign alg (textBytes key) (textBytes input) with
      | .ok signature => return input ++ '.' :: Base64.encode signature
      | .error error => .error (.configuration keySource.field ("the key cannot sign: " ++ error))
  | _, _ => .error invalid

end Requests

/-! ## Extraction -/

/-- Base64url, padded or not. -/
def base64urlDecode (text : Text) : Option (List UInt8) :=
  let body := text.rdropWhile (· == '=')
  let canonical := (4 - body.length % 4) % 4
  if text.length - body.length ≤ canonical then Base64.decode body else none

/-- A JWT's payload, decoded without verifying anything. -/
def jwtPayload (serde : SerdeJson) (token : Text) : Option Value :=
  match token.splitOn '.' with
  | _ :: payload :: _ => (base64urlDecode payload).bind serde.fromSlice
  | _ => none

/-- What a clock form read. -/
inductive Clock where
  | other
  | expiry (expiry : Int)
  | missing

def Clock.ofRead : Option Int → Clock
  | some time => .expiry time
  | none => .missing

/-- The outputs of the steps so far, and the expiry each step's clock produced. -/
structure Progress where
  outputs : SortedMap Text Value
  clocks : SortedMap Text Int

section Extraction

variable (serde : SerdeJson) (run : Run)

/-- What a clock form reads from a body. -/
def clock (rule : ExtractV1) (body : Value) : Clock :=
  let integer (pointer : Text) : Option Int := (serde.pointer body pointer).bind asI64
  match rule.relativeSeconds, rule.epochSeconds, rule.epochMillis, rule.jwtExp with
  | some pointer, _, _, _ => .ofRead ((integer pointer).map (saturatingAdd run.now))
  | none, some pointer, _, _ => .ofRead (integer pointer)
  | none, none, some pointer, _ => .ofRead ((integer pointer).map (· / 1000))
  | none, none, none, some pointer =>
      .ofRead do
        let token ← (serde.pointer body pointer).bind Value.asStr
        let payload ← jwtPayload serde token.toList
        (payload.get "exp").bind asI64
  | none, none, none, none =>
      if rule.fixedWindow = some true then
        .ofRead (run.recipe.fixedValiditySeconds.map fun window => saturatingAdd run.now window)
      else .other

/-- What an extraction that is no clock reads. -/
def extracted (rule : ExtractV1) (body : Value) : Option Value :=
  match rule.jwtClaim with
  | some claim =>
      ((((serde.pointer body claim.token).bind Value.asStr).bind fun token =>
        jwtPayload serde token.toList).bind fun payload =>
          serde.pointer payload claim.pointer).filter fun value => !value.isNull
  | none =>
      (rule.pointer.bind fun pointer => serde.pointer body pointer).filter
        fun value => !value.isNull

/-- The expiry a clock form gives, the recipe's default where it gives none. -/
def expiryOf (clock : Clock) : Option Int :=
  match clock, run.recipe.defaultSeconds with
  | .expiry expiry, _ => some expiry
  | _, some default => some (saturatingAdd run.now default)
  | _, none => none

/-- An extracted value, with the clocks after it. -/
def readExtraction (step : StepV1) (response : FakeResponseV1) (clocks : SortedMap Text Int) :
    Text × ExtractV1 → Except RecipeOutcomeV1 (Option Value × SortedMap Text Int)
  | (name, rule) =>
      match clock serde run rule response.body with
      | .other => .ok (extracted serde rule response.body, clocks)
      | found =>
          match expiryOf run found with
          | some expiry => .ok (some (.int expiry), clocks.insert step.id expiry)
          | none => .error (.transient (some step.id) (some response.status)
              ("clock " ++ shown name ++ " yields no expiry and there is no default"))

def extractOne (step : StepV1) (response : FakeResponseV1) (progress : Progress)
    (e : Text × ExtractV1) : Except RecipeOutcomeV1 Progress := do
  let (value, clocks) ← readExtraction serde run step response progress.clocks e
  match value with
  | none =>
      if e.2.optional then return ⟨progress.outputs, clocks⟩
      else .error (.transient (some step.id) (some response.status)
        ("the response lacks " ++ shown e.1))
  | some value =>
      match e.2.mustEqualField.bind run.fields.get with
      | some stored =>
          refuse (text serde value ≠ stored) (.reauthRequired step.id response.status
            (shown e.1 ++ " does not equal the stored " ++ shown (e.2.mustEqualField.getD [])))
      | none => .ok ()
      return ⟨progress.outputs.insert (outputOf step.id e.1) value, clocks⟩

def extract (step : StepV1) (response : FakeResponseV1) (progress : Progress) :
    Except RecipeOutcomeV1 Progress :=
  step.extract.entries.foldlM (extractOne serde run step response) progress

end Extraction

/-! ## Steps -/

/-- What a status does to a step. -/
inductive Transition where
  | success
  | goto (step : Text)
  | reauthRequired
  | transient
deriving DecidableEq

def isSuccess (status : Nat) : Bool := 200 ≤ status && status < 300

/-- The class key of a status. -/
def statusClass (status : Nat) : Option Text :=
  if 400 ≤ status ∧ status ≤ 499 then some fourXx
  else if 500 ≤ status ∧ status ≤ 599 then some fiveXx
  else none

def transition (step : StepV1) (status : Nat) : Transition :=
  let declared := (step.onStatus.get (Nat.toDigits 10 status)).or
    (if isSuccess status then none else (statusClass status).bind step.onStatus.get)
  match declared with
  | some (.goto target) => .goto target
  | some .reauthRequired => .reauthRequired
  | some .transient => .transient
  | none =>
      if isSuccess status then .success
      else if statusClass status = some fourXx then .reauthRequired
      else .transient

/-- The steps some `goto` names. -/
def gotoTargets (recipe : RecipeV1) : List Text :=
  recipe.steps.flatMap fun step => step.onStatus.entries.filterMap fun e =>
    match e.2 with
    | .goto target => some target
    | _ => none

/-- A run between two steps. -/
structure RunState where
  index : Nat
  enteredByGoto : Bool
  progress : Progress
  requests : List RenderedRequestV1

def RunState.start : RunState := ⟨0, false, ⟨.empty, .empty⟩, []⟩

/-- What one turn of the loop does. -/
inductive Turn where
  | done
  | stop (outcome : RecipeOutcomeV1) (requests : List RenderedRequestV1)
  | go (next : RunState)

section Steps

variable (serde : SerdeJson) (run : Run) (effects : RecipeEffectsV1)

/-- The step about to be taken: a `goto` target is entered by its `goto` only. -/
def currentStep (s : RunState) : Option StepV1 :=
  (run.recipe.steps[s.index]?).filter fun step =>
    s.enteredByGoto || s.index == 0 || step.id ∉ gotoTargets run.recipe

/-- Where a step goes on after its response. -/
def answered (s : RunState) (step : StepV1) (requests : List RenderedRequestV1)
    (response : FakeResponseV1) : Turn :=
  match transition step response.status with
  | .success =>
      if step.kind = .httpProbe then .go ⟨s.index + 1, false, s.progress, requests⟩
      else
        match extract serde run step response s.progress with
        | .ok progress => .go ⟨s.index + 1, false, progress, requests⟩
        | .error outcome => .stop outcome requests
  | .goto target =>
      match (run.recipe.steps.findIdx? fun candidate => candidate.id == target).filter
          fun position => s.index < position with
      | some position => .go ⟨position, true, s.progress, requests⟩
      | none => .stop (.configuration none ("goto " ++ shown target ++ " names no later step"))
          requests
  | .reauthRequired =>
      .stop (.reauthRequired step.id response.status
        ("status " ++ toString response.status ++ " requires re-authentication")) requests
  | .transient =>
      .stop (.transient (some step.id) (some response.status)
        ("status " ++ toString response.status ++ " is transient")) requests

/-- Take a step whose required fields are present. -/
def perform (s : RunState) (step : StepV1) : Turn :=
  if step.kind = .jwtSign then
    match sign serde run s.progress.outputs effects step with
    | .ok jwt =>
        .go ⟨s.index + 1, false,
          ⟨s.progress.outputs.insert (jwtOf step) (.string (String.ofList jwt)),
            s.progress.clocks⟩, s.requests⟩
    | .error outcome => .stop outcome s.requests
  else
    match render serde run s.progress.outputs step with
    | .error outcome => .stop outcome s.requests
    | .ok request =>
        let requests := s.requests ++ [request]
        match effects.respond requests with
        | none => .stop (.transient (some step.id) none "no response arrived") requests
        | some response => answered serde run s step requests response

/-- How a run ends before a step whose required field is absent. -/
def unmet (step : StepV1) (missing : Text) : RecipeOutcomeV1 :=
  if run.recipe.withoutRefreshMaterial = some .useStored then .useStored
  else .configuration (some missing)
    ("step " ++ shown step.id ++ " requires field " ++ shown missing)

/-- One turn of the loop. -/
def turn (s : RunState) : Turn :=
  match currentStep run s with
  | none => .done
  | some step =>
      match step.requires.find? fun field => (run.fields.get field).isNone with
      | some missing => .stop (unmet run step missing) s.requests
      | none => perform serde run effects s step

theorem answered_go {s t : RunState} {step : StepV1} {requests : List RenderedRequestV1}
    {response : FakeResponseV1} (h : answered serde run s step requests response = .go t) :
    s.index < t.index := by
  unfold answered at h
  split at h
  · split at h
    · cases h
      exact Nat.lt_succ_self _
    · split at h
      · cases h
        exact Nat.lt_succ_self _
      · cases h
  · split at h
    · rename_i position hposition
      cases h
      simpa using (Option.filter_eq_some_iff.mp hposition).2
    · cases h
  · cases h
  · cases h

theorem perform_go {s t : RunState} {step : StepV1}
    (h : perform serde run effects s step = .go t) : s.index < t.index := by
  unfold perform at h
  split at h
  · split at h
    · cases h
      exact Nat.lt_succ_self _
    · cases h
  · split at h
    · cases h
    · dsimp only at h
      split at h
      · cases h
      · exact answered_go serde run h

/-- A turn that goes on took a step of the recipe and moved past it. -/
theorem turn_go {s t : RunState} (h : turn serde run effects s = .go t) :
    s.index < run.recipe.steps.length ∧ s.index < t.index := by
  unfold turn at h
  split at h
  · cases h
  · rename_i step hstep
    have hsome := (Option.filter_eq_some_iff.mp hstep).1
    refine ⟨(List.getElem?_eq_some_iff.mp hsome).1, ?_⟩
    split at h
    · cases h
    · exact perform_go serde run effects h

/-- The steps of a run, from a state on. -/
def steps (s : RunState) : Except (RecipeOutcomeV1 × List RenderedRequestV1) RunState :=
  match _hturn : turn serde run effects s with
  | .done => .ok s
  | .stop outcome requests => .error (outcome, requests)
  | .go next => steps next
termination_by run.recipe.steps.length - s.index
decreasing_by
  have hgo := turn_go serde run effects _hturn
  omega

end Steps

/-! ## Outcomes -/

section Outcomes

variable (run : Run) (progress : Progress)

/-- A candidate that is present and non-empty, with its expiry; nothing where it
is neither. -/
def presentCandidate :
    PresentCandidateV1 → Option (Except RecipeOutcomeV1 (Text × Int))
  | .output name =>
      (((progress.outputs.get name).bind Value.asStr).filter (· ≠ "")).map fun value =>
        match progress.clocks.get (stepOf name), run.recipe.defaultSeconds with
        | some expiry, _ => .ok (value.toList, expiry)
        | none, some default => .ok (value.toList, saturatingAdd run.now default)
        | none, none => .error (.transient (some (stepOf name)) none
            "the presented value has no clock and the recipe no default_seconds")
  | .field field validitySeconds =>
      (run.fields.get field).map fun value =>
        .ok (value, saturatingAdd run.now validitySeconds)

/-- The first candidate that is present and non-empty. -/
def presented : Except RecipeOutcomeV1 (Text × Int) :=
  match run.recipe.present.filter (· ≠ []) with
  | none => .error (.configuration none "the recipe names no present output")
  | some candidates =>
      match candidates.findSome? (presentCandidate run progress) with
      | some result => result
      | none =>
          let step := candidates.findSome? fun candidate =>
            match candidate with
            | .output name => some (stepOf name)
            | .field _ _ => none
          .error (.transient step none "no present candidate is present")

def floorSeconds (recipe : RecipeV1) : Nat :=
  max (recipe.minTtlSeconds.getD hostMinTtlSeconds) hostMinTtlSeconds

def ceilingSeconds (recipe : RecipeV1) : Nat :=
  max (min (recipe.maxTtlSeconds.getD hostMaxTtlSeconds) hostMaxTtlSeconds) (floorSeconds recipe)

/-- The lifetime of an expiry, clamped to the host's range as the recipe narrows it. -/
def clampedTtl (expiry : Int) : Int :=
  max (floorSeconds run.recipe)
    (min (ceilingSeconds run.recipe) (saturatingSub expiry run.now))

def outcome (serde : SerdeJson) : Except RecipeOutcomeV1 MintedV1 := do
  let (present, expiry) ← presented run progress
  let writeBack := run.recipe.writeBack.entries.filterMap fun e =>
    (((progress.outputs.get e.2).map (text serde)).filter (· ≠ [])).map fun value => (e.1, value)
  return {
    present
    expiresAt := saturatingAdd run.now (clampedTtl run expiry)
    outputs := progress.outputs
    writeBack := .ofList writeBack
    attributes := attributesOf run.credentials run.chosen run.fields }

end Outcomes

/-! ## A run -/

/-- The run a slot's recipe begins with, if the stored fields allow one. -/
def begin (credentials : CredentialsV1) (slot : Text) (stored : SortedMap Text Text) (now : Int) :
    Except RecipeOutcomeV1 Run := do
  let fields ← resolveFields credentials stored
  match credentials.slots.get slot with
  | some (.minted name) => do
      let chosen ← select credentials name fields
      return ⟨credentials, chosen, fields, now⟩
  | _ => .error (.configuration none ("slot " ++ shown slot ++ " is not minted by a recipe"))

/-- Mints a slot from the stored fields with the section's recipe. -/
def runRecipeV1 (serde : SerdeJson) (credentials : CredentialsV1) (slot : Text)
    (stored : SortedMap Text Text) (effects : RecipeEffectsV1) : RecipeRunV1 :=
  match begin credentials slot stored effects.now with
  | .error stop => ⟨none, [], stop⟩
  | .ok run =>
      match steps serde run effects .start with
      | .error (stop, requests) => ⟨some run.chosen.name, requests, stop⟩
      | .ok s =>
          match outcome run s.progress serde with
          | .ok minted => ⟨some run.chosen.name, s.requests, .minted minted⟩
          | .error stop => ⟨some run.chosen.name, s.requests, stop⟩

end TokenStation.Credentials
