import TokenStation.Library.SortedMap
import TokenStation.Manifest.ValueSyntax

/-!
# The credentials section

The fields a kind of credential consists of, the source of each secret slot,
and the recipes that mint slot values: small state machines over a closed set of
step kinds.
-/

namespace TokenStation.Credentials

open Library Manifest

abbrev Text := List Char

/-- One field of a credential. -/
structure CredentialFieldV1 where
  secret : Bool
  required : Bool := false
  syn : Option ValueSyntaxV1 := none
  media : Option Text := none
  default : Option Text := none
deriving DecidableEq

/-- Where in an imported file a field's value is. -/
structure ImportRuleV1 where
  file : Text
  pointers : List Text
deriving DecidableEq

/-- How a seed's expiry is read. -/
inductive SeedClockV1 where
  | epochSeconds (pointer : Text)
  | epochMillis (pointer : Text)
  | jwtExp (pointer : Text)
  | relativeSeconds (pointer : Text)
  | rfc3339OrEpochSeconds (pointer : Text)
deriving DecidableEq

def SeedClockV1.pointer : SeedClockV1 → Text
  | .epochSeconds pointer | .epochMillis pointer | .jwtExp pointer | .relativeSeconds pointer
  | .rfc3339OrEpochSeconds pointer => pointer

/-- A minted value already present in an imported file. -/
structure SeedV1 where
  file : Text
  slot : Text
  present : Text
  expiresAt : SeedClockV1
deriving DecidableEq

/-- Where a secret slot's value comes from. -/
inductive SlotV1 where
  | static
  | minted (recipe : Text)
  | field (field : Text)
deriving DecidableEq

/-- One candidate of what a recipe presents: a step's output, or a secret field
with its own validity. -/
inductive PresentCandidateV1 where
  | output (output : Text)
  | field (field : Text) (validitySeconds : Nat)
deriving DecidableEq

inductive WithoutRefreshMaterialV1 where
  | useStored
  | fail
deriving DecidableEq

/-- A selector test. -/
inductive PredicateV1 where
  | fieldPresent (field : Text)
  | allPresent (fields : List Text)
  | fieldIn (field : Text) (values : List Text)
deriving DecidableEq

/-- One selector rule. -/
structure SelectRuleV1 where
  test : Option PredicateV1
  recipe : Text
deriving DecidableEq

/-- An exported attribute. -/
structure AttributeV1 where
  field : Option Text := none
  selectedRecipe : Bool := false
  exports : Bool
  persist : Bool := false
deriving DecidableEq

/-- A field reference, optionally into a JSON document the field holds. -/
structure FieldRefV1 where
  field : Text
  pointer : Option Text := none
deriving DecidableEq

inductive ConstantV1 where
  | text (text : Text)
  | integer (integer : Int)
  | boolean (boolean : Bool)
deriving DecidableEq

/-- Where a parameter, header, claim or key value comes from. -/
structure ValueSourceV1 where
  constant : Option ConstantV1 := none
  field : Option Text := none
  pointer : Option Text := none
  output : Option Text := none
  nowPlus : Option Int := none
  endpointOf : Option Text := none
deriving DecidableEq

/-- A value presented under an auth-scheme. -/
structure StepAuthV1 where
  scheme : Text
  value : ValueSourceV1
deriving DecidableEq

/-- What a status does to the recipe. -/
inductive StatusActionV1 where
  | reauthRequired
  | transient
  | goto (step : Text)
deriving DecidableEq

structure JwtClaimV1 where
  token : Text
  pointer : Text
deriving DecidableEq

/-- One extracted value. -/
structure ExtractV1 where
  pointer : Option Text := none
  relativeSeconds : Option Text := none
  epochSeconds : Option Text := none
  epochMillis : Option Text := none
  jwtExp : Option Text := none
  fixedWindow : Option Bool := none
  jwtClaim : Option JwtClaimV1 := none
  optional : Bool := false
  mustEqualField : Option Text := none
deriving DecidableEq

inductive StepKindV1 where
  | oauth2Token
  | jwtSign
  | httpExchange
  | httpProbe
deriving DecidableEq

inductive StepMethodV1 where
  | get
  | post
deriving DecidableEq

inductive EncodingV1 where
  | form
  | json
deriving DecidableEq

inductive JwtAlgorithmV1 where
  | hs256
  | rs256
  | es256
deriving DecidableEq

/-- One step of a recipe. -/
structure StepV1 where
  id : Text
  kind : StepKindV1
  method : Option StepMethodV1 := none
  endpoint : Option Text := none
  endpointParams : SortedMap Text FieldRefV1 := .empty
  encoding : Option EncodingV1 := none
  params : SortedMap Text ValueSourceV1 := .empty
  headers : SortedMap Text ValueSourceV1 := .empty
  auth : Option StepAuthV1 := none
  requires : List Text := []
  onStatus : SortedMap Text StatusActionV1 := .empty
  extract : SortedMap Text ExtractV1 := .empty
  alg : Option JwtAlgorithmV1 := none
  key : Option ValueSourceV1 := none
  claims : SortedMap Text ValueSourceV1 := .empty
deriving DecidableEq

/-- One minting recipe, or a selector over recipes. -/
structure RecipeV1 where
  steps : List StepV1 := []
  present : Option (List PresentCandidateV1) := none
  rotatesRefreshMaterial : Option Bool := none
  writeBack : SortedMap Text Text := .empty
  refreshMarginSeconds : Option Nat := none
  withoutRefreshMaterial : Option WithoutRefreshMaterialV1 := none
  defaultSeconds : Option Nat := none
  fixedValiditySeconds : Option Nat := none
  minTtlSeconds : Option Nat := none
  maxTtlSeconds : Option Nat := none
  select : List SelectRuleV1 := []
  attributes : SortedMap Text AttributeV1 := .empty
deriving DecidableEq

/-- A manifest's `credentials` section. -/
structure CredentialsV1 where
  schema : Text
  families : Option (List Text) := none
  fields : SortedMap Text CredentialFieldV1
  requireOneOf : List (List Text) := []
  importRules : SortedMap Text ImportRuleV1 := .empty
  seed : Option SeedV1 := none
  slots : SortedMap Text SlotV1 := .empty
  recipes : SortedMap Text RecipeV1 := .empty
  attributes : SortedMap Text AttributeV1 := .empty

/-- Whether the section applies to a family. -/
def CredentialsV1.appliesTo (credentials : CredentialsV1) (family : Text) : Bool :=
  match credentials.families with
  | none => true
  | some families => families.contains family

def CredentialsV1.isSecret (credentials : CredentialsV1) (field : Text) : Option Bool :=
  (credentials.fields.get field).map (·.secret)

/-- An output as steps refer to it. -/
def outputOf (step name : Text) : Text := step ++ '.' :: name

/-- The output of a signing step. -/
def jwtOf (step : StepV1) : Text := outputOf step.id ['j', 'w', 't']

end TokenStation.Credentials
