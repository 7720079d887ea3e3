import TokenStation.Library.Checked
import TokenStation.Library.SortedMap
import TokenStation.Manifest.Spelling

/-!
# Family endpoints

A family declares configuration keys and an endpoint template over them. The
endpoint is filled from an operator's values, and an operator's URL is matched
against it.
-/

namespace TokenStation.Manifest

open Library Library.Checked Library.TextCuts

/-- One configuration key of a family. -/
structure ConfigKeyV1 where
  syn : ValueSyntaxV1
  required : Bool
  default : Option (List Char)
deriving DecidableEq

abbrev ConfigKeys := SortedMap (List Char) ConfigKeyV1

abbrev ConfigValues := SortedMap (List Char) (List Char)

/-- The sections of a manifest that declare endpoints. -/
structure ComponentManifestV1 where
  providers : List (List Char)
  configSchema : SortedMap (List Char) ConfigKeys
  endpoint : SortedMap (List Char) (List Char)

inductive ManifestErrorV1 where
  | invalidEndpoint (family : List Char) (detail : String)
deriving DecidableEq, Repr

/-! ## Validation -/

def checkKey (family : List Char) : List Char × ConfigKeyV1 → Except ManifestErrorV1 Unit
  | (key, declaration) => do
      refuse (key = [] ∨ 64 < utf8Len key ∨ key.all isNameChar = false)
        (.invalidEndpoint family "a config key name is not lowercase snake_case")
      refuse (declaration.syn.isWellFormed = false)
        (.invalidEndpoint family "a config key's syntax is malformed")
      match declaration.default with
      | none => .ok ()
      | some default => do
          refuse (declaration.required = true)
            (.invalidEndpoint family "a required config key has no default")
          refuse (declaration.syn.admits default = false)
            (.invalidEndpoint family "a config key's default does not have its syntax")

def checkKeys (providers : List (List Char)) :
    List Char × ConfigKeys → Except ManifestErrorV1 Unit
  | (family, keys) => do
      refuse (family ∉ providers)
        (.invalidEndpoint family "config_schema names a family the manifest does not declare")
      keys.entries.forM (checkKey family)

def checkParam (family : List Char) (keys : Option ConfigKeys) :
    List Char × Bool → Except ManifestErrorV1 Unit
  | (name, inHost) =>
      match keys.bind (·.get name) with
      | none =>
          .error (.invalidEndpoint family
            "an endpoint parameter is not a config key of the family")
      | some declaration => do
          refuse (declaration.required = false ∧ declaration.default = none)
            (.invalidEndpoint family
              "an endpoint parameter must be a required config key or carry a default")
          refuse (inHost = true ∧ declaration.syn.isLabelSafe = false)
            (.invalidEndpoint family "a host parameter's syntax must fit inside a DNS label")

def checkEndpoint (manifest : ComponentManifestV1) :
    List Char × List Char → Except ManifestErrorV1 Unit
  | (family, template) => do
      refuse (family ∉ manifest.providers)
        (.invalidEndpoint family "endpoint names a family the manifest does not declare")
      match templateParams template with
      | .error detail => .error (.invalidEndpoint family detail)
      | .ok params => params.forM (checkParam family (manifest.configSchema.get family))

def ComponentManifestV1.validateEndpoints (manifest : ComponentManifestV1) :
    Except ManifestErrorV1 Unit := do
  manifest.configSchema.entries.forM (checkKeys manifest.providers)
  manifest.endpoint.entries.forM (checkEndpoint manifest)

/-! ## Values -/

/-- The configuration keys of a family. -/
def ComponentManifestV1.keysOf (manifest : ComponentManifestV1) (family : List Char) :
    ConfigKeys := (manifest.configSchema.get family).getD .empty

def checkValue (values : ConfigValues) : List Char × ConfigKeyV1 → Except ConfigErrorV1 Unit
  | (key, declaration) =>
      match values.get key with
      | none => refuse (declaration.required = true) (.missingKey key)
      | some value => refuse (declaration.syn.admits value = false) (.invalidValue key)

/-- Check operator values against the family's keys. -/
def ComponentManifestV1.validateConfigValues (manifest : ComponentManifestV1)
    (family : List Char) (values : ConfigValues) : Except ConfigErrorV1 Unit := do
  let keys := manifest.keysOf family
  match values.entries.find? fun e => (keys.get e.1).isNone with
  | some unknown => .error (.unknownKey unknown.1)
  | none => keys.entries.forM (checkValue values)

/-- The value a parameter is filled with: the operator's, or the key's default. -/
def ComponentManifestV1.usedValue (manifest : ComponentManifestV1) (family : List Char)
    (values : ConfigValues) (name : List Char) : Option (List Char) :=
  (values.get name).or (((manifest.keysOf family).get name).bind (·.default))

/-- The endpoint of a family filled from operator values. -/
def ComponentManifestV1.fillEndpoint (manifest : ComponentManifestV1) (family : List Char)
    (values : ConfigValues) : Except ConfigErrorV1 (Option (List Char)) :=
  match manifest.endpoint.get family with
  | none => .ok none
  | some template => do
      manifest.validateConfigValues family values
      let filled ← fillTemplate (manifest.usedValue family values) template
      return some filled

/-! ## Matching -/

/-- A URL without its last slashes. -/
def trimEnd (url : List Char) : List Char := url.rdropWhile isSlash

/-- The characters a value never spans: those between labels and segments. -/
def isBoundary (c : Char) : Bool := isSlash c || c == '.'

/-- The syntax of a family's key. -/
def ComponentManifestV1.syntaxOf (manifest : ComponentManifestV1) (family name : List Char) :
    Option ValueSyntaxV1 := ((manifest.keysOf family).get name).map (·.syn)

/-- Whether a text fills parts, each parameter's text having its syntax. -/
def matchesParts (syntaxOf : List Char → Option ValueSyntaxV1) :
    List Part → List Char → Bool
  | [], text => text.isEmpty
  | .literal literal :: rest, text =>
      match text.dropPrefix? literal with
      | some text => matchesParts syntaxOf rest text
      | none => false
  | .param name :: rest, text =>
      match syntaxOf name with
      | none => false
      | some declared =>
          (List.range text.length).any fun last =>
            let candidate := text.take (last + 1)
            !candidate.any isBoundary && declared.admits candidate &&
              matchesParts syntaxOf rest (text.drop (last + 1))

/-- Whether an operator's URL is the family's endpoint for some values. -/
def ComponentManifestV1.endpointAdmits (manifest : ComponentManifestV1) (family : List Char)
    (baseUrl : List Char) : Bool :=
  match manifest.endpoint.get family with
  | none => true
  | some template =>
      match parts template with
      | none => false
      | some split => matchesParts (manifest.syntaxOf family) split (trimEnd baseUrl)

/-! ## Recovering values -/

def maxBaseUrlBytes : Nat := 2048

inductive EndpointValuesErrorV1 where
  | noEndpoint
  | notThisEndpoint
  | ambiguous
deriving DecidableEq, Repr

/-- Whether a candidate can be the text of a parameter, given what the
parameter took before. -/
def canTake (declared : ValueSyntaxV1) (taken : Option (List Char)) (candidate : List Char) :
    Bool :=
  !candidate.any isBoundary && declared.admits candidate && taken.all (· == candidate)

/-- Every way a text fills parts, up to a limit, after those found before. -/
def fills (syntaxOf : List Char → Option ValueSyntaxV1) (limit : Nat) :
    List Part → List Char → ConfigValues → List ConfigValues → List ConfigValues
  | [], text, taken, found =>
      if limit ≤ found.length then found
      else if text.isEmpty then found ++ [taken] else found
  | .literal literal :: rest, text, taken, found =>
      if limit ≤ found.length then found
      else
        match text.dropPrefix? literal with
        | some text => fills syntaxOf limit rest text taken found
        | none => found
  | .param name :: rest, text, taken, found =>
      if limit ≤ found.length then found
      else
        match syntaxOf name with
        | none => found
        | some declared =>
            (List.range text.length).foldl (fun found last =>
              let candidate := text.take (last + 1)
              if limit ≤ found.length then found
              else if canTake declared (taken.get name) candidate then
                fills syntaxOf limit rest (text.drop (last + 1)) (taken.insert name candidate) found
              else found) found

/-- The values an operator's URL was filled from. -/
def ComponentManifestV1.endpointValues (manifest : ComponentManifestV1) (family : List Char)
    (baseUrl : List Char) : Except EndpointValuesErrorV1 ConfigValues :=
  match manifest.endpoint.get family with
  | none => .error .noEndpoint
  | some template =>
      let text := trimEnd baseUrl
      match parts template with
      | none => .error .notThisEndpoint
      | some split =>
          if maxBaseUrlBytes < utf8Len text then .error .notThisEndpoint
          else
            match fills (manifest.syntaxOf family) 2 split text .empty [] with
            | [] => .error .notThisEndpoint
            | [values] =>
                match manifest.fillEndpoint family values with
                | .ok (some filled) => if filled = text then .ok values else .error .notThisEndpoint
                | _ => .error .notThisEndpoint
            | _ => .error .ambiguous

end TokenStation.Manifest
