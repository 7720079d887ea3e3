import TokenStation.Manifest.ValueSyntax

/-!
# Endpoint templates

A template is an `https` URL with parameters in braces. The host part ends in
a literal, and a parameter is filled as it is in the host part and as one
encoded segment in the path.
-/

namespace TokenStation.Manifest

open Library.TextCuts

def maxTemplateBytes : Nat := 512

def httpsMark : List Char := ['h', 't', 't', 'p', 's', ':', '/', '/']

def openBrace : Char := '\x7b'
def closeBrace : Char := '\x7d'

inductive Part where
  | literal (text : List Char)
  | param (name : List Char)
deriving DecidableEq, Repr

def isNameChar (c : Char) : Bool := c.isLower || c.isDigit || c == '_'

/-- A literal, unless it is empty. -/
def literalPart (text : List Char) : List Part := if text.isEmpty then [] else [.literal text]

/-- Split a template into literals and parameters; nothing where the braces are
not well formed. -/
def parts (template : List Char) : Option (List Part) :=
  let lead := template.takeWhile (· != openBrace)
  match _hopen : template.dropWhile (· != openBrace) with
  | [] => if closeBrace ∈ lead then none else some (literalPart lead)
  | _ :: inner =>
      if closeBrace ∈ lead then none
      else
        let name := inner.takeWhile (· != closeBrace)
        match _hclose : inner.dropWhile (· != closeBrace) with
        | [] => none
        | _ :: rest =>
            if name.isEmpty || !name.all isNameChar then none
            else (parts rest).map fun later => literalPart lead ++ .param name :: later
termination_by template.length
decreasing_by
  have hopen := congrArg List.length _hopen
  have hclose := congrArg List.length _hclose
  have hlead := (List.dropWhile_suffix (fun c => c != openBrace) (l := template)).length_le
  have hname := (List.dropWhile_suffix (fun c => c != closeBrace) (l := inner)).length_le
  rw [List.length_cons] at hopen hclose
  omega

/-! ## Encoding -/

/-- The characters of a path segment. -/
def isSegmentChar (c : Char) : Bool :=
  c.isAlphanum ||
    c ∈ ['-', '.', '_', '~', '!', '$', '&', '\'', '(', ')', '*', '+', ',', ';', '=', ':', '@']

def hexDigits : List Char :=
  ['0', '1', '2', '3', '4', '5', '6', '7', '8', '9', 'A', 'B', 'C', 'D', 'E', 'F']

def hexDigit (nibble : UInt8) : Char := hexDigits.getD nibble.toNat '0'

def escapeByte (byte : UInt8) : List Char := ['%', hexDigit (byte >>> 4), hexDigit (byte &&& 0x0F)]

def encodeChar (c : Char) : List Char :=
  if isSegmentChar c then [c] else (String.utf8EncodeChar c).flatMap escapeByte

/-- A path parameter encoded as one segment. -/
def encodeSegment (value : List Char) : List Char := value.flatMap encodeChar

/-! ## Parameters -/

/-- The characters a template may have after its scheme. -/
def isTemplateChar (c : Char) : Bool := isGraphic c && c ∉ ['?', '#', '@', '\\', '%']

def isDomainChar (c : Char) : Bool := c.isLower || c.isDigit || c ∈ ['.', '-']

/-- Whether the host part ends in a literal of at least two labels. -/
def endsInDomain (authority : List Part) : Bool :=
  match authority.getLast? with
  | some (.literal suffix) =>
      (suffix.dropWhile (· == '.')).contains '.' && suffix.all isDomainChar
  | _ => false

/-- The names of the parameters among parts. -/
def names (parts : List Part) : List (List Char) :=
  parts.filterMap fun part =>
    match part with
    | .param name => some name
    | .literal _ => none

/-- The template without its scheme, if it is one. -/
def templateRest (template : List Char) : Option (List Char) :=
  match template.dropPrefix? httpsMark with
  | some rest =>
      if utf8Len template ≤ maxTemplateBytes ∧ rest.all isTemplateChar then some rest else none
  | none => none

def templateRefused : String :=
  "the endpoint must be an https template without query, fragment, userinfo or escapes"

def bracesMalformed : String := "the endpoint's braces are malformed"

def hostNotFixed : String := "the endpoint's host must end in a fixed domain without a port"

/-- The parameters of a template, each with whether it is in the host part, or
why the template is refused. -/
def templateParams (template : List Char) : Except String (List (List Char × Bool)) :=
  match templateRest template with
  | none => .error templateRefused
  | some rest =>
      match parts (rest.takeWhile fun c => !isSlash c) with
      | none => .error bracesMalformed
      | some authority =>
          match parts (rest.dropWhile fun c => !isSlash c) with
          | none => .error bracesMalformed
          | some path =>
              if endsInDomain authority then
                .ok ((names authority).map (·, true) ++ (names path).map (·, false))
              else .error hostNotFixed

/-! ## Filling -/

/-- Why operator values do not fit a family's declarations. -/
inductive ConfigErrorV1 where
  | unknownKey (key : List Char)
  | missingKey (key : List Char)
  | invalidValue (key : List Char)
deriving DecidableEq, Repr

/-- Where the host part of a template ends. -/
def authorityEnd (template : List Char) : Nat :=
  httpsMark.length + utf8Len ((template.drop httpsMark.length).takeWhile fun c => !isSlash c)

/-- Fill parts from an offset of the template on. -/
def fillFrom (value : List Char → Option (List Char)) (hostEnd offset : Nat)
    (filled : List Char) : List Part → Except ConfigErrorV1 (List Char)
  | [] => .ok filled
  | .literal text :: later => fillFrom value hostEnd (offset + utf8Len text) (filled ++ text) later
  | .param name :: later =>
      match value name with
      | none => .error (.missingKey name)
      | some text =>
          fillFrom value hostEnd (offset + (utf8Len name + 2))
            (filled ++ if offset < hostEnd then text else encodeSegment text) later

/-- A template filled with values. -/
def fillTemplate (value : List Char → Option (List Char)) (template : List Char) :
    Except ConfigErrorV1 (List Char) :=
  fillFrom value (authorityEnd template) 0 [] ((parts template).getD [])

end TokenStation.Manifest
