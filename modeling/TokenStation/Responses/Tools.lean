import TokenStation.Library.Checked
import TokenStation.Responses.Protocol

/-!
# Tools of a Responses request

The inbound tool list is parsed once into canonical definitions and a map from
the flattened name of a tool back to its kind. The renderer restores a tool
call to an item of that kind.
-/

namespace TokenStation.Responses

open Library Library.Json Library.Checked

def localShell : String := "__token_station_responses_local_shell"

inductive ToolKind where
  | function
  | custom
  | search
  | shell
  | namespaced (space name : String)
deriving DecidableEq, Repr

abbrev ToolMap := List (String × ToolKind)

structure ToolDef where
  name : String
  description : Option String
  parameters : Value
  strict : Option Bool

/-- A part of a flattened name: short and of plain letters. -/
def validNamePart (s : String) (limit : Nat) : Bool :=
  s != "" && s.utf8ByteSize ≤ limit &&
    s.toList.all fun c => c.isAlphanum || c == '_' || c == '-'

def namespaceName (space name path : String) : Except CodecError String :=
  if !validNamePart space 64 || !validNamePart name 128 then
    .error (invalid path "invalid namespace or function name")
  else
    let flat :=
      if ['_', '_'].isSuffixOf space.toList then space ++ name else space ++ "__" ++ name
    if flat.utf8ByteSize > 128 then
      .error (invalid path "flattened tool name exceeds 128 bytes")
    else .ok flat

/-- An optional text field; `null` counts as absent. -/
def optionalStr (value : Option Value) (field : String) : Except CodecError (Option String) :=
  match value.filter fun v => !v.isNull with
  | none => .ok none
  | some v => (requiredStr v field).map some

def functionDefinition (tool : Value) (name path : String) : Except CodecError ToolDef := do
  refuse (name = "") (invalid s!"{path}.name" "must not be empty")
  let parameters := (tool.get "parameters").getD (.obj [])
  refuse (parameters.isObject = false) (invalid s!"{path}.parameters" "must be an object")
  let description ← optionalStr (tool.get "description") s!"{path}.description"
  pure ⟨name, description, parameters, none⟩

def captureStrict (tool : Value) (name path : String) (strict : Value) :
    Except CodecError Value :=
  match (tool.get "strict").filter fun v => !v.isNull with
  | none => .ok strict
  | some value =>
      match value.asBool with
      | some b => .ok (strict.set name (.bool b))
      | none => .error (invalid s!"{path}.strict" "must be a boolean")

/-- What has been read of a tool list. -/
structure ToolsRead where
  tools : List ToolDef
  map : ToolMap
  strict : Value
  namespaces : Value
  disabled : List Value

def ToolsRead.insert (read : ToolsRead) (definition : ToolDef) (kind : ToolKind) (path : String) :
    Except CodecError ToolsRead :=
  match lookup definition.name read.map with
  | some _ => .error (invalid s!"{path}.name" "tool names collide after flattening")
  | none =>
      .ok { read with
        tools := read.tools ++ [definition], map := (definition.name, kind) :: read.map }

def customParameters : Value :=
  .obj [("type", .string "object"),
    ("properties", .obj [("input", .obj [("type", .string "string"), ("description", .string
      "Raw string input for the original custom tool. Preserve formatting exactly and follow the original tool definition embedded in the description.")])]),
    ("required", .array [.string "input"])]

def searchParameters : Value :=
  .obj [("type", .string "object"),
    ("properties", .obj [
      ("query", .obj [("type", .string "string"),
        ("description", .string "Search query for tools or connectors to load.")]),
      ("limit", .obj [("type", .string "integer"),
        ("description", .string "Maximum number of tool groups to return.")])]),
    ("required", .array [.string "query"])]

def shellParameters : Value :=
  .obj [("type", .string "object"),
    ("properties", .obj [("action", .obj [("type", .string "object"),
      ("properties", .obj [
        ("type", .obj [("const", .string "exec")]),
        ("command", .obj [("type", .string "array"),
          ("items", .obj [("type", .string "string")]), ("minItems", .nat 1)]),
        ("env", .obj [("type", .string "object"),
          ("additionalProperties", .obj [("type", .string "string")])]),
        ("timeout_ms", .obj [("type", .string "integer"), ("minimum", .nat 1)]),
        ("user", .obj [("type", .string "string")]),
        ("working_directory", .obj [("type", .string "string")])]),
      ("required", .array [.string "type", .string "command"]),
      ("additionalProperties", .bool false)])]),
    ("required", .array [.string "action"]),
    ("additionalProperties", .bool false)]

def customName (tool : Value) (path : String) : Except CodecError String :=
  match tool.get "name" with
  | some name => requiredStr name s!"{path}.name"
  | none => .ok "custom"

/-- Only fixed protocol names are reported back. -/
def unsupportedTool (kind path : String) : CodecError :=
  let known := ["web_search", "web_search_preview", "file_search", "code_interpreter",
    "image_generation", "computer_use_preview", "mcp"]
  .unknownValue s!"{path}.type" (if kind ∈ known then kind else "an unsupported value")
    "a supported Responses tool"

/-- One function of a namespace. -/
def parseNamespaced (tool : Value) (space path : String) (read : ToolsRead) (j : Nat)
    (child : Value) : Except CodecError ToolsRead := do
  let field := s!"{path}.tools[{j}]"
  refuse ((child.field "type").asStr ≠ some "function") (unsupported s!"{field}.type" "function")
  let name ← requiredStr (child.field "name") s!"{field}.name"
  let flat ← namespaceName space name field
  let definition ← functionDefinition child flat field
  let description ← optionalStr (tool.get "description") s!"{path}.description"
  let definition := match description with
    | none => definition
    | some text => { definition with
        description := some (match definition.description with
          | none => text
          | some child => s!"{text}\n\n{child}") }
  let read ← read.insert definition (.namespaced space name) field
  let strict ← captureStrict child flat field read.strict
  let entry := Value.obj [("namespace", .string space), ("name", .string name)]
  pure { read with strict, namespaces := read.namespaces.set flat entry }

section

variable (packages : Packages)

def parseTool (read : ToolsRead) (i : Nat) (tool : Value) : Except CodecError ToolsRead := do
  let path := s!"tools[{i}]"
  let kind ← requiredStr (tool.field "type") s!"{path}.type"
  if kind = "namespace" then
    let space ← requiredStr (tool.field "name") s!"{path}.name"
    match (tool.field "tools").asArray with
    | none => throw (invalid s!"{path}.tools" "must be an array")
    | some children =>
        children.zipIdx.foldlM (fun read child =>
          parseNamespaced tool space path read child.2 child.1) read
  else if kind = "function" then
    let name ← requiredStr (tool.field "name") s!"{path}.name"
    let definition ← functionDefinition tool name path
    let strict ← captureStrict tool name path read.strict
    { read with strict }.insert definition .function path
  else if kind = "custom" then
    let name ← customName tool path
    let text := packages.toText tool
    let description := s!"Original tool definition:\n```json\n{text}\n```"
    read.insert ⟨name, some description, customParameters, none⟩ .custom path
  else if kind = "tool_search" then
    read.insert ⟨"tool_search", some "Search and load Codex tools, plugins, connectors, and MCP namespaces for the current task.", searchParameters, none⟩ .search path
  else if kind = "local_shell" then
    read.insert ⟨localShell, some "Execute one argv command in the Codex client's local shell.",
      shellParameters, none⟩ .shell path
  else if kind = "web_search" ∧ (tool.field "external_web_access").asBool = some false then
    pure { read with disabled := read.disabled ++ [tool] }
  else throw (unsupportedTool kind path)

/-- The tools, the request extensions that go with them and the kinds by name. -/
def parseTools (value : Value) :
    Except CodecError (List ToolDef × List (String × Value) × ToolMap) :=
  match value with
  | .null => .ok ([], [], [])
  | .array values => do
      let read ← values.zipIdx.foldlM (fun read tool => parseTool packages read tool.2 tool.1)
        ⟨[], [], .obj [], .obj [], []⟩
      let nonempty := fun v : Value => v.asObject.any fun o => !o.isEmpty
      let extensions := if nonempty read.strict then
        insertEntry "responses_tool_strict" read.strict [] else []
      let extensions := if nonempty read.namespaces then
        insertEntry "responses_tool_namespaces" read.namespaces extensions else extensions
      let extensions := if read.disabled.isEmpty then extensions else
        insertEntry "responses_disabled_provider_tools" (.array read.disabled) extensions
      pure (read.tools, extensions, read.map)
  | _ => .error (invalid "tools" "tools must be an array")

def toolDefinitions (value : Value) : Except CodecError (List ToolDef × List (String × Value)) :=
  (parseTools packages value).map fun r => (r.1, r.2.1)

def restoreMap (value : Value) : Except CodecError ToolMap :=
  (parseTools packages value).map fun r => r.2.2

/-- The input of a custom tool call: the `input` field of its arguments, or
the arguments themselves. -/
def customInput (args : String) : Value :=
  if isBlank args then .string ""
  else (((packages.fromStr args).bind (·.asObject)).bind (lookup "input")).getD (.string args)

/-- The kind a tool call is restored to. -/
def resolvedKind (map : ToolMap) (name : String) : ToolKind :=
  (lookup name map).getD (if name = localShell then .shell else .function)

/-- The output item of a tool call. -/
def toolItem (id name args status : String) (map : ToolMap) : Except CodecError Value :=
  match resolvedKind map name with
  | .custom => .ok (.obj [("type", .string "custom_tool_call"), ("id", .string ("ctc_" ++ id)),
      ("call_id", .string id), ("name", .string name), ("input", customInput packages args),
      ("status", .string status)])
  | .search =>
      let parsed := ((packages.fromStr args).filter (·.isObject)).getD
        (if isBlank args then .obj [] else .obj [("query", .string args)])
      .ok (.obj [("type", .string "tool_search_call"), ("id", .string ("fc_" ++ id)),
        ("call_id", .string id), ("execution", .string "client"), ("arguments", parsed),
        ("status", .string status)])
  | .shell =>
      match packages.fromStr args with
      | none => .error (invalid "tool_calls.arguments"
          "local_shell returned invalid arguments: expected JSON")
      | some parsed =>
          if (parsed.field "action").isObject then
            .ok (.obj [("type", .string "local_shell_call"), ("id", .string ("ls_" ++ id)),
              ("call_id", .string id), ("action", parsed.field "action"),
              ("status", .string status)])
          else .error (invalid "tool_calls.arguments.action" "must be an object")
  | .namespaced space name => .ok (.obj [("type", .string "function_call"),
      ("id", .string ("fc_" ++ id)), ("call_id", .string id), ("name", .string name),
      ("namespace", .string space), ("arguments", .string args), ("status", .string status)])
  | .function => .ok (.obj [("type", .string "function_call"), ("id", .string ("fc_" ++ id)),
      ("call_id", .string id), ("name", .string name), ("arguments", .string args),
      ("status", .string status)])

end

/-! ## What the map says -/

/-- The names a kind of tool can have: the kinds with a fixed or a flattened
name have no other. -/
def ToolKind.Names : ToolKind → String → Prop
  | .shell, name => name = localShell
  | .search, name => name = "tool_search"
  | .namespaced space part, name => ∃ path, namespaceName space part path = .ok name
  | .function, name => name ≠ ""
  | .custom, _ => True

/-- Every tool has a name of its kind. -/
def ToolMap.Named (map : ToolMap) : Prop :=
  ∀ name kind, lookup name map = some kind → kind.Names name

theorem ToolsRead.insert_eq_ok {read result : ToolsRead} {definition : ToolDef} {kind : ToolKind}
    {path : String} (h : read.insert definition kind path = .ok result) :
    result.map = (definition.name, kind) :: read.map := by
  unfold ToolsRead.insert at h
  split at h
  · cases h
  · cases h
    rfl

theorem named_insert {read result : ToolsRead} {definition : ToolDef} {kind : ToolKind}
    {path : String} (h : read.insert definition kind path = .ok result) (hread : read.map.Named)
    (hname : kind.Names definition.name) : result.map.Named := by
  rw [ToolsRead.insert_eq_ok h]
  intro name k hk
  rw [lookup] at hk
  split at hk
  · rename_i heq
    cases hk
    exact heq ▸ hname
  · exact hread name k hk

theorem functionDefinition_name {tool : Value} {name path : String} {definition : ToolDef}
    (h : functionDefinition tool name path = .ok definition) :
    definition.name = name ∧ name ≠ "" := by
  simp only [functionDefinition, bind_eq_ok, pure_eq_ok, refuse_eq_ok] at h
  obtain ⟨-, hname, -, -, description, -, rfl⟩ := h
  exact ⟨rfl, hname⟩

theorem named_parseNamespaced {tool child : Value} {space path : String} {read result : ToolsRead}
    {j : Nat} (hread : read.map.Named)
    (h : parseNamespaced tool space path read j child = .ok result) : result.map.Named := by
  simp only [parseNamespaced, bind_eq_ok, pure_eq_ok] at h
  obtain ⟨-, -, name, -, flat, hflat, definition, hdefinition, description, -, read', hinsert, strict,
    -, rfl⟩ := h
  have hname := (functionDefinition_name hdefinition).1
  have hnamed : read'.map.Named := named_insert hinsert hread ?_
  · exact hnamed
  cases description with
  | none => exact ⟨_, hname ▸ hflat⟩
  | some text => exact ⟨_, hname ▸ hflat⟩

theorem named_parseTool (packages : Packages) {read result : ToolsRead} {i : Nat} {tool : Value}
    (hread : read.map.Named) (h : parseTool packages read i tool = .ok result) :
    result.map.Named := by
  rw [parseTool] at h
  obtain ⟨kind, -, h⟩ := bind_eq_ok.mp h
  split at h
  · obtain ⟨space, -, h⟩ := bind_eq_ok.mp h
    split at h
    · exact absurd h throw_ne_ok
    · exact foldlM_keeps (P := fun read => read.map.Named)
        (fun child _ b c hstep hb => named_parseNamespaced hb hstep) hread h
  split at h
  · obtain ⟨name, -, h⟩ := bind_eq_ok.mp h
    obtain ⟨definition, hdefinition, h⟩ := bind_eq_ok.mp h
    obtain ⟨strict, -, h⟩ := bind_eq_ok.mp h
    obtain ⟨hname, hne⟩ := functionDefinition_name hdefinition
    exact named_insert h hread (hname ▸ hne)
  split at h
  · obtain ⟨name, -, h⟩ := bind_eq_ok.mp h
    exact named_insert h hread trivial
  split at h
  · exact named_insert h hread rfl
  split at h
  · exact named_insert h hread rfl
  split at h
  · cases h
    exact hread
  · exact absurd h throw_ne_ok

theorem named_restoreMap (packages : Packages) {value : Value} {map : ToolMap}
    (h : restoreMap packages value = .ok map) : map.Named := by
  obtain ⟨⟨tools, extensions, map⟩, hparse, rfl⟩ := map_eq_ok.mp h
  unfold parseTools at hparse
  split at hparse
  · cases hparse
    intro name kind hkind
    cases hkind
  · obtain ⟨read, hread, hparse⟩ := bind_eq_ok.mp hparse
    cases pure_eq_ok.mp hparse
    refine foldlM_keeps (P := fun read => read.map.Named)
      (fun tool _ b c hstep hb => named_parseTool packages hb hstep) ?_ hread
    intro name kind hkind
    cases hkind
  · cases hparse

/-- Only a local shell tool is restored to a shell call, and only under the
reserved name. -/
theorem lookup_shell {map : ToolMap} (hmap : map.Named) {name : String}
    (h : lookup name map = some .shell) : name = localShell :=
  hmap name .shell h

end TokenStation.Responses
