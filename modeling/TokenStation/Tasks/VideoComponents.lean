import TokenStation.Tasks.Identifiers

/-!
# Video task components

How six components submit a task, read the upstream's answer and ask after the task
they were given. What a request's body becomes, and what a terminal answer says, is
left to parameters.
-/

namespace TokenStation.Tasks

open Library Library.Checked Library.Json Library.Text Responses

structure TaskConfig where
  provider : String
  baseUrl : String
  auth : Option String
  extensions : List (String × Value)

/-- What a host keeps to ask after a task again. -/
structure TaskLocatorV2 where
  route : String
deriving DecidableEq, Repr

/-- A submission: its locator, and the rest of what was prepared. -/
structure PreparedTaskV2 (P : Type) where
  locator : TaskLocatorV2
  prepared : P

structure HttpResponseParts where
  status : Nat
  body : String

inductive SubmitOutcomeV2 (O : Type) where
  | unknown
  | accepted (id : String)
  | rejected (error : ErrorEnvelope)
  | acceptedTerminal (observation : O)

inductive TaskAuth where
  | bearer (secret : String)
  | header (name secret : String)
deriving DecidableEq, Repr

/-- A poll: a GET request. -/
structure ObserveRequest where
  url : String
  auth : Option TaskAuth
deriving DecidableEq, Repr

def invalid (message : String) : ErrorEnvelope := ⟨.invalidRequest, 400, message, none⟩

/-- A string field of an object. -/
def strField (value : Value) (key : String) : Option String := (value.get key).bind Value.asStr

def required (value : Option String) (message : String) : Except ErrorEnvelope String :=
  match value with
  | some text => .ok text
  | none => .error (invalid message)

def HttpResponseParts.isSuccess (parts : HttpResponseParts) : Bool :=
  200 ≤ parts.status && parts.status < 300

def HttpResponseParts.isClientError (parts : HttpResponseParts) : Bool :=
  400 ≤ parts.status && parts.status < 500

/-- A path below the configured endpoint. -/
def underBase (config : TaskConfig) (path : String) : String :=
  trimEndSlashes config.baseUrl ++ "/" ++ path

def bearer (config : TaskConfig) : Option TaskAuth := config.auth.map .bearer

/-- An upstream message short enough to pass on. -/
def bounded (text : Option String) : Option String :=
  text.filter fun t => (bytes t).length ≤ maxArtifactRefBytes

section Components

variable {P O : Type} (fromStr : String → Option Value)

/-! ## Kling -/

namespace Kling

def text : String := "v1/videos/text2video"
def image : String := "v1/videos/image2video"
def omni : String := "v1/videos/omni-video"
def motion : String := "v1/videos/motion-control"

def routeOf (request : Value) (operation : String) : Except ErrorEnvelope String :=
  if operation = "text-or-image" then
    if (strField request "image").isSome || (strField request "image_tail").isSome then .ok image
    else .ok text
  else if operation = "omni" then .ok omni
  else if operation = "motion-control" then .ok motion
  else .error (invalid "unsupported kling task operation")

def buildSubmitRequest (prepare : TaskConfig → Value → String → Except ErrorEnvelope P)
    (config : TaskConfig) (request : Value) : Except ErrorEnvelope (PreparedTaskV2 P) := do
  let _ ← required (strField request "model") "a kling task request must name a model"
  let operation ← required (strField request "operation")
    "a kling task request must name an operation"
  let route ← routeOf request operation
  let prepared ← prepare config request route
  return ⟨⟨route⟩, prepared⟩

def parseSubmitResponse (parts : HttpResponseParts) : SubmitOutcomeV2 O :=
  if parts.isSuccess = false then .unknown
  else
    match fromStr parts.body with
    | none => .unknown
    | some body =>
        let nested := ((body.get "data").bind fun data => strField data "task_id").filter validId
        match nested.or ((strField body "task_id").filter validId) with
        | some id => .accepted id
        | none => .unknown

def buildObserveRequest (config : TaskConfig) (id : String) (locator : TaskLocatorV2) :
    Except ErrorEnvelope ObserveRequest := do
  refuse (locator.route ∉ [text, image, omni, motion])
    (invalid "unsupported kling task locator")
  refuse (validId id = false ∨ hasSlash id = true) (invalid "invalid kling upstream task id")
  return ⟨underBase config locator.route ++ "/" ++ encodeSegment id, bearer config⟩

end Kling

/-! ## MiniMax -/

namespace MiniMax

def query : String := "v1/query/video_generation"
def queryV2 : String := "v2/query/video_generation"

/-- The group the operator configured, as a query parameter. -/
def groupParameter (config : TaskConfig) :
    Except ErrorEnvelope (List (QueryParameterV1 × String)) :=
  match (lookup "group_id" config.extensions).filter fun value => !value.isNull with
  | none => .ok []
  | some group =>
      match group.asStr with
      | none => .error (invalid "invalid MiniMax group_id")
      | some group =>
          if trim group = "" then .ok [] else .ok [(.groupId, trim group)]

/-- The address of a request, with its query. -/
def requestUrl (config : TaskConfig) (path : String)
    (parameter : Option (QueryParameterV1 × String)) : Except ErrorEnvelope String := do
  let group ← groupParameter config
  match parameter.toList ++ group with
  | [] => return underBase config path
  | parameters =>
      match queryString parameters with
      | some declared => return underBase config path ++ "?" ++ declared
      | none => .error (invalid "invalid MiniMax query declaration")

/-- The model family that decides the API a task is submitted to. -/
def shapeOf (config : TaskConfig) (model : String) : Except ErrorEnvelope String :=
  match (lookup "upstream_model_family" config.extensions).filter fun value => !value.isNull with
  | none => .ok model
  | some family => required (family.asStr.filter (· ≠ "")) "invalid MiniMax upstream_model_family"

def routeOf (shape : String) : Except ErrorEnvelope (String × String) :=
  if shape ∈ ["MiniMax-H3", "MiniMax-H3-Max"] then .ok (queryV2, "v2/video_generation")
  else if shape ∈ ["MiniMax-Hailuo-02", "MiniMax-Hailuo-2.3", "MiniMax-Hailuo-2.3-Fast"] then
    .ok (query, "v1/video_generation")
  else .error (invalid "unsupported MiniMax v1 model")

def buildSubmitRequest (prepare : TaskConfig → Value → String → Except ErrorEnvelope P)
    (config : TaskConfig) (request : Value) : Except ErrorEnvelope (PreparedTaskV2 P) := do
  let model ← required (strField request "model") "missing MiniMax model"
  let shape ← shapeOf config model
  let (route, path) ← routeOf shape
  let prepared ← prepare config request shape
  let _ ← requestUrl config path none
  return ⟨⟨route⟩, prepared⟩

/-- The status code of an answer; a code that is no integer is an error. -/
def baseCode (body : Value) : Option Int :=
  match (body.get "base_resp").filter fun value => !value.isNull with
  | none => some 0
  | some base =>
      match (base.get "status_code").filter fun value => !value.isNull with
      | none => some 0
      | some (.number (.posInt n)) => if n < 2 ^ 63 then some n else none
      | some (.number (.negInt n)) => some n
      | some _ => none

def rejection (code : Int) : ErrorEnvelope :=
  if code = 1004 ∨ code = 2049 then ⟨.auth, 401, "MiniMax credentials were rejected", none⟩
  else if code = 2013 then ⟨.invalidRequest, 400, "MiniMax request was rejected", none⟩
  else if code = 1026 then
    ⟨.contentPolicy, 400, "MiniMax content policy rejected the request", none⟩
  else if code = 1002 then ⟨.rateLimit, 429, "MiniMax rate limit exceeded", none⟩
  else if code = 1008 ∨ code = 2153 then
    ⟨.upstreamUnavailable, 503, "MiniMax account is unavailable", none⟩
  else ⟨.providerProtocolError, 502, "MiniMax operation was rejected", none⟩

def httpError (status : Nat) : ErrorEnvelope :=
  let kind : ErrorCode :=
    if status = 401 ∨ status = 403 then .auth
    else if status = 429 then .rateLimit
    else if 400 ≤ status ∧ status < 500 then .invalidRequest
    else if 500 ≤ status ∧ status < 600 then .upstreamUnavailable
    else .providerProtocolError
  ⟨kind, status, "MiniMax upstream HTTP request failed", none⟩

def bodyOf (parts : HttpResponseParts) : Option Value :=
  if parts.isSuccess then fromStr parts.body else none

def parseSubmitResponse (parts : HttpResponseParts) : SubmitOutcomeV2 O :=
  if parts.isClientError then .rejected (httpError parts.status)
  else
    match bodyOf fromStr parts with
    | none => .unknown
    | some value =>
        let id := (value.get "task_id").bind miniMaxIdentifier
        match baseCode value with
        | none => .unknown
        | some code =>
            match id with
            | some id => if code = 0 then .accepted id else .unknown
            | none => if code = 0 then .unknown else .rejected (rejection code)

def buildObserveRequest (config : TaskConfig) (id : String) (locator : TaskLocatorV2) :
    Except ErrorEnvelope ObserveRequest :=
  if locator.route = queryV2 then do
    refuse (id = "" ∨ isDot id = true ∨ maxArtifactRefBytes < (bytes id).length ∨
      hasControl id = true ∨ hasSlash id = true) (invalid "invalid MiniMax H3 task id")
    let url ← requestUrl config (queryV2 ++ "/" ++ encodeSegment id) none
    return ⟨url, bearer config⟩
  else if locator.route = query then do
    refuse ((queryString [(.taskId, id)]).isNone = true)
      (invalid "unsupported MiniMax task id query")
    let url ← requestUrl config query (some (.taskId, id))
    return ⟨url, bearer config⟩
  else .error (invalid "unsupported MiniMax locator")

end MiniMax

/-! ## Bailian -/

namespace Bailian

def query : String := "api/v1/tasks"

def buildSubmitRequest (prepare : TaskConfig → Value → String → Except ErrorEnvelope P)
    (config : TaskConfig) (request : Value) : Except ErrorEnvelope (PreparedTaskV2 P) := do
  let model ← required ((strField request "model").filter (· ≠ "")) "missing Bailian model"
  let prepared ← prepare config request model
  return ⟨⟨query⟩, prepared⟩

def parseSubmitResponse (parts : HttpResponseParts) : SubmitOutcomeV2 O :=
  if parts.isClientError then
    .rejected ⟨.providerProtocolError, parts.status, "Bailian submission rejected", none⟩
  else if parts.isSuccess = false then .unknown
  else
    match fromStr parts.body with
    | none => .unknown
    | some body =>
        let id := ((body.get "output").bind fun v => strField v "task_id").filter identifier
        match (body.get "code").filter (fun v => !v.isNull), id with
        | some _, some _ => .unknown
        | some _, none => .rejected (invalid "Bailian submission rejected")
        | none, some id => .accepted id
        | none, none => .unknown

def buildObserveRequest (config : TaskConfig) (id : String) (locator : TaskLocatorV2) :
    Except ErrorEnvelope ObserveRequest := do
  refuse (locator.route ≠ query) (invalid "unsupported Bailian locator")
  refuse (identifier id = false ∨ hasSlash id = true) (invalid "invalid Bailian task identifier")
  return ⟨underBase config (query ++ "/" ++ encodeSegment id), bearer config⟩

end Bailian

/-! ## BytePlus -/

namespace BytePlus

def tasks : String := "api/v3/contents/generations/tasks"

def buildSubmitRequest (prepare : TaskConfig → Value → String → Except ErrorEnvelope P)
    (config : TaskConfig) (request : Value) : Except ErrorEnvelope (PreparedTaskV2 P) := do
  let model ← required ((strField request "model").filter (· ≠ "")) "missing BytePlus model"
  let prepared ← prepare config request model
  return ⟨⟨tasks⟩, prepared⟩

def errorMessage (body : Value) : Option String :=
  bounded ((body.get "error").bind fun error => strField error "message")

def parseSubmitResponse (parts : HttpResponseParts) : SubmitOutcomeV2 O :=
  if parts.isClientError then
    .rejected ⟨.providerProtocolError, parts.status,
      ((fromStr parts.body).bind errorMessage).getD "BytePlus submission rejected", none⟩
  else if parts.isSuccess = false then .unknown
  else
    match fromStr parts.body with
    | none => .unknown
    | some body =>
        match (strField body "id").filter identifier with
        | some id => .accepted id
        | none => .unknown

def buildObserveRequest (config : TaskConfig) (id : String) (locator : TaskLocatorV2) :
    Except ErrorEnvelope ObserveRequest := do
  refuse (locator.route ≠ tasks) (invalid "unsupported BytePlus locator")
  refuse (identifier id = false ∨ hasSlash id = true) (invalid "invalid BytePlus task identifier")
  return ⟨underBase config (tasks ++ "/" ++ encodeSegment id), bearer config⟩

end BytePlus

/-! ## Veo -/

namespace Veo

inductive Family where
  | gemini
  | vertex
deriving DecidableEq, Repr

namespace Family

def of (config : TaskConfig) : Except ErrorEnvelope Family :=
  if config.provider = "veo-video" then .ok .gemini
  else if config.provider = "vertex-veo-video" then .ok .vertex
  else .error (invalid "unsupported Veo family")

def route : Family → String
  | .gemini => "v1beta"
  | .vertex => "v1"

/-- Whether a name is an operation the family polls. -/
def polls (name : String) : Family → Bool
  | .gemini => geminiOperationName name
  | .vertex => vertexOperationName name

def auth (config : TaskConfig) : Family → Option TaskAuth
  | .gemini => config.auth.map (.header "x-goog-api-key")
  | .vertex => config.auth.map .bearer

end Family

def isModelName (model : String) : Bool :=
  model != "" && model.toList.all fun c => isWordChar c || c == '.'

def buildSubmitRequest (prepare : TaskConfig → Value → String → Except ErrorEnvelope P)
    (config : TaskConfig) (request : Value) : Except ErrorEnvelope (PreparedTaskV2 P) := do
  let family ← Family.of config
  let model ← required ((strField request "model").filter isModelName)
    "missing or invalid Veo model"
  let prepared ← prepare config request model
  return ⟨⟨family.route⟩, prepared⟩

/-- An answer without an operation name may be terminal already. -/
def parseSubmitResponse (terminal : Value → Option O) (parts : HttpResponseParts) :
    SubmitOutcomeV2 O :=
  if parts.isClientError then
    .rejected ⟨.providerProtocolError, parts.status,
      ((fromStr parts.body).bind fun body =>
        bounded ((body.get "error").bind fun e => strField e "message")).getD
        "Veo submission rejected", none⟩
  else if parts.isSuccess = false then .unknown
  else
    match fromStr parts.body with
    | none => .unknown
    | some body =>
        match strField body "name" with
        | some name =>
            if geminiOperationName name || vertexOperationName name then .accepted name
            else .unknown
        | none =>
            match terminal body with
            | some observation => .acceptedTerminal observation
            | none => .unknown

/-- The address an operation is polled at. -/
def observeUrl (config : TaskConfig) (family : Family) (id : String) : String :=
  match family with
  | .gemini => underBase config ("v1beta/" ++ id)
  | .vertex =>
      match vertexOperationUnderBinding id with
      | some path => underBase config path
      | none => origin config.baseUrl ++ "/v1/" ++ id

def buildObserveRequest (config : TaskConfig) (id : String) (locator : TaskLocatorV2) :
    Except ErrorEnvelope ObserveRequest := do
  let family ← Family.of config
  refuse (locator.route ≠ family.route) (invalid "unsupported Veo locator")
  refuse (family.polls id = false) (invalid "invalid Veo operation name")
  return ⟨observeUrl config family id, family.auth config⟩

end Veo

/-! ## Gemini Omni -/

namespace GeminiOmni

inductive Family where
  | vertex
  | gemini
deriving DecidableEq, Repr

namespace Family

def of (config : TaskConfig) : Except ErrorEnvelope Family :=
  if config.provider = "vertex-interactions-video" then .ok .vertex
  else if config.provider = "gemini-interactions-video" then .ok .gemini
  else .error (invalid "unsupported Interactions video family")

def route : Family → String
  | .vertex => "interactions"
  | .gemini => "v1beta/interactions"

def auth (config : TaskConfig) : Family → Option TaskAuth
  | .vertex => config.auth.map .bearer
  | .gemini => config.auth.map (.header "x-goog-api-key")

end Family

def buildSubmitRequest (prepare : TaskConfig → Value → String → Except ErrorEnvelope P)
    (config : TaskConfig) (request : Value) : Except ErrorEnvelope (PreparedTaskV2 P) := do
  let family ← Family.of config
  let model ← required ((strField request "model").filter Veo.isModelName)
    "missing or invalid Omni model"
  let prepared ← prepare config request model
  return ⟨⟨family.route⟩, prepared⟩

def rejectionCode (status : Nat) : ErrorCode :=
  if status = 401 ∨ status = 403 then .auth
  else if status = 429 then .rateLimit
  else .invalidRequest

/-- A completed answer with a URL is settled at once; `errorMessage` reads a refusal. -/
def parseSubmitResponse (errorMessage : String → Option String) (settled : Value → Option O)
    (parts : HttpResponseParts) : SubmitOutcomeV2 O :=
  if parts.isClientError then
    .rejected ⟨rejectionCode parts.status, parts.status,
      (errorMessage parts.body).getD "Interactions request rejected", none⟩
  else if parts.isSuccess = false then .unknown
  else
    match fromStr parts.body with
    | none => .unknown
    | some body =>
        let now := if strField body "status" = some "completed" then settled body else none
        match now, (strField body "id").filter interactionId with
        | some observation, _ => .acceptedTerminal observation
        | none, some id => .accepted id
        | none, none => .unknown

def buildObserveRequest (config : TaskConfig) (id : String) (locator : TaskLocatorV2) :
    Except ErrorEnvelope ObserveRequest := do
  let family ← Family.of config
  refuse (locator.route ≠ family.route) (invalid "unsupported Omni locator")
  refuse (interactionId id = false) (invalid "invalid Omni interaction id")
  return ⟨underBase config (family.route ++ "/" ++ Contracts.UrlSegment.encode id),
    family.auth config⟩

end GeminiOmni

end Components

end TokenStation.Tasks
