import Rulebook.Condition.Fields
import Rulebook.Engine.Basic
import Rulebook.Engine.Wire
import Rulebook.Http.Message
import Rulebook.Http.Route
import Rulebook.Text.Encoding
import Rulebook.Value.Json

/-!
The service: it finds the endpoint of a request, reads the body, the headers and then all other
parts, and performs the call that they make up. What comes first in this order is reported first.
-/
namespace Rulebook.Http

/-- The settings of the service. -/
structure ServiceSettings where
  engine : Settings := {}
  /-- The name that the service goes by when asked for its health. -/
  serviceName : String
  /-- What the paths of the service start with. -/
  apiStart : String
  /-- Whether impact runs are executed in the background. -/
  background : Bool := false
  deriving Repr, Inhabited

/-- What a request asks for. -/
inductive Action where
  | call (call : Call) (status : Nat) (form : Answer → Value)
  | reply (v : Value)
  | page

/-- The body of a request. -/
inductive Content where
  | absent
  | present (v : Value)
  deriving Repr, Inhabited

namespace Endpoint

/-- Whether an endpoint reads the body. -/
def readsBody : Endpoint → Bool
  | createPack | updatePack | createRegulation | createRule | createVersion | updateVersion
  | evaluate | startRun | updateFinding | overrideFinding | checkConditions => true
  | _ => false

/-- The identifier in the path. -/
def pathId (ids : List PathId) : Checked Uuid :=
  match ids with
  | id :: _ => ((Part.uuid (.text id.text)).under (.key id.name)).under (.key "path")
  | [] => .flawed .missing .null

/-- A parameter of the query; of several with one name the last counts. -/
def queryText? (query : List (String × String)) (name : String) : Option String :=
  query.reverse.lookup name

def queryUuid (query : List (String × String)) (name : String) : Checked (Option Uuid) :=
  match queryText? query name with
  | some s => some <$> ((Part.uuid (.text s)).under (.key name)).under (.key "query")
  | none => .good none

/-- Reads the body as a whole. -/
def body (content : Content) (part : Part α) : Checked α :=
  (match content with
    | .present v => part v
    | .absent => .flawed .missing .null).under (.key "body")

/-- What an evaluation answers: the type, the identifier and the findings. -/
def evaluationForm (entityType entityId : Text) (a : Answer) : Value :=
  .object [("entity_type", .text entityType), ("entity_id", .text entityId),
    ("findings", Wire.ofAnswer a)]

/-- The evaluation that a body asks for. -/
def evaluation (entityType : Text) : Body.Evaluand → Action
  | .inline entity =>
    .call (.evaluate entityType entity none false) 200
      (evaluationForm entityType (EntitySource.idText entity))
  | .byId entityId =>
    .call (.evaluateById entityType entityId none) 200 (evaluationForm entityType entityId)

/-- What is found when conditions are checked. -/
def checkReply (conditions : Value) : Value :=
  match Condition.authored conditions with
  | .ok c => .object [("valid", .bool true), ("fields", .list (c.fields.map .text)),
      ("error", .null), ("path", .null)]
  | .error node => .object [("valid", .bool false), ("fields", .list []),
      ("error", .text node.message), ("path", .text node.place.text)]

/-- What a request to an endpoint asks for. -/
def action (settings : ServiceSettings) (e : Endpoint) (ids : List PathId)
    (query : List (String × String)) (content : Content) : Checked Action :=
  let answer (c : Call) : Action := .call c 200 Wire.ofAnswer
  let created (c : Call) : Action := .call c 201 Wire.ofAnswer
  match e with
  | listPacks => .good (answer .listPacks)
  | createPack => (created ∘ .createPack) <$> body content Body.pack
  | updatePack =>
    (fun id change => answer (.updatePack id change)) <$> pathId ids
      <*> body content Body.packChange
  | listRegulations => (answer ∘ .listRegulations) <$> queryUuid query "pack_id"
  | createRegulation => (created ∘ .createRegulation) <$> body content Body.regulation
  | listRules => (answer ∘ .listRules) <$> queryUuid query "pack_id"
  | createRule =>
    (fun (rule, first) => created (.createRule rule first)) <$> body content Body.rule
  | createVersion =>
    (fun id draft => created (.createVersion id draft)) <$> pathId ids <*> body content Body.version
  | submitRule => (answer ∘ .submitRule) <$> pathId ids
  | updateVersion =>
    (fun id change => answer (.updateVersion id change)) <$> pathId ids
      <*> body content Body.versionChange
  | approveVersion => (answer ∘ .approveVersion) <$> pathId ids
  | activateVersion => (answer ∘ .activateVersion) <$> pathId ids
  | retireVersion => (answer ∘ .retireVersion) <$> pathId ids
  | evaluate =>
    (fun (entityType, evaluand) => evaluation entityType evaluand) <$> body content Body.evaluation
  | startRun =>
    (fun version =>
      let c := if settings.background then Call.submitRun version else .startRun version
      .call c 202 Wire.ofAnswer) <$> body content Body.run
  | getRun => (answer ∘ .getRun) <$> pathId ids
  | cancelRun => (fun id => answer (.cancelRun id settings.background)) <$> pathId ids
  | listFindings => .good <| answer <| .listFindings {
      status := (queryText? query "status").map Text.ofString
      entityType := (queryText? query "entity_type").map Text.ofString
      entityId := (queryText? query "entity_id").map Text.ofString }
  | updateFinding =>
    (fun id status => answer (.updateStatus id status)) <$> pathId ids <*> body content Body.status
  | overrideFinding =>
    (fun id draft => created (.override id draft)) <$> pathId ids <*> body content Body.override
  | listOverrides => (answer ∘ .listOverrides) <$> pathId ids
  | checkConditions => (.reply ∘ checkReply) <$> body content Body.check
  | health =>
    .good (.reply (.object [("status", .text "ok"), ("service", .text settings.serviceName)]))
  | documentation => .good .page

end Endpoint

/-- The response to a body that cannot be read at all. -/
def unreadableBody : Response := .detail 400 "There was an error parsing the body"

/-- How many lists and objects may stand inside each other in a body. -/
def deepestBody : Nat := 960

/-- The content of a request; a body that is no JSON is reported at once. -/
def Request.content (r : Request) (e : Endpoint) : Except Response Content :=
  if !e.readsBody || r.body.isEmpty then .ok .absent
  else
    match if r.isJson then Text.ofBytes? r.body else Text.Encoding.utf8.decode? r.body with
    | none => .error unreadableBody
    | some t =>
      if !r.isJson then .ok (.present (.text t))
      else
        match Json.read deepestBody t with
        | .ok v => .ok (.present v)
        | .error .malformed => .error (.ofIssues [⟨[.key "body"], .malformedJson, .object []⟩])
        | .error .longInteger | .error .tooDeep => .error unreadableBody

/-- An identifier in a header; an empty header counts as none. -/
def Request.headerUuid (r : Request) (name : String) : Except Response (Option Uuid) :=
  match r.header? name with
  | none | some "" => .ok none
  | some s =>
    match Uuid.ofHeader? s with
    | some u => .ok (some u)
    | none => .error (.detail 400 (name ++ " must be a UUID"))

/-- Who makes a request; the health and the documentation of the service are open to anyone. -/
def Request.caller (r : Request) (e : Endpoint) : Except Response Caller :=
  if e = .health || e = .documentation then .ok default
  else do
    match ← r.headerUuid "X-Tenant-ID" with
    | none => throw (.detail 400 "X-Tenant-ID header is required")
    | some tenant => return { tenant, user := ← r.headerUuid "X-User-ID" }

/-- What a request to an endpoint asks for, and on whose behalf. -/
def Request.action (settings : ServiceSettings) (r : Request) (e : Endpoint) (ids : List PathId) :
    Except Response (Caller × Action) := do
  let content ← r.content e
  let caller ← r.caller e
  match e.action settings ids r.query content with
  | .good a => return (caller, a)
  | .bad issues => throw (.ofIssues issues)

/-- What is sent back: a request that asks for the head alone gets nothing more. -/
def Response.forMethod (method : String) (response : Response) : Response :=
  if method = "HEAD" then { response with payload := .plain "" } else response

/-- Performs a call and answers it. What a call has done is undone if its answer cannot be sent,
unless statements are committed one by one. -/
def answerCall (settings : ServiceSettings) (caller : Caller) (call : Call) (status : Nat)
    (form : Answer → Value) (engine : Engine) : Response × Engine :=
  match engine.perform settings.engine caller call with
  | (.error f, after) => (.ofFailure f, after)
  | (.ok a, after) =>
    match Response.ofValue? status (form a) with
    | some response => (response, after)
    | none => (.internal, if settings.engine.statementwise then after else engine)

/-- Answers a request. -/
def answer (settings : ServiceSettings) (r : Request) (engine : Engine) : Response × Engine :=
  match destination settings.apiStart r.method r.path with
  | .nowhere => (.detail 404 "Not Found", engine)
  | .otherMethod => (.detail 405 "Method Not Allowed", engine)
  | .otherSlash => (⟨307, .plain ""⟩, engine)
  | .endpoint e ids =>
    match r.action settings e ids with
    | .error response => (response, engine)
    | .ok (_, .page) => (⟨200, .plain ""⟩, engine)
    | .ok (_, .reply v) => ((Response.ofValue? 200 v).getD .internal, engine)
    | .ok (caller, .call call status form) => answerCall settings caller call status form engine

/-- Responds to a request. -/
def respond (settings : ServiceSettings) (r : Request) (engine : Engine) : Response × Engine :=
  let (response, engine) := answer settings r engine
  (response.forMethod r.method, engine)

end Rulebook.Http
