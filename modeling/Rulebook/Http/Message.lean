import Rulebook.Failure
import Rulebook.Http.Form

/-!
Requests and responses.
-/
namespace Rulebook.Http

/-- A request. Its body comes in bytes; an empty one is none. -/
structure Request where
  method : String
  path : String
  query : List (String × String) := []
  headers : List (String × String) := []
  body : List UInt8 := []
  deriving Repr, Inhabited

/-- The value of a header, whatever the case of its name. -/
def Request.header? (r : Request) (name : String) : Option String :=
  (r.headers.find? fun (n, _) => n.toLower == name.toLower).map Prod.snd

/-- Whether a media type stands for JSON. -/
def isJsonType (mediaType : String) : Bool :=
  match ((((mediaType.splitOn ";").headD "").trimAscii.toString.toLower).splitOn "/") with
  | ["application", subtype] => subtype == "json" || subtype.endsWith "+json"
  | _ => false

/-- Whether the body of a request is to be read as JSON. -/
def Request.isJson (r : Request) : Bool :=
  match r.header? "content-type" with
  | some type => type.isEmpty || isJsonType type
  | none => true

/-- What a response carries. -/
inductive Payload where
  | json (v : Value)
  /-- What is wrong with the request. -/
  | issues (issues : List Issue)
  | plain (s : String)
  deriving Repr, Inhabited

structure Response where
  status : Nat
  payload : Payload
  deriving Repr, Inhabited

namespace Response

/-- A response of a few words. -/
def detail (status : Nat) (words : String) : Response :=
  ⟨status, .json (.object [("detail", .text words)])⟩

/-- A failure that is not reported. -/
def internal : Response := ⟨500, .plain "Internal Server Error"⟩

/-- A response that carries a value, if it can be sent; null stands for a double that is not
finite. -/
def ofValue? (status : Nat) (v : Value) : Option Response :=
  let v := v.finiteForm
  if v.isSendable then some ⟨status, .json v⟩ else none

/-- A response that reports what is wrong with a request. What was read in each place has to be
sendable as well. -/
def ofIssues (issues : List Issue) : Response :=
  if issues.all (·.input.isSendable) then ⟨422, .issues issues⟩ else internal

/-- A failure that is reported with a code. -/
def coded (status : Nat) (code : String) (message : Text) (details : Fields) : Response :=
  let v : Value :=
    .object [("code", .text code), ("message", .text message), ("details", .object details)]
  if v.isSendable then ⟨status, .json v⟩ else internal

/-- The response that a failure leads to. -/
def ofFailure (f : Failure) : Response :=
  match f.kind with
  | .notFound => coded 404 "NOT_FOUND" f.message f.details
  | .invalid => coded 422 "VALIDATION_ERROR" f.message f.details
  | .invalidCondition => coded 422 "INVALID_CONDITION" f.message f.details
  | .conflict => coded 409 "CONFLICT" f.message f.details
  | .duplicateFinding => coded 409 "DUPLICATE_FINDING" f.message f.details
  | .storage => coded 503 "STORAGE_ERROR" f.message f.details
  | .constraint | .database => coded 503 "STORAGE_ERROR" "Storage operation failed" []
  | .outOfRange | .wrongKind | .badValue | .unencodable | .unpresentable | .sourceless => internal

end Response

end Rulebook.Http
