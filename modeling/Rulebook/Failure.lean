import Rulebook.Condition.Basic
import Rulebook.Directive.Check
import Rulebook.Model.Finding
import Rulebook.Model.Impact
import Rulebook.Model.Rule

/-!
Why a call fails: the causes, the class that each belongs to, and the message and details that it is
reported with.
-/
namespace Rulebook

/-- The kinds of row that a call can name. -/
inductive RowKind where
  | pack
  | rule
  | version
  | finding
  | run
  deriving DecidableEq, Repr, Inhabited

/-- The name of a kind of row in messages. -/
def RowKind.name : RowKind → String
  | pack => "PolicyPack"
  | rule => "PolicyRule"
  | version => "PolicyRuleVersion"
  | finding => "ComplianceFinding"
  | run => "PolicyImpactRun"

/-- What a version has to be in a certain status for. -/
inductive VersionStep where
  | approve
  | activate
  deriving DecidableEq, Repr, Inhabited

namespace VersionStep

/-- The status that a step starts from. -/
def source : VersionStep → VersionStatus
  | approve => .inReview
  | activate => .approved

def participle : VersionStep → String
  | approve => "approved"
  | activate => "activated"

end VersionStep

/-- Why a call fails. -/
inductive Failure where
  | notFound (kind : RowKind) (id : Uuid)
  | entityNotFound (entityType entityId : Text)
  | malformedCondition (node : Malformed)
  | refusedDirectives (refusal : DirectiveRefusal)
  | notADate (field : Text) (value : Value)
  | entityWithoutId
  | noEntitySource
  | unknownEntityType (entityType : Text)
  | unknownFindingStatus (label : Text)
  | versionNotDraft (id : Uuid) (status : VersionStatus)
  | versionNotReady (id : Uuid) (status : VersionStatus) (step : VersionStep)
  | versionNotRetirable (id : Uuid) (status : VersionStatus)
  | nothingToSubmit (rule : Uuid)
  /-- Two versions of a rule would share a number or both be active. -/
  | versionClash
  | findingMove (id : Uuid) (source target : FindingStatus)
  | findingClosed (id : Uuid) (status : FindingStatus)
  | runFinished (id : Uuid) (status : RunStatus)
  /-- A run has ended while it was being executed. -/
  | runEnded (id : Uuid)
  | duplicateFinding (key : FindingKey)
  | findingNotStored
  | fault (f : Fault)
  /-- A row breaks a constraint of the store that no call reports in its own words. -/
  | constraint
  /-- A table, column or value that the store has no place for. -/
  | storage (problem : String)
  /-- An integer beyond what a column holds. -/
  | integerTooWide
  /-- A text with lone surrogates, which the store has no encoding for. -/
  | unencodable (t : Text)
  /-- A stored value that the answer has no place for. -/
  | unpresentable
  /-- A listing was asked of a source that is not there. -/
  | sourceless
  deriving Repr, Inhabited

/-- The string that the store takes for a text; lone surrogates have no encoding. -/
def Text.encoded (t : Text) : Except Failure String :=
  match t.string? with
  | some s => .ok s
  | none => .error (.unencodable t)

/-- The classes of failure that callers tell apart. -/
inductive FailureClass where
  | notFound
  | invalid
  | invalidCondition
  | conflict
  | duplicateFinding
  | storage
  /-- A number or date out of range. -/
  | outOfRange
  | wrongKind
  | badValue
  | unencodable
  | constraint
  | database
  | unpresentable
  | sourceless
  deriving DecidableEq, Repr, Inhabited

/-- The message of a fault. -/
def Fault.message : Fault → String
  | beyondDouble => "int too large to convert to float"
  | beyondCalendar => "date value out of range"
  | tooManyDays days =>
    "days=" ++ toString days ++ "; must have magnitude <= " ++ toString maxDays
  | daysTooWide => "Python int too large to convert to C int"
  | badIndex step =>
    "invalid literal for int() with base 10: " ++
      String.ofList ((Text.quoted step).toList.take maxQuoted)
  | longIndex digits =>
    "Exceeds the limit (" ++ toString maxIndexDigits ++
      " digits) for integer string conversion: value has " ++ toString digits ++
      " digits; use sys.set_int_max_str_digits() to increase the limit"
  | notIterable kind => "'" ++ kind ++ "' object is not iterable"

/-- The class of a fault. -/
def Fault.kind : Fault → FailureClass
  | beyondDouble | beyondCalendar | tooManyDays _ | daysTooWide => .outOfRange
  | badIndex _ | longIndex _ => .badValue
  | notIterable _ => .wrongKind

/-- The letters that have no encoding: where they start, how many stand in a row, and the first of
them. -/
def Text.firstSurrogates? (t : Text) : Option (Nat × Nat × Letter) :=
  let encodable := t.letters.takeWhile fun l => l.char?.isSome
  match t.letters.drop encodable.length with
  | [] => none
  | lone :: rest =>
    some (encodable.length, (rest.takeWhile fun l => l.char?.isNone).length + 1, lone)

namespace Failure

/-- The message of a text that has no encoding. -/
def unencodableMessage (t : Text) : String :=
  match t.firstSurrogates? with
  | none => ""
  | some (start, count, lone) =>
    let what :=
      if count = 1 then
        " '" ++ String.ofList (Text.escape lone.code) ++ "' in position " ++ toString start
      else "s in position " ++ toString start ++ "-" ++ toString (start + count - 1)
    "'utf-8' codec can't encode character" ++ what ++ ": surrogates not allowed"

/-- The class of a failure. -/
def kind : Failure → FailureClass
  | notFound .. | entityNotFound .. => .notFound
  | malformedCondition _ => .invalidCondition
  | refusedDirectives (.unconvertible f) => f.kind
  | refusedDirectives _ | notADate .. | entityWithoutId | noEntitySource | unknownEntityType _
  | unknownFindingStatus _ => .invalid
  | versionNotDraft .. | versionNotReady .. | versionNotRetirable .. | nothingToSubmit _
  | versionClash | findingMove .. | findingClosed .. | runFinished .. | runEnded _ => .conflict
  | duplicateFinding _ => .duplicateFinding
  | findingNotStored => .storage
  | fault f => f.kind
  | integerTooWide => .outOfRange
  | unencodable _ => .unencodable
  | constraint => .constraint
  | storage _ => .database
  | unpresentable => .unpresentable
  | sourceless => .sourceless

/-- The message of a failure. -/
def message : Failure → Text
  | notFound kind id => kind.name ++ " " ++ id.toText ++ " not found"
  | entityNotFound entityType entityId => entityType ++ " " ++ entityId ++ " not found"
  | malformedCondition node => node.message
  | refusedDirectives (.unconvertible f) => f.message
  | refusedDirectives refusal => refusal.message
  | notADate field value => field ++ " must be an ISO date, got " ++ value.shown
  | entityWithoutId => "entity must carry an 'id'"
  | noEntitySource => "No entity source is configured; pass the entity inline"
  | unknownEntityType entityType =>
    "No entity table is configured for entity type '" ++ entityType ++ "'"
  | unknownFindingStatus label => "Unknown finding status '" ++ label ++ "'"
  | versionNotDraft id status =>
    "Version " ++ id.toText ++ " is " ++ status.label ++ "; only draft versions can be edited"
  | versionNotReady id status step =>
    "Version " ++ id.toText ++ " is " ++ status.label ++ "; only " ++ step.source.label ++
      " versions can be " ++ step.participle
  | versionNotRetirable id status =>
    "Version " ++ id.toText ++ " is " ++ status.label ++ " and cannot be retired"
  | nothingToSubmit rule => "Rule " ++ rule.toText ++ " has no draft versions to submit"
  | versionClash => "Rule version change conflicts with a concurrent update"
  | findingMove _ source target =>
    "Finding cannot move from " ++ source.label ++ " to " ++ target.label
  | findingClosed _ status => "Finding is " ++ status.label ++ " and cannot be overridden"
  | runFinished _ status => "Impact run is " ++ status.label ++ " and cannot be cancelled"
  | runEnded id => "Impact run " ++ id.toText ++ " is no longer running"
  | duplicateFinding _ => "An open finding already exists for this entity and rule version"
  | findingNotStored => "Failed to persist finding"
  | fault f => f.message
  | constraint => "constraint failed"
  | storage problem => problem
  | integerTooWide => "integer too large for a column"
  | unencodable t => unencodableMessage t
  | unpresentable => "stored value cannot be shown"
  | sourceless => "'NoneType' object has no attribute 'list_entities'"

/-- The details of a failure. -/
def details : Failure → Fields
  | notFound kind id => [("resource", .text kind.name), ("resource_id", .text id.toText)]
  | entityNotFound entityType entityId =>
    [("resource", .text entityType), ("resource_id", .text entityId)]
  | malformedCondition node =>
    [("path", .text node.place.text), ("field", .text "conditions")]
  | refusedDirectives refusal => [("field", .text refusal.place)]
  | notADate field _ => [("field", .text field)]
  | entityWithoutId => [("field", .text "entity.id")]
  | noEntitySource => [("field", .text "entity_id")]
  | unknownEntityType _ => [("field", .text "entity_type")]
  | unknownFindingStatus _ => [("field", .text "status")]
  | versionNotDraft id status | versionNotRetirable id status =>
    [("version_id", .text id.toText), ("status", .text status.label)]
  | versionNotReady id status step =>
    [("version_id", .text id.toText), ("status", .text status.label),
      ("expected", .text step.source.label)]
  | nothingToSubmit rule => [("rule_id", .text rule.toText)]
  | findingMove id source target =>
    [("finding_id", .text id.toText), ("status", .text source.label),
      ("requested", .text target.label)]
  | findingClosed id status => [("finding_id", .text id.toText), ("status", .text status.label)]
  | runFinished id status => [("run_id", .text id.toText), ("status", .text status.label)]
  | duplicateFinding key =>
    [("entity_type", .text key.entityType), ("entity_id", .text key.entityId),
      ("rule_version_id", .text key.version.toText)]
  | versionClash | runEnded _ | findingNotStored | fault _ | constraint | storage _
  | integerTooWide | unencodable _ | unpresentable | sourceless => []

end Failure

end Rulebook
