import Rulebook.Engine.Call
import Rulebook.Http.Form

/-!
The forms of the bodies that requests carry.
-/
namespace Rulebook.Http.Body

/-- The most characters of a name, an authority or the like. -/
def nameLimit : Nat := 255

def titleLimit : Nat := 500

def reasonCodeLimit : Nat := 100

def name : Part Text := .sizedText 1 (some nameLimit)

def pack : Part PackDraft := .form fun fs =>
  PackDraft.mk <$> required fs "name" name
    <*> required fs "authority" name
    <*> optional fs "description" none (.nullable .text)
    <*> optional fs "status" (activeStatus : Text) .text

def packChange : Part PackChange := .form fun fs =>
  PackChange.mk <$> optional fs "name" none (.nullable name)
    <*> optional fs "authority" none (.nullable name)
    <*> optional fs "description" none (.nullable .text)
    <*> optional fs "status" none (.nullable .text)

def regulation : Part RegulationDraft := .form fun fs =>
  RegulationDraft.mk <$> optional fs "pack_id" none (.nullable .uuid)
    <*> required fs "authority" name
    <*> required fs "title" (.sizedText 1 (some titleLimit))
    <*> optional fs "citation" none (.nullable .text)
    <*> optional fs "source_url" none (.nullable .text)
    <*> optional fs "effective_date" none (.nullable .date)
    <*> optional fs "tags" [] (.list .text)
    <*> optional fs "raw_text" none (.nullable .text)
    <*> optional fs "summary" none (.nullable .text)
    <*> optional fs "status" (activeStatus : Text) .text

def conditions (fs : Fields) : Checked Value := optional fs "conditions" (.object []) .object

def actions (fs : Fields) : Checked Value :=
  .list <$> optional fs "actions" [] (.list .object)

def severity (fs : Fields) : Checked (Option Text) :=
  some <$> optional fs "severity" (defaultSeverity : Text) .text

def effectiveDate (fs : Fields) : Checked (Option Date) :=
  optional fs "effective_date" none (.nullable .date)

/-- A rule and its first version. -/
def rule : Part (RuleDraft × VersionDraft) := .form fun fs =>
  (fun pack name appliesTo regulation conditions actions severity effectiveDate =>
      ({ pack, name, appliesTo, regulation },
        { conditions, actions, severity, changeNote := none, effectiveDate }))
    <$> required fs "pack_id" .uuid
    <*> required fs "name" name
    <*> optional fs "applies_to" (some ("loan" : Text)) (.nullable .text)
    <*> optional fs "regulation_id" none (.nullable .uuid)
    <*> conditions fs <*> actions fs <*> severity fs <*> effectiveDate fs

def version : Part VersionDraft := .form fun fs =>
  VersionDraft.mk <$> conditions fs <*> actions fs <*> severity fs
    <*> optional fs "change_note" none (.nullable .text)
    <*> effectiveDate fs

def versionChange : Part VersionChange := .form fun fs =>
  VersionChange.mk <$> optional fs "conditions" none (.nullable .object)
    <*> optional fs "actions" none (.nullable fun v => .list <$> Part.list .object v)
    <*> optional fs "severity" none (.nullable .text)
    <*> optional fs "change_note" none (.nullable .text)
    <*> effectiveDate fs

def status : Part Text := .form fun fs => required fs "status" .text

def override : Part OverrideDraft := .form fun fs =>
  OverrideDraft.mk <$> required fs "action" (.sizedText 1 none)
    <*> optional fs "reason_code" none (.nullable (.sizedText 0 (some reasonCodeLimit)))
    <*> optional fs "reason" none (.nullable .text)
    <*> optional fs "expires_at" none (.nullable .moment)

/-- What is to be evaluated: an entity, or the identifier of one. -/
inductive Evaluand where
  | inline (entity : Fields)
  | byId (entityId : Text)
  deriving Repr, Inhabited

/-- An entity that is given inline goes before an identifier; a form without both is refused. -/
def evaluand (fs : Fields) (entityId : Option Text) (entity : Option Value) : Checked Evaluand :=
  match entity with
  | some (.object fields) => .good (.inline fields)
  | _ =>
    match entityId with
    | some t => if t.isEmpty then .flawed .refused (.object fs) else .good (.byId t)
    | none => .flawed .refused (.object fs)

/-- The type and what is to be evaluated. -/
def evaluation : Part (Text × Evaluand) := .form fun fs =>
  (Prod.mk <$> optional fs "entity_type" ("loan" : Text) .text
    <*> (Prod.mk <$> optional fs "entity_id" none (.nullable .text)
      <*> optional fs "entity" none (.nullable .object))).andThen fun (entityType, id, entity) =>
    (entityType, ·) <$> evaluand fs id entity

def run : Part Uuid := .form fun fs => required fs "rule_version_id" .uuid

def check : Part Value := .form fun fs => required fs "conditions" .any

end Rulebook.Http.Body
