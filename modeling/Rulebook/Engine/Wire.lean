import Rulebook.Engine.Call

/-!
Answers as JSON: every row as an object with its columns in a fixed order, the identifier first.
-/
namespace Rulebook.Wire

def ofString (s : String) : Value := .text s

def ofUuid (u : Uuid) : Value := .text u.toText

def ofDate (d : Date) : Value := .text d.toIsoText

def ofInstant (t : Instant) : Value := .text t.toText

/-- A moment; universal time is marked by `Z`. -/
def ofMoment (m : Moment) : Value :=
  if m.offset = some 0 then .text ({ m with offset := none }.toText 'T' ++ "Z")
  else .text (m.toText 'T')

/-- A value that can be absent, as null where it is. -/
def ofOption (form : α → Value) : Option α → Value
  | some a => form a
  | none => .null

def ofList (form : α → Value) (xs : List α) : Value := .list (xs.map form)

def ofPack (p : Pack) : Value := .object [
  ("id", ofUuid p.id),
  ("tenant_id", ofUuid p.tenant),
  ("name", .text p.name),
  ("authority", .text p.authority),
  ("description", ofOption ofString p.description),
  ("status", .text p.status),
  ("created_at", ofInstant p.createdAt),
  ("updated_at", ofInstant p.updatedAt)]

def ofRegulation (r : Regulation) : Value := .object [
  ("id", ofUuid r.id),
  ("tenant_id", ofUuid r.tenant),
  ("pack_id", ofOption ofUuid r.pack),
  ("authority", .text r.authority),
  ("title", .text r.title),
  ("citation", ofOption ofString r.citation),
  ("source_url", ofOption ofString r.sourceUrl),
  ("effective_date", ofOption ofDate r.effectiveDate),
  ("tags", ofList .text r.tags),
  ("raw_text", ofOption ofString r.rawText),
  ("summary", ofOption ofString r.summary),
  ("status", .text r.status),
  ("created_at", ofInstant r.createdAt),
  ("updated_at", ofInstant r.updatedAt)]

def ofVersion (v : Version) : Value := .object [
  ("id", ofUuid v.id),
  ("rule_id", ofUuid v.rule),
  ("version", .int v.number),
  ("status", .text v.status.label),
  ("conditions", v.conditions),
  ("actions", v.actions),
  ("severity", .text v.severity),
  ("change_note", ofOption ofString v.changeNote),
  ("effective_date", ofOption ofDate v.effectiveDate),
  ("created_by", ofOption ofUuid v.createdBy),
  ("approved_by", ofOption ofUuid v.approvedBy),
  ("approved_at", ofOption ofInstant v.approvedAt),
  ("created_at", ofInstant v.createdAt),
  ("updated_at", ofInstant v.updatedAt)]

def ofRule (r : RuleView) : Value := .object [
  ("id", ofUuid r.rule.id),
  ("tenant_id", ofUuid r.rule.tenant),
  ("pack_id", ofUuid r.rule.pack),
  ("regulation_id", ofOption ofUuid r.rule.regulation),
  ("name", .text r.rule.name),
  ("applies_to", ofOption ofString r.rule.appliesTo),
  ("current_version_id", ofOption ofUuid r.rule.currentVersion),
  ("status", .text r.rule.status.label),
  ("versions", ofList ofVersion r.versions),
  ("created_at", ofInstant r.rule.createdAt),
  ("updated_at", ofInstant r.rule.updatedAt)]

def ofTask (t : Task) : Value := .object [
  ("id", ofUuid t.id),
  ("finding_id", ofUuid t.finding),
  ("title", .text t.title),
  ("status", .text t.status),
  ("due_date", ofOption ofDate t.dueDate),
  ("required_artifacts", .list t.artifacts),
  ("notes", ofOption ofString t.notes)]

def ofFinding (f : FindingView) : Value := .object [
  ("id", ofUuid f.finding.id),
  ("tenant_id", ofUuid f.finding.tenant),
  ("entity_type", .text f.finding.entityType),
  ("entity_id", .text f.finding.entityId),
  ("pack_id", ofOption ofUuid f.finding.pack),
  ("rule_id", ofUuid f.finding.rule),
  ("rule_version_id", ofUuid f.finding.version),
  ("status", .text f.finding.status.label),
  ("severity", .text f.finding.severity),
  ("title", .text f.finding.title),
  ("due_date", ofOption ofDate f.finding.dueDate),
  ("details", .object f.finding.details),
  ("tasks", ofList ofTask f.tasks),
  ("created_at", ofInstant f.finding.createdAt),
  ("updated_at", ofInstant f.finding.updatedAt)]

def ofOverride (o : Override) : Value := .object [
  ("id", ofUuid o.id),
  ("finding_id", ofUuid o.finding),
  ("action", .text o.action),
  ("reason_code", ofOption ofString o.reasonCode),
  ("reason", ofOption ofString o.reason),
  ("approved_by", ofOption ofUuid o.approvedBy),
  ("approved_at", ofInstant o.approvedAt),
  ("expires_at", ofOption ofMoment o.expiresAt)]

def ofSummary (s : ImpactSummary) : Value := .object [
  ("total_entities", .int s.total),
  ("would_trigger", .int s.wouldTrigger),
  ("no_trigger", .int s.noTrigger),
  ("severity", .text s.severity)]

def ofRun (r : ImpactRun) : Value := .object [
  ("id", ofUuid r.id),
  ("tenant_id", ofUuid r.tenant),
  ("pack_id", ofOption ofUuid r.pack),
  ("rule_version_id", ofUuid r.version),
  ("status", .text r.status.label),
  ("summary", ofOption ofSummary r.summary),
  ("error", ofOption ofString r.error),
  ("created_by", ofOption ofUuid r.createdBy),
  ("created_at", ofInstant r.createdAt),
  ("completed_at", ofOption ofInstant r.completedAt)]

def ofResult (r : ImpactResult) : Value := .object [
  ("entity_type", .text r.entityType),
  ("entity_id", .text r.entityId),
  ("would_trigger", .bool r.wouldTrigger),
  ("severity", .text r.severity),
  ("due_date", ofOption ofDate r.dueDate),
  ("details", .object [("rule_name", .text r.ruleName), ("inputs_snapshot", .object r.inputs)])]

/-- An answer as JSON. -/
def ofAnswer : Answer → Value
  | .pack p => ofPack p
  | .packs ps => ofList ofPack ps
  | .regulation r => ofRegulation r
  | .regulations rs => ofList ofRegulation rs
  | .rule r => ofRule r
  | .rules rs => ofList ofRule rs
  | .version v => ofVersion v
  | .versions vs => ofList ofVersion vs
  | .active vs => ofList (fun v => ofUuid v.id) vs
  | .finding f => ofFinding f
  | .findings fs => ofList ofFinding fs
  | .override o => .object [("override", ofOverride o.override), ("finding", ofFinding o.finding)]
  | .overrides os => ofList ofOverride os
  | .entity e => ofOption .object e
  | .entities es => ofList .object es
  | .run r => ofRun r
  | .runStarted r => .object [("run_id", ofUuid r.id), ("status", .text r.status.label)]
  | .runDetail r => .object [("run", ofRun r.run), ("results", ofList ofResult r.results)]
  | .number n => .int n
  | .flag b => .bool b
  | .done => .null

end Rulebook.Wire
