import Rulebook.Condition.Evaluation
import Rulebook.Condition.Fields
import Rulebook.Directive.DueDate
import Rulebook.Entity.Source
import Rulebook.Filing

/-!
What a version would do to the entities of its type, if it were active.
-/
namespace Rulebook.Impact

/-- The type that is scanned for a rule about every type. -/
def defaultEntityType : String := "loan"

/-- The type of the entities that a scan for a rule goes over. -/
def scannedType (r : Rule) : String :=
  match r.appliesTo with
  | some t => if t.isEmpty then defaultEntityType else t
  | none => defaultEntityType

/-- What is to be scanned: the conditions of a version, and the entities. -/
structure Population where
  conditions : Condition
  entities : List Fields
  deriving Repr, Inhabited

/-- Reads the conditions and lists the entities. -/
def population (policy : FailurePolicy) (source : EntitySource) (v : Version) (r : Rule) :
    Except Failure Population := do
  let conditions ← (Condition.ofValue policy v.conditionsOrNone).mapError .malformedCondition
  let entities ← source.list v.tenant (scannedType r)
  return { conditions, entities }

/-- What a version would do to one entity. -/
def project (conditions : Condition) (v : Version) (r : Rule) (dueDate : Option Date)
    (entity : Fields) : Except Fault Projection := do
  let entityType := scannedType r
  let context := .object [(entityType, .object entity)]
  let wouldTrigger ← conditions.evaluate context
  let inputs ← conditions.snapshot context entityType
  return {
    entityType, entityId := EntitySource.idText entity, wouldTrigger, severity := v.severity,
    dueDate, ruleName := r.name, inputs }

/-- What a version would do to each entity. The due date is that of the first directive that sets
one. -/
def projections (p : Population) (v : Version) (r : Rule) (today : Date) :
    Except Failure (List Projection) := do
  let due ← (Directive.firstDueDate v.actions today).mapError .fault
  let dueDate ← Filing.dueDate due
  (p.entities.mapM (project p.conditions v r dueDate)).mapError .fault

/-- The counts of a scan. -/
def summary (v : Version) (ps : List Projection) : ImpactSummary :=
  let triggering := ps.countP (·.wouldTrigger)
  { total := ps.length, wouldTrigger := triggering, noTrigger := ps.length - triggering,
    severity := v.severity }

end Rulebook.Impact
