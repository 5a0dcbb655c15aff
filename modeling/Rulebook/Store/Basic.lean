import Rulebook.Model.Finding
import Rulebook.Model.Impact
import Rulebook.Model.Pack
import Rulebook.Model.Rule

/-!
The rows that are kept, table by table, in the order in which they were made; with them the supply
of identifiers and the clock. Rows are only ever added or changed in place.
-/
namespace Rulebook

structure Store where
  packs : List Pack := []
  regulations : List Regulation := []
  rules : List Rule := []
  versions : List Version := []
  findings : List Finding := []
  tasks : List Task := []
  overrides : List Override := []
  runs : List ImpactRun := []
  results : List ImpactResult := []
  /-- The number that the next identifier gets. -/
  nextId : Nat := 0
  clock : Instant
  deriving Repr, Inhabited

namespace Store

/-- A store without rows. -/
def empty (clock : Instant) (nextId : Nat) : Store := { nextId, clock }

/-- A store whose clock shows an instant, or a later one if it was later already. -/
def atLeast (s : Store) (t : Instant) : Store :=
  if s.clock.micros < t.micros then { s with clock := t } else s

/-- The versions of a rule in the order of their numbers. -/
def versionsOf (s : Store) (rule : Uuid) : List Version :=
  (s.versions.filter (·.rule == rule)).mergeSort fun v w => v.number ≤ w.number

/-- The rule with an identifier, whoever owns it. -/
def rule? (s : Store) (id : Uuid) : Option Rule := s.rules.find? (·.id == id)

/-- The versions of a tenant that are active, each with its rule, where the rule is about a type. -/
def activeVersions (s : Store) (tenant : Uuid) (entityType : String) : List (Version × Rule) :=
  (ownRows s.versions tenant).filterMap fun v =>
    if v.isActive then
      match s.rule? v.rule with
      | some r => if r.covers entityType then some (v, r) else none
      | none => none
    else none

/-- The number for the next version of a rule: one above the greatest, or 1 where there is none. -/
def nextNumber (s : Store) (tenant rule : Uuid) : Int :=
  match ((ownRows s.versions tenant).filter (·.rule == rule)).map (·.number) with
  | [] => 1
  | n :: rest => rest.foldl max n + 1

/-- The live finding about a key. -/
def liveFinding? (s : Store) (key : FindingKey) : Option Finding :=
  s.findings.find? (·.isLiveFor key)

/-- The tasks of a finding, the oldest first. -/
def tasksOf (s : Store) (finding : Uuid) : List Task :=
  oldestFirst (·.createdAt) (s.tasks.filter (·.finding == finding))

end Store

end Rulebook
