import Rulebook.Failure
import Rulebook.Store.Basic

/-!
Transactions on the store. A transaction that fails has still done what it did up to then; `undoing`
takes that back.
-/
namespace Rulebook

/-- A computation on the store that can fail. -/
abbrev Txn := ExceptT Failure (StateM Store)

namespace Txn

/-- Runs a body and takes back all it did if it fails. -/
def undoing (body : Txn α) : Txn α :=
  ExceptT.mk fun s =>
    match body s with
    | (.ok a, after) => (.ok a, after)
    | (.error e, _) => (.error e, s)

/-- A result that needs nothing of the store. -/
def ofExcept (result : Except Failure α) : Txn α :=
  match result with
  | .ok a => pure a
  | .error e => throw e

/-- A result that can have no value. -/
def ofFault (result : Except Fault α) : Txn α := ofExcept (result.mapError .fault)

/-- Reads the clock; no two readings are the same. -/
def now : Txn Instant :=
  modifyGet fun s => (s.clock, { s with clock := s.clock.next })

/-- The reference date where none is given. -/
def today : Txn Date := do return (← get).clock.date

/-- An identifier that no row has. -/
def freshId : Txn Uuid :=
  modifyGet fun s => (⟨s.nextId⟩, { s with nextId := s.nextId + 1 })

/-- What a new row of a tenant starts with. -/
def newRow (tenant : Uuid) : Txn Row := do
  let id ← freshId
  let createdAt ← now
  let updatedAt ← now
  return { id, tenant, createdAt, updatedAt }

/-- The row of a tenant with an identifier. -/
def own [Stored α] (kind : RowKind) (rows : Store → List α) (tenant id : Uuid) : Txn α := do
  match findOwn (rows (← get)) tenant id with
  | some r => return r
  | none => throw (.notFound kind id)

def ownPack (tenant id : Uuid) : Txn Pack := own .pack Store.packs tenant id

def ownRule (tenant id : Uuid) : Txn Rule := own .rule Store.rules tenant id

/-- The rule that a version belongs to, whoever owns it. -/
def ruleOf (v : Version) : Txn Rule := do
  match (← get).rule? v.rule with
  | some r => return r
  | none => throw (.notFound .rule v.rule)

def ownVersion (tenant id : Uuid) : Txn Version := own .version Store.versions tenant id

def ownFinding (tenant id : Uuid) : Txn Finding := own .finding Store.findings tenant id

def ownRun (tenant id : Uuid) : Txn ImpactRun := own .run Store.runs tenant id

end Txn

end Rulebook
