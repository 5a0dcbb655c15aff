import Rulebook.Calendar.Moment
import Rulebook.Uuid

/-!
What every stored row has: an identifier, the tenant that owns it, and when it was made and last
changed.
-/
namespace Rulebook

structure Row where
  id : Uuid
  tenant : Uuid
  createdAt : Instant
  updatedAt : Instant
  deriving DecidableEq, Repr, Inhabited

/-- Who makes a call: a tenant, and one of its users if known. -/
structure Caller where
  tenant : Uuid
  user : Option Uuid := none
  deriving DecidableEq, Repr, Inhabited

/-- Types of rows that the store keeps. -/
class Stored (α : Type) where
  row : α → Row

/-- Whether a row has an identifier and belongs to a tenant. -/
def Row.isOwn (r : Row) (tenant id : Uuid) : Bool := r.id == id && r.tenant == tenant

/-- The row of a tenant with an identifier. -/
def findOwn [Stored α] (rows : List α) (tenant id : Uuid) : Option α :=
  rows.find? fun r => (Stored.row r).isOwn tenant id

/-- The rows of a tenant. -/
def ownRows [Stored α] (rows : List α) (tenant : Uuid) : List α :=
  rows.filter fun r => (Stored.row r).tenant == tenant

/-- Rows from the earliest to the latest; those of one time stay in the order they stand in. -/
def oldestFirst (time : α → Instant) (rows : List α) : List α :=
  rows.mergeSort fun r q => (time r).micros ≤ (time q).micros

/-- Rows from the latest to the earliest; of those of one time the last comes first. -/
def newestFirst (time : α → Instant) (rows : List α) : List α :=
  rows.reverse.mergeSort fun r q => (time q).micros ≤ (time r).micros

/-- Puts a row in the place of the one with its identifier. -/
def replaceRow [Stored α] (rows : List α) (r : α) : List α :=
  rows.map fun q => if (Stored.row q).id = (Stored.row r).id then r else q

end Rulebook
