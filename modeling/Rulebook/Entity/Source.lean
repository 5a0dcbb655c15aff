import Rulebook.Entity.Table

/-!
Where the entities of a tenant come from: from records in memory, from tables, or from nowhere.
-/
namespace Rulebook

/-- An entity that is held in memory. -/
structure HeldEntity where
  tenant : Uuid
  entityType : Text
  entity : Fields
  deriving Repr, Inhabited

/-- Tables of entities: which table holds which type, and the columns that name the owner and the
entity. -/
structure EntityTables where
  tables : List Table := []
  tableOf : List (Text × String) := [("loan", "loans")]
  tenantColumn : String := "org_id"
  idColumn : String := "id"
  deriving Repr, Inhabited

namespace EntityTables

/-- The table for a type. A type without one is refused; a table that is not there fails. -/
def table (e : EntityTables) (entityType : Text) : Except Failure Table :=
  match e.tableOf.lookup entityType with
  | none => .error (.unknownEntityType entityType)
  | some name =>
    match e.tables.find? fun t => Table.sameName t.name name with
    | some t => .ok t
    | none => .error (.storage ("no such table: " ++ name))

/-- The entities of a tenant, of one type. -/
def list (e : EntityTables) (tenant : Uuid) (entityType : Text) :
    Except Failure (List Fields) := do
  let t ← e.table entityType
  return (← t.ownRows e.tenantColumn tenant).map (Table.toEntity e.idColumn)

/-- The entity of a tenant with an identifier. -/
def get? (e : EntityTables) (tenant : Uuid) (entityType entityId : Text) :
    Except Failure (Option Fields) := do
  let t ← e.table entityType
  let rows ← t.ownRows e.tenantColumn tenant
  let c ← t.column e.idColumn
  discard entityId.encoded
  return (rows.find? fun row => Table.cellText? row c == some entityId).map
    (Table.toEntity e.idColumn)

end EntityTables

inductive EntitySource where
  | absent
  | memory (held : List HeldEntity)
  | tables (tables : EntityTables)
  deriving Repr, Inhabited

namespace EntitySource

/-- The entities that are held for a tenant, of one type. -/
def heldFor (held : List HeldEntity) (tenant : Uuid) (entityType : Text) : List Fields :=
  (held.filter fun h => h.tenant == tenant && h.entityType == entityType).map HeldEntity.entity

/-- The text of an entity's `id`; that of null where it has none. -/
def idText (entity : Fields) : Text := (entity.getD "id").plain

/-- The entities of a tenant, of one type. -/
def list (source : EntitySource) (tenant : Uuid) (entityType : Text) :
    Except Failure (List Fields) :=
  match source with
  | absent => .error .sourceless
  | memory held => .ok (heldFor held tenant entityType)
  | tables t => t.list tenant entityType

/-- The entity of a tenant with an identifier. -/
def get? (source : EntitySource) (tenant : Uuid) (entityType entityId : Text) :
    Except Failure (Option Fields) :=
  match source with
  | absent => .error .sourceless
  | memory held => .ok ((heldFor held tenant entityType).find? (idText · == entityId))
  | tables t => t.get? tenant entityType entityId

/-- Adds an entity to those in memory. -/
def add (source : EntitySource) (h : HeldEntity) : EntitySource :=
  match source with
  | memory held => memory (held ++ [h])
  | source => source

end EntitySource

end Rulebook
