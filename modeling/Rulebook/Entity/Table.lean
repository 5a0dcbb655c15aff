import Rulebook.Failure
import Rulebook.Number.Rounded
import Rulebook.Value.JsonForm

/-!
Tables of entities. A column may prefer a type: what is put into it is converted where that loses
nothing. Names of tables and columns are found whatever the case of their letters.
-/
namespace Rulebook

/-- The type that a column prefers. -/
inductive ColumnType where
  | text
  | integer
  | real
  | untyped
  deriving DecidableEq, Repr, Inhabited

namespace ColumnType

/-- The integers that a double may turn into: those of 64 bits but for the two at the ends. -/
def isInner (i : Int) : Bool := -0x8000000000000000 < i && i < 0x8000000000000000 - 1

/-- A double as an integer where it is one. -/
def wholeOrFloat (x : Double) : Value :=
  match x.isWhole, x.truncate? with
  | true, some i => if isInner i then .int i else .float x
  | _, _ => .float x

/-- The double that a column of doubles holds; zero has no sign there. -/
def toReal (x : Double) : Value := .float (if x.eq .zero then .zero else x)

/-- The blanks that may surround a number in a text. -/
def isBlank (c : Char) : Bool := c == ' ' || (0x09 ≤ c.toNat && c.toNat ≤ 0x0D)

/-- The number that a text spells with the digits `0` to `9`: an integer if it has the form of one
and 64 bits, else a double. -/
def numberOfText? (t : Text) : Option Value := do
  let cs := Text.trim isBlank (← t.chars?)
  if !cs.all (·.toNat < 0x80) then none
  else
    let n ← Numeral.ofChars? cs
    let i : Int := if n.negative then -n.coefficient else n.coefficient
    if cs.all (fun c => c.isDigit || c == '-' || c == '+') && -0x8000000000000000 ≤ i &&
        i < 0x8000000000000000 then
      some (.int i)
    else some (.float (.ofNumeral n))

/-- The text that a column of texts holds for a value, if it holds one. -/
def textOf? : Value → Option Text
  | .null => none
  | .float x => x.toRoundedText?.map Text.ofString
  | v => some v.plain

/-- What a column holds after a value has been put into it. -/
def convert (type : ColumnType) (v : Value) : Value :=
  let v : Value := match v with
    | .bool b => .int (if b then 1 else 0)
    | .float .nan => .null
    | v => v
  match type, v with
  | text, .int _ | text, .float _ => ((textOf? v).map .text).getD .null
  | integer, .float x => wholeOrFloat x
  | integer, .text t =>
    match numberOfText? t with
    | some (.float x) => wholeOrFloat x
    | some n => n
    | none => v
  | real, .float x => toReal x
  | real, .int i => .float (Double.ofQuotient (i < 0) i.natAbs 1)
  | real, .text t =>
    match numberOfText? t with
    | some (.float x) => toReal x
    | some (.int i) => .float (Double.ofQuotient (i < 0) i.natAbs 1)
    | _ => v
  | _, v => v

end ColumnType

/-- A table: its columns in order, and its rows in the order in which they were put in. -/
structure Table where
  name : String
  columns : List (String × ColumnType)
  rows : List Fields := []
  deriving Repr, Inhabited

namespace Table

/-- Whether two names are one, whatever the case of their letters. -/
def sameName (a b : String) : Bool := a.map Char.toLower == b.map Char.toLower

/-- Puts a row in; a column that it does not name is null. -/
def insert (t : Table) (row : Fields) : Table :=
  { t with rows := t.rows ++
    [t.columns.map fun (name, type) => ((name : Text), type.convert (row.getD name))] }

/-- The name of a column as the table spells it. -/
def column (t : Table) (name : String) : Except Failure String :=
  match t.columns.find? fun (c, _) => sameName c name with
  | some (c, _) => .ok c
  | none => .error (.storage ("no such column: " ++ name))

/-- The value of a row in a column as text, if it has one. -/
def cellText? (row : Fields) (column : String) : Option Text :=
  ColumnType.textOf? (row.getD column)

/-- The rows that belong to a tenant. -/
def ownRows (t : Table) (tenantColumn : String) (tenant : Uuid) : Except Failure (List Fields) := do
  let c ← t.column tenantColumn
  return t.rows.filter fun row => cellText? row c == some (tenant.toHex : Text)

/-- A row as an entity: it gets an `id` from a column, unless it has a column of that name. -/
def toEntity (idColumn : String) (row : Fields) : Fields :=
  let entity : Fields := Value.membersToJsonForm row
  if (entity.get? "id").isSome then entity
  else entity.put "id" (entity.getD idColumn)

end Table

end Rulebook
