import Rulebook.Number.Decimal
import Rulebook.Number.Shortest
import Rulebook.Calendar.Moment
import Rulebook.Text.Basic
import Rulebook.Uuid
import Rulebook.Fault

/-!
Values of entities, conditions and directives. The JSON kinds keep integers apart from doubles; an
entity may also hold decimals, dates, moments, identifiers and tuples. An object keeps the order in
which its keys were first put. Values are taken as they have been read: the limits of the reader, to
the digits of an integer and to the depth of nesting, are none of theirs.
-/
namespace Rulebook

inductive Value where
  | null
  | bool (b : Bool)
  | int (i : Int)
  | float (x : Double)
  | decimal (d : Decimal)
  | text (t : Text)
  | date (d : Date)
  | moment (m : Moment)
  | uuid (u : Uuid)
  | list (items : List Value)
  | tuple (items : List Value)
  | object (fields : List (Text × Value))
  deriving Repr, Inhabited

/-- The members of an object. -/
abbrev Fields := List (Text × Value)

namespace Fields

/-- The value of the member with a key. -/
def get? (fields : Fields) (key : Text) : Option Value := fields.lookup key

/-- The value of the member with a key, null if there is none. -/
def getD (fields : Fields) (key : Text) : Value := (fields.get? key).getD .null

/-- Puts a member: in the place of the one with its key, or at the end. -/
def put (key : Text) (v : Value) : Fields → Fields
  | [] => [(key, v)]
  | (k, w) :: rest => if k = key then (k, v) :: rest else (k, w) :: put key v rest

/-- An object from members in the order of writing; of two with one key the later value counts. -/
def ofPairs (pairs : List (Text × Value)) : Fields :=
  pairs.foldl (fun fields (k, v) => put k v fields) []

end Fields

namespace Value

/-- The member of an object under a key. -/
def get? (v : Value) (key : Text) : Option Value :=
  match v with
  | object fields => Fields.get? fields key
  | _ => none

/-- The member of an object under a key, null if there is none. -/
def getD (v : Value) (key : Text) : Value := (v.get? key).getD null

def isNull : Value → Bool
  | null => true
  | _ => false

def isText : Value → Bool
  | text _ => true
  | _ => false

/-- Whether a value is the text without letters. -/
def isEmptyText : Value → Bool
  | text t => t.isEmpty
  | _ => false

def isList : Value → Bool
  | list _ => true
  | _ => false

def isObject : Value → Bool
  | object _ => true
  | _ => false

/-- Whether a value counts as present: null, false, zero and everything empty do not. -/
def isPresent : Value → Bool
  | null => false
  | bool b => b
  | int i => i != 0
  | float (.finite _ units) => units != 0
  | float _ => true
  | decimal (.finite n) => n.coefficient != 0
  | decimal _ => true
  | text t => !t.isEmpty
  | list items | tuple items => !items.isEmpty
  | object fields => !fields.isEmpty
  | date _ | moment _ | uuid _ => true

/-- A value, or another in the place of one that does not count as present. -/
def orElse (v default : Value) : Value := if v.isPresent then v else default

/-- The kind of a value, as messages name it. -/
def kind : Value → String
  | null => "NoneType"
  | bool _ => "bool"
  | int _ => "int"
  | float _ => "float"
  | decimal _ => "decimal.Decimal"
  | text _ => "str"
  | date _ => "datetime.date"
  | moment _ => "datetime.datetime"
  | uuid _ => "UUID"
  | list _ => "list"
  | tuple _ => "tuple"
  | object _ => "dict"

/-- The items of a value one after the other: those of a list, the letters of a text, the keys of an
object. -/
def items : Value → Except Fault (List Value)
  | list items | tuple items => .ok items
  | text t => .ok (t.letters.map fun l => text ⟨[l]⟩)
  | object fields => .ok (fields.map fun (key, _) => text key)
  | v => .error (.notIterable v.kind)

/-- The double a number converts to. -/
def toDouble? : Value → Option (Except Fault Double)
  | int i => some (match Double.ofInt? i with
    | some x => .ok x
    | none => .error .beyondDouble)
  | float x => some (.ok x)
  | decimal d => some (.ok d.toDouble)
  | _ => none

end Value

end Rulebook
