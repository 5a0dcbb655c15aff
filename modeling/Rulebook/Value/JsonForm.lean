import Rulebook.Value.Shown

/-!
The JSON form of a value as a table holds it, and the date that a value stands for.
-/
namespace Rulebook.Value

mutual

/-- The JSON form: dates, moments and identifiers as text, decimals as doubles, tuples as lists. -/
def toJsonForm : Value → Value
  | date d => text d.toIsoText
  | moment m => text (m.toText 'T')
  | decimal d => float d.toDouble
  | uuid u => text u.toText
  | list items => list (toJsonForms items)
  | tuple items => list (toJsonForms items)
  | object fields => object (membersToJsonForm fields)
  | v => v

def toJsonForms : List Value → List Value
  | [] => []
  | v :: rest => toJsonForm v :: toJsonForms rest

def membersToJsonForm : List (Text × Value) → List (Text × Value)
  | [] => []
  | (key, v) :: rest => (key, toJsonForm v) :: membersToJsonForm rest

end

/-- The date that a value stands for: none for null and empty text, its own date for a moment, and
for anything else the date that its plain text spells. `none` outside means that there is no such
date. -/
def toDate? : Value → Option (Option Date)
  | null => some none
  | text t => if t.isEmpty then some none else (t.string?.bind Date.ofIsoText?).map some
  | moment m => some (some m.date)
  | date d => some (some d)
  | v => (v.plain.string?.bind Date.ofIsoText?).map some

end Rulebook.Value
