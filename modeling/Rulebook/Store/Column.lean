import Rulebook.Number.Rounded
import Rulebook.Store.Txn
import Rulebook.Value.Sendable

/-!
What columns hold. A column of texts holds strings, so a text with lone surrogates cannot be stored
or asked for; a column of integers holds 64 bits; a column of JSON holds what has a JSON text.
-/
namespace Rulebook.Txn

/-- A text as the store takes it. -/
def encoded (t : Text) : Txn String := ofExcept t.encoded

/-- A text that may be absent, as the store takes it. -/
def encoded? : Option Text → Txn (Option String)
  | some t => some <$> encoded t
  | none => pure none

/-- An integer, if a column can hold it. -/
def column (i : Int) : Txn Int :=
  if -0x8000000000000000 ≤ i && i < 0x8000000000000000 then pure i else throw .integerTooWide

/-- What a column of texts holds after a value has been put into it; null and NaN leave it empty,
and a date and time is written with a space. -/
def cell (v : Value) : Txn (Option String) :=
  match v with
  | .null => pure none
  | .text t => some <$> encoded t
  | .bool b => pure (some (if b then "1" else "0"))
  | .int i => do return some (toString (← column i))
  | .float x => pure x.toRoundedText?
  | .date d => pure (some d.toIsoText)
  | .moment m => pure (some (m.toText ' '))
  | _ => throw (.storage "unsupported type")

/-- Lets a value pass that a column of JSON can hold. -/
def json (v : Value) : Txn Unit :=
  if v.hasJson then pure () else throw (.storage "value has no JSON")

end Rulebook.Txn
