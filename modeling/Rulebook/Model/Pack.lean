import Rulebook.Model.Row
import Rulebook.Text.Basic

/-!
Policy packs and the regulations that their rules cite.
-/
namespace Rulebook

/-- The status that packs and regulations are given when none is named. -/
def activeStatus : String := "active"

/-- A group of rules that one authority publishes. -/
structure Pack extends Row where
  name : String
  authority : String
  description : Option String
  status : String
  deriving DecidableEq, Repr, Inhabited

instance : Stored Pack := ⟨Pack.toRow⟩

/-- What is recorded of a pack. -/
structure PackDraft where
  name : Text
  authority : Text
  description : Option Text := none
  status : Text := activeStatus
  deriving Repr, Inhabited

/-- A change of some columns of a pack; a column without a value is left as it is. -/
structure PackChange where
  name : Option Text := none
  authority : Option Text := none
  description : Option Text := none
  status : Option Text := none
  deriving Repr, Inhabited

/-- A regulation, or a section of a guide, that rules cite. -/
structure Regulation extends Row where
  pack : Option Uuid
  authority : String
  title : String
  citation : Option String
  sourceUrl : Option String
  effectiveDate : Option Date
  tags : List Text
  rawText : Option String
  summary : Option String
  status : String
  deriving DecidableEq, Repr, Inhabited

instance : Stored Regulation := ⟨Regulation.toRow⟩

/-- What is recorded of a regulation. -/
structure RegulationDraft where
  pack : Option Uuid := none
  authority : Text
  title : Text
  citation : Option Text := none
  sourceUrl : Option Text := none
  effectiveDate : Option Date := none
  tags : List Text := []
  rawText : Option Text := none
  summary : Option Text := none
  status : Text := activeStatus
  deriving Repr, Inhabited

end Rulebook
