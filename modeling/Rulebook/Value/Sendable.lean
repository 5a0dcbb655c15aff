import Rulebook.Value.Basic

/-!
Values that have a JSON text, and among them those that can be sent: without lone surrogates in
their texts and keys, which have no encoding, and without doubles that have no numeral.
-/
namespace Rulebook

/-- Whether a text has an encoding: none of its letters is a lone surrogate. -/
def Text.isEncodable (t : Text) : Bool := t.letters.all fun l => l.char?.isSome

def Double.isFinite : Double → Bool
  | finite .. => true
  | _ => false

namespace Value

mutual

/-- Whether a value has a JSON text. Decimals, dates, moments and identifiers have none; a tuple has
that of the list of its items. -/
def hasJson : Value → Bool
  | decimal _ | date _ | moment _ | uuid _ => false
  | list items | tuple items => haveJson items
  | object fields => membersHaveJson fields
  | null | bool _ | int _ | float _ | text _ => true

def haveJson : List Value → Bool
  | [] => true
  | v :: rest => hasJson v && haveJson rest

def membersHaveJson : List (Text × Value) → Bool
  | [] => true
  | (_, v) :: rest => hasJson v && membersHaveJson rest

end

mutual

def isSendable : Value → Bool
  | float x => x.isFinite
  | text t => t.isEncodable
  | list items | tuple items => areSendable items
  | object fields => areMembersSendable fields
  | _ => true

def areSendable : List Value → Bool
  | [] => true
  | v :: rest => isSendable v && areSendable rest

def areMembersSendable : List (Text × Value) → Bool
  | [] => true
  | (key, v) :: rest => key.isEncodable && isSendable v && areMembersSendable rest

end

mutual

/-- A value with null in the place of every double that is not finite. -/
def finiteForm : Value → Value
  | float x => if x.isFinite then float x else null
  | list items => list (finiteForms items)
  | tuple items => tuple (finiteForms items)
  | object fields => object (finiteMembers fields)
  | v => v

def finiteForms : List Value → List Value
  | [] => []
  | v :: rest => finiteForm v :: finiteForms rest

def finiteMembers : List (Text × Value) → List (Text × Value)
  | [] => []
  | (key, v) :: rest => (key, finiteForm v) :: finiteMembers rest

end

end Value

end Rulebook
