import Rulebook.Value.Basic

/-!
Dotted paths into values: `loan.borrower.0.name`. A step names a member of an object or, if all its
letters are digits, an item of a list or tuple. What no step leads to is missing, which is apart
from being null; beyond null everything is missing.
-/
namespace Rulebook.Value

/-- The steps of a path: what stands between its dots. -/
def stepLetters : List Letter → List (List Letter)
  | [] => [[]]
  | l :: rest =>
    if l = .char '.' then [] :: stepLetters rest
    else
      match stepLetters rest with
      | [] => [[l]]
      | step :: more => (l :: step) :: more

def steps (path : Text) : List Text := (stepLetters path.letters).map Text.mk

/-- The characters of a step that has the form of an index: digits, and at least one of them. -/
def indexChars? (step : Text) : Option (List Char) :=
  step.chars?.filter fun cs => !cs.isEmpty && cs.all Text.isDigit

/-- The number that a step of digits denotes; digit-like characters denote none. -/
def index (step : List Char) : Except Fault Nat :=
  let (ds, rest) := Numeral.takeDigits step
  if Fault.maxIndexDigits < ds.length then .error (.longIndex ds.length)
  else if rest.isEmpty then .ok (Numeral.joinDigits 0 ds)
  else .error (.badIndex (String.ofList step))

/-- One step from a value. -/
def step (v : Value) (s : Text) : Except Fault (Option Value) :=
  match v with
  | object fields => .ok (Fields.get? fields s)
  | list items | tuple items =>
    match indexChars? s with
    | some cs => do return items[← index cs]?
    | none => .ok none
  | _ => .ok none

/-- Follows steps from a value that may be missing. -/
def follow : Option Value → List Text → Except Fault (Option Value)
  | v, [] => .ok v
  | none, _ :: _ => .ok none
  | some v, s :: rest => do follow (← v.step s) rest

/-- What a dotted path leads to. -/
def resolve (v : Option Value) (path : Text) : Except Fault (Option Value) :=
  follow v (steps path)

end Rulebook.Value
