import Rulebook.Calendar.Timestamp
import Rulebook.Value.Sendable

/-!
Forms: what a request has to look like. A form is read as a whole, so that all that is wrong with a
request is found, each with its place.
-/
namespace Rulebook.Http

/-- A step to a part of a request. -/
inductive Step where
  | key (name : String)
  | index (n : Nat)
  deriving DecidableEq, Repr, Inhabited

/-- What is wrong with a part of a request. -/
inductive Flaw where
  | missing
  | notText
  | textTooShort
  | textTooLong
  | unencodableText
  | notAUuid
  | malformedUuid
  | notAnObject
  | notAList
  | notAForm
  | notADate
  | malformedDate
  | dateWithTime
  | dateBeforeCalendar
  | notAMoment
  | momentOutOfRange
  | malformedMoment
  | malformedJson
  | refused
  deriving DecidableEq, Repr, Inhabited

def Flaw.label : Flaw → String
  | missing => "missing"
  | notText => "string_type"
  | textTooShort => "string_too_short"
  | textTooLong => "string_too_long"
  | unencodableText => "string_unicode"
  | notAUuid => "uuid_type"
  | malformedUuid => "uuid_parsing"
  | notAnObject => "dict_type"
  | notAList => "list_type"
  | notAForm => "model_attributes_type"
  | notADate => "date_type"
  | malformedDate => "date_from_datetime_parsing"
  | dateWithTime => "date_from_datetime_inexact"
  | dateBeforeCalendar => "date_parsing"
  | notAMoment => "datetime_type"
  | momentOutOfRange => "datetime_parsing"
  | malformedMoment => "datetime_from_date_parsing"
  | malformedJson => "json_invalid"
  | refused => "value_error"

/-- A flaw, its place, and what was read there: the part itself, or the whole of which a part is
missing. -/
structure Issue where
  place : List Step
  flaw : Flaw
  input : Value
  deriving Repr, Inhabited

/-- What was read, or all that is wrong with it. -/
inductive Checked (α : Type) where
  | good (a : α)
  | bad (issues : List Issue)
  deriving Repr, Inhabited

namespace Checked

/-- A single flaw in the part itself. -/
def flawed (f : Flaw) (input : Value) : Checked α := bad [⟨[], f, input⟩]

def map (f : α → β) : Checked α → Checked β
  | good a => good (f a)
  | bad issues => bad issues

/-- Reads two parts; the issues of both count. -/
def seq (f : Checked (α → β)) (x : Unit → Checked α) : Checked β :=
  match f, x () with
  | good f, good a => good (f a)
  | good _, bad issues => bad issues
  | bad issues, good _ => bad issues
  | bad issues, bad more => bad (issues ++ more)

instance : Applicative Checked where
  pure := good
  map := map
  seq := seq

/-- The same, as a part of something larger. -/
def under (s : Step) : Checked α → Checked α
  | good a => good a
  | bad issues => bad (issues.map fun i => { i with place := s :: i.place })

/-- Goes on with what was read. -/
def andThen (x : Checked α) (f : α → Checked β) : Checked β :=
  match x with
  | good a => f a
  | bad issues => bad issues

end Checked

/-- How a part of a request is read. -/
abbrev Part (α : Type) := Value → Checked α

namespace Part

def any : Part Value := .good

def text : Part Text
  | .text t => .good t
  | v => .flawed .notText v

/-- A text of at least so many letters, and at most so many where there is a limit. -/
def sizedText (least : Nat) (most : Option Nat) : Part Text := fun v =>
  (text v).andThen fun t =>
    if !t.isEncodable then .flawed .unencodableText v
    else if t.length < least then .flawed .textTooShort v
    else if most.any (· < t.length) then .flawed .textTooLong v
    else .good t

def uuid : Part Uuid
  | .text t =>
    match t.string?.bind Uuid.ofField? with
    | some u => .good u
    | none => .flawed .malformedUuid (.text t)
  | v => .flawed .notAUuid v

/-- The moment that a number gives: `none` for what is no number, `some none` for a number out of
range. An integer that has no nearest double counts as no number. -/
def momentOfNumber? : Value → Option (Option GivenMoment)
  | .int i => (Double.ofInt? i).map fun _ => GivenMoment.ofCount? i 0
  | .float x => some (GivenMoment.ofDouble? x)
  | _ => none

def moment : Part Moment
  | .text t =>
    match t.string?.bind GivenMoment.ofText? with
    | some (.inCalendar m) => .good m
    | some (.beforeCalendar _) => .flawed .momentOutOfRange (.text t)
    | none => .flawed .malformedMoment (.text t)
  | v =>
    match momentOfNumber? v with
    | some (some (.inCalendar m)) => .good m
    | some _ => .flawed .momentOutOfRange v
    | none => .flawed .notAMoment v

/-- A date, which may also be given as its midnight. -/
def date : Part Date := fun v =>
  let given : Option (Option GivenMoment) := match v with
    | .text t => some (t.string?.bind GivenMoment.ofText?)
    | v => momentOfNumber? v
  match given with
  | some (some (.inCalendar m)) => if m.isMidnight then .good m.date else .flawed .dateWithTime v
  | some (some (.beforeCalendar midnight)) =>
    .flawed (if midnight then .dateBeforeCalendar else .dateWithTime) v
  | some none => .flawed .malformedDate v
  | none => .flawed .notADate v

/-- An object with whatever members. -/
def object : Part Value
  | .object fields => .good (.object fields)
  | v => .flawed .notAnObject v

/-- The items of a list from a position on. -/
def itemsFrom (part : Part α) (n : Nat) : List Value → Checked (List α)
  | [] => .good []
  | v :: rest => List.cons <$> (part v).under (.index n) <*> itemsFrom part (n + 1) rest

def list (part : Part α) : Part (List α)
  | .list items => itemsFrom part 0 items
  | v => .flawed .notAList v

/-- A part that may be null. -/
def nullable (part : Part α) : Part (Option α)
  | .null => .good none
  | v => some <$> part v

/-- A form: an object whose members are read by name. -/
def form (read : Fields → Checked α) : Part α
  | .object fields => read fields
  | v => .flawed .notAForm v

end Part

/-- A member that has to be there. -/
def required (fields : Fields) (name : String) (part : Part α) : Checked α :=
  (match fields.get? name with
    | some v => part v
    | none => .flawed .missing (.object fields)).under (.key name)

/-- A member with a default. -/
def optional (fields : Fields) (name : String) (default : α) (part : Part α) : Checked α :=
  match fields.get? name with
  | some v => (part v).under (.key name)
  | none => .good default

end Rulebook.Http
