import Rulebook.Text.Quoted
import Rulebook.Value.Basic

/-!
Values as text. Inside messages a value is shown with its text quoted and its kind visible; as plain
text, a text stands for itself and everything else is written as it is shown. An integer that has
been read can be written again; those with more digits than the reader takes are not meant here.
-/
namespace Rulebook

/-- The parts of a constructor call, without the trailing seconds and microseconds that are zero. -/
def Moment.parts (m : Moment) : List Nat :=
  let time :=
    if m.microsecond != 0 then [m.hour, m.minute, m.second, m.microsecond]
    else if m.second != 0 then [m.hour, m.minute, m.second]
    else [m.hour, m.minute]
  [m.date.year, m.date.month, m.date.dayOfMonth] ++ time

/-- An offset from universal time as shown in messages: whole days rounded down, and the seconds
above them. -/
def Moment.offsetShown (seconds : Int) : String :=
  if seconds = 0 then "datetime.timezone.utc"
  else
    let days := seconds.fdiv 86400
    let rest := seconds.fmod 86400
    let parts := (if days = 0 then [] else ["days=" ++ toString days]) ++
      (if rest = 0 then [] else ["seconds=" ++ toString rest])
    "datetime.timezone(datetime.timedelta(" ++ ", ".intercalate parts ++ "))"

namespace Value

def shownDate (d : Date) : String :=
  "datetime.date(" ++ ", ".intercalate ([d.year, d.month, d.dayOfMonth].map toString) ++ ")"

def shownMoment (m : Moment) : String :=
  let zone := match m.offset with
    | some seconds => ["tzinfo=" ++ Moment.offsetShown seconds]
    | none => []
  "datetime.datetime(" ++ ", ".intercalate (m.parts.map toString ++ zone) ++ ")"

mutual

/-- A value as messages show it. -/
def shown : Value → String
  | null => "None"
  | bool b => if b then "True" else "False"
  | int i => toString i
  | float x => x.toText
  | decimal d => "Decimal('" ++ d.toText ++ "')"
  | text t => t.quoted
  | date d => shownDate d
  | moment m => shownMoment m
  | uuid u => "UUID('" ++ u.toText ++ "')"
  | list items => "[" ++ ", ".intercalate (shownItems items) ++ "]"
  | tuple items =>
    match shownItems items with
    | [single] => "(" ++ single ++ ",)"
    | parts => "(" ++ ", ".intercalate parts ++ ")"
  | object fields => "\x7b" ++ ", ".intercalate (shownMembers fields) ++ "\x7d"

def shownItems : List Value → List String
  | [] => []
  | v :: rest => shown v :: shownItems rest

def shownMembers : List (Text × Value) → List String
  | [] => []
  | (key, v) :: rest => (key.quoted ++ ": " ++ shown v) :: shownMembers rest

end

/-- A value as plain text. -/
def plain : Value → Text
  | text t => t
  | decimal d => d.toText
  | date d => d.toIsoText
  | moment m => m.toText ' '
  | uuid u => u.toText
  | v => v.shown

end Value

end Rulebook
