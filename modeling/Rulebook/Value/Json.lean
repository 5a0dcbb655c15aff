import Rulebook.Value.Basic

/-!
Values as JSON text. A number without point and exponent is an integer, any other a double; the
names `NaN`, `Infinity` and `-Infinity` stand for the doubles that have no numeral. A pair of
escaped surrogates is one character, and a surrogate without its partner stays one. The reader
refuses control characters inside text and commas that nothing follows, and follows lists and
objects inside each other no deeper than it is told to; of two members with one key the later value
counts, in the place of the first.
-/
namespace Rulebook.Json

/-- Why a text is no JSON. -/
inductive Fault where
  | malformed
  /-- An integer of more digits than the reader converts. -/
  | longInteger
  /-- Lists and objects inside each other, deeper than the reader follows. -/
  | tooDeep
  deriving DecidableEq, Repr

/-- The most digits of an integer. -/
def maxIntegerDigits : Nat := 4300

def escapeLetter : Letter → List Char
  | .char c =>
    if c == '"' then ['\\', '"']
    else if c == '\\' then ['\\', '\\']
    else if c.toNat < 0x20 then '\\' :: 'u' :: Text.hexDigits 4 c.toNat
    else [c]
  | lone => '\\' :: 'u' :: Text.hexDigits 4 lone.code

def writeText (t : Text) : String :=
  String.ofList ('"' :: t.letters.flatMap escapeLetter ++ ['"'])

def writeDouble (x : Double) : String :=
  match x with
  | .finite .. => x.toText
  | .infinite negative => if negative then "-Infinity" else "Infinity"
  | .nan => "NaN"

mutual

/-- Writes a value; the kinds that JSON lacks are written as text, tuples as lists. -/
def write : Value → String
  | .null => "null"
  | .bool b => if b then "true" else "false"
  | .int i => toString i
  | .float x => writeDouble x
  | .decimal d => writeText d.toText
  | .text t => writeText t
  | .date d => writeText d.toIsoText
  | .moment m => writeText (m.toText 'T')
  | .uuid u => writeText u.toText
  | .list items | .tuple items => "[" ++ ",".intercalate (writeItems items) ++ "]"
  | .object fields => "\x7b" ++ ",".intercalate (writeMembers fields) ++ "\x7d"

def writeItems : List Value → List String
  | [] => []
  | v :: rest => write v :: writeItems rest

def writeMembers : List (Text × Value) → List String
  | [] => []
  | (key, v) :: rest => (writeText key ++ ":" ++ write v) :: writeMembers rest

end

/-- A reader takes something off the front of a text. -/
abbrev Reader (α : Type) := List Letter → Except Fault (α × List Letter)

def isBlank (l : Letter) : Bool :=
  l == .char ' ' || l == .char '\t' || l == .char '\n' || l == .char '\r'

def skipBlanks (ls : List Letter) : List Letter := ls.dropWhile isBlank

/-- Four hexadecimal digits. -/
def readUnit : Reader Nat
  | .char a :: .char b :: .char c :: .char d :: rest =>
    match Uuid.ofHexChars? [a, b, c, d] with
    | some n => .ok (n, rest)
    | none => .error .malformed
  | _ => .error .malformed

/-- The letter of one escaped unit, together with the unit after it if they are a pair. -/
def readUnits : Reader Letter := fun ls => do
  let (n, rest) ← readUnit ls
  let alone := ((Letter.ofCode? n).getD default, rest)
  match rest with
  | .char '\\' :: .char 'u' :: more =>
    match readUnit more with
    | .ok (low, tail) => return (Letter.ofPair? n low).elim alone (·, tail)
    | .error _ => return alone
  | _ => return alone

/-- What follows a backslash. -/
def readEscape : Reader Letter
  | .char '"' :: rest => .ok (.char '"', rest)
  | .char '\\' :: rest => .ok (.char '\\', rest)
  | .char '/' :: rest => .ok (.char '/', rest)
  | .char 'b' :: rest => .ok (.char '\x08', rest)
  | .char 'f' :: rest => .ok (.char '\x0c', rest)
  | .char 'n' :: rest => .ok (.char '\n', rest)
  | .char 'r' :: rest => .ok (.char '\r', rest)
  | .char 't' :: rest => .ok (.char '\t', rest)
  | .char 'u' :: rest => readUnits rest
  | _ => .error .malformed

/-- The letters up to the closing quote. The fuel bounds the number of letters. -/
def readText (acc : List Letter) : Nat → Reader Text
  | 0, _ => .error .malformed
  | _ + 1, [] => .error .malformed
  | fuel + 1, l :: rest =>
    if l == .char '"' then .ok (⟨acc.reverse⟩, rest)
    else if l == .char '\\' then do
      let (m, rest) ← readEscape rest
      readText (m :: acc) fuel rest
    else if l.code < 0x20 then .error .malformed
    else readText (l :: acc) fuel rest

/-- The decimal digits `0` to `9` at the front of a text. -/
def takeDigits : List Letter → List Char × List Letter
  | .char c :: rest =>
    if '0' ≤ c && c ≤ '9' then
      let (ds, tail) := takeDigits rest
      (c :: ds, tail)
    else ([], .char c :: rest)
  | rest => ([], rest)

/-- The whole part of a number: a zero, or digits that do not start with one. -/
def readWhole : Reader (List Char)
  | .char '0' :: rest => .ok (['0'], rest)
  | rest =>
    match takeDigits rest with
    | ([], _) => .error .malformed
    | result => .ok result

/-- The fraction of a number, if a point with digits follows. -/
def takeFraction : List Letter → List Char × List Letter
  | .char '.' :: rest =>
    match takeDigits rest with
    | ([], _) => ([], .char '.' :: rest)
    | (ds, tail) => ('.' :: ds, tail)
  | rest => ([], rest)

/-- The exponent of a number, if a mark with digits follows. -/
def takeExponent : List Letter → List Char × List Letter
  | mark :: rest =>
    if mark == .char 'e' || mark == .char 'E' then
      let (sign, digits) := match rest with
        | .char '-' :: more => (['-'], more)
        | .char '+' :: more => ([], more)
        | more => ([], more)
      match takeDigits digits with
      | ([], _) => ([], mark :: rest)
      | (ds, tail) => ('e' :: sign ++ ds, tail)
    else ([], mark :: rest)
  | [] => ([], [])

/-- A number behind its sign. -/
def readNumber (sign : List Char) : Reader Value := fun ls => do
  let (whole, rest) ← readWhole ls
  let (fraction, rest) := takeFraction rest
  let (exponent, rest) := takeExponent rest
  if fraction.isEmpty && exponent.isEmpty then
    if maxIntegerDigits < whole.length then .error .longInteger
    else
      let n : Int := Numeral.joinDigits 0 (whole.map fun c => c.toNat - '0'.toNat)
      .ok (.int (if sign.isEmpty then n else -n), rest)
  else
    match Numeral.ofChars? (sign ++ whole ++ fraction ++ exponent) with
    | some n => .ok (.float (Double.ofNumeral n), rest)
    | none => .error .malformed

/-- The words that stand for values. -/
def words : List (String × Value) := [
  ("null", .null), ("true", .bool true), ("false", .bool false), ("NaN", .float .nan),
  ("Infinity", .float (.infinite false)), ("-Infinity", .float (.infinite true))]

/-- The value of a word at the front of a text, and what follows the word. -/
def takeWord? (ls : List Letter) : Option (Value × List Letter) :=
  words.findSome? fun (word, v) =>
    let letters := (Text.ofString word).letters
    if letters.isPrefixOf ls then some (v, ls.drop letters.length) else none

/-- The words and numbers. -/
def readScalar : Reader Value := fun ls =>
  match takeWord? ls with
  | some result => .ok result
  | none =>
    match ls with
    | .char '-' :: rest => readNumber ['-'] rest
    | rest => readNumber [] rest

mutual

/-- One value. The fuel bounds the number of values and members, `depth` how many lists and objects
may stand inside each other. -/
def readValue (depth : Nat) : Nat → Reader Value
  | 0, _ => .error .malformed
  | fuel + 1, ls =>
    match ls with
    | .char '"' :: rest => do
      let (t, rest) ← readText [] (rest.length + 1) rest
      return (.text t, rest)
    | .char '[' :: rest =>
      if depth = 0 then .error .tooDeep
      else
        match skipBlanks rest with
        | .char ']' :: rest => .ok (.list [], rest)
        | rest => do
          let (items, rest) ← readItems (depth - 1) fuel rest
          return (.list items, rest)
    | .char '\x7b' :: rest =>
      if depth = 0 then .error .tooDeep
      else
        match skipBlanks rest with
        | .char '\x7d' :: rest => .ok (.object [], rest)
        | rest => do
          let (pairs, rest) ← readMembers (depth - 1) fuel rest
          return (.object (Fields.ofPairs pairs), rest)
    | ls => readScalar ls

/-- The items of a list up to its closing bracket. -/
def readItems (depth : Nat) : Nat → Reader (List Value)
  | 0, _ => .error .malformed
  | fuel + 1, ls => do
    let (v, rest) ← readValue depth fuel ls
    match skipBlanks rest with
    | .char ']' :: rest => return ([v], rest)
    | .char ',' :: rest => do
      let (more, rest) ← readItems depth fuel (skipBlanks rest)
      return (v :: more, rest)
    | _ => .error .malformed

/-- The members of an object up to its closing brace. -/
def readMembers (depth : Nat) : Nat → Reader (List (Text × Value))
  | 0, _ => .error .malformed
  | fuel + 1, ls =>
    match ls with
    | .char '"' :: rest => do
      let (key, rest) ← readText [] (rest.length + 1) rest
      match skipBlanks rest with
      | .char ':' :: rest => do
        let (v, rest) ← readValue depth fuel (skipBlanks rest)
        match skipBlanks rest with
        | .char '\x7d' :: rest => return ([(key, v)], rest)
        | .char ',' :: rest => do
          let (more, rest) ← readMembers depth fuel (skipBlanks rest)
          return ((key, v) :: more, rest)
        | _ => .error .malformed
      | _ => .error .malformed
    | _ => .error .malformed

end

/-- Reads a whole text as one value, in which at most `depth` lists and objects stand inside each
other. -/
def read (depth : Nat) (t : Text) : Except Fault Value := do
  let ls := skipBlanks t.letters
  let (v, rest) ← readValue depth (ls.length + 1) ls
  if (skipBlanks rest).isEmpty then return v else .error .malformed

end Rulebook.Json
