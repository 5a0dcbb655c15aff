import Rulebook.Text.Blank
import Rulebook.Text.Digit
import Rulebook.Text.Infix
import Rulebook.Text.Quoted

/-!
Identifiers: 128-bit numbers, written in five groups of hexadecimal digits. A request field must
hold one of the four usual spellings; a header may also wrap its 32 digits in braces and dashes at
will.
-/
namespace Rulebook

/-- An identifier. -/
structure Uuid where
  number : Nat
  deriving DecidableEq, Repr, Inhabited

namespace Uuid

/-- The 32 hexadecimal digits. -/
def toHexChars (u : Uuid) : List Char := Text.hexDigits 32 u.number

/-- The 32 hexadecimal digits without dashes, as a column of a table holds them. -/
def toHex (u : Uuid) : String := String.ofList u.toHexChars

/-- The usual spelling: groups of 8, 4, 4, 4 and 12 digits, joined by dashes. -/
def toText (u : Uuid) : String :=
  let ds := u.toHexChars
  let cut := ds.length - 24
  let group (start width : Nat) := (ds.drop start).take width
  String.ofList (ds.take cut ++ '-' :: group cut 4 ++ '-' :: group (cut + 4) 4 ++
    '-' :: group (cut + 8) 4 ++ '-' :: ds.drop (cut + 12))

/-- The value of a hexadecimal digit. -/
def hexValue? (c : Char) : Option Nat :=
  if 'a' ≤ c && c ≤ 'f' then some (c.toNat - 'a'.toNat + 10)
  else if 'A' ≤ c && c ≤ 'F' then some (c.toNat - 'A'.toNat + 10)
  else if '0' ≤ c && c ≤ '9' then some (c.toNat - '0'.toNat)
  else none

/-- Joins hexadecimal digits, if all characters are such digits. -/
def ofHexChars? (cs : List Char) : Option Nat :=
  cs.foldlM (fun n c => (hexValue? c).map (16 * n + ·)) 0

/-- Reads five dashed groups. -/
def ofDashed? (cs : List Char) : Option Uuid :=
  let dashes := [8, 13, 18, 23]
  if cs.length = 36 && dashes.all (fun i => cs[i]? == some '-') then
    (ofHexChars? (cs.take 8 ++ (cs.drop 9).take 4 ++ (cs.drop 14).take 4 ++ (cs.drop 19).take 4 ++
      cs.drop 24)).map Uuid.mk
  else none

/-- Reads the spellings of a request field: 32 digits, dashed groups, dashed groups in braces, and
dashed groups after `urn:uuid:`. -/
def ofField? (s : String) : Option Uuid :=
  let cs := s.toList
  if cs.length = 32 then (ofHexChars? cs).map Uuid.mk
  else if cs.length = 36 then ofDashed? cs
  else if cs.length = 38 && cs.head? == some '{' && cs.getLast? == some '}' then
    ofDashed? ((cs.drop 1).take 36)
  else if cs.length = 45 && cs.take 9 == "urn:uuid:".toList then ofDashed? (cs.drop 9)
  else none

/-- Reads hexadecimal digits of any script with single underscores between them. -/
def ofSpacedHex? (afterDigit : Bool) (n : Nat) : List Char → Option Nat
  | [] => if afterDigit then some n else none
  | c :: rest =>
    if c == '_' then if afterDigit then ofSpacedHex? false n rest else none
    else
      match (hexValue? c).or (Text.decimalDigit? c) with
      | some d => ofSpacedHex? true (16 * n + d) rest
      | none => none

/-- Takes the optional mark `0x` off the front of a hexadecimal number. -/
def dropHexMark : List Char → List Char
  | zero :: x :: rest =>
    if Text.decimalDigit? zero == some 0 && (x == 'x' || x == 'X') then
      match rest with
      | '_' :: rest => rest
      | rest => rest
    else zero :: x :: rest
  | rest => rest

/-- Reads the spelling of a header: `urn:` and `uuid:`, braces at the ends and all dashes are taken
off, and 32 characters have to remain that spell a hexadecimal number. -/
def ofHeader? (s : String) : Option Uuid :=
  let bare := Text.eraseInfix "uuid:".toList (Text.eraseInfix "urn:".toList s.toList)
  let cs := (Text.trim (fun c => c == '{' || c == '}') bare).filter (· != '-')
  if cs.length = 32 then
    let cs := Text.trim Text.isNumberBlank cs
    let cs := match cs with
      | '+' :: rest => rest
      | cs => cs
    (ofSpacedHex? false 0 (dropHexMark cs)).map Uuid.mk
  else none

end Uuid

end Rulebook
