import Rulebook.Text.Basic

/-!
Texts from bytes. JSON comes in 8-bit, 16-bit or 32-bit units; which of them, and in which order of
bytes, is told by a byte order mark or by where zeros stand among the first bytes. Surrogates
without their partners are let through.
-/
namespace Rulebook.Text

inductive Encoding where
  | utf8
  | utf16 (bigEndian : Bool)
  | utf32 (bigEndian : Bool)
  deriving DecidableEq, Repr, Inhabited

namespace Encoding

/-- The byte order marks, those first that start with another one. -/
def marks : List (Encoding × List UInt8) := [
  (utf32 true, [0x00, 0x00, 0xFE, 0xFF]), (utf32 false, [0xFF, 0xFE, 0x00, 0x00]),
  (utf16 true, [0xFE, 0xFF]), (utf16 false, [0xFF, 0xFE]), (utf8, [0xEF, 0xBB, 0xBF])]

/-- The encoding that zeros among the first bytes tell. -/
def ofZeros : List UInt8 → Encoding
  | a :: b :: c :: d :: _ =>
    if a = 0 then if b = 0 then utf32 true else utf16 true
    else if b = 0 then if c = 0 ∧ d = 0 then utf32 false else utf16 false
    else utf8
  | [a, b] => if a = 0 then utf16 true else if b = 0 then utf16 false else utf8
  | _ => utf8

/-- The encoding of bytes, and the bytes behind the mark if there is one. -/
def detect (bytes : List UInt8) : Encoding × List UInt8 :=
  match marks.find? fun (_, mark) => mark.isPrefixOf bytes with
  | some (encoding, mark) => (encoding, bytes.drop mark.length)
  | none => (ofZeros bytes, bytes)

/-- The number that bytes make up. -/
def unit (bigEndian : Bool) (bytes : List UInt8) : Nat :=
  (if bigEndian then bytes else bytes.reverse).foldl (fun n b => 256 * n + b.toNat) 0

/-- The 16-bit units of bytes. -/
def units16? (bigEndian : Bool) : List UInt8 → Option (List Nat)
  | [] => some []
  | [_] => none
  | a :: b :: rest => (units16? bigEndian rest).map (unit bigEndian [a, b] :: ·)

/-- The 32-bit units of bytes. -/
def units32? (bigEndian : Bool) : List UInt8 → Option (List Nat)
  | [] => some []
  | a :: b :: c :: d :: rest => (units32? bigEndian rest).map (unit bigEndian [a, b, c, d] :: ·)
  | _ => none

/-- The letters of 16-bit units; surrogates in pairs are joined. -/
def joinUnits : List Nat → List Letter
  | [] => []
  | [n] => (Letter.ofCode? n).toList
  | high :: low :: rest =>
    match Letter.ofPair? high low with
    | some l => l :: joinUnits rest
    | none => (Letter.ofCode? high).toList ++ joinUnits (low :: rest)

/-- The text of bytes in an encoding, if they are one. -/
def decode? : Encoding → List UInt8 → Option Text
  | utf8, bytes => (String.fromUTF8? ⟨bytes.toArray⟩).map ofString
  | utf16 bigEndian, bytes => (units16? bigEndian bytes).map fun units => ⟨joinUnits units⟩
  | utf32 bigEndian, bytes => do
    return ⟨← (← units32? bigEndian bytes).mapM Letter.ofCode?⟩

end Encoding

/-- The text of JSON bytes, if they are one. -/
def ofBytes? (bytes : List UInt8) : Option Text :=
  let (encoding, rest) := Encoding.detect bytes
  encoding.decode? rest

end Rulebook.Text
