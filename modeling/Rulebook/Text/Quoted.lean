import Rulebook.Text.Basic
import Rulebook.Text.Printable

/-!
Quoted text, as messages show it. The quote is a single one unless the text holds single quotes and
no double ones; a backslash, the quote itself, every unprintable character and every lone surrogate
are escaped.
-/
namespace Rulebook.Text

/-- The lower-case hexadecimal digits of a number, padded with zeros to a width. -/
def hexDigits (width n : Nat) : List Char :=
  let digits := Nat.toDigits 16 n
  List.replicate (width - digits.length) '0' ++ digits

/-- The escape of a code point: two, four or eight hexadecimal digits, as few as it needs. -/
def escape (code : Nat) : List Char :=
  if code < 0x100 then '\\' :: 'x' :: hexDigits 2 code
  else if code < 0x10000 then '\\' :: 'u' :: hexDigits 4 code
  else '\\' :: 'U' :: hexDigits 8 code

/-- One letter inside quotes. -/
def quoteLetter (quote : Char) : Letter → List Char
  | .char c =>
    if c == quote || c == '\\' then ['\\', c]
    else if c == '\n' then ['\\', 'n']
    else if c == '\r' then ['\\', 'r']
    else if c == '\t' then ['\\', 't']
    else if isPrintable c then [c]
    else escape c.toNat
  | lone => escape lone.code

/-- A text in quotes. -/
def quoted (t : Text) : String :=
  let quote :=
    if t.letters.contains (.char '\'') && !t.letters.contains (.char '"') then '"' else '\''
  String.ofList (quote :: t.letters.flatMap (quoteLetter quote) ++ [quote])

end Rulebook.Text
