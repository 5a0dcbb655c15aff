/-!
Texts. JSON can spell a surrogate that lacks its partner, which no `String` holds; so a text is a
list of letters, each of them a character or a lone surrogate. The strings are the texts without
lone surrogates, and each string is one text.
-/
namespace Rulebook

/-- A letter of a text: a character, or a surrogate without its partner, counted from U+D800. -/
inductive Letter where
  | char (c : Char)
  | surrogate (offset : Fin 0x800)
  deriving DecidableEq, Repr, Inhabited

namespace Letter

/-- The code point of a letter. -/
def code : Letter → Nat
  | char c => c.toNat
  | surrogate offset => 0xD800 + offset

/-- The letter with a code point, if it is one. -/
def ofCode? (n : Nat) : Option Letter :=
  if h : 0xD800 ≤ n ∧ n < 0xE000 then some (surrogate ⟨n - 0xD800, by omega⟩)
  else if n < 0x110000 then some (char (Char.ofNat n))
  else none

/-- The character of two code units, if they are a pair of surrogates. -/
def ofPair? (high low : Nat) : Option Letter :=
  if 0xD800 ≤ high && high < 0xDC00 && 0xDC00 ≤ low && low < 0xE000 then
    some (char (Char.ofNat (0x10000 + (high - 0xD800) * 0x400 + (low - 0xDC00))))
  else none

/-- The character that a letter is, if it is no lone surrogate. -/
def char? : Letter → Option Char
  | char c => some c
  | surrogate _ => none

end Letter

structure Text where
  letters : List Letter
  deriving DecidableEq, Repr, Inhabited

namespace Text

def ofChars (cs : List Char) : Text := ⟨cs.map .char⟩

def ofString (s : String) : Text := ofChars s.toList

instance : Coe String Text := ⟨ofString⟩

instance : Append Text := ⟨fun s t => ⟨s.letters ++ t.letters⟩⟩

/-- Texts are ordered by their code points. -/
instance : LT Text := ⟨fun s t => s.letters.map Letter.code < t.letters.map Letter.code⟩

instance (s t : Text) : Decidable (s < t) :=
  inferInstanceAs (Decidable (s.letters.map Letter.code < t.letters.map Letter.code))

def isEmpty (t : Text) : Bool := t.letters.isEmpty

/-- The number of letters. -/
def length (t : Text) : Nat := t.letters.length

/-- The characters of a text, if none of its letters is a lone surrogate. -/
def chars? (t : Text) : Option (List Char) := t.letters.mapM Letter.char?

/-- The string that a text is, if none of its letters is a lone surrogate. -/
def string? (t : Text) : Option String := t.chars?.map String.ofList

theorem chars?_ofChars (cs : List Char) : (ofChars cs).chars? = some cs := by
  induction cs with
  | nil => rfl
  | cons c rest ih =>
    simp only [chars?, ofChars, List.map_cons, List.mapM_cons, Letter.char?] at ih ⊢
    rw [ih]
    rfl

theorem string?_ofString (s : String) : (ofString s).string? = some s := by
  simp [string?, ofString, chars?_ofChars]

theorem ofChars_of_chars? {t : Text} {cs : List Char} (h : t.chars? = some cs) :
    ofChars cs = t := by
  obtain ⟨letters⟩ := t
  induction letters generalizing cs with
  | nil =>
    cases h
    rfl
  | cons l rest ih =>
    rw [chars?, List.mapM_cons] at h
    cases l with
    | surrogate offset => cases h
    | char c =>
      cases hrest : rest.mapM Letter.char? with
      | none =>
        rw [hrest] at h
        cases h
      | some ds =>
        rw [hrest] at h
        cases h
        exact congrArg (fun t : Text => Text.mk (.char c :: t.letters)) (ih hrest)

theorem ofString_of_string? {t : Text} {s : String} (h : t.string? = some s) :
    ofString s = t := by
  obtain ⟨cs, hcs, rfl⟩ := Option.map_eq_some_iff.mp h
  rw [ofString, String.toList_ofList]
  exact ofChars_of_chars? hcs

end Text

end Rulebook
