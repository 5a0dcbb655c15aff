import Mathlib
import Rulebook.Proofs.Condition.Comparison
import Rulebook.Proofs.Number.Double
import Rulebook.Proofs.Number.Numeral

/-!
Texts in comparisons of numbers. A text counts as the double nearest to the rational number that it
denotes, whichever of its spellings it is: blank text is zero, an infinity may be spelt out, and
what is outside the grammar of numerals is NaN (`numeric_text_by_value`). So texts of one number
compare alike, and the decimal text of an integer compares as the integer does.
-/
namespace Rulebook

open Numeral (Denotes SignText)

/-- The characters of a text without the blanks at its two ends, if none of its letters is a lone
surrogate. -/
def Text.stripped? (t : Text) : Option (List Char) := t.chars?.map (Text.trim Text.isBlank)

/-- The spellings of an infinity: its name behind an optional sign. -/
def Numeral.Infinity (negative : Bool) (cs : List Char) : Prop :=
  ∃ sign, SignText sign negative ∧ cs = sign ++ "Infinity".toList

theorem Numeral.infinity_letters : "Infinity".toList = 'I' :: "nfinity".toList := by decide

theorem Numeral.Infinity.ne_nil {negative : Bool} {cs : List Char}
    (h : Numeral.Infinity negative cs) : cs ≠ [] := by
  obtain ⟨sign, -, rfl⟩ := h
  rw [Numeral.infinity_letters]
  simp

/-! ## Reading numeric text -/

namespace Double

theorem ofNumericChars_infinity {negative : Bool} {cs : List Char}
    (h : Numeral.Infinity negative cs) : ofNumericChars cs = .infinite negative := by
  obtain ⟨sign, hsign, rfl⟩ := h
  have hname : Numeral.NoSign "Infinity".toList := by
    rw [Numeral.infinity_letters]
    intro c hc
    cases hc
    decide
  rw [ofNumericChars, Numeral.takeSign_append hsign hname]
  simp

/-- No significand starts like the name of infinity. -/
theorem not_infinity {cs es : List Char} {ws ps : List ℕ}
    (h : Numeral.SignificandText cs ws ps) : cs ++ es ≠ "Infinity".toList := by
  have hletter : Text.decimalDigit? 'I' = none := by decide
  obtain ⟨c, rest, hcs, hc⟩ := h.head es
  rw [Numeral.infinity_letters, hcs]
  rintro ⟨⟩
  rcases hc with hpoint | ⟨d, hd⟩
  · exact absurd hpoint (by decide)
  · cases hletter.symm.trans hd

/-- A numeral counts as the double nearest to what it denotes. -/
theorem ofNumericChars_denotes {cs : List Char} {q : ℚ} (h : Denotes cs q) :
    Nearest q (ofNumericChars cs) := by
  cases h with
  | @mk sign cs es negative ws ps e hsign hcs hes =>
    have hread := Numeral.unsignedOfChars?_of_text hcs hes negative
    have hvalue := toRat_eq ⟨negative, Numeral.digitsValue (ws ++ ps), e - ps.length⟩
    rw [ofNumericChars, Numeral.takeSign_append hsign hcs.noSign]
    simp only [beq_eq_false_iff_ne.mpr (not_infinity hcs), hread]
    rw [if_neg Bool.false_ne_true, ← hvalue]
    exact ofNumeral_nearest _

/-- What is neither a numeral nor an infinity counts as NaN. -/
theorem ofNumericChars_nan {cs : List Char} (hnumeral : ∀ q, ¬ Denotes cs q)
    (hinfinity : ∀ negative, ¬ Numeral.Infinity negative cs) : ofNumericChars cs = .nan := by
  obtain ⟨sign, hsign, hsplit⟩ := Numeral.takeSign_spec cs
  rw [ofNumericChars]
  generalize Numeral.takeSign cs = signed at hsign hsplit ⊢
  obtain ⟨negative, rest⟩ := signed
  dsimp only at hsign hsplit ⊢
  split
  · next hname =>
    rw [eq_of_beq hname] at hsplit
    exact absurd ⟨sign, hsign, hsplit⟩ (hinfinity negative)
  · split
    · next n hn =>
      obtain ⟨front, es, ws, ps, e, rfl, hfront, hes, -⟩ := Numeral.text_of_unsignedOfChars? hn
      rw [hsplit] at hnumeral
      exact absurd (.mk hsign hfront hes) (hnumeral _)
    · rfl

end Double

namespace Value

theorem textToNumber_of_stripped {t : Text} {cs : List Char} (h : t.stripped? = some cs)
    (hne : cs ≠ []) : textToNumber t = .ofNumericChars cs := by
  rw [Text.stripped?] at h
  rw [textToNumber, h]
  cases cs with
  | nil => exact absurd rfl hne
  | cons c rest => rfl

theorem textToNumber_blank {t : Text} (h : t.stripped? = some []) : textToNumber t = .zero := by
  rw [Text.stripped?] at h
  rw [textToNumber, h]

theorem textToNumber_lone {t : Text} (h : t.stripped? = none) : textToNumber t = .nan := by
  rw [Text.stripped?] at h
  rw [textToNumber, h]

end Value

/-! ## Decimal texts -/

namespace Text

theorem trim_eq_self {blank : Char → Bool} {cs : List Char} (h : ∀ c ∈ cs, blank c = false) :
    trim blank cs = cs := by
  have hkeep : ∀ ds : List Char, (∀ c ∈ ds, blank c = false) → ds.dropWhile blank = ds := by
    intro ds hds
    cases ds with
    | nil => rfl
    | cons c rest => exact List.dropWhile_cons_of_neg (by simp [hds c])
  rw [trim, hkeep cs h, hkeep cs.reverse fun c hc => h c (List.mem_reverse.mp hc),
    List.reverse_reverse]

theorem isBlank_of_isDigit {c : Char} (h : c.isDigit) : isBlank c = false := by
  obtain ⟨hlow, hhigh⟩ : 48 ≤ c.toNat ∧ c.toNat ≤ 57 := Char.isDigit_iff_toNat.mp h
  rw [isBlank]
  simp only [Bool.or_eq_false_iff, Bool.and_eq_false_iff, decide_eq_false_iff_not,
    beq_eq_false_iff_ne]
  omega

theorem stripped?_toString (n : ℤ) :
    (ofString (toString n)).stripped? = some (toString n).toList := by
  rw [stripped?, ofString, chars?_ofChars, Option.map_some, trim_eq_self]
  intro c hc
  rcases Numeral.mem_toString hc with rfl | rfl | hdigit
  · decide
  · decide
  · exact isBlank_of_isDigit hdigit

end Text

/-- A text counts as the double nearest to what it denotes, whichever of its spellings it is. -/
theorem numeric_text_by_value :
    (∀ t : Text, ∃ x, Value.toNumber (some (.text t)) = .ok x ∧
      (t.stripped? = some [] → x = .zero) ∧
      (∀ cs negative, t.stripped? = some cs → Numeral.Infinity negative cs →
        x = .infinite negative) ∧
      (∀ cs q, t.stripped? = some cs → Denotes cs q → Double.Nearest q x) ∧
      ((∀ cs, t.stripped? = some cs → cs ≠ [] ∧ (∀ negative, ¬ Numeral.Infinity negative cs) ∧
        ∀ q, ¬ Denotes cs q) → x = .nan)) ∧
    (∀ (t u : Text) cs ds q, t.stripped? = some cs → u.stripped? = some ds → Denotes cs q →
      Denotes ds q → (Value.text t).CompareAlike (.text u)) ∧
    ∀ n x, Double.ofInt? n = some x → (Value.text (toString n)).CompareAlike (.int n) := by
  have hnearest : ∀ (t : Text) cs q, t.stripped? = some cs → Denotes cs q →
      Double.Nearest q (Value.textToNumber t) := by
    intro t cs q ht hq
    rw [Value.textToNumber_of_stripped ht hq.ne_nil]
    exact Double.ofNumericChars_denotes hq
  refine ⟨fun t => ⟨Value.textToNumber t, rfl, ?_, ?_, ?_, ?_⟩, ?_, ?_⟩
  · exact Value.textToNumber_blank
  · intro cs negative ht hinfinity
    rw [Value.textToNumber_of_stripped ht hinfinity.ne_nil]
    exact Double.ofNumericChars_infinity hinfinity
  · exact hnearest t
  · intro hout
    cases ht : t.stripped? with
    | none => exact Value.textToNumber_lone ht
    | some cs =>
      obtain ⟨hne, hinfinity, hnumeral⟩ := hout cs ht
      rw [Value.textToNumber_of_stripped ht hne]
      exact Double.ofNumericChars_nan hnumeral hinfinity
  · intro t u cs ds q ht hu hcs hds
    have hvalue := (hnearest t cs q ht hcs).value?_eq (hnearest u ds q hu hds)
    exact Value.compareAlike_of_value?_eq rfl rfl hvalue
  · intro n x hx
    -- The text and the integer are converted to doubles nearest to one rational number.
    have htext := hnearest (toString n) _ n (Text.stripped?_toString n) (Numeral.denotes_toString n)
    have hint : Value.toNumber (some (.int n)) = .ok x :=
      Operator.toNumber_of_toDouble? (by simp only [Value.toDouble?, hx])
    exact Value.compareAlike_of_value?_eq rfl hint (htext.value?_eq (Double.ofInt?_nearest hx))

theorem numeric_text_by_value_fifteen :
    (Value.text " +1.50e1").CompareAlike (.text "٠١٥") ∧
      (Value.text "15").CompareAlike (.int 15) := by
  have hpointed : Numeral.SignificandText (['1'] ++ '.' :: ['5', '0']) [1] [5, 0] :=
    .pointed (.cons (by decide) .nil) (by simp) (.cons (by decide) (.cons (by decide) .nil))
  have hexponent : Numeral.ExponentText ('e' :: ([] ++ ['1']))
      (if false then -(Numeral.digitsValue [1] : ℤ) else Numeral.digitsValue [1]) :=
    .some (.inl rfl) .none (.cons (by decide) .nil) (by simp)
  have harabic : Numeral.SignificandText ['٠', '١', '٥'] [0, 1, 5] [] :=
    .whole (.cons (by decide) (.cons (by decide) (.cons (by decide) .nil))) (by simp)
  have hleft : Denotes ['+', '1', '.', '5', '0', 'e', '1'] 15 := by
    have h := Denotes.mk .plus hpointed hexponent
    norm_num [Numeral.digitsValue, Nat.ofDigits] at h
    exact h
  have hright : Denotes ['٠', '١', '٥'] 15 := by
    have h := Denotes.mk .none harabic .none
    norm_num [Numeral.digitsValue, Nat.ofDigits] at h
    exact h
  constructor
  · exact numeric_text_by_value.2.1 " +1.50e1" "٠١٥" _ _ 15 (by decide) (by decide) hleft hright
  · exact numeric_text_by_value.2.2 15 _ (Double.ofInt?_of_natAbs_le (by decide))

end Rulebook
