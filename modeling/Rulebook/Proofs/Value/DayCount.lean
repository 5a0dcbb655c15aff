import Mathlib
import Rulebook.Failure
import Rulebook.Proofs.Condition.NumericText
import Rulebook.Proofs.Number.WholePart
import Rulebook.Proofs.Value.Width

/-!
Counts of days. `GivesDays` says which count a value gives: blank gives none, a number its whole
part, and a text the whole part of the number that it denotes. Values are read as the counts that
they give (`toDays?_eq_ok`), and only an integer that is too wide cannot be read (`toDays?_fails`).
An integer of at most 53 bits gives itself, and so does its decimal text (`Spells.givesDays`); a
wider one is read as one that is at least as wide (`Spells.toDays?`).
-/
namespace Rulebook

/-! ## Texts -/

/-- A text, without the blanks at its two ends, is a numeral that may have underscores between its
digits. -/
def Text.Counts (t : Text) (q : ℚ) : Prop :=
  ∃ cs, t.chars?.map (Text.trim Text.isNumberBlank) = some cs ∧
    Double.underscoresBetweenDigits false cs = true ∧ Numeral.Denotes (cs.filter (· != '_')) q

namespace Numeral

theorem toLower_of_digit {c : Char} {d : ℕ} (h : Text.decimalDigit? c = some d) :
    c.toLower = c := by
  have hcapitals : ∀ first ∈ Text.digitZeros, ¬ (first ≤ 90 ∧ 65 < first + 10) := by decide
  obtain ⟨first, hfirst, -⟩ := Option.map_eq_some_iff.mp h
  have hrange := List.find?_some hfirst
  have hapart := hcapitals first (List.mem_of_find?_eq_some hfirst)
  simp only [Bool.and_eq_true, decide_eq_true_eq] at hrange
  rw [Char.toLower]
  split
  · next hcapital =>
    have hlow : 65 ≤ c.toNat := UInt32.le_iff_toNat_le.mp hcapital.1
    have hhigh : c.toNat ≤ 90 := UInt32.le_iff_toNat_le.mp hcapital.2
    omega
  · rfl

/-- A significand keeps its first character in lower case, a digit or the point. -/
theorem SignificandText.toLower_head {cs : List Char} {ws ps : List ℕ}
    (h : SignificandText cs ws ps) (es : List Char) :
    ∃ c rest, (cs ++ es).map Char.toLower = c :: rest ∧
      (c = '.' ∨ ∃ d, Text.decimalDigit? c = some d) := by
  obtain ⟨c, rest, hcs, hc⟩ := h.head es
  have hsame : c.toLower = c := by
    rcases hc with rfl | ⟨d, hd⟩
    · decide
    · exact toLower_of_digit hd
  exact ⟨c, rest.map Char.toLower, by rw [hcs, List.map_cons, hsame], hc⟩

end Numeral

namespace Double

theorem underscoresBetweenDigits_of_none {cs : List Char} (h : ∀ c ∈ cs, c ≠ '_')
    (afterDigit : Bool) : underscoresBetweenDigits afterDigit cs = true := by
  induction cs generalizing afterDigit with
  | nil => rfl
  | cons c rest ih =>
    obtain ⟨hc, hrest⟩ := List.forall_mem_cons.mp h
    rw [underscoresBetweenDigits]
    · exact ih hrest _
    · exact fun hunderscore => hc hunderscore

/-- No numeral is a name that starts with a letter. -/
theorem not_name {cs es : List Char} {ws ps : List ℕ} (h : Numeral.SignificandText cs ws ps)
    {name : String} {letter : Char} {letters : List Char} (hname : name.toList = letter :: letters)
    (hpoint : letter ≠ '.') (hdigit : Text.decimalDigit? letter = none) :
    (String.ofList ((cs ++ es).map Char.toLower) == name) = false := by
  obtain ⟨c, rest, hcs, hc⟩ := h.toLower_head es
  rw [hcs, beq_eq_false_iff_ne]
  rintro rfl
  rw [String.toList_ofList] at hname
  obtain ⟨rfl, -⟩ := List.cons.inj hname
  rcases hc with hc | ⟨d, hd⟩
  · exact hpoint hc
  · rw [hdigit] at hd
    cases hd

/-- A numeral is read as the double nearest to what it denotes. -/
theorem ofSpacedChars?_of_denotes {cs : List Char} {q : ℚ}
    (hspaced : underscoresBetweenDigits false (Text.trim Text.isNumberBlank cs) = true)
    (hq : Numeral.Denotes ((Text.trim Text.isNumberBlank cs).filter (· != '_')) q) :
    ∃ x, ofSpacedChars? cs = some x ∧ Nearest q x := by
  rw [ofSpacedChars?]
  dsimp only
  rw [if_pos hspaced]
  generalize (Text.trim Text.isNumberBlank cs).filter (· != '_') = kept at hq
  cases hq with
  | @mk sign cs es negative ws ps e hsign hcs hes =>
    have hread := Numeral.unsignedOfChars?_of_text hcs hes negative
    have hvalue := toRat_eq ⟨negative, Numeral.digitsValue (ws ++ ps), e - ps.length⟩
    have hi : Text.decimalDigit? 'i' = none := by decide
    have hn : Text.decimalDigit? 'n' = none := by decide
    have hinf : "inf".toList = 'i' :: "nf".toList := by decide
    have hinfinity : "infinity".toList = 'i' :: "nfinity".toList := by decide
    have hnan : "nan".toList = 'n' :: "an".toList := by decide
    rw [Numeral.takeSign_append hsign hcs.noSign]
    simp only [not_name hcs hinf (by decide) hi, not_name hcs hinfinity (by decide) hi,
      not_name hcs hnan (by decide) hn, Bool.or_self, hread]
    rw [if_neg Bool.false_ne_true, if_neg Bool.false_ne_true, ← hvalue]
    exact ⟨_, rfl, ofNumeral_nearest _⟩

/-- What is read and has a whole part is a numeral. -/
theorem denotes_of_ofSpacedChars? {cs : List Char} {x : Double} {n : ℤ}
    (h : ofSpacedChars? cs = some x) (hn : x.truncate? = some n) :
    underscoresBetweenDigits false (Text.trim Text.isNumberBlank cs) = true ∧
      ∃ q, Numeral.Denotes ((Text.trim Text.isNumberBlank cs).filter (· != '_')) q ∧
        Nearest q x := by
  rw [ofSpacedChars?] at h
  dsimp only at h
  split at h
  · next hspaced =>
    refine ⟨hspaced, ?_⟩
    generalize (Text.trim Text.isNumberBlank cs).filter (· != '_') = kept at h
    obtain ⟨sign, hsign, hsplit⟩ := Numeral.takeSign_spec kept
    generalize Numeral.takeSign kept = signed at hsign hsplit h
    obtain ⟨negative, rest⟩ := signed
    dsimp only at hsign hsplit h
    split at h
    · cases h
      cases hn
    · split at h
      · cases h
        cases hn
      · obtain ⟨numeral, hnumeral, rfl⟩ := Option.map_eq_some_iff.mp h
        obtain ⟨front, es, ws, ps, e, rfl, hfront, hes, rfl⟩ :=
          Numeral.text_of_unsignedOfChars? hnumeral
        rw [hsplit]
        refine ⟨_, .mk hsign hfront hes, ?_⟩
        rw [← toRat_eq ⟨negative, Numeral.digitsValue (ws ++ ps), e - ps.length⟩]
        exact ofNumeral_nearest _
  · cases h

end Double

/-! ## Values -/

namespace Value

open Double (Nearest)

/-- A value gives a count of days. -/
inductive GivesDays : Value → ℤ → Prop
  | null : GivesDays .null 0
  | bool (b : Bool) : GivesDays (.bool b) (if b then 1 else 0)
  | blank : GivesDays (.text ⟨[]⟩) 0
  | number {v : Value} {x : Double} {n : ℤ} (hv : v.toDouble? = some (.ok x))
      (hn : x.truncate? = some n) : GivesDays v n
  | numeral {t : Text} {q : ℚ} {x : Double} {n : ℤ} (ht : t.Counts q) (hx : Nearest q x)
      (hn : x.truncate? = some n) : GivesDays (.text t) n

variable {v : Value} {t : Text} {n k : ℤ}

theorem toDays?_text (hne : t.isEmpty = false) :
    (text t).toDays? = .ok ((t.chars?.bind Double.ofSpacedChars?).bind Double.truncate?) := by
  rw [toDays?, isEmptyText, hne]
  · rfl
  · exact fun h => nomatch h
  · exact fun h => nomatch h

theorem not_isEmpty_of_counts {q : ℚ} (h : t.Counts q) : t.isEmpty = false := by
  rw [← Bool.not_eq_true]
  intro hempty
  obtain ⟨letters⟩ := t
  obtain rfl := List.isEmpty_iff.mp hempty
  obtain ⟨cs, hcs, -, hq⟩ := h
  cases hcs
  exact hq.ne_nil rfl

/-- A text is read as the whole part of what it denotes. -/
theorem toDays?_of_counts {q : ℚ} (h : t.Counts q) :
    ∃ x, Nearest q x ∧ (text t).toDays? = .ok x.truncate? := by
  have hne := not_isEmpty_of_counts h
  obtain ⟨_, hkept, hspaced, hq⟩ := h
  obtain ⟨cs, hcs, rfl⟩ := Option.map_eq_some_iff.mp hkept
  obtain ⟨x, hread, hx⟩ := Double.ofSpacedChars?_of_denotes hspaced hq
  refine ⟨x, hx, ?_⟩
  rw [toDays?_text hne, hcs, Option.bind_some, hread, Option.bind_some]

/-- A text that is read, unless it is empty, denotes a number. -/
theorem counts_of_toDays? (hne : t.isEmpty = false) (h : (text t).toDays? = .ok (some n)) :
    ∃ q x, t.Counts q ∧ Nearest q x ∧ x.truncate? = some n := by
  rw [toDays?_text hne, Except.ok.injEq, Option.bind_eq_some_iff] at h
  obtain ⟨x, hx, hn⟩ := h
  obtain ⟨cs, hcs, hread⟩ := Option.bind_eq_some_iff.mp hx
  obtain ⟨hspaced, q, hq, hnear⟩ := Double.denotes_of_ofSpacedChars? hread hn
  exact ⟨q, x, ⟨_, Option.map_eq_some_iff.mpr ⟨cs, hcs, rfl⟩, hspaced, hq⟩, hnear, hn⟩

/-- A number is read as its whole part. -/
theorem toDays?_number {r : Except Fault Double} (h : v.toDouble? = some r) :
    v.toDays? = r.map Double.truncate? := by
  have hread : ∀ r : Except Fault Double,
      (do return (← r.map some).bind Double.truncate?) = r.map Double.truncate? := by
    intro r
    cases r <;> rfl
  cases v with
  | int i =>
    cases h
    exact hread _
  | float x =>
    cases h
    rfl
  | decimal d =>
    cases h
    rfl
  | _ => cases h

theorem toDays?_true : (bool true).toDays? = .ok (some 1) := by
  have hone : Double.unitsPerOne / Double.unitsPerOne = 1 := Nat.div_self (by decide +kernel)
  change Except.ok (some (((Double.unitsPerOne / Double.unitsPerOne : ℕ) : ℤ))) = _
  rw [hone]
  rfl

/-- A value is read as the count of days that it gives. -/
theorem toDays?_eq_ok : v.toDays? = .ok (some n) ↔ v.GivesDays n := by
  constructor
  · intro h
    cases hv : v.toDouble? with
    | some r =>
      rw [toDays?_number hv] at h
      obtain ⟨x, rfl, hn⟩ := Except.map_eq_ok.mp h
      exact .number hv hn
    | none =>
      cases v with
      | null =>
        cases h
        exact .null
      | bool b =>
        cases b with
        | false =>
          cases h
          exact .bool false
        | true =>
          cases toDays?_true.symm.trans h
          exact .bool true
      | text t =>
        cases hempty : t.isEmpty with
        | true =>
          obtain ⟨letters⟩ := t
          obtain rfl := List.isEmpty_iff.mp hempty
          cases h
          exact .blank
        | false =>
          obtain ⟨q, x, hq, hx, hn⟩ := counts_of_toDays? hempty h
          exact .numeral hq hx hn
      | int i => cases hv
      | float x => cases hv
      | decimal d => cases hv
      | _ => cases h
  · intro h
    cases h with
    | null => rfl
    | bool b =>
      cases b with
      | false => rfl
      | true => exact toDays?_true
    | blank => rfl
    | number hv hn =>
      rw [toDays?_number hv]
      exact congrArg Except.ok hn
    | numeral ht hx hn =>
      obtain ⟨y, hy, hread⟩ := toDays?_of_counts ht
      rw [hread, hy.truncate?_eq hx, hn]

/-- Only an integer that has no nearest double cannot be read. -/
theorem toDays?_fails : Except.Fails v.toDays? ↔ v.TooWide := by
  cases hv : v.toDouble? with
  | some r =>
    rw [toDays?_number hv, ← toDouble?_fails hv]
    exact Except.map_fails
  | none =>
    have hnarrow : ¬ v.TooWide := by
      rintro ⟨i, rfl, -⟩
      cases hv
    have hreads : ∃ c, v.toDays? = .ok c := by
      cases v with
      | bool b => cases b <;> exact ⟨_, rfl⟩
      | text t =>
        cases hempty : t.isEmpty with
        | true => exact ⟨some 0, by simp [toDays?, isEmptyText, hempty]⟩
        | false => exact ⟨_, toDays?_text hempty⟩
      | int i => cases hv
      | float x => cases hv
      | decimal d => cases hv
      | _ => exact ⟨_, rfl⟩
    exact iff_of_false (Except.not_fails.mpr hreads) hnarrow

theorem kind_of_toDays? {f : Fault} (h : v.toDays? = .error f) : f.kind = .outOfRange := by
  obtain ⟨i, rfl, -⟩ := toDays?_fails.mp ⟨f, h⟩
  cases hi : Double.ofInt? i with
  | none =>
    have hread : (int i).toDouble? = some (.error .beyondDouble) := by rw [toDouble?, hi]
    rw [toDays?_number hread] at h
    cases h
    rfl
  | some x =>
    have hread : (int i).toDouble? = some (.ok x) := by rw [toDouble?, hi]
    rw [toDays?_number hread] at h
    cases h

/-! ## Integers -/

/-- An integer, or its decimal text. -/
def Spells (v : Value) (n : ℤ) : Prop := v = int n ∨ v = text (toString n)

theorem counts_toString (n : ℤ) : Text.Counts (toString n) n := by
  have hplain : ∀ c ∈ (toString n).toList, Text.isNumberBlank c = false ∧ c ≠ '_' := by
    intro c hc
    rcases Numeral.mem_toString hc with rfl | rfl | hdigit
    · decide
    · decide
    · refine ⟨?_, ?_⟩
      · rw [Text.isNumberBlank, Text.isBlank_of_isDigit hdigit, Bool.false_and]
      · rintro rfl
        exact absurd hdigit (by decide)
  have hkept : (toString n).toList.filter (· != '_') = (toString n).toList :=
    List.filter_eq_self.mpr fun c hc => by simpa using (hplain c hc).2
  refine ⟨(toString n).toList, ?_, Double.underscoresBetweenDigits_of_none
    (fun c hc => (hplain c hc).2) false, ?_⟩
  · rw [Text.ofString, Text.chars?_ofChars, Option.map_some,
      Text.trim_eq_self fun c hc => (hplain c hc).1]
  · rw [hkept]
    exact Numeral.denotes_toString n

/-- An integer is read as itself, unless it has more than 53 bits; then so has what it is read
as. -/
theorem Spells.toDays? {x : Double} (hv : v.Spells n) (hn : Double.ofInt? n = some x) :
    ∃ k, v.toDays? = .ok (some k) ∧
      (k = n ∨ 2 ^ Double.precision ≤ n.natAbs ∧ 2 ^ Double.precision ≤ k.natAbs) := by
  have hx := Double.ofInt?_nearest hn
  have hread : v.toDays? = .ok x.truncate? := by
    rcases hv with rfl | rfl
    · have hdouble : (int n).toDouble? = some (.ok x) := by simp only [toDouble?, hn]
      rw [toDays?_number hdouble]
      rfl
    · obtain ⟨y, hy, hread⟩ := toDays?_of_counts (counts_toString n)
      rw [hread, hy.truncate?_eq hx]
  obtain ⟨k, hk⟩ := Double.exists_truncate? hn
  refine ⟨k, by rw [hread, hk], ?_⟩
  rcases Nat.le_total n.natAbs (2 ^ Double.precision) with hle | hge
  · rw [Double.truncate?_of_natAbs_le hx hle, Option.some.injEq] at hk
    exact .inl hk.symm
  · exact .inr ⟨hge, Double.le_natAbs_of_truncate? hx hge hk⟩

/-- An integer of fewer bits gives itself. -/
theorem Spells.givesDays (hv : v.Spells n) (hn : n.natAbs < 2 ^ Double.precision) :
    v.GivesDays n := by
  obtain ⟨k, hk, rfl | ⟨hge, -⟩⟩ := hv.toDays? (Double.ofInt?_of_natAbs_le hn.le)
  · exact toDays?_eq_ok.mp hk
  · exact absurd hn (Nat.not_lt_of_le hge)

end Value

end Rulebook
