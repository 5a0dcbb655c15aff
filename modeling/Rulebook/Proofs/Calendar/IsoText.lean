import Mathlib
import Rulebook.Calendar.IsoText
import Rulebook.Proofs.Calendar.Civil
import Rulebook.Text.Basic

/-!
The ISO text of a date. Numbers in a fixed number of digits are read back (`Spells.takeNumber?`) and
ordered as their digits are (`Spells.lt`). So a date is read back from its text
(`ofIsoText?_toIsoText`), and a later date has a text that comes later (`toIsoText_lt`).
-/
namespace Rulebook.Date

/-! ## Fixed digits -/

/-- So many digits, the most significant one being the first, that spell a number. -/
structure Spells (width n : Nat) (cs : List Char) : Prop where
  length_eq : cs.length = width
  isDigit : ∀ c ∈ cs, c.isDigit = true
  value_eq : Nat.ofDigitChars 10 cs 0 = n

variable {width m n : Nat} {cs ds xs ys : List Char}

/-- A first digit counts as many powers of ten as digits follow it. -/
theorem ofDigitChars_cons (c : Char) (cs : List Char) :
    Nat.ofDigitChars 10 (c :: cs) 0 =
      10 ^ cs.length * (c.toNat - '0'.toNat) + Nat.ofDigitChars 10 cs 0 := by
  rw [Nat.ofDigitChars_cons, Nat.mul_zero, Nat.zero_add, Nat.ofDigitChars_eq_ofDigitChars_zero]

theorem spells_cons {c : Char} :
    Spells (width + 1) n (c :: cs) ↔
      c.isDigit = true ∧ ∃ k, Spells width k cs ∧ n = 10 ^ width * (c.toNat - '0'.toNat) + k := by
  constructor
  · rintro ⟨hlength, hdigit, hvalue⟩
    obtain ⟨hc, hcs⟩ := List.forall_mem_cons.mp hdigit
    have hwidth : cs.length = width := Nat.succ.inj hlength
    rw [ofDigitChars_cons, hwidth] at hvalue
    exact ⟨hc, _, ⟨hwidth, hcs, rfl⟩, hvalue.symm⟩
  · rintro ⟨hc, k, ⟨hlength, hcs, hvalue⟩, rfl⟩
    refine ⟨congrArg Nat.succ hlength, List.forall_mem_cons.mpr ⟨hc, hcs⟩, ?_⟩
    rw [ofDigitChars_cons, hlength, hvalue]

theorem Spells.value_lt (h : Spells width n cs) : n < 10 ^ width := by
  induction width generalizing n cs with
  | zero =>
    obtain ⟨hlength, -, hvalue⟩ := h
    rw [List.length_eq_zero_iff.mp hlength, Nat.ofDigitChars_nil] at hvalue
    rw [← hvalue]
    exact Nat.one_pos
  | succ width ih =>
    cases cs with
    | nil => cases h.length_eq
    | cons c cs =>
      obtain ⟨hc, k, hk, rfl⟩ := spells_cons.mp h
      have hrest := ih hk
      obtain ⟨-, hnine⟩ := Char.isDigit_iff_toNat.mp hc
      have hdigit : c.toNat - '0'.toNat ≤ 9 := Nat.sub_le_sub_right hnine '0'.toNat
      have hscaled := Nat.mul_le_mul_left (10 ^ width) hdigit
      rw [Nat.pow_succ]
      omega

/-- Digits are read back, whatever follows them. -/
theorem Spells.takeNumber? (h : Spells width n cs) (rest : List Char) :
    takeNumber? width (cs ++ rest) = some (n, rest) := by
  induction width generalizing n cs with
  | zero =>
    obtain ⟨hlength, -, hvalue⟩ := h
    rw [List.length_eq_zero_iff.mp hlength] at hvalue ⊢
    rw [← hvalue]
    rfl
  | succ width ih =>
    cases cs with
    | nil => cases h.length_eq
    | cons c cs =>
      obtain ⟨hc, k, hk, rfl⟩ := spells_cons.mp h
      have hrange : ('0' ≤ c && c ≤ '9') = true := by
        simpa [Char.isDigit, Char.le_def] using hc
      rw [List.cons_append, Date.takeNumber?, if_pos hrange, ih hk, Nat.mul_comm]
      rfl

/-- Of two numbers in equally many digits, the smaller one has the smaller digits. -/
theorem Spells.lt (hm : Spells width m cs) (hn : Spells width n ds) (h : m < n) : cs < ds := by
  induction width generalizing m n cs ds with
  | zero =>
    have hmBound := hm.value_lt
    have hnBound := hn.value_lt
    omega
  | succ width ih =>
    cases cs with
    | nil => cases hm.length_eq
    | cons c cs =>
      cases ds with
      | nil => cases hn.length_eq
      | cons d ds =>
        obtain ⟨hc, j, hj, rfl⟩ := spells_cons.mp hm
        obtain ⟨hd, k, hk, rfl⟩ := spells_cons.mp hn
        obtain ⟨hcZero, -⟩ := Char.isDigit_iff_toNat.mp hc
        obtain ⟨hdZero, -⟩ := Char.isDigit_iff_toNat.mp hd
        rw [List.cons_lt_cons_iff]
        rcases Nat.lt_trichotomy c.toNat d.toNat with hlt | heq | hgt
        · exact .inl hlt
        · have hsame : c = d := Char.toNat_inj.mp heq
          subst hsame
          exact .inr ⟨rfl, ih hj hk (Nat.lt_of_add_lt_add_left h)⟩
        · -- A larger first digit outweighs all digits that follow.
          have hstep : d.toNat - '0'.toNat + 1 ≤ c.toNat - '0'.toNat := by omega
          have hscaled := Nat.mul_le_mul_left (10 ^ width) hstep
          have hrest := hk.value_lt
          rw [Nat.mul_succ] at hscaled
          omega

theorem append_lt_append (hlength : cs.length = ds.length) (h : cs < ds) : cs ++ xs < ds ++ ys := by
  induction cs generalizing ds with
  | nil =>
    rw [List.length_nil, eq_comm, List.length_eq_zero_iff] at hlength
    rw [hlength] at h
    cases h
  | cons c cs ih =>
    cases ds with
    | nil => cases hlength
    | cons d ds =>
      rw [List.cons_append, List.cons_append, List.cons_lt_cons_iff]
      rw [List.cons_lt_cons_iff] at h
      exact h.imp_right fun ⟨heq, hlt⟩ => ⟨heq, ih (Nat.succ.inj hlength) hlt⟩

/-- A number is spelt by its digits behind as many zeros as there is room for. -/
theorem spells_fixedDigits (hwidth : 0 < width) (hn : n < 10 ^ width) :
    Spells width n (fixedDigits width n) := by
  have hfit : (Nat.toDigits 10 n).length ≤ width :=
    (Nat.length_toDigits_le_iff (by decide) hwidth).mpr hn
  unfold fixedDigits
  refine ⟨?_, fun c hc => ?_, ?_⟩
  · rw [List.length_append, List.length_replicate, Nat.sub_add_cancel hfit]
  · rcases List.mem_append.mp hc with hzero | hdigit
    · rw [List.eq_of_mem_replicate hzero]
      rfl
    · exact Nat.isDigit_of_mem_toDigits (by decide) (by decide) hdigit
  · rw [Nat.ofDigitChars_append, Nat.ofDigitChars_replicate_zero, Nat.mul_zero,
      Nat.ofDigitChars_ten_toDigits]

/-! ## Dates -/

theorem spells_year (d : Date) : Spells 4 d.year (fixedDigits 4 d.year) :=
  spells_fixedDigits (by decide) (Nat.lt_succ_of_le d.year_bounds.2)

theorem spells_month (d : Date) : Spells 2 d.month (fixedDigits 2 d.month) := by
  have hle := d.month_bounds.2
  exact spells_fixedDigits (by decide) (by omega)

theorem spells_dayOfMonth (d : Date) : Spells 2 d.dayOfMonth (fixedDigits 2 d.dayOfMonth) := by
  have hle := d.dayOfMonth_bounds.2
  exact spells_fixedDigits (by decide) (by omega)

theorem Spells.utf8Len (h : Spells width n cs) : String.utf8Len cs = width := by
  rw [← h.length_eq]
  have hdigit := h.isDigit
  clear h
  induction cs with
  | nil => rfl
  | cons c cs ih =>
    obtain ⟨hc, hcs⟩ := List.forall_mem_cons.mp hdigit
    have hone : c.utf8Size = 1 := by
      obtain ⟨-, hnine⟩ := Char.isDigit_iff_toNat.mp hc
      rw [Char.utf8Size_eq_one_iff]
      exact Nat.le_trans hnine (by decide)
    rw [String.utf8Len_cons, ih hcs, hone, List.length_cons]

/-- The ISO text of a date has ten bytes. -/
theorem utf8ByteSize_toIsoText (d : Date) : d.toIsoText.utf8ByteSize = 10 := by
  rw [toIsoText, String.utf8ByteSize_ofList, String.utf8Len_append, String.utf8Len_cons,
    String.utf8Len_append, String.utf8Len_cons, d.spells_year.utf8Len, d.spells_month.utf8Len,
    d.spells_dayOfMonth.utf8Len]
  rfl

/-- What follows the year and its dash is a month, which does not start like a week. -/
theorem ofIsoChars?_year {year : Nat} {c : Char} {rest : List Char} (hyear : Spells 4 year cs)
    (hc : c.isDigit = true) :
    ofIsoChars? (cs ++ '-' :: c :: rest) = civilOfChars? year true (c :: rest) := by
  have hweek : c ≠ 'W' := by
    rintro rfl
    exact absurd hc (by decide)
  rw [ofIsoChars?, hyear.takeNumber?]
  simp only [Option.bind_eq_bind, Option.bind_some]
  split
  · next heq => exact absurd (List.cons.inj heq).1 hweek
  · rfl

theorem civilOfChars?_eq {year month day : Nat} (hmonth : Spells 2 month cs)
    (hday : Spells 2 day ds) :
    civilOfChars? year true (cs ++ '-' :: ds) = ofCivil? year month day := by
  have hlast := hday.takeNumber? []
  rw [List.append_nil] at hlast
  rw [civilOfChars?, hmonth.takeNumber?]
  simp only [takeDash?, Option.bind_eq_bind, Option.bind_some, if_true, hlast]

theorem toList_toIsoText (d : Date) :
    d.toIsoText.toList = fixedDigits 4 d.year ++
      '-' :: (fixedDigits 2 d.month ++ '-' :: fixedDigits 2 d.dayOfMonth) := by
  rw [toIsoText, String.toList_ofList, List.append_assoc, List.cons_append]

/-- A date is read back from its ISO text. -/
theorem ofIsoText?_toIsoText (d : Date) : ofIsoText? d.toIsoText = some d := by
  obtain ⟨c, rest, hcs⟩ : ∃ c rest, fixedDigits 2 d.month = c :: rest :=
    List.exists_cons_of_length_eq_add_one d.spells_month.length_eq
  have hmonth := d.spells_month
  rw [hcs] at hmonth
  have hdigit : c.isDigit = true := (spells_cons.mp hmonth).1
  have hread : ofIsoText? d.toIsoText = ofIsoChars? d.toIsoText.toList := by
    rw [ofIsoText?, utf8ByteSize_toIsoText]
    rfl
  rw [hread, toList_toIsoText, hcs, List.cons_append, ofIsoChars?_year d.spells_year hdigit,
    ← List.cons_append, civilOfChars?_eq hmonth d.spells_dayOfMonth, ofCivil?_eq_some]
  exact ⟨rfl, rfl, rfl⟩

/-- A later date has a text that comes later. -/
theorem toIsoText_lt {d e : Date} (h : d.day < e.day) :
    Text.ofString d.toIsoText < Text.ofString e.toIsoText := by
  have hchars : d.toIsoText.toList < e.toIsoText.toList := by
    rw [toList_toIsoText, toList_toIsoText]
    rcases civil_lt_of_day_lt h with hyear | ⟨hyear, hmonth | ⟨hmonth, hday⟩⟩
    · exact append_lt_append (d.spells_year.length_eq.trans e.spells_year.length_eq.symm)
        (d.spells_year.lt e.spells_year hyear)
    · rw [hyear]
      refine List.append_left_lt (List.cons_lt_cons_iff.mpr (.inr ⟨rfl, ?_⟩))
      exact append_lt_append (d.spells_month.length_eq.trans e.spells_month.length_eq.symm)
        (d.spells_month.lt e.spells_month hmonth)
    · rw [hyear, hmonth]
      refine List.append_left_lt (List.cons_lt_cons_iff.mpr (.inr ⟨rfl, ?_⟩))
      refine List.append_left_lt (List.cons_lt_cons_iff.mpr (.inr ⟨rfl, ?_⟩))
      exact d.spells_dayOfMonth.lt e.spells_dayOfMonth hday
  -- Texts are compared by the codes of their letters.
  change (Text.ofString _).letters.map Letter.code < (Text.ofString _).letters.map Letter.code
  simp only [Text.ofString, Text.ofChars, List.map_map]
  exact List.map_lt (fun _ _ hlt => hlt) hchars

end Rulebook.Date
