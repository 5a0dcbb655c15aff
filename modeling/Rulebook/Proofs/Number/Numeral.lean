import Mathlib
import Rulebook.Proofs.Number.Conversion

/-!
The grammar of numerals, and the rational number that each of them denotes (`Numeral.Denotes`): an
optional sign, digits of any script with an optional point among them, and an optional exponent.
Reading takes the longest run of digits wherever digits may stand; since neither the point nor the
mark of the exponent is a digit, it reads exactly the texts of the grammar, each as what it denotes
(`unsignedOfChars?_eq_some`).
-/
namespace Rulebook.Numeral

/-! ## The grammar -/

/-- Decimal digits, with their values. -/
abbrev Digits (cs : List Char) (ds : List ℕ) : Prop :=
  List.Forall₂ (fun c d => Text.decimalDigit? c = some d) cs ds

/-- The number that digits denote, the most significant one being the first. -/
def digitsValue (ds : List ℕ) : ℕ := Nat.ofDigits 10 ds.reverse

/-- An optional sign; `true` means minus. -/
inductive SignText : List Char → Bool → Prop
  | none : SignText [] false
  | plus : SignText ['+'] false
  | minus : SignText ['-'] true

/-- Digits with an optional point: the values of those before it and of those after it. -/
inductive SignificandText : List Char → List ℕ → List ℕ → Prop
  | whole {cs : List Char} {ws : List ℕ} (hws : Digits cs ws) (hne : ws ≠ []) :
      SignificandText cs ws []
  | pointed {cs ds : List Char} {ws ps : List ℕ} (hws : Digits cs ws) (hne : ws ≠ [])
      (hps : Digits ds ps) : SignificandText (cs ++ '.' :: ds) ws ps
  | fraction {ds : List Char} {ps : List ℕ} (hps : Digits ds ps) (hne : ps ≠ []) :
      SignificandText ('.' :: ds) [] ps

/-- An optional exponent: a mark, an optional sign and digits. -/
inductive ExponentText : List Char → ℤ → Prop
  | none : ExponentText [] 0
  | some {mark : Char} {sign cs : List Char} {negative : Bool} {ds : List ℕ}
      (hmark : mark = 'e' ∨ mark = 'E') (hsign : SignText sign negative) (hdigits : Digits cs ds)
      (hne : ds ≠ []) :
      ExponentText (mark :: (sign ++ cs))
        (if negative then -(digitsValue ds : ℤ) else digitsValue ds)

/-- A numeral text denotes a rational number. -/
inductive Denotes : List Char → ℚ → Prop
  | mk {sign cs es : List Char} {negative : Bool} {ws ps : List ℕ} {e : ℤ}
      (hsign : SignText sign negative) (hsignificand : SignificandText cs ws ps)
      (hexponent : ExponentText es e) :
      Denotes (sign ++ (cs ++ es))
        ((if negative then -(digitsValue (ws ++ ps) : ℚ) else digitsValue (ws ++ ps)) *
          10 ^ (e - ps.length))

/-! ## Digits -/

/-- The first character, if there is one, is no digit. -/
def NoDigit (cs : List Char) : Prop := ∀ c ∈ cs.head?, Text.decimalDigit? c = none

theorem takeDigits_append {cs rest : List Char} {ds : List ℕ} (hcs : Digits cs ds)
    (hrest : NoDigit rest) : takeDigits (cs ++ rest) = (ds, rest) := by
  induction hcs with
  | nil =>
    cases rest with
    | nil => rfl
    | cons c tail =>
      have hc : Text.decimalDigit? c = none := hrest c rfl
      simp [takeDigits, hc]
  | cons hc _ ih => simp [takeDigits, hc, ih]

/-- What is taken off the front are digits, and they are all there are. -/
theorem takeDigits_spec (cs : List Char) :
    ∃ front, cs = front ++ (takeDigits cs).2 ∧ Digits front (takeDigits cs).1 ∧
      NoDigit (takeDigits cs).2 := by
  induction cs with
  | nil => exact ⟨[], rfl, .nil, fun c hc => by cases hc⟩
  | cons c rest ih =>
    rw [takeDigits]
    cases hc : Text.decimalDigit? c with
    | none =>
      refine ⟨[], rfl, .nil, fun d hd => ?_⟩
      cases hd
      exact hc
    | some d =>
      obtain ⟨front, hfront, hdigits, hstop⟩ := ih
      exact ⟨c :: front, congrArg (c :: ·) hfront, .cons hc hdigits, hstop⟩

theorem joinDigits_eq (ds : List ℕ) : joinDigits 0 ds = digitsValue ds := by
  have hstep : (fun n d : ℕ => 10 * n + d) = fun n d => d + 10 * n := by
    funext n d
    exact Nat.add_comm _ _
  rw [joinDigits, digitsValue, Nat.ofDigits_eq_foldr, List.foldr_reverse, hstep]
  simp

theorem joinDigits_joinDigits (ws ps : List ℕ) :
    joinDigits (joinDigits 0 ws) ps = digitsValue (ws ++ ps) := by
  rw [← joinDigits_eq, joinDigits, joinDigits, joinDigits, List.foldl_append]

theorem Digits.not_nil {cs : List Char} {ds : List ℕ} (h : Digits cs ds) (hne : ds ≠ []) :
    ∃ c rest d, cs = c :: rest ∧ Text.decimalDigit? c = some d := by
  cases h with
  | nil => exact absurd rfl hne
  | cons hc _ => exact ⟨_, _, _, rfl, hc⟩

/-! ## Signs -/

/-- The first character, if there is one, is no sign. -/
def NoSign (cs : List Char) : Prop := ∀ c ∈ cs.head?, c ≠ '+' ∧ c ≠ '-'

theorem takeSign_append {sign rest : List Char} {negative : Bool} (hsign : SignText sign negative)
    (hrest : NoSign rest) : takeSign (sign ++ rest) = (negative, rest) := by
  cases hsign with
  | plus => rfl
  | minus => rfl
  | none =>
    cases rest with
    | nil => rfl
    | cons c tail =>
      obtain ⟨hplus, hminus⟩ := hrest c rfl
      rw [List.nil_append, takeSign.eq_def]
      split
      · next heq => exact absurd (List.cons.inj heq).1 hminus
      · next heq => exact absurd (List.cons.inj heq).1 hplus
      · rfl

theorem takeSign_spec (cs : List Char) :
    ∃ sign, SignText sign (takeSign cs).1 ∧ cs = sign ++ (takeSign cs).2 := by
  rw [takeSign.eq_def]
  split
  · exact ⟨['-'], .minus, rfl⟩
  · exact ⟨['+'], .plus, rfl⟩
  · exact ⟨[], .none, rfl⟩

theorem noSign_of_digit {c : Char} {rest : List Char} {d : ℕ} (h : Text.decimalDigit? c = some d) :
    NoSign (c :: rest) := by
  intro b hb
  cases hb
  constructor
  · rintro rfl
    revert h
    decide +revert
  · rintro rfl
    revert h
    decide +revert

theorem Digits.noSign {cs : List Char} {ds : List ℕ} (h : Digits cs ds) (hne : ds ≠ []) :
    NoSign cs := by
  obtain ⟨c, rest, d, rfl, hc⟩ := h.not_nil hne
  exact noSign_of_digit hc

/-- A significand starts with a digit or the point, whatever follows it. -/
theorem SignificandText.head {cs : List Char} {ws ps : List ℕ} (h : SignificandText cs ws ps)
    (es : List Char) :
    ∃ c rest, cs ++ es = c :: rest ∧ (c = '.' ∨ ∃ d, Text.decimalDigit? c = some d) := by
  cases h with
  | whole hws hne =>
    obtain ⟨c, rest, d, rfl, hc⟩ := hws.not_nil hne
    exact ⟨c, _, rfl, .inr ⟨d, hc⟩⟩
  | pointed hws hne hps =>
    obtain ⟨c, rest, d, rfl, hc⟩ := hws.not_nil hne
    exact ⟨c, _, rfl, .inr ⟨d, hc⟩⟩
  | fraction hps hne => exact ⟨'.', _, rfl, .inl rfl⟩

theorem SignificandText.noSign {cs es : List Char} {ws ps : List ℕ}
    (h : SignificandText cs ws ps) : NoSign (cs ++ es) := by
  obtain ⟨c, rest, hcs, rfl | ⟨d, hd⟩⟩ := h.head es
  · rw [hcs]
    intro b hb
    cases hb
    decide
  · rw [hcs]
    exact noSign_of_digit hd

/-! ## Reading -/

theorem ExponentText.noDigit {cs : List Char} {e : ℤ} (h : ExponentText cs e) : NoDigit cs := by
  cases h with
  | none => exact fun c hc => by cases hc
  | some hmark hsign hdigits hne =>
    intro c hc
    cases hc
    rcases hmark with rfl | rfl <;> decide

theorem exponentOfChars?_of_text {cs : List Char} {e : ℤ} (h : ExponentText cs e) :
    exponentOfChars? cs = some e := by
  cases h with
  | none => rfl
  | @some mark sign cs negative ds hmark hsign hdigits hne =>
    have hmarked : (mark == 'e' || mark == 'E') = true := by
      rcases hmark with rfl | rfl <;> rfl
    have hstop : NoDigit [] := fun c hc => by cases hc
    have htaken : takeDigits cs = (ds, []) := by
      have h := takeDigits_append hdigits hstop
      rwa [List.append_nil] at h
    cases ds with
    | nil => exact absurd rfl hne
    | cons d more =>
      simp [exponentOfChars?, hmarked, takeSign_append hsign (hdigits.noSign hne), htaken,
        joinDigits_eq]

theorem text_of_exponentOfChars? {cs : List Char} {e : ℤ} (h : exponentOfChars? cs = some e) :
    ExponentText cs e := by
  cases cs with
  | nil =>
    cases h
    exact .none
  | cons mark rest =>
    rw [exponentOfChars?] at h
    split at h
    · next hmark =>
      obtain ⟨sign, hsign, hsplit⟩ := takeSign_spec rest
      generalize takeSign rest = signed at hsign hsplit h
      obtain ⟨negative, body⟩ := signed
      obtain ⟨front, hfront, hdigits, -⟩ := takeDigits_spec body
      dsimp only at hsign hsplit h
      split at h
      · cases h
      · next ds hds htaken =>
        rw [htaken] at hfront hdigits
        dsimp only at hfront hdigits
        rw [List.append_nil] at hfront
        cases h
        rw [joinDigits_eq, hsplit, hfront]
        exact .some (by simpa using hmark) hsign hdigits hds
      · cases h
    · cases h

/-- Without its sign, a numeral is a significand with an exponent. -/
theorem unsignedOfChars?_of_text {cs es : List Char} {ws ps : List ℕ} {e : ℤ}
    (hcs : SignificandText cs ws ps) (hes : ExponentText es e) (negative : Bool) :
    unsignedOfChars? negative (cs ++ es) =
      some ⟨negative, digitsValue (ws ++ ps), e - ps.length⟩ := by
  have hread := exponentOfChars?_of_text hes
  cases hcs with
  | whole hws hne =>
    -- The exponent that follows does not start with a point.
    have hpoint : ∀ rest, es ≠ '.' :: rest := by
      rintro rest rfl
      cases hes with
      | some hmark _ _ _ => rcases hmark with h | h <;> cases h
    rw [unsignedOfChars?, takeDigits_append hws hes.noDigit]
    dsimp only
    split
    · next rest => exact absurd rfl (hpoint rest)
    · simp [hne, hread, joinDigits_joinDigits]
  | @pointed cs ds ws ps hws hne hps =>
    have hstop : NoDigit ('.' :: (ds ++ es)) := by
      intro c hc
      cases hc
      decide
    rw [List.append_assoc, List.cons_append, unsignedOfChars?, takeDigits_append hws hstop]
    simp [takeDigits_append hps hes.noDigit, hne, hread, joinDigits_joinDigits]
  | @fraction ds ps hps hne =>
    have hstop : takeDigits ('.' :: (ds ++ es)) = ([], '.' :: (ds ++ es)) := by
      have hpoint : Text.decimalDigit? '.' = none := by decide
      simp [takeDigits, hpoint]
    rw [List.cons_append, unsignedOfChars?, hstop]
    simp [takeDigits_append hps hes.noDigit, hne, hread, joinDigits_joinDigits]

theorem text_of_unsignedOfChars? {cs : List Char} {negative : Bool} {n : Numeral}
    (h : unsignedOfChars? negative cs = some n) :
    ∃ front es ws ps e, cs = front ++ es ∧ SignificandText front ws ps ∧ ExponentText es e ∧
      n = ⟨negative, digitsValue (ws ++ ps), e - ps.length⟩ := by
  obtain ⟨front, hfront, hws, -⟩ := takeDigits_spec cs
  rw [unsignedOfChars?] at h
  generalize takeDigits cs = taken at hfront hws h
  obtain ⟨ws, rest⟩ := taken
  dsimp only at hfront hws h
  split at h
  · next tail =>
    obtain ⟨places, hplaces, hps, -⟩ := takeDigits_spec tail
    generalize takeDigits tail = taken at hplaces hps h
    obtain ⟨ps, es⟩ := taken
    dsimp only at hplaces hps h
    split at h
    · cases h
    · next hsome =>
      obtain ⟨e, he, rfl⟩ := Option.map_eq_some_iff.mp h
      rw [joinDigits_joinDigits]
      have hes := text_of_exponentOfChars? he
      by_cases hempty : ws = []
      · subst hempty
        cases hws
        have hne : ps ≠ [] := by simpa using hsome
        exact ⟨'.' :: places, es, [], ps, e, by rw [hfront, hplaces]; rfl, .fraction hps hne, hes,
          rfl⟩
      · refine ⟨front ++ '.' :: places, es, ws, ps, e, ?_, .pointed hws hempty hps, hes, rfl⟩
        rw [hfront, hplaces, List.append_assoc, List.cons_append]
  · split at h
    · cases h
    · next hsome =>
      obtain ⟨e, he, rfl⟩ := Option.map_eq_some_iff.mp h
      have hne : ws ≠ [] := by simpa using hsome
      rw [joinDigits_joinDigits]
      exact ⟨front, rest, ws, [], e, hfront, .whole hws hne, text_of_exponentOfChars? he, rfl⟩

/-- The texts that are read are those of the grammar. -/
theorem unsignedOfChars?_eq_some {cs : List Char} {negative : Bool} {n : Numeral} :
    unsignedOfChars? negative cs = some n ↔
      ∃ front es ws ps e, cs = front ++ es ∧ SignificandText front ws ps ∧ ExponentText es e ∧
        n = ⟨negative, digitsValue (ws ++ ps), e - ps.length⟩ := by
  constructor
  · exact text_of_unsignedOfChars?
  · rintro ⟨front, es, ws, ps, e, rfl, hfront, hes, rfl⟩
    exact unsignedOfChars?_of_text hfront hes negative

theorem Denotes.ne_nil {cs : List Char} {q : ℚ} (h : Denotes cs q) : cs ≠ [] := by
  cases h with
  | @mk sign cs es _ ws ps _ _ hcs _ =>
    have hne : cs ≠ [] := by
      cases hcs with
      | whole hws hws' =>
        obtain ⟨c, rest, d, rfl, -⟩ := hws.not_nil hws'
        exact List.cons_ne_nil c rest
      | pointed _ _ _ => simp
      | fraction _ _ => simp
    simp [hne]

/-! ## The decimal text of an integer -/

theorem decimalDigit?_of_isDigit {c : Char} (h : c.isDigit) :
    Text.decimalDigit? c = some (c.toNat - 48) := by
  obtain ⟨hlow, hhigh⟩ : 48 ≤ c.toNat ∧ c.toNat ≤ 57 := Char.isDigit_iff_toNat.mp h
  have hfirst : (decide (0x30 ≤ c.toNat) && decide (c.toNat < 0x30 + 10)) = true := by
    rw [Bool.and_eq_true, decide_eq_true_eq, decide_eq_true_eq]
    omega
  have hfind : (Text.digitZeros.find? fun first => first ≤ c.toNat && c.toNat < first + 10) =
      some 48 := List.find?_cons_of_pos hfirst
  rw [Text.decimalDigit?, hfind]
  rfl

theorem digits_toDigits (m : ℕ) :
    Digits (Nat.toDigits 10 m) ((Nat.toDigits 10 m).map fun c => c.toNat - 48) := by
  rw [Digits, List.forall₂_map_right_iff, List.forall₂_same]
  intro c hc
  exact decimalDigit?_of_isDigit (Nat.isDigit_of_mem_toDigits (by decide) (by decide) hc)

theorem digitsValue_toDigits (m : ℕ) :
    digitsValue ((Nat.toDigits 10 m).map fun c => c.toNat - 48) = m := by
  rw [← joinDigits_eq, joinDigits, List.foldl_map]
  exact Nat.ofDigitChars_ten_toDigits

/-- The decimal text of an integer is a sign, if it is negative, and digits. -/
theorem toString_letters (n : ℤ) :
    ∃ sign negative, SignText sign negative ∧
      (n : ℚ) = (if negative then -(n.natAbs : ℚ) else n.natAbs) ∧
      (toString n).toList = sign ++ Nat.toDigits 10 n.natAbs := by
  cases n with
  | ofNat m => exact ⟨[], false, .none, by simp, Nat.toList_repr⟩
  | negSucc m =>
    refine ⟨['-'], true, .minus, Int.cast_negSucc m, ?_⟩
    rw [Int.natAbs_negSucc, ← Nat.toList_repr]
    exact String.toList_append

/-- The decimal text of an integer denotes it. -/
theorem denotes_toString (n : ℤ) : Denotes (toString n).toList n := by
  obtain ⟨sign, negative, hsign, hn, htext⟩ := toString_letters n
  have hne : (Nat.toDigits 10 n.natAbs).map (fun c => c.toNat - 48) ≠ [] := by
    simp
  have h := Denotes.mk hsign (.whole (digits_toDigits n.natAbs) hne) .none
  rw [htext, hn]
  simpa [digitsValue_toDigits] using h

theorem mem_toString {n : ℤ} {c : Char} (h : c ∈ (toString n).toList) :
    c = '+' ∨ c = '-' ∨ c.isDigit := by
  obtain ⟨sign, negative, hsign, -, htext⟩ := toString_letters n
  rw [htext, List.mem_append] at h
  rcases h with h | h
  · cases hsign with
    | none => cases h
    | plus => exact .inl (List.mem_singleton.mp h)
    | minus => exact .inr (.inl (List.mem_singleton.mp h))
  · exact .inr (.inr (Nat.isDigit_of_mem_toDigits (by decide) (by decide) h))

end Rulebook.Numeral
