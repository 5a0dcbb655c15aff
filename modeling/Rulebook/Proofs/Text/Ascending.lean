import Rulebook.Text.Ascending

/-!
The order of texts. A letter is told by its code point (`Letter.code_inj`), so the order by code
points is a strict one in which any two texts can be compared, and putting a text in its place keeps
ascending texts ascending (`pairwise_insertAscending`); and they are told by which texts they are
(`eq_of_ascending`).
-/
namespace Rulebook

/-- The code points of characters leave out those of the surrogates. -/
theorem Letter.code_inj {l m : Letter} (h : l.code = m.code) : l = m := by
  have apart : ∀ (c : Char) (offset : Fin 0x800), c.toNat ≠ 0xD800 + offset := by
    intro c offset heq
    have hoffset := offset.isLt
    have hvalid := c.valid
    simp only [Char.toNat] at heq
    rcases hvalid with hlow | ⟨hhigh, -⟩ <;> omega
  cases l with
  | char c =>
    cases m with
    | char d => exact congrArg char (Char.toNat_inj.mp h)
    | surrogate offset => exact absurd h (apart c offset)
  | surrogate offset =>
    cases m with
    | char d => exact absurd h.symm (apart d offset)
    | surrogate other =>
      have hval : offset.val = other.val := Nat.add_left_cancel h
      exact congrArg surrogate (Fin.ext hval)

namespace Text

variable {s t u : Text}

theorem lt_irrefl (s : Text) : ¬ s < s := List.lt_irrefl (s.letters.map Letter.code)

theorem lt_trans (h : s < t) (h' : t < u) : s < u :=
  show s.letters.map Letter.code < u.letters.map Letter.code from List.lt_trans h h'

/-- Of two texts, one comes first unless they are one text. -/
theorem lt_of_not_lt_of_ne (h : ¬ s < t) (hne : s ≠ t) : t < s := by
  apply Decidable.byContradiction
  intro hnot
  apply hne
  have hcodes : s.letters.map Letter.code = t.letters.map Letter.code :=
    List.le_antisymm (List.not_lt.mp hnot) (List.not_lt.mp h)
  have hletters := (List.map_inj_right fun _ _ => Letter.code_inj).mp hcodes
  exact congrArg Text.mk hletters

theorem pairwise_insertAscending {ts : List Text} (h : ts.Pairwise (· < ·)) :
    (insertAscending s ts).Pairwise (· < ·) := by
  induction ts with
  | nil => exact List.pairwise_singleton _ s
  | cons t rest ih =>
    obtain ⟨hfirst, hrest⟩ := List.pairwise_cons.mp h
    rw [insertAscending]
    split
    · next hlt =>
      refine List.pairwise_cons.mpr ⟨fun u hu => ?_, h⟩
      rcases List.mem_cons.mp hu with rfl | hu
      · exact hlt
      · exact lt_trans hlt (hfirst u hu)
    · next hnot =>
      split
      · exact h
      · next hne =>
        refine List.pairwise_cons.mpr ⟨fun u hu => ?_, ih hrest⟩
        rcases mem_insertAscending.mp hu with rfl | hu
        · exact lt_of_not_lt_of_ne hnot hne
        · exact hfirst u hu

/-- Ascending texts are told by which texts they are. -/
theorem eq_of_ascending {ss ts : List Text} (hs : ss.Pairwise (· < ·))
    (ht : ts.Pairwise (· < ·)) (h : ∀ u, u ∈ ss ↔ u ∈ ts) : ss = ts := by
  have hnodup : ∀ us : List Text, us.Pairwise (· < ·) → us.Nodup := by
    intro us hus
    refine hus.imp fun {s t} hlt heq => ?_
    rw [heq] at hlt
    exact lt_irrefl t hlt
  have hperm : ss.Perm ts := (List.perm_ext_iff_of_nodup (hnodup ss hs) (hnodup ts ht)).mpr h
  refine hperm.eq_of_pairwise (fun s t _ _ hst hts => ?_) hs ht
  exact absurd (lt_trans hst hts) (lt_irrefl s)

end Text

end Rulebook
