import Rulebook.Text.Basic

/-!
Texts in ascending order of their code points, each once.
-/
namespace Rulebook.Text

/-- Puts a text in its place among ascending ones, unless it is there already. -/
def insertAscending (s : Text) : List Text → List Text
  | [] => [s]
  | t :: rest =>
    if s < t then s :: t :: rest
    else if s = t then t :: rest
    else t :: insertAscending s rest

theorem mem_insertAscending {s t : Text} {ts : List Text} :
    s ∈ insertAscending t ts ↔ s = t ∨ s ∈ ts := by
  induction ts with
  | nil => simp [insertAscending]
  | cons u rest ih =>
    simp only [insertAscending]
    split
    · simp
    · split
      · rename_i h; subst h; simp
      · simp only [List.mem_cons, ih]
        constructor
        · rintro (h | h | h) <;> simp [h]
        · rintro (h | h | h) <;> simp [h]

end Rulebook.Text
