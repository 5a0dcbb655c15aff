import Mathlib
import Rulebook.Proofs.Condition.Fields
import Rulebook.Proofs.Results
import Rulebook.Proofs.Value.Fields

/-!
What a snapshot records. The fields of a tree are recorded in ascending order under keys relative to
the entity. A field and the same field behind the name of the type have one key, and they are the
only ones that do (`behind_of_snapshotKey_eq`); then the later of the two is what the snapshot
shows. Every other field is found in it with its value (`snapshot_records_last`).
-/
namespace Rulebook.Condition

variable {entityType : Text} {context : Value}

/-! ## Keys -/

/-- A path behind the name of a type. -/
def behind (entityType path : Text) : Text := entityType ++ Text.ofString "." ++ path

/-- The key of a path is what stands behind the name of the type, or the path itself. -/
theorem snapshotKey_cases (entityType path : Text) :
    path = behind entityType (snapshotKey entityType path) ∨
      path = snapshotKey entityType path := by
  rw [snapshotKey]
  split
  · next hstart =>
    obtain ⟨rest, hrest⟩ := List.isPrefixOf_iff_prefix.mp hstart
    left
    rw [← hrest, List.drop_left]
    exact congrArg Text.mk hrest.symm
  · exact .inr rfl

/-- Of two paths with one key, one is the other behind the name of the type. -/
theorem behind_of_snapshotKey_eq {p q : Text}
    (h : snapshotKey entityType p = snapshotKey entityType q) (hne : p ≠ q) :
    p = behind entityType q ∨ q = behind entityType p := by
  rcases snapshotKey_cases entityType p with hp | hp <;>
    rcases snapshotKey_cases entityType q with hq | hq
  · exact absurd (hp.trans (h ▸ hq.symm)) hne
  · exact .inl (by rw [hq, ← h]; exact hp)
  · exact .inr (by rw [hp, h]; exact hq)
  · exact absurd (hp.trans (h.trans hq.symm)) hne

/-! ## Recording -/

/-- Recording fields leaves the entries under other keys alone. -/
theorem get?_snapshotFields {names : List Text} {start snap : Fields} {key : Text}
    (h : snapshotFields entityType context start names = .ok snap)
    (hother : ∀ q ∈ names, snapshotKey entityType q ≠ key) : snap.get? key = start.get? key := by
  induction names generalizing start with
  | nil =>
    cases h
    rfl
  | cons name rest ih =>
    rw [snapshotFields] at h
    obtain ⟨v, -, h⟩ := Except.bind_eq_ok.mp h
    obtain ⟨hname, hrest⟩ := List.forall_mem_cons.mp hother
    rw [ih h hrest, Fields.get?_put, if_neg hname.symm]

/-- Of ascending fields, each is recorded unless a later one has its key. -/
theorem snapshotFields_records {names : List Text} {start snap : Fields} {p : Text}
    (hascending : names.Pairwise (· < ·))
    (h : snapshotFields entityType context start names = .ok snap) (hp : p ∈ names)
    (hlast : ∀ q ∈ names, p < q → snapshotKey entityType q ≠ snapshotKey entityType p) :
    ∃ v, Value.resolve (some context) p = .ok v ∧
      snap.get? (snapshotKey entityType p) = some (v.getD .null) := by
  induction names generalizing start with
  | nil => cases hp
  | cons name rest ih =>
    rw [snapshotFields] at h
    obtain ⟨v, hv, h⟩ := Except.bind_eq_ok.mp h
    obtain ⟨hfirst, hrest⟩ := List.pairwise_cons.mp hascending
    obtain ⟨-, hlater⟩ := List.forall_mem_cons.mp hlast
    rcases List.mem_cons.mp hp with rfl | hp
    · refine ⟨v, hv, ?_⟩
      rw [get?_snapshotFields h fun q hq => hlater q hq (hfirst q hq), Fields.get?_put, if_pos rfl]
    · exact ih hrest h hp hlater

/-- A snapshot has, under the key of each field of the tree, the value that the field leads to, null
where it is missing, unless a later field has the same key; and two fields have one key only if one
of them is the other behind the name of the type. -/
theorem snapshot_records_last (tree : Condition) (context : Value) (entityType : Text)
    (snap : Fields) (h : tree.snapshot context entityType = .ok snap) :
    (∀ p ∈ tree.fields,
      (∀ q ∈ tree.fields, p < q → snapshotKey entityType q ≠ snapshotKey entityType p) →
      ∃ v, Value.resolve (some context) p = .ok v ∧
        snap.get? (snapshotKey entityType p) = some (v.getD .null)) ∧
      ∀ p ∈ tree.fields, ∀ q ∈ tree.fields,
        snapshotKey entityType p = snapshotKey entityType q → p ≠ q →
          p = behind entityType q ∨ q = behind entityType p :=
  ⟨fun _ hp hlast => snapshotFields_records (pairwise_fields tree) h hp hlast,
    fun _ _ _ _ hkey hne => behind_of_snapshotKey_eq hkey hne⟩

/-- The last leaf lacks the name of the type. -/
def unnamedRating : Condition :=
  .any [.leaf "loan.risk_rating" .above (.int 6), .leaf "loan.state" .equal (.text "TX"),
    .leaf "risk_rating" .present .null]

def ratedLoan : Value :=
  .object [("loan", .object [("risk_rating", .int 7), ("state", .text "TX")])]

theorem mem_fields_unnamedRating {field : Text} : field ∈ unnamedRating.fields ↔
    field = "loan.risk_rating" ∨ field = "loan.state" ∨ field = "risk_rating" := by
  simp [mem_fields, unnamedRating, leafFields, leafFieldsAmong]

/-- No other field has the key of the state. -/
theorem snapshot_records_last_state :
    ∃ snap, unnamedRating.snapshot ratedLoan "loan" = .ok snap ∧
      Text.ofString "loan.state" ∈ unnamedRating.fields ∧
      snap.get? (snapshotKey "loan" "loan.state") = some (.text "TX") := by
  have hsnap : unnamedRating.snapshot ratedLoan "loan" =
      .ok [("risk_rating", .null), ("state", .text "TX")] := by cbv
  have hstate : Text.ofString "loan.state" ∈ unnamedRating.fields :=
    mem_fields_unnamedRating.mpr (.inr (.inl rfl))
  obtain ⟨hrecords, -⟩ := snapshot_records_last unnamedRating ratedLoan "loan" _ hsnap
  obtain ⟨v, hv, hentry⟩ := hrecords _ hstate fun q hq hlater => by
    rcases mem_fields_unnamedRating.mp hq with rfl | rfl | rfl
    · decide
    · exact absurd hlater (Text.lt_irrefl _)
    · decide
  cases hv
  exact ⟨_, hsnap, hstate, hentry⟩

/-- The rating of the loan is not in the snapshot: the field without the name of the type, which
leads nowhere, is recorded over it. -/
theorem snapshot_loses_rating :
    unnamedRating.snapshot ratedLoan "loan" =
      .ok [("risk_rating", .null), ("state", .text "TX")] ∧
      Text.ofString "loan.risk_rating" ∈ unnamedRating.fields ∧
      snapshotKey "loan" "loan.risk_rating" = "risk_rating" ∧
      Value.resolve (some ratedLoan) "loan.risk_rating" = .ok (some (.int 7)) := by
  have hrating : Text.ofString "loan.risk_rating" ∈ unnamedRating.fields :=
    mem_fields_unnamedRating.mpr (.inl rfl)
  exact ⟨by cbv, hrating, rfl, rfl⟩

end Rulebook.Condition
