import Rulebook.Proofs.FindingLife

/-!
What lasts. No row is ever taken away, and rows keep their order: `Store.Lasts s t` says, table by
table, what of the rows of `s` is still found in `t`. Regulations, tasks, overrides and results are
found as they were; a rule differs in its pointer and its status at most, a finding in its status;
packs, versions and runs keep their identifiers and owners. Every change of a store lasts in this
sense (`Change.lasts`), so every history does (`Engine.after_lasts`).
-/
namespace Rulebook

variable {c : Impact.Circumstances} {w : Work} {s t u : Store}

/-! ## Rows that remain -/

section Remain

variable {α : Type} {R : α → α → Prop} {rows rows' rows'' new : List α}

/-- Rows are found again, in their order and each as it has become, before any new ones. -/
def Remain (R : α → α → Prop) (rows rows' : List α) : Prop :=
  ∃ old new, rows' = old ++ new ∧ List.Forall₂ R rows old

theorem Remain.of_forall₂ (h : List.Forall₂ R rows rows') : Remain R rows rows' :=
  ⟨rows', [], (List.append_nil _).symm, h⟩

theorem Remain.refl (hR : ∀ x, R x x) (rows : List α) : Remain R rows rows :=
  .of_forall₂ (List.forall₂_same.2 fun x _ => hR x)

theorem Remain.append (hR : ∀ x, R x x) (rows new : List α) : Remain R rows (rows ++ new) :=
  ⟨rows, new, rfl, List.forall₂_same.2 fun x _ => hR x⟩

theorem Remain.trans (hR : ∀ x y z, R x y → R y z → R x z) (h : Remain R rows rows')
    (h' : Remain R rows' rows'') : Remain R rows rows'' := by
  obtain ⟨old, new, rfl, hold⟩ := h
  obtain ⟨older, more, rfl, hboth⟩ := h'
  have hfirst := List.forall₂_take_append older old new hboth.flip
  have hrest := List.forall₂_drop_append older old new hboth.flip
  refine ⟨older.take old.length, older.drop old.length ++ more, ?_, ?_⟩
  · rw [← List.append_assoc, List.take_append_drop]
  · exact forall₂_comp hold hfirst.flip hR

/-- Each row is found again. -/
theorem Remain.next (h : Remain R rows rows') {x : α} (hx : x ∈ rows) : ∃ y ∈ rows', R x y := by
  obtain ⟨old, new, rfl, hold⟩ := h
  obtain ⟨y, hy, hxy⟩ := exists_right_of_forall₂ hold x hx
  exact ⟨y, List.mem_append_left _ hy, hxy⟩

end Remain

section Rows

variable {α : Type} [Stored α] {rows : List α} {r q : α} {n : Nat}

theorem owned_prefix (rows new : List α) : owned rows <+: owned (rows ++ new) := by
  rw [owned, owned, List.map_append]
  exact List.prefix_append _ _

theorem owned_prefix_replaceRow (h : Keyed rows n) (hq : q ∈ rows)
    (hid : (Stored.row r).id = (Stored.row q).id)
    (htenant : (Stored.row r).tenant = (Stored.row q).tenant) :
    owned rows <+: owned (replaceRow rows r) := by
  rw [owned_replaceRow h hq hid htenant]

/-- Where a row is replaced by what it becomes, all rows remain. -/
theorem Keyed.remain_replaceRow {R : α → α → Prop} (h : Keyed rows n) (hq : q ∈ rows)
    (hid : (Stored.row r).id = (Stored.row q).id) (hR : ∀ x, R x x) (hr : R q r) :
    Remain R rows (replaceRow rows r) := by
  refine .of_forall₂ (List.forall₂_map_right_iff.2 (List.forall₂_same.2 fun p hp => ?_))
  split
  · next heq =>
    rw [h.eq_of_id hp hq (heq.trans hid)]
    exact hr
  · exact hR p

end Rows

/-! ## Stores that last -/

/-- `q` is `r` at a later time: the version it points at and its status may have changed. -/
def Rule.Becomes (r q : Rule) : Prop :=
  ∃ current status u, q = { r with currentVersion := current, status, updatedAt := u }

theorem Rule.Becomes.refl (r : Rule) : r.Becomes r := ⟨r.currentVersion, r.status, r.updatedAt, rfl⟩

theorem Rule.Becomes.trans {r q p : Rule} (h : r.Becomes q) (h' : q.Becomes p) : r.Becomes p := by
  obtain ⟨_, _, _, rfl⟩ := h
  obtain ⟨current, status, u, rfl⟩ := h'
  exact ⟨current, status, u, rfl⟩

/-- What of the rows of a store is found in a later one. -/
structure Store.Lasts (s t : Store) : Prop where
  packs : owned s.packs <+: owned t.packs
  regulations : s.regulations <+: t.regulations
  rules : Remain Rule.Becomes s.rules t.rules
  versions : owned s.versions <+: owned t.versions
  findings : Remain Finding.Becomes s.findings t.findings
  tasks : s.tasks <+: t.tasks
  /-- A finding gets no tasks but those that it is filed with. -/
  tasksOf : ∀ f ∈ s.findings, t.tasksOf f.id = s.tasksOf f.id
  overrides : s.overrides <+: t.overrides
  runs : owned s.runs <+: owned t.runs
  results : s.results <+: t.results

namespace Store.Lasts

theorem refl (s : Store) : s.Lasts s where
  packs := List.prefix_rfl
  regulations := List.prefix_rfl
  rules := .refl .refl _
  versions := List.prefix_rfl
  findings := .refl (fun _ => .refl) _
  tasks := List.prefix_rfl
  tasksOf _ _ := rfl
  overrides := List.prefix_rfl
  runs := List.prefix_rfl
  results := List.prefix_rfl

theorem trans (h : s.Lasts t) (h' : t.Lasts u) : s.Lasts u where
  packs := h.packs.trans h'.packs
  regulations := h.regulations.trans h'.regulations
  rules := h.rules.trans (fun _ _ _ => .trans) h'.rules
  versions := h.versions.trans h'.versions
  findings := h.findings.trans (fun _ _ _ => .trans) h'.findings
  tasks := h.tasks.trans h'.tasks
  tasksOf f hf := by
    obtain ⟨g, hg, hbecomes⟩ := h.findings.next hf
    rw [← h.tasksOf f hf, ← hbecomes.id_eq, h'.tasksOf g hg]
  overrides := h.overrides.trans h'.overrides
  runs := h.runs.trans h'.runs
  results := h.results.trans h'.results

end Store.Lasts

/-- Nothing that is stored is lost by a change. -/
theorem Change.lasts (h : Change c w s t) (hs : s.Intact) : s.Lasts t := by
  have hsame := Store.Lasts.refl s
  cases h with
  | passed => exact { hsame with }
  | packAdded => exact { hsame with packs := owned_prefix _ _ }
  | packSaved old same =>
    exact { hsame with packs := owned_prefix_replaceRow hs.packs old same.1 same.2 }
  | regulationAdded => exact { hsame with regulations := List.prefix_append _ _ }
  | ruleAdded => exact { hsame with rules := .append .refl _ _ }
  | @ruleSaved _ r current status u _ old =>
    exact { hsame with
      rules := hs.rules.remain_replaceRow old rfl .refl ⟨current, status, u, rfl⟩ }
  | versionAdded => exact { hsame with versions := owned_prefix _ _ }
  | versionSaved old =>
    exact { hsame with versions := owned_prefix_replaceRow hs.versions old (by rfl) (by rfl) }
  | @filed _ f ts _ id status unique ids tasks =>
    refine { hsame with
      findings := .append (fun _ => .refl) _ _, tasks := List.prefix_append _ _, tasksOf := ?_ }
    intro g hg
    have hnone : ts.filter (fun k => k.finding == g.id) = [] := by
      refine List.filter_eq_nil_iff.2 fun k hk heq => ?_
      have hid : g.id = ⟨s.nextId⟩ := (eq_of_beq heq).symm.trans ((tasks k hk).1.trans id)
      exact hs.findings.ne_next hg hid
    rw [Store.tasksOf, List.filter_append, hnone, List.append_nil, Store.tasksOf]
  | @findingMoved _ f status u _ old next unique =>
    refine { hsame with
      findings := hs.findings.remain_replaceRow old rfl (fun _ => .refl) ⟨status, u, rfl, ?_⟩ }
    exact Or.inr (FindingStatus.stage_lt_successor next).1
  | overridden => exact { hsame with overrides := List.prefix_append _ _ }
  | runAdded => exact { hsame with runs := owned_prefix _ _ }
  | runFailed old running =>
    exact { hsame with runs := owned_prefix_replaceRow hs.runs old (by rfl) (by rfl) }
  | runCancelled old running =>
    exact { hsame with runs := owned_prefix_replaceRow hs.runs old (by rfl) (by rfl) }
  | runCompleted old running scanned ids =>
    exact { hsame with
      runs := owned_prefix_replaceRow hs.runs old (by rfl) (by rfl)
      results := List.prefix_append _ _ }

theorem Changes.lasts (h : Changes c w s t) (hs : s.Intact) : s.Lasts t :=
  h.keep hs (.refl s) fun hu hlasts last => hlasts.trans (last.lasts hu)

/-- Nothing that is stored is lost by further moves. -/
theorem Engine.after_lasts {e : Engine} (hs : e.store.Intact) (moves : List Move) :
    e.store.Lasts (e.after moves).store :=
  after_keeps (P := e.store.Lasts) hs (.refl _) fun _ hd hlasts m _ =>
    hlasts.trans ((move_changes hd m).lasts hd)

end Rulebook
