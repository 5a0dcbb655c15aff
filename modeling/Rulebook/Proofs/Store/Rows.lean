import Mathlib.Data.List.Nodup
import Rulebook.Proofs.Results
import Rulebook.Store.Basic

/-!
Tables as lists of rows. `Keyed rows n` says that no two rows share an identifier and that all
identifiers are below `n`, the number that the next one gets. It survives adding a row with that
number (`Keyed.add`), adding several (`Keyed.addAll`) and changing rows in place
(`Keyed.replace`), and under it a row is found by its identifier (`Keyed.eq_of_id`). Rows that stand
in the order of time are listed as they stand, or backwards (`oldestFirst_eq`, `newestFirst_eq`).
-/
namespace Rulebook

@[simp] theorem Stored.row_pack (p : Pack) : Stored.row p = p.toRow := rfl
@[simp] theorem Stored.row_regulation (r : Regulation) : Stored.row r = r.toRow := rfl
@[simp] theorem Stored.row_rule (r : Rule) : Stored.row r = r.toRow := rfl
@[simp] theorem Stored.row_version (v : Version) : Stored.row v = v.toRow := rfl
@[simp] theorem Stored.row_finding (f : Finding) : Stored.row f = f.toRow := rfl
@[simp] theorem Stored.row_task (t : Task) : Stored.row t = t.toRow := rfl
@[simp] theorem Stored.row_override (o : Override) : Stored.row o = o.toRow := rfl
@[simp] theorem Stored.row_run (r : ImpactRun) : Stored.row r = r.toRow := rfl
@[simp] theorem Stored.row_result (r : ImpactResult) : Stored.row r = r.toRow := rfl

section Rows

variable {α : Type} [Stored α] {rows : List α} {r q : α} {n m : Nat}

/-! ## Looking up and replacing -/

theorem findOwn_eq_some {tenant id : Uuid} (h : findOwn rows tenant id = some r) :
    r ∈ rows ∧ (Stored.row r).id = id ∧ (Stored.row r).tenant = tenant := by
  have hown := List.find?_some h
  simp only [Row.isOwn, Bool.and_eq_true, beq_iff_eq] at hown
  exact ⟨List.mem_of_find?_eq_some h, hown⟩

theorem mem_ownRows {tenant : Uuid} :
    r ∈ ownRows rows tenant ↔ r ∈ rows ∧ (Stored.row r).tenant = tenant := by
  simp [ownRows]

theorem ownRows_sublist (rows : List α) (tenant : Uuid) : (ownRows rows tenant).Sublist rows :=
  List.filter_sublist

/-- Rows that are all of one tenant may be looked for among its rows. -/
theorem filter_own {p : α → Bool} {tenant : Uuid}
    (h : ∀ q ∈ rows, p q = true → (Stored.row q).tenant = tenant) :
    rows.filter p = (ownRows rows tenant).filter p := by
  rw [ownRows, List.filter_filter]
  refine List.filter_congr fun q hq => ?_
  cases hp : p q with
  | false => rfl
  | true => simp [h q hq hp]

theorem mem_replaceRow : q ∈ replaceRow rows r ↔
    (q = r ∧ ∃ p ∈ rows, (Stored.row p).id = (Stored.row r).id) ∨
      (q ∈ rows ∧ (Stored.row q).id ≠ (Stored.row r).id) := by
  simp only [replaceRow, List.mem_map]
  constructor
  · rintro ⟨p, hp, rfl⟩
    split
    · next h => exact Or.inl ⟨rfl, p, hp, h⟩
    · next h => exact Or.inr ⟨hp, h⟩
  · rintro (⟨rfl, p, hp, h⟩ | ⟨hq, h⟩)
    · exact ⟨p, hp, if_pos h⟩
    · exact ⟨q, hq, if_neg h⟩

/-- The new state of a stored row is stored afterwards. -/
theorem mem_replaceRow_self (hq : q ∈ rows) (h : (Stored.row q).id = (Stored.row r).id) :
    r ∈ replaceRow rows r :=
  mem_replaceRow.2 (Or.inl ⟨rfl, q, hq, h⟩)

theorem mem_replaceRow_of_ne (hq : q ∈ rows) (h : (Stored.row q).id ≠ (Stored.row r).id) :
    q ∈ replaceRow rows r :=
  mem_replaceRow.2 (Or.inr ⟨hq, h⟩)

theorem map_id_replaceRow : (replaceRow rows r).map (fun p => (Stored.row p).id) =
    rows.map fun p => (Stored.row p).id := by
  rw [replaceRow, List.map_map]
  refine List.map_congr_left fun p _ => ?_
  simp only [Function.comp_apply]
  split
  · next h => exact h.symm
  · rfl

/-! ## Identifiers -/

/-- No two rows share an identifier, and all identifiers are below a number. -/
structure Keyed (rows : List α) (n : Nat) : Prop where
  nodup : (rows.map fun r => (Stored.row r).id).Nodup
  below : ∀ r ∈ rows, (Stored.row r).id.number < n

theorem Keyed.nil : Keyed ([] : List α) n :=
  ⟨List.nodup_nil, by simp⟩

theorem Keyed.mono (h : Keyed rows n) (hnm : n ≤ m) : Keyed rows m :=
  ⟨h.nodup, fun r hr => Nat.lt_of_lt_of_le (h.below r hr) hnm⟩

/-- The next identifier is new. -/
theorem Keyed.ne_next (h : Keyed rows n) (hr : r ∈ rows) : (Stored.row r).id ≠ ⟨n⟩ := by
  intro hid
  have hlt := h.below r hr
  rw [hid] at hlt
  exact Nat.lt_irrefl _ hlt

theorem Keyed.eq_of_id (h : Keyed rows n) (hr : r ∈ rows) (hq : q ∈ rows)
    (hid : (Stored.row r).id = (Stored.row q).id) : r = q :=
  List.inj_on_of_nodup_map h.nodup hr hq hid

theorem Keyed.addAll {new : List α} (h : Keyed rows n)
    (hids : new.map (fun r => (Stored.row r).id) =
      (List.range' n new.length).map fun i => (⟨i⟩ : Uuid)) :
    Keyed (rows ++ new) (n + new.length) := by
  have hmem : ∀ q ∈ new, n ≤ (Stored.row q).id.number ∧
      (Stored.row q).id.number < n + new.length := by
    intro q hq
    have hid : (Stored.row q).id ∈ new.map fun r => (Stored.row r).id := List.mem_map_of_mem hq
    rw [hids, List.mem_map] at hid
    obtain ⟨i, hi, heq⟩ := hid
    rw [← heq]
    exact List.mem_range'_1.1 hi
  constructor
  · rw [List.map_append, List.nodup_append]
    refine ⟨h.nodup, ?_, ?_⟩
    · rw [hids]
      exact (List.nodup_range' ).map fun i j hij => by simpa using hij
    · intro a ha b hb heq
      obtain ⟨q, hq, rfl⟩ := List.mem_map.1 ha
      obtain ⟨p, hp, rfl⟩ := List.mem_map.1 hb
      have hlt := h.below q hq
      rw [heq] at hlt
      exact Nat.not_le_of_lt hlt (hmem p hp).1
  · intro q hq
    rcases List.mem_append.1 hq with hq | hq
    · exact Nat.lt_of_lt_of_le (h.below q hq) (Nat.le_add_right _ _)
    · exact (hmem q hq).2

theorem Keyed.add (h : Keyed rows n) (hid : (Stored.row r).id = ⟨n⟩) :
    Keyed (rows ++ [r]) (n + 1) :=
  h.addAll (by simp [hid])

theorem Keyed.replace (h : Keyed rows n) : Keyed (replaceRow rows r) n := by
  constructor
  · rw [map_id_replaceRow]
    exact h.nodup
  · intro q hq
    have hid : (Stored.row q).id ∈ (replaceRow rows r).map fun p => (Stored.row p).id :=
      List.mem_map_of_mem hq
    rw [map_id_replaceRow] at hid
    obtain ⟨p, hp, heq⟩ := List.mem_map.1 hid
    rw [← heq]
    exact h.below p hp

/-- What is read off the rows once one has been replaced. -/
theorem Keyed.map_replaceRow {β : Type} {f g : α → β} (h : Keyed rows n) (hq : q ∈ rows)
    (hid : (Stored.row r).id = (Stored.row q).id) (hr : f r = g q)
    (hrest : ∀ p ∈ rows, (Stored.row p).id ≠ (Stored.row q).id → f p = g p) :
    (replaceRow rows r).map f = rows.map g := by
  rw [replaceRow, List.map_map]
  refine List.map_congr_left fun p hp => ?_
  rw [Function.comp_apply]
  split
  · next heq =>
    rw [h.eq_of_id hp hq (heq.trans hid)]
    exact hr
  · next hne => exact hrest p hp fun heq => hne (heq.trans hid.symm)

/-- Of rows that are all the same there is at most one. -/
theorem Keyed.length_filter_le_one (h : Keyed rows n) {p : α → Bool}
    (hp : ∀ r ∈ rows, ∀ q ∈ rows, p r = true → p q = true →
      (Stored.row r).id = (Stored.row q).id) : (rows.filter p).length ≤ 1 := by
  have hnodup : ((rows.filter p).map fun r => (Stored.row r).id).Nodup :=
    h.nodup.sublist (List.filter_sublist.map _)
  have hmem : ∀ r ∈ rows.filter p, r ∈ rows ∧ p r = true := fun r hr => List.mem_filter.1 hr
  cases hrows : rows.filter p with
  | nil => exact Nat.zero_le 1
  | cons r rest =>
    cases rest with
    | nil => exact Nat.le_refl 1
    | cons q rest =>
      rw [hrows] at hnodup hmem
      obtain ⟨hr, hpr⟩ := hmem r (List.mem_cons_self ..)
      obtain ⟨hq, hpq⟩ := hmem q (List.mem_cons_of_mem _ (List.mem_cons_self ..))
      rw [List.map_cons, List.map_cons, hp r hr q hq hpr hpq] at hnodup
      simp at hnodup

/-- A stored row is the one that is found under its tenant and identifier. -/
theorem Keyed.findOwn_eq (h : Keyed rows n) (hr : r ∈ rows) :
    findOwn rows (Stored.row r).tenant (Stored.row r).id = some r := by
  cases hfound : findOwn rows (Stored.row r).tenant (Stored.row r).id with
  | none =>
    have hnone := List.find?_eq_none.1 hfound r hr
    simp [Row.isOwn] at hnone
  | some q =>
    obtain ⟨hq, hid, _⟩ := findOwn_eq_some hfound
    rw [h.eq_of_id hq hr hid]

end Rows

/-! ## Listing by time -/

section Time

variable {α β : Type} {time : α → Instant} {rows : List α} {r : α}

theorem mem_newestFirst : r ∈ newestFirst time rows ↔ r ∈ rows := by
  rw [newestFirst, List.mem_mergeSort, List.mem_reverse]

theorem oldestFirst_eq (h : rows.Pairwise fun r q => (time r).micros < (time q).micros) :
    oldestFirst time rows = rows :=
  List.mergeSort_of_pairwise (h.imp fun hlt => decide_eq_true (Nat.le_of_lt hlt))

theorem newestFirst_eq (h : rows.Pairwise fun r q => (time r).micros < (time q).micros) :
    newestFirst time rows = rows.reverse := by
  refine List.mergeSort_of_pairwise (List.pairwise_reverse.2 ?_)
  exact h.imp fun hlt => decide_eq_true (Nat.le_of_lt hlt)

/-- Rows under other names are listed as before. -/
theorem oldestFirst_map {time' : β → Instant} {f : α → β} (h : ∀ r, time' (f r) = time r)
    (rows : List α) : oldestFirst time' (rows.map f) = (oldestFirst time rows).map f := by
  refine (List.map_mergeSort fun r _ q _ => ?_).symm
  rw [h, h]

theorem newestFirst_map {time' : β → Instant} {f : α → β} (h : ∀ r, time' (f r) = time r)
    (rows : List α) : newestFirst time' (rows.map f) = (newestFirst time rows).map f := by
  rw [newestFirst, ← List.map_reverse]
  refine (List.map_mergeSort fun r _ q _ => ?_).symm
  rw [h, h]

end Time

end Rulebook
