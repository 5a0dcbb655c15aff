import Mathlib.Data.List.Sort
import Rulebook.Proofs.Evaluation
import Rulebook.Proofs.History

/-!
The order in which rows are kept. The clock is read for every row that is added, after all readings
before it, and rows stay in their places; so the rows of a table stand in the order of their times,
no two of one time (`Store.Chronological`). Listings by time thus show rows in the order in which
they were stored, or backwards (`Engine.listings_by_time`), and a listing of active versions shows
them in the order in which they were made.
-/
namespace Rulebook

open Txn

variable {c : Impact.Circumstances} {w : Work} {s s' : Store}

/-! ## Versions by the time at which they were made -/

/-- Whether a version was made before another one. -/
def Version.MadeBefore (v w : Version) : Prop := v.createdAt.micros < w.createdAt.micros

instance : DecidableRel Version.MadeBefore := fun v w =>
  inferInstanceAs (Decidable (v.createdAt.micros < w.createdAt.micros))

instance : Std.Irrefl Version.MadeBefore := ⟨fun v => Nat.lt_irrefl v.createdAt.micros⟩

instance : Std.Antisymm Version.MadeBefore :=
  ⟨fun _ _ h h' => absurd h' (Nat.lt_asymm h)⟩

instance : IsTrans Version Version.MadeBefore := ⟨fun _ _ _ => Nat.lt_trans⟩

/-- A version put in its place among others that were made at other times. -/
theorem Version.pairwise_orderedInsert {v : Version} {vs : List Version}
    (h : vs.Pairwise MadeBefore) (hne : ∀ w ∈ vs, w.createdAt ≠ v.createdAt) :
    (vs.orderedInsert MadeBefore v).Pairwise MadeBefore := by
  induction vs with
  | nil => exact List.pairwise_singleton _ v
  | cons w rest ih =>
    obtain ⟨hw, hrest⟩ := List.pairwise_cons.1 h
    rw [List.orderedInsert_cons]
    split
    · next hbefore =>
      refine List.pairwise_cons.2 ⟨fun x hx => ?_, h⟩
      rcases List.mem_cons.1 hx with rfl | hx
      · exact hbefore
      · exact IsTrans.trans _ _ _ hbefore (hw x hx)
    · next hnot =>
      have hafter : w.MadeBefore v := by
        refine Nat.lt_of_le_of_ne (Nat.not_lt.1 hnot) fun heq => ?_
        exact hne w (List.mem_cons_self ..) (congrArg Instant.mk heq)
      refine List.pairwise_cons.2 ⟨fun x hx => ?_, ih hrest fun x hx => ?_⟩
      · rcases (List.mem_orderedInsert _).1 hx with rfl | hx
        · exact hafter
        · exact hw x hx
      · exact hne x (List.mem_cons_of_mem _ hx)

/-! ## Stores in the order of time -/

/-- The rows that are listed by time stand in the order of their times, all of which have passed:
overrides in that of their approval, the others in that of their making. -/
structure Store.Chronological (s : Store) : Prop where
  packs : Ticks ⟨0⟩ s.clock (s.packs.map fun p => p.createdAt)
  regulations : Ticks ⟨0⟩ s.clock (s.regulations.map fun r => r.createdAt)
  versions : Ticks ⟨0⟩ s.clock (s.versions.map fun v => v.createdAt)
  findings : Ticks ⟨0⟩ s.clock (s.findings.map fun f => f.createdAt)
  tasks : Ticks ⟨0⟩ s.clock (s.tasks.map fun k => k.createdAt)
  overrides : Ticks ⟨0⟩ s.clock (s.overrides.map fun o => o.approvedAt)

theorem Store.Chronological.empty (t : Instant) (n : Nat) : (Store.empty t n).Chronological := by
  constructor <;> exact Nat.zero_le _

/-- Time goes on. -/
theorem Store.Chronological.pass (h : s.Chronological) {t : Instant} (time : Ticks s.clock t []) :
    ({ s with clock := t } : Store).Chronological where
  packs := h.packs.pass time
  regulations := h.regulations.pass time
  versions := h.versions.pass time
  findings := h.findings.pass time
  tasks := h.tasks.pass time
  overrides := h.overrides.pass time

/-- A row that is added comes last. -/
theorem Ticks.add {α : Type} {time : α → Instant} {rows new : List α} {start now stop : Instant}
    (h : Ticks start now (rows.map time)) (hnew : Ticks now stop (new.map time)) :
    Ticks start stop ((rows ++ new).map time) := by
  rw [List.map_append]
  exact h.append hnew

/-- A row that is replaced keeps its time, and its place. -/
theorem Ticks.replace {α : Type} [Stored α] {time : α → Instant} {rows : List α} {r q : α}
    {start stop : Instant} {n : Nat} (h : Ticks start stop (rows.map time)) (hkeyed : Keyed rows n)
    (hq : q ∈ rows) (hid : (Stored.row r).id = (Stored.row q).id) (hr : time r = time q) :
    Ticks start stop ((replaceRow rows r).map time) := by
  rw [hkeyed.map_replaceRow hq hid hr fun _ _ _ => rfl]
  exact h

theorem Change.chronological (h : Change c w s s') (hs : s.Intact) (hc : s.Chronological) :
    s'.Chronological := by
  cases h with
  | passed _ time => exact { hc.pass time with }
  | packAdded _ time => exact { hc.pass time.later with packs := hc.packs.add time }
  | packSaved old same made time =>
    exact { hc.pass time with packs := (hc.pass time).packs.replace hs.packs old same.1 made }
  | regulationAdded _ _ time =>
    exact { hc.pass time.later with regulations := hc.regulations.add time }
  | ruleAdded _ _ _ time => exact { hc.pass time with }
  | ruleSaved _ time => exact { hc.pass time with }
  | versionAdded _ _ _ _ _ time =>
    exact { hc.pass time.later with versions := hc.versions.add time }
  | versionSaved old _ _ time =>
    exact { hc.pass time with
      versions := (hc.pass time).versions.replace hs.versions old (by rfl) rfl }
  | @filed _ f ts t _ _ _ _ _ time =>
    -- The tasks are made after their finding.
    have hfinding : Ticks s.clock t [f.createdAt] := ⟨time.1, time.2.later⟩
    have hearlier : Ticks s.clock ⟨f.createdAt.micros + 1⟩ [] := Nat.le_succ_of_le time.1
    have htasks : Ticks s.clock t (ts.map fun k => k.createdAt) := hearlier.append time.2
    exact { hc.pass time.later with
      findings := hc.findings.add hfinding, tasks := hc.tasks.add htasks }
  | findingMoved old _ _ time =>
    exact { hc.pass time with
      findings := (hc.pass time).findings.replace hs.findings old (by rfl) rfl }
  | overridden _ _ time => exact { hc.pass time.later with overrides := hc.overrides.add time }
  | runAdded _ _ _ time => exact { hc.pass time with }
  | runFailed _ _ time => exact { hc.pass time with }
  | runCancelled _ _ time => exact { hc.pass time with }
  | runCompleted _ _ _ _ time => exact { hc.pass time with }

theorem Changes.chronological (h : Changes c w s s') (hs : s.Intact) (hc : s.Chronological) :
    s'.Chronological :=
  h.keep hs hc fun ht hc last => last.chronological ht hc

/-- All moves of a history keep the order of time. -/
theorem Engine.after_chronological (source : EntitySource) (clock : Instant) (nextId : Nat)
    (moves : List Move) : ((fresh source clock nextId).after moves).store.Chronological :=
  after_keeps (fresh_intact source clock nextId) (.empty clock nextId) fun _ hs hc m _ =>
    (move_changes hs m).chronological hs hc

namespace Store.Chronological

/-- No version is made after another one that stands behind it. -/
theorem ascending (h : s.Chronological) : s.versions.Pairwise Version.MadeBefore :=
  (List.pairwise_map (f := fun v : Version => v.createdAt)).1 h.versions.ascending

/-- No two versions were made at the same time. -/
theorem createdAt_ne (h : s.Chronological) {v w : Version} (hv : v ∈ s.versions)
    (hw : w ∈ s.versions) (hne : v ≠ w) : v.createdAt ≠ w.createdAt := by
  have hpair : s.versions.Pairwise fun v w => v.createdAt ≠ w.createdAt :=
    h.ascending.imp fun {v w} hbefore heq => Nat.ne_of_lt hbefore (congrArg Instant.micros heq)
  have : Std.Symm fun v w : Version => v.createdAt ≠ w.createdAt := ⟨fun _ _ => Ne.symm⟩
  exact hpair.forall hv hw hne

end Store.Chronological

/-! ## Listings by time -/

/-- In every history packs, regulations and findings are listed backwards from the one that was
stored last, tasks and overrides in the order in which they were stored. -/
theorem Engine.listings_by_time (source : EntitySource) (clock : Instant) (nextId : Nat)
    (moves : List Move) (caller : Caller) :
    let s := ((fresh source clock nextId).after moves).store
    Yields (Catalogue.listPacks caller) s (ownRows s.packs caller.tenant).reverse s ∧
    (∀ pack, Yields (Catalogue.listRegulations caller pack) s
      ((ownRows s.regulations caller.tenant).filter fun r => pack.isNone || r.pack == pack).reverse
      s) ∧
    (∀ limit filter views, Yields (Review.listFindings limit caller filter) s views s →
      views = (Review.upTo limit ((ownRows s.findings caller.tenant).filter
        filter.admits).reverse).map s.findingView) ∧
    (∀ finding, s.tasksOf finding = s.tasks.filter fun k => k.finding == finding) ∧
    ∀ finding f, findOwn s.findings caller.tenant finding = some f →
      Yields (Review.listOverrides caller finding) s
        ((ownRows s.overrides caller.tenant).filter fun o => o.finding == finding) s := by
  intro s
  have h : s.Chronological := after_chronological source clock nextId moves
  refine ⟨?_, fun pack => ?_, fun limit filter views hviews => ?_, fun finding => ?_,
    fun finding f hf => ?_⟩
  · rw [← (h.packs.listed (ownRows_sublist _ _)).2]
    exact yields_get_bind.2 (yields_pure.2 ⟨rfl, rfl⟩)
  · rw [← (h.regulations.listed (List.filter_sublist.trans (ownRows_sublist _ _))).2]
    exact yields_get_bind.2 (yields_pure.2 ⟨rfl, rfl⟩)
  · unfold Review.listFindings at hviews
    obtain ⟨_, -, hviews⟩ := (reads_listForM (fun wish => (reads_encoded? wish).discard)
      _).yields_bind.1 hviews
    obtain ⟨column, hlimit, hviews⟩ := (reads_column _).yields_bind.1 hviews
    obtain ⟨-, hsame, -⟩ := yields_column.1 hlimit
    rw [hsame, yields_get_bind] at hviews
    rw [(yields_pure.1 hviews).1,
      (h.findings.listed (List.filter_sublist.trans (ownRows_sublist _ _))).2]
  · exact (h.tasks.listed List.filter_sublist).1
  · rw [← (h.overrides.listed (List.filter_sublist.trans (ownRows_sublist _ _))).1]
    refine yields_bind.2 ⟨(), s, yields_discard.2 ⟨f, yields_own.2 ⟨hf, rfl⟩⟩, ?_⟩
    exact yields_get_bind.2 (yields_pure.2 ⟨rfl, rfl⟩)

/-! ## Listings of active versions -/

/-- The active versions of a tenant whose rules are about a type, as a listing shows them. -/
def Store.listed (s : Store) (tenant : Uuid) (entityType : String) : List Version :=
  (s.activeVersions tenant entityType).map Prod.fst

theorem Authoring.listActive_yields (s : Store) (caller : Caller) (entityType : String) :
    Yields (listActive caller entityType) s (s.listed caller.tenant entityType) s := by
  unfold listActive
  refine (reads_encoded _).yields_bind.2 ⟨entityType, ?_, yields_get_bind.2 ?_⟩
  · exact yields_encoded.2 ⟨Text.string?_ofString entityType, rfl⟩
  · exact yields_pure.2 ⟨rfl, rfl⟩

theorem Store.Intact.mem_listed (hs : s.Intact) {tenant : Uuid} {entityType : String}
    {v : Version} : v ∈ s.listed tenant entityType ↔
      (v ∈ s.versions ∧ v.status = .active) ∧ v.tenant = tenant ∧
        ∃ r ∈ s.rules, r.id = v.rule ∧ r.covers entityType = true := by
  rw [Store.listed, List.mem_map]
  constructor
  · rintro ⟨⟨v, r⟩, hlisted, rfl⟩
    obtain ⟨hv, htenant, hactive, hr, hid, hcovers⟩ := hs.mem_activeVersions.1 hlisted
    exact ⟨⟨hv, hactive⟩, htenant, r, hr, hid, hcovers⟩
  · rintro ⟨⟨hv, hactive⟩, htenant, r, hr, hid, hcovers⟩
    exact ⟨(v, r), hs.mem_activeVersions.2 ⟨hv, htenant, hactive, hr, hid, hcovers⟩, rfl⟩

/-- A listing shows versions in the order in which they were made. -/
theorem Store.Chronological.listed (h : s.Chronological) (tenant : Uuid) (entityType : String) :
    (s.listed tenant entityType).Pairwise Version.MadeBefore :=
  h.ascending.sublist (s.activeVersions_sublist tenant entityType)

end Rulebook
