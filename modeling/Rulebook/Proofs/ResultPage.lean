import Mathlib
import Rulebook.Proofs.RunLife

/-!
Pages of results. A complete run is shown with the first of its results in an order that puts what
triggers before everything else and either group in the order of the identifiers (`TriggersFirst`).
So a page leaves out something that triggers only if it shows nothing else, and where no two
entities share an identifier there is one such listing, of which every page is the start
(`pages_show_triggers_first`). The size of a page is a number of 64 bits; a greater one is refused.
-/
namespace Rulebook

open Txn Impact

namespace Impact

variable {q k l : ImpactResult} {qs listing other page : List ImpactResult} {s s' : Store}
  {caller : Caller}

/-! ## The order of listing -/

/-- All that triggers comes before everything else, and either group is in the order of the
identifiers. -/
def TriggersFirst (listing : List ImpactResult) : Prop :=
  ∃ triggering others, listing = triggering ++ others ∧
    (∀ q ∈ triggering, q.wouldTrigger = true) ∧ (∀ q ∈ others, q.wouldTrigger = false) ∧
    triggering.Pairwise (fun q k => q.entityId ≤ k.entityId) ∧
    others.Pairwise fun q k => q.entityId ≤ k.entityId

theorem listedBefore_iff : listedBefore q k = true ↔
    q.wouldTrigger = true ∧ k.wouldTrigger = false ∨
      q.wouldTrigger = k.wouldTrigger ∧ q.entityId ≤ k.entityId := by
  unfold listedBefore
  cases q.wouldTrigger <;> cases k.wouldTrigger <;> simp

theorem listedBefore_trans (h : listedBefore q k = true) (h' : listedBefore k l = true) :
    listedBefore q l = true := by
  rw [listedBefore_iff] at h h' ⊢
  rcases h with ⟨hq, hk⟩ | ⟨hqk, hle⟩
  · rcases h' with ⟨hk', -⟩ | ⟨hkl, -⟩
    · rw [hk] at hk'
      cases hk'
    · exact Or.inl ⟨hq, hkl ▸ hk⟩
  · rcases h' with ⟨hk, hl⟩ | ⟨hkl, hle'⟩
    · exact Or.inl ⟨hqk.trans hk, hl⟩
    · exact Or.inr ⟨hqk.trans hkl, String.le_trans hle hle'⟩

theorem listedBefore_total (q k : ImpactResult) :
    (listedBefore q k || listedBefore k q) = true := by
  rw [Bool.or_eq_true, listedBefore_iff, listedBefore_iff]
  rcases String.le_total q.entityId k.entityId with hle | hle <;>
    cases q.wouldTrigger <;> cases k.wouldTrigger <;> simp [hle]

/-- Results with different identifiers are listed in one order only. -/
theorem entityId_eq_of_listedBefore (h : listedBefore q k = true) (h' : listedBefore k q = true) :
    q.entityId = k.entityId := by
  rw [listedBefore_iff] at h h'
  rcases h with ⟨hq, hk⟩ | ⟨hqk, hle⟩
  · rcases h' with ⟨-, hq'⟩ | ⟨hkq, -⟩
    · rw [hq] at hq'
      cases hq'
    · rw [hk, hq] at hkq
      cases hkq
  · rcases h' with ⟨hk, hq⟩ | ⟨-, hle'⟩
    · rw [hq, hk] at hqk
      cases hqk
    · exact String.le_antisymm hle hle'

theorem triggersFirst_iff :
    TriggersFirst listing ↔ listing.Pairwise fun q k => listedBefore q k = true := by
  constructor
  · rintro ⟨triggering, others, rfl, htriggering, hothers, hfirst, hsecond⟩
    refine List.pairwise_append.2 ⟨?_, ?_, fun q hq k hk => ?_⟩
    · refine hfirst.imp_of_mem fun {q k} hq hk hle => listedBefore_iff.2 (Or.inr ⟨?_, hle⟩)
      rw [htriggering q hq, htriggering k hk]
    · refine hsecond.imp_of_mem fun {q k} hq hk hle => listedBefore_iff.2 (Or.inr ⟨?_, hle⟩)
      rw [hothers q hq, hothers k hk]
    · exact listedBefore_iff.2 (Or.inl ⟨htriggering q hq, hothers k hk⟩)
  · intro h
    induction h with
    | nil => exact ⟨[], [], rfl, by simp, by simp, .nil, .nil⟩
    | @cons q rest hq _ ih =>
      obtain ⟨triggering, others, rfl, htriggering, hothers, hfirst, hsecond⟩ := ih
      cases htriggers : q.wouldTrigger with
      | true =>
        refine ⟨q :: triggering, others, rfl, ?_, hothers, ?_, hsecond⟩
        · exact List.forall_mem_cons.2 ⟨htriggers, htriggering⟩
        · refine List.pairwise_cons.2 ⟨fun k hk => ?_, hfirst⟩
          rcases listedBefore_iff.1 (hq k (List.mem_append_left _ hk)) with ⟨-, hk'⟩ | ⟨-, hle⟩
          · rw [htriggering k hk] at hk'
            cases hk'
          · exact hle
      | false =>
        -- Nothing that triggers comes after what does not.
        have hbefore : ∀ k ∈ triggering ++ others, q.wouldTrigger = k.wouldTrigger ∧
            q.entityId ≤ k.entityId := by
          intro k hk
          rcases listedBefore_iff.1 (hq k hk) with ⟨hq', -⟩ | h
          · rw [htriggers] at hq'
            cases hq'
          · exact h
        have hnone : triggering = [] := by
          refine List.eq_nil_iff_forall_not_mem.2 fun k hk => ?_
          have hsame := (hbefore k (List.mem_append_left _ hk)).1
          rw [htriggers, htriggering k hk] at hsame
          cases hsame
        rw [hnone, List.nil_append] at hbefore ⊢
        refine ⟨[], q :: others, rfl, by simp, ?_, .nil, ?_⟩
        · exact List.forall_mem_cons.2 ⟨htriggers, hothers⟩
        · exact List.pairwise_cons.2 ⟨fun k hk => (hbefore k hk).2, hsecond⟩

theorem TriggersFirst.take (h : TriggersFirst listing) (n : Nat) :
    TriggersFirst (listing.take n) :=
  triggersFirst_iff.2 ((triggersFirst_iff.1 h).sublist (List.take_sublist n listing))

/-- The start of a listing has as much that triggers as it has room for. -/
theorem TriggersFirst.countP_take (h : TriggersFirst listing) (n : Nat) :
    (listing.take n).countP (fun q => q.wouldTrigger) =
      min n (listing.countP fun q => q.wouldTrigger) := by
  obtain ⟨triggering, others, rfl, htriggering, hothers, -, -⟩ := h
  have hall : ∀ m, (triggering.take m).countP (fun q => q.wouldTrigger) = min m triggering.length :=
    fun m => by
      rw [List.countP_eq_length.2 fun q hq => htriggering q (List.mem_of_mem_take hq),
        List.length_take]
  have hnone : ∀ m, (others.take m).countP (fun q => q.wouldTrigger) = 0 := fun m =>
    List.countP_eq_zero.2 fun q hq => by simp [hothers q (List.mem_of_mem_take hq)]
  have hwhole := hall triggering.length
  have hrest := hnone others.length
  rw [List.take_length] at hwhole hrest
  rw [List.take_append, List.countP_append, List.countP_append, hall, hnone, hwhole, hrest,
    Nat.min_self, Nat.add_zero, Nat.add_zero]

/-- Where no two results share an identifier, there is one listing of them. -/
theorem TriggersFirst.eq_of_perm (h : TriggersFirst listing) (h' : TriggersFirst other)
    (hperm : listing.Perm other) (hnodup : (listing.map fun q => q.entityId).Nodup) :
    listing = other := by
  refine List.Perm.eq_of_pairwise (fun q k hq hk hqk hkq => ?_) (triggersFirst_iff.1 h)
    (triggersFirst_iff.1 h') hperm
  exact List.inj_on_of_nodup_map hnodup hq (hperm.mem_iff.2 hk)
    (entityId_eq_of_listedBefore hqk hkq)

theorem triggersFirst_mergeSort (qs : List ImpactResult) :
    TriggersFirst (qs.mergeSort listedBefore) := by
  refine triggersFirst_iff.2 (List.pairwise_mergeSort ?_ listedBefore_total qs)
  exact fun _ _ _ => listedBefore_trans

/-- A tenant is shown all results of a run that are its own. -/
theorem perm_resultsOf {tenant run : Uuid} (h : ∀ q ∈ s.resultsFor run, q.tenant = tenant) :
    (resultsOf s tenant run).Perm (s.resultsFor run) := by
  have hown : s.resultsFor run = (ownRows s.results tenant).filter fun q => q.run == run := by
    refine filter_own fun q hq hrun => ?_
    exact h q (List.mem_filter.2 ⟨hq, hrun⟩)
  rw [hown]
  exact List.mergeSort_perm _ _

/-! ## Pages -/

/-- What a page of some size shows of the results of a run. -/
structure Shows (counts : ImpactSummary) (qs : List ImpactResult) (size : Nat)
    (page : List ImpactResult) : Prop where
  length_eq : page.length = min size counts.total
  triggering_eq : page.countP (fun q => q.wouldTrigger) = min size counts.wouldTrigger
  triggersFirst : TriggersFirst page
  /-- Nothing else is shown, and nothing more often than it is there. -/
  subperm : page.Subperm qs
  whole : counts.total ≤ size → page.Perm qs
  /-- The page is the start of the listing, if there is only one. -/
  start : (qs.map fun q => q.entityId).Nodup → ∀ listing : List ImpactResult, listing.Perm qs →
    TriggersFirst listing → page = listing.take size

/-- The start of a listing of the results is a page of them. -/
theorem shows_take {counts : ImpactSummary} (htotal : counts.total = qs.length)
    (htrigger : counts.wouldTrigger = qs.countP fun q => q.wouldTrigger)
    (h : TriggersFirst listing) (hperm : listing.Perm qs) (size : Nat) :
    Shows counts qs size (listing.take size) where
  length_eq := by rw [List.length_take, hperm.length_eq, htotal]
  triggering_eq := by rw [h.countP_take, hperm.countP_eq, htrigger]
  triggersFirst := h.take size
  subperm := (List.take_sublist size listing).subperm.trans hperm.subperm
  whole hle := by
    rw [htotal, ← hperm.length_eq] at hle
    rw [List.take_of_length_le hle]
    exact hperm
  start hnodup other hother h' := by
    rw [h.eq_of_perm h' (hperm.trans hother.symm)]
    exact (hperm.map _).nodup_iff.2 hnodup

/-- Where there is only one listing, a page is the start of every larger one. -/
theorem Shows.isPrefix {counts : ImpactSummary} {size larger : Nat} {more : List ImpactResult}
    (h : Shows counts qs size page) (h' : Shows counts qs larger more)
    (hnodup : (qs.map fun q => q.entityId).Nodup) (hle : size ≤ larger) : page <+: more := by
  have hperm := List.mergeSort_perm qs listedBefore
  rw [h.start hnodup _ hperm (triggersFirst_mergeSort qs),
    h'.start hnodup _ hperm (triggersFirst_mergeSort qs)]
  exact List.take_prefix_take_left hle

/-- A run of the caller is shown with a page of any size of 64 bits. -/
theorem getRun_goes_through {run : ImpactRun} {size : Nat} (hs : s.Intact) (hrun : run ∈ s.runs)
    (htenant : run.tenant = caller.tenant) (hsize : (size : Int) < 0x8000000000000000) :
    Yields (getRun size caller run.id) s
      ⟨run, (resultsOf s caller.tenant run.id).take size⟩ s := by
  have hfound : findOwn s.runs caller.tenant run.id = some run := htenant ▸ hs.runs.findOwn_eq hrun
  refine yields_own_bind.2 ⟨run, hfound, ?_⟩
  refine yields_bind.2 ⟨size, s, column_goes_through ⟨by omega, hsize⟩, ?_⟩
  refine yields_get_bind.2 (yields_pure.2 ⟨?_, rfl⟩)
  rw [Review.upTo, if_neg (by omega), Int.toNat_natCast]

/-- A greater size is refused. -/
theorem fails_getRun {run : ImpactRun} {size : Nat} (hs : s.Intact) (hrun : run ∈ s.runs)
    (htenant : run.tenant = caller.tenant) (hsize : 0x8000000000000000 ≤ (size : Int)) :
    Fails (getRun size caller run.id) s .integerTooWide s := by
  have hfound : findOwn s.runs caller.tenant run.id = some run := htenant ▸ hs.runs.findOwn_eq hrun
  refine fails_own_bind.2 (Or.inr ⟨run, hfound, fails_bind.2 (Or.inl ?_)⟩)
  rcases yields_or_fails (column size) s with ⟨i, t, h⟩ | ⟨e, t, h⟩
  · exact absurd (yields_column.1 h).1.2 (not_lt.2 hsize)
  · obtain ⟨rfl, rfl⟩ := fails_column h
    exact h

end Impact

/-- A page of a complete run shows as many of its results as there is room for, and of these as
many that trigger: they come first, and either group is in the order of the identifiers. Where no
two entities share an identifier, every page is the start of the larger ones. A page with room for
all shows one result for each entity that was listed when the run was executed. There is a page of
every size that is a number of 64 bits, and of no greater one. -/
theorem pages_show_triggers_first (source : EntitySource) (clock : Instant) (nextId : Nat)
    (moves : List Move) (run : ImpactRun) (caller : Caller) :
    let e := Engine.fresh source clock nextId
    let s := (e.after moves).store
    let qs := s.resultsFor run.id
    run ∈ s.runs → run.status = .complete → run.tenant = caller.tenant →
    ∃ counts, run.summary = some counts ∧
      (∃ done m rest, moves = done ++ m :: rest ∧
        Listed (m.circumstances (e.after done)) (e.after done).store run qs) ∧
      (∀ size : Nat, (size : Int) < 0x8000000000000000 → ∃ page,
        Yields (getRun size caller run.id) s ⟨run, page⟩ s ∧ Shows counts qs size page ∧
        ((qs.map fun q => q.entityId).Nodup → ∀ larger : Nat, size ≤ larger →
          (larger : Int) < 0x8000000000000000 → ∃ more,
            Yields (getRun larger caller run.id) s ⟨run, more⟩ s ∧ page <+: more)) ∧
      ∀ size : Nat, 0x8000000000000000 ≤ (size : Int) →
        Fails (getRun size caller run.id) s .integerTooWide s := by
  intro e s qs hrun hcomplete htenant
  have hfresh := Engine.fresh_intact source clock nextId
  have hs : s.Intact := Engine.after_intact hfresh moves
  obtain ⟨-, -, counts, hcounts, done, m, rest, hmoves, -, hscanned⟩ :=
    (Engine.after_runs_inOrder hfresh rfl moves run hrun).complete hcomplete
  obtain ⟨htotal, htrigger, -⟩ := hscanned.counts_eq
  have hperm : (resultsOf s caller.tenant run.id).Perm qs :=
    perm_resultsOf fun q hq => (hscanned.mem q hq).2.trans htenant
  have hpages : ∀ size : Nat,
      Shows counts qs size ((resultsOf s caller.tenant run.id).take size) := fun size =>
    shows_take htotal htrigger (triggersFirst_mergeSort _) hperm size
  refine ⟨counts, hcounts, ⟨done, m, rest, hmoves, hscanned.listed⟩, fun size hsize => ?_,
    fun size hsize => fails_getRun hs hrun htenant hsize⟩
  refine ⟨_, getRun_goes_through hs hrun htenant hsize, hpages size, ?_⟩
  intro hnodup larger hle hlarger
  exact ⟨_, getRun_goes_through hs hrun htenant hlarger,
    (hpages size).isPrefix (hpages larger) hnodup hle⟩

/-- Two loans, of which the second has a flag. -/
def flaggedLoans : EntitySource :=
  .memory [{ tenant := ⟨100⟩, entityType := "loan", entity := [("id", .text "1")] },
    { tenant := ⟨100⟩, entityType := "loan", entity := [("id", .text "2"), ("flag", .bool true)] }]

/-- A version about flagged loans is dry-run. -/
def flagRun : List Move :=
  let caller : Caller := { tenant := ⟨100⟩ }
  [.call {} caller (.createPack { name := "Lending", authority := "Board" }),
    .call {} caller (.createRule { pack := ⟨0⟩, name := "Risk" }
      { conditions := .object [("field", .text "loan.flag"), ("op", .text "exists")] }),
    .call {} caller (.startRun ⟨2⟩)]

def flagRunDone : Engine := (Engine.fresh flaggedLoans default 0).after flagRun

theorem results_flagRun :
    flagRunDone.store.runs.map (fun run => (run.status, run.tenant,
      run.summary.map fun counts => (counts.total, counts.wouldTrigger))) =
        [(.complete, ⟨100⟩, some (2, 1))] := by
  cbv

theorem exists_flagRun :
    ∃ run ∈ flagRunDone.store.runs, run.status = .complete ∧ run.tenant = ⟨100⟩ ∧
      run.summary.map (fun counts => (counts.total, counts.wouldTrigger)) = some (2, 1) := by
  obtain ⟨run, hrun, hrow⟩ := exists_of_map_eq_singleton results_flagRun
  exact ⟨run, hrun, by simpa only [Prod.mk.injEq] using hrow⟩

/-- A page with room for one of the two loans shows the one with the flag. -/
theorem pages_show_triggers_first_flag :
    ∃ run ∈ flagRunDone.store.runs, run.status = .complete ∧ ∃ q,
      Yields (getRun 1 { tenant := ⟨100⟩ } run.id) flagRunDone.store ⟨run, [q]⟩
        flagRunDone.store ∧ q.wouldTrigger = true := by
  obtain ⟨run, hrun, hcomplete, htenant, hsummary⟩ := exists_flagRun
  obtain ⟨counts, hcounts, -, hpages, -⟩ := pages_show_triggers_first flaggedLoans default 0 flagRun
    run { tenant := ⟨100⟩ } hrun hcomplete htenant
  obtain ⟨page, hpage, hshows, -⟩ := hpages 1 (by decide)
  rw [hcounts] at hsummary
  obtain ⟨htotal, htrigger⟩ := Prod.mk.inj (Option.some.inj hsummary)
  have hlength := hshows.length_eq
  rw [htotal] at hlength
  obtain ⟨q, rfl⟩ := List.length_eq_one_iff.1 hlength
  have hcount := hshows.triggering_eq
  rw [htrigger] at hcount
  refine ⟨run, hrun, hcomplete, q, hpage, ?_⟩
  exact List.countP_eq_length.1 hcount q (List.mem_singleton_self q)

/-- A page with room for 2 to the 63 results is refused. -/
theorem widest_page_refused :
    ∃ run ∈ flagRunDone.store.runs, run.status = .complete ∧ run.tenant = ⟨100⟩ ∧
      ∀ view s', ¬ Yields (getRun 0x8000000000000000 { tenant := ⟨100⟩ } run.id) flagRunDone.store
        view s' := by
  obtain ⟨run, hrun, hcomplete, htenant, -⟩ := exists_flagRun
  have hs : flagRunDone.store.Intact := Engine.after_intact (Engine.fresh_intact _ _ _) flagRun
  have hfails : Fails (getRun (0x8000000000000000 : Nat) { tenant := ⟨100⟩ } run.id)
      flagRunDone.store .integerTooWide flagRunDone.store :=
    fails_getRun hs hrun htenant le_rfl
  exact ⟨run, hrun, hcomplete, htenant, fun view s' h => not_fails_yields h hfails⟩

end Rulebook
