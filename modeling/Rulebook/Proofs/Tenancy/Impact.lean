import Rulebook.Proofs.Calls.Impact
import Rulebook.Proofs.Store.Frame
import Rulebook.Proofs.Tenancy.Findings

/-!
Impact runs, mirrored. A run is executed against the entities of its tenant, whose listing is the
same for both stores; what it stores and how it ends are the same but for numbers.
-/
namespace Rulebook.Impact

open Txn

variable {ρ : Uuid → Uuid} {A : Uuid} {s t : Store} {caller : Caller} {c c' : Circumstances}

/-! ## Ending runs -/

theorem Outcome.applyTo_rename (outcome : Outcome) (run : ImpactRun) :
    outcome.applyTo (run.rename ρ) = (outcome.applyTo run).rename ρ := by
  cases outcome <;> rfl

/-- Runs that are found alike end alike. -/
theorem finish_mirrors {run run' : Uuid} (h : s.Twins ρ A t)
    (hfind : findOwn t.runs A run' = (findOwn s.runs A run).map (ImpactRun.rename ρ))
    (outcome : Outcome) :
    Mirrors ρ A id (finish A run outcome) (finish A run' outcome) s t := by
  refine .now_bind h (.now_bind h.tick (.get_bind ?_))
  have h := h.tick.tick
  dsimp only
  rw [hfind]
  cases hfound : findOwn s.runs A run with
  | none => exact .pure h rfl
  | some stored =>
    obtain ⟨hstored, -, htenant⟩ := findOwn_eq_some hfound
    refine .ite Iff.rfl (fun _ => ?_) fun _ => .pure h rfl
    rw [outcome.applyTo_rename]
    refine (Mirrors.saveRun h hstored htenant ?_ ?_ ?_).bind fun _ _ _ _ h => .pure h rfl
    · cases outcome <;> rfl
    · cases outcome <;> rfl
    · cases outcome <;> rfl

theorem fail_mirrors {run : ImpactRun} (h : s.Twins ρ A t) (hA : run.tenant = A) (e : Failure) :
    Mirrors ρ A id (fail run e) (fail (run.rename ρ) e) s t := by
  subst hA
  refine .blind_bind h (blind_encoded _) fun message _ => ?_
  exact (finish_mirrors h (findOwn_rename h.injective (fun _ => rfl) h.runs run.id) _).discard

theorem settle_mirrors {run : ImpactRun} (h : s.Twins ρ A t) (hA : run.tenant = A) (e : Failure) :
    Mirrors ρ A id (settle run e) (settle (run.rename ρ) e) s t := by
  unfold settle
  split
  · exact .pure h rfl
  · exact fail_mirrors h hA e

/-! ## Completing runs -/

theorem addResultRows_mirrors {run : Uuid} (h : s.Twins ρ A t) (hrun : (run, A) ∈ owned s.runs)
    (ps : List Projection) :
    Mirrors ρ A id (addResultRows A run ps) (addResultRows A (ρ run) ps) s t := by
  induction ps generalizing s t with
  | nil => exact .pure h rfl
  | cons p rest ih =>
    refine .blind_bind h (blind_encoded _) fun entityId _ => .newRow_bind h ?_
    refine (Mirrors.addResult h rfl rfl hrun).bind fun _ s' t' hadded h' => ih h' ?_
    rw [yields_modify.1 hadded]
    exact hrun

theorem addResults_mirrors {run : Uuid} (h : s.Twins ρ A t) (hrun : (run, A) ∈ owned s.runs)
    (ps : List Projection) :
    Mirrors ρ A id (addResults A run ps) (addResults A (ρ run) ps) s t :=
  .blind_bind h (blind_listForM (fun _ => blind_json _) ps) fun _ _ =>
    addResultRows_mirrors h hrun ps

theorem hasRunning_twins (h : s.Twins ρ A t) (run : Uuid) :
    hasRunning t A (ρ run) = hasRunning s A run := by
  rw [hasRunning, hasRunning, findOwn_rename h.injective (fun _ => rfl) h.runs run]
  cases findOwn s.runs A run with
  | none => rfl
  | some _ => rfl

/-- A run that is not lost by the time its results are stored is completed alike. -/
theorem complete_mirrors {run : ImpactRun} {v : Version} {ps : List Projection}
    (h : s.Twins ρ A t) (hA : run.tenant = A) (hrun : (run.id, A) ∈ owned s.runs)
    (hkept : ∀ u s', Yields (addResults A run.id ps) s u s' → hasRunning s A run.id = true) :
    Mirrors ρ A id (complete run v ps) (complete (run.rename ρ) (v.rename ρ) ps) s t := by
  subst hA
  refine (addResults_mirrors h hrun ps).bind fun _ s₁ t₁ hadded h₁ => ?_
  have hfind := findOwn_rename h₁.injective (fun _ => rfl) h₁.runs run.id
  refine (finish_mirrors h₁ hfind _).bind fun completed s₂ t₂ hfinish h₂ => ?_
  have hcompleted : completed = true := by
    obtain ⟨qs, clock, -, -, -, hs₁⟩ := yields_addResults hadded
    rw [(yields_finish.1 hfinish).1, ← hkept _ _ hadded, hasRunning, hasRunning, hs₁]
  rw [hcompleted]
  exact .pure h₂ rfl

/-- What comes of completing a run comes of it in the other store, also where the run has ended by
then: the failures name different runs, but neither leaves a trace. -/
theorem settled_mirrors {run : ImpactRun} {v : Version} {ps : List Projection}
    (h : s.Twins ρ A t) (hA : run.tenant = A) (hrun : (run.id, A) ∈ owned s.runs) :
    Mirrors ρ A id (tryCatch (undoing (complete run v ps)) (settle run))
      (tryCatch (undoing (complete (run.rename ρ) (v.rename ρ) ps)) (settle (run.rename ρ)))
      s t := by
  subst hA
  by_cases hkept : ∀ u s', Yields (addResults run.tenant run.id ps) s u s' →
    hasRunning s run.tenant run.id = true
  · exact .tryCatch (.undoing h (complete_mirrors h rfl hrun hkept)) fun e _ _ _ h =>
      settle_mirrors h rfl e
  · simp only [not_forall, Bool.not_eq_true] at hkept
    obtain ⟨u, s₁, hadded, hlost⟩ := hkept
    rcases (addResults_mirrors h hrun ps).outcomes with
      ⟨_, _, t₁, -, hadded', -, -⟩ | ⟨e, _, _, hfails, -, -, -⟩
    · have hlost' := (hasRunning_twins h run.id).trans hlost
      have hother : Yields (tryCatch (undoing (complete (run.rename ρ) (v.rename ρ) ps))
          (settle (run.rename ρ))) t () t := (complete_lost hadded' hlost').2
      exact .of_runs (r := .ok ()) (complete_lost hadded hlost).2 hother h fun _ _ => rfl
    · exact absurd hfails (not_fails_yields hadded)

/-! ## Executing runs -/

/-- What a run depends on besides the store is the same to a tenant. -/
structure Circumstances.Agree (tenant : Uuid) (c c' : Circumstances) : Prop where
  policy : c'.policy = c.policy
  source : c.source.Agree tenant c'.source

theorem population_rename (hc : c.Agree A c') {v : Version} (hA : v.tenant = A) (r : Rule) :
    population c'.policy c'.source (v.rename ρ) (r.rename ρ) =
      population c.policy c.source v r := by
  subst hA
  unfold population
  rw [hc.policy, show (v.rename ρ).tenant = v.tenant from rfl, hc.source.list]
  rfl

theorem conclude_mirrors (hc : c.Agree A c') {run : ImpactRun} {v : Version} (h : s.Twins ρ A t)
    (hA : run.tenant = A) (hrun : (run.id, A) ∈ owned s.runs) (hv : v.tenant = A) (r : Rule)
    (today : Date) :
    Mirrors ρ A id (conclude c run v r today)
      (conclude c' (run.rename ρ) (v.rename ρ) (r.rename ρ) today) s t := by
  have hprojections : (fun p => projections p (v.rename ρ) (r.rename ρ) today) =
      fun p => projections p v r today := rfl
  unfold conclude
  rw [population_rename hc hv, hprojections]
  cases (population c.policy c.source v r).bind fun p => projections p v r today with
  | error e => exact fail_mirrors h hA e
  | ok ps => exact settled_mirrors h hA hrun

/-- However an execution concludes, the run is there to be answered. -/
theorem concluded_mirrors (hc : c.Agree A c') {run : ImpactRun} {v : Version} {r : Rule}
    (h : s.Twins ρ A t) (hA : run.tenant = A) (hrun : (run.id, A) ∈ owned s.runs)
    (hstill : ∀ q, findOwn s.runs run.tenant run.id = some q → q.status = .running → q = run)
    (hv : v ∈ s.versions) (hr : r ∈ s.rules) (hversion : v.id = run.version ∧ v.tenant = run.tenant)
    (hrule : r.id = v.rule ∧ r.tenant = run.tenant) (today : Date) :
    Mirrors ρ A (ImpactRun.rename ρ)
      (do conclude c run v r today
          ownRun A run.id)
      (do conclude c' (run.rename ρ) (v.rename ρ) (r.rename ρ) today
          ownRun A (ρ run.id)) s t := by
  refine (conclude_mirrors hc h hA hrun (hversion.2.trans hA) r today).bind
    fun _ s' t' hconcluded h' => ?_
  have hchanges := (conclude_changes today hstill hv hr hversion hrule).of_yields hconcluded
  exact .reference .run h' h'.left.runs (fun _ => rfl) h'.runs (hchanges.owned_runs h.left hrun)

theorem executeRun_mirrors (hc : c.Agree caller.tenant c') {run : Uuid}
    (h : s.Twins ρ caller.tenant t) (hrun : (run, caller.tenant) ∈ owned s.runs) (today : Date)
    (cancelDuringScan : Bool) :
    Mirrors ρ caller.tenant (ImpactRun.rename ρ) (executeRun c caller run today cancelDuringScan)
      (executeRun c' caller (ρ run) today cancelDuringScan) s t := by
  rw [executeRun_eq, executeRun_eq]
  refine .reference_bind h h.left.runs (fun _ => rfl) h.runs hrun fun q hq hid htenant => ?_
  obtain rfl : q.id = run := hid
  have htenant : q.tenant = caller.tenant := htenant
  refine .ite Iff.rfl (fun _ => .pure h rfl) fun hrunning => ?_
  refine .reference_bind h h.left.versions (fun _ => rfl) h.versions
    (htenant ▸ h.left.runVersion q hq) fun v hv hvid hvtenant => ?_
  refine .ruleOf_bind h hv hvtenant fun r hr hrid hrtenant => ?_
  have hversion : v.id = q.version ∧ v.tenant = q.tenant := ⟨hvid, hvtenant.trans htenant.symm⟩
  have hrule : r.id = v.rule ∧ r.tenant = q.tenant := ⟨hrid, hrtenant.trans htenant.symm⟩
  refine .ite ?_ (fun _ => ?_) fun _ => ?_
  · rw [population_rename hc hvtenant]
  · have hfind := findOwn_rename h.injective (fun _ => rfl) h.runs q.id
    rw [← htenant] at h hrun hc hfind ⊢
    refine (finish_mirrors h hfind .cancelled).discard.bind fun _ s' t' hs' h' => ?_
    have hchanges := (cancel_changes (c := c) q.tenant q.id).of_yields hs'
    rw [yields_discard_finish] at hs'
    refine concluded_mirrors hc h' rfl (hchanges.owned_runs h.left hrun) (fun p hp hprunning => ?_)
      ?_ ?_ hversion hrule today
    · rw [hs'] at hp
      exact absurd hprunning (ended_not_running hp)
    · rw [hs', ended_frame]
      exact hv
    · rw [hs', ended_frame]
      exact hr
  · refine concluded_mirrors hc h htenant hrun (fun p hp _ => ?_) hv hr hversion hrule today
    rw [show findOwn s.runs q.tenant q.id = some q from h.left.runs.findOwn_eq hq] at hp
    exact (Option.some.inj hp).symm

/-! ## Calls -/

theorem createRun_mirrors (h : s.Alike ρ caller.tenant t) (version : Uuid) :
    Mirrors ρ caller.tenant (ImpactRun.rename ρ) (createRun caller version)
      (createRun caller version) s t := by
  refine .argument_bind h h.left.versions (fun _ => rfl) h.versions fun v hv _ htenant _ => ?_
  have h := h.toTwins
  refine .ruleOf_bind h hv htenant fun r _ _ _ => ?_
  refine .newRow_bind h ?_
  refine (Mirrors.addRun h rfl rfl ?_).bind fun _ _ _ _ h => .pure h rfl
  exact htenant ▸ mem_owned_self hv

theorem startRun_mirrors (hc : c.Agree caller.tenant c') (h : s.Alike ρ caller.tenant t)
    (version : Uuid) (today : Date) :
    Mirrors ρ caller.tenant (ImpactRun.rename ρ) (startRun c caller version today)
      (startRun c' caller version today) s t :=
  (createRun_mirrors h version).bind fun _ _ _ hrun h =>
    executeRun_mirrors hc h (owned_createRun hrun) today false

/-- The run that is executed is there afterwards. -/
theorem owned_startRun {version : Uuid} {today : Date} {run : ImpactRun} {s' : Store}
    (hs : s.Intact) (h : Yields (startRun c caller version today) s run s') :
    (run.id, caller.tenant) ∈ owned s'.runs := by
  obtain ⟨created, s₁, hcreated, h⟩ := yields_bind.1 h
  have hs₁ := ((createRun_changes (c := c) hs version).of_yields hcreated).intact hs
  have hchanges := (executeRun_changes (c := c) hs₁ created.id today false).of_yields h
  rw [(yields_executeRun h).2.1]
  exact hchanges.owned_runs hs₁ (owned_createRun hcreated)

theorem executeRun_argument (hc : c.Agree caller.tenant c') (h : s.Alike ρ caller.tenant t)
    (run : Uuid) (today : Date) (cancelDuringScan : Bool) :
    Mirrors ρ caller.tenant (ImpactRun.rename ρ) (executeRun c caller run today cancelDuringScan)
      (executeRun c' caller run today cancelDuringScan) s t := by
  by_cases hrun : (run, caller.tenant) ∈ owned s.runs
  · have hexecuted := executeRun_mirrors hc h.toTwins hrun today cancelDuringScan
    rwa [h.fixed_of_owned h.left.runs hrun] at hexecuted
  · refine .argument_bind h h.left.runs (fun _ => rfl) h.runs fun q hq hid htenant _ => ?_
    exact absurd (mem_owned.2 ⟨q, hq, hid, htenant⟩) hrun

theorem getRun_mirrors {run : Uuid} (h : s.Twins ρ caller.tenant t)
    (hrun : (run, caller.tenant) ∈ owned s.runs) (pageSize : Int) :
    Mirrors ρ caller.tenant (RunView.rename ρ) (getRun pageSize caller run)
      (getRun pageSize caller (ρ run)) s t := by
  refine .reference_bind h h.left.runs (fun _ => rfl) h.runs hrun fun q _ _ _ => ?_
  refine .blind_bind h (blind_column _) fun pageSize _ => .get_bind (.pure h ?_)
  rw [h.resultsOf, Review.upTo_map]
  rfl

theorem getRun_argument (h : s.Alike ρ caller.tenant t) (run : Uuid) (pageSize : Int) :
    Mirrors ρ caller.tenant (RunView.rename ρ) (getRun pageSize caller run)
      (getRun pageSize caller run) s t := by
  by_cases hrun : (run, caller.tenant) ∈ owned s.runs
  · have hshown := getRun_mirrors h.toTwins hrun pageSize
    rwa [h.fixed_of_owned h.left.runs hrun] at hshown
  · refine .argument_bind h h.left.runs (fun _ => rfl) h.runs fun q hq hid htenant _ => ?_
    exact absurd (mem_owned.2 ⟨q, hq, hid, htenant⟩) hrun

theorem cancellableRun_mirrors (h : s.Alike ρ caller.tenant t) (run : Uuid) :
    Mirrors ρ caller.tenant (ImpactRun.rename ρ) (cancellableRun caller run)
      (cancellableRun caller run) s t :=
  .argument_bind h h.left.runs (fun _ => rfl) h.runs fun _ _ _ _ _ =>
    .guard h.toTwins Iff.rfl fun _ => .pure h.toTwins rfl

theorem cancelRun_mirrors (h : s.Alike ρ caller.tenant t) (run : Uuid) :
    Mirrors ρ caller.tenant (ImpactRun.rename ρ) (cancelRun caller run) (cancelRun caller run)
      s t := by
  have hfind := h.findOwn h.left.runs (fun _ => rfl) h.runs run
  refine (finish_mirrors h.toTwins hfind .cancelled).discard.bind fun _ s' t' hs' h' => ?_
  have hnext : s'.nextId = s.nextId := by
    rw [yields_discard_finish.1 hs', ended_frame]
  have h' : s'.Alike ρ caller.tenant t' := { h' with fixed := hnext ▸ h.fixed }
  exact .argument .run run h' h'.left.runs (fun _ => rfl) h'.runs

end Rulebook.Impact
