import Mathlib
import Rulebook.Proofs.ActiveVersion
import Rulebook.Proofs.Condition.Reading

/-!
The failure policy cannot be told from what an engine does. It is looked at in two places: an
evaluation reads the conditions of the active versions under it, and a dry run those of the version
that it scans for. Where every stored version is such as authoring lets through, both read the same
tree under every policy (`Version.Authored.reads_alike`), so each call answers alike and leaves the
same engine (`Engine.perform_under`). Without forced writes that is every store of a history, which
makes the histories under any two policies one (`Engine.transcript_under`).
-/
namespace Rulebook

open Txn

variable {s : Store} {caller : Caller}

/-- The conditions of a version that authoring lets through are one tree, whatever the policy. -/
theorem Version.Authored.reads_alike {v : Version} (h : v.Authored) (p q : FailurePolicy) :
    Condition.ofValue p v.conditionsOrNone = Condition.ofValue q v.conditionsOrNone := by
  obtain ⟨⟨tree, htree⟩, -⟩ := h
  unfold Version.conditionsOrNone Value.orElse
  split
  · rw [Condition.ofValue_of_authored p htree, Condition.ofValue_of_authored q htree]
  · rfl

theorem mem_of_activeVersions {tenant : Uuid} {entityType : String} {hit : Version × Rule}
    (h : hit ∈ s.activeVersions tenant entityType) : hit.1 ∈ s.versions := by
  obtain ⟨v, hv, hhit⟩ := List.mem_filterMap.1 h
  have hfirst : hit.1 = v := by grind
  rw [hfirst]
  exact (mem_ownRows.1 hv).1

/-! ## Evaluations -/

namespace Evaluation

variable {c : Circumstances} {v : Version} {r : Rule}

theorem evaluateVersion_under (p : FailurePolicy) (t : Target) (h : v.Authored) :
    evaluateVersion { c with policy := p } t v r = evaluateVersion c t v r := by
  unfold evaluateVersion
  dsimp only
  rw [h.reads_alike p c.policy]

theorem evaluateVersions_under (p : FailurePolicy) (t : Target) {hits : List (Version × Rule)}
    (h : ∀ hit ∈ hits, hit.1.Authored) :
    evaluateVersions { c with policy := p } t hits = evaluateVersions c t hits := by
  induction hits with
  | nil => rfl
  | cons hit rest ih =>
    obtain ⟨v, r⟩ := hit
    unfold evaluateVersions
    rw [evaluateVersion_under p t (h _ (List.mem_cons_self ..)),
      ih fun hit hin => h hit (List.mem_cons_of_mem _ hin)]

theorem evaluate_under (p : FailurePolicy) (entityType : Text) (entity : Fields)
    (h : ∀ v ∈ s.versions, v.Authored) :
    evaluate { c with policy := p } caller entityType entity s =
      evaluate c caller entityType entity s := by
  unfold evaluate
  refine (reads_ofExcept _).run_bind_congr fun t _ => ?_
  refine (reads_encoded _).run_bind_congr fun name _ => reads_get.run_bind_congr fun u hu => ?_
  obtain ⟨rfl, -⟩ := yields_get.1 hu
  rw [evaluateVersions_under p t fun hit hin => ?_]
  exact h _ (mem_of_activeVersions hin)

theorem evaluateById_under (p : FailurePolicy) (source : EntitySource) (entityType entityId : Text)
    (h : ∀ v ∈ s.versions, v.Authored) :
    evaluateById { c with policy := p } source caller entityType entityId s =
      evaluateById c source caller entityType entityId s := by
  unfold evaluateById
  cases source with
  | absent => rfl
  | memory _ | tables _ =>
    refine (reads_ofExcept _).run_bind_congr fun entity _ => ?_
    cases entity with
    | none => rfl
    | some entity => exact evaluate_under p entityType entity h

end Evaluation

/-! ## Dry runs -/

namespace Impact

variable {c : Circumstances}
theorem conclude_under (p : FailurePolicy) (run : ImpactRun) {v : Version} (r : Rule) (today : Date)
    (h : v.Authored) :
    conclude { c with policy := p } run v r today = conclude c run v r today := by
  unfold conclude population
  dsimp only
  rw [h.reads_alike p c.policy]

theorem executeRun_under (p : FailurePolicy) (id : Uuid) (today : Date) (cancelDuringScan : Bool)
    (h : ∀ v ∈ s.versions, v.Authored) :
    executeRun { c with policy := p } caller id today cancelDuringScan s =
      executeRun c caller id today cancelDuringScan s := by
  rw [executeRun_eq, executeRun_eq]
  refine (reads_own _ _ _ _).run_bind_congr fun run _ => ?_
  split
  · rfl
  · refine (reads_own _ _ _ _).run_bind_congr fun v hv => ?_
    have hauthored := h v (findOwn_eq_some (yields_own.1 hv).1).1
    refine (reads_ruleOf v).run_bind_congr fun r _ => ?_
    unfold population
    dsimp only
    rw [conclude_under p run r today hauthored, hauthored.reads_alike p c.policy]

/-- Creating the run leaves the versions alone. -/
theorem startRun_under (p : FailurePolicy) (hs : s.Intact) (version : Uuid) (today : Date)
    (h : ∀ v ∈ s.versions, v.Authored) :
    startRun { c with policy := p } caller version today s = startRun c caller version today s := by
  unfold startRun
  refine run_bind_congr fun run t ht => executeRun_under p run.id today false ?_
  rw [((Changes.of_yields (createRun_changes (c := c) hs version) ht).rules_versions rfl).2]
  exact h

theorem BackgroundTask.execute_under (p : FailurePolicy) (task : BackgroundTask)
    (h : ∀ v ∈ s.versions, v.Authored) :
    task.execute { c with policy := p } s = task.execute c s := by
  unfold BackgroundTask.execute
  refine reads_today.run_bind_congr fun today _ => ?_
  exact run_map_congr _ (executeRun_under p task.run today false h)

end Impact

/-! ## Calls -/

namespace Engine

variable {e : Engine} {settings : Settings}

/-- Two bodies that do the same to the store of an engine are one transaction. -/
theorem transact_congr {α : Type} {x y : Txn α} (p : FailurePolicy)
    (h : (x e.store : Except Failure α × Store) = y e.store) :
    e.transact { settings with policy := p } x = e.transact settings y := by
  unfold transact
  cases settings.statementwise with
  | false => simp only [Bool.false_eq_true, if_false, run_undoing, h]
  | true => simp only [if_true, h]

theorem answer_congr {α : Type} {form : α → Answer} {x y : Txn α} (p : FailurePolicy)
    (h : (x e.store : Except Failure α × Store) = y e.store) :
    e.answer { settings with policy := p } form x = e.answer settings form y :=
  transact_congr p (run_map_congr form h)

theorem releaseRun_under (p : FailurePolicy) (run : Uuid) (h : ∀ v ∈ e.store.versions, v.Authored) :
    e.releaseRun { settings with policy := p } run = e.releaseRun settings run := by
  unfold releaseRun
  cases e.schedule.task? run with
  | none => rfl
  | some task =>
    dsimp only
    rw [transact_congr p (Impact.BackgroundTask.execute_under
      (c := { policy := settings.policy, source := e.source }) p task h)]

/-- Where every version is such as authoring lets through, a call answers alike and leaves the same
engine under every policy. -/
theorem perform_under (p : FailurePolicy) (call : Call) (hs : e.store.Intact)
    (h : ∀ v ∈ e.store.versions, v.Authored) :
    e.perform { settings with policy := p } caller call = e.perform settings caller call := by
  cases call with
  | evaluate entityType entity today stale =>
    refine answer_congr p ((reads_reference today).run_bind_congr fun d _ => ?_)
    exact Evaluation.evaluate_under (c := { policy := settings.policy, today := d, stale }) p
      entityType entity h
  | evaluateById entityType entityId today =>
    refine answer_congr p ((reads_reference today).run_bind_congr fun d _ => ?_)
    exact Evaluation.evaluateById_under (c := { policy := settings.policy, today := d }) p e.source
      entityType entityId h
  | runInline version =>
    refine answer_congr p (reads_today.run_bind_congr fun today _ => ?_)
    exact run_bind_congr_left (Impact.startRun_under
      (c := { policy := settings.policy, source := e.source }) p hs version today h)
  | startRun version =>
    refine answer_congr p (reads_today.run_bind_congr fun today _ => ?_)
    exact Impact.startRun_under (c := { policy := settings.policy, source := e.source }) p hs
      version today h
  | executeRun run today cancelDuringScan =>
    refine answer_congr p ((reads_reference today).run_bind_congr fun d _ => ?_)
    exact Impact.executeRun_under (c := { policy := settings.policy, source := e.source }) p run d
      cancelDuringScan h
  | releaseRun run =>
    unfold perform
    dsimp only
    rw [releaseRun_under p run h]
  | _ => rfl

end Engine

/-! ## Histories -/

/-- The move under another policy. -/
def Move.under (p : FailurePolicy) : Move → Move
  | call settings caller c => call { settings with policy := p } caller c
  | file settings subject plan => file { settings with policy := p } subject plan
  | wait t => wait t
  | supply source => supply source

namespace Engine

variable {e : Engine}

/-- What a move answers, if it is a call. -/
def reply (e : Engine) : Move → Option (Except Failure Answer)
  | .call settings caller c => some (e.perform settings caller c).1
  | .file .. | .wait _ | .supply _ => none

/-- What each move of a history answers, and the engine that it leaves. -/
def transcript (e : Engine) : List Move → List (Option (Except Failure Answer) × Engine)
  | [] => []
  | m :: rest => (e.reply m, e.move m) :: (e.move m).transcript rest

theorem move_under (p : FailurePolicy) (m : Move) (hs : e.store.Intact)
    (h : ∀ v ∈ e.store.versions, v.Authored) :
    e.reply (m.under p) = e.reply m ∧ e.move (m.under p) = e.move m := by
  cases m with
  | call settings caller c =>
    have hcall : e.perform { settings with policy := p } caller c = e.perform settings caller c :=
      perform_under p c hs h
    exact ⟨congrArg (some ∘ Prod.fst) hcall, congrArg Prod.snd hcall⟩
  | file | wait | supply => exact ⟨rfl, rfl⟩

/-- Without forced writes, a history has one transcript under all policies. -/
theorem transcript_under (p : FailurePolicy) {moves : List Move} (hs : e.store.Intact)
    (h : ∀ v ∈ e.store.versions, v.Authored) (hmoves : ∀ m ∈ moves, m.work ≠ .forcing) :
    e.transcript (moves.map (Move.under p)) = e.transcript moves := by
  induction moves generalizing e with
  | nil => rfl
  | cons m rest ih =>
    obtain ⟨hreply, hmove⟩ := move_under p m hs h
    have hchanges := move_changes hs m
    have hrest := ih (hchanges.intact hs)
      (hchanges.authored (hmoves m (List.mem_cons_self ..)) h)
      fun m hm => hmoves m (List.mem_cons_of_mem _ hm)
    rw [List.map_cons, transcript, transcript, hreply, hmove, hrest]

end Engine

/-- In a history without forced writes every stored version has conditions and actions that
authoring lets through; and under any two failure policies its moves answer the same and leave the
same engines. -/
theorem policy_unobservable (source : EntitySource) (clock : Instant) (nextId : Nat)
    (moves : List Move) (hmoves : ∀ m ∈ moves, m.work ≠ .forcing) :
    let e := Engine.fresh source clock nextId
    (∀ v ∈ (e.after moves).store.versions,
      (∃ tree, Condition.authored v.conditions = .ok tree) ∧
        ∃ entries, Directive.check v.actions = .ok entries) ∧
    ∀ p q : FailurePolicy,
      e.transcript (moves.map (Move.under p)) = e.transcript (moves.map (Move.under q)) := by
  intro e
  have hfresh := Engine.fresh_intact source clock nextId
  have hnone : ∀ v ∈ e.store.versions, v.Authored := fun v hv => by cases hv
  refine ⟨Engine.after_authored hfresh hnone hmoves, fun p q => ?_⟩
  exact (Engine.transcript_under p hfresh hnone hmoves).trans
    (Engine.transcript_under q hfresh hnone hmoves).symm

/-- A rule about loans with a rate, evaluated and dry-run. -/
def rateRule : List Move :=
  let caller : Caller := { tenant := ⟨100⟩ }
  let hasRate : Value :=
    .object [("field", .text "loan.rate"), ("op", .text "exists"), ("value", .null)]
  [.call {} caller (.createPack { name := "Lending", authority := "Board" }),
    .call {} caller (.createRule { pack := ⟨0⟩, name := "Rate" }
      { conditions := .object [("any", .list [hasRate])] }),
    .call {} caller (.submitRule ⟨1⟩), .call {} caller (.approveVersion ⟨2⟩),
    .call {} caller (.activateVersion ⟨2⟩),
    .call {} caller (.evaluate "loan" [("id", .text "7"), ("rate", .int 5)] none false),
    .call {} caller (.runInline ⟨2⟩)]

/-- It finds the loan, whatever the policy. -/
theorem policy_unobservable_rate :
    let e := Engine.fresh (.memory []) default 0
    (e.after rateRule).store.findings.map (fun f => f.entityId) = ["7"] ∧
      ∀ p q : FailurePolicy,
        e.transcript (rateRule.map (Move.under p)) = e.transcript (rateRule.map (Move.under q)) :=
  ⟨by cbv, (policy_unobservable (.memory []) default 0 rateRule (by decide)).2⟩

end Rulebook
