import Mathlib
import Rulebook.Proofs.Tenancy.Impact
import Rulebook.Proofs.Tenancy.Schedule

/-!
Tenants are isolated. A service called for a tenant leaves the rows of all other tenants alone, and
from two histories after which the tenant holds the same it answers the same and does the same to
what the tenant holds, whatever the other tenants have been doing (`tenants_are_isolated`). Both are
read off one comparison, of the call on two engines that are alike to the tenant
(`Engine.perform_outcomes`); an engine is alike to itself.
-/
namespace Rulebook

open Txn

variable {ρ : Uuid → Uuid} {s t : Store} {caller : Caller} {settings : Settings} {d e : Engine}

/-- Whether a call is one of the services, made on behalf of its caller; the others steer the
schedule of background tasks. -/
def Call.ofService : Call → Bool
  | .beginTasks | .releaseRun _ | .isRunning _ | .cancelTask _ | .shutdown => false
  | _ => true

/-! ## Calls side by side -/

/-- To a tenant, a call on another engine answers alike and does the same; and no other tenant is
touched. -/
structure Engine.Outcomes (ρ : Uuid → Uuid) (A : Uuid) (d : Engine)
    (r q : Except Failure Answer × Engine) : Prop where
  answer : q.1 = r.1.map (Answer.rename ρ)
  holdings : q.2.store.holdings A = (r.2.store.holdings A).rename ρ
  spares : ∀ B, B ≠ A → r.2.store.holdings B = d.store.holdings B

namespace Engine

theorem transact_mirrors (settings : Settings) {A : Uuid} {α : Type} {F : α → α} {x y : Txn α}
    (h : d.store.Twins ρ A e.store) (hx : Mirrors ρ A F x y d.store e.store) :
    Mirrors ρ A F (if settings.statementwise then x else undoing x)
      (if settings.statementwise then y else undoing y) d.store e.store :=
  .ite Iff.rfl (fun _ => hx) fun _ => .undoing h hx

theorem answer_outcomes {A : Uuid} {α : Type} {F : α → α} {form : α → Answer} {x y : Txn α}
    (h : d.store.Twins ρ A e.store) (hx : Mirrors ρ A F x y d.store e.store)
    (hform : ∀ a, form (F a) = (form a).rename ρ) :
    Outcomes ρ A d (d.answer settings form x) (e.answer settings form y) := by
  have hrun := transact_mirrors settings h (hx.map hform)
  exact ⟨hrun.answer, hrun.twins.holdings, hrun.spares⟩

/-- A call that leaves the store alone. -/
theorem outcomes_of_answer {A : Uuid} {a b : Except Failure Answer} {d' e' : Engine}
    (h : d.store.Twins ρ A e.store) (ha : b = a.map (Answer.rename ρ)) (hd : d'.store = d.store)
    (he : e'.store = e.store) : Outcomes ρ A d (a, d') (b, e') := by
  refine ⟨ha, ?_, fun B _ => ?_⟩
  · rw [hd, he]
    exact h.holdings
  · rw [hd]

theorem reference_bind {A : Uuid} {β : Type} {G : β → β} {f g : Date → Txn β} {today : Option Date}
    (h : s.Twins ρ A t) (hf : ∀ day, Mirrors ρ A G (f day) (g day) s t) :
    Mirrors ρ A G (reference today >>= f) (reference today >>= g) s t := by
  cases today with
  | some day =>
    rw [reference, pure_bind, pure_bind]
    exact hf day
  | none => exact .today_bind h (hf _)

theorem submitRun_outcomes (h : d.store.Alike ρ caller.tenant e.store) (version : Uuid) :
    Outcomes ρ caller.tenant d (d.submitRun settings caller version)
      (e.submitRun settings caller version) := by
  rcases (transact_mirrors settings h.toTwins (Impact.createRun_mirrors h version)).outcomes with
    ⟨run, s', t', hd, he, htwins, hspares⟩ | ⟨f, s', t', hd, he, htwins, hspares⟩
  · rw [submitRun, submitRun, transact_eq hd, transact_eq he]
    exact ⟨rfl, htwins.holdings, hspares⟩
  · rw [submitRun, submitRun, transact_eq hd, transact_eq he]
    exact ⟨rfl, htwins.holdings, hspares⟩

theorem cancelRun_outcomes (h : d.store.Alike ρ caller.tenant e.store) (hd : d.Scheduled)
    (he : e.Scheduled) (run : Uuid) (withSchedule : Bool) :
    Outcomes ρ caller.tenant d (d.cancelRun settings caller run withSchedule)
      (e.cancelRun settings caller run withSchedule) := by
  have hreads : Reads (Impact.cancellableRun caller run) := Impact.reads_cancellableRun run
  rcases (Impact.cancellableRun_mirrors h run).outcomes with
    ⟨q, s', t', hq, hq', -, -⟩ | ⟨f, s', t', hf, hf', -, -⟩
  · obtain rfl := hreads.yields hq
    obtain rfl := hreads.yields hq'
    obtain ⟨p, s₁, clock, hp, hanswer, hstore⟩ :=
      cancelRun_of_cancellable settings h.left hd withSchedule hq
    obtain ⟨p', t₁, clock', hp', hanswer', hstore'⟩ :=
      cancelRun_of_cancellable settings h.right he withSchedule hq'
    obtain ⟨hsame, htwins, hspares⟩ := Impact.cancelRun_mirrors h run
    rw [show Impact.cancelRun caller run d.store = _ from hp,
      show Impact.cancelRun caller run e.store = _ from hp'] at hsame htwins
    rw [show Impact.cancelRun caller run d.store = _ from hp] at hspares
    refine ⟨?_, ?_, ?_⟩
    · rw [hanswer, hanswer', show p' = p.rename ρ from Except.ok.inj hsame]
      rfl
    · rw [hstore, hstore']
      exact htwins.holdings
    · rw [hstore]
      exact hspares
  · have hrefused : d.cancelRun settings caller run withSchedule = (.error f, d) := by
      rw [cancelRun, transact_of_reads hreads, show Impact.cancellableRun caller run _ = _ from hf]
    have hrefused' : e.cancelRun settings caller run withSchedule = (.error f, e) := by
      rw [cancelRun, transact_of_reads hreads, show Impact.cancellableRun caller run _ = _ from hf']
    rw [hrefused, hrefused']
    exact outcomes_of_answer h.toTwins rfl rfl rfl

/-- A service answers a tenant alike wherever the tenant holds the same. -/
theorem perform_outcomes (settings : Settings) (h : d.store.Alike ρ caller.tenant e.store)
    (hsource : d.source.Agree caller.tenant e.source) (hd : d.Scheduled) (he : e.Scheduled)
    {call : Call} (hcall : call.ofService = true) :
    Outcomes ρ caller.tenant d (d.perform settings caller call)
      (e.perform settings caller call) := by
  have htwins := h.toTwins
  have hc : Impact.Circumstances.Agree caller.tenant
      { policy := settings.policy, source := d.source }
      { policy := settings.policy, source := e.source } := ⟨rfl, hsource⟩
  cases call with
  | createPack draft =>
    exact answer_outcomes htwins (Catalogue.createPack_mirrors h draft) fun _ => rfl
  | listPacks => exact answer_outcomes htwins (Catalogue.listPacks_mirrors h) fun _ => rfl
  | updatePack pack change =>
    exact answer_outcomes htwins (Catalogue.updatePack_mirrors h pack change) fun _ => rfl
  | createRegulation draft =>
    exact answer_outcomes htwins (Catalogue.createRegulation_mirrors h draft) fun _ => rfl
  | listRegulations pack =>
    exact answer_outcomes htwins (Catalogue.listRegulations_mirrors h pack) fun _ => rfl
  | createRule draft first =>
    exact answer_outcomes htwins (Authoring.createRule_mirrors h draft first) fun _ => rfl
  | listRules pack =>
    exact answer_outcomes htwins (Authoring.listRules_mirrors h pack) fun _ => rfl
  | createVersion rule draft =>
    exact answer_outcomes htwins (Authoring.createVersion_mirrors h rule draft) fun _ => rfl
  | updateVersion version change =>
    exact answer_outcomes htwins (Authoring.updateVersion_mirrors h version change) fun _ => rfl
  | forceVersion version write =>
    exact answer_outcomes htwins (Authoring.forceVersion_mirrors h version write) fun _ => rfl
  | submitRule rule =>
    exact answer_outcomes htwins (Lifecycle.submitRule_mirrors h rule) fun _ => rfl
  | approveVersion version =>
    exact answer_outcomes htwins (Lifecycle.approveVersion_mirrors h version) fun _ => rfl
  | activateVersion version =>
    exact answer_outcomes htwins (Lifecycle.activateVersion_mirrors h version) fun _ => rfl
  | retireVersion version =>
    exact answer_outcomes htwins (Lifecycle.retireVersion_mirrors h version) fun _ => rfl
  | nextNumber rule =>
    exact answer_outcomes htwins (Authoring.nextNumber_mirrors h rule) fun _ => rfl
  | listVersions rule status =>
    exact answer_outcomes htwins (Authoring.listVersions_mirrors h rule status) fun _ => rfl
  | listActive entityType =>
    exact answer_outcomes htwins (Authoring.listActive_mirrors h entityType) fun _ => rfl
  | evaluate entityType entity today stale =>
    refine answer_outcomes htwins (reference_bind htwins fun day => ?_) fun _ => rfl
    exact Evaluation.evaluate_mirrors h entityType entity
  | evaluateById entityType entityId today =>
    refine answer_outcomes htwins (reference_bind htwins fun day => ?_) fun _ => rfl
    exact Evaluation.evaluateById_mirrors h hsource entityType entityId
  | apply version entityType entityId actions severity details today =>
    refine answer_outcomes htwins (reference_bind htwins fun day => ?_) fun _ => rfl
    exact Evaluation.apply_mirrors h day version entityType entityId actions severity details
  | createFinding version entityType entityId plan details =>
    exact answer_outcomes htwins
      (Evaluation.createFinding_mirrors h version entityType entityId plan details) fun _ => rfl
  | listFindings filter =>
    exact answer_outcomes htwins (Review.listFindings_mirrors h _ filter) fun _ => rfl
  | updateStatus finding status =>
    exact answer_outcomes htwins (Review.updateStatus_mirrors h finding status) fun _ => rfl
  | override finding draft =>
    exact answer_outcomes htwins (Review.override_mirrors h finding draft) fun _ => rfl
  | listOverrides finding =>
    exact answer_outcomes htwins (Review.listOverrides_mirrors h finding) fun _ => rfl
  | listEntities entityType =>
    refine outcomes_of_answer htwins ?_ rfl rfl
    rw [hsource.list]
    cases d.source.list caller.tenant entityType <;> rfl
  | getEntity entityType entityId =>
    refine outcomes_of_answer htwins ?_ rfl rfl
    rw [hsource.get]
    cases d.source.get? caller.tenant entityType entityId <;> rfl
  | addEntity entityType entity => exact outcomes_of_answer htwins rfl rfl rfl
  | runInline version =>
    refine answer_outcomes htwins (.today_bind htwins ?_) fun _ => rfl
    refine (Impact.startRun_mirrors hc h version _).bind fun run s' t' hrun h' => ?_
    exact Impact.getRun_mirrors h' (Impact.owned_startRun h.left hrun) _
  | startRun version =>
    refine answer_outcomes htwins (.today_bind htwins ?_) fun _ => rfl
    exact Impact.startRun_mirrors hc h version _
  | createRun version =>
    exact answer_outcomes htwins (Impact.createRun_mirrors h version) fun _ => rfl
  | executeRun run today cancelDuringScan =>
    refine answer_outcomes htwins (reference_bind htwins fun day => ?_) fun _ => rfl
    exact Impact.executeRun_argument hc h run day cancelDuringScan
  | getRun run =>
    exact answer_outcomes htwins (Impact.getRun_argument h run _) fun _ => rfl
  | cancelRun run withSchedule => exact cancelRun_outcomes h hd he run withSchedule
  | submitRun version => exact submitRun_outcomes h version
  | beginTasks | releaseRun | isRunning | cancelTask | shutdown => cases hcall

end Engine

/-! ## Isolation -/

/-- After any history, a service called for a tenant leaves alone what every other tenant holds,
whatever identifiers the call names. And it depends on nothing that they hold: at the same time,
from any other history after which the tenant holds the same rows and is shown the same entities,
the call gives the same answer or the same failure and leaves the tenant with the same rows. Only
identifiers given out by the call differ, as they are counted on from where each store stands. -/
theorem tenants_are_isolated (source source' : EntitySource) (clock clock' : Instant)
    (nextId nextId' : Nat) (moves moves' : List Move) (settings : Settings) (caller : Caller)
    (call : Call) (hcall : call.ofService = true) :
    let d := (Engine.fresh source clock nextId).after moves
    let e := (Engine.fresh source' clock' nextId').after moves'
    (∀ other, other ≠ caller.tenant →
      (d.perform settings caller call).2.store.holdings other = d.store.holdings other) ∧
    (e.store.clock = d.store.clock →
      e.store.holdings caller.tenant = d.store.holdings caller.tenant →
      d.source.Agree caller.tenant e.source →
      (e.perform settings caller call).1 = (d.perform settings caller call).1.map
        (Answer.rename (Uuid.reissue d.store.nextId e.store.nextId)) ∧
      (e.perform settings caller call).2.store.holdings caller.tenant =
        ((d.perform settings caller call).2.store.holdings caller.tenant).rename
          (Uuid.reissue d.store.nextId e.store.nextId)) := by
  intro d e
  have hd : d.store.Intact := Engine.after_intact (Engine.fresh_intact _ _ _) moves
  have he : e.store.Intact := Engine.after_intact (Engine.fresh_intact _ _ _) moves'
  have hds : d.Scheduled := Engine.after_scheduled source clock nextId moves
  have hes : e.Scheduled := Engine.after_scheduled source' clock' nextId' moves'
  refine ⟨?_, fun hclock hholdings hsource => ?_⟩
  · have halike := hd.alike (A := caller.tenant) hd rfl rfl (Nat.le_refl _)
    have hself : d.source.Agree caller.tenant d.source := ⟨fun _ => rfl, fun _ _ => rfl⟩
    exact (Engine.perform_outcomes settings halike hself hds hds hcall).spares
  · rcases Nat.le_total d.store.nextId e.store.nextId with hn | hn
    · have houtcomes := Engine.perform_outcomes settings
        (hd.alike he hclock hholdings hn) hsource hds hes hcall
      exact ⟨houtcomes.answer, houtcomes.holdings⟩
    · have hsource' : e.source.Agree caller.tenant d.source :=
        ⟨fun _ => (hsource.list _).symm, fun _ _ => (hsource.get _ _).symm⟩
      have houtcomes := Engine.perform_outcomes settings
        (he.alike hd hclock.symm hholdings.symm hn) hsource' hes hds hcall
      have hback := Uuid.reissue_reissue hn
      rw [houtcomes.answer, houtcomes.holdings, Holdings.rename_rename hback]
      refine ⟨?_, rfl⟩
      cases (e.perform settings caller call).1 with
      | error f => rfl
      | ok a => exact congrArg Except.ok (a.rename_rename hback).symm

/-- A tenant that is alone. -/
def alone : Engine :=
  (Engine.fresh .absent default 0).after
    [.call {} { tenant := ⟨100⟩ } (.createPack { name := "Lending", authority := "Board" }),
      .wait ⟨1000⟩]

/-- A tenant that shares the engine with another one, which has packs of its own. -/
def shared : Engine :=
  (Engine.fresh .absent default 0).after
    [.call {} { tenant := ⟨100⟩ } (.createPack { name := "Lending", authority := "Board" }),
      .call {} { tenant := ⟨200⟩ } (.createPack { name := "Housing", authority := "City" }),
      .wait ⟨1000⟩]

theorem shared_alone : shared.store.clock = alone.store.clock ∧
    shared.store.holdings ⟨100⟩ = alone.store.holdings ⟨100⟩ ∧
    (alone.store.nextId, shared.store.nextId) = (1, 2) := by
  cbv

/-- Beside another tenant a second pack gets another number, and that is all; the other tenant keeps
what it has. -/
theorem tenants_are_isolated_second_pack :
    let second := Call.createPack { name := "Savings", authority := "Board" }
    let ρ := Uuid.reissue alone.store.nextId shared.store.nextId
    (ρ ⟨0⟩ = ⟨0⟩ ∧ ρ ⟨1⟩ = ⟨2⟩) ∧
      (shared.perform {} { tenant := ⟨100⟩ } second).1 =
        (alone.perform {} { tenant := ⟨100⟩ } second).1.map (Answer.rename ρ) ∧
      (shared.perform {} { tenant := ⟨100⟩ } second).2.store.holdings ⟨100⟩ =
        ((alone.perform {} { tenant := ⟨100⟩ } second).2.store.holdings ⟨100⟩).rename ρ ∧
      (shared.perform {} { tenant := ⟨100⟩ } second).2.store.holdings ⟨200⟩ =
        shared.store.holdings ⟨200⟩ := by
  intro second ρ
  obtain ⟨hclock, hholdings, hnext⟩ := shared_alone
  obtain ⟨halone, hshared⟩ := Prod.mk.inj hnext
  have hids : ρ ⟨0⟩ = ⟨0⟩ ∧ ρ ⟨1⟩ = ⟨2⟩ := by
    rw [show ρ = Uuid.reissue 1 2 from congrArg₂ Uuid.reissue halone hshared]
    decide
  obtain ⟨-, hsame⟩ := tenants_are_isolated .absent .absent default default 0 0 _ _ {}
    { tenant := ⟨100⟩ } second rfl
  obtain ⟨hspared, -⟩ := tenants_are_isolated .absent .absent default default 0 0 _ [] {}
    { tenant := ⟨100⟩ } second rfl
  obtain ⟨hanswer, hchange⟩ := hsame hclock hholdings ⟨fun _ => rfl, fun _ _ => rfl⟩
  exact ⟨hids, hanswer, hchange, hspared ⟨200⟩ (by decide)⟩

end Rulebook
