import Rulebook.Engine.Basic
import Rulebook.Proofs.Calls.Authoring
import Rulebook.Proofs.Calls.Impact
import Rulebook.Proofs.Calls.Lifecycle
import Rulebook.Proofs.Calls.Review
import Rulebook.Proofs.Store.Within

/-!
Histories of an engine: calls in any order by any callers under any settings, filings from outside,
the passing of time and changes of the source of entities. A move changes the store by one kind of
work only (`Engine.move_changes`), so every store of a history is in order
(`Engine.after_intact`), also where statements are committed one by one. Where they are not, a call
that fails leaves the store as it was (`Engine.answer_atomic`).
-/
namespace Rulebook

/-! ## Moves -/

inductive Move where
  | call (settings : Settings) (caller : Caller) (call : Call)
  /-- A finding filed for any subject and plan, whoever asks for it. -/
  | file (settings : Settings) (subject : Filing.Subject) (plan : Plan)
  | wait (until_ : Instant)
  | supply (source : EntitySource)

namespace Engine

/-- An engine without rows and tasks. -/
def fresh (source : EntitySource) (clock : Instant) (nextId : Nat) : Engine :=
  { store := Store.empty clock nextId, source }

def move (e : Engine) : Move → Engine
  | .call settings caller call => (e.perform settings caller call).2
  | .file settings subject plan => (e.transact settings (Filing.file subject plan)).2
  | .wait t => { e with store := e.store.atLeast t }
  | .supply source => { e with source }

/-- The engine after some moves. -/
def after (e : Engine) (moves : List Move) : Engine := moves.foldl move e

theorem after_append (e : Engine) (ms ns : List Move) :
    e.after (ms ++ ns) = (e.after ms).after ns :=
  List.foldl_append

theorem after_concat (e : Engine) (ms : List Move) (m : Move) :
    e.after (ms ++ [m]) = (e.after ms).move m := e.after_append ms [m]

end Engine

/-- The work that a call does, if it writes at all. -/
def Call.work : Call → Work
  | .createPack _ | .listPacks | .updatePack .. | .createRegulation _ | .listRegulations _ =>
    .catalogue
  | .createRule .. | .listRules _ | .createVersion .. | .updateVersion .. | .nextNumber _
  | .listVersions .. | .listActive _ => .authoring
  | .forceVersion .. => .forcing
  | .submitRule _ | .approveVersion _ | .activateVersion _ | .retireVersion _ => .lifecycle
  | .evaluate .. | .evaluateById .. | .apply .. | .createFinding .. | .listEntities _
  | .getEntity .. | .addEntity .. => .filing
  | .listFindings _ | .updateStatus .. | .override .. | .listOverrides _ => .review
  | .runInline _ | .startRun _ | .createRun _ | .executeRun .. | .getRun _ | .cancelRun ..
  | .submitRun _ | .beginTasks | .releaseRun _ | .isRunning _ | .cancelTask _ | .shutdown => .impact

/-- Whether a call of authoring only looks up. -/
def Call.looksUp : Call → Bool
  | .listRules _ | .nextNumber _ | .listVersions .. | .listActive _ => true
  | _ => false

namespace Move

def work : Move → Work
  | call _ _ c => c.work
  | file .. => .filing
  | wait _ | supply _ => .catalogue

/-- What impact runs depend on in a move of an engine. -/
def circumstances (m : Move) (e : Engine) : Impact.Circumstances :=
  match m with
  | call settings _ _ => { policy := settings.policy, source := e.source }
  | _ => { source := e.source }

/-- Whether a move that fails is undone. -/
def isAtomic : Move → Bool
  | call settings .. | file settings .. => !settings.statementwise
  | wait _ | supply _ => true

end Move

/-! ## What a move does to the store -/

namespace Engine

open Txn

variable {c : Impact.Circumstances} {w : Work} {α : Type} {e : Engine} {settings : Settings}
  {caller : Caller}

theorem transact_store (body : Txn α) :
    (e.transact settings body).2.store =
      ((if settings.statementwise then body else undoing body) e.store).2 := rfl

theorem transact_eq {body : Txn α} {r : Except Failure α} {s' : Store}
    (h : (if settings.statementwise then body else undoing body) e.store =
      ((r, s') : Except Failure α × Store)) :
    e.transact settings body = (r, { e with store := s' }) := by
  rw [transact, h]

theorem transact_of_yields {body : Txn α} {a : α} {s' : Store} (h : Yields body e.store a s') :
    e.transact settings body = (.ok a, { e with store := s' }) := by
  refine transact_eq ?_
  split
  · exact h
  · exact yields_undoing.2 h

theorem transact_of_fails {body : Txn α} {f : Failure} (h : Fails body e.store f e.store) :
    e.transact settings body = (.error f, e) := by
  have hrun : (if settings.statementwise then body else undoing body) e.store =
      ((.error f, e.store) : Except Failure α × Store) := by
    split
    · exact h
    · rw [run_undoing, show body e.store = _ from h]
  exact transact_eq hrun

theorem transact_of_reads {body : Txn α} (h : Reads body) :
    e.transact settings body = ((body e.store).1, e) := by
  rcases yields_or_fails body e.store with ⟨a, s', hrun⟩ | ⟨f, s', hrun⟩
  · obtain rfl := h.yields hrun
    rw [transact_of_yields hrun, show body e.store = _ from hrun]
  · have hrun' : Fails body e.store f e.store :=
      Prod.ext (congrArg (fun r => r.1) hrun) (h e.store)
    rw [transact_of_fails hrun', show body e.store = _ from hrun']

/-- A transaction that is done goes through by itself as well. -/
theorem yields_of_transact {body : Txn α} {a : α} {e' : Engine}
    (h : e.transact settings body = (.ok a, e')) : Yields body e.store a e'.store := by
  have hrun : Yields (if settings.statementwise then body else undoing body) e.store a e'.store :=
    Prod.ext (congrArg (fun r => r.1) h) (congrArg (fun r => r.2.store) h)
  split at hrun
  · exact hrun
  · exact yields_undoing.1 hrun

theorem transact_changes {body : Txn α} (h : Changes c w e.store (body e.store).2) :
    Changes c w e.store (e.transact settings body).2.store := by
  rw [transact_store]
  split
  · exact h
  · exact .undoing h

theorem answer_changes {form : α → Answer} {body : Txn α}
    (h : Changes c w e.store (body e.store).2) :
    Changes c w e.store (e.answer settings form body).2.store :=
  transact_changes (.map h form)

theorem answer_reads {form : α → Answer} {body : Txn α} (h : Reads body) :
    Changes c w e.store (e.answer settings form body).2.store :=
  answer_changes (.reads h _)

/-- Where failures are undone, a call does all that its body does, or nothing. -/
theorem answer_atomic {form : α → Answer} {body : Txn α} (h : settings.statementwise = false) :
    (e.answer settings form body).2.store = e.store ∨
      ∃ a, Yields body e.store a (e.answer settings form body).2.store := by
  have hrun : (e.answer settings form body).2.store = ((undoing (form <$> body)) e.store).2 := by
    unfold answer transact
    rw [h]
    rfl
  rw [hrun]
  rcases undone_undoing (form <$> body) e.store with ⟨_, s', hs'⟩ | hs'
  · right
    rw [show undoing (form <$> body) e.store = _ from hs']
    obtain ⟨a, ha, -⟩ := yields_map.1 (yields_undoing.1 hs')
    exact ⟨a, ha⟩
  · exact Or.inl hs'

/-- So it keeps what its body keeps where it goes through. -/
theorem answer_keeps {P : Store → Prop} {form : α → Answer} {body : Txn α}
    (h : settings.statementwise = false) (hfirst : P e.store)
    (hbody : ∀ a s', Yields body e.store a s' → P s') :
    P (e.answer settings form body).2.store := by
  rcases answer_atomic h with hsame | ⟨a, hrun⟩
  · rw [hsame]
    exact hfirst
  · exact hbody a _ hrun

/-- What holds of the store that a call finds and of the one that its body leaves holds after the
call, undone or not. -/
theorem answer_ends {P : Store → Prop} {form : α → Answer} {body : Txn α}
    (hkept : P e.store) (h : P (body e.store).2) : P (e.answer settings form body).2.store := by
  have hmap : P ((form <$> body) e.store).2 := by
    rw [left_map]
    exact h
  unfold answer
  rw [transact_store]
  split
  · exact hmap
  · exact undoing_ends hkept hmap

theorem answer_of_reads {form : α → Answer} {body : Txn α} (h : Reads body) :
    (e.answer settings form body).2.store = e.store :=
  answer_ends (P := fun t => t = e.store) rfl (h e.store)

theorem cancelTask_changes (run : Uuid) :
    Changes c .impact e.store (e.cancelTask settings run).2.store := by
  unfold cancelTask
  cases e.schedule.task? run with
  | none => exact .refl _
  | some t => exact transact_changes t.cancel_changes

theorem cancelRun_changes (run : Uuid) (withSchedule : Bool) :
    Changes c .impact e.store (e.cancelRun settings caller run withSchedule).2.store := by
  have hread : Changes c .impact e.store
      (e.transact settings (Impact.cancellableRun caller run)).2.store :=
    transact_changes (.reads (Impact.reads_cancellableRun run) e.store)
  unfold cancelRun
  rcases h : e.transact settings (Impact.cancellableRun caller run) with ⟨_ | _, e'⟩
  · rw [h] at hread
    exact hread
  · rw [h] at hread
    cases withSchedule with
    | false => exact hread.trans (answer_changes (Impact.cancelRun_changes run))
    | true =>
      have htask : Changes c .impact e'.store (e'.cancelTask settings run).2.store :=
        cancelTask_changes run
      exact hread.trans (htask.trans (answer_changes (Impact.cancelRun_changes run)))

theorem submitRun_changes (hs : e.store.Intact) (version : Uuid) :
    Changes c .impact e.store (e.submitRun settings caller version).2.store := by
  have hcreated : Changes c .impact e.store
      (e.transact settings (Impact.createRun caller version)).2.store :=
    transact_changes (Impact.createRun_changes hs version)
  unfold submitRun
  rcases h : e.transact settings (Impact.createRun caller version) with ⟨_ | _, e'⟩
  · rw [h] at hcreated
    exact hcreated
  · rw [h] at hcreated
    exact hcreated

theorem releaseRun_changes (hs : e.store.Intact) (run : Uuid) :
    Changes { policy := settings.policy, source := e.source } .impact e.store
      (e.releaseRun settings run).2.store := by
  unfold releaseRun
  cases e.schedule.task? run with
  | none => exact .refl _
  | some t => exact transact_changes (t.execute_changes hs)

theorem reads_reference (today : Option Date) : Reads (reference today) := by
  cases today with
  | none => exact reads_today
  | some d => exact reads_pure d

theorem perform_of_looksUp {call : Call} (h : call.looksUp = true) :
    (e.perform settings caller call).2.store = e.store := by
  cases call with
  | listRules pack =>
    exact answer_of_reads (reads_get.bind fun _ => reads_listMapM reads_showRule _)
  | nextNumber rule => exact answer_of_reads (reads_get.bind fun _ => reads_pure _)
  | listVersions rule status =>
    exact answer_of_reads ((reads_encoded? status).bind fun _ => reads_get.bind fun _ =>
      reads_listMapM reads_showVersion _)
  | listActive entityType =>
    exact answer_of_reads ((reads_encoded entityType).bind fun _ => reads_get.bind fun _ =>
      reads_pure _)
  | _ => cases h

/-- A call changes the store by work of its kind only. -/
theorem perform_changes (h : e.store.Intact) (call : Call) :
    Changes { policy := settings.policy, source := e.source } call.work e.store
      (e.perform settings caller call).2.store := by
  cases call with
  | createPack draft => exact answer_changes (Catalogue.createPack_changes draft)
  | listPacks => exact answer_reads (reads_get.bind fun _ => reads_pure _)
  | updatePack pack change => exact answer_changes (Catalogue.updatePack_changes pack change)
  | createRegulation draft => exact answer_changes (Catalogue.createRegulation_changes draft)
  | listRegulations pack => exact answer_reads (reads_get.bind fun _ => reads_pure _)
  | createRule draft first => exact answer_changes (Authoring.createRule_changes draft first)
  | listRules | nextNumber | listVersions | listActive =>
    rw [perform_of_looksUp rfl]
    exact .refl _
  | createVersion rule draft => exact answer_changes (Authoring.createVersion_changes rule draft)
  | updateVersion version change =>
    exact answer_changes (Authoring.updateVersion_changes version change)
  | forceVersion version write =>
    exact answer_changes (Authoring.forceVersion_changes version write)
  | submitRule rule => exact answer_changes (Lifecycle.submitRule_changes h rule)
  | approveVersion version => exact answer_changes (Lifecycle.approveVersion_changes version)
  | activateVersion version => exact answer_changes (Lifecycle.activateVersion_changes h version)
  | retireVersion version => exact answer_changes (Lifecycle.retireVersion_changes version)
  | evaluate entityType entity today stale =>
    exact answer_changes (.read (reads_reference today) fun _ _ =>
      Evaluation.evaluate_changes entityType entity)
  | evaluateById entityType entityId today =>
    exact answer_changes (.read (reads_reference today) fun _ _ =>
      Evaluation.evaluateById_changes e.source entityType entityId)
  | apply version entityType entityId actions severity details today =>
    exact answer_changes (.read (reads_reference today) fun d _ =>
      Evaluation.apply_changes d version entityType entityId actions severity details)
  | createFinding version entityType entityId plan details =>
    exact answer_changes (Evaluation.createFinding_changes version entityType entityId plan details)
  | listFindings filter => exact answer_reads (Review.reads_listFindings _ filter)
  | updateStatus finding status => exact answer_changes (Review.updateStatus_changes finding status)
  | override finding draft => exact answer_changes (Review.override_changes finding draft)
  | listOverrides finding => exact answer_reads (Review.reads_listOverrides finding)
  | listEntities entityType => exact .refl _
  | getEntity entityType entityId => exact .refl _
  | addEntity entityType entity => exact .refl _
  | runInline version =>
    exact answer_changes (.read reads_today fun today _ =>
      .bind_reads (Impact.startRun_changes h version today) fun run => Impact.reads_getRun _ run.id)
  | startRun version =>
    exact answer_changes (.read reads_today fun today _ => Impact.startRun_changes h version today)
  | createRun version => exact answer_changes (Impact.createRun_changes h version)
  | executeRun run today cancelDuringScan =>
    exact answer_changes (.read (reads_reference today) fun d _ =>
      Impact.executeRun_changes h run d cancelDuringScan)
  | getRun run => exact answer_reads (Impact.reads_getRun _ run)
  | cancelRun run withSchedule => exact cancelRun_changes run withSchedule
  | submitRun version => exact submitRun_changes h version
  | beginTasks => exact .refl _
  | releaseRun run => exact releaseRun_changes h run
  | isRunning run => exact .refl _
  | cancelTask run => exact cancelTask_changes run
  | shutdown => exact transact_changes (Impact.cancelAll_changes e.schedule)

/-- A move changes the store by work of its kind only. -/
theorem move_changes (h : e.store.Intact) (m : Move) :
    Changes (m.circumstances e) m.work e.store (e.move m).store := by
  cases m with
  | call settings caller call => exact perform_changes h call
  | file settings subject plan => exact transact_changes (Filing.file_changes subject plan)
  | wait t =>
    show Changes _ _ e.store (e.store.atLeast t)
    unfold Store.atLeast
    split
    · next hlater => exact .passed (Nat.le_refl _) (Nat.le_of_lt hlater)
    · exact .refl _
  | supply source => exact .refl _

/-! ## Histories -/

/-- What holds at first and survives every move that is made holds after all of them. -/
theorem after_induction {P : Engine → Prop} {moves : List Move} (hfirst : P e)
    (hmove : ∀ e, P e → ∀ m ∈ moves, P (e.move m)) : P (e.after moves) := by
  induction moves generalizing e with
  | nil => exact hfirst
  | cons m rest ih =>
    refine ih (hmove e hfirst m (List.mem_cons_self ..)) fun e he m hm => ?_
    exact hmove e he m (List.mem_cons_of_mem _ hm)

/-- What every move keeps in a store in order is kept by all of them together. -/
theorem after_keeps {P : Store → Prop} {moves : List Move} (hs : e.store.Intact)
    (hfirst : P e.store)
    (hmove : ∀ d : Engine, d.store.Intact → P d.store → ∀ m ∈ moves, P (d.move m).store) :
    P (e.after moves).store := by
  have hboth : (e.after moves).store.Intact ∧ P (e.after moves).store := by
    refine after_induction (P := fun d => d.store.Intact ∧ P d.store) ⟨hs, hfirst⟩ ?_
    intro d hd m hm
    exact ⟨(move_changes hd.1 m).intact hd.1, hmove d hd.1 hd.2 m hm⟩
  exact hboth.2

/-- Every store of a history is in order. -/
theorem after_intact (h : e.store.Intact) (moves : List Move) : (e.after moves).store.Intact :=
  after_induction (P := fun e => e.store.Intact) h fun _ he m _ => (move_changes he m).intact he

theorem fresh_intact (source : EntitySource) (clock : Instant) (nextId : Nat) :
    (fresh source clock nextId).store.Intact :=
  Store.Intact.empty clock nextId

end Engine

end Rulebook
