import Mathlib.Logic.Relation
import Rulebook.Authoring
import Rulebook.Impact.Run
import Rulebook.Proofs.Store.Rows

/-!
What calls do to the store. `Change` lists the single changes, each with what is known when it is
made; whatever a call does, and wherever it fails, is a chain of changes of one kind of work
(`Changes`). So what single changes keep is kept by calls, and which tables a call leaves alone is
told by its kind of work. The clock is read for every new row and moves on with each reading
(`Ticks`).
-/
namespace Rulebook

/-- The kinds of work; each writes to tables of its own. -/
inductive Work where
  | catalogue
  | authoring
  /-- Writes to versions that no rule of authoring checks. -/
  | forcing
  | lifecycle
  | filing
  | review
  | impact
  deriving DecidableEq, Repr

/-! ## Versions -/

/-- Whether conditions and actions are such as authoring lets through. -/
def Version.Authored (v : Version) : Prop :=
  (∃ tree, Condition.authored v.conditions = .ok tree) ∧
    ∃ entries, Directive.check v.actions = .ok entries

/-- The edits that a kind of work makes to a version. -/
inductive VersionEdit.Lawful : Work → Version → VersionEdit → Prop
  /-- Of a draft, authoring changes what it has checked. -/
  | content {v : Version} {edit : VersionEdit} (draft : v.status = .draft)
      (kept : edit.number = none ∧ edit.status = none ∧ edit.approvedBy = none ∧
        edit.approvedAt = none)
      (conditions : ∀ k ∈ edit.conditions, ∃ tree, Condition.authored k = .ok tree)
      (actions : ∀ k ∈ edit.actions, ∃ entries, Directive.check k = .ok entries) :
      Lawful .authoring v edit
  | submit {v} (draft : v.status = .draft) : Lawful .lifecycle v { status := some .inReview }
  | approve {v} (user : Option Uuid) (t : Instant) (inReview : v.status = .inReview) :
      Lawful .lifecycle v
        { status := some .approved, approvedBy := some user, approvedAt := some t }
  | activate {v} (approved : v.status = .approved) :
      Lawful .lifecycle v { status := some .active }
  | retire {v} (done : v.status = .active ∨ v.status = .approved) :
      Lawful .lifecycle v { status := some .retired }
  | force {v : Version} {edit : VersionEdit}
      (kept : edit.approvedBy = none ∧ edit.approvedAt = none) :
      Lawful .forcing v edit

/-! ## Results of a scan -/

namespace Impact

/-- A stored result says what a projection says. -/
structure Records (run : ImpactRun) (p : Projection) (q : ImpactResult) : Prop where
  run_eq : q.run = run.id
  tenant_eq : q.tenant = run.tenant
  entityType_eq : q.entityType = p.entityType
  entityId_eq : p.entityId.string? = some q.entityId
  wouldTrigger_eq : q.wouldTrigger = p.wouldTrigger
  severity_eq : q.severity = p.severity
  dueDate_eq : q.dueDate = p.dueDate
  ruleName_eq : q.ruleName = p.ruleName
  inputs_eq : q.inputs = p.inputs

/-- The counts and the results are those of a scan for a run: of its version, over the entities that
the source lists. -/
def Scanned (c : Circumstances) (s : Store) (run : ImpactRun) (counts : ImpactSummary)
    (results : List ImpactResult) : Prop :=
  ∃ v ∈ s.versions, ∃ r ∈ s.rules, v.id = run.version ∧ v.tenant = run.tenant ∧
    r.id = v.rule ∧ r.tenant = run.tenant ∧
    ∃ p today ps, population c.policy c.source v r = .ok p ∧ projections p v r today = .ok ps ∧
      counts = summary v ps ∧ List.Forall₂ (Records run) ps results

end Impact

/-! ## Readings of the clock -/

/-- Times at which the clock was read, one after the other, while it went from one time to
another. -/
def Ticks : Instant → Instant → List Instant → Prop
  | start, stop, [] => start.micros ≤ stop.micros
  | start, stop, t :: rest => start.micros ≤ t.micros ∧ Ticks t.next stop rest

namespace Ticks

variable {start stop stop' t : Instant} {ts us : List Instant}

theorem later (h : Ticks start stop ts) : start.micros ≤ stop.micros := by
  induction ts generalizing start with
  | nil => exact h
  | cons t rest ih => exact Nat.le_trans h.1 (Nat.le_of_succ_le (ih h.2))

theorem append (h : Ticks start stop ts) (h' : Ticks stop stop' us) :
    Ticks start stop' (ts ++ us) := by
  induction ts generalizing start with
  | nil =>
    cases us with
    | nil => exact Nat.le_trans h h'
    | cons u us => exact ⟨Nat.le_trans h h'.1, h'.2⟩
  | cons t rest ih => exact ⟨h.1, ih h.2⟩

/-- More time may pass afterwards. -/
theorem pass (h : Ticks start stop ts) (hlater : stop.micros ≤ stop'.micros) :
    Ticks start stop' ts := by
  rw [← List.append_nil ts]
  exact h.append hlater

theorem mem (h : Ticks start stop ts) (ht : t ∈ ts) :
    start.micros ≤ t.micros ∧ t.micros < stop.micros := by
  induction ts generalizing start with
  | nil => cases ht
  | cons u rest ih =>
    rcases List.mem_cons.1 ht with rfl | ht
    · exact ⟨h.1, h.2.later⟩
    · obtain ⟨hstart, hstop⟩ := ih h.2 ht
      exact ⟨Nat.le_trans h.1 (Nat.le_of_succ_le hstart), hstop⟩

/-- No two readings give the same time. -/
theorem ascending (h : Ticks start stop ts) : ts.Pairwise fun t u => t.micros < u.micros := by
  induction ts generalizing start with
  | nil => exact .nil
  | cons t rest ih => exact List.pairwise_cons.2 ⟨fun u hu => (h.2.mem hu).1, ih h.2⟩

/-- Some of the rows that stand in the order of time are listed as they stand, or backwards. -/
theorem listed {α : Type} {time : α → Instant} {rows some : List α}
    (h : Ticks start stop (rows.map time)) (hsome : some.Sublist rows) :
    oldestFirst time some = some ∧ newestFirst time some = some.reverse := by
  have hascending := (List.pairwise_map.1 h.ascending).sublist hsome
  exact ⟨oldestFirst_eq hascending, newestFirst_eq hascending⟩

end Ticks

/-! ## Changes -/

/-- Identifiers that follow each other from a number on. -/
def idsFrom (n count : Nat) : List Uuid := (List.range' n count).map Uuid.mk

theorem idsFrom_succ (n count : Nat) : idsFrom n (count + 1) = ⟨n⟩ :: idsFrom (n + 1) count := by
  rw [idsFrom, List.range'_succ, List.map_cons]
  rfl

/-- Rows by identifier and owner. -/
def owned [Stored α] (rows : List α) : List (Uuid × Uuid) :=
  rows.map fun r => ((Stored.row r).id, (Stored.row r).tenant)

/-- A version of a tenant is stored with its rule, which is of that tenant and belongs to the
pack. -/
def Store.Derives (s : Store) (tenant version rule : Uuid) (pack : Option Uuid) : Prop :=
  ∃ v ∈ s.versions, ∃ r ∈ s.rules, v.id = version ∧ v.tenant = tenant ∧ v.rule = rule ∧
    r.id = rule ∧ r.tenant = tenant ∧ pack = some r.pack

/-- A single change of the store by a kind of work, under the circumstances of impact runs. -/
inductive Change (c : Impact.Circumstances) : Work → Store → Store → Prop
  /-- Identifiers are used up and time passes. -/
  | passed {w s n t} (later : s.nextId ≤ n) (time : Ticks s.clock t []) :
      Change c w s { s with nextId := n, clock := t }
  | packAdded {s p t} (id : p.id = ⟨s.nextId⟩) (time : Ticks s.clock t [p.createdAt]) :
      Change c .catalogue s
        { s with packs := s.packs ++ [p], nextId := s.nextId + 1, clock := t }
  | packSaved {s p q t} (old : p ∈ s.packs) (same : q.id = p.id ∧ q.tenant = p.tenant)
      (made : q.createdAt = p.createdAt) (time : Ticks s.clock t []) :
      Change c .catalogue s { s with packs := replaceRow s.packs q, clock := t }
  | regulationAdded {s r t} (id : r.id = ⟨s.nextId⟩)
      (pack : ∀ p, r.pack = some p → (p, r.tenant) ∈ owned s.packs)
      (time : Ticks s.clock t [r.createdAt]) :
      Change c .catalogue s
        { s with regulations := s.regulations ++ [r], nextId := s.nextId + 1, clock := t }
  | ruleAdded {s r t} (id : r.id = ⟨s.nextId⟩) (idle : r.currentVersion = none ∧ r.status = .draft)
      (pack : (r.pack, r.tenant) ∈ owned s.packs) (time : Ticks s.clock t []) :
      Change c .authoring s
        { s with rules := s.rules ++ [r], nextId := s.nextId + 1, clock := t }
  | ruleSaved {s r current status u t} (old : r ∈ s.rules) (time : Ticks s.clock t []) :
      Change c .lifecycle s { s with
        rules := replaceRow s.rules { r with currentVersion := current, status, updatedAt := u }
        clock := t }
  | versionAdded {s v t} (id : v.id = ⟨s.nextId⟩) (rule : (v.rule, v.tenant) ∈ owned s.rules)
      (draft : v.status = .draft ∧ v.approvedBy = none ∧ v.approvedAt = none)
      (authored : v.Authored) (unique : ∀ q ∈ s.versions, v.clashes q = false)
      (time : Ticks s.clock t [v.createdAt]) :
      Change c .authoring s
        { s with versions := s.versions ++ [v], nextId := s.nextId + 1, clock := t }
  | versionSaved {w s v t u} {edit : VersionEdit} (old : v ∈ s.versions) (lawful : edit.Lawful w v)
      (unique : ∀ q ∈ s.versions, (edit.applyTo v).clashes q = false)
      (time : Ticks s.clock t []) :
      Change c w s { s with
        versions := replaceRow s.versions { edit.applyTo v with updatedAt := u }, clock := t }
  | filed {s f ts t} (id : f.id = ⟨s.nextId⟩) (status : f.status = .open)
      (unique : ∀ g ∈ s.findings, f.clashes g = false)
      (ids : ts.map (·.id) = idsFrom (s.nextId + 1) ts.length)
      (tasks : ∀ k ∈ ts, k.finding = f.id ∧ k.tenant = f.tenant)
      (time : Ticks s.clock t (f.createdAt :: ts.map (·.createdAt))) :
      Change c .filing s { s with
        findings := s.findings ++ [f], tasks := s.tasks ++ ts, nextId := s.nextId + 1 + ts.length
        clock := t }
  | findingMoved {s f status u t} (old : f ∈ s.findings) (next : status ∈ f.status.successors)
      (unique : ∀ g ∈ s.findings, ({ f with status := status } : Finding).clashes g = false)
      (time : Ticks s.clock t []) :
      Change c .review s
        { s with findings := replaceRow s.findings { f with status, updatedAt := u }, clock := t }
  | overridden {s o t} (id : o.id = ⟨s.nextId⟩)
      (finding : (o.finding, o.tenant) ∈ owned s.findings)
      (time : Ticks s.clock t [o.approvedAt]) :
      Change c .review s
        { s with overrides := s.overrides ++ [o], nextId := s.nextId + 1, clock := t }
  | runAdded {s run t} (id : run.id = ⟨s.nextId⟩)
      (fresh : run.status = .running ∧ run.summary = none ∧ run.error = none ∧
        run.completedAt = none)
      (derives : ∃ rule, s.Derives run.tenant run.version rule run.pack)
      (time : Ticks s.clock t []) :
      Change c .impact s
        { s with runs := s.runs ++ [run], nextId := s.nextId + 1, clock := t }
  | runFailed {s run message at_ u t} (old : run ∈ s.runs) (running : run.status = .running)
      (time : Ticks s.clock t []) :
      Change c .impact s { s with
        runs := replaceRow s.runs { (Impact.Outcome.failed message).applyTo run with
          completedAt := some at_, updatedAt := u }
        clock := t }
  | runCancelled {s run at_ u t} (old : run ∈ s.runs) (running : run.status = .running)
      (time : Ticks s.clock t []) :
      Change c .impact s { s with
        runs := replaceRow s.runs
          { Impact.Outcome.cancelled.applyTo run with completedAt := some at_, updatedAt := u }
        clock := t }
  | runCompleted {s run counts results at_ u t} (old : run ∈ s.runs)
      (running : run.status = .running) (scanned : Impact.Scanned c s run counts results)
      (ids : results.map (·.id) = idsFrom s.nextId results.length)
      (time : Ticks s.clock t []) :
      Change c .impact s { s with
        runs := replaceRow s.runs { (Impact.Outcome.complete counts).applyTo run with
          completedAt := some at_, updatedAt := u }
        results := s.results ++ results, nextId := s.nextId + results.length, clock := t }

/-- Changes of one kind of work, one after the other. -/
def Changes (c : Impact.Circumstances) (w : Work) : Store → Store → Prop :=
  Relation.ReflTransGen (Change c w)

end Rulebook
