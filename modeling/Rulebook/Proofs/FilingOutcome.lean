import Rulebook.Proofs.Evaluation
import Rulebook.Proofs.FilingVerdict

/-!
All ways in which a filing can end. Where titles, severities and due dates are texts or nulls, what
stands in the way comes in an order (`Filing.refusal?`): due dates that are no dates, then what the
columns of the finding cannot hold, then a live finding, then what the columns lack, and the tasks
last. The first of these is what the filing fails with, and without any it stores the finding with
its tasks (`filing_outcomes`).
-/
namespace Rulebook

open Txn

variable {s s' : Store}

/-! ## What stands in the way -/

/-- Whether a value is a text, not the empty one, that spells no date. -/
def Value.isMisdated : Value → Bool
  | .text t => !t.isEmpty && (t.string?.bind Date.ofIsoText?).isNone
  | _ => false

/-- Why a column of texts does not take a value: a text has lone surrogates, an integer more than 64
bits, or the value is of a kind that no column takes. -/
def Value.unstorable? : Value → Option Failure
  | .text t => if t.string?.isNone then some (.unencodable t) else none
  | .int i =>
    if -0x8000000000000000 ≤ i && i < 0x8000000000000000 then none else some .integerTooWide
  | .decimal _ | .uuid _ | .list _ | .tuple _ | .object _ => some (.storage "unsupported type")
  | _ => none

/-- Titles, severities and due dates are null or texts. -/
structure Plan.Textual (plan : Plan) : Prop where
  finding : ∀ v ∈ [plan.finding.severity, plan.finding.title, plan.finding.dueDate],
    v = .null ∨ ∃ t : Text, v = .text t
  tasks : ∀ d ∈ plan.tasks, ∀ v ∈ [d.title, d.dueDate], v = .null ∨ ∃ t : Text, v = .text t

namespace Filing

/-- The key of the findings about a subject, if its texts have an encoding. -/
def Subject.key? (subject : Subject) : Option FindingKey := do
  let entityType ← subject.entityType.string?
  let entityId ← subject.entityId.string?
  return { tenant := subject.tenant, entityType, entityId, version := subject.version }

/-- The first due date that is no date. -/
def misdated? (vs : List Value) : Option Failure :=
  (vs.find? Value.isMisdated).map (.notADate "due_date")

/-- What columns of JSON do not take. -/
def withoutJson? (vs : List Value) : Option Failure :=
  if vs.all Value.hasJson then none else some (.storage "value has no JSON")

/-- The first value that a column of texts does not take. -/
def unstorable? (vs : List Value) : Option Failure := vs.findSome? Value.unstorable?

/-- A finding about the key that is live. -/
def duplicate? (live : FindingKey → Bool) (subject : Subject) : Option Failure :=
  (subject.key?.filter live).map .duplicateFinding

/-- A null where a column must not stay empty. -/
def missing? (vs : List Value) : Option Failure :=
  if vs.any Value.isNull then some .findingNotStored else none

/-- What a filing is refused for: the first of these reasons, if there is one. The tasks come after
the finding, but for their due dates. -/
def refusal? (live : FindingKey → Bool) (subject : Subject) (plan : Plan) : Option Failure :=
  misdated? (plan.tasks.map (fun d => d.dueDate) ++ [plan.finding.dueDate]) <|>
  withoutJson? [.object (evidence subject plan.finding)] <|>
  unstorable? [.text subject.entityType, .text subject.entityId, plan.finding.severity,
    plan.finding.title] <|>
  duplicate? live subject <|>
  missing? [plan.finding.severity, plan.finding.title] <|>
  withoutJson? (plan.tasks.map fun d => .list d.artifacts) <|>
  unstorable? (plan.tasks.flatMap fun d => [d.title, d.notes]) <|>
  missing? (plan.tasks.map fun d => d.title)

variable {v : Value} {α : Type}

/-- The outcome of what goes through with an answer unless it is refused. -/
def outcome (refusal : Option Failure) (a : α) : Except Failure α :=
  match refusal with
  | some e => .error e
  | none => .ok a

theorem outcome_orElse (r q : Option Failure) (a : α) :
    outcome (r <|> q) a = (outcome r () >>= fun _ => outcome q a) := by
  cases r <;> rfl

/-! ## Columns of null and texts -/

theorem dueDate_textual (h : v = .null ∨ ∃ t : Text, v = .text t) :
    discard (dueDate v) = outcome (misdated? [v]) () := by
  unfold dueDate misdated?
  rw [List.find?_singleton]
  rcases h with rfl | ⟨t, rfl⟩
  · rfl
  · rw [Value.isMisdated, Value.toDate?]
    cases t.isEmpty with
    | true => rfl
    | false => cases t.string?.bind Date.ofIsoText? <;> rfl

/-- The first due date that is no date decides. -/
theorem mapM_dueDate_textual {vs : List Value}
    (h : ∀ v ∈ vs, v = .null ∨ ∃ t : Text, v = .text t) :
    discard (vs.mapM dueDate) = outcome (misdated? vs) () := by
  induction vs with
  | nil => rfl
  | cons v rest ih =>
    obtain ⟨hv, hrest⟩ := List.forall_mem_cons.1 h
    have hsplit : misdated? (v :: rest) = (misdated? [v] <|> misdated? rest) := by
      unfold misdated?
      rw [List.find?_cons, List.find?_singleton]
      cases v.isMisdated <;> rfl
    rw [hsplit, outcome_orElse, ← dueDate_textual hv, ← ih hrest, List.mapM_cons]
    cases dueDate v with
    | error e => rfl
    | ok due => cases rest.mapM dueDate <;> rfl

theorem jsonOf_eq_outcome (v : Value) : jsonOf v = outcome (withoutJson? [v]) () := by
  unfold jsonOf withoutJson?
  rw [List.all_cons, List.all_nil, Bool.and_true]
  cases v.hasJson <;> rfl

theorem forM_jsonOf (vs : List Value) : forM vs jsonOf = outcome (withoutJson? vs) () := by
  induction vs with
  | nil => rfl
  | cons v rest ih =>
    rw [List.forM_cons, ih, jsonOf_eq_outcome]
    unfold withoutJson?
    rw [List.all_cons, List.all_cons, List.all_nil, Bool.and_true]
    cases v.hasJson <;> rfl

theorem staysEmpty_textual (h : v = .null ∨ ∃ t : Text, v = .text t) :
    staysEmpty v = outcome (unstorable? [v]) v.isNull := by
  rcases h with rfl | ⟨t, rfl⟩
  · rfl
  · rw [staysEmpty, cellOf, Text.encoded, unstorable?, List.findSome?_singleton,
      Value.unstorable?]
    cases t.string? <;> rfl

theorem discard_cellOf (v : Value) : discard (cellOf v) = outcome (unstorable? [v]) () := by
  rw [unstorable?, List.findSome?_singleton]
  cases v with
  | text t =>
    rw [cellOf, Text.encoded, Value.unstorable?]
    cases t.string? <;> rfl
  | int i =>
    rw [cellOf, Value.unstorable?]
    split <;> rfl
  | _ => rfl

theorem unstorable?_append (vs ws : List Value) :
    unstorable? (vs ++ ws) = (unstorable? vs <|> unstorable? ws) := by
  rw [unstorable?, List.findSome?_append]
  exact Option.or_eq_orElse

theorem checkTask_textual {d : TaskDraft}
    (htitle : d.title = .null ∨ ∃ t : Text, d.title = .text t) :
    checkTask d = outcome (unstorable? [d.title, d.notes]) d.title.isNull := by
  rw [checkTask, discard_cellOf, staysEmpty_textual htitle,
    show [d.title, d.notes] = [d.title] ++ [d.notes] from rfl, unstorable?_append]
  cases unstorable? [d.title] with
  | some e => rfl
  | none => cases unstorable? [d.notes] <;> rfl

theorem mapM_checkTask_textual {drafts : List TaskDraft}
    (h : ∀ d ∈ drafts, ∀ v ∈ [d.title, d.dueDate], v = .null ∨ ∃ t : Text, v = .text t) :
    drafts.mapM checkTask = outcome (unstorable? (drafts.flatMap fun d => [d.title, d.notes]))
      (drafts.map fun d => d.title.isNull) := by
  induction drafts with
  | nil => rfl
  | cons d rest ih =>
    obtain ⟨hd, hrest⟩ := List.forall_mem_cons.1 h
    rw [List.mapM_cons, checkTask_textual (List.forall_mem_cons.1 hd).1, ih hrest,
      List.flatMap_cons, unstorable?_append]
    cases unstorable? [d.title, d.notes] with
    | some e => rfl
    | none => cases unstorable? (rest.flatMap fun d => [d.title, d.notes]) <;> rfl

/-- Tasks are refused for their artifacts, then for a title or notes that no column takes, then for
the want of a title. -/
theorem checkTasks_textual {drafts : List TaskDraft}
    (h : ∀ d ∈ drafts, ∀ v ∈ [d.title, d.dueDate], v = .null ∨ ∃ t : Text, v = .text t) :
    checkTasks drafts = outcome (withoutJson? (drafts.map fun d => .list d.artifacts) <|>
      unstorable? (drafts.flatMap fun d => [d.title, d.notes]) <|>
      if drafts.any fun d => d.title.isNull then some .constraint else none) () := by
  rw [checkTasks, mapM_checkTask_textual h, outcome_orElse, outcome_orElse, ← forM_jsonOf,
    List.forM_eq_forM, List.forM_map]
  refine congrArg _ (funext fun _ => ?_)
  cases unstorable? (drafts.flatMap fun d => [d.title, d.notes]) with
  | some e => rfl
  | none =>
    show (if (drafts.map fun d => d.title.isNull).any id then _ else _) = outcome (ite _ _ _) ()
    rw [List.any_map, Function.id_comp]
    cases drafts.any fun d => d.title.isNull <;> rfl

theorem key?_or_unstorable (subject : Subject) :
    (∃ key, subject.key? = some key ∧ keyOf subject = .ok key ∧
        unstorable? [.text subject.entityType, .text subject.entityId] = none) ∨
      ∃ e, subject.key? = none ∧ keyOf subject = .error e ∧
        unstorable? [.text subject.entityType, .text subject.entityId] = some e := by
  unfold Subject.key? keyOf unstorable? Text.encoded
  rw [List.findSome?_cons, List.findSome?_singleton, Value.unstorable?, Value.unstorable?]
  cases subject.entityType.string? with
  | none => exact Or.inr ⟨_, rfl, rfl, rfl⟩
  | some a =>
    cases subject.entityId.string? with
    | none => exact Or.inr ⟨_, rfl, rfl, rfl⟩
    | some b => exact Or.inl ⟨_, rfl, rfl, rfl⟩

/-- The due dates of the tasks are read first. -/
theorem check_eq (live : FindingKey → Bool) (subject : Subject) (plan : Plan) :
    check live subject plan = (do
      discard <| (plan.tasks.map (fun d => d.dueDate) ++ [plan.finding.dueDate]).mapM dueDate
      (checkRows live subject plan).mapError (reported live subject)) := by
  unfold check
  rw [List.mapM_append, List.mapM_map]
  show (discard (plan.tasks.mapM (dueDate ∘ fun d => d.dueDate)) >>= _) = _
  cases plan.tasks.mapM (dueDate ∘ fun d => d.dueDate) with
  | error e => rfl
  | ok dates =>
    rw [List.mapM_cons, List.mapM_nil]
    cases dueDate plan.finding.dueDate with
    | error e => rfl
    | ok due => rfl

/-- Only broken constraints are reported in other words. -/
theorem reported_eq_self {live : FindingKey → Bool} {subject : Subject} {e : Failure}
    (h : e ≠ .constraint) : reported live subject e = e := by
  cases e with
  | constraint => exact absurd rfl h
  | _ => rfl

theorem mapError_withoutJson (live : FindingKey → Bool) (subject : Subject) (vs : List Value)
    (x : Except Failure α) :
    (outcome (withoutJson? vs) () >>= fun _ => x).mapError (reported live subject) =
      (outcome (withoutJson? vs) () >>= fun _ => x.mapError (reported live subject)) := by
  unfold withoutJson?
  cases vs.all Value.hasJson <;> rfl

theorem ne_constraint_of_unstorable {vs : List Value} {e : Failure}
    (h : unstorable? vs = some e) : e ≠ .constraint := by
  obtain ⟨v, -, he⟩ := List.exists_of_findSome?_eq_some h
  rintro rfl
  cases v with
  | text t =>
    rw [Value.unstorable?] at he
    split at he <;> cases he
  | int i =>
    rw [Value.unstorable?] at he
    split at he <;> cases he
  | _ => cases he

theorem mapError_unstorable (live : FindingKey → Bool) (subject : Subject) (vs : List Value)
    (x : Except Failure α) :
    (outcome (unstorable? vs) () >>= fun _ => x).mapError (reported live subject) =
      (outcome (unstorable? vs) () >>= fun _ => x.mapError (reported live subject)) := by
  cases hfound : unstorable? vs with
  | none => rfl
  | some e => exact congrArg Except.error (reported_eq_self (ne_constraint_of_unstorable hfound))

theorem staysEmpty_bind (h : v = .null ∨ ∃ t : Text, v = .text t) (f : Bool → Except Failure α) :
    staysEmpty v >>= f = (outcome (unstorable? [v]) () >>= fun _ => f v.isNull) := by
  rw [staysEmpty_textual h]
  cases unstorable? [v] <;> rfl

/-- Which of the reasons a broken constraint has, once the texts of the finding are stored. -/
theorem mapError_constraints {live : FindingKey → Bool} {subject : Subject} {plan : Plan}
    {key : FindingKey} (hkey : subject.key? = some key) (hkeyOf : keyOf subject = .ok key)
    (htasks : ∀ d ∈ plan.tasks, ∀ v ∈ [d.title, d.dueDate], v = .null ∨ ∃ t : Text, v = .text t) :
    (do
      if plan.finding.severity.isNull || plan.finding.title.isNull || live key then
        throw .constraint
      checkTasks plan.tasks : Except Failure Unit).mapError (reported live subject) =
      outcome (duplicate? live subject <|>
        missing? [plan.finding.severity, plan.finding.title] <|>
        withoutJson? (plan.tasks.map fun d => .list d.artifacts) <|>
        unstorable? (plan.tasks.flatMap fun d => [d.title, d.notes]) <|>
        missing? (plan.tasks.map fun d => d.title)) () := by
  have hreported : reported live subject .constraint =
      if live key then .duplicateFinding key else .findingNotStored := by
    rw [reported, hkeyOf]
  have hduplicate : duplicate? live subject =
      if live key then some (.duplicateFinding key) else none := by
    rw [duplicate?, hkey, Option.filter_some]
    cases live key <;> rfl
  have hmissing : missing? [plan.finding.severity, plan.finding.title] =
      if plan.finding.severity.isNull || plan.finding.title.isNull then some .findingNotStored
      else none := by
    rw [missing?, List.any_cons, List.any_cons, List.any_nil, Bool.or_false]
  rw [hduplicate, hmissing]
  cases hlive : live key with
  | true =>
    rw [Bool.or_true]
    exact congrArg Except.error (by rw [hreported, hlive]; rfl)
  | false =>
    rw [hlive] at hreported
    rw [Bool.or_false]
    cases plan.finding.severity.isNull || plan.finding.title.isNull with
    | true => exact congrArg Except.error hreported
    | false =>
      show (checkTasks plan.tasks).mapError _ =
        outcome (withoutJson? (plan.tasks.map fun d => .list d.artifacts) <|> _) ()
      rw [checkTasks_textual htasks, outcome_orElse, mapError_withoutJson, outcome_orElse,
        mapError_unstorable, outcome_orElse, outcome_orElse, missing?, List.any_map,
        show (Value.isNull ∘ fun d : TaskDraft => d.title) = fun d => d.title.isNull from rfl]
      refine congrArg _ (funext fun _ => congrArg _ (funext fun _ => ?_))
      cases plan.tasks.any fun d => d.title.isNull with
      | true => exact congrArg Except.error hreported
      | false => rfl

theorem check_textual {plan : Plan} (h : plan.Textual) (live : FindingKey → Bool)
    (subject : Subject) : check live subject plan = outcome (refusal? live subject plan) () := by
  obtain ⟨hseverity, hrest⟩ := List.forall_mem_cons.1 h.finding
  obtain ⟨htitle, hdue⟩ := List.forall_mem_cons.1 hrest
  have hdates : ∀ v ∈ plan.tasks.map (fun d => d.dueDate) ++ [plan.finding.dueDate],
      v = .null ∨ ∃ t : Text, v = .text t := by
    refine List.forall_mem_append.2 ⟨List.forall_mem_map.2 fun d hd => ?_, hdue⟩
    exact h.tasks d hd _ (by simp)
  have hcolumns : ∀ vs : List Value, unstorable? (vs ++ [plan.finding.severity,
      plan.finding.title]) = (unstorable? vs <|> unstorable? [plan.finding.severity] <|>
        unstorable? [plan.finding.title]) := by
    intro vs
    rw [unstorable?_append, ← unstorable?_append [plan.finding.severity]]
    rfl
  rw [check_eq, mapM_dueDate_textual hdates, refusal?, outcome_orElse]
  refine congrArg _ (funext fun _ => ?_)
  rw [checkRows, jsonOf_eq_outcome, mapError_withoutJson, outcome_orElse]
  refine congrArg _ (funext fun _ => ?_)
  rw [show [Value.text subject.entityType, .text subject.entityId, plan.finding.severity,
    plan.finding.title] = [.text subject.entityType, .text subject.entityId] ++
      [plan.finding.severity, plan.finding.title] from rfl, hcolumns]
  rcases key?_or_unstorable subject with
    ⟨key, hkey, hkeyOf, hencoded⟩ | ⟨e, hkey, hkeyOf, hencoded⟩
  · rw [hkeyOf, hencoded]
    show (staysEmpty plan.finding.severity >>= _).mapError _ = outcome ((_ <|> _) <|> _) ()
    rw [staysEmpty_bind hseverity, mapError_unstorable, staysEmpty_bind htitle,
      mapError_unstorable, mapError_constraints hkey hkeyOf h.tasks]
    cases unstorable? [plan.finding.severity] with
    | some e => rfl
    | none => cases unstorable? [plan.finding.title] <;> rfl
  · rw [hkeyOf, hencoded]
    exact congrArg Except.error (reported_eq_self (ne_constraint_of_unstorable hencoded))

end Filing

/-! ## Outcomes -/

/-- What is refused fails, and leaves the store as it was. -/
theorem Filing.fails_of_refusal (hs : s.Supplied) {subject : Subject} {plan : Plan} {e : Failure}
    (hplan : plan.Textual)
    (h : refusal? (fun key => (s.liveFinding? key).isSome) subject plan = some e) :
    Fails (file subject plan) s e s := by
  refine (undone_file subject plan).fails_of_verdict ?_
  rw [verdict_file hs.findings, check_textual hplan, h]
  rfl

/-- In any store whose next identifiers are new, a finding with its tasks, whose titles, severities
and due dates are texts or nulls, is filed whole or not at all. It is refused for the first reason
that stands in its way: a due date that is a text and no date; evidence that has no JSON; a lone
surrogate in a text of the finding; a live finding about the key; a title or a severity that is
null; and of the tasks, artifacts that have no JSON, a title with a lone surrogate or notes that no
column takes, and a title that is null. Otherwise one open finding is added and its tasks in the
order of their drafts. A filing that fails leaves the store as it was, whatever a transaction that
goes on makes of it. -/
theorem filing_outcomes (s : Store) (hs : s.Supplied) (subject : Filing.Subject) (plan : Plan)
    (hplan : plan.Textual) :
    (match Filing.refusal? (fun key => (s.liveFinding? key).isSome) subject plan with
      | some e => Fails (Filing.file subject plan) s e s
      | none => ∃ f ts s', Yields (Filing.file subject plan) s f s' ∧ subject.key? = some f.key ∧
        Filing.Files subject plan f ts ∧ Filing.Stores s s' f ts ∧ s'.tasksOf f.id = ts) ∧
      ∀ e s', Fails (Filing.file subject plan) s e s' → s' = s ∧ ∀ handler : Failure → Txn Finding,
        ((tryCatch (Filing.file subject plan) handler) s : Except Failure Finding × Store) =
          handler e s := by
  refine ⟨?_, fun e s' hfails => ?_⟩
  · cases hrefusal : Filing.refusal? (fun key => (s.liveFinding? key).isSome) subject plan with
    | some e => exact Filing.fails_of_refusal hs hplan hrefusal
    | none =>
      have hverdict := Filing.verdict_file hs.findings subject plan
      rw [Filing.check_textual hplan, hrefusal] at hverdict
      obtain ⟨f, s', hfile⟩ := verdict_eq_ok.1 hverdict
      obtain ⟨ts, hfiles, hstores⟩ := Filing.yields_file hfile
      refine ⟨f, ts, s', hfile, ?_, hfiles, hstores, hstores.tasksOf hs hfiles⟩
      have hfiled : Yields (Txn.ofExcept (Filing.keyOf subject)) s f.key s :=
        Filing.key_eq subject ▸ hfiles.yields_key
      rcases Filing.key?_or_unstorable subject with ⟨key, hkey, hkeyOf, -⟩ | ⟨e, -, hkeyOf, -⟩
      · rw [hkey, Except.ok.inj (hkeyOf.symm.trans (yields_ofExcept.1 hfiled).1)]
      · cases hkeyOf.symm.trans (yields_ofExcept.1 hfiled).1
  · obtain rfl := (Filing.undone_file subject plan).fails hfails
    refine ⟨rfl, fun handler => ?_⟩
    rw [run_tryCatch, show Filing.file subject plan s' = _ from hfails]

/-- A loan is reported by the blanket rule. -/
def reportedLoan : List Move :=
  blanketRule ++
    [.call {} { tenant := ⟨100⟩ } (.evaluate "loan" [("id", .text "7")] none false)]

/-- What is still to be said of an entity by the version of the blanket rule. -/
def aboutEntity (entityId : String) : Filing.Subject :=
  { tenant := ⟨100⟩, entityType := "loan", entityId, pack := none, rule := ⟨1⟩, version := ⟨2⟩
    details := [] }

/-- A finding without a title, and a task. -/
def untitledPlan : Plan :=
  { finding := { title := .null }
    tasks := [{ title := .text "Call", dueDate := .null, artifacts := [], notes := .null }] }

theorem untitledPlan_textual : untitledPlan.Textual := by
  constructor
  · exact List.forall_mem_cons.2 ⟨.inr ⟨_, rfl⟩, List.forall_mem_cons.2 ⟨.inl rfl,
      List.forall_mem_singleton.2 (.inl rfl)⟩⟩
  · exact List.forall_mem_singleton.2 (List.forall_mem_cons.2 ⟨.inr ⟨_, rfl⟩,
      List.forall_mem_singleton.2 (.inl rfl)⟩)

/-- Whether the loan has a live finding. -/
theorem liveFinding?_reportedLoan :
    let s := ((Engine.fresh .absent default 0).after reportedLoan).store
    (s.liveFinding? ⟨⟨100⟩, "loan", "7", ⟨2⟩⟩).isSome = true ∧
      (s.liveFinding? ⟨⟨100⟩, "loan", "8", ⟨2⟩⟩).isSome = false :=
  ⟨by cbv, by cbv⟩

theorem duplicate?_aboutEntity (live : FindingKey → Bool) (entityId : String) :
    Filing.duplicate? live (aboutEntity entityId) =
      if live ⟨⟨100⟩, "loan", entityId, ⟨2⟩⟩ then
        some (.duplicateFinding ⟨⟨100⟩, "loan", entityId, ⟨2⟩⟩)
      else none := by
  have hkey : (aboutEntity entityId).key? = some ⟨⟨100⟩, "loan", entityId, ⟨2⟩⟩ := by
    unfold Filing.Subject.key? aboutEntity
    rw [Text.string?_ofString, Text.string?_ofString]
    rfl
  rw [Filing.duplicate?, hkey, Option.filter_some]
  cases live ⟨⟨100⟩, "loan", entityId, ⟨2⟩⟩ <;> rfl

/-- It is a duplicate where the loan has been reported, and not stored where it has not. -/
theorem filing_outcomes_untitled :
    let s := ((Engine.fresh .absent default 0).after reportedLoan).store
    Fails (Filing.file (aboutEntity "7") untitledPlan) s
        (.duplicateFinding ⟨⟨100⟩, "loan", "7", ⟨2⟩⟩) s ∧
      Fails (Filing.file (aboutEntity "8") untitledPlan) s .findingNotStored s := by
  have hs : ((Engine.fresh .absent default 0).after reportedLoan).store.Intact :=
    Engine.after_intact (Engine.fresh_intact .absent default 0) reportedLoan
  have hfails {s : Store} {subject : Filing.Subject} {e : Failure} (hs : s.Intact)
      (h : Filing.refusal? (fun key => (s.liveFinding? key).isSome) subject untitledPlan = some e) :
      Fails (Filing.file subject untitledPlan) s e s := by
    have hall := (filing_outcomes s hs.supplied subject untitledPlan untitledPlan_textual).1
    rw [h] at hall
    exact hall
  obtain ⟨hreported, hnew⟩ := liveFinding?_reportedLoan
  constructor
  · refine hfails hs ?_
    rw [Filing.refusal?, duplicate?_aboutEntity, hreported]
    rfl
  · refine hfails hs ?_
    rw [Filing.refusal?, duplicate?_aboutEntity, hnew]
    rfl

/-- A finding whose title is a lone surrogate. -/
def surrogatePlan : Plan := { finding := { title := .text ⟨[.surrogate 0]⟩ }, tasks := [] }

theorem surrogatePlan_textual : surrogatePlan.Textual := by
  constructor
  · exact List.forall_mem_cons.2 ⟨.inr ⟨_, rfl⟩, List.forall_mem_cons.2 ⟨.inr ⟨_, rfl⟩,
      List.forall_mem_singleton.2 (.inl rfl)⟩⟩
  · exact fun d hd => by cases hd

/-- It is not filed, though it has no due date, nothing is null and no finding about the loan is
live; and where one is live, it is no duplicate. -/
theorem surrogate_title_not_filed :
    let s := ((Engine.fresh .absent default 0).after reportedLoan).store
    let live := fun key => (s.liveFinding? key).isSome
    Filing.misdated? [surrogatePlan.finding.dueDate] = none ∧
    Filing.missing? [surrogatePlan.finding.severity, surrogatePlan.finding.title] = none ∧
    (Filing.duplicate? live (aboutEntity "8") = none ∧
      Fails (Filing.file (aboutEntity "8") surrogatePlan) s (.unencodable ⟨[.surrogate 0]⟩) s) ∧
    (Filing.duplicate? live (aboutEntity "7") =
        some (.duplicateFinding ⟨⟨100⟩, "loan", "7", ⟨2⟩⟩) ∧
      Fails (Filing.file (aboutEntity "7") surrogatePlan) s (.unencodable ⟨[.surrogate 0]⟩) s) := by
  intro s live
  have hs : s.Intact :=
    Engine.after_intact (Engine.fresh_intact .absent default 0) reportedLoan
  have hfails (subject : Filing.Subject)
      (h : Filing.refusal? live subject surrogatePlan = some (.unencodable ⟨[.surrogate 0]⟩)) :
      Fails (Filing.file subject surrogatePlan) s (.unencodable ⟨[.surrogate 0]⟩) s :=
    Filing.fails_of_refusal hs.supplied surrogatePlan_textual h
  obtain ⟨hreported, hnew⟩ := liveFinding?_reportedLoan
  refine ⟨rfl, rfl, ⟨?_, hfails _ ?_⟩, ?_, hfails _ ?_⟩
  · exact (duplicate?_aboutEntity live "8").trans (if_neg (Bool.eq_false_iff.1 hnew))
  · rfl
  · exact (duplicate?_aboutEntity live "7").trans (if_pos hreported)
  · rfl

end Rulebook
