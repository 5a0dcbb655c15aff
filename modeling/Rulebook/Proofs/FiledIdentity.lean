import Mathlib
import Rulebook.Proofs.Commuting
import Rulebook.Proofs.Reevaluation
import Rulebook.Proofs.Service
import Rulebook.Proofs.Tenancy.Findings
import Rulebook.Proofs.Value.JsonForm

/-!
The identifier that findings are filed under. A table finds an entity by the text of its column for
identifiers, and names it by the cell `id` of its row if there is one, else by that column
(`Table.idCell`). Findings are filed under the name (`Evaluation.within_evaluate`). This is
what the entity was asked for by if the row has no `id` beside that column, and if the text in the
column is the text of the value; for a double the two may differ (`EntitySource.KeepsIds`).
-/
namespace Rulebook

open Txn

/-! ## Names of entities -/

namespace Table

variable {idColumn column : String} {row : Fields} {entityId : Text}

/-- The cell of a row that names the entity. -/
def idCell (idColumn : String) (row : Fields) : Value :=
  (row.get? "id").getD (row.getD idColumn)

theorem getD_toEntity_id (idColumn : String) (row : Fields) :
    (toEntity idColumn row).getD "id" = (idCell idColumn row).toJsonForm := by
  unfold toEntity idCell
  dsimp only
  rw [Value.get?_membersToJsonForm, Option.isSome_map]
  cases hid : row.get? "id" with
  | none =>
    rw [if_neg (by decide), Fields.getD, Fields.get?_put, if_pos rfl, Value.getD_membersToJsonForm]
    rfl
  | some v =>
    rw [if_pos Option.isSome_some, Value.getD_membersToJsonForm, Fields.getD, hid]
    rfl

/-- A row keeps the identifier that it is found by in a column: if it has a name, this comes from
that column, and has the same text there. -/
def KeepsId (idColumn column : String) (row : Fields) : Prop :=
  idCell idColumn row = .null ∨ idCell idColumn row = row.getD column ∧
    ColumnType.textOf? (row.getD column) = some (row.getD column).toJsonForm.plain

theorem KeepsId.idText_eq (h : KeepsId idColumn column row)
    (hnamed : (toEntity idColumn row).getD "id" ≠ .null)
    (hfound : cellText? row column = some entityId) :
    EntitySource.idText (toEntity idColumn row) = entityId := by
  rw [getD_toEntity_id] at hnamed
  rw [EntitySource.idText, getD_toEntity_id]
  rcases h with hnull | ⟨hsame, htext⟩
  · rw [hnull] at hnamed
    exact absurd rfl hnamed
  · rw [cellText?, htext] at hfound
    rw [hsame]
    exact Option.some.inj hfound

theorem ownRows_subset {t : Table} {tenantColumn : String} {tenant : Uuid} {rows : List Fields}
    (h : t.ownRows tenantColumn tenant = .ok rows) : rows ⊆ t.rows := by
  obtain ⟨_, -, h⟩ := Except.bind_eq_ok.1 h
  cases h
  exact List.filter_subset_self _

end Table

namespace EntityTables

variable {e : EntityTables} {tenant : Uuid} {entityType entityId : Text} {entity : Fields}

/-- Every row of the tables keeps the identifier that it is found by. -/
def KeepsIds (e : EntityTables) : Prop :=
  ∀ t ∈ e.tables, ∀ column, t.column e.idColumn = .ok column →
    ∀ row ∈ t.rows, Table.KeepsId e.idColumn column row

theorem mem_of_table {t : Table} (h : e.table entityType = .ok t) : t ∈ e.tables := by
  unfold table at h
  split at h
  · cases h
  · split at h
    · next hfound =>
      cases h
      exact List.mem_of_find?_eq_some hfound
    · cases h

theorem KeepsIds.idText_eq (h : e.KeepsIds)
    (hget : e.get? tenant entityType entityId = .ok (some entity))
    (hnamed : entity.getD "id" ≠ .null) : EntitySource.idText entity = entityId := by
  obtain ⟨t, ht, hget⟩ := Except.bind_eq_ok.1 hget
  obtain ⟨rows, hrows, hget⟩ := Except.bind_eq_ok.1 hget
  obtain ⟨column, hcolumn, hget⟩ := Except.bind_eq_ok.1 hget
  obtain ⟨-, -, hget⟩ := Except.bind_eq_ok.1 hget
  obtain ⟨row, hrow, rfl⟩ := Option.map_eq_some_iff.1 (Except.ok.inj hget)
  have hmem := Table.ownRows_subset hrows (List.mem_of_find?_eq_some hrow)
  have hcell := List.find?_some hrow
  exact (h t (mem_of_table ht) column hcolumn row hmem).idText_eq hnamed (eq_of_beq hcell)

end EntityTables

namespace EntitySource

variable {source : EntitySource} {tenant : Uuid} {entityType entityId : Text} {entity : Fields}

/-- Entities are named by what they are found by. In memory they always are. -/
def KeepsIds : EntitySource → Prop
  | tables e => e.KeepsIds
  | absent | memory _ => True

theorem KeepsIds.idText_eq (h : source.KeepsIds)
    (hget : source.get? tenant entityType entityId = .ok (some entity))
    (hnamed : entity.getD "id" ≠ .null) : idText entity = entityId := by
  cases source with
  | absent => cases hget
  | memory held =>
    have hid := List.find?_some (Except.ok.inj hget)
    exact eq_of_beq hid
  | tables e => exact EntityTables.KeepsIds.idText_eq h hget hnamed

end EntitySource

/-! ## What findings are filed under -/

/-- All findings that are new have a property. -/
def Store.AddsOnly (P : Finding → Prop) (s s' : Store) : Prop :=
  ∀ f ∈ s'.findings, f ∈ s.findings ∨ P f

instance (P : Finding → Prop) : IsPreorder Store (Store.AddsOnly P) where
  refl _ _ hf := Or.inl hf
  trans _ _ _ h h' f hf := (h' f hf).elim (h f) Or.inr

section Added

variable {P : Finding → Prop}

theorem Filing.within_file {subject : Subject} (plan : Plan)
    (hP : ∀ f : Finding, Text.ofString f.entityId = subject.entityId → P f) :
    Within (Store.AddsOnly P) (file subject plan) := by
  intro s
  rcases undone_file subject plan s with ⟨f, s', h⟩ | h
  · obtain ⟨ts, hfiles, -, -, -, t, -, hstore⟩ := yields_file h
    rw [h.left, hstore]
    intro g hg
    refine (List.mem_append.1 hg).imp id fun hnew => ?_
    rw [List.mem_singleton.1 hnew]
    exact hP f hfiles.entityId_eq
  · rw [h]
    exact refl s

namespace Evaluation

variable {c : Circumstances} {t : Target}

theorem within_fileHit (today : Date) (v : Version) (r : Rule) (tree : Condition)
    (hP : ∀ f : Finding, Text.ofString f.entityId = t.entityId → P f) :
    Within (Store.AddsOnly P) (fileHit today t v r tree) := by
  refine (reads_ofFault _).within.bind fun inputs _ _ _ => ?_
  refine (reads_ofFault _).within.bind fun plan _ _ _ => ?_
  have hshown : Within (Store.AddsOnly P) (Filing.fileShown (subject t v r inputs) plan) :=
    (Filing.within_file plan hP).bind fun f _ _ _ =>
      .ite (reads_showFinding f).within (reads_throw _).within
  refine .tryCatch (hshown.bind fun a _ _ _ => (reads_pure (some a)).within) fun e => ?_
  split
  · exact (reads_pure none).within
  · exact (reads_throw _).within

theorem within_evaluateVersion (v : Version) (r : Rule)
    (hP : ∀ f : Finding, Text.ofString f.entityId = t.entityId → P f) :
    Within (Store.AddsOnly P) (evaluateVersion c t v r) := by
  have hnone : Within (Store.AddsOnly P) (pure none : Txn (Option FindingView)) :=
    (reads_pure none).within
  cases h : Condition.ofValue c.policy v.conditionsOrNone with
  | error e =>
    rw [evaluateVersion_of_malformed h]
    exact hnone
  | ok tree =>
    have hhit := within_fileHit c.today v r tree hP
    rw [evaluateVersion_of_tree h]
    refine (reads_ofFault _).within.bind fun holds _ _ _ => .ite hnone (.ite hhit ?_)
    refine (Filing.reads_key _ _ _ _).within.bind fun key _ _ _ => ?_
    exact reads_get.within.bind fun s _ _ _ => .ite hnone hhit

theorem within_evaluateVersions (listed : List (Version × Rule))
    (hP : ∀ f : Finding, Text.ofString f.entityId = t.entityId → P f) :
    Within (Store.AddsOnly P) (evaluateVersions c t listed) := by
  induction listed with
  | nil => exact (reads_pure []).within
  | cons hit rest ih =>
    obtain ⟨v, r⟩ := hit
    refine (within_evaluateVersion v r hP).bind fun found _ _ _ => ?_
    exact ih.bind fun more _ _ _ => (reads_pure _).within

variable {s s' : Store} {caller : Caller} {entityType : Text} {entity : Fields}
  {found : List FindingView}

/-- An entity that is evaluated has a name. -/
theorem Target.named_of_ofEntity {tenant : Uuid}
    (h : Target.ofEntity tenant entityType entity = .ok t) : entity.getD "id" ≠ .null := by
  intro hnull
  rw [ofEntity, hnull] at h
  cases h

/-- Whether an evaluation goes through or fails, what it has filed is filed under the name of the
entity. -/
theorem within_evaluate (hP : entity.getD "id" ≠ .null →
      ∀ f : Finding, Text.ofString f.entityId = EntitySource.idText entity → P f) :
    Within (Store.AddsOnly P) (evaluate c caller entityType entity) := by
  refine (reads_ofExcept _).within.bind fun t _ _ ht => ?_
  obtain ⟨ht, -⟩ := yields_ofExcept.1 ht
  refine (reads_encoded _).within.bind fun name _ _ _ => reads_get.within.bind fun s _ _ _ => ?_
  refine within_evaluateVersions _ fun f hf => hP (Target.named_of_ofEntity ht) f ?_
  rw [hf, Target.ofEntity_eq_ok ht, EntitySource.idText]

theorem within_evaluateById {source : EntitySource} {entityId : Text}
    (hP : ∀ entity, source.get? caller.tenant entityType entityId = .ok (some entity) →
      entity.getD "id" ≠ .null →
        ∀ f : Finding, Text.ofString f.entityId = EntitySource.idText entity → P f) :
    Within (Store.AddsOnly P) (evaluateById c source caller entityType entityId) := by
  by_cases habsent : source = .absent
  · rw [habsent]
    exact (reads_throw _).within
  · rw [evaluateById_of_supplied habsent]
    refine (reads_ofExcept _).within.bind fun entity? _ _ hget => ?_
    obtain ⟨hget, -⟩ := yields_ofExcept.1 hget
    cases entity? with
    | none => exact (reads_throw _).within
    | some entity => exact within_evaluate (hP entity hget)

/-- What an evaluation finds is in the store. -/
theorem added_of_evaluate (hs : s.Supplied)
    (h : Yields (evaluate c caller entityType entity) s found s')
    (hP : entity.getD "id" ≠ .null →
      ∀ f : Finding, Text.ofString f.entityId = EntitySource.idText entity → P f) :
    ∀ view ∈ found, P view.finding := by
  obtain ⟨t, name, ht, -, hvisits⟩ := yields_evaluate_iff.1 h
  intro view hview
  obtain ⟨_, -, _, _, _, -, -, -, hreports⟩ := evaluateVersions_found hs hvisits view hview
  refine hP (Target.named_of_ofEntity ht) _ ?_
  rw [hreports.entityId_eq, Target.ofEntity_eq_ok ht, EntitySource.idText]

end Evaluation

end Added

namespace Http.Body.Evaluand

/-- The call that evaluates what is given. -/
def call (entityType : Text) (today : Option Date) : Evaluand → Call
  | inline entity => .evaluate entityType entity today false
  | byId entityId => .evaluateById entityType entityId today

/-- What the entity is asked for by. -/
def idText : Evaluand → Text
  | inline entity => EntitySource.idText entity
  | byId entityId => entityId

/-- The entity that is meant. -/
def Means (source : EntitySource) (tenant : Uuid) (entityType : Text) (entity : Fields) :
    Evaluand → Prop
  | inline given => given = entity
  | byId entityId => source.get? tenant entityType entityId = .ok (some entity)

/-- The entity is named by what it is asked for by, as one that is given inline always is. -/
def KeepsId (source : EntitySource) : Evaluand → Prop
  | inline _ => True
  | byId _ => source.KeepsIds

/-- A finding is filed under the name of the entity that is meant. -/
def Files (source : EntitySource) (tenant : Uuid) (entityType : Text) (evaluand : Evaluand)
    (f : Finding) : Prop :=
  ∃ entity, evaluand.Means source tenant entityType entity ∧
    Text.ofString f.entityId = EntitySource.idText entity ∧
    (evaluand.KeepsId source → Text.ofString f.entityId = evaluand.idText)

theorem files_of_named {source : EntitySource} {tenant : Uuid} {entityType : Text}
    {evaluand : Evaluand} {entity : Fields}
    (hmeans : evaluand.Means source tenant entityType entity)
    (hnamed : entity.getD "id" ≠ .null) (f : Finding)
    (hf : Text.ofString f.entityId = EntitySource.idText entity) :
    evaluand.Files source tenant entityType f := by
  refine ⟨entity, hmeans, hf, fun hkeeps => ?_⟩
  cases evaluand with
  | inline given =>
    rw [hf, ← show given = entity from hmeans]
    rfl
  | byId entityId =>
    exact hf.trans (EntitySource.KeepsIds.idText_eq hkeeps hmeans hnamed)

end Http.Body.Evaluand

open Http Http.Body

namespace Engine

variable {e : Engine} {settings : Settings} {caller : Caller} {entityType : Text}
  {today : Option Date}

theorem perform_evaluateById_ok {entityId : Text} {answer : Answer}
    (h : (e.perform settings caller (.evaluateById entityType entityId today)).1 = .ok answer) :
    ∃ d found entity, answer = .findings found ∧
      e.source.get? caller.tenant entityType entityId = .ok (some entity) ∧
      Yields (Evaluation.evaluate { policy := settings.policy, today := d } caller entityType
        entity) e.store found
          (e.perform settings caller (.evaluateById entityType entityId today)).2.store := by
  have hrun := yields_of_transact (Prod.ext h rfl :
    e.perform settings caller (.evaluateById entityType entityId today) = (.ok answer, _))
  obtain ⟨found, hbody, hanswer⟩ := yields_map.1 hrun
  obtain ⟨d, -, hevaluate⟩ := (reads_reference today).yields_bind.1 hbody
  by_cases habsent : e.source = .absent
  · rw [habsent] at hevaluate
    exact absurd hevaluate not_yields_throw
  · rw [Evaluation.evaluateById_of_supplied habsent] at hevaluate
    obtain ⟨entity?, hget, hevaluate⟩ := (reads_ofExcept _).yields_bind.1 hevaluate
    obtain ⟨hget, -⟩ := yields_ofExcept.1 hget
    cases entity? with
    | none => exact absurd hevaluate not_yields_throw
    | some entity => exact ⟨d, found, entity, hanswer, hget, hevaluate⟩

/-- Whether a call goes through, fails and is undone, or fails after it has committed something: it
leaves no new finding but those of the entity that is meant. -/
theorem perform_evaluand_adds (evaluand : Evaluand) :
    e.store.AddsOnly (evaluand.Files e.source caller.tenant entityType)
      (e.perform settings caller (evaluand.call entityType today)).2.store := by
  cases evaluand with
  | inline entity =>
    refine answer_ends (P := e.store.AddsOnly _) (refl e.store)
      ((reads_reference today).within.bind (fun d _ _ _ => ?_) e.store)
    exact Evaluation.within_evaluate (Evaluand.files_of_named rfl)
  | byId entityId =>
    refine answer_ends (P := e.store.AddsOnly _) (refl e.store)
      ((reads_reference today).within.bind (fun d _ _ _ => ?_) e.store)
    exact Evaluation.within_evaluateById fun entity hget => Evaluand.files_of_named hget

/-- A call that goes through answers findings of the entity that is meant. -/
theorem perform_evaluand_ok (hs : e.store.Intact) (evaluand : Evaluand) {answer : Answer}
    (h : (e.perform settings caller (evaluand.call entityType today)).1 = .ok answer) :
    ∃ found, answer = .findings found ∧
      ∀ view ∈ found, evaluand.Files e.source caller.tenant entityType view.finding := by
  cases evaluand with
  | inline entity =>
    obtain ⟨d, found, hanswer, hevaluate⟩ := perform_evaluate_ok h
    exact ⟨found, hanswer, Evaluation.added_of_evaluate hs.supplied hevaluate
      (Evaluand.files_of_named rfl)⟩
  | byId entityId =>
    obtain ⟨d, found, entity, hanswer, hget, hevaluate⟩ := perform_evaluateById_ok h
    exact ⟨found, hanswer, Evaluation.added_of_evaluate hs.supplied hevaluate
      (Evaluand.files_of_named hget)⟩

end Engine

/-! ## What a response shows -/

namespace Http

theorem Endpoint.evaluation_eq (entityType : Text) (evaluand : Evaluand) :
    Endpoint.evaluation entityType evaluand = .call (evaluand.call entityType none) 200
      (Endpoint.evaluationForm entityType evaluand.idText) := by
  cases evaluand <;> rfl

variable {settings : ServiceSettings} {r : Request} {ids : List PathId} {engine : Engine}

/-- A request for an evaluation that can be read asks for one. -/
theorem evaluation_of_action {caller : Caller} {action : Action}
    (h : r.action settings .evaluate ids = .ok (caller, action)) :
    ∃ entityType evaluand, action = Endpoint.evaluation entityType evaluand := by
  obtain ⟨content, -, h⟩ := Except.bind_eq_ok.1 h
  obtain ⟨_, -, h⟩ := Except.bind_eq_ok.1 h
  split at h
  · next asked hasked =>
    cases h
    change (fun given : Text × Evaluand => Endpoint.evaluation given.1 given.2) <$>
      Endpoint.body content Body.evaluation = .good action at hasked
    cases hbody : Endpoint.body content Body.evaluation with
    | good given =>
      rw [hbody] at hasked
      cases hasked
      exact ⟨given.1, given.2, rfl⟩
    | bad issues =>
      rw [hbody] at hasked
      cases hasked
  · cases h

/-- An evaluation is answered with what was asked for, and with its findings. -/
theorem get?_evaluationForm (entityType entityId : Text) (found : List FindingView) :
    let v := (Endpoint.evaluationForm entityType entityId (.findings found)).finiteForm
    v.get? "entity_id" = some (.text entityId) ∧
      ∃ items, v.get? "findings" = some (.list items) ∧
        List.Forall₂ (fun view item =>
          item.get? "entity_id" = some (.text view.finding.entityId)) found items := by
  intro v
  have hmember := Value.get?_finiteForm
    (Endpoint.evaluationForm entityType entityId (.findings found))
  refine ⟨hmember _, _, hmember _, ?_⟩
  rw [Value.finiteForms_eq_map, List.map_map, List.forall₂_map_right_iff]
  exact List.forall₂_same.2 fun view _ => Value.get?_finiteForm (Wire.ofFinding view) _

/-- A request for an evaluation that succeeds has performed one, and is answered with it. -/
theorem evaluated_of_answer
    (hto : destination settings.apiStart r.method r.path = .endpoint .evaluate ids)
    (h : (answer settings r engine).1.status < 400) :
    ∃ caller entityType evaluand a,
      r.action settings .evaluate ids = .ok (caller, Endpoint.evaluation entityType evaluand) ∧
      (engine.perform settings.engine caller (evaluand.call entityType none)).1 = .ok a ∧
      (answer settings r engine).1 =
        ⟨200, .json (Endpoint.evaluationForm entityType evaluand.idText a).finiteForm⟩ := by
  obtain ⟨caller, action, haction⟩ := action_of_answer hto h
  obtain ⟨entityType, evaluand, rfl⟩ := evaluation_of_action haction
  have hcall := haction
  rw [Endpoint.evaluation_eq] at hcall
  rw [answer_of_call hto hcall] at h ⊢
  obtain ⟨a, hperform, hanswer⟩ := answerCall_ok h
  exact ⟨caller, entityType, evaluand, a, haction, hperform, hanswer⟩

end Http

/-- An evaluation by identifier, whether it goes through or fails, leaves no new finding but those
filed under the name of the entity that the source finds, and answers no others; this name is the
identifier that was asked for if the source keeps identifiers. A request for an evaluation that
succeeds is answered with the identifier that was asked for and with the findings of the call, each
with the name of the entity that it is filed under; the two are the same if the entity was given
inline or the source keeps identifiers. -/
theorem filed_under_name (source : EntitySource) (clock : Instant) (nextId : Nat)
    (moves : List Move) :
    let e := (Engine.fresh source clock nextId).after moves
    (∀ (settings : Settings) (caller : Caller) (entityType entityId : Text) (today : Option Date),
      let called := e.perform settings caller (.evaluateById entityType entityId today)
      let files := (Evaluand.byId entityId).Files e.source caller.tenant entityType
      (∀ f ∈ called.2.store.findings, f ∈ e.store.findings ∨ files f) ∧
        ∀ found, called.1 = .ok (.findings found) → ∀ view ∈ found, files view.finding) ∧
    ∀ (settings : ServiceSettings) (r : Request) (ids : List PathId), r.method = "POST" →
      destination settings.apiStart r.method r.path = .endpoint .evaluate ids →
      (respond settings r e).1.status = 200 →
      ∃ caller entityType evaluand found v items,
        r.action settings .evaluate ids = .ok (caller, Endpoint.evaluation entityType evaluand) ∧
        (e.perform settings.engine caller (evaluand.call entityType none)).1 =
          .ok (.findings found) ∧
        (respond settings r e).1.payload = .json v ∧
        v.get? "entity_id" = some (.text evaluand.idText) ∧
        v.get? "findings" = some (.list items) ∧
        List.Forall₂ (fun view item =>
          evaluand.Files e.source caller.tenant entityType view.finding ∧
            item.get? "entity_id" = some (.text view.finding.entityId)) found items := by
  intro e
  have hs : e.store.Intact := Engine.after_intact (Engine.fresh_intact source clock nextId) moves
  constructor
  · intro settings caller entityType entityId today called files
    refine ⟨Engine.perform_evaluand_adds (.byId entityId), fun found h => ?_⟩
    obtain ⟨_, hfound, hfiles⟩ := Engine.perform_evaluand_ok hs (.byId entityId) h
    cases hfound
    exact hfiles
  · intro settings r ids hpost hto hstatus
    have hresponse : (respond settings r e).1 = (answer settings r e).1.forMethod r.method := rfl
    rw [hresponse, Response.status_forMethod] at hstatus
    obtain ⟨caller, entityType, evaluand, a, haction, hperform, hanswer⟩ :=
      evaluated_of_answer hto (by rw [hstatus]; decide)
    obtain ⟨found, rfl, hfiles⟩ := Engine.perform_evaluand_ok hs evaluand hperform
    obtain ⟨hid, items, hlisted, hitems⟩ := get?_evaluationForm entityType evaluand.idText found
    refine ⟨caller, entityType, evaluand, found, _, items, haction, hperform, ?_, hid, hlisted, ?_⟩
    · rw [hresponse, hpost, hanswer]
      rfl
    · exact (List.forall₂_and_left _ _).2 ⟨hfiles, hitems⟩

/-- A table of loans that are found by their numbers. Its one row belongs to a tenant. -/
def numberedLoans (columns : Fields) : Table where
  name := "loans"
  columns := [("org_id", .text), ("loan_no", .text), ("id", .text)]
  rows := [("org_id", .text (Uuid.toHex ⟨100⟩)) :: columns]

/-- Such a table is supplied to an engine with a rule about any loan. -/
def loanMoves (columns : Fields) : List Move :=
  blanketRule ++ [.supply (.tables { tables := [numberedLoans columns], idColumn := "loan_no" })]

/-- A service with short paths. -/
def loanService : ServiceSettings := { serviceName := "rulebook", apiStart := "" }

/-- A request to evaluate the loan of a number. -/
def loanRequest : Request :=
  { method := "POST", path := "/evaluate", headers := [("X-Tenant-ID", Uuid.toText ⟨100⟩)]
    body := "\x7b\"entity_id\":\"A-1\"\x7d".toList.map Char.toUInt8 }

/-- The identifier that a response is about, and those that its findings are filed under. -/
def Http.Response.identifiers (response : Response) : Text × List Text :=
  match response.payload with
  | .json v =>
    ((v.getD "entity_id").plain, match v.getD "findings" with
      | .list items => items.map fun item => (item.getD "entity_id").plain
      | _ => [])
  | _ => default

theorem column_numberedLoans (columns : Fields) :
    (numberedLoans columns).column "loan_no" = .ok "loan_no" := by
  cbv

theorem keepsIds_loanMoves (number : Text) :
    ((Engine.fresh .absent default 0).after
      (loanMoves [("loan_no", .text number)])).source.KeepsIds := by
  rw [loanMoves, Engine.after_concat]
  intro t ht column hcolumn row hrow
  obtain rfl := List.mem_singleton.1 ht
  obtain rfl := List.mem_singleton.1 hrow
  obtain rfl := Except.ok.inj ((column_numberedLoans _).symm.trans hcolumn)
  exact .inr ⟨by cbv, by cbv⟩

theorem called_numberedLoan :
    let e := (Engine.fresh .absent default 0).after (loanMoves [("loan_no", .text "A-1")])
    let called := e.perform {} { tenant := ⟨100⟩ } (.evaluateById "loan" "A-1" none)
    e.store.findings.length = 0 ∧ called.1.toOption.isSome = true ∧
      called.2.store.findings.length = 1 := by
  decide +kernel

theorem answered_loanRequest :
    let e := (Engine.fresh .absent default 0).after (loanMoves [("loan_no", .text "A-1")])
    let response := (respond loanService loanRequest e).1
    response.status = 200 ∧ response.identifiers = ⟨"A-1", ["A-1"]⟩ := by
  decide +kernel

/-- A loan with nothing but its number is filed under it. -/
theorem filed_under_name_numbered :
    let e := (Engine.fresh .absent default 0).after (loanMoves [("loan_no", .text "A-1")])
    let called := e.perform {} { tenant := ⟨100⟩ } (.evaluateById "loan" "A-1" none)
    let response := (respond loanService loanRequest e).1
    called.2.store.findings.length = 1 ∧
      (∀ f ∈ called.2.store.findings, Text.ofString f.entityId = "A-1") ∧
      (∃ found, called.1 = .ok (.findings found) ∧
        ∀ view ∈ found, Text.ofString view.finding.entityId = "A-1") ∧
      response.identifiers = ⟨"A-1", ["A-1"]⟩ ∧
      ∃ v items id, response.payload = .json v ∧ v.get? "entity_id" = some id ∧
        v.get? "findings" = some (.list items) ∧
        ∀ item ∈ items, item.get? "entity_id" = some id := by
  intro e called response
  have hkeeps : e.source.KeepsIds := keepsIds_loanMoves "A-1"
  obtain ⟨hnone, hok, hone⟩ := called_numberedLoan
  obtain ⟨hstatus, hshown⟩ := answered_loanRequest
  obtain ⟨hcall, hrequest⟩ :=
    filed_under_name .absent default 0 (loanMoves [("loan_no", .text "A-1")])
  obtain ⟨hadded, hanswered⟩ := hcall {} { tenant := ⟨100⟩ } "loan" "A-1" none
  refine ⟨hone, fun f hf => ?_, ?_, hshown, ?_⟩
  · rcases hadded f hf with hold | ⟨entity, -, -, hnamed⟩
    · rw [List.eq_nil_of_length_eq_zero hnone] at hold
      cases hold
    · exact hnamed hkeeps
  · rcases hanswer : called.1 with _ | answer
    · rw [hanswer] at hok
      cases hok
    · obtain ⟨d, found, -, rfl, -, -⟩ := Engine.perform_evaluateById_ok hanswer
      refine ⟨found, rfl, fun view hview => ?_⟩
      obtain ⟨entity, -, -, hnamed⟩ := hanswered found hanswer view hview
      exact hnamed hkeeps
  · obtain ⟨_, _, evaluand, found, v, items, -, -, hpayload, hid, hlisted, hitems⟩ :=
      hrequest loanService loanRequest [] rfl rfl hstatus
    refine ⟨v, items, _, hpayload, hid, hlisted, fun item hitem => ?_⟩
    obtain ⟨view, -, ⟨entity, -, -, hnamed⟩, hitemid⟩ := exists_of_forall₂ hitems item hitem
    have hkept : evaluand.KeepsId e.source := by
      cases evaluand with
      | inline _ => exact trivial
      | byId _ => exact hkeeps
    rw [hitemid, hnamed hkept]

/-- A loan with a number and an `id` of its own is asked for by the number and filed under the other
one. The response shows both. -/
theorem numbered_loan_filed_under_id :
    let e := (Engine.fresh .absent default 0).after
      (loanMoves [("loan_no", .text "A-1"), ("id", .text "7")])
    e.store.findings.length = 0 ∧
      (e.perform {} { tenant := ⟨100⟩ } (.evaluateById "loan" "A-1" none)).2.store.findings.map
        (fun f => f.entityId) = ["7"] ∧
      (respond loanService loanRequest e).1.identifiers = ⟨"A-1", ["7"]⟩ := by
  decide +kernel

end Rulebook
