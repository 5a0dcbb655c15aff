import Rulebook.Http.Service
import Rulebook.Proofs.Results
import Rulebook.Proofs.Value.Fields

/-!
Requests that succeed. What cannot be read of a request, and what a call fails with, is reported
with a status from 400 on. So a response below it comes from a call that has been performed, and
carries the answer to it (`Http.answerCall_ok`).
-/
namespace Rulebook

/-! ## What is sent -/

namespace Value

theorem finiteForms_eq_map (items : List Value) : finiteForms items = items.map finiteForm := by
  induction items with
  | nil => rfl
  | cons v rest ih => rw [finiteForms, ih, List.map_cons]

theorem finiteMembers_eq_map (fields : Fields) :
    finiteMembers fields = fields.map fun member => (member.1, finiteForm member.2) := by
  induction fields with
  | nil => rfl
  | cons member rest ih => rw [finiteMembers, ih, List.map_cons]

/-- What is sent of an object has the same members. -/
theorem get?_finiteForm (v : Value) (key : Text) :
    v.finiteForm.get? key = (v.get? key).map finiteForm := by
  cases v with
  | object fields =>
    rw [finiteForm, get?, finiteMembers_eq_map, Fields.get?_map]
    rfl
  | float x =>
    unfold finiteForm
    split <;> rfl
  | _ => rfl

end Value

namespace Http

/-! ## Refusals -/

namespace Response

theorem le_status_internal : 400 ≤ internal.status := by decide

theorem le_status_ofIssues (issues : List Issue) : 400 ≤ (ofIssues issues).status := by
  unfold ofIssues
  split
  · show 400 ≤ 422
    decide
  · exact le_status_internal

theorem le_status_coded {status : Nat} (h : 400 ≤ status) (code : String) (message : Text)
    (details : Fields) : 400 ≤ (coded status code message details).status := by
  unfold coded
  dsimp only
  split
  · exact h
  · exact le_status_internal

/-- Every failure is reported as one. -/
theorem le_status_ofFailure (f : Failure) : 400 ≤ (ofFailure f).status := by
  unfold ofFailure
  cases f.kind with
  | notFound | invalid | invalidCondition | conflict | duplicateFinding | storage | constraint
  | database => exact le_status_coded (by decide) _ _ _
  | outOfRange | wrongKind | badValue | unencodable | unpresentable | sourceless =>
    exact le_status_internal

theorem eq_of_ofValue? {status : Nat} {v : Value} {response : Response}
    (h : ofValue? status v = some response) : response = ⟨status, .json v.finiteForm⟩ := by
  unfold ofValue? at h
  dsimp only at h
  split at h
  · exact (Option.some.inj h).symm
  · cases h

theorem status_forMethod (response : Response) (method : String) :
    (response.forMethod method).status = response.status := by
  unfold forMethod
  split <;> rfl

end Response

namespace Request

variable {r : Request} {e : Endpoint} {response : Response}

theorem le_status_content (h : r.content e = .error response) : 400 ≤ response.status := by
  unfold content at h
  -- A body that is read has no characters, or is no JSON for one of the reader's three reasons.
  split at h
  · cases h
  · split at h
    · cases h
      exact Nat.le_refl 400
    · split at h
      · cases h
      · split at h
        · cases h
        · cases h
          exact Response.le_status_ofIssues _
        · cases h
          exact Nat.le_refl 400
        · cases h
          exact Nat.le_refl 400

theorem le_status_headerUuid {name : String} (h : r.headerUuid name = .error response) :
    400 ≤ response.status := by
  unfold headerUuid at h
  split at h
  · cases h
  · cases h
  · split at h
    · cases h
    · cases h
      exact Nat.le_refl 400

theorem le_status_caller (h : r.caller e = .error response) : 400 ≤ response.status := by
  unfold caller at h
  split at h
  · cases h
  · rcases Except.bind_eq_error.1 h with h | ⟨tenant?, -, h⟩
    · exact le_status_headerUuid h
    · cases tenant? with
      | none =>
        cases h
        exact Nat.le_refl 400
      | some tenant =>
        rcases Except.bind_eq_error.1 h with h | ⟨_, -, h⟩
        · exact le_status_headerUuid h
        · cases h

/-- What cannot be read of a request is reported as a failure. -/
theorem le_status_action {settings : ServiceSettings} {ids : List PathId}
    (h : r.action settings e ids = .error response) : 400 ≤ response.status := by
  rcases Except.bind_eq_error.1 h with h | ⟨content, -, h⟩
  · exact le_status_content h
  · rcases Except.bind_eq_error.1 h with h | ⟨_, -, h⟩
    · exact le_status_caller h
    · split at h
      · cases h
      · cases h
        exact Response.le_status_ofIssues _

end Request

/-! ## Success -/

variable {settings : ServiceSettings} {engine : Engine}

/-- A request to an endpoint that succeeds can be read. -/
theorem action_of_answer {r : Request} {e : Endpoint} {ids : List PathId}
    (hto : destination settings.apiStart r.method r.path = .endpoint e ids)
    (h : (answer settings r engine).1.status < 400) :
    ∃ caller action, r.action settings e ids = .ok (caller, action) := by
  unfold answer at h
  rw [hto] at h
  dsimp only at h
  cases haction : r.action settings e ids with
  | error response =>
    rw [haction] at h
    exact absurd (Request.le_status_action haction) (Nat.not_le.2 h)
  | ok read => exact ⟨read.1, read.2, rfl⟩

theorem answer_of_call {r : Request} {e : Endpoint} {ids : List PathId} {caller : Caller}
    {call : Call} {status : Nat} {form : Answer → Value}
    (hto : destination settings.apiStart r.method r.path = .endpoint e ids)
    (haction : r.action settings e ids = .ok (caller, .call call status form)) :
    answer settings r engine = answerCall settings caller call status form engine := by
  unfold answer
  rw [hto]
  dsimp only
  rw [haction]

/-- A call that succeeds has been performed, and the response carries the answer. -/
theorem answerCall_ok {caller : Caller} {call : Call} {status : Nat} {form : Answer → Value}
    (h : (answerCall settings caller call status form engine).1.status < 400) :
    ∃ a, (engine.perform settings.engine caller call).1 = .ok a ∧
      (answerCall settings caller call status form engine).1 =
        ⟨status, .json (form a).finiteForm⟩ := by
  unfold answerCall at h ⊢
  cases hperform : engine.perform settings.engine caller call with
  | mk result after =>
    rw [hperform] at h
    cases result with
    | error f => exact absurd (Response.le_status_ofFailure f) (Nat.not_le.2 h)
    | ok a =>
      refine ⟨a, rfl, ?_⟩
      dsimp only at h ⊢
      cases hsent : Response.ofValue? status (form a) with
      | none =>
        rw [hsent] at h
        exact absurd h (Nat.not_lt.2 Response.le_status_internal)
      | some response => exact Response.eq_of_ofValue? hsent

end Http

end Rulebook
