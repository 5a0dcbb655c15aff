import Mathlib
import Rulebook.Proofs.Value.EqualityLaws
import Rulebook.Proofs.Value.Path
import Rulebook.Value.JsonForm

/-!
The JSON form as a normal form. What it is made of is JSON (`WellKeyed.isJson_toJsonForm`), and of
JSON it changes nothing (`IsJson.toJsonForm_eq`), so making it twice is making it once. It commutes
with a step, whatever that comes to (`step_toJsonForm`): what becomes a text had no members and no
items before, and what becomes a list was asked for items in the same way. Hence it commutes with
whole paths (`json_form_faithful`).
-/
namespace Rulebook.Value

variable {v : Value}

theorem toJsonForms_eq_map (items : List Value) : toJsonForms items = items.map toJsonForm := by
  induction items with
  | nil => rfl
  | cons v rest ih => rw [toJsonForms, ih, List.map_cons]

theorem membersToJsonForm_eq_map (fields : Fields) :
    membersToJsonForm fields = fields.map fun member => (member.1, toJsonForm member.2) := by
  induction fields with
  | nil => rfl
  | cons member rest ih => rw [membersToJsonForm, ih, List.map_cons]

theorem get?_membersToJsonForm (fields : Fields) (key : Text) :
    Fields.get? (membersToJsonForm fields) key = (fields.get? key).map toJsonForm := by
  rw [membersToJsonForm_eq_map, Fields.get?_map]

theorem getD_membersToJsonForm (fields : Fields) (key : Text) :
    Fields.getD (membersToJsonForm fields) key = (fields.getD key).toJsonForm := by
  rw [Fields.getD, Fields.getD, get?_membersToJsonForm]
  cases fields.get? key <;> rfl

/-- The keys of an object are kept. -/
theorem keys_membersToJsonForm (fields : Fields) :
    (membersToJsonForm fields).map Prod.fst = fields.map Prod.fst := by
  rw [membersToJsonForm_eq_map, List.map_map]
  rfl

/-! ## The form and its fixed points -/

theorem isJson_toJsonForms {items : List Value} (h : ∀ v ∈ items, v.toJsonForm.IsJson) :
    IsJson (list (toJsonForms items)) := by
  rw [toJsonForms_eq_map]
  exact .list (List.forall_mem_map.mpr h)

theorem WellKeyed.isJson_toJsonForm (h : v.WellKeyed) : v.toJsonForm.IsJson := by
  induction h with
  | null => exact .null
  | bool b => exact .bool b
  | int i => exact .int i
  | float x => exact .float x
  | decimal d => exact .float _
  | text t => exact .text t
  | date d => exact .text _
  | moment m => exact .text _
  | uuid u => exact .text _
  | list _ ih | tuple _ ih => exact isJson_toJsonForms ih
  | @object fields hkeys _ ih =>
    have hmembers : ∀ member ∈ membersToJsonForm fields, member.2.IsJson := by
      rw [membersToJsonForm_eq_map]
      exact List.forall_mem_map.mpr ih
    exact .object (keys_membersToJsonForm fields ▸ hkeys) hmembers

theorem IsJson.toJsonForm_eq (h : v.IsJson) : v.toJsonForm = v := by
  induction h with
  | @list items _ ih =>
    have hitems : items.map toJsonForm = items :=
      (List.map_congr_left ih).trans (List.map_id' items)
    rw [toJsonForm, toJsonForms_eq_map, hitems]
  | @object fields _ _ ih =>
    have hmembers : fields.map (fun member => (member.1, toJsonForm member.2)) = fields := by
      refine (List.map_congr_left fun member hmember => ?_).trans (List.map_id fields)
      exact Prod.ext rfl (ih member hmember)
    rw [toJsonForm, membersToJsonForm_eq_map, hmembers]
  | _ => rfl

/-! ## Paths into the form -/

/-- A step from the form leads to the form of what it leads to from the value. -/
theorem step_toJsonForm (v : Value) (s : Text) :
    v.toJsonForm.step s = (v.step s).map (Option.map toJsonForm) := by
  cases v with
  | object fields => exact congrArg Except.ok (get?_membersToJsonForm fields s)
  | list items | tuple items =>
    rw [toJsonForm, toJsonForms_eq_map, step, step]
    cases indexChars? s with
    | none => rfl
    | some cs =>
      dsimp only
      cases index cs with
      | error e => rfl
      | ok i => exact congrArg Except.ok List.getElem?_map
  | _ => rfl

theorem follow_toJsonForm (v : Option Value) (steps : List Text) :
    follow (v.map toJsonForm) steps = (follow v steps).map (Option.map toJsonForm) := by
  induction steps generalizing v with
  | nil => rfl
  | cons s rest ih =>
    cases v with
    | none => rfl
    | some v =>
      rw [Option.map_some, follow_cons, follow_cons, step_toJsonForm]
      cases v.step s with
      | error e => rfl
      | ok w => exact ih w

/-- The JSON form is a faithful normal form. Of a value whose objects have no key twice it is JSON;
it changes nothing of JSON and nothing else is its own form, so it is the same made once and twice.
And it commutes with every path: from the form a path leads to the form of what it leads to from the
value, to nothing where it leads to nothing there, and fails where it fails there, with the same
fault. -/
theorem json_form_faithful (v : Value) (h : v.WellKeyed) :
    v.toJsonForm.IsJson ∧ v.toJsonForm.toJsonForm = v.toJsonForm ∧ (v.toJsonForm = v ↔ v.IsJson) ∧
    ∀ path : Text, resolve (some v.toJsonForm) path =
      (resolve (some v) path).map (Option.map toJsonForm) := by
  have hjson := h.isJson_toJsonForm
  have hfixed : v.toJsonForm = v ↔ v.IsJson :=
    ⟨fun heq => heq ▸ hjson, fun hv => hv.toJsonForm_eq⟩
  exact ⟨hjson, hjson.toJsonForm_eq, hfixed, fun path => follow_toJsonForm (some v) (steps path)⟩

/-- A loan with a date in a tuple: an index leads to the text of the date, no index leads into that
text or into the text of the owner, and `²`, which is no index, fails at the list as at the
tuple. -/
theorem json_form_faithful_tuple :
    let first : Date := ⟨1, by decide, by decide⟩
    let loan : Value := .object [("dates", .tuple [.date first, .null]), ("owner", .uuid ⟨7⟩)]
    loan.WellKeyed ∧ loan.toJsonForm.IsJson ∧
      resolve (some loan.toJsonForm) "dates.0" = .ok (some (.text "0001-01-01")) ∧
      resolve (some loan.toJsonForm) "dates.0.0" = .ok none ∧
      resolve (some loan.toJsonForm) "owner.0" = .ok none ∧
      resolve (some loan.toJsonForm) "dates.²" = .error (.badIndex "²") := by
  intro first loan
  have hdates : WellKeyed (.tuple [.date first, .null]) :=
    .tuple (List.forall_mem_cons.mpr ⟨.date first, List.forall_mem_singleton.mpr .null⟩)
  have hmembers : ∀ member ∈ [(Text.ofString "dates", Value.tuple [.date first, .null]),
      (Text.ofString "owner", Value.uuid ⟨7⟩)], member.2.WellKeyed :=
    List.forall_mem_cons.mpr ⟨hdates, List.forall_mem_singleton.mpr (.uuid ⟨7⟩)⟩
  have hkeyed : loan.WellKeyed := .object (by decide) hmembers
  obtain ⟨hjson, -, -, hpaths⟩ := json_form_faithful loan hkeyed
  exact ⟨hkeyed, hjson, (hpaths _).trans (by cbv), (hpaths _).trans (by cbv),
    (hpaths _).trans (by cbv), (hpaths _).trans (by cbv)⟩

end Rulebook.Value
