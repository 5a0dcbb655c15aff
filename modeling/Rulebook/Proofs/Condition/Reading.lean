import Rulebook.Condition.Reader
import Rulebook.Proofs.Results

/-!
How conditions are read. An object spells a group if it has the key of one, else a leaf
(`read_group`, `read_leaf`), and all other values are malformed (`Refused`); hence the induction
over the values that are read, `reading_induction`. A policy only says what becomes of malformed
nodes: a value has one tree, and each policy gives it the outcome that it wants of the malformed
nodes or refuses the first of them (`ofValue_settles`). So a tree that is read where malformed nodes
are refused has none, and reads the same under every policy (`ofValue_of_authored`).
-/
namespace Rulebook

theorem Value.eq_object_of_isObject {v : Value} (h : v.isObject = true) :
    ∃ fields, v = .object fields := by
  cases v with
  | object fields => exact ⟨fields, rfl⟩
  | _ => cases h

theorem Value.eq_list_of_isList {v : Value} (h : v.isList = true) : ∃ items, v = .list items := by
  cases v with
  | list items => exact ⟨items, rfl⟩
  | _ => cases h

namespace Condition

/-- The group that an object spells, with the value under its key: `all` is looked at before
`any`. -/
def groupOf? (fields : Fields) : Option (Group × Value) :=
  match fields.get? Group.all.key with
  | some v => some (.all, v)
  | none => (fields.get? Group.any.key).map (.any, ·)

theorem groupOf?_eq_some {fields : Fields} {group : Group} {v : Value} :
    groupOf? fields = some (group, v) ↔
      fields.get? group.key = some v ∧ (group = .any → fields.get? Group.all.key = none) := by
  unfold groupOf?
  cases group <;> cases fields.get? Group.all.key <;> simp

theorem groupOf?_eq_none {fields : Fields} :
    groupOf? fields = none ↔
      fields.get? Group.all.key = none ∧ fields.get? Group.any.key = none := by
  unfold groupOf?
  cases fields.get? Group.all.key <;> simp

/-- The value of a member is smaller than the object. -/
theorem sizeOf_lt_of_get? {fields : Fields} {key : Text} {v : Value}
    (h : fields.get? key = some v) : sizeOf v < sizeOf (Value.object fields) := by
  induction fields with
  | nil => cases h
  | cons member rest ih =>
    obtain ⟨k, w⟩ := member
    rw [Fields.get?, List.lookup_cons] at h
    cases hk : key == k with
    | true =>
      rw [hk] at h
      cases h
      simp only [Value.object.sizeOf_spec, List.cons.sizeOf_spec, Prod.mk.sizeOf_spec]
      omega
    | false =>
      rw [hk] at h
      have := ih h
      simp only [Value.object.sizeOf_spec, List.cons.sizeOf_spec] at this ⊢
      omega

variable (policy : FailurePolicy) (place : Place)

theorem readMember_eq (group : Group) (fields : Fields) :
    readMember policy place group fields =
      (fields.get? group.key).map (readGroup policy place group) := by
  induction fields with
  | nil => rfl
  | cons member rest ih =>
    obtain ⟨k, v⟩ := member
    rw [readMember, Fields.get?, List.lookup_cons]
    by_cases hk : k = group.key
    · rw [if_pos hk, hk, beq_self_eq_true]
      rfl
    · rw [if_neg hk, beq_eq_false_iff_ne.mpr (Ne.symm hk)]
      exact ih

/-- An object with members is read as the group that it spells, else as a leaf. -/
theorem read_object {fields : Fields} (h : fields ≠ []) :
    read policy place (.object fields) =
      match groupOf? fields with
      | some (group, v) => readGroup policy place group v
      | none => readLeaf policy place fields := by
  cases fields with
  | nil => exact absurd rfl h
  | cons member rest =>
    rw [read, readMember_eq, readMember_eq, groupOf?]
    · cases Fields.get? (member :: rest) Group.all.key <;>
        cases Fields.get? (member :: rest) Group.any.key <;> rfl
    · exact h

theorem ne_nil_of_groupOf? {fields : Fields} {found : Group × Value}
    (h : groupOf? fields = some found) : fields ≠ [] := by
  rintro rfl
  cases h

theorem read_group {fields : Fields} {group : Group} {items : List Value}
    (h : groupOf? fields = some (group, .list items)) :
    read policy place (.object fields) =
      (readItems policy place group 0 items).map group.node := by
  rw [read_object policy place (ne_nil_of_groupOf? h), h]
  rfl

theorem read_noList {fields : Fields} {group : Group} {v : Value}
    (h : groupOf? fields = some (group, v)) (hv : v.isList = false) :
    read policy place (.object fields) = refuse policy place (.groupNotAList group) := by
  rw [read_object policy place (ne_nil_of_groupOf? h), h]
  cases v with
  | list items => cases hv
  | _ => rfl

theorem read_other {v : Value} (h : v.isObject = false) :
    read policy place v = refuse policy place .notAnObject := by
  cases v with
  | object fields => cases h
  | _ => rfl

/-- The members of an object that spell a leaf. -/
structure SpellsLeaf (fields : Fields) (field : Text) (op : Operator) (value : Value) : Prop where
  field_eq : fields.get? "field" = some (.text field)
  field_ne : field.isEmpty = false
  op_eq : fields.getD "op" = .text op.symbol
  value_eq : fields.getD "value" = value
  /-- What a member is looked for in is a list. -/
  oneOf : op = .oneOf → value.isList = true

theorem operatorOf?_eq_some {v : Value} {op : Operator} :
    operatorOf? v = some op ↔ v = .text op.symbol := by
  constructor
  · intro h
    cases v with
    | text t =>
      obtain ⟨s, hs, hop⟩ := Option.bind_eq_some_iff.mp h
      have hsymbol : op.symbol = s := by simpa using List.find?_some hop
      rw [hsymbol, Text.ofString_of_string? hs]
    | _ => cases h
  · rintro rfl
    rw [operatorOf?, Text.string?_ofString]
    exact Operator.ofSymbol?_symbol op

theorem readLeaf_of_spells {fields : Fields} {field : Text} {op : Operator} {value : Value}
    (h : SpellsLeaf fields field op value) :
    readLeaf policy place fields = .ok (.leaf field op value) := by
  have hlist : (decide (op = .oneOf) && !value.isList) = false := by
    by_cases hop : op = .oneOf
    · rw [h.oneOf hop, Bool.not_true, Bool.and_false]
    · rw [decide_eq_false hop, Bool.false_and]
  unfold readLeaf
  rw [h.field_eq]
  dsimp only
  rw [h.field_ne, operatorOf?_eq_some.mpr h.op_eq, h.value_eq]
  dsimp only
  rw [hlist]
  rfl

/-- An object that spells no group is read as the leaf that it spells. -/
theorem read_leaf {fields : Fields} {field : Text} {op : Operator} {value : Value}
    (h : groupOf? fields = none) (hleaf : SpellsLeaf fields field op value) :
    read policy place (.object fields) = .ok (.leaf field op value) := by
  have hne : fields ≠ [] := by
    rintro rfl
    cases hleaf.field_eq
  rw [read_object policy place hne, h]
  exact readLeaf_of_spells policy place hleaf

/-- What spells no leaf is malformed in a way that does not depend on the policy. -/
theorem readLeaf_cases (fields : Fields) :
    (∃ field op value, SpellsLeaf fields field op value) ∨
      ∃ fault, ∀ policy place, readLeaf policy place fields = refuse policy place fault := by
  unfold readLeaf
  split
  · next field hfield =>
    split
    · exact .inr ⟨_, fun _ _ => rfl⟩
    · next hempty =>
      dsimp only
      split
      · exact .inr ⟨_, fun _ _ => rfl⟩
      · next op hop =>
        split
        · exact .inr ⟨_, fun _ _ => rfl⟩
        · next hlist =>
          refine .inl ⟨field, op, _, hfield, Bool.eq_false_iff.mpr hempty,
            operatorOf?_eq_some.mp hop, rfl, fun honeOf => ?_⟩
          simpa [honeOf] using hlist
  · exact .inr ⟨_, fun _ _ => rfl⟩

/-- Each condition of a list has been read from the value in its position. -/
theorem forall₂_of_readItems {policy : FailurePolicy} {place : Place} {group : Group} {index : Nat}
    {items : List Value} {children : List Condition}
    (h : readItems policy place group index items = .ok children) :
    List.Forall₂ (fun v c => ∃ place, read policy place v = .ok c) items children := by
  induction items generalizing index children with
  | nil =>
    cases h
    exact .nil
  | cons v rest ih =>
    rw [readItems] at h
    obtain ⟨c, hc, h⟩ := Except.bind_eq_ok.mp h
    obtain ⟨cs, hcs, h⟩ := Except.bind_eq_ok.mp h
    cases h
    exact .cons ⟨_, hc⟩ (ih hcs)

/-- A value is malformed in some way, wherever it stands. -/
def Refused (v : Value) (fault : NodeFault) : Prop :=
  ∀ policy place, read policy place v = refuse policy place fault

/-- Induction over the values that conditions are read from: a value spells a group of values or a
leaf, or it is refused. -/
@[elab_as_elim]
theorem reading_induction {motive : Value → Prop} (nothing : motive (.object []))
    (group : ∀ fields group items, groupOf? fields = some (group, .list items) →
      (∀ v ∈ items, motive v) → motive (.object fields))
    (leaf : ∀ fields field op value, groupOf? fields = none →
      SpellsLeaf fields field op value → motive (.object fields))
    (refused : ∀ v fault, Refused v fault → motive v) (v : Value) : motive v := by
  cases hv : v.isObject with
  | false => exact refused v _ fun policy place => read_other policy place hv
  | true =>
    obtain ⟨fields, hfields⟩ := Value.eq_object_of_isObject hv
    rw [hfields]
    by_cases hne : fields = []
    · exact hne ▸ nothing
    cases hgroup : groupOf? fields with
    | none =>
      rcases readLeaf_cases fields with ⟨field, op, value, hleaf⟩ | ⟨fault, hfault⟩
      · exact leaf fields field op value hgroup hleaf
      · refine refused _ fault fun policy place => ?_
        rw [read_object policy place hne, hgroup]
        exact hfault policy place
    | some found =>
      obtain ⟨g, w⟩ := found
      cases hw : w.isList with
      | false => exact refused _ _ fun policy place => read_noList policy place hgroup hw
      | true =>
        obtain ⟨items, rfl⟩ := Value.eq_list_of_isList hw
        have hsize := sizeOf_lt_of_get? (groupOf?_eq_some.mp hgroup).1
        refine group fields g items hgroup fun u hu => ?_
        have hitem := List.sizeOf_lt_of_mem hu
        exact reading_induction nothing group leaf refused u
termination_by sizeOf v
decreasing_by
  simp only [Value.list.sizeOf_spec] at hsize
  rw [hfields]
  omega

mutual

/-- The tree with one outcome at all malformed nodes. -/
def withOutcome (outcome : Bool) : Condition → Condition
  | .all children => .all (withOutcomes outcome children)
  | .any children => .any (withOutcomes outcome children)
  | .leaf field op value => .leaf field op value
  | .malformed node _ => .malformed node outcome

def withOutcomes (outcome : Bool) : List Condition → List Condition
  | [] => []
  | c :: rest => withOutcome outcome c :: withOutcomes outcome rest

end

mutual

/-- The malformed nodes of a tree, from left to right. -/
def faults : Condition → List Malformed
  | .all children | .any children => faultsAmong children
  | .leaf .. => []
  | .malformed node _ => [node]

def faultsAmong : List Condition → List Malformed
  | [] => []
  | c :: rest => faults c ++ faultsAmong rest

end

mutual

@[simp]
theorem withOutcome_withOutcome (a b : Bool) (c : Condition) :
    (c.withOutcome a).withOutcome b = c.withOutcome b := by
  match c with
  | .all children | .any children =>
    simp only [withOutcome, withOutcomes_withOutcomes a b children]
  | .leaf .. | .malformed .. => rfl

@[simp]
theorem withOutcomes_withOutcomes (a b : Bool) (cs : List Condition) :
    withOutcomes b (withOutcomes a cs) = withOutcomes b cs := by
  match cs with
  | [] => rfl
  | c :: rest =>
    simp only [withOutcomes, withOutcome_withOutcome a b c, withOutcomes_withOutcomes a b rest]

end

mutual

@[simp]
theorem faults_withOutcome (outcome : Bool) (c : Condition) :
    (c.withOutcome outcome).faults = c.faults := by
  match c with
  | .all children | .any children =>
    simp only [withOutcome, faults, faultsAmong_withOutcomes outcome children]
  | .leaf .. | .malformed .. => rfl

@[simp]
theorem faultsAmong_withOutcomes (outcome : Bool) (cs : List Condition) :
    faultsAmong (withOutcomes outcome cs) = faultsAmong cs := by
  match cs with
  | [] => rfl
  | c :: rest =>
    simp only [withOutcomes, faultsAmong, faults_withOutcome outcome c,
      faultsAmong_withOutcomes outcome rest]

end

mutual

/-- Where nothing is malformed, the outcome of malformed nodes is of no account. -/
theorem withOutcome_of_faults_eq_nil (outcome : Bool) {c : Condition} (h : c.faults = []) :
    c.withOutcome outcome = c := by
  match c with
  | .all children | .any children =>
    simp only [withOutcome, withOutcomes_of_faultsAmong_eq_nil outcome h]
  | .leaf .. => rfl
  | .malformed .. => cases h

theorem withOutcomes_of_faultsAmong_eq_nil (outcome : Bool) {cs : List Condition}
    (h : faultsAmong cs = []) : withOutcomes outcome cs = cs := by
  match cs with
  | [] => rfl
  | c :: rest =>
    obtain ⟨hc, hrest⟩ := List.append_eq_nil_iff.mp h
    simp only [withOutcomes, withOutcome_of_faults_eq_nil outcome hc,
      withOutcomes_of_faultsAmong_eq_nil outcome hrest]

end

@[simp]
theorem faults_node (group : Group) (children : List Condition) :
    (group.node children).faults = faultsAmong children := by
  cases group <;> rfl

@[simp]
theorem withOutcome_node (outcome : Bool) (group : Group) (children : List Condition) :
    (group.node children).withOutcome outcome = group.node (withOutcomes outcome children) := by
  cases group <;> rfl

end Condition

namespace FailurePolicy

/-- What a policy makes of a reading: `kept` is what is read if the malformed nodes are kept with an
outcome. -/
def settle {α : Type} (policy : FailurePolicy) (faults : List Malformed) (kept : Bool → α) :
    Except Malformed α :=
  match policy, faults with
  | .reject, node :: _ => .error node
  | .reject, [] | .neverTrigger, _ => .ok (kept false)
  | .alwaysTrigger, _ => .ok (kept true)

variable {α β γ : Type} (policy : FailurePolicy)

theorem settle_nil (a : α) : policy.settle [] (fun _ => a) = .ok a := by
  cases policy <;> rfl

theorem settle_map (faults : List Malformed) (kept : Bool → α) (f : α → β) :
    (policy.settle faults kept).map f = policy.settle faults fun outcome => f (kept outcome) := by
  cases policy <;> cases faults <;> rfl

/-- Of two readings one after the other, the malformed nodes of the first come first. -/
theorem settle_append (first second : List Malformed) (left : Bool → α) (right : Bool → β)
    (f : α → β → γ) :
    (do
      let a ← policy.settle first left
      let b ← policy.settle second right
      return f a b) =
      policy.settle (first ++ second) fun outcome => f (left outcome) (right outcome) := by
  cases policy <;> cases first <;> cases second <;> rfl

theorem settle_eq_ok_of_reject {faults : List Malformed} {kept : Bool → α} {a : α}
    (h : FailurePolicy.reject.settle faults kept = .ok a) : faults = [] ∧ a = kept false := by
  cases faults with
  | nil => exact ⟨rfl, (Except.ok.inj h).symm⟩
  | cons node rest => cases h

end FailurePolicy

namespace Condition

theorem refuse_settles (policy : FailurePolicy) (place : Place) (fault : NodeFault) :
    refuse policy place fault =
      policy.settle [⟨place, fault⟩] fun outcome => .malformed ⟨place, fault⟩ outcome := by
  cases policy <;> rfl

/-- The tree of a value that stands at a place: every policy settles it. -/
def ReadsAs (place : Place) (v : Value) (tree : Condition) : Prop :=
  ∀ policy, read policy place v =
    policy.settle tree.faults fun outcome => tree.withOutcome outcome

theorem readItems_settles (place : Place) (group : Group) {items : List Value}
    (h : ∀ v ∈ items, ∀ place, ∃ tree, ReadsAs place v tree) (index : Nat) :
    ∃ trees, ∀ policy, readItems policy place group index items =
      policy.settle (faultsAmong trees) fun outcome => withOutcomes outcome trees := by
  induction items generalizing index with
  | nil => exact ⟨[], fun policy => (policy.settle_nil []).symm⟩
  | cons v rest ih =>
    obtain ⟨tree, htree⟩ := h v List.mem_cons_self (place ++ [⟨group, index⟩])
    obtain ⟨trees, htrees⟩ := ih (fun u hu => h u (List.mem_cons_of_mem v hu)) (index + 1)
    refine ⟨tree :: trees, fun policy => ?_⟩
    rw [readItems, htree policy, htrees policy]
    exact policy.settle_append _ _ _ _ _

/-- A value has one tree wherever it stands. -/
theorem exists_readsAs (v : Value) : ∀ place, ∃ tree, ReadsAs place v tree := by
  induction v using reading_induction with
  | nothing => exact fun place => ⟨.any [], fun policy => (policy.settle_nil _).symm⟩
  | group fields group items hgroup ih =>
    intro place
    obtain ⟨trees, htrees⟩ := readItems_settles place group ih 0
    refine ⟨group.node trees, fun policy => ?_⟩
    rw [read_group policy place hgroup, htrees policy, FailurePolicy.settle_map]
    simp only [faults_node, withOutcome_node]
  | leaf fields field op value hgroup hleaf =>
    refine fun place => ⟨.leaf field op value, fun policy => ?_⟩
    rw [read_leaf policy place hgroup hleaf]
    exact (policy.settle_nil _).symm
  | refused v fault h =>
    refine fun place => ⟨.malformed ⟨place, fault⟩ false, fun policy => ?_⟩
    rw [h policy place]
    exact refuse_settles policy place fault

/-- A value has one tree, which every policy settles. -/
theorem ofValue_settles (v : Value) :
    ∃ tree : Condition, tree.withOutcome false = tree ∧ ∀ policy, ofValue policy v =
      policy.settle tree.faults fun outcome => tree.withOutcome outcome := by
  obtain ⟨tree, htree⟩ := exists_readsAs v []
  refine ⟨tree.withOutcome false, withOutcome_withOutcome false false tree, fun policy => ?_⟩
  simp only [faults_withOutcome, withOutcome_withOutcome]
  exact htree policy

/-- What authoring lets through reads the same under every policy. -/
theorem ofValue_of_authored (policy : FailurePolicy) {v : Value} {tree : Condition}
    (h : authored v = .ok tree) : ofValue policy v = .ok tree := by
  obtain ⟨kept, -, hkept⟩ := ofValue_settles v
  obtain ⟨hnone, rfl⟩ := FailurePolicy.settle_eq_ok_of_reject ((hkept .reject).symm.trans h)
  rw [hkept policy, hnone]
  simp only [withOutcome_of_faults_eq_nil _ hnone]
  exact policy.settle_nil kept

end Condition

end Rulebook
