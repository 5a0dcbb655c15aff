import Rulebook.Failure
import Rulebook.Condition.Evaluation
import Rulebook.Proofs.Condition.Reading

/-!
The grammar of conditions. Authoring accepts the values that spell a condition and no others
(`wellFormed_of_read`, `WellFormed.read_goes_through`); a tree without malformed nodes is written in
that grammar and read from there again (`read_toValue`), and what is accepted is such a tree
(`writable_of_read`). Together they make `grammar_exact`.
-/
namespace Rulebook.Condition

/-- The values that spell a condition. A key `all` settles what is read, and without it a key
`any`. -/
inductive WellFormed : Value → Prop
  | nothing : WellFormed (.object [])
  | all {fields : Fields} {items : List Value} (hall : fields.get? "all" = some (.list items))
      (hitems : ∀ v ∈ items, WellFormed v) : WellFormed (.object fields)
  | any {fields : Fields} {items : List Value} (hall : fields.get? "all" = none)
      (hany : fields.get? "any" = some (.list items)) (hitems : ∀ v ∈ items, WellFormed v) :
      WellFormed (.object fields)
  | leaf {fields : Fields} {field : Text} {op : Operator} {value : Value}
      (hall : fields.get? "all" = none) (hany : fields.get? "any" = none)
      (hleaf : SpellsLeaf fields field op value) : WellFormed (.object fields)

/-- The trees that the grammar can write: no node is malformed, each leaf names a field, and what a
member is looked for in is a list. -/
inductive Writable : Condition → Prop
  | all {children : List Condition} (hchildren : ∀ c ∈ children, Writable c) :
      Writable (.all children)
  | any {children : List Condition} (hchildren : ∀ c ∈ children, Writable c) :
      Writable (.any children)
  | leaf {field : Text} {op : Operator} {value : Value} (hfield : field.isEmpty = false)
      (honeOf : op = .oneOf → value.isList = true) : Writable (.leaf field op value)

/-- Whether the condition that a value spells holds in a context. -/
def outcome (policy : FailurePolicy) (context v : Value) : Except Failure Bool := do
  let tree ← (ofValue policy v).mapError .malformedCondition
  (tree.evaluate context).mapError .fault

/-! ## What is accepted -/

/-- What authoring accepts spells a condition. -/
theorem wellFormed_of_read (v : Value) :
    ∀ place tree, read .reject place v = .ok tree → WellFormed v := by
  induction v using reading_induction with
  | nothing => exact fun _ _ _ => .nothing
  | group fields group items hgroup ih =>
    intro place tree h
    rw [read_group .reject place hgroup] at h
    obtain ⟨children, hchildren, -⟩ := Except.map_eq_ok.mp h
    have hitems : ∀ u ∈ items, WellFormed u := by
      intro u hu
      obtain ⟨c, -, p, hread⟩ := exists_right_of_forall₂ (forall₂_of_readItems hchildren) u hu
      exact ih u hu p c hread
    obtain ⟨hv, hall⟩ := groupOf?_eq_some.mp hgroup
    cases group with
    | all => exact .all hv hitems
    | any => exact .any (hall rfl) hv hitems
  | leaf fields field op value hnone hleaf =>
    obtain ⟨hall, hany⟩ := groupOf?_eq_none.mp hnone
    exact fun _ _ _ => .leaf hall hany hleaf
  | refused v fault hfault =>
    intro place tree h
    cases (hfault .reject place).symm.trans h

theorem readItems_goes_through (place : Place) (group : Group) {items : List Value}
    (h : ∀ v ∈ items, ∀ place, ∃ tree, read .reject place v = .ok tree) (index : Nat) :
    ∃ children, readItems .reject place group index items = .ok children := by
  induction items generalizing index with
  | nil => exact ⟨[], rfl⟩
  | cons v rest ih =>
    obtain ⟨c, hc⟩ := h v List.mem_cons_self (place ++ [⟨group, index⟩])
    obtain ⟨cs, hcs⟩ := ih (fun u hu => h u (List.mem_cons_of_mem v hu)) (index + 1)
    refine ⟨c :: cs, ?_⟩
    rw [readItems, hc, hcs]
    rfl

theorem group_goes_through {fields : Fields} {group : Group} {items : List Value}
    (hgroup : groupOf? fields = some (group, .list items))
    (h : ∀ v ∈ items, ∀ place, ∃ tree, read .reject place v = .ok tree) (place : Place) :
    ∃ tree, read .reject place (.object fields) = .ok tree := by
  obtain ⟨children, hchildren⟩ := readItems_goes_through place group h 0
  refine ⟨group.node children, ?_⟩
  rw [read_group .reject place hgroup, hchildren]
  rfl

/-- What spells a condition is accepted, wherever it stands. -/
theorem WellFormed.read_goes_through {v : Value} (h : WellFormed v) :
    ∀ place, ∃ tree, read .reject place v = .ok tree := by
  induction h with
  | nothing => exact fun _ => ⟨.any [], rfl⟩
  | @all fields items hall _ ih =>
    have hgroup : groupOf? fields = some (.all, .list items) := groupOf?_eq_some.mpr ⟨hall, nofun⟩
    exact group_goes_through hgroup ih
  | @any fields items hall hany _ ih =>
    have hgroup : groupOf? fields = some (.any, .list items) :=
      groupOf?_eq_some.mpr ⟨hany, fun _ => hall⟩
    exact group_goes_through hgroup ih
  | leaf hall hany hleaf =>
    exact fun place => ⟨_, read_leaf .reject place (groupOf?_eq_none.mpr ⟨hall, hany⟩) hleaf⟩

/-! ## Writing and reading again -/

theorem readItems_toValues {policy : FailurePolicy} {place : Place} {group : Group}
    {children : List Condition}
    (h : ∀ c ∈ children, ∀ place, read policy place c.toValue = .ok c) (index : Nat) :
    readItems policy place group index (toValues children) = .ok children := by
  induction children generalizing index with
  | nil => rfl
  | cons c rest ih =>
    rw [toValues, readItems, h c List.mem_cons_self,
      ih (fun d hd => h d (List.mem_cons_of_mem c hd)) (index + 1)]
    rfl

/-- A tree that the grammar can write is read again from what is written. -/
theorem read_toValue (policy : FailurePolicy) {tree : Condition} (h : Writable tree) :
    ∀ place, read policy place tree.toValue = .ok tree := by
  induction h with
  | @all children _ ih =>
    intro place
    have hgroup : groupOf? [("all", .list (toValues children))] =
        some (.all, .list (toValues children)) := rfl
    rw [toValue, read_group policy place hgroup, readItems_toValues ih 0]
    rfl
  | @any children _ ih =>
    intro place
    have hgroup : groupOf? [("any", .list (toValues children))] =
        some (.any, .list (toValues children)) := rfl
    rw [toValue, read_group policy place hgroup, readItems_toValues ih 0]
    rfl
  | @leaf field op value hfield honeOf =>
    intro place
    exact read_leaf policy place rfl ⟨rfl, hfield, rfl, rfl, honeOf⟩

/-- What is accepted is a tree that the grammar can write. -/
theorem writable_of_read (v : Value) :
    ∀ place tree, read .reject place v = .ok tree → Writable tree := by
  induction v using reading_induction with
  | nothing =>
    intro place tree h
    cases h
    exact .any nofun
  | group fields group items hgroup ih =>
    intro place tree h
    rw [read_group .reject place hgroup] at h
    obtain ⟨children, hchildren, rfl⟩ := Except.map_eq_ok.mp h
    have hwritable : ∀ c ∈ children, Writable c := by
      intro c hc
      obtain ⟨u, hu, p, hread⟩ := exists_of_forall₂ (forall₂_of_readItems hchildren) c hc
      exact ih u hu p c hread
    cases group with
    | all => exact .all hwritable
    | any => exact .any hwritable
  | leaf fields field op value hnone hleaf =>
    intro place tree h
    cases (read_leaf .reject place hnone hleaf).symm.trans h
    exact .leaf hleaf.field_ne hleaf.oneOf
  | refused v fault hfault =>
    intro place tree h
    cases (hfault .reject place).symm.trans h

/-- Authoring accepts exactly the grammar and loses nothing that the grammar names: a tree is read
again from what is written of it, and so an accepted value holds where the value written of its tree
does. -/
theorem grammar_exact :
    (∀ v, (∃ tree, authored v = .ok tree) ↔ WellFormed v) ∧
      (∀ tree, Writable tree → authored tree.toValue = .ok tree) ∧
      ∀ v tree, authored v = .ok tree → ∀ policy context,
        outcome policy context v = outcome policy context tree.toValue := by
  refine ⟨fun v => ⟨?_, fun h => h.read_goes_through []⟩,
    fun tree h => read_toValue .reject h [], fun v tree h policy context => ?_⟩
  · rintro ⟨tree, h⟩
    exact wellFormed_of_read v [] tree h
  · have htree : ofValue policy tree.toValue = .ok tree :=
      read_toValue policy (writable_of_read v [] tree h) []
    rw [outcome, outcome, ofValue_of_authored policy h, htree]

/-- The second condition is a group `all`, whatever stands under its key `any`. -/
theorem grammar_exact_on_nested_groups :
    (∃ tree, authored (.object [("any", .list [.object [],
      .object [("all", .list []), ("any", .null)]])]) = .ok tree) ∧
      authored (toValue (.any [.any [], .all []])) = .ok (.any [.any [], .all []]) ∧
      ∀ policy context,
        outcome policy context (.object [("any", .list [.object [],
          .object [("all", .list []), ("any", .null)]])]) =
          outcome policy context (toValue (.any [.any [], .all []])) := by
  have hinner : ∀ v ∈ [Value.object [], .object [("all", .list []), ("any", .null)]],
      WellFormed v :=
    List.forall_mem_cons.mpr ⟨.nothing, List.forall_mem_singleton.mpr (.all rfl nofun)⟩
  have hwritable : Writable (.any [.any [], .all []]) :=
    .any (List.forall_mem_cons.mpr ⟨.any nofun, List.forall_mem_singleton.mpr (.all nofun)⟩)
  exact ⟨(grammar_exact.1 _).mpr (.any rfl rfl hinner), grammar_exact.2.1 _ hwritable,
    grammar_exact.2.2 _ _ rfl⟩

end Rulebook.Condition
