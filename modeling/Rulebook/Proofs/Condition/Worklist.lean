import Mathlib
import Rulebook.Proofs.Condition.Fields
import Rulebook.Proofs.Condition.Places

/-!
The walk over a tree with a worklist. A visit takes a tree off the list and adds its field, if it is
a leaf, or puts its conditions on the list, if it is a group; which tree is taken, and where the
conditions are put, is left open (`Worklist.Visits`). Each visit takes one node off the total size
of the trees on the list, and neither loses nor invents a field, so every walk ends after as many
visits as the tree has nodes, with the fields of its leaves (`worklist_finds_fields`). These do not
depend on the order of the conditions in a group, neither in a tree (`Reorders`) nor in the value
that it is read from (`Rearranges`).
-/
namespace Rulebook.Condition

/-! ## Sizes and fields of several trees -/

variable {c d : Condition} {cs ds : List Condition} {field : Text}

theorem size_pos (c : Condition) : 0 < c.size := by
  cases c <;> simp only [size] <;> omega

theorem sizes_eq_sum (cs : List Condition) : sizes cs = (cs.map size).sum := by
  induction cs with
  | nil => rfl
  | cons c rest ih => rw [sizes, ih, List.map_cons, List.sum_cons]

theorem sizes_perm (h : cs.Perm ds) : sizes cs = sizes ds := by
  rw [sizes_eq_sum, sizes_eq_sum]
  exact (h.map size).sum_eq

theorem sizes_eq_zero : sizes cs = 0 ↔ cs = [] := by
  cases cs with
  | nil => simp [sizes]
  | cons c rest =>
    have := c.size_pos
    simp only [sizes, reduceCtorEq, iff_false]
    omega

theorem size_node (group : Group) (children : List Condition) :
    (group.node children).size = 1 + sizes children := by
  cases group <;> rfl

theorem leafFields_node (group : Group) (children : List Condition) :
    (group.node children).leafFields = leafFieldsAmong children := by
  cases group <;> rfl

theorem mem_leafFieldsAmong_perm (h : cs.Perm ds) :
    field ∈ leafFieldsAmong cs ↔ field ∈ leafFieldsAmong ds := by
  simp only [mem_leafFieldsAmong, h.mem_iff]

/-! ## Walks -/

/-- The trees still to be visited, and the fields found so far. -/
structure Worklist where
  stack : List Condition
  found : List Text

namespace Worklist

/-- A visit to some tree on the list. -/
inductive Visits : Worklist → Worklist → Prop
  | leaf {stack rest : List Condition} {found : List Text} {field : Text} {op : Operator}
      {value : Value} (taken : stack.Perm (.leaf field op value :: rest)) :
      Visits ⟨stack, found⟩ ⟨rest, Text.insertAscending field found⟩
  | malformed {stack rest : List Condition} {found : List Text} {node : Malformed} {outcome : Bool}
      (taken : stack.Perm (.malformed node outcome :: rest)) : Visits ⟨stack, found⟩ ⟨rest, found⟩
  | group {stack rest stack' : List Condition} {found : List Text} {children : List Condition}
      (group : Group) (taken : stack.Perm (group.node children :: rest))
      (put : stack'.Perm (children ++ rest)) : Visits ⟨stack, found⟩ ⟨stack', found⟩

/-- A number of visits, one after the other. -/
inductive Walk : Nat → Worklist → Worklist → Prop
  | stay (w : Worklist) : Walk 0 w w
  | visit {n : Nat} {u v w : Worklist} (first : u.Visits v) (rest : Walk n v w) : Walk (n + 1) u w

/-- What will have been found in the end: the fields found so far and those of the trees to be
visited. -/
def Promises (w : Worklist) (field : Text) : Prop :=
  field ∈ leafFieldsAmong w.stack ∨ field ∈ w.found

variable {u v w : Worklist} {n : Nat}

/-- A visit takes one node off the list. -/
theorem Visits.sizes_eq (h : u.Visits v) : sizes u.stack = sizes v.stack + 1 := by
  cases h with
  | leaf taken | malformed taken =>
    rw [sizes_perm taken, sizes, size, Nat.add_comm]
  | group group taken put =>
    rw [sizes_perm taken, sizes_perm put, sizes, size_node, sizes_append]
    omega

/-- A visit keeps what will have been found. -/
theorem Visits.promises_iff (h : u.Visits v) : u.Promises field ↔ v.Promises field := by
  cases h with
  | leaf taken =>
    rw [Promises, Promises, mem_leafFieldsAmong_perm taken, Text.mem_insertAscending]
    simp only [leafFieldsAmong, leafFields, List.singleton_append, List.mem_cons]
    rw [or_left_comm, or_assoc]
  | malformed taken =>
    rw [Promises, Promises, mem_leafFieldsAmong_perm taken]
    rfl
  | group group taken put =>
    rw [Promises, Promises, mem_leafFieldsAmong_perm taken, mem_leafFieldsAmong_perm put,
      leafFieldsAmong_append, leafFieldsAmong, leafFields_node]

theorem Visits.ascending (h : u.Visits v) (hu : u.found.Pairwise (· < ·)) :
    v.found.Pairwise (· < ·) := by
  cases h with
  | leaf => exact Text.pairwise_insertAscending hu
  | malformed | group => exact hu

/-- As long as there is a tree on the list, it can be visited. -/
theorem exists_visits (h : w.stack ≠ []) : ∃ v, w.Visits v := by
  obtain ⟨stack, found⟩ := w
  obtain ⟨c, rest, rfl⟩ := List.exists_cons_of_ne_nil h
  cases c with
  | all children => exact ⟨_, .group .all (.refl _) (.refl _)⟩
  | any children => exact ⟨_, .group .any (.refl _) (.refl _)⟩
  | leaf field op value => exact ⟨_, .leaf (.refl _)⟩
  | malformed node outcome => exact ⟨_, .malformed (.refl _)⟩

theorem Walk.sizes_eq (h : Walk n u w) : sizes u.stack = sizes w.stack + n := by
  induction h with
  | stay => rfl
  | visit first _ ih => rw [first.sizes_eq, ih, Nat.add_assoc]

theorem Walk.promises_iff (h : Walk n u w) : u.Promises field ↔ w.Promises field := by
  induction h with
  | stay => rfl
  | visit first _ ih => rw [first.promises_iff, ih]

theorem Walk.ascending (h : Walk n u w) (hu : u.found.Pairwise (· < ·)) :
    w.found.Pairwise (· < ·) := by
  induction h with
  | stay => exact hu
  | visit first _ ih => exact ih (first.ascending hu)

/-- A walk that has come to its end has found the fields of the tree. -/
theorem Walk.eq_fields (h : Walk n ⟨[c], []⟩ w) (hend : w.stack = []) : w = ⟨[], c.fields⟩ := by
  obtain ⟨stack, found⟩ := w
  obtain rfl : stack = [] := hend
  have hmem : ∀ field, field ∈ found ↔ field ∈ c.fields := by
    intro field
    have hkept : Promises _ field ↔ Promises _ field := h.promises_iff
    simp only [Promises, leafFieldsAmong, List.append_nil, List.not_mem_nil, or_false, false_or]
      at hkept
    rw [mem_fields, hkept]
  have hfound : found = c.fields :=
    Text.eq_of_ascending (h.ascending .nil) (pairwise_fields c) hmem
  rw [hfound]

theorem Visits.walk (h : u.Visits v) (hrest : Walk (sizes v.stack) v w) :
    Walk (sizes u.stack) u w := by
  rw [h.sizes_eq]
  exact .visit h hrest

/-- The tree at the front is visited first, and its conditions are put at the front. -/
theorem walk_collectFields (stack : List Condition) (found : List Text) :
    Walk (sizes stack) ⟨stack, found⟩ ⟨[], collectFields stack found⟩ := by
  fun_induction collectFields stack found with
  | case1 found => exact .stay _
  | case2 field op value stack found ih => exact Visits.walk (.leaf (.refl _)) ih
  | case3 node outcome stack found ih => exact Visits.walk (.malformed (.refl _)) ih
  | case4 children stack found ih => exact Visits.walk (.group .all (.refl _) (.refl _)) ih
  | case5 children stack found ih => exact Visits.walk (.group .any (.refl _) (.refl _)) ih

theorem walk_fields (c : Condition) : Walk c.size ⟨[c], []⟩ ⟨[], c.fields⟩ := by
  have h := walk_collectFields [c] []
  rwa [sizes, sizes, Nat.add_zero] at h

end Worklist

/-! ## Orders -/

/-- A tree from another by putting the conditions of one group in another order. -/
inductive Reorders : Condition → Condition → Prop
  | here {children children' : List Condition} (group : Group) (order : children.Perm children') :
      Reorders (group.node children) (group.node children')
  | inside {c d : Condition} (group : Group) (before after : List Condition) (h : Reorders c d) :
      Reorders (group.node (before ++ c :: after)) (group.node (before ++ d :: after))

theorem Reorders.mem_leafFields_iff (h : Reorders c d) :
    field ∈ c.leafFields ↔ field ∈ d.leafFields := by
  induction h with
  | here group order =>
    rw [leafFields_node, leafFields_node]
    exact mem_leafFieldsAmong_perm order
  | inside group before after _ ih =>
    simp only [leafFields_node, leafFieldsAmong_append, leafFieldsAmong, List.mem_append, ih]

theorem Reorders.fields_eq (h : Reorders c d) : d.fields = c.fields := by
  refine Text.eq_of_ascending (pairwise_fields d) (pairwise_fields c) fun field => ?_
  rw [mem_fields, mem_fields, h.mem_leafFields_iff]

/-- However the groups of a tree are reordered, it has the same fields. -/
theorem fields_eq_of_reordered (h : Relation.ReflTransGen Reorders c d) : d.fields = c.fields := by
  induction h with
  | refl => rfl
  | tail _ last ih => exact last.fields_eq.trans ih

/-! ## What a value names -/

/-- A field that a leaf of a value names: the value spells this leaf, or a group with such a leaf in
it. What is malformed names nothing, and neither does what stands inside it. -/
inductive Names (field : Text) : Value → Prop
  | leaf {fields : Fields} {op : Operator} {value : Value} (nogroup : groupOf? fields = none)
      (spells : SpellsLeaf fields field op value) : Names field (.object fields)
  | group {fields : Fields} {group : Group} {items : List Value} {v : Value}
      (spells : groupOf? fields = some (group, .list items)) (item : v ∈ items)
      (names : Names field v) : Names field (.object fields)

/-- A value from another by putting the conditions of one group in another order; what else is in
the object is of no account. -/
inductive Rearranges : Value → Value → Prop
  | here {fields fields' : Fields} {group : Group} {items items' : List Value}
      (spells : groupOf? fields = some (group, .list items))
      (spells' : groupOf? fields' = some (group, .list items')) (order : items.Perm items') :
      Rearranges (.object fields) (.object fields')
  | inside {fields fields' : Fields} {group : Group} {before after : List Value} {v w : Value}
      (spells : groupOf? fields = some (group, .list (before ++ v :: after)))
      (spells' : groupOf? fields' = some (group, .list (before ++ w :: after)))
      (h : Rearranges v w) : Rearranges (.object fields) (.object fields')

variable {policy : FailurePolicy} {v w : Value} {tree : Condition}

theorem names_group {fields : Fields} {group : Group} {items : List Value}
    (h : groupOf? fields = some (group, .list items)) :
    Names field (.object fields) ↔ ∃ v ∈ items, Names field v := by
  constructor
  · intro hnames
    cases hnames with
    | leaf nogroup => cases nogroup.symm.trans h
    | group spells item names =>
      cases spells.symm.trans h
      exact ⟨_, item, names⟩
  · rintro ⟨v, hv, hnames⟩
    exact .group h hv hnames

theorem names_leaf {fields : Fields} {name : Text} {op : Operator} {value : Value}
    (h : groupOf? fields = none) (hleaf : SpellsLeaf fields name op value) :
    Names field (.object fields) ↔ field = name := by
  constructor
  · intro hnames
    cases hnames with
    | leaf nogroup spells =>
      have hsame := spells.field_eq.symm.trans hleaf.field_eq
      cases hsame
      rfl
    | group spells => cases h.symm.trans spells
  · rintro rfl
    exact .leaf h hleaf

theorem not_names_of_refused {fault : NodeFault} (h : Refused v fault) : ¬ Names field v := by
  intro hnames
  have hread := h .neverTrigger []
  cases hnames with
  | leaf nogroup spells => cases (read_leaf _ _ nogroup spells).symm.trans hread
  | @group fields group items w spells =>
    obtain ⟨cs, -, hnode⟩ := Except.map_eq_ok.mp ((read_group _ _ spells).symm.trans hread)
    cases group <;> cases hnode

theorem not_names_nothing : ¬ Names field (.object []) := by
  intro hnames
  cases hnames with
  | leaf nogroup spells => cases spells.field_eq
  | group spells => cases spells

/-- The leaves of the tree that is read from a value are those that the value spells outside its
malformed nodes. -/
theorem mem_leafFields_of_read (v : Value) : ∀ place tree, read policy place v = .ok tree →
    (field ∈ tree.leafFields ↔ Names field v) := by
  induction v using reading_induction with
  | nothing =>
    rintro place tree ⟨⟩
    simp only [leafFields, leafFieldsAmong, List.not_mem_nil, not_names_nothing]
  | group fields group items hgroup ih =>
    intro place tree h
    rw [read_group policy place hgroup] at h
    obtain ⟨children, hchildren, rfl⟩ := Except.map_eq_ok.mp h
    have hpairs := forall₂_of_readItems hchildren
    rw [leafFields_node, mem_leafFieldsAmong, names_group hgroup]
    constructor
    · rintro ⟨c, hc, hfield⟩
      obtain ⟨v, hv, p, hread⟩ := exists_of_forall₂ hpairs c hc
      exact ⟨v, hv, (ih v hv p c hread).mp hfield⟩
    · rintro ⟨v, hv, hnames⟩
      obtain ⟨c, hc, p, hread⟩ := exists_right_of_forall₂ hpairs v hv
      exact ⟨c, hc, (ih v hv p c hread).mpr hnames⟩
  | leaf fields name op value hnone hleaf =>
    intro place tree h
    cases (read_leaf policy place hnone hleaf).symm.trans h
    rw [leafFields, List.mem_singleton, names_leaf hnone hleaf]
  | refused v fault hfault =>
    intro place tree h
    rw [eq_malformed_of_refuse ((hfault policy place).symm.trans h)]
    simp only [leafFields, List.not_mem_nil, not_names_of_refused hfault]

theorem Rearranges.names_iff (h : Rearranges v w) : Names field v ↔ Names field w := by
  induction h with
  | here spells spells' order =>
    rw [names_group spells, names_group spells']
    simp only [order.mem_iff]
  | inside spells spells' _ ih =>
    rw [names_group spells, names_group spells']
    simp only [List.mem_append, List.mem_cons, or_and_right, exists_or, exists_eq_left, ih]

theorem mem_fields_of_read (h : ofValue policy v = .ok tree) :
    field ∈ tree.fields ↔ Names field v :=
  mem_fields.trans (mem_leafFields_of_read v [] tree h)

/-- Where malformed nodes are kept, every value is read. -/
theorem exists_tree (v : Value) : ∃ tree, ofValue .neverTrigger v = .ok tree := by
  obtain ⟨tree, -, htree⟩ := ofValue_settles v
  exact ⟨_, htree .neverTrigger⟩

/-- However the groups of a value are rearranged, it names the same fields. -/
theorem names_iff_of_rearranged (h : Relation.ReflTransGen Rearranges v w) :
    Names field v ↔ Names field w := by
  induction h with
  | refl => exact Iff.rfl
  | tail _ last ih => exact ih.trans last.names_iff

theorem fields_eq_of_rearranged (h : Relation.ReflTransGen Rearranges v w) {other : Condition}
    (hv : ofValue policy v = .ok tree) (hw : ofValue policy w = .ok other) :
    other.fields = tree.fields := by
  refine Text.eq_of_ascending (pairwise_fields other) (pairwise_fields tree) fun field => ?_
  rw [mem_fields_of_read hw, mem_fields_of_read hv, names_iff_of_rearranged h]

/-- The walk over a tree comes to an end, whichever tree it visits next: after as many visits as the
tree has nodes, and not before, with the fields of the leaves in ascending order, each once. What is
read from a value has the fields that the value names outside its malformed nodes. And all of this
is the same for every order of the conditions in the groups. -/
theorem worklist_finds_fields (c : Condition) (v : Value) :
    (∀ n w, Worklist.Walk n ⟨[c], []⟩ w →
      n ≤ c.size ∧ (n < c.size → ∃ u, w.Visits u) ∧ (n = c.size → w = ⟨[], c.fields⟩)) ∧
    Worklist.Walk c.size ⟨[c], []⟩ ⟨[], c.fields⟩ ∧
    c.fields.Pairwise (· < ·) ∧ (∀ field, field ∈ c.fields ↔ field ∈ c.leafFields) ∧
    (∀ d, Relation.ReflTransGen Reorders c d → d.fields = c.fields) ∧
    ∃ tree, ofValue .neverTrigger v = .ok tree ∧ (∀ field, field ∈ tree.fields ↔ Names field v) ∧
      ∀ w, Relation.ReflTransGen Rearranges v w →
        ∃ other, ofValue .neverTrigger w = .ok other ∧ other.fields = tree.fields := by
  obtain ⟨tree, htree⟩ := exists_tree v
  refine ⟨fun n w h => ?_, Worklist.walk_fields c, pairwise_fields c, fun _ => mem_fields,
    fun d h => fields_eq_of_reordered h, tree, htree, fun _ => mem_fields_of_read htree,
    fun w h => ?_⟩
  · have hsizes := h.sizes_eq
    rw [sizes, sizes, Nat.add_zero] at hsizes
    refine ⟨by omega, fun hlt => Worklist.exists_visits fun hend => ?_, fun heq => ?_⟩
    · rw [hend, sizes] at hsizes
      omega
    · exact h.eq_fields (sizes_eq_zero.mp (by omega))
  · obtain ⟨other, hother⟩ := exists_tree w
    exact ⟨other, hother, fields_eq_of_rearranged h htree hother⟩

/-- A group in a group, in two orders: after the first visit, which leaves the inner group in front,
there is more to visit. And a value with a malformed condition, beside which a group is
rearranged. -/
theorem worklist_finds_fields_nested :
    let leaf (name : Text) : Condition := .leaf name .present .null
    let spelt (name : Text) : Value := .object [("field", .text name), ("op", .text "exists")]
    let c : Condition := .all [leaf "b", .any [leaf "a", leaf "b"]]
    let d : Condition := .all [.any [leaf "b", leaf "a"], leaf "b"]
    let first : Worklist := ⟨[.any [leaf "a", leaf "b"], leaf "b"], []⟩
    let bad : Value := .object [("all", spelt "c")]
    let v (items : List Value) : Value :=
      .object [("any", .list [bad, .object [("all", .list items)]])]
    (Worklist.Walk 1 ⟨[c], []⟩ first ∧ ∃ u, first.Visits u) ∧
      (Relation.ReflTransGen Reorders c d ∧ d.fields = c.fields) ∧
      Relation.ReflTransGen Rearranges (v [spelt "b", spelt "a"]) (v [spelt "a", spelt "b"]) ∧
      ∃ tree other, ofValue .neverTrigger (v [spelt "b", spelt "a"]) = .ok tree ∧
        ofValue .neverTrigger (v [spelt "a", spelt "b"]) = .ok other ∧
        other.fields = tree.fields := by
  intro leaf spelt c d first bad v
  have hwalk : Worklist.Walk 1 ⟨[c], []⟩ first :=
    .visit (.group .all (.refl _) (.swap ..)) (.stay _)
  have hinner : Reorders c (.all [leaf "b", .any [leaf "b", leaf "a"]]) :=
    .inside .all [leaf "b"] [] (.here .any (.swap ..))
  have houter : Reorders (.all [leaf "b", .any [leaf "b", leaf "a"]]) d := .here .all (.swap ..)
  have hd : Relation.ReflTransGen Reorders c d := (Relation.ReflTransGen.single hinner).tail houter
  have hall : ∀ items, groupOf? [("all", .list items)] = some (.all, .list items) := fun _ => rfl
  have hany : ∀ items, groupOf? [("any", .list items)] = some (.any, .list items) := fun _ => rfl
  have hgroup : Rearranges (.object [("all", .list [spelt "b", spelt "a"])])
      (.object [("all", .list [spelt "a", spelt "b"])]) := .here (hall _) (hall _) (.swap ..)
  have hv : Rearranges (v [spelt "b", spelt "a"]) (v [spelt "a", spelt "b"]) :=
    @Rearranges.inside _ _ .any [bad] [] _ _ (hany _) (hany _) hgroup
  obtain ⟨hwalks, -, -, -, hreordered, tree, htree, -, hrearranged⟩ :=
    worklist_finds_fields c (v [spelt "b", spelt "a"])
  obtain ⟨other, hother, hfields⟩ := hrearranged _ (.single hv)
  exact ⟨⟨hwalk, (hwalks 1 first hwalk).2.1 (by decide)⟩, ⟨hd, hreordered d hd⟩, .single hv,
    tree, other, htree, hother, hfields⟩

end Rulebook.Condition
