import Rulebook.Proofs.Condition.Reading

/-!
Places in values and in trees. The tree at a place of a tree is read from the value at the same
place (`exists_at?_of_read`), and every malformed node carries the place that it stands at
(`at?_place_of_mem_faults`). Places are told apart by how they are written (`Place.text_inj`).
-/
namespace Rulebook

/-! ## Written places -/

/-- The characters of a step. -/
def Branch.chars (b : Branch) : List Char :=
  '.' :: b.group.key.toList ++ '[' :: Nat.toDigits 10 b.index ++ [']']

namespace Place

theorem toList_text (p : Place) : p.text.toList = '$' :: p.flatMap Branch.chars := by
  have from_start : ∀ (p : Place) (s : String),
      (p.foldl (fun s b => s ++ "." ++ b.group.key ++ "[" ++ toString b.index ++ "]") s).toList =
        s.toList ++ p.flatMap Branch.chars := by
    intro p
    induction p with
    | nil => simp
    | cons b rest ih =>
      intro s
      rw [List.foldl_cons, ih]
      simp [Branch.chars]
  exact from_start p "$"

end Place

/-- A step ends at its bracket, and the digits before it are those of one number. -/
theorem digits_append_inj {m n : Nat} {left right : List Char}
    (h : Nat.toDigits 10 m ++ ']' :: left = Nat.toDigits 10 n ++ ']' :: right) :
    m = n ∧ left = right := by
  have digits : ∀ (k : Nat) (rest : List Char),
      (Nat.toDigits 10 k ++ ']' :: rest).takeWhile Char.isDigit = Nat.toDigits 10 k := by
    intro k rest
    rw [List.takeWhile_append_of_pos fun c hc =>
      Nat.isDigit_of_mem_toDigits (by decide) (by decide) hc]
    exact List.append_nil _
  have hdigits : Nat.toDigits 10 m = Nat.toDigits 10 n := by
    rw [← digits m left, h, digits n right]
  constructor
  · calc
      m = Nat.ofDigitChars 10 (Nat.toDigits 10 m) 0 := Nat.ofDigitChars_ten_toDigits.symm
      _ = Nat.ofDigitChars 10 (Nat.toDigits 10 n) 0 := by rw [hdigits]
      _ = n := Nat.ofDigitChars_ten_toDigits
  · rw [hdigits] at h
    exact (List.cons.inj (List.append_cancel_left h)).2

theorem Branch.chars_append_inj {b c : Branch} {left right : List Char}
    (h : b.chars ++ left = c.chars ++ right) : b = c ∧ left = right := by
  obtain ⟨g, m⟩ := b
  obtain ⟨k, n⟩ := c
  simp only [Branch.chars, List.cons_append, List.append_assoc, List.nil_append] at h
  have hgroup : g = k := by
    cases g <;> cases k <;> first | rfl | (exfalso; revert h; simp [Group.key])
  subst hgroup
  have hdigits := List.append_cancel_left (List.cons.inj h).2
  obtain ⟨rfl, hrest⟩ := digits_append_inj (List.cons.inj hdigits).2
  exact ⟨rfl, hrest⟩

namespace Place

/-- Places are told apart by how they are written. -/
theorem text_inj {p q : Place} : p.text = q.text ↔ p = q := by
  refine ⟨fun h => ?_, congrArg text⟩
  have hchars := congrArg String.toList h
  rw [toList_text, toList_text, List.cons_inj_right] at hchars
  clear h
  induction p generalizing q with
  | nil =>
    cases q with
    | nil => rfl
    | cons c rest => cases hchars
  | cons b rest ih =>
    cases q with
    | nil => cases hchars
    | cons c rest' =>
      rw [List.flatMap_cons, List.flatMap_cons] at hchars
      obtain ⟨rfl, hrest⟩ := Branch.chars_append_inj hchars
      rw [ih hrest]

end Place

/-! ## What stands at a place -/

/-- The value that stands at a place below a value: each step goes to a key and to an item of the
list under it. -/
def Value.at? (v : Value) : Place → Option Value
  | [] => some v
  | step :: rest =>
    match v.get? step.group.key with
    | some (.list items) => items[step.index]?.bind fun w => w.at? rest
    | _ => none

namespace Condition

/-- The conditions of a tree that is a group of the given kind. -/
def children? : Group → Condition → Option (List Condition)
  | .all, .all children | .any, .any children => some children
  | _, _ => none

/-- The tree that stands at a place below a tree. -/
def at? (c : Condition) : Place → Option Condition
  | [] => some c
  | step :: rest =>
    (c.children? step.group).bind fun children => children[step.index]?.bind fun d => d.at? rest

variable {policy : FailurePolicy} {place : Place}

theorem children?_node (group kind : Group) (children : List Condition) :
    children? kind (group.node children) = if kind = group then some children else none := by
  cases group <;> cases kind <;> rfl

theorem at?_node (group : Group) {children : List Condition} {i : Nat} {c : Condition}
    (h : children[i]? = some c) (p : Place) :
    (group.node children).at? (⟨group, i⟩ :: p) = c.at? p := by
  rw [at?, children?_node, if_pos rfl]
  exact (congrArg (Option.bind · _) h).trans rfl

theorem eq_malformed_of_refuse {fault : NodeFault} {tree : Condition}
    (h : refuse policy place fault = .ok tree) :
    tree = .malformed ⟨place, fault⟩ (policy == .alwaysTrigger) := by
  cases policy <;> cases h <;> rfl

theorem children?_of_refuse {fault : NodeFault} {tree : Condition} (kind : Group)
    (h : refuse policy place fault = .ok tree) : tree.children? kind = none := by
  rw [eq_malformed_of_refuse h]
  cases kind <;> rfl

/-- A group with a condition in it has been read from a list of conditions. -/
theorem items_of_children {v : Value} {tree : Condition} {group : Group}
    {children : List Condition} (h : read policy place v = .ok tree)
    (hchildren : tree.children? group = some children) (hne : children ≠ []) :
    ∃ items, v.get? group.key = some (.list items) ∧
      readItems policy place group 0 items = .ok children := by
  induction v using reading_induction with
  | nothing =>
    cases h
    cases group
    · cases hchildren
    · exact absurd (Option.some.inj hchildren).symm hne
  | group fields kind items hkind =>
    rw [read_group policy place hkind] at h
    obtain ⟨cs, hcs, rfl⟩ := Except.map_eq_ok.mp h
    rw [children?_node] at hchildren
    split at hchildren
    · next heq =>
      cases hchildren
      subst heq
      exact ⟨items, (groupOf?_eq_some.mp hkind).1, hcs⟩
    · cases hchildren
  | leaf fields field op value hnone hleaf =>
    rw [read_leaf policy place hnone hleaf] at h
    cases h
    cases group <;> cases hchildren
  | refused v fault hfault =>
    rw [hfault policy place] at h
    rw [children?_of_refuse group h] at hchildren
    cases hchildren

theorem readItems_getElem? {group : Group} {items : List Value} {children : List Condition}
    {c : Condition} {first i : Nat}
    (h : readItems policy place group first items = .ok children) (hc : children[i]? = some c) :
    ∃ w, items[i]? = some w ∧ read policy (place ++ [⟨group, first + i⟩]) w = .ok c := by
  induction items generalizing first i children with
  | nil =>
    cases h
    cases hc
  | cons v rest ih =>
    rw [readItems] at h
    obtain ⟨d, hd, h⟩ := Except.bind_eq_ok.mp h
    obtain ⟨ds, hds, h⟩ := Except.bind_eq_ok.mp h
    cases h
    cases i with
    | zero =>
      cases hc
      exact ⟨v, rfl, hd⟩
    | succ j =>
      obtain ⟨w, hw, hread⟩ := ih hds hc
      exact ⟨w, hw, by rwa [Nat.add_right_comm] at hread⟩

/-- The tree at a place of a tree has been read from the value at the same place. -/
theorem exists_at?_of_read {v : Value} {tree c : Condition} {p : Place}
    (h : read policy place v = .ok tree) (hc : tree.at? p = some c) :
    ∃ w, v.at? p = some w ∧ read policy (place ++ p) w = .ok c := by
  induction p generalizing place v tree with
  | nil =>
    cases hc
    exact ⟨v, rfl, by rwa [List.append_nil]⟩
  | cons step rest ih =>
    obtain ⟨children, hchildren, hc⟩ := Option.bind_eq_some_iff.mp hc
    obtain ⟨d, hd, hc⟩ := Option.bind_eq_some_iff.mp hc
    have hne : children ≠ [] := by
      rintro rfl
      cases hd
    obtain ⟨items, hitems, hread⟩ := items_of_children h hchildren hne
    obtain ⟨u, hu, hdread⟩ := readItems_getElem? hread hd
    obtain ⟨w, hw, hwread⟩ := ih hdread hc
    refine ⟨w, ?_, ?_⟩
    · rw [Value.at?, hitems]
      exact Option.bind_eq_some_iff.mpr ⟨u, hu, hw⟩
    · rwa [Nat.zero_add, List.append_assoc] at hwread

/-! ## Malformed nodes -/

mutual

theorem exists_at?_of_mem_faults {c : Condition} {node : Malformed} (h : node ∈ c.faults) :
    ∃ p outcome, c.at? p = some (.malformed node outcome) := by
  match c with
  | .all children =>
    obtain ⟨i, d, p, outcome, hd, hp⟩ := exists_at?_of_mem_faultsAmong h
    exact ⟨⟨.all, i⟩ :: p, outcome, (at?_node .all hd p).trans hp⟩
  | .any children =>
    obtain ⟨i, d, p, outcome, hd, hp⟩ := exists_at?_of_mem_faultsAmong h
    exact ⟨⟨.any, i⟩ :: p, outcome, (at?_node .any hd p).trans hp⟩
  | .leaf .. => cases h
  | .malformed m outcome =>
    cases List.mem_singleton.mp h
    exact ⟨[], outcome, rfl⟩

theorem exists_at?_of_mem_faultsAmong {cs : List Condition} {node : Malformed}
    (h : node ∈ faultsAmong cs) :
    ∃ (i : Nat) (d : Condition) (p : Place) (outcome : Bool),
      cs[i]? = some d ∧ d.at? p = some (.malformed node outcome) := by
  match cs with
  | [] => cases h
  | c :: rest =>
    rcases List.mem_append.mp h with h | h
    · obtain ⟨p, outcome, hp⟩ := exists_at?_of_mem_faults h
      exact ⟨0, c, p, outcome, rfl, hp⟩
    · obtain ⟨i, d, p, outcome, hd, hp⟩ := exists_at?_of_mem_faultsAmong h
      exact ⟨i + 1, d, p, outcome, hd, hp⟩

end

/-- What is read as a malformed node carries the place that it stands at, and the outcome that the
policy wants. -/
theorem eq_of_read_malformed {v : Value} {node : Malformed} {outcome : Bool}
    (h : read policy place v = .ok (.malformed node outcome)) :
    node.place = place ∧ outcome = (policy == .alwaysTrigger) := by
  induction v using reading_induction with
  | nothing => cases h
  | group fields kind items hkind =>
    rw [read_group policy place hkind] at h
    obtain ⟨cs, -, hcs⟩ := Except.map_eq_ok.mp h
    cases kind <;> cases hcs
  | leaf fields field op value hnone hleaf =>
    cases (read_leaf policy place hnone hleaf).symm.trans h
  | refused v fault hfault =>
    cases eq_malformed_of_refuse ((hfault policy place).symm.trans h)
    exact ⟨rfl, rfl⟩

/-- A malformed node of a tree stands at the place that it carries, and has been read from the value
at that place. -/
theorem at?_place_of_mem_faults {v : Value} {tree : Condition} {node : Malformed}
    (h : ofValue policy v = .ok tree) (hnode : node ∈ tree.faults) :
    tree.at? node.place = some (.malformed node (policy == .alwaysTrigger)) ∧
      ∃ w, v.at? node.place = some w ∧
        read policy node.place w = .ok (.malformed node (policy == .alwaysTrigger)) := by
  obtain ⟨p, outcome, hp⟩ := exists_at?_of_mem_faults hnode
  obtain ⟨w, hw, hread⟩ := exists_at?_of_read h hp
  obtain ⟨rfl, rfl⟩ := eq_of_read_malformed hread
  exact ⟨hp, w, hw, hread⟩

end Condition

end Rulebook
