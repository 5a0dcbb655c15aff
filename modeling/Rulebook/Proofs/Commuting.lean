import Mathlib
import Rulebook.Proofs.ParallelRuns

/-!
Evaluations of different entities commute. What one of them finds is pending for no version about
the other entity (`Evaluation.agree_of_evaluate`), so the other one ends alike before and after it.
The two runs of identifiers that are given out change places, and the new rows stand in another
order; nothing else tells in which order the calls were made.
-/
namespace Rulebook

open Txn

variable {s s' u : Store}

/-! ## Identifiers that change places -/

namespace Uuid

/-- What becomes of an identifier if `a` identifiers from `n` on change places with the `b` that
follow them. -/
def exchange (n a b : Nat) (id : Uuid) : Uuid :=
  if id.number < n then id
  else if id.number < n + a then ⟨id.number + b⟩
  else if id.number < n + a + b then ⟨id.number - a⟩
  else id

theorem exchange_exchange (n a b : Nat) (id : Uuid) : exchange n b a (exchange n a b id) = id := by
  obtain ⟨k⟩ := id
  unfold exchange
  dsimp only
  split_ifs <;> first | rfl | (dsimp only at *; omega) | (congr 1; dsimp only at *; omega)

/-- Changing places back and forth. -/
def exchanging (n a b : Nat) : Equiv.Perm Uuid where
  toFun := exchange n a b
  invFun := exchange n b a
  left_inv := exchange_exchange n a b
  right_inv := exchange_exchange n b a

variable {n a b k : Nat}

theorem exchange_of_lt {id : Uuid} (h : id.number < n) : exchange n a b id = id := if_pos h

theorem exchange_first (h : k < a) : exchange n a b ⟨n + k⟩ = ⟨n + b + k⟩ := by
  unfold exchange
  rw [if_neg (by dsimp only; omega), if_pos (by dsimp only; omega)]
  congr 1
  dsimp only
  omega

theorem exchange_second (h : k < b) : exchange n a b ⟨n + a + k⟩ = ⟨n + k⟩ := by
  unfold exchange
  rw [if_neg (by dsimp only; omega), if_neg (by dsimp only; omega), if_pos (by dsimp only; omega)]
  congr 1
  dsimp only
  omega

end Uuid

/-! ## Stores with the same rows -/

/-- Up to the identifiers of findings and tasks, their times, the order in which they were added
and the time that the clock shows, two stores are the same. -/
structure Store.SameRows (ρ : Uuid → Uuid) (s u : Store) : Prop where
  findings : (s.findings.map fun f => (f.rename ρ).timeless).Perm (u.findings.map Finding.timeless)
  tasks : (s.tasks.map fun k => (k.rename ρ).timeless).Perm (u.tasks.map Task.timeless)
  frame : u = { s with findings := u.findings, tasks := u.tasks, clock := u.clock }

/-- Rows that stay, and two lots of new rows that are added in one order and, under other
identifiers, in the other. -/
theorem perm_of_lots {α β : Type} {f g : α → β} {old first second first' second' : List α}
    (hold : ∀ a ∈ old, f a = g a) (hfirst : first'.map g = first.map f)
    (hsecond : second'.map g = second.map f) :
    ((old ++ (first ++ second)).map f).Perm ((old ++ (second' ++ first')).map g) := by
  simp only [List.map_append, hfirst, hsecond, List.map_congr_left hold]
  exact List.perm_append_comm.append_left _

/-- What two lots of findings leave, in either order. -/
theorem Store.SameRows.of_gains {ρ : Uuid → Uuid} {first second first' second' : List FindingView}
    {v w : Store} (hs : s.Supplied) (htasks : ∀ k ∈ s.tasks, k.id.number < s.nextId)
    (hρ : ∀ id : Uuid, id.number < s.nextId → ρ id = id) (hv : s.Gains v (first ++ second))
    (hw : s.Gains w (second' ++ first')) (hnext : w.nextId = v.nextId)
    (hfirst : first'.map FindingView.timeless = first.map fun view => (view.rename ρ).timeless)
    (hsecond : second'.map FindingView.timeless =
      second.map fun view => (view.rename ρ).timeless) : v.SameRows ρ w := by
  have hfindings : ∀ {found found' : List FindingView},
      found'.map FindingView.timeless = found.map (fun view => (view.rename ρ).timeless) →
      (found'.map fun view => view.finding).map Finding.timeless =
        (found.map fun view => view.finding).map fun f => (f.rename ρ).timeless := by
    intro found found' h
    have hmap := congrArg (List.map fun view => view.finding) h
    rw [List.map_map, List.map_map] at hmap
    rw [List.map_map, List.map_map]
    exact hmap
  have hflat : ∀ {found found' : List FindingView},
      found'.map FindingView.timeless = found.map (fun view => (view.rename ρ).timeless) →
      (found'.flatMap fun view => view.tasks).map Task.timeless =
        (found.flatMap fun view => view.tasks).map fun k => (k.rename ρ).timeless := by
    intro found found' h
    have hmap := congrArg (List.flatMap fun view => view.tasks) h
    simpa only [List.flatMap_map, List.map_flatMap, FindingView.timeless, FindingView.rename,
      List.map_map, Function.comp_def] using hmap
  refine ⟨?_, ?_, ?_⟩
  · rw [hv.findings, hw.findings]
    simp only [List.map_append (f := fun view : FindingView => view.finding)]
    refine perm_of_lots (fun f hf => ?_) (hfindings hfirst) (hfindings hsecond)
    rw [Finding.rename, hρ f.id (hs.findings f hf)]
  · rw [hv.tasks, hw.tasks]
    simp only [List.flatMap_append]
    refine perm_of_lots (fun k hk => ?_) (hflat hfirst) (hflat hsecond)
    rw [Task.rename, hρ k.id (htasks k hk), hρ k.finding (hs.tasks k hk)]
  · unfold Store.Gains at hv hw
    rw [hw, hv]
    dsimp only
    rw [hnext]

/-! ## Evaluations that find nothing about each other's entity -/

namespace Evaluation

variable {c : Circumstances} {t : Target}

theorem evaluateVersion_found (hs : s.Supplied) {v : Version} {r : Rule}
    {found : Option FindingView} (h : Yields (evaluateVersion c t v r) s found s') :
    ∀ view ∈ found, Found c t (v, r) view := by
  have hhit : ∀ {tree : Condition}, Condition.ofValue c.policy v.conditionsOrNone = .ok tree →
      Yields (fileHit c.today t v r tree) s found s' → ∀ view ∈ found, Found c t (v, r) view := by
    rintro tree htree hhit view rfl
    obtain ⟨-, -, ⟨hnone, -⟩ | ⟨_, hsome, -, hview, -⟩⟩ := yields_fileHit hs htree hhit
    · cases hnone
    · rw [Option.some.inj hsome]
      exact hview
  have hpure : Yields (pure none : Txn (Option FindingView)) s found s' →
      ∀ view ∈ found, Found c t (v, r) view := by
    rintro hpure view rfl
    cases (yields_pure.1 hpure).1
  cases htree : Condition.ofValue c.policy v.conditionsOrNone with
  | error e =>
    rw [evaluateVersion_of_malformed htree] at h
    exact hpure h
  | ok tree =>
    rw [evaluateVersion_of_tree htree] at h
    obtain ⟨holds, -, h⟩ := (reads_ofFault _).yields_bind.1 h
    split at h
    · exact hpure h
    · split at h
      · exact hhit htree h
      · obtain ⟨key, -, h⟩ := (Filing.reads_key _ _ _ _).yields_bind.1 h
        rw [yields_get_bind] at h
        split at h
        · exact hpure h
        · exact hhit htree h

theorem evaluateVersions_found (hs : s.Supplied) {listed : List (Version × Rule)}
    {found : List FindingView} (h : Yields (evaluateVersions c t listed) s found s') :
    ∀ view ∈ found, ∃ hit ∈ listed, Found c t hit view := by
  induction listed generalizing s found with
  | nil =>
    obtain ⟨rfl, -⟩ := yields_pure.1 h
    exact fun view hview => by cases hview
  | cons hit rest ih =>
    obtain ⟨v, r⟩ := hit
    unfold evaluateVersions at h
    obtain ⟨first, u, hfirst, h⟩ := yields_bind.1 h
    obtain ⟨more, _, hmore, h⟩ := yields_bind.1 h
    obtain ⟨rfl, rfl⟩ := yields_pure.1 h
    intro view hview
    rcases List.mem_append.1 hview with hview | hview
    · exact ⟨_, List.mem_cons_self .., evaluateVersion_found hs hfirst view (by simpa using hview)⟩
    · obtain ⟨hit, hhit, hfound⟩ :=
        ih (hs.of_yields (evaluateVersion_changes t v r) hfirst) hmore view hview
      exact ⟨hit, List.mem_cons_of_mem _ hhit, hfound⟩

variable {caller : Caller} {entityType : Text} {entity : Fields}

theorem Agree.refl (hs : s.Supplied) (t : Target) : Agree t s s := ⟨hs, hs, fun _ => Iff.rfl⟩

theorem Agree.symm (h : Agree t s u) : Agree t u s :=
  ⟨h.right, h.left, fun version => (h.pending version).symm⟩

/-- The next identifiers are still new after an evaluation that goes through, and what it has found
is all that it has left. -/
theorem supplied_of_evaluate (hs : s.Supplied) {found : List FindingView}
    (h : Yields (evaluate c caller entityType entity) s found s') :
    s'.Supplied ∧ s.Gains s' found := by
  refine ⟨hs.of_yields (evaluate_changes entityType entity) h, ?_⟩
  exact ((evaluate_endsAlike rfl rfl (.refl hs _)).parallel h h).left

/-- An evaluation leaves pending what was pending about any other entity. -/
theorem agree_of_evaluate (hs : s.Supplied) {found : List FindingView}
    (h : Yields (evaluate c caller entityType entity) s found s')
    (hne : (caller.tenant, entityType, (entity.getD "id").plain) ≠
      (t.tenant, t.entityType, t.entityId)) : Agree t s' s := by
  obtain ⟨hs', hgains⟩ := supplied_of_evaluate hs h
  refine ⟨hs', hs, fun version => ?_⟩
  rw [pending_iff_of_gains hgains]
  refine or_iff_left ?_
  rintro ⟨_, hmem, -, htenant, htype, hid, -⟩
  obtain ⟨view, hview, rfl⟩ := List.mem_map.1 hmem
  obtain ⟨name, -, hvisits⟩ := yields_evaluate h
  obtain ⟨hit, -, _, _, _, -, -, -, hreports⟩ := evaluateVersions_found hs hvisits view hview
  refine hne ?_
  rw [← htenant, ← htype, ← hid]
  exact Prod.ext hreports.tenant_eq.symm
    (Prod.ext hreports.entityType_eq.symm hreports.entityId_eq.symm)

end Evaluation

/-- On every store whose next identifiers are new: two evaluations about different entities, for
whatever dates and policies and by whichever callers, that go through one after the other go through
in the other order too. Each of them finds the same in both orders, with the same tasks, and the
stores that are left are the same, but for the identifiers of what is new, times and the order in
which the new rows were added. -/
theorem evaluations_commute (s : Store) (hs : s.Supplied)
    (htasks : ∀ k ∈ s.tasks, k.id.number < s.nextId) (c d : Evaluation.Circumstances)
    (caller other : Caller) (entityType otherType : Text) (entity otherEntity : Fields)
    (hne : (caller.tenant, entityType, (entity.getD "id").plain) ≠
      (other.tenant, otherType, (otherEntity.getD "id").plain))
    (found more : List FindingView) (s₁ s₂ : Store)
    (hfirst : Yields (Evaluation.evaluate c caller entityType entity) s found s₁)
    (hsecond : Yields (Evaluation.evaluate d other otherType otherEntity) s₁ more s₂) :
    ∃ (found' more' : List FindingView) (u₁ u₂ : Store) (ρ : Equiv.Perm Uuid),
      Yields (Evaluation.evaluate d other otherType otherEntity) s more' u₁ ∧
      Yields (Evaluation.evaluate c caller entityType entity) u₁ found' u₂ ∧
      (∀ id : Uuid, id.number < s.nextId → ρ id = id) ∧
      found'.map FindingView.timeless = found.map (fun view => (view.rename ρ).timeless) ∧
      more'.map FindingView.timeless = more.map (fun view => (view.rename ρ).timeless) ∧
      s₂.SameRows ρ u₂ := by
  obtain ⟨hs₁, hgains₁⟩ := Evaluation.supplied_of_evaluate hs hfirst
  obtain ⟨-, hgains₂⟩ := Evaluation.supplied_of_evaluate hs₁ hsecond
  -- The second evaluation, moved to the front.
  have hother := Evaluation.agree_of_evaluate (t := { tenant := other.tenant, entityType := otherType
                                                      entityId := (otherEntity.getD "id").plain
                                                      entity := otherEntity }) hs hfirst hne
  have halike := Evaluation.evaluate_endsAlike (c := d) hgains₁.rules.symm hgains₁.versions.symm
    hother
  obtain ⟨more', u₁, hmore⟩ := verdict_eq_ok.1 (halike.outcome.symm.trans hsecond.verdict)
  obtain ⟨-, hgains'⟩ := Evaluation.supplied_of_evaluate hs hmore
  have hmoved := halike.parallel hsecond hmore
  -- The first evaluation, moved behind it.
  have hagree := Evaluation.agree_of_evaluate (t := { tenant := caller.tenant, entityType
                                                      entityId := (entity.getD "id").plain
                                                      entity }) hs hmore hne.symm
  have halike' := Evaluation.evaluate_endsAlike (c := c) hgains'.rules hgains'.versions hagree.symm
  obtain ⟨found', u₂, hfound⟩ := verdict_eq_ok.1 (halike'.outcome.symm.trans hfirst.verdict)
  have hmoved' := halike'.parallel hfirst hfound
  obtain ⟨a, ha, ha'⟩ := hmoved'.advance
  obtain ⟨b, hb, hb'⟩ := hmoved.advance
  have hfounds := hmoved'.same (Uuid.exchanging s.nextId a b) fun k hk => by
    rw [hb']
    exact Uuid.exchange_first (by omega)
  have hmores := hmoved.same (Uuid.exchanging s.nextId a b) fun k hk => by
    rw [ha]
    exact Uuid.exchange_second (by omega)
  have hfixed : ∀ id : Uuid, id.number < s.nextId → Uuid.exchanging s.nextId a b id = id :=
    fun id hid => Uuid.exchange_of_lt hid
  refine ⟨found', more', u₁, u₂, Uuid.exchanging s.nextId a b, hmore, hfound, hfixed, hfounds,
    hmores, ?_⟩
  exact .of_gains hs htasks hfixed (hgains₁.append hgains₂) (hgains'.append hmoved'.right)
    (by omega) hfounds hmores

/-- Two loans that the blanket rule reports, in either order. -/
theorem evaluations_commute_loans :
    let s := ((Engine.fresh .absent default 0).after blanketRule).store
    let evaluated (id : String) : Txn (List FindingView) :=
      Evaluation.evaluate { today := default } { tenant := ⟨100⟩ } "loan" [("id", .text id)]
    ∃ found more s₁ s₂, Yields (evaluated "7") s found s₁ ∧ Yields (evaluated "8") s₁ more s₂ ∧
      (found ++ more).map (fun view => view.finding.entityId) = ["7", "8"] ∧
      ∃ found' more' u₁ u₂ ρ, Yields (evaluated "8") s more' u₁ ∧
        Yields (evaluated "7") u₁ found' u₂ ∧ s₂.SameRows ρ u₂ := by
  intro s evaluated
  have hs : s.Intact := Engine.after_intact (Engine.fresh_intact .absent default 0) blanketRule
  have hboth : ((do
      let found ← Evaluation.evaluate { today := default } { tenant := ⟨100⟩ } "loan"
        [("id", .text "7")]
      let more ← Evaluation.evaluate { today := default } { tenant := ⟨100⟩ } "loan"
        [("id", .text "8")]
      return found ++ more : Txn (List FindingView))
        ((Engine.fresh .absent default 0).after blanketRule).store :
      Except Failure (List FindingView) × Store).1.toOption.map
        (fun found => found.map fun view => view.finding.entityId) = some ["7", "8"] := by cbv
  obtain ⟨_, _, hrun, hids⟩ := yields_of_answer hboth
  obtain ⟨found, s₁, hfirst, hrun⟩ := yields_bind.1 hrun
  obtain ⟨more, s₂, hsecond, hpure⟩ := yields_bind.1 hrun
  obtain ⟨rfl, -⟩ := yields_pure.1 hpure
  have hne : (⟨⟨100⟩, "loan", "7"⟩ : Uuid × Text × Text) ≠ ⟨⟨100⟩, "loan", "8"⟩ := by decide
  obtain ⟨found', more', u₁, u₂, ρ, hmore, hfound, -, -, -, hsame⟩ :=
    evaluations_commute s hs.supplied hs.tasks.below { today := default } { today := default }
      { tenant := ⟨100⟩ } { tenant := ⟨100⟩ } "loan" "loan" [("id", .text "7")]
      [("id", .text "8")] hne found more s₁ s₂ hfirst hsecond
  exact ⟨found, more, s₁, s₂, hfirst, hsecond, hids, found', more', u₁, u₂, ρ, hmore, hfound, hsame⟩

end Rulebook
