import Rulebook.Proofs.ActiveVersion

/-!
The numbers of versions. Where calls that fail are undone and no columns are written by force, each
rule has a version, and its versions are numbered 1, 2, 3 and so on in the order in which they were
made (`Store.Numbered`): two calls add versions, each with the number that is due
(`Authoring.createRule_numbered`, `Authoring.createVersion_numbered`), and all others leave rules
and numbers as they are. So the next number is free (`version_numbers_count_up`).
-/
namespace Rulebook

open Txn

variable {c : Impact.Circumstances} {s s' : Store} {caller : Caller}

/-! ## Numbers in a store -/

namespace Store

/-- The versions of a rule in the order in which they were made. -/
def madeFor (s : Store) (rule : Uuid) : List Version := s.versions.filter (·.rule == rule)

/-- Their numbers. -/
def numbersOf (s : Store) (rule : Uuid) : List Int := (s.madeFor rule).map (·.number)

/-- Each rule has a version, and its versions are numbered from 1 on. -/
def Numbered (s : Store) : Prop :=
  ∀ r ∈ s.rules, ∃ k, 0 < k ∧ s.numbersOf r.id = (List.range' 1 k).map Int.ofNat

/-- Which rules there are, and of which rule each version is and under which number. -/
def numbering (s : Store) : List Uuid × List (Uuid × Int) :=
  (s.rules.map (·.id), s.versions.map fun v => (v.rule, v.number))

theorem numbersOf_eq (s : Store) (rule : Uuid) :
    s.numbersOf rule = (s.numbering.2.filter fun p => p.1 == rule).map Prod.snd := by
  rw [numbersOf, madeFor, numbering, List.filter_map, List.map_map]
  rfl

theorem Numbered.keep (h : s.Numbered) (hsame : Keeps numbering s s') : s'.Numbered := by
  intro r' hr'
  have hid : r'.id ∈ s.numbering.1 := hsame ▸ List.mem_map_of_mem hr'
  obtain ⟨r, hr, heq⟩ := List.mem_map.1 hid
  obtain ⟨k, hk, hnumbers⟩ := h r hr
  refine ⟨k, hk, ?_⟩
  rw [numbersOf_eq, hsame, ← numbersOf_eq, ← heq, hnumbers]

/-- A further version comes after those of its rule, and leaves the others alone. -/
theorem numbersOf_added {v : Version} (hversions : s'.versions = s.versions ++ [v]) (rule : Uuid) :
    s'.numbersOf rule = s.numbersOf rule ++ if v.rule = rule then [v.number] else [] := by
  rw [numbersOf, madeFor, hversions, List.filter_append, List.map_append]
  by_cases h : v.rule = rule <;> simp [numbersOf, madeFor, h]

end Store

theorem foldl_max_range' (n k : Nat) :
    ((List.range' (n + 1) k).map Int.ofNat).foldl max (n : Int) = (n + k : Nat) := by
  induction k generalizing n with
  | zero => rfl
  | succ k ih =>
    have hmax : max (n : Int) (n + 1 : Nat) = (n + 1 : Nat) := by omega
    rw [List.range'_succ, List.map_cons, List.foldl_cons, Int.ofNat_eq_natCast, hmax, ih]
    omega

/-- The number that is due is one more than there are versions. -/
theorem Store.Intact.nextNumber_eq (hs : s.Intact) {r : Rule} (hr : r ∈ s.rules) {k : Nat}
    (hk : 0 < k) (hnumbers : s.numbersOf r.id = (List.range' 1 k).map Int.ofNat) :
    s.nextNumber r.tenant r.id = k + 1 := by
  have hown : s.madeFor r.id = (ownRows s.versions r.tenant).filter (·.rule == r.id) :=
    filter_own fun v hv hrule => tenant_of_rule hs hv hr (eq_of_beq hrule)
  obtain ⟨j, rfl⟩ := Nat.exists_eq_succ_of_ne_zero (Nat.ne_of_gt hk)
  rw [Store.nextNumber, ← hown, show (s.madeFor r.id).map (·.number) = _ from hnumbers,
    List.range'_succ, List.map_cons]
  show ((List.range' (1 + 1) j).map Int.ofNat).foldl max ((1 : Nat) : Int) + 1 = _
  rw [foldl_max_range']
  omega

/-! ## Changes that leave numbers alone -/

theorem VersionEdit.Lawful.number_eq {w : Work} {v : Version} {edit : VersionEdit}
    (h : edit.Lawful w v) (hw : w ≠ .forcing) : (edit.applyTo v).number = v.number := by
  cases h with
  | content draft kept => simp [VersionEdit.applyTo, kept.1]
  | force => exact absurd rfl hw
  | _ => rfl

/-- A version whose number is not edited stays where it is in the numbering. -/
theorem Store.Intact.keeps_numbering (hs : s.Intact) {v : Version} {edit : VersionEdit}
    (hv : v ∈ s.versions) (hnumber : (edit.applyTo v).number = v.number) (u t : Instant) :
    s.Keeps Store.numbering { s with
      versions := replaceRow s.versions { edit.applyTo v with updatedAt := u }, clock := t } := by
  refine congrArg (Prod.mk _) (hs.versions.map_replaceRow hv rfl ?_ fun _ _ _ => rfl)
  exact congrArg (Prod.mk v.rule) hnumber

/-- The life of versions touches neither rules nor numbers. -/
theorem Change.numbering (h : Change c .lifecycle s s') (hs : s.Intact) :
    s.Keeps Store.numbering s' := by
  cases h with
  | passed => rfl
  | ruleSaved old =>
    exact congrArg (Prod.mk · _) (hs.rules.map_replaceRow old rfl rfl fun _ _ _ => rfl)
  | versionSaved old lawful unique =>
    exact hs.keeps_numbering old (lawful.number_eq nofun) _ _

theorem Changes.numbering (h : Changes c .lifecycle s s') (hs : s.Intact) :
    s.Keeps Store.numbering s' :=
  h.keep hs rfl fun ht hsame last => (last.numbering ht).trans hsame

namespace Authoring

theorem updateVersion_numbering (hs : s.Intact) {id : Uuid} {change : VersionChange} {v : Version}
    (h : Yields (updateVersion caller id change) s v s') : s.Keeps Store.numbering s' := by
  unfold updateVersion at h
  obtain ⟨old, hfound, h⟩ := yields_own_bind.1 h
  obtain ⟨-, h⟩ := yields_guard.1 h
  obtain ⟨-, -, h⟩ := (reads_optionForM reads_checkConditions _).yields_bind.1 h
  obtain ⟨-, -, h⟩ := (reads_optionForM (fun a => (reads_checkActions a).discard) _).yields_bind.1 h
  obtain ⟨severity, -, h⟩ := (reads_encoded? _).yields_bind.1 h
  obtain ⟨note, -, h⟩ := (reads_encoded? _).yields_bind.1 h
  obtain ⟨saved, t, hsaved, h⟩ := yields_bind.1 h
  obtain rfl := (reads_showVersion saved).yields h
  rcases yields_saveVersion.1 hsaved with ⟨-, -, rfl⟩ | ⟨-, -, -, rfl⟩
  · rfl
  · exact hs.keeps_numbering (findOwn_eq_some hfound).1 rfl _ _

end Authoring

/-! ## Versions that are added -/

namespace Store.Numbered

/-- A version under the number that is due goes on with the numbers of its rule. -/
theorem add_next (h : s.Numbered) (hs : s.Intact) {r : Rule} (hr : r ∈ s.rules) {v : Version}
    (hrule : v.rule = r.id) (hnumber : v.number = s.nextNumber r.tenant r.id)
    (hrules : s'.rules = s.rules) (hversions : s'.versions = s.versions ++ [v]) :
    s'.Numbered := by
  intro q hq
  rw [hrules] at hq
  obtain ⟨k, hk, hnumbers⟩ := h q hq
  rw [numbersOf_added hversions, hnumbers, hrule]
  by_cases hid : r.id = q.id
  · obtain rfl := hs.rules.eq_of_id hr hq hid
    refine ⟨k + 1, Nat.succ_pos k, ?_⟩
    rw [if_pos rfl, hnumber, hs.nextNumber_eq hr hk hnumbers, List.range'_1_concat, List.map_append,
      Nat.add_comm 1 k]
    rfl
  · exact ⟨k, hk, by rw [if_neg hid, List.append_nil]⟩

/-- A rule that is new starts with the number 1. -/
theorem add_first (h : s.Numbered) (hs : s.Intact) {r : Rule} (hid : r.id = ⟨s.nextId⟩)
    {v : Version} (hrule : v.rule = r.id) (hnumber : v.number = 1)
    (hrules : s'.rules = s.rules ++ [r]) (hversions : s'.versions = s.versions ++ [v]) :
    s'.Numbered := by
  have hbelow : ∀ q ∈ s.rules, q.id ≠ r.id := fun q hq heq =>
    hs.rules.ne_next hq (heq.trans hid)
  intro q hq
  rw [hrules] at hq
  rw [numbersOf_added hversions, hrule]
  rcases List.mem_append.1 hq with hq | hq
  · obtain ⟨k, hk, hnumbers⟩ := h q hq
    refine ⟨k, hk, ?_⟩
    rw [hnumbers, if_neg (Ne.symm (hbelow q hq)), List.append_nil]
  · obtain rfl := List.mem_singleton.1 hq
    have hnone : s.madeFor q.id = [] := by
      refine List.filter_eq_nil_iff.2 fun w hw heq => ?_
      obtain ⟨p, hp, hpid, -⟩ := mem_owned.1 (hs.versionRule w hw)
      exact hbelow p hp (hpid.trans (eq_of_beq heq))
    refine ⟨1, Nat.one_pos, ?_⟩
    rw [numbersOf, hnone, if_pos rfl, hnumber]
    rfl

end Store.Numbered

namespace Authoring

theorem yields_addDraft {rule : Uuid} {number : Int} {draft : VersionDraft} {v : Version}
    (h : Yields (addDraft caller rule number draft) s v s') :
    v.rule = rule ∧ v.number = number ∧
      (v.conditions, v.actions) = (draft.conditions, draft.actions) ∧
      s'.rules = s.rules ∧ s'.versions = s.versions ++ [v] := by
  unfold addDraft at h
  obtain ⟨n, hn, h⟩ := (reads_column _).yields_bind.1 h
  obtain ⟨severity, -, h⟩ := (reads_encoded _).yields_bind.1 h
  obtain ⟨note, -, h⟩ := (reads_encoded? _).yields_bind.1 h
  rw [yields_newRow_bind] at h
  obtain ⟨u, t, hadded, h⟩ := yields_bind.1 h
  obtain ⟨rfl, rfl⟩ := yields_pure.1 h
  obtain ⟨-, rfl⟩ := yields_addVersion.1 hadded
  exact ⟨rfl, (yields_column.1 hn).2.1, rfl, rfl, rfl⟩

theorem createRule_numbered (hs : s.Intact) (h : s.Numbered) {draft : RuleDraft}
    {first : VersionDraft} {view : RuleView}
    (hrun : Yields (createRule caller draft first) s view s') : s'.Numbered := by
  unfold createRule at hrun
  obtain ⟨checked, -, hrun⟩ := (reads_checkDraft _).yields_bind.1 hrun
  obtain ⟨-, -, hrun⟩ := (reads_own _ _ _ _).discard.yields_bind.1 hrun
  obtain ⟨name, -, hrun⟩ := (reads_encoded _).yields_bind.1 hrun
  obtain ⟨appliesTo, -, hrun⟩ := (reads_encoded? _).yields_bind.1 hrun
  rw [yields_newRow_bind] at hrun
  obtain ⟨u, t, hadded, hrun⟩ := yields_bind.1 hrun
  obtain rfl := yields_modify.1 hadded
  obtain ⟨u', t', hdraft, hrun⟩ := yields_bind.1 hrun
  obtain rfl := (reads_showRule _).yields hrun
  obtain ⟨v, hdraft⟩ := yields_discard.1 hdraft
  obtain ⟨hrule, hnumber, -, hrules, hversions⟩ := yields_addDraft hdraft
  exact h.add_first hs rfl hrule hnumber hrules hversions

/-- What is left to do once a draft has been checked and its rule found. -/
theorem yields_createVersion {rule : Uuid} {draft : VersionDraft} {w : Version}
    (hrun : Yields (createVersion caller rule draft) s w s') :
    ∃ r ∈ s.rules, r.id = rule ∧ r.tenant = caller.tenant ∧ ∃ v, v.rule = rule ∧
      v.number = s.nextNumber caller.tenant rule ∧ s'.rules = s.rules ∧
      s'.versions = s.versions ++ [v] ∧ v.shown = .ok w := by
  unfold createVersion at hrun
  obtain ⟨checked, -, hrun⟩ := (reads_checkDraft _).yields_bind.1 hrun
  obtain ⟨r, hfound, hrun⟩ := yields_own_bind.1 hrun
  obtain ⟨hr, hid, htenant⟩ := findOwn_eq_some hfound
  rw [yields_get_bind] at hrun
  obtain ⟨v, t, hdraft, hrun⟩ := yields_bind.1 hrun
  obtain ⟨hshown, rfl⟩ := yields_ofExcept.1 hrun
  obtain ⟨hrule, hnumber, -, hrules, hversions⟩ := yields_addDraft hdraft
  obtain rfl : r.id = rule := hid
  exact ⟨r, hr, rfl, htenant, v, hrule, hnumber, hrules, hversions, hshown⟩

theorem createVersion_numbered (hs : s.Intact) (h : s.Numbered) {rule : Uuid}
    {draft : VersionDraft} {w : Version} (hrun : Yields (createVersion caller rule draft) s w s') :
    s'.Numbered := by
  obtain ⟨r, hr, rfl, htenant, v, hrule, hnumber, hrules, hversions, -⟩ := yields_createVersion hrun
  exact h.add_next hs hr hrule (htenant ▸ hnumber) hrules hversions

end Authoring

/-! ## Moves -/

namespace Engine

variable {e : Engine} {m : Move}

/-- A move that is undone where it fails, and does not force columns, keeps the versions of each
rule numbered. -/
theorem move_numbered (hs : e.store.Intact) (h : e.store.Numbered) (hatomic : m.isAtomic = true)
    (hforce : m.work ≠ .forcing) : (e.move m).store.Numbered := by
  have hchanges := move_changes hs m
  cases hwork : m.work with
  | forcing => exact absurd hwork hforce
  | lifecycle =>
    rw [hwork] at hchanges
    exact h.keep (hchanges.numbering hs)
  | authoring =>
    cases m with
    | call settings caller call =>
      have hundone : settings.statementwise = false := by simpa [Move.isAtomic] using hatomic
      cases call with
      | createRule draft first =>
        exact answer_keeps hundone h fun _ _ hrun => Authoring.createRule_numbered hs h hrun
      | createVersion rule draft =>
        exact answer_keeps hundone h fun _ _ hrun => Authoring.createVersion_numbered hs h hrun
      | updateVersion version change =>
        exact answer_keeps hundone h fun _ _ hrun =>
          h.keep (Authoring.updateVersion_numbering hs hrun)
      | listRules | nextNumber | listVersions | listActive =>
        exact h.keep (congrArg Store.numbering (perform_of_looksUp rfl))
      | _ => cases hwork
    | _ => cases hwork
  | catalogue | filing | review | impact =>
    obtain ⟨hrules, hversions⟩ := hchanges.rules_versions (by rw [hwork]; rfl)
    refine h.keep ?_
    rw [Store.Keeps, Store.numbering, Store.numbering, hrules, hversions]

/-- So does a history of such moves. -/
theorem after_numbered {moves : List Move} (hs : e.store.Intact) (h : e.store.Numbered)
    (hmoves : ∀ m ∈ moves, m.isAtomic = true ∧ m.work ≠ .forcing) :
    (e.after moves).store.Numbered :=
  after_keeps hs h fun _ hd hnumbered m hm =>
    move_numbered hd hnumbered (hmoves m hm).1 (hmoves m hm).2

end Engine

/-! ## The next number is free -/

/-- A draft under the number that is due clashes with none. -/
theorem Store.Numbered.next_clashes_none (h : s.Numbered) (hs : s.Intact) {r : Rule}
    (hr : r ∈ s.rules) {v : Version} (hrule : v.rule = r.id)
    (hnumber : v.number = s.nextNumber r.tenant r.id) (hdraft : v.status = .draft) :
    ∀ q ∈ s.versions, v.clashes q = false := by
  intro q hq
  obtain ⟨k, hk, hnumbers⟩ := h r hr
  rw [Version.not_clashes_iff]
  intro _ hsame
  constructor
  · intro heq
    have hq : q.number ∈ s.numbersOf r.id :=
      List.mem_map_of_mem (List.mem_filter.2 ⟨hq, beq_iff_eq.2 (hsame.symm.trans hrule)⟩)
    rw [hnumbers, ← heq, hnumber, hs.nextNumber_eq hr hk hnumbers] at hq
    obtain ⟨n, hn, hcast⟩ := List.mem_map.1 hq
    have hbound := List.mem_range'_1.1 hn
    rw [Int.ofNat_eq_natCast] at hcast
    omega
  · rintro ⟨hactive, -⟩
    rw [hdraft] at hactive
    cases hactive

namespace Authoring

/-- Whether a version of a rule under a number can be added as a draft. -/
def Free (s : Store) (rule : Uuid) (number : Int) : Prop :=
  ∀ v : Version, v.rule = rule → v.number = number → v.status = .draft →
    ∀ q ∈ s.versions, v.clashes q = false

/-- The texts of a draft are such as the store has an encoding for. -/
def Encodable (draft : VersionDraft) : Prop :=
  (severityOf draft.severity).string?.isSome = true ∧
    ∀ t ∈ draft.changeNote, t.string?.isSome = true

/-- The conditions and actions of a draft are such as authoring lets through. -/
def WellFormed (draft : VersionDraft) : Prop :=
  (∃ tree, Condition.authored (draft.conditions.orElse (.object [])) = .ok tree) ∧
    ∃ entries, Directive.check (draft.actions.orElse (.list [])) = .ok entries

theorem fails_checkDraft {draft : VersionDraft} {f : Failure}
    (h : Fails (checkDraft draft) s f s') : f ≠ .constraint ∧ ¬ WellFormed draft := by
  unfold checkDraft at h
  rcases (reads_checkConditions _).fails_bind.1 h with ⟨h, -⟩ | ⟨_, -, h⟩
  · obtain ⟨node, hnode, rfl⟩ := Except.mapError_eq_error.1 (fails_ofExcept.1 (fails_discard.1 h)).1
    refine ⟨nofun, fun hvalid => ?_⟩
    obtain ⟨tree, htree⟩ := hvalid.1
    cases hnode.symm.trans htree
  rcases (reads_checkActions _).fails_bind.1 h with ⟨h, -⟩ | ⟨_, -, h⟩
  · rcases fails_bind.1 h with h | ⟨_, _, -, h⟩
    · obtain ⟨refusal, hrefusal, rfl⟩ := Except.mapError_eq_error.1 (fails_ofExcept.1 h).1
      refine ⟨nofun, fun hvalid => ?_⟩
      obtain ⟨entries, hentries⟩ := hvalid.2
      cases hrefusal.symm.trans hentries
    · exact absurd h not_fails_pure
  · exact absurd h not_fails_pure

theorem encodable_of_checkDraft {draft checked : VersionDraft}
    (h : Yields (checkDraft draft) s checked s') (hdraft : Encodable draft) :
    Encodable checked := by
  unfold checkDraft at h
  obtain ⟨_, _, -, h⟩ := yields_bind.1 h
  obtain ⟨_, _, -, h⟩ := yields_bind.1 h
  obtain ⟨rfl, -⟩ := yields_pure.1 h
  exact hdraft

/-- Where its number is free, a draft is added, unless its number or its texts fit into no
column. -/
theorem fails_addDraft {rule : Uuid} {number : Int} (hfree : Free s rule number)
    {draft : VersionDraft} {f : Failure} (h : Fails (addDraft caller rule number draft) s f s') :
    f = .integerTooWide ∧ ¬ (-0x8000000000000000 ≤ number ∧ number < 0x8000000000000000) ∨
      (∃ t, f = .unencodable t) ∧ ¬ Encodable draft := by
  unfold addDraft at h
  rcases (reads_column _).fails_bind.1 h with ⟨h, -⟩ | ⟨n, hn, h⟩
  · exact .inl ⟨(fails_column h).1, fun hfits => not_fails_yields (column_goes_through hfits) h⟩
  rcases (reads_encoded _).fails_bind.1 h with ⟨h, -⟩ | ⟨severity, -, h⟩
  · refine .inr ⟨⟨_, (fails_encoded h).1⟩, fun hencodable => ?_⟩
    obtain ⟨text, htext⟩ := Option.isSome_iff_exists.1 hencodable.1
    exact not_fails_yields (yields_encoded.2 ⟨htext, rfl⟩) h
  rcases (reads_encoded? _).fails_bind.1 h with ⟨h, -⟩ | ⟨note, -, h⟩
  · refine .inr ⟨(fails_encoded? h).1, fun hencodable => ?_⟩
    exact not_fails_yields (encoded?_goes_through hencodable.2) h
  rw [fails_newRow_bind] at h
  rcases fails_bind.1 h with h | ⟨u, t, -, h⟩
  · obtain ⟨-, q, hq, hclash⟩ := fails_addVersion h
    rw [hfree _ rfl (yields_column.1 hn).2.1 rfl q hq] at hclash
    cases hclash
  · exact absurd h not_fails_pure

/-- Where its number is free, a version is added to a rule of the caller, unless the draft is not
well-formed, or its number or its texts fit into no column. -/
theorem fails_createVersion (hs : s.Intact) {r : Rule} (hr : r ∈ s.rules)
    (htenant : r.tenant = caller.tenant) (hfree : Free s r.id (s.nextNumber r.tenant r.id))
    {draft : VersionDraft} {f : Failure} (h : Fails (createVersion caller r.id draft) s f s') :
    f ≠ .constraint ∧ (WellFormed draft → Encodable draft →
      ¬ (-0x8000000000000000 ≤ s.nextNumber r.tenant r.id ∧
        s.nextNumber r.tenant r.id < 0x8000000000000000)) := by
  unfold createVersion at h
  rcases (reads_checkDraft _).fails_bind.1 h with ⟨h, -⟩ | ⟨checked, hchecked, h⟩
  · obtain ⟨hf, hvalid⟩ := fails_checkDraft h
    exact ⟨hf, fun hwell => absurd hwell hvalid⟩
  have hfound : findOwn s.rules caller.tenant r.id = some r := htenant ▸ hs.rules.findOwn_eq hr
  rcases fails_own_bind.1 h with ⟨hnone, -⟩ | ⟨q, hq, h⟩
  · cases hnone.symm.trans hfound
  obtain rfl := Option.some.inj (hfound.symm.trans hq)
  rw [fails_get_bind, ← htenant] at h
  rcases fails_bind.1 h with h | ⟨v, t, hadded, h⟩
  · rcases fails_addDraft hfree h with ⟨rfl, hwidth⟩ | ⟨⟨u, rfl⟩, hencodable⟩
    · exact ⟨nofun, fun _ _ => hwidth⟩
    · exact ⟨nofun, fun _ hdraft => absurd (encodable_of_checkDraft hchecked hdraft) hencodable⟩
  · obtain ⟨-, -, hcontent, -, -⟩ := yields_addDraft hadded
    obtain ⟨hconditions, hactions⟩ := Prod.mk.inj hcontent
    have hauthored : v.Authored := by
      rw [Version.Authored, hconditions, hactions]
      exact yields_checkDraft hchecked
    obtain ⟨w, hshown⟩ := hauthored.shown
    cases (fails_ofExcept.1 h).1.symm.trans hshown

end Authoring

/-- In every history whose failing calls are undone and in which no columns are forced, each rule
has a version, and its versions are numbered 1 to `k` in the order in which they were made. The next
number is `k + 1`. So no version that is added to a rule clashes with another one, and what is
well-formed and fits into the columns is added under that number. -/
theorem version_numbers_count_up (source : EntitySource) (clock : Instant) (nextId : Nat)
    (moves : List Move) (hmoves : ∀ m ∈ moves, m.isAtomic = true ∧ m.work ≠ .forcing) :
    let s := ((Engine.fresh source clock nextId).after moves).store
    ∀ r ∈ s.rules, ∃ k : Nat, 0 < k ∧
      (s.versions.filter (·.rule == r.id)).map (·.number) = (List.range' 1 k).map Int.ofNat ∧
      ∀ caller : Caller, caller.tenant = r.tenant →
        Yields (Authoring.nextNumber caller r.id) s (k + 1) s ∧
        ∀ draft : VersionDraft,
          (∀ f s', Fails (Authoring.createVersion caller r.id draft) s f s' → f ≠ .constraint) ∧
          (Authoring.WellFormed draft → Authoring.Encodable draft → k + 1 < 0x8000000000000000 →
            ∃ v s', Yields (Authoring.createVersion caller r.id draft) s v s' ∧ v.rule = r.id ∧
              v.number = k + 1) := by
  intro s r hr
  have hfresh := Engine.fresh_intact source clock nextId
  have hs : s.Intact := Engine.after_intact hfresh moves
  have hnumbered : s.Numbered := Engine.after_numbered hfresh nofun hmoves
  obtain ⟨k, hk, hnumbers⟩ := hnumbered r hr
  have hnext := hs.nextNumber_eq hr hk hnumbers
  have hfree : Authoring.Free s r.id (s.nextNumber r.tenant r.id) := fun v hrule hnumber hdraft =>
    hnumbered.next_clashes_none hs hr hrule hnumber hdraft
  refine ⟨k, hk, hnumbers, fun caller htenant => ⟨?_, fun draft => ⟨?_, ?_⟩⟩⟩
  · unfold Authoring.nextNumber
    rw [yields_get_bind, yields_pure, htenant, hnext]
    exact ⟨rfl, rfl⟩
  · exact fun f s' h => (Authoring.fails_createVersion hs hr htenant.symm hfree h).1
  · intro hwell hencodable hwidth
    rcases yields_or_fails (Authoring.createVersion caller r.id draft) s with
      ⟨w, s', hrun⟩ | ⟨f, s', hfails⟩
    · obtain ⟨-, -, -, -, v, hrule, hnumber, -, -, hshown⟩ := Authoring.yields_createVersion hrun
      have hw := Version.eq_of_shown hshown
      refine ⟨w, s', hrun, (congrArg Version.rule hw).trans hrule, ?_⟩
      exact (congrArg Version.number hw).trans (hnumber.trans (htenant ▸ hnext))
    · have hwide := Authoring.fails_createVersion hs hr htenant.symm hfree hfails
      have hout := hwide.2 hwell hencodable
      rw [hnext] at hout
      omega

/-- While the second version of a rule waits to replace the first, the two are numbered 1 and 2. -/
theorem version_numbers_count_up_renewal :
    let s := ((Engine.fresh .absent default 0).after renewal).store
    s.versions.map (fun v => (v.rule, v.number)) = [(⟨1⟩, 1), (⟨1⟩, 2)] ∧
      ∀ r ∈ s.rules, ∃ k : Nat, 0 < k ∧
        (s.versions.filter (·.rule == r.id)).map (·.number) = (List.range' 1 k).map Int.ofNat := by
  refine ⟨by cbv, fun r hr => ?_⟩
  obtain ⟨k, hk, hnumbers, -⟩ :=
    version_numbers_count_up .absent default 0 renewal (by decide) r hr
  exact ⟨k, hk, hnumbers⟩

end Rulebook
