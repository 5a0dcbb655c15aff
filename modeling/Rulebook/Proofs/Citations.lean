import Mathlib.Data.List.Induction
import Rulebook.Proofs.Store.Lasting
import Rulebook.Proofs.Tenancy.Rules

/-!
Regulations that rules cite. A rule is made by one call of its tenant, which looks up the pack of
the rule, but not the regulation that the rule cites: the call fails or goes through whatever is
cited (`Authoring.createRule_answer`). Both references are those of the draft, for good
(`Engine.Makes.kept`), and no rule comes into being otherwise (`Engine.made_of_mem`). So a citation
leads to a regulation of the tenant of its rule exactly if the call that made the rule named one
(`citations_backed_iff`).
-/
namespace Rulebook

open Txn

variable {c : Impact.Circumstances} {w : Work} {α β : Type} {s t : Store} {caller : Caller}
  {draft : RuleDraft} {first : VersionDraft} {rule : Uuid}

/-! ## Rules of a store -/

/-- Rules come into being by authoring only. -/
theorem Change.rules_become (h : Change c w s t) (hw : w ≠ .authoring) :
    ∀ q ∈ t.rules, ∃ r ∈ s.rules, r.Becomes q := by
  intro q hq
  cases h with
  | ruleAdded => exact absurd rfl hw
  | ruleSaved old =>
    rcases mem_replaceRow.1 hq with ⟨rfl, -⟩ | ⟨hq, -⟩
    · exact ⟨_, old, _, _, _, rfl⟩
    · exact ⟨q, hq, .refl q⟩
  | _ => exact ⟨q, hq, .refl q⟩

theorem Changes.rules_become (h : Changes c w s t) (hw : w ≠ .authoring) :
    ∀ q ∈ t.rules, ∃ r ∈ s.rules, r.Becomes q := by
  induction h with
  | refl => exact fun q hq => ⟨q, hq, .refl q⟩
  | tail _ last ih =>
    intro q hq
    obtain ⟨p, hp, hbecomes⟩ := last.rules_become hw q hq
    obtain ⟨r, hr, hbecame⟩ := ih p hp
    exact ⟨r, hr, hbecame.trans hbecomes⟩

/-! ## Transactions that ignore the rules -/

namespace Txn

/-- With other rules in the store the same is done: the rules are neither looked at nor touched. -/
def IgnoresRules (x : Txn α) : Prop :=
  ∀ (s : Store) (rules : List Rule),
    (x { s with rules } : Except Failure α × Store) = ((x s).1, { (x s).2 with rules })

theorem IgnoresRules.within {x : Txn α} (hx : IgnoresRules x) :
    Within (Store.Keeps fun s => s.rules) x := by
  intro s
  show (x s).2.rules = s.rules
  exact congrArg (fun run => run.2.rules) (hx s s.rules)

theorem Blind.ignoresRules {x : Txn α} (hx : Blind x) : IgnoresRules x := by
  obtain ⟨r, rfl⟩ := hx
  intro s rules
  cases r <;> rfl

theorem IgnoresRules.bind {x : Txn α} {f : α → Txn β} (hx : IgnoresRules x)
    (hf : ∀ a, IgnoresRules (f a)) : IgnoresRules (x >>= f) := by
  intro s rules
  rw [run_bind, run_bind, hx]
  rcases (x s : Except Failure α × Store) with ⟨e | a, t⟩
  · rfl
  · exact hf a t rules

theorem IgnoresRules.discard {x : Txn α} (hx : IgnoresRules x) : IgnoresRules (discard x) :=
  show IgnoresRules (x >>= fun _ => pure ()) from hx.bind fun _ => (blind_pure ()).ignoresRules

theorem run_get_bind (f : Store → Txn α) (s : Store) :
    ((get >>= f) s : Except Failure α × Store) = f s s := rfl

theorem ignoresRules_newRow (tenant : Uuid) : IgnoresRules (newRow tenant) := fun _ _ => rfl

theorem ignoresRules_addVersion (v : Version) : IgnoresRules (addVersion v) := by
  intro s rules
  unfold addVersion
  rw [run_get_bind, run_get_bind]
  dsimp only
  split <;> rfl

/-- Where the rest answers alike, so does the whole. -/
theorem Reads.answer_bind {x : Txn α} {f g : α → Txn β} {F : β → β} (hx : Reads x)
    (h : ∀ a, (g a s : Except Failure β × Store).1 = (f a s).1.map F) :
    ((x >>= g) s : Except Failure β × Store).1 = ((x >>= f) s).1.map F := by
  have hsame := hx s
  rw [run_bind, run_bind]
  rcases hrun : (x s : Except Failure α × Store) with ⟨e | a, t⟩ <;> rw [hrun] at hsame
  · rfl
  · rw [show t = s from hsame]
    exact h a

theorem saveVersion_keeps_rules (v : Version) (edit : VersionEdit) :
    Within (Store.Keeps fun s => s.rules) (saveVersion v edit) := by
  intro s
  unfold saveVersion
  dsimp only
  split
  · rfl
  · exact reads_get.ends_bind (refl s) fun t _ => ends_guard (refl s) fun _ => rfl

end Txn

/-! ## Making rules -/

/-- One rule is added at most. It has the references of the draft, and its pack has been found. -/
def Store.AddsRule (s : Store) (caller : Caller) (draft : RuleDraft) (t : Store) : Prop :=
  t.rules = s.rules ∨ ∃ r, t.rules = s.rules ++ [r] ∧ r.tenant = caller.tenant ∧
    r.pack = draft.pack ∧ r.regulation = draft.regulation ∧
    (draft.pack, caller.tenant) ∈ owned s.packs

/-- The view of a rule that cites something else. -/
def RuleView.citing (regulation : Option Uuid) (view : RuleView) : RuleView :=
  { view with rule := { view.rule with regulation } }

namespace Authoring

theorem ignoresRules_addDraft (rule : Uuid) (number : Int) (draft : VersionDraft) :
    IgnoresRules (addDraft caller rule number draft) := by
  unfold addDraft
  refine (blind_column _).ignoresRules.bind fun _ => ?_
  refine (blind_encoded _).ignoresRules.bind fun _ => ?_
  refine (blind_encoded? _).ignoresRules.bind fun _ => ?_
  refine (ignoresRules_newRow _).bind fun _ => ?_
  exact (ignoresRules_addVersion _).bind fun _ => (blind_pure _).ignoresRules

/-- With its first version a rule is shown alike, whatever it cites and whatever other rules there
are. -/
theorem addFirst_answer (r : Rule) (regulation : Option Uuid) (draft : VersionDraft)
    (t : Store) (rules : List Rule) :
    ((discard (addDraft caller r.id 1 draft) >>= fun _ => showRule { r with regulation })
        { t with rules } : Except Failure RuleView × Store).1 =
      ((discard (addDraft caller r.id 1 draft) >>= fun _ => showRule r) t).1.map
        (RuleView.citing regulation) := by
  rw [run_bind, run_bind, (ignoresRules_addDraft r.id 1 draft).discard t rules]
  rcases (discard (addDraft caller r.id 1 draft) t : Except Failure Unit × Store) with ⟨e | _, u⟩
  · rfl
  · show (showRule { r with regulation } { u with rules } : Except Failure RuleView × Store).1 =
      (showRule r u).1.map (RuleView.citing regulation)
    unfold showRule
    rw [run_get_bind, run_get_bind]
    unfold Store.ruleView
    have hsame : ({ u with rules } : Store).versionsOf { r with regulation }.id =
        u.versionsOf r.id := rfl
    rw [hsame]
    cases (u.versionsOf r.id).mapM Version.shown <;> rfl

/-- Whatever a rule is to cite, making it fails with the same failure or goes through with the same
answer, but for the citation. -/
theorem createRule_answer (regulation : Option Uuid) (s : Store) :
    (createRule caller { draft with regulation } first s : Except Failure RuleView × Store).1 =
      (createRule caller draft first s).1.map (RuleView.citing regulation) := by
  unfold createRule
  refine (reads_checkDraft _).answer_bind fun first => ?_
  refine (reads_own _ _ _ _).discard.answer_bind fun _ => ?_
  refine (reads_encoded _).answer_bind fun name => ?_
  refine (reads_encoded? _).answer_bind fun appliesTo => ?_
  let r : Rule := { s.nextRow caller.tenant with
    pack := draft.pack, regulation := draft.regulation, name, appliesTo, currentVersion := none
    status := .draft }
  exact addFirst_answer r regulation _ { s.pastRow with rules := s.rules ++ [r] } _

theorem createRule_addsRule (draft : RuleDraft) (first : VersionDraft) (s : Store) :
    s.AddsRule caller draft (createRule caller draft first s).2 := by
  unfold createRule
  refine (reads_checkDraft _).ends_bind (Or.inl rfl) fun first _ => ?_
  refine (reads_own _ _ _ _).discard.ends_bind (Or.inl rfl) fun _ hfound => ?_
  refine (reads_encoded _).ends_bind (Or.inl rfl) fun name _ => ?_
  refine (reads_encoded? _).ends_bind (Or.inl rfl) fun appliesTo _ => ?_
  rw [run_newRow_bind]
  obtain ⟨p, hp⟩ := yields_discard.1 hfound
  obtain ⟨hp, hid, htenant⟩ := findOwn_eq_some (yields_own.1 hp).1
  have hrest : ∀ r : Rule, Within (Store.Keeps fun s => s.rules) (do
      discard <| addDraft caller r.id 1 { first with changeNote := some (firstChangeNote : Text) }
      showRule r) := fun r =>
    (ignoresRules_addDraft _ _ _).within.discard.bind fun _ _ _ _ => (reads_showRule r).within
  exact Or.inr ⟨{ s.nextRow caller.tenant with
    pack := draft.pack, regulation := draft.regulation, name, appliesTo, currentVersion := none
    status := .draft }, hrest _ _, rfl, rfl, rfl, mem_owned.2 ⟨p, hp, hid, htenant⟩⟩

theorem createVersion_keeps_rules (rule : Uuid) (draft : VersionDraft) :
    Within (Store.Keeps fun s => s.rules) (createVersion caller rule draft) := by
  unfold createVersion
  refine (reads_checkDraft _).within.bind fun draft _ _ _ => ?_
  refine (reads_own _ _ _ _).within.bind fun r _ _ _ => ?_
  refine reads_get.within.bind fun t _ _ _ => ?_
  exact (ignoresRules_addDraft _ _ _).within.bind fun v _ _ _ => (reads_showVersion v).within

theorem updateVersion_keeps_rules (version : Uuid) (change : VersionChange) :
    Within (Store.Keeps fun s => s.rules) (updateVersion caller version change) := by
  unfold updateVersion
  refine (reads_own _ _ _ _).within.bind fun v _ _ _ s => ends_guard (refl s) fun _ => ?_
  refine Within.bind (reads_optionForM reads_checkConditions _).within (fun _ _ _ _ => ?_) s
  refine (reads_optionForM (fun a => (reads_checkActions a).discard) _).within.bind
    fun _ _ _ _ => ?_
  refine (reads_encoded? _).within.bind fun severity _ _ _ => ?_
  refine (reads_encoded? _).within.bind fun changeNote _ _ _ => ?_
  exact (saveVersion_keeps_rules v _).bind fun v _ _ _ => (reads_showVersion v).within

end Authoring

/-! ## Rules of a history -/

namespace Engine

variable {e : Engine} {settings : Settings} {moves before : List Move} {m : Move} {q : Rule}

/-- Rules that a move finds may become others, and new ones come from calls that make rules. -/
theorem move_rules (hs : e.store.Intact) (hq : q ∈ (e.move m).store.rules) :
    (∃ r ∈ e.store.rules, r.Becomes q) ∨
      ∃ settings caller draft first, m = .call settings caller (.createRule draft first) := by
  have hchanges := move_changes hs m
  by_cases hauthoring : m.work = .authoring
  · have hkept : (e.move m).store.rules = e.store.rules → ∃ r ∈ e.store.rules, r.Becomes q :=
      fun h => ⟨q, h ▸ hq, .refl q⟩
    cases m with
    | call settings caller call =>
      cases call with
      | createRule draft first => exact Or.inr ⟨settings, caller, draft, first, rfl⟩
      | createVersion rule draft =>
        exact Or.inl (hkept (answer_ends (P := fun t => t.rules = e.store.rules) rfl
          (Authoring.createVersion_keeps_rules rule draft e.store)))
      | updateVersion version change =>
        exact Or.inl (hkept (answer_ends (P := fun t => t.rules = e.store.rules) rfl
          (Authoring.updateVersion_keeps_rules version change e.store)))
      | listRules | nextNumber | listVersions | listActive =>
        exact Or.inl (hkept (congrArg Store.rules (perform_of_looksUp rfl)))
      | _ => cases hauthoring
    | _ => cases hauthoring
  · exact Or.inl (hchanges.rules_become hauthoring q hq)

/-- Undone or not, a call answers what its body does. -/
theorem answer_result {form : α → Answer} {body : Txn α} : (e.answer settings form body).1 =
    (body e.store : Except Failure α × Store).1.map form := by
  have hmap : ((form <$> body) e.store : Except Failure Answer × Store).1 =
      (body e.store : Except Failure α × Store).1.map form := by
    show ((body >>= fun a => pure (form a)) e.store : Except Failure Answer × Store).1 = _
    rw [run_bind]
    rcases (body e.store : Except Failure α × Store) with ⟨_ | _, _⟩ <;> rfl
  rw [← hmap]
  show ((if settings.statementwise then form <$> body else undoing (form <$> body)) e.store :
    Except Failure Answer × Store).1 = _
  split
  · rfl
  · rw [run_undoing]
    rcases ((form <$> body) e.store : Except Failure Answer × Store) with ⟨_ | _, _⟩ <;> rfl

/-- A call that is to make a rule of a draft fails with the same failure whatever the rule is to
cite. -/
theorem error_createRule_iff (e : Engine) (settings : Settings) (caller : Caller)
    (draft : RuleDraft) (first : VersionDraft) (regulation : Option Uuid) (f : Failure) :
    (e.perform settings caller (.createRule { draft with regulation } first)).1 = .error f ↔
      (e.perform settings caller (.createRule draft first)).1 = .error f := by
  show (e.answer settings .rule _).1 = _ ↔ (e.answer settings .rule _).1 = _
  rw [answer_result, answer_result, Authoring.createRule_answer]
  rcases (Authoring.createRule caller draft first e.store).1 with g | view
  · exact Iff.rfl
  · exact iff_of_false nofun nofun

/-- After the moves `before` the next one of a history, a call, makes a rule of a draft. -/
def Makes (e : Engine) (moves before : List Move) (caller : Caller) (draft : RuleDraft)
    (rule : Uuid) : Prop :=
  ∃ settings first later,
    moves = before ++ .call settings caller (.createRule draft first) :: later ∧
    (∀ r ∈ (e.after before).store.rules, r.id ≠ rule) ∧
    ∃ r ∈ ((e.after before).perform settings caller (.createRule draft first)).2.store.rules,
      r.id = rule

/-- A new rule has the references of its draft, and its pack has been found. -/
theorem perform_createRule_new {r : Rule}
    (hr : r ∈ (e.perform settings caller (.createRule draft first)).2.store.rules)
    (hnew : ∀ q ∈ e.store.rules, q.id ≠ r.id) :
    r.tenant = caller.tenant ∧ r.pack = draft.pack ∧ r.regulation = draft.regulation ∧
      (draft.pack, caller.tenant) ∈ owned e.store.packs := by
  have hadds : e.store.AddsRule caller draft
      (e.perform settings caller (.createRule draft first)).2.store :=
    answer_ends (Or.inl rfl) (Authoring.createRule_addsRule draft first e.store)
  have hold : r ∉ e.store.rules := fun h => hnew r h rfl
  rcases hadds with hsame | ⟨p, hadded, hp⟩
  · exact absurd (hsame ▸ hr) hold
  · have hr : r ∈ e.store.rules ++ [p] := hadded ▸ hr
    obtain rfl := List.mem_singleton.1 ((List.mem_append.1 hr).resolve_left hold)
    exact hp

/-- Whatever comes after the call that made it, a rule is of the tenant that made it and has the
references of the draft; its pack had been found. -/
theorem Makes.kept (hs : e.store.Intact) (h : e.Makes moves before caller draft rule) :
    (draft.pack, caller.tenant) ∈ owned (e.after before).store.packs ∧
      ∃ q ∈ (e.after moves).store.rules, q.id = rule ∧ q.tenant = caller.tenant ∧
        q.pack = draft.pack ∧ q.regulation = draft.regulation := by
  obtain ⟨settings, first, later, rfl, hnew, r, hr, rfl⟩ := h
  have hbefore := after_intact hs before
  have hd : ((e.after before).perform settings caller (.createRule draft first)).2.store.Intact :=
    (perform_changes hbefore _).intact hbefore
  obtain ⟨htenant, hpack, hregulation, hfound⟩ := perform_createRule_new hr hnew
  obtain ⟨q, hq, hbecomes⟩ := (after_lasts hd later).rules.next hr
  have hlast : q ∈ (e.after (before ++ .call settings caller (.createRule draft first) ::
      later)).store.rules := by
    rw [after_append, after, List.foldl_cons]
    exact hq
  obtain ⟨_, _, _, rfl⟩ := hbecomes
  exact ⟨hfound, _, hlast, rfl, htenant, hpack, hregulation⟩

theorem Makes.concat (h : e.Makes moves before caller draft rule) (m : Move) :
    e.Makes (moves ++ [m]) before caller draft rule := by
  obtain ⟨settings, first, later, rfl, hmade⟩ := h
  refine ⟨settings, first, later ++ [m], ?_, hmade⟩
  rw [List.append_assoc, List.cons_append]

/-- Every rule has been there from the first or has been made by a call. -/
theorem made_of_mem (hs : e.store.Intact) (hq : q ∈ (e.after moves).store.rules) :
    (∃ r ∈ e.store.rules, r.id = q.id) ∨
      ∃ before caller draft, e.Makes moves before caller draft q.id := by
  induction moves using List.reverseRecOn generalizing q with
  | nil => exact Or.inl ⟨q, hq, rfl⟩
  | append_singleton ms m ih =>
    rw [after_concat] at hq
    have earlier : (∃ r ∈ (e.after ms).store.rules, r.id = q.id) →
        (∃ r ∈ e.store.rules, r.id = q.id) ∨
          ∃ before caller draft, e.Makes (ms ++ [m]) before caller draft q.id := by
      rintro ⟨r, hr, hid⟩
      rw [← hid]
      refine (ih hr).imp_right ?_
      rintro ⟨before, caller, draft, hmade⟩
      exact ⟨before, caller, draft, hmade.concat m⟩
    rcases move_rules (after_intact hs ms) hq with ⟨r, hr, _, _, _, rfl⟩ |
      ⟨settings, caller, draft, first, rfl⟩
    · exact earlier ⟨r, hr, rfl⟩
    · by_cases hold : ∃ r ∈ (e.after ms).store.rules, r.id = q.id
      · exact earlier hold
      · refine Or.inr ⟨ms, caller, draft, settings, first, [], rfl, ?_, q, hq, rfl⟩
        exact fun r hr hid => hold ⟨r, hr, hid⟩

end Engine

/-! ## Regulations -/

/-- The regulations of `t` that `s` does not have got identifiers that `s` had not given out. -/
structure Store.AddsRegulations (s t : Store) : Prop where
  nextId_le : s.nextId ≤ t.nextId
  new : ∀ g ∈ t.regulations, g ∈ s.regulations ∨ s.nextId ≤ g.id.number

theorem Store.AddsRegulations.refl (s : Store) : s.AddsRegulations s :=
  ⟨Nat.le_refl _, fun _ => Or.inl⟩

theorem Store.AddsRegulations.trans {u : Store} (h : s.AddsRegulations t)
    (h' : t.AddsRegulations u) : s.AddsRegulations u where
  nextId_le := h.nextId_le.trans h'.nextId_le
  new g hg := (h'.new g hg).elim (h.new g) fun hle => Or.inr (h.nextId_le.trans hle)

theorem Change.addsRegulations (h : Change c w s t) : s.AddsRegulations t := by
  have hsame := Store.AddsRegulations.refl s
  cases h with
  | passed later => exact { hsame with nextId_le := later }
  | @regulationAdded _ g _ id =>
    have hnew : s.nextId ≤ g.id.number := by rw [id]
    exact ⟨Nat.le_succ _,
      List.forall_mem_append.2 ⟨hsame.new, List.forall_mem_singleton.2 (Or.inr hnew)⟩⟩
  | filed => exact { hsame with nextId_le := (Nat.le_succ _).trans (Nat.le_add_right _ _) }
  | runCompleted => exact { hsame with nextId_le := Nat.le_add_right _ _ }
  | packAdded | ruleAdded | versionAdded | overridden | runAdded =>
    exact { hsame with nextId_le := Nat.le_succ _ }
  | _ => exact { hsame with }

theorem Engine.after_addsRegulations {e : Engine} (hs : e.store.Intact) (moves : List Move) :
    e.store.AddsRegulations (e.after moves).store :=
  after_keeps (P := e.store.AddsRegulations) hs (.refl _) fun _ hd hadds m _ =>
    (move_changes hd m).keep hd hadds fun _ hadds last => hadds.trans last.addsRegulations

/-- What a tenant cites, if anything, is one of its regulations. -/
def Store.Backs (s : Store) (tenant : Uuid) (regulation : Option Uuid) : Prop :=
  ∀ id, regulation = some id → ∃ g ∈ s.regulations, g.id = id ∧ g.tenant = tenant

/-- Whether an identifier that has been given out is one of a regulation never changes. -/
theorem Engine.after_backs_iff {e : Engine} (hs : e.store.Intact) (moves : List Move)
    {tenant id : Uuid} (h : id.number < e.store.nextId) :
    (e.after moves).store.Backs tenant (some id) ↔ e.store.Backs tenant (some id) := by
  refine forall_congr' fun k => forall_congr' fun hk => ?_
  obtain rfl := Option.some.inj hk
  constructor
  · rintro ⟨g, hg, rfl, htenant⟩
    refine ⟨g, ((after_addsRegulations hs moves).new g hg).resolve_right ?_, rfl, htenant⟩
    exact Nat.not_le_of_lt h
  · rintro ⟨g, hg, hid, htenant⟩
    exact ⟨g, (after_lasts hs moves).regulations.subset hg, hid, htenant⟩

/-- In every history all rules have been made by calls of their tenants, which found the packs that
they named, and have the packs and the regulations that were named. So each citation leads to a
regulation of the tenant of its rule exactly if each of those calls named none or a regulation that
its tenant has; and unless the identifier had not been given out by then, the tenant has it exactly
if it had it at the time of the call. But no call that makes a rule minds what regulation it is
given. -/
theorem citations_backed_iff (source : EntitySource) (clock : Instant) (nextId : Nat)
    (moves : List Move) :
    let e := Engine.fresh source clock nextId
    let s := (e.after moves).store
    ((∀ r ∈ s.rules, s.Backs r.tenant r.regulation) ↔
      ∀ before caller draft rule, e.Makes moves before caller draft rule →
        s.Backs caller.tenant draft.regulation) ∧
    (∀ r ∈ s.rules, ∃ before caller draft, e.Makes moves before caller draft r.id) ∧
    (∀ before caller draft rule, e.Makes moves before caller draft rule →
      (draft.pack, caller.tenant) ∈ owned (e.after before).store.packs ∧
      ∃ r ∈ s.rules, r.id = rule ∧ r.tenant = caller.tenant ∧ r.pack = draft.pack ∧
        r.regulation = draft.regulation) ∧
    (∀ before later, moves = before ++ later → ∀ tenant id : Uuid,
      id.number < (e.after before).store.nextId →
      (s.Backs tenant (some id) ↔ (e.after before).store.Backs tenant (some id))) ∧
    ∀ settings caller draft first regulation f,
      ((e.after moves).perform settings caller (.createRule { draft with regulation } first)).1 =
          .error f ↔
        ((e.after moves).perform settings caller (.createRule draft first)).1 = .error f := by
  intro e s
  have hfresh := Engine.fresh_intact source clock nextId
  have hs : s.Intact := Engine.after_intact hfresh moves
  have hmade : ∀ r ∈ s.rules, ∃ before caller draft, e.Makes moves before caller draft r.id := by
    intro r hr
    refine (Engine.made_of_mem hfresh hr).resolve_left ?_
    rintro ⟨q, hq, -⟩
    cases hq
  refine ⟨⟨fun hbacked before caller draft rule h => ?_, fun hbacked r hr => ?_⟩, hmade,
    fun _ _ _ _ h => h.kept hfresh, ?_, fun _ _ _ _ _ _ => Engine.error_createRule_iff ..⟩
  · obtain ⟨-, q, hq, -, htenant, -, hregulation⟩ := h.kept hfresh
    rw [← htenant, ← hregulation]
    exact hbacked q hq
  · obtain ⟨before, caller, draft, h⟩ := hmade r hr
    obtain ⟨-, q, hq, hid, htenant, -, hregulation⟩ := h.kept hfresh
    obtain rfl := hs.rules.eq_of_id hr hq hid.symm
    rw [htenant, hregulation]
    exact hbacked before caller draft _ h
  · rintro before later rfl tenant id hid
    show (e.after (before ++ later)).store.Backs tenant (some id) ↔ _
    rw [Engine.after_append]
    exact Engine.after_backs_iff (Engine.after_intact hfresh before) later hid

/-- A tenant records a regulation, and a lender a pack. -/
def recordingMoves (owner : Uuid) : List Move :=
  [.call {} { tenant := owner } (.createRegulation { authority := "CFPB", title := "Reg X" }),
    .call {} { tenant := ⟨100⟩ } (.createPack { name := "Lending", authority := "Board" })]

def citingDraft : RuleDraft := { pack := ⟨1⟩, name := "Risk", regulation := some ⟨0⟩ }

/-- Then the lender makes a rule that cites the regulation. -/
def citingMoves (owner : Uuid) : List Move :=
  recordingMoves owner ++ [.call {} { tenant := ⟨100⟩ } (.createRule citingDraft {})]

theorem stored_recordingMoves :
    let e := Engine.fresh .absent default 0
    let s := (e.after (recordingMoves ⟨100⟩)).store
    s.rules.map (fun r => r.id) = [] ∧ s.nextId = 2 ∧
      s.regulations.map (fun g => (g.id, g.tenant)) = [(⟨0⟩, ⟨100⟩)] ∧
      (e.after (citingMoves ⟨100⟩)).store.rules.map (fun r => r.id) = [⟨2⟩] := by
  cbv

/-- A rule that cites a regulation of the lender's own. -/
theorem citations_backed_iff_own :
    let e := Engine.fresh .absent default 0
    let s := (e.after (citingMoves ⟨100⟩)).store
    e.Makes (citingMoves ⟨100⟩) (recordingMoves ⟨100⟩) { tenant := ⟨100⟩ } citingDraft ⟨2⟩ ∧
      ∃ r ∈ s.rules, r.id = ⟨2⟩ ∧ r.regulation = some ⟨0⟩ ∧ s.Backs r.tenant r.regulation := by
  intro e s
  obtain ⟨hrules, hnext, hregulations, hlater⟩ := stored_recordingMoves
  obtain ⟨r, hr, hid⟩ := exists_of_map_eq_singleton hlater
  obtain ⟨g, hg, hrow⟩ := exists_of_map_eq_singleton hregulations
  have hmade : e.Makes (citingMoves ⟨100⟩) (recordingMoves ⟨100⟩) { tenant := ⟨100⟩ } citingDraft
      ⟨2⟩ := by
    refine ⟨{}, {}, [], rfl, fun q hq => ?_, r, ?_, hid⟩
    · rw [List.map_eq_nil_iff.1 hrules] at hq
      cases hq
    · rw [citingMoves, Engine.after_concat] at hr
      exact hr
  obtain ⟨-, -, hkept, hbacks, -⟩ := citations_backed_iff .absent default 0 (citingMoves ⟨100⟩)
  obtain ⟨-, q, hq, hqid, htenant, -, hregulation⟩ := hkept _ _ _ _ hmade
  refine ⟨hmade, q, hq, hqid, hregulation, ?_⟩
  rw [htenant, hregulation]
  refine (hbacks (recordingMoves ⟨100⟩) _ rfl ⟨100⟩ ⟨0⟩ ?_).2 fun id hcited => ?_
  · exact hnext ▸ Nat.zero_lt_two
  · cases hcited
    exact ⟨g, hg, (Prod.mk.inj hrow).1, (Prod.mk.inj hrow).2⟩

theorem stored_citingMoves :
    let s := ((Engine.fresh .absent default 0).after (citingMoves ⟨200⟩)).store
    s.rules.map (fun r => (r.tenant, r.regulation)) = [(⟨100⟩, some ⟨0⟩)] ∧
      s.regulations.map (fun g => (g.id, g.tenant)) = [(⟨0⟩, ⟨200⟩)] := by
  cbv

/-- The rule is made as well where the regulation is that of another tenant. -/
theorem foreign_regulation_cited :
    let s := ((Engine.fresh .absent default 0).after (citingMoves ⟨200⟩)).store
    ¬ ∀ r ∈ s.rules, s.Backs r.tenant r.regulation := by
  intro s hbacked
  obtain ⟨hrules, hregulations⟩ := stored_citingMoves
  obtain ⟨r, hr, hrow⟩ := exists_of_map_eq_singleton hrules
  obtain ⟨g, hg, -, htenant⟩ := hbacked r hr ⟨0⟩ (Prod.mk.inj hrow).2
  have hown := List.mem_map_of_mem (f := fun g : Regulation => (g.id, g.tenant)) hg
  rw [hregulations, List.mem_singleton, Prod.mk.injEq, htenant, (Prod.mk.inj hrow).1] at hown
  cases hown.2

end Rulebook
