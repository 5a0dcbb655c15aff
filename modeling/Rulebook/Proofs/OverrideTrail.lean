import Mathlib
import Rulebook.Proofs.CreationOrder
import Rulebook.Proofs.FindingLife

/-!
The trail of overrides that a finding has. Each override that goes through adds its record at the
end, and nothing else adds one (`Engine.move_trail`), so a trail grows by what the override calls
have answered. It is listed by the times of approval; as the clock has gone on between any two of
them, that is the order in which they were made (`Review.yields_listOverrides`). A status decided on
is only left for a later stage; as a dismissal or a waiver is final, no override goes through after
one. Trail and status agree in this sense throughout (`Finding.Heeds`, `Engine.after_heeds`), though
status moves leave no record.
-/
namespace Rulebook

open Txn

variable {c : Impact.Circumstances} {w : Work} {s s' : Store} {f g : Finding}

/-! ## Trails -/

/-- An override as it is stored: its expiry loses the offset. -/
def Override.stored (o : Override) : Override :=
  { o with expiresAt := o.expiresAt.map fun m => { m with offset := none } }

/-- The overrides of a finding in the order in which they were made. -/
def Store.trail (s : Store) (finding : Uuid) : List Override :=
  s.overrides.filter fun o => o.finding == finding

/-- Who may see a finding is shown all of its trail, and by times of approval it stands as it was
made. -/
theorem Review.yields_listOverrides (hs : s.Intact) (hc : s.Chronological) (hf : f ∈ s.findings)
    {caller : Caller} (htenant : caller.tenant = f.tenant) :
    Yields (listOverrides caller f.id) s (s.trail f.id) s := by
  have hfound : findOwn s.findings caller.tenant f.id = some f := by
    rw [htenant]
    exact hs.findings.findOwn_eq hf
  have htrail : s.trail f.id =
      (ownRows s.overrides caller.tenant).filter fun o => o.finding == f.id := by
    rw [Store.trail, ownRows, List.filter_filter]
    refine List.filter_congr fun o ho => ?_
    obtain ⟨q, hq, hid, hown⟩ := mem_owned.1 (hs.overrideFinding o ho)
    by_cases heq : o.finding = f.id
    · rw [hs.findings.eq_of_id hq hf (hid.trans heq)] at hown
      simp [heq, htenant, ← hown]
    · simp [heq]
  have hlisted := (hc.overrides.listed (List.filter_sublist (p := fun o => o.finding == f.id))).1
  rw [show s.overrides.filter (fun o => o.finding == f.id) = _ from htrail] at hlisted
  unfold listOverrides
  refine yields_bind.2 ⟨(), s, yields_discard.2 ⟨f, yields_own.2 ⟨hfound, rfl⟩⟩, ?_⟩
  exact yields_get_bind.2 (yields_pure.2 ⟨htrail.trans hlisted.symm, rfl⟩)

/-- No two overrides of a trail were approved at the same time. -/
theorem Store.Chronological.trail_ascending (hc : s.Chronological) (id : Uuid) :
    (s.trail id).Pairwise fun o p => o.approvedAt.micros < p.approvedAt.micros :=
  ((List.pairwise_map (f := fun o : Override => o.approvedAt)).1 hc.overrides.ascending).sublist
    List.filter_sublist

/-- What is not stored has no trail. -/
theorem Store.Intact.trail_eq_nil (hs : s.Intact) {id : Uuid}
    (h : ∀ f ∈ s.findings, f.id ≠ id) : s.trail id = [] := by
  refine List.filter_eq_nil_iff.2 fun o ho heq => ?_
  obtain ⟨f, hf, hid, -⟩ := mem_owned.1 (hs.overrideFinding o ho)
  exact h f hf (hid.trans (eq_of_beq heq))

/-! ## Trails and statuses -/

namespace FindingStatus

theorem ofOverride_eq_inProgress_iff {action : String} :
    ofOverride action = inProgress ↔ action ≠ "dismiss" ∧ action ≠ "waive" := by
  unfold ofOverride
  split_ifs <;> simp_all

theorem ofOverride_not_reaches_open {action : String} : ¬ (ofOverride action).Reaches .open := by
  unfold ofOverride
  split_ifs <;> simp [Reaches, stage]

/-- What an override that leaves a finding live asks for. -/
theorem ofOverride_of_reaches {action : String} {a : FindingStatus}
    (h : (ofOverride action).Reaches a) (hlive : a.isLive = true) :
    ofOverride action = inProgress := by
  unfold ofOverride at h ⊢
  split_ifs at h ⊢
  · rw [h.eq_of_final rfl] at hlive
    cases hlive
  · rw [h.eq_of_final rfl] at hlive
    cases hlive
  · rfl

end FindingStatus

/-- The status of a finding agrees with its trail: only the last override may have settled the
finding, and the finding is where that override has put it or further on. -/
structure Finding.Heeds (f : Finding) (trail : List Override) : Prop where
  undecided : ∀ o ∈ trail.dropLast, FindingStatus.ofOverride o.action = .inProgress
  followed : ∀ o ∈ trail.getLast?, (FindingStatus.ofOverride o.action).Reaches f.status

namespace Finding.Heeds

variable {trail : List Override}

theorem nil (f : Finding) : f.Heeds [] :=
  ⟨fun o ho => (by cases ho), fun o ho => (by cases ho)⟩

theorem becomes (h : f.Heeds trail) (hbecomes : f.Becomes g) : g.Heeds trail :=
  ⟨h.undecided, fun o ho => (h.followed o ho).trans hbecomes.status_reaches⟩

/-- No override of a live finding has settled it. -/
theorem all_undecided (h : f.Heeds trail) (hlive : f.status.isLive = true) :
    ∀ o ∈ trail, FindingStatus.ofOverride o.action = .inProgress := by
  intro o ho
  rcases List.eq_nil_or_concat trail with rfl | ⟨earlier, last, rfl⟩
  · cases ho
  · rw [List.concat_eq_append] at h ho
    rcases List.mem_append.1 ho with ho | ho
    · exact h.undecided o (by rw [List.dropLast_concat]; exact ho)
    · rw [List.mem_singleton.1 ho]
      exact FindingStatus.ofOverride_of_reaches (h.followed last (by simp)) hlive

/-- What the last override has settled is settled. -/
theorem settled (h : f.Heeds trail) {o : Override} (ho : o ∈ trail.getLast?) :
    (o.action = "dismiss" → f.status = .dismissed) ∧
      (o.action = "waive" → f.status = .waived) := by
  have hreaches := h.followed o ho
  constructor <;> intro haction <;> rw [haction] at hreaches
  · exact hreaches.eq_of_final rfl
  · exact hreaches.eq_of_final rfl

theorem not_open (h : f.Heeds trail) (hsome : trail ≠ []) : f.status ≠ .open := by
  intro hopen
  have hlast := h.followed _ (List.getLast?_eq_some_getLast hsome)
  rw [hopen] at hlast
  exact FindingStatus.ofOverride_not_reaches_open hlast

/-- An override of a live finding that sets its status may be added. -/
theorem concat (h : f.Heeds trail) (hlive : f.status.isLive = true) {o : Override}
    (hstatus : g.status = .ofOverride o.action) : g.Heeds (trail ++ [o]) := by
  constructor
  · rw [List.dropLast_concat]
    exact h.all_undecided hlive
  · intro q hq
    rw [List.getLast?_concat] at hq
    rw [← Option.some.inj hq, hstatus]
    exact .refl

end Finding.Heeds

/-- Where its trail has not grown, the status of a finding goes on agreeing with it. -/
theorem Changes.heeds (h : Changes c w s s') (hs : s.Intact)
    (hheeds : ∀ f ∈ s.findings, f.Heeds (s.trail f.id)) (hg : g ∈ s'.findings)
    (hsame : s'.trail g.id = s.trail g.id) : g.Heeds (s'.trail g.id) := by
  rw [hsame]
  by_cases hold : ∃ f ∈ s.findings, f.id = g.id
  · obtain ⟨f, hf, hid⟩ := hold
    obtain ⟨q, hq, hbecomes⟩ := h.finding_becomes hs hf
    rw [(h.intact hs).findings.eq_of_id hg hq (hid.symm.trans hbecomes.id_eq.symm), hbecomes.id_eq]
    exact (hheeds f hf).becomes hbecomes
  · rw [hs.trail_eq_nil fun f hf hid => hold ⟨f, hf, hid⟩]
    exact .nil g

/-! ## Reviews -/

/-- Only reviews write to the overrides. -/
theorem Store.Written.overrides_eq (h : s.Written w s') (hw : w ≠ .review) :
    s'.overrides = s.overrides := by
  cases w with
  | review => exact absurd rfl hw
  | _ =>
    have hsame := congrArg Store.overrides h
    exact hsame

theorem Txn.within_saveFindingStatus (f : Finding) (status : FindingStatus) :
    Within (Store.Keeps Store.overrides) (saveFindingStatus f status) := by
  intro s
  unfold saveFindingStatus
  dsimp only
  split
  · rfl
  · exact reads_get.ends_bind rfl fun _ _ => ends_guard rfl fun _ => rfl

namespace Review

variable {caller : Caller} {id : Uuid}

theorem within_updateStatus (label : Text) :
    Within (Store.Keeps Store.overrides) (updateStatus caller id label) := by
  unfold updateStatus
  split
  · exact (reads_throw _).within
  · refine (reads_own _ _ _ _).within.bind fun f _ _ _ => ?_
    split
    · exact (within_saveFindingStatus f _).bind fun moved _ _ _ =>
        (reads_showFinding moved).within
    · exact (reads_throw _).within

/-- An override is of a live finding, is recorded, and sets the status. -/
theorem yields_override (hs : s.Intact) {draft : OverrideDraft} {view : OverrideView}
    (h : Yields (override caller id draft) s view s') :
    ∃ f ∈ s.findings, f.id = id ∧ f.status.isLive = true ∧ view.override.finding = id ∧
      s'.overrides = s.overrides ++ [view.override.stored] ∧
      ∀ g ∈ s'.findings, g.id = id → g.status = .ofOverride view.override.action := by
  unfold override at h
  obtain ⟨f, hfound, h⟩ := yields_own_bind.1 h
  obtain ⟨hf, rfl, htenant⟩ := findOwn_eq_some hfound
  obtain ⟨hopen, h⟩ := yields_guard.1 h
  have hlive : f.status.isLive = true := by
    rw [← Bool.not_eq_false, FindingStatus.isLive_eq_false_iff]
    exact hopen
  obtain ⟨action, -, h⟩ := (reads_encoded _).yields_bind.1 h
  obtain ⟨code, -, h⟩ := (reads_encoded? _).yields_bind.1 h
  obtain ⟨reason, -, h⟩ := (reads_encoded? _).yields_bind.1 h
  rw [yields_now_bind, yields_newRow_bind] at h
  obtain ⟨_, t, hadded, h⟩ := yields_bind.1 h
  obtain ⟨moved, u, hsaved, h⟩ := yields_bind.1 h
  obtain ⟨shown, hshown, h⟩ := (reads_showFinding moved).yields_bind.1 h
  obtain ⟨rfl, rfl⟩ := yields_pure.1 h
  rw [yields_modify.1 hadded] at hsaved
  refine ⟨f, hf, rfl, hlive, rfl, ?_⟩
  rcases yields_saveFindingStatus.1 hsaved with ⟨hsame, -, rfl⟩ | ⟨-, -, rfl, rfl⟩
  · refine ⟨rfl, fun g hg hid => ?_⟩
    rw [hs.findings.eq_of_id hg hf hid]
    exact hsame
  · refine ⟨rfl, fun g hg hid => ?_⟩
    rcases mem_replaceRow.1 hg with ⟨rfl, -⟩ | ⟨-, hne⟩
    · rfl
    · exact absurd hid hne

end Review

/-! ## Moves -/

namespace Engine

variable {e : Engine} {id : Uuid}

/-- What a move adds to the trail of a finding: the override that it answers, as it is stored. -/
def recordedBy (e : Engine) (finding : Uuid) : Move → List Override
  | .call settings caller (.override id draft) =>
    if id = finding then
      match (e.perform settings caller (.override id draft)).1 with
      | .ok (.override view) => [view.override.stored]
      | _ => []
    else []
  | _ => []

/-- What moves add to the trail of a finding, one after the other. -/
def recorded (e : Engine) (finding : Uuid) : List Move → List Override
  | [] => []
  | m :: rest => e.recordedBy finding m ++ (e.move m).recorded finding rest

/-- An override goes through or leaves everything as it was, also where nothing is undone. -/
theorem perform_override (hs : e.store.Intact) (settings : Settings) (caller : Caller) (id : Uuid)
    (draft : OverrideDraft) :
    (∃ view s', Yields (Review.override caller id draft) e.store view s' ∧
        e.perform settings caller (.override id draft) =
          (.ok (.override view), { e with store := s' })) ∨
      ∃ failure, e.perform settings caller (.override id draft) = (.error failure, e) := by
  rcases yields_or_fails (Review.override caller id draft) e.store with
    ⟨view, s', h⟩ | ⟨failure, s', h⟩
  · exact Or.inl ⟨view, s', h, transact_of_yields (yields_map.2 ⟨view, h, rfl⟩)⟩
  · obtain ⟨rfl, -⟩ := Review.fails_override hs h
    exact Or.inr ⟨failure, transact_of_fails (fails_bind.2 (Or.inl h))⟩

theorem recordedBy_eq_nil {m : Move} (h : m.work ≠ .review) : e.recordedBy id m = [] := by
  unfold recordedBy
  split
  · exact absurd rfl h
  · rfl

/-- Only an override that goes through adds to the overrides: its record, of a live finding, which
takes the status that follows. -/
theorem move_overrides (hs : e.store.Intact) (m : Move) :
    ((e.move m).store.overrides = e.store.overrides ∧ ∀ id, e.recordedBy id m = []) ∨
      ∃ f ∈ e.store.findings, ∃ o : Override, f.status.isLive = true ∧ o.finding = f.id ∧
        (e.move m).store.overrides = e.store.overrides ++ [o] ∧
        (∀ g ∈ (e.move m).store.findings, g.id = f.id → g.status = .ofOverride o.action) ∧
        ∀ id, e.recordedBy id m = if f.id = id then [o] else [] := by
  by_cases hwork : m.work = .review
  · cases m with
    | call settings caller call =>
      cases call with
      | listFindings filter =>
        refine Or.inl ⟨?_, fun _ => rfl⟩
        exact congrArg Store.overrides (answer_of_reads (Review.reads_listFindings _ filter))
      | listOverrides finding =>
        refine Or.inl ⟨?_, fun _ => rfl⟩
        exact congrArg Store.overrides (answer_of_reads (Review.reads_listOverrides finding))
      | updateStatus finding status =>
        refine Or.inl ⟨?_, fun _ => rfl⟩
        exact answer_ends (P := fun s => s.overrides = e.store.overrides) rfl
          (Review.within_updateStatus status e.store)
      | override finding draft =>
        rcases perform_override hs settings caller finding draft with
          ⟨view, s', hrun, hperform⟩ | ⟨failure, hperform⟩
        · obtain ⟨f, hf, rfl, hlive, hfinding, hadded, hstatus⟩ := Review.yields_override hs hrun
          refine Or.inr ⟨f, hf, view.override.stored, hlive, hfinding, ?_, ?_, fun id => ?_⟩
          · rw [move, hperform]
            exact hadded
          · rw [move, hperform]
            exact hstatus
          · simp only [recordedBy, hperform]
        · refine Or.inl ⟨?_, fun id => ?_⟩
          · rw [move, hperform]
          · simp only [recordedBy, hperform, ite_self]
      | _ => cases hwork
    | _ => cases hwork
  · refine Or.inl ⟨?_, fun _ => recordedBy_eq_nil hwork⟩
    exact (move_changes hs m).written.overrides_eq hwork

/-- A trail grows by what the move records, at its end. -/
theorem move_trail (hs : e.store.Intact) (m : Move) (id : Uuid) :
    (e.move m).store.trail id = e.store.trail id ++ e.recordedBy id m := by
  rcases move_overrides hs m with ⟨hsame, hnone⟩ | ⟨f, -, o, -, hfinding, hadded, -, hrecorded⟩
  · rw [Store.trail, hsame, hnone, List.append_nil, Store.trail]
  · rw [Store.trail, hadded, List.filter_append, hrecorded, List.filter_singleton, hfinding,
      Store.trail]
    simp only [beq_iff_eq, Bool.cond_eq_ite]

theorem move_heeds (hs : e.store.Intact) (m : Move)
    (h : ∀ f ∈ e.store.findings, f.Heeds (e.store.trail f.id)) :
    ∀ g ∈ (e.move m).store.findings, g.Heeds ((e.move m).store.trail g.id) := by
  intro g hg
  have htrail := move_trail hs m g.id
  rcases move_overrides hs m with ⟨-, hnone⟩ | ⟨f, hf, o, hlive, -, -, hstatus, hrecorded⟩
  · rw [hnone, List.append_nil] at htrail
    exact (move_changes hs m).heeds hs h hg htrail
  · rw [hrecorded] at htrail
    split_ifs at htrail with hid
    · rw [htrail, ← hid]
      exact (h f hf).concat hlive (hstatus g hg hid.symm)
    · rw [List.append_nil] at htrail
      exact (move_changes hs m).heeds hs h hg htrail

theorem after_trail (hs : e.store.Intact) (moves : List Move) (id : Uuid) :
    (e.after moves).store.trail id = e.store.trail id ++ e.recorded id moves := by
  induction moves generalizing e with
  | nil => exact (List.append_nil _).symm
  | cons m rest ih =>
    show ((e.move m).after rest).store.trail id = _
    rw [ih ((move_changes hs m).intact hs), move_trail hs m id, recorded, List.append_assoc]

/-- In every store of a history, statuses and trails agree. -/
theorem after_heeds (hs : e.store.Intact) (moves : List Move)
    (h : ∀ f ∈ e.store.findings, f.Heeds (e.store.trail f.id)) :
    ∀ f ∈ (e.after moves).store.findings, f.Heeds ((e.after moves).store.trail f.id) :=
  after_keeps (P := fun s => ∀ f ∈ s.findings, f.Heeds (s.trail f.id)) hs h
    fun _ hd hheeds m _ => move_heeds hd m hheeds

end Engine

/-- Whatever happens, in any mix of reviews and other calls by anyone: the listing of overrides that
a finding's tenant gets, by times of approval, only grows, and at its end only; what is added are
the records that those calls of `override` have answered which went through, in their order, and
nothing else. No two of them have the same time, so this is their only order. None but the last of
them dismisses or waives. Where the last one does, the finding is dismissed, or waived, and remains
so; and a finding that has a record is not open. -/
theorem override_trail_grows (source : EntitySource) (clock : Instant) (nextId : Nat)
    (before later : List Move) :
    let e := (Engine.fresh source clock nextId).after before
    let s := e.store
    let t := (e.after later).store
    ∀ f ∈ s.findings, ∀ caller : Caller, caller.tenant = f.tenant →
      ∃ g ∈ t.findings, (∀ q ∈ t.findings, q.id = f.id → q = g) ∧ f.Becomes g ∧
      ∃ trail, Yields (Review.listOverrides caller f.id) s trail s ∧
        Yields (Review.listOverrides caller f.id) t (trail ++ e.recorded f.id later) t ∧
        (trail ++ e.recorded f.id later).Pairwise
          (fun o p => o.approvedAt.micros < p.approvedAt.micros) ∧
        (∀ o ∈ trail.dropLast, o.action ≠ "dismiss" ∧ o.action ≠ "waive") ∧
        (∀ o ∈ trail.getLast?,
          (o.action = "dismiss" → f.status = .dismissed ∧ g.status = .dismissed) ∧
          (o.action = "waive" → f.status = .waived ∧ g.status = .waived)) ∧
        (trail ≠ [] → f.status ≠ .open) := by
  intro e s t f hf caller htenant
  have hfresh := Engine.fresh_intact source clock nextId
  have hs : s.Intact := Engine.after_intact hfresh before
  have ht : t.Intact := Engine.after_intact hs later
  have hsc : s.Chronological := Engine.after_chronological source clock nextId before
  have htc : t.Chronological := by
    rw [show t = _ from (congrArg Engine.store (Engine.after_append _ before later)).symm]
    exact Engine.after_chronological source clock nextId (before ++ later)
  have htrail : t.trail f.id = s.trail f.id ++ e.recorded f.id later :=
    Engine.after_trail hs later f.id
  obtain ⟨g, hg, hbecomes⟩ := Engine.after_finding_becomes hs hf later
  have hheeds : f.Heeds (s.trail f.id) :=
    Engine.after_heeds hfresh before (fun f hf => by cases hf) f hf
  have hshown : Yields (Review.listOverrides caller g.id) t (t.trail g.id) t :=
    Review.yields_listOverrides ht htc hg (htenant.trans hbecomes.tenant_eq.symm)
  rw [hbecomes.id_eq, htrail] at hshown
  refine ⟨g, hg, fun q hq hid => ht.findings.eq_of_id hq hg (hid.trans hbecomes.id_eq.symm),
    hbecomes, s.trail f.id, Review.yields_listOverrides hs hsc hf htenant, hshown,
    htrail ▸ htc.trail_ascending f.id, fun o ho => ?_, fun o ho => ?_, hheeds.not_open⟩
  · exact FindingStatus.ofOverride_eq_inProgress_iff.1 (hheeds.undecided o ho)
  · obtain ⟨hdismiss, hwaive⟩ := hheeds.settled ho
    obtain ⟨hdismiss', hwaive'⟩ := (hheeds.becomes hbecomes).settled ho
    exact ⟨fun h => ⟨hdismiss h, hdismiss' h⟩, fun h => ⟨hwaive h, hwaive' h⟩⟩

/-- A finding that is filed and escalated. -/
def escalation : List Move :=
  [.file {}
      { tenant := ⟨100⟩, entityType := "loan", entityId := "7", pack := none, rule := ⟨1⟩
        version := ⟨2⟩, details := [] }
      { finding := {}, tasks := [] },
    .call {} { tenant := ⟨100⟩ } (.override ⟨0⟩ { action := "escalate" })]

/-- It is dismissed, and a waiver comes too late. -/
def settlement : List Move :=
  [.call {} { tenant := ⟨100⟩ } (.override ⟨0⟩ { action := "dismiss" }),
    .call {} { tenant := ⟨100⟩ } (.override ⟨0⟩ { action := "waive" })]

/-- So the dismissal ends its trail. -/
theorem override_trail_grows_dismissed :
    let e := (Engine.fresh .absent default 0).after escalation
    let t := (e.after settlement).store
    (e.recorded ⟨0⟩ settlement).map (fun o => o.action) = ["dismiss"] ∧
      ∃ trail, trail.map (fun o => o.action) = ["escalate"] ∧
        Yields (Review.listOverrides { tenant := ⟨100⟩ } ⟨0⟩) t
          (trail ++ e.recorded ⟨0⟩ settlement) t := by
  have hstored : ((Engine.fresh .absent default 0).after escalation).store.findings.map
      (fun f => (f.id, f.tenant)) = [(⟨0⟩, ⟨100⟩)] := by cbv
  have hanswer : ((Review.listOverrides { tenant := ⟨100⟩ } ⟨0⟩
      ((Engine.fresh .absent default 0).after escalation).store :
        Except Failure (List Override) × Store).1.toOption.map fun trail =>
          trail.map fun o => o.action) = some ["escalate"] := by cbv
  obtain ⟨f, hf, heq⟩ := List.mem_map.1 (hstored ▸ List.mem_singleton_self _)
  obtain ⟨hid, htenant⟩ := Prod.ext_iff.1 heq
  obtain ⟨g, -, -, -, trail, hshown, hlater, -⟩ := override_trail_grows .absent default 0
    escalation settlement f hf { tenant := ⟨100⟩ } htenant.symm
  rw [show f.id = ⟨0⟩ from hid] at hshown hlater
  rw [show Review.listOverrides _ _ _ = _ from hshown] at hanswer
  exact ⟨by cbv, trail, Option.some.inj hanswer, hlater⟩

end Rulebook
