import Mathlib
import Rulebook.Proofs.History
import Rulebook.Proofs.Store.Frame

/-!
The life of findings. A finding is filed open, and from then on it only moves forward: open, then in
progress, then dismissed or waived. `Finding.Becomes` relates a finding to itself at a later time;
every change of a store keeps each finding in this sense (`Change.finding_becomes`), so every
history does (`Engine.after_finding_becomes`). As no finding comes back to life, moving one never
makes a second one live about the same key (`Store.Intact.moved_clashes_none`), and reviewing fails
for its own reasons only (`Review.fails_updateStatus`, `Review.fails_override`).
-/
namespace Rulebook

open Txn

variable {c : Impact.Circumstances} {w : Work} {s s' : Store} {f g : Finding} {e : Failure}

/-! ## Moving forward -/

namespace FindingStatus

variable {a b d : FindingStatus}

/-- How far a finding has come. -/
def stage : FindingStatus → Nat
  | .open => 0
  | inProgress => 1
  | dismissed | waived => 2

/-- A status is kept, or a later stage is reached. -/
def Reaches (a b : FindingStatus) : Prop := a = b ∨ a.stage < b.stage

theorem Reaches.refl : a.Reaches a := Or.inl rfl

theorem Reaches.trans (h : a.Reaches b) (h' : b.Reaches d) : a.Reaches d := by
  rcases h with rfl | h
  · exact h'
  · rcases h' with rfl | h'
    · exact Or.inr h
    · exact Or.inr (Nat.lt_trans h h')

/-- Successors are further on, and only live findings have any. -/
theorem stage_lt_successor (h : b ∈ a.successors) : a.stage < b.stage ∧ a.isLive = true := by
  cases a <;> cases b <;> first | exact ⟨by decide, rfl⟩ | exact absurd h (by decide)

/-- The last stage is never left. -/
theorem Reaches.eq_of_final (h : a.Reaches b) (hfinal : a.isLive = false) : b = a := by
  rcases h with rfl | h
  · rfl
  · have hlast : a.stage = 2 := by cases a <;> first | rfl | cases hfinal
    have hbound : b.stage ≤ 2 := by cases b <;> decide
    omega

theorem isLive_eq_false_iff : a.isLive = false ↔ a.successors.isEmpty = true := by
  cases a <;> decide

theorem mem_settled_iff : a ∈ [.dismissed, .waived] ↔ a.isLive = false := by
  cases a <;> decide

end FindingStatus

/-- `g` is `f` at a later time: the status may have moved forward, with the time of the last
change. -/
def Finding.Becomes (f g : Finding) : Prop :=
  ∃ status u, g = { f with status, updatedAt := u } ∧ f.status.Reaches status

theorem Finding.Becomes.refl : f.Becomes f := ⟨f.status, f.updatedAt, rfl, .refl⟩

theorem Finding.Becomes.trans {k : Finding} (h : f.Becomes g) (h' : g.Becomes k) :
    f.Becomes k := by
  obtain ⟨status, u, rfl, hreaches⟩ := h
  obtain ⟨status', u', rfl, hreaches'⟩ := h'
  exact ⟨status', u', rfl, hreaches.trans hreaches'⟩

theorem Finding.Becomes.id_eq (h : f.Becomes g) : g.id = f.id := by
  obtain ⟨_, _, rfl, -⟩ := h
  rfl

theorem Finding.Becomes.tenant_eq (h : f.Becomes g) : g.tenant = f.tenant := by
  obtain ⟨_, _, rfl, -⟩ := h
  rfl

theorem Finding.Becomes.status_reaches (h : f.Becomes g) : f.status.Reaches g.status := by
  obtain ⟨_, _, rfl, hreaches⟩ := h
  exact hreaches

/-! ## Changes and histories -/

/-- No change loses a finding or moves one back. -/
theorem Change.finding_becomes (h : Change c w s s') (hs : s.Intact) (hf : f ∈ s.findings) :
    ∃ g ∈ s'.findings, f.Becomes g := by
  rcases h.findings_cases with hsame | ⟨q, -, -, hadded⟩ | ⟨p, hp, status, u, hnext, hmoved⟩
  · rw [hsame]
    exact ⟨f, hf, .refl⟩
  · rw [hadded]
    exact ⟨f, List.mem_append_left _ hf, .refl⟩
  · rw [hmoved]
    by_cases hid : f.id = p.id
    · have heq : f = p := hs.findings.eq_of_id hf hp hid
      have hreaches : f.status.Reaches status := by
        rw [heq]
        exact Or.inr (FindingStatus.stage_lt_successor hnext).1
      have hin : { p with status, updatedAt := u } ∈
          replaceRow s.findings { p with status, updatedAt := u } := mem_replaceRow_self hp rfl
      refine ⟨_, hin, status, u, ?_, hreaches⟩
      rw [heq]
    · exact ⟨f, mem_replaceRow_of_ne hf hid, .refl⟩

theorem Changes.finding_becomes (h : Changes c w s s') (hs : s.Intact) (hf : f ∈ s.findings) :
    ∃ g ∈ s'.findings, f.Becomes g := by
  refine h.keep (P := fun t => ∃ g ∈ t.findings, f.Becomes g) hs ⟨f, hf, .refl⟩ ?_
  rintro t t' ht ⟨g, hg, hbecomes⟩ last
  obtain ⟨k, hk, hbecomes'⟩ := last.finding_becomes ht hg
  exact ⟨k, hk, hbecomes.trans hbecomes'⟩

/-- A finding is found after any moves again, no less far on. -/
theorem Engine.after_finding_becomes {e : Engine} (hs : e.store.Intact) (hf : f ∈ e.store.findings)
    (moves : List Move) : ∃ g ∈ (e.after moves).store.findings, f.Becomes g := by
  refine after_keeps (P := fun t => ∃ g ∈ t.findings, f.Becomes g) hs ⟨f, hf, .refl⟩ ?_
  rintro d hd ⟨g, hg, hbecomes⟩ m -
  obtain ⟨k, hk, hbecomes'⟩ := (move_changes hd m).finding_becomes hd hg
  exact ⟨k, hk, hbecomes.trans hbecomes'⟩

/-! ## Live findings -/

theorem Store.Intact.one_live (hs : s.Intact) (key : FindingKey) :
    (s.findings.filter fun f => f.isLiveFor key).length ≤ 1 := by
  refine hs.findings.length_filter_le_one fun f hf g hg hlive hlive' => ?_
  simp only [Finding.isLiveFor, Bool.and_eq_true, beq_iff_eq] at hlive hlive'
  by_contra hne
  exact Finding.not_clashes_iff.1 (hs.oneLive f hf g hg) hne hlive.1 hlive'.1
    (hlive.2.trans hlive'.2.symm)

/-- What moves on was live before, so it has been the only one about its key already. -/
theorem Store.Intact.moved_clashes_none (hs : s.Intact) (hf : f ∈ s.findings)
    {status : FindingStatus} (hnext : status ∈ f.status.successors) :
    ∀ g ∈ s.findings, ({ f with status } : Finding).clashes g = false := by
  intro g hg
  rw [Finding.not_clashes_iff]
  intro hne _ hlive
  have hflive := (FindingStatus.stage_lt_successor hnext).2
  have hkey : f.key ≠ g.key := Finding.not_clashes_iff.1 (hs.oneLive f hf g hg) hne hflive hlive
  exact hkey

theorem Txn.saveFindingStatus_goes_through {status : FindingStatus}
    (h : f.status ≠ status → ∀ g ∈ s.findings, ({ f with status } : Finding).clashes g = false) :
    ∃ g s', Yields (saveFindingStatus f status) s g s' := by
  by_cases heq : f.status = status
  · exact ⟨f, s, yields_saveFindingStatus.2 (Or.inl ⟨heq, rfl, rfl⟩)⟩
  · exact ⟨_, _, yields_saveFindingStatus.2 (Or.inr ⟨heq, h heq, rfl, rfl⟩)⟩

theorem Txn.not_fails_showFinding : ¬ Fails (showFinding f) s e s' := by
  intro h
  cases h

/-! ## Failing reviews -/

namespace Review

variable {caller : Caller} {id : Uuid}

/-- Moving a finding fails for a text that names no status, for a finding that is not there, and for
a move that is not allowed. -/
theorem fails_updateStatus (hs : s.Intact) {label : Text}
    (h : Fails (updateStatus caller id label) s e s') :
    s' = s ∧ (e = .unknownFindingStatus label ∨ e = .notFound .finding id ∨
      ∃ f ∈ s.findings, f.id = id ∧ f.tenant = caller.tenant ∧ ∃ status,
        label.string?.bind FindingStatus.ofLabel? = some status ∧ status ∉ f.status.successors ∧
        e = .findingMove id f.status status) := by
  unfold updateStatus at h
  cases hstatus : label.string?.bind FindingStatus.ofLabel? with
  | none =>
    rw [hstatus] at h
    obtain ⟨he, hsame⟩ := fails_throw.1 h
    exact ⟨hsame, Or.inl he⟩
  | some status =>
    rw [hstatus] at h
    rcases fails_own_bind.1 h with ⟨-, he, hsame⟩ | ⟨f, hfound, h⟩
    · exact ⟨hsame, Or.inr (Or.inl he)⟩
    · obtain ⟨hf, hid, htenant⟩ := findOwn_eq_some hfound
      split at h
      · next hnext =>
        have hclash := hs.moved_clashes_none hf (List.contains_iff_mem.1 hnext)
        obtain ⟨g, t, hsaved⟩ := saveFindingStatus_goes_through fun _ => hclash
        rcases fails_bind.1 h with h | ⟨_, _, -, h⟩
        · exact absurd h (not_fails_yields hsaved)
        · exact absurd h not_fails_showFinding
      · next hnext =>
        obtain ⟨he, hsame⟩ := fails_throw.1 h
        refine ⟨hsame, Or.inr (Or.inr ⟨f, hf, hid, htenant, status, rfl, ?_, he⟩)⟩
        exact fun hin => hnext (List.contains_iff_mem.2 hin)

/-- Overriding fails for a finding that is not there or is settled, and for texts that no column
takes. -/
theorem fails_override (hs : s.Intact) {draft : OverrideDraft}
    (h : Fails (override caller id draft) s e s') :
    s' = s ∧ (e = .notFound .finding id ∨
      (∃ f ∈ s.findings, f.id = id ∧ f.tenant = caller.tenant ∧ f.status.isLive = false ∧
        e = .findingClosed id f.status) ∨
      ∃ t, e = .unencodable t) := by
  unfold override at h
  rcases fails_own_bind.1 h with ⟨-, he, hsame⟩ | ⟨f, hfound, h⟩
  · exact ⟨hsame, Or.inl he⟩
  obtain ⟨hf, hid, htenant⟩ := findOwn_eq_some hfound
  rcases fails_guard.1 h with ⟨hclosed, he, hsame⟩ | ⟨hopen, h⟩
  · refine ⟨hsame, Or.inr (Or.inl ⟨f, hf, hid, htenant, ?_, he⟩)⟩
    exact FindingStatus.isLive_eq_false_iff.2 hclosed
  rcases (reads_encoded _).fails_bind.1 h with ⟨h, hsame⟩ | ⟨action, -, h⟩
  · exact ⟨hsame, Or.inr (Or.inr ⟨_, (fails_encoded h).1⟩)⟩
  rcases (reads_encoded? _).fails_bind.1 h with ⟨h, hsame⟩ | ⟨code, -, h⟩
  · exact ⟨hsame, Or.inr (Or.inr (fails_encoded? h).1)⟩
  rcases (reads_encoded? _).fails_bind.1 h with ⟨h, hsame⟩ | ⟨reason, -, h⟩
  · exact ⟨hsame, Or.inr (Or.inr (fails_encoded? h).1)⟩
  -- From here on nothing fails: the override is recorded, and the finding follows it.
  unfold Fails at h
  rw [run_now_bind, run_newRow_bind] at h
  rcases fails_bind.1 h with h | ⟨_, t, hadded, h⟩
  · cases h
  have hclash : f.status ≠ .ofOverride action → ∀ g ∈ t.findings,
      ({ f with status := .ofOverride action } : Finding).clashes g = false := by
    intro hne
    rw [yields_modify.1 hadded]
    refine hs.moved_clashes_none hf ((ofOverride_follows action ?_).resolve_left hne)
    exact fun hnone => hopen (by rw [hnone]; rfl)
  obtain ⟨g, u, hsaved⟩ := saveFindingStatus_goes_through hclash
  rcases fails_bind.1 h with h | ⟨_, _, -, h⟩
  · exact absurd h (not_fails_yields hsaved)
  · rcases fails_bind.1 h with h | ⟨_, _, -, h⟩
    · exact absurd h not_fails_showFinding
    · exact absurd h not_fails_pure

end Review

/-! ## The life of findings -/

/-- After any calls by anyone, under any settings, there is at most one live finding about a key,
and every status is one of the four. Whatever happens from there on, each finding remains, changes
in status and time of change only, and moves forward until it is settled, which is final. Reviews
fail for their own reasons only, never for a second live finding. -/
theorem findings_move_forward (source : EntitySource) (clock : Instant) (nextId : Nat)
    (before later : List Move) :
    let s := ((Engine.fresh source clock nextId).after before).store
    let t := ((Engine.fresh source clock nextId).after (before ++ later)).store
    (∀ key, (s.findings.filter fun f => f.isLiveFor key).length ≤ 1) ∧
    (∀ f ∈ s.findings, f.status.label ∈ ["open", "in_progress", "dismissed", "waived"]) ∧
    (∀ f ∈ s.findings, ∃ g ∈ t.findings, (∀ q ∈ t.findings, q.id = f.id → q = g) ∧
      f.Becomes g ∧ (f.status ∈ [.dismissed, .waived] → g.status = f.status)) ∧
    (∀ caller id label e s', Fails (Review.updateStatus caller id label) s e s' →
      s' = s ∧ (e = .unknownFindingStatus label ∨ e = .notFound .finding id ∨
        ∃ f ∈ s.findings, f.id = id ∧ f.tenant = caller.tenant ∧ ∃ status,
          label.string?.bind FindingStatus.ofLabel? = some status ∧
          status ∉ f.status.successors ∧ e = .findingMove id f.status status)) ∧
    ∀ caller id draft e s', Fails (Review.override caller id draft) s e s' →
      s' = s ∧ (e = .notFound .finding id ∨
        (∃ f ∈ s.findings, f.id = id ∧ f.tenant = caller.tenant ∧ f.status.isLive = false ∧
          e = .findingClosed id f.status) ∨
        ∃ text, e = .unencodable text) := by
  intro s t
  have hfresh := Engine.fresh_intact source clock nextId
  have hs : s.Intact := Engine.after_intact hfresh before
  have ht : t.Intact := Engine.after_intact hfresh (before ++ later)
  refine ⟨hs.one_live, fun f _ => ?_, fun f hf => ?_, fun _ _ _ _ _ => Review.fails_updateStatus hs,
    fun _ _ _ _ _ => Review.fails_override hs⟩
  · cases f.status <;> decide
  · obtain ⟨g, hg, hbecomes⟩ := Engine.after_finding_becomes hs hf later
    rw [← Engine.after_append] at hg
    refine ⟨g, hg, fun q hq hid => ?_, hbecomes, fun hfinal => ?_⟩
    · exact ht.findings.eq_of_id hq hg (hid.trans hbecomes.id_eq.symm)
    · refine hbecomes.status_reaches.eq_of_final ?_
      rcases List.mem_pair.1 hfinal with h | h <;> rw [h] <;> rfl

/-- A finding that is filed and dismissed. -/
def dismissal : List Move :=
  [.file {}
      { tenant := ⟨100⟩, entityType := "loan", entityId := "7", pack := none, rule := ⟨1⟩
        version := ⟨2⟩, details := [] }
      { finding := {}, tasks := [] },
    .call {} { tenant := ⟨100⟩ } (.updateStatus ⟨0⟩ "dismissed")]

theorem statuses_dismissal :
    ((Engine.fresh .absent default 0).after dismissal).store.findings.map (fun f => f.status) =
      [.dismissed] := by
  cbv

/-- It stays dismissed. -/
theorem findings_move_forward_dismissed :
    ∀ later, ∀ f ∈ ((Engine.fresh .absent default 0).after dismissal).store.findings,
      f.status = .dismissed ∧
      ∃ g ∈ ((Engine.fresh .absent default 0).after (dismissal ++ later)).store.findings,
        f.Becomes g ∧ g.status = .dismissed := by
  intro later f hf
  have hstatus : f.status = .dismissed := by
    have hmem := List.mem_map_of_mem (f := fun f : Finding => f.status) hf
    rw [statuses_dismissal] at hmem
    exact List.mem_singleton.1 hmem
  obtain ⟨g, hg, -, hbecomes, hfinal⟩ :=
    (findings_move_forward .absent default 0 dismissal later).2.2.1 f hf
  refine ⟨hstatus, g, hg, hbecomes, (hfinal ?_).trans hstatus⟩
  rw [hstatus]
  exact List.mem_cons_self ..

end Rulebook
