import Rulebook.Engine.Call
import Rulebook.Proofs.Store.Rows

/-!
What a tenant holds, table by table, and what that looks like in a store that numbers its rows
otherwise. Renaming reaches the identifier of a row and the references that the store itself has
led to rows of the same tenant; columns that a call may fill at will are left alone. Two stores that
have given out different numbers of identifiers give a new row different ones, and `Uuid.reissue`
tells which one becomes which.
-/
namespace Rulebook

/-! ## Renaming -/

def Pack.rename (ρ : Uuid → Uuid) (p : Pack) : Pack := { p with id := ρ p.id }

def Regulation.rename (ρ : Uuid → Uuid) (r : Regulation) : Regulation := { r with id := ρ r.id }

def Rule.rename (ρ : Uuid → Uuid) (r : Rule) : Rule := { r with id := ρ r.id }

def Version.rename (ρ : Uuid → Uuid) (v : Version) : Version :=
  { v with id := ρ v.id, rule := ρ v.rule }

def Finding.rename (ρ : Uuid → Uuid) (f : Finding) : Finding := { f with id := ρ f.id }

def Task.rename (ρ : Uuid → Uuid) (k : Task) : Task :=
  { k with id := ρ k.id, finding := ρ k.finding }

def Override.rename (ρ : Uuid → Uuid) (o : Override) : Override :=
  { o with id := ρ o.id, finding := ρ o.finding }

def ImpactRun.rename (ρ : Uuid → Uuid) (r : ImpactRun) : ImpactRun :=
  { r with id := ρ r.id, version := ρ r.version }

def ImpactResult.rename (ρ : Uuid → Uuid) (q : ImpactResult) : ImpactResult :=
  { q with id := ρ q.id, run := ρ q.run }

def RuleView.rename (ρ : Uuid → Uuid) (r : RuleView) : RuleView :=
  { rule := r.rule.rename ρ, versions := r.versions.map (Version.rename ρ) }

def FindingView.rename (ρ : Uuid → Uuid) (f : FindingView) : FindingView :=
  { finding := f.finding.rename ρ, tasks := f.tasks.map (Task.rename ρ) }

def OverrideView.rename (ρ : Uuid → Uuid) (o : OverrideView) : OverrideView :=
  { override := o.override.rename ρ, finding := o.finding.rename ρ }

def RunView.rename (ρ : Uuid → Uuid) (r : RunView) : RunView :=
  { run := r.run.rename ρ, results := r.results.map (ImpactResult.rename ρ) }

def Answer.rename (ρ : Uuid → Uuid) : Answer → Answer
  | pack p => pack (p.rename ρ)
  | packs ps => packs (ps.map (Pack.rename ρ))
  | regulation r => regulation (r.rename ρ)
  | regulations rs => regulations (rs.map (Regulation.rename ρ))
  | rule r => rule (r.rename ρ)
  | rules rs => rules (rs.map (RuleView.rename ρ))
  | version v => version (v.rename ρ)
  | versions vs => versions (vs.map (Version.rename ρ))
  | active vs => active (vs.map (Version.rename ρ))
  | finding f => finding (f.rename ρ)
  | findings fs => findings (fs.map (FindingView.rename ρ))
  | override o => override (o.rename ρ)
  | overrides os => overrides (os.map (Override.rename ρ))
  | run r => run (r.rename ρ)
  | runStarted r => runStarted (r.rename ρ)
  | runDetail r => runDetail (r.rename ρ)
  | entity e => entity e
  | entities es => entities es
  | number n => number n
  | flag b => flag b
  | done => done

/-- All rows of one tenant. -/
structure Holdings where
  packs : List Pack
  regulations : List Regulation
  rules : List Rule
  versions : List Version
  findings : List Finding
  tasks : List Task
  overrides : List Override
  runs : List ImpactRun
  results : List ImpactResult

def Store.holdings (s : Store) (tenant : Uuid) : Holdings where
  packs := ownRows s.packs tenant
  regulations := ownRows s.regulations tenant
  rules := ownRows s.rules tenant
  versions := ownRows s.versions tenant
  findings := ownRows s.findings tenant
  tasks := ownRows s.tasks tenant
  overrides := ownRows s.overrides tenant
  runs := ownRows s.runs tenant
  results := ownRows s.results tenant

def Holdings.rename (ρ : Uuid → Uuid) (h : Holdings) : Holdings where
  packs := h.packs.map (Pack.rename ρ)
  regulations := h.regulations.map (Regulation.rename ρ)
  rules := h.rules.map (Rule.rename ρ)
  versions := h.versions.map (Version.rename ρ)
  findings := h.findings.map (Finding.rename ρ)
  tasks := h.tasks.map (Task.rename ρ)
  overrides := h.overrides.map (Override.rename ρ)
  runs := h.runs.map (ImpactRun.rename ρ)
  results := h.results.map (ImpactResult.rename ρ)

/-! ## Renaming back -/

section Back

variable {ρ σ : Uuid → Uuid} (h : ∀ id, ρ (σ id) = id)

include h

theorem Pack.rename_rename (p : Pack) : (p.rename σ).rename ρ = p := by
  simp only [Pack.rename, h]

theorem Regulation.rename_rename (r : Regulation) : (r.rename σ).rename ρ = r := by
  simp only [Regulation.rename, h]

theorem Rule.rename_rename (r : Rule) : (r.rename σ).rename ρ = r := by
  simp only [Rule.rename, h]

theorem Version.rename_rename (v : Version) : (v.rename σ).rename ρ = v := by
  simp only [Version.rename, h]

theorem Finding.rename_rename (f : Finding) : (f.rename σ).rename ρ = f := by
  simp only [Finding.rename, h]

theorem Task.rename_rename (k : Task) : (k.rename σ).rename ρ = k := by
  simp only [Task.rename, h]

theorem Override.rename_rename (o : Override) : (o.rename σ).rename ρ = o := by
  simp only [Override.rename, h]

theorem ImpactRun.rename_rename (r : ImpactRun) : (r.rename σ).rename ρ = r := by
  simp only [ImpactRun.rename, h]

theorem ImpactResult.rename_rename (q : ImpactResult) : (q.rename σ).rename ρ = q := by
  simp only [ImpactResult.rename, h]

omit h in
theorem map_map_eq_self {α : Type} {f g : α → α} (hfg : ∀ x, f (g x) = x) (xs : List α) :
    (xs.map g).map f = xs := by
  rw [List.map_map]
  exact (List.map_congr_left fun x _ => hfg x).trans (List.map_id xs)

theorem RuleView.rename_rename (r : RuleView) : (r.rename σ).rename ρ = r := by
  simp only [RuleView.rename, Rule.rename_rename h, map_map_eq_self (Version.rename_rename h)]

theorem FindingView.rename_rename (f : FindingView) : (f.rename σ).rename ρ = f := by
  simp only [FindingView.rename, Finding.rename_rename h, map_map_eq_self (Task.rename_rename h)]

theorem OverrideView.rename_rename (o : OverrideView) : (o.rename σ).rename ρ = o := by
  simp only [OverrideView.rename, Override.rename_rename h, FindingView.rename_rename h]

theorem RunView.rename_rename (r : RunView) : (r.rename σ).rename ρ = r := by
  simp only [RunView.rename, ImpactRun.rename_rename h,
    map_map_eq_self (ImpactResult.rename_rename h)]

theorem Answer.rename_rename (a : Answer) : (a.rename σ).rename ρ = a := by
  cases a with
  | pack p => exact congrArg pack (p.rename_rename h)
  | packs ps => exact congrArg packs (map_map_eq_self (Pack.rename_rename h) ps)
  | regulation r => exact congrArg regulation (r.rename_rename h)
  | regulations rs => exact congrArg regulations (map_map_eq_self (Regulation.rename_rename h) rs)
  | rule r => exact congrArg rule (r.rename_rename h)
  | rules rs => exact congrArg rules (map_map_eq_self (RuleView.rename_rename h) rs)
  | version v => exact congrArg version (v.rename_rename h)
  | versions vs => exact congrArg versions (map_map_eq_self (Version.rename_rename h) vs)
  | active vs => exact congrArg active (map_map_eq_self (Version.rename_rename h) vs)
  | finding f => exact congrArg finding (f.rename_rename h)
  | findings fs => exact congrArg findings (map_map_eq_self (FindingView.rename_rename h) fs)
  | override o => exact congrArg override (o.rename_rename h)
  | overrides os => exact congrArg overrides (map_map_eq_self (Override.rename_rename h) os)
  | run r => exact congrArg run (r.rename_rename h)
  | runStarted r => exact congrArg runStarted (r.rename_rename h)
  | runDetail r => exact congrArg runDetail (r.rename_rename h)
  | entity _ | entities _ | number _ | flag _ | done => rfl

theorem Holdings.rename_rename (k : Holdings) : (k.rename σ).rename ρ = k := by
  simp only [Holdings.rename, map_map_eq_self (Pack.rename_rename h),
    map_map_eq_self (Regulation.rename_rename h), map_map_eq_self (Rule.rename_rename h),
    map_map_eq_self (Version.rename_rename h), map_map_eq_self (Finding.rename_rename h),
    map_map_eq_self (Task.rename_rename h), map_map_eq_self (Override.rename_rename h),
    map_map_eq_self (ImpactRun.rename_rename h), map_map_eq_self (ImpactResult.rename_rename h)]

omit h in
/-- What can be renamed back is renamed injectively. -/
theorem injective_of_rename_rename {α : Type} {rename : (Uuid → Uuid) → α → α}
    (h : ∀ {σ : Uuid → Uuid}, (∀ id, σ (ρ id) = id) → ∀ a, rename σ (rename ρ a) = a)
    (hρ : Function.Injective ρ) : Function.Injective (rename ρ) :=
  Function.LeftInverse.injective (h (Function.leftInverse_invFun hρ))

end Back

/-! ## Other numbers -/

/-- What becomes of an identifier in a store that stands at `m` where the first one stands at `n`:
those that both have given out stay, and new ones are counted on from there. -/
def Uuid.reissue (n m : Nat) (id : Uuid) : Uuid :=
  if id.number < min n m then id else ⟨id.number + m - n⟩

namespace Uuid

variable {n m : Nat}

theorem reissue_of_lt {id : Uuid} (hn : id.number < n) (hm : id.number < m) :
    reissue n m id = id :=
  if_pos (Nat.lt_min.2 ⟨hn, hm⟩)

theorem reissue_add (k : Nat) : reissue n m ⟨n + k⟩ = ⟨m + k⟩ := by
  refine (if_neg fun hlt => ?_).trans (congrArg Uuid.mk ?_)
  · have hbelow : n + k < n := Nat.lt_of_lt_of_le hlt (Nat.min_le_left n m)
    omega
  · dsimp only
    omega

theorem reissue_reissue (h : n ≤ m) (id : Uuid) : reissue m n (reissue n m id) = id := by
  obtain ⟨k⟩ := id
  unfold reissue
  dsimp only
  split
  · next hlt => rw [if_pos (by rw [Nat.min_comm]; exact hlt)]
  · next hge =>
    rw [if_neg (by dsimp only; omega)]
    congr 1
    dsimp only
    omega

theorem reissue_injective (h : n ≤ m) : Function.Injective (reissue n m) :=
  Function.LeftInverse.injective (reissue_reissue h)

end Uuid

/-! ## Rows of a tenant -/

section Rows

variable {α : Type} [Stored α] {rows : List α} {r q : α} {n : Nat} {tenant other id : Uuid}

theorem findOwn_eq_find? (rows : List α) (tenant id : Uuid) :
    findOwn rows tenant id = (ownRows rows tenant).find? fun r => (Stored.row r).id == id := by
  rw [findOwn, ownRows, List.find?_filter]
  congr 1
  funext r
  rw [Bool.eq_iff_iff]
  simp [Row.isOwn, and_comm]

theorem ownRows_add (h : (Stored.row r).tenant = tenant) :
    ownRows (rows ++ [r]) tenant = ownRows rows tenant ++ [r] := by
  simp [ownRows, h]

theorem ownRows_add_other (h : (Stored.row r).tenant = tenant) (hne : other ≠ tenant) :
    ownRows (rows ++ [r]) other = ownRows rows other := by
  subst h
  simp [ownRows, hne.symm]

/-- Replacing a row by one of the same owner replaces it among the rows of every tenant. -/
theorem Keyed.ownRows_replaceRow (h : Keyed rows n) (hq : q ∈ rows)
    (hid : (Stored.row r).id = (Stored.row q).id)
    (htenant : (Stored.row r).tenant = (Stored.row q).tenant) (other : Uuid) :
    ownRows (replaceRow rows r) other = replaceRow (ownRows rows other) r := by
  rw [ownRows, replaceRow, List.filter_map, replaceRow, ownRows]
  congr 1
  refine List.filter_congr fun p hp => ?_
  rw [Function.comp_apply]
  split
  · next heq => rw [h.eq_of_id hp hq (heq.trans hid), htenant]
  · rfl

/-- The rows of other tenants stay as they are. -/
theorem Keyed.ownRows_replaceRow_other (h : Keyed rows n) (hq : q ∈ rows)
    (hid : (Stored.row r).id = (Stored.row q).id)
    (htenant : (Stored.row r).tenant = (Stored.row q).tenant)
    (howner : (Stored.row q).tenant = tenant) (hne : other ≠ tenant) :
    ownRows (replaceRow rows r) other = ownRows rows other := by
  rw [h.ownRows_replaceRow hq hid htenant, replaceRow]
  refine (List.map_congr_left fun p hp => if_neg fun heq => hne ?_).trans (List.map_id _)
  obtain ⟨hp, hother⟩ := mem_ownRows.1 hp
  rw [← hother, h.eq_of_id hp hq (heq.trans hid), howner]

variable {ρ : Uuid → Uuid} {rename : α → α}

theorem map_ownRows_eq_self (h : ∀ r ∈ rows, rename r = r) (tenant : Uuid) :
    (ownRows rows tenant).map rename = ownRows rows tenant :=
  (List.map_congr_left fun r hr => h r (mem_ownRows.1 hr).1).trans (List.map_id _)

theorem replaceRow_map (hρ : Function.Injective ρ)
    (hid : ∀ r, (Stored.row (rename r)).id = ρ (Stored.row r).id) (r : α) :
    replaceRow (rows.map rename) (rename r) = (replaceRow rows r).map rename := by
  rw [replaceRow, replaceRow, List.map_map, List.map_map]
  refine List.map_congr_left fun p _ => ?_
  simp only [Function.comp_apply, hid, hρ.eq_iff]
  split
  · rfl
  · rfl

theorem find?_map_id (hρ : Function.Injective ρ)
    (hid : ∀ r, (Stored.row (rename r)).id = ρ (Stored.row r).id) (rows : List α) (id : Uuid) :
    (rows.map rename).find? (fun r => (Stored.row r).id == ρ id) =
      (rows.find? fun r => (Stored.row r).id == id).map rename := by
  rw [List.find?_map]
  congr 2
  funext r
  rw [Function.comp_apply, hid, Bool.eq_iff_iff, beq_iff_eq, beq_iff_eq, hρ.eq_iff]

end Rows

end Rulebook
