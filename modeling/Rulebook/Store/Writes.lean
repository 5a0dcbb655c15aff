import Rulebook.Store.Txn

/-!
Writing rows. A write that would break a uniqueness rule of the store fails and changes nothing. The
time of the last change moves only when some column really changes.
-/
namespace Rulebook

/-- Whether two versions cannot both be stored: they belong to one rule and share the number or are
both active. -/
def Version.clashes (v w : Version) : Bool :=
  v.id != w.id && v.rule == w.rule && (v.number == w.number || (v.isActive && w.isActive))

/-- Whether two findings cannot both be stored: both are live and about one key. -/
def Finding.clashes (f g : Finding) : Bool :=
  f.id != g.id && f.status.isLive && g.isLiveFor f.key

namespace Txn

def addPack (p : Pack) : Txn Unit := modify fun s => { s with packs := s.packs ++ [p] }

def addRegulation (r : Regulation) : Txn Unit :=
  modify fun s => { s with regulations := s.regulations ++ [r] }

def addRule (r : Rule) : Txn Unit := modify fun s => { s with rules := s.rules ++ [r] }

/-- Adds a version; the store refuses a clash. -/
def addVersion (v : Version) : Txn Unit := do
  if (← get).versions.any v.clashes then throw .constraint
  modify fun s => { s with versions := s.versions ++ [v] }

/-- Adds a finding; the store refuses a clash. -/
def addFinding (f : Finding) : Txn Unit := do
  if (← get).findings.any f.clashes then throw .constraint
  modify fun s => { s with findings := s.findings ++ [f] }

def addTask (t : Task) : Txn Unit := modify fun s => { s with tasks := s.tasks ++ [t] }

def addOverride (o : Override) : Txn Unit :=
  modify fun s => { s with overrides := s.overrides ++ [o] }

def addRun (r : ImpactRun) : Txn Unit := modify fun s => { s with runs := s.runs ++ [r] }

def addResult (r : ImpactResult) : Txn Unit :=
  modify fun s => { s with results := s.results ++ [r] }

/-- Stores the new state of a pack. -/
def savePack (old new : Pack) : Txn Pack := do
  if new = old then return old
  let new := { new with updatedAt := ← now }
  modify fun s => { s with packs := replaceRow s.packs new }
  return new

/-- Stores the new state of a rule. -/
def saveRule (old new : Rule) : Txn Rule := do
  if new = old then return old
  let new := { new with updatedAt := ← now }
  modify fun s => { s with rules := replaceRow s.rules new }
  return new

/-- Stores an edit of a version; a clash is reported as such. The answer shows the edit even where
loosely equal JSON stays stored. -/
def saveVersion (v : Version) (edit : VersionEdit) : Txn Version := do
  let new := edit.applyTo v
  if !edit.changes v then return new
  if (← get).versions.any new.clashes then throw .versionClash
  let updatedAt ← now
  let stored := { (edit.settle v).applyTo v with updatedAt }
  modify fun s => { s with versions := replaceRow s.versions stored }
  return { new with updatedAt }

/-- Moves versions to a status, one after the other. -/
def saveVersionStatus (status : VersionStatus) : List Version → Txn Unit
  | [] => pure ()
  | v :: rest => do
    discard <| saveVersion v { status := some status }
    saveVersionStatus status rest

/-- Moves a finding to a status; the store refuses a clash. -/
def saveFindingStatus (f : Finding) (status : FindingStatus) : Txn Finding := do
  if f.status = status then return f
  let moved := { f with status }
  if (← get).findings.any moved.clashes then throw .constraint
  let moved := { moved with updatedAt := ← now }
  modify fun s => { s with findings := replaceRow s.findings moved }
  return moved

/-- Stores the new state of a run. -/
def saveRun (new : ImpactRun) : Txn Unit :=
  modify fun s => { s with runs := replaceRow s.runs new }

end Txn

end Rulebook
