import Rulebook.Authoring
import Rulebook.Catalogue
import Rulebook.Evaluation
import Rulebook.Impact.Schedule
import Rulebook.Lifecycle
import Rulebook.Review

/-!
The calls that the engine takes and the answers that it gives.
-/
namespace Rulebook

inductive Call where
  | createPack (draft : PackDraft)
  | listPacks
  | updatePack (pack : Uuid) (change : PackChange)
  | createRegulation (draft : RegulationDraft)
  | listRegulations (pack : Option Uuid)
  | createRule (draft : RuleDraft) (first : VersionDraft)
  | listRules (pack : Option Uuid)
  | createVersion (rule : Uuid) (draft : VersionDraft)
  | updateVersion (version : Uuid) (change : VersionChange)
  | forceVersion (version : Uuid) (write : VersionWrite)
  | submitRule (rule : Uuid)
  | approveVersion (version : Uuid)
  | activateVersion (version : Uuid)
  | retireVersion (version : Uuid)
  | nextNumber (rule : Uuid)
  | listVersions (rule : Uuid) (status : Option Text)
  | listActive (entityType : Text)
  | evaluate (entityType : Text) (entity : Fields) (today : Option Date) (stale : Bool)
  | evaluateById (entityType entityId : Text) (today : Option Date)
  | apply (version : Uuid) (entityType entityId : Text) (actions severity : Value)
      (details : Fields) (today : Option Date)
  | createFinding (version : Uuid) (entityType entityId : Text) (plan : Plan) (details : Fields)
  | listFindings (filter : Review.FindingFilter)
  | updateStatus (finding : Uuid) (status : Text)
  | override (finding : Uuid) (draft : OverrideDraft)
  | listOverrides (finding : Uuid)
  | listEntities (entityType : Text)
  | getEntity (entityType entityId : Text)
  | addEntity (entityType : Text) (entity : Fields)
  /-- Starts and executes a run, and shows it with its results. -/
  | runInline (version : Uuid)
  | startRun (version : Uuid)
  | createRun (version : Uuid)
  | executeRun (run : Uuid) (today : Option Date) (cancelDuringScan : Bool)
  | getRun (run : Uuid)
  /-- Cancels a run, first its background task where the schedule is to take part. -/
  | cancelRun (run : Uuid) (withSchedule : Bool)
  /-- Starts a run that is executed in the background. -/
  | submitRun (version : Uuid)
  /-- Gives the background tasks that wait their turn. -/
  | beginTasks
  /-- Lets the background task of a run go on to its end. -/
  | releaseRun (run : Uuid)
  | isRunning (run : Uuid)
  | cancelTask (run : Uuid)
  /-- Cancels all background tasks. -/
  | shutdown
  deriving Repr, Inhabited

inductive Answer where
  | pack (p : Pack)
  | packs (ps : List Pack)
  | regulation (r : Regulation)
  | regulations (rs : List Regulation)
  | rule (r : RuleView)
  | rules (rs : List RuleView)
  | version (v : Version)
  | versions (vs : List Version)
  | active (vs : List Version)
  | finding (f : FindingView)
  | findings (fs : List FindingView)
  | override (o : OverrideView)
  | overrides (os : List Override)
  | entity (e : Option Fields)
  | entities (es : List Fields)
  | run (r : ImpactRun)
  | runStarted (r : ImpactRun)
  | runDetail (r : RunView)
  | number (n : Int)
  | flag (b : Bool)
  | done
  deriving Repr, Inhabited

end Rulebook
