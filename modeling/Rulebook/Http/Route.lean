import Rulebook.Http.Bodies

/-!
The routes of the service: which method and path leads to which endpoint. A path with a method that
no route of that path has is known, and yet leads nowhere.
-/
namespace Rulebook.Http

inductive Endpoint where
  | listPacks
  | createPack
  | updatePack
  | listRegulations
  | createRegulation
  | listRules
  | createRule
  | createVersion
  | submitRule
  | updateVersion
  | approveVersion
  | activateVersion
  | retireVersion
  | evaluate
  | startRun
  | getRun
  | cancelRun
  | listFindings
  | updateFinding
  | overrideFinding
  | listOverrides
  | checkConditions
  | health
  | documentation
  deriving DecidableEq, Repr, Inhabited

/-- A segment of a path: a word, or an identifier under a name. -/
inductive Segment where
  | word (s : String)
  | id (name : String)
  deriving DecidableEq, Repr, Inhabited

structure Route where
  method : String
  segments : List Segment
  endpoint : Endpoint
  deriving Repr, Inhabited

open Segment in
/-- The routes behind the common start of the paths. -/
def routes : List Route := [
  ⟨"GET", [word "packs"], .listPacks⟩,
  ⟨"POST", [word "packs"], .createPack⟩,
  ⟨"PATCH", [word "packs", id "pack_id"], .updatePack⟩,
  ⟨"GET", [word "regulations"], .listRegulations⟩,
  ⟨"POST", [word "regulations"], .createRegulation⟩,
  ⟨"GET", [word "rules"], .listRules⟩,
  ⟨"POST", [word "rules"], .createRule⟩,
  ⟨"POST", [word "rules", id "rule_id", word "versions"], .createVersion⟩,
  ⟨"POST", [word "rules", id "rule_id", word "submit"], .submitRule⟩,
  ⟨"PATCH", [word "versions", id "version_id"], .updateVersion⟩,
  ⟨"POST", [word "versions", id "version_id", word "approve"], .approveVersion⟩,
  ⟨"POST", [word "versions", id "version_id", word "activate"], .activateVersion⟩,
  ⟨"POST", [word "versions", id "version_id", word "retire"], .retireVersion⟩,
  ⟨"POST", [word "evaluate"], .evaluate⟩,
  ⟨"POST", [word "impact", word "run"], .startRun⟩,
  ⟨"GET", [word "impact", id "run_id"], .getRun⟩,
  ⟨"POST", [word "impact", id "run_id", word "cancel"], .cancelRun⟩,
  ⟨"GET", [word "findings"], .listFindings⟩,
  ⟨"PATCH", [word "findings", id "finding_id"], .updateFinding⟩,
  ⟨"POST", [word "findings", id "finding_id", word "override"], .overrideFinding⟩,
  ⟨"GET", [word "findings", id "finding_id", word "overrides"], .listOverrides⟩,
  ⟨"POST", [word "conditions", word "validate"], .checkConditions⟩]

/-- The paths of the pages that document the service. -/
def documentationPaths : List (List Segment) :=
  [[.word "openapi.json"], [.word "docs"], [.word "docs", .word "oauth2-redirect"], [.word "redoc"]]

/-- The routes that lie outside the common start of the paths. -/
def outerRoutes : List Route :=
  ⟨"GET", [.word "health"], .health⟩ ::
    documentationPaths.flatMap fun segments =>
      [⟨"GET", segments, .documentation⟩, ⟨"HEAD", segments, .documentation⟩]

/-- An identifier in a path, as it is written. -/
structure PathId where
  name : String
  text : String
  deriving Repr, Inhabited

/-- Compares the segments of a path with those of a route; what is found are the identifiers. -/
def matchSegments : List Segment → List String → Option (List PathId)
  | [], [] => some []
  | .word s :: segments, t :: path => if s = t then matchSegments segments path else none
  | .id name :: segments, t :: path =>
    if t.isEmpty then none
    else (matchSegments segments path).map ({ name, text := t } :: ·)
  | _, _ => none

/-- The segments of a path, if it starts with what is common to all paths. -/
def segmentsAfter? (start path : String) : Option (List String) :=
  if start.toList.isPrefixOf path.toList then
    match (path.toList.drop start.length).splitOn '/' with
    | [] :: segments => some (segments.map String.ofList)
    | _ => none
  else none

/-- The routes that a path leads to, whatever their methods, with the identifiers in it. -/
def routesTo (start path : String) : List (Route × List PathId) :=
  let among (routes : List Route) (segments? : Option (List String)) :=
    match segments? with
    | some segments =>
      routes.filterMap fun r => (matchSegments r.segments segments).map fun ids => (r, ids)
    | none => []
  among routes (segmentsAfter? start path) ++ among outerRoutes (segmentsAfter? "" path)

/-- Where a method and a path lead. -/
inductive Destination where
  | endpoint (e : Endpoint) (ids : List PathId)
  | otherMethod
  | otherSlash
  | nowhere
  deriving Repr, Inhabited

/-- The path without the slashes at its end, or with one if it has none. -/
def toggleSlash (path : String) : String :=
  match path.toList.reverse with
  | '/' :: rest => String.ofList (rest.dropWhile (· == '/')).reverse
  | _ => path ++ "/"

/-- Finds the first route with the method; a path that is known but for slashes at its end is told
apart. -/
def destination (start method path : String) : Destination :=
  let found := routesTo start path
  match found.find? fun (r, _) => r.method == method with
  | some (r, ids) => .endpoint r.endpoint ids
  | none =>
    if !found.isEmpty then .otherMethod
    else if path != "/" && !(routesTo start (toggleSlash path)).isEmpty then .otherSlash
    else .nowhere

end Rulebook.Http
