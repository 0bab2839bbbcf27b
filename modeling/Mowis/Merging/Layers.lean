import Mowis.Review.Paths

/-!
# Merging the diffs of a run

Layers 5 to 7 of `run` and of `run_standard` in `agentd/src/orchestration/new_orchestrator.rs`: the
diffs of the agents of a sandbox are reviewed, what comes of it is verified, and the diffs of the
sandboxes are merged.

The sandboxes are listed in the order in which the map of their results is walked.
-/

namespace Mowis.Merging

open Mowis.Lib Mowis.Review

structure AgentWorkResult where
  taskId : Text
  success : Bool
  gitDiff : Option Text
  taskDescription : Text

def AgentWorkResult.contribution (awr : AgentWorkResult) : AgentContribution :=
  let rawDiff := awr.gitDiff.getD []
  { agentId := awr.taskId
    taskId := awr.taskId
    taskDescription := awr.taskDescription
    fileChanges := parseUnifiedDiff rawDiff
    rawDiff }

def contributions (results : List AgentWorkResult) : List AgentContribution :=
  ((results.filter (·.success)).filter fun awr => awr.gitDiff.any (!·.isEmpty)).map
    AgentWorkResult.contribution

/-- What a review depends on: the orders in which the maps of the detector and of the reviewer are
walked, the model, and whether five minutes are enough. -/
structure Reviewing where
  detectOrder : IterOrder Text
  order : IterOrder Text
  llm : Llm
  inTime : Bool

def reviewInTime (mode : Overflow) (env : Reviewing) (cs : List AgentContribution) :
    Option (Option ReviewResult) :=
  (detect mode env.detectOrder cs).bind fun conflicts =>
    if env.inTime then (review mode env.order env.llm cs conflicts).map Except.toOption
    else some none

def fallbackDiff (cs : List AgentContribution) : Text := joinLines (cs.map (·.rawDiff))

def reviewedDiff (cs : List AgentContribution) : Option ReviewResult → Text
  | some r => r.finalDiff
  | none => fallbackDiff cs

/-- A sandbox with the results of its agents, its review, and the diff that the verification left,
if it came to an end. -/
structure Sandbox where
  name : Text
  results : List AgentWorkResult
  reviewing : Reviewing
  updatedDiff : Option Text

/-- Layer 5 of `run`. -/
def mergeSandbox (mode : Overflow) (s : Sandbox) : Option (Option Text) :=
  let cs := contributions s.results
  if cs.isEmpty then some none
  else (reviewInTime mode s.reviewing cs).map fun r => some (reviewedDiff cs r)

/-- Layer 5 of `run_standard`, which takes the diff of a single contribution as it is. -/
def mergeSandboxStandard (mode : Overflow) (s : Sandbox) : Option (Option Text) :=
  match contributions s.results with
  | [] => some none
  | [c] => some (some c.rawDiff)
  | cs => (reviewInTime mode s.reviewing cs).map fun r => some (reviewedDiff cs r)

def afterVerification (updatedDiff mergedDiff : Option Text) : Option Text :=
  mergedDiff.map fun diff =>
    if diff.isEmpty then diff else (updatedDiff.filter (!·.isEmpty)).getD diff

def crossContribution (sandboxDiff : Text × Text) : AgentContribution where
  agentId := sandboxDiff.1
  taskId := sandboxDiff.1
  taskDescription := "Merged output from sandbox '".toList ++ sandboxDiff.1 ++ ['\'']
  fileChanges := parseUnifiedDiff sandboxDiff.2
  rawDiff := sandboxDiff.2

/-- Layer 7 of `run`. -/
def crossMerge (mode : Overflow) (cross : Reviewing) : List (Text × Text) → Option Text
  | [] => some []
  | [(_, diff)] => some diff
  | sandboxDiffs =>
    let cs := sandboxDiffs.map crossContribution
    (reviewInTime mode cross cs).map (reviewedDiff cs)

def mergeFull (mode : Overflow) (cross : Reviewing) (sandboxes : List Sandbox) : Option Text :=
  (sandboxes.mapM fun s => (mergeSandbox mode s).map fun merged =>
      (s.name, afterVerification s.updatedDiff merged)).bind fun results =>
    crossMerge mode cross (results.filterMap fun r =>
      (r.2.filter (!·.isEmpty)).map fun diff => (r.1, diff))

/-- Layer 7 of `run_standard` is the first diff that there is. -/
def mergeStandard (mode : Overflow) (sandboxes : List Sandbox) : Option Text :=
  (sandboxes.mapM fun s => (mergeSandboxStandard mode s).map
      (afterVerification s.updatedDiff)).map fun results =>
    (results.findSome? id).getD []

end Mowis.Merging
