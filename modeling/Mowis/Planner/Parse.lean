import Mowis.Review.Reviewer
import Mowis.Scheduling.Model

/-!
# The planner's reply

`agentd/src/orchestration/planner.rs` and `extract_json` of `verification.rs`: the
reply of a language model is searched for JSON, closed if it was cut off, and read
as a task graph with a sandbox topology.  The JSON library is a parameter.
-/

namespace Mowis.Planner

open Mowis.Lib Mowis.Scheduling
open Mowis.Review (Json)

structure SandboxConfig where
  name : SandboxName
  scope : String
  tools : List String
  maxAgents : ℕ
  image : Option String
  deriving DecidableEq, Repr

structure SandboxTopology where
  sandboxes : List SandboxConfig

structure PlannerOutput where
  taskGraph : TaskGraph
  sandboxTopology : SandboxTopology
  sandboxHints : HashMap TaskId String

/-- The parts of the JSON library that the planner uses: reading a value, printing it,
and reading a text as a task graph with a topology. -/
structure SerdeJson where
  value : Text → Option Json
  print : Json → Option Text
  plannerJson : Text → Option (TaskGraph × SandboxTopology)

/-- The state of a scan over a text: open braces and brackets, and whether the next
character is inside a string or escaped. -/
structure Scan where
  braceCount : ℤ
  bracketCount : ℤ
  inString : Bool
  escapeNext : Bool
  deriving DecidableEq, Repr

def Scan.start : Scan := ⟨0, 0, false, false⟩

def Scan.char (s : Scan) (ch : Char) : Scan :=
  if s.escapeNext then { s with escapeNext := false }
  else if ch = '\\' ∧ s.inString then { s with escapeNext := true }
  else if ch = '"' then { s with inString := !s.inString }
  else if s.inString then s
  else if ch = '{' then { s with braceCount := s.braceCount + 1 }
  else if ch = '}' then { s with braceCount := s.braceCount - 1 }
  else if ch = '[' then { s with bracketCount := s.bracketCount + 1 }
  else if ch = ']' then { s with bracketCount := s.bracketCount - 1 }
  else s

def tally (t : Text) : Scan := t.foldl Scan.char Scan.start

def fence : Text := "```".toList

theorem fence_ne_nil : fence ≠ [] := by decide

def afterFirstLine (t : Text) : Text :=
  match splitFirst ['\n'] t with
  | some (_, rest) => rest
  | none => t

theorem length_afterFirstLine_le (t : Text) : (afterFirstLine t).length ≤ t.length := by
  rw [afterFirstLine]
  split
  · next h => exact (splitFirst_length (by simp) h).le
  · exact le_rfl

def fencedBlocks (rest : Text) : List Text :=
  match _h : splitFirst fence rest with
  | none => []
  | some (_, afterFence) =>
    match _h' : splitFirst fence (afterFirstLine afterFence) with
    | none => []
    | some (content, rest') =>
      if trim content = [] then fencedBlocks rest' else trim content :: fencedBlocks rest'
termination_by rest.length
decreasing_by
  all_goals
    have h₁ := splitFirst_length fence_ne_nil _h
    have h₂ := splitFirst_length fence_ne_nil _h'
    have h₃ := length_afterFirstLine_le afterFence
    omega

def objectEnd (s : Scan) : Text → Option (Text × Text)
  | [] => none
  | ch :: cs =>
    let s' := s.char ch
    if ch = '}' ∧ s.inString = false ∧ s.escapeNext = false ∧ s'.braceCount = 0 then some ([ch], cs)
    else (objectEnd s' cs).map fun p => (ch :: p.1, p.2)

theorem length_objectEnd {s : Scan} {t object rest : Text}
    (h : objectEnd s t = some (object, rest)) : rest.length < t.length := by
  induction t generalizing s object with
  | nil => cases h
  | cons ch cs ih =>
    rw [objectEnd] at h
    split at h
    · cases h
      exact Nat.lt_succ_self _
    · obtain ⟨p, hp, he⟩ := Option.map_eq_some_iff.mp h
      cases he
      have hlt := ih hp
      rw [List.length_cons]
      omega

def braceScan (sj : SerdeJson) (t : Text) : Option Text :=
  match _h : splitFirst ['{'] t with
  | none => none
  | some (_, afterBrace) =>
    match _h' : objectEnd Scan.start ('{' :: afterBrace) with
    | none => none
    | some (object, rest) =>
      if (sj.value (trim object)).isSome then some (trim object) else braceScan sj rest
termination_by t.length
decreasing_by
  have h₁ := splitFirst_eq_some _h
  have h₂ := length_objectEnd _h'
  have h₃ := congrArg List.length h₁
  simp only [List.length_append, List.length_cons, List.length_nil] at h₂ h₃
  omega

def extractJson (sj : SerdeJson) (text : Text) : Text :=
  match (fencedBlocks text).find? fun candidate => (sj.value candidate).isSome with
  | some candidate => candidate
  | none =>
    if (sj.value (trim text)).isSome then trim text
    else (braceScan sj (trim text)).getD (trim text)

def completion (s : Scan) : Text :=
  List.replicate s.bracketCount.toNat ']' ++ List.replicate s.braceCount.toNat '}'

/-- A text that was cut off: what follows the last brace is dropped when it holds a
quotation mark, and what is open is closed. -/
def completeTruncatedJson (jsonStr : Text) : Text :=
  let s := tally jsonStr
  if s.braceCount > 0 ∨ s.bracketCount > 0 then
    match splitLast ['}'] jsonStr with
    | some (beforeBrace, afterBrace) =>
      if '"' ∈ afterBrace ∧ '}' ∉ afterBrace then
        let result := beforeBrace ++ ['}']
        result ++ completion (tally result)
      else jsonStr ++ completion s
    | none => jsonStr ++ completion s
  else jsonStr

def mapField (key : Text) (f : Json → Json) : Json → Json
  | .object fields => .object (fields.map fun e => if e.1 = key then (e.1, f e.2) else e)
  | v => v

def mapItems (f : Json → Json) : Json → Json
  | .array items => .array (items.map f)
  | v => v

def objectToArray : Json → Json
  | .object fields => .array (fields.map Prod.snd)
  | v => v

def stringToArray : Json → Json
  | .string s => .array [.string s]
  | v => v

def fixValue (value : Json) : Json :=
  let tasks := mapField "task_graph".toList (mapField "tasks".toList objectToArray) value
  let sandboxes :=
    mapField "sandbox_topology".toList (mapField "sandboxes".toList objectToArray) tasks
  let deps := mapField "task_graph".toList
    (mapField "tasks".toList (mapItems (mapField "deps".toList stringToArray))) sandboxes
  mapField "sandbox_topology".toList
    (mapField "sandboxes".toList (mapItems (mapField "tools".toList stringToArray))) deps

def fixCommonJsonIssues (sj : SerdeJson) (jsonStr : Text) : Text :=
  let result := completeTruncatedJson jsonStr
  if (sj.value result).isSome then result
  else
    match sj.value result with
    | some value => (sj.print (fixValue value)).getD result
    | none => result

theorem fixCommonJsonIssues_eq (sj : SerdeJson) (jsonStr : Text) :
    fixCommonJsonIssues sj jsonStr = completeTruncatedJson jsonStr := by
  rw [fixCommonJsonIssues]
  cases h : sj.value (completeTruncatedJson jsonStr) with
  | none => rfl
  | some value => rfl

def emptyResponseText : Text := "Empty response from planner".toList

def noJsonText : Text := "No JSON content found in planner response".toList

def parseFailedText (fixedJson : Text) : Text :=
  "Failed to parse planner JSON from: ".toList ++ fixedJson.take 500

def emptyTaskGraphText : Text := "Planner returned empty task graph".toList

def emptyTopologyText : Text := "Planner returned empty sandbox topology".toList

def buildSandboxHints (g : TaskGraph) (topology : SandboxTopology) : HashMap TaskId String :=
  g.tasks.foldl
    (fun hints task =>
      match task.hint with
      | some hint => hints.insert task.id hint
      | none =>
        match topology.sandboxes.head? with
        | some firstSandbox => hints.insert task.id firstSandbox.name
        | none => hints)
    ∅

def parsePlannerResponse (sj : SerdeJson) (response : Text) : Except Text PlannerOutput :=
  if response = [] then .error emptyResponseText
  else
    let jsonStr := extractJson sj response
    if jsonStr = [] then .error noJsonText
    else
      let fixedJson := fixCommonJsonIssues sj jsonStr
      match sj.plannerJson fixedJson with
      | none => .error (parseFailedText fixedJson)
      | some (taskGraph, sandboxTopology) =>
        if taskGraph.tasks = [] then .error emptyTaskGraphText
        else if sandboxTopology.sandboxes = [] then .error emptyTopologyText
        else .ok ⟨taskGraph, sandboxTopology, buildSandboxHints taskGraph sandboxTopology⟩

theorem parsePlannerResponse_ok {sj : SerdeJson} {response : Text} {output : PlannerOutput}
    (h : parsePlannerResponse sj response = .ok output) :
    output.taskGraph.tasks ≠ [] ∧ output.sandboxTopology.sandboxes ≠ [] ∧
      output.sandboxHints = buildSandboxHints output.taskGraph output.sandboxTopology := by
  rw [parsePlannerResponse] at h
  dsimp only at h
  split at h
  · cases h
  split at h
  · cases h
  split at h
  · cases h
  split at h
  · cases h
  split at h
  · cases h
  rename_i htasks hsandboxes
  cases h
  exact ⟨htasks, hsandboxes, rfl⟩

theorem buildSandboxHints_eq (g : TaskGraph) {topology : SandboxTopology} {first : SandboxConfig}
    (hfirst : topology.sandboxes.head? = some first) :
    buildSandboxHints g topology =
      g.tasks.foldl (fun hints task => hints.insert task.id (task.hint.getD first.name)) ∅ := by
  rw [buildSandboxHints]
  congr 1
  funext hints task
  cases task.hint with
  | some hint => rfl
  | none => rw [hfirst]; rfl

theorem lookup_buildSandboxHints {g : TaskGraph} (hu : (g.tasks.map Task.id).Nodup)
    {topology : SandboxTopology} {first : SandboxConfig}
    (hfirst : topology.sandboxes.head? = some first) {task : Task} (htask : task ∈ g.tasks) :
    (buildSandboxHints g topology).lookup task.id = some (task.hint.getD first.name) := by
  rw [buildSandboxHints_eq g hfirst]
  exact HashMap.lookup_foldl_insert_of_mem Task.id (fun task => task.hint.getD first.name) hu ∅ htask

end Mowis.Planner
