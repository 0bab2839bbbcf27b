import Mowis.Lib.Text
import Mowis.Planning.PlanStore

/-!
# Plans in replies

What the Conductor does with the text of a reply: the `<plan>` blocks it looks for, the tasks
it takes from them, `extract_tasks_from_text` for blocks that are no TOML, and the two filters
that keep plans and tool calls out of what the user reads.
-/

namespace Mowis.Planning

open Mowis.Lib
open Mowis.Orchestration (TaskId TaskNode ModelTier)

def openTag : Text := "<plan>".toList
def closeTag : Text := "</plan>".toList

/-- `reply.contains("<plan>")` -/
def hasPlanTag (reply : String) : Bool := (splitFirst openTag reply.toList).isSome

/-- The text after the next opening tag, and the texts around the closing tag behind it. -/
def nextBlock (search : Text) : Option (Text × Text) :=
  (splitFirst openTag search).bind fun parts => splitFirst closeTag parts.2

theorem nextBlock_length {search block rest : Text} (h : nextBlock search = some (block, rest)) :
    rest.length < search.length := by
  obtain ⟨parts, hopen, hclose⟩ := Option.bind_eq_some_iff.mp h
  exact (splitFirst_length (by decide) hclose).trans (splitFirst_length (by decide) hopen)

def blocksOf (search : Text) : List Text :=
  match _h : nextBlock search with
  | none => []
  | some (block, rest) => block :: blocksOf rest
termination_by search.length
decreasing_by exact nextBlock_length _h

def planBlocks (reply : String) : List String := (blocksOf reply.toList).map String.ofList

/-- What the loop of `extract_tasks_from_text` keeps: the tasks, whether it is inside one, and
the fields of that one. -/
structure Extraction where
  tasks : List TaskNode
  inTask : Bool
  current : TaskNode

def Extraction.start : Extraction := ⟨[], false, ⟨"", "", "", [], .fast, 20, []⟩⟩

def Extraction.closed (s : Extraction) : List TaskNode :=
  if s.inTask && s.current.id ≠ "" then s.tasks ++ [s.current] else s.tasks

def trimBoth (p : Char → Bool) (t : Text) : Text := (t.dropWhile p).rdropWhile p

/-- `val.trim_matches('"')` -/
def unquote (t : Text) : String := String.ofList (trimBoth (fun c => c = '"') t)

def listItems (t : Text) : List String :=
  let inner := trimBoth (fun c => c = '[' || c = ']') t
  ((inner.splitOn ',').map fun s => unquote (trim s)).filter fun s => s ≠ ""

def parseTier (value : String) : ModelTier :=
  if value = "mid" then .mid else if value = "flagship" then .flagship else .fast

def readField (line : Text) (task : TaskNode) : TaskNode :=
  match afterPrefix "id = ".toList line with
  | some value => { task with id := unquote value }
  | none =>
    match afterPrefix "title = ".toList line with
    | some value => { task with title := unquote value }
    | none =>
      match afterPrefix "description = ".toList line with
      | some value => { task with description := unquote value }
      | none =>
        match afterPrefix "model_tier = ".toList line with
        | some value => { task with modelTier := parseTier (unquote value) }
        | none =>
          match afterPrefix "tool_budget = ".toList line with
          | some value => { task with toolBudget := ((parseU32 value).map UInt32.toNat).getD 20 }
          | none =>
            match afterPrefix "files_hint = ".toList line with
            | some value => { task with filesHint := listItems value }
            | none =>
              match afterPrefix "deps = ".toList line with
              | some value => { task with deps := listItems value }
              | none => task

def Extraction.line (s : Extraction) (line : Text) : Extraction :=
  let trimmed := trim line
  if trimmed = "[[task]]".toList ∨ trimmed = "[[tasks]]".toList then
    ⟨s.closed, true, ⟨"", "", "", [], .fast, 8, []⟩⟩
  else if s.inTask then { s with current := readField trimmed s.current }
  else s

def extractTasksFromText (text : String) : TaskGraph :=
  ((lines text.toList).foldl Extraction.line .start).closed

section tasks

variable (toml : Toml)

def blockTasks (block : String) : Option TaskGraph :=
  match toml.tasks.parse block with
  | .ok graph => if graph = [] then none else some graph
  | .error _ => none

/-- The task list `draft_plan_from_response` takes from a block. -/
def blockOrLineTasks (block : String) : Option TaskGraph :=
  match toml.tasks.parse block with
  | .ok graph => if graph = [] then none else some graph
  | .error _ =>
    let graph := extractTasksFromText block
    if graph = [] then none else some graph

def lastTasks (tasksOf : String → Option TaskGraph) (reply : String) : Option TaskGraph :=
  (planBlocks reply).reverse.findSome? tasksOf

def shownTasks (reply : String) : Option TaskGraph := lastTasks (blockTasks toml) reply

/-- The task graph of a plan drafted by `draft_plan`. -/
def draftTasks (reply : String) : TaskGraph := (lastTasks (blockTasks toml) reply).getD []

/-- The task graph of a plan drafted by `draft_plan_from_response`. -/
def responseTasks (reply : String) : TaskGraph := (lastTasks (blockOrLineTasks toml) reply).getD []

theorem draftTasks_of_shown {reply : String} {graph : TaskGraph}
    (h : shownTasks toml reply = some graph) : draftTasks toml reply = graph := by
  rw [draftTasks, ← shownTasks, h]
  rfl

theorem shownTasks_of_no_tag {reply : String} (h : hasPlanTag reply = false) :
    shownTasks toml reply = none := by
  have hnone : nextBlock reply.toList = none := by
    have hopen : splitFirst openTag reply.toList = none :=
      Option.isNone_iff_eq_none.mp (Option.isSome_eq_false_iff.mp h)
    rw [nextBlock, hopen]
    rfl
  have hblocks : planBlocks reply = [] := by
    rw [planBlocks, blocksOf]
    split
    · rfl
    · next hsome =>
      rw [hnone] at hsome
      cases hsome
  rw [shownTasks, lastTasks, hblocks]
  rfl

end tasks

/-- `strip_plan_from_reply` -/
def stripPlan (rest : Text) : Text :=
  match _h : splitFirst openTag rest with
  | none => rest
  | some (before, after) =>
    match _h' : splitFirst closeTag after with
    | none => before ++ after
    | some (_, rest') => before ++ stripPlan rest'
termination_by rest.length
decreasing_by
  exact (splitFirst_length (by decide) _h').trans (splitFirst_length (by decide) _h)

def stripPlanFromReply (text : String) : String := String.ofList (stripPlan text.toList)

def braceDepth (depth : ℤ) (c : Char) : ℤ :=
  if c = '\x7b' then depth + 1 else if c = '\x7d' then depth - 1 else depth

def afterBraces : ℤ → Text → Option Text
  | _, [] => none
  | depth, c :: cs =>
    if braceDepth depth c = 0 then some cs else afterBraces (braceDepth depth c) cs

theorem length_afterBraces {depth : ℤ} {t rest : Text} (h : afterBraces depth t = some rest) :
    rest.length < t.length := by
  induction t generalizing depth with
  | nil => cases h
  | cons c cs ih =>
    rw [afterBraces] at h
    split at h
    · cases h
      exact Nat.lt_succ_self _
    · exact (ih h).trans (Nat.lt_succ_self _)

theorem length_trim_le (t : Text) : (trim t).length ≤ t.length := by
  have hprefix : trim t <+: t.dropWhile isWhitespace := List.rdropWhile_prefix isWhitespace _
  exact hprefix.length_le.trans (List.dropWhile_sublist _).length_le

def toolCallStart : Text := "\x7b\"name\":".toList

def aroundToolCall (result : Text) : Option (Text × Text) :=
  (splitFirst toolCallStart result).bind fun parts =>
    (afterBraces 0 (toolCallStart ++ parts.2)).map fun rest => (parts.1, rest)

theorem aroundToolCall_length {result before rest : Text}
    (h : aroundToolCall result = some (before, rest)) :
    (trim (before ++ rest)).length < result.length := by
  obtain ⟨parts, hstart, hmap⟩ := Option.bind_eq_some_iff.mp h
  obtain ⟨tail, hafter, heq⟩ := Option.map_eq_some_iff.mp hmap
  cases heq
  have hshort := length_afterBraces hafter
  have htrim := length_trim_le (parts.1 ++ rest)
  rw [splitFirst_eq_some hstart]
  simp only [List.length_append] at hshort htrim ⊢
  omega

/-- The first loop of `strip_tool_calls`. -/
def stripJsonCalls (result : Text) : Text :=
  match _h : aroundToolCall result with
  | none => result
  | some (before, rest) => stripJsonCalls (trim (before ++ rest))
termination_by result.length
decreasing_by exact aroundToolCall_length _h

def fence : Text := "```".toList
def jsonFence : Text := "```json".toList

def holds (block pat : Text) : Bool := (splitFirst pat block).isSome

def aroundFencedCall (result : Text) : Option (Text × Text) :=
  (splitFirst jsonFence result).bind fun parts =>
    (splitFirst fence parts.2).bind fun inner =>
      let block := jsonFence ++ inner.1 ++ fence
      if holds block "\"name\"".toList && holds block "\"arguments\"".toList then
        some (parts.1, inner.2)
      else none

theorem aroundFencedCall_length {result before rest : Text}
    (h : aroundFencedCall result = some (before, rest)) :
    (trim (before ++ rest)).length < result.length := by
  obtain ⟨parts, hstart, hbind⟩ := Option.bind_eq_some_iff.mp h
  obtain ⟨inner, hend, hblock⟩ := Option.bind_eq_some_iff.mp hbind
  dsimp only at hblock
  split at hblock
  · cases hblock
    have hshort := splitFirst_length (by decide) hend
    have htrim := length_trim_le (parts.1 ++ inner.2)
    rw [splitFirst_eq_some hstart]
    simp only [List.length_append] at htrim ⊢
    omega
  · cases hblock

/-- The second loop of `strip_tool_calls`. -/
def stripFencedCalls (result : Text) : Text :=
  match _h : aroundFencedCall result with
  | none => result
  | some (before, rest) => stripFencedCalls (trim (before ++ rest))
termination_by result.length
decreasing_by exact aroundFencedCall_length _h

def stripToolCalls (text : String) : String :=
  String.ofList (trim (stripFencedCalls (stripJsonCalls text.toList)))

end Mowis.Planning
