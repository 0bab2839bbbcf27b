import Mowis.Review.Conflict

/-!
# The merge reviewer

`MergeReviewerAgent::review` of `agentd/src/orchestration/merge_reviewer.rs` with
`parse_llm_decisions`, `fallback_decisions`, `build_diff_for_decision` and
`synthesize_diff_from_content`.
-/

namespace Mowis.Review

open Mowis.Lib

inductive MergeAction where
  | accept (fromAgent : Text)
  | merge
  | reject (reason : Text)
  | delete
  deriving DecidableEq, Repr

structure MergeDecision where
  filePath : Text
  action : MergeAction
  finalContent : Option Text
  reasoning : Text
  deriving DecidableEq, Repr

structure ReviewResult where
  decisions : List MergeDecision
  finalDiff : Text
  conflictsResolved : ℕ
  filesAccepted : ℕ
  filesRejected : ℕ
  summary : Text
  deriving DecidableEq, Repr

/-- A JSON value. -/
inductive Json where
  | null
  | bool (b : Bool)
  | number (n : Text)
  | string (s : Text)
  | array (items : List Json)
  | object (fields : List (Text × Json))

namespace Json

def get : Json → Text → Option Json
  | object fields, key => (fields.find? fun f => f.1 = key).map Prod.snd
  | _, _ => none

def asStr : Json → Option Text
  | string s => some s
  | _ => none

def getStr (item : Json) (key : Text) : Option Text := (item.get key).bind asStr

end Json

/-- What the reviewer uses of other programs: the model's answer to a system prompt and a
prompt at one attempt, and the parser for a JSON array. -/
structure Llm where
  generateText : Text → Text → ℕ → Except Text Text
  fromStr : Text → Option (List Json)

def filePathKey : Text := "file_path".toList

def actionKey : Text := "action".toList

def reasoningKey : Text := "reasoning".toList

def mergedContentKey : Text := "merged_content".toList

def agentIdKey : Text := "agent_id".toList

def noReasoning : Text := "LLM decision — no reasoning provided".toList

def undecidedReasoning : Text :=
  ("Fallback: LLM did not provide a decision for this file. Accepting first agent's " ++
    "version.").toList

def unparseableReasoning : Text :=
  "Fallback: LLM response was unparseable. Accepting first agent's version.".toList

def actionOf (action agentId reasoning : Text) : MergeAction :=
  if action = "accept".toList then .accept agentId
  else if action = "merge".toList then .merge
  else if action = "delete".toList then .delete
  else .reject reasoning

/-- The decision in an entry of a reply; an entry without a path or an action has none. -/
def decisionOf (item : Json) : Option MergeDecision :=
  match item.getStr filePathKey, item.getStr actionKey with
  | some filePath, some action =>
    let reasoning := (item.getStr reasoningKey).getD noReasoning
    some {
      filePath
      action := actionOf action ((item.getStr agentIdKey).getD []) reasoning
      finalContent := (item.getStr mergedContentKey).filter (· ≠ [])
      reasoning }
  | _, _ => none

def cleanReply (rawText : Text) : Text :=
  trim (trimEndMatches "```".toList
    (trimStartMatches "```".toList (trimStartMatches "```json".toList (trim rawText))))

def fallbackDecision (reasoning : Text) (conflict : MergeConflict) : MergeDecision where
  filePath := conflict.filePath
  action := .accept (conflict.agentsInvolved.head?.getD [])
  finalContent := none
  reasoning := reasoning

def fallbackDecisions (conflicts : List MergeConflict) : List MergeDecision :=
  conflicts.map (fallbackDecision unparseableReasoning)

def fillGaps (decisions : List MergeDecision) (conflicts : List MergeConflict) :
    List MergeDecision :=
  conflicts.foldl
    (fun ds conflict =>
      if ds.any (·.filePath = conflict.filePath) then ds
      else ds ++ [fallbackDecision undecidedReasoning conflict])
    decisions

def parseLlmDecisions (fromStr : Text → Option (List Json)) (rawText : Text)
    (conflicts : List MergeConflict) : List MergeDecision :=
  match fromStr (cleanReply rawText) with
  | none => fallbackDecisions conflicts
  | some items => fillGaps (items.filterMap decisionOf) conflicts

def showNat (n : ℕ) : Text := Nat.toDigits 10 n

/-- The file changes of a path, each with its agent and its task. -/
abbrev FileMap := HashMap Text (List (Text × Text × FileChange))

def FileMap.changes (contributions : List AgentContribution) :
    List (Text × Text × FileChange) :=
  contributions.flatMap fun contrib =>
    contrib.fileChanges.map fun fc => (contrib.agentId, contrib.taskDescription, fc)

def FileMap.build (contributions : List AgentContribution) : FileMap :=
  HashMap.groupBy (fun e : Text × Text × FileChange => e.2.2.filePath) id
    (FileMap.changes contributions)

def synthesizedHeader (filePath : Text) (lineCount : ℕ) : List Text :=
  [headerPathPrefix ++ filePath ++ bPrefix ++ filePath,
    "index 0000000..0000001 100644".toList,
    oldLabelPrefix ++ ['a', '/'] ++ filePath,
    newLabelPrefix ++ ['b', '/'] ++ filePath,
    hunkPrefix ++ "-0,0 +1,".toList ++ showNat lineCount ++ " @@".toList]

def synthesizeDiffFromContent (filePath content : Text) : Text :=
  let contentLines := lines content
  joinLines (synthesizedHeader filePath contentLines.length) ++ ['\n'] ++
    joinLines (contentLines.map ('+' :: ·)) ++ ['\n']

def nonemptyDiff (diff : Text) : Option Text := if diff = [] then none else some diff

def buildDiffForDecision (decision : MergeDecision) (fileMap : FileMap) : Option Text :=
  match fileMap.lookup decision.filePath with
  | none => none
  | some entries =>
    let firstDiff := entries.head?.bind fun e => nonemptyDiff e.2.2.rawDiff
    match decision.action with
    | .accept fromAgent =>
      ((entries.find? fun e => e.1 = fromAgent).or entries.head?).bind fun e =>
        nonemptyDiff e.2.2.rawDiff
    | .merge =>
      match decision.finalContent with
      | some content =>
        if content ≠ [] then some (synthesizeDiffFromContent decision.filePath content)
        else firstDiff
      | none => firstDiff
    | .delete => none
    | .reject _ => none

def severityLabel : ConflictSeverity → Text
  | .low => "Low".toList
  | .medium => "Medium".toList
  | .high => "High".toList
  | .critical => "Critical".toList

def changeLabel : ChangeType → Text
  | .added => "Added (new file)".toList
  | .modified => "Modified".toList
  | .deleted => "Deleted".toList
  | .renamed from_ => "Renamed from '".toList ++ from_ ++ "'".toList

def agentSection (e : Text × Text × FileChange) : Text :=
  "  Agent: ".toList ++ e.1 ++ "\n  Task: ".toList ++ e.2.1 ++ "\n  Change: ".toList ++
    changeLabel e.2.2.changeType ++ "\n  Diff:\n".toList ++
    joinLines ((lines e.2.2.rawDiff).map ("    ".toList ++ ·)) ++ "\n".toList

def conflictSection (fileMap : FileMap) (conflict : MergeConflict) : Text :=
  "FILE: ".toList ++ conflict.filePath ++ "\nSeverity: ".toList ++
    severityLabel conflict.severity ++ "\nConflict: ".toList ++ conflict.description ++
    "\n\nAgent contributions:\n".toList ++
    joinLines ((fileMap.bucket conflict.filePath).map agentSection)

def promptIntro : Text :=
  ("You are a senior engineer resolving merge conflicts from parallel AI agents working on " ++
    "the same codebase.\n\nAgent IDs: ").toList

def promptConflicts : Text :=
  ("\n\nFor each conflict below, decide how to resolve it. Output a JSON array of decisions." ++
    "\n\nCONFLICTS:\n").toList

def promptFormat : Text :=
  ("\n\nRespond with a JSON array where each element is:\n\x7b\n" ++
    "  \"file_path\": \"exact file path\",\n" ++
    "  \"action\": \"accept\" | \"merge\" | \"reject\" | \"delete\",\n" ++
    "  \"agent_id\": \"agent-id-to-accept-from\",\n" ++
    "  \"merged_content\": \"complete merged file content (only when action is merge)\",\n" ++
    "  \"reasoning\": \"brief explanation\"\n\x7d\n").toList

def promptRules : Text :=
  ("\nResolution rules:\n" ++
    "- \"accept\": Pick one agent's version wholesale. Set \"agent_id\" to the chosen agent. " ++
    "Use when one agent's change clearly supersedes the other.\n" ++
    "- \"merge\": Combine both agents' changes. Provide the COMPLETE merged file content in " ++
    "\"merged_content\". Use when changes are complementary.\n" ++
    "- \"delete\": File should be deleted. Use when a delete conflicts with a modify and " ++
    "deletion is correct.\n" ++
    "- \"reject\": Drop all changes to this file. Last resort only.\n").toList

def promptGuidelines : Text :=
  ("\nGuidelines:\n" ++
    "- If agents modified different functions in the same file, MERGE them (provide full " ++
    "merged content)\n" ++
    "- If agents contradict each other, ACCEPT the one that matches the overall task intent\n" ++
    "- Prefer delete conflicts → accept the modify unless deletion is clearly right\n" ++
    "- Always preserve working code over broken code\n" ++
    "\nOutput ONLY the JSON array, no other text.").toList

def buildConflictPrompt (conflicts : List MergeConflict) (fileMap : FileMap)
    (contributions : List AgentContribution) : Text :=
  promptIntro ++ ", ".toList.intercalate (contributions.map (·.agentId)) ++ promptConflicts ++
    "\n\n---\n\n".toList.intercalate (conflicts.map (conflictSection fileMap)) ++ promptFormat ++
    promptRules ++ promptGuidelines

def systemPrompt : Text :=
  ("You are a senior software engineer resolving merge conflicts. Respond ONLY with a valid " ++
    "JSON array.").toList

def maxRetries : ℕ := 3

def callLlmFrom (llm : Llm) (prompt : Text) (attempt : ℕ) (lastErr : Option Text) :
    ℕ → Except Text Text
  | 0 =>
    .error (lastErr.getD ("LLM call failed after ".toList ++ showNat maxRetries ++
      " attempts".toList))
  | remaining + 1 =>
    match llm.generateText systemPrompt prompt attempt with
    | .ok text => .ok text
    | .error e =>
      if attempt < maxRetries - 1 then callLlmFrom llm prompt (attempt + 1) (some e) remaining
      else .error e

def callLlm (llm : Llm) (prompt : Text) : Except Text Text :=
  callLlmFrom llm prompt 0 none maxRetries

/-- The local variables of a review. -/
structure ReviewState where
  allDecisions : List MergeDecision
  diffParts : List Text
  filesAccepted : ℕ
  conflictsResolved : ℕ
  filesRejected : ℕ

namespace ReviewState

def start : ReviewState where
  allDecisions := []
  diffParts := []
  filesAccepted := 0
  conflictsResolved := 0
  filesRejected := 0

def finalDiff (st : ReviewState) : Text := joinLines st.diffParts

end ReviewState

def autoReasoning : Text := "Single agent modification — auto-accepted without LLM.".toList

def autoAcceptFile (fileMap : FileMap) (conflictFilePaths : List Text) (st : ReviewState)
    (filePath : Text) : ReviewState :=
  if filePath ∈ conflictFilePaths then st
  else
    match fileMap.bucket filePath with
    | [] => st
    | (agentId, _, fc) :: _ =>
      { st with
        allDecisions := st.allDecisions ++
          [{ filePath, action := .accept agentId, finalContent := none,
             reasoning := autoReasoning }]
        diffParts := st.diffParts ++ (nonemptyDiff fc.rawDiff).toList
        filesAccepted := st.filesAccepted + 1 }

def resolveDecision (fileMap : FileMap) (st : ReviewState) (decision : MergeDecision) :
    ReviewState :=
  let accepted : ReviewState :=
    { st with
      diffParts := st.diffParts ++
        ((buildDiffForDecision decision fileMap).bind nonemptyDiff).toList
      filesAccepted := st.filesAccepted + 1
      conflictsResolved := st.conflictsResolved + 1 }
  match decision.action with
  | .accept _ => accepted
  | .merge => accepted
  | .delete => { st with conflictsResolved := st.conflictsResolved + 1 }
  | .reject _ =>
    { st with
      filesRejected := st.filesRejected + 1
      conflictsResolved := st.conflictsResolved + 1 }

/-- `usize` subtraction. -/
def subUsize (mode : Overflow) (a b : ℕ) : Option ℕ :=
  if b ≤ a then some (a - b)
  else
    match mode with
    | .panics => none
    | .wraps => some (a + 2 ^ 64 - b)

/-- Phase 1: all files without a conflict, in the order in which the map is walked. -/
def autoAccept (order : IterOrder Text) (contributions : List AgentContribution)
    (conflicts : List MergeConflict) : ReviewState :=
  let fileMap := FileMap.build contributions
  (order.arrange fileMap.keys).foldl (autoAcceptFile fileMap (conflicts.map (·.filePath))) .start

def resolveAll (order : IterOrder Text) (contributions : List AgentContribution)
    (conflicts : List MergeConflict) (decisions : List MergeDecision) : ReviewState :=
  decisions.foldl (resolveDecision (FileMap.build contributions))
    (autoAccept order contributions conflicts)

def noConflictSummary (filesAccepted : ℕ) : Text :=
  "No conflicts detected. Auto-accepted ".toList ++ showNat filesAccepted ++ " files.".toList

def reviewSummary (contributions autoAccepted conflictsResolved filesRejected : ℕ) : Text :=
  "Reviewed ".toList ++ showNat contributions ++ " contributions: ".toList ++
    showNat autoAccepted ++ " files auto-accepted, ".toList ++ showNat conflictsResolved ++
    " conflicts resolved by LLM, ".toList ++ showNat filesRejected ++ " rejected.".toList

/-- `MergeReviewerAgent::review`. -/
def review (mode : Overflow) (order : IterOrder Text) (llm : Llm)
    (contributions : List AgentContribution) (conflicts : List MergeConflict) :
    Option (Except Text ReviewResult) :=
  if contributions = [] then
    some (.ok { decisions := [], finalDiff := [], conflictsResolved := 0, filesAccepted := 0,
                filesRejected := 0, summary := "No contributions to review.".toList })
  else
    let st := autoAccept order contributions conflicts
    if conflicts = [] then
      some (.ok { decisions := st.allDecisions, finalDiff := st.finalDiff, conflictsResolved := 0,
                  filesAccepted := st.filesAccepted, filesRejected := 0,
                  summary := noConflictSummary st.filesAccepted })
    else
      match callLlm llm (buildConflictPrompt conflicts (FileMap.build contributions)
        contributions) with
      | .error e => some (.error e)
      | .ok llmRaw =>
        let conflictDecisions := parseLlmDecisions llm.fromStr llmRaw conflicts
        let st := resolveAll order contributions conflicts conflictDecisions
        match (subUsize mode st.conflictsResolved st.filesRejected).bind
          (subUsize mode st.filesAccepted) with
        | none => none
        | some autoAccepted =>
          some (.ok { decisions := st.allDecisions ++ conflictDecisions
                      finalDiff := st.finalDiff
                      conflictsResolved := st.conflictsResolved
                      filesAccepted := st.filesAccepted
                      filesRejected := st.filesRejected
                      summary := reviewSummary contributions.length autoAccepted
                        st.conflictsResolved st.filesRejected })

end Mowis.Review
