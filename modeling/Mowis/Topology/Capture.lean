import Mowis.Scheduling.Model
import Mowis.Topology.Patch
import Mowis.Topology.Workspace

/-!
# The diff of an agent's work

`execute_with_checkpoints` and `capture_git_diff` of
`agentd/src/orchestration/agent_execution.rs`, and the output limit of `run_command` in
`agentd/src/tools/shell.rs`.  A tool call does to the workspace whatever it does: an effect is
any function on workspaces.
-/

namespace Mowis.Topology

open Mowis.Lib Mowis.Review Mowis.Scheduling

/-- What the model keeps of the result of `run_command`. -/
structure CommandOutput where
  stdout : Text
  stderr : Text
  deriving DecidableEq

/-- How a request to run a command ends. -/
inductive Ran where
  | completed
  /-- Killed after its timeout, with nothing done. -/
  | timedOut
  /-- The tool reports an error: the response has no result. -/
  | refused
  /-- The request itself fails. -/
  | broken (e : Text)
  deriving DecidableEq

/-- `MAX_OUTPUT_SIZE`, in bytes. -/
def maxOutputSize : ℕ := 5 * 1024 * 1024

/-- `str::len`. -/
def byteLength (t : Text) : ℕ := (t.map Char.utf8Size).sum

/-- `&t[..n]`, which panics within a character. -/
def takeBytes : ℕ → Text → Option Text
  | n, [] => if n = 0 then some [] else none
  | n, c :: cs =>
    if n = 0 then some []
    else if c.utf8Size ≤ n then (takeBytes (n - c.utf8Size) cs).map (c :: ·)
    else none

/-- The output a command is allowed; `none` is the panic. -/
def limitOutput (t : Text) : Option Text :=
  if maxOutputSize < byteLength t then
    (takeBytes maxOutputSize t).map fun kept =>
      kept ++ "... [truncated, ".toList ++ showNat (byteLength t) ++ " bytes total]".toList
  else some t

def timeoutText (seconds : ℕ) : Text :=
  "Command timed out after ".toList ++ showNat seconds ++ " seconds".toList

/-- The response to a command with a timeout of 30 seconds that prints `printed`; a tool that
panics closes the connection. -/
def respond (ran : Ran) (printed : Text) : Except Text (Option CommandOutput) :=
  match ran with
  | .completed =>
    match limitOutput printed with
    | some stdout => .ok (some ⟨stdout, []⟩)
    | none => .error "read socket: socket closed by server".toList
  | .timedOut => .ok (some ⟨[], timeoutText 30⟩)
  | .refused => .ok none
  | .broken e => .error e

def diffMarker : Text := "diff --git".toList

/-- What `git diff --cached` prints outside a repository. -/
def notARepository : Text :=
  "warning: Not a git repository. Use --no-index to compare two paths outside a working tree".toList

/-- What `git diff --cached --no-color 2>&1` prints; before the first commit it compares with
the empty tree. -/
def diffCached (git : Git) (w : Workspace) : Text :=
  match w.repo with
  | none => notARepository
  | some r => git.diff (r.head.getD noFiles) r.index

def diffOfOutput : Option CommandOutput → Except Text Text
  | none => .ok []
  | some out =>
    let trimmed := trim out.stdout
    if trimmed ≠ [] ∧ diffMarker <:+: trimmed then .ok trimmed
    else if trim out.stderr ≠ [] ∧ "fatal".toList <:+: out.stderr then
      .error ("git diff failed: ".toList ++ out.stderr)
    else .ok []

/-- How the two commands of `capture_git_diff` end. -/
structure CaptureFate where
  add : Ran
  diff : Ran

/-- The result of `git add -A` is not looked at. -/
def captureGitDiff (git : Git) (fate : CaptureFate) (w : Workspace) : Except Text Text × Workspace :=
  match respond fate.add [] with
  | .error e => (.error e, w)
  | .ok _ =>
    let w := if fate.add = .completed then git.add w else w
    match respond fate.diff (diffCached git w) with
    | .error e => (.error e, w)
    | .ok out => (diffOfOutput out, w)

structure ToolRun where
  effect : Workspace → Workspace
  /-- The error of the transport, after the retries. -/
  error : Option String

/-- What the model replies in a round. -/
inductive RoundReply where
  | failed (e : String)
  /-- No tool calls: the agent has finished. -/
  | finished
  | calls (calls : List ToolRun)

def runCalls : List ToolRun → Workspace → Option String × Workspace
  | [], w => (none, w)
  | call :: rest, w =>
    match call.error with
    | some e => (some e, call.effect w)
    | none => runCalls rest (call.effect w)

def finish (taskId : TaskId) (captured : Except Text Text) : AgentResult where
  taskId := taskId
  success := true
  gitDiff := captured.toOption.map String.ofList
  error := none

/-- The rounds of an agent, with a reply for each of the `max_tool_rounds`. -/
def executeWithCheckpoints (git : Git) (fate : CaptureFate) (taskId : TaskId) :
    List RoundReply → Workspace → Except String AgentResult × Workspace
  | [], w => (.ok ⟨taskId, false, none, some "Max tool rounds exceeded (permanent failure)"⟩, w)
  | .failed e :: _, w => (.error e, w)
  | .finished :: _, w =>
    let (captured, w) := captureGitDiff git fate w
    (.ok (finish taskId captured), w)
  | .calls calls :: rest, w =>
    match runCalls calls w with
    | (some e, w) => (.error e, w)
    | (none, w) => executeWithCheckpoints git fate taskId rest w

namespace Workspace

end Workspace

def Prints (fate : CaptureFate) (w : Workspace) : Prop :=
  fate.diff = .completed ∧ w.repo.isSome

theorem patchFiles_nil (files : Files) : patchFiles [] files = some files :=
  patchFiles_of_no_header (by decide) files

theorem diffMarker_isPrefix : diffMarker <+: headerPrefix := by decide

theorem patchFiles_kept {printed t : Text} (hends : printed = [] ∨ printed = endLine (trim printed))
    (ht : diffOfOutput (some ⟨printed, []⟩) = .ok t) : patchFiles t = patchFiles printed := by
  have htrim : patchFiles (trim printed) = patchFiles printed := by
    rcases hends with rfl | hends
    · rfl
    · have hline := patchFiles_endLine (trim printed)
      rw [← hends] at hline
      exact hline.symm
  rw [diffOfOutput] at ht
  simp only at ht
  split at ht
  · obtain rfl := Except.ok.inj ht
    exact htrim
  · next hnone =>
    -- nothing is kept, and the text has no header
    rw [if_neg (fun h => h.1 rfl)] at ht
    obtain rfl := Except.ok.inj ht
    have hheader : ¬ headerPrefix <:+: trim printed := by
      intro hinfix
      refine hnone ⟨?_, diffMarker_isPrefix.isInfix.trans hinfix⟩
      intro hempty
      rw [hempty] at hinfix
      exact absurd hinfix (by decide)
    rw [← htrim]
    funext files
    rw [patchFiles_nil, patchFiles_of_no_header hheader]

/-- The workspace an agent has finished with; none where it does not come to that. -/
def workspaceAtEnd : List RoundReply → Workspace → Option Workspace
  | [], _ => none
  | .failed _ :: _, _ => none
  | .finished :: _, w => some w
  | .calls calls :: rest, w =>
    match runCalls calls w with
    | (some _, _) => none
    | (none, w) => workspaceAtEnd rest w

def stagedBy (git : Git) (fate : CaptureFate) (w : Workspace) : Workspace :=
  if fate.add = .completed then git.add w else w

/-- Both requests are answered. -/
structure Answered (git : Git) (fate : CaptureFate) (w : Workspace) : Prop where
  add : ∀ e, fate.add ≠ .broken e
  diff : ∀ e, fate.diff ≠ .broken e
  limit : fate.diff = .completed → (limitOutput (diffCached git (stagedBy git fate w))).isSome

/-- The diff command prints a diff, and it is found in the output. -/
structure Shows (git : Git) (fate : CaptureFate) (w : Workspace) (out : Text) : Prop where
  add : ∀ e, fate.add ≠ .broken e
  diff : fate.diff = .completed
  limit : limitOutput (diffCached git (stagedBy git fate w)) = some out
  marked : diffMarker <:+: trim out

theorem execute_of_workspaceAtEnd {git : Git} {fate : CaptureFate} {taskId : TaskId}
    {replies : List RoundReply} {w₀ w : Workspace} (h : workspaceAtEnd replies w₀ = some w) :
    executeWithCheckpoints git fate taskId replies w₀ =
      (.ok (finish taskId (captureGitDiff git fate w).1), (captureGitDiff git fate w).2) := by
  induction replies generalizing w₀ with
  | nil => cases h
  | cons reply rest ih =>
    cases reply with
    | failed e => cases h
    | finished =>
      obtain rfl := Option.some.inj h
      rfl
    | calls calls =>
      rw [workspaceAtEnd] at h
      rw [executeWithCheckpoints]
      split at h
      · cases h
      · exact ih h

theorem execute_of_no_end {git : Git} {fate : CaptureFate} {taskId : TaskId}
    {replies : List RoundReply} {w₀ : Workspace} {r : AgentResult}
    (h : workspaceAtEnd replies w₀ = none)
    (hrun : (executeWithCheckpoints git fate taskId replies w₀).1 = .ok r) : r.success = false := by
  induction replies generalizing w₀ with
  | nil =>
    obtain rfl := Except.ok.inj hrun
    rfl
  | cons reply rest ih =>
    cases reply with
    | failed e => cases hrun
    | finished => cases h
    | calls calls =>
      rw [workspaceAtEnd] at h
      rw [executeWithCheckpoints] at hrun
      split at hrun
      · cases hrun
      · next hcalls =>
        rw [hcalls] at h
        exact ih h hrun

theorem respond_add {ran : Ran} (h : ∀ e, ran ≠ .broken e) : ∃ out, respond ran [] = .ok out := by
  cases ran with
  | completed => exact ⟨some ⟨[], []⟩, by decide⟩
  | timedOut => exact ⟨_, rfl⟩
  | refused => exact ⟨_, rfl⟩
  | broken e => exact absurd rfl (h e)

theorem captureGitDiff_of_add {git : Git} {fate : CaptureFate} {w : Workspace}
    (h : ∀ e, fate.add ≠ .broken e) {o : Option CommandOutput}
    (hdiff : respond fate.diff (diffCached git (stagedBy git fate w)) = .ok o) :
    captureGitDiff git fate w = (diffOfOutput o, stagedBy git fate w) := by
  obtain ⟨added, hadd⟩ := respond_add h
  rw [captureGitDiff, hadd]
  simp only
  rw [stagedBy] at hdiff ⊢
  rw [hdiff]

theorem captureGitDiff_of_shows {git : Git} {fate : CaptureFate} {w : Workspace} {out : Text}
    (h : Shows git fate w out) :
    captureGitDiff git fate w = (.ok (trim out), stagedBy git fate w) := by
  have hdiff : respond fate.diff (diffCached git (stagedBy git fate w)) = .ok (some ⟨out, []⟩) := by
    rw [h.diff, respond, h.limit]
  have hne : trim out ≠ [] := by
    intro hempty
    have hmarked := h.marked
    rw [hempty] at hmarked
    exact absurd hmarked (by decide)
  rw [captureGitDiff_of_add h.add hdiff, diffOfOutput, if_pos ⟨hne, h.marked⟩]

theorem captureGitDiff_of_not_shows {git : Git} {fate : CaptureFate} {w : Workspace}
    (h : Answered git fate w) (hno : ∀ out, ¬ Shows git fate w out) :
    captureGitDiff git fate w = (.ok [], stagedBy git fate w) := by
  cases hran : fate.diff with
  | completed =>
    obtain ⟨out, hout⟩ := Option.isSome_iff_exists.mp (h.limit hran)
    have hdiff : respond fate.diff (diffCached git (stagedBy git fate w)) =
        .ok (some ⟨out, []⟩) := by rw [hran, respond, hout]
    rw [captureGitDiff_of_add h.add hdiff, diffOfOutput,
      if_neg (fun hfound => hno out ⟨h.add, hran, hout, hfound.2⟩),
      if_neg (fun hfatal => hfatal.1 rfl)]
  | timedOut =>
    have hempty : diffOfOutput (some ⟨[], timeoutText 30⟩) = .ok [] := by decide
    rw [captureGitDiff_of_add h.add (o := some ⟨[], timeoutText 30⟩) (by rw [hran]; rfl), hempty]
  | refused =>
    rw [captureGitDiff_of_add h.add (o := none) (by rw [hran]; rfl)]
    rfl
  | broken e => exact absurd hran (h.diff e)

theorem captureGitDiff_of_not_answered {git : Git} {fate : CaptureFate} {w : Workspace}
    (h : ¬ Answered git fate w) : ∃ e, (captureGitDiff git fate w).1 = .error e := by
  by_cases hadd : ∀ e, fate.add ≠ .broken e
  · cases hdiff : respond fate.diff (diffCached git (stagedBy git fate w)) with
    | error e =>
      obtain ⟨added, hadded⟩ := respond_add hadd
      refine ⟨e, ?_⟩
      rw [captureGitDiff, hadded]
      simp only
      rw [stagedBy] at hdiff
      rw [hdiff]
    | ok out =>
      refine absurd ⟨hadd, ?_, ?_⟩ h
      · intro e he
        rw [he] at hdiff
        cases hdiff
      · intro hran
        rw [hran, respond] at hdiff
        split at hdiff
        · next hlimit => rw [hlimit, Option.isSome_some]
        · cases hdiff
  · push Not at hadd
    obtain ⟨e, he⟩ := hadd
    refine ⟨e, ?_⟩
    rw [captureGitDiff, he]
    rfl

def aFile : Text := "a.txt".toList

def oneFile (content : Text) : Files := Function.update noFiles aFile (some content)

/-- What `git` prints when the line `1` of the file becomes `2`. -/
def editDiff : Text :=
  ("diff --git a/a.txt b/a.txt\nindex d00491f..0cfbf08 100644\n--- a/a.txt\n+++ b/a.txt\n" ++
    "@@ -1 +1 @@\n-1\n+2\n").toList

/-- `git` on this file, which no rule ignores. -/
def editGit : Git where
  ignored _ _ := false
  nested _ _ := false
  diff head index := if head aFile = index aFile then [] else editDiff
  apply := patchFiles

def fresh : Workspace := { files := oneFile "1\n".toList, repo := none }

def writeTwo (w : Workspace) : Workspace :=
  { w with files := Function.update w.files aFile (some "2\n".toList) }

/-- An agent that makes one tool call in one round, and has finished in the next. -/
def runEdit (effect : Workspace → Workspace) : Except String AgentResult × Workspace :=
  executeWithCheckpoints editGit ⟨.completed, .completed⟩ "edit" [.calls [⟨effect, none⟩], .finished]
    (createAgentLayer editGit .completed fresh)

def editChange : FileChange where
  filePath := aFile
  changeType := .modified
  hunks := [{ oldStart := 1, oldCount := 1, newStart := 1, newCount := 1,
              content := "@@ -1 +1 @@\n-1\n+2\n".toList }]
  rawDiff := editDiff

theorem patchFiles_editDiff :
    patchFiles editDiff (oneFile "1\n".toList) = some (oneFile "2\n".toList) := by
  have hread : readDiff editDiff = some [editChange] := by decide +kernel
  have hhunks : patchHunks editChange "1\n".toList = some "2\n".toList := by decide
  have hkind : editChange.changeType = .modified := rfl
  have hpath : editChange.filePath = aFile := rfl
  rw [patchFiles, hread]
  show runAll patchChange [editChange] _ = _
  simp only [runAll, patchChange, hkind, hpath, oneFile, Function.update_self, hhunks,
    Option.map_some, Function.update_idem]

theorem staged_editGit (w : Workspace) : editGit.staged w = w.files := by
  funext path
  simp [Git.staged, editGit]

theorem add_editGit (files : Files) (r : Repo) :
    editGit.add ⟨files, some r⟩ = ⟨files, some { r with index := files }⟩ := by
  show ({ files := files, repo := some { r with index := editGit.staged ⟨files, some r⟩ } } :
    Workspace) = _
  rw [staged_editGit]

theorem create_fresh : createAgentLayer editGit .completed fresh =
    ⟨oneFile "1\n".toList, some ⟨some (oneFile "1\n".toList), oneFile "1\n".toList⟩⟩ := by
  show (editGit.add ⟨oneFile "1\n".toList, some ⟨none, noFiles⟩⟩).commitBase = _
  rw [add_editGit]
  rfl

theorem runEdit_snd (effect : Workspace → Workspace) (files head index : Files)
    (heffect : effect (createAgentLayer editGit .completed fresh) =
      ⟨files, some ⟨some head, index⟩⟩) :
    (runEdit effect).2 = ⟨files, some ⟨some head, files⟩⟩ := by
  have hcap : (captureGitDiff editGit ⟨.completed, .completed⟩
      ⟨files, some ⟨some head, index⟩⟩).2 = ⟨files, some ⟨some head, files⟩⟩ := by
    have hadd : respond .completed [] = .ok (some ⟨[], []⟩) := by decide
    rw [captureGitDiff, hadd]
    simp only [if_true, add_editGit]
    split <;> rfl
  rw [runEdit, executeWithCheckpoints, runCalls]
  simp only [runCalls, heffect]
  rw [executeWithCheckpoints]
  exact hcap

/-- The agent has written the file, and left it at that. -/
def edited : Workspace where
  files := oneFile "2\n".toList
  repo := some ⟨some (oneFile "1\n".toList), oneFile "2\n".toList⟩

theorem runEdit_writeTwo :
    runEdit writeTwo = (.ok ⟨"edit", true, some (String.ofList (trim editDiff)), none⟩, edited) := by
  refine Prod.ext (by decide) (runEdit_snd writeTwo _ _ (oneFile "1\n".toList) ?_)
  rw [create_fresh, writeTwo]
  simp only [oneFile, Function.update_idem]

end Mowis.Topology
