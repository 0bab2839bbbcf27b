import Mowis.Export.Copy
import Mowis.Lib.Overwriting
import Mowis.Topology.Manager

/-!
# Staging workspaces, and exporting them

`stage_agent_workspace`, `export_staged_workspaces`, `export_staged_workspaces_from_dir` and
`export_container_workspaces_to_host` of `agentd/src/orchestration/sandbox_topology.rs`, and the two
walks below them.  The staging directory starts empty, a missing one is as an empty one, and a run
ends with the first error.  The log lines are left out, and with them the panic on the identifier of
an agent that has fewer than eight bytes.
-/

namespace Mowis.Export

open Mowis.Lib
open Mowis.Topology (AgentId ContainerId SandboxId TopologyManager)
open Mowis.Scheduling (SandboxName)
open Mowis.Tools (bind_ok)

/-- An entry of `staged_workspaces`, with the workspace that was staged and what was copied of
it. -/
structure StagedWorkspace where
  agentId : AgentId
  sandboxName : SandboxName
  containerId : ContainerId
  stagingPath : String
  workspace : Workspace
  copied : List (Path × Bytes)

/-- The staging directory, and `staged_workspaces`. -/
structure Staging where
  root : HostTree
  staged : List StagedWorkspace

def Staging.start : Staging := ⟨.dir [], []⟩

/-- A call of `stage_agent_workspace`: the tables of the manager, the workspaces of the containers,
and how the requests and calls end. -/
structure StageCall where
  agent : AgentId
  manager : TopologyManager
  workspaceOf : SandboxId → ContainerId → Option Workspace
  fate : Fate

/-- The directory of an agent, with every character replaced that is not alphanumeric. -/
def stagedName (isAlphanumeric : Char → Bool) (agent : AgentId) : String :=
  String.ofList ("staged-".toList ++ agent.toList.map fun c => if isAlphanumeric c then c else '_')

def stageAgentWorkspace (isAlphanumeric : Char → Bool) (c : StageCall) (s : Staging) :
    Except ExportError Staging :=
  match c.manager.containers.lookup c.agent with
  | none => .error (.containerNotFound c.agent)
  | some containerId =>
    match c.manager.agentSandboxes.lookup c.agent with
    | none => .error (.sandboxNotFoundForAgent c.agent)
    | some sandboxName =>
      match c.manager.sandboxes.lookup sandboxName with
      | none => .error (.sandboxNotFound sandboxName)
      | some sandboxId => do
        let stagingPath := stagedName isAlphanumeric c.agent
        let st ← CopyState.createDir c.fate [stagingPath] [] ⟨s.root, []⟩
        match c.workspaceOf sandboxId containerId with
        | none => .error (.request [])
        | some workspace => do
          let st ← copyWorkspaceDirRecursive c.fate [stagingPath] [] workspace.tree st
          .ok
            { root := st.out
              staged := s.staged ++ [{
                agentId := c.agent
                sandboxName
                containerId
                stagingPath
                workspace
                copied := st.copied }] }

def stageAll (isAlphanumeric : Char → Bool) (calls : List StageCall) :
    Staging → Except ExportError Staging :=
  fun s => calls.foldlM (fun s c => stageAgentWorkspace isAlphanumeric c s) s

def StageCall.workspace? (c : StageCall) : Option Workspace := do
  let containerId ← c.manager.containers.lookup c.agent
  let sandboxName ← c.manager.agentSandboxes.lookup c.agent
  let sandboxId ← c.manager.sandboxes.lookup sandboxName
  c.workspaceOf sandboxId containerId

structure HostWorkspaceExportSummary where
  containersFound : ℕ
  workspacesCopied : ℕ
  filesCopied : ℕ
  deriving DecidableEq, Repr

/-- The output directory and what was copied to it, with the summary. -/
structure Exported where
  state : CopyState
  summary : HostWorkspaceExportSummary

def Exported.start (st : CopyState) : Exported := ⟨st, 0, 0, 0⟩

/-- `copy_dir_contents_recursive` of a directory, into the output. -/
def exportDir {C : Type} (fate : Fate) (opens : C → Option Bytes) (entries : Entries String C)
    (e : Exported) : Except ExportError Exported := do
  answered (fate.lists []) (.readDir [])
  let st ← copyDirContentsRecursive fate opens [] entries e.state
  .ok
    { state := st
      summary := { e.summary with
        workspacesCopied := e.summary.workspacesCopied + 1
        filesCopied := e.summary.filesCopied + (st.copied.length - e.state.copied.length) } }

def Exported.found (e : Exported) : Exported :=
  { e with summary := { e.summary with containersFound := e.summary.containersFound + 1 } }

def Staging.entry (s : Staging) (name : String) : Option HostTree :=
  match s.root with
  | .file _ => none
  | .dir entries => Lib.entry entries name

def Staging.entries (s : Staging) : Entries String Bytes :=
  match s.root with
  | .file _ => []
  | .dir entries => entries

section Exports

variable (fate : String → Fate)

/-- The body of the loop over `staged_workspaces`: a directory that is gone is passed over. -/
def exportStaged (s : Staging) (w : StagedWorkspace) (e : Exported) : Except ExportError Exported :=
  match s.entry w.stagingPath with
  | none => .ok e
  | some (.file _) => .error (.readDir [])
  | some (.dir entries) => exportDir (fate w.stagingPath) some entries e

/-- `export_staged_workspaces`; `contended` when `try_read` does not get the lock. -/
def exportStagedWorkspaces (output : Fate) (contended : Bool) (s : Staging) (out : HostTree) :
    Except ExportError Exported := do
  let st ← CopyState.createDir output [] [] ⟨out, []⟩
  if contended then .ok (.start st)
  else
    let e := { Exported.start st with summary := ⟨s.staged.length, 0, 0⟩ }
    s.staged.foldlM (fun e w => exportStaged fate s w e) e

def isStaged (name : String) : Bool := "staged-".toList.isPrefixOf name.toList

def exportStagedEntry (entry : String × HostTree) (e : Exported) : Except ExportError Exported :=
  match entry with
  | (_, .file _) => .ok e
  | (name, .dir entries) =>
    if isStaged name then exportDir (fate name) some entries e.found else .ok e

/-- `export_staged_workspaces_from_dir`. -/
def exportStagedWorkspacesFromDir (output : Fate) (order : IterOrder (String × HostTree))
    (s : Staging) (out : HostTree) : Except ExportError Exported := do
  let st ← CopyState.createDir output [] [] ⟨out, []⟩
  answered (output.lists []) (.readDir [])
  (order.arrange s.entries).foldlM (fun e entry => exportStagedEntry fate entry e) (.start st)

/-- An entry of the directory of the containers: whether it is a directory, what its
`root/workspace` is, and where links in there lead to on the host. -/
structure ContainerEntry where
  name : String
  isDir : Bool
  workspace : Option Workspace
  follow : Follow

def isContainer (name : String) : Bool := "container-".toList.isPrefixOf name.toList

def ContainerEntry.workspace? (entry : ContainerEntry) : Option Workspace :=
  if isContainer entry.name && entry.isDir then entry.workspace else none

def exportContainer (entry : ContainerEntry) (e : Exported) : Except ExportError Exported :=
  if isContainer entry.name && entry.isDir then
    match entry.workspace with
    | none => .ok e.found
    | some w => exportDir (fate entry.name) id (hostEntries entry.follow [] w.entries) e.found
  else .ok e

/-- `export_container_workspaces_to_host`, with the entries as they are read. -/
def exportContainerWorkspacesToHost (output : Fate) (entries : List ContainerEntry)
    (out : HostTree) : Except ExportError Exported := do
  let st ← CopyState.createDir output [] [] ⟨out, []⟩
  answered (output.lists []) (.readDir [])
  entries.foldlM (fun e entry => exportContainer fate entry e) (.start st)

end Exports

/-- What the staging directory holds. -/
structure Staging.Sound (s : Staging) : Prop where
  top : s.root.dirAt [] = true
  distinct : s.root.Distinct
  dir : ∀ w ∈ s.staged, s.root.dirAt [w.stagingPath] = true
  named : ∀ w ∈ s.staged, isStaged w.stagingPath = true
  copied : ∀ w ∈ s.staged, ∀ p content, (p, content) ∈ w.copied ↔ shownAt w.workspace p = some content
  files : ∀ name q, s.root.fileAt (name :: q) =
    merged ((s.staged.filter (·.stagingPath = name)).map fun w => shownAt w.workspace) q

theorem isStaged_stagedName (isAlphanumeric : Char → Bool) (agent : AgentId) :
    isStaged (stagedName isAlphanumeric agent) = true := by
  unfold isStaged stagedName
  exact List.isPrefixOf_iff_prefix.mpr ⟨_, String.toList_ofList.symm⟩

theorem Staging.Sound.start : Staging.start.Sound where
  top := rfl
  distinct := ⟨List.nodup_nil, trivial⟩
  dir _ h := absurd h List.not_mem_nil
  named _ h := absurd h List.not_mem_nil
  copied _ h := absurd h List.not_mem_nil
  files _ _ := rfl

theorem mem_copied_iff {fate : Fate} {root : Path} {w : Workspace} {st st' : CopyState}
    (h : copyWorkspaceDirRecursive fate root [] w.tree st = .ok st') :
    ∃ ws, Wrote root ws st st' ∧ ∀ p content, (p, content) ∈ ws ↔ shownAt w p = some content := by
  obtain ⟨ws, hwrote, hmem⟩ := copyWorkspaceDirRecursive_ok w.tree [] st st' h
  refine ⟨ws, hwrote, ?_⟩
  intro p content
  have hdistinct : (Tree.dir (listedEntries maxListEntries w.entries)).Distinct :=
    listed_distinct w.tree _ w.distinct rfl
  rw [hmem, shownAt, ← Tree.mem_files_iff _ hdistinct]
  constructor
  · rintro ⟨t, ht, g, hg, heq⟩
    cases ht
    cases heq
    exact hg
  · intro hp
    exact ⟨_, rfl, (p, content), hp, rfl⟩

/-- **One call of `stage_agent_workspace`**: the workspace it finds is staged, and all that is shown
of it is in the directory of the agent. -/
theorem stageAgentWorkspace_sound {isAlphanumeric : Char → Bool} {c : StageCall} {s s' : Staging}
    (hs : s.Sound) (h : stageAgentWorkspace isAlphanumeric c s = .ok s') :
    s'.Sound ∧ ∃ w, c.workspace? = some w.workspace ∧ s'.staged = s.staged ++ [w] ∧
      w.stagingPath = stagedName isAlphanumeric c.agent := by
  unfold stageAgentWorkspace at h
  cases hcontainer : c.manager.containers.lookup c.agent with
  | none => simp [hcontainer] at h
  | some containerId =>
    cases hname : c.manager.agentSandboxes.lookup c.agent with
    | none => simp [hcontainer, hname] at h
    | some sandboxName =>
      cases hid : c.manager.sandboxes.lookup sandboxName with
      | none => simp [hcontainer, hname, hid] at h
      | some sandboxId =>
        simp only [hcontainer, hname, hid] at h
        obtain ⟨st, hcreate, h⟩ := bind_ok h
        obtain ⟨hcreated, hdir⟩ := Wrote.createDir hcreate
        cases hworkspace : c.workspaceOf sandboxId containerId with
        | none =>
          rw [hworkspace] at h
          cases h
        | some workspace =>
          rw [hworkspace] at h
          obtain ⟨st', hcopy, h⟩ := bind_ok h
          cases h
          obtain ⟨ws, hwrote, hmem⟩ := mem_copied_iff hcopy
          have hall := hcreated.trans hwrote
          have hcopied : st'.copied = ws := hall.copied
          have hfound : c.workspace? = some workspace := by
            simp [StageCall.workspace?, hcontainer, hname, hid, hworkspace]
          refine ⟨?_, _, hfound, rfl, rfl⟩
          constructor
          · exact hall.dirAt [] hs.top
          · exact hall.distinct hs.distinct
          · intro w hw
            rcases List.mem_append.mp hw with hw | hw
            · exact hall.dirAt _ (hs.dir w hw)
            · cases List.mem_singleton.mp hw
              exact hwrote.dirAt _ hdir
          · intro w hw
            rcases List.mem_append.mp hw with hw | hw
            · exact hs.named w hw
            · cases List.mem_singleton.mp hw
              exact isStaged_stagedName _ _
          · intro w hw
            rcases List.mem_append.mp hw with hw | hw
            · exact hs.copied w hw
            · cases List.mem_singleton.mp hw
              rw [hcopied]
              exact hmem
          · intro name q
            rw [List.filter_append, List.map_append, merged_append]
            by_cases hin : stagedName isAlphanumeric c.agent = name
            · subst hin
              rw [List.filter_cons_of_pos (by simp), List.filter_nil, List.map_singleton,
                merged_cons, merged_nil, Option.none_or, ← hs.files, ← lastWrite_eq_of_mem_iff hmem]
              exact hall.inside q
            · rw [List.filter_cons_of_neg (by simpa using hin), List.filter_nil, List.map_nil,
                merged_nil, Option.none_or, ← hs.files]
              refine hall.outside _ ?_
              intro hle
              exact hin (List.cons_prefix_cons.mp hle).1

/-- **Calls of `stage_agent_workspace`**, one after the other. -/
theorem stageAll_sound {isAlphanumeric : Char → Bool} {calls : List StageCall} {s s' : Staging}
    (hs : s.Sound) (h : stageAll isAlphanumeric calls s = .ok s') :
    s'.Sound ∧ s'.staged.map (·.workspace) =
      s.staged.map (·.workspace) ++ calls.filterMap StageCall.workspace? := by
  unfold stageAll at h
  induction calls generalizing s with
  | nil =>
    cases h
    exact ⟨hs, (List.append_nil _).symm⟩
  | cons c calls ih =>
    rw [List.foldlM_cons] at h
    obtain ⟨s₁, hstage, h⟩ := bind_ok h
    obtain ⟨hs₁, w, hfound, hstaged, _⟩ := stageAgentWorkspace_sound hs hstage
    obtain ⟨hs', hworkspaces⟩ := ih hs₁ h
    refine ⟨hs', ?_⟩
    rw [hworkspaces, hstaged, List.map_append, List.filterMap_cons_some hfound, List.append_assoc]
    rfl

section Exported

variable {fate : String → Fate} {s : Staging} {e e' : Exported}

theorem exportDir_ok {C : Type} {f : Fate} {opens : C → Option Bytes} {es : Entries String C}
    (hdistinct : (Tree.dir es).Distinct) (h : exportDir f opens es e = .ok e') :
    ∃ ws, Wrote [] ws e.state e'.state ∧
      ∀ p content, (p, content) ∈ ws ↔ ((Tree.dir es).fileAt p).bind opens = some content := by
  obtain ⟨_, _, h⟩ := bind_ok h
  obtain ⟨st, hcopy, h⟩ := bind_ok h
  cases h
  obtain ⟨ws, hwrote, hmem⟩ := copyDirContentsRecursive_ok es [] e.state st hcopy
  refine ⟨ws, hwrote, ?_⟩
  intro p content
  rw [hmem, Option.bind_eq_some_iff]
  constructor
  · rintro ⟨g, hg, hopens, rfl⟩
    exact ⟨g.2, (Tree.mem_files_iff _ hdistinct g.1 g.2).mp hg, hopens⟩
  · rintro ⟨c, hc, hopens⟩
    exact ⟨(p, c), (Tree.mem_files_iff _ hdistinct p c).mpr hc, hopens, rfl⟩

/-- **An export has at a path what the last directory with that path has**, if every step copies its
directory. -/
theorem foldlM_wrote {α : Type} {step : α → Exported → Except ExportError Exported}
    {part : α → Path → Option Bytes} {xs : List α}
    (hstep : ∀ a ∈ xs, ∀ e e', step a e = .ok e' →
      ∃ ws, Wrote [] ws e.state e'.state ∧ ∀ p content, (p, content) ∈ ws ↔ part a p = some content)
    (h : xs.foldlM (fun e a => step a e) e = .ok e') :
    ∃ ws, Wrote [] ws e.state e'.state ∧ (∀ q, lastWrite ws q = merged (xs.map part) q) ∧
      ∀ p content, (p, content) ∈ ws ↔ ∃ a ∈ xs, part a p = some content := by
  induction xs generalizing e with
  | nil =>
    cases h
    exact ⟨[], .refl [] e'.state, fun _ => rfl, by simp⟩
  | cons a xs ih =>
    rw [List.foldlM_cons] at h
    obtain ⟨e₁, ha, h⟩ := bind_ok h
    obtain ⟨ws, hwrote, hmem⟩ := hstep a List.mem_cons_self e e₁ ha
    obtain ⟨ws', hwrote', hlast', hmem'⟩ := ih (fun b hb => hstep b (List.mem_cons_of_mem a hb)) h
    refine ⟨ws ++ ws', hwrote.trans hwrote', ?_, ?_⟩
    · intro q
      rw [lastWrite_append, lastWrite_eq_of_mem_iff hmem, hlast', List.map_cons, merged_cons]
    · intro p content
      rw [List.mem_append, hmem, hmem', List.exists_mem_cons_iff]

theorem Staging.Sound.root_eq (hs : s.Sound) : s.root = .dir s.entries := by
  have htop := hs.top
  unfold Staging.entries
  cases hroot : s.root with
  | file c =>
    rw [hroot] at htop
    cases htop
  | dir es => rfl

theorem Staging.Sound.distinct_entries (hs : s.Sound) : (Tree.dir s.entries).Distinct :=
  hs.root_eq ▸ hs.distinct

theorem Staging.Sound.fileAt_entry (hs : s.Sound) {name : String} {node : HostTree}
    (h : Lib.entry s.entries name = some node) (q : Path) :
    s.root.fileAt (name :: q) = node.fileAt q := by
  rw [hs.root_eq, Tree.fileAt, h]

theorem Staging.Sound.entry_staged (hs : s.Sound) {w : StagedWorkspace} (hw : w ∈ s.staged) :
    ∃ es, Lib.entry s.entries w.stagingPath = some (.dir es) := by
  have hdir := hs.dir w hw
  rw [hs.root_eq, Tree.dirAt] at hdir
  cases hentry : Lib.entry s.entries w.stagingPath with
  | none => simp [hentry] at hdir
  | some t =>
    cases t with
    | file c => simp [hentry, Tree.dirAt] at hdir
    | dir es => exact ⟨es, rfl⟩

theorem exportStaged_ok (hs : s.Sound) {w : StagedWorkspace} (hw : w ∈ s.staged)
    (h : exportStaged fate s w e = .ok e') :
    ∃ ws, Wrote [] ws e.state e'.state ∧
      ∀ p content, (p, content) ∈ ws ↔ s.root.fileAt (w.stagingPath :: p) = some content := by
  obtain ⟨es, hentry⟩ := hs.entry_staged hw
  have hfound : s.entry w.stagingPath = some (.dir es) := by
    rw [Staging.entry, hs.root_eq]
    exact hentry
  rw [exportStaged, hfound] at h
  obtain ⟨ws, hwrote, hmem⟩ := exportDir_ok (hs.distinct_entries.of_entry hentry) h
  refine ⟨ws, hwrote, ?_⟩
  intro p content
  rw [hmem, Option.bind_fun_some, hs.fileAt_entry hentry]

def stagedPart (entry : String × HostTree) (q : Path) : Option Bytes :=
  match entry with
  | (_, .file _) => none
  | (name, .dir entries) => if isStaged name then (Tree.dir entries).fileAt q else none

theorem exportStagedEntry_ok {entry : String × HostTree} (hdistinct : entry.2.Distinct)
    (h : exportStagedEntry fate entry e = .ok e') :
    ∃ ws, Wrote [] ws e.state e'.state ∧
      ∀ p content, (p, content) ∈ ws ↔ stagedPart entry p = some content := by
  obtain ⟨name, node⟩ := entry
  cases node with
  | file c =>
    cases h
    exact ⟨[], .refl [] e.state, by simp [stagedPart]⟩
  | dir es =>
    simp only [exportStagedEntry] at h
    by_cases hname : isStaged name = true
    · rw [if_pos hname] at h
      obtain ⟨ws, hwrote, hmem⟩ := exportDir_ok hdistinct h
      refine ⟨ws, hwrote, ?_⟩
      intro p content
      rw [hmem, Option.bind_fun_some, stagedPart, if_pos hname]
    · rw [if_neg hname] at h
      cases h
      exact ⟨[], .refl [] e.state, by simp [stagedPart, hname]⟩

def ContainerEntry.part (entry : ContainerEntry) (q : Path) : Option Bytes :=
  match entry.workspace? with
  | none => none
  | some w => ((Tree.dir (hostEntries entry.follow [] w.entries)).fileAt q).bind id

theorem exportContainer_ok {entry : ContainerEntry} (h : exportContainer fate entry e = .ok e') :
    ∃ ws, Wrote [] ws e.state e'.state ∧
      ∀ p content, (p, content) ∈ ws ↔ entry.part p = some content := by
  have hskip : entry.workspace? = none → e'.state = e.state →
      ∃ ws, Wrote [] ws e.state e'.state ∧
      ∀ p content, (p, content) ∈ ws ↔ entry.part p = some content := by
    intro hnone hstate
    exact ⟨[], hstate ▸ .refl [] e.state, by simp [ContainerEntry.part, hnone]⟩
  unfold exportContainer at h
  by_cases hcontainer : (isContainer entry.name && entry.isDir) = true
  · rw [if_pos hcontainer] at h
    have hworkspace : entry.workspace? = entry.workspace := if_pos hcontainer
    cases hw : entry.workspace with
    | none =>
      rw [hw] at h
      cases h
      exact hskip (hworkspace.trans hw) rfl
    | some w =>
      rw [hw] at h
      have hdistinct : (Tree.dir (hostEntries entry.follow [] w.entries)).Distinct :=
        hostView_distinct w.tree [] w.distinct
      obtain ⟨ws, hwrote, hmem⟩ := exportDir_ok hdistinct h
      refine ⟨ws, hwrote, ?_⟩
      intro p content
      rw [hmem, ContainerEntry.part, hworkspace.trans hw]
  · rw [if_neg hcontainer] at h
    cases h
    exact hskip (if_neg hcontainer) rfl

end Exported

end Mowis.Export
