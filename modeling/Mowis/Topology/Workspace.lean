import Mowis.Review.Apply

/-!
# Workspaces and the git commands run in them

The `/workspace` of a container and what the shell commands of
`agentd/src/orchestration/sandbox_topology.rs` and `agent_execution.rs` do there.  The `git`
program is not part of the repository; of it only what these commands rely on is a parameter.
-/

namespace Mowis.Topology

open Mowis.Lib Mowis.Review

def noFiles : Files := fun _ => none

structure Repo where
  /-- The tree of the commit `HEAD` names; none before the first commit. -/
  head : Option Files
  index : Files

structure Workspace where
  /-- Everything below `/workspace` but the repository's own `.git`. -/
  files : Files
  repo : Option Repo

namespace Workspace

variable (w : Workspace)

def headTree : Option Files := w.repo.bind Repo.head

def tracked (path : Text) : Bool := (w.repo.bind fun r => r.index path).isSome

end Workspace

/-- What the model takes from the `git` program. -/
structure Git where
  /-- The path is excluded by the ignore rules found among the files. -/
  ignored : Files → Text → Bool
  /-- The path is below a directory with a repository of its own. -/
  nested : Files → Text → Bool
  /-- What `git diff --cached --no-color` prints of a commit and an index. -/
  diff : Files → Files → Text
  /-- `git apply`. -/
  apply : Text → Files → Option Files

namespace Git

variable (git : Git) (w : Workspace)

def visible : Files := fun path =>
  if w.tracked path || !git.ignored w.files path then w.files path else none

/-- What `git add -A` puts into the index: no file below a nested repository. -/
def staged : Files := fun path =>
  if w.tracked path || !(git.ignored w.files path || git.nested w.files path) then w.files path
  else none

/-- `git add -A`. -/
def add : Workspace := { w with repo := w.repo.map fun r => { r with index := git.staged w } }

/-- `git clean -fd` removes what is neither tracked nor ignored nor below a nested repository.
It fails outside a repository. -/
def clean : Workspace :=
  match w.repo with
  | none => w
  | some _ =>
    { w with
      files := fun path =>
        if w.tracked path || git.ignored w.files path || git.nested w.files path then w.files path
        else none }

end Git

namespace Workspace

variable (w : Workspace)

/-- `git init`, which leaves a repository that exists alone. -/
def init : Workspace := { w with repo := some (w.repo.getD ⟨none, noFiles⟩) }

/-- `git rev-parse HEAD || git commit --allow-empty -m 'base'`. -/
def commitBase : Workspace :=
  { w with repo := w.repo.map fun r => { r with head := some (r.head.getD r.index) } }

/-- `git reset --hard HEAD`: the files of the commit come back, the other tracked files go, and
files that are not tracked stay.  It fails without a commit. -/
def resetHard : Workspace :=
  match w.repo with
  | some ⟨some head, index⟩ =>
    { files := fun path =>
        match head path with
        | some content => some content
        | none => if (index path).isSome then none else w.files path
      repo := some ⟨some head, head⟩ }
  | _ => w

@[simp] theorem init_files : w.init.files = w.files := rfl

@[simp] theorem commitBase_files : w.commitBase.files = w.files := rfl

end Workspace

/-- Which commands of `create_agent_layer` do their work; their results are not looked at. -/
structure CreateFate where
  inits : Bool
  adds : Bool
  commits : Bool

def CreateFate.completed : CreateFate := ⟨true, true, true⟩

/-- The commands of `create_agent_layer` on the workspace of a new container. -/
def createAgentLayer (git : Git) (fate : CreateFate) (w : Workspace) : Workspace :=
  let w := if fate.inits then w.init else w
  let w := if fate.adds then git.add w else w
  if fate.commits then w.commitBase else w

namespace Git

variable (git : Git) (w : Workspace)

@[simp] theorem add_files : (git.add w).files = w.files := rfl

@[simp] theorem add_headTree : (git.add w).headTree = w.headTree := by
  rw [Workspace.headTree, Workspace.headTree, add]
  cases w.repo <;> rfl

theorem add_index (r : Repo) (h : w.repo = some r) :
    (git.add w).repo = some { r with index := git.staged w } := by
  rw [add, h]
  rfl

end Git

end Mowis.Topology
