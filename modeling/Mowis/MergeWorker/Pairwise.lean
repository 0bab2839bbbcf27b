import Mowis.MergeWorker.Coordinator
import Mowis.Review.Apply

/-!
# Merging two diffs

`merge_two_diffs` of `agentd/src/orchestration/merge_worker.rs` on Linux: both diffs are applied to
a clone of the repository, one after the other; where one does not apply, a repaired diff from the
model is applied in its place.  Of `git`, what is not fixed here is a parameter.
-/

namespace Mowis.MergeWorker

open Mowis.Lib Mowis.Review

/-- What a patch makes of one or two files: their new contents, `none` where a file is removed. -/
abbrev Writes := List (Text × Option Text)

/-- A patch of a diff.  It is checked against the files as the patches before it leave them. -/
abbrev FilePatch := Files → Except Text Writes

/-- The parts of `git` that are not fixed here. -/
structure Git where
  /-- The patches of a diff, or why it cannot be read. -/
  read : Text → Except Text (List FilePatch)
  /-- The path is left out by `git add -A` as long as it is not tracked. -/
  leftOut : Files → Text → Bool
  /-- What `git diff --cached` prints of a commit and an index. -/
  diff : Files → Files → Text

def writeAll (writes : Writes) (files : Files) : Files :=
  writes.foldl (fun files w => Function.update files w.1 w.2) files

def checkAll : List FilePatch → Files → Except Text Writes
  | [], _ => .ok []
  | patch :: patches, files =>
    match patch files with
    | .error e => .error e
    | .ok writes =>
      match checkAll patches (writeAll writes files) with
      | .error e => .error e
      | .ok rest => .ok (writes ++ rest)

namespace Git

variable (git : Git)

/-- `git apply`: the files, and the error it prints if it fails. -/
def apply (diff : Text) (files : Files) : Files × Option Text :=
  match git.read diff with
  | .error e => (files, some e)
  | .ok patches =>
    match checkAll patches files with
    | .error e => (files, some e)
    | .ok writes => (writeAll writes files, none)

/-- `git add -A`. -/
def staged (base files : Files) : Files := fun path =>
  if (base path).isSome || !git.leftOut files path then files path else none

end Git

/-- One run of `git apply`. -/
structure Attempt where
  diff : Text
  repaired : Bool
  before : Files
  after : Files
  applied : Bool

/-- What changes in the course of a merge, with the attempts so far. -/
structure Merge where
  files : Files
  conflictsResolved : ℕ
  unresolvedConflicts : List Text
  attempts : List Attempt

/-- The errors by which the attempts to apply a diff end without a result: `git` does not start, or
the repaired diff cannot be written. -/
structure AttemptFate where
  apply : Option Text
  applyRepaired : Option Text

/-- The errors that end a merge without a result, and whether `git add` does its work, which is not
looked at. -/
structure MergeFate where
  /-- The directory, its patch files, the clone and its commit. -/
  prepare : Option Text
  first : AttemptFate
  second : AttemptFate
  adds : Bool
  capture : Option Text

def repairConflict (generate : ℕ → Text → Text → Text → Except Text Text) (maxRetries : ℕ)
    (diff1 diff2 conflict : Text) : Except Text Text :=
  match generate 0 diff1 diff2 conflict with
  | .ok text => .ok text
  | .error e => if maxRetries > 0 then generate 1 diff1 diff2 conflict else .error e

section merge

variable (git : Git)

/-- `apply_diff`, with the conflict if there is one. -/
def applyDiffTo (start : Option Text) (diff : Text) (repaired : Bool) (m : Merge) :
    Except Text (Option Text × Merge) :=
  match start with
  | some e => .error e
  | none =>
    let out := git.apply diff m.files
    .ok (out.2, { m with
      files := out.1
      attempts := m.attempts ++ [⟨diff, repaired, m.files, out.1, out.2.isNone⟩] })

def applyOrRepair (fate : AttemptFate) (repair : Text → Except Text Text) (diff : Text)
    (m : Merge) : Except Text Merge :=
  match applyDiffTo git fate.apply diff false m with
  | .error e => .error e
  | .ok (none, m) => .ok m
  | .ok (some conflict, m) =>
    match repair conflict with
    | .error e =>
      .ok { m with unresolvedConflicts := m.unresolvedConflicts ++ ["Repair failed: ".toList ++ e] }
    | .ok repaired =>
      match applyDiffTo git fate.applyRepaired repaired true m with
      | .error e => .error e
      | .ok (none, m) => .ok { m with conflictsResolved := m.conflictsResolved + 1 }
      | .ok (some conflict, m) =>
        .ok { m with unresolvedConflicts := m.unresolvedConflicts ++ [conflict] }

/-- The merge of two diffs on a clone of a commit; `generate` answers the calls for the first and
for the second diff. -/
def mergeTwoDiffs (fate : MergeFate)
    (generate : Bool → ℕ → Text → Text → Text → Except Text Text) (maxRetries : ℕ) (base : Files)
    (diff1 diff2 : Text) : Except Text (MergeResult × Merge) :=
  match fate.prepare with
  | some e => .error e
  | none =>
    match applyOrRepair git fate.first (repairConflict (generate false) maxRetries diff1 diff2)
        diff1 ⟨base, 0, [], []⟩ with
    | .error e => .error e
    | .ok m =>
      match applyOrRepair git fate.second (repairConflict (generate true) maxRetries diff1 diff2)
          diff2 m with
      | .error e => .error e
      | .ok m =>
        match fate.capture with
        | some e => .error e
        | none =>
          let index := if fate.adds then git.staged base m.files else base
          .ok (⟨m.unresolvedConflicts.isEmpty, git.diff base index, m.conflictsResolved,
            m.unresolvedConflicts⟩, m)

def Applies (diff : Text) (before after : Files) : Prop :=
  ∃ patches writes, git.read diff = .ok patches ∧ checkAll patches before = .ok writes ∧
    after = writeAll writes before

def Linked : Files → List Attempt → Files → Prop
  | files, [], last => last = files
  | files, a :: attempts, last => a.before = files ∧ Linked a.after attempts last

def Version (repair : Text → Except Text Text) (diff : Text) (a : Attempt) : Prop :=
  (a.repaired = false ∧ a.diff = diff) ∨ a.repaired = true ∧ ∃ conflict, repair conflict = .ok a.diff

def Attempt.Whole (a : Attempt) : Prop :=
  if a.applied then Applies git a.diff a.before a.after else a.after = a.before

structure Sound (repair1 repair2 : Text → Except Text Text) (base : Files) (diff1 diff2 : Text)
    (r : MergeResult) (m : Merge) : Prop where
  success : r.success = true ↔ ∃ a1 a2, m.attempts.filter (·.applied) = [a1, a2] ∧
    Version repair1 diff1 a1 ∧ Version repair2 diff2 a2
  resolved : r.conflictsResolved = m.attempts.countP fun a => a.repaired && a.applied
  linked : Linked base m.attempts m.files
  whole : ∀ a ∈ m.attempts, a.Whole git
  /-- The attempts that failed may be left out. -/
  traceless : Linked base (m.attempts.filter (·.applied)) m.files
  captured : ∃ index, r.mergedDiff = git.diff base index ∧
    ∀ path, index path = m.files path ∨ index path = base path

/-! ### Attempts -/

variable {git}

theorem Linked.concat {files last : Files} {attempts : List Attempt}
    (h : Linked files attempts last) {a : Attempt} (ha : a.before = last) :
    Linked files (attempts ++ [a]) a.after := by
  induction attempts generalizing files with
  | nil => exact ⟨ha.trans h, rfl⟩
  | cons b attempts ih => exact ⟨h.1, ih h.2⟩

variable (git) in
/-- What every step of a merge keeps. -/
structure Merge.Inv (base : Files) (m : Merge) : Prop where
  linked : Linked base m.attempts m.files
  whole : ∀ a ∈ m.attempts, a.Whole git
  resolved : m.conflictsResolved = m.attempts.countP fun a => a.repaired && a.applied

variable (git) in
/-- The block for one diff: it is applied in some version, or a conflict is added. -/
def Handled (repair : Text → Except Text Text) (diff : Text) (m m' : Merge) : Prop :=
  ∃ tried, m'.attempts = m.attempts ++ tried ∧
    ((∃ a, tried.filter (·.applied) = [a] ∧ Version repair diff a ∧
        m'.unresolvedConflicts = m.unresolvedConflicts) ∨
      tried.filter (·.applied) = [] ∧
        ∃ conflict, m'.unresolvedConflicts = m.unresolvedConflicts ++ [conflict])

def addFile : Text :=
  "diff --git a/f b/f\nnew file mode 100644\n--- /dev/null\n+++ b/f\n@@ -0,0 +1 @@\n+x\n".toList

end merge

end Mowis.MergeWorker
