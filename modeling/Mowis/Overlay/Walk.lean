import Mowis.Lib.FileTree
import Mowis.Overlay.Path

/-!
# Copying an upper directory into a base

The private `copy_dir_recursive` of `mowis-executor/src/sandbox.rs` and
`mowis-orchestration/src/merger.rs`; the two bodies differ in the check that the source
exists.  The walk strips from every path the directory it is reading, not the root of the
upper tree, so what is joined to the base is always a single name.

I/O errors other than those the two trees imply are left out, and so are file modes.
-/

namespace Mowis.Overlay

open Mowis.Lib

/-- A directory on disk. -/
abbrev DiskDir := Directory Name Content

/-- Why a merge fails. -/
inductive MergeError where
  | noUpperDirectory
  | readDir
  | stripPrefix
  | tree (e : TreeError)
  deriving DecidableEq, Repr

/-- The base tree and the list of changed paths. -/
structure CopyState where
  base : Tree Name Content
  changed : List String

/-- `strip_prefix`: the rest of a path below a directory. -/
def stripPrefix (src : Path) (p : Path) : Option Path :=
  if src <+: p then some (p.drop src.length) else none

/-- `create_dir_all` on the base. -/
def CopyState.createDir (st : CopyState) (p : Path) : Except (CopyState × MergeError) CopyState :=
  match createDirAll p st.base with
  | .error e => .error (st, .tree e)
  | .ok base => .ok { st with base }

/-- `fs::copy` into the base, and the push to `changed`. -/
def CopyState.copyFile (st : CopyState) (rel : Path) (content : Content) :
    Except (CopyState × MergeError) CopyState :=
  match writeFile rel content st.base with
  | .error e => .error (st, .tree e)
  | .ok base => .ok { base, changed := st.changed ++ [toStringLossy (pathBytes rel)] }

mutual

/-- The body of the loop for one entry `name` of the directory `src`. -/
def copyEntry (src : Path) (name : Name) :
    Tree Name Content → CopyState → Except (CopyState × MergeError) CopyState
  | .dir entries, st =>
    match stripPrefix src (src ++ [name]) with
    | none => .error (st, .stripPrefix)
    | some rel =>
      match st.createDir rel with
      | .error e => .error e
      | .ok st => copyDirRecursive (src ++ [name]) entries st
  | .file content, st =>
    match stripPrefix src (src ++ [name]) with
    | none => .error (st, .stripPrefix)
    | some rel =>
      match st.createDir rel.dropLast with
      | .error e => .error e
      | .ok st => st.copyFile rel content

/-- `copy_dir_recursive`, for a source directory that exists. -/
def copyDirRecursive (src : Path) :
    Entries Name Content → CopyState → Except (CopyState × MergeError) CopyState
  | [], st => .ok st
  | (name, node) :: entries, st =>
    match copyEntry src name node st with
    | .error e => .error e
    | .ok st => copyDirRecursive src entries st

end

/-! ### The walk as a list of operations

Since only the last name of a path is used, the walk does to the base what a list of
operations on single names does. -/

inductive Op where
  | mkdir (name : Name)
  | put (name : Name) (content : Content)

namespace Op

def name : Op → Name
  | mkdir n => n
  | put n _ => n

def isDir : Op → Bool
  | mkdir _ => true
  | put _ _ => false

def file? : Op → Option (Name × Content)
  | mkdir _ => none
  | put n c => some (n, c)

def run : Op → CopyState → Except (CopyState × MergeError) CopyState
  | mkdir n, st => st.createDir [n]
  | put n c, st =>
    match st.createDir [] with
    | .error e => .error e
    | .ok st => st.copyFile [n] c

end Op

def runOps : List Op → CopyState → Except (CopyState × MergeError) CopyState
  | [], st => .ok st
  | op :: ops, st =>
    match op.run st with
    | .error e => .error e
    | .ok st => runOps ops st

theorem runOps_append (xs ys : List Op) (st : CopyState) :
    runOps (xs ++ ys) st =
      match runOps xs st with
      | .error e => .error e
      | .ok st => runOps ys st := by
  induction xs generalizing st with
  | nil => rfl
  | cons op xs ih =>
    rw [List.cons_append, runOps, runOps]
    cases op.run st with
    | error e => rfl
    | ok st => exact ih st

mutual

def treeOps (name : Name) : Tree Name Content → List Op
  | .dir entries => .mkdir name :: entriesOps entries
  | .file content => [.put name content]

def entriesOps : Entries Name Content → List Op
  | [] => []
  | (name, node) :: entries => treeOps name node ++ entriesOps entries

end

theorem stripPrefix_child (src : Path) (name : Name) :
    stripPrefix src (src ++ [name]) = some [name] := by
  simp [stripPrefix]

mutual

theorem copyEntry_eq_runOps (src : Path) (name : Name) :
    ∀ (node : Tree Name Content) (st : CopyState),
      copyEntry src name node st = runOps (treeOps name node) st
  | .dir entries, st => by
    rw [copyEntry, treeOps, runOps, Op.run]
    simp only [stripPrefix_child]
    cases st.createDir [name] with
    | error e => rfl
    | ok st => exact copyDirRecursive_eq_runOps (src ++ [name]) entries st
  | .file content, st => by
    rw [copyEntry, treeOps, runOps, Op.run]
    simp only [stripPrefix_child, List.dropLast_singleton]
    cases st.createDir [] with
    | error e => rfl
    | ok st =>
      cases hcopy : st.copyFile [name] content with
      | error e => simp [hcopy]
      | ok st' => simp [hcopy, runOps]

theorem copyDirRecursive_eq_runOps (src : Path) :
    ∀ (entries : Entries Name Content) (st : CopyState),
      copyDirRecursive src entries st = runOps (entriesOps entries) st
  | [], st => rfl
  | (name, node) :: entries, st => by
    rw [copyDirRecursive, entriesOps, runOps_append, copyEntry_eq_runOps src name node st]
    cases runOps (treeOps name node) st with
    | error e => rfl
    | ok st => exact copyDirRecursive_eq_runOps src entries st

end

/-! ### What the operations do to the base -/

def Fits (op : Op) (root : Entries Name Content) : Prop :=
  ∀ t, entry root op.name = some t → t.isDir = op.isDir

/-- What an operation adds to `changed`. -/
def Op.pushes (op : Op) : List String :=
  (op.file?.map fun f => toStringLossy f.1.bytes).toList

theorem Op.run_of_fits {op : Op} {root : Entries Name Content} (h : Fits op root)
    (changed : List String) :
    ∃ t, t.isDir = op.isDir ∧
      op.run ⟨.dir root, changed⟩ = .ok ⟨.dir (setEntry root op.name t), changed ++ op.pushes⟩ := by
  cases op with
  | mkdir n =>
    cases he : entry root n with
    | none =>
      refine ⟨chain [], rfl, ?_⟩
      simp [Op.run, CopyState.createDir, createDirAll, he, Op.pushes, Op.file?, Op.name]
    | some t =>
      cases t with
      | file c => exact absurd (h _ he) (by simp [Tree.isDir, Op.isDir])
      | dir es =>
        refine ⟨.dir es, rfl, ?_⟩
        simp [Op.run, CopyState.createDir, createDirAll, he, Op.pushes, Op.file?, Op.name]
  | put n c =>
    refine ⟨.file c, rfl, ?_⟩
    cases he : entry root n with
    | none =>
      simp [Op.run, CopyState.createDir, CopyState.copyFile, createDirAll, writeFile, he,
        Op.pushes, Op.file?, Op.name, pathBytes]
    | some t =>
      cases t with
      | dir es => exact absurd (h _ he) (by simp [Tree.isDir, Op.isDir])
      | file d =>
        simp [Op.run, CopyState.createDir, CopyState.copyFile, createDirAll, writeFile, he,
          Op.pushes, Op.file?, Op.name, pathBytes]

theorem Op.run_of_not_fits {op : Op} {root : Entries Name Content} (h : ¬ Fits op root)
    (changed : List String) : ∃ e, op.run ⟨.dir root, changed⟩ = .error e := by
  unfold Fits at h
  push Not at h
  obtain ⟨t, he, hkind⟩ := h
  cases op with
  | mkdir n =>
    cases t with
    | dir es => exact absurd rfl hkind
    | file c =>
      rw [Op.name] at he
      simp [Op.run, CopyState.createDir, createDirAll, he]
  | put n c =>
    cases t with
    | file d => exact absurd rfl hkind
    | dir es =>
      rw [Op.name] at he
      simp [Op.run, CopyState.createDir, CopyState.copyFile, createDirAll, writeFile, he]

def Agree (ops : List Op) (root : Entries Name Content) : Prop :=
  ∀ op ∈ ops, Fits op root ∧ ∀ op' ∈ ops, op'.name = op.name → op'.isDir = op.isDir

theorem agree_cons_iff {op : Op} {ops : List Op} {root : Entries Name Content}
    {t : Tree Name Content} (hfits : Fits op root) (ht : t.isDir = op.isDir) :
    Agree (op :: ops) root ↔ Agree ops (setEntry root op.name t) := by
  constructor
  · intro h o ho
    obtain ⟨hfit, hkind⟩ := h o (List.mem_cons_of_mem op ho)
    refine ⟨?_, fun o' ho' => hkind o' (List.mem_cons_of_mem op ho')⟩
    intro u hu
    rw [entry_setEntry] at hu
    split at hu
    · next hname =>
      cases hu
      rw [ht]
      exact hkind op List.mem_cons_self hname.symm
    · exact hfit u hu
  · intro h
    have hsame : ∀ o ∈ ops, o.name = op.name → o.isDir = op.isDir := by
      intro o ho hname
      have hfit := (h o ho).1 t (by rw [entry_setEntry, if_pos hname])
      rw [← hfit, ht]
    intro o ho
    rcases List.mem_cons.mp ho with hop | ho
    · rw [hop]
      refine ⟨hfits, ?_⟩
      intro o' ho' hname
      rcases List.mem_cons.mp ho' with hop' | ho'
      · rw [hop']
      · exact hsame o' ho' hname
    · constructor
      · intro u hu
        by_cases hname : o.name = op.name
        · rw [hname] at hu
          rw [hsame o ho hname]
          exact hfits u hu
        · exact (h o ho).1 u (by rw [entry_setEntry, if_neg hname, hu])
      · intro o' ho' hname
        rcases List.mem_cons.mp ho' with hop' | ho'
        · rw [hop'] at hname ⊢
          exact (hsame o ho hname.symm).symm
        · exact (h o ho).2 o' ho' hname

theorem runOps_of_agree {ops : List Op} {root : Entries Name Content} (h : Agree ops root)
    (changed : List String) :
    ∃ root', runOps ops ⟨.dir root, changed⟩ =
      .ok ⟨.dir root', changed ++ ops.flatMap Op.pushes⟩ := by
  induction ops generalizing root changed with
  | nil => exact ⟨root, by simp [runOps]⟩
  | cons op ops ih =>
    have hfits : Fits op root := (h op List.mem_cons_self).1
    obtain ⟨t, ht, hrun⟩ := Op.run_of_fits hfits changed
    obtain ⟨root', hroot'⟩ := ih ((agree_cons_iff hfits ht).mp h) (changed ++ op.pushes)
    refine ⟨root', ?_⟩
    rw [runOps, hrun, List.flatMap_cons, ← List.append_assoc]
    exact hroot'

theorem runOps_of_not_agree {ops : List Op} {root : Entries Name Content}
    (h : ¬ Agree ops root) (changed : List String) :
    ∃ e, runOps ops ⟨.dir root, changed⟩ = .error e := by
  induction ops generalizing root changed with
  | nil => exact absurd (fun _ hop => absurd hop List.not_mem_nil) h
  | cons op ops ih =>
    by_cases hfits : Fits op root
    · obtain ⟨t, ht, hrun⟩ := Op.run_of_fits hfits changed
      rw [agree_cons_iff hfits ht] at h
      rw [runOps, hrun]
      exact ih h (changed ++ op.pushes)
    · obtain ⟨e, he⟩ := Op.run_of_not_fits hfits changed
      exact ⟨e, by rw [runOps, he]⟩

def written (ops : List Op) : List (Name × Content) := ops.filterMap Op.file?

theorem flatMap_pushes (ops : List Op) :
    ops.flatMap Op.pushes = (written ops).map fun f => toStringLossy f.1.bytes := by
  induction ops with
  | nil => rfl
  | cons op ops ih =>
    rw [List.flatMap_cons, ih, written, written]
    cases op with
    | mkdir n => rfl
    | put n c => rfl

theorem Op.run_fileAt {op : Op} {st st' : CopyState} (h : op.run st = .ok st') (p : Path) :
    st'.base.fileAt p =
      match op.file? with
      | some (n, c) => if p = [n] then some c else st.base.fileAt p
      | none => st.base.fileAt p := by
  cases op with
  | mkdir n =>
    rw [Op.run, CopyState.createDir] at h
    cases hdir : createDirAll [n] st.base with
    | error e => simp [hdir] at h
    | ok base =>
      simp only [hdir] at h
      cases h
      exact fileAt_createDirAll hdir p
  | put n c =>
    rw [Op.run, CopyState.createDir] at h
    cases hdir : createDirAll [] st.base with
    | error e => simp [hdir] at h
    | ok base =>
      simp only [hdir, CopyState.copyFile] at h
      cases hfile : writeFile [n] c base with
      | error e => simp [hfile] at h
      | ok base' =>
        simp only [hfile] at h
        cases h
        show base'.fileAt p = if p = [n] then some c else st.base.fileAt p
        rw [fileAt_writeFile hfile p, fileAt_createDirAll hdir p]

theorem runOps_fileAt_of_not_written {ops : List Op} {st st' : CopyState}
    (h : runOps ops st = .ok st') {p : Path} (hp : ∀ f ∈ written ops, p ≠ [f.1]) :
    st'.base.fileAt p = st.base.fileAt p := by
  induction ops generalizing st with
  | nil =>
    cases h
    rfl
  | cons op ops ih =>
    rw [runOps] at h
    cases hop : op.run st with
    | error e => simp [hop] at h
    | ok st₁ =>
      simp only [hop] at h
      have hrest : ∀ f ∈ written ops, p ≠ [f.1] := by
        intro f hf
        apply hp
        rw [written, List.filterMap_cons]
        split
        · exact hf
        · exact List.mem_cons_of_mem _ hf
      rw [ih h hrest, Op.run_fileAt hop p]
      cases op with
      | mkdir n => rfl
      | put n c => exact if_neg (hp (n, c) List.mem_cons_self)

theorem runOps_fileAt_of_written {ops : List Op} {st st' : CopyState}
    (h : runOps ops st = .ok st') (hnodup : ((written ops).map Prod.fst).Nodup)
    {f : Name × Content} (hf : f ∈ written ops) : st'.base.fileAt [f.1] = some f.2 := by
  induction ops generalizing st with
  | nil => cases hf
  | cons op ops ih =>
    rw [runOps] at h
    cases hop : op.run st with
    | error e => simp [hop] at h
    | ok st₁ =>
      simp only [hop] at h
      cases op with
      | mkdir n => exact ih h hnodup hf
      | put n c =>
        have hcons : written (.put n c :: ops) = (n, c) :: written ops := rfl
        rw [hcons, List.map_cons, List.nodup_cons] at hnodup
        rw [hcons] at hf
        rcases List.mem_cons.mp hf with hhead | htail
        · rw [hhead, runOps_fileAt_of_not_written h, Op.run_fileAt hop]
          · exact if_pos rfl
          · intro g hg heq
            apply hnodup.1
            rw [List.singleton_inj.mp heq]
            exact List.mem_map_of_mem hg
        · exact ih h hnodup.2 htail

end Mowis.Overlay
