import Mowis.Containers.Create
import Mowis.Lib.FileTree
import Mowis.Lib.WriteLog
import Mowis.Tools.Files

/-!
# Copying a workspace to the host

`copy_workspace_dir_recursive` and `copy_dir_contents_recursive` of
`agentd/src/orchestration/sandbox_topology.rs`.  The first asks the tools `list_files` and
`read_file` for a workspace, the second reads a directory of the host.  A workspace does not change
while it is copied, and names are Unicode text.  The number of files that the functions return is
the length of the list of what was copied.
-/

namespace Mowis.Export

open Mowis.Lib
open Mowis.Containers (Item)
open Mowis.Tools (maxReadSize bind_ok)

abbrev Path := List String

abbrev Bytes := List UInt8

/-- The workspace of an agent, with the entries of a directory as they are read. -/
abbrev Workspace := Directory String Item

/-- A directory of the host. -/
abbrev HostTree := Tree String Bytes

def maxListEntries : ℕ := 10000

inductive ExportError where
  | containerNotFound (agent : String)
  | sandboxNotFoundForAgent (agent : String)
  | sandboxNotFound (name : String)
  | request (p : Path)
  | missingContent (p : Path)
  | createDir (p : Path)
  | writeFile (p : Path)
  | readDir (p : Path)
  | copy (p : Path)
  deriving DecidableEq, Repr

/-- Which requests and calls of the host succeed, by the path they are about. -/
structure Fate where
  lists : Path → Bool
  reads : Path → Bool
  creates : Path → Bool
  writes : Path → Bool

def answered (ok : Bool) (e : ExportError) : Except ExportError Unit :=
  if ok then .ok () else .error e

/-- The target of a copy, and what was copied so far. -/
structure CopyState where
  out : HostTree
  copied : List (Path × Bytes)

namespace CopyState

variable (fate : Fate) (root p : Path)

/-- `create_dir_all` below the directory `root`. -/
def createDir (st : CopyState) : Except ExportError CopyState :=
  if fate.creates p then
    match createDirAll (root ++ p) st.out with
    | .ok out => .ok { st with out }
    | .error _ => .error (.createDir p)
  else .error (.createDir p)

def writeFile (content : Bytes) (st : CopyState) : Except ExportError CopyState :=
  if fate.writes p then
    match Lib.writeFile (root ++ p) content st.out with
    | .ok out => .ok { out, copied := st.copied ++ [(p, content)] }
    | .error _ => .error (.writeFile p)
  else .error (.writeFile p)

end CopyState

/-- `read_file`, as far as the copy goes: an answer without content is an error. -/
def readFile (fate : Fate) (p : Path) (content : Bytes) : Except ExportError (List Char) :=
  if !fate.reads p then .error (.request p)
  else if maxReadSize < content.length then .error (.missingContent p)
  else
    match decodeUtf8 content with
    | none => .error (.missingContent p)
    | some t => .ok t

def copyFiles (fate : Fate) (root p : Path) :
    Entries String Item → CopyState → Except ExportError CopyState
  | (name, .file (.file content)) :: rest, st => do
    let t ← readFile fate (p ++ [name]) content
    let st ← st.createDir fate root p
    let st ← st.writeFile fate root (p ++ [name]) (utf8 t)
    copyFiles fate root p rest st
  | (_, .file (.link _)) :: rest, st => copyFiles fate root p rest st
  | (_, .dir _) :: rest, st => copyFiles fate root p rest st
  | [], st => .ok st

mutual

def copyWorkspaceDirRecursive (fate : Fate) (root p : Path) :
    Tree String Item → CopyState → Except ExportError CopyState
  | .file _, _ => .error (.request p)
  | .dir entries, st => do
    answered (fate.lists p) (.request p)
    let st ← copyFiles fate root p (entries.take maxListEntries) st
    copyDirectories fate root p maxListEntries entries st

/-- The loop over the directories of a listing of the first `n` entries. -/
def copyDirectories (fate : Fate) (root p : Path) :
    ℕ → Entries String Item → CopyState → Except ExportError CopyState
  | n + 1, (name, node) :: rest, st => do
    let st ←
      (if node.isDir then do
        let st ← st.createDir fate root (p ++ [name])
        copyWorkspaceDirRecursive fate root (p ++ [name]) node st
      else .ok st)
    copyDirectories fate root p n rest st
  | 0, _, st => .ok st
  | _ + 1, [], st => .ok st

end

mutual

/-- What `list_files` shows of an entry: no links, and of a directory no more than its first
entries. -/
def listed : Tree String Item → Option HostTree
  | .file (.file content) => some (.file content)
  | .file (.link _) => none
  | .dir entries => some (.dir (listedEntries maxListEntries entries))

def listedEntries : ℕ → Entries String Item → Entries String Bytes
  | n + 1, (name, node) :: rest =>
    match listed node with
    | some t => (name, t) :: listedEntries n rest
    | none => listedEntries n rest
  | 0, _ => []
  | _ + 1, [] => []

end

/-- The files of a workspace that `list_files` shows. -/
def shownAt (w : Workspace) : Path → Option Bytes :=
  (Tree.dir (listedEntries maxListEntries w.entries)).fileAt

/-- What a link leads to, when it is opened: a file, or a directory in which no name is found
twice. -/
abbrev Follow := Path → Option { t : Tree String (Option Bytes) // t.Distinct }

mutual

/-- A workspace as the host sees it, with what links lead to in their place.  A file without content
cannot be opened. -/
def hostView (follow : Follow) (p : Path) : Tree String Item → Tree String (Option Bytes)
  | .file (.file content) => .file (some content)
  | .file (.link _) =>
    match follow p with
    | some t => t.1
    | none => .file none
  | .dir entries => .dir (hostEntries follow p entries)

def hostEntries (follow : Follow) (p : Path) : Entries String Item → Entries String (Option Bytes)
  | [] => []
  | (name, node) :: rest => (name, hostView follow (p ++ [name]) node) :: hostEntries follow p rest

end

section Host

variable {C : Type} (fate : Fate) (opens : C → Option Bytes)

mutual

def copyEntry (p : Path) : Tree String C → CopyState → Except ExportError CopyState
  | .dir entries, st => do
    let st ← st.createDir fate [] p
    answered (fate.lists p) (.readDir p)
    copyDirContentsRecursive p entries st
  | .file content, st => do
    let st ← st.createDir fate [] p.dropLast
    match opens content with
    | none => .error (.copy p)
    | some content => st.writeFile fate [] p content

/-- `copy_dir_contents_recursive` on a directory that was read.  What a link leads to is taken for
the link. -/
def copyDirContentsRecursive (p : Path) :
    Entries String C → CopyState → Except ExportError CopyState
  | [], st => .ok st
  | (name, node) :: rest, st => do
    let st ← copyEntry (p ++ [name]) node st
    copyDirContentsRecursive p rest st

end

end Host

/-! ### What was copied -/

/-- `ws` was copied below `root`, in this order. -/
structure Wrote (root : Path) (ws : List (Path × Bytes)) (st st' : CopyState) : Prop where
  copied : st'.copied = st.copied ++ ws
  inside : ∀ q, st'.out.fileAt (root ++ q) = (lastWrite ws q).or (st.out.fileAt (root ++ q))
  outside : ∀ q, ¬ root <+: q → st'.out.fileAt q = st.out.fileAt q
  distinct : st.out.Distinct → st'.out.Distinct
  dirAt : ∀ q, st.out.dirAt q = true → st'.out.dirAt q = true

namespace Wrote

variable {root p : Path} {ws ws' : List (Path × Bytes)} {st st' st'' : CopyState} {fate : Fate}

theorem refl (root : Path) (st : CopyState) : Wrote root [] st st where
  copied := (List.append_nil _).symm
  inside _ := rfl
  outside _ _ := rfl
  distinct h := h
  dirAt _ h := h

theorem trans (h : Wrote root ws st st') (h' : Wrote root ws' st' st'') :
    Wrote root (ws ++ ws') st st'' where
  copied := by rw [h'.copied, h.copied, List.append_assoc]
  inside q := by rw [h'.inside, h.inside, lastWrite_append, Option.or_assoc]
  outside q hq := (h'.outside q hq).trans (h.outside q hq)
  distinct hst := h'.distinct (h.distinct hst)
  dirAt q hq := h'.dirAt q (h.dirAt q hq)

theorem createDir (h : st.createDir fate root p = .ok st') :
    Wrote root [] st st' ∧ st'.out.dirAt (root ++ p) = true := by
  unfold CopyState.createDir at h
  split at h
  · split at h
    · next out hout =>
      cases h
      exact ⟨⟨(List.append_nil _).symm, fun q => fileAt_createDirAll hout _,
        fun q _ => fileAt_createDirAll hout q, fun hst => hst.createDirAll hout,
        fun q hq => dirAt_of_createDirAll hout hq⟩, dirAt_createDirAll hout⟩
    · cases h
  · cases h

theorem writeFile {content : Bytes} (h : st.writeFile fate root p content = .ok st') :
    Wrote root [(p, content)] st st' := by
  unfold CopyState.writeFile at h
  split at h
  · split at h
    · next out hout =>
      cases h
      refine ⟨rfl, ?_, ?_, fun hst => hst.writeFile hout, fun q hq => dirAt_of_writeFile hout hq⟩
      · intro q
        rw [fileAt_writeFile hout]
        by_cases hq : q = p
        · subst hq
          simp [lastWrite]
        · have hne : ¬ root ++ q = root ++ p := fun heq => hq (List.append_cancel_left heq)
          simp [lastWrite, hne, Ne.symm hq]
      · intro q hq
        rw [fileAt_writeFile hout, if_neg]
        rintro rfl
        exact hq (List.prefix_append root p)
    · cases h
  · cases h

end Wrote

section Listed

theorem mem_of_listedEntries {n : ℕ} {es : Entries String Item} {e : String × HostTree}
    (h : e ∈ listedEntries n es) : ∃ node, (e.1, node) ∈ es ∧ listed node = some e.2 := by
  induction es generalizing n with
  | nil => cases n <;> cases h
  | cons e' es ih =>
    obtain ⟨name, node⟩ := e'
    cases n with
    | zero => cases h
    | succ n =>
      have hlater : e ∈ listedEntries n es →
          ∃ node', (e.1, node') ∈ (name, node) :: es ∧ listed node' = some e.2 := by
        intro hrest
        obtain ⟨node', hmem, hlisted⟩ := ih hrest
        exact ⟨node', List.mem_cons_of_mem _ hmem, hlisted⟩
      rw [listedEntries] at h
      split at h
      · next t hlisted =>
        rcases List.mem_cons.mp h with rfl | hrest
        · exact ⟨node, List.mem_cons_self, hlisted⟩
        · exact hlater hrest
      · exact hlater h

theorem mem_listedEntries {n : ℕ} {es : Entries String Item} {f : Path × Bytes} :
    f ∈ entriesFiles (listedEntries n es) ↔
      ∃ name node, (name, node) ∈ es.take n ∧
        ∃ t, listed node = some t ∧ ∃ g ∈ t.files, f = (name :: g.1, g.2) := by
  induction es generalizing n with
  | nil => cases n <;> simp [listedEntries, entriesFiles]
  | cons e es ih =>
    obtain ⟨name, node⟩ := e
    cases n with
    | zero => simp [listedEntries, entriesFiles]
    | succ n =>
      have hfirst : (∃ t, listed node = some t ∧ ∃ g ∈ t.files, f = (name :: g.1, g.2)) ∨
          f ∈ entriesFiles (listedEntries n es) ↔
          f ∈ entriesFiles (listedEntries (n + 1) ((name, node) :: es)) := by
        rw [listedEntries]
        cases listed node with
        | none => simp
        | some t => simp [entriesFiles, eq_comm]
      rw [← hfirst, ih, List.take_succ_cons]
      constructor
      · rintro (hnode | ⟨name', node', hmem, hrest⟩)
        · exact ⟨name, node, List.mem_cons_self, hnode⟩
        · exact ⟨name', node', List.mem_cons_of_mem _ hmem, hrest⟩
      · rintro ⟨name', node', hmem, hrest⟩
        rcases List.mem_cons.mp hmem with heq | hmem
        · cases heq
          exact .inl hrest
        · exact .inr ⟨name', node', hmem, hrest⟩

mutual

theorem listed_distinct : ∀ (t : Tree String Item) (t' : HostTree), t.Distinct →
    listed t = some t' → t'.Distinct
  | .file (.file _), _, _, h => by
    cases h
    trivial
  | .file (.link _), _, _, h => by cases h
  | .dir es, _, hdistinct, h => by
    cases h
    exact listedEntries_distinct es maxListEntries hdistinct

theorem listedEntries_distinct : ∀ (es : Entries String Item) (n : ℕ), (Tree.dir es).Distinct →
    (Tree.dir (listedEntries n es)).Distinct
  | _, 0, _ => by
    rw [listedEntries]
    exact ⟨List.nodup_nil, trivial⟩
  | [], _ + 1, _ => by
    rw [listedEntries]
    exact ⟨List.nodup_nil, trivial⟩
  | (name, node) :: es, n + 1, h => by
    have hnames := List.nodup_cons.mp h.1
    have hrest := listedEntries_distinct es n ⟨hnames.2, h.2.2⟩
    rw [listedEntries]
    cases hlisted : listed node with
    | none => exact hrest
    | some t =>
      refine ⟨?_, listed_distinct node t h.2.1 hlisted, hrest.2⟩
      rw [List.map_cons, List.nodup_cons]
      refine ⟨?_, hrest.1⟩
      intro hmem
      obtain ⟨e, he, heq⟩ := List.mem_map.mp hmem
      obtain ⟨node', hnode', _⟩ := mem_of_listedEntries he
      exact hnames.1 (heq ▸ List.mem_map.mpr ⟨_, hnode', rfl⟩)

end

theorem fileAt_of_listed {q : Path} : ∀ {t : Tree String Item} {t' : HostTree} {content : Bytes},
    t.Distinct → listed t = some t' → t'.fileAt q = some content →
      t.fileAt q = some (.file content) := by
  induction q with
  | nil =>
    intro t t' content _ hlisted hfile
    match t, hlisted with
    | .file (.file _), hlisted =>
      cases hlisted
      cases hfile
      rfl
    | .file (.link _), hlisted => cases hlisted
    | .dir _, hlisted =>
      cases hlisted
      cases hfile
  | cons n q ih =>
    intro t t' content hdistinct hlisted hfile
    match t, hlisted with
    | .file (.file _), hlisted =>
      cases hlisted
      cases hfile
    | .file (.link _), hlisted => cases hlisted
    | .dir es, hlisted =>
      cases hlisted
      rw [Tree.fileAt] at hfile ⊢
      cases hentry : entry (listedEntries maxListEntries es) n with
      | none =>
        rw [hentry] at hfile
        cases hfile
      | some u =>
        rw [hentry] at hfile
        obtain ⟨node, hnode, hu⟩ := mem_of_listedEntries (mem_of_entry hentry)
        have hfound : entry es n = some node := (entry_eq_some_iff hdistinct.1).mpr hnode
        rw [hfound]
        exact ih (hdistinct.of_entry hfound) hu hfile

theorem fileAt_of_shownAt {w : Workspace} {q : Path} {content : Bytes}
    (h : shownAt w q = some content) : w.tree.fileAt q = some (.file content) :=
  fileAt_of_listed w.distinct rfl h

end Listed

section HostView

variable {follow : Follow}

theorem entry_hostEntries (p : Path) (es : Entries String Item) (n : String) :
    entry (hostEntries follow p es) n = (entry es n).map (hostView follow (p ++ [n])) := by
  induction es with
  | nil => rfl
  | cons e es ih =>
    obtain ⟨m, node⟩ := e
    rw [hostEntries, entry, entry]
    by_cases hmn : m = n
    · rw [if_pos hmn, if_pos hmn, hmn]
      rfl
    · rw [if_neg hmn, if_neg hmn, ih]

theorem names_hostEntries (p : Path) (es : Entries String Item) :
    (hostEntries follow p es).map Prod.fst = es.map Prod.fst := by
  induction es with
  | nil => rfl
  | cons e es ih => rw [hostEntries, List.map_cons, List.map_cons, ih]

mutual

theorem hostView_distinct : ∀ (t : Tree String Item) (p : Path), t.Distinct →
    (hostView follow p t).Distinct
  | .file (.file _), _, _ => trivial
  | .file (.link _), p, _ => by
    rw [hostView]
    split
    · next t _ => exact t.2
    · trivial
  | .dir es, p, h => ⟨(names_hostEntries p es).symm ▸ h.1, hostEntries_distinct es p h.2⟩

theorem hostEntries_distinct : ∀ (es : Entries String Item) (p : Path), entriesDistinct es →
    entriesDistinct (hostEntries follow p es)
  | [], _, _ => trivial
  | (_, node) :: es, p, h => ⟨hostView_distinct node _ h.1, hostEntries_distinct es p h.2⟩

end

theorem fileAt_hostView {q : Path} : ∀ {t : Tree String Item} {p : Path},
    (∀ q target, t.fileAt q ≠ some (.link target)) → ∀ content : Bytes,
      (hostView follow p t).fileAt q = some (some content) ↔ t.fileAt q = some (.file content) := by
  induction q with
  | nil =>
    intro t p hlinks content
    match t with
    | .file (.file _) => simp [hostView, Tree.fileAt]
    | .file (.link target) => exact absurd rfl (hlinks [] target)
    | .dir _ => simp [hostView, Tree.fileAt]
  | cons n q ih =>
    intro t p hlinks content
    match t with
    | .file (.file _) => simp [hostView, Tree.fileAt]
    | .file (.link target) => exact absurd rfl (hlinks [] target)
    | .dir es =>
      rw [hostView, Tree.fileAt, Tree.fileAt, entry_hostEntries]
      cases hentry : entry es n with
      | none => simp
      | some node =>
        refine ih ?_ content
        intro q target hlink
        refine hlinks (n :: q) target ?_
        rw [Tree.fileAt, hentry]
        exact hlink

end HostView

section Walk

variable {fate : Fate} {root : Path}

theorem readFile_ok {p : Path} {content : Bytes} {t : List Char}
    (h : readFile fate p content = .ok t) : utf8 t = content := by
  unfold readFile at h
  split at h
  · cases h
  · split at h
    · cases h
    · split at h
      · cases h
      · next hdecode =>
        cases h
        exact (decodeUtf8_eq_some.mp hdecode).symm

theorem copyFiles_ok {p : Path} {es : Entries String Item} {st st' : CopyState}
    (h : copyFiles fate root p es st = .ok st') :
    ∃ ws, Wrote root ws st st' ∧ ∀ f, f ∈ ws ↔
      ∃ name content, (name, Tree.file (Item.file content)) ∈ es ∧ f = (p ++ [name], content) := by
  induction es generalizing st with
  | nil =>
    cases h
    exact ⟨[], .refl root st', by simp⟩
  | cons e es ih =>
    obtain ⟨name, node⟩ := e
    have hskip : copyFiles fate root p es st = .ok st' →
        (∀ content, node ≠ .file (.file content)) → ∃ ws, Wrote root ws st st' ∧ ∀ f, f ∈ ws ↔
          ∃ name' content, (name', Tree.file (Item.file content)) ∈ (name, node) :: es ∧
            f = (p ++ [name'], content) := by
      intro hrest hnode
      obtain ⟨ws, hwrote, hmem⟩ := ih hrest
      refine ⟨ws, hwrote, ?_⟩
      intro f
      rw [hmem]
      constructor
      · rintro ⟨name', content, hin, hf⟩
        exact ⟨name', content, List.mem_cons_of_mem _ hin, hf⟩
      · rintro ⟨name', content, hin, hf⟩
        rcases List.mem_cons.mp hin with heq | hin
        · cases heq
          exact absurd rfl (hnode content)
        · exact ⟨name', content, hin, hf⟩
    match node with
    | .dir _ =>
      rw [copyFiles] at h
      exact hskip h (fun _ hc => by cases hc)
    | .file (.link _) =>
      rw [copyFiles] at h
      exact hskip h (fun _ hc => by cases hc)
    | .file (.file content) =>
      rw [copyFiles] at h
      obtain ⟨t, hread, h⟩ := bind_ok h
      obtain ⟨st₁, hcreate, h⟩ := bind_ok h
      obtain ⟨st₂, hwrite, h⟩ := bind_ok h
      rw [readFile_ok hread] at hwrite
      obtain ⟨ws, hwrote, hmem⟩ := ih h
      have hfirst := (Wrote.createDir hcreate).1.trans (Wrote.writeFile hwrite)
      refine ⟨_, hfirst.trans hwrote, ?_⟩
      intro f
      simp only [List.nil_append, List.singleton_append, List.mem_cons, hmem]
      constructor
      · rintro (rfl | ⟨name', content', hin, hf⟩)
        · exact ⟨name, content, .inl rfl, rfl⟩
        · exact ⟨name', content', .inr hin, hf⟩
      · rintro ⟨name', content', heq | hin, hf⟩
        · cases heq
          exact .inl hf
        · exact .inr ⟨name', content', hin, hf⟩

mutual

theorem copyWorkspaceDirRecursive_ok : ∀ (t : Tree String Item) (p : Path) (st st' : CopyState),
    copyWorkspaceDirRecursive fate root p t st = .ok st' →
      ∃ ws, Wrote root ws st st' ∧ ∀ f, f ∈ ws ↔
        ∃ t', listed t = some t' ∧ ∃ g ∈ t'.files, f = (p ++ g.1, g.2)
  | .file _, _, _, _, h => by cases h
  | .dir es, p, st, st', h => by
    rw [copyWorkspaceDirRecursive] at h
    obtain ⟨_, _, h⟩ := bind_ok h
    obtain ⟨st₁, hfiles, h⟩ := bind_ok h
    obtain ⟨ws, hwrote, hmem⟩ := copyFiles_ok hfiles
    obtain ⟨ws', hwrote', hmem'⟩ := copyDirectories_ok es maxListEntries p st₁ st' h
    refine ⟨ws ++ ws', hwrote.trans hwrote', ?_⟩
    intro f
    rw [List.mem_append, hmem, hmem']
    constructor
    · rintro (⟨name, content, hin, rfl⟩ | ⟨name, node, hin, _, t, ht, g, hg, rfl⟩)
      · refine ⟨_, rfl, ([name], content), mem_listedEntries.mpr ⟨name, _, hin, ?_⟩, rfl⟩
        exact ⟨.file content, rfl, ([], content), List.mem_singleton_self _, rfl⟩
      · exact ⟨_, rfl, (name :: g.1, g.2), mem_listedEntries.mpr ⟨name, node, hin, t, ht, g, hg, rfl⟩,
          rfl⟩
    · rintro ⟨t', ht', g, hg, rfl⟩
      cases ht'
      obtain ⟨name, node, hin, t, ht, g', hg', rfl⟩ := mem_listedEntries.mp hg
      match node, ht with
      | .file (.file content), ht =>
        cases ht
        cases List.mem_singleton.mp hg'
        exact .inl ⟨name, content, hin, rfl⟩
      | .file (.link _), ht => cases ht
      | .dir entries, ht => exact .inr ⟨name, .dir entries, hin, rfl, t, ht, g', hg', rfl⟩

theorem copyDirectories_ok : ∀ (es : Entries String Item) (n : ℕ) (p : Path) (st st' : CopyState),
    copyDirectories fate root p n es st = .ok st' →
      ∃ ws, Wrote root ws st st' ∧ ∀ f, f ∈ ws ↔
        ∃ name node, (name, node) ∈ es.take n ∧ node.isDir = true ∧
          ∃ t, listed node = some t ∧ ∃ g ∈ t.files, f = (p ++ name :: g.1, g.2)
  | _, 0, _, st, _, h => by
    rw [copyDirectories] at h
    cases h
    exact ⟨[], .refl root st, by simp⟩
  | [], _ + 1, _, st, _, h => by
    rw [copyDirectories] at h
    cases h
    exact ⟨[], .refl root st, by simp⟩
  | (name, node) :: es, n + 1, p, st, st', h => by
    rw [copyDirectories] at h
    obtain ⟨st₁, hnode, h⟩ := bind_ok h
    obtain ⟨ws', hwrote', hmem'⟩ := copyDirectories_ok es n p st₁ st' h
    have hfirst : ∃ ws, Wrote root ws st st₁ ∧ ∀ f, f ∈ ws ↔ node.isDir = true ∧
        ∃ t, listed node = some t ∧ ∃ g ∈ t.files, f = (p ++ name :: g.1, g.2) := by
      by_cases hdir : node.isDir = true
      · rw [if_pos hdir] at hnode
        obtain ⟨st₂, hcreate, hnode⟩ := bind_ok hnode
        obtain ⟨ws, hwrote, hmem⟩ :=
          copyWorkspaceDirRecursive_ok node (p ++ [name]) st₂ st₁ hnode
        refine ⟨_, (Wrote.createDir hcreate).1.trans hwrote, ?_⟩
        intro f
        simp only [List.nil_append, hmem, hdir, true_and, List.append_assoc, List.singleton_append]
      · rw [if_neg hdir] at hnode
        cases hnode
        exact ⟨[], .refl root st, by simp [hdir]⟩
    obtain ⟨ws, hwrote, hmem⟩ := hfirst
    refine ⟨ws ++ ws', hwrote.trans hwrote', ?_⟩
    intro f
    rw [List.mem_append, hmem, hmem', List.take_succ_cons]
    constructor
    · rintro (⟨hdir, hrest⟩ | ⟨name', node', hin, hrest⟩)
      · exact ⟨name, node, List.mem_cons_self, hdir, hrest⟩
      · exact ⟨name', node', List.mem_cons_of_mem _ hin, hrest⟩
    · rintro ⟨name', node', hin, hdir, hrest⟩
      rcases List.mem_cons.mp hin with heq | hin
      · cases heq
        exact .inl ⟨hdir, hrest⟩
      · exact .inr ⟨name', node', hin, hdir, hrest⟩

end

variable {C : Type} {opens : C → Option Bytes}

mutual

theorem copyEntry_ok : ∀ (t : Tree String C) (p : Path) (st st' : CopyState),
    copyEntry fate opens p t st = .ok st' →
      ∃ ws, Wrote [] ws st st' ∧ ∀ f, f ∈ ws ↔
        ∃ g ∈ t.files, opens g.2 = some f.2 ∧ f.1 = p ++ g.1
  | .file content, p, st, st', h => by
    rw [copyEntry] at h
    obtain ⟨st₁, hcreate, h⟩ := bind_ok h
    cases hopens : opens content with
    | none =>
      rw [hopens] at h
      cases h
    | some bytes =>
      rw [hopens] at h
      refine ⟨_, (Wrote.createDir hcreate).1.trans (Wrote.writeFile h), ?_⟩
      intro f
      simp only [List.nil_append, List.mem_singleton, Tree.files]
      constructor
      · rintro rfl
        exact ⟨([], content), rfl, hopens, (List.append_nil p).symm⟩
      · rintro ⟨g, rfl, hg, hf⟩
        rw [hopens] at hg
        cases hg
        exact Prod.ext (hf.trans (List.append_nil p)) rfl
  | .dir es, p, st, st', h => by
    rw [copyEntry] at h
    obtain ⟨st₁, hcreate, h⟩ := bind_ok h
    obtain ⟨_, _, h⟩ := bind_ok h
    obtain ⟨ws, hwrote, hmem⟩ := copyDirContentsRecursive_ok es p st₁ st' h
    exact ⟨_, (Wrote.createDir hcreate).1.trans hwrote, hmem⟩

theorem copyDirContentsRecursive_ok : ∀ (es : Entries String C) (p : Path) (st st' : CopyState),
    copyDirContentsRecursive fate opens p es st = .ok st' →
      ∃ ws, Wrote [] ws st st' ∧ ∀ f, f ∈ ws ↔
        ∃ g ∈ entriesFiles es, opens g.2 = some f.2 ∧ f.1 = p ++ g.1
  | [], p, st, st', h => by
    cases h
    exact ⟨[], .refl [] st, by simp [entriesFiles]⟩
  | (name, node) :: es, p, st, st', h => by
    rw [copyDirContentsRecursive] at h
    obtain ⟨st₁, hentry, h⟩ := bind_ok h
    obtain ⟨ws, hwrote, hmem⟩ := copyEntry_ok node (p ++ [name]) st st₁ hentry
    obtain ⟨ws', hwrote', hmem'⟩ := copyDirContentsRecursive_ok es p st₁ st' h
    refine ⟨ws ++ ws', hwrote.trans hwrote', ?_⟩
    intro f
    rw [List.mem_append, hmem, hmem', entriesFiles]
    constructor
    · rintro (⟨g, hg, hopens, hf⟩ | ⟨g, hg, hopens, hf⟩)
      · refine ⟨(name :: g.1, g.2), List.mem_append_left _ (List.mem_map.mpr ⟨g, hg, rfl⟩), hopens, ?_⟩
        rw [hf, List.append_assoc, List.singleton_append]
      · exact ⟨g, List.mem_append_right _ hg, hopens, hf⟩
    · rintro ⟨g, hg, hopens, hf⟩
      rcases List.mem_append.mp hg with hg | hg
      · obtain ⟨g', hg', rfl⟩ := List.mem_map.mp hg
        refine .inl ⟨g', hg', hopens, ?_⟩
        rw [hf, List.append_assoc, List.singleton_append]
      · exact .inr ⟨g, hg, hopens, hf⟩

end

end Walk

end Mowis.Export
