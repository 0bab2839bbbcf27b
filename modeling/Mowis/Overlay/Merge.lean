import Mowis.Orchestration.Plan
import Mowis.Overlay.Walk

/-!
# Merging an agent's overlay into its parent

`merge_overlay` of `mowis-executor/src/sandbox.rs` and `Merger::promote_agent` of
`mowis-orchestration/src/merger.rs`.
-/

namespace Mowis.Overlay

open Mowis.Lib Mowis.Orchestration

/-- What a merge leaves behind: the base, and what it returns. -/
structure MergeOutcome where
  base : Tree Name Content
  result : Except MergeError (List String)

def mergeOutcome : Except (CopyState × MergeError) CopyState → MergeOutcome
  | .ok st => { base := st.base, result := .ok st.changed }
  | .error (st, e) => { base := st.base, result := .error e }

/-- The upper directory of an overlay; `none` when it is gone from the disk. -/
structure OverlayDirs where
  upper : Option DiskDir

structure Sandbox where
  root : DiskDir
  overlayDirs : Option OverlayDirs

/-- `merge_overlay`. -/
def mergeOverlay (parent overlay : Sandbox) : MergeOutcome :=
  match overlay.overlayDirs with
  | none => { base := parent.root.tree, result := .error .noUpperDirectory }
  | some dirs =>
    match dirs.upper with
    | none => { base := parent.root.tree, result := .error .readDir }
    | some upper => mergeOutcome (copyDirRecursive [] upper.entries ⟨parent.root.tree, []⟩)

structure Merger where
  planId : PlanId

/-- `Merger::promote_agent`, with the events it emits.  A source that does not exist copies
nothing. -/
def Merger.promoteAgent (m : Merger) (agentUpperDir : Option DiskDir) (baseDir : DiskDir)
    (agentId : String) : MergeOutcome × List Event :=
  let copied : Except (CopyState × MergeError) CopyState :=
    match agentUpperDir with
    | none => .ok ⟨baseDir.tree, []⟩
    | some upper => copyDirRecursive [] upper.entries ⟨baseDir.tree, []⟩
  match copied with
  | .error e => (mergeOutcome (.error e), [])
  | .ok st => (mergeOutcome (.ok st), [.mergeCompleted m.planId agentId])

def Op.dir? : Op → Option Name
  | mkdir n => some n
  | put _ _ => none

def lastFile (f : Path × Content) : Option (Name × Content) :=
  f.1.getLast?.map (·, f.2)

theorem lastFile_cons (n : Name) {f : Path × Content} (hf : f.1 ≠ []) :
    lastFile (n :: f.1, f.2) = lastFile f := by
  rw [lastFile, lastFile, List.getLast?_cons_of_ne_nil hf]

mutual

theorem written_treeOps (n : Name) : ∀ t : Tree Name Content,
    written (treeOps n t) = (t.files.map fun f => (n :: f.1, f.2)).filterMap lastFile
  | .file _ => rfl
  | .dir es => by
    have hsame : (entriesFiles es).filterMap lastFile =
        (entriesFiles es).filterMap (lastFile ∘ fun f => (n :: f.1, f.2)) :=
      List.filterMap_congr fun f hf => (lastFile_cons n (entriesFiles_ne_nil hf)).symm
    rw [treeOps, Tree.files, List.filterMap_map, ← hsame, ← written_entriesOps es]
    rfl

theorem written_entriesOps : ∀ es : Entries Name Content,
    written (entriesOps es) = (entriesFiles es).filterMap lastFile
  | [] => rfl
  | (n, t) :: es => by
    rw [entriesOps, written, List.filterMap_append]
    show written (treeOps n t) ++ written (entriesOps es) = _
    rw [written_treeOps n t, written_entriesOps es, entriesFiles, List.filterMap_append]

end

mutual

theorem dirs_treeOps (n : Name) : ∀ t : Tree Name Content,
    (treeOps n t).filterMap Op.dir? = (t.dirs.map (n :: ·)).filterMap List.getLast?
  | .file _ => rfl
  | .dir es => by
    have hsame : (entriesDirs es).filterMap List.getLast? =
        (entriesDirs es).filterMap (List.getLast? ∘ (n :: ·)) :=
      List.filterMap_congr fun p hp =>
        (List.getLast?_cons_of_ne_nil (entriesDirs_ne_nil hp)).symm
    rw [treeOps, Tree.dirs, List.map_cons, List.filterMap_cons, List.filterMap_cons,
      List.filterMap_map, ← hsame, ← dirs_entriesOps es]
    rfl

theorem dirs_entriesOps : ∀ es : Entries Name Content,
    (entriesOps es).filterMap Op.dir? = (entriesDirs es).filterMap List.getLast?
  | [] => rfl
  | (n, t) :: es => by
    rw [entriesOps, List.filterMap_append, dirs_treeOps n t, dirs_entriesOps es, entriesDirs,
      List.filterMap_append]

end

def opsOf (upper : DiskDir) : List Op := entriesOps upper.entries

theorem mem_fileNames_iff {upper : DiskDir} {n : Name} :
    n ∈ upper.fileNames ↔ ∃ op ∈ opsOf upper, op.name = n ∧ op.isDir = false := by
  have hnames : upper.fileNames = (written (opsOf upper)).map Prod.fst := by
    rw [opsOf, written_entriesOps, List.map_filterMap]
    apply List.filterMap_congr
    intro f _
    rw [lastFile, Option.map_map]
    cases f.1.getLast? with
    | none => rfl
    | some m => rfl
  rw [hnames, List.mem_map]
  constructor
  · intro ⟨g, hg, hgn⟩
    obtain ⟨op, hop, hfile⟩ := List.mem_filterMap.mp hg
    cases op with
    | mkdir m => cases hfile
    | put m c =>
      cases hfile
      exact ⟨_, hop, hgn, rfl⟩
  · intro ⟨op, hop, hname, hkind⟩
    cases op with
    | mkdir m => cases hkind
    | put m c => exact ⟨(m, c), List.mem_filterMap.mpr ⟨_, hop, rfl⟩, hname⟩

theorem mem_dirNames_iff {upper : DiskDir} {n : Name} :
    n ∈ upper.dirNames ↔ ∃ op ∈ opsOf upper, op.name = n ∧ op.isDir = true := by
  have hnames : upper.dirNames = (opsOf upper).filterMap Op.dir? :=
    (dirs_entriesOps upper.entries).symm
  rw [hnames, List.mem_filterMap]
  constructor
  · intro ⟨op, hop, hdir⟩
    cases op with
    | put m c => cases hdir
    | mkdir m =>
      cases hdir
      exact ⟨_, hop, rfl, rfl⟩
  · intro ⟨op, hop, hname, hkind⟩
    cases op with
    | put m c => cases hkind
    | mkdir m => exact ⟨_, hop, congrArg some hname⟩

/-- A name under which the upper tree has both a directory and a file, at any depths, or one
of them where the parent's root has the other. -/
def Clash (parent upper : DiskDir) : Prop :=
  ∃ n, (n ∈ upper.dirNames ∧ n ∈ upper.fileNames) ∨
    (n ∈ upper.dirNames ∧ ∃ t, entry parent.entries n = some t ∧ t.isDir = false) ∨
    (n ∈ upper.fileNames ∧ ∃ t, entry parent.entries n = some t ∧ t.isDir = true)

theorem agree_iff_not_clash (parent upper : DiskDir) :
    Agree (opsOf upper) parent.entries ↔ ¬ Clash parent upper := by
  constructor
  · intro h
    rintro ⟨n, ⟨hdir, hfile⟩ | ⟨hdir, t, ht, hkind⟩ | ⟨hfile, t, ht, hkind⟩⟩
    · obtain ⟨op, hop, hname, hisDir⟩ := mem_dirNames_iff.mp hdir
      obtain ⟨op', hop', hname', hisDir'⟩ := mem_fileNames_iff.mp hfile
      have hsame := (h op hop).2 op' hop' (hname'.trans hname.symm)
      rw [hisDir, hisDir'] at hsame
      cases hsame
    · obtain ⟨op, hop, hname, hisDir⟩ := mem_dirNames_iff.mp hdir
      have hfit := (h op hop).1 t (by rw [hname, ht])
      rw [hisDir, hkind] at hfit
      cases hfit
    · obtain ⟨op, hop, hname, hisDir⟩ := mem_fileNames_iff.mp hfile
      have hfit := (h op hop).1 t (by rw [hname, ht])
      rw [hisDir, hkind] at hfit
      cases hfit
  · intro h op hop
    constructor
    · intro t ht
      by_contra hne
      apply h
      cases hisDir : op.isDir with
      | true =>
        have hkind : t.isDir = false := by simpa [hisDir] using hne
        exact ⟨op.name, .inr (.inl ⟨mem_dirNames_iff.mpr ⟨op, hop, rfl, hisDir⟩, t, ht, hkind⟩)⟩
      | false =>
        have hkind : t.isDir = true := by simpa [hisDir] using hne
        exact ⟨op.name, .inr (.inr ⟨mem_fileNames_iff.mpr ⟨op, hop, rfl, hisDir⟩, t, ht, hkind⟩)⟩
    · intro op' hop' hname
      by_contra hne
      apply h
      refine ⟨op.name, .inl ?_⟩
      cases hisDir : op.isDir with
      | true =>
        have hisDir' : op'.isDir = false := by simpa [hisDir] using hne
        exact ⟨mem_dirNames_iff.mpr ⟨op, hop, rfl, hisDir⟩,
          mem_fileNames_iff.mpr ⟨op', hop', hname, hisDir'⟩⟩
      | false =>
        have hisDir' : op'.isDir = true := by simpa [hisDir] using hne
        exact ⟨mem_dirNames_iff.mpr ⟨op', hop', hname, hisDir'⟩,
          mem_fileNames_iff.mpr ⟨op, hop, rfl, hisDir⟩⟩

/-- What a merge that succeeds promises: the files of the upper tree are in the base at their
paths, all other files are as they were, and `changed` lists those paths. -/
structure MergeRight (parent upper : DiskDir) (base : Tree Name Content)
    (changed : List String) : Prop where
  present : ∀ f ∈ upper.files, base.fileAt f.1 = some f.2
  others : ∀ p, (∀ f ∈ upper.files, f.1 ≠ p) → base.fileAt p = parent.tree.fileAt p
  paths : (changed.map some).Perm (upper.files.map fun f => pathText f.1)
  nodup : changed.Nodup

/-- Every file lies directly in the upper directory, under a name that is UTF-8. -/
def TopLevel (upper : DiskDir) : Prop :=
  ∀ f ∈ upper.files, ∃ n s, f.1 = [n] ∧ String.fromUTF8? n.bytes = some s

def Right (parent upper : DiskDir) (o : MergeOutcome) : Prop :=
  ∀ changed, o.result = .ok changed → MergeRight parent upper o.base changed

def walk (parent upper : DiskDir) : MergeOutcome :=
  mergeOutcome (copyDirRecursive [] upper.entries ⟨parent.tree, []⟩)

theorem walk_of_clash {parent upper : DiskDir} (h : Clash parent upper) :
    ∃ e, (walk parent upper).result = .error e := by
  have hagree : ¬ Agree (opsOf upper) parent.entries :=
    fun hagree => (agree_iff_not_clash parent upper).mp hagree h
  obtain ⟨e, he⟩ := runOps_of_not_agree hagree []
  refine ⟨e.2, ?_⟩
  rw [walk, copyDirRecursive_eq_runOps]
  show (mergeOutcome (runOps (opsOf upper) ⟨.dir parent.entries, []⟩)).result = _
  rw [he]
  rfl

theorem walk_of_not_clash {parent upper : DiskDir} (h : ¬ Clash parent upper) :
    ∃ base, runOps (opsOf upper) ⟨parent.tree, []⟩ =
        .ok ⟨base, (written (opsOf upper)).map fun f => toStringLossy f.1.bytes⟩ ∧
      walk parent upper =
        ⟨base, .ok ((written (opsOf upper)).map fun f => toStringLossy f.1.bytes)⟩ := by
  obtain ⟨root, hroot⟩ := runOps_of_agree ((agree_iff_not_clash parent upper).mpr h) []
  rw [List.nil_append, flatMap_pushes] at hroot
  refine ⟨.dir root, hroot, ?_⟩
  rw [walk, copyDirRecursive_eq_runOps]
  show mergeOutcome (runOps (opsOf upper) ⟨.dir parent.entries, []⟩) = _
  rw [hroot]
  rfl

theorem written_of_topLevel {upper : DiskDir} (h : TopLevel upper) :
    (written (opsOf upper)).map (fun f => ([f.1], f.2)) = upper.files := by
  rw [opsOf, written_entriesOps]
  show ((upper.files).filterMap lastFile).map _ = upper.files
  have hflat : ∀ f ∈ upper.files, ∃ n, f.1 = [n] := by
    intro f hf
    obtain ⟨n, _, hn, _⟩ := h f hf
    exact ⟨n, hn⟩
  generalize upper.files = fs at hflat
  induction fs with
  | nil => rfl
  | cons f fs ih =>
    obtain ⟨n, hn⟩ := hflat f List.mem_cons_self
    have hlast : lastFile f = some (n, f.2) := by
      rw [lastFile, hn]
      rfl
    rw [List.filterMap_cons_some hlast, List.map_cons,
      ih fun g hg => hflat g (List.mem_cons_of_mem f hg), ← hn]

theorem walk_right_of_topLevel {parent upper : DiskDir} (hclash : ¬ Clash parent upper)
    (htop : TopLevel upper) : Right parent upper (walk parent upper) := by
  obtain ⟨base, hrun, hwalk⟩ := walk_of_not_clash hclash
  have hfiles := written_of_topLevel htop
  have hmem : ∀ f ∈ written (opsOf upper), ([f.1], f.2) ∈ upper.files := by
    intro f hf
    rw [← hfiles]
    exact List.mem_map_of_mem hf
  have htext : ∀ f ∈ written (opsOf upper),
      String.fromUTF8? f.1.bytes = some (toStringLossy f.1.bytes) := by
    intro f hf
    obtain ⟨n, s, hn, hs⟩ := htop _ (hmem f hf)
    rw [List.singleton_inj.mp hn, hs, toStringLossy_of_utf8 hs]
  have hnames : ((written (opsOf upper)).map Prod.fst).Nodup := by
    have hpaths := upper.files_nodup
    rw [← hfiles, List.map_map] at hpaths
    apply List.Nodup.of_map fun n : Name => [n]
    rw [List.map_map]
    exact hpaths
  intro changed hchanged
  rw [hwalk] at hchanged ⊢
  cases hchanged
  constructor
  · intro f hf
    rw [← hfiles] at hf
    obtain ⟨g, hg, rfl⟩ := List.mem_map.mp hf
    exact runOps_fileAt_of_written hrun hnames hg
  · intro p hp
    apply runOps_fileAt_of_not_written hrun
    intro f hf heq
    exact hp _ (hmem f hf) heq.symm
  · rw [← hfiles, List.map_map, List.map_map]
    apply List.Perm.of_eq
    apply List.map_congr_left
    intro f hf
    exact (htext f hf).symm
  · have hchanged : (written (opsOf upper)).map (fun f => toStringLossy f.1.bytes) =
        ((written (opsOf upper)).map Prod.fst).map (fun n => toStringLossy n.bytes) := by
      rw [List.map_map]
      rfl
    rw [hchanged]
    apply List.Nodup.map_on _ hnames
    intro n hn m hm heq
    obtain ⟨f, hf, rfl⟩ := List.mem_map.mp hn
    obtain ⟨g, hg, rfl⟩ := List.mem_map.mp hm
    apply Name.eq_of_bytes
    rw [← fromUTF8?_eq_some (htext f hf), ← fromUTF8?_eq_some (htext g hg), heq]

theorem topLevel_of_walk_right {parent upper : DiskDir} (hclash : ¬ Clash parent upper)
    (hright : Right parent upper (walk parent upper)) : TopLevel upper := by
  obtain ⟨base, -, hwalk⟩ := walk_of_not_clash hclash
  have hmerge := hright _ (by rw [hwalk])
  intro f hf
  have hlisted : pathText f.1 ∈
      ((written (opsOf upper)).map fun f => toStringLossy f.1.bytes).map some :=
    hmerge.paths.mem_iff.mpr (List.mem_map_of_mem hf)
  obtain ⟨s, hs, htext⟩ := List.mem_map.mp hlisted
  obtain ⟨g, -, rfl⟩ := List.mem_map.mp hs
  match hpath : f.1 with
  | [] => exact absurd hpath (entriesFiles_ne_nil hf)
  | [n] =>
    rw [hpath] at htext
    exact ⟨n, _, rfl, htext.symm⟩
  | n :: m :: p =>
    rw [hpath] at htext
    exact absurd (pathText_nested htext.symm) (toStringLossy_noSlash g.1)

/-- **When the walk is right.**  Exactly when a clash of names makes it fail, or all files
lie directly in the upper directory. -/
theorem walk_right_iff (parent upper : DiskDir) :
    Right parent upper (walk parent upper) ↔ Clash parent upper ∨ TopLevel upper := by
  constructor
  · intro hright
    by_cases hclash : Clash parent upper
    · exact .inl hclash
    · exact .inr (topLevel_of_walk_right hclash hright)
  · intro h
    by_cases hclash : Clash parent upper
    · intro changed hchanged
      obtain ⟨e, he⟩ := walk_of_clash hclash
      rw [he] at hchanged
      cases hchanged
    · exact walk_right_of_topLevel hclash (h.resolve_left hclash)

theorem promoteAgent_eq_walk (m : Merger) (upper baseDir : DiskDir) (agentId : String) :
    (m.promoteAgent (some upper) baseDir agentId).1 = walk baseDir upper := by
  cases h : copyDirRecursive [] upper.entries ⟨baseDir.tree, []⟩ with
  | error e => simp [Merger.promoteAgent, walk, h]
  | ok st => simp [Merger.promoteAgent, walk, h]

/-- **Merging an overlay is right exactly when** names clash, so that it fails, or every file
of the upper tree lies directly in it under a UTF-8 name; and promoting an agent likewise. -/
theorem merge_right_iff (parent overlay : Sandbox) (upper : DiskDir) (m : Merger)
    (agentId : String) :
    (Right parent.root upper
        (mergeOverlay parent { overlay with overlayDirs := some ⟨some upper⟩ }) ↔
      Clash parent.root upper ∨ TopLevel upper) ∧
    (Right parent.root upper (m.promoteAgent (some upper) parent.root agentId).1 ↔
      Clash parent.root upper ∨ TopLevel upper) := by
  constructor
  · exact walk_right_iff parent.root upper
  · rw [promoteAgent_eq_walk]
    exact walk_right_iff parent.root upper

def nameD : Name := ⟨⟨#[0x64]⟩, by decide⟩

def nameX : Name := ⟨⟨#[0x78]⟩, by decide⟩

def emptyDir : DiskDir := ⟨[], by simp [Tree.Distinct, entriesDistinct]⟩

/-- The upper tree with the one file `d/x`. -/
def nestedUpper : DiskDir :=
  ⟨[(nameD, .dir [(nameX, .file ⟨#[0x31]⟩)])], by simp [Tree.Distinct, entriesDistinct]⟩

/-- The file `d/x` is copied to `x`. -/
theorem nested_file_misplaced :
    ¬ ∀ (parent upper : DiskDir) (m : Merger) (agentId : String),
      Right parent upper
          (mergeOverlay ⟨parent, none⟩ ⟨emptyDir, some ⟨some upper⟩⟩) ∧
        Right parent upper (m.promoteAgent (some upper) parent agentId).1 := by
  intro h
  have hmerge := (h emptyDir nestedUpper ⟨""⟩ "").1 _ rfl
  have hpresent := hmerge.present ([nameD, nameX], ⟨#[0x31]⟩) List.mem_cons_self
  exact absurd hpresent (by decide)

end Mowis.Overlay
