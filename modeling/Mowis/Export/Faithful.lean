import Mowis.Export.Staging

/-!
# What an export loses

Workspaces that were derived from one base are exported, through a staging directory or from the
directories of the containers.  The export keeps what it should if a path that one workspace has
modified has its version, a path that none has modified the version of the base, and every file was
copied.
-/

namespace Mowis.Export

open Mowis.Lib
open Mowis.Containers (Item)
open Mowis.Topology (AgentId ContainerId SandboxId TopologyManager)
open Mowis.Scheduling (SandboxName)
open Mowis.Tools (bind_ok)

/-- What the host decides: the characters of a name, and which requests and calls succeed in the
output and in each directory that is exported. -/
structure Host where
  isAlphanumeric : Char → Bool
  output : Fate
  fate : String → Fate

/-- The workspaces that are exported: staged and exported by the manager, staged and exported from
the directory in the order in which it is read, or exported from the containers. -/
inductive Source where
  | staged (calls : List StageCall) (contended : Bool)
  | stagingDir (calls : List StageCall) (order : IterOrder (String × HostTree))
  | containers (entries : List ContainerEntry)

/-- What was copied of each workspace, and the output directory with what was copied to it. -/
structure Outcome where
  taken : List (Workspace × List (Path × Bytes))
  state : CopyState

def Staging.taken (s : Staging) : List (Workspace × List (Path × Bytes)) :=
  s.staged.map fun w => (w.workspace, w.copied)

def Staging.stagedAs (s : Staging) (name : String) : List Workspace :=
  (s.staged.filter (·.stagingPath = name)).map (·.workspace)

namespace Source

def stage (host : Host) : Source → Except ExportError Staging
  | .staged calls _ => stageAll host.isAlphanumeric calls .start
  | .stagingDir calls _ => stageAll host.isAlphanumeric calls .start
  | .containers _ => .ok .start

def workspaces : Source → List Workspace
  | .staged calls _ => calls.filterMap StageCall.workspace?
  | .stagingDir calls _ => calls.filterMap StageCall.workspace?
  | .containers entries => entries.filterMap ContainerEntry.workspace?

def run (host : Host) (s : Staging) (out : HostTree) : Source → Except ExportError Outcome
  | .staged _ contended => do
    let e ← exportStagedWorkspaces host.fate host.output contended s out
    .ok ⟨s.taken, e.state⟩
  | .stagingDir _ order => do
    let e ← exportStagedWorkspacesFromDir host.fate host.output order s out
    .ok ⟨s.taken, e.state⟩
  | .containers entries => do
    let e ← exportContainerWorkspacesToHost host.fate host.output entries out
    .ok ⟨(entries.filterMap ContainerEntry.workspace?).map fun w => (w, e.state.copied), e.state⟩

/-- The workspaces in the order in which they are copied to the output; those that were staged in
one directory are copied together. -/
def order (s : Staging) : Source → List Workspace
  | .staged _ contended =>
    if contended then [] else s.staged.flatMap fun w => s.stagedAs w.stagingPath
  | .stagingDir _ order => (order.arrange s.entries).flatMap fun entry => s.stagedAs entry.1
  | .containers entries => entries.filterMap ContainerEntry.workspace?

end Source

def versions (works : List Workspace) : List (Path → Option Item) := works.map (·.tree.fileAt)

/-- Nothing is lost: what is promised is in the output, and every file was copied, as it is. -/
structure Faithful (base : Workspace) (works : List Workspace) (o : Outcome) : Prop where
  all : o.taken.map Prod.fst = works
  promised : ∀ p v, Promised base.tree.fileAt (versions works) p v →
    (o.state.out.fileAt p).map Item.file = some v
  copied : ∀ t ∈ o.taken, ∀ p item, t.1.tree.fileAt p = some item →
    (∃ content, item = .file content ∧ (p, content) ∈ t.2) ∧ p ∈ o.state.copied.map Prod.fst

/-- All files of a workspace are regular, and all are among the first entries of their
directories. -/
def Shown (w : Workspace) : Prop :=
  ∀ p item, w.tree.fileAt p = some item → (shownAt w p).map Item.file = some item

def Unlinked (w : Workspace) : Prop := ∀ p target, w.tree.fileAt p ≠ some (.link target)

def NoFiles (w : Workspace) : Prop := ∀ p, w.tree.fileAt p = none

def Source.ShowsAll : Source → Prop
  | src@(.staged _ contended) =>
    if contended then ∀ w ∈ src.workspaces, NoFiles w else ∀ w ∈ src.workspaces, Shown w
  | src@(.stagingDir _ _) => ∀ w ∈ src.workspaces, Shown w
  | src@(.containers _) => ∀ w ∈ src.workspaces, Unlinked w

section Kept

theorem keepsPromises (base : Workspace) (works : List Workspace)
    (order : List (Workspace × (Path → Option Bytes))) (out out' : HostTree)
    (hshown : ∀ t ∈ order, ∀ p, (t.2 p).map Item.file = t.1.tree.fileAt p)
    (hmem : ∀ w, w ∈ order.map Prod.fst ↔ w ∈ works)
    (hout : ∀ q, out'.fileAt q = (merged (order.map Prod.snd) q).or (out.fileAt q)) :
    (∀ p v, Promised base.tree.fileAt (versions works) p v →
        (out'.fileAt p).map Item.file = some v) ↔
      (∀ p v, ModifiedOnce base.tree.fileAt (versions works) p v →
        ModifierLast base.tree.fileAt p (versions (order.map Prod.fst))) ∧
      (works = [] → ∀ p v, base.tree.fileAt p = some v → (out.fileAt p).map Item.file = some v) := by
  have hversions : (order.map Prod.snd).map (fun w k => (w k).map Item.file) =
      versions (order.map Prod.fst) := by
    rw [versions, List.map_map, List.map_map]
    refine List.map_congr_left ?_
    intro t ht
    funext p
    exact hshown t ht p
  have hvalue : ∀ p, (out'.fileAt p).map Item.file =
      (merged (versions (order.map Prod.fst)) p).or ((out.fileAt p).map Item.file) := by
    intro p
    rw [hout, ← hversions, ← merged_map]
    cases merged (order.map Prod.snd) p <;> rfl
  have hmem' : ∀ w, w ∈ versions (order.map Prod.fst) ↔ w ∈ versions works := by
    intro w
    rw [versions, versions, List.mem_map, List.mem_map]
    simp only [hmem]
  have hempty : versions works = [] ↔ works = [] := List.map_eq_nil_iff
  rw [← hempty, ← keepsPromises_iff _ hmem']
  simp only [hvalue]

end Kept

/-- The output has the last of the parts at each path, and all of them were copied. -/
structure Exports (parts : List (Path → Option Bytes)) (out : HostTree) (st : CopyState) : Prop where
  out : ∀ q, st.out.fileAt q = (merged parts q).or (out.fileAt q)
  copied : ∀ p content, (p, content) ∈ st.copied ↔ ∃ part ∈ parts, part p = some content

section Exports

variable {host : Host} {s : Staging} {out : HostTree} {parts : List (Path → Option Bytes)}
  {st : CopyState}

theorem Exports.mem_paths (h : Exports parts out st) {p : Path} :
    p ∈ st.copied.map Prod.fst ↔ merged parts p ≠ none := by
  rw [ne_eq, merged_eq_none_iff]
  constructor
  · intro hp hnone
    obtain ⟨f, hf, rfl⟩ := List.mem_map.mp hp
    obtain ⟨part, hpart, hvalue⟩ := (h.copied f.1 f.2).mp hf
    rw [hnone part hpart] at hvalue
    cases hvalue
  · intro hsome
    by_contra hp
    refine hsome ?_
    intro part hpart
    cases hvalue : part p with
    | none => rfl
    | some content =>
      have hcopied := (h.copied p content).mpr ⟨part, hpart, hvalue⟩
      exact absurd (List.mem_map.mpr ⟨_, hcopied, rfl⟩) hp

theorem exports_of_foldlM {output : Fate} {st₀ : CopyState} {α : Type}
    {step : α → Exported → Except ExportError Exported} {part : α → Path → Option Bytes}
    {xs : List α} {e e' : Exported} (hcreate : CopyState.createDir output [] [] ⟨out, []⟩ = .ok st₀)
    (he : e.state = st₀)
    (hstep : ∀ a ∈ xs, ∀ e e', step a e = .ok e' →
      ∃ ws, Wrote [] ws e.state e'.state ∧ ∀ p content, (p, content) ∈ ws ↔ part a p = some content)
    (h : xs.foldlM (fun e a => step a e) e = .ok e') : Exports (xs.map part) out e'.state := by
  obtain ⟨ws, hwrote, hlast, hmem⟩ := foldlM_wrote hstep h
  have hall := (Wrote.createDir hcreate).1.trans (he ▸ hwrote)
  constructor
  · intro q
    rw [← hlast]
    exact hall.inside q
  · intro p content
    have hcopied : e'.state.copied = ws := hall.copied
    rw [hcopied, hmem]
    simp only [List.mem_map, exists_exists_and_eq_and]

theorem Staging.Sound.files_stagedAs (hs : s.Sound) (name : String) (q : Path) :
    s.root.fileAt (name :: q) = merged ((s.stagedAs name).map shownAt) q := by
  rw [hs.files, Staging.stagedAs, List.map_map]
  rfl

theorem stagedPart_eq (hs : s.Sound) {entry : String × HostTree} (h : entry ∈ s.entries) :
    stagedPart entry = merged ((s.stagedAs entry.1).map shownAt) := by
  obtain ⟨name, node⟩ := entry
  have hentry : Lib.entry s.entries name = some node :=
    (entry_eq_some_iff hs.distinct_entries.1).mpr h
  funext q
  have hfile := hs.fileAt_entry hentry q
  rw [hs.files_stagedAs] at hfile
  by_cases hstaged : ∃ w ∈ s.staged, w.stagingPath = name
  · obtain ⟨w, hw, rfl⟩ := hstaged
    obtain ⟨es, hes⟩ := hs.entry_staged hw
    cases hes.symm.trans hentry
    rw [stagedPart, if_pos (hs.named w hw)]
    exact hfile.symm
  · -- nothing was staged there
    have hnil : s.stagedAs name = [] := by
      rw [Staging.stagedAs, List.map_eq_nil_iff, List.filter_eq_nil_iff]
      intro w hw hname
      exact hstaged ⟨w, hw, of_decide_eq_true hname⟩
    rw [hnil] at hfile ⊢
    cases node with
    | file c => rfl
    | dir es =>
      rw [stagedPart]
      split
      · exact hfile.symm
      · rfl

theorem exportStagedWorkspaces_ok (hs : s.Sound) {fate : String → Fate} {output : Fate}
    {e : Exported} (h : exportStagedWorkspaces fate output false s out = .ok e) :
    Exports (s.staged.map fun w => merged ((s.stagedAs w.stagingPath).map shownAt)) out e.state := by
  obtain ⟨st, hcreate, h⟩ := bind_ok h
  refine exports_of_foldlM hcreate rfl ?_ h
  intro w hw e e' hstep
  obtain ⟨ws, hwrote, hmem⟩ := exportStaged_ok hs hw hstep
  refine ⟨ws, hwrote, ?_⟩
  intro p content
  rw [hmem, hs.files_stagedAs]

theorem exportStagedWorkspacesFromDir_ok (hs : s.Sound) {fate : String → Fate} {output : Fate}
    {order : IterOrder (String × HostTree)} {e : Exported}
    (h : exportStagedWorkspacesFromDir fate output order s out = .ok e) :
    Exports ((order.arrange s.entries).map fun entry =>
      merged ((s.stagedAs entry.1).map shownAt)) out e.state := by
  obtain ⟨st, hcreate, h⟩ := bind_ok h
  obtain ⟨_, _, h⟩ := bind_ok h
  refine exports_of_foldlM hcreate rfl ?_ h
  intro entry hentry e e' hstep
  rw [IterOrder.mem_arrange] at hentry
  rw [← stagedPart_eq hs hentry]
  exact exportStagedEntry_ok (entriesDistinct_iff.mp hs.distinct_entries.2 entry hentry) hstep

theorem exportContainerWorkspacesToHost_ok {fate : String → Fate} {output : Fate}
    {entries : List ContainerEntry} {e : Exported}
    (h : exportContainerWorkspacesToHost fate output entries out = .ok e) :
    Exports (entries.map ContainerEntry.part) out e.state := by
  obtain ⟨st, hcreate, h⟩ := bind_ok h
  obtain ⟨_, _, h⟩ := bind_ok h
  refine exports_of_foldlM hcreate rfl ?_ h
  intro entry _ e e' hstep
  exact exportContainer_ok hstep

end Exports

section Lost

variable {s : Staging} {out : HostTree} {base : Workspace} {order works : List Workspace}
  {parts : List (Path → Option Bytes)} {st : CopyState}

def ModifiersLast (base : Workspace) (works order : List Workspace) : Prop :=
  ∀ p v, ModifiedOnce base.tree.fileAt (versions works) p v →
    ModifierLast base.tree.fileAt p (versions order)

def BaseThere (base : Workspace) (works : List Workspace) (out : HostTree) : Prop :=
  works = [] → ∀ p v, base.tree.fileAt p = some v → (out.fileAt p).map Item.file = some v

theorem Shown.eq {w : Workspace} (h : Shown w) (p : Path) :
    (shownAt w p).map Item.file = w.tree.fileAt p := by
  cases hfile : w.tree.fileAt p with
  | some item => exact h p item hfile
  | none =>
    cases hshown : shownAt w p with
    | none => rfl
    | some content =>
      rw [fileAt_of_shownAt hshown] at hfile
      cases hfile

theorem staged_faithful_iff (hs : s.Sound) (hworks : s.staged.map (·.workspace) = works)
    (hexports : Exports parts out st)
    (hparts : ∀ q, merged parts q = merged (order.map shownAt) q)
    (hmem : ∀ w, w ∈ order ↔ w ∈ works) :
    Faithful base works ⟨s.taken, st⟩ ↔
      (∀ w ∈ works, Shown w) ∧ ModifiersLast base works order ∧ BaseThere base works out := by
  have hall : s.taken.map Prod.fst = works := by
    rw [Staging.taken, List.map_map, ← hworks]
    rfl
  have hfst : (order.map fun w => (w, shownAt w)).map Prod.fst = order := by
    rw [List.map_map]
    exact List.map_id order
  have hsnd : (order.map fun w => (w, shownAt w)).map Prod.snd = order.map shownAt := by
    rw [List.map_map]
    rfl
  have hkeeps : (∀ w ∈ works, Shown w) → ((∀ p v, Promised base.tree.fileAt (versions works) p v →
      (st.out.fileAt p).map Item.file = some v) ↔
        ModifiersLast base works order ∧ BaseThere base works out) := by
    intro hshown
    have h := keepsPromises base works (order.map fun w => (w, shownAt w)) out st.out ?_ ?_ ?_
    · rwa [hfst] at h
    · intro t ht p
      obtain ⟨w, hw, rfl⟩ := List.mem_map.mp ht
      exact (hshown w ((hmem w).mp hw)).eq p
    · rw [hfst]
      exact hmem
    · intro q
      rw [hexports.out, hparts, hsnd]
  constructor
  · intro hfaithful
    have hshown : ∀ w ∈ works, Shown w := by
      intro w hw p item hfile
      rw [← hworks] at hw
      obtain ⟨sw, hsw, rfl⟩ := List.mem_map.mp hw
      have ht : (sw.workspace, sw.copied) ∈ s.taken := List.mem_map.mpr ⟨sw, hsw, rfl⟩
      obtain ⟨⟨content, rfl, hcontent⟩, _⟩ := hfaithful.copied _ ht p item hfile
      rw [(hs.copied sw hsw p content).mp hcontent]
      rfl
    exact ⟨hshown, (hkeeps hshown).mp hfaithful.promised⟩
  · rintro ⟨hshown, hkept⟩
    refine ⟨hall, (hkeeps hshown).mpr hkept, ?_⟩
    intro t ht p item hfile
    obtain ⟨sw, hsw, rfl⟩ := List.mem_map.mp ht
    have hw : sw.workspace ∈ works := by
      rw [← hworks]
      exact List.mem_map.mpr ⟨sw, hsw, rfl⟩
    obtain ⟨content, hcontent, rfl⟩ := Option.map_eq_some_iff.mp (hshown _ hw p item hfile)
    refine ⟨⟨content, rfl, (hs.copied sw hsw p content).mpr hcontent⟩, ?_⟩
    rw [hexports.mem_paths, hparts, ne_eq, merged_eq_none_iff]
    intro hnone
    have hgone := hnone _ (List.mem_map.mpr ⟨_, (hmem _).mpr hw, rfl⟩)
    rw [hcontent] at hgone
    cases hgone

theorem contended_faithful_iff {st : CopyState}
    (hworks : s.staged.map (·.workspace) = works) (hcopied : st.copied = [])
    (hout : ∀ q, st.out.fileAt q = out.fileAt q) :
    Faithful base works ⟨s.taken, st⟩ ↔
      (∀ w ∈ works, NoFiles w) ∧ ModifiersLast base works [] ∧ BaseThere base works out := by
  have hall : s.taken.map Prod.fst = works := by
    rw [Staging.taken, List.map_map, ← hworks]
    rfl
  have honce : (∀ w ∈ works, NoFiles w) → ∀ p v,
      ¬ ModifiedOnce base.tree.fileAt (versions works) p v := by
    rintro hempty p v ⟨before, w, after, hversions, hw, _⟩
    have hin : w ∈ versions works := by
      rw [hversions]
      exact List.mem_append_right _ List.mem_cons_self
    obtain ⟨workspace, hworkspace, rfl⟩ := List.mem_map.mp hin
    rw [hempty workspace hworkspace p] at hw
    cases hw
  constructor
  · intro hfaithful
    have hempty : ∀ w ∈ works, NoFiles w := by
      intro w hw p
      rw [← hall] at hw
      obtain ⟨t, ht, rfl⟩ := List.mem_map.mp hw
      cases hfile : t.1.tree.fileAt p with
      | none => rfl
      | some item =>
        have hpath := (hfaithful.copied t ht p item hfile).2
        rw [hcopied] at hpath
        cases hpath
    refine ⟨hempty, fun p v h => absurd h (honce hempty p v), ?_⟩
    intro hnone p v hbase
    rw [← hout]
    refine hfaithful.promised p v (.inr ⟨hbase, ?_, .inl ?_⟩)
    · rw [hnone]
      intro w hw
      cases hw
    · rw [hnone]
      rfl
  · rintro ⟨hempty, _, hbase⟩
    refine ⟨hall, ?_, ?_⟩
    · rintro p v (h | ⟨hv, _, hworks' | ⟨w, hw, hwv⟩⟩)
      · exact absurd h (honce hempty p v)
      · rw [hout]
        exact hbase (List.map_eq_nil_iff.mp hworks') p v hv
      · obtain ⟨workspace, hworkspace, rfl⟩ := List.mem_map.mp hw
        rw [hempty workspace hworkspace p] at hwv
        cases hwv
    · intro t ht p item hfile
      have hw : t.1 ∈ works := by
        rw [← hall]
        exact List.mem_map.mpr ⟨t, ht, rfl⟩
      rw [hempty t.1 hw p] at hfile
      cases hfile

def containerParts (entries : List ContainerEntry) : List (Workspace × (Path → Option Bytes)) :=
  entries.filterMap fun entry => entry.workspace?.map fun w => (w, entry.part)

theorem fst_containerParts (entries : List ContainerEntry) :
    (containerParts entries).map Prod.fst = entries.filterMap ContainerEntry.workspace? := by
  rw [containerParts, List.map_filterMap]
  congr 1
  funext entry
  cases entry.workspace? <;> rfl

theorem merged_containerParts (entries : List ContainerEntry) (q : Path) :
    merged (entries.map ContainerEntry.part) q =
      merged ((containerParts entries).map Prod.snd) q := by
  unfold containerParts
  induction entries with
  | nil => rfl
  | cons entry entries ih =>
    rw [List.map_cons, merged_cons, ih, List.filterMap_cons]
    cases hw : entry.workspace? with
    | none =>
      have hpart : entry.part q = none := by rw [ContainerEntry.part, hw]
      rw [hpart, Option.or_none]
      rfl
    | some w =>
      rw [Option.map_some]
      simp only [List.map_cons, merged_cons]

theorem part_eq {entry : ContainerEntry} {w : Workspace} (hw : entry.workspace? = some w)
    (hlinks : Unlinked w) (p : Path) : (entry.part p).map Item.file = w.tree.fileAt p := by
  have hview : ∀ content, entry.part p = some content ↔ w.tree.fileAt p = some (.file content) := by
    intro content
    rw [ContainerEntry.part, hw]
    simp only [Option.bind_eq_some_iff, id, exists_eq_right]
    exact fileAt_hostView (t := w.tree) hlinks content
  cases hfile : w.tree.fileAt p with
  | none =>
    cases hpart : entry.part p with
    | none => rfl
    | some content =>
      rw [(hview content).mp hpart] at hfile
      cases hfile
  | some item =>
    cases item with
    | link target => exact absurd hfile (hlinks p target)
    | file content =>
      rw [(hview content).mpr hfile]
      rfl

theorem containers_faithful_iff {entries : List ContainerEntry}
    (hworks : entries.filterMap ContainerEntry.workspace? = works)
    (hexports : Exports (entries.map ContainerEntry.part) out st) :
    Faithful base works ⟨works.map fun w => (w, st.copied), st⟩ ↔
      (∀ w ∈ works, Unlinked w) ∧ ModifiersLast base works works ∧ BaseThere base works out := by
  have hall : (works.map fun w => (w, st.copied)).map Prod.fst = works := by
    rw [List.map_map]
    exact List.map_id works
  have hfst : (containerParts entries).map Prod.fst = works :=
    (fst_containerParts entries).trans hworks
  have hentry : ∀ t ∈ containerParts entries, ∃ entry ∈ entries,
      entry.workspace? = some t.1 ∧ entry.part = t.2 := by
    intro t ht
    obtain ⟨entry, hin, hw⟩ := List.mem_filterMap.mp ht
    obtain ⟨w, hworkspace, rfl⟩ := Option.map_eq_some_iff.mp hw
    exact ⟨entry, hin, hworkspace, rfl⟩
  have hkeeps : (∀ w ∈ works, Unlinked w) → ((∀ p v, Promised base.tree.fileAt (versions works) p v →
      (st.out.fileAt p).map Item.file = some v) ↔
        ModifiersLast base works works ∧ BaseThere base works out) := by
    intro hlinks
    have h := keepsPromises base works (containerParts entries) out st.out ?_ ?_ ?_
    · rwa [hfst] at h
    · intro t ht p
      obtain ⟨entry, _, hw, hpart⟩ := hentry t ht
      rw [← hpart]
      refine part_eq hw (hlinks t.1 ?_) p
      rw [← hfst]
      exact List.mem_map.mpr ⟨t, ht, rfl⟩
    · intro w
      rw [hfst]
    · intro q
      rw [hexports.out, merged_containerParts]
  constructor
  · intro hfaithful
    have hlinks : ∀ w ∈ works, Unlinked w := by
      intro w hw p target hfile
      have ht : (w, st.copied) ∈ works.map fun w => (w, st.copied) := List.mem_map.mpr ⟨w, hw, rfl⟩
      obtain ⟨⟨content, heq, _⟩, _⟩ := hfaithful.copied _ ht p _ hfile
      cases heq
    exact ⟨hlinks, (hkeeps hlinks).mp hfaithful.promised⟩
  · rintro ⟨hlinks, hkept⟩
    refine ⟨hall, (hkeeps hlinks).mpr hkept, ?_⟩
    intro t ht p item hfile
    obtain ⟨w, hw, rfl⟩ := List.mem_map.mp ht
    rw [← hfst] at hw
    obtain ⟨part, hpart, rfl⟩ := List.mem_map.mp hw
    obtain ⟨entry, hin, hworkspace, hpart'⟩ := hentry part hpart
    have hseen := part_eq hworkspace (hlinks _ (hfst ▸ hw)) p
    rw [hfile] at hseen
    obtain ⟨content, hcontent, rfl⟩ := Option.map_eq_some_iff.mp hseen
    have hcopied : (p, content) ∈ st.copied :=
      (hexports.copied p content).mpr ⟨entry.part, List.mem_map.mpr ⟨entry, hin, rfl⟩, hcontent⟩
    exact ⟨⟨content, rfl, hcopied⟩, List.mem_map.mpr ⟨_, hcopied, rfl⟩⟩

theorem mem_stagedAs {name : String} {w : Workspace} (h : w ∈ s.stagedAs name) :
    w ∈ s.staged.map (·.workspace) := by
  obtain ⟨sw, hsw, rfl⟩ := List.mem_map.mp h
  exact List.mem_map.mpr ⟨sw, (List.mem_filter.mp hsw).1, rfl⟩

theorem stagedAs_stagingPath {sw : StagedWorkspace} (h : sw ∈ s.staged) :
    sw.workspace ∈ s.stagedAs sw.stagingPath :=
  List.mem_map.mpr ⟨sw, List.mem_filter.mpr ⟨h, decide_eq_true rfl⟩, rfl⟩

theorem merged_order {α : Type} (xs : List α) (name : α → String) (q : Path) :
    merged (xs.map fun a => merged ((s.stagedAs (name a)).map shownAt)) q =
      merged ((xs.flatMap fun a => s.stagedAs (name a)).map shownAt) q := by
  rw [List.map_flatMap, merged_flatMap]

/-- **What an export loses.**  An export that reports no error keeps what is promised, and has copied
every file as it is, exactly when all is shown to it, every path that one workspace has modified is
last copied from that workspace, and the output has the base where there is no workspace. -/
theorem faithful_iff (host : Host) (src : Source) (base : Workspace) (out : HostTree) {s : Staging}
    {o : Outcome} (hstage : src.stage host = .ok s) (hrun : src.run host s out = .ok o) :
    Faithful base src.workspaces o ↔
      src.ShowsAll ∧ ModifiersLast base src.workspaces (src.order s) ∧
        BaseThere base src.workspaces out := by
  cases src with
  | staged calls contended =>
    obtain ⟨hs, hstaged⟩ := stageAll_sound .start hstage
    have hworks : s.staged.map (·.workspace) = (Source.staged calls contended).workspaces := hstaged
    obtain ⟨e, hexport, h⟩ := bind_ok hrun
    cases h
    cases contended with
    | true =>
      obtain ⟨st, hcreate, h⟩ := bind_ok hexport
      cases h
      have hcreated := (Wrote.createDir hcreate).1
      exact contended_faithful_iff hworks hcreated.copied fun q => hcreated.inside q
    | false =>
      refine staged_faithful_iff hs hworks (exportStagedWorkspaces_ok hs hexport)
        (merged_order s.staged (·.stagingPath)) ?_
      intro w
      rw [Source.order, if_neg Bool.false_ne_true, List.mem_flatMap]
      constructor
      · rintro ⟨sw, _, hw⟩
        exact hworks ▸ mem_stagedAs hw
      · intro hw
        have hw' : w ∈ s.staged.map (·.workspace) := hworks ▸ hw
        obtain ⟨sw, hsw, rfl⟩ := List.mem_map.mp hw'
        exact ⟨sw, hsw, stagedAs_stagingPath hsw⟩
  | stagingDir calls order =>
    obtain ⟨hs, hstaged⟩ := stageAll_sound .start hstage
    have hworks : s.staged.map (·.workspace) = (Source.stagingDir calls order).workspaces := hstaged
    obtain ⟨e, hexport, h⟩ := bind_ok hrun
    cases h
    refine staged_faithful_iff hs hworks (exportStagedWorkspacesFromDir_ok hs hexport)
      (merged_order (order.arrange s.entries) Prod.fst) ?_
    intro w
    rw [Source.order, List.mem_flatMap]
    constructor
    · rintro ⟨entry, _, hw⟩
      exact hworks ▸ mem_stagedAs hw
    · intro hw
      have hw' : w ∈ s.staged.map (·.workspace) := hworks ▸ hw
      obtain ⟨sw, hsw, rfl⟩ := List.mem_map.mp hw'
      obtain ⟨es, hes⟩ := hs.entry_staged hsw
      have hin := (IterOrder.mem_arrange order _ _).mpr (mem_of_entry hes)
      exact ⟨_, hin, stagedAs_stagingPath hsw⟩
  | containers entries =>
    obtain ⟨e, hexport, h⟩ := bind_ok hrun
    cases h
    exact containers_faithful_iff rfl (exportContainerWorkspacesToHost_ok hexport)

end Lost

def oneFile (content : Bytes) : Workspace :=
  ⟨[("a.txt", .file (.file content))], List.nodup_singleton _, trivial, trivial⟩

def willing : Fate := ⟨fun _ => true, fun _ => true, fun _ => true, fun _ => true⟩

def willingHost : Host := ⟨Char.isAlphanum, willing, fun _ => willing⟩

def twoAgents : TopologyManager where
  sandboxes := (∅ : HashMap SandboxName SandboxId).insert "backend" "s1"
  containers := ((∅ : HashMap AgentId ContainerId).insert "agent-0001" "c1").insert "agent-0002" "c2"
  agentSandboxes :=
    ((∅ : HashMap AgentId SandboxName).insert "agent-0001" "backend").insert "agent-0002" "backend"
  sleepingContainers := ∅

/-- The first container has another version of the file than the second one. -/
def stageOf (agent : AgentId) : StageCall where
  agent
  manager := twoAgents
  workspaceOf _ cid := some (if cid = "c1" then oneFile [0x31] else oneFile [0x30])
  fate := willing

def unchangedLast : Source := .staged [stageOf "agent-0001", stageOf "agent-0002"] false

def exportedFile (src : Source) : Except ExportError (Option Bytes) := do
  let s ← src.stage willingHost
  let o ← src.run willingHost s (.dir [])
  .ok (o.state.out.fileAt ["a.txt"])

theorem exists_ran_unchangedLast : ∃ s o, unchangedLast.stage willingHost = .ok s ∧
    unchangedLast.run willingHost s (.dir []) = .ok o ∧
      o.state.out.fileAt ["a.txt"] = some [0x30] := by
  have hfile : exportedFile unchangedLast = .ok (some [0x30]) := by decide +kernel
  obtain ⟨s, hs, h⟩ := bind_ok hfile
  obtain ⟨o, ho, h⟩ := bind_ok h
  exact ⟨s, o, hs, ho, Except.ok.inj h⟩

/-- The condition holds of a run exactly if the run is faithful. -/
theorem faithful_unchangedLast : ∃ s o, unchangedLast.stage willingHost = .ok s ∧
    unchangedLast.run willingHost s (.dir []) = .ok o ∧
      (Faithful (oneFile [0x30]) unchangedLast.workspaces o ↔
        unchangedLast.ShowsAll ∧
          ModifiersLast (oneFile [0x30]) unchangedLast.workspaces (unchangedLast.order s) ∧
          BaseThere (oneFile [0x30]) unchangedLast.workspaces (.dir [])) := by
  obtain ⟨s, o, hs, ho, _⟩ := exists_ran_unchangedLast
  exact ⟨s, o, hs, ho, faithful_iff willingHost unchangedLast (oneFile [0x30]) (.dir []) hs ho⟩

/-- An export that reports no error has the unchanged copy of a file that one agent has modified. -/
theorem not_faithful : ¬ ∀ (host : Host) (src : Source) (base : Workspace) (out : HostTree)
    (s : Staging) (o : Outcome), src.stage host = .ok s → src.run host s out = .ok o →
      Faithful base src.workspaces o := by
  intro h
  obtain ⟨s, o, hs, ho, hfile⟩ := exists_ran_unchangedLast
  have hfaithful := h willingHost unchangedLast (oneFile [0x30]) (.dir []) s o hs ho
  have hworks : unchangedLast.workspaces = [oneFile [0x31], oneFile [0x30]] := rfl
  have honce : ModifiedOnce (oneFile [0x30]).tree.fileAt (versions unchangedLast.workspaces)
      ["a.txt"] (.file [0x31]) := by
    rw [hworks]
    refine ⟨[], _, [(oneFile [0x30]).tree.fileAt], rfl, rfl, by decide, ?_⟩
    intro w hw
    rw [List.nil_append, List.mem_singleton] at hw
    rw [hw]
    rintro ⟨v, hv, hne⟩
    exact hne hv
  have hv := hfaithful.promised ["a.txt"] (.file [0x31]) (.inl honce)
  rw [hfile] at hv
  cases hv

end Mowis.Export
