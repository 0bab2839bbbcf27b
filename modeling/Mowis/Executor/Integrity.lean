import Mowis.Executor.Connection

/-!
# Sandboxes, their keys and their directories

`Sandbox::create`, `Sandbox::create_agent_overlay` and `Drop for Sandbox` of
`mowis-executor/src/sandbox.rs`, below requests that are served one after another.

A sandbox with an image and an agent's overlay have two directories, `upper` and `work`, in a
base directory whose name is made of an id.  The base directory is removed with everything
below it when the sandbox is dropped.  Directories are recorded by their resolved paths.
-/

namespace Mowis.Executor

open Mowis.Lib
open Mowis.Review (Json)

/-- `Path::components` of a relative path. -/
def components (s : String) : PathBuf :=
  ((s.toList.splitOn '/').map String.ofList).filter fun c => c ≠ "" ∧ c ≠ "."

/-- Where a path with `..` leads. -/
def resolve (path : PathBuf) : PathBuf :=
  path.foldl (fun dir c => if c = ".." then dir.dropLast else dir ++ [c]) []

def overlayBase (tempDir : PathBuf) (id : String) : PathBuf :=
  tempDir ++ components ("mowis-overlay-" ++ id)

def agentBase (tempDir : PathBuf) (agentId : String) : PathBuf :=
  tempDir ++ components ("mowis-agent-overlay-" ++ agentId)

def dirsOf (base : PathBuf) : OverlayDirs := ⟨resolve base ++ ["upper"], resolve base ++ ["work"]⟩

/-- `create_dir_all`: every directory on the way is made. -/
def createDirAll (path : PathBuf) (dirs : Finset PathBuf) : Finset PathBuf :=
  dirs ∪ (path.inits.map resolve).toFinset

/-- What `Drop` removes: the root, and the directory above `upper`. -/
def Sandbox.removes (sb : Sandbox) : List PathBuf :=
  sb.root :: (sb.overlayDirs.map fun dirs => dirs.upper.dropLast).toList

structure Machine where
  registry : Registry
  dirs : Finset PathBuf
  counter : ℕ

/-- What the system does during a request: the temporary directory it gives, which of the calls
fail, and what the blocking calls give back that touch no sandbox. -/
structure Fate where
  root : Option PathBuf
  lowerExists : Bool
  dirsError : Option String
  mounted : Bool
  merged : Except String (List String)
  invoked : Except String Json
  uploaded : Except String ℕ
  printed : CommandResult
  running : Bool
  waiting : Bool
  prompt : String

def Fate.mounts (fate : Fate) : Bool := fate.dirsError.isNone && fate.mounted

def Fate.builds (fate : Fate) (imageRootfs : Option String) : Bool :=
  imageRootfs.isNone || fate.lowerExists && fate.mounts

def autoId (n : ℕ) : String := "sb-" ++ toString n

namespace Machine

/-- `Drop for Sandbox`. -/
def drop (m : Machine) (sb : Sandbox) : Machine :=
  { m with dirs := m.dirs.filter fun d => ∀ r ∈ sb.removes, ¬ r <+: d }

def insert (m : Machine) (key : String) (sb : Sandbox) : Machine :=
  let m' := { m with registry := m.registry.insert key sb }
  match m.registry.lookup key with
  | some old => m'.drop old
  | none => m'

def remove (m : Machine) (key : String) : Machine :=
  let m' := { m with registry := m.registry.erase key }
  match m.registry.lookup key with
  | some old => m'.drop old
  | none => m'

def addRoot (m : Machine) (root : PathBuf) : Machine := { m with dirs := Insert.insert root m.dirs }

def addDirs (m : Machine) (base : PathBuf) : Machine :=
  { m with dirs := createDirAll (base ++ ["work"]) (createDirAll (base ++ ["upper"]) m.dirs) }

variable (tempDir : PathBuf) (fate : Fate)

/-- Make the two directories and mount the overlay; `e` is the context of a failed mount. -/
def mountOverlay (m : Machine) (base : PathBuf) (e : String) :
    Except String OverlayDirs × Machine :=
  match fate.dirsError with
  | some error => (.error error, m)
  | none => if fate.mounted then (.ok (dirsOf base), m.addDirs base) else (.error e, m.addDirs base)

/-- `Sandbox::create`. -/
def create (m : Machine) (requestedId imageRootfs : Option String) (limits : ResourceLimits) :
    Except String Sandbox × Machine :=
  let id := requestedId.getD (autoId m.counter)
  let m := { m with counter := if requestedId.isSome then m.counter else m.counter + 1 }
  match fate.root with
  | none => (.error "create sandbox root", m)
  | some root =>
    match imageRootfs with
    | none => (.ok ⟨id, root, none, limits⟩, m.addRoot root)
    | some lower =>
      if fate.lowerExists then
        match m.mountOverlay fate (overlayBase tempDir id) ("mount overlayfs for sandbox " ++ id) with
        | (.error e, m) => (.error e, m)
        | (.ok dirs, m) => (.ok ⟨id, root, some dirs, limits⟩, m.addRoot root)
      else (.error ("image_rootfs does not exist: " ++ lower), m)

/-- `Sandbox::create_agent_overlay`. -/
def createAgentOverlay (m : Machine) (parent : Sandbox) (agentId : String)
    (limits : ResourceLimits) : Except String Sandbox × Machine :=
  match fate.root with
  | none => (.error "create agent overlay root", m)
  | some root =>
    match m.mountOverlay fate (agentBase tempDir agentId)
        ("mount overlayfs for agent overlay " ++ agentId) with
    | (.error e, m) => (.error e, m)
    | (.ok dirs, m) =>
      (.ok ⟨overlayKey parent.id agentId, root, some dirs, limits⟩, m.addRoot root)

def exec (m : Machine) : (o : Op) → o.Ret × Machine
  | .get key => (m.registry.lookup key, m)
  | .containsKey key => ((m.registry.lookup key).isSome, m)
  | .insert key sb => ((), m.insert key sb)
  | .remove key => ((m.registry.lookup key).isSome, m.remove key)
  | .entries => (m.registry.entries.map fun e => (e.1, e.2), m)
  | .len => (m.registry.entries.length, m)
  | .create requestedId imageRootfs limits => m.create tempDir fate requestedId imageRootfs limits
  | .createAgentOverlay parent agentId limits =>
    m.createAgentOverlay tempDir fate parent agentId limits
  | .mergeOverlay _ overlay =>
    (if overlay.overlayDirs.isSome then fate.merged else .error "overlay has no upper directory", m)
  | .invoke .. => (fate.invoked, m)
  | .uploadCodebase .. => (fate.uploaded, m)
  | .runCommand .. => (fate.printed, m)
  | .output .. => (fate.printed, m)
  | .interactiveStdin => (fate.running, m)
  | .interactiveWaiting => (fate.waiting, m)
  | .interactivePrompt => (fate.prompt, m)

end Machine

def serve (tempDir : PathBuf) (fate : Fate) : Prog → Machine → List Envelope × Machine
  | .done, m => ([], m)
  | .exit, m => ([], m)
  | .send env next, m =>
    let (sent, m) := serve tempDir fate next m
    (env :: sent, m)
  | .op o next, m =>
    let (ret, m) := m.exec tempDir fate o
    serve tempDir fate (next ret) m

/-- What a sandbox was created as. -/
inductive Origin where
  | plain (id : String)
  | agent (parentId agentId : String)
  deriving DecidableEq, Repr

def Origin.key : Origin → String
  | plain id => id
  | agent parentId agentId => overlayKey parentId agentId

/-- A sandbox that was created and not removed: what was registered under its key when its
creation was answered, and under the key of its parent before. -/
structure Live where
  origin : Origin
  sandbox : Option Sandbox
  parent : Option Sandbox
  deriving DecidableEq, Repr

/-- The executor, and the sandboxes that a client knows of. -/
structure Host where
  machine : Machine
  view : List Live

def Host.start (dirs : Finset PathBuf) : Host := ⟨⟨∅, dirs, 1⟩, []⟩

def observe (m m' : Machine) (view : List Live) : Payload → List Payload → List Live
  | .createSandbox _, [.sandboxCreated id] => view ++ [⟨.plain id, m'.registry.lookup id, none⟩]
  | .createAgentOverlay parentId agentId _, [.agentOverlayCreated _] =>
    view ++ [⟨.agent parentId agentId, m'.registry.lookup (overlayKey parentId agentId),
      m.registry.lookup parentId⟩]
  | .destroySandbox id, [.sandboxDestroyed _] => view.filter fun l => l.origin.key ≠ id
  | .mergeAgentOverlay parentId agentId, [.agentOverlayMerged ..] =>
    view.filter fun l => l.origin.key ≠ overlayKey parentId agentId
  | .discardAgentOverlay parentId agentId, [.agentOverlayDiscarded _] =>
    view.filter fun l => l.origin.key ≠ overlayKey parentId agentId
  | _, _ => view

def Host.handle (tempDir : PathBuf) (h : Host) (env : Envelope) (fate : Fate) : Host :=
  let (sent, m) := serve tempDir fate (dispatch env) h.machine
  ⟨m, observe h.machine m h.view env.payload (sent.map Envelope.payload)⟩

/-- The requests that create and remove sandboxes. -/
inductive Lifecycle : Payload → Prop
  | create (spec : SandboxSpec) : Lifecycle (.createSandbox spec)
  | destroy (sandboxId : String) : Lifecycle (.destroySandbox sandboxId)
  | createOverlay (parentId agentId : String) (limits : ResourceLimits) :
      Lifecycle (.createAgentOverlay parentId agentId limits)
  | merge (parentId agentId : String) : Lifecycle (.mergeAgentOverlay parentId agentId)
  | discard (parentId agentId : String) : Lifecycle (.discardAgentOverlay parentId agentId)

def Apart (a b : PathBuf) : Prop := ¬ a <+: b ∧ ¬ b <+: a

/-- Every sandbox that was created and not removed is registered under a key of its own, with
directories of its own that exist; the parent of an overlay is the sandbox it was created on. -/
structure Intact (h : Host) : Prop where
  keys : (h.view.map fun l => l.origin.key).Nodup
  registered : ∀ l ∈ h.view, ∃ sb, l.sandbox = some sb ∧
    h.machine.registry.lookup l.origin.key = some sb
  known : ∀ key sb, h.machine.registry.lookup key = some sb → ∃ l ∈ h.view, l.origin.key = key
  parents : ∀ l ∈ h.view, ∀ parentId agentId, l.origin = .agent parentId agentId →
    ∃ parent, l.parent = some parent ∧ h.machine.registry.lookup parentId = some parent
  exist : ∀ key sb dirs, h.machine.registry.lookup key = some sb → sb.overlayDirs = some dirs →
    dirs.upper ∈ h.machine.dirs ∧ dirs.work ∈ h.machine.dirs
  apart : ∀ key key' sb sb' dirs dirs', key ≠ key' → h.machine.registry.lookup key = some sb →
    h.machine.registry.lookup key' = some sb' → sb.overlayDirs = some dirs →
    sb'.overlayDirs = some dirs' →
    ∀ d ∈ [dirs.upper, dirs.work], ∀ d' ∈ [dirs'.upper, dirs'.work], Apart d d'

/-- The base directory is apart from all that the drop of a registered sandbox removes. -/
def Machine.Free (m : Machine) (base : PathBuf) : Prop :=
  ∀ key sb, m.registry.lookup key = some sb → ∀ r ∈ sb.removes, Apart (resolve base) r

/-- No registered overlay has the sandbox as its parent. -/
def Host.Childless (h : Host) (key : String) : Prop :=
  ∀ l ∈ h.view, ∀ agentId, l.origin ≠ .agent key agentId

/-- The requests that keep the promise: a key and a base directory that are not in use are
given to a new sandbox, and the parent of an overlay is not removed. -/
def RequestOk (tempDir : PathBuf) (h : Host) (fate : Fate) : Payload → Prop
  | .createSandbox spec => fate.root.isSome = true → fate.builds spec.imageRootfs = true →
    h.machine.registry.lookup (spec.sandboxId.getD (autoId h.machine.counter)) = none ∧
      (spec.imageRootfs.isSome = true → h.machine.Free
        (overlayBase tempDir (spec.sandboxId.getD (autoId h.machine.counter))))
  | .createAgentOverlay parentId agentId _ =>
    (h.machine.registry.lookup parentId).isSome = true → fate.root.isSome = true →
    fate.mounts = true → h.machine.registry.lookup (overlayKey parentId agentId) = none ∧
      h.machine.Free (agentBase tempDir agentId)
  | .destroySandbox id => h.Childless id
  | .discardAgentOverlay parentId agentId => h.Childless (overlayKey parentId agentId)
  | .mergeAgentOverlay parentId agentId =>
    fate.merged.isOk = true → h.Childless (overlayKey parentId agentId)
  | _ => True

/-- A temporary directory is a new one in a directory that exists. -/
def Fate.Fresh (fate : Fate) (m : Machine) : Prop :=
  ∀ root, fate.root = some root → root ∉ m.dirs ∧ root.dropLast ∈ m.dirs

def GoodRequest (tempDir : PathBuf) (h h' : Host) : Prop :=
  ∃ env fate, Lifecycle env.payload ∧ fate.Fresh h.machine ∧
    RequestOk tempDir h fate env.payload ∧ h' = h.handle tempDir env fate

namespace Machine

@[simp] theorem drop_registry (m : Machine) (sb : Sandbox) : (m.drop sb).registry = m.registry := rfl

@[simp] theorem addRoot_registry (m : Machine) (root : PathBuf) :
    (m.addRoot root).registry = m.registry := rfl

@[simp] theorem addDirs_registry (m : Machine) (base : PathBuf) :
    (m.addDirs base).registry = m.registry := rfl

@[simp] theorem remove_registry (m : Machine) (key : String) :
    (m.remove key).registry = m.registry.erase key := by
  unfold remove
  split <;> rfl

theorem insert_of_none {m : Machine} {key : String} (h : m.registry.lookup key = none)
    (sb : Sandbox) : m.insert key sb = { m with registry := m.registry.insert key sb } := by
  unfold insert
  rw [h]

variable {tempDir : PathBuf} {fate : Fate} {m : Machine}

theorem mountOverlay_cases (base : PathBuf) (e : String) :
    (fate.mounts = true ∧ m.mountOverlay fate base e = (.ok (dirsOf base), m.addDirs base)) ∨
      fate.mounts = false ∧ ∃ error m', m.mountOverlay fate base e = (.error error, m') ∧
        (m' = m ∨ m' = m.addDirs base) := by
  unfold mountOverlay Fate.mounts
  cases fate.dirsError with
  | some error => exact .inr ⟨rfl, error, m, rfl, .inl rfl⟩
  | none =>
    cases fate.mounted with
    | true => exact .inl ⟨rfl, rfl⟩
    | false => exact .inr ⟨rfl, e, _, rfl, .inr rfl⟩

end Machine

def Closed (dirs : Finset PathBuf) : Prop := ∀ d ∈ dirs, ∀ p, p <+: d → p ∈ dirs

/-- Directories are added, and nothing else changes. -/
structure Grows (m m' : Machine) : Prop where
  registry : m'.registry = m.registry
  dirs : m.dirs ⊆ m'.dirs
  closed : Closed m.dirs → Closed m'.dirs

namespace Grows

variable {m m' m'' : Machine}

theorem trans (h : Grows m m') (h' : Grows m' m'') : Grows m m'' where
  registry := h'.registry.trans h.registry
  dirs := h.dirs.trans h'.dirs
  closed hc := h'.closed (h.closed hc)

theorem counter (m : Machine) (n : ℕ) : Grows m { m with counter := n } :=
  ⟨rfl, Finset.Subset.refl _, id⟩

theorem addRoot {root : PathBuf} (h : root.dropLast ∈ m.dirs) : Grows m (m.addRoot root) where
  registry := rfl
  dirs := Finset.subset_insert _ _
  closed hc := by
    intro d hd p hp
    rcases Finset.mem_insert.mp hd with rfl | hd
    · rcases List.eq_nil_or_concat d with rfl | ⟨parent, name, rfl⟩
      · rw [List.prefix_nil.mp hp]
        exact hd
      · rw [List.concat_eq_append] at hp h hd ⊢
        rw [List.dropLast_concat] at h
        rcases List.prefix_concat_iff.mp hp with rfl | hp
        · exact hd
        · exact Finset.mem_insert_of_mem (hc parent h p hp)
    · exact Finset.mem_insert_of_mem (hc d hd p hp)

end Grows

theorem resolve_prefix (path : PathBuf) {p : PathBuf} (h : p <+: resolve path) :
    ∃ q, q <+: path ∧ resolve q = p := by
  induction path using List.reverseRecOn with
  | nil =>
    rw [List.prefix_nil.mp h]
    exact ⟨[], List.prefix_refl _, rfl⟩
  | append_singleton path c ih =>
    by_cases heq : p = resolve (path ++ [c])
    · exact ⟨path ++ [c], List.prefix_refl _, heq.symm⟩
    · have hstep : resolve (path ++ [c]) =
          if c = ".." then (resolve path).dropLast else resolve path ++ [c] := by
        rw [resolve, List.foldl_append]
        rfl
      have hp : p <+: resolve path := by
        rw [hstep] at h heq
        split at h
        · exact h.trans (List.dropLast_prefix _)
        · next hc =>
          rw [if_neg hc] at heq
          rcases List.prefix_concat_iff.mp h with hfull | hp
          · exact absurd hfull heq
          · exact hp
      obtain ⟨q, hq, hres⟩ := ih hp
      exact ⟨q, hq.trans (List.prefix_append _ _), hres⟩

theorem mem_createDirAll {path d : PathBuf} {dirs : Finset PathBuf} :
    d ∈ createDirAll path dirs ↔ d ∈ dirs ∨ ∃ q, q <+: path ∧ resolve q = d := by
  simp [createDirAll, List.mem_inits]

theorem closed_createDirAll {dirs : Finset PathBuf} (h : Closed dirs) (path : PathBuf) :
    Closed (createDirAll path dirs) := by
  intro d hd p hp
  rw [mem_createDirAll] at hd ⊢
  rcases hd with hd | ⟨q, hq, rfl⟩
  · exact .inl (h d hd p hp)
  · obtain ⟨q', hq', hres⟩ := resolve_prefix q hp
    exact .inr ⟨q', hq'.trans hq, hres⟩

theorem subset_createDirAll (path : PathBuf) (dirs : Finset PathBuf) :
    dirs ⊆ createDirAll path dirs := Finset.subset_union_left

theorem Grows.addDirs (m : Machine) (base : PathBuf) : Grows m (m.addDirs base) where
  registry := rfl
  dirs := (subset_createDirAll _ _).trans (subset_createDirAll _ _)
  closed hc := closed_createDirAll (closed_createDirAll hc _) _

theorem mem_addDirs (m : Machine) (base : PathBuf) :
    (dirsOf base).upper ∈ (m.addDirs base).dirs ∧ (dirsOf base).work ∈ (m.addDirs base).dirs := by
  have hresolve : ∀ name : String, name ≠ ".." → resolve (base ++ [name]) = resolve base ++ [name] := by
    intro name hname
    rw [resolve, List.foldl_append]
    exact if_neg hname
  constructor
  · refine subset_createDirAll _ _ (mem_createDirAll.mpr (.inr ⟨_, List.prefix_refl _, ?_⟩))
    exact hresolve "upper" (by decide)
  · refine mem_createDirAll.mpr (.inr ⟨_, List.prefix_refl _, ?_⟩)
    exact hresolve "work" (by decide)

/-- A sandbox has been made, and is not registered yet. -/
structure Made (m : Machine) (root base : PathBuf) (overlay : Bool) (sb : Sandbox) (m' : Machine) :
    Prop where
  grows : Grows m m'
  root : sb.root = root
  dirs : sb.overlayDirs = if overlay then some (dirsOf base) else none
  exist : overlay = true → (dirsOf base).upper ∈ m'.dirs ∧ (dirsOf base).work ∈ m'.dirs

theorem create_cases {tempDir : PathBuf} {fate : Fate} {m : Machine} (hfresh : fate.Fresh m)
    (requestedId imageRootfs : Option String) (limits : ResourceLimits) :
    (∃ root sb m', fate.root = some root ∧ fate.builds imageRootfs = true ∧
      m.create tempDir fate requestedId imageRootfs limits = (.ok sb, m') ∧
      sb.id = requestedId.getD (autoId m.counter) ∧
      Made m root (overlayBase tempDir sb.id) imageRootfs.isSome sb m') ∨
    ∃ e m', m.create tempDir fate requestedId imageRootfs limits = (.error e, m') ∧ Grows m m' := by
  let m₀ : Machine := { m with counter := if requestedId.isSome then m.counter else m.counter + 1 }
  have hcounter : Grows m m₀ := .counter m _
  unfold Machine.create
  cases hroot : fate.root with
  | none => exact .inr ⟨_, _, rfl, hcounter⟩
  | some root =>
    have hparent := (hfresh root hroot).2
    cases imageRootfs with
    | none => exact .inl ⟨root, _, _, rfl, rfl, rfl, rfl, hcounter.trans (.addRoot hparent), rfl,
        rfl, fun h => by cases h⟩
    | some lower =>
      dsimp only
      split
      · next hlower =>
        rcases @Machine.mountOverlay_cases fate m₀
            (overlayBase tempDir (requestedId.getD (autoId m.counter)))
            ("mount overlayfs for sandbox " ++ requestedId.getD (autoId m.counter)) with
          ⟨hmounts, heq⟩ | ⟨hmounts, error, m', heq, hm'⟩
        · have hgrows := hcounter.trans (.addDirs m₀
            (overlayBase tempDir (requestedId.getD (autoId m.counter))))
          have hexist := mem_addDirs m₀ (overlayBase tempDir (requestedId.getD (autoId m.counter)))
          have hbuilds : fate.builds (some lower) = true := by
            simp [Fate.builds, hlower, hmounts]
          rw [heq]
          refine .inl ⟨root, _, _, rfl, hbuilds, rfl, rfl,
            hgrows.trans (.addRoot (hgrows.dirs hparent)), rfl, rfl, fun _ => ?_⟩
          exact ⟨Finset.mem_insert_of_mem hexist.1, Finset.mem_insert_of_mem hexist.2⟩
        · rw [heq]
          refine .inr ⟨error, m', rfl, ?_⟩
          rcases hm' with rfl | rfl
          · exact hcounter
          · exact hcounter.trans (.addDirs m₀ _)
      · exact .inr ⟨_, _, rfl, hcounter⟩

theorem createAgentOverlay_cases {tempDir : PathBuf} {fate : Fate} {m : Machine}
    (hfresh : fate.Fresh m) (parent : Sandbox) (agentId : String) (limits : ResourceLimits) :
    (∃ root sb m', fate.root = some root ∧ fate.mounts = true ∧
      m.createAgentOverlay tempDir fate parent agentId limits = (.ok sb, m') ∧
      sb.id = overlayKey parent.id agentId ∧ Made m root (agentBase tempDir agentId) true sb m') ∨
    ∃ e m', m.createAgentOverlay tempDir fate parent agentId limits = (.error e, m') ∧
      Grows m m' := by
  unfold Machine.createAgentOverlay
  cases hroot : fate.root with
  | none => exact .inr ⟨_, _, rfl, .counter m m.counter⟩
  | some root =>
    have hparent := (hfresh root hroot).2
    rcases @Machine.mountOverlay_cases fate m (agentBase tempDir agentId)
        ("mount overlayfs for agent overlay " ++ agentId) with
      ⟨hmounts, heq⟩ | ⟨hmounts, error, m', heq, hm'⟩
    · have hgrows := Grows.addDirs m (agentBase tempDir agentId)
      have hexist := mem_addDirs m (agentBase tempDir agentId)
      dsimp only
      rw [heq]
      refine .inl ⟨root, _, _, rfl, hmounts, rfl, rfl,
        hgrows.trans (.addRoot (hgrows.dirs hparent)), rfl, rfl, fun _ => ?_⟩
      exact ⟨Finset.mem_insert_of_mem hexist.1, Finset.mem_insert_of_mem hexist.2⟩
    · dsimp only
      rw [heq]
      refine .inr ⟨error, m', rfl, ?_⟩
      rcases hm' with rfl | rfl
      · exact .counter _ _
      · exact .addDirs m _

/-! ### What every good request keeps -/

def Outside (sb : Sandbox) (dirs : OverlayDirs) : Prop :=
  ∀ r ∈ sb.removes, ¬ r <+: dirs.upper ∧ ¬ r <+: dirs.work

/-- The promise, and what keeps it. -/
structure Held (m : Machine) (view : List Live) : Prop where
  keys : (view.map fun l => l.origin.key).Nodup
  registered : ∀ l ∈ view, ∃ sb, l.sandbox = some sb ∧ m.registry.lookup l.origin.key = some sb
  known : ∀ key sb, m.registry.lookup key = some sb → ∃ l ∈ view, l.origin.key = key
  parents : ∀ l ∈ view, ∀ parentId agentId, l.origin = .agent parentId agentId →
    ∃ parent, l.parent = some parent ∧ m.registry.lookup parentId = some parent
  exist : ∀ key sb dirs, m.registry.lookup key = some sb → sb.overlayDirs = some dirs →
    dirs.upper ∈ m.dirs ∧ dirs.work ∈ m.dirs
  closed : Closed m.dirs
  ids : ∀ key sb, m.registry.lookup key = some sb → sb.id = key
  shape : ∀ key sb dirs, m.registry.lookup key = some sb → sb.overlayDirs = some dirs →
    ∃ base, dirs = dirsOf base
  outside : ∀ key key' sb sb' dirs', key ≠ key' → m.registry.lookup key = some sb →
    m.registry.lookup key' = some sb' → sb'.overlayDirs = some dirs' → Outside sb dirs'

theorem dirsOf_upper (base : PathBuf) : (dirsOf base).upper.dropLast = resolve base :=
  List.dropLast_concat

theorem base_mem_removes {sb : Sandbox} {base : PathBuf} (h : sb.overlayDirs = some (dirsOf base)) :
    resolve base ∈ sb.removes := by
  rw [Sandbox.removes, h]
  simp [dirsOf_upper]

theorem mem_removes {sb : Sandbox} {base : PathBuf} (h : sb.overlayDirs = some (dirsOf base))
    {r : PathBuf} : r ∈ sb.removes ↔ r = sb.root ∨ r = resolve base := by
  rw [Sandbox.removes, h]
  simp [dirsOf_upper]

theorem prefix_base {base d : PathBuf} (h : d ∈ [(dirsOf base).upper, (dirsOf base).work]) :
    resolve base <+: d := by
  simp only [List.mem_cons, List.not_mem_nil, or_false] at h
  rcases h with rfl | rfl <;> exact List.prefix_append _ _

theorem Apart.not_prefix {a b : PathBuf} (h : Apart a b) (c : String) : ¬ a <+: b ++ [c] := by
  intro hp
  rcases List.prefix_concat_iff.mp hp with rfl | hp
  · exact h.2 (List.prefix_append _ _)
  · exact h.1 hp

namespace Held

variable {m m' : Machine} {view : List Live}

theorem intact (h : Held m view) : Intact ⟨m, view⟩ where
  keys := h.keys
  registered := h.registered
  known := h.known
  parents := h.parents
  exist := h.exist
  apart key key' sb sb' dirs dirs' hne hsb hsb' hdirs hdirs' d hd d' hd' := by
    have hout : ∀ {key key' sb sb' dirs dirs'}, key ≠ key' → m.registry.lookup key = some sb →
        m.registry.lookup key' = some sb' → sb.overlayDirs = some dirs →
        sb'.overlayDirs = some dirs' → ∀ d ∈ [dirs.upper, dirs.work],
        ∀ d' ∈ [dirs'.upper, dirs'.work], ¬ d <+: d' := by
      intro key key' sb sb' dirs dirs' hne hsb hsb' hdirs hdirs' d hd d' hd' hp
      obtain ⟨base, rfl⟩ := h.shape key sb dirs hsb hdirs
      have houtside := h.outside key key' sb sb' dirs' hne hsb hsb' hdirs' _ (base_mem_removes hdirs)
      have hbase := (prefix_base hd).trans hp
      simp only [List.mem_cons, List.not_mem_nil, or_false] at hd'
      rcases hd' with rfl | rfl
      · exact houtside.1 hbase
      · exact houtside.2 hbase
    exact ⟨hout hne hsb hsb' hdirs hdirs' d hd d' hd', hout hne.symm hsb' hsb hdirs' hdirs d' hd' d hd⟩

theorem grow (h : Held m view) (hgrows : Grows m m') : Held m' view where
  keys := h.keys
  registered := by rw [hgrows.registry]; exact h.registered
  known := by rw [hgrows.registry]; exact h.known
  parents := by rw [hgrows.registry]; exact h.parents
  exist key sb dirs := by
    rw [hgrows.registry]
    intro hsb hdirs
    exact (h.exist key sb dirs hsb hdirs).imp (fun hd => hgrows.dirs hd) fun hd => hgrows.dirs hd
  closed := hgrows.closed h.closed
  ids := by rw [hgrows.registry]; exact h.ids
  shape := by rw [hgrows.registry]; exact h.shape
  outside := by rw [hgrows.registry]; exact h.outside

theorem remove (h : Held m view) (key : String)
    (hchildless : ∀ l ∈ view, ∀ agentId, l.origin ≠ .agent key agentId) :
    Held (m.remove key) (view.filter fun l => l.origin.key ≠ key) := by
  have hlookup : ∀ {key' sb}, (m.remove key).registry.lookup key' = some sb →
      key' ≠ key ∧ m.registry.lookup key' = some sb := by
    intro key' sb hsb
    rw [Machine.remove_registry, HashMap.lookup_erase_eq_ite] at hsb
    split at hsb
    · cases hsb
    · next hne => exact ⟨hne, hsb⟩
  have hkeep : ∀ {key' sb}, key' ≠ key → m.registry.lookup key' = some sb →
      (m.remove key).registry.lookup key' = some sb := by
    intro key' sb hne hsb
    rw [Machine.remove_registry, HashMap.lookup_erase_eq_ite, if_neg hne]
    exact hsb
  -- what is left of the directories
  have hdirs : ∀ d ∈ m.dirs, (∀ old, m.registry.lookup key = some old →
      ∀ r ∈ old.removes, ¬ r <+: d) → d ∈ (m.remove key).dirs := by
    intro d hd hout
    unfold Machine.remove
    cases hold : m.registry.lookup key with
    | none => exact hd
    | some old => exact Finset.mem_filter.mpr ⟨hd, hout old hold⟩
  refine ⟨?_, fun l hl => ?_, fun key' sb hsb => ?_, fun l hl parentId agentId horigin => ?_,
    fun key' sb dirs hsb hd => ?_, ?_, fun key' sb hsb => h.ids key' sb (hlookup hsb).2,
    fun key' sb dirs hsb => h.shape key' sb dirs (hlookup hsb).2,
    fun key₁ key₂ sb sb' dirs' hne hsb hsb' =>
      h.outside key₁ key₂ sb sb' dirs' hne (hlookup hsb).2 (hlookup hsb').2⟩
  · exact h.keys.sublist (List.filter_sublist.map _)
  · obtain ⟨hl, hne⟩ := List.mem_filter.mp hl
    obtain ⟨sb, hsb, hreg⟩ := h.registered l hl
    exact ⟨sb, hsb, hkeep (of_decide_eq_true hne) hreg⟩
  · obtain ⟨hne, hreg⟩ := hlookup hsb
    obtain ⟨l, hl, rfl⟩ := h.known key' sb hreg
    exact ⟨l, List.mem_filter.mpr ⟨hl, decide_eq_true hne⟩, rfl⟩
  · have hmem := (List.mem_filter.mp hl).1
    obtain ⟨parent, hparent, hreg⟩ := h.parents l hmem parentId agentId horigin
    have hne : parentId ≠ key := by
      rintro rfl
      exact hchildless l hmem agentId horigin
    exact ⟨parent, hparent, hkeep hne hreg⟩
  · obtain ⟨hne, hreg⟩ := hlookup hsb
    obtain ⟨hupper, hwork⟩ := h.exist key' sb dirs hreg hd
    have hout : ∀ old, m.registry.lookup key = some old → Outside old dirs := fun old hold =>
      h.outside key key' old sb dirs hne.symm hold hreg hd
    exact ⟨hdirs _ hupper fun old hold r hr => (hout old hold r hr).1,
      hdirs _ hwork fun old hold r hr => (hout old hold r hr).2⟩
  · unfold Machine.remove
    cases m.registry.lookup key with
    | none => exact h.closed
    | some old =>
      intro d hd p hp
      obtain ⟨hd, hout⟩ := Finset.mem_filter.mp hd
      exact Finset.mem_filter.mpr ⟨h.closed d hd p hp, fun r hr hrp => hout r hr (hrp.trans hp)⟩

theorem add {root base : PathBuf} {overlay : Bool} {sb : Sandbox} {origin : Origin}
    {parent : Option Sandbox} (h : Held m view) (hmade : Made m root base overlay sb m')
    (hroot : root ∉ m.dirs) (hkey : m.registry.lookup sb.id = none)
    (hfree : overlay = true → m.Free base) (horigin : origin.key = sb.id)
    (hparent : ∀ parentId agentId, origin = .agent parentId agentId →
      ∃ p, parent = some p ∧ m.registry.lookup parentId = some p) :
    Held (m'.insert sb.id sb)
      (view ++ [⟨origin, (m'.insert sb.id sb).registry.lookup origin.key, parent⟩]) := by
  have hkey' : m'.registry.lookup sb.id = none := by rw [hmade.grows.registry, hkey]
  rw [Machine.insert_of_none hkey', horigin]
  have hself : (m'.registry.insert sb.id sb).lookup sb.id = some sb := AList.lookup_insert _
  have hcases : ∀ {key sb'}, (m'.registry.insert sb.id sb).lookup key = some sb' →
      key = sb.id ∧ sb' = sb ∨ key ≠ sb.id ∧ m.registry.lookup key = some sb' := by
    intro key sb' hsb
    rw [HashMap.lookup_insert_eq_ite, hmade.grows.registry] at hsb
    split at hsb
    · next heq => exact .inl ⟨heq, (Option.some.inj hsb).symm⟩
    · next hne => exact .inr ⟨hne, hsb⟩
  have hkeep : ∀ {key sb'}, m.registry.lookup key = some sb' →
      (m'.registry.insert sb.id sb).lookup key = some sb' := by
    intro key sb' hsb
    have hne : key ≠ sb.id := by
      rintro rfl
      rw [hkey] at hsb
      cases hsb
    rw [HashMap.lookup_insert_eq_ite, if_neg hne, hmade.grows.registry, hsb]
  have hnew : ∀ {dirs}, sb.overlayDirs = some dirs → overlay = true ∧ dirs = dirsOf base := by
    intro dirs hdirs
    rw [hmade.dirs] at hdirs
    split at hdirs
    · next hov => exact ⟨hov, (Option.some.inj hdirs).symm⟩
    · cases hdirs
  refine ⟨?_, fun l hl => ?_, fun key sb' hsb => ?_, fun l hl parentId agentId hl' => ?_,
    fun key sb' dirs hsb hdirs => ?_, hmade.grows.closed h.closed, fun key sb' hsb => ?_,
    fun key sb' dirs hsb hdirs => ?_, fun key₁ key₂ sb₁ sb₂ dirs hne hsb₁ hsb₂ hdirs r hr => ?_⟩
  · rw [List.map_append, List.nodup_append]
    refine ⟨h.keys, List.nodup_singleton _, fun key hin key' hin' heq => ?_⟩
    obtain ⟨l, hl, rfl⟩ := List.mem_map.mp hin
    obtain ⟨sb', -, hreg⟩ := h.registered l hl
    have hold : l.origin.key = sb.id := heq.trans ((List.mem_singleton.mp hin').trans horigin)
    rw [hold, hkey] at hreg
    cases hreg
  · rcases List.mem_append.mp hl with hl | hl
    · obtain ⟨sb', hsb', hreg⟩ := h.registered l hl
      exact ⟨sb', hsb', hkeep hreg⟩
    · obtain rfl := List.mem_singleton.mp hl
      exact ⟨sb, hself, horigin ▸ hself⟩
  · rcases hcases hsb with ⟨rfl, -⟩ | ⟨-, hreg⟩
    · exact ⟨_, List.mem_append_right _ (List.mem_singleton_self _), horigin⟩
    · obtain ⟨l, hl, hlkey⟩ := h.known key sb' hreg
      exact ⟨l, List.mem_append_left _ hl, hlkey⟩
  · rcases List.mem_append.mp hl with hl | hl
    · obtain ⟨p, hp, hreg⟩ := h.parents l hl parentId agentId hl'
      exact ⟨p, hp, hkeep hreg⟩
    · obtain rfl := List.mem_singleton.mp hl
      obtain ⟨p, hp, hreg⟩ := hparent parentId agentId hl'
      exact ⟨p, hp, hkeep hreg⟩
  · rcases hcases hsb with ⟨-, rfl⟩ | ⟨-, hreg⟩
    · obtain ⟨hov, rfl⟩ := hnew hdirs
      exact hmade.exist hov
    · exact (h.exist key sb' dirs hreg hdirs).imp (fun hd => hmade.grows.dirs hd)
        fun hd => hmade.grows.dirs hd
  · rcases hcases hsb with ⟨rfl, rfl⟩ | ⟨-, hreg⟩
    · rfl
    · exact h.ids key sb' hreg
  · rcases hcases hsb with ⟨-, rfl⟩ | ⟨-, hreg⟩
    · exact ⟨base, (hnew hdirs).2⟩
    · exact h.shape key sb' dirs hreg hdirs
  · rcases hcases hsb₁ with ⟨rfl, rfl⟩ | ⟨hne₁, hreg₁⟩
    · rcases hcases hsb₂ with ⟨rfl, -⟩ | ⟨-, hreg₂⟩
      · exact absurd rfl hne
      · -- an old sandbox keeps clear of the new one
        obtain ⟨hupper, hwork⟩ := h.exist key₂ sb₂ dirs hreg₂ hdirs
        obtain ⟨base₂, rfl⟩ := h.shape key₂ sb₂ dirs hreg₂ hdirs
        cases hov : overlay with
        | false =>
          have hroot' : r = sb₁.root := by
            rw [Sandbox.removes, hmade.dirs, hov] at hr
            simpa using hr
          rw [hroot', hmade.root]
          exact ⟨fun hp => hroot (h.closed _ hupper _ hp), fun hp => hroot (h.closed _ hwork _ hp)⟩
        | true =>
          have hdirs₁ : sb₁.overlayDirs = some (dirsOf base) := by rw [hmade.dirs, hov]; rfl
          rcases (mem_removes hdirs₁).mp hr with rfl | rfl
          · rw [hmade.root]
            exact ⟨fun hp => hroot (h.closed _ hupper _ hp), fun hp => hroot (h.closed _ hwork _ hp)⟩
          · have hapart := (hfree hov) key₂ sb₂ hreg₂ _ (base_mem_removes hdirs)
            exact ⟨hapart.not_prefix "upper", hapart.not_prefix "work"⟩
    · rcases hcases hsb₂ with ⟨-, rfl⟩ | ⟨-, hreg₂⟩
      · obtain ⟨hov, rfl⟩ := hnew hdirs
        have hapart := (hfree hov) key₁ sb₁ hreg₁ r hr
        have hapart' : Apart r (resolve base) := ⟨hapart.2, hapart.1⟩
        exact ⟨hapart'.not_prefix "upper", hapart'.not_prefix "work"⟩
      · exact h.outside key₁ key₂ sb₁ sb₂ dirs hne hreg₁ hreg₂ hdirs r hr

end Held

theorem Held.remove_none {m : Machine} {view : List Live} {key : String} (h : Held m view)
    (hkey : m.registry.lookup key = none)
    (hchildless : ∀ l ∈ view, ∀ agentId, l.origin ≠ .agent key agentId) :
    Held (m.remove key) view := by
  have hview : (view.filter fun l => l.origin.key ≠ key) = view := by
    refine List.filter_eq_self.mpr fun l hl => decide_eq_true ?_
    rintro rfl
    obtain ⟨sb, -, hreg⟩ := h.registered l hl
    rw [hkey] at hreg
    cases hreg
  have hremove := h.remove key hchildless
  rwa [hview] at hremove

theorem serve_removeEntry (tempDir : PathBuf) (fate : Fate) (id : ℕ) (key message : String)
    (reply : Payload) (m : Machine) :
    serve tempDir fate (removeEntry id key message reply) m =
      ([⟨id, if (m.registry.lookup key).isSome then reply else .error message⟩], m.remove key) := by
  simp only [removeEntry, serve, Machine.exec]
  cases (m.registry.lookup key).isSome <;> rfl

theorem Held.handle {tempDir : PathBuf} {host : Host} {env : Envelope} {fate : Fate}
    (h : Held host.machine host.view) (hlife : Lifecycle env.payload)
    (hfresh : fate.Fresh host.machine) (hok : RequestOk tempDir host fate env.payload) :
    Held (host.handle tempDir env fate).machine (host.handle tempDir env fate).view := by
  obtain ⟨m, view⟩ := host
  obtain ⟨id, p⟩ := env
  dsimp only at h hlife hfresh hok
  cases hlife with
  | create spec =>
    rcases @create_cases tempDir fate m hfresh spec.sandboxId spec.imageRootfs spec.limits with
      ⟨root, sb, m', hroot, hbuilds, heq, hid, hmade⟩ | ⟨e, m', heq, hgrows⟩
    · have hhandle : Host.handle tempDir ⟨m, view⟩ ⟨id, .createSandbox spec⟩ fate =
          ⟨m'.insert sb.id sb,
            view ++ [⟨.plain sb.id, (m'.insert sb.id sb).registry.lookup sb.id, none⟩]⟩ := by
        simp only [Host.handle, dispatch, createSandbox, serve, Machine.exec]
        rw [heq]
        rfl
      rw [hhandle]
      have hok' := hok (by rw [hroot]; rfl) hbuilds
      rw [← hid] at hok'
      exact h.add hmade (hfresh root hroot).1 hok'.1 hok'.2 rfl fun _ _ horigin => nomatch horigin
    · have hhandle : Host.handle tempDir ⟨m, view⟩ ⟨id, .createSandbox spec⟩ fate = ⟨m', view⟩ := by
        simp only [Host.handle, dispatch, createSandbox, serve, Machine.exec]
        rw [heq]
        rfl
      rw [hhandle]
      exact h.grow hgrows
  | createOverlay parentId agentId limits =>
    cases hparent : m.registry.lookup parentId with
    | none =>
      have hhandle : Host.handle tempDir ⟨m, view⟩
          ⟨id, .createAgentOverlay parentId agentId limits⟩ fate = ⟨m, view⟩ := by
        simp only [Host.handle, dispatch, createAgentOverlay, withSandbox, serve, Machine.exec]
        rw [hparent]
        rfl
      rw [hhandle]
      exact h
    | some parent =>
      have hpid := h.ids parentId parent hparent
      rcases @createAgentOverlay_cases tempDir fate m hfresh parent agentId limits with
        ⟨root, sb, m', hroot, hmounts, heq, hid, hmade⟩ | ⟨e, m', heq, hgrows⟩
      · rw [hpid] at hid
        have hhandle : Host.handle tempDir ⟨m, view⟩
            ⟨id, .createAgentOverlay parentId agentId limits⟩ fate =
            ⟨m'.insert sb.id sb,
              view ++ [⟨.agent parentId agentId,
                (m'.insert sb.id sb).registry.lookup (overlayKey parentId agentId),
                some parent⟩]⟩ := by
          simp only [Host.handle, dispatch, createAgentOverlay, withSandbox, serve, Machine.exec]
          rw [hparent]
          simp only [serve, Machine.exec]
          rw [heq]
          simp only [serve, Machine.exec, observe, List.map_cons, List.map_nil]
          rw [hparent]
        rw [hhandle]
        have hok' := hok (by rw [hparent]; rfl) (by rw [hroot]; rfl) hmounts
        rw [← hid] at hok'
        refine h.add hmade (hfresh root hroot).1 hok'.1 (fun _ => hok'.2) hid.symm ?_
        intro _ _ horigin
        cases horigin
        exact ⟨parent, rfl, hparent⟩
      · have hhandle : Host.handle tempDir ⟨m, view⟩
            ⟨id, .createAgentOverlay parentId agentId limits⟩ fate = ⟨m', view⟩ := by
          simp only [Host.handle, dispatch, createAgentOverlay, withSandbox, serve, Machine.exec]
          rw [hparent]
          simp only [serve, Machine.exec]
          rw [heq]
          rfl
        rw [hhandle]
        exact h.grow hgrows
  | destroy sandboxId =>
    simp only [Host.handle, dispatch, serve_removeEntry]
    cases hkey : m.registry.lookup sandboxId with
    | none => exact h.remove_none hkey hok
    | some sb => exact h.remove sandboxId hok
  | discard parentId agentId =>
    simp only [Host.handle, dispatch, serve_removeEntry]
    cases hkey : m.registry.lookup (overlayKey parentId agentId) with
    | none => exact h.remove_none hkey hok
    | some sb => exact h.remove _ hok
  | merge parentId agentId =>
    simp only [Host.handle, dispatch, mergeAgentOverlay, mergeOf, withSandbox, serve, Machine.exec]
    cases hparent : m.registry.lookup parentId with
    | none => exact h
    | some parent =>
      simp only [serve, Machine.exec]
      cases hkey : m.registry.lookup (overlayKey parentId agentId) with
      | none => exact h
      | some overlay =>
        simp only [serve, Machine.exec]
        split
        · cases hmerged : fate.merged with
          | error e => exact h
          | ok changedPaths => exact h.remove _ (hok (by rw [hmerged]; rfl))
        · exact h

theorem Held.start {dirs : Finset PathBuf} (hdirs : Closed dirs) :
    Held (Host.start dirs).machine (Host.start dirs).view where
  keys := List.nodup_nil
  registered _ hl := absurd hl List.not_mem_nil
  known _ _ hsb := nomatch hsb
  parents _ hl := absurd hl List.not_mem_nil
  exist _ _ _ hsb := nomatch hsb
  closed := hdirs
  ids _ _ hsb := nomatch hsb
  shape _ _ _ hsb := nomatch hsb
  outside _ _ _ _ _ _ hsb := nomatch hsb

/-- **The registry stays intact.**  In every run whose requests all keep the promise, every
sandbox that was created and not removed is registered under a key of its own, with directories
of its own that exist, and an overlay's parent is the sandbox it was created on. -/
theorem intact_of_run {tempDir : PathBuf} {dirs : Finset PathBuf} {host : Host}
    (hdirs : Closed dirs)
    (hrun : Relation.ReflTransGen (GoodRequest tempDir) (Host.start dirs) host) : Intact host := by
  have hheld : Held host.machine host.view := by
    induction hrun with
    | refl => exact .start hdirs
    | tail _ hgood ih =>
      obtain ⟨env, fate, hlife, hfresh, hok, rfl⟩ := hgood
      exact ih.handle hlife hfresh hok
  exact hheld.intact

def imageSpec : SandboxSpec := ⟨some "a", some "/images/base", ⟨none, none⟩⟩

def fateAt (root : PathBuf) : Fate where
  root := some root
  lowerExists := true
  dirsError := none
  mounted := true
  merged := .ok []
  invoked := .error ""
  uploaded := .error ""
  printed := .error ""
  running := false
  waiting := false
  prompt := ""

def tmpOnly : Finset PathBuf := {[], ["tmp"]}

theorem closed_tmpOnly : Closed tmpOnly := by
  intro d hd p hp
  have hmem : ∀ d ∈ tmpOnly, ∀ p ∈ d.inits, p ∈ tmpOnly := by decide
  exact hmem d hd p ((List.mem_inits p d).mpr hp)

def AnyRequest (tempDir : PathBuf) (h h' : Host) : Prop :=
  ∃ env fate, Lifecycle env.payload ∧ fate.Fresh h.machine ∧ h' = h.handle tempDir env fate

theorem fresh_of_mem {root : PathBuf} {m : Machine} (h : root ∉ m.dirs ∧ root.dropLast ∈ m.dirs) :
    (fateAt root).Fresh m := by
  intro root' hroot
  obtain rfl := Option.some.inj hroot
  exact h

def createdA : Host :=
  (Host.start tmpOnly).handle ["tmp"] ⟨1, .createSandbox imageSpec⟩ (fateAt ["tmp", ".tmpA"])

/-- A sandbox with an image, and an agent's overlay on it. -/
theorem overlay_intact : Intact
    (createdA.handle ["tmp"] ⟨2, .createAgentOverlay "a" "ag-001" ⟨none, none⟩⟩
      (fateAt ["tmp", ".tmpB"])) := by
  have hempty : (fateAt ["tmp", ".tmpA"]).Fresh (Host.start tmpOnly).machine :=
    fresh_of_mem (by decide)
  have hfresh : (fateAt ["tmp", ".tmpB"]).Fresh createdA.machine := fresh_of_mem (by decide)
  refine intact_of_run closed_tmpOnly ((Relation.ReflTransGen.single ⟨_, _, .create imageSpec,
    hempty, fun _ _ => ⟨rfl, fun _ _ _ hsb => nomatch hsb⟩, rfl⟩).tail
    ⟨_, _, .createOverlay _ _ _, hfresh, fun _ _ _ => ⟨?_, fun key sb hsb r hr => ?_⟩, rfl⟩)
  · show createdA.machine.registry.lookup "a:ag-001" = none
    decide
  · have hall : ∀ e ∈ createdA.machine.registry.entries, ∀ r ∈ e.2.removes,
        ¬ resolve (agentBase ["tmp"] "ag-001") <+: r ∧
          ¬ r <+: resolve (agentBase ["tmp"] "ag-001") := by decide
    exact hall ⟨key, sb⟩ (List.of_mem_dlookup hsb) r hr

/-- The sandbox that `Sandbox::create` makes of an id. -/
def imageSandbox (id : String) (root : PathBuf) : Sandbox :=
  ⟨id, root, some (dirsOf (overlayBase ["tmp"] id)), ⟨none, none⟩⟩

def agentSandbox (id agentId : String) (root : PathBuf) : Sandbox :=
  ⟨overlayKey id agentId, root, some (dirsOf (agentBase ["tmp"] agentId)), ⟨none, none⟩⟩

def createdTwice : Host :=
  createdA.handle ["tmp"] ⟨2, .createSandbox imageSpec⟩ (fateAt ["tmp", ".tmpB"])

def createdB : Host :=
  createdA.handle ["tmp"] ⟨2, .createSandbox { imageSpec with sandboxId := some "b" }⟩
    (fateAt ["tmp", ".tmpB"])

def agentOnA : Host :=
  createdB.handle ["tmp"] ⟨3, .createAgentOverlay "a" "ag-001" ⟨none, none⟩⟩
    (fateAt ["tmp", ".tmpC"])

def agentOnBoth : Host :=
  agentOnA.handle ["tmp"] ⟨4, .createAgentOverlay "b" "ag-001" ⟨none, none⟩⟩
    (fateAt ["tmp", ".tmpD"])

def orphaned : Host := agentOnA.handle ["tmp"] ⟨4, .destroySandbox "a"⟩ (fateAt ["tmp", ".tmpD"])

theorem reach_createdA :
    Relation.ReflTransGen (AnyRequest ["tmp"]) (Host.start tmpOnly) createdA :=
  .single ⟨_, _, .create imageSpec, fresh_of_mem (by decide), rfl⟩

theorem reach_agentOnA :
    Relation.ReflTransGen (AnyRequest ["tmp"]) (Host.start tmpOnly) agentOnA :=
  (reach_createdA.tail ⟨_, _, .create { imageSpec with sandboxId := some "b" },
    fresh_of_mem (by decide), rfl⟩).tail
    ⟨_, _, .createOverlay "a" "ag-001" ⟨none, none⟩, fresh_of_mem (by decide), rfl⟩

/-- What is promised does not hold of every run: a second sandbox under an id in use loses its
directories to the drop of the first one, agents of one name share their directories, and the
parent of an overlay can be destroyed. -/
theorem registry_broken :
    (Relation.ReflTransGen (AnyRequest ["tmp"]) (Host.start tmpOnly) createdTwice ∧
      ¬ Intact createdTwice) ∧
    (Relation.ReflTransGen (AnyRequest ["tmp"]) (Host.start tmpOnly) agentOnBoth ∧
      ¬ Intact agentOnBoth) ∧
    Relation.ReflTransGen (AnyRequest ["tmp"]) (Host.start tmpOnly) orphaned ∧
      ¬ Intact orphaned := by
  refine ⟨⟨reach_createdA.tail ⟨_, _, .create imageSpec, fresh_of_mem (by decide), rfl⟩,
      fun h => ?_⟩,
    ⟨reach_agentOnA.tail ⟨_, _, .createOverlay "b" "ag-001" ⟨none, none⟩,
      fresh_of_mem (by decide), rfl⟩, fun h => ?_⟩,
    reach_agentOnA.tail ⟨_, _, .destroy "a", fresh_of_mem (by decide), rfl⟩, fun h => ?_⟩
  · have hsb : createdTwice.machine.registry.lookup "a" =
        some (imageSandbox "a" ["tmp", ".tmpB"]) := by decide
    have hgone : (dirsOf (overlayBase ["tmp"] "a")).upper ∉ createdTwice.machine.dirs := by
      decide
    exact hgone (h.exist _ _ _ hsb rfl).1
  · have hsb : agentOnBoth.machine.registry.lookup "a:ag-001" =
        some (agentSandbox "a" "ag-001" ["tmp", ".tmpC"]) := by decide
    have hsb' : agentOnBoth.machine.registry.lookup "b:ag-001" =
        some (agentSandbox "b" "ag-001" ["tmp", ".tmpD"]) := by decide
    have hapart := h.apart _ _ _ _ _ _ (by decide) hsb hsb' rfl rfl _ List.mem_cons_self _
      List.mem_cons_self
    exact hapart.1 (List.prefix_refl _)
  · have hlive : (⟨.agent "a" "ag-001", some (agentSandbox "a" "ag-001" ["tmp", ".tmpC"]),
        some (imageSandbox "a" ["tmp", ".tmpA"])⟩ : Live) ∈ orphaned.view := by decide
    obtain ⟨parent, -, hparent⟩ := h.parents _ hlive "a" "ag-001" rfl
    have hgone : orphaned.machine.registry.lookup "a" = none := by decide
    rw [hgone] at hparent
    cases hparent

end Mowis.Executor
