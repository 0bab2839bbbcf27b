import Mowis.Containers.Inherit
import Mowis.Lib.Execution
import Mowis.Scheduling.Model

/-!
# A diff applied to a sandbox

`apply_diff_to_sandbox` of `agentd/src/orchestration/sandbox_topology.rs` over the requests that
agentd answers.  The first strategy patches `sandbox-<id>/root/workspace` in the host's directory
for temporary files; the root of a sandbox is another directory there (`tempfile::tempdir` in
`Sandbox::new_with_image`).  The second one patches the workspace of a container, which it destroys.
-/

namespace Mowis.Containers

open Mowis.Lib
open Mowis.Scheduling (SandboxName)

abbrev SandboxId := String

abbrev ContainerId := String

/-- `git apply` on the files of a directory; `none` where it fails, which leaves them. -/
abbrev GitApply := String → Tree → Option Tree

/-- A sandbox of the daemon. -/
structure Entry where
  sandbox : Sandbox
  project : Option Tree
  scope : Option Path
  containers : HashMap ContainerId Container

/-- The daemon's sandboxes, and the directories of the host that the first strategy looks for. -/
structure Daemon where
  sandboxes : HashMap SandboxId Entry
  guessed : HashMap SandboxId Tree

namespace Entry

variable (e : Entry)

def shows (k : Kernel) : Option Tree :=
  (createContainer e.sandbox e.project e.scope k).map Container.visible

def create (k : Kernel) (cid : ContainerId) : Option Entry :=
  (createContainer e.sandbox e.project e.scope k).map fun c =>
    { e with containers := e.containers.insert cid c }

def invokeTool (cid : ContainerId) (changes : List Change) : Entry :=
  match e.containers.lookup cid with
  | none => e
  | some c =>
    match c.run changes with
    | none => e
    | some c => { e with containers := e.containers.insert cid c }

def destroyContainer (cid : ContainerId) : Entry :=
  { e with containers := e.containers.erase cid }

def base : Sandbox × Option Tree × Option Path := (e.sandbox, e.project, e.scope)

end Entry

/-- How a request goes: whether it reaches the daemon, and whether its answer comes back. -/
structure Sent where
  arrives : Bool
  answered : Bool
  deriving DecidableEq

def Sent.Ok (r : Sent) : Prop := r.arrives = true ∧ r.answered = true

instance (r : Sent) : Decidable r.Ok := inferInstanceAs (Decidable (_ ∧ _))

/-- What is decided outside of the call: whether the patch file can be written and git be started,
how each request goes, and what the tools change in the container. -/
structure ApplyFate where
  patchWritten : Bool
  gitStarts : Bool
  containerId : ContainerId
  kernel : Kernel
  create : Sent
  write : Sent
  writes : List Change
  apply : Sent
  applies : List Change
  destroyed : Bool
  error : String

namespace Daemon

variable (d : Daemon)

/-- The first strategy: `git apply` in the directory of the host, if there is one. -/
def hostApply (git : GitApply) (fate : ApplyFate) (sid : SandboxId) (diff : String) :
    Option Daemon :=
  match d.guessed.lookup sid with
  | none => none
  | some files =>
    if fate.patchWritten ∧ fate.gitStarts then
      (git diff files).map fun files => { d with guessed := d.guessed.insert sid files }
    else none

def requestContainer (fate : ApplyFate) (sid : SandboxId) : Daemon × Except String ContainerId :=
  if fate.create.arrives then
    match d.sandboxes.lookup sid with
    | none => (d, .error ("socket: sandbox " ++ sid ++ " not found"))
    | some e =>
      match e.create fate.kernel fate.containerId with
      | none => (d, .error fate.error)
      | some e =>
        ({ d with sandboxes := d.sandboxes.insert sid e },
          if fate.create.answered then .ok fate.containerId else .error fate.error)
  else (d, .error fate.error)

def onSandbox (sid : SandboxId) (change : Entry → Entry) : Daemon :=
  match d.sandboxes.lookup sid with
  | none => d
  | some e => { d with sandboxes := d.sandboxes.insert sid (change e) }

def requestTool (sid : SandboxId) (cid : ContainerId) (sent : Sent) (changes : List Change)
    (error : String) : Daemon × Except String Unit :=
  let d := if sent.arrives then d.onSandbox sid (·.invokeTool cid changes) else d
  (d, if sent.Ok then .ok () else .error error)

/-- The second strategy, in a container that is destroyed afterwards.  Whether the commands have
applied the diff makes no difference: the exit code of `run_command` is logged. -/
def socketApply (fate : ApplyFate) (sid : SandboxId) : Daemon × Except String Unit :=
  match d.requestContainer fate sid with
  | (d, .error e) => (d, .error e)
  | (d, .ok cid) =>
    match d.requestTool sid cid fate.write fate.writes fate.error with
    | (d, .error e) => (d, .error e)
    | (d, .ok ()) =>
      match d.requestTool sid cid fate.apply fate.applies fate.error with
      | (d, .error e) => (d, .error e)
      | (d, .ok ()) =>
        (if fate.destroyed then d.onSandbox sid (·.destroyContainer cid) else d, .ok ())

/-- `apply_diff_to_sandbox` -/
def applyDiffToSandbox (git : GitApply) (topology : HashMap SandboxName SandboxId) (d : Daemon)
    (name : SandboxName) (diff : String) (fate : ApplyFate) : Daemon × Except String Unit :=
  match topology.lookup name with
  | none => (d, .error ("Sandbox not found: " ++ name))
  | some sid =>
    match d.hostApply git fate sid diff with
    | some d => (d, .ok ())
    | none => d.socketApply fate sid

end Daemon

def workspaceOf (t : Tree) : Tree := fun q => t ("workspace" :: q)

def patched (git : GitApply) (diff : String) (t : Tree) : Option Tree :=
  (git diff (workspaceOf t)).map fun files p =>
    match p with
    | "workspace" :: q => files q
    | p => t p

/-- The daemon with the sandboxes that the topology manager knows.  `expected` is kept for what is
said of runs: what the containers of a sandbox have to show, by how the kernel acts on their
creation. -/
structure Accumulation where
  topology : HashMap SandboxName SandboxId
  daemon : Daemon
  expected : SandboxId → Kernel → Option Tree

inductive DaemonAction where
  | createSandbox (name : SandboxName) (sid : SandboxId) (e : Entry)
  | createContainer (sid : SandboxId) (cid : ContainerId) (k : Kernel)
  | invokeTool (sid : SandboxId) (cid : ContainerId) (changes : List Change)
  | destroyContainer (sid : SandboxId) (cid : ContainerId)
  | applyDiff (name : SandboxName) (diff : String) (fate : ApplyFate)

namespace Accumulation

variable (s : Accumulation)

def start (guessed : HashMap SandboxId Tree) : Accumulation := ⟨∅, ⟨∅, guessed⟩, fun _ _ => none⟩

def promise (git : GitApply) (sid : SandboxId) (diff : String) : SandboxId → Kernel → Option Tree :=
  Function.update s.expected sid fun k => (s.expected sid k).bind (patched git diff)

def applyDiff (git : GitApply) (name : SandboxName) (diff : String) (fate : ApplyFate) :
    Accumulation :=
  let after := Daemon.applyDiffToSandbox git s.topology s.daemon name diff fate
  { s with
    daemon := after.1
    expected :=
      match after.2, s.topology.lookup name with
      | .ok (), some sid => s.promise git sid diff
      | _, _ => s.expected }

def step (git : GitApply) : DaemonAction → Option Accumulation
  | .createSandbox name sid e =>
    if sid ∈ s.daemon.sandboxes then none
    else some { s with
      topology := s.topology.insert name sid
      daemon := { s.daemon with sandboxes := s.daemon.sandboxes.insert sid e }
      expected := Function.update s.expected sid e.shows }
  | .createContainer sid cid k =>
    match s.daemon.sandboxes.lookup sid with
    | none => none
    | some e => (e.create k cid).map fun e =>
        { s with daemon := { s.daemon with sandboxes := s.daemon.sandboxes.insert sid e } }
  | .invokeTool sid cid changes =>
    some { s with daemon := s.daemon.onSandbox sid (·.invokeTool cid changes) }
  | .destroyContainer sid cid =>
    some { s with daemon := s.daemon.onSandbox sid (·.destroyContainer cid) }
  | .applyDiff name diff fate => some (s.applyDiff git name diff fate)

/-- Every container that is created shows what it has to. -/
def Honest : Prop :=
  ∀ sid e, s.daemon.sandboxes.lookup sid = some e → ∀ k, e.shows k = s.expected sid k

end Accumulation

def Entry.Unaffected (git : GitApply) (diff : String) (e : Entry) : Prop :=
  ∀ k t, e.shows k = some t → git diff (workspaceOf t) = some (workspaceOf t)

def Daemon.HostApplies (git : GitApply) (d : Daemon) (sid : SandboxId) (diff : String)
    (fate : ApplyFate) : Prop :=
  fate.patchWritten = true ∧ fate.gitStarts = true ∧
    ∃ files, d.guessed.lookup sid = some files ∧ git diff files ≠ none

/-- A container is made for the second strategy, and all requests are answered. -/
def Entry.Serves (e : Entry) (fate : ApplyFate) : Prop :=
  e.shows fate.kernel ≠ none ∧ fate.create.Ok ∧ fate.write.Ok ∧ fate.apply.Ok

def Accumulation.StepOk (git : GitApply) (s : Accumulation) : DaemonAction → Prop
  | .applyDiff name diff fate =>
    ∀ sid e, s.topology.lookup name = some sid → s.daemon.sandboxes.lookup sid = some e →
      (¬ s.daemon.HostApplies git sid diff fate ∧ ¬ e.Serves fate) ∨ e.Unaffected git diff
  | _ => True

section Call

variable {git : GitApply} {d d' : Daemon} {e e' : Entry} {fate : ApplyFate} {sid : SandboxId}
  {cid : ContainerId} {diff : String} {changes : List Change}

def Daemon.bases (d : Daemon) (sid : SandboxId) : Option (Sandbox × Option Tree × Option Path) :=
  (d.sandboxes.lookup sid).map Entry.base

theorem base_create {k : Kernel} (h : e.create k cid = some e') : e'.base = e.base := by
  obtain ⟨c, -, rfl⟩ := Option.map_eq_some_iff.mp h
  rfl

theorem base_invokeTool : (e.invokeTool cid changes).base = e.base := by
  rw [Entry.invokeTool]
  split
  · rfl
  · split <;> rfl

theorem bases_insert {entry : Entry} (h : d.sandboxes.lookup sid = some e)
    (hbase : entry.base = e.base) :
    Daemon.bases { d with sandboxes := d.sandboxes.insert sid entry } = d.bases := by
  funext sid'
  show ((d.sandboxes.insert sid entry).lookup sid').map Entry.base = _
  rw [HashMap.lookup_insert_eq_ite]
  split
  · next heq =>
    rw [Daemon.bases, heq, h, Option.map_some, Option.map_some, hbase]
  · rfl

theorem bases_onSandbox (change : Entry → Entry) (h : ∀ e, (change e).base = e.base) :
    (d.onSandbox sid change).bases = d.bases := by
  rw [Daemon.onSandbox]
  split
  · rfl
  · next e he => exact bases_insert he (h e)

theorem bases_requestContainer : (d.requestContainer fate sid).1.bases = d.bases := by
  rw [Daemon.requestContainer]
  split
  · split
    · rfl
    · next e he =>
      split
      · rfl
      · next e' he' => exact bases_insert he (base_create he')
  · rfl

theorem bases_requestTool {sent : Sent} {error : String} :
    (d.requestTool sid cid sent changes error).1.bases = d.bases := by
  show Daemon.bases (if sent.arrives then d.onSandbox sid (·.invokeTool cid changes) else d) = _
  split
  · exact bases_onSandbox _ fun e => base_invokeTool
  · rfl

theorem bases_socketApply : (d.socketApply fate sid).1.bases = d.bases := by
  have hcreate : (d.requestContainer fate sid).1.bases = d.bases := bases_requestContainer
  rw [Daemon.socketApply]
  split
  · next d₁ e heq =>
    rw [heq] at hcreate
    exact hcreate
  · next d₁ cid heq =>
    rw [heq] at hcreate
    have hwrite : (d₁.requestTool sid cid fate.write fate.writes fate.error).1.bases = d.bases :=
      bases_requestTool.trans hcreate
    split
    · next d₂ e heq₂ =>
      rw [heq₂] at hwrite
      exact hwrite
    · next d₂ heq₂ =>
      rw [heq₂] at hwrite
      have happly : (d₂.requestTool sid cid fate.apply fate.applies fate.error).1.bases =
          d.bases := bases_requestTool.trans hwrite
      split
      · next d₃ e heq₃ =>
        rw [heq₃] at happly
        exact happly
      · next d₃ heq₃ =>
        rw [heq₃] at happly
        dsimp only
        split
        · exact (bases_onSandbox (·.destroyContainer cid) fun e => rfl).trans happly
        · exact happly

/-- **Neither strategy reaches what new containers are made of.** -/
theorem bases_applyDiffToSandbox {topology : HashMap SandboxName SandboxId} {name : SandboxName} :
    (d.applyDiffToSandbox git topology name diff fate).1.bases = d.bases := by
  rw [Daemon.applyDiffToSandbox]
  split
  · rfl
  · next sid _ =>
    split
    · next d₁ hhost =>
      rw [Daemon.hostApply] at hhost
      split at hhost
      · cases hhost
      · split at hhost
        · obtain ⟨files, -, rfl⟩ := Option.map_eq_some_iff.mp hhost
          rfl
        · cases hhost
    · exact bases_socketApply

theorem hostApply_isSome :
    (d.hostApply git fate sid diff).isSome = true ↔ d.HostApplies git sid diff fate := by
  rw [Daemon.hostApply, Daemon.HostApplies]
  cases d.guessed.lookup sid with
  | none => simp
  | some files =>
    cases fate.patchWritten <;> cases fate.gitStarts <;> simp [Option.isSome_iff_ne_none]

theorem requestContainer_snd (fate : ApplyFate) (he : d.sandboxes.lookup sid = some e) :
    (d.requestContainer fate sid).2 =
      if e.shows fate.kernel ≠ none ∧ fate.create.Ok then .ok fate.containerId
      else .error fate.error := by
  rw [Daemon.requestContainer, he, Entry.shows]
  cases hcreate : createContainer e.sandbox e.project e.scope fate.kernel with
  | none => cases fate.create.arrives <;> simp [Entry.create, hcreate, Sent.Ok]
  | some c =>
    cases harrives : fate.create.arrives <;> cases hanswered : fate.create.answered <;>
      simp [Entry.create, hcreate, Sent.Ok, harrives, hanswered]

theorem requestTool_snd (d : Daemon) (sid : SandboxId) (cid : ContainerId) (sent : Sent)
    (changes : List Change) (error : String) :
    (d.requestTool sid cid sent changes error).2 = if sent.Ok then .ok () else .error error := rfl

theorem socketApply_ok (he : d.sandboxes.lookup sid = some e) :
    (d.socketApply fate sid).2 = .ok () ↔ e.Serves fate := by
  have hcreate := requestContainer_snd fate he
  rw [Daemon.socketApply, Entry.Serves, ← and_assoc]
  split
  · next d₁ e₁ heq =>
    rw [heq] at hcreate
    split at hcreate
    · cases hcreate
    · next hnot => exact iff_of_false (fun h => by cases h) (fun h => hnot h.1)
  · next d₁ cid heq =>
    rw [heq] at hcreate
    split at hcreate
    · next hmade =>
      have hwrite := requestTool_snd d₁ sid cid fate.write fate.writes fate.error
      split
      · next d₂ e₂ heq₂ =>
        rw [heq₂] at hwrite
        split at hwrite
        · cases hwrite
        · next hnot => exact iff_of_false (fun h => by cases h) (fun h => hnot h.2.1)
      · next d₂ heq₂ =>
        rw [heq₂] at hwrite
        split at hwrite
        · next hwritten =>
          have happly := requestTool_snd d₂ sid cid fate.apply fate.applies fate.error
          split
          · next d₃ e₃ heq₃ =>
            rw [heq₃] at happly
            split at happly
            · cases happly
            · next hnot => exact iff_of_false (fun h => by cases h) (fun h => hnot h.2.2)
          · next d₃ heq₃ =>
            rw [heq₃] at happly
            split at happly
            · next happlied => exact iff_of_true rfl ⟨hmade, hwritten, happlied⟩
            · cases happly
        · cases hwrite
    · cases hcreate

theorem applyDiffToSandbox_ok {topology : HashMap SandboxName SandboxId} {name : SandboxName}
    (hsid : topology.lookup name = some sid) (he : d.sandboxes.lookup sid = some e) :
    (d.applyDiffToSandbox git topology name diff fate).2 = .ok () ↔
      d.HostApplies git sid diff fate ∨ e.Serves fate := by
  rw [Daemon.applyDiffToSandbox, hsid, ← hostApply_isSome, ← socketApply_ok he]
  dsimp only
  cases d.hostApply git fate sid diff with
  | some d₁ => simp
  | none => simp

end Call

section Runs

variable {git : GitApply} {s s' : Accumulation} {e e' : Entry} {sid : SandboxId} {diff : String}
  {d d' : Daemon}

theorem patched_eq_self_iff {t : Tree} :
    patched git diff t = some t ↔ git diff (workspaceOf t) = some (workspaceOf t) := by
  rw [patched]
  constructor
  · intro h
    obtain ⟨files, hfiles, heq⟩ := Option.map_eq_some_iff.mp h
    rw [hfiles]
    exact congrArg some (funext fun q => congrFun heq ("workspace" :: q))
  · intro h
    rw [h, Option.map_some]
    refine congrArg some (funext fun p => ?_)
    split <;> rfl

theorem shows_of_base (h : e'.base = e.base) : e'.shows = e.shows := by
  obtain ⟨hsandbox, hrest⟩ := Prod.mk.inj h
  obtain ⟨hproject, hscope⟩ := Prod.mk.inj hrest
  funext k
  rw [Entry.shows, Entry.shows, hsandbox, hproject, hscope]

theorem honest_congr (hbases : s'.daemon.bases = s.daemon.bases) :
    s'.Honest ↔ ∀ sid e, s.daemon.sandboxes.lookup sid = some e →
      ∀ k, e.shows k = s'.expected sid k := by
  have hlookup : ∀ sid, (s'.daemon.sandboxes.lookup sid).map Entry.base =
      (s.daemon.sandboxes.lookup sid).map Entry.base := fun sid => congrFun hbases sid
  constructor
  · intro h sid e he k
    have hmap := hlookup sid
    rw [he] at hmap
    obtain ⟨e', he', hbase⟩ := Option.map_eq_some_iff.mp hmap
    rw [← shows_of_base hbase]
    exact h sid e' he' k
  · intro h sid e' he' k
    have hmap := hlookup sid
    rw [he'] at hmap
    obtain ⟨e, he, hbase⟩ := Option.map_eq_some_iff.mp hmap.symm
    rw [← shows_of_base hbase]
    exact h sid e he k

theorem honest_of_bases (hbases : s'.daemon.bases = s.daemon.bases)
    (hexpected : s'.expected = s.expected) (h : s.Honest) : s'.Honest := by
  rw [honest_congr hbases, hexpected]
  exact h

theorem promise_iff (h : s.Honest) (he : s.daemon.sandboxes.lookup sid = some e) :
    (∀ sid' e', s.daemon.sandboxes.lookup sid' = some e' →
      ∀ k, e'.shows k = s.promise git sid diff sid' k) ↔ e.Unaffected git diff := by
  have hexpected := h sid e he
  constructor
  · intro hall k t ht
    have hk := hall sid e he k
    rw [Accumulation.promise, Function.update_self, ← hexpected, ht, Option.bind_some] at hk
    exact patched_eq_self_iff.mp hk.symm
  · intro hunaffected sid' e' he' k
    rw [Accumulation.promise]
    by_cases hsid : sid' = sid
    · subst hsid
      cases he.symm.trans he'
      rw [Function.update_self, ← hexpected]
      cases ht : e.shows k with
      | none => rfl
      | some t => exact (patched_eq_self_iff.mpr (hunaffected k t ht)).symm
    · rw [Function.update_of_ne hsid]
      exact h sid' e' he' k

theorem expected_of_ok {name : SandboxName} {fate : ApplyFate}
    (hsid : s.topology.lookup name = some sid)
    (hok : (s.daemon.applyDiffToSandbox git s.topology name diff fate).2 = .ok ()) :
    (s.applyDiff git name diff fate).expected = s.promise git sid diff := by
  simp only [Accumulation.applyDiff, hok, hsid]

theorem expected_of_not_ok {name : SandboxName} {fate : ApplyFate}
    (hok : (s.daemon.applyDiffToSandbox git s.topology name diff fate).2 ≠ .ok ()) :
    (s.applyDiff git name diff fate).expected = s.expected := by
  simp only [Accumulation.applyDiff]
  split
  · next hresult hsid => exact absurd hresult hok
  · rfl

theorem honest_applyDiff_iff (h : s.Honest) (name : SandboxName) (diff : String)
    (fate : ApplyFate) :
    (s.applyDiff git name diff fate).Honest ↔ s.StepOk git (.applyDiff name diff fate) := by
  have hbases : (s.applyDiff git name diff fate).daemon.bases = s.daemon.bases :=
    bases_applyDiffToSandbox
  rw [honest_congr hbases, Accumulation.StepOk]
  by_cases hok : (s.daemon.applyDiffToSandbox git s.topology name diff fate).2 = .ok ()
  · cases hsid : s.topology.lookup name with
    | none =>
      rw [Daemon.applyDiffToSandbox, hsid] at hok
      cases hok
    | some sid =>
      rw [expected_of_ok hsid hok]
      cases he : s.daemon.sandboxes.lookup sid with
      | none =>
        refine iff_of_true ?_ ?_
        · intro sid' e' he' k
          have hne : sid' ≠ sid := by
            rintro rfl
            cases he.symm.trans he'
          rw [Accumulation.promise, Function.update_of_ne hne]
          exact h sid' e' he' k
        · intro sid' e' hsid' he'
          cases hsid'
          cases he.symm.trans he'
      | some e =>
        rw [promise_iff h he]
        have happlied := (applyDiffToSandbox_ok hsid he).mp hok
        constructor
        · intro hunaffected sid' e' hsid' he'
          cases hsid'
          cases he.symm.trans he'
          exact .inr hunaffected
        · intro hstep
          rcases hstep sid e rfl he with ⟨hhost, hserves⟩ | hunaffected
          · exact absurd happlied (not_or.mpr ⟨hhost, hserves⟩)
          · exact hunaffected
  · rw [expected_of_not_ok hok]
    refine iff_of_true h ?_
    intro sid e hsid he
    exact .inl (not_or.mp fun happlied => hok ((applyDiffToSandbox_ok hsid he).mpr happlied))

/-- **When containers show what the calls have promised.**  In every run each container that is
created shows the files of its sandbox with the diffs applied for which Ok was returned, and those
alone, if and only if every call fails or has a diff that changes nothing there. -/
theorem honest_iff {guessed : HashMap SandboxId Tree}
    {past : List (Accumulation × DaemonAction)}
    (hrun : Execution (Accumulation.step · git) (.start guessed) past s) :
    ((∀ c ∈ past, c.1.Honest) ∧ s.Honest) ↔ ∀ c ∈ past, c.1.StepOk git c.2 := by
  refine hrun.good_iff (I := fun _ => True) trivial (fun _ _ _ _ _ => trivial) ?_ ?_
  · intro sid e he
    cases he
  · intro s a s' _ h hs
    cases a with
    | applyDiff name diff fate =>
      cases hs
      exact honest_applyDiff_iff h name diff fate
    | createSandbox name sid e =>
      rw [Accumulation.step] at hs
      split at hs
      · cases hs
      · cases hs
        refine iff_of_true ?_ trivial
        intro sid' e' he' k
        replace he' : (s.daemon.sandboxes.insert sid e).lookup sid' = some e' := he'
        by_cases hsid : sid' = sid
        · subst hsid
          rw [AList.lookup_insert] at he'
          cases he'
          exact (congrFun (Function.update_self sid' e.shows s.expected) k).symm
        · rw [AList.lookup_insert_ne hsid] at he'
          refine (h sid' e' he' k).trans ?_
          exact (congrFun (Function.update_of_ne hsid e.shows s.expected) k).symm
    | createContainer sid cid k =>
      rw [Accumulation.step] at hs
      split at hs
      · cases hs
      · next e he =>
        obtain ⟨e', he', rfl⟩ := Option.map_eq_some_iff.mp hs
        exact iff_of_true (honest_of_bases (bases_insert he (base_create he')) rfl h) trivial
    | invokeTool sid cid changes =>
      cases hs
      exact iff_of_true
        (honest_of_bases (bases_onSandbox _ fun e => base_invokeTool) rfl h) trivial
    | destroyContainer sid cid =>
      cases hs
      exact iff_of_true (honest_of_bases (bases_onSandbox _ fun e => rfl) rfl h) trivial

end Runs

def notesDiff : String :=
  "diff --git a/notes b/notes\nnew file mode 100644\n--- /dev/null\n+++ b/notes\n@@ -0,0 +1 @@\n+hi\n"

/-- `git apply --allow-empty` of two diffs. -/
def notesGit : GitApply := fun diff files =>
  if diff = "" then some files
  else if diff = notesDiff ∧ files ["notes"] = none then
    some (Lib.Overlay.Tree.change files (.write ["notes"] (.file [104, 105, 10])))
  else none

def webSandbox : Entry := ⟨.overlay shellImage.tree emptyLayer, some emptyTree, none, ∅⟩

def answered : ApplyFate :=
  ⟨true, true, "65537", plainKernel true, ⟨true, true⟩, ⟨true, true⟩, [], ⟨true, true⟩,
    [.write ["workspace", "notes"] (.file [104, 105, 10])], true, ""⟩

/-- An empty diff is applied, and a container created. -/
theorem honest_empty : ∃ past s, Execution (Accumulation.step · notesGit) (.start ∅) past s ∧
    (s.daemon.sandboxes.lookup "1").isSome = true ∧ s.Honest := by
  have hrun : Execution.runActions (Accumulation.step · notesGit)
      [.createSandbox "web" "1" webSandbox, .applyDiff "web" "" answered,
        .createContainer "1" "65538" (plainKernel true)] [] (.start ∅) = some (_, _) := rfl
  have hexec := Execution.ofRun .start hrun
  refine ⟨_, _, hexec, rfl, ((honest_iff hexec).mpr ?_).2⟩
  refine List.forall_mem_cons.mpr ⟨trivial, List.forall_mem_cons.mpr ⟨?_,
    List.forall_mem_singleton.mpr trivial⟩⟩
  intro sid e hsid he
  exact .inr fun k t ht => if_pos rfl

/-- A diff for which Ok is returned, and which no container shows. -/
theorem not_honest : ¬ ∀ (git : GitApply) (guessed : HashMap SandboxId Tree)
    (past : List (Accumulation × DaemonAction)) (s : Accumulation),
    Execution (Accumulation.step · git) (.start guessed) past s → s.Honest := by
  intro hall
  have hrun : Execution.runActions (Accumulation.step · notesGit)
      [.createSandbox "web" "1" webSandbox, .applyDiff "web" notesDiff answered] [] (.start ∅) =
        some (_, _) := rfl
  have hexec := Execution.ofRun .start hrun
  have hhonest := (hall notesGit ∅ _ _ hexec) "1" _ rfl (plainKernel true)
  have hnotes : some none = some (some (Lib.Overlay.Node.file (Item.file [104, 105, 10]))) :=
    congrArg (fun t => t.map fun t => t ["workspace", "notes"]) hhonest
  cases hnotes

end Mowis.Containers
