import Mowis.Lib.Ownership
import Mowis.Topology.Manager

/-!
# Who has a container, call by call

`create_agent_layer`, `wake_or_create_agent_layer`, `sleep_agent_layer`, `destroy_agent_layer`
and `cleanup_sleeping_containers` of `agentd/src/orchestration/sandbox_topology.rs`, cut at their
locks and requests: calls of any number of callers run next to each other, and every request may
fail.
-/

namespace Mowis.Topology

open Mowis.Lib
open Mowis.Scheduling (SandboxName)

namespace Calls

/-! ### Calls -/

/-- A running call, by what it does next. -/
inductive Call where
  /-- `create_agent_layer`: look the sandbox up; ask for a container; enter it; enter the
  sandbox of the agent; four requests to git. -/
  | createLookup (name : SandboxName)
  | createRequest (name : SandboxName) (sid : SandboxId)
  | createInsert (name : SandboxName) (cid : ContainerId)
  | createBind (name : SandboxName) (agent : AgentId)
  | createGit (agent : AgentId) (left : ℕ)
  /-- `wake_or_create_agent_layer`: take a container from the pool; enter it; enter the sandbox
  of the agent. -/
  | wakePop (name : SandboxName)
  | wakeInsert (name : SandboxName) (cid : ContainerId)
  | wakeBind (name : SandboxName) (agent : AgentId)
  /-- `sleep_agent_layer`: remove the agent from both tables; look the sandbox up; clean up and
  put the container into the pool. -/
  | sleepRemove (agent : AgentId) (name : SandboxName)
  | sleepUnbind (agent : AgentId) (name : SandboxName) (cid : ContainerId)
  | sleepLookup (agent : AgentId) (name : SandboxName) (cid : ContainerId)
  | sleepPush (agent : AgentId) (name : SandboxName) (cid : ContainerId) (sid : SandboxId)
  /-- `destroy_agent_layer`: remove the agent from both tables; look the sandbox up; ask for the
  container to be destroyed. -/
  | destroyRemove (agent : AgentId)
  | destroyUnbind (agent : AgentId) (cid : ContainerId)
  | destroyLookup (name : SandboxName) (cid : ContainerId)
  | destroyRequest (cid : ContainerId)
  /-- `cleanup_sleeping_containers`: drain the pools; ask for each container to be destroyed. -/
  | cleanupDrain
  | cleanupDestroy (todo : List ContainerId)
  deriving DecidableEq

def Call.held : Call → List ContainerId
  | .createInsert _ cid => [cid]
  | .wakeInsert _ cid => [cid]
  | .sleepUnbind _ _ cid => [cid]
  | .sleepLookup _ _ cid => [cid]
  | .sleepPush _ _ cid _ => [cid]
  | .destroyUnbind _ cid => [cid]
  | .destroyLookup _ cid => [cid]
  | .destroyRequest cid => [cid]
  | .cleanupDestroy todo => todo
  | _ => []

/-- The manager with its running calls, and the containers that agentd has, with their
sandboxes.  `agents` are the names that are in use, `known` those that were returned to a caller.
`abandoned` are the containers whose creation was not answered, and those for which a request to
destroy them has failed. -/
structure State where
  manager : TopologyManager
  calls : ℕ → Option Call
  live : ContainerId → Option SandboxId
  issued : Finset ContainerId
  agents : Finset AgentId
  known : Finset AgentId
  abandoned : Finset ContainerId

def State.start (sandboxes : HashMap SandboxName SandboxId) : State where
  manager := { sandboxes, containers := ∅, agentSandboxes := ∅, sleepingContainers := ∅ }
  calls _ := none
  live _ := none
  issued := ∅
  agents := ∅
  known := ∅
  abandoned := ∅

/-- What is decided outside: the containers that a request creates, and which of them is
answered; the name of a new agent; whether a request is answered, and whether a container is
destroyed. -/
structure Fate where
  created : List ContainerId
  answered : Option ContainerId
  agent : AgentId
  succeeds : Bool
  destroyed : Bool

inductive Action where
  | create (i : ℕ) (name : SandboxName)
  | wakeOrCreate (i : ℕ) (name : SandboxName)
  | sleep (i : ℕ) (agent : AgentId) (name : SandboxName)
  | destroy (i : ℕ) (agent : AgentId)
  | cleanup (i : ℕ)
  | advance (i : ℕ) (fate : Fate)

namespace State

variable (s : State)

def pool (name : SandboxName) : List SleepingContainer :=
  HashMap.bucket s.manager.sleepingContainers name

def goto (i : ℕ) (call : Call) : State := { s with calls := Function.update s.calls i (some call) }

def finish (i : ℕ) : State := { s with calls := Function.update s.calls i none }

def returns (i : ℕ) (agent : AgentId) : State :=
  { s.finish i with known := insert agent s.known }

def setContainers (containers : HashMap AgentId ContainerId) : State :=
  { s with manager := { s.manager with containers } }

def setAgentSandboxes (agentSandboxes : HashMap AgentId SandboxName) : State :=
  { s with manager := { s.manager with agentSandboxes } }

def setSleeping (sleepingContainers : HashMap SandboxName (List SleepingContainer)) : State :=
  { s with manager := { s.manager with sleepingContainers } }

def call (i : ℕ) (call : Call) : Option State :=
  if s.calls i = none then some (s.goto i call) else none

def callFor (i : ℕ) (agent : AgentId) (call : Call) : Option State :=
  if agent ∈ s.known ∨ agent ∉ s.agents then
    ({ s with agents := insert agent s.agents } : State).call i call
  else none

def creates (sid : SandboxId) (created : List ContainerId) : State :=
  { s with
    live := fun cid => if cid ∈ created then some sid else s.live cid
    issued := s.issued ∪ created.toFinset }

def requestDestroy (cid : ContainerId) (destroyed : Bool) : State :=
  if destroyed then { s with live := Function.update s.live cid none }
  else { s with abandoned := insert cid s.abandoned }

def enter (agent : AgentId) (cid : ContainerId) : State :=
  { s.setContainers (s.manager.containers.insert agent cid) with agents := insert agent s.agents }

def resume (i : ℕ) (fate : Fate) : Call → Option State
  | .createLookup name =>
    match s.manager.sandboxes.lookup name with
    | none => some (s.finish i)
    | some sid => some (s.goto i (.createRequest name sid))
  | .createRequest name sid =>
    if (∀ cid ∈ fate.created, cid ∉ s.issued) ∧ ∀ cid ∈ fate.answered, cid ∈ fate.created then
      let s' := s.creates sid fate.created
      match fate.answered with
      | some cid => some (State.goto { s' with
          abandoned := s.abandoned ∪ fate.created.toFinset.erase cid } i (.createInsert name cid))
      | none => some (State.finish { s' with
          abandoned := s.abandoned ∪ fate.created.toFinset } i)
    else none
  | .createInsert name cid =>
    if fate.agent ∈ s.agents then none
    else some ((s.enter fate.agent cid).goto i (.createBind name fate.agent))
  | .createBind name agent =>
    some ((s.setAgentSandboxes (s.manager.agentSandboxes.insert agent name)).goto i
      (.createGit agent 4))
  | .createGit agent (n + 1) =>
    if fate.succeeds then some (s.goto i (.createGit agent n)) else some (s.finish i)
  | .createGit agent 0 => some (s.returns i agent)
  | .wakePop name =>
    match s.pool name with
    | [] => some (s.goto i (.createLookup name))
    | sc :: rest =>
      some ((s.setSleeping (s.manager.sleepingContainers.insert name rest)).goto i
        (.wakeInsert name sc.containerId))
  | .wakeInsert name cid =>
    if fate.agent ∈ s.agents then none
    else some ((s.enter fate.agent cid).goto i (.wakeBind name fate.agent))
  | .wakeBind name agent =>
    some ((s.setAgentSandboxes (s.manager.agentSandboxes.insert agent name)).returns i agent)
  | .sleepRemove agent name =>
    match s.manager.containers.lookup agent with
    | none => some (s.finish i)
    | some cid =>
      some ((s.setContainers (s.manager.containers.erase agent)).goto i (.sleepUnbind agent name cid))
  | .sleepUnbind agent name cid =>
    some ((s.setAgentSandboxes (s.manager.agentSandboxes.erase agent)).goto i
      (.sleepLookup agent name cid))
  | .sleepLookup agent name cid =>
    match s.manager.sandboxes.lookup name with
    | none => some (s.finish i)
    | some sid => some (s.goto i (.sleepPush agent name cid sid))
  | .sleepPush agent name cid sid =>
    some ((s.setSleeping (s.manager.sleepingContainers.insert name
      (s.pool name ++ [⟨agent, cid, sid⟩]))).finish i)
  | .destroyRemove agent =>
    match s.manager.containers.lookup agent with
    | none => some (s.finish i)
    | some cid =>
      some ((s.setContainers (s.manager.containers.erase agent)).goto i (.destroyUnbind agent cid))
  | .destroyUnbind agent cid =>
    match s.manager.agentSandboxes.lookup agent with
    | none => some (s.finish i)
    | some name =>
      some ((s.setAgentSandboxes (s.manager.agentSandboxes.erase agent)).goto i
        (.destroyLookup name cid))
  | .destroyLookup name cid =>
    match s.manager.sandboxes.lookup name with
    | none => some (s.finish i)
    | some _ => some (s.goto i (.destroyRequest cid))
  | .destroyRequest cid => some ((s.requestDestroy cid fate.destroyed).finish i)
  | .cleanupDrain =>
    some ((s.setSleeping ∅).goto i (.cleanupDestroy
      ((s.manager.sleepingContainers.entries.flatMap Sigma.snd).map SleepingContainer.containerId)))
  | .cleanupDestroy [] => some (s.finish i)
  | .cleanupDestroy (cid :: todo) =>
    some ((s.requestDestroy cid fate.destroyed).goto i (.cleanupDestroy todo))

end State

def step (s : State) : Action → Option State
  | .create i name => s.call i (.createLookup name)
  | .wakeOrCreate i name => s.call i (.wakePop name)
  | .sleep i agent name => s.callFor i agent (.sleepRemove agent name)
  | .destroy i agent => s.callFor i agent (.destroyRemove agent)
  | .cleanup i => s.call i .cleanupDrain
  | .advance i fate => (s.calls i).bind (s.resume i fate)

/-- A place in the tables of the manager. -/
inductive Place where
  | agent (agent : AgentId)
  | asleep (name : SandboxName) (position : ℕ)
  deriving DecidableEq

def State.recordedAt (s : State) (cid : ContainerId) : Place → Prop
  | .agent agent => s.manager.containers.lookup agent = some cid
  | .asleep name position => ((s.pool name)[position]?).map SleepingContainer.containerId = some cid

/-- A container that agentd has, that is not abandoned and that no running call holds, is recorded
exactly once; no container is recorded twice, under two agents say; a container that sleeps does so
in the pool of its sandbox. -/
structure Conserved (s : State) : Prop where
  recorded : ∀ cid, (s.live cid).isSome = true → cid ∉ s.abandoned →
    (∀ i call, s.calls i = some call → cid ∉ call.held) → ∃! place, s.recordedAt cid place
  once : ∀ cid p q, s.recordedAt cid p → s.recordedAt cid q → p = q
  belongs : ∀ name, ∀ sc ∈ s.pool name, ∃ sid, s.manager.sandboxes.lookup name = some sid ∧
    s.live sc.containerId = some sid

/-- An agent is put to sleep in the sandbox it was created in. -/
def StepOk (s : State) : Action → Prop
  | .advance i _ =>
    match s.calls i with
    | some (.sleepRemove agent name) =>
      agent ∈ s.manager.containers → s.manager.agentSandboxes.lookup agent = some name
    | _ => True
  | _ => True

instance (s : State) (action : Action) : Decidable (StepOk s action) := by
  unfold StepOk
  split
  · split <;> infer_instance
  all_goals exact isTrue trivial

/-! ### Owners -/

inductive Owner where
  | agent (agent : AgentId)
  | asleep (name : SandboxName)
  | call (i : ℕ)
  deriving DecidableEq

def Call.names : Call → List AgentId
  | .createBind _ agent => [agent]
  | .createGit agent _ => [agent]
  | .wakeBind _ agent => [agent]
  | .sleepUnbind agent _ _ => [agent]
  | .destroyUnbind agent _ => [agent]
  | _ => []

def heldBy : Option Call → List ContainerId
  | none => []
  | some call => call.held

def namedBy : Option Call → List AgentId
  | none => []
  | some call => call.names

namespace State

variable (s : State)

def holdings : Owner → List ContainerId
  | .agent agent => (s.manager.containers.lookup agent).toList
  | .asleep name => (s.pool name).map SleepingContainer.containerId
  | .call i => heldBy (s.calls i)

def At (name : SandboxName) (cid : ContainerId) : Prop :=
  ∃ sid, s.manager.sandboxes.lookup name = some sid ∧ s.live cid = some sid

def CallOk : Call → Prop
  | .createRequest name sid => s.manager.sandboxes.lookup name = some sid
  | .createInsert name cid => s.At name cid
  | .wakeInsert name cid => s.At name cid
  | .createBind name agent => agent ∈ s.agents ∧ agent ∉ s.known ∧
      ∀ cid, s.manager.containers.lookup agent = some cid → s.At name cid
  | .wakeBind name agent => agent ∈ s.agents ∧ agent ∉ s.known ∧
      ∀ cid, s.manager.containers.lookup agent = some cid → s.At name cid
  | .createGit agent _ => agent ∈ s.agents ∧ agent ∉ s.known ∧
      ∀ cid, s.manager.containers.lookup agent = some cid →
        ∃ name, s.manager.agentSandboxes.lookup agent = some name ∧ s.At name cid
  | .sleepRemove agent _ => agent ∈ s.agents ∧
      (agent ∈ s.known ∨ s.manager.containers.lookup agent = none)
  | .destroyRemove agent => agent ∈ s.agents ∧
      (agent ∈ s.known ∨ s.manager.containers.lookup agent = none)
  | .sleepUnbind agent name cid => agent ∈ s.known ∧
      s.manager.containers.lookup agent = none ∧ s.At name cid
  | .sleepLookup _ name cid => s.At name cid
  | .sleepPush _ name cid sid => s.manager.sandboxes.lookup name = some sid ∧ s.live cid = some sid
  | .destroyUnbind agent cid => agent ∈ s.known ∧ s.manager.containers.lookup agent = none ∧
      ∃ name, s.manager.agentSandboxes.lookup agent = some name ∧ s.At name cid
  | .destroyLookup name cid => s.At name cid
  | _ => True

end State

/-- Every container that agentd has and that is not abandoned has one owner. -/
structure Owned (s : State) : Prop where
  exclusive : Exclusive s.holdings
  covered : ∀ cid, (s.live cid).isSome = true → cid ∈ s.abandoned ∨ ∃ o, cid ∈ s.holdings o
  alive : ∀ cid, (s.live cid).isSome = true → cid ∈ s.issued
  taken : ∀ o, ∀ cid ∈ s.holdings o, cid ∈ s.issued

structure Inv (s : State) : Prop extends Owned s where
  belongs : ∀ name, ∀ sc ∈ s.pool name, s.At name sc.containerId
  bound : ∀ a ∈ s.known, ∀ cid, s.manager.containers.lookup a = some cid →
    ∃ name, s.manager.agentSandboxes.lookup a = some name ∧ s.At name cid
  known : s.known ⊆ s.agents
  entered : ∀ a cid, s.manager.containers.lookup a = some cid → a ∈ s.agents
  calls : ∀ i call, s.calls i = some call → s.CallOk call
  names : Exclusive fun i => namedBy (s.calls i)

theorem inv_start (sandboxes : HashMap SandboxName SandboxId) : Inv (.start sandboxes) where
  exclusive :=
    { once := fun o => by cases o <;> exact List.nodup_nil
      apart := fun o _ r hr => by cases o <;> cases hr }
  covered _ h := nomatch h
  alive _ h := nomatch h
  taken o _ h := by cases o <;> cases h
  belongs _ _ h := nomatch h
  bound _ h := absurd h (Finset.notMem_empty _)
  known := Finset.Subset.refl _
  entered _ _ h := nomatch h
  calls _ _ h := nomatch h
  names := { once := fun _ => List.nodup_nil, apart := fun _ _ _ h => nomatch h }

theorem State.CallOk.frame {s t : State} {who : Option AgentId} {call : Call} (h : s.CallOk call)
    (hsandboxes : t.manager.sandboxes = s.manager.sandboxes)
    (hlive : ∀ cid, (cid ∈ call.held ∨ ∃ a ∈ call.names, s.manager.containers.lookup a = some cid) →
      t.live cid = s.live cid)
    (hagents : s.agents ⊆ t.agents) (hknown : s.known ⊆ t.known)
    (hwho : ∀ a ∈ call.names, some a ≠ who)
    (hsame : ∀ a, some a ≠ who →
      t.manager.containers.lookup a = s.manager.containers.lookup a ∧
      t.manager.agentSandboxes.lookup a = s.manager.agentSandboxes.lookup a ∧
      (a ∈ t.known → a ∈ s.known))
    (hnone : ∀ a ∈ s.agents, s.manager.containers.lookup a = none →
      t.manager.containers.lookup a = none) : t.CallOk call := by
  have hat : ∀ name cid,
      (cid ∈ call.held ∨ ∃ a ∈ call.names, s.manager.containers.lookup a = some cid) →
      s.At name cid → t.At name cid := by
    intro name cid hcid hs
    unfold State.At
    rw [hsandboxes, hlive cid hcid]
    exact hs
  cases call with
  | createLookup | wakePop | destroyRequest | cleanupDrain | cleanupDestroy => trivial
  | createRequest name sid =>
    show t.manager.sandboxes.lookup name = some sid
    rw [hsandboxes]
    exact h
  | createInsert name cid | wakeInsert name cid | sleepLookup _ name cid | destroyLookup name cid =>
    exact hat name cid (.inl List.mem_cons_self) h
  | createBind name agent | wakeBind name agent =>
    obtain ⟨hc, -, hk⟩ := hsame agent (hwho agent List.mem_cons_self)
    refine ⟨hagents h.1, fun hmem => h.2.1 (hk hmem), fun cid hcid => ?_⟩
    rw [hc] at hcid
    exact hat name cid (.inr ⟨agent, List.mem_cons_self, hcid⟩) (h.2.2 cid hcid)
  | createGit agent left =>
    obtain ⟨hc, hb, hk⟩ := hsame agent (hwho agent List.mem_cons_self)
    refine ⟨hagents h.1, fun hmem => h.2.1 (hk hmem), fun cid hcid => ?_⟩
    rw [hc] at hcid
    obtain ⟨name, hname, hcat⟩ := h.2.2 cid hcid
    exact ⟨name, hb.trans hname, hat name cid (.inr ⟨agent, List.mem_cons_self, hcid⟩) hcat⟩
  | sleepRemove agent name | destroyRemove agent =>
    exact ⟨hagents h.1, h.2.imp (fun hk => hknown hk) (hnone agent h.1)⟩
  | sleepUnbind agent name cid =>
    obtain ⟨hc, -, -⟩ := hsame agent (hwho agent List.mem_cons_self)
    exact ⟨hknown h.1, hc.trans h.2.1, hat name cid (.inl List.mem_cons_self) h.2.2⟩
  | sleepPush agent name cid sid =>
    show t.manager.sandboxes.lookup name = some sid ∧ t.live cid = some sid
    rw [hsandboxes, hlive cid (.inl List.mem_cons_self)]
    exact h
  | destroyUnbind agent cid =>
    obtain ⟨hc, hb, -⟩ := hsame agent (hwho agent List.mem_cons_self)
    obtain ⟨name, hname, hcat⟩ := h.2.2
    exact ⟨hknown h.1, hc.trans h.2.1, name, hb.trans hname,
      hat name cid (.inl List.mem_cons_self) hcat⟩

/-- A call has gone on to `next`, and the tables are those of `t`. -/
def State.setCall (t : State) (i : ℕ) (next : Option Call) : State :=
  { t with calls := Function.update t.calls i next }

theorem State.setCall_self (t : State) (i : ℕ) (next : Option Call) :
    (t.setCall i next).calls i = next := Function.update_self ..

theorem State.setCall_ne (t : State) {i j : ℕ} (h : j ≠ i) (next : Option Call) :
    (t.setCall i next).calls j = t.calls j := Function.update_of_ne h ..

theorem State.holdings_setCall (t : State) (i : ℕ) (next : Option Call) (o : Owner) :
    (t.setCall i next).holdings o = if o = .call i then heldBy next else t.holdings o := by
  cases o with
  | agent a => rfl
  | asleep name => rfl
  | call j =>
    by_cases hj : j = i
    · subst hj
      rw [if_pos rfl]
      exact congrArg heldBy (t.setCall_self j next)
    · rw [if_neg (fun h => hj (Owner.call.inj h))]
      exact congrArg heldBy (t.setCall_ne hj next)

theorem Inv.setCall_calls {s t : State} {i : ℕ} {who : Option AgentId} {next : Option Call}
    (h : Inv s) (hcalls : t.calls = s.calls)
    (hsandboxes : t.manager.sandboxes = s.manager.sandboxes)
    (hlive : ∀ o, o ≠ .call i → ∀ cid ∈ s.holdings o, t.live cid = s.live cid)
    (hagents : s.agents ⊆ t.agents) (hknown : s.known ⊆ t.known)
    (hwho : ∀ a, some a = who → ∀ j ≠ i, a ∉ namedBy (s.calls j))
    (hsame : ∀ a, some a ≠ who →
      t.manager.containers.lookup a = s.manager.containers.lookup a ∧
      t.manager.agentSandboxes.lookup a = s.manager.agentSandboxes.lookup a ∧
      (a ∈ t.known → a ∈ s.known))
    (hnone : ∀ a ∈ s.agents, s.manager.containers.lookup a = none →
      t.manager.containers.lookup a = none)
    (hnext : ∀ call, next = some call → (t.setCall i next).CallOk call) :
    ∀ j call, (t.setCall i next).calls j = some call → (t.setCall i next).CallOk call := by
  intro j call hj
  by_cases hij : j = i
  · subst hij
    rw [t.setCall_self] at hj
    exact hnext call hj
  · rw [t.setCall_ne hij, hcalls] at hj
    refine (h.calls j call hj).frame hsandboxes (fun cid hcid => ?_) hagents hknown
      (fun a ha hsome => ?_) hsame hnone
    · rcases hcid with hheld | ⟨a, -, ha⟩
      · refine hlive (.call j) (fun heq => hij (Owner.call.inj heq)) cid ?_
        show cid ∈ heldBy (s.calls j)
        rw [hj]
        exact hheld
      · refine hlive (.agent a) (fun heq => nomatch heq) cid ?_
        show cid ∈ (s.manager.containers.lookup a).toList
        rw [ha]
        exact List.mem_cons_self
    · refine hwho a hsome j hij ?_
      rw [hj]
      exact ha

theorem Inv.setCall_names {s t : State} {i : ℕ} {next : Option Call} (h : Inv s)
    (hcalls : t.calls = s.calls) (honce : (namedBy next).Nodup)
    (hnew : ∀ a ∈ namedBy next, a ∈ namedBy (s.calls i) ∨ ∀ j ≠ i, a ∉ namedBy (s.calls j)) :
    Exclusive fun j => namedBy ((t.setCall i next).calls j) := by
  have hself : (t.setCall i next).calls i = next := t.setCall_self i next
  have hne : ∀ j ≠ i, (t.setCall i next).calls j = s.calls j := fun j hj =>
    (t.setCall_ne hj next).trans (congrFun hcalls j)
  have hothers : ∀ a ∈ namedBy next, ∀ j ≠ i, a ∉ namedBy (s.calls j) := by
    intro a ha j hj hmem
    rcases hnew a ha with hold | hfree
    · exact hj (h.names.apart j i a hmem hold)
    · exact hfree j hj hmem
  refine h.names.move i (namedBy next) ?_ (fun a ha => ?_) fun j hj => ⟨?_, ?_⟩
  · rw [hself]
    exact honce
  · rw [hself] at ha
    exact .inr ha
  · rw [hne j hj]
  · intro a ha
    rw [hne j hj]
    exact hothers a ha j hj

/-! ### One lemma for each kind of step -/

section Steps

variable {s : State} {i : ℕ} {call : Call} {next : Option Call}

theorem State.callOk_setCall {t : State} : (t.setCall i next).CallOk call ↔ t.CallOk call := by
  cases call <;> exact Iff.rfl

theorem State.mem_holdings_ne {t : State} {o : Owner} (ho : o ≠ .call i) :
    (t.setCall i next).holdings o = t.holdings o := by
  rw [State.holdings_setCall, if_neg ho]

theorem State.holdings_self {t : State} : (t.setCall i next).holdings (.call i) = heldBy next := by
  rw [State.holdings_setCall, if_pos rfl]

theorem Inv.heldBy_eq (hcall : s.calls i = some call) : s.holdings (.call i) = call.held :=
  congrArg heldBy hcall

theorem State.holdings_held {t : State} (hcall : heldBy next = heldBy (s.calls i))
    (hsame : ∀ o, t.holdings o = s.holdings o) (o : Owner) :
    (t.setCall i next).holdings o = s.holdings o := by
  rw [State.holdings_setCall]
  split
  · next ho =>
    rw [ho]
    exact hcall
  · exact hsame o

theorem Inv.mem_issued (h : Inv s) {cid : ContainerId} {agent : AgentId}
    (hcid : s.manager.containers.lookup agent = some cid) : cid ∈ s.issued := by
  refine h.taken (.agent agent) cid ?_
  show cid ∈ (s.manager.containers.lookup agent).toList
  rw [hcid]
  exact List.mem_cons_self

theorem Inv.pool_issued (h : Inv s) {name : SandboxName} {sc : SleepingContainer}
    (hsc : sc ∈ s.pool name) : sc.containerId ∈ s.issued :=
  h.taken (.asleep name) _ (List.mem_map_of_mem hsc)

theorem Owned.congr {t : State} (h : Owned s) (hholdings : ∀ o, t.holdings o = s.holdings o)
    (hlive : t.live = s.live) (hissued : t.issued = s.issued)
    (habandoned : t.abandoned = s.abandoned) : Owned t := by
  constructor
  case exclusive => exact h.exclusive.shrink fun o => hholdings o ▸ List.Sublist.refl _
  case covered =>
    intro cid hcid
    rw [hlive] at hcid
    rw [habandoned]
    exact (h.covered cid hcid).imp id fun ⟨o, ho⟩ => ⟨o, hholdings o ▸ ho⟩
  case alive =>
    rw [hlive, hissued]
    exact h.alive
  case taken =>
    intro o cid hcid
    rw [hissued]
    exact h.taken o cid (hholdings o ▸ hcid)

theorem Owned.exchange {t : State} {o : Owner} (h : Owned s) (ho : o ≠ .call i)
    (hperm : (heldBy next ++ t.holdings o).Perm (s.holdings (.call i) ++ s.holdings o))
    (hother : ∀ o', o' ≠ .call i → o' ≠ o → t.holdings o' = s.holdings o')
    (hlive : t.live = s.live) (hissued : t.issued = s.issued)
    (habandoned : t.abandoned = s.abandoned) : Owned (t.setCall i next) := by
  have hperm' : ((t.setCall i next).holdings (.call i) ++ (t.setCall i next).holdings o).Perm
      (s.holdings (.call i) ++ s.holdings o) := by
    rw [State.holdings_self, State.mem_holdings_ne ho]
    exact hperm
  have hother' : ∀ o', o' ≠ .call i → o' ≠ o →
      (t.setCall i next).holdings o' = s.holdings o' := by
    intro o' hi ho'
    rw [State.mem_holdings_ne hi]
    exact hother o' hi ho'
  have hheld := held_exchange hperm' hother'
  constructor
  case exclusive => exact h.exclusive.exchange (Ne.symm ho) hperm' hother'
  case covered =>
    intro cid hcid
    show cid ∈ t.abandoned ∨ _
    rw [habandoned, hheld]
    exact h.covered cid (hlive ▸ hcid)
  case alive =>
    show ∀ cid, (t.live cid).isSome = true → cid ∈ t.issued
    rw [hlive, hissued]
    exact h.alive
  case taken =>
    intro o₁ cid hcid
    show cid ∈ t.issued
    rw [hissued]
    obtain ⟨o₂, ho₂⟩ := (hheld cid).mp ⟨o₁, hcid⟩
    exact h.taken o₂ cid ho₂

theorem Inv.change {t : State} (h : Inv s) (agent : AgentId) (howned : Owned (t.setCall i next))
    (hcalls : t.calls = s.calls) (hsandboxes : t.manager.sandboxes = s.manager.sandboxes)
    (hsleeping : t.manager.sleepingContainers = s.manager.sleepingContainers)
    (hlive : t.live = s.live) (hagents : ∀ a, a ∈ t.agents ↔ a = agent ∨ a ∈ s.agents)
    (hknown : s.known ⊆ t.known) (hfree : ∀ j ≠ i, agent ∉ namedBy (s.calls j))
    (hsame : ∀ a, a ≠ agent →
      t.manager.containers.lookup a = s.manager.containers.lookup a ∧
      t.manager.agentSandboxes.lookup a = s.manager.agentSandboxes.lookup a ∧
      (a ∈ t.known → a ∈ s.known))
    (hnone : agent ∈ s.agents → s.manager.containers.lookup agent = none →
      t.manager.containers.lookup agent = none)
    (hbound : agent ∈ t.known → ∀ cid, t.manager.containers.lookup agent = some cid →
      ∃ name, t.manager.agentSandboxes.lookup agent = some name ∧ t.At name cid)
    (honce : (namedBy next).Nodup) (hnames : ∀ a ∈ namedBy next, a = agent)
    (hnext : ∀ call', next = some call' → t.CallOk call') : Inv (t.setCall i next) where
  toOwned := howned
  belongs := by
    intro name sc hsc
    show ∃ sid, t.manager.sandboxes.lookup name = some sid ∧ t.live sc.containerId = some sid
    rw [hsandboxes, hlive]
    refine h.belongs name sc ?_
    show sc ∈ HashMap.bucket s.manager.sleepingContainers name
    rw [← hsleeping]
    exact hsc
  bound := by
    intro a ha cid hcid
    by_cases heq : a = agent
    · rw [heq] at ha hcid ⊢
      exact hbound ha cid hcid
    · obtain ⟨hc, hb, hk⟩ := hsame a heq
      obtain ⟨name, hname, sid, hsid⟩ := h.bound a (hk ha) cid (hc ▸ hcid)
      refine ⟨name, hb.trans hname, sid, ?_⟩
      show t.manager.sandboxes.lookup name = some sid ∧ t.live cid = some sid
      rw [hsandboxes, hlive]
      exact hsid
  known := by
    intro a ha
    refine (hagents a).mpr ?_
    by_cases heq : a = agent
    · exact .inl heq
    · exact .inr (h.known ((hsame a heq).2.2 ha))
  entered := by
    intro a cid hcid
    refine (hagents a).mpr ?_
    by_cases heq : a = agent
    · exact .inl heq
    · exact .inr (h.entered a cid ((hsame a heq).1 ▸ hcid))
  calls := by
    refine h.setCall_calls hcalls hsandboxes (fun _ _ _ _ => congrFun hlive _)
      (fun a ha => (hagents a).mpr (.inr ha)) hknown (fun a ha j hj => ?_)
      (fun a ha => hsame a fun heq => ha (congrArg some heq)) (fun a ha hc => ?_)
      fun call' hcall' => State.callOk_setCall.mpr (hnext call' hcall')
    · rw [Option.some.inj ha]
      exact hfree j hj
    · by_cases heq : a = agent
      · rw [heq] at ha hc ⊢
        exact hnone ha hc
      · exact (hsame a heq).1.trans hc
  names := by
    refine h.setCall_names hcalls honce fun a ha => .inr fun j hj => ?_
    rw [hnames a ha]
    exact hfree j hj

theorem Inv.repool (h : Inv s) {pools : HashMap SandboxName (List SleepingContainer)}
    (hcall : s.calls i = some call) (howned : Owned ((s.setSleeping pools).setCall i next))
    (hbelongs : ∀ name, ∀ sc ∈ HashMap.bucket pools name, s.At name sc.containerId)
    (hnames : ∀ a ∈ namedBy next, a ∈ call.names) (honce : (namedBy next).Nodup)
    (hnext : ∀ call', next = some call' → s.CallOk call') :
    Inv ((s.setSleeping pools).setCall i next) where
  toOwned := howned
  belongs := hbelongs
  bound := h.bound
  known := h.known
  entered := h.entered
  calls := by
    refine h.setCall_calls rfl rfl (fun _ _ _ _ => rfl) (Finset.Subset.refl _)
      (Finset.Subset.refl _) (fun _ ha => nomatch ha : ∀ a, some a = none → _)
      (fun _ _ => ⟨rfl, rfl, id⟩) (fun _ _ hnone => hnone) fun call' hcall' => ?_
    have hok := hnext call' hcall'
    cases call' <;> exact hok
  names := by
    refine h.setCall_names rfl honce fun a ha => .inl ?_
    rw [hcall]
    exact hnames a ha

theorem Inv.reframe (h : Inv s) (hcall : s.calls i = some call) (hheld : heldBy next = call.held)
    (hnames : ∀ a ∈ namedBy next, a ∈ call.names) (honce : (namedBy next).Nodup)
    (hnext : ∀ call', next = some call' → s.CallOk call') : Inv (s.setCall i next) := by
  have hkept : heldBy next = heldBy (s.calls i) := hheld.trans (Inv.heldBy_eq hcall).symm
  exact h.repool hcall (h.toOwned.congr (State.holdings_held hkept fun _ => rfl) rfl rfl rfl)
    h.belongs hnames honce hnext

theorem Inv.unnamed (h : Inv s) {agent : AgentId} (hknown : agent ∈ s.known)
    {cid : ContainerId} (hcid : s.manager.containers.lookup agent = some cid) (j : ℕ) :
    agent ∉ namedBy (s.calls j) := by
  intro hmem
  cases hj : s.calls j with
  | none =>
    rw [hj] at hmem
    cases hmem
  | some call =>
    have hok := h.calls j call hj
    rw [hj] at hmem
    cases call with
    | createBind | createGit | wakeBind =>
      rw [List.mem_singleton.mp hmem] at hknown
      exact hok.2.1 hknown
    | sleepUnbind | destroyUnbind =>
      rw [List.mem_singleton.mp hmem, hok.2.1] at hcid
      cases hcid
    | _ => cases hmem

theorem Inv.named (h : Inv s) {agent : AgentId} {j : ℕ} (hmem : agent ∈ namedBy (s.calls j)) :
    agent ∈ s.agents := by
  cases hj : s.calls j with
  | none =>
    rw [hj] at hmem
    cases hmem
  | some call =>
    have hok := h.calls j call hj
    rw [hj] at hmem
    cases call with
    | createBind | createGit | wakeBind =>
      rw [List.mem_singleton.mp hmem]
      exact hok.1
    | sleepUnbind | destroyUnbind =>
      rw [List.mem_singleton.mp hmem]
      exact h.known hok.1
    | _ => cases hmem

theorem Owned.creates (h : Owned s) {name : SandboxName} {sid : SandboxId}
    {created : List ContainerId} {answered : Option ContainerId} {abandoned : Finset ContainerId}
    (hself : s.holdings (.call i) = []) (hnew : ∀ cid ∈ created, cid ∉ s.issued)
    (hanswered : ∀ cid ∈ answered, cid ∈ created)
    (habandoned : s.abandoned ⊆ abandoned ∧ ∀ cid ∈ created, cid ∉ answered → cid ∈ abandoned) :
    Owned (({ s.creates sid created with abandoned } : State).setCall i
      (answered.map (.createInsert name))) := by
  have hheld : heldBy (answered.map (Call.createInsert name)) = answered.toList := by
    cases answered <;> rfl
  constructor
  case exclusive =>
    refine h.exclusive.move (.call i) answered.toList ?_ (fun cid hcid => ?_) fun o ho => ⟨?_, ?_⟩
    · rw [State.holdings_self, hheld]
      cases answered <;> simp
    · rw [State.holdings_self, hheld] at hcid
      exact .inr hcid
    · rw [State.mem_holdings_ne ho]
      exact List.Sublist.refl _
    · intro cid hcid hmem
      rw [State.mem_holdings_ne ho] at hmem
      exact hnew cid (hanswered cid (Option.mem_toList.mp hcid)) (h.taken o cid hmem)
  case covered =>
    intro cid hcid
    by_cases hmem : cid ∈ created
    · by_cases hans : cid ∈ answered
      · refine .inr ⟨.call i, ?_⟩
        rw [State.holdings_self, hheld]
        exact Option.mem_toList.mpr hans
      · exact .inl (habandoned.2 cid hmem hans)
    · replace hcid : (if cid ∈ created then some sid else s.live cid).isSome = true := hcid
      rw [if_neg hmem] at hcid
      rcases h.covered cid hcid with habandon | ⟨o, ho⟩
      · exact .inl (habandoned.1 habandon)
      · refine .inr ⟨o, ?_⟩
        have hne : o ≠ .call i := by
          rintro rfl
          rw [hself] at ho
          cases ho
        rw [State.mem_holdings_ne hne]
        exact ho
  case alive =>
    intro cid hcid
    by_cases hmem : cid ∈ created
    · exact Finset.mem_union_right _ (List.mem_toFinset.mpr hmem)
    · replace hcid : (if cid ∈ created then some sid else s.live cid).isSome = true := hcid
      rw [if_neg hmem] at hcid
      exact Finset.mem_union_left _ (h.alive cid hcid)
  case taken =>
    intro o cid hcid
    by_cases ho : o = .call i
    · rw [ho, State.holdings_self, hheld] at hcid
      exact Finset.mem_union_right _
        (List.mem_toFinset.mpr (hanswered cid (Option.mem_toList.mp hcid)))
    · rw [State.mem_holdings_ne ho] at hcid
      exact Finset.mem_union_left _ (h.taken o cid hcid)

theorem Inv.creates (h : Inv s) {name : SandboxName} {sid : SandboxId} {created : List ContainerId}
    {abandoned : Finset ContainerId} (answered : Option ContainerId)
    (hcall : s.calls i = some (.createRequest name sid)) (hnew : ∀ cid ∈ created, cid ∉ s.issued)
    (hanswered : ∀ cid ∈ answered, cid ∈ created)
    (habandoned : s.abandoned ⊆ abandoned ∧ ∀ cid ∈ created, cid ∉ answered → cid ∈ abandoned) :
    Inv (({ s.creates sid created with abandoned } : State).setCall i
      (answered.map (.createInsert name))) := by
  have hlive : ∀ cid ∈ s.issued, ({ s.creates sid created with abandoned } : State).live cid =
      s.live cid := fun cid hcid => if_neg fun hmem => hnew cid hmem hcid
  have hat : ∀ n cid, cid ∈ s.issued → s.At n cid →
      ({ s.creates sid created with abandoned } : State).At n cid := by
    intro n cid hcid hs
    show ∃ sid', _ ∧ ({ s.creates sid created with abandoned } : State).live cid = some sid'
    rw [hlive cid hcid]
    exact hs
  constructor
  case toOwned => exact h.toOwned.creates (Inv.heldBy_eq hcall) hnew hanswered habandoned
  case belongs => exact fun n sc hsc => hat n _ (h.pool_issued hsc) (h.belongs n sc hsc)
  case bound =>
    intro a ha cid hcid
    obtain ⟨n, hn, hs⟩ := h.bound a ha cid hcid
    exact ⟨n, hn, hat n cid (h.mem_issued hcid) hs⟩
  case known => exact h.known
  case entered => exact h.entered
  case calls =>
    refine h.setCall_calls rfl rfl (fun o _ cid hcid => hlive cid (h.taken o cid hcid))
      (Finset.Subset.refl _) (Finset.Subset.refl _)
      (fun _ ha => nomatch ha : ∀ a, some a = none → _) (fun _ _ => ⟨rfl, rfl, id⟩)
      (fun _ _ hnone => hnone) fun call' hnext => State.callOk_setCall.mpr ?_
    cases answered with
    | none => cases hnext
    | some cid =>
      cases hnext
      exact ⟨sid, h.calls i _ hcall, if_pos (hanswered cid rfl)⟩
  case names =>
    refine h.setCall_names rfl ?_ fun a ha => ?_
    · cases answered <;> exact List.nodup_nil
    · cases answered <;> cases ha

theorem Inv.enter (h : Inv s) {cid : ContainerId} {agent : AgentId} {name : SandboxName}
    {next : Call} (hcall : s.calls i = some call) (hheld : call.held = [cid])
    (hat : s.At name cid) (hagent : agent ∉ s.agents) (hnextHeld : next.held = [])
    (hnextNames : next.names = [agent])
    (hnext : ∀ t : State, t.CallOk next ↔ agent ∈ t.agents ∧ agent ∉ t.known ∧
      ∀ cid, t.manager.containers.lookup agent = some cid → t.At name cid) :
    Inv ((s.enter agent cid).setCall i (some next)) := by
  have hfresh : s.manager.containers.lookup agent = none := by
    cases hlookup : s.manager.containers.lookup agent with
    | none => rfl
    | some cid' => exact absurd (h.entered agent cid' hlookup) hagent
  have hlookup : ∀ a, (s.enter agent cid).manager.containers.lookup a =
      if a = agent then some cid else s.manager.containers.lookup a :=
    fun a => HashMap.lookup_insert_eq_ite s.manager.containers agent a cid
  have howned : Owned ((s.enter agent cid).setCall i (some next)) := by
    refine h.toOwned.exchange (o := .agent agent) (fun heq => nomatch heq) ?_ (fun o _ ho => ?_)
      rfl rfl rfl
    · show (next.held ++ ((s.enter agent cid).manager.containers.lookup agent).toList).Perm
        (s.holdings (.call i) ++ (s.manager.containers.lookup agent).toList)
      rw [Inv.heldBy_eq hcall, hnextHeld, hheld, hfresh, hlookup, if_pos rfl]
      exact List.Perm.refl _
    · cases o with
      | agent a =>
        show ((s.enter agent cid).manager.containers.lookup a).toList = _
        rw [hlookup, if_neg fun heq => ho (congrArg Owner.agent heq)]
        rfl
      | asleep | call => rfl
  refine h.change agent howned rfl rfl rfl rfl (fun a => Finset.mem_insert)
    (Finset.Subset.refl _) (fun j _ hmem => hagent (h.named hmem)) (fun a ha => ⟨?_, rfl, id⟩)
    (fun ha _ => absurd ha hagent) (fun hk _ _ => absurd (h.known hk) hagent) ?_ (fun a ha => ?_)
    fun call' hcall' => ?_
  · rw [hlookup, if_neg ha]
  · show next.names.Nodup
    rw [hnextNames]
    exact List.nodup_singleton agent
  · replace ha : a ∈ next.names := ha
    rw [hnextNames] at ha
    exact List.mem_singleton.mp ha
  · cases hcall'
    refine (hnext _).mpr ⟨Finset.mem_insert_self _ _, fun hk => hagent (h.known hk), ?_⟩
    intro c hc
    rw [hlookup, if_pos rfl] at hc
    rw [← Option.some.inj hc]
    exact hat

theorem mem_iff_of_mem {agents : Finset AgentId} {agent : AgentId} (h : agent ∈ agents)
    (a : AgentId) : a ∈ agents ↔ a = agent ∨ a ∈ agents := by
  refine ⟨.inr, ?_⟩
  rintro (rfl | ha)
  · exact h
  · exact ha

theorem Inv.bind (h : Inv s) {name : SandboxName} {agent : AgentId} (left : ℕ)
    (hcall : s.calls i = some call) (hheld : call.held = []) (hnames : call.names = [agent])
    (hok : agent ∈ s.agents ∧ agent ∉ s.known ∧
      ∀ cid, s.manager.containers.lookup agent = some cid → s.At name cid) :
    Inv ((s.setAgentSandboxes (s.manager.agentSandboxes.insert agent name)).setCall i
      (some (.createGit agent left))) := by
  have hlookup : ∀ a, (s.manager.agentSandboxes.insert agent name).lookup a =
      if a = agent then some name else s.manager.agentSandboxes.lookup a :=
    fun a => HashMap.lookup_insert_eq_ite s.manager.agentSandboxes agent a name
  have hmem : agent ∈ namedBy (s.calls i) := by
    rw [hcall]
    show agent ∈ call.names
    rw [hnames]
    exact List.mem_cons_self
  refine h.change agent (h.toOwned.congr (fun o => ?_) rfl rfl rfl) rfl rfl rfl rfl
    (fun a => mem_iff_of_mem hok.1 a) (Finset.Subset.refl _) (fun j hj hmem' => ?_)
    (fun a ha => ⟨rfl, ?_, id⟩) (fun _ hnone => hnone) (fun hk _ _ => absurd hk hok.2.1)
    (List.nodup_singleton agent) (fun a ha => List.mem_singleton.mp ha) fun call' hcall' => ?_
  · refine State.holdings_held ?_ (fun o => ?_) o
    · exact hheld.symm.trans (Inv.heldBy_eq hcall).symm
    · cases o <;> rfl
  · exact hj (h.names.apart j i agent hmem' hmem)
  · exact (hlookup a).trans (if_neg ha)
  · cases hcall'
    refine ⟨hok.1, hok.2.1, fun cid hcid => ⟨name, ?_, hok.2.2 cid hcid⟩⟩
    exact (hlookup agent).trans (if_pos rfl)

theorem Inv.returns (h : Inv s) {agent : AgentId}
    (hcall : s.calls i = some (.createGit agent 0)) : Inv (s.returns i agent) := by
  have hok : agent ∈ s.agents ∧ agent ∉ s.known ∧
      ∀ cid, s.manager.containers.lookup agent = some cid →
        ∃ name, s.manager.agentSandboxes.lookup agent = some name ∧ s.At name cid :=
    h.calls i _ hcall
  have hmem : agent ∈ namedBy (s.calls i) := by
    rw [hcall]
    exact List.mem_cons_self
  show Inv (({ s with known := insert agent s.known } : State).setCall i none)
  refine h.change agent
    (h.toOwned.congr (fun o => ?_) rfl rfl rfl) rfl rfl rfl rfl (fun a => mem_iff_of_mem hok.1 a)
    (Finset.subset_insert _ _) (fun j hj hmem' => ?_) (fun a ha => ⟨rfl, rfl, fun hk => ?_⟩)
    (fun _ hnone => hnone) (fun _ cid hcid => hok.2.2 cid hcid) List.nodup_nil
    (fun a ha => nomatch ha) fun call' hcall' => nomatch hcall'
  · refine State.holdings_held ?_ (fun o => ?_) o
    · exact (Inv.heldBy_eq hcall).symm
    · cases o <;> rfl
  · exact hj (h.names.apart j i agent hmem' hmem)
  · exact (Finset.mem_insert.mp hk).resolve_left ha

theorem Inv.remove (h : Inv s) {agent : AgentId} {cid : ContainerId} {next : Call}
    (hcall : s.calls i = some call) (hheld : call.held = [])
    (hknown : agent ∈ s.known) (hcid : s.manager.containers.lookup agent = some cid)
    (hnextHeld : next.held = [cid]) (hnextNames : next.names = [agent])
    (hnext : (s.setContainers (s.manager.containers.erase agent)).CallOk next) :
    Inv ((s.setContainers (s.manager.containers.erase agent)).setCall i (some next)) := by
  have hlookup : ∀ a, (s.manager.containers.erase agent).lookup a =
      if a = agent then none else s.manager.containers.lookup a :=
    fun a => HashMap.lookup_erase_eq_ite s.manager.containers agent a
  have howned : Owned ((s.setContainers (s.manager.containers.erase agent)).setCall i
      (some next)) := by
    refine h.toOwned.exchange (o := .agent agent) (fun heq => nomatch heq) ?_ (fun o _ ho => ?_)
      rfl rfl rfl
    · show (next.held ++ ((s.manager.containers.erase agent).lookup agent).toList).Perm
        (s.holdings (.call i) ++ (s.manager.containers.lookup agent).toList)
      rw [Inv.heldBy_eq hcall, hnextHeld, hheld, hcid, hlookup, if_pos rfl]
      exact List.Perm.refl _
    · cases o with
      | agent a =>
        show ((s.manager.containers.erase agent).lookup a).toList = _
        rw [hlookup, if_neg fun heq => ho (congrArg Owner.agent heq)]
        rfl
      | asleep | call => rfl
  refine h.change agent howned rfl rfl rfl rfl
    (fun a => mem_iff_of_mem (h.known hknown) a)
    (Finset.Subset.refl _) (fun j _ => h.unnamed hknown hcid j) (fun a ha => ⟨?_, rfl, id⟩)
    (fun _ _ => (hlookup agent).trans (if_pos rfl)) (fun _ c hc => ?_) ?_ (fun a ha => ?_)
    fun call' hcall' => ?_
  · exact (hlookup a).trans (if_neg ha)
  · replace hc : (s.manager.containers.erase agent).lookup agent = some c := hc
    rw [hlookup, if_pos rfl] at hc
    cases hc
  · show next.names.Nodup
    rw [hnextNames]
    exact List.nodup_singleton agent
  · replace ha : a ∈ next.names := ha
    rw [hnextNames] at ha
    exact List.mem_singleton.mp ha
  · cases hcall'
    exact hnext

theorem Inv.unbind (h : Inv s) {agent : AgentId} {next : Call} (hcall : s.calls i = some call)
    (hnames : call.names = [agent]) (hknown : agent ∈ s.known)
    (hnone : s.manager.containers.lookup agent = none) (hheld : next.held = call.held)
    (hnextNames : next.names = [])
    (hnext : (s.setAgentSandboxes (s.manager.agentSandboxes.erase agent)).CallOk next) :
    Inv ((s.setAgentSandboxes (s.manager.agentSandboxes.erase agent)).setCall i (some next)) := by
  have hmem : agent ∈ namedBy (s.calls i) := by
    rw [hcall]
    show agent ∈ call.names
    rw [hnames]
    exact List.mem_cons_self
  refine h.change agent (h.toOwned.congr (fun o => ?_) rfl rfl rfl) rfl rfl rfl rfl
    (fun a => mem_iff_of_mem (h.known hknown) a)
    (Finset.Subset.refl _) (fun j hj hmem' => hj (h.names.apart j i agent hmem' hmem))
    (fun a ha => ⟨rfl, ?_, id⟩) (fun _ hnone => hnone) (fun _ c hc => ?_) ?_ (fun a ha => ?_)
    fun call' hcall' => ?_
  · refine State.holdings_held ?_ (fun o => ?_) o
    · exact hheld.trans (Inv.heldBy_eq hcall).symm
    · cases o <;> rfl
  · exact (HashMap.lookup_erase_eq_ite s.manager.agentSandboxes agent a).trans (if_neg ha)
  · exact absurd (hnone.symm.trans hc) (fun heq => nomatch heq)
  · show next.names.Nodup
    rw [hnextNames]
    exact List.nodup_nil
  · replace ha : a ∈ next.names := ha
    rw [hnextNames] at ha
    cases ha
  · cases hcall'
    exact hnext

theorem State.pool_setSleeping (t : State) {name n : SandboxName} (pool : List SleepingContainer) :
    HashMap.bucket (t.manager.sleepingContainers.insert name pool) n =
      if n = name then pool else t.pool n :=
  HashMap.bucket_insert t.manager.sleepingContainers name n pool

theorem Owned.exchangePool (h : Owned s) {name : SandboxName} {pool : List SleepingContainer}
    (hperm : (heldBy next ++ pool.map SleepingContainer.containerId).Perm
      (s.holdings (.call i) ++ (s.pool name).map SleepingContainer.containerId)) :
    Owned ((s.setSleeping (s.manager.sleepingContainers.insert name pool)).setCall i next) := by
  refine h.exchange (o := .asleep name) (fun heq => nomatch heq) ?_ (fun o _ ho => ?_) rfl rfl rfl
  · show (heldBy next ++ (HashMap.bucket (s.manager.sleepingContainers.insert name pool) name).map
      SleepingContainer.containerId).Perm _
    rw [s.pool_setSleeping, if_pos rfl]
    exact hperm
  · cases o with
    | agent | call => rfl
    | asleep n =>
      show (HashMap.bucket (s.manager.sleepingContainers.insert name pool) n).map _ = _
      rw [s.pool_setSleeping, if_neg fun heq => ho (congrArg Owner.asleep heq)]
      rfl

theorem Inv.pop (h : Inv s) {name : SandboxName} {sc : SleepingContainer}
    {rest : List SleepingContainer} (hcall : s.calls i = some (.wakePop name))
    (hpool : s.pool name = sc :: rest) :
    Inv ((s.setSleeping (s.manager.sleepingContainers.insert name rest)).setCall i
      (some (.wakeInsert name sc.containerId))) := by
  refine h.repool hcall (h.toOwned.exchangePool ?_) (fun n sc' hsc' => ?_) (fun a ha => nomatch ha)
    List.nodup_nil fun call' hcall' => ?_
  · rw [Inv.heldBy_eq hcall, hpool]
    exact List.Perm.refl _
  · rw [s.pool_setSleeping] at hsc'
    split at hsc'
    · next hn =>
      rw [hn]
      refine h.belongs name sc' ?_
      rw [hpool]
      exact List.mem_cons_of_mem sc hsc'
    · exact h.belongs n sc' hsc'
  · cases hcall'
    refine h.belongs name sc ?_
    rw [hpool]
    exact List.mem_cons_self

theorem Inv.push (h : Inv s) {agent : AgentId} {name : SandboxName} {cid : ContainerId}
    {sid : SandboxId} (hcall : s.calls i = some (.sleepPush agent name cid sid)) :
    Inv ((s.setSleeping (s.manager.sleepingContainers.insert name
      (s.pool name ++ [⟨agent, cid, sid⟩]))).finish i) := by
  have hok : s.manager.sandboxes.lookup name = some sid ∧ s.live cid = some sid := h.calls i _ hcall
  refine h.repool hcall (h.toOwned.exchangePool ?_) (fun n sc' hsc' => ?_) (fun a ha => nomatch ha)
    List.nodup_nil fun call' hcall' => nomatch hcall'
  · rw [Inv.heldBy_eq hcall, List.map_append]
    show (s.pool name |>.map SleepingContainer.containerId).append [cid] |>.Perm _
    exact List.perm_append_comm
  · rw [s.pool_setSleeping] at hsc'
    split at hsc'
    · next hn =>
      rw [hn]
      rcases List.mem_append.mp hsc' with hold | hnew
      · exact h.belongs name sc' hold
      · rw [List.mem_singleton.mp hnew]
        exact ⟨sid, hok⟩
    · exact h.belongs n sc' hsc'

theorem State.drained_eq (t : State) :
    (t.manager.sleepingContainers.entries.flatMap Sigma.snd).map SleepingContainer.containerId =
      (t.manager.sleepingContainers.keys.map Owner.asleep).flatMap t.holdings := by
  rw [List.map_flatMap, List.flatMap_map]
  show _ = (t.manager.sleepingContainers.entries.map Sigma.fst).flatMap _
  rw [List.flatMap_map]
  refine List.flatMap_congr fun e he => ?_
  show e.2.map _ = (HashMap.bucket t.manager.sleepingContainers e.1).map _
  have hlookup : t.manager.sleepingContainers.lookup e.1 = some e.2 :=
    (AList.mem_lookup_iff).mpr he
  rw [HashMap.bucket, hlookup]
  rfl

theorem State.mem_drained {t : State} {cid : ContainerId} :
    cid ∈ (t.manager.sleepingContainers.keys.map Owner.asleep).flatMap t.holdings ↔
      ∃ name, cid ∈ t.holdings (.asleep name) := by
  constructor
  · intro h
    obtain ⟨o, ho, hcid⟩ := List.mem_flatMap.mp h
    obtain ⟨name, -, rfl⟩ := List.mem_map.mp ho
    exact ⟨name, hcid⟩
  · rintro ⟨name, hcid⟩
    refine List.mem_flatMap.mpr ⟨.asleep name, List.mem_map_of_mem ?_, hcid⟩
    show name ∈ t.manager.sleepingContainers
    by_contra hname
    have hpool : t.pool name = [] := by
      rw [State.pool, HashMap.bucket, AList.lookup_eq_none.mpr hname]
      rfl
    replace hcid : cid ∈ (t.pool name).map SleepingContainer.containerId := hcid
    rw [hpool] at hcid
    cases hcid

theorem Inv.drain (h : Inv s) (hcall : s.calls i = some .cleanupDrain) :
    Inv ((s.setSleeping ∅).setCall i (some (.cleanupDestroy
      ((s.manager.sleepingContainers.entries.flatMap Sigma.snd).map
        SleepingContainer.containerId)))) := by
  rw [s.drained_eq]
  have hself : s.holdings (.call i) = [] := Inv.heldBy_eq hcall
  have hnodup : (s.manager.sleepingContainers.keys.map Owner.asleep).Nodup :=
    List.Nodup.map (fun _ _ heq => Owner.asleep.inj heq) s.manager.sleepingContainers.keys_nodup
  refine h.repool hcall ?_ (fun n sc' hsc' => nomatch hsc') (fun a ha => nomatch ha)
    List.nodup_nil fun call' hcall' => ?_
  · constructor
    case exclusive =>
      refine h.exclusive.move (.call i)
        ((s.manager.sleepingContainers.keys.map Owner.asleep).flatMap s.holdings) ?_
        (fun cid hcid => .inr ?_) fun o ho => ?_
      · rw [State.holdings_self]
        exact h.exclusive.gather hnodup
      · rw [State.holdings_self] at hcid
        exact hcid
      · rw [State.mem_holdings_ne ho]
        cases o with
        | agent a =>
          refine ⟨List.Sublist.refl _, fun cid hcid hmem => ?_⟩
          obtain ⟨name, hname⟩ := State.mem_drained.mp hcid
          cases h.exclusive.apart (.asleep name) (.agent a) cid hname hmem
        | asleep n => exact ⟨List.nil_sublist _, fun cid _ hmem => nomatch hmem⟩
        | call j =>
          refine ⟨List.Sublist.refl _, fun cid hcid hmem => ?_⟩
          obtain ⟨name, hname⟩ := State.mem_drained.mp hcid
          cases h.exclusive.apart (.asleep name) (.call j) cid hname hmem
    case covered =>
      intro cid hcid
      refine (h.covered cid hcid).imp id ?_
      rintro ⟨o, ho⟩
      cases o with
      | agent a => exact ⟨.agent a, ho⟩
      | asleep name =>
        refine ⟨.call i, ?_⟩
        rw [State.holdings_self]
        exact State.mem_drained.mpr ⟨name, ho⟩
      | call j =>
        have hj : Owner.call j ≠ .call i := by
          intro heq
          rw [heq, hself] at ho
          cases ho
        refine ⟨.call j, ?_⟩
        rw [State.mem_holdings_ne hj]
        exact ho
    case alive => exact h.alive
    case taken =>
      intro o cid hcid
      by_cases ho : o = .call i
      · rw [ho, State.holdings_self] at hcid
        obtain ⟨name, hname⟩ := State.mem_drained.mp hcid
        exact h.taken _ cid hname
      · rw [State.mem_holdings_ne ho] at hcid
        cases o with
        | agent a => exact h.taken (.agent a) cid hcid
        | asleep => cases hcid
        | call j => exact h.taken (.call j) cid hcid
  · cases hcall'
    trivial

theorem State.requestDestroy_live (t : State) (cid : ContainerId) (destroyed : Bool)
    (c : ContainerId) : (t.requestDestroy cid destroyed).live c =
      if destroyed = true ∧ c = cid then none else t.live c := by
  cases destroyed with
  | false => exact (if_neg fun h => nomatch h.1).symm
  | true =>
    show Function.update t.live cid none c = _
    by_cases hc : c = cid
    · rw [if_pos (And.intro rfl hc), hc]
      exact Function.update_self ..
    · rw [if_neg fun h : true = true ∧ c = cid => hc h.2]
      exact Function.update_of_ne hc ..

theorem State.requestDestroy_manager (t : State) (cid : ContainerId) (destroyed : Bool) :
    (t.requestDestroy cid destroyed).manager = t.manager := by
  cases destroyed <;> rfl

theorem State.requestDestroy_calls (t : State) (cid : ContainerId) (destroyed : Bool) :
    (t.requestDestroy cid destroyed).calls = t.calls := by
  cases destroyed <;> rfl

theorem State.requestDestroy_holdings (t : State) (cid : ContainerId) (destroyed : Bool) :
    (t.requestDestroy cid destroyed).holdings = t.holdings := by
  cases destroyed <;> rfl

theorem Owned.destroys (h : Owned s) {cid : ContainerId} {todo : List ContainerId}
    (destroyed : Bool) (hself : s.holdings (.call i) = cid :: todo) (hnext : heldBy next = todo) :
    Owned ((s.requestDestroy cid destroyed).setCall i next) := by
  have hsub : ∀ o, (((s.requestDestroy cid destroyed).setCall i next).holdings o).Sublist
      (s.holdings o) := by
    intro o
    by_cases ho : o = .call i
    · rw [ho, State.holdings_self, hnext, hself]
      exact List.sublist_cons_self cid todo
    · rw [State.mem_holdings_ne ho, s.requestDestroy_holdings]
  have hissued : (s.requestDestroy cid destroyed).issued = s.issued := by
    cases destroyed <;> rfl
  constructor
  case exclusive => exact h.exclusive.shrink hsub
  case covered =>
    intro c hc
    replace hc : ((s.requestDestroy cid destroyed).live c).isSome = true := hc
    show c ∈ (s.requestDestroy cid destroyed).abandoned ∨ _
    rw [s.requestDestroy_live] at hc
    split at hc
    · cases hc
    · next hnot =>
      rcases h.covered c hc with habandoned | ⟨o, ho⟩
      · left
        cases destroyed with
        | true => exact habandoned
        | false => exact Finset.mem_insert_of_mem habandoned
      · by_cases heq : c = cid
        · left
          cases destroyed with
          | true => exact absurd ⟨rfl, heq⟩ hnot
          | false => exact Finset.mem_insert.mpr (.inl heq)
        · refine .inr ⟨o, ?_⟩
          rw [State.holdings_setCall]
          split
          · next hi =>
            rw [hi, hself] at ho
            rw [hnext]
            exact (List.mem_cons.mp ho).resolve_left heq
          · rw [s.requestDestroy_holdings]
            exact ho
  case alive =>
    intro c hc
    replace hc : ((s.requestDestroy cid destroyed).live c).isSome = true := hc
    show c ∈ (s.requestDestroy cid destroyed).issued
    rw [hissued]
    rw [s.requestDestroy_live] at hc
    split at hc
    · cases hc
    · exact h.alive c hc
  case taken =>
    intro o c hc
    show c ∈ (s.requestDestroy cid destroyed).issued
    rw [hissued]
    exact h.taken o c ((hsub o).subset hc)

theorem Inv.destroys (h : Inv s) {cid : ContainerId} {todo : List ContainerId} (destroyed : Bool)
    (hcall : s.calls i = some call) (hheld : call.held = cid :: todo) (hnext : heldBy next = todo)
    (hnames : namedBy next = []) (hok : ∀ t : State, ∀ call', next = some call' → t.CallOk call') :
    Inv ((s.requestDestroy cid destroyed).setCall i next) := by
  have hself : s.holdings (.call i) = cid :: todo := (Inv.heldBy_eq hcall).trans hheld
  have hlive : ∀ o, o ≠ .call i → ∀ c ∈ s.holdings o,
      (s.requestDestroy cid destroyed).live c = s.live c := by
    intro o ho c hc
    rw [s.requestDestroy_live, if_neg]
    rintro ⟨-, rfl⟩
    refine ho (h.exclusive.apart o (.call i) c hc ?_)
    rw [hself]
    exact List.mem_cons_self
  have hat : ∀ o, o ≠ .call i → ∀ name, ∀ c ∈ s.holdings o, s.At name c →
      (s.requestDestroy cid destroyed).At name c := by
    rintro o ho name c hc ⟨sid, hname, hsid⟩
    refine ⟨sid, ?_, (hlive o ho c hc).trans hsid⟩
    rw [s.requestDestroy_manager]
    exact hname
  have hcalls := s.requestDestroy_calls cid destroyed
  have hagents : (s.requestDestroy cid destroyed).agents = s.agents ∧
      (s.requestDestroy cid destroyed).known = s.known := by
    cases destroyed <;> exact ⟨rfl, rfl⟩
  constructor
  case toOwned => exact h.toOwned.destroys destroyed hself hnext
  case belongs =>
    intro name sc hsc
    replace hsc : sc ∈ (s.requestDestroy cid destroyed).pool name := hsc
    have hpool : sc ∈ s.pool name := by
      rw [State.pool, s.requestDestroy_manager] at hsc
      exact hsc
    exact hat (.asleep name) (fun heq => nomatch heq) name _ (List.mem_map_of_mem hpool)
      (h.belongs name sc hpool)
  case bound =>
    intro a ha c hc
    replace ha : a ∈ (s.requestDestroy cid destroyed).known := ha
    replace hc : (s.requestDestroy cid destroyed).manager.containers.lookup a = some c := hc
    rw [hagents.2] at ha
    rw [s.requestDestroy_manager] at hc
    obtain ⟨name, hname, hcat⟩ := h.bound a ha c hc
    refine ⟨name, ?_, hat (.agent a) (fun heq => nomatch heq) name c ?_ hcat⟩
    · show (s.requestDestroy cid destroyed).manager.agentSandboxes.lookup a = some name
      rw [s.requestDestroy_manager]
      exact hname
    · exact Option.mem_toList.mpr hc
  case known =>
    show (s.requestDestroy cid destroyed).known ⊆ (s.requestDestroy cid destroyed).agents
    rw [hagents.1, hagents.2]
    exact h.known
  case entered =>
    intro a c hc
    show a ∈ (s.requestDestroy cid destroyed).agents
    replace hc : (s.requestDestroy cid destroyed).manager.containers.lookup a = some c := hc
    rw [s.requestDestroy_manager] at hc
    rw [hagents.1]
    exact h.entered a c hc
  case calls =>
    have hmanager := s.requestDestroy_manager cid destroyed
    refine h.setCall_calls hcalls (congrArg _ hmanager) hlive (hagents.1 ▸ Finset.Subset.refl _)
      (hagents.2 ▸ Finset.Subset.refl _) (fun _ ha => nomatch ha : ∀ a, some a = none → _)
      (fun a _ => ⟨by rw [hmanager], by rw [hmanager], fun hk => hagents.2 ▸ hk⟩)
      (fun _ _ hnone => by rw [hmanager]; exact hnone)
      fun call' hcall' => State.callOk_setCall.mpr (hok _ call' hcall')
  case names =>
    refine h.setCall_names hcalls ?_ fun a ha => ?_
    · rw [hnames]
      exact List.nodup_nil
    · rw [hnames] at ha
      cases ha

theorem Inv.start (h : Inv s) {agents : Finset AgentId} {next : Call} (hfree : s.calls i = none)
    (hagents : s.agents ⊆ agents) (hheld : next.held = []) (hnames : next.names = [])
    (hnext : ({ s with agents } : State).CallOk next) :
    Inv (({ s with agents } : State).setCall i (some next)) where
  toOwned := by
    have hkept : next.held = heldBy (s.calls i) := by
      rw [hfree, hheld]
      rfl
    refine h.toOwned.congr (State.holdings_held hkept fun o => ?_) rfl rfl rfl
    cases o <;> rfl
  belongs := h.belongs
  bound := h.bound
  known := h.known.trans hagents
  entered a c hc := hagents (h.entered a c hc)
  calls := by
    refine h.setCall_calls rfl rfl (fun _ _ _ _ => rfl) hagents (Finset.Subset.refl _)
      (fun _ ha => nomatch ha : ∀ a, some a = none → _) (fun _ _ => ⟨rfl, rfl, id⟩)
      (fun _ _ hnone => hnone) fun call' hcall' => ?_
    cases hcall'
    exact State.callOk_setCall.mpr hnext
  names := by
    refine h.setCall_names rfl ?_ fun a ha => ?_
    · show next.names.Nodup
      rw [hnames]
      exact List.nodup_nil
    · replace ha : a ∈ next.names := ha
      rw [hnames] at ha
      cases ha

end Steps

/-! ### Every step keeps the invariant -/

theorem Inv.resume {s s' : State} {i : ℕ} {fate : Fate} {call : Call} (h : Inv s)
    (hcall : s.calls i = some call)
    (hok : ∀ agent name, call = .sleepRemove agent name →
      agent ∈ s.manager.containers → s.manager.agentSandboxes.lookup agent = some name)
    (hstep : s.resume i fate call = some s') : Inv s' := by
  have hcallOk := h.calls i call hcall
  have hfinish : call.held = [] → Inv (s.finish i) := fun hheld =>
    h.reframe hcall hheld.symm (fun _ ha => nomatch ha) List.nodup_nil fun _ heq => nomatch heq
  cases call with
  | createLookup name =>
    simp only [State.resume] at hstep
    cases hname : s.manager.sandboxes.lookup name with
    | none =>
      rw [hname] at hstep
      cases hstep
      exact hfinish rfl
    | some sid =>
      rw [hname] at hstep
      cases hstep
      refine h.reframe hcall rfl (fun _ ha => nomatch ha) List.nodup_nil fun call' hcall' => ?_
      cases hcall'
      exact hname
  | createRequest name sid =>
    simp only [State.resume] at hstep
    split at hstep
    · next hfate =>
      cases hanswered : fate.answered with
      | none =>
        simp only [hanswered] at hstep
        cases hstep
        exact h.creates none hcall hfate.1 (fun _ hmem => nomatch hmem)
          ⟨Finset.subset_union_left, fun cid hcid _ =>
            Finset.mem_union_right _ (List.mem_toFinset.mpr hcid)⟩
      | some cid =>
        simp only [hanswered] at hstep
        cases hstep
        refine h.creates (some cid) hcall hfate.1 (hanswered ▸ hfate.2)
          ⟨Finset.subset_union_left, fun c hc hne => Finset.mem_union_right _ ?_⟩
        refine Finset.mem_erase.mpr ⟨fun heq => hne (congrArg some heq.symm), ?_⟩
        exact List.mem_toFinset.mpr hc
    · cases hstep
  | createInsert name cid =>
    simp only [State.resume] at hstep
    split at hstep
    · cases hstep
    · next hagent =>
      cases hstep
      exact h.enter hcall rfl hcallOk hagent rfl rfl fun _ => Iff.rfl
  | createBind name agent =>
    cases hstep
    exact h.bind 4 hcall rfl rfl hcallOk
  | createGit agent left =>
    cases left with
    | zero =>
      cases hstep
      exact h.returns hcall
    | succ left =>
      simp only [State.resume] at hstep
      split at hstep
      · cases hstep
        refine h.reframe hcall rfl (fun _ ha => ha) (List.nodup_singleton agent) fun call' hcall' => ?_
        cases hcall'
        exact hcallOk
      · cases hstep
        exact hfinish rfl
  | wakePop name =>
    simp only [State.resume] at hstep
    split at hstep
    · cases hstep
      refine h.reframe hcall rfl (fun _ ha => nomatch ha) List.nodup_nil fun call' hcall' => ?_
      cases hcall'
      trivial
    · next sc rest hpool =>
      cases hstep
      exact h.pop hcall hpool
  | wakeInsert name cid =>
    simp only [State.resume] at hstep
    split at hstep
    · cases hstep
    · next hagent =>
      cases hstep
      exact h.enter hcall rfl hcallOk hagent rfl rfl fun _ => Iff.rfl
  | wakeBind name agent =>
    cases hstep
    have hbound := h.bind 0 hcall rfl rfl hcallOk
    have hreturned := hbound.returns (State.setCall_self _ i _)
    have heq : ((s.setAgentSandboxes (s.manager.agentSandboxes.insert agent name)).setCall i
        (some (.createGit agent 0))).returns i agent =
        (s.setAgentSandboxes (s.manager.agentSandboxes.insert agent name)).returns i agent := by
      unfold State.returns State.finish State.setCall
      rw [Function.update_idem]
    exact heq ▸ hreturned
  | sleepRemove agent name =>
    simp only [State.resume] at hstep
    split at hstep
    · cases hstep
      exact hfinish rfl
    · next cid hcid =>
      cases hstep
      have hknown := hcallOk.2.resolve_right (fun hnone => nomatch hnone.symm.trans hcid)
      have hbind := hok agent name rfl (AList.lookup_isSome.mp (hcid ▸ rfl))
      obtain ⟨name', hname', hat⟩ := h.bound agent hknown cid hcid
      refine h.remove hcall rfl hknown hcid rfl rfl ⟨hknown, AList.lookup_erase _ _, ?_⟩
      rw [Option.some.inj (hbind.symm.trans hname')]
      exact hat
  | sleepUnbind agent name cid =>
    cases hstep
    exact h.unbind hcall rfl hcallOk.1 hcallOk.2.1 rfl rfl hcallOk.2.2
  | sleepLookup agent name cid =>
    obtain ⟨sid, hname, hsid⟩ := hcallOk
    simp only [State.resume] at hstep
    rw [hname] at hstep
    cases hstep
    refine h.reframe hcall rfl (fun _ ha => nomatch ha) List.nodup_nil fun call' hcall' => ?_
    cases hcall'
    exact ⟨hname, hsid⟩
  | sleepPush agent name cid sid =>
    cases hstep
    exact h.push hcall
  | destroyRemove agent =>
    simp only [State.resume] at hstep
    split at hstep
    · cases hstep
      exact hfinish rfl
    · next cid hcid =>
      cases hstep
      have hknown := hcallOk.2.resolve_right (fun hnone => nomatch hnone.symm.trans hcid)
      exact h.remove hcall rfl hknown hcid rfl rfl
        ⟨hknown, AList.lookup_erase _ _, h.bound agent hknown cid hcid⟩
  | destroyUnbind agent cid =>
    obtain ⟨hknown, hnone, name, hname, hat⟩ := hcallOk
    simp only [State.resume] at hstep
    rw [hname] at hstep
    cases hstep
    exact h.unbind hcall rfl hknown hnone rfl rfl hat
  | destroyLookup name cid =>
    obtain ⟨sid, hname, hsid⟩ := hcallOk
    simp only [State.resume] at hstep
    rw [hname] at hstep
    cases hstep
    refine h.reframe hcall rfl (fun _ ha => nomatch ha) List.nodup_nil fun call' hcall' => ?_
    cases hcall'
    trivial
  | destroyRequest cid =>
    cases hstep
    exact h.destroys fate.destroyed hcall rfl rfl rfl fun _ _ heq => nomatch heq
  | cleanupDrain =>
    cases hstep
    exact h.drain hcall
  | cleanupDestroy todo =>
    cases todo with
    | nil =>
      cases hstep
      exact hfinish rfl
    | cons cid todo =>
      cases hstep
      refine h.destroys fate.destroyed hcall rfl rfl rfl fun _ call' heq => ?_
      cases heq
      trivial

theorem Inv.call {s s' : State} {i : ℕ} (h : Inv s) (next : Call) (hheld : next.held = [])
    (hnames : next.names = []) (hnext : s.CallOk next) (hstep : s.call i next = some s') :
    Inv s' := by
  unfold State.call at hstep
  split at hstep
  · next hfree =>
    cases hstep
    exact h.start hfree (Finset.Subset.refl _) hheld hnames hnext
  · cases hstep

theorem Inv.callFor {s s' : State} {i : ℕ} {agent : AgentId} {next : Call} (h : Inv s)
    (hheld : next.held = []) (hnames : next.names = [])
    (hnext : ∀ t : State, t.CallOk next ↔ agent ∈ t.agents ∧
      (agent ∈ t.known ∨ t.manager.containers.lookup agent = none))
    (hstep : s.callFor i agent next = some s') : Inv s' := by
  unfold State.callFor at hstep
  split at hstep
  · next hagent =>
    unfold State.call at hstep
    split at hstep
    · next hfree =>
      cases hstep
      refine h.start hfree (Finset.subset_insert agent s.agents) hheld hnames ((hnext _).mpr ?_)
      refine ⟨Finset.mem_insert_self _ _, hagent.imp id fun hnew => ?_⟩
      show s.manager.containers.lookup agent = none
      cases hcid : s.manager.containers.lookup agent with
      | none => rfl
      | some cid => exact absurd (h.entered agent cid hcid) hnew
    · cases hstep
  · cases hstep

theorem Inv.step {s s' : State} {action : Action} (h : Inv s) (hok : StepOk s action)
    (hstep : step s action = some s') : Inv s' := by
  cases action with
  | create i name => exact h.call (.createLookup name) rfl rfl trivial hstep
  | wakeOrCreate i name => exact h.call (.wakePop name) rfl rfl trivial hstep
  | sleep i agent name => exact h.callFor rfl rfl (fun _ => Iff.rfl) hstep
  | destroy i agent => exact h.callFor rfl rfl (fun _ => Iff.rfl) hstep
  | cleanup i => exact h.call .cleanupDrain rfl rfl trivial hstep
  | advance i fate =>
    obtain ⟨call, hcall, hresume⟩ := Option.bind_eq_some_iff.mp hstep
    refine h.resume hcall (fun agent name heq => ?_) hresume
    subst heq
    simp only [StepOk, hcall] at hok
    exact hok

theorem State.recordedAt_iff {s : State} {cid : ContainerId} {name : SandboxName} {position : ℕ} :
    s.recordedAt cid (.asleep name position) ↔
      (s.holdings (.asleep name))[position]? = some cid := by
  show ((s.pool name)[position]?).map SleepingContainer.containerId = some cid ↔
    ((s.pool name).map SleepingContainer.containerId)[position]? = some cid
  rw [List.getElem?_map]

theorem State.mem_holdings_of_recordedAt {s : State} {cid : ContainerId} {place : Place}
    (h : s.recordedAt cid place) :
    cid ∈ s.holdings (match place with
      | .agent agent => .agent agent
      | .asleep name _ => .asleep name) := by
  cases place with
  | agent agent => exact Option.mem_toList.mpr h
  | asleep name position => exact List.mem_of_getElem? (State.recordedAt_iff.mp h)

theorem Inv.recordedAt_unique {s : State} (h : Inv s) {cid : ContainerId} {p q : Place}
    (hp : s.recordedAt cid p) (hq : s.recordedAt cid q) : p = q := by
  have howner := h.exclusive.apart _ _ cid (State.mem_holdings_of_recordedAt hp)
    (State.mem_holdings_of_recordedAt hq)
  cases p with
  | agent a =>
    cases q with
    | agent b => exact congrArg Place.agent (Owner.agent.inj howner)
    | asleep => cases howner
  | asleep name position =>
    cases q with
    | agent => cases howner
    | asleep name' position' =>
      cases howner
      have hposition := State.recordedAt_iff.mp hp
      have hlt : position < (s.holdings (.asleep name)).length :=
        (List.getElem?_eq_some_iff.mp hposition).1
      rw [(List.getElem?_inj hlt (h.exclusive.once _)).mp
        (hposition.trans (State.recordedAt_iff.mp hq).symm)]

theorem Inv.conserved {s : State} (h : Inv s) : Conserved s where
  recorded := by
    intro cid hlive habandoned hcalls
    obtain ⟨o, ho⟩ := (h.covered cid hlive).resolve_left habandoned
    have hplace : ∃ place, s.recordedAt cid place := by
      cases o with
      | agent agent => exact ⟨.agent agent, Option.mem_toList.mp ho⟩
      | asleep name =>
        obtain ⟨position, hposition⟩ := List.mem_iff_getElem?.mp ho
        exact ⟨.asleep name position, State.recordedAt_iff.mpr hposition⟩
      | call i =>
        replace ho : cid ∈ heldBy (s.calls i) := ho
        cases hi : s.calls i with
        | none =>
          rw [hi] at ho
          cases ho
        | some call =>
          rw [hi] at ho
          exact absurd ho (hcalls i call hi)
    obtain ⟨place, hrecorded⟩ := hplace
    exact ⟨place, hrecorded, fun place' hplace' => h.recordedAt_unique hplace' hrecorded⟩
  once _ _ _ hp hq := h.recordedAt_unique hp hq
  belongs := h.belongs

/-- **Whatever requests fail, and however the calls are interleaved, no container is lost and none
has two agents**, as long as every agent is put to sleep in its own sandbox. -/
theorem conserved_of_run {sandboxes : HashMap SandboxName SandboxId} {s : State}
    {past : List (State × Action)} (hrun : Execution step (.start sandboxes) past s)
    (hok : ∀ e ∈ past, StepOk e.1 e.2) : Conserved s :=
  (hrun.invariant_of (inv_start sandboxes) (fun _ _ _ h hstepOk hstep => h.step hstepOk hstep)
    hok).conserved

/-- What the outside decides where nothing fails and nothing is destroyed. -/
def Fate.fine : Fate := ⟨["c1"], some "c1", "first", true, false⟩

/-- An agent is created in the sandbox `app`. -/
def creation : List Action :=
  .create 0 "app" :: List.replicate 9 (.advance 0 .fine)

def app : HashMap SandboxName SandboxId := (∅ : HashMap SandboxName SandboxId).insert "app" "1"

def ran (as : List Action) : List (State × Action) × State :=
  (Execution.runActions step as [] (.start app)).getD ([], .start app)

theorem execution_ran (as : List Action) (h : (Execution.runActions step as [] (.start app)).isSome = true) :
    Execution step (.start app) (ran as).1 (ran as).2 := by
  obtain ⟨r, hr⟩ := Option.isSome_iff_exists.mp h
  refine Execution.start.ofRun (hr.trans ?_)
  rw [ran, hr]
  rfl

/-- An agent is created and put to sleep, and its container is woken for another one. -/
def reuse : List Action :=
  creation ++ .sleep 1 "first" "app" :: List.replicate 4 (.advance 1 .fine) ++
    [.wakeOrCreate 2 "app", .advance 2 .fine, .advance 2 ⟨[], none, "second", true, false⟩,
      .advance 2 .fine]

theorem conserved_of_reuse :
    Conserved (ran reuse).2 ∧ (ran reuse).2.recordedAt "c1" (.agent "second") :=
  ⟨conserved_of_run (execution_ran reuse (by decide)) (by decide),
    show (ran reuse).2.manager.containers.lookup "second" = some "c1" by decide⟩

/-- The request to destroy the container of an agent fails. -/
def undestroyed : List Action :=
  creation ++ .destroy 1 "first" :: List.replicate 4 (.advance 1 .fine)

/-- An agent is put to sleep in a sandbox that does not exist. -/
def misplaced : List Action :=
  creation ++ .sleep 1 "first" "ap" :: List.replicate 3 (.advance 1 .fine)

def Action.caller : Action → ℕ
  | .create i _ | .wakeOrCreate i _ | .sleep i _ _ | .destroy i _ | .cleanup i | .advance i _ => i

theorem calls_of_step {s s' : State} {action : Action} (h : step s action = some s') :
    ∃ next, s'.calls = Function.update s.calls action.caller next := by
  have hstart : ∀ (t : State) {i call}, t.calls = s.calls → t.call i call = some s' →
      ∃ next, s'.calls = Function.update s.calls i next := by
    intro t i call hcalls ht
    unfold State.call at ht
    split at ht
    · cases ht
      refine ⟨some call, ?_⟩
      show Function.update t.calls i (some call) = _
      rw [hcalls]
    · cases ht
  have hfor : ∀ {i agent call}, s.callFor i agent call = some s' →
      ∃ next, s'.calls = Function.update s.calls i next := by
    intro i agent call ht
    unfold State.callFor at ht
    split at ht
    · exact hstart { s with agents := insert agent s.agents } rfl ht
    · cases ht
  cases action with
  | create | wakeOrCreate | cleanup => exact hstart s rfl h
  | sleep | destroy => exact hfor h
  | advance i fate =>
    obtain ⟨call, -, h⟩ := Option.bind_eq_some_iff.mp h
    cases call
    case destroyRequest cid =>
      cases h
      refine ⟨none, ?_⟩
      show Function.update (s.requestDestroy cid fate.destroyed).calls i none = _
      rw [s.requestDestroy_calls]
      rfl
    case cleanupDestroy todo =>
      cases todo with
      | nil =>
        cases h
        exact ⟨none, rfl⟩
      | cons cid todo =>
        cases h
        refine ⟨some (.cleanupDestroy todo), ?_⟩
        show Function.update (s.requestDestroy cid fate.destroyed).calls i _ = _
        rw [s.requestDestroy_calls]
        rfl
    case createGit agent left =>
      cases left with
      | zero =>
        cases h
        exact ⟨none, rfl⟩
      | succ left =>
        simp only [State.resume] at h
        split at h <;> cases h <;> exact ⟨_, rfl⟩
    case createRequest =>
      simp only [State.resume] at h
      split at h
      · split at h <;> cases h <;> exact ⟨_, rfl⟩
      · cases h
    case createBind | wakeBind | sleepUnbind | sleepPush | cleanupDrain =>
      cases h
      exact ⟨_, rfl⟩
    all_goals
      simp only [State.resume] at h
      split at h <;> cases h <;> exact ⟨_, rfl⟩

theorem idle_of_run {s : State} {past : List (State × Action)}
    (hrun : Execution step (.start app) past s) (hcallers : ∀ e ∈ past, e.2.caller < 2)
    (h₀ : s.calls 0 = none) (h₁ : s.calls 1 = none) (i : ℕ) : s.calls i = none := by
  have hstep : ∀ (c : State) action c', (∀ j, 2 ≤ j → c.calls j = none) →
      (fun _ action => Action.caller action < 2 : State → Action → Prop) c action →
      step c action = some c' → ∀ j, 2 ≤ j → c'.calls j = none := by
    intro c action c' hc hcaller hstep j hj
    obtain ⟨next, hnext⟩ := calls_of_step hstep
    replace hcaller : action.caller < 2 := hcaller
    have hne : j ≠ action.caller := by omega
    rw [hnext, Function.update_of_ne hne]
    exact hc j hj
  have hidle := hrun.invariant_of (fun _ _ => rfl) hstep hcallers
  match i with
  | 0 => exact h₀
  | 1 => exact h₁
  | i + 2 => exact hidle (i + 2) (by omega)

/-- After either run all calls have returned, and the container is recorded nowhere. -/
theorem not_conserved :
    (Execution step (.start app) (ran undestroyed).1 (ran undestroyed).2 ∧
      (∀ i, (ran undestroyed).2.calls i = none) ∧ (ran undestroyed).2.live "c1" = some "1" ∧
      ∀ place, ¬ (ran undestroyed).2.recordedAt "c1" place) ∧
    (Execution step (.start app) (ran misplaced).1 (ran misplaced).2 ∧
      (∀ i, (ran misplaced).2.calls i = none) ∧ (ran misplaced).2.live "c1" = some "1" ∧
      ∀ place, ¬ (ran misplaced).2.recordedAt "c1" place) := by
  have hempty : ∀ s : State, s.manager.containers.entries = [] →
      s.manager.sleepingContainers.entries = [] → ∀ place, ¬ s.recordedAt "c1" place := by
    intro s hcontainers hsleeping place hplace
    cases place with
    | agent agent =>
      replace hplace : s.manager.containers.entries.dlookup agent = some "c1" := hplace
      rw [hcontainers] at hplace
      cases hplace
    | asleep name position =>
      have hpool : s.pool name = [] := by
        show (s.manager.sleepingContainers.entries.dlookup name).getD [] = []
        rw [hsleeping]
        rfl
      replace hplace : ((s.pool name)[position]?).map SleepingContainer.containerId = some "c1" :=
        hplace
      rw [hpool] at hplace
      cases hplace
  constructor
  · have hrun := execution_ran undestroyed (by decide)
    exact ⟨hrun, idle_of_run hrun (by decide) (by decide) (by decide),
      by decide, hempty _ (by decide) (by decide)⟩
  · have hrun := execution_ran misplaced (by decide)
    exact ⟨hrun, idle_of_run hrun (by decide) (by decide) (by decide),
      by decide, hempty _ (by decide) (by decide)⟩

end Calls

end Mowis.Topology
