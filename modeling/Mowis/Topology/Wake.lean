import Mowis.Topology.Capture
import Mowis.Topology.Manager

/-!
# Containers that are woken

What an agent finds in a container from the pool, over all runs of the manager.
-/

namespace Mowis.Topology

open Mowis.Lib Mowis.Review
open Mowis.Scheduling (SandboxName)

/-! ### Owners -/

/-- No container has two owners. -/
structure Owned (c : World) : Prop where
  awake : ∀ a cid, c.manager.containers.lookup a = some cid → cid ∈ c.issued
  asleep : ∀ name, ∀ sc ∈ c.pool name, sc.containerId ∈ c.issued
  single : ∀ a b cid, c.manager.containers.lookup a = some cid →
    c.manager.containers.lookup b = some cid → a = b
  apart : ∀ a name, ∀ sc ∈ c.pool name, c.manager.containers.lookup a ≠ some sc.containerId
  once : ∀ name, ((c.pool name).map SleepingContainer.containerId).Nodup
  disjoint : ∀ name name', ∀ sc ∈ c.pool name, ∀ sc' ∈ c.pool name',
    sc.containerId = sc'.containerId → name = name'

namespace Owned

variable {c : World}

theorem start : Owned World.start where
  awake _ _ h := nomatch h
  asleep _ _ h := nomatch h
  single _ _ _ h := nomatch h
  apart _ _ _ h := nomatch h
  once _ := List.nodup_nil
  disjoint _ _ _ h := nomatch h

theorem congr (h : Owned c) {c' : World} (hagents : c'.manager.containers = c.manager.containers)
    (hpool : ∀ name, c'.pool name = c.pool name) (hissued : c'.issued = c.issued) : Owned c' where
  awake a cid := by
    rw [hagents, hissued]
    exact h.awake a cid
  asleep name := by
    rw [hpool, hissued]
    exact h.asleep name
  single a b cid := by
    rw [hagents]
    exact h.single a b cid
  apart a name := by
    rw [hagents, hpool]
    exact h.apart a name
  once name := by
    rw [hpool]
    exact h.once name
  disjoint name name' := by
    rw [hpool, hpool]
    exact h.disjoint name name'

theorem unbind (h : Owned c) (agent : AgentId) : Owned (c.unbind agent) := by
  have hlookup : ∀ a cid, (c.unbind agent).manager.containers.lookup a = some cid →
      c.manager.containers.lookup a = some cid := by
    intro a cid ha
    have he := HashMap.lookup_erase_eq_ite c.manager.containers agent a
    rw [show (c.unbind agent).manager.containers = c.manager.containers.erase agent from rfl, he]
      at ha
    split at ha
    · cases ha
    · exact ha
  exact {
    awake := fun a cid ha => h.awake a cid (hlookup a cid ha)
    asleep := h.asleep
    single := fun a b cid ha hb => h.single a b cid (hlookup a cid ha) (hlookup b cid hb)
    apart := fun a name sc hsc ha => h.apart a name sc hsc (hlookup a _ ha)
    once := h.once
    disjoint := h.disjoint }

theorem bind (h : Owned c) {cid : ContainerId} (hissued : cid ∈ c.issued)
    (hagents : ∀ a, c.manager.containers.lookup a ≠ some cid)
    (hpool : ∀ name, ∀ sc ∈ c.pool name, sc.containerId ≠ cid) (agent : AgentId)
    (name : SandboxName) : Owned (c.bind agent cid name) := by
  have hlookup : ∀ a, (c.bind agent cid name).manager.containers.lookup a =
      if a = agent then some cid else c.manager.containers.lookup a :=
    fun a => HashMap.lookup_insert_eq_ite c.manager.containers agent a cid
  constructor
  case awake =>
    intro a k ha
    rw [hlookup] at ha
    split at ha
    · obtain rfl := Option.some.inj ha
      exact hissued
    · exact h.awake a k ha
  case asleep => exact h.asleep
  case single =>
    intro a b k ha hb
    rw [hlookup] at ha hb
    split at ha
    · next haa =>
      obtain rfl := Option.some.inj ha
      split at hb
      · next hba => rw [haa, hba]
      · exact absurd hb (hagents b)
    · split at hb
      · obtain rfl := Option.some.inj hb
        exact absurd ha (hagents a)
      · exact h.single a b k ha hb
  case apart =>
    intro a name' sc hsc ha
    rw [hlookup] at ha
    split at ha
    · exact hpool name' sc hsc (Option.some.inj ha).symm
    · exact h.apart a name' sc hsc ha
  case once => exact h.once
  case disjoint => exact h.disjoint

theorem pop (h : Owned c) {name : SandboxName} {sc : SleepingContainer}
    {rest : List SleepingContainer} (hpool : c.pool name = sc :: rest) :
    Owned (c.setPool name rest) ∧
      ∀ n, ∀ sc' ∈ (c.setPool name rest).pool n, sc'.containerId ≠ sc.containerId := by
  have hsub : ∀ n, ∀ sc' ∈ (c.setPool name rest).pool n, sc' ∈ c.pool n := by
    intro n sc' hsc'
    rw [World.pool_setPool] at hsc'
    split at hsc'
    · next hn =>
      rw [hn, hpool]
      exact List.mem_cons_of_mem sc hsc'
    · exact hsc'
  have honce : (sc.containerId :: rest.map SleepingContainer.containerId).Nodup := by
    have hname := h.once name
    rwa [hpool, List.map_cons] at hname
  constructor
  · exact {
      awake := h.awake
      asleep := fun n sc' hsc' => h.asleep n sc' (hsub n sc' hsc')
      single := h.single
      apart := fun a n sc' hsc' => h.apart a n sc' (hsub n sc' hsc')
      once := fun n => by
        rw [World.pool_setPool]
        split
        · exact honce.of_cons
        · exact h.once n
      disjoint := fun n n' x hx y hy => h.disjoint n n' x (hsub n x hx) y (hsub n' y hy) }
  · intro n sc' hsc' heq
    have hmem : sc ∈ c.pool name := by
      rw [hpool]
      exact List.mem_cons_self
    obtain rfl := h.disjoint n name sc' (hsub n sc' hsc') sc hmem heq
    rw [World.pool_setPool, if_pos rfl] at hsc'
    exact (List.nodup_cons.mp honce).1 (heq ▸ List.mem_map_of_mem hsc')

theorem push (h : Owned c) (name : SandboxName) {sc : SleepingContainer}
    (hsc : sc.containerId ∈ c.issued)
    (hagent : ∀ a, c.manager.containers.lookup a ≠ some sc.containerId)
    (hasleep : ∀ n, ∀ sc' ∈ c.pool n, sc'.containerId ≠ sc.containerId) :
    Owned (c.setPool name (c.pool name ++ [sc])) := by
  have hmem : ∀ n sc', sc' ∈ (c.setPool name (c.pool name ++ [sc])).pool n →
      sc' ∈ c.pool n ∨ sc' = sc ∧ n = name := by
    intro n sc' hsc'
    rw [World.pool_setPool] at hsc'
    split at hsc'
    · next hn =>
      rcases List.mem_append.mp hsc' with hold | hnew
      · exact .inl (hn ▸ hold)
      · exact .inr ⟨List.mem_singleton.mp hnew, hn⟩
    · exact .inl hsc'
  constructor
  case awake => exact h.awake
  case single => exact h.single
  case asleep =>
    intro n sc' hsc'
    rcases hmem n sc' hsc' with hold | ⟨rfl, -⟩
    · exact h.asleep n sc' hold
    · exact hsc
  case apart =>
    intro a n sc' hsc'
    rcases hmem n sc' hsc' with hold | ⟨rfl, -⟩
    · exact h.apart a n sc' hold
    · exact hagent a
  case once =>
    intro n
    rw [World.pool_setPool]
    split
    · rw [List.map_append]
      refine List.nodup_append.mpr ⟨h.once name, List.nodup_singleton _, ?_⟩
      intro x hx y hy
      obtain ⟨sc', hsc', rfl⟩ := List.mem_map.mp hx
      rw [List.mem_singleton.mp hy]
      exact hasleep name sc' hsc'
    · exact h.once n
  case disjoint =>
    intro n n' x hx y hy heq
    rcases hmem n x hx with hold | ⟨rfl, hn⟩
    · rcases hmem n' y hy with hold' | ⟨rfl, -⟩
      · exact h.disjoint n n' x hold y hold' heq
      · exact absurd heq (hasleep n x hold)
    · rcases hmem n' y hy with hold' | ⟨rfl, hn'⟩
      · exact absurd heq.symm (hasleep n' y hold')
      · rw [hn, hn']

theorem wakeOrCreate {git : Git} {fate : CreateFate} {name : SandboxName} {agent : AgentId}
    {cid : ContainerId} (h : Owned c) (hcid : cid ∉ c.issued) {c' : World}
    (hs : c.wakeOrCreate git fate name agent cid = some c') : Owned c' := by
  unfold World.wakeOrCreate at hs
  split at hs
  · next sc rest hpool =>
    obtain rfl := Option.some.inj hs
    have hmem : sc ∈ c.pool name := by
      rw [hpool]
      exact List.mem_cons_self
    obtain ⟨hrest, hfree⟩ := h.pop hpool
    exact hrest.bind (h.asleep name sc hmem) (fun a => h.apart a name sc hmem) hfree agent name
  · split at hs
    · cases hs
    · next sid hsid =>
      obtain ⟨layer, -, rfl⟩ := Option.map_eq_some_iff.mp hs
      have hissued : Owned ({ c with
          containers := c.containers.insert cid
            ⟨sid, createAgentLayer git fate layer.freshWorkspace⟩
          issued := insert cid c.issued } : World) :=
        { h with
          awake := fun a k ha => Finset.mem_insert_of_mem (h.awake a k ha)
          asleep := fun n sc hsc => Finset.mem_insert_of_mem (h.asleep n sc hsc) }
      refine hissued.bind (Finset.mem_insert_self cid c.issued) (fun a ha => ?_)
        (fun n sc hsc heq => ?_) agent name
      · exact hcid (h.awake a cid ha)
      · exact hcid (heq ▸ h.asleep n sc hsc)

theorem sleepAgentLayer (git : Git) (fate : SleepFate) (h : Owned c) (agent : AgentId)
    (name : SandboxName) : Owned (c.sleepAgentLayer git fate agent name) := by
  unfold World.sleepAgentLayer
  split
  · exact h
  · next cid hcid =>
    split
    · exact h.unbind agent
    · next sid hsid =>
      have hmanager : ((c.unbind agent).inContainer cid (putToSleep git fate)).manager =
          (c.unbind agent).manager := World.inContainer_manager _ _ _
      have hrun : Owned ((c.unbind agent).inContainer cid (putToSleep git fate)) :=
        (h.unbind agent).congr (by rw [hmanager]) (fun n => by rw [World.pool, hmanager]; rfl)
          (World.inContainer_issued _ _ _)
      have hpool : ∀ n, ((c.unbind agent).inContainer cid (putToSleep git fate)).pool n =
          c.pool n := fun n => by
        rw [World.pool, hmanager]
        rfl
      -- no other agent had the container, and no pool
      have hagent : ∀ a, ((c.unbind agent).inContainer cid
          (putToSleep git fate)).manager.containers.lookup a ≠ some cid := by
        intro a ha
        rw [hmanager] at ha
        replace ha : (c.manager.containers.erase agent).lookup a = some cid := ha
        rw [HashMap.lookup_erase_eq_ite] at ha
        split at ha
        · cases ha
        · next hne => exact hne (h.single a agent cid ha hcid)
      have hasleep : ∀ n, ∀ sc ∈ ((c.unbind agent).inContainer cid (putToSleep git fate)).pool n,
          sc.containerId ≠ cid := by
        intro n sc hsc heq
        rw [hpool] at hsc
        exact h.apart agent n sc hsc (heq ▸ hcid)
      have hissued : cid ∈ ((c.unbind agent).inContainer cid (putToSleep git fate)).issued := by
        rw [World.inContainer_issued]
        exact h.awake agent cid hcid
      exact hrun.push name hissued hagent hasleep

theorem destroyAgentLayer (h : Owned c) (agent : AgentId) (cid : ContainerId) :
    Owned (c.destroyAgentLayer agent cid) := by
  rw [World.destroyAgentLayer]
  split
  · exact h.unbind agent
  · exact (h.unbind agent).congr rfl (fun _ => rfl) rfl

theorem cleanupSleeping (h : Owned c) : Owned c.cleanupSleeping where
  awake := h.awake
  asleep _ _ hsc := nomatch hsc
  single := h.single
  apart _ _ _ hsc := nomatch hsc
  once _ := List.nodup_nil
  disjoint _ _ _ hsc := nomatch hsc

theorem step {git : Git} (h : Owned c) {a : Action} {c' : World} (hs : step git c a = some c') :
    Owned c' := by
  cases a with
  | createSandbox name sid layer =>
    obtain rfl := Option.some.inj hs
    exact h.congr rfl (fun _ => rfl) rfl
  | destroySandbox name =>
    obtain ⟨sid, -, rfl⟩ := Option.map_eq_some_iff.mp hs
    exact h.congr rfl (fun _ => rfl) rfl
  | wakeOrCreate name agent cid fate =>
    rw [Topology.step] at hs
    split at hs
    · cases hs
    · next hnew => exact h.wakeOrCreate (fun hcid => hnew (.inr hcid)) hs
  | tool agent effect =>
    obtain ⟨cid, -, rfl⟩ := Option.map_eq_some_iff.mp hs
    refine h.congr ?_ (fun n => ?_) (World.inContainer_issued _ _ _)
    · rw [World.inContainer_manager]
    · rw [World.pool, World.inContainer_manager]
      rfl
  | sleep agent name fate =>
    obtain rfl := Option.some.inj hs
    exact h.sleepAgentLayer git fate agent name
  | destroyAgent agent =>
    obtain ⟨cid, -, rfl⟩ := Option.map_eq_some_iff.mp hs
    exact h.destroyAgentLayer agent cid
  | applyDiff name diff fate =>
    rw [Topology.step] at hs
    split at hs
    · cases hs
    · split at hs
      · cases hs
      · split at hs
        · obtain rfl := Option.some.inj hs
          exact h.congr rfl (fun _ => rfl) rfl
        · obtain rfl := Option.some.inj hs
          exact h
  | cleanup =>
    obtain rfl := Option.some.inj hs
    exact h.cleanupSleeping

end Owned

/-- The workspace a container had when it was put to sleep the last time, and how the clean-up
went. -/
def lastSlept : List (World × Action) → ContainerId → Option (Workspace × SleepFate)
  | [], _ => none
  | (c, .sleep agent _ fate) :: past, cid =>
    if c.manager.containers.lookup agent = some cid then
      (c.containers.lookup cid).map fun k => (k.workspace, fate)
    else lastSlept past cid
  | _ :: past, cid => lastSlept past cid

/-- The containers in the pools are as they were put to sleep. -/
def Slept (git : Git) (past : List (World × Action)) (c : World) : Prop :=
  ∀ name, ∀ sc ∈ c.pool name, ∀ k, c.containers.lookup sc.containerId = some k →
    ∃ w fate, lastSlept past sc.containerId = some (w, fate) ∧ k.workspace = putToSleep git fate w

theorem Slept.frame {git : Git} {past : List (World × Action)} {c c' : World}
    (h : Slept git past c) {a : Action} (ha : ∀ agent name fate, a ≠ .sleep agent name fate)
    (hpool : ∀ n, ∀ sc ∈ c'.pool n, sc ∈ c.pool n)
    (hsame : ∀ n, ∀ sc ∈ c.pool n, ∀ k, c'.containers.lookup sc.containerId = some k →
      c.containers.lookup sc.containerId = some k) : Slept git ((c, a) :: past) c' := by
  intro n sc hsc k hk
  have hlast : lastSlept ((c, a) :: past) sc.containerId = lastSlept past sc.containerId := by
    cases a with
    | sleep agent name fate => exact absurd rfl (ha agent name fate)
    | _ => rfl
  rw [hlast]
  exact h n sc (hpool n sc hsc) k (hsame n sc (hpool n sc hsc) k hk)

theorem Slept.wakeOrCreate {git : Git} {past : List (World × Action)} {c c' : World}
    (h : Slept git past c) (howned : Owned c) {name : SandboxName} {agent : AgentId}
    {cid : ContainerId} {fate : CreateFate} (hcid : cid ∉ c.issued)
    (hs : c.wakeOrCreate git fate name agent cid = some c') :
    Slept git ((c, .wakeOrCreate name agent cid fate) :: past) c' := by
  unfold World.wakeOrCreate at hs
  split at hs
  · next sc rest hpool =>
    obtain rfl := Option.some.inj hs
    refine h.frame nofun (fun n sc' hsc' => ?_) fun _ _ _ _ hk => hk
    replace hsc' : sc' ∈ (c.setPool name rest).pool n := hsc'
    rw [World.pool_setPool] at hsc'
    split at hsc'
    · next hn =>
      rw [hn, hpool]
      exact List.mem_cons_of_mem sc hsc'
    · exact hsc'
  · split at hs
    · cases hs
    · next sid hsid =>
      obtain ⟨layer, -, rfl⟩ := Option.map_eq_some_iff.mp hs
      refine h.frame nofun (fun n sc hsc => hsc) fun n sc hsc k hk => ?_
      -- the new container is none of theirs
      have hne : sc.containerId ≠ cid := fun heq => hcid (heq ▸ howned.asleep n sc hsc)
      replace hk : (c.containers.insert cid
        ⟨sid, createAgentLayer git fate layer.freshWorkspace⟩).lookup sc.containerId = some k := hk
      rwa [AList.lookup_insert_ne hne] at hk

theorem Slept.sleepAgentLayer {git : Git} {past : List (World × Action)} {c : World}
    (h : Slept git past c) (howned : Owned c) (fate : SleepFate) (agent : AgentId)
    (name : SandboxName) :
    Slept git ((c, .sleep agent name fate) :: past) (c.sleepAgentLayer git fate agent name) := by
  -- who else is asleep is not the container of this agent
  have hother : ∀ n, ∀ sc ∈ c.pool n,
      lastSlept ((c, .sleep agent name fate) :: past) sc.containerId =
        lastSlept past sc.containerId := by
    intro n sc hsc
    exact if_neg (howned.apart agent n sc hsc)
  intro n sc hsc k hk
  unfold World.sleepAgentLayer at hsc hk
  split at hsc
  · next hnone =>
    rw [hnone] at hk
    rw [hother n sc hsc]
    exact h n sc hsc k hk
  · next cid hcid =>
    rw [hcid] at hk
    split at hsc
    · next hsid =>
      rw [hsid] at hk
      rw [hother n sc hsc]
      exact h n sc hsc k hk
    · next sid hsid =>
      rw [hsid] at hk
      replace hk : ((c.unbind agent).inContainer cid (putToSleep git fate)).containers.lookup
        sc.containerId = some k := hk
      have hpool : ∀ m, ((c.unbind agent).inContainer cid (putToSleep git fate)).pool m =
          c.pool m := fun m => by
        rw [World.pool, World.inContainer_manager]
        rfl
      have hmem : sc ∈ c.pool n ∨ sc = ⟨agent, cid, sid⟩ := by
        simp only [World.pool_setPool, hpool] at hsc
        split at hsc
        · next hn =>
          rcases List.mem_append.mp hsc with hold | hnew
          · exact .inl (hn ▸ hold)
          · exact .inr (List.mem_singleton.mp hnew)
        · exact .inl hsc
      rcases hmem with hold | rfl
      · have hne : sc.containerId ≠ cid := fun heq =>
          howned.apart agent n sc hold (heq ▸ hcid)
        rw [World.lookup_inContainer_ne _ hne] at hk
        rw [hother n sc hold]
        exact h n sc hold k hk
      · obtain ⟨k₀, hk₀, hw⟩ := World.lookup_inContainer_self _ hk
        replace hk₀ : c.containers.lookup cid = some k₀ := hk₀
        refine ⟨k₀.workspace, fate, ?_, hw⟩
        show (if c.manager.containers.lookup agent = some cid then
          (c.containers.lookup cid).map fun k => (k.workspace, fate) else lastSlept past cid) = _
        rw [if_pos hcid, hk₀]
        rfl

theorem Slept.step {git : Git} {past : List (World × Action)} {c c' : World} {a : Action}
    (h : Slept git past c) (howned : Owned c) (hs : step git c a = some c') :
    Slept git ((c, a) :: past) c' := by
  cases a with
  | createSandbox name sid layer =>
    obtain rfl := Option.some.inj hs
    exact h.frame nofun (fun _ _ hsc => hsc) fun _ _ _ _ hk => hk
  | destroySandbox name =>
    obtain ⟨sid, -, rfl⟩ := Option.map_eq_some_iff.mp hs
    exact h.frame nofun (fun _ _ hsc => hsc) fun _ _ _ _ hk => c.lookup_destroy hk
  | wakeOrCreate name agent cid fate =>
    rw [Topology.step] at hs
    split at hs
    · cases hs
    · next hnew => exact h.wakeOrCreate howned (fun hcid => hnew (.inr hcid)) hs
  | tool agent effect =>
    obtain ⟨cid, hcid, rfl⟩ := Option.map_eq_some_iff.mp hs
    refine h.frame nofun (fun n sc hsc => ?_) fun n sc hsc k hk => ?_
    · rwa [World.pool, World.inContainer_manager] at hsc
    · have hne : sc.containerId ≠ cid := fun heq => howned.apart agent n sc hsc (heq ▸ hcid)
      rwa [World.lookup_inContainer_ne _ hne] at hk
  | sleep agent name fate =>
    obtain rfl := Option.some.inj hs
    exact h.sleepAgentLayer howned fate agent name
  | destroyAgent agent =>
    obtain ⟨cid, -, rfl⟩ := Option.map_eq_some_iff.mp hs
    rw [World.destroyAgentLayer]
    split
    · exact h.frame nofun (fun _ _ hsc => hsc) fun _ _ _ _ hk => hk
    · exact h.frame nofun (fun _ _ hsc => hsc) fun _ _ _ _ hk =>
        (c.unbind agent).lookup_destroy hk
  | applyDiff name diff fate =>
    rw [Topology.step] at hs
    split at hs
    · cases hs
    · split at hs
      · cases hs
      · split at hs
        · obtain rfl := Option.some.inj hs
          exact h.frame nofun (fun _ _ hsc => hsc) fun _ _ _ _ hk => hk
        · obtain rfl := Option.some.inj hs
          exact h.frame nofun (fun _ _ hsc => hsc) fun _ _ _ _ hk => hk
  | cleanup =>
    obtain rfl := Option.some.inj hs
    exact fun _ _ hsc => nomatch hsc

def projectLayer : SandboxLayer where
  projectRoot := some fresh
  workspace := { files := noFiles, repo := none }
  hostVisible := false

def sleeper (effect : Workspace → Workspace) : List Action :=
  [.createSandbox "app" "1" projectLayer, .wakeOrCreate "app" "first" "c1" .completed,
    .tool "first" effect, .sleep "first" "app" ⟨true, true, true⟩]

def runCallsOf (git : Git) : List Action → List (World × Action) → World →
    Option (List (World × Action) × World)
  | [], past, c => some (past, c)
  | a :: as, past, c =>
    match step git c a with
    | none => none
    | some c' => runCallsOf git as ((c, a) :: past) c'

def asleep (effect : Workspace → Workspace) : List (World × Action) × World :=
  (runCallsOf editGit (sleeper effect) [] World.start).getD ([], World.start)

def awake (effect : Workspace → Workspace) : World :=
  (asleep effect).2.wake ⟨"first", "c1", "1"⟩ [] "app" "second"

end Mowis.Topology
