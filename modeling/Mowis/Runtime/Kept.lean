import Mowis.Runtime.Registry

/-!
# What the runtime keeps of what agentd made

* `Kept` — no container id was asked for twice, every handle is a key, all that was created is
  recorded.
* `StepOk` — a call creates no sandbox that is there, leaves none half made, and reaches no number
  it has used.
* `registry_kept` — what holds in every run of such calls.
* `not_registry_kept` — one run for each of the three ways in which it is lost.
-/

namespace Mowis.Runtime

open Mowis.Lib

structure World where
  sbMap : Registry
  agentd : Agentd

def World.empty : World := ⟨∅, fun _ => none⟩

inductive Call where
  | provisionSandboxes (order : IterOrder ManagedContainer) (now : ℕ) (requestId : String)
      (specs : List (SandboxSpec × Answers))
  | requestAdditionalContainers (sandboxId : SandboxId) (count : ℕ) (answers : Answers) (now : ℕ)
  | pauseContainer (sandboxId : SandboxId) (cid : ContainerId)
      (answer : ContainerControlParams → Outcome Unit) (now : ℕ)
  | resumeContainer (sandboxId : SandboxId) (cid : ContainerId)
      (answer : ContainerControlParams → Outcome Unit)
  | destroySandbox (sandboxId : SandboxId) (answer : SandboxId → Outcome Unit)

def Agentd.handAll (agentd : Agentd) (handles : List ContainerHandle) : Agentd :=
  handles.foldl Agentd.hand agentd

def step (w : World) : Call → Option World
  | .provisionSandboxes order now requestId specs =>
    match provisionSandboxes order now requestId specs w.sbMap w.agentd with
    | (sbMap, agentd, .ok ready) =>
      some ⟨sbMap, agentd.handAll (ready.sandboxes.flatMap SandboxHandle.containers)⟩
    | (sbMap, agentd, .error _) => some ⟨sbMap, agentd⟩
  | .requestAdditionalContainers sandboxId count answers now =>
    match requestAdditionalContainers sandboxId count answers now w.sbMap w.agentd with
    | (sbMap, agentd, .ok handles) => some ⟨sbMap, agentd.handAll handles⟩
    | (sbMap, agentd, .error _) => some ⟨sbMap, agentd⟩
  | .pauseContainer sandboxId cid answer now =>
    some ⟨(pauseContainer sandboxId cid answer now w.sbMap).1, w.agentd⟩
  | .resumeContainer sandboxId cid answer =>
    some ⟨(resumeContainer sandboxId cid answer w.sbMap).1, w.agentd⟩
  | .destroySandbox sandboxId answer =>
    match destroySandbox sandboxId answer w.sbMap w.agentd with
    | (sbMap, agentd, _) => some ⟨sbMap, agentd⟩

def Accepts (sbMap : Registry) (sandboxId : SandboxId) (cid : ContainerId) : Prop :=
  ∃ managed, sbMap.lookup sandboxId = some managed ∧ cid ∈ managed.containers

/-- A sandbox of agentd beside the container map that the registry keeps for it. -/
structure Sandbox.Kept (s : Sandbox) (containers : HashMap ContainerId ManagedContainer) :
    Prop where
  distinct : s.asked.Nodup
  usable : ∀ cid ∈ s.handles, cid ∈ containers
  recorded : ∀ p ∈ s.created, ∃ c, containers.lookup p.1 = some c ∧ c.id = p.2

/-- Every sandbox that agentd has is in the registry, with what it was asked for. -/
def Kept (w : World) : Prop :=
  ∀ id s, w.agentd id = some s →
    ∃ managed, w.sbMap.lookup id = some managed ∧ s.Kept managed.containers

def Outcome.Answered {α : Type} (o : Outcome α) : Prop := ∃ r, o = .answered r

def Outcome.Lost {α : Type} (o : Outcome α) : Prop := ∃ r e, o = .lost r e

/-- The outcome of the request for container number `i`, made in turn `turn` of a loop. -/
def Answers.container (answers : Answers) (sandboxId : SandboxId) (turn i : ℕ) :
    Outcome CreateContainerResponse :=
  answers.createContainer turn ⟨sandboxId, containerId sandboxId i⟩

/-- Until a sandbox is refused, which ends the call, none is there already, no answer is lost, and
all the initial containers are created. -/
def Provides (taken : SandboxId → Prop) : List (SandboxSpec × Answers) → Prop
  | [] => True
  | (spec, answers) :: rest =>
    match answers.createSandbox spec.createParams with
    | .refused _ => True
    | .lost _ _ => False
    | .answered _ =>
      ¬ taken spec.sandboxId ∧
      (∀ i < spec.initialContainers, (answers.container spec.sandboxId i i).Answered) ∧
      Provides (fun id => id = spec.sandboxId ∨ taken id) rest

def NamesKept (spec : SandboxSpec) (answers : Answers) : Prop :=
  ∀ i < spec.initialContainers, ∀ r, answers.container spec.sandboxId i i = .answered r →
    ∃ j < spec.initialContainers, r.containerId = containerId spec.sandboxId j

/-- The numbers that the loop reaches from `len` containers are new, up to the first request that
is not answered, and no answer is lost. -/
def Extends (sandboxId : SandboxId) (answers : Answers) (asked : List ContainerId)
    (len count : ℕ) : Prop :=
  ∀ i < count, (∀ j < i, (answers.container sandboxId j (len + 2 * j)).Answered) →
    containerId sandboxId (len + 2 * i) ∉ asked ∧
      ¬ (answers.container sandboxId i (len + 2 * i)).Lost

def StepOk (w : World) : Call → Prop
  | .provisionSandboxes _ _ _ specs =>
    Provides (fun id => (w.agentd id).isSome) specs ∧
    ((∀ p ∈ specs, (p.2.createSandbox p.1.createParams).Answered) →
      ∀ p ∈ specs, NamesKept p.1 p.2)
  | .requestAdditionalContainers sandboxId count answers _ =>
    ∀ managed s, w.sbMap.lookup sandboxId = some managed → w.agentd sandboxId = some s →
      Extends sandboxId answers s.asked managed.containers.keys.length count
  | .pauseContainer .. => True
  | .resumeContainer .. => True
  | .destroySandbox .. => True

section Control

variable {sandboxId : SandboxId} {cid : ContainerId} {sbMap : Registry}
  {control : ManagedContainer → Except RuntimeError ManagedContainer}

end Control

/-- What the loops keep: the keys of the container map are ids that were asked for. -/
structure Sandbox.Sound (s : Sandbox) (containers : HashMap ContainerId ManagedContainer) :
    Prop extends s.Kept containers where
  keys : ∀ cid ∈ containers, cid ∈ s.asked

def Sandbox.grow (s : Sandbox) (cid given : ContainerId) : Sandbox where
  asked := cid :: s.asked
  created := (cid, given) :: s.created
  handles := s.handles

section Sound

variable {s : Sandbox} {containers : HashMap ContainerId ManagedContainer} {cid : ContainerId}

theorem Sandbox.sound_new : Sandbox.new.Sound ∅ where
  distinct := List.nodup_nil
  usable := fun _ h => absurd h List.not_mem_nil
  recorded := fun _ h => absurd h List.not_mem_nil
  keys := fun _ h => absurd h (AList.notMem_empty _)

theorem Sandbox.Sound.grow (h : s.Sound containers) (hcid : cid ∉ s.asked)
    (c : ManagedContainer) : (s.grow cid c.id).Sound (containers.insert cid c) where
  distinct := List.nodup_cons.mpr ⟨hcid, h.distinct⟩
  usable := fun cid' hcid' => (AList.mem_insert _).mpr (.inr (h.usable cid' hcid'))
  recorded := by
    rintro p hp
    rcases List.mem_cons.mp hp with rfl | hp
    · exact ⟨c, AList.lookup_insert _, rfl⟩
    · obtain ⟨c', hc', hid⟩ := h.recorded p hp
      have hne : p.1 ≠ cid := by
        rintro rfl
        exact hcid (h.keys _ (AList.lookup_isSome.mp (by rw [hc']; rfl)))
      exact ⟨c', by rw [AList.lookup_insert_ne hne, hc'], hid⟩
  keys := by
    intro cid' hcid'
    rcases (AList.mem_insert _).mp hcid' with rfl | hcid'
    · exact List.mem_cons_self
    · exact List.mem_cons_of_mem _ (h.keys cid' hcid')

theorem Sandbox.Sound.ask (h : s.Sound containers) (hcid : cid ∉ s.asked) :
    { s with asked := cid :: s.asked : Sandbox }.Sound containers where
  distinct := List.nodup_cons.mpr ⟨hcid, h.distinct⟩
  usable := h.usable
  recorded := h.recorded
  keys := fun cid' hcid' => List.mem_cons_of_mem _ (h.keys cid' hcid')

theorem Sandbox.Sound.hand (h : s.Sound containers) (hcid : cid ∈ containers) :
    { s with handles := cid :: s.handles : Sandbox }.Sound containers where
  distinct := h.distinct
  usable := List.forall_mem_cons.mpr ⟨hcid, h.usable⟩
  recorded := h.recorded
  keys := h.keys

end Sound

namespace Agentd

variable {agentd : Agentd} {id : SandboxId} {s : Sandbox} {cid : ContainerId}

theorem ask_of_live (h : agentd id = some s) :
    agentd.ask ⟨id, cid⟩ =
      Function.update agentd id (some { s with asked := cid :: s.asked }) := by
  rw [ask, h]
  rfl

theorem ask_createContainer_of_live (h : agentd id = some s) (r : CreateContainerResponse) :
    (agentd.ask ⟨id, cid⟩).createContainer ⟨id, cid⟩ r =
      Function.update agentd id (some (s.grow cid r.containerId)) := by
  rw [ask_of_live h, createContainer, Function.update_self, Function.update_idem]
  rfl

theorem ask_of_gone (h : agentd id = none) : agentd.ask ⟨id, cid⟩ = agentd := by
  rw [ask, h, Option.map_none, ← h, Function.update_eq_self]

theorem createContainer_of_gone (h : agentd id = none) (r : CreateContainerResponse) :
    agentd.createContainer ⟨id, cid⟩ r = agentd := by
  rw [createContainer, h, Option.map_none, ← h, Function.update_eq_self]

end Agentd

section Loops

variable {sandboxId : SandboxId} {answers : Answers} {now : ℕ}

/-- What the loop over the initial containers leaves: a container under each number, named as
agentd named one of them. -/
structure Initial (sandboxId : SandboxId) (answers : Answers) (numbers : List ℕ) (s s' : Sandbox)
    (containers containers' : HashMap ContainerId ManagedContainer) : Prop where
  sound : s'.Sound containers'
  handles : s'.handles = s.handles
  keys : ∀ cid, cid ∈ containers' ↔
    cid ∈ containers ∨ ∃ i ∈ numbers, cid = containerId sandboxId i
  named : ∀ cid c, containers'.lookup cid = some c → containers.lookup cid = some c ∨
    ∃ i ∈ numbers, ∃ r, answers.container sandboxId i i = .answered r ∧ c.id = r.containerId

theorem initialContainers_answered {numbers : List ℕ} {agentd : Agentd} {s : Sandbox}
    {containers : HashMap ContainerId ManagedContainer} (hlive : agentd sandboxId = some s)
    (hs : s.Sound containers) (hdistinct : numbers.Nodup)
    (hfresh : ∀ i ∈ numbers, containerId sandboxId i ∉ s.asked)
    (hall : ∀ i ∈ numbers, (answers.container sandboxId i i).Answered) :
    ∃ s' containers', initialContainers sandboxId answers now numbers agentd containers =
        (Function.update agentd sandboxId (some s'), .ok containers') ∧
      Initial sandboxId answers numbers s s' containers containers' := by
  induction numbers generalizing agentd s containers with
  | nil =>
    refine ⟨s, containers, ?_, hs, rfl, by simp, fun _ _ h => .inl h⟩
    rw [initialContainers, ← hlive, Function.update_eq_self]
  | cons i rest ih =>
    obtain ⟨hi, hrest⟩ := List.nodup_cons.mp hdistinct
    obtain ⟨hfreshi, hfreshrest⟩ := List.forall_mem_cons.mp hfresh
    obtain ⟨⟨r, hr⟩, hallrest⟩ := List.forall_mem_cons.mp hall
    have hgrown : (s.grow (containerId sandboxId i) r.containerId).Sound
        (containers.insert (containerId sandboxId i) (managedContainer r now)) :=
      hs.grow hfreshi (managedContainer r now)
    have hstill : ∀ j ∈ rest, containerId sandboxId j ∉
        (s.grow (containerId sandboxId i) r.containerId).asked := by
      intro j hj hmem
      rcases List.mem_cons.mp hmem with heq | hmem
      · rw [containerId_injective sandboxId heq] at hj
        exact hi hj
      · exact hfreshrest j hj hmem
    have hlive' : Function.update agentd sandboxId (some
        (s.grow (containerId sandboxId i) r.containerId)) sandboxId = some _ :=
      Function.update_self _ _ _
    obtain ⟨s', containers', hloop, hinitial⟩ := ih hlive' hgrown hrest hstill hallrest
    refine ⟨s', containers', ?_, hinitial.sound, hinitial.handles, ?_, ?_⟩
    · rw [Function.update_idem] at hloop
      rw [← hloop, initialContainers]
      simp only [show answers.createContainer i ⟨sandboxId, containerId sandboxId i⟩ =
        .answered r from hr, Agentd.ask_createContainer_of_live hlive]
    · intro cid
      rw [hinitial.keys, AList.mem_insert, List.exists_mem_cons_iff]
      tauto
    · intro cid c hc
      rcases hinitial.named cid c hc with hc | ⟨j, hj, hnamed⟩
      · rw [HashMap.lookup_insert_eq_ite] at hc
        split at hc
        · cases hc
          exact .inr ⟨i, List.mem_cons_self, r, hr, rfl⟩
        · exact .inl hc
      · exact .inr ⟨j, List.mem_cons_of_mem _ hj, hnamed⟩

/-- What the loop over the additional containers leaves. -/
structure Extended (sandboxId : SandboxId) (s s' : Sandbox)
    (containers containers' : HashMap ContainerId ManagedContainer)
    (handles : List ContainerHandle)
    (result : Except RuntimeError (List ContainerHandle)) : Prop where
  sound : s'.Sound containers'
  kept : s'.handles = s.handles
  keys : ∀ cid ∈ containers, cid ∈ containers'
  returned : ∀ handles', result = .ok handles' → ∀ h ∈ handles', h ∈ handles ∨
    h.sandboxId = sandboxId ∧ h.containerId ∈ containers'

theorem additionalLoop_extends {len turn count : ℕ} {agentd : Agentd} {s : Sandbox}
    {containers : HashMap ContainerId ManagedContainer} {handles : List ContainerHandle}
    (hlive : agentd sandboxId = some s) (hs : s.Sound containers)
    (hlen : containers.keys.length = len + turn)
    (hok : ∀ i, turn ≤ i → i < turn + count →
      (∀ j, turn ≤ j → j < i → (answers.container sandboxId j (len + 2 * j)).Answered) →
      containerId sandboxId (len + 2 * i) ∉ s.asked ∧
        ¬ (answers.container sandboxId i (len + 2 * i)).Lost) :
    ∃ s' containers' result,
      additionalLoop sandboxId answers now (List.range' turn count) agentd containers handles =
        (Function.update agentd sandboxId (some s'), containers', result) ∧
      Extended sandboxId s s' containers containers' handles result := by
  induction count generalizing turn agentd s containers handles with
  | zero =>
    refine ⟨s, containers, .ok handles, ?_, hs, rfl, fun _ h => h, ?_⟩
    · rw [List.range'_zero, additionalLoop, ← hlive, Function.update_eq_self]
    · rintro _ ⟨⟩ h hh
      exact .inl hh
  | succ count ih =>
    have hindex : containers.keys.length + turn = len + 2 * turn := by omega
    obtain ⟨hfresh, hlost⟩ := hok turn le_rfl (by omega) (fun j hj hj' => by omega)
    rw [List.range'_succ, additionalLoop]
    simp only [hindex]
    cases hanswer : answers.createContainer turn ⟨sandboxId, containerId sandboxId
      (len + 2 * turn)⟩ with
    | refused e =>
      refine ⟨_, containers, _, by rw [Agentd.ask_of_live hlive], hs.ask hfresh, rfl,
        fun _ h => h, ?_⟩
      rintro _ ⟨⟩
    | lost r e => exact absurd ⟨r, e, hanswer⟩ hlost
    | answered r =>
      have hnew : containerId sandboxId (len + 2 * turn) ∉ containers :=
        fun hmem => hfresh (hs.keys _ hmem)
      have hlen' : (containers.insert (containerId sandboxId (len + 2 * turn))
          (managedContainer r now)).keys.length = len + (turn + 1) := by
        rw [AList.keys_insert, List.length_cons, List.erase_of_not_mem hnew, hlen]
        omega
      have hstill : ∀ i, turn + 1 ≤ i → i < turn + 1 + count →
          (∀ j, turn + 1 ≤ j → j < i →
            (answers.container sandboxId j (len + 2 * j)).Answered) →
          containerId sandboxId (len + 2 * i) ∉
              (s.grow (containerId sandboxId (len + 2 * turn)) r.containerId).asked ∧
            ¬ (answers.container sandboxId i (len + 2 * i)).Lost := by
        intro i hi hi' hanswered
        obtain ⟨hfreshi, hlosti⟩ := hok i (by omega) (by omega) (by
          intro j hj hj'
          rcases Nat.eq_or_lt_of_le hj with rfl | hj
          · exact ⟨r, hanswer⟩
          · exact hanswered j hj hj')
        refine ⟨fun hmem => ?_, hlosti⟩
        rcases List.mem_cons.mp hmem with heq | hmem
        · have := containerId_injective sandboxId heq
          omega
        · exact hfreshi hmem
      have hlive' : Function.update agentd sandboxId (some
          (s.grow (containerId sandboxId (len + 2 * turn)) r.containerId)) sandboxId = some _ :=
        Function.update_self _ _ _
      obtain ⟨s', containers', result, hloop, hextended⟩ :=
        @ih (turn + 1) _ _ _
          (handles ++ [⟨containerId sandboxId (len + 2 * turn), sandboxId, .ready⟩])
          hlive' (hs.grow hfresh (managedContainer r now)) hlen' hstill
      refine ⟨s', containers', result, ?_, hextended.sound, hextended.kept, ?_, ?_⟩
      · rw [Function.update_idem] at hloop
        simp only [Agentd.ask_createContainer_of_live hlive]
        exact hloop
      · intro cid hcid
        exact hextended.keys cid ((AList.mem_insert _).mpr (.inr hcid))
      · intro handles' hresult h hh
        rcases hextended.returned handles' hresult h hh with hh | hh
        · rcases List.mem_append.mp hh with hh | hh
          · exact .inl hh
          · rw [List.mem_singleton] at hh
            subst hh
            exact .inr ⟨rfl, hextended.keys _ ((AList.mem_insert _).mpr (.inl rfl))⟩
        · exact .inr hh

theorem additionalLoop_of_gone {numbers : List ℕ} {agentd : Agentd}
    {containers : HashMap ContainerId ManagedContainer} {handles : List ContainerHandle}
    (hgone : agentd sandboxId = none) :
    (additionalLoop sandboxId answers now numbers agentd containers handles).1 = agentd ∧
    ∀ handles', (additionalLoop sandboxId answers now numbers agentd containers handles).2.2 =
        .ok handles' → ∀ h ∈ handles', h ∈ handles ∨ h.sandboxId = sandboxId := by
  induction numbers generalizing containers handles with
  | nil =>
    refine ⟨rfl, ?_⟩
    rintro _ ⟨⟩ h hh
    exact .inl hh
  | cons i rest ih =>
    rw [additionalLoop]
    simp only [Agentd.ask_of_gone hgone, Agentd.createContainer_of_gone hgone]
    split
    · exact ⟨rfl, by rintro _ ⟨⟩⟩
    · exact ⟨rfl, by rintro _ ⟨⟩⟩
    · refine ⟨ih.1, fun handles' hresult h hh => ?_⟩
      rcases ih.2 handles' hresult h hh with hh | hh
      · rcases List.mem_append.mp hh with hh | hh
        · exact .inl hh
        · rw [List.mem_singleton] at hh
          exact .inr (by rw [hh])
      · exact .inr hh

end Loops

def Sound (sbMap : Registry) (agentd : Agentd) : Prop :=
  ∀ id s, agentd id = some s →
    ∃ managed, sbMap.lookup id = some managed ∧ s.Sound managed.containers

section Calls

variable {sbMap : Registry} {agentd : Agentd} {sandboxId : SandboxId}

theorem Sound.update (h : Sound sbMap agentd) {s : Sandbox} {managed : ManagedSandbox}
    (hs : s.Sound managed.containers) :
    Sound (sbMap.insert sandboxId managed) (Function.update agentd sandboxId (some s)) := by
  intro id s' hs'
  rw [HashMap.lookup_insert_eq_ite]
  by_cases hid : id = sandboxId
  · subst hid
    rw [Function.update_self] at hs'
    cases hs'
    exact ⟨managed, if_pos rfl, hs⟩
  · rw [Function.update_of_ne hid] at hs'
    rw [if_neg hid]
    exact h id s' hs'

theorem Sound.insert_of_gone (h : Sound sbMap agentd) (hgone : agentd sandboxId = none)
    (managed : ManagedSandbox) : Sound (sbMap.insert sandboxId managed) agentd := by
  intro id s hs
  have hid : id ≠ sandboxId := by
    rintro rfl
    rw [hgone] at hs
    cases hs
  rw [AList.lookup_insert_ne hid]
  exact h id s hs

theorem Sound.destroySandbox (h : Sound sbMap agentd) :
    Sound sbMap (agentd.destroySandbox sandboxId) ∧
    Sound (sbMap.erase sandboxId) (agentd.destroySandbox sandboxId) := by
  constructor
  all_goals
    intro id s hs
    have hid : id ≠ sandboxId := by
      rintro rfl
      rw [Agentd.destroySandbox, Function.update_self] at hs
      cases hs
    rw [Agentd.destroySandbox, Function.update_of_ne hid] at hs
  · exact h id s hs
  · rw [AList.lookup_erase_ne hid]
    exact h id s hs

theorem Sound.hand (h : Sound sbMap agentd) {handle : ContainerHandle}
    (hkey : (agentd handle.sandboxId).isSome →
      Accepts sbMap handle.sandboxId handle.containerId) : Sound sbMap (agentd.hand handle) := by
  intro id s hs
  by_cases hid : id = handle.sandboxId
  · subst hid
    rw [Agentd.hand, Function.update_self] at hs
    obtain ⟨s₀, hs₀, rfl⟩ := Option.map_eq_some_iff.mp hs
    obtain ⟨managed, hmanaged, hsound⟩ := h _ s₀ hs₀
    obtain ⟨managed', hmanaged', hcid⟩ := hkey (by rw [hs₀]; rfl)
    rw [hmanaged] at hmanaged'
    cases hmanaged'
    exact ⟨managed, hmanaged, hsound.hand hcid⟩
  · rw [Agentd.hand, Function.update_of_ne hid] at hs
    exact h id s hs

theorem Agentd.hand_isSome (handle : ContainerHandle) (id : SandboxId) :
    (agentd.hand handle id).isSome = (agentd id).isSome := by
  rw [Agentd.hand, Function.update_apply]
  split
  · next hid => rw [hid, Option.isSome_map]
  · rfl

theorem Sound.handAll (h : Sound sbMap agentd) {handles : List ContainerHandle}
    (hkeys : ∀ handle ∈ handles, (agentd handle.sandboxId).isSome →
      Accepts sbMap handle.sandboxId handle.containerId) :
    Sound sbMap (agentd.handAll handles) := by
  induction handles generalizing agentd with
  | nil => exact h
  | cons handle rest ih =>
    obtain ⟨hhead, hrest⟩ := List.forall_mem_cons.mp hkeys
    refine ih (h.hand hhead) fun handle' hmem hlive => ?_
    rw [Agentd.hand_isSome] at hlive
    exact hrest handle' hmem hlive

theorem Sound.requestAdditionalContainers (h : Sound sbMap agentd) {count : ℕ}
    {answers : Answers} {now : ℕ}
    (hok : ∀ managed s, sbMap.lookup sandboxId = some managed → agentd sandboxId = some s →
      Extends sandboxId answers s.asked managed.containers.keys.length count)
    {sbMap' : Registry} {agentd' : Agentd} {result : Except RuntimeError (List ContainerHandle)}
    (hcall : requestAdditionalContainers sandboxId count answers now sbMap agentd =
      (sbMap', agentd', result)) :
    Sound sbMap' agentd' ∧ ∀ handles, result = .ok handles → ∀ handle ∈ handles,
      (agentd' handle.sandboxId).isSome →
        Accepts sbMap' handle.sandboxId handle.containerId := by
  rw [Runtime.requestAdditionalContainers] at hcall
  cases hmanaged : sbMap.lookup sandboxId with
  | none =>
    simp only [hmanaged] at hcall
    cases hcall
    exact ⟨h, by rintro _ ⟨⟩⟩
  | some managed =>
    simp only [hmanaged] at hcall
    cases hlive : agentd sandboxId with
    | none =>
      have hgone := @additionalLoop_of_gone sandboxId answers now (List.range count) agentd
        managed.containers [] hlive
      cases hcall
      rw [hgone.1]
      refine ⟨h.insert_of_gone hlive _, fun handles hresult handle hhandle hsome => ?_⟩
      rcases hgone.2 handles hresult handle hhandle with hnil | hid
      · exact absurd hnil List.not_mem_nil
      · rw [hid, hlive] at hsome
        cases hsome
    | some s =>
      obtain ⟨managed', hmanaged', hsound⟩ := h _ s hlive
      rw [hmanaged] at hmanaged'
      cases hmanaged'
      have hextends := hok managed s hmanaged hlive
      obtain ⟨s', containers', result', hloop, hextended⟩ :=
        @additionalLoop_extends sandboxId answers now managed.containers.keys.length 0 count
          agentd s managed.containers [] hlive hsound rfl
          (fun i _ hi hanswered => hextends i (by omega) fun j hj => hanswered j (Nat.zero_le j) hj)
      rw [List.range_eq_range'] at hcall
      simp only [hloop] at hcall
      cases hcall
      refine ⟨h.update hextended.sound, fun handles hresult handle hhandle _ => ?_⟩
      rcases hextended.returned handles hresult handle hhandle with hnil | ⟨hid, hkey⟩
      · exact absurd hnil List.not_mem_nil
      · exact ⟨_, by rw [hid, AList.lookup_insert], hkey⟩

theorem Sound.controlContainer (h : Sound sbMap agentd) {cid : ContainerId}
    {control : ManagedContainer → Except RuntimeError ManagedContainer}
    (hcontrol : ∀ c c', control c = .ok c' → c'.id = c.id) :
    Sound (controlContainer sandboxId cid control sbMap).1 agentd := by
  unfold Runtime.controlContainer
  cases hmanaged : sbMap.lookup sandboxId with
  | none => exact h
  | some managed =>
    cases hcontainer : managed.containers.lookup cid with
    | none => simpa only [hcontainer] using h
    | some container =>
      cases hresult : control container with
      | error e => simpa only [hcontainer, hresult] using h
      | ok container' =>
        simp only [hcontainer, hresult]
        cases hlive : agentd sandboxId with
        | none => exact h.insert_of_gone hlive _
        | some s =>
          obtain ⟨managed', hmanaged', hsound⟩ := h _ s hlive
          rw [hmanaged] at hmanaged'
          cases hmanaged'
          have hcid : cid ∈ managed.containers := AList.lookup_isSome.mp (by rw [hcontainer]; rfl)
          have hsame : s.Sound (managed.containers.insert cid container') := by
            refine ⟨⟨hsound.distinct, ?_, ?_⟩, ?_⟩
            · intro cid' hcid'
              exact (AList.mem_insert _).mpr (.inr (hsound.usable cid' hcid'))
            · intro p hp
              obtain ⟨c, hc, hid⟩ := hsound.recorded p hp
              rw [HashMap.lookup_insert_eq_ite]
              split
              · next heq =>
                rw [heq, hcontainer] at hc
                cases hc
                exact ⟨container', rfl, (hcontrol _ _ hresult).trans hid⟩
              · exact ⟨c, hc, hid⟩
            · intro cid' hcid'
              rcases (AList.mem_insert _).mp hcid' with rfl | hcid'
              · exact hsound.keys _ hcid
              · exact hsound.keys cid' hcid'
          let managed' : ManagedSandbox :=
            { managed with containers := managed.containers.insert cid container' }
          have hupdate := @Sound.update _ _ sandboxId h _ managed' hsame
          rwa [← hlive, Function.update_eq_self] at hupdate

theorem mem_containerHandles {order : IterOrder ManagedContainer}
    {containers : HashMap ContainerId ManagedContainer} {handle : ContainerHandle}
    (h : handle ∈ containerHandles order sandboxId containers) :
    handle.sandboxId = sandboxId ∧
      ∃ cid c, containers.lookup cid = some c ∧ handle.containerId = c.id := by
  obtain ⟨c, hc, rfl⟩ := List.mem_map.mp h
  rw [IterOrder.mem_arrange] at hc
  obtain ⟨⟨cid, c⟩, hentry, rfl⟩ := List.mem_map.mp hc
  exact ⟨rfl, cid, c, AList.mem_lookup_iff.mpr hentry, rfl⟩

def Usable (sbMap : Registry) (taken : SandboxId → Prop) (handles : List SandboxHandle) : Prop :=
  ∀ handle ∈ handles.flatMap SandboxHandle.containers,
    taken handle.sandboxId ∧ Accepts sbMap handle.sandboxId handle.containerId

theorem Sound.provisionLoop {order : IterOrder ManagedContainer} {now : ℕ}
    {specs : List (SandboxSpec × Answers)} {handles : List SandboxHandle}
    {taken : SandboxId → Prop} {sbMap' : Registry} {agentd' : Agentd}
    {result : Except RuntimeError (List SandboxHandle)} (h : Sound sbMap agentd)
    (htaken : ∀ id, (agentd id).isSome → taken id) (hprovides : Provides taken specs)
    (hcall : provisionLoop order now specs sbMap agentd handles = (sbMap', agentd', result)) :
    Sound sbMap' agentd' ∧ ∀ handles', result = .ok handles' →
      (∀ p ∈ specs, (p.2.createSandbox p.1.createParams).Answered) ∧
      ((∀ p ∈ specs, NamesKept p.1 p.2) → Usable sbMap taken handles →
        Usable sbMap' (fun _ => True) handles') := by
  induction specs generalizing sbMap agentd handles taken with
  | nil =>
    cases hcall
    refine ⟨h, ?_⟩
    rintro _ ⟨⟩
    exact ⟨fun _ hp => absurd hp List.not_mem_nil,
      fun _ husable handle hhandle => ⟨trivial, (husable handle hhandle).2⟩⟩
  | cons p rest ih =>
    obtain ⟨spec, answers⟩ := p
    rw [Provides] at hprovides
    rw [Runtime.provisionLoop] at hcall
    cases hanswer : answers.createSandbox spec.createParams with
    | refused e =>
      simp only [hanswer] at hcall
      cases hcall
      exact ⟨h, by rintro _ ⟨⟩⟩
    | lost r e =>
      simp only [hanswer] at hprovides
    | answered r =>
      simp only [hanswer] at hprovides hcall
      obtain ⟨hfree, hall, hrest⟩ := hprovides
      have hgone : agentd spec.sandboxId = none :=
        Option.not_isSome_iff_eq_none.mp fun hlive => hfree (htaken _ hlive)
      have hcreate : agentd.createSandbox spec.sandboxId =
          Function.update agentd spec.sandboxId (some .new) := by
        rw [Agentd.createSandbox, hgone]
        rfl
      obtain ⟨s', containers', hloop, hinitial⟩ :=
        @initialContainers_answered spec.sandboxId answers now (List.range spec.initialContainers)
          (agentd.createSandbox spec.sandboxId) .new ∅
          (by rw [hcreate, Function.update_self]) Sandbox.sound_new List.nodup_range
          (fun _ _ => List.not_mem_nil) (fun i hi => hall i (List.mem_range.mp hi))
      rw [hcreate, Function.update_idem, ← hcreate] at hloop
      simp only [hloop] at hcall
      have htaken' : ∀ id, (Function.update agentd spec.sandboxId (some s') id).isSome →
          id = spec.sandboxId ∨ taken id := by
        intro id hlive
        by_cases hid : id = spec.sandboxId
        · exact .inl hid
        · rw [Function.update_of_ne hid] at hlive
          exact .inr (htaken id hlive)
      obtain ⟨hsound, hresult⟩ := ih (h.update hinitial.sound) htaken' hrest hcall
      refine ⟨hsound, fun handles' hok => ?_⟩
      obtain ⟨hanswered, husable⟩ := hresult handles' hok
      refine ⟨List.forall_mem_cons.mpr ⟨⟨r, hanswer⟩, hanswered⟩, fun hnames hbefore => ?_⟩
      obtain ⟨hname, hnamesrest⟩ := List.forall_mem_cons.mp hnames
      refine husable hnamesrest fun handle hhandle => ?_
      rw [List.flatMap_append, List.mem_append] at hhandle
      rcases hhandle with hhandle | hhandle
      · obtain ⟨htakenhandle, managed, hmanaged, hkey⟩ := hbefore handle hhandle
        have hid : handle.sandboxId ≠ spec.sandboxId := fun heq => hfree (heq ▸ htakenhandle)
        exact ⟨.inr htakenhandle, managed, by rw [AList.lookup_insert_ne hid, hmanaged], hkey⟩
      · rw [List.flatMap_singleton] at hhandle
        obtain ⟨hid, cid, c, hc, hgiven⟩ := mem_containerHandles hhandle
        refine ⟨.inl hid, _, by rw [hid, AList.lookup_insert], ?_⟩
        rcases hinitial.named cid c hc with hnone | ⟨i, hi, r', hr', hcid⟩
        · cases hnone
        · obtain ⟨j, hj, hnamed⟩ := hname i (List.mem_range.mp hi) r' hr'
          rw [hgiven, hcid, hnamed]
          exact (hinitial.keys _).mpr (.inr ⟨j, List.mem_range.mpr hj, rfl⟩)

end Calls

theorem Sound.kept {w : World} (h : Sound w.sbMap w.agentd) : Kept w := by
  intro id s hs
  obtain ⟨managed, hmanaged, hsound⟩ := h id s hs
  exact ⟨managed, hmanaged, hsound.toKept⟩

theorem Sound.step {w w' : World} {call : Call} (h : Sound w.sbMap w.agentd)
    (hok : StepOk w call) (hstep : step w call = some w') : Sound w'.sbMap w'.agentd := by
  cases call with
  | provisionSandboxes order now requestId specs =>
    obtain ⟨hprovides, hnames⟩ := hok
    simp only [Runtime.step, provisionSandboxes] at hstep
    cases hloop : Runtime.provisionLoop order now specs w.sbMap w.agentd [] with
    | mk sbMap rest =>
      obtain ⟨agentd, result⟩ := rest
      obtain ⟨hsound, hresult⟩ := h.provisionLoop (fun _ hlive => hlive) hprovides hloop
      simp only [hloop] at hstep
      cases result with
      | error e =>
        cases hstep
        exact hsound
      | ok handles =>
        cases hstep
        obtain ⟨hanswered, husable⟩ := hresult handles rfl
        have hall := husable (hnames hanswered) fun _ hnil => absurd hnil List.not_mem_nil
        exact hsound.handAll fun handle hhandle _ => (hall handle hhandle).2
  | requestAdditionalContainers sandboxId count answers now =>
    simp only [Runtime.step] at hstep
    cases hcall : Runtime.requestAdditionalContainers sandboxId count answers now w.sbMap
      w.agentd with
    | mk sbMap rest =>
      obtain ⟨agentd, result⟩ := rest
      obtain ⟨hsound, hresult⟩ := h.requestAdditionalContainers hok hcall
      simp only [hcall] at hstep
      cases result with
      | error e =>
        cases hstep
        exact hsound
      | ok handles =>
        cases hstep
        exact hsound.handAll (hresult handles rfl)
  | pauseContainer sandboxId cid answer now =>
    cases hstep
    apply h.controlContainer
    intro c c' hc
    split at hc
    · split at hc
      · cases hc
        rfl
      · cases hc
      · cases hc
    · split at hc
      · cases hc
        rfl
      · cases hc
      · cases hc
    · cases hc
  | resumeContainer sandboxId cid answer =>
    cases hstep
    apply h.controlContainer
    intro c c' hc
    split at hc
    · split at hc
      · cases hc
        rfl
      · cases hc
      · cases hc
    · cases hc
  | destroySandbox sandboxId answer =>
    simp only [Runtime.step, Runtime.destroySandbox] at hstep
    cases hanswer : answer sandboxId with
    | refused e =>
      simp only [hanswer] at hstep
      cases hstep
      exact h
    | lost _ e =>
      simp only [hanswer] at hstep
      cases hstep
      exact h.destroySandbox.1
    | answered _ =>
      simp only [hanswer] at hstep
      cases hmanaged : w.sbMap.lookup sandboxId with
      | none =>
        simp only [hmanaged] at hstep
        cases hstep
        exact h.destroySandbox.1
      | some managed =>
        simp only [hmanaged] at hstep
        cases hstep
        exact h.destroySandbox.2

/-- **The registry is kept.** In every run whose calls create no sandbox that is there already,
leave none without its initial containers, and reach only new numbers, no id is asked for twice,
every handle is a key, and what agentd has is recorded. -/
theorem registry_kept {past : List (World × Call)} {w : World}
    (h : Execution step .empty past w) (hok : ∀ e ∈ past, StepOk e.1 e.2) : Kept w :=
  Sound.kept <| h.invariant_of (I := fun w => Sound w.sbMap w.agentd) (fun _ _ hs => by cases hs)
    (fun _ _ _ hsound hcall hstep => hsound.step hcall hstep) hok

/-- Every request is answered, and a container is named by `name` of the id asked for. -/
def obliging (name : ContainerId → ContainerId) : Answers where
  createSandbox p := .answered ⟨p.sandboxId, "/sandboxes/sb", 1⟩
  createContainer _ p := .answered ⟨name p.containerId, p.sandboxId, 2, "/"⟩

def refusing : Answers where
  createSandbox p := .answered ⟨p.sandboxId, "/sandboxes/sb", 1⟩
  createContainer _ _ := .refused "Timeout"

def provision (containers : ℕ) (answers : Answers) : Call :=
  .provisionSandboxes .stored 0 "req-1" [(⟨"sb", "alpine", 0, 0, [], containers⟩, answers)]

theorem stepOk_provision {w : World} (hfree : w.agentd "sb" = none) (containers : ℕ) :
    StepOk w (provision containers (obliging id)) := by
  refine ⟨⟨?_, fun i _ => ⟨_, rfl⟩, trivial⟩, fun _ p hp => ?_⟩
  · rw [Bool.not_eq_true, Option.isSome_eq_false_iff, Option.isNone_iff_eq_none]
    exact hfree
  · rw [List.mem_singleton.mp hp]
    rintro i hi r ⟨⟩
    exact ⟨i, hi, rfl⟩

/-- A sandbox with two containers is scaled by one and destroyed, and one with its id provisioned
again. -/
theorem registry_kept_scaled :
    ∃ past w, Execution step .empty past w ∧ past.length = 4 ∧ Kept w ∧
      (w.sbMap.lookup "sb").isSome := by
  have hrun : ∃ past w, Lib.Execution.runActions step [provision 2 (obliging id),
      .requestAdditionalContainers "sb" 1 (obliging id) 0,
      .destroySandbox "sb" fun _ => .answered (), provision 1 (obliging id)] [] .empty =
        some (past, w) ∧ past.length = 4 ∧ (w.sbMap.lookup "sb").isSome ∧
      ∀ e ∈ past, StepOk e.1 e.2 := by
    refine ⟨_, _, rfl, rfl, by decide +kernel, ?_⟩
    refine List.forall_mem_cons.mpr ⟨stepOk_provision rfl 1, List.forall_mem_cons.mpr ⟨trivial,
      List.forall_mem_cons.mpr ⟨?_, List.forall_mem_singleton.mpr (stepOk_provision rfl 2)⟩⟩⟩
    intro managed s hmanaged hs i hi _
    obtain rfl : _ = managed := Option.some.inj hmanaged
    obtain rfl : _ = s := Option.some.inj hs
    obtain rfl : i = 0 := by omega
    refine ⟨by decide +kernel, ?_⟩
    rintro ⟨r, e, hlost⟩
    cases hlost
  obtain ⟨past, w, hrun, hlength, hlive, hok⟩ := hrun
  exact ⟨past, w, .ofRun .start hrun, hlength, registry_kept (.ofRun .start hrun) hok, hlive⟩

/-- **What goes wrong.** A sandbox is left out when its container is refused; two containers more
and one more after that are asked for by the same id; a name that agentd gave is not a key. -/
theorem not_registry_kept :
    (∃ past w, Execution step .empty past w ∧
      (w.agentd "sb").isSome ∧ (w.sbMap.lookup "sb").isNone ∧ ¬ Kept w) ∧
    (∃ past w, Execution step .empty past w ∧
      (∃ s, w.agentd "sb" = some s ∧ ¬ s.asked.Nodup) ∧ ¬ Kept w) ∧
    (∃ past w, Execution step .empty past w ∧
      (∃ s, w.agentd "sb" = some s ∧ ∃ cid ∈ s.handles, ¬ Accepts w.sbMap "sb" cid) ∧
        ¬ Kept w) := by
  refine ⟨?_, ?_, ?_⟩
  · have hrun : Lib.Execution.runActions step [provision 1 refusing] [] .empty = some (_, _) := rfl
    refine ⟨_, _, .ofRun .start hrun, rfl, rfl, fun hkept => ?_⟩
    obtain ⟨managed, hmanaged, -⟩ := hkept "sb" _ rfl
    cases hmanaged
  · have hrun : Lib.Execution.runActions step [provision 2 (obliging id),
        .requestAdditionalContainers "sb" 2 (obliging id) 0,
        .requestAdditionalContainers "sb" 1 (obliging id) 0] [] .empty = some (_, _) := rfl
    have htwice : ¬ ["sb-4", "sb-4", "sb-2", "sb-1", "sb-0"].Nodup := by decide
    refine ⟨_, _, .ofRun .start hrun, ⟨_, rfl, htwice⟩, fun hkept => ?_⟩
    obtain ⟨managed, -, h⟩ := hkept "sb" _ rfl
    exact htwice h.distinct
  · have hrun : Lib.Execution.runActions step [provision 1 (obliging fun _ => "7")] [] .empty =
        some (_, _) := rfl
    have hunknown : ∀ managed : ManagedSandbox, managed.containers.keys = ["sb-0"] →
        "7" ∉ managed.containers := by
      intro managed hkeys hmem
      rw [AList.mem_keys, hkeys] at hmem
      exact absurd hmem (by decide)
    refine ⟨_, _, .ofRun .start hrun, ⟨_, rfl, "7", List.mem_cons_self, ?_⟩, fun hkept => ?_⟩
    · rintro ⟨managed, hmanaged, hmem⟩
      obtain rfl : _ = managed := Option.some.inj hmanaged
      exact hunknown _ rfl hmem
    · obtain ⟨managed, hmanaged, h⟩ := hkept "sb" _ rfl
      obtain rfl : _ = managed := Option.some.inj hmanaged
      exact hunknown _ rfl (h.usable "7" List.mem_cons_self)

end Mowis.Runtime
