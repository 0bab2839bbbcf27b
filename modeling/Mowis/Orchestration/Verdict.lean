import Mowis.Orchestration.Captain

/-!
# What the captain's verdict depends on

* `GetsTurn` — the tasks whose crews are spawned, whatever the order of events: all
  their dependencies get their turn and end `Done`.
* `LoopInv` / `schedule_spec` — the state of the scheduling loop, and that when it
  stops without an error exactly the tasks that get their turn were spawned.
* `verdict_truthful_iff` — for every captain, plan and outcomes, exactly when the
  verdict says whether all tasks ended `Done`.
-/

namespace Mowis.Orchestration

open Mowis.Lib

variable {plan : Plan} {planId : PlanId} {env : Environment} {c : Captain}

namespace LoopState

def ranIds (s : LoopState) : List TaskId := s.ran.map (fun e => e.1.id)

def ProperCrew (plan : Plan) (env : Environment) (cfg : OrchConfig) (e : TaskNode × CrewEnd) : Prop :=
  plan.findTask e.1.id = some e.1 ∧ e.2 = env.outcome e.1.id ∧
    ∃ config, cfg.llmForTask env.decrypt e.1 = .ok config

/-- What a spawn loop that does not fail has done. -/
structure Spawned (plan : Plan) (env : Environment) (s s' : LoopState) (ts : List TaskId) : Prop where
  captain : s'.captain = s.captain
  completed : s'.completed = s.completed
  running : s'.running = s.running ++ ts
  remaining : ∀ u, s'.remaining.lookup u = if u ∈ ts then none else s.remaining.lookup u
  ran : ∃ new, s'.ran = s.ran ++ new ∧ new.map (fun e => e.1.id) = ts ∧
    ∀ e ∈ new, ProperCrew plan env s.captain.cfg e

theorem spawnAll_ok (ts : List TaskId) {s s' : LoopState} (h : s.spawnAll plan env ts = .ok s') :
    Spawned plan env s s' ts := by
  induction ts generalizing s with
  | nil =>
    cases h
    exact ⟨rfl, rfl, by simp, fun u => by simp, [], by simp, rfl, by simp⟩
  | cons t ts ih =>
    rw [spawnAll] at h
    cases hsp : s.spawn plan env t with
    | error e =>
      rw [hsp] at h
      cases h
    | ok s₁ =>
      rw [hsp] at h
      obtain ⟨node, config, hnode, hmodel, hs₁⟩ := spawn_ok hsp
      obtain ⟨-, hid⟩ := Plan.findTask_some hnode
      have hrest := ih h
      subst hs₁
      refine ⟨hrest.captain, hrest.completed, ?_, fun u => ?_, ?_⟩
      · rw [hrest.running]
        simp
      · rw [hrest.remaining, HashMap.lookup_erase_eq_ite]
        by_cases hut : u = t
        · simp [hut]
        · simp [hut]
      · obtain ⟨new, hran, hids, hproper⟩ := hrest.ran
        refine ⟨(node, env.outcome t) :: new, by rw [hran]; simp, by simp [hids, hid], ?_⟩
        intro e he
        rcases List.mem_cons.mp he with rfl | he
        · exact ⟨by rw [hid]; exact hnode, by rw [hid], config, hmodel⟩
        · exact hproper e he

theorem spawnAll_error (ts : List TaskId) {s s' : LoopState} {err : String}
    (h : s.spawnAll plan env ts = .error (s', err)) :
    ∃ before t after s₁, ts = before ++ t :: after ∧ s.spawnAll plan env before = .ok s₁ ∧
      s'.ran = s₁.ran ∧
      (plan.findTask t = none ∨ ∃ node e, plan.findTask t = some node ∧
        s.captain.cfg.llmForTask env.decrypt node = .error e) := by
  induction ts generalizing s with
  | nil => cases h
  | cons t ts ih =>
    rw [spawnAll] at h
    cases hsp : s.spawn plan env t with
    | error e =>
      rw [hsp] at h
      cases h
      refine ⟨[], t, ts, s, rfl, rfl, ?_⟩
      rw [spawn] at hsp
      cases hf : plan.findTask t with
      | none =>
        rw [hf] at hsp
        cases hsp
        exact ⟨rfl, .inl rfl⟩
      | some node =>
        rw [hf] at hsp
        cases hl : s.captain.cfg.llmForTask env.decrypt node with
        | error e =>
          simp only [hl] at hsp
          cases hsp
          exact ⟨rfl, .inr ⟨node, _, rfl, hl⟩⟩
        | ok config =>
          simp only [hl] at hsp
          cases hsp
    | ok s₁ =>
      rw [hsp] at h
      obtain ⟨before, u, after, s₂, rfl, hsp₂, hran, hbad⟩ := ih h
      obtain ⟨node, config, -, -, hs₁⟩ := spawn_ok hsp
      have hcaptain : s₁.captain = s.captain := by rw [hs₁]
      refine ⟨t :: before, u, after, s₂, rfl, ?_, hran, hcaptain ▸ hbad⟩
      rw [spawnAll, hsp]
      exact hsp₂

end LoopState

/-! ### The scheduling loop -/

/-- All dependencies of the task get their turn and end `Done`, so its crew is spawned. -/
inductive GetsTurn (plan : Plan) (env : Environment) : TaskId → Prop
  | turn {t : TaskId} {deps : List TaskId} : plan.lastDeps t = some deps →
      (∀ d ∈ deps, GetsTurn plan env d) → (∀ d ∈ deps, (env.outcome d).isDone = true) →
      GetsTurn plan env t

theorem GetsTurn.mem_ids {t : TaskId} (h : GetsTurn plan env t) : t ∈ plan.ids := by
  cases h with
  | turn hdeps _ _ => exact Plan.lastDeps_isSome.mp (by rw [hdeps]; rfl)

def LacksModel (cfg : OrchConfig) (plan : Plan) (env : Environment) (t : TaskId) : Prop :=
  ∃ node e, plan.findTask t = some node ∧ cfg.llmForTask env.decrypt node = .error e

/-- The state of the scheduling loop of a captain that started as `c`. -/
structure LoopInv (c : Captain) (plan : Plan) (planId : PlanId) (env : Environment)
    (s : LoopState) : Prop where
  cfg : s.captain.cfg = c.cfg
  injected : s.captain.injectedTasks = c.injectedTasks
  remaining : ∀ t, s.remaining.lookup t = if t ∈ s.ranIds then none else plan.lastDeps t
  proper : ∀ e ∈ s.ran, LoopState.ProperCrew plan env c.cfg e
  turns : ∀ t ∈ s.ranIds, GetsTurn plan env t
  nodup : s.ranIds.Nodup
  runningNodup : s.running.Nodup
  running : ∀ t ∈ s.running, t ∈ s.ranIds
  /-- A crew that was heard of did not panic. -/
  heard : ∀ t ∈ s.ranIds, t ∉ s.running → (env.outcome t).isPanic = false
  completed : ∀ t, t ∈ s.completed ↔
    t ∈ s.ranIds ∧ t ∉ s.running ∧ (env.outcome t).isDone = true
  failed : ∀ t, t ∈ s.captain.failed ↔
    t ∈ c.failed ∨ (t ∈ s.ranIds ∧ t ∉ s.running ∧ (env.outcome t).isFailure = true)

namespace LoopInv

variable {s s' : LoopState}

theorem ready_turn (h : LoopInv c plan planId env s) {t : TaskId} (ht : t ∈ s.readyTasks) :
    t ∉ s.ranIds ∧ GetsTurn plan env t := by
  obtain ⟨deps, hl, hdone⟩ := LoopState.mem_readyTasks.mp ht
  rw [h.remaining] at hl
  split at hl
  · cases hl
  · rename_i hnew
    exact ⟨hnew, .turn hl (fun d hd => h.turns d ((h.completed d).mp (hdone d hd)).1)
      fun d hd => ((h.completed d).mp (hdone d hd)).2.2⟩

theorem spawned (h : LoopInv c plan planId env s) {ts : List TaskId} (hnd : ts.Nodup)
    (hready : ∀ t ∈ ts, t ∈ s.readyTasks) (hsp : LoopState.Spawned plan env s s' ts) :
    LoopInv c plan planId env s' := by
  obtain ⟨new, hran, hids, hproper⟩ := hsp.ran
  have hnew : ∀ t ∈ ts, t ∉ s.ranIds := fun t ht => (h.ready_turn (hready t ht)).1
  have hranIds : s'.ranIds = s.ranIds ++ ts := by
    rw [LoopState.ranIds, hran, List.map_append, hids]
    rfl
  have hold : ∀ t, t ∈ s'.ranIds ∧ t ∉ s'.running ↔ t ∈ s.ranIds ∧ t ∉ s.running := by
    intro t
    rw [hranIds, hsp.running, List.mem_append, List.mem_append, not_or]
    constructor
    · intro hh
      exact ⟨hh.1.resolve_right hh.2.2, hh.2.1⟩
    · intro hh
      exact ⟨.inl hh.1, hh.2, fun ht => hnew t ht hh.1⟩
  refine ⟨?_, ?_, fun t => ?_, fun e he => ?_, fun t ht => ?_, ?_, ?_, fun t ht => ?_,
    fun t ht hno => ?_, fun t => ?_, fun t => ?_⟩
  · rw [hsp.captain, h.cfg]
  · rw [hsp.captain, h.injected]
  · rw [hsp.remaining, h.remaining, hranIds]
    by_cases ht : t ∈ ts
    · simp [ht]
    · simp [ht]
  · rw [hran] at he
    rcases List.mem_append.mp he with he | he
    · exact h.proper e he
    · rw [← h.cfg]
      exact hproper e he
  · rw [hranIds] at ht
    rcases List.mem_append.mp ht with ht | ht
    · exact h.turns t ht
    · exact (h.ready_turn (hready t ht)).2
  · rw [hranIds]
    exact h.nodup.append hnd fun t ht ht' => hnew t ht' ht
  · rw [hsp.running]
    exact h.runningNodup.append hnd fun t ht ht' => hnew t ht' (h.running t ht)
  · rw [hsp.running] at ht
    rw [hranIds]
    exact List.mem_append.mpr ((List.mem_append.mp ht).imp (h.running t) id)
  · obtain ⟨ht, hno⟩ := (hold t).mp ⟨ht, hno⟩
    exact h.heard t ht hno
  · rw [hsp.completed, h.completed, ← and_assoc, ← and_assoc, hold]
  · rw [hsp.captain, h.failed, ← and_assoc, ← and_assoc, hold]

theorem received (h : LoopInv c plan planId env s) {t : TaskId} {r : Except String CrewOutcome}
    (ht : t ∈ s.running) (hr : env.outcome t = .returned r) :
    LoopInv c plan planId env (s.receive planId t r) := by
  have hran := h.running t ht
  have hrunning : (s.receive planId t r).running = s.running.erase t := by
    unfold LoopState.receive
    split <;> rfl
  have hids : (s.receive planId t r).ranIds = s.ranIds := by
    unfold LoopState.receive
    split <;> rfl
  have hmem : ∀ u, u ∈ (s.receive planId t r).running ↔ u ≠ t ∧ u ∈ s.running := by
    intro u
    rw [hrunning, h.runningNodup.mem_erase_iff]
  -- heard of now: the tasks heard of before, and `t`
  have hheard : ∀ u, u ∈ s.ranIds ∧ u ∉ (s.receive planId t r).running ↔
      u = t ∨ (u ∈ s.ranIds ∧ u ∉ s.running) := by
    intro u
    rw [hmem]
    by_cases hut : u = t
    · subst hut
      simp [hran]
    · simp [hut]
  have hcompleted : ∀ u, u ∈ (s.receive planId t r).completed ↔
      u ∈ s.completed ∨ (u = t ∧ (env.outcome t).isDone = true) := by
    intro u
    rw [hr]
    unfold LoopState.receive
    split <;> simp [CrewEnd.isDone, or_comm]
  have hfailed : ∀ u, u ∈ (s.receive planId t r).captain.failed ↔
      u ∈ s.captain.failed ∨ (u = t ∧ (env.outcome t).isFailure = true) := by
    intro u
    rw [hr]
    unfold LoopState.receive
    split <;> simp [CrewEnd.isFailure, or_comm]
  refine ⟨?_, ?_, fun u => ?_, fun e he => ?_, fun u hu => ?_, ?_, ?_, fun u hu => ?_,
    fun u hu hno => ?_, fun u => ?_, fun u => ?_⟩
  · rw [← h.cfg]
    unfold LoopState.receive
    split <;> rfl
  · rw [← h.injected]
    unfold LoopState.receive
    split <;> rfl
  · rw [hids, ← h.remaining]
    unfold LoopState.receive
    split <;> rfl
  · refine h.proper e ?_
    unfold LoopState.receive at he
    split at he <;> exact he
  · exact h.turns u (hids ▸ hu)
  · rw [hids]
    exact h.nodup
  · rw [hrunning]
    exact h.runningNodup.erase t
  · rw [hids]
    exact h.running u ((hmem u).mp hu).2
  · rw [hids] at hu
    rcases (hheard u).mp ⟨hu, hno⟩ with rfl | ⟨hu, hno⟩
    · rw [hr]
      rfl
    · exact h.heard u hu hno
  · rw [hcompleted, h.completed, hids, ← and_assoc, ← and_assoc, hheard]
    constructor
    · intro hh
      rcases hh with hh | ⟨rfl, hd⟩
      · exact ⟨.inr hh.1, hh.2⟩
      · exact ⟨.inl rfl, hd⟩
    · intro hh
      rcases hh with ⟨rfl | hu, hd⟩
      · exact .inr ⟨rfl, hd⟩
      · exact .inl ⟨hu, hd⟩
  · rw [hfailed, h.failed, hids, ← and_assoc, ← and_assoc, hheard, or_assoc]
    refine or_congr Iff.rfl ⟨fun hh => ?_, fun hh => ?_⟩
    · rcases hh with hh | ⟨rfl, hd⟩
      · exact ⟨.inr hh.1, hh.2⟩
      · exact ⟨.inl rfl, hd⟩
    · rcases hh with ⟨rfl | hu, hd⟩
      · exact .inr ⟨rfl, hd⟩
      · exact .inl ⟨hu, hd⟩

theorem all_turns (h : LoopInv c plan planId env s) (hsettled : s.readyTasks = [])
    (hpanicked : ∀ t ∈ s.running, env.outcome t = .panicked) {t : TaskId}
    (ht : GetsTurn plan env t) : t ∈ s.ranIds := by
  induction ht with
  | @turn t deps hdeps _ hdone ih =>
    by_contra hno
    have hready : t ∈ s.readyTasks := by
      refine LoopState.mem_readyTasks.mpr ⟨deps, by rw [h.remaining, if_neg hno, hdeps], ?_⟩
      intro d hd
      refine (h.completed d).mpr ⟨ih d hd, fun hrun => ?_, hdone d hd⟩
      have hd' := hdone d hd
      rw [hpanicked d hrun] at hd'
      cases hd'
    rw [hsettled] at hready
    cases hready

end LoopInv

theorem settled_of_spawned {s s' : LoopState} {ts : List TaskId}
    (hall : ∀ t ∈ s.readyTasks, t ∈ ts) (hsp : LoopState.Spawned plan env s s' ts) :
    s'.readyTasks = [] := by
  refine List.eq_nil_iff_forall_not_mem.mpr fun t ht => ?_
  obtain ⟨deps, hl, hdone⟩ := LoopState.mem_readyTasks.mp ht
  rw [hsp.remaining] at hl
  rw [hsp.completed] at hdone
  split at hl
  · cases hl
  · rename_i hno
    exact hno (hall t (LoopState.mem_readyTasks.mpr ⟨deps, hl, hdone⟩))

/-- How the scheduling loop of a captain that started as `c` may stop. -/
def LoopSpec (c : Captain) (plan : Plan) (planId : PlanId) (env : Environment) :
    LoopState × LoopEnd → Prop
  | (s, .finished) => LoopInv c plan planId env s ∧ s.readyTasks = [] ∧ s.running = []
  | (s, .failed _) => ∃ t, GetsTurn plan env t ∧ LacksModel c.cfg plan env t ∧ t ∉ s.ranIds
  | (s, .hangs) => LoopInv c plan planId env s ∧ s.readyTasks = [] ∧ s.running ≠ [] ∧
      ∀ t ∈ s.running, env.outcome t = .panicked

theorem schedule_spec (s : LoopState) (h : LoopInv c plan planId env s) :
    LoopSpec c plan planId env (schedule plan planId env s) := by
  induction s using schedule.induct plan planId env with
  | case1 s ready hend =>
    rw [schedule, if_pos hend]
    exact ⟨h, (env.readyOrder.arrange_eq_nil _).mp hend.1, hend.2⟩
  | case2 s ready hgo s' e hsp =>
    have hready : ∀ t ∈ ready, t ∈ s.readyTasks := fun t => (env.readyOrder.mem_arrange _ t).mp
    have hnd : ready.Nodup := env.readyOrder.nodup_arrange s.nodup_readyTasks
    obtain ⟨before, t, after, s₁, hsplit, hsp₁, hran, hbad⟩ := LoopState.spawnAll_error _ hsp
    rw [hsplit] at hnd hready
    have hnd₁ := hnd.of_append_left
    have h₁ := h.spawned hnd₁ (fun u hu => hready u (List.mem_append_left _ hu))
      (LoopState.spawnAll_ok _ hsp₁)
    obtain ⟨hnew, hturn⟩ := h.ready_turn (hready t (by simp))
    have hids : s'.ranIds = s.ranIds ++ before := by
      obtain ⟨new, hran₁, hnew₁, -⟩ := (LoopState.spawnAll_ok _ hsp₁).ran
      rw [LoopState.ranIds, hran, hran₁, List.map_append, hnew₁]
      rfl
    have hno : t ∉ s'.ranIds := by
      rw [hids, List.mem_append, not_or]
      refine ⟨hnew, fun hb => ?_⟩
      exact (List.nodup_append.mp hnd).2.2 t hb t List.mem_cons_self rfl
    rw [schedule_round hgo, hsp]
    refine ⟨t, hturn, ?_, hno⟩
    rcases hbad with hnone | hbad
    · obtain ⟨node, hnode⟩ := Plan.exists_findTask hturn.mem_ids
      rw [hnode] at hnone
      cases hnone
    · rw [← h.cfg]
      exact hbad
  | case3 s ready hgo s' hsp hidle =>
    have hready : ∀ t ∈ ready, t ∈ s.readyTasks := fun t => (env.readyOrder.mem_arrange _ t).mp
    have hnd : ready.Nodup := env.readyOrder.nodup_arrange s.nodup_readyTasks
    have hspawned := LoopState.spawnAll_ok _ hsp
    rw [schedule_round hgo, hsp]
    simp only [if_pos hidle]
    exact ⟨h.spawned hnd hready hspawned,
      settled_of_spawned (fun t => (env.readyOrder.mem_arrange _ t).mpr) hspawned, hidle⟩
  | case4 s ready hgo s' hsp hbusy hmsg =>
    have hready : ∀ t ∈ ready, t ∈ s.readyTasks := fun t => (env.readyOrder.mem_arrange _ t).mp
    have hnd : ready.Nodup := env.readyOrder.nodup_arrange s.nodup_readyTasks
    have hspawned := LoopState.spawnAll_ok _ hsp
    rw [schedule_round hgo, hsp]
    simp only [if_neg hbusy, hmsg]
    exact ⟨h.spawned hnd hready hspawned,
      settled_of_spawned (fun t => (env.readyOrder.mem_arrange _ t).mpr) hspawned, hbusy,
      LoopState.nextMessage_none hmsg⟩
  | case5 s ready hgo s' hsp hbusy t r hmsg ih =>
    have hready : ∀ t ∈ ready, t ∈ s.readyTasks := fun t => (env.readyOrder.mem_arrange _ t).mp
    have hnd : ready.Nodup := env.readyOrder.nodup_arrange s.nodup_readyTasks
    have h' := h.spawned hnd hready (LoopState.spawnAll_ok _ hsp)
    obtain ⟨hrun, hr⟩ := LoopState.nextMessage_some hmsg
    rw [schedule_round hgo, hsp]
    simp only [if_neg hbusy, hmsg]
    exact ih (h'.received hrun hr)

def CrewModel (cfg : OrchConfig) (env : Environment) : Prop :=
  ∃ config, cfg.llmFor env.decrypt .crew = .ok config

def InjectedPanics (c : Captain) (env : Environment) : Prop :=
  CrewModel c.cfg env ∧ ∃ i < c.injectedTasks.length, (env.injectedOutcome i).isPanic = true

/-- Every injected task has a model and ends `Done`. -/
def InjectedDone (c : Captain) (env : Environment) : Prop :=
  ∀ i < c.injectedTasks.length, CrewModel c.cfg env ∧ (env.injectedOutcome i).isDone = true

/-- The crews of the injected tasks from position `i` on. -/
def injectedCrews (env : Environment) : ℕ → List InjectedTask → List (InjectedTask × CrewEnd)
  | _, [] => []
  | i, inj :: rest => (inj, env.injectedOutcome i) :: injectedCrews env (i + 1) rest

/-- What the loop over the injected tasks has done when it stops. -/
structure InjectedSpec (planId : PlanId) (env : Environment) (i : ℕ) (rest : List InjectedTask)
    (s s' : InjectedState) (ok : Bool) : Prop where
  failed : s'.captain.failed = s.captain.failed
  noModel : ¬ CrewModel s.captain.cfg env → ok = true ∧ s'.ran = s.ran
  model : CrewModel s.captain.cfg env →
    (ok = false ↔ ∃ k < rest.length, (env.injectedOutcome (i + k)).isPanic = true) ∧
    (ok = true → s'.ran = s.ran ++ injectedCrews env i rest) ∧
    ∃ pre, pre.Sublist (injectedCrews env i rest) ∧ s'.ran = s.ran ++ pre

theorem InjectedSpec.cons {i : ℕ} {inj : InjectedTask} {rest : List InjectedTask}
    {s s₁ s' : InjectedState} {ok : Bool} (hmodel : CrewModel s.captain.cfg env)
    (hreturned : (env.injectedOutcome i).isPanic = false)
    (hcfg : s₁.captain.cfg = s.captain.cfg) (hfailed : s₁.captain.failed = s.captain.failed)
    (hran : s₁.ran = s.ran ++ [(inj, env.injectedOutcome i)])
    (h : InjectedSpec planId env (i + 1) rest s₁ s' ok) :
    InjectedSpec planId env i (inj :: rest) s s' ok := by
  refine ⟨h.failed.trans hfailed, fun hno => absurd hmodel hno, fun _ => ?_⟩
  obtain ⟨hpanic, hall, pre, hpre, hran'⟩ := h.model (hcfg ▸ hmodel)
  refine ⟨?_, fun hok => ?_, _, hpre.cons_cons (inj, env.injectedOutcome i), ?_⟩
  · rw [hpanic, List.length_cons, Nat.exists_lt_succ_left]
    simp only [Nat.add_zero, hreturned, Bool.false_eq_true, false_or]
    refine exists_congr fun k => and_congr Iff.rfl ?_
    rw [Nat.add_right_comm, Nat.add_assoc]
  · rw [hall hok, hran, List.append_assoc]
    rfl
  · rw [hran', hran, List.append_assoc]
    rfl

theorem runInjected_spec (planId : PlanId) (env : Environment) (i : ℕ) (rest : List InjectedTask) (s : InjectedState) :
    InjectedSpec planId env i rest s (runInjected planId env i rest s).1
      (runInjected planId env i rest s).2 := by
  induction rest generalizing i s with
  | nil =>
    refine ⟨rfl, fun _ => ⟨rfl, rfl⟩, fun _ => ⟨?_, fun _ => ?_, [], List.nil_sublist _, ?_⟩⟩
    · simp [runInjected]
    · simp [runInjected, injectedCrews]
    · simp [runInjected]
  | cons inj rest ih =>
    cases hl : s.captain.cfg.llmForTask env.decrypt inj.toTaskNode with
    | error e =>
      have hskip : runInjected planId env i (inj :: rest) s = runInjected planId env (i + 1) rest s := by
        simp only [runInjected, hl]
      have hno : ¬ CrewModel s.captain.cfg env := by
        intro hm
        obtain ⟨config, hconfig⟩ := hm
        cases hl.symm.trans hconfig
      have hrest := ih (i + 1) s
      rw [hskip]
      exact ⟨hrest.failed, hrest.noModel, fun hm => absurd hm hno⟩
    | ok config =>
      have hmodel : CrewModel s.captain.cfg env := ⟨config, hl⟩
      cases ho : env.injectedOutcome i with
      | panicked =>
        have hstop : runInjected planId env i (inj :: rest) s =
            ({ s with ran := s.ran ++ [(inj, .panicked)] }, false) := by
          simp only [runInjected, hl, ho]
        rw [hstop]
        refine ⟨rfl, fun hno => absurd hmodel hno, fun _ => ⟨⟨fun _ => ?_, fun _ => rfl⟩, nofun,
          [(inj, .panicked)], ?_, rfl⟩⟩
        · exact ⟨0, Nat.succ_pos _, by rw [Nat.add_zero, ho]; rfl⟩
        · rw [injectedCrews, ho]
          exact (List.nil_sublist _).cons_cons _
      | returned r =>
        have hreturned : (env.injectedOutcome i).isPanic = false := by
          rw [ho]
          rfl
        cases r with
        | error e =>
          have hgo : runInjected planId env i (inj :: rest) s = runInjected planId env (i + 1) rest
              { s with ran := s.ran ++ [(inj, env.injectedOutcome i)] } := by
            simp only [runInjected, hl, ho]
          rw [hgo]
          refine InjectedSpec.cons hmodel hreturned ?_ ?_ ?_ (ih _ _)
          · rfl
          · rfl
          · rfl
        | ok outcome =>
          have hgo : runInjected planId env i (inj :: rest) s = runInjected planId env (i + 1) rest
              { captain := { s.captain with completed := s.captain.completed.insert inj.id outcome }
                events := s.events ++ [.mergeCompleted planId (planId ++ "-" ++ inj.id)]
                ran := s.ran ++ [(inj, env.injectedOutcome i)] } := by
            simp only [runInjected, hl, ho]
          rw [hgo]
          refine InjectedSpec.cons hmodel hreturned ?_ ?_ ?_ (ih _ _)
          · rfl
          · rfl
          · rfl

/-! ### The verdict -/

/-- The tasks whose crews ended `Done`. -/
def doneOf {α : Type} (ran : List (α × CrewEnd)) : List α :=
  (ran.filter (fun e => e.2.isDone)).map Prod.fst

/-- Every task of the graph and every injected task ran, each in a crew of its own, and
ended `Done`. -/
def AllDone (plan : Plan) (injected : List InjectedTask) (r : PlanRun) : Prop :=
  plan.tasks.Subperm (doneOf r.ran) ∧ injected.Subperm (doneOf r.ranInjected)

def PlanRun.SaysCompleted (r : PlanRun) (planId : PlanId) : Prop :=
  (∃ sandboxId, r.finish = .returned (.ok (.completed sandboxId))) ∧
    Event.planCompleted planId ∈ r.events

def PlanRun.SaysFailed (r : PlanRun) : Prop :=
  (∃ reason sandboxId, r.finish = .returned (.ok (.failed reason sandboxId))) ∨
    ∃ e, r.finish = .returned (.error e)

/-- `start_plan` reports completion exactly when all tasks ended `Done`, and otherwise a
failure. -/
def Truthful (c : Captain) (planId : PlanId) (plan : Plan) (env : Environment) : Prop :=
  ((c.startPlan planId plan env).SaysCompleted planId ↔
      AllDone plan c.injectedTasks (c.startPlan planId plan env)) ∧
    (¬ AllDone plan c.injectedTasks (c.startPlan planId plan env) →
      (c.startPlan planId plan env).SaysFailed)

def VerdictCondition (c : Captain) (plan : Plan) (env : Environment) : Prop :=
  (∃ t, GetsTurn plan env t ∧ LacksModel c.cfg plan env t) ∨
    ((∀ t, GetsTurn plan env t → (env.outcome t).isPanic = false) ∧ ¬ InjectedPanics c env ∧
      ((∃ t, GetsTurn plan env t ∧ (env.outcome t).isFailure = true) ∨
        (c.failed.entries = [] ↔
          plan.ids.Nodup ∧ (∀ t ∈ plan.ids, GetsTurn plan env t) ∧ InjectedDone c env)))

theorem LoopInv.doneIds_subset {s : LoopState} (h : LoopInv c plan planId env s) :
    ∀ node ∈ doneOf s.ran, node.id ∈ s.ranIds ∧ (env.outcome node.id).isDone = true := by
  intro node hnode
  obtain ⟨e, he, rfl⟩ := List.mem_map.mp hnode
  obtain ⟨hmem, hdone⟩ := List.mem_filter.mp he
  exact ⟨List.mem_map.mpr ⟨e, hmem, rfl⟩, (h.proper e hmem).2.1 ▸ hdone⟩

/-- The crews of the graph all ended `Done` exactly when the ids are distinct and every
task got its turn and ended `Done`. -/
theorem LoopInv.tasks_done_iff {s : LoopState} (h : LoopInv c plan planId env s) :
    plan.tasks.Subperm (doneOf s.ran) ↔
      plan.ids.Nodup ∧ ∀ t ∈ plan.ids, t ∈ s.ranIds ∧ (env.outcome t).isDone = true := by
  constructor
  · intro hsub
    refine ⟨?_, fun t ht => ?_⟩
    · obtain ⟨l, hl, hsl⟩ := hsub
      have hran : ((doneOf s.ran).map TaskNode.id).Sublist s.ranIds := by
        rw [doneOf, List.map_map]
        exact List.filter_sublist.map _
      exact (hl.map TaskNode.id).nodup_iff.mp (h.nodup.sublist ((hsl.map _).trans hran))
    · obtain ⟨task, htask, rfl⟩ := List.mem_map.mp ht
      exact h.doneIds_subset task (hsub.subset htask)
  · intro hall
    obtain ⟨hnd, hall⟩ := hall
    refine List.subperm_of_subset (List.Nodup.of_map _ hnd) fun task htask => ?_
    obtain ⟨hran, hdone⟩ := hall task.id (List.mem_map.mpr ⟨task, htask, rfl⟩)
    obtain ⟨e, he, hid⟩ := List.mem_map.mp hran
    obtain ⟨hnode, hend, -⟩ := h.proper e he
    rw [hid, Plan.findTask_of_mem hnd htask] at hnode
    refine List.mem_map.mpr ⟨e, List.mem_filter.mpr ⟨he, ?_⟩, (Option.some.inj hnode).symm⟩
    rw [hend, hid]
    exact hdone

theorem length_injectedCrews (i : ℕ) (rest : List InjectedTask) :
    (injectedCrews env i rest).length = rest.length := by
  induction rest generalizing i with
  | nil => rfl
  | cons inj rest ih => rw [injectedCrews, List.length_cons, ih, List.length_cons]

theorem injected_done_iff (i : ℕ) (rest : List InjectedTask) :
    rest.Subperm (doneOf (injectedCrews env i rest)) ↔
      ∀ k < rest.length, (env.injectedOutcome (i + k)).isDone = true := by
  constructor
  · intro hsub
    have hlen := hsub.length_le
    rw [doneOf, List.length_map] at hlen
    have hfull : ((injectedCrews env i rest).filter (fun e => e.2.isDone)).length =
        (injectedCrews env i rest).length :=
      Nat.le_antisymm (List.length_filter_le _ _) (by rw [length_injectedCrews]; exact hlen)
    have hall := List.length_filter_eq_length_iff.mp hfull
    clear hsub hlen hfull
    induction rest generalizing i with
    | nil => simp
    | cons inj rest ih =>
      intro k hk
      cases k with
      | zero => exact hall _ List.mem_cons_self
      | succ k =>
        have hrest := ih (i + 1) (fun e he => hall e (List.mem_cons_of_mem _ he)) k
          (Nat.lt_of_succ_lt_succ hk)
        rwa [Nat.add_right_comm] at hrest
  · intro hall
    have heq : doneOf (injectedCrews env i rest) = rest := by
      induction rest generalizing i with
      | nil => rfl
      | cons inj rest ih =>
        have hdone := hall 0 (Nat.succ_pos _)
        rw [Nat.add_zero] at hdone
        have hrest := ih (i + 1) fun k hk => by
          have hk' := hall (k + 1) (Nat.succ_lt_succ hk)
          rwa [Nat.add_right_comm]
        rw [injectedCrews, doneOf, List.filter_cons, if_pos hdone, List.map_cons]
        exact congrArg (inj :: ·) hrest
    rw [heq]

theorem LoopInv.start (c : Captain) (plan : Plan) (planId : PlanId) (env : Environment) :
    LoopInv c plan planId env (c.loopStart planId plan) where
  cfg := rfl
  injected := rfl
  remaining t := lookup_buildRemaining plan t
  proper _ h := nomatch h
  turns _ h := nomatch h
  nodup := List.nodup_nil
  runningNodup := List.nodup_nil
  running _ h := nomatch h
  heard _ h := nomatch h
  completed t := by simp [Captain.loopStart, LoopState.ranIds]
  failed t := by simp [Captain.loopStart, LoopState.ranIds]

def LoopState.drained (s : LoopState) : InjectedState :=
  ⟨{ s.captain with injectedTasks := [] }, s.events, []⟩

theorem conclude_cases (s : LoopState) (planId : PlanId) (sandboxId : String) (env : Environment) :
    ∃ i ok, runInjected planId env 0 s.captain.injectedTasks s.drained = (i, ok) ∧
      InjectedSpec planId env 0 s.captain.injectedTasks s.drained i ok ∧
      s.conclude planId sandboxId env = if ok = true then
        ⟨i.captain, .returned (.ok (i.captain.verdict planId sandboxId env).2),
          i.events ++ [(i.captain.verdict planId sandboxId env).1], s.ran, i.ran⟩
      else ⟨i.captain, .panicked, i.events, s.ran, i.ran⟩ := by
  have hspec := runInjected_spec planId env 0 s.captain.injectedTasks s.drained
  cases hr : runInjected planId env 0 s.captain.injectedTasks s.drained with
  | mk i ok =>
    rw [hr] at hspec
    refine ⟨i, ok, rfl, hspec, ?_⟩
    rw [LoopState.drained] at hr
    rw [LoopState.conclude, hr]
    cases ok with
    | true => rfl
    | false => rfl

theorem says_verdict (i : InjectedState) (planId : PlanId) (sandboxId : String)
    (ran : List (TaskNode × CrewEnd)) (env : Environment) :
    let r : PlanRun := ⟨i.captain, .returned (.ok (i.captain.verdict planId sandboxId env).2),
      i.events ++ [(i.captain.verdict planId sandboxId env).1], ran, i.ran⟩
    (r.SaysCompleted planId ↔ i.captain.failed.entries = []) ∧
      (r.SaysFailed ↔ i.captain.failed.entries ≠ []) := by
  by_cases hf : i.captain.failed.entries = []
  · have hv : i.captain.verdict planId sandboxId env =
        (.planCompleted planId, .completed sandboxId) := if_pos hf
    simp [PlanRun.SaysCompleted, PlanRun.SaysFailed, hv, hf]
  · obtain ⟨reason, hv⟩ : ∃ reason, i.captain.verdict planId sandboxId env =
        (.planFailed planId reason, .failed reason sandboxId) := ⟨_, if_neg hf⟩
    simp [PlanRun.SaysCompleted, PlanRun.SaysFailed, hv, hf]

theorem failed_eq_nil_iff (m : HashMap TaskId CrewOutcome) : m.entries = [] ↔ ∀ t, t ∉ m := by
  constructor
  · intro h t ht
    rw [AList.mem_keys, AList.keys, h] at ht
    cases ht
  · intro h
    refine List.eq_nil_iff_forall_not_mem.mpr fun e he => h e.1 ?_
    exact AList.mem_keys.mpr (List.mem_map.mpr ⟨e, he, rfl⟩)

theorem truthful_finished {s : LoopState} (h : LoopInv c plan planId env s)
    (hsettled : s.readyTasks = []) (hidle : s.running = [])
    (hstart : c.startPlan planId plan env = s.conclude planId (c.sandboxFor planId) env) :
    Truthful c planId plan env ↔ VerdictCondition c plan env := by
  have hturns : ∀ t, GetsTurn plan env t ↔ t ∈ s.ranIds := fun t =>
    ⟨fun ht => h.all_turns hsettled (by simp [hidle]) ht, h.turns t⟩
  have hmodels : ¬ ∃ t, GetsTurn plan env t ∧ LacksModel c.cfg plan env t := by
    intro hex
    obtain ⟨t, ht, node, e, hnode, hlack⟩ := hex
    obtain ⟨crew, hcrew, rfl⟩ := List.mem_map.mp ((hturns t).mp ht)
    obtain ⟨hfind, -, config, hconfig⟩ := h.proper crew hcrew
    cases hfind.symm.trans hnode
    cases hconfig.symm.trans hlack
  have hheard : ∀ t, GetsTurn plan env t → (env.outcome t).isPanic = false := fun t ht =>
    h.heard t ((hturns t).mp ht) (by simp [hidle])
  have hfailed : s.captain.failed.entries = [] ↔
      c.failed.entries = [] ∧ ∀ t, GetsTurn plan env t → (env.outcome t).isFailure = false := by
    rw [failed_eq_nil_iff, failed_eq_nil_iff, ← forall_and]
    refine forall_congr' fun t => ?_
    rw [h.failed, hturns, hidle]
    simp
  have htasks := h.tasks_done_iff
  simp only [← hturns] at htasks
  obtain ⟨i, ok, -, hspec, hconclude⟩ := conclude_cases s planId (c.sandboxFor planId) env
  have hcfg : s.drained.captain.cfg = c.cfg := h.cfg
  have hnil : s.drained.ran = [] := rfl
  rw [h.injected] at hspec
  -- the injected tasks: what the loop over them shows
  have hpanics : ok = false ↔ InjectedPanics c env := by
    by_cases hm : CrewModel c.cfg env
    · rw [(hspec.model (hcfg ▸ hm)).1]
      simp [InjectedPanics, hm]
    · rw [(hspec.noModel (hcfg ▸ hm)).1]
      simp [InjectedPanics, hm]
  have hinjected : c.injectedTasks.Subperm (doneOf i.ran) → InjectedDone c env := by
    intro hsub
    by_cases hm : CrewModel c.cfg env
    · obtain ⟨-, -, pre, hpre, hran⟩ := hspec.model (hcfg ▸ hm)
      rw [hran, hnil, List.nil_append] at hsub
      have hall := hsub.trans ((hpre.filter _).map Prod.fst).subperm
      intro k hk
      have hdone := (injected_done_iff 0 c.injectedTasks).mp hall k hk
      rw [Nat.zero_add] at hdone
      exact ⟨hm, hdone⟩
    · rw [(hspec.noModel (hcfg ▸ hm)).2, hnil] at hsub
      have hempty : c.injectedTasks = [] := List.subperm_nil.mp hsub
      intro k hk
      rw [hempty] at hk
      cases hk
  have hinjected' : ok = true → InjectedDone c env → c.injectedTasks.Subperm (doneOf i.ran) := by
    intro hok hdone
    by_cases hm : CrewModel c.cfg env
    · rw [(hspec.model (hcfg ▸ hm)).2.1 hok, hnil, List.nil_append, injected_done_iff]
      intro k hk
      rw [Nat.zero_add]
      exact (hdone k hk).2
    · have hempty : c.injectedTasks = [] :=
        List.eq_nil_of_length_eq_zero (Nat.eq_zero_of_not_pos fun hpos => hm (hdone 0 hpos).1)
      rw [hempty]
      exact List.nil_subperm
  cases ok with
  | false =>
    -- the captain panics: neither verdict is given, and the panicking task is not done
    have hpanicked := hpanics.mp rfl
    have hrun := hstart.trans (hconclude.trans (if_neg (by simp)))
    have hfail : ¬ (c.startPlan planId plan env).SaysFailed := by
      rw [hrun]
      simp [PlanRun.SaysFailed]
    have hdone : ¬ AllDone plan c.injectedTasks (c.startPlan planId plan env) := by
      intro hall
      rw [hrun] at hall
      obtain ⟨-, k, hk, hpanic⟩ := hpanicked
      have hd := (hinjected hall.2 k hk).2
      cases ho : env.injectedOutcome k with
      | panicked =>
        rw [ho] at hd
        cases hd
      | returned r =>
        rw [ho] at hpanic
        cases hpanic
    refine ⟨fun htruth => absurd (htruth.2 hdone) hfail, fun hcond => ?_⟩
    rcases hcond with hlack | ⟨-, hno, -⟩
    · exact absurd hlack hmodels
    · exact absurd hpanicked hno
  | true =>
    have hno : ¬ InjectedPanics c env := fun hp => by cases hpanics.mpr hp
    have hrun := hstart.trans (hconclude.trans (if_pos rfl))
    obtain ⟨hsay, hfail⟩ := says_verdict i planId (c.sandboxFor planId) s.ran env
    have hsame : i.captain.failed = s.captain.failed := hspec.failed
    rw [hsame, hfailed] at hsay
    rw [hsame, Ne, hfailed] at hfail
    have hall : AllDone plan c.injectedTasks (c.startPlan planId plan env) ↔
        plan.ids.Nodup ∧ (∀ t ∈ plan.ids, GetsTurn plan env t ∧ (env.outcome t).isDone = true) ∧
          InjectedDone c env := by
      rw [hrun, AllDone, htasks, and_assoc]
      exact and_congr Iff.rfl (and_congr Iff.rfl ⟨hinjected, hinjected' rfl⟩)
    rw [← hrun] at hsay hfail
    rw [Truthful, hall, hsay, hfail]
    by_cases hex : ∃ t, GetsTurn plan env t ∧ (env.outcome t).isFailure = true
    · refine ⟨fun _ => .inr ⟨hheard, hno, .inl hex⟩, fun _ => ?_⟩
      obtain ⟨t, ht, hf⟩ := hex
      have hrecord : ¬ (c.failed.entries = [] ∧
          ∀ u, GetsTurn plan env u → (env.outcome u).isFailure = false) := by
        intro hr
        rw [hr.2 t ht] at hf
        cases hf
      have hundone : ¬ (plan.ids.Nodup ∧
          (∀ u ∈ plan.ids, GetsTurn plan env u ∧ (env.outcome u).isDone = true) ∧
            InjectedDone c env) := by
        intro hd
        rcases (env.outcome t).trichotomy with hcase | hcase | hcase
        · rw [hcase.2.1] at hf
          cases hf
        · rw [(hd.2.1 t ht.mem_ids).2] at hcase
          cases hcase.1
        · rw [hcase.2.1] at hf
          cases hf
      exact ⟨⟨fun hr => absurd hr hrecord, fun hd => absurd hd hundone⟩, fun _ => hrecord⟩
    · -- every crew that ran ended `Done`
      have hdone : ∀ t, GetsTurn plan env t →
          (env.outcome t).isDone = true ∧ (env.outcome t).isFailure = false := by
        intro t ht
        rcases (env.outcome t).trichotomy with hcase | hcase | hcase
        · exact ⟨hcase.1, hcase.2.1⟩
        · exact absurd ⟨t, ht, hcase.2.1⟩ hex
        · rw [hheard t ht] at hcase
          cases hcase.2.2
      have hrecord : (c.failed.entries = [] ∧
          ∀ u, GetsTurn plan env u → (env.outcome u).isFailure = false) ↔ c.failed.entries = [] :=
        and_iff_left fun u hu => (hdone u hu).2
      have hids : (∀ t ∈ plan.ids, GetsTurn plan env t ∧ (env.outcome t).isDone = true) ↔
          ∀ t ∈ plan.ids, GetsTurn plan env t :=
        forall₂_congr fun t _ => and_iff_left_of_imp fun ht => (hdone t ht).1
      rw [hrecord, hids]
      constructor
      · intro htruth
        exact .inr ⟨hheard, hno, .inr htruth.1⟩
      · intro hcond
        rcases hcond with hlack | ⟨-, -, hfails | hiff⟩
        · exact absurd hlack hmodels
        · exact absurd hfails hex
        · exact ⟨hiff, fun hnot hr => hnot (hiff.mp hr)⟩

/-- **The captain's verdict is truthful exactly under `VerdictCondition`**, for every state
earlier commands have left the captain in, every plan, and every outcome and order of
events. -/
theorem verdict_truthful_iff (c : Captain) (planId : PlanId) (plan : Plan) (env : Environment) :
    Truthful c planId plan env ↔ VerdictCondition c plan env := by
  have hspec := schedule_spec (c.loopStart planId plan) (LoopInv.start c plan planId env)
  cases hloop : schedule plan planId env (c.loopStart planId plan) with
  | mk s e =>
    rw [hloop] at hspec
    cases e with
    | finished =>
      obtain ⟨h, hsettled, hidle⟩ := hspec
      refine truthful_finished h hsettled hidle ?_
      rw [Captain.startPlan, hloop]
    | failed err =>
      -- an error is returned, and the task that has no model did not run
      obtain ⟨t, hturn, hlack, hno⟩ := hspec
      have hrun : c.startPlan planId plan env =
          ⟨s.captain, .returned (.error err), s.events, s.ran, []⟩ := by
        rw [Captain.startPlan, hloop]
      have hfailed : (c.startPlan planId plan env).SaysFailed := .inr ⟨err, by rw [hrun]⟩
      have hsay : ¬ (c.startPlan planId plan env).SaysCompleted planId := by
        rw [hrun]
        simp [PlanRun.SaysCompleted]
      have hdone : ¬ AllDone plan c.injectedTasks (c.startPlan planId plan env) := by
        intro hall
        obtain ⟨node, hnode⟩ := Plan.exists_findTask hturn.mem_ids
        obtain ⟨hmem, rfl⟩ := Plan.findTask_some hnode
        rw [hrun] at hall
        obtain ⟨crew, hcrew, hcrew'⟩ := List.mem_map.mp (hall.1.subset hmem)
        exact hno (List.mem_map.mpr ⟨crew, (List.mem_filter.mp hcrew).1, by rw [hcrew']⟩)
      exact ⟨fun _ => .inl ⟨t, hturn, hlack⟩,
        fun _ => ⟨⟨fun h => absurd h hsay, fun h => absurd h hdone⟩, fun _ => hfailed⟩⟩
    | hangs =>
      obtain ⟨h, hsettled, hbusy, hpanicked⟩ := hspec
      obtain ⟨t, ht⟩ := List.exists_mem_of_ne_nil _ hbusy
      have hrun : c.startPlan planId plan env = ⟨s.captain, .hangs, s.events, s.ran, []⟩ := by
        rw [Captain.startPlan, hloop]
      have hturn : GetsTurn plan env t := h.turns t (h.running t ht)
      have hpanic : (env.outcome t).isPanic = true := by
        rw [hpanicked t ht]
        rfl
      have hfailed : ¬ (c.startPlan planId plan env).SaysFailed := by
        rw [hrun]
        simp [PlanRun.SaysFailed]
      have hdone : ¬ AllDone plan c.injectedTasks (c.startPlan planId plan env) := by
        intro hall
        rw [hrun] at hall
        have hd := ((h.tasks_done_iff.mp hall.1).2 t hturn.mem_ids).2
        rw [hpanicked t ht] at hd
        cases hd
      refine ⟨fun htruth => absurd (htruth.2 hdone) hfailed, fun hcond => ?_⟩
      rcases hcond with ⟨u, hu, hlack⟩ | ⟨hnone, -⟩
      · obtain ⟨crew, hcrew, rfl⟩ := List.mem_map.mp (h.all_turns hsettled hpanicked hu)
        obtain ⟨hfind, -, config, hconfig⟩ := h.proper crew hcrew
        obtain ⟨node, e, hnode, hlack⟩ := hlack
        cases hfind.symm.trans hnode
        cases hconfig.symm.trans hlack
      · rw [hnone t hturn] at hpanic
        cases hpanic

theorem LoopInv.has_model {s : LoopState} (h : LoopInv c plan planId env s) {t : TaskId}
    (ht : t ∈ s.ranIds) : ¬ LacksModel c.cfg plan env t := by
  rintro ⟨node, e, hnode, hlack⟩
  obtain ⟨crew, hcrew, rfl⟩ := List.mem_map.mp ht
  obtain ⟨hfind, -, config, hconfig⟩ := h.proper crew hcrew
  cases hfind.symm.trans hnode
  cases hconfig.symm.trans hlack

theorem CrewEnd.isPanic_eq_false (e : CrewEnd) (h : e.isDone = true ∨ e.isFailure = true) :
    e.isPanic = false := by
  cases e with
  | panicked => exact h.elim nofun nofun
  | returned r => rfl

/-- **The scheduling loop does not depend on the order of events.**  In whatever order ready tasks
are spawned and crews are heard of: it fails exactly when a task that gets its turn lacks a model,
and otherwise it waits for ever exactly when one of them panics; it has spawned each task that gets
its turn, once, and has on record which of them are done and which have failed. -/
theorem schedule_outcome (c : Captain) (planId : PlanId) (plan : Plan) (env : Environment) :
    ((∃ err, (schedule plan planId env (c.loopStart planId plan)).2 = .failed err) ↔
      ∃ t, GetsTurn plan env t ∧ LacksModel c.cfg plan env t) ∧
    ((schedule plan planId env (c.loopStart planId plan)).2 = .hangs ↔
      (∀ t, GetsTurn plan env t → ¬ LacksModel c.cfg plan env t) ∧
        ∃ t, GetsTurn plan env t ∧ (env.outcome t).isPanic = true) ∧
    ((∀ t, GetsTurn plan env t → ¬ LacksModel c.cfg plan env t) →
      (schedule plan planId env (c.loopStart planId plan)).1.ranIds.Nodup ∧ ∀ t,
        (t ∈ (schedule plan planId env (c.loopStart planId plan)).1.ranIds ↔ GetsTurn plan env t) ∧
        (t ∈ (schedule plan planId env (c.loopStart planId plan)).1.completed ↔
          GetsTurn plan env t ∧ (env.outcome t).isDone = true) ∧
        (t ∈ (schedule plan planId env (c.loopStart planId plan)).1.captain.failed ↔
          t ∈ c.failed ∨ GetsTurn plan env t ∧ (env.outcome t).isFailure = true)) := by
  have hspec := schedule_spec _ (LoopInv.start c plan planId env)
  generalize schedule plan planId env (c.loopStart planId plan) = run at hspec ⊢
  obtain ⟨s, e⟩ := run
  by_cases hfailed : ∃ err, e = .failed err
  · obtain ⟨err, rfl⟩ := hfailed
    obtain ⟨t, hturn, hlack, -⟩ := hspec
    have hno : ¬ ∀ t, GetsTurn plan env t → ¬ LacksModel c.cfg plan env t := fun hall =>
      hall t hturn hlack
    exact ⟨⟨fun _ => ⟨t, hturn, hlack⟩, fun _ => ⟨err, rfl⟩⟩, ⟨nofun, fun h => absurd h.1 hno⟩,
      fun hall => absurd hall hno⟩
  · -- a loop that has not failed has settled, and only crews that panicked are still out
    obtain ⟨h, hsettled, hout⟩ : LoopInv c plan planId env s ∧ s.readyTasks = [] ∧
        ∀ t ∈ s.running, env.outcome t = .panicked := by
      cases e with
      | finished => exact ⟨hspec.1, hspec.2.1, by simp [hspec.2.2]⟩
      | hangs => exact ⟨hspec.1, hspec.2.1, hspec.2.2.2⟩
      | failed err => exact absurd ⟨err, rfl⟩ hfailed
    have hturns : ∀ t, t ∈ s.ranIds ↔ GetsTurn plan env t := fun t =>
      ⟨h.turns t, fun ht => h.all_turns hsettled hout ht⟩
    have hmodels : ∀ t, GetsTurn plan env t → ¬ LacksModel c.cfg plan env t := fun t ht =>
      h.has_model ((hturns t).mpr ht)
    have hheard : ∀ t, (env.outcome t).isPanic = false → t ∉ s.running := fun t ht hrun => by
      rw [hout t hrun] at ht
      cases ht
    refine ⟨⟨fun hex => absurd hex hfailed, fun ⟨t, ht, hlack⟩ => absurd hlack (hmodels t ht)⟩, ?_,
      fun _ => ⟨h.nodup, fun t => ⟨hturns t, ?_, ?_⟩⟩⟩
    · rw [and_iff_right hmodels]
      constructor
      · rintro rfl
        obtain ⟨-, -, hbusy, -⟩ := hspec
        obtain ⟨t, ht⟩ := List.exists_mem_of_ne_nil _ hbusy
        exact ⟨t, h.turns t (h.running t ht), by rw [hout t ht]; rfl⟩
      · rintro ⟨t, ht, hpanic⟩
        cases e with
        | hangs => rfl
        | failed err => exact absurd ⟨err, rfl⟩ hfailed
        | finished =>
          obtain ⟨-, -, hidle⟩ := hspec
          have hquiet := h.heard t ((hturns t).mpr ht) (by simp [hidle])
          exact Bool.noConfusion (hquiet.symm.trans hpanic)
    · rw [h.completed, hturns]
      refine and_congr_right fun _ => and_iff_right_of_imp fun hdone => hheard t ?_
      exact (env.outcome t).isPanic_eq_false (.inl hdone)
    · rw [h.failed, hturns]
      refine or_congr_right (and_congr_right fun _ => and_iff_right_of_imp fun hfail => hheard t ?_)
      exact (env.outcome t).isPanic_eq_false (.inr hfail)

/-- A fresh captain without injected tasks, when every task has a model: it spawns the
tasks that get their turn, waits for ever if one of them panics, and otherwise reports
whether one of them failed. -/
theorem startPlan_fresh (cfg : OrchConfig) (planId : PlanId) (plan : Plan) (env : Environment)
    (hmodels : ∀ t, GetsTurn plan env t → ¬ LacksModel cfg plan env t) :
    (∀ t, (∃ e ∈ ((Captain.new cfg).startPlan planId plan env).ran, e.1.id = t) ↔
      GetsTurn plan env t) ∧
    ((∃ t, GetsTurn plan env t ∧ (env.outcome t).isPanic = true) ∧
        ((Captain.new cfg).startPlan planId plan env).finish = .hangs ∨
      (∀ t, GetsTurn plan env t → (env.outcome t).isPanic = false) ∧
        ∃ failed : HashMap TaskId CrewOutcome,
          ((Captain.new cfg).startPlan planId plan env).finish =
            .returned (.ok (verdictOf failed planId ("conv-" ++ planId) env).2) ∧
          (failed.entries = [] ↔
            ∀ t, GetsTurn plan env t → (env.outcome t).isFailure = false)) := by
  have hspec := schedule_spec _ (LoopInv.start (Captain.new cfg) plan planId env)
  cases hloop : schedule plan planId env ((Captain.new cfg).loopStart planId plan) with
  | mk s e =>
    rw [hloop] at hspec
    cases e with
    | finished =>
      obtain ⟨h, hsettled, hidle⟩ := hspec
      have hturns : ∀ t, GetsTurn plan env t ↔ t ∈ s.ranIds := fun t =>
        ⟨fun ht => h.all_turns hsettled (by simp [hidle]) ht, h.turns t⟩
      have hinj : s.captain.injectedTasks = [] := h.injected
      have hrun : (Captain.new cfg).startPlan planId plan env =
          s.conclude planId ("conv-" ++ planId) env := by
        rw [Captain.startPlan, hloop]
        rfl
      have hconclude : s.conclude planId ("conv-" ++ planId) env =
          ⟨{ s.captain with injectedTasks := [] },
            .returned (.ok (verdictOf s.captain.failed planId ("conv-" ++ planId) env).2),
            s.events ++ [(verdictOf s.captain.failed planId ("conv-" ++ planId) env).1],
            s.ran, []⟩ := by
        rw [LoopState.conclude, hinj]
        rfl
      rw [hrun, hconclude]
      refine ⟨fun t => by rw [hturns, LoopState.ranIds, List.mem_map], .inr ⟨fun t ht => ?_, ?_⟩⟩
      · exact h.heard t ((hturns t).mp ht) (by simp [hidle])
      · refine ⟨s.captain.failed, rfl, ?_⟩
        rw [failed_eq_nil_iff]
        refine forall_congr' fun t => ?_
        rw [h.failed, hturns, hidle]
        simp [Captain.new]
    | failed err =>
      obtain ⟨t, hturn, hlack, -⟩ := hspec
      exact absurd hlack (hmodels t hturn)
    | hangs =>
      obtain ⟨h, hsettled, hbusy, hpanicked⟩ := hspec
      have hturns : ∀ t, GetsTurn plan env t ↔ t ∈ s.ranIds := fun t =>
        ⟨fun ht => h.all_turns hsettled hpanicked ht, h.turns t⟩
      have hrun : (Captain.new cfg).startPlan planId plan env =
          ⟨s.captain, .hangs, s.events, s.ran, []⟩ := by
        rw [Captain.startPlan, hloop]
      obtain ⟨t, ht⟩ := List.exists_mem_of_ne_nil _ hbusy
      rw [hrun]
      refine ⟨fun t => by rw [hturns, LoopState.ranIds, List.mem_map], .inl ⟨⟨t, ?_, ?_⟩, rfl⟩⟩
      · exact h.turns t (h.running t ht)
      · rw [hpanicked t ht]
        rfl

/-- `b` depends on a task that is not in the plan. -/
def danglingPlan : Plan where
  planId := "p1"
  tasks :=
    [⟨"a", "schema", "write the schema", [], .fast, 10, []⟩,
      ⟨"b", "queries", "write the queries", ["db"], .fast, 10, []⟩]

def crewOnlyConfig : OrchConfig where
  providers := ∅
  tiers := (∅ : HashMap Tier ModelRef).insert .crew ⟨.anthropic, "claude-haiku-4-5-20251001"⟩

/-- Every crew ends `Done`. -/
def allGoesWell : Environment where
  decrypt := .ok
  outcome t := .returned (.ok (.done ("p1-" ++ t) "done" 1))
  injectedOutcome _ := .panicked
  readyOrder := .stored
  arrival := .stored
  failedOrder := .stored

theorem dangling_plan_reported_completed :
    ¬ Truthful (Captain.new crewOnlyConfig) "p1" danglingPlan allGoesWell := by
  intro h
  have hsay : ((Captain.new crewOnlyConfig).startPlan "p1" danglingPlan allGoesWell).SaysCompleted
      "p1" := ⟨⟨"conv-p1", by decide +kernel⟩, by decide +kernel⟩
  have hran : ((Captain.new crewOnlyConfig).startPlan "p1" danglingPlan allGoesWell).ran.length = 1 :=
    by decide +kernel
  have hlen := (h.1.mp hsay).1.length_le
  rw [doneOf, List.length_map] at hlen
  have hfew := hlen.trans (List.length_filter_le _ _)
  rw [hran] at hfew
  exact absurd hfew (by decide)

end Mowis.Orchestration
