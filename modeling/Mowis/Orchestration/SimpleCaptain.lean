import Mowis.Orchestration.Verdict
import Mowis.Orchestration.Waves

/-!
# The wave executor

`SimpleCaptain::run`: the tasks run in the waves of `topological_sort`, and the crews
of one wave are awaited before the next wave is spawned.  A wave is spawned whatever
the earlier ones ended with.
-/

namespace Mowis.Orchestration

open Mowis.Lib

/-- A crew spawned by the wave executor, with the tasks on record as done at that time. -/
structure Spawn where
  node : TaskNode
  crewEnd : CrewEnd
  doneBefore : List TaskId

structure SimpleState where
  completed : HashMap TaskId CrewOutcome
  failed : HashMap TaskId CrewOutcome
  events : List Event
  spawns : List Spawn

def SimpleState.empty : SimpleState := ⟨∅, ∅, [], []⟩

def spawnWave (cfg : OrchConfig) (plan : Plan) (env : Environment) :
    SimpleState → List TaskId → Except (SimpleState × String) SimpleState
  | s, [] => .ok s
  | s, t :: ts =>
    match plan.findTask t with
    | none => .error (s, "task " ++ t ++ " not found")
    | some node =>
      match cfg.llmForTask env.decrypt node with
      | .error e => .error (s, e)
      | .ok _ => spawnWave cfg plan env
          { s with spawns := s.spawns ++ [⟨node, env.outcome t, s.completed.keys⟩] } ts

/-- The handle of crew `t` has been awaited; a panic is only logged. -/
def SimpleState.await (planId : PlanId) (env : Environment) (s : SimpleState) (t : TaskId) :
    SimpleState :=
  match env.outcome t with
  | .returned (.ok (.done agentId summary calls)) =>
    { s with
      events := s.events ++ [.mergeCompleted planId agentId]
      completed := s.completed.insert t (.done agentId summary calls) }
  | .returned (.ok (.failed agentId reason calls)) =>
    { s with failed := s.failed.insert t (.failed agentId reason calls) }
  | .returned (.error e) => { s with failed := s.failed.insert t (.failed "" e 0) }
  | .panicked => s

def runWaves (cfg : OrchConfig) (planId : PlanId) (plan : Plan) (env : Environment) :
    SimpleState → List (List TaskId) → Except (SimpleState × String) SimpleState
  | s, [] => .ok s
  | s, wave :: waves =>
    match spawnWave cfg plan env s wave with
    | .error e => .error e
    | .ok s' => runWaves cfg planId plan env (wave.foldl (SimpleState.await planId env) s') waves

structure SimpleRun where
  finish : StartEnd
  events : List Event
  spawns : List Spawn

def noTasksText : String :=
  "Plan has no tasks — the plan block was empty or could not be parsed. Please provide a valid plan."

/-- `SimpleCaptain::run` of a plan that has been loaded; `waveOrder` is the order in which
the set of remaining tasks is walked. -/
def simpleRun (cfg : OrchConfig) (planId : PlanId) (plan : Plan) (env : Environment)
    (waveOrder : IterOrder TaskId) : SimpleRun :=
  let sandboxId := "conv-" ++ planId
  if plan.tasks = [] then
    ⟨.returned (.ok (.failed "Plan has no tasks" sandboxId)), [.planFailed planId noTasksText], []⟩
  else
    let started := [Event.captainStarted planId sandboxId]
    match topologicalSort waveOrder plan.tasks with
    | .error e => ⟨.returned (.error e), started, []⟩
    | .ok waves =>
      match runWaves cfg planId plan env { SimpleState.empty with events := started } waves with
      | .error (s, e) => ⟨.returned (.error e), s.events, s.spawns⟩
      | .ok s =>
        let v := verdictOf s.failed planId sandboxId env
        ⟨.returned (.ok v.2), s.events ++ [v.1], s.spawns⟩

variable {plan : Plan} {planId : PlanId} {env : Environment} {cfg : OrchConfig}

def AllModels (cfg : OrchConfig) (plan : Plan) (env : Environment) : Prop :=
  ∀ task ∈ plan.tasks, ∃ config, cfg.llmForTask env.decrypt task = .ok config

/-- A crew of a plan: for the first task with its id, ending as the environment says. -/
structure Spawn.Proper (plan : Plan) (env : Environment) (sp : Spawn) : Prop where
  node : plan.findTask sp.node.id = some sp.node
  crewEnd : sp.crewEnd = env.outcome sp.node.id
  done : ∀ d ∈ sp.doneBefore, (env.outcome d).isDone = true
  deps : ∀ d ∈ sp.node.deps, (env.outcome d).isDone = true → d ∈ sp.doneBefore

/-- The state after the tasks `past` were spawned and awaited. -/
structure SimpleInv (plan : Plan) (env : Environment) (past : List TaskId) (s : SimpleState) :
    Prop where
  spawned : s.spawns.map (fun sp => sp.node.id) = past
  proper : ∀ sp ∈ s.spawns, sp.Proper plan env
  completed : ∀ t, t ∈ s.completed ↔ t ∈ past ∧ (env.outcome t).isDone = true
  failed : ∀ t, t ∈ s.failed ↔ t ∈ past ∧ (env.outcome t).isFailure = true

theorem spawnWave_ok (hm : AllModels cfg plan env) (ts : List TaskId) (s : SimpleState)
    (hknown : ∀ t ∈ ts, t ∈ plan.ids)
    (hready : ∀ t ∈ ts, ∀ node, plan.findTask t = some node → ∀ d ∈ node.deps,
      (env.outcome d).isDone = true → d ∈ s.completed)
    (hdone : ∀ d ∈ s.completed, (env.outcome d).isDone = true) :
    ∃ new, spawnWave cfg plan env s ts = .ok { s with spawns := s.spawns ++ new } ∧
      new.map (fun sp => sp.node.id) = ts ∧ ∀ sp ∈ new, sp.Proper plan env := by
  induction ts generalizing s with
  | nil => exact ⟨[], by simp [spawnWave], rfl, by simp⟩
  | cons t ts ih =>
    obtain ⟨node, hnode⟩ := Plan.exists_findTask (hknown t List.mem_cons_self)
    obtain ⟨hmem, hid⟩ := Plan.findTask_some hnode
    obtain ⟨config, hconfig⟩ := hm node hmem
    obtain ⟨new, hspawn, hids, hproper⟩ := ih
      { s with spawns := s.spawns ++ [⟨node, env.outcome t, s.completed.keys⟩] }
      (fun u hu => hknown u (List.mem_cons_of_mem _ hu))
      (fun u hu => hready u (List.mem_cons_of_mem _ hu)) hdone
    refine ⟨⟨node, env.outcome t, s.completed.keys⟩ :: new, ?_, by simp [hid, hids], ?_⟩
    · rw [spawnWave]
      simp only [hnode, hconfig]
      rw [hspawn]
      simp
    · intro sp hsp
      rcases List.mem_cons.mp hsp with rfl | hsp
      · refine ⟨by rw [hid]; exact hnode, by rw [hid], fun d hd => hdone d hd, ?_⟩
        exact hready t List.mem_cons_self node hnode
      · exact hproper sp hsp

theorem await_wave (planId : PlanId) (env : Environment) (ts : List TaskId) (s : SimpleState) :
    (ts.foldl (SimpleState.await planId env) s).spawns = s.spawns ∧
      (∀ t, t ∈ (ts.foldl (SimpleState.await planId env) s).completed ↔
        t ∈ s.completed ∨ (t ∈ ts ∧ (env.outcome t).isDone = true)) ∧
      ∀ t, t ∈ (ts.foldl (SimpleState.await planId env) s).failed ↔
        t ∈ s.failed ∨ (t ∈ ts ∧ (env.outcome t).isFailure = true) := by
  induction ts generalizing s with
  | nil => simp
  | cons u ts ih =>
    obtain ⟨hspawns, hcompleted, hfailed⟩ := ih (s.await planId env u)
    have hone : (s.await planId env u).spawns = s.spawns ∧
        (∀ t, t ∈ (s.await planId env u).completed ↔
          t ∈ s.completed ∨ (t = u ∧ (env.outcome u).isDone = true)) ∧
        ∀ t, t ∈ (s.await planId env u).failed ↔
          t ∈ s.failed ∨ (t = u ∧ (env.outcome u).isFailure = true) := by
      unfold SimpleState.await
      split <;> rename_i ho <;> simp [ho, CrewEnd.isDone, CrewEnd.isFailure, or_comm]
    rw [List.foldl_cons]
    refine ⟨hspawns.trans hone.1, fun t => ?_, fun t => ?_⟩
    · rw [hcompleted, hone.2.1, or_assoc, List.mem_cons]
      refine or_congr Iff.rfl ?_
      by_cases htu : t = u
      · simp [htu]
      · simp [htu]
    · rw [hfailed, hone.2.2, or_assoc, List.mem_cons]
      refine or_congr Iff.rfl ?_
      by_cases htu : t = u
      · simp [htu]
      · simp [htu]

theorem SimpleInv.wave (planId : PlanId) (hm : AllModels cfg plan env) {past wave : List TaskId}
    {s : SimpleState} (h : SimpleInv plan env past s) (hknown : ∀ t ∈ wave, t ∈ plan.ids)
    (hdeps : ∀ task ∈ plan.tasks, task.id ∈ wave → ∀ d ∈ task.deps, d ∈ past) :
    ∃ s', spawnWave cfg plan env s wave = .ok s' ∧
      SimpleInv plan env (past ++ wave) (wave.foldl (SimpleState.await planId env) s') := by
  obtain ⟨new, hspawn, hids, hproper⟩ := spawnWave_ok hm wave s hknown
    (fun t ht node hnode d hd hdone => by
      obtain ⟨hmem, rfl⟩ := Plan.findTask_some hnode
      exact (h.completed d).mpr ⟨hdeps node hmem ht d hd, hdone⟩)
    (fun d hd => ((h.completed d).mp hd).2)
  obtain ⟨hspawns, hcompleted, hfailed⟩ := await_wave planId env wave
    { s with spawns := s.spawns ++ new }
  refine ⟨_, hspawn, ?_, fun sp hsp => ?_, fun t => ?_, fun t => ?_⟩
  · rw [hspawns, List.map_append, hids, h.spawned]
  · rw [hspawns] at hsp
    rcases List.mem_append.mp hsp with hsp | hsp
    · exact h.proper sp hsp
    · exact hproper sp hsp
  · rw [hcompleted, h.completed, List.mem_append, or_and_right]
  · rw [hfailed, h.failed, List.mem_append, or_and_right]

theorem runWaves_spec (planId : PlanId) (hm : AllModels cfg plan env)
    (waves : List (List TaskId)) (past : List TaskId) (s : SimpleState)
    (h : SimpleInv plan env past s) (hknown : ∀ t ∈ waves.flatten, t ∈ plan.ids)
    (hfrom : WavesFrom plan past waves) :
    ∃ s', runWaves cfg planId plan env s waves = .ok s' ∧
      SimpleInv plan env (past ++ waves.flatten) s' := by
  induction waves generalizing past s with
  | nil => exact ⟨s, rfl, by simpa using h⟩
  | cons wave waves ih =>
    rw [List.flatten_cons] at hknown
    obtain ⟨s₁, hspawn, hinv⟩ := h.wave planId hm
      (fun t ht => hknown t (List.mem_append_left _ ht)) hfrom.1
    obtain ⟨s', hrun, hinv'⟩ := ih (past ++ wave) _ hinv
      (fun t ht => hknown t (List.mem_append_right _ ht)) hfrom.2
    refine ⟨s', ?_, by simpa using hinv'⟩
    rw [runWaves, hspawn]
    exact hrun

inductive Verdict where
  | completed
  | failed
  | error
  | hangs
  | panicked
  deriving DecidableEq, Repr

def StartEnd.verdict : StartEnd → Verdict
  | .returned (.ok (.completed _)) => .completed
  | .returned (.ok _) => .failed
  | .returned (.error _) => .error
  | .hangs => .hangs
  | .panicked => .panicked

theorem verdict_verdictOf (failed : HashMap TaskId CrewOutcome) (planId : PlanId)
    (sandboxId : String) (env : Environment) :
    (StartEnd.returned (.ok (verdictOf failed planId sandboxId env).2)).verdict =
      if failed.entries = [] then .completed else .failed := by
  rw [verdictOf]
  split <;> rfl

theorem simpleRun_spec (planId : PlanId) (hv : plan.Valid) (hne : plan.tasks ≠ []) (hm : AllModels cfg plan env)
    (waveOrder : IterOrder TaskId) :
    (∀ t, (∃ sp ∈ (simpleRun cfg planId plan env waveOrder).spawns, sp.node.id = t) ↔
      t ∈ plan.ids) ∧
    (∀ sp ∈ (simpleRun cfg planId plan env waveOrder).spawns, sp.Proper plan env) ∧
    (simpleRun cfg planId plan env waveOrder).finish.verdict =
      if (∃ t ∈ plan.ids, (env.outcome t).isFailure = true) then Verdict.failed else .completed := by
  obtain ⟨waves, hsort, hperm, hfrom⟩ := topologicalSort_valid hv waveOrder
  have hstart : SimpleInv plan env []
      { SimpleState.empty with events := [.captainStarted planId ("conv-" ++ planId)] } :=
    ⟨rfl, by simp [SimpleState.empty], by simp [SimpleState.empty], by simp [SimpleState.empty]⟩
  obtain ⟨s, hrun, hinv⟩ := runWaves_spec planId hm waves [] _ hstart
    (fun t ht => hperm.mem_iff.mp ht) hfrom
  rw [List.nil_append] at hinv
  have heq : simpleRun cfg planId plan env waveOrder =
      ⟨.returned (.ok (verdictOf s.failed planId ("conv-" ++ planId) env).2),
        s.events ++ [(verdictOf s.failed planId ("conv-" ++ planId) env).1], s.spawns⟩ := by
    rw [simpleRun, if_neg hne, hsort]
    simp only [hrun]
  rw [heq]
  refine ⟨fun t => ?_, hinv.proper, ?_⟩
  · rw [← hperm.mem_iff, ← hinv.spawned, List.mem_map]
  · have hfailed : s.failed.entries = [] ↔ ¬ ∃ t ∈ plan.ids, (env.outcome t).isFailure = true := by
      rw [failed_eq_nil_iff, not_exists]
      refine forall_congr' fun t => ?_
      rw [hinv.failed, hperm.mem_iff]
    rw [verdict_verdictOf]
    by_cases hex : ∃ t ∈ plan.ids, (env.outcome t).isFailure = true
    · rw [if_pos hex, if_neg fun h => hfailed.mp h hex]
    · rw [if_neg hex, if_pos (hfailed.mpr hex)]

/-- What the claimed agreement of the two executors comes to: the wave executor spawns a
crew only after the dependencies of its task are done, completes only plans whose tasks
are all done, and spawns the same tasks and gives the same verdict as a fresh captain. -/
structure Agrees (cfg : OrchConfig) (planId : PlanId) (plan : Plan) (env : Environment)
    (waveOrder : IterOrder TaskId) : Prop where
  afterDeps : ∀ sp ∈ (simpleRun cfg planId plan env waveOrder).spawns,
    ∀ d ∈ sp.node.deps, d ∈ sp.doneBefore
  completed : (simpleRun cfg planId plan env waveOrder).finish.verdict = .completed →
    ∀ task ∈ plan.tasks, ∃ sp ∈ (simpleRun cfg planId plan env waveOrder).spawns,
      sp.node = task ∧ sp.crewEnd.isDone = true
  sameTasks : ∀ t, (∃ sp ∈ (simpleRun cfg planId plan env waveOrder).spawns, sp.node.id = t) ↔
    ∃ e ∈ ((Captain.new cfg).startPlan planId plan env).ran, e.1.id = t
  sameVerdict : (simpleRun cfg planId plan env waveOrder).finish.verdict =
    ((Captain.new cfg).startPlan planId plan env).finish.verdict

theorem AllModels.not_lacks (hm : AllModels cfg plan env) (t : TaskId) :
    ¬ LacksModel cfg plan env t := by
  intro hlack
  obtain ⟨node, e, hnode, he⟩ := hlack
  obtain ⟨config, hconfig⟩ := hm node (Plan.findTask_some hnode).1
  cases he.symm.trans hconfig

theorem getsTurn_of_deps_done (hv : plan.Valid)
    (hdone : ∀ task ∈ plan.tasks, ∀ d ∈ task.deps, (env.outcome d).isDone = true) :
    ∀ t ∈ plan.ids, GetsTurn plan env t := by
  refine hv.acyclic.induction (fun t _ d hd => ?_) fun t ht ih => ?_
  · obtain ⟨task, htask, -, hdep⟩ := hd
    exact hv.closed task htask d hdep
  · obtain ⟨task, htask, rfl⟩ := List.mem_map.mp ht
    exact .turn (Plan.lastDeps_of_mem hv.unique htask) (fun d hd => ih d ⟨task, htask, rfl, hd⟩)
      (hdone task htask)

def AgreementCondition (plan : Plan) (env : Environment) : Prop :=
  plan.tasks ≠ [] ∧ (∀ t ∈ plan.ids, (env.outcome t).isPanic = false) ∧
    ∀ task ∈ plan.tasks, ∀ d ∈ task.deps, (env.outcome d).isDone = true

theorem not_agrees_of_empty (hne : plan.tasks = []) (waveOrder : IterOrder TaskId) :
    ¬ Agrees cfg planId plan env waveOrder := by
  intro h
  have hno : ∀ t, ¬ GetsTurn plan env t := by
    intro t ht
    have hid := ht.mem_ids
    rw [Plan.ids, hne] at hid
    cases hid
  have hsimple : (simpleRun cfg planId plan env waveOrder).finish.verdict = .failed := by
    rw [simpleRun, if_pos hne]
    rfl
  have hsame := h.sameVerdict
  obtain ⟨-, hhangs | ⟨-, failed, hfinish, hfailed⟩⟩ := startPlan_fresh cfg planId plan env
    fun t ht => absurd ht (hno t)
  · obtain ⟨⟨t, ht, -⟩, -⟩ := hhangs
    exact hno t ht
  · rw [hsimple, hfinish, verdict_verdictOf,
      if_pos (hfailed.mpr fun t ht => absurd ht (hno t))] at hsame
    cases hsame

/-- **The wave executor agrees with the event-driven captain exactly when the plan has
tasks, no crew panics, and every task that another one depends on ends `Done`.** -/
theorem simple_agrees_iff (cfg : OrchConfig) (planId : PlanId) {plan : Plan} (env : Environment)
    (waveOrder : IterOrder TaskId) (hvalid : plan.validate = .ok ())
    (hmodels : AllModels cfg plan env) :
    Agrees cfg planId plan env waveOrder ↔ AgreementCondition plan env := by
  have hv := Plan.validate_ok hvalid
  by_cases hne : plan.tasks = []
  · exact ⟨fun h => absurd h (not_agrees_of_empty hne waveOrder), fun h => absurd hne h.1⟩
  obtain ⟨htasks, hproper, hverdict⟩ := simpleRun_spec planId hv hne hmodels waveOrder
  obtain ⟨hran, hfresh⟩ := startPlan_fresh cfg planId plan env fun t _ => hmodels.not_lacks t
  have hnode : ∀ task ∈ plan.tasks, ∃ sp ∈ (simpleRun cfg planId plan env waveOrder).spawns,
      sp.node = task := by
    intro task htask
    obtain ⟨sp, hsp, hid⟩ := (htasks task.id).mpr (List.mem_map.mpr ⟨task, htask, rfl⟩)
    have hfind := (hproper sp hsp).node
    rw [hid, Plan.findTask_of_mem hv.unique htask] at hfind
    exact ⟨sp, hsp, (Option.some.inj hfind).symm⟩
  constructor
  · intro h
    have hdone : ∀ task ∈ plan.tasks, ∀ d ∈ task.deps, (env.outcome d).isDone = true := by
      intro task htask d hd
      obtain ⟨sp, hsp, rfl⟩ := hnode task htask
      exact (hproper sp hsp).done d (h.afterDeps sp hsp d hd)
    refine ⟨hne, fun t ht => ?_, hdone⟩
    -- a crew that panics keeps the captain waiting, while the waves come to a verdict
    have hturn := getsTurn_of_deps_done hv hdone t ht
    rcases hfresh with ⟨-, hhangs⟩ | ⟨hno, -⟩
    · have hsame := h.sameVerdict
      rw [hverdict, hhangs] at hsame
      split at hsame <;> cases hsame
    · exact hno t hturn
  · intro hcond
    obtain ⟨-, hpanic, hdone⟩ := hcond
    have hturns : ∀ t, GetsTurn plan env t ↔ t ∈ plan.ids := fun t =>
      ⟨GetsTurn.mem_ids, getsTurn_of_deps_done hv hdone t⟩
    refine ⟨fun sp hsp d hd => ?_, fun hcompleted task htask => ?_, fun t => ?_, ?_⟩
    · obtain ⟨hmem, -⟩ := Plan.findTask_some (hproper sp hsp).node
      exact (hproper sp hsp).deps d hd (hdone sp.node hmem d hd)
    · obtain ⟨sp, hsp, rfl⟩ := hnode task htask
      refine ⟨sp, hsp, rfl, ?_⟩
      have hid : sp.node.id ∈ plan.ids := List.mem_map.mpr ⟨sp.node, htask, rfl⟩
      have hnofail : (env.outcome sp.node.id).isFailure ≠ true := by
        intro hf
        rw [hverdict, if_pos ⟨sp.node.id, hid, hf⟩] at hcompleted
        cases hcompleted
      rw [(hproper sp hsp).crewEnd]
      rcases (env.outcome sp.node.id).trichotomy with hcase | hcase | hcase
      · exact hcase.1
      · exact absurd hcase.2.1 hnofail
      · rw [hpanic _ hid] at hcase
        cases hcase.2.2
    · rw [htasks, hran, hturns]
    · rcases hfresh with ⟨⟨t, ht, hp⟩, -⟩ | ⟨-, failed, hfinish, hfailed⟩
      · rw [hpanic t ht.mem_ids] at hp
        cases hp
      · rw [hverdict, hfinish, verdict_verdictOf]
        by_cases hex : ∃ t ∈ plan.ids, (env.outcome t).isFailure = true
        · obtain ⟨t, ht, hf⟩ := hex
          rw [if_pos ⟨t, ht, hf⟩, if_neg]
          intro hnil
          rw [hfailed.mp hnil t ((hturns t).mpr ht)] at hf
          cases hf
        · rw [if_neg hex, if_pos]
          refine hfailed.mpr fun t ht => ?_
          by_contra hf
          exact hex ⟨t, ht.mem_ids, by simpa using hf⟩

/-- `b` depends on `a`. -/
def pairPlan : Plan where
  planId := "p2"
  tasks :=
    [⟨"a", "schema", "write the schema", [], .fast, 10, []⟩,
      ⟨"b", "queries", "write the queries", ["a"], .fast, 10, []⟩]

theorem pairPlan_valid : pairPlan.validate = .ok () := by
  have hchecks : pairPlan.validateTasks ∅ pairPlan.tasks = .ok () := rfl
  have ha : (pairPlan.dfsCycle "a" Dfs.empty).1 = (false, ⟨{"a"}, ∅⟩) := by
    have hf : pairPlan.findTask "a" =
        some ⟨"a", "schema", "write the schema", [], .fast, 10, []⟩ := by decide
    rw [Plan.dfsCycle_task pairPlan (by decide) (by decide) hf (by rw [Plan.dfsDeps])]
    decide
  have hb : (pairPlan.dfsCycle "b" ⟨{"a"}, ∅⟩).1 = (false, ⟨{"b", "a"}, ∅⟩) := by
    have hf : pairPlan.findTask "b" =
        some ⟨"b", "queries", "write the queries", ["a"], .fast, 10, []⟩ := by decide
    rw [Plan.dfsCycle_task pairPlan (by decide) (by decide) hf
      (by rw [Plan.dfsDeps_cons pairPlan (Plan.dfsCycle_visited pairPlan (by decide) (by decide)),
        if_neg (by decide), Plan.dfsDeps])]
    decide
  have hcycle : pairPlan.hasCycle = false := by
    rw [Plan.hasCycle, show pairPlan.ids = ["a", "b"] from rfl, Plan.dfsDeps_cons pairPlan ha,
      if_neg (by decide), Plan.dfsDeps_cons pairPlan hb, if_neg (by decide), Plan.dfsDeps]
  rw [Plan.validate, hchecks, hcycle]
  rfl

/-- The crew of `a` fails; any other would end `Done`. -/
def schemaFails : Environment :=
  { allGoesWell with
    outcome := fun t => if t = "a" then .returned (.ok (.failed "p2-a" "no such table" 3))
      else .returned (.ok (.done ("p2-" ++ t) "done" 1)) }

theorem dependent_of_failed_task_spawned :
    pairPlan.validate = .ok () ∧ AllModels crewOnlyConfig pairPlan schemaFails ∧
      ¬ Agrees crewOnlyConfig "p2" pairPlan schemaFails .stored := by
  refine ⟨pairPlan_valid, ?_, fun h => ?_⟩
  · intro task htask
    rcases List.mem_cons.mp htask with rfl | htask
    · exact ⟨_, rfl⟩
    · obtain rfl := List.mem_singleton.mp htask
      exact ⟨_, rfl⟩
  · have hspawned : ∃ sp ∈ (simpleRun crewOnlyConfig "p2" pairPlan schemaFails .stored).spawns,
        sp.node.id = "b" := by decide +kernel
    have hran : ¬ ∃ e ∈ ((Captain.new crewOnlyConfig).startPlan "p2" pairPlan schemaFails).ran,
        e.1.id = "b" := by decide +kernel
    exact hran ((h.sameTasks "b").mp hspawned)

theorem simple_agrees_iff_pair :
    Agrees crewOnlyConfig "p2" pairPlan allGoesWell .stored ↔
      AgreementCondition pairPlan allGoesWell := by
  refine simple_agrees_iff crewOnlyConfig "p2" allGoesWell .stored pairPlan_valid ?_
  intro task htask
  rcases List.mem_cons.mp htask with rfl | htask
  · exact ⟨_, rfl⟩
  · obtain rfl := List.mem_singleton.mp htask
    exact ⟨_, rfl⟩

end Mowis.Orchestration
