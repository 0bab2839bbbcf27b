import Mowis.Planner.Parse
import Mowis.Scheduling.Accounting

/-!
# Which plans can be carried out

The scheduler is built from an accepted reply and driven by workers that poll the
sandboxes of its topology and report every task they are handed as successful.  No
stage checks the plan; whether the run ends with every task completed depends on it.
-/

namespace Mowis.Planner

open Mowis.Lib Mowis.Scheduling Mowis.Scheduling.Scheduler
open Mowis.Review (Json)

/-- A scheduler, and the tasks that workers have been handed and not reported. -/
structure Drive where
  scheduler : Scheduler
  inHand : List TaskId

namespace Drive

def start (output : PlannerOutput) : Drive :=
  ⟨Scheduling.new output.taskGraph output.sandboxHints, []⟩

inductive Step (topology : SandboxTopology) : Drive → Drive → Prop
  | take {d : Drive} {sandbox : SandboxConfig} {s : Scheduler} {t : TaskId} (agent : AgentHandle) :
      sandbox ∈ topology.sandboxes → d.scheduler.getReadyTask sandbox.name = (s, some t) →
      Step topology d ⟨s.markTaskStarted t agent, t :: d.inHand⟩
  | report {d : Drive} {t : TaskId} (gitDiff : Option String) : t ∈ d.inHand →
      Step topology d
        ⟨d.scheduler.handleTaskCompletion ⟨t, true, gitDiff, none⟩, d.inHand.erase t⟩

def Done (g : TaskGraph) (d : Drive) : Prop :=
  (∀ t ∈ g.ids, t ∈ d.scheduler.completed) ∧
    let stats := d.scheduler.getStats
    stats.totalTasks ≤ stats.completed + stats.failed + stats.skipped

def EndsCompleted (output : PlannerOutput) : Prop :=
  Acc (fun d' d => Step output.sandboxTopology d d') (start output) ∧
    ∀ d, Relation.ReflTransGen (Step output.sandboxTopology) (start output) d →
      (∀ d', ¬ Step output.sandboxTopology d d') → Done output.taskGraph d

theorem exists_last {topology : SandboxTopology} {d : Drive}
    (h : Acc (fun d' d => Step topology d d') d) :
    ∃ e, Relation.ReflTransGen (Step topology) d e ∧ ∀ e', ¬ Step topology e e' := by
  induction h with
  | intro d _ ih =>
    by_cases hlast : ∃ d', Step topology d d'
    · obtain ⟨d', hs⟩ := hlast
      obtain ⟨e, hrun, hend⟩ := ih d' hs
      exact ⟨e, .head hs hrun, hend⟩
    · exact ⟨d, .refl, fun d' hs => hlast ⟨d', hs⟩⟩

end Drive

/-- Successful runs fail and skip nothing, and stay within the ids of the plan. -/
structure Plain (g : TaskGraph) (hints : HashMap TaskId SandboxName) (d : Drive) : Prop where
  static : Static g hints d.scheduler
  failed : ∀ t, t ∉ d.scheduler.failed
  skipped : d.scheduler.skipped = ∅
  queued : ∀ sb, ∀ t ∈ d.scheduler.queue sb, t ∈ g.ids
  inHand : ∀ t ∈ d.inHand, t ∈ g.ids
  completed : ∀ t ∈ d.scheduler.completed, t ∈ g.ids

namespace Plain

variable {g : TaskGraph} {hints : HashMap TaskId SandboxName} {topology : SandboxTopology}
  {d d' : Drive}

theorem start (output : PlannerOutput) :
    Plain output.taskGraph output.sandboxHints (Drive.start output) where
  static := ⟨rfl, rfl, rfl, rfl⟩
  failed := AList.notMem_empty
  skipped := rfl
  queued sb t ht := by
    obtain ⟨-, task, htask, hid, -⟩ := mem_bucket_buildReadyQueues.mp ht
    exact List.mem_map.mpr ⟨task, htask, hid⟩
  inHand := nofun
  completed := nofun

theorem step (h : Plain g hints d) (hs : Drive.Step topology d d') : Plain g hints d' := by
  cases hs with
  | @take sandbox s t agent _ hpop =>
    obtain ⟨rest, hq, rfl⟩ := d.scheduler.getReadyTask_some hpop
    have hmem : ∀ u ∈ t :: rest, u ∈ g.ids := fun u hu => h.queued sandbox.name u (hq ▸ hu)
    refine ⟨⟨h.static.1, h.static.2, h.static.3, h.static.4⟩, h.failed, h.skipped, ?_, ?_,
      h.completed⟩
    · intro sb u hu
      change u ∈ ({ d.scheduler with
        readyQueues := d.scheduler.readyQueues.insert sandbox.name rest } : Scheduler).queue sb at hu
      rw [queue_insert_readyQueues] at hu
      split at hu
      · exact hmem u (List.mem_cons_of_mem _ hu)
      · exact h.queued sb u hu
    · intro u hu
      rcases List.mem_cons.mp hu with rfl | hu
      · exact hmem u List.mem_cons_self
      · exact h.inHand u hu
  | @report t gitDiff hmem =>
    set result : AgentResult := ⟨t, true, gitDiff, none⟩ with hresult
    have hsuccess : result.success = true := rfl
    obtain ⟨dc, rq, hframe⟩ := d.scheduler.handleTaskCompletion_frame hsuccess
    refine ⟨?_, ?_, ?_, fun sb u hu => ?_, fun u hu => h.inHand u (List.mem_of_mem_erase hu), ?_⟩
    · show Static g hints (d.scheduler.handleTaskCompletion result)
      rw [hframe]
      exact ⟨h.static.1, h.static.2, h.static.3, h.static.4⟩
    · show ∀ u, u ∉ (d.scheduler.handleTaskCompletion result).failed
      rw [hframe]
      exact h.failed
    · show (d.scheduler.handleTaskCompletion result).skipped = ∅
      rw [hframe]
      exact h.skipped
    · change u ∈ (d.scheduler.handleTaskCompletion result).queue sb at hu
      rw [d.scheduler.handleTaskCompletion_success hsuccess,
        mem_queue_unlockDependents] at hu
      rcases hu with hu | ⟨-, -, c, -, hpos⟩
      · exact h.queued sb u hu
      · -- the loop pushes only ids that it is given
        have hlisted : u ∈ HashMap.bucket (buildDependents g) t := by
          rw [← h.static.dependents]
          by_contra hno
          change 0 < crossings c ((d.scheduler.dependentsOf t).count u) at hpos
          have hz : (d.scheduler.dependentsOf t).count u = 0 := List.count_eq_zero.mpr hno
          rw [hz] at hpos
          cases hpos
        obtain ⟨task, htask, hid, -⟩ := mem_bucket_buildDependents.mp hlisted
        exact List.mem_map.mpr ⟨task, htask, hid⟩
    · show ∀ u ∈ (d.scheduler.handleTaskCompletion result).completed, u ∈ g.ids
      rw [hframe]
      intro u hu
      rcases Finset.mem_insert.mp hu with rfl | hu
      · exact h.inHand _ hmem
      · exact h.completed u hu

theorem unique_of_done (h : Plain g hints d) (hdone : d.Done g) : g.UniqueIds := by
  have hfailed : d.scheduler.failed.keys = [] := by
    rw [List.eq_nil_iff_forall_not_mem]
    exact h.failed
  have hexit : g.tasks.length ≤ d.scheduler.completed.card := by
    have hd := hdone.2
    simp only [getStats, h.skipped, hfailed, h.static.totalTasks] at hd
    simpa using hd
  have hsub : d.scheduler.completed ⊆ g.ids.toFinset := fun t ht =>
    List.mem_toFinset.mpr (h.completed t ht)
  have hcard := Finset.card_le_card hsub
  rw [List.card_toFinset] at hcard
  have hlen : g.ids.length = g.tasks.length := by rw [TaskGraph.ids, List.length_map]
  have hle := (List.dedup_sublist g.ids).length_le
  rw [TaskGraph.UniqueIds, ← List.dedup_eq_self]
  exact (List.dedup_sublist g.ids).eq_of_length (by omega)

end Plain

structure Driven (g : TaskGraph) (hints : HashMap TaskId SandboxName) (topology : SandboxTopology)
    (d : Drive) : Prop where
  inv : ∃ H : TaskId → Prop, Inv g hints H (fun t => t ∈ d.inHand) d.scheduler ∧
    -- tasks are handed out of the queues that are polled
    ∀ t, H t → ∃ sandbox ∈ topology.sandboxes, sandbox.name = sandboxFor hints t
  nodup : d.inHand.Nodup
  /-- Dependencies are completed before the tasks that list them. -/
  ranked : ∃ rank : TaskId → ℕ, ∀ t ∈ d.scheduler.completed, ∀ u, g.DependsOn t u →
    rank u < rank t

namespace Driven

variable {g : TaskGraph} {hints : HashMap TaskId SandboxName} {topology : SandboxTopology}
  {d d' : Drive}

theorem start {output : PlannerOutput} (hu : output.taskGraph.UniqueIds) :
    Driven output.taskGraph output.sandboxHints output.sandboxTopology (Drive.start output) where
  inv := ⟨fun _ => False, (Inv.init hu output.sandboxHints).congr (fun _ => Iff.rfl)
    (fun _ => iff_false_intro List.not_mem_nil), nofun⟩
  nodup := List.nodup_nil
  ranked := ⟨fun _ => 0, nofun⟩

theorem step (hu : g.UniqueIds) (h : Driven g hints topology d)
    (hs : Drive.Step topology d d') : Driven g hints topology d' := by
  obtain ⟨H, hinv, hlisted⟩ := h.inv
  cases hs with
  | @take sandbox s t agent hsandbox hpop =>
    obtain ⟨⟨hH, hready⟩, hinv'⟩ := hinv.pop hpop
    have hscheduler := hinv'.bookkeeping (s.running.insert t agent) s.results
    obtain ⟨rest, hq, rfl⟩ := d.scheduler.getReadyTask_some hpop
    refine ⟨⟨_, hscheduler.congr (fun _ => Iff.rfl) (fun u => List.mem_cons), ?_⟩, ?_, h.ranked⟩
    · intro u hu'
      rcases hu' with rfl | hu'
      · -- a task is queued for its own sandbox only
        refine ⟨sandbox, hsandbox, ?_⟩
        have hmem : u ∈ d.scheduler.queue sandbox.name := hq ▸ List.mem_cons_self
        have hsame : sandbox.name = d.scheduler.sandboxOf u ∧ ReadyTo g H d.scheduler u := by
          by_contra hno
          exact List.count_eq_zero.mp (hinv.unqueued _ u hno) hmem
        rw [hsame.1, sandboxOf, hinv.static.sandboxHints]
      · exact hlisted u hu'
    · exact List.nodup_cons.mpr ⟨fun hm => hH ((hinv.status t).mpr (.inl hm)), h.nodup⟩
  | @report t gitDiff hmem =>
    set result : AgentResult := ⟨t, true, gitDiff, none⟩ with hresult
    have hreport := hinv.report hu (show result.taskId ∈ d.inHand from hmem)
    have hsuccess : result.success = true := rfl
    refine ⟨⟨H, hreport.congr (fun _ => Iff.rfl) (fun u => ?_), hlisted⟩, h.nodup.erase t, ?_⟩
    · rw [h.nodup.mem_erase_iff]
      exact and_comm
    · obtain ⟨dc, rq, hframe⟩ := d.scheduler.handleTaskCompletion_frame hsuccess
      obtain ⟨rank, hrank⟩ := h.ranked
      have hnew : t ∉ d.scheduler.completed := (hinv.outstanding t hmem).1
      obtain ⟨-, task, htask, hid, hz⟩ := hinv.handed t ((hinv.status t).mpr (.inl hmem))
      have hdeps : ∀ u, g.DependsOn t u → u ∈ d.scheduler.completed := by
        intro u hd
        obtain ⟨task', htask', hid', hdep⟩ := hd
        obtain rfl := Inv.eq_of_id_eq hu htask' htask (hid'.trans hid.symm)
        exact unsatisfied_eq_zero.mp hz u hdep
      -- the new task is ranked above everything completed so far
      refine ⟨fun u => if u = t then d.scheduler.completed.sup rank + 1 else rank u, ?_⟩
      show ∀ v ∈ (d.scheduler.handleTaskCompletion result).completed, _
      rw [hframe]
      intro v hv u hd
      rcases Finset.mem_insert.mp hv with rfl | hv
      · have hc := hdeps u hd
        have hne : u ≠ v := fun he => hnew (he ▸ hc)
        have hle : rank u ≤ d.scheduler.completed.sup rank := Finset.le_sup hc
        simp only [if_neg hne, if_pos]
        omega
      · have hc := hinv.deps_completed hu hv hd
        have hne : u ≠ t := fun he => hnew (he ▸ hc)
        have hne' : v ≠ t := fun he => hnew (he ▸ hv)
        simp only [if_neg hne, if_neg hne']
        exact hrank v hv u hd

/-- The number of steps that are still possible is bounded: a task is taken once and
reported once. -/
def budget (g : TaskGraph) (d : Drive) : ℕ :=
  2 * (g.ids.toFinset \ d.scheduler.completed).card - d.inHand.length

theorem length_inHand_le (h : Driven g hints topology d) :
    d.inHand.length ≤ (g.ids.toFinset \ d.scheduler.completed).card := by
  obtain ⟨H, hinv, -⟩ := h.inv
  rw [← List.toFinset_card_of_nodup h.nodup]
  refine Finset.card_le_card fun t ht => ?_
  have hmem := List.mem_toFinset.mp ht
  obtain ⟨-, task, htask, hid, -⟩ := hinv.handed t ((hinv.status t).mpr (.inl hmem))
  refine Finset.mem_sdiff.mpr ⟨List.mem_toFinset.mpr ?_, (hinv.outstanding t hmem).1⟩
  exact List.mem_map.mpr ⟨task, htask, hid⟩

theorem budget_step (hu : g.UniqueIds) (h : Driven g hints topology d)
    (hs : Drive.Step topology d d') : budget g d' < budget g d := by
  have hle := h.length_inHand_le
  have hle' := (h.step hu hs).length_inHand_le
  obtain ⟨H, hinv, -⟩ := h.inv
  cases hs with
  | @take sandbox s t agent _ hpop =>
    obtain ⟨rest, -, rfl⟩ := d.scheduler.getReadyTask_some hpop
    change (t :: d.inHand).length ≤ (g.ids.toFinset \ d.scheduler.completed).card at hle'
    show 2 * (g.ids.toFinset \ d.scheduler.completed).card - (t :: d.inHand).length < budget g d
    rw [List.length_cons] at hle' ⊢
    rw [budget]
    omega
  | @report t gitDiff hmem =>
    set result : AgentResult := ⟨t, true, gitDiff, none⟩ with hresult
    have hsuccess : result.success = true := rfl
    obtain ⟨dc, rq, hframe⟩ := d.scheduler.handleTaskCompletion_frame hsuccess
    obtain ⟨-, task, htask, hid, -⟩ := hinv.handed t ((hinv.status t).mpr (.inl hmem))
    have hopen : t ∈ g.ids.toFinset \ d.scheduler.completed :=
      Finset.mem_sdiff.mpr ⟨List.mem_toFinset.mpr (List.mem_map.mpr ⟨task, htask, hid⟩),
        (hinv.outstanding t hmem).1⟩
    have hcard : (g.ids.toFinset \ insert t d.scheduler.completed).card + 1 =
        (g.ids.toFinset \ d.scheduler.completed).card := by
      rw [Finset.sdiff_insert, Finset.card_erase_add_one hopen]
    have hlen := List.length_erase_add_one hmem
    show 2 * (g.ids.toFinset \ (d.scheduler.handleTaskCompletion result).completed).card -
      (d.inHand.erase t).length < budget g d
    rw [hframe, budget]
    show 2 * (g.ids.toFinset \ insert t d.scheduler.completed).card -
      (d.inHand.erase t).length < _
    omega

theorem acc (hu : g.UniqueIds) (h : Driven g hints topology d) :
    Acc (fun d' d => Drive.Step topology d d') d := by
  induction hn : budget g d using Nat.strongRecOn generalizing d with
  | ind n ih =>
    refine Acc.intro d fun d' hs => ?_
    exact ih (budget g d') (hn ▸ h.budget_step hu hs) (h.step hu hs) rfl

theorem done_of_last (hu : g.UniqueIds) (hcl : g.Closed) (hac : g.Acyclic)
    (hlisted : ∀ t ∈ g.ids, ∃ sandbox ∈ topology.sandboxes, sandbox.name = sandboxFor hints t)
    (hplain : Plain g hints d) (h : Driven g hints topology d)
    (hlast : ∀ d', ¬ Drive.Step topology d d') : d.Done g := by
  obtain ⟨H, hinv, -⟩ := h.inv
  have hidle : ∀ t, t ∉ d.inHand := fun t ht => hlast _ (.report none ht)
  have hall : ∀ t ∈ g.ids, t ∈ d.scheduler.completed := by
    intro t ht
    by_contra hnc
    have hres : ¬ d.scheduler.Resolved t := by
      intro hr
      rcases hr with hr | hr | hr
      · exact hnc hr
      · rw [hplain.skipped] at hr
        exact absurd hr (Finset.notMem_empty t)
      · exact hplain.failed t hr
    obtain ⟨m, hm, hq⟩ := hinv.exists_queued hu hcl hac hidle ht hres
    obtain ⟨sandbox, hsandbox, hname⟩ := hlisted m hm
    rw [sandboxOf, hinv.static.sandboxHints, ← hname] at hq
    cases hpop : d.scheduler.getReadyTask sandbox.name with
    | mk s r =>
      cases r with
      | none => exact hq (d.scheduler.getReadyTask_none hpop).2
      | some u => exact hlast _ (.take ⟨"", sandbox.name, "", some u⟩ hsandbox hpop)
  refine ⟨hall, ?_⟩
  have hsub : g.ids.toFinset ⊆ d.scheduler.completed := fun t ht => hall t (List.mem_toFinset.mp ht)
  have hcard := Finset.card_le_card hsub
  rw [List.toFinset_card_of_nodup hu, TaskGraph.ids, List.length_map] at hcard
  have htotal := hplain.static.totalTasks
  simp only [getStats]
  omega

theorem wellFormed_of_done (hu : g.UniqueIds) (hplain : Plain g hints d)
    (h : Driven g hints topology d) (hdone : d.Done g) :
    g.Closed ∧ g.Acyclic ∧
      ∀ t ∈ g.ids, ∃ sandbox ∈ topology.sandboxes, sandbox.name = sandboxFor hints t := by
  obtain ⟨H, hinv, hlisted⟩ := h.inv
  obtain ⟨rank, hrank⟩ := h.ranked
  refine ⟨fun task htask u hu' => ?_, ?_, fun t ht => ?_⟩
  · have hc := hdone.1 task.id (List.mem_map.mpr ⟨task, htask, rfl⟩)
    exact hplain.completed u (hinv.deps_completed hu hc ⟨task, htask, rfl, hu'⟩)
  · refine AcyclicRel.of_lt rank fun t u hd => ?_
    obtain ⟨task, htask, hid, hdep⟩ := id hd
    exact hrank t (hdone.1 t (List.mem_map.mpr ⟨task, htask, hid⟩)) u hd
  · exact hlisted t ((hinv.status t).mpr (.inr (.inl (hdone.1 t ht))))

end Driven

theorem plain_run {output : PlannerOutput} {d : Drive}
    (h : Relation.ReflTransGen (Drive.Step output.sandboxTopology) (Drive.start output) d) :
    Plain output.taskGraph output.sandboxHints d := by
  induction h with
  | refl => exact Plain.start output
  | tail _ hs ih => exact ih.step hs

theorem driven_run {output : PlannerOutput} (hu : output.taskGraph.UniqueIds) {d : Drive}
    (h : Relation.ReflTransGen (Drive.Step output.sandboxTopology) (Drive.start output) d) :
    Driven output.taskGraph output.sandboxHints output.sandboxTopology d := by
  induction h with
  | refl => exact Driven.start hu
  | tail _ hs ih => exact ih.step hu hs

/-- What the planner would have to check. -/
structure Sound (output : PlannerOutput) : Prop where
  unique : output.taskGraph.UniqueIds
  closed : output.taskGraph.Closed
  acyclic : output.taskGraph.Acyclic
  /-- Every hint names a sandbox of the topology. -/
  hints : ∀ task ∈ output.taskGraph.tasks, ∀ hint, task.hint = some hint →
    ∃ sandbox ∈ output.sandboxTopology.sandboxes, sandbox.name = hint

theorem hints_iff {sj : SerdeJson} {response : Text} {output : PlannerOutput}
    (h : parsePlannerResponse sj response = .ok output) (hu : output.taskGraph.UniqueIds) :
    (∀ t ∈ output.taskGraph.ids, ∃ sandbox ∈ output.sandboxTopology.sandboxes,
      sandbox.name = sandboxFor output.sandboxHints t) ↔
    ∀ task ∈ output.taskGraph.tasks, ∀ hint, task.hint = some hint →
      ∃ sandbox ∈ output.sandboxTopology.sandboxes, sandbox.name = hint := by
  obtain ⟨-, hne, hhints⟩ := parsePlannerResponse_ok h
  obtain ⟨first, rest, hcons⟩ := List.exists_cons_of_ne_nil hne
  have hfirst : output.sandboxTopology.sandboxes.head? = some first := by
    rw [hcons]
    rfl
  have hmem : first ∈ output.sandboxTopology.sandboxes := hcons ▸ List.mem_cons_self
  have hsandbox : ∀ task ∈ output.taskGraph.tasks,
      sandboxFor output.sandboxHints task.id = task.hint.getD first.name := by
    intro task htask
    rw [sandboxFor, hhints, lookup_buildSandboxHints hu hfirst htask]
    rfl
  constructor
  · intro hall task htask hint hhint
    obtain ⟨sandbox, hs, hname⟩ := hall task.id (List.mem_map.mpr ⟨task, htask, rfl⟩)
    rw [hsandbox task htask, hhint] at hname
    exact ⟨sandbox, hs, hname⟩
  · intro hall t ht
    obtain ⟨task, htask, rfl⟩ := List.mem_map.mp ht
    rw [hsandbox task htask]
    cases hhint : task.hint with
    | none => exact ⟨first, hmem, rfl⟩
    | some hint => exact hall task htask hint hhint

theorem sound_of_endsCompleted {sj : SerdeJson} {response : Text} {output : PlannerOutput}
    (h : parsePlannerResponse sj response = .ok output) (hends : Drive.EndsCompleted output) :
    Sound output := by
  obtain ⟨hacc, hlast⟩ := hends
  obtain ⟨d, hrun, hend⟩ := Drive.exists_last hacc
  have hdone := hlast d hrun hend
  have hu := (plain_run hrun).unique_of_done hdone
  obtain ⟨hcl, hac, hlisted⟩ := (driven_run hu hrun).wellFormed_of_done hu (plain_run hrun) hdone
  exact ⟨hu, hcl, hac, (hints_iff h hu).mp hlisted⟩

theorem endsCompleted_of_sound {sj : SerdeJson} {response : Text} {output : PlannerOutput}
    (h : parsePlannerResponse sj response = .ok output) (hsound : Sound output) :
    Drive.EndsCompleted output := by
  have hlisted := (hints_iff h hsound.unique).mpr hsound.hints
  refine ⟨(Driven.start hsound.unique).acc hsound.unique, fun d hrun hend => ?_⟩
  exact (driven_run hsound.unique hrun).done_of_last hsound.unique hsound.closed hsound.acyclic
    hlisted (plain_run hrun) hend

/-- **An accepted reply is executable exactly when it is sound**: every driven run comes
to an end with every task completed if and only if the ids are unique, every dependency
exists, there is no cycle, and every hint names a sandbox of the topology. -/
theorem executable_iff {sj : SerdeJson} {response : Text} {output : PlannerOutput}
    (h : parsePlannerResponse sj response = .ok output) :
    Drive.EndsCompleted output ↔ Sound output :=
  ⟨sound_of_endsCompleted h, endsCompleted_of_sound h⟩

/-- A reply with one task, hinted to a sandbox, and one sandbox, `backend`. -/
def oneTaskReply (hint : String) : Text :=
  ("\x7b\"task_graph\":\x7b\"tasks\":[\x7b\"id\":\"t1\",\"description\":\"login form\"," ++
    "\"deps\":[],\"hint\":\"" ++ hint ++ "\"\x7d]\x7d,\"sandbox_topology\":\x7b\"sandboxes\":" ++
    "[\x7b\"name\":\"backend\",\"scope\":\"src/\",\"tools\":[],\"max_agents\":1\x7d]\x7d\x7d").toList

def oneTaskValue (hint : String) : Json :=
  .object [
    ("task_graph".toList, .object [("tasks".toList, .array [.object [
      ("id".toList, .string "t1".toList), ("description".toList, .string "login form".toList),
      ("deps".toList, .array []), ("hint".toList, .string hint.toList)]])]),
    ("sandbox_topology".toList, .object [("sandboxes".toList, .array [.object [
      ("name".toList, .string "backend".toList), ("scope".toList, .string "src/".toList),
      ("tools".toList, .array []), ("max_agents".toList, .number "1".toList)]])])]

def oneTaskGraph (hint : String) : TaskGraph := ⟨[⟨"t1", "login form", [], some hint⟩]⟩

def backendTopology : SandboxTopology := ⟨[⟨"backend", "src/", [], 1, none⟩]⟩

def oneTaskSerde (hint : String) : SerdeJson where
  value := fun t => if t = oneTaskReply hint then some (oneTaskValue hint) else none
  print := fun _ => some (oneTaskReply hint)
  plannerJson := fun t =>
    if t = oneTaskReply hint then some (oneTaskGraph hint, backendTopology) else none

def oneTaskOutput (hint : String) : PlannerOutput :=
  ⟨oneTaskGraph hint, backendTopology, buildSandboxHints (oneTaskGraph hint) backendTopology⟩

theorem parse_oneTaskReply {hint : String} (hne : oneTaskReply hint ≠ [])
    (hextract : extractJson (oneTaskSerde hint) (oneTaskReply hint) = oneTaskReply hint)
    (hclosed : completeTruncatedJson (oneTaskReply hint) = oneTaskReply hint) :
    parsePlannerResponse (oneTaskSerde hint) (oneTaskReply hint) = .ok (oneTaskOutput hint) := by
  have hread : (oneTaskSerde hint).plannerJson (oneTaskReply hint) =
      some (oneTaskGraph hint, backendTopology) := if_pos rfl
  rw [parsePlannerResponse, if_neg hne, hextract]
  simp only [if_neg hne, fixCommonJsonIssues_eq, hclosed, hread]
  rfl

theorem executable_iff_backend :
    parsePlannerResponse (oneTaskSerde "backend") (oneTaskReply "backend") =
        .ok (oneTaskOutput "backend") ∧ Drive.EndsCompleted (oneTaskOutput "backend") := by
  have hparse := @parse_oneTaskReply "backend" (by decide +kernel) (by decide +kernel)
    (by decide +kernel)
  have hacyclic : (oneTaskOutput "backend").taskGraph.Acyclic := by
    refine AcyclicRel.of_lt id fun t d hd => ?_
    obtain ⟨task, htask, -, hdep⟩ := hd
    obtain rfl := List.mem_singleton.mp htask
    cases hdep
  have hhints : ∀ task ∈ (oneTaskGraph "backend").tasks, ∀ hint, task.hint = some hint →
      ∃ sandbox ∈ backendTopology.sandboxes, sandbox.name = hint := by
    intro task htask hint hhint
    obtain rfl := List.mem_singleton.mp htask
    exact ⟨_, List.mem_cons_self, Option.some.inj hhint⟩
  exact ⟨hparse, (executable_iff hparse).mpr
    ⟨by decide, by decide, hacyclic, hhints⟩⟩

/-- The task of the reply is hinted to a sandbox that the topology does not have. -/
theorem dangling_hint_accepted :
    parsePlannerResponse (oneTaskSerde "frontend") (oneTaskReply "frontend") =
        .ok (oneTaskOutput "frontend") ∧ ¬ Drive.EndsCompleted (oneTaskOutput "frontend") := by
  have hparse := @parse_oneTaskReply "frontend" (by decide +kernel) (by decide +kernel)
    (by decide +kernel)
  refine ⟨hparse, fun hends => ?_⟩
  obtain ⟨sandbox, hsandbox, hname⟩ :=
    (sound_of_endsCompleted hparse hends).hints _ List.mem_cons_self "frontend" rfl
  obtain rfl := List.mem_singleton.mp hsandbox
  exact absurd hname (by decide)

end Mowis.Planner
