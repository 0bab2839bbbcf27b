import Mowis.Hub.Agent

/-!
# Deadlocks of the hub agent

The methods take the mutex of the task before that of the workers, and no mutex twice, but for
`create_completion_report`: with a task to report on it calls `collect_outputs`, which asks for
the workers that the report holds.
-/

namespace Mowis.Hub

open Mowis.Lib

def Mutex.rank : Mutex → ℕ
  | .teamTask => 0
  | .workers => 1
  | .completion => 2
  | .apiContracts => 2

section methods

variable {ι : Type*} [DecidableEq ι] (teamId : String) (order : IterOrder WorkerEntry)

def NoTaskFound (d : HubData) (p : Method) : Prop :=
  ∀ timestamps, p = readReportTask teamId order timestamps → d.teamTask = none

def FindsNoTask (c : System ι Mutex HubData Answer) : Turn ι HubCall → Prop
  | .call _ _ => True
  | .run i => NoTaskFound teamId order c.data (c.program i)

theorem ordered_guarded {ok : HubData → Method → Prop} (m : Mutex) (f : HubData → HubData)
    (answer : HubData → Answer) : (guarded m f answer).Ordered Mutex.rank ok [] := by
  refine ⟨by simp, fun d _ => ⟨List.mem_singleton_self m, ?_⟩⟩
  simp [Program.Ordered]

theorem ordered_breakDownTask {ok : HubData → Method → Prop} :
    (breakDownTask order).Ordered Mutex.rank ok [] := by
  refine ⟨by simp, fun d _ => ?_⟩
  dsimp only
  cases d.teamTask with
  | none => simp [Program.Ordered]
  | some task => simp [Program.Ordered, Mutex.rank]

theorem ordered_createCompletionReport (timestamps : ℕ × ℕ) :
    (createCompletionReport teamId order timestamps).Ordered Mutex.rank
      (NoTaskFound teamId order) [] := by
  refine ⟨by simp, fun d hok => ?_⟩
  have hnone : d.teamTask = none := hok timestamps rfl
  dsimp only
  rw [hnone]
  simp [Program.Ordered]

theorem HubCall.ordered (call : HubCall) :
    (call.body teamId order).Ordered Mutex.rank (NoTaskFound teamId order) [] := by
  cases call with
  | breakDownTask => exact ordered_breakDownTask order
  | createCompletionReport timestamps => exact ordered_createCompletionReport teamId order timestamps
  | handlePeerRpc rpc =>
    rw [HubCall.body, Hub.handlePeerRpc]
    split
    · exact ordered_guarded _ _ _
    · rfl
  | serveRpc rpc =>
    rw [HubCall.body, Hub.serveRpc]
    split
    · exact ordered_guarded _ _ _
    · split
      · exact ordered_guarded _ _ _
      · rfl
  | _ => exact ordered_guarded _ _ _

variable {teamId order}

/-- **The hub has no deadlock as long as no report finds a task.** Any number of threads call the
methods in any interleaving; if no call of `create_completion_report` finds a team task, no state
of the run has a thread that waits for a mutex it holds, or threads that wait for each other in a
circle. -/
theorem hub_deadlock_free {d : HubData} {past : List (System ι Mutex HubData Answer × Turn ι HubCall)}
    {c : System ι Mutex HubData Answer}
    (h : Execution (System.step (HubCall.body teamId order)) (.start d .unit) past c)
    (hok : ∀ e ∈ past, FindsNoTask teamId order e.1 e.2) :
    (∀ e ∈ past, e.1.DeadlockFree) ∧ c.DeadlockFree := by
  refine deadlock_free (HubCall.ordered teamId order) h fun e he => ?_
  have hstep := hok e he
  cases hturn : e.2 with
  | call i call => trivial
  | run i =>
    rw [hturn] at hstep
    exact hstep

end methods

def buildTask : TeamTask := ⟨"t1", "Write the parser. Write the printer", 60, .null⟩

/-- A second thread breaks the task down while the first one records what a worker has done. -/
theorem hub_deadlock_free_two :
    ∃ past c, Execution (System.step (HubCall.body "team" .stored))
        (System.start HubData.new Answer.unit : System ℕ Mutex HubData Answer) past c ∧
      past.length = 8 ∧ (∀ e ∈ past, e.1.DeadlockFree) ∧ c.DeadlockFree := by
  have hrun : Execution.runActions (System.step (HubCall.body "team" .stored))
      [.call 0 (.receiveTeamTask buildTask), .run 0, .run 0, .run 0, .call 1 .breakDownTask, .run 1,
        .call 0 (.initWorkerPool ["c1"]), .run 0] []
      (System.start HubData.new Answer.unit : System ℕ Mutex HubData Answer) = some (_, _) := rfl
  refine ⟨_, _, .ofRun .start hrun, rfl, hub_deadlock_free (.ofRun .start hrun) ?_⟩
  -- the only action in these steps is that of `receive_team_task`, which comes before any task
  have htakes : ∀ (d : HubData) (m : Mutex) (p : Method),
      NoTaskFound "team" .stored d (.lock m p) ∧ NoTaskFound "team" .stored d (.unlock m p) := by
    intro d m p
    constructor
    · intro timestamps hprogram
      cases hprogram
    · intro timestamps hprogram
      cases hprogram
  refine List.forall_mem_cons.mpr ⟨(htakes _ _ _).1, List.forall_mem_cons.mpr ⟨trivial, ?_⟩⟩
  refine List.forall_mem_cons.mpr ⟨(htakes _ _ _).1, List.forall_mem_cons.mpr ⟨trivial, ?_⟩⟩
  refine List.forall_mem_cons.mpr ⟨(htakes _ _ _).2, List.forall_mem_cons.mpr ⟨fun _ _ => rfl, ?_⟩⟩
  refine List.forall_mem_cons.mpr ⟨(htakes _ _ _).1, List.forall_mem_cons.mpr ⟨trivial, ?_⟩⟩
  exact List.forall_mem_nil _

/-- The task is received, and the report on it waits for itself. -/
theorem report_deadlock :
    ∃ past c, Execution (System.step (HubCall.body "team" .stored))
        (System.start HubData.new Answer.unit : System ℕ Mutex HubData Answer) past c ∧
      c.WaitsFor 0 0 ∧ ¬ c.DeadlockFree := by
  have hrun : Execution.runActions (System.step (HubCall.body "team" .stored))
      [.call 0 (.receiveTeamTask buildTask), .run 0, .run 0, .run 0,
        .call 0 (.createCompletionReport (0, 0)), .run 0, .run 0, .run 0, .run 0] []
      (System.start HubData.new Answer.unit : System ℕ Mutex HubData Answer) = some (_, _) := rfl
  refine ⟨_, _, .ofRun .start hrun, ⟨.workers, _, rfl, rfl⟩, fun hfree => ?_⟩
  exact hfree 0 (.single ⟨.workers, _, rfl, rfl⟩)

end Mowis.Hub
