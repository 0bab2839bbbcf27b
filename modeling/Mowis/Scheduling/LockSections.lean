import Mowis.Lib.Execution
import Mowis.Scheduling.Accounting

/-!
# `handle_task_completion` and `is_complete`, one lock section at a time

The scheduler's operations take its locks one after the other, so the sections of
several callers interleave.  Here a call of `handle_task_completion` is a `Call`,
the section it executes next, and the one observed call of `is_complete` is a
`Query`.  The loop of `unlock_dependents` holds the queue lock and is one section;
a round of the loop of `skip_dependents` takes its locks four times.
-/

namespace Mowis.Scheduling

open Mowis.Lib Scheduler

/-- An `AgentResult` without its task id. -/
structure Report where
  success : Bool
  gitDiff : Option String
  error : Option String
  deriving DecidableEq, Repr

def Report.result (r : Report) (t : TaskId) : AgentResult := ⟨t, r.success, r.gitDiff, r.error⟩

/-- The section that the call reporting a task executes next. -/
inductive Call where
  /-- No call, or a call that has returned. -/
  | idle
  | removeRunning (r : Report)
  | storeResult (r : Report)
  | markFailed (error : Option String)
  | markCompleted
  | unlock
  /-- At the head of the loop of `skip_dependents`: pop a task, look whether it is resolved. -/
  | nextToSkip (toSkip : List TaskId)
  | decideSkip (t : TaskId) (toSkip : List TaskId)
  | insertSkipped (t : TaskId) (toSkip : List TaskId)
  | dropQueued (t : TaskId) (toSkip : List TaskId)
  deriving DecidableEq, Repr

/-- One section of the call that reports `t`. -/
def Call.section (t : TaskId) (s : Scheduler) : Call → Scheduler × Call
  | .idle => (s, .idle)
  | .removeRunning r => ({ s with running := s.running.erase t }, .storeResult r)
  | .storeResult r =>
    ({ s with results := s.results.insert t (r.result t) },
      if r.success then .markCompleted else .markFailed r.error)
  | .markFailed error =>
    ({ s with failed := s.failed.insert t (error.getD "Unknown error") },
      .nextToSkip (s.dependentsOf t))
  | .markCompleted => ({ s with completed := insert t s.completed }, .unlock)
  | .unlock => (s.unlockDependents t, .idle)
  | .nextToSkip [] => (s, .idle)
  | .nextToSkip (u :: rest) => (s, if s.Resolved u then .nextToSkip rest else .decideSkip u rest)
  | .decideSkip u rest => (s, if s.shouldSkip u then .insertSkipped u rest else .nextToSkip rest)
  | .insertSkipped u rest => ({ s with skipped := insert u s.skipped }, .dropQueued u rest)
  | .dropQueued u rest =>
    ({ s with readyQueues :=
        HashMap.mapValues (fun q => q.filter (fun id => decide (id ≠ u))) s.readyQueues },
      .nextToSkip (rest ++ s.dependentsOf u))

/-- The two sections of `is_complete`. -/
inductive Query where
  | start
  /-- The ready queues were read and found empty; the counters are still to be read. -/
  | queuesRead
  | returned (complete : Bool)
  deriving DecidableEq, Repr

def Query.section (s : Scheduler) : Query → Query
  | .start => if s.readyCount > 0 then .returned false else .queuesRead
  | .queuesRead => .returned s.countersClear
  | .returned complete => .returned complete

def Call.sections (t : TaskId) (n : ℕ) (e : Scheduler × Call) : Scheduler × Call :=
  (fun e => e.2.section t e.1)^[n] e

theorem Call.sections_add (t : TaskId) (m n : ℕ) (e : Scheduler × Call) :
    Call.sections t (m + n) e = Call.sections t m (Call.sections t n e) :=
  Function.iterate_add_apply _ m n e

theorem Call.run_skip (t : TaskId) (s : Scheduler) (toSkip : List TaskId) :
    ∃ n, Call.sections t n (s, .nextToSkip toSkip) = (s.skipLoop toSkip, .idle) := by
  induction s, toSkip using skipLoop.induct with
  | case1 s => exact ⟨1, by rw [skipLoop]; rfl⟩
  | case2 s u rest hres ih =>
    obtain ⟨n, hn⟩ := ih
    refine ⟨n + 1, ?_⟩
    have hhead : Call.sections t 1 (s, .nextToSkip (u :: rest)) = (s, .nextToSkip rest) := by
      show (s, if s.Resolved u then Call.nextToSkip rest else .decideSkip u rest) = _
      rw [if_pos hres]
    rw [Call.sections_add, hhead, hn, skipLoop, if_pos hres]
  | case3 s u rest hres hskip ih =>
    obtain ⟨n, hn⟩ := ih
    refine ⟨n + 2 + 1 + 1, ?_⟩
    have hhead : Call.sections t 1 (s, .nextToSkip (u :: rest)) = (s, .decideSkip u rest) := by
      show (s, if s.Resolved u then Call.nextToSkip rest else .decideSkip u rest) = _
      rw [if_neg hres]
    have hdecide : Call.sections t 1 (s, .decideSkip u rest) = (s, .insertSkipped u rest) := by
      show (s, if s.shouldSkip u = true then Call.insertSkipped u rest else .nextToSkip rest) = _
      rw [if_pos hskip]
    have hskipped : Call.sections t 2 (s, .insertSkipped u rest) =
        (s.skip u, .nextToSkip (rest ++ s.dependentsOf u)) := rfl
    rw [Call.sections_add, hhead, Call.sections_add, hdecide, Call.sections_add, hskipped, hn,
      skipLoop, if_neg hres, if_pos hskip]
  | case4 s u rest hres hskip ih =>
    obtain ⟨n, hn⟩ := ih
    refine ⟨n + 1 + 1, ?_⟩
    have hhead : Call.sections t 1 (s, .nextToSkip (u :: rest)) = (s, .decideSkip u rest) := by
      show (s, if s.Resolved u then Call.nextToSkip rest else .decideSkip u rest) = _
      rw [if_neg hres]
    have hdecide : Call.sections t 1 (s, .decideSkip u rest) = (s, .nextToSkip rest) := by
      show (s, if s.shouldSkip u = true then Call.insertSkipped u rest else .nextToSkip rest) = _
      rw [if_neg hskip]
    rw [Call.sections_add, hhead, Call.sections_add, hdecide, hn, skipLoop, if_neg hres,
      if_neg hskip]

theorem Call.run_alone (t : TaskId) (s : Scheduler) (r : Report) :
    ∃ n, Call.sections t n (s, .removeRunning r) = (s.handleTaskCompletion (r.result t), .idle) := by
  set s₁ : Scheduler := { s with
    running := s.running.erase t, results := s.results.insert t (r.result t) } with hs₁
  have hhead : Call.sections t 2 (s, .removeRunning r) =
      (s₁, if r.success then .markCompleted else .markFailed r.error) := rfl
  rw [handleTaskCompletion]
  show ∃ n, Call.sections t n (s, .removeRunning r) = (if r.success = true then _ else _, _)
  by_cases hr : r.success = true
  · refine ⟨2 + 2, ?_⟩
    rw [Call.sections_add, hhead, if_pos hr, if_pos hr]
    rfl
  · obtain ⟨n, hn⟩ := Call.run_skip t
      { s₁ with failed := s₁.failed.insert t (r.error.getD "Unknown error") } (s₁.dependentsOf t)
    refine ⟨n + 1 + 2, ?_⟩
    rw [Call.sections_add, hhead, if_neg hr, if_neg hr, Call.sections_add]
    exact hn

theorem Query.run_alone (s : Scheduler) :
    (Query.start.section s).section s = .returned s.isComplete := by
  rw [isComplete_eq]
  show Query.section s (if s.readyCount > 0 then .returned false else .queuesRead) = _
  by_cases h : s.readyCount > 0
  · have hne : (s.readyCount == 0) = false := beq_eq_false_iff_ne.mpr (by omega)
    rw [if_pos h, hne]
    rfl
  · have he : (s.readyCount == 0) = true := beq_iff_eq.mpr (by omega)
    rw [if_neg h, he]
    rfl

/-- **Without interleaving the lock sections are the operations.**  A call of
`handle_task_completion` and one of `is_complete` that nothing comes between end as the operations
do that are one step each. -/
theorem sections_undisturbed (t : TaskId) (s : Scheduler) (r : Report) :
    (∃ n, Call.sections t n (s, .removeRunning r) =
      (s.handleTaskCompletion (r.result t), .idle)) ∧
    (Query.start.section s).section s = .returned s.isComplete :=
  ⟨Call.run_alone t s r, Query.run_alone s⟩

end Mowis.Scheduling
