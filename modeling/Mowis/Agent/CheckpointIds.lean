import Mowis.Agent.Recovery

/-!
# The ids of checkpoints

`CheckpointLog` of `agentd/src/orchestration/checkpoint.rs` with the file it is saved to.  The
counter of the ids is a field that a file may lack, and that changes without being saved.
-/

namespace Mowis.Agent.CheckpointIds

open Mowis.Lib
open Mowis.Review (Json)

/-- The log that `load` returns, with a counter that may be missing. -/
structure StoredLog where
  checkpoints : List Checkpoint
  nextId : Option ℕ
  logPath : String

def ids (checkpoints : List Checkpoint) : List ℕ := checkpoints.map Checkpoint.id

namespace StoredLog

variable (l : StoredLog)

/-- `serde(default)` -/
def log : CheckpointLog := ⟨l.checkpoints, l.nextId.getD 0⟩

/-- The ids ascend, and the counter is above them and above all others that were in the log. -/
structure Ahead (used : List ℕ) : Prop where
  increasing : (ids l.checkpoints).Pairwise (· < ·)
  own : ∀ id ∈ ids l.checkpoints, id < l.nextId.getD 0
  used : ∀ id ∈ used, id < l.nextId.getD 0

end StoredLog

/-- A file that is there is a log, or is refused. -/
inductive Content where
  | log (l : StoredLog)
  | other

/-- How a save ends; a failed one leaves some file or none. -/
inductive SaveFate where
  | done
  | failed (left : Option Content)

/-- The log in memory and the files.  `obtained` is the id just obtained, until its checkpoint is
added; `used` has the ids of all checkpoints that are or were in the log. -/
structure State where
  log : CheckpointLog
  logPath : String
  files : String → Option Content
  obtained : Option ℕ
  used : List ℕ

namespace State

variable (s : State)

def start (files : String → Option Content) (l : StoredLog) : State where
  log := l.log
  logPath := l.logPath
  files
  obtained := none
  used := ids l.checkpoints

def stored : StoredLog := ⟨s.log.checkpoints, some s.log.nextId, s.logPath⟩

def save (fate : SaveFate) : State :=
  { s with files := Function.update s.files s.logPath <| match fate with
      | .done => some (.log s.stored)
      | .failed left => left }

/-- `next_id` is a `u64`. -/
def nextCheckpointId : State :=
  { s with
    log := { s.log with nextId := (s.log.nextId + 1) % 2 ^ 64 }
    obtained := some s.log.nextId }

def addCheckpoint (cp : Checkpoint) (fate : SaveFate) : State :=
  { s with
    log := s.log.addCheckpoint cp
    obtained := none
    used := cp.id :: s.used }.save fate

def prune (keepLast : ℕ) (fate : SaveFate) : State :=
  if s.log.checkpoints.length > keepLast then
    { s with log := (s.log.prune keepLast).1 }.save fate
  else s

def load (path : String) : State :=
  match s.files path with
  | some (.log l) =>
    { s with log := l.log, logPath := l.logPath, used := ids l.checkpoints ++ s.used }
  | _ => s

end State

/-- What a checkpoint says beside its id. -/
structure Note where
  call : ToolCall
  result : Json
  layerSnapshotPath : String

def Note.checkpoint (note : Note) (id : ℕ) : Checkpoint :=
  ⟨id, note.call.name, note.call.args, note.result, note.layerSnapshotPath⟩

inductive Action where
  | next
  | add (note : Note) (fate : SaveFate)
  | prune (keepLast : ℕ) (fate : SaveFate)
  | save (fate : SaveFate)
  | load (path : String)

/-- Only the checkpoint with the id just obtained is added. -/
def step (s : State) : Action → Option State
  | .next => some s.nextCheckpointId
  | .add note fate => s.obtained.map fun id => s.addCheckpoint (note.checkpoint id) fate
  | .prune keepLast fate => some (s.prune keepLast fate)
  | .save fate => some (s.save fate)
  | .load path => some (s.load path)

/-- The counter does not overflow; a checkpoint is added to a log that does not have a later one,
and whose counter is past it; and a log that is loaded is not behind. -/
def StepOk (s : State) : Action → Prop
  | .next => s.log.nextId + 1 < 2 ^ 64
  | .add _ _ => ∀ id, s.obtained = some id → id < s.log.nextId ∧ ∀ other ∈ ids s.log.checkpoints,
      other < id
  | .prune _ _ | .save _ => True
  | .load path => ∀ l, s.files path = some (.log l) → l.Ahead s.used

/-- The ids ascend, and the counter is above every id that is or was in the log. -/
structure Inv (s : State) : Prop where
  increasing : (ids s.log.checkpoints).Pairwise (· < ·)
  own : ∀ id ∈ ids s.log.checkpoints, id ∈ s.used
  below : ∀ id ∈ s.used, id < s.log.nextId

variable {s s' : State} {a : Action} {l : StoredLog}

theorem prune_spec (log : CheckpointLog) (keepLast : ℕ) :
    (log.prune keepLast).1.checkpoints <:+ log.checkpoints ∧
      (log.prune keepLast).1.checkpoints.length = min keepLast log.checkpoints.length := by
  refine ⟨List.drop_suffix _ _, ?_⟩
  show (log.checkpoints.drop (log.checkpoints.length - keepLast)).length = _
  rw [List.length_drop]
  omega

theorem inv_start (files : String → Option Content) (hl : l.Ahead []) : Inv (.start files l) where
  increasing := hl.increasing
  own _ hid := hid
  below := hl.own

theorem Inv.save (h : Inv s) (fate : SaveFate) : Inv (s.save fate) :=
  ⟨h.increasing, h.own, h.below⟩

theorem Inv.next (h : Inv s) (hok : s.log.nextId + 1 < 2 ^ 64) : Inv s.nextCheckpointId where
  increasing := h.increasing
  own := h.own
  below id hid := by
    show id < (s.log.nextId + 1) % 2 ^ 64
    rw [Nat.mod_eq_of_lt hok]
    exact Nat.lt_succ_of_lt (h.below id hid)

theorem Inv.add (h : Inv s) {cp : Checkpoint} (hcounter : cp.id < s.log.nextId)
    (hlast : ∀ other ∈ ids s.log.checkpoints, other < cp.id) (fate : SaveFate) :
    Inv (s.addCheckpoint cp fate) := by
  have hids : ids (s.log.checkpoints ++ [cp]) = ids s.log.checkpoints ++ [cp.id] :=
    List.map_append
  refine Inv.save ⟨?_, ?_, ?_⟩ fate
  · show (ids (s.log.checkpoints ++ [cp])).Pairwise (· < ·)
    rw [hids, List.pairwise_append]
    exact ⟨h.increasing, List.pairwise_singleton _ _, fun other hother id hid =>
      List.mem_singleton.mp hid ▸ hlast other hother⟩
  · intro id hid
    replace hid : id ∈ ids (s.log.checkpoints ++ [cp]) := hid
    rw [hids, List.mem_append, List.mem_singleton] at hid
    rcases hid with hold | rfl
    · exact List.mem_cons_of_mem _ (h.own id hold)
    · exact List.mem_cons_self
  · intro id hid
    rcases List.mem_cons.mp hid with rfl | hold
    · exact hcounter
    · exact h.below id hold

theorem Inv.prune (h : Inv s) (keepLast : ℕ) (fate : SaveFate) : Inv (s.prune keepLast fate) := by
  unfold State.prune
  split
  · have hsub : (ids (s.log.prune keepLast).1.checkpoints).Sublist (ids s.log.checkpoints) :=
      (prune_spec s.log keepLast).1.sublist.map _
    refine Inv.save (s := { s with log := (s.log.prune keepLast).1 }) ⟨?_, ?_, h.below⟩ fate
    · exact h.increasing.sublist hsub
    · exact fun id hid => h.own id (hsub.subset hid)
  · exact h

theorem Inv.load (h : Inv s) (path : String)
    (hok : ∀ l, s.files path = some (.log l) → l.Ahead s.used) : Inv (s.load path) := by
  unfold State.load
  split
  · next l hfile =>
    have hahead := hok l hfile
    refine ⟨hahead.increasing, fun id hid => List.mem_append_left _ hid, fun id hid => ?_⟩
    rcases List.mem_append.mp hid with hid | hid
    · exact hahead.own id hid
    · exact hahead.used id hid
  · exact h

theorem Inv.step (h : Inv s) (hok : StepOk s a) (hstep : step s a = some s') : Inv s' := by
  cases a with
  | next =>
    cases hstep
    exact h.next hok
  | add note fate =>
    obtain ⟨id, hid, rfl⟩ := Option.map_eq_some_iff.mp hstep
    obtain ⟨hcounter, hlast⟩ := hok id hid
    exact h.add hcounter hlast fate
  | prune keepLast fate =>
    cases hstep
    exact h.prune keepLast fate
  | save fate =>
    cases hstep
    exact h.save fate
  | load path =>
    cases hstep
    exact h.load path hok

end Mowis.Agent.CheckpointIds
