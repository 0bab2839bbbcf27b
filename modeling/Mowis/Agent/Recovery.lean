import Mowis.Lib.Execution
import Mowis.Review.Reviewer

/-!
# Retries of an agent from its checkpoints

`execute_task` of `agent_execution.rs` with the log and the snapshots of `checkpoint.rs`.  The
workspace is the upper layer of the agent's container; a tool is anything that leaves it in some
state, whether it answers or not.
-/

namespace Mowis.Agent

open Mowis.Lib
open Mowis.Review (Json)

structure ToolCall where
  name : String
  args : Json

structure Checkpoint where
  id : ℕ
  toolCall : String
  toolArgs : Json
  toolResult : Json
  layerSnapshotPath : String

def Checkpoint.summary (cp : Checkpoint) : String × Json × Json :=
  (cp.toolCall, cp.toolArgs, cp.toolResult)

structure CheckpointLog where
  checkpoints : List Checkpoint
  nextId : ℕ

namespace CheckpointLog

variable (log : CheckpointLog)

def new : CheckpointLog := ⟨[], 0⟩

def latest : Option Checkpoint := log.checkpoints.getLast?

def addCheckpoint (cp : Checkpoint) : CheckpointLog :=
  { log with checkpoints := log.checkpoints ++ [cp] }

def prune (keepLast : ℕ) : CheckpointLog × List Checkpoint :=
  let toRemove := log.checkpoints.length - keepLast
  ({ log with checkpoints := log.checkpoints.drop toRemove }, log.checkpoints.take toRemove)

def recoverySummary : Option (List (String × Json × Json)) :=
  if log.latest.isSome then some (log.checkpoints.map Checkpoint.summary) else none

theorem recoverySummary_some {calls : List (String × Json × Json)}
    (h : log.recoverySummary = some calls) :
    ∃ last, log.latest = some last ∧ calls.getLast? = some last.summary := by
  unfold recoverySummary at h
  split at h
  · next hsome =>
    cases h
    obtain ⟨last, hlast⟩ := Option.isSome_iff_exists.mp hsome
    refine ⟨last, hlast, ?_⟩
    rw [List.getLast?_map]
    exact congrArg (Option.map Checkpoint.summary) hlast
  · cases h

theorem recoverySummary_of_latest {last : Checkpoint} (h : log.latest = some last) :
    log.recoverySummary = some (log.checkpoints.map Checkpoint.summary) := by
  rw [recoverySummary, h]
  rfl

theorem mem_of_latest {last : Checkpoint} (h : log.latest = some last) :
    last ∈ log.checkpoints :=
  List.mem_of_getLast? h

end CheckpointLog

def snapshotDir (agentDir : String) (checkpointId : ℕ) : String :=
  agentDir ++ "/checkpoint-" ++ checkpointId.repr

theorem snapshotDir_injective (agentDir : String) : (snapshotDir agentDir).Injective := by
  intro i j h
  have hchars := congrArg String.toList h
  simp only [snapshotDir, String.toList_append] at hchars
  exact Nat.repr_injective (String.toList_inj.mp (List.append_cancel_left hchars))

theorem snapshotDir_ne_empty (agentDir : String) (checkpointId : ℕ) :
    snapshotDir agentDir checkpointId ≠ "" := by
  intro h
  have hchars := congrArg String.toList h
  simp [snapshotDir] at hchars

variable {W : Type*}

/-- The directories that are there, with what they hold. -/
abbrev Dirs (W : Type*) := String → Option W

/-- The directories of dropped entries are removed; `left` is what is there afterwards. -/
def Dirs.removeAll (dirs : Dirs W) (removed : List Checkpoint) (left : Dirs W) : Dirs W :=
  fun path =>
    if removed.any (fun cp => cp.layerSnapshotPath == path) && (dirs path).isSome then left path
    else dirs path

/-- How a call of `create_snapshot` ends.  A failed one may leave a directory. -/
inductive Snapshot (W : Type*) where
  | taken
  | failed (leftover : Option W)

/-- How a call of `restore_snapshot` ends.  A failed one may leave anything. -/
inductive Restore (W : Type*) where
  | done
  | failed (workspace : W)

structure AgentExecutor where
  maxToolRounds : ℕ
  maxTier1Retries : ℕ
  maxTier2Retries : ℕ

def AgentExecutor.new : AgentExecutor := ⟨256, 3, 2⟩

/-- Where `execute_task` is.  `failed` is an attempt that has returned an error. -/
inductive Phase where
  | discovering (tries : ℕ)
  | thinking (round : ℕ)
  | calling (round tries : ℕ) (call : ToolCall) (rest : List ToolCall)
  | checkpointing (round : ℕ) (call : ToolCall) (result : Json) (rest : List ToolCall)
  | failed
  | returned (success : Bool)

/-- `after` keeps, for the reader of the model, the workspace right after the call of each
checkpoint. -/
structure State (W : Type*) where
  workspace : W
  log : CheckpointLog
  dirs : Dirs W
  attempt : ℕ
  phase : Phase
  after : ℕ → W

inductive Action (W : Type*) where
  | answer (result : Json) (workspace : W)
  | fail (workspace : W)
  | respond (calls : List ToolCall)
  | llmError
  | checkpoint (snapshot : Snapshot W) (saved : Bool) (left : Dirs W) (pruneSaved : Bool)
  | retry (restore : Restore W)

namespace State

variable (s : State W)

/-- The agent's directory is new: every agent has an identifier of its own. -/
def start (workspace : W) : State W where
  workspace
  log := .new
  dirs _ := none
  attempt := 0
  phase := .discovering 0
  after _ := workspace

def record (agentDir : String) (call : ToolCall) (result : Json) (snapshot : Snapshot W) :
    State W :=
  let id := s.log.nextId
  let dir := snapshotDir agentDir id
  let path := match snapshot with
    | .taken => dir
    | .failed _ => ""
  { s with
    log := { s.log with nextId := id + 1 }.addCheckpoint
      ⟨id, call.name, call.args, result, path⟩
    -- the directory is new, so a copy of the workspace is all it holds
    dirs := Function.update s.dirs dir <| match snapshot with
      | .taken => some s.workspace
      | .failed leftover => leftover }

def prune (keepLast : ℕ) (left : Dirs W) : State W :=
  { s with
    log := (s.log.prune keepLast).1
    dirs := s.dirs.removeAll (s.log.prune keepLast).2 left }

def restored (restore : Restore W) : W :=
  match s.log.latest with
  | none => s.workspace
  | some last =>
    match s.dirs last.layerSnapshotPath with
    | none => s.workspace
    | some content =>
      match restore with
      | .done => content
      | .failed workspace => workspace

end State

def AgentExecutor.enterRound (x : AgentExecutor) (round : ℕ) : Phase :=
  if round < x.maxToolRounds then .thinking round else .returned false

def AgentExecutor.nextCall (x : AgentExecutor) (round : ℕ) : List ToolCall → Phase
  | [] => x.enterRound (round + 1)
  | call :: rest => .calling round 0 call rest

def step (x : AgentExecutor) (agentDir : String) (s : State W) : Action W → Option (State W)
  | .answer result workspace =>
    match s.phase with
    | .discovering _ => some { s with workspace, phase := x.enterRound 0 }
    | .calling round _ call rest =>
      some { s with
        workspace
        after := Function.update s.after s.log.nextId workspace
        phase := .checkpointing round call result rest }
    | _ => none
  | .fail workspace =>
    match s.phase with
    | .discovering tries =>
      -- without the catalog the attempt goes on
      some { s with
        workspace
        phase := if tries < x.maxTier1Retries then .discovering (tries + 1) else x.enterRound 0 }
    | .calling round tries call rest =>
      some { s with
        workspace
        phase := if tries < x.maxTier1Retries then .calling round (tries + 1) call rest
          else .failed }
    | _ => none
  | .respond calls =>
    match s.phase with
    | .thinking round =>
      some { s with
        phase := match calls with
          | [] => .returned true
          | call :: rest => .calling round 0 call rest }
    | _ => none
  | .llmError =>
    match s.phase with
    | .thinking _ => some { s with phase := .failed }
    | _ => none
  | .checkpoint snapshot saved left pruneSaved =>
    match s.phase with
    | .checkpointing round call result rest =>
      let s := s.record agentDir call result snapshot
      if saved then
        if 50 < s.log.checkpoints.length ∧ pruneSaved = false then
          some { s.prune 50 left with phase := .failed }
        else some { s.prune 50 left with phase := x.nextCall round rest }
      else some { s with phase := .failed }
    | _ => none
  | .retry restore =>
    match s.phase with
    | .failed =>
      if s.attempt < x.maxTier2Retries then
        some { s with
          workspace := s.restored restore
          attempt := s.attempt + 1
          phase := .discovering 0 }
      else some { s with phase := .returned false }
    | _ => none

/-- An attempt that is told of calls starts from the state right after the last of them. -/
def StartsAsReported (s : State W) : Prop :=
  s.phase = .discovering 0 → ∀ calls, s.log.recoverySummary = some calls →
    ∃ last, calls.getLast? = some last.summary ∧ s.log.latest = some last ∧
      s.workspace = s.after last.id

/-- A retry with a checkpoint: its snapshot was taken and is restored, or the workspace is as it
was right after the call. -/
def StepOk (x : AgentExecutor) (s : State W) : Action W → Prop
  | .retry restore => s.attempt < x.maxTier2Retries → ∀ last, s.log.latest = some last →
    if last.layerSnapshotPath = "" then s.workspace = s.after last.id
    else restore = .done ∨ restore = .failed (s.after last.id)
  | _ => True

/-! ### What every step preserves -/

structure Inv (agentDir : String) (s : State W) : Prop where
  fresh : ∀ cp ∈ s.log.checkpoints, cp.id < s.log.nextId
  ascending : s.log.checkpoints.Pairwise fun cp cp' => cp.id < cp'.id
  named : ∀ cp ∈ s.log.checkpoints,
    cp.layerSnapshotPath = "" ∨ cp.layerSnapshotPath = snapshotDir agentDir cp.id
  held : ∀ cp ∈ s.log.checkpoints, cp.layerSnapshotPath ≠ "" →
    s.dirs cp.layerSnapshotPath = some (s.after cp.id)
  unnamed : s.dirs "" = none
  current : ∀ round call result rest, s.phase = .checkpointing round call result rest →
    s.after s.log.nextId = s.workspace

section Step

variable {x : AgentExecutor} {agentDir : String} {s s' : State W}

theorem inv_start (workspace : W) : Inv agentDir (.start workspace) where
  fresh _ hcp := nomatch hcp
  ascending := .nil
  named _ hcp := nomatch hcp
  held _ hcp := nomatch hcp
  unnamed := rfl
  current _ _ _ _ hphase := nomatch hphase

theorem Inv.keep (h : Inv agentDir s) (hlog : s'.log = s.log) (hdirs : s'.dirs = s.dirs)
    (hafter : ∀ id < s.log.nextId, s'.after id = s.after id)
    (hcurrent : ∀ round call result rest, s'.phase = .checkpointing round call result rest →
      s'.after s.log.nextId = s'.workspace) : Inv agentDir s' := by
  constructor
  case fresh => rw [hlog]; exact h.fresh
  case ascending => rw [hlog]; exact h.ascending
  case named => rw [hlog]; exact h.named
  case held =>
    intro cp hcp hpath
    rw [hlog] at hcp
    rw [hdirs, hafter cp.id (h.fresh cp hcp)]
    exact h.held cp hcp hpath
  case unnamed => rw [hdirs]; exact h.unnamed
  case current => rw [hlog]; exact hcurrent

theorem Inv.record (h : Inv agentDir s) (hcurrent : s.after s.log.nextId = s.workspace)
    (call : ToolCall) (result : Json) (snapshot : Snapshot W) (phase : Phase)
    (hphase : ∀ round call result rest, phase ≠ .checkpointing round call result rest) :
    Inv agentDir { s.record agentDir call result snapshot with phase } := by
  have hnew : ∀ cp ∈ s.log.checkpoints,
      cp.layerSnapshotPath ≠ snapshotDir agentDir s.log.nextId := by
    intro cp hcp heq
    rcases h.named cp hcp with hempty | hdir
    · exact snapshotDir_ne_empty _ _ (heq.symm.trans hempty)
    · have hid := snapshotDir_injective agentDir (hdir.symm.trans heq)
      exact Nat.lt_irrefl _ (hid ▸ h.fresh cp hcp)
  constructor
  case fresh =>
    intro cp hcp
    rcases List.mem_append.mp hcp with hcp | hcp
    · exact (h.fresh cp hcp).trans (Nat.lt_succ_self _)
    · rw [List.mem_singleton.mp hcp]
      exact Nat.lt_succ_self _
  case ascending =>
    refine List.pairwise_append.mpr ⟨h.ascending, List.pairwise_singleton _ _, ?_⟩
    intro cp hcp cp' hcp'
    rw [List.mem_singleton.mp hcp']
    exact h.fresh cp hcp
  case named =>
    intro cp hcp
    rcases List.mem_append.mp hcp with hcp | hcp
    · exact h.named cp hcp
    · rw [List.mem_singleton.mp hcp]
      cases snapshot with
      | taken => exact .inr rfl
      | failed => exact .inl rfl
  case held =>
    intro cp hcp hpath
    rcases List.mem_append.mp hcp with hcp | hcp
    · show Function.update s.dirs _ _ cp.layerSnapshotPath = _
      rw [Function.update_of_ne (hnew cp hcp)]
      exact h.held cp hcp hpath
    · rw [List.mem_singleton.mp hcp] at hpath ⊢
      cases snapshot with
      | taken =>
        show Function.update s.dirs _ _ (snapshotDir agentDir s.log.nextId) =
          some (s.after s.log.nextId)
        rw [Function.update_self, hcurrent]
      | failed => exact absurd rfl hpath
  case unnamed =>
    show Function.update s.dirs _ _ "" = none
    rw [Function.update_of_ne (snapshotDir_ne_empty _ _).symm]
    exact h.unnamed
  case current =>
    intro round call result rest heq
    exact absurd heq (hphase round call result rest)

theorem Inv.prune (h : Inv agentDir s) (keepLast : ℕ) (left : Dirs W)
    (hphase : ∀ round call result rest, s.phase ≠ .checkpointing round call result rest) :
    Inv agentDir (s.prune keepLast left) := by
  set removed := s.log.checkpoints.length - keepLast
  have hkept : ∀ cp ∈ s.log.checkpoints.drop removed, cp ∈ s.log.checkpoints :=
    fun cp hcp => List.mem_of_mem_drop hcp
  have hsplit := List.take_append_drop removed s.log.checkpoints
  constructor
  case fresh => exact fun cp hcp => h.fresh cp (hkept cp hcp)
  case ascending => exact h.ascending.sublist (List.drop_sublist _ _)
  case named => exact fun cp hcp => h.named cp (hkept cp hcp)
  case held =>
    intro cp hcp hpath
    show (if _ then _ else _ : Option W) = _
    rw [if_neg]
    · exact h.held cp (hkept cp hcp) hpath
    · intro hany
      obtain ⟨old, hold, heq⟩ := List.any_eq_true.mp (Bool.and_eq_true_iff.mp hany).1
      have heq : old.layerSnapshotPath = cp.layerSnapshotPath := eq_of_beq heq
      -- a dropped entry is older than a kept one, so its directory is another
      have hlt : old.id < cp.id := by
        have hpairs := h.ascending
        rw [← hsplit] at hpairs
        exact (List.pairwise_append.mp hpairs).2.2 old hold cp hcp
      have hcpDir := (h.named cp (hkept cp hcp)).resolve_left hpath
      have holdDir := (h.named old (List.mem_of_mem_take hold)).resolve_left (heq ▸ hpath)
      have hid := snapshotDir_injective agentDir (holdDir.symm.trans (heq.trans hcpDir))
      exact Nat.ne_of_lt hlt hid
  case unnamed =>
    show (if _ then _ else _ : Option W) = _
    rw [h.unnamed]
    exact if_neg fun hany => Bool.false_ne_true (Bool.and_eq_true_iff.mp hany).2
  case current =>
    intro round call result rest heq
    exact absurd heq (hphase round call result rest)

theorem enterRound_ne (x : AgentExecutor) (round : ℕ) :
    x.enterRound round ≠ .discovering 0 ∧
      ∀ r call result rest, x.enterRound round ≠ .checkpointing r call result rest := by
  unfold AgentExecutor.enterRound
  split
  · exact ⟨(nomatch ·), fun _ _ _ _ => (nomatch ·)⟩
  · exact ⟨(nomatch ·), fun _ _ _ _ => (nomatch ·)⟩

theorem nextCall_ne (x : AgentExecutor) (round : ℕ) (rest : List ToolCall) :
    x.nextCall round rest ≠ .discovering 0 ∧
      ∀ r call result rest', x.nextCall round rest ≠ .checkpointing r call result rest' := by
  cases rest with
  | nil => exact enterRound_ne x (round + 1)
  | cons call rest => exact ⟨(nomatch ·), fun _ _ _ _ => (nomatch ·)⟩

theorem Inv.step {a : Action W} (h : Inv agentDir s) (hstep : step x agentDir s a = some s') :
    Inv agentDir s' := by
  have hkeep : ∀ {workspace : W} {attempt : ℕ} {phase : Phase},
      (∀ round call result rest, phase ≠ .checkpointing round call result rest) →
      Inv agentDir { s with workspace, attempt, phase } := fun hphase =>
    h.keep rfl rfl (fun _ _ => rfl) fun round call result rest heq =>
      absurd heq (hphase round call result rest)
  cases a with
  | answer result workspace =>
    simp only [Agent.step] at hstep
    split at hstep
    · cases hstep
      exact hkeep (enterRound_ne x 0).2
    · cases hstep
      refine h.keep rfl rfl (fun id hlt => ?_) fun _ _ _ _ _ => Function.update_self ..
      exact Function.update_of_ne (Nat.ne_of_lt hlt) ..
    · cases hstep
  | fail workspace =>
    simp only [Agent.step] at hstep
    split at hstep
    · cases hstep
      refine hkeep ?_
      split
      · exact fun _ _ _ _ => (nomatch ·)
      · exact (enterRound_ne x 0).2
    · cases hstep
      refine hkeep ?_
      split <;> exact fun _ _ _ _ => (nomatch ·)
    · cases hstep
  | respond calls =>
    simp only [Agent.step] at hstep
    split at hstep
    · cases hstep
      refine hkeep ?_
      cases calls <;> exact fun _ _ _ _ => (nomatch ·)
    · cases hstep
  | llmError =>
    simp only [Agent.step] at hstep
    split at hstep
    · cases hstep
      exact hkeep fun _ _ _ _ => (nomatch ·)
    · cases hstep
  | checkpoint snapshot saved left pruneSaved =>
    simp only [Agent.step] at hstep
    split at hstep
    · next round call result rest hphase =>
      have hcurrent := h.current _ _ _ _ hphase
      have hfailed : ∀ r c v l, Phase.failed ≠ .checkpointing r c v l := fun _ _ _ _ => (nomatch ·)
      split at hstep
      · split at hstep
        · cases hstep
          exact (h.record hcurrent call result snapshot .failed hfailed).prune 50 left hfailed
        · cases hstep
          have hnext := (nextCall_ne x round rest).2
          exact (h.record hcurrent call result snapshot _ hnext).prune 50 left hnext
      · cases hstep
        exact h.record hcurrent call result snapshot .failed hfailed
    · cases hstep
  | retry restore =>
    simp only [Agent.step] at hstep
    split at hstep
    · split at hstep
      · cases hstep
        exact hkeep fun _ _ _ _ => (nomatch ·)
      · cases hstep
        exact hkeep fun _ _ _ _ => (nomatch ·)
    · cases hstep

theorem step_phase_ne {a : Action W} (hstep : step x agentDir s a = some s')
    (ha : ∀ restore, a ≠ .retry restore) : s'.phase ≠ .discovering 0 := by
  cases a with
  | answer result workspace =>
    simp only [Agent.step] at hstep
    split at hstep
    · cases hstep
      exact (enterRound_ne x 0).1
    · cases hstep
      exact (nomatch ·)
    · cases hstep
  | fail workspace =>
    simp only [Agent.step] at hstep
    split at hstep
    · cases hstep
      show (if _ then _ else _ : Phase) ≠ _
      split
      · exact (nomatch ·)
      · exact (enterRound_ne x 0).1
    · cases hstep
      show (if _ then _ else _ : Phase) ≠ _
      split <;> exact (nomatch ·)
    · cases hstep
  | respond calls =>
    simp only [Agent.step] at hstep
    split at hstep
    · cases hstep
      cases calls <;> exact (nomatch ·)
    · cases hstep
  | llmError =>
    simp only [Agent.step] at hstep
    split at hstep
    · cases hstep
      exact (nomatch ·)
    · cases hstep
  | checkpoint snapshot saved left pruneSaved =>
    simp only [Agent.step] at hstep
    split at hstep
    · split at hstep
      · split at hstep
        · cases hstep
          exact (nomatch ·)
        · cases hstep
          exact (nextCall_ne x _ _).1
      · cases hstep
        exact (nomatch ·)
    · cases hstep
  | retry restore => exact absurd rfl (ha restore)

theorem Inv.restored_eq (h : Inv agentDir s) {last : Checkpoint} (hlast : s.log.latest = some last)
    (restore : Restore W) :
    s.restored restore =
      if last.layerSnapshotPath = "" then s.workspace
      else match restore with
        | .done => s.after last.id
        | .failed workspace => workspace := by
  rw [State.restored, hlast]
  show (match s.dirs last.layerSnapshotPath with | none => _ | some content => _ : W) = _
  split_ifs with hpath
  · rw [hpath, h.unnamed]
  · rw [h.held last (s.log.mem_of_latest hlast) hpath]

theorem startsAsReported_of_phase (hphase : s.phase = .discovering 0) :
    StartsAsReported s ↔ ∀ last, s.log.latest = some last → s.workspace = s.after last.id := by
  constructor
  · intro hgood last hlast
    obtain ⟨last', -, hlast', hworkspace⟩ :=
      hgood hphase _ (s.log.recoverySummary_of_latest hlast)
    cases hlast.symm.trans hlast'
    exact hworkspace
  · intro hall _ calls hcalls
    obtain ⟨last, hlast, hsummary⟩ := s.log.recoverySummary_some hcalls
    exact ⟨last, hsummary, hlast, hall last hlast⟩

theorem Inv.step_iff {a : Action W} (h : Inv agentDir s)
    (hstep : Agent.step x agentDir s a = some s') : StartsAsReported s' ↔ StepOk x s a := by
  by_cases ha : ∀ restore, a ≠ .retry restore
  · have hok : StepOk x s a := by
      cases a with
      | retry restore => exact absurd rfl (ha restore)
      | _ => trivial
    exact iff_of_true (fun hphase => absurd hphase (step_phase_ne hstep ha)) hok
  · obtain ⟨restore, ha⟩ := not_forall_not.mp ha
    subst ha
    simp only [Agent.step] at hstep
    split at hstep
    · split at hstep
      · next hattempt =>
        cases hstep
        rw [startsAsReported_of_phase rfl]
        have hok : StepOk x s (.retry restore) ↔ ∀ last, s.log.latest = some last →
            if last.layerSnapshotPath = "" then s.workspace = s.after last.id
            else restore = .done ∨ restore = .failed (s.after last.id) :=
          forall_prop_of_true hattempt
        rw [hok]
        refine forall₂_congr fun last hlast => ?_
        show s.restored restore = s.after last.id ↔ _
        rw [h.restored_eq hlast]
        split_ifs with hpath
        · rfl
        · cases restore with
          | done => exact iff_of_true rfl (.inl rfl)
          | failed workspace =>
            show workspace = _ ↔ _
            constructor
            · rintro rfl
              exact .inr rfl
            · rintro (hdone | hleft)
              · cases hdone
              · exact Restore.failed.inj hleft
      · next hlast =>
        cases hstep
        exact iff_of_true (nomatch ·) fun hattempt => absurd hattempt hlast
    · cases hstep

end Step

end Mowis.Agent
