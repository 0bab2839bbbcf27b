import Mowis.Lib.Execution
import Mowis.Planning.PlanStore
import Mowis.Review.Conflict

/-!
# Plans written and read at the same time

`Plan::save`, `snapshot_to_history` and `load` of `mowis-orchestration/src/plan.rs` one file at a
time.  The Conductor alone writes: it saves new plans, and on a verdict `handle_critic_verdict`
loads a plan, copies its files to the history, raises the version, asks for a new overview and
saves.  Meanwhile the Critic and any number of Captains load, and the Conductor may stop at any
point.
-/

namespace Mowis.Planning

open Mowis.Lib
open Mowis.Orchestration (PlanId)
open Mowis.Review (Overflow)

def loadOrder : List PlanFile := [.planToml, .overview, .tasks, .sandbox, .models, .tools]

/-- What `Plan::load` makes of its next file, given what it has read so far. -/
def Host.readFile (host : Host) (plansDir : String) (p : PlanRecord) (file : PlanFile)
    (text : Option String) : Except String PlanRecord :=
  match file with
  | .planToml =>
    match text with
    | none => .error host.notFound
    | some header =>
      match host.toml.parsePlan header with
      | .error e => .error e
      | .ok plan => .ok { plan with plansDir := plansDir }
  | .overview => .ok { p with overview := text.getD "" }
  | .tasks => Host.readPart (text.getD "") host.toml.tasks (fun g => { p with taskGraph := g }) p
  | .sandbox =>
    Host.readPart (text.getD "") host.toml.sandbox (fun s => { p with sandboxConfig := s }) p
  | .models =>
    Host.readPart (text.getD "") host.toml.models (fun m => { p with modelsConfig := m }) p
  | .tools =>
    Host.readPart (text.getD "") host.toml.tools (fun t => { p with toolsConfig := t }) p

/-- Before `plan.toml` is read. -/
def PlanRecord.unread : PlanRecord := .ofToml ⟨"", "", "", 0, .draft, ""⟩

/-- A load under way.  `sources` is kept for what is said of runs: the plans that can be on the disk
between its start and its end, `none` for no plan. -/
structure Loading where
  plansDir : String
  planId : PlanId
  todo : List PlanFile
  plan : Except String PlanRecord
  sources : List (Option PlanRecord)

namespace Loading

def start (plansDir : String) (planId : PlanId) (sources : List (Option PlanRecord)) : Loading :=
  ⟨plansDir, planId, loadOrder, .ok .unread, sources⟩

def read (host : Host) (disk : Disk) (l : Loading) : Loading :=
  match l.plan, l.todo with
  | .ok p, file :: rest =>
    { l with
      todo := rest
      plan := host.readFile l.plansDir p file
        (disk.lookup ⟨host.resolve l.plansDir, l.planId, file⟩) }
  | _, _ => l

def result (l : Loading) : Option (Except String PlanRecord) :=
  match l.plan, l.todo with
  | .error e, _ => some (.error e)
  | .ok p, [] => some (.ok p)
  | .ok _, _ :: _ => none

def IsOf (host : Host) (dir : String) (planId : PlanId) (l : Loading) : Prop :=
  host.resolve l.plansDir = dir ∧ l.planId = planId

instance (host : Host) (dir : String) (planId : PlanId) (l : Loading) :
    Decidable (l.IsOf host dir planId) := inferInstanceAs (Decidable (_ ∧ _))

def meets (host : Host) (p : PlanRecord) (l : Loading) : Loading :=
  if l.IsOf host (host.resolve p.plansDir) p.planId ∧ l.result.isNone = true then
    { l with sources := some p :: l.sources }
  else l

end Loading

structure HistoryKey where
  dir : String
  planId : PlanId
  version : ℕ
  file : PlanFile
  deriving DecidableEq, Repr

/-- A save that has replaced `plan.toml`, and whether it has returned Ok. -/
structure Saved where
  plan : PlanRecord
  complete : Bool

def Saved.IsOf (host : Host) (dir : String) (planId : PlanId) (e : Saved) : Prop :=
  host.resolve e.plan.plansDir = dir ∧ e.plan.planId = planId

instance (host : Host) (dir : String) (planId : PlanId) (e : Saved) :
    Decidable (e.IsOf host dir planId) := inferInstanceAs (Decidable (_ ∧ _))

/-- The plans of which files can be on the disk, given the saves of the plan from the last one on:
no further back than to a save that returned Ok. -/
def sourcesOf : List Saved → List (Option PlanRecord)
  | [] => [none]
  | e :: older => some e.plan :: (if e.complete then [] else sourcesOf older)

/-- Where the Conductor is. -/
inductive Stage where
  | idle
  /-- `handle_critic_verdict` loads the plan, -/
  | loading (l : Loading)
  /-- copies its files to the history, -/
  | copying (p : PlanRecord) (todo : List PlanFile)
  /-- and asks for a new overview of the next version. -/
  | asking (p : PlanRecord)
  | saving (p : PlanRecord) (todo : List (PlanFile × Except String String))

/-- The plans on disk with those at work on them.  `saves` is kept for what is said of runs: the
saves that have changed the disk, the last one first. -/
structure Store where
  disk : Disk
  history : HashMap HistoryKey String
  stage : Stage
  loads : List Loading
  saves : List Saved

/-- The files that `snapshot_to_history` copies. -/
def historyFiles : List PlanFile := [.overview, .tasks, .sandbox, .models, .tools]

/-- `current_version += 1` on a `u32`. -/
def nextVersion (mode : Overflow) (version : ℕ) : Option ℕ :=
  if version + 1 < 2 ^ 32 then some (version + 1)
  else
    match mode with
    | .wraps => some 0
    | .panics => none

inductive StoreAction where
  /-- The Conductor starts to save a plan under a new id. -/
  | draft (p : PlanRecord)
  /-- It turns to a verdict that asks for a revision. -/
  | revise (planId : PlanId)
  /-- It reads, copies or replaces the next file, which ends its work where that fails. -/
  | advance
  /-- The model replies. -/
  | reply (response : Except String String)
  /-- The next step of the host fails, or the Conductor is stopped.  An interrupted copy may leave
  any text. -/
  | interrupt (left : Option String)
  /-- The Critic or a Captain starts to load a plan, -/
  | load (plansDir : String) (planId : PlanId)
  /-- and reads its next file. -/
  | read (i : ℕ)

namespace Store

def start : Store := ⟨∅, ∅, .idle, [], []⟩

variable (s : Store) (host : Host)

def savesOf (dir : String) (planId : PlanId) : List Saved :=
  s.saves.filter fun e => e.IsOf host dir planId

def startLoad (plansDir : String) (planId : PlanId) : Loading :=
  .start plansDir planId (sourcesOf (s.savesOf host (host.resolve plansDir) planId))

/-- `atomic_write` of a file of the plan. -/
def write (p : PlanRecord) (file : PlanFile) (text : String) : Store :=
  { s with disk := s.disk.insert ⟨host.resolve p.plansDir, p.planId, file⟩ text }

def begun (p : PlanRecord) : Store :=
  { s with
    saves := ⟨p, false⟩ :: s.saves
    loads := s.loads.map (Loading.meets host p) }

def wrote (p : PlanRecord) (file : PlanFile) (text : String) : Store :=
  if file = .planToml then (s.write host p file text).begun host p else s.write host p file text

def returned : Store :=
  match s.saves with
  | e :: older => { s with stage := .idle, saves := { e with complete := true } :: older }
  | [] => { s with stage := .idle }

/-- `fs::copy` of a file of the plan to the history, if there is the file. -/
def copy (p : PlanRecord) (file : PlanFile) (text : Option String) : Store :=
  match text with
  | some text =>
    { s with
      history := s.history.insert ⟨host.resolve p.plansDir, p.planId, p.currentVersion, file⟩ text }
  | none => s

def advance (mode : Overflow) : Option Store :=
  match s.stage with
  | .idle => none
  | .loading l =>
    match (l.read host s.disk).result with
    | none => some { s with stage := .loading (l.read host s.disk) }
    | some (.error _) => some { s with stage := .idle }
    | some (.ok p) => some { s with stage := .copying p historyFiles }
  | .copying p (file :: rest) =>
    let text := s.disk.lookup ⟨host.resolve p.plansDir, p.planId, file⟩
    some { s.copy host p file text with stage := .copying p rest }
  | .copying p [] =>
    match nextVersion mode p.currentVersion with
    | some version => some { s with stage := .asking { p with currentVersion := version } }
    | none => some { s with stage := .idle }
  | .asking _ => none
  | .saving p ((file, .ok text) :: rest) =>
    let written := s.wrote host p file text
    some (if rest.isEmpty = true then written.returned else { written with stage := .saving p rest })
  | .saving _ ((_, .error _) :: _) => some { s with stage := .idle }
  | .saving _ [] => none

def step (mode : Overflow) (plansDir : String) : StoreAction → Option Store
  | .draft p =>
    match s.stage, s.savesOf host (host.resolve p.plansDir) p.planId with
    | .idle, [] => some { s with stage := .saving p (p.files host.toml) }
    | _, _ => none
  | .revise planId =>
    match s.stage with
    | .idle => some { s with stage := .loading (s.startLoad host plansDir planId) }
    | _ => none
  | .advance => s.advance host mode
  | .reply response =>
    match s.stage, response with
    | .asking p, .ok text =>
      let p := { p with overview := text }
      some { s with stage := .saving p (p.files host.toml) }
    | .asking _, .error _ => some { s with stage := .idle }
    | _, _ => none
  | .interrupt left =>
    match s.stage with
    | .idle => none
    | .copying p (file :: _) => some { s.copy host p file left with stage := .idle }
    | _ => some { s with stage := .idle }
  | .load plansDir planId => some { s with loads := s.loads ++ [s.startLoad host plansDir planId] }
  | .read i =>
    match s.loads[i]? with
    | some l =>
      if l.result.isNone = true then some { s with loads := s.loads.set i (l.read host s.disk) }
      else none
    | none => none

section Frames

variable {s : Store} {host : Host} {p : PlanRecord} {file : PlanFile}

@[simp] theorem write_saves (text : String) : (s.write host p file text).saves = s.saves := rfl

@[simp] theorem write_history (text : String) : (s.write host p file text).history = s.history := rfl

@[simp] theorem write_loads (text : String) : (s.write host p file text).loads = s.loads := rfl

@[simp] theorem begun_disk : (s.begun host p).disk = s.disk := rfl

@[simp] theorem begun_history : (s.begun host p).history = s.history := rfl

@[simp] theorem returned_disk : s.returned.disk = s.disk := by
  rw [returned]
  split <;> rfl

@[simp] theorem returned_history : s.returned.history = s.history := by
  rw [returned]
  split <;> rfl

@[simp] theorem returned_loads : s.returned.loads = s.loads := by
  rw [returned]
  split <;> rfl

@[simp] theorem returned_stage : s.returned.stage = .idle := by
  rw [returned]
  split <;> rfl

@[simp] theorem copy_disk (text : Option String) : (s.copy host p file text).disk = s.disk := by
  cases text <;> rfl

@[simp] theorem copy_loads (text : Option String) : (s.copy host p file text).loads = s.loads := by
  cases text <;> rfl

@[simp] theorem copy_saves (text : Option String) : (s.copy host p file text).saves = s.saves := by
  cases text <;> rfl

end Frames

end Store

namespace Loading

variable {host : Host}

theorem read_ok {disk : Disk} {l : Loading} {p : PlanRecord} {file : PlanFile}
    {rest : List PlanFile} (hplan : l.plan = .ok p) (htodo : l.todo = file :: rest) :
    l.read host disk = { l with
      todo := rest
      plan := host.readFile l.plansDir p file
        (disk.lookup ⟨host.resolve l.plansDir, l.planId, file⟩) } := by
  rw [read, hplan, htodo]

theorem read_error {disk : Disk} {l : Loading} {e : String} (hplan : l.plan = .error e) :
    l.read host disk = l := by
  rw [read, hplan]

end Loading

end Mowis.Planning
