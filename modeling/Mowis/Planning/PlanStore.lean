import Mowis.Orchestration.Plan

/-!
# Plans on disk

`Plan::new_draft`, `save`, `load` and `snapshot_to_history` of `mowis-orchestration/src/plan.rs`.
A plan is a directory named by its id that holds one file for each part; every file is written
to a temporary name and renamed, so that a save that fails has written whole files.
-/

namespace Mowis.Planning

open Mowis.Lib
open Mowis.Orchestration (TaskId PlanId TaskNode ModelRef)

abbrev TaskGraph := List TaskNode

inductive PlanStatus where
  | draft
  | awaitingUser
  | approved
  | running
  | done
  | aborted
  deriving DecidableEq, Repr

structure SandboxConfig where
  imageRootfs : String
  ramMb : ℕ
  cpuMillis : ℕ
  overlayRamMb : ℕ
  overlayCpuMillis : ℕ
  deriving DecidableEq, Repr

def SandboxConfig.default : SandboxConfig := ⟨".mowis-cache/rootfs/ubuntu-24.04", 8192, 4000, 1024, 1000⟩

structure ModelsConfig where
  tiers : HashMap String ModelRef
  taskOverrides : HashMap String (Option String)

def ModelsConfig.default : ModelsConfig := ⟨∅, ∅⟩

structure ToolsConfig where
  allowExtra : HashMap String (List String)
  deny : HashMap String (List String)

def ToolsConfig.default : ToolsConfig := ⟨∅, ∅⟩

/-- What `plan.toml` holds. -/
structure PlanToml where
  planId : PlanId
  createdAt : String
  conversationId : String
  currentVersion : ℕ
  status : PlanStatus
  userGoal : String
  deriving DecidableEq, Repr

/-- The whole of a `Plan`. -/
structure PlanRecord extends PlanToml where
  overview : String
  taskGraph : TaskGraph
  sandboxConfig : SandboxConfig
  modelsConfig : ModelsConfig
  toolsConfig : ToolsConfig
  plansDir : String

def PlanRecord.plan (p : PlanRecord) : Orchestration.Plan := ⟨p.planId, p.taskGraph⟩

/-- A `plan.toml` read back: the other parts have their defaults. -/
def PlanRecord.ofToml (header : PlanToml) : PlanRecord where
  toPlanToml := header
  overview := ""
  taskGraph := []
  sandboxConfig := .default
  modelsConfig := .default
  toolsConfig := .default
  plansDir := ""

def draftPlansDir : String := ".mowis/plans"

def newDraft (planId : PlanId) (createdAt userGoal conversationId : String) : PlanRecord :=
  { PlanRecord.ofToml ⟨planId, createdAt, conversationId, 1, .draft, userGoal⟩ with
    plansDir := draftPlansDir }

/-- `toml::to_string_pretty` and `toml::from_str` at one type. -/
structure Codec (α : Type) where
  print : α → Except String String
  parse : String → Except String α

/-- A value is printed as a text that is not empty and read back as the value. -/
def Codec.Prints {α : Type} (c : Codec α) (v : α) : Prop :=
  ∃ t, c.print v = .ok t ∧ t ≠ "" ∧ c.parse t = .ok v

structure Toml where
  printHeader : PlanToml → Except String String
  parsePlan : String → Except String PlanRecord
  tasks : Codec TaskGraph
  sandbox : Codec SandboxConfig
  models : Codec ModelsConfig
  tools : Codec ToolsConfig

/-- What the library writes for a plan it reads back. -/
structure Toml.Keeps (toml : Toml) (p : PlanRecord) : Prop where
  header : ∃ t, toml.printHeader p.toPlanToml = .ok t ∧ toml.parsePlan t = .ok (.ofToml p.toPlanToml)
  tasks : toml.tasks.Prints p.taskGraph
  sandbox : toml.sandbox.Prints p.sandboxConfig
  models : toml.models.Prints p.modelsConfig
  tools : toml.tools.Prints p.toolsConfig

inductive PlanFile where
  | planToml
  | overview
  | tasks
  | sandbox
  | models
  | tools
  deriving DecidableEq, Repr

/-- A directory is named by the path the host resolves it to. -/
structure FileKey where
  dir : String
  planId : PlanId
  file : PlanFile
  deriving DecidableEq, Repr

abbrev Disk := HashMap FileKey String

/-- The host: where its paths lead, the TOML library, and what it says of a missing file. -/
structure Host where
  resolve : String → String
  toml : Toml
  notFound : String

/-- How far the host lets a save come: the number of steps that succeed, and the error of the
next one. -/
structure SaveFate where
  writes : ℕ
  error : String
  deriving DecidableEq, Repr

def PlanRecord.files (toml : Toml) (p : PlanRecord) : List (PlanFile × Except String String) :=
  [(.planToml, toml.printHeader p.toPlanToml), (.overview, .ok p.overview),
    (.tasks, toml.tasks.print p.taskGraph), (.sandbox, toml.sandbox.print p.sandboxConfig),
    (.models, toml.models.print p.modelsConfig), (.tools, toml.tools.print p.toolsConfig)]

def writeFiles (dir : String) (planId : PlanId) (error : String) :
    ℕ → List (PlanFile × Except String String) → Disk → Disk × Except String Unit
  | _, [], disk => (disk, .ok ())
  | _, (_, .error e) :: _, disk => (disk, .error e)
  | 0, (_, .ok _) :: _, disk => (disk, .error error)
  | n + 1, (file, .ok text) :: rest, disk =>
    writeFiles dir planId error n rest (disk.insert ⟨dir, planId, file⟩ text)

namespace Host

variable (host : Host)

/-- `Plan::save`.  The directory of the plan is created in the first step. -/
def save (p : PlanRecord) (fate : SaveFate) (disk : Disk) : Disk × Except String Unit :=
  match fate.writes with
  | 0 => (disk, .error fate.error)
  | n + 1 => writeFiles (host.resolve p.plansDir) p.planId fate.error n (p.files host.toml) disk

/-- A part of a plan that replaces the one of `plan.toml` unless its file is empty. -/
def readPart {α : Type} (text : String) (codec : Codec α) (set : α → PlanRecord)
    (p : PlanRecord) : Except String PlanRecord :=
  if text = "" then .ok p
  else
    match codec.parse text with
    | .ok v => .ok (set v)
    | .error e => .error e

/-- `fs::read_to_string(..).unwrap_or_default()` -/
def readOr (disk : Disk) (plansDir : String) (planId : PlanId) (file : PlanFile) : String :=
  (disk.lookup ⟨host.resolve plansDir, planId, file⟩).getD ""

/-- `Plan::load` -/
def load (disk : Disk) (plansDir : String) (planId : PlanId) : Except String PlanRecord :=
  let text := host.readOr disk plansDir planId
  match disk.lookup ⟨host.resolve plansDir, planId, .planToml⟩ with
  | none => .error host.notFound
  | some header =>
    match host.toml.parsePlan header with
    | .error e => .error e
    | .ok plan =>
      let p := { plan with plansDir := plansDir, overview := text .overview }
      match readPart (text .tasks) host.toml.tasks (fun g => { p with taskGraph := g }) p with
      | .error e => .error e
      | .ok p =>
        match readPart (text .sandbox) host.toml.sandbox
          (fun s => { p with sandboxConfig := s }) p with
        | .error e => .error e
        | .ok p =>
          match readPart (text .models) host.toml.models
            (fun m => { p with modelsConfig := m }) p with
          | .error e => .error e
          | .ok p =>
            readPart (text .tools) host.toml.tools (fun t => { p with toolsConfig := t }) p

end Host

section writeFiles

variable {dir : String} {planId : PlanId} {error : String}

theorem lookup_writeFiles_of_ne {k : FileKey} (hk : k.dir ≠ dir ∨ k.planId ≠ planId)
    (files : List (PlanFile × Except String String)) (n : ℕ) (disk : Disk) :
    (writeFiles dir planId error n files disk).1.lookup k = disk.lookup k := by
  induction files generalizing n disk with
  | nil => rw [writeFiles]
  | cons f rest ih =>
    obtain ⟨file, content⟩ := f
    cases content with
    | error e => rw [writeFiles]
    | ok text =>
      cases n with
      | zero => rw [writeFiles]
      | succ n =>
        rw [writeFiles, ih]
        refine AList.lookup_insert_ne ?_
        rintro rfl
        exact hk.elim (fun h => h rfl) (fun h => h rfl)

theorem lookup_writeFiles (file : PlanFile) (files : List (PlanFile × Except String String))
    (n : ℕ) (disk : Disk) :
    (writeFiles dir planId error n files disk).1.lookup ⟨dir, planId, file⟩ =
        disk.lookup ⟨dir, planId, file⟩ ∨
      ∃ text, (file, .ok text) ∈ files ∧
        (writeFiles dir planId error n files disk).1.lookup ⟨dir, planId, file⟩ = some text := by
  induction files generalizing n disk with
  | nil => exact .inl (by rw [writeFiles])
  | cons f rest ih =>
    obtain ⟨file', content⟩ := f
    cases content with
    | error e => exact .inl (by rw [writeFiles])
    | ok text =>
      cases n with
      | zero => exact .inl (by rw [writeFiles])
      | succ n =>
        rw [writeFiles]
        rcases ih n (disk.insert ⟨dir, planId, file'⟩ text) with hkeep | ⟨t, ht, hlook⟩
        · by_cases hfile : file = file'
          · subst hfile
            exact .inr ⟨text, List.mem_cons_self, hkeep.trans (AList.lookup_insert _)⟩
          · refine .inl (hkeep.trans (AList.lookup_insert_ne ?_))
            simpa using hfile
        · exact .inr ⟨t, List.mem_cons_of_mem _ ht, hlook⟩

theorem writeFiles_ok {files : List (PlanFile × Except String String)} {n : ℕ} {disk disk' : Disk}
    (hnd : (files.map Prod.fst).Nodup)
    (h : writeFiles dir planId error n files disk = (disk', .ok ())) :
    ∀ f ∈ files, ∃ text, f.2 = .ok text ∧ disk'.lookup ⟨dir, planId, f.1⟩ = some text := by
  induction files generalizing n disk with
  | nil => exact fun f hf => absurd hf List.not_mem_nil
  | cons f rest ih =>
    obtain ⟨file, content⟩ := f
    obtain ⟨hnew, hnd'⟩ := List.nodup_cons.mp hnd
    cases content with
    | error e =>
      rw [writeFiles] at h
      cases h
    | ok text =>
      cases n with
      | zero =>
        rw [writeFiles] at h
        cases h
      | succ n =>
        rw [writeFiles] at h
        intro f hf
        rcases List.mem_cons.mp hf with rfl | hf
        · refine ⟨text, rfl, ?_⟩
          have hkeep := @lookup_writeFiles dir planId error file rest n
            (disk.insert ⟨dir, planId, file⟩ text)
          rw [h] at hkeep
          rcases hkeep with hkeep | ⟨t, ht, -⟩
          · exact hkeep.trans (AList.lookup_insert _)
          · exact absurd (List.mem_map.mpr ⟨_, ht, rfl⟩) hnew
        · exact ih hnd' h f hf

end writeFiles

namespace Host

variable {host : Host} {p : PlanRecord} {fate : SaveFate} {disk disk' : Disk}

theorem lookup_save_of_ne {k : FileKey} (hk : k.dir ≠ host.resolve p.plansDir ∨ k.planId ≠ p.planId)
    (fate : SaveFate) (disk : Disk) : (host.save p fate disk).1.lookup k = disk.lookup k := by
  rw [save]
  split
  · rfl
  · exact lookup_writeFiles_of_ne hk _ _ _

theorem lookup_save (file : PlanFile) (fate : SaveFate) (disk : Disk) :
    (host.save p fate disk).1.lookup ⟨host.resolve p.plansDir, p.planId, file⟩ =
        disk.lookup ⟨host.resolve p.plansDir, p.planId, file⟩ ∨
      ∃ text, (file, .ok text) ∈ p.files host.toml ∧
        (host.save p fate disk).1.lookup ⟨host.resolve p.plansDir, p.planId, file⟩ =
          some text := by
  rw [save]
  split
  · exact .inl rfl
  · exact lookup_writeFiles file _ _ _

theorem save_ok (h : host.save p fate disk = (disk', .ok ())) :
    ∀ f ∈ p.files host.toml, ∃ text, f.2 = .ok text ∧
      disk'.lookup ⟨host.resolve p.plansDir, p.planId, f.1⟩ = some text := by
  rw [save] at h
  have hnd : ((p.files host.toml).map Prod.fst).Nodup := by
    show [PlanFile.planToml, .overview, .tasks, .sandbox, .models, .tools].Nodup
    decide
  split at h
  · cases h
  · exact writeFiles_ok hnd h

theorem load_congr {plansDir : String} {planId : PlanId}
    (h : ∀ file, disk'.lookup ⟨host.resolve plansDir, planId, file⟩ =
      disk.lookup ⟨host.resolve plansDir, planId, file⟩) :
    host.load disk' plansDir planId = host.load disk plansDir planId := by
  have hread : host.readOr disk' plansDir planId = host.readOr disk plansDir planId := by
    funext file
    rw [readOr, readOr, h]
  rw [load, load, hread, h]

theorem load_save_elsewhere {plansDir : String} {planId : PlanId}
    (hne : host.resolve plansDir ≠ host.resolve p.plansDir ∨ planId ≠ p.planId) (fate : SaveFate)
    (disk : Disk) :
    host.load (host.save p fate disk).1 plansDir planId = host.load disk plansDir planId :=
  load_congr fun _ => lookup_save_of_ne hne fate disk

theorem readPart_of_parse {α : Type} {codec : Codec α} {text : String} {v : α}
    {set : α → PlanRecord} (htext : text ≠ "") (hparse : codec.parse text = .ok v) :
    readPart text codec set p = .ok (set v) := by
  rw [readPart, if_neg htext, hparse]

theorem printed {α : Type} {codec : Codec α} {v : α} (hprints : codec.Prints v) {text : String}
    (h : codec.print v = .ok text) : text ≠ "" ∧ codec.parse text = .ok v := by
  obtain ⟨t, hprint, hne, hparse⟩ := hprints
  cases hprint.symm.trans h
  exact ⟨hne, hparse⟩

theorem load_of_files (htoml : host.toml.Keeps p) {plansDir : String}
    (hfiles : ∀ f ∈ p.files host.toml, ∃ text, f.2 = .ok text ∧
      disk.lookup ⟨host.resolve plansDir, p.planId, f.1⟩ = some text) :
    host.load disk plansDir p.planId = .ok { p with plansDir := plansDir } := by
  simp only [PlanRecord.files, List.forall_mem_cons] at hfiles
  obtain ⟨⟨header, hprint, hheader⟩, ⟨overview, hov, hoverview⟩, ⟨tasks, hptasks, htasks⟩,
    ⟨sandbox, hpsandbox, hsandbox⟩, ⟨models, hpmodels, hmodelsFile⟩, ⟨tools, hptools, htoolsFile⟩,
    -⟩ := hfiles
  cases hov
  obtain ⟨t, hprint', hparse⟩ := htoml.header
  cases hprint'.symm.trans hprint
  obtain ⟨hneTasks, hparseTasks⟩ := printed htoml.tasks hptasks
  obtain ⟨hneSandbox, hparseSandbox⟩ := printed htoml.sandbox hpsandbox
  obtain ⟨hneModels, hparseModels⟩ := printed htoml.models hpmodels
  obtain ⟨hneTools, hparseTools⟩ := printed htoml.tools hptools
  rw [load, hheader]
  simp only [hparse, readOr, hoverview, htasks, hsandbox, hmodelsFile, htoolsFile,
    Option.getD_some]
  rw [readPart_of_parse hneTasks hparseTasks]
  dsimp only
  rw [readPart_of_parse hneSandbox hparseSandbox]
  dsimp only
  rw [readPart_of_parse hneModels hparseModels]
  dsimp only
  rw [readPart_of_parse hneTools hparseTools]
  rfl

/-- **A saved plan is loaded again from where it was saved**, with the name of the directory
under which it was looked for. -/
theorem load_save (htoml : host.toml.Keeps p) (hsave : host.save p fate disk = (disk', .ok ()))
    {plansDir : String} (hdir : host.resolve plansDir = host.resolve p.plansDir) :
    host.load disk' plansDir p.planId = .ok { p with plansDir := plansDir } := by
  refine load_of_files htoml ?_
  rw [hdir]
  exact save_ok hsave

end Host

end Mowis.Planning
