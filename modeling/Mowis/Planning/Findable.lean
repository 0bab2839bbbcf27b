import Mowis.Planning.Attribution
import Mowis.Orchestration.SimpleCaptain

/-!
# Finding and starting a plan

New plans are saved in `.mowis/plans`, and captains look for plans in the configured directory.
A hot patch keeps the dependencies the classifier names, in a plan of one task.
-/

namespace Mowis.Planning

open Mowis.Lib
open Mowis.Orchestration (TaskId PlanId TaskNode Environment simpleRun topologicalSort AllModels)

variable {setup : Setup} {c c' : Conductor} {p : PlanRecord} {fate : SaveFate} {planId : PlanId}

/-- `Plan::load` from the configured directory gives the plan. -/
def Found (setup : Setup) (c : Conductor) (p : PlanRecord) : Prop :=
  setup.host.load c.disk setup.plansDir p.planId = .ok { p with plansDir := setup.plansDir }

def SameDirectory (setup : Setup) : Prop :=
  setup.host.resolve setup.plansDir = setup.host.resolve draftPlansDir

theorem savePlan_ok (h : setup.savePlan p fate c = (c', .ok planId)) :
    planId = p.planId ∧ setup.host.save p fate c.disk = (c'.disk, .ok ()) := by
  rw [Setup.savePlan] at h
  cases hsave : setup.host.save p fate c.disk with
  | mk disk result =>
    rw [hsave] at h
    cases result with
    | ok u =>
      cases h
      exact ⟨rfl, rfl⟩
    | error e => cases h

theorem found_iff (htoml : setup.host.toml.Keeps p) (hp : p.plansDir = draftPlansDir)
    (hsave : setup.savePlan p fate c = (c', .ok planId)) :
    Found setup c' p ↔ SameDirectory setup ∨ Found setup c p := by
  obtain ⟨-, hdisk⟩ := savePlan_ok hsave
  rw [SameDirectory, ← hp]
  by_cases hdir : setup.host.resolve setup.plansDir = setup.host.resolve p.plansDir
  · exact iff_of_true (Host.load_save htoml hdisk hdir) (.inl hdir)
  · have helse : setup.host.load (setup.host.save p fate c.disk).1 setup.plansDir p.planId =
        setup.host.load c.disk setup.plansDir p.planId :=
      Host.load_save_elsewhere (.inl hdir) fate c.disk
    rw [hdisk] at helse
    rw [Found, Found, helse]
    simp [hdir]

theorem savePlan_of_keeps (htoml : setup.host.toml.Keeps p) (hwrites : 6 < fate.writes)
    (c : Conductor) :
    setup.savePlan p fate c =
      ({ c with disk := (setup.host.save p fate c.disk).1 }, .ok p.planId) := by
  have hsaves : Saves setup p fate := by
    refine ⟨hwrites, ?_⟩
    obtain ⟨header, hheader, -⟩ := htoml.header
    obtain ⟨tasks, htasks, -⟩ := htoml.tasks
    obtain ⟨sandbox, hsandbox, -⟩ := htoml.sandbox
    obtain ⟨models, hmodels, -⟩ := htoml.models
    obtain ⟨tools, htools, -⟩ := htoml.tools
    simp [PlanRecord.files, hheader, htasks, hsandbox, hmodels, htools]
  obtain ⟨planId, hok⟩ := (savePlan_ok_iff setup p fate c).mpr hsaves
  have hpair : setup.savePlan p fate c = ((setup.savePlan p fate c).1, .ok planId) :=
    Prod.ext rfl hok
  obtain ⟨rfl, -⟩ := savePlan_ok hpair
  rw [hpair, savePlan_frame]

/-- The plan passes the checks, and the wave executor starts the crew of the task. -/
structure Starts (setup : Setup) (p : PlanRecord) (task : TaskNode) : Prop where
  validates : p.plan.validate = .ok ()
  sorts : ∀ order : IterOrder TaskId, ∃ waves, topologicalSort order p.taskGraph = .ok waves
  crew : ∀ env : Environment, env.decrypt = setup.decrypt → ∀ order : IterOrder TaskId,
    ∃ sp ∈ (simpleRun setup.cfg p.planId p.plan env order).spawns, sp.node = task

theorem valid_single_iff {planId : PlanId} {task : TaskNode} :
    (Orchestration.Plan.mk planId [task]).Valid ↔ task.deps = [] := by
  constructor
  · intro hv
    refine List.eq_nil_iff_forall_not_mem.mpr fun d hd => ?_
    have hid : d = task.id := by
      have hknown := hv.closed task (List.mem_singleton_self _) d hd
      simpa [Orchestration.Plan.ids] using hknown
    subst hid
    exact hv.acyclic _ (.single ⟨task, List.mem_singleton_self _, rfl, hd⟩)
  · intro hdeps
    refine ⟨by simp [Orchestration.Plan.ids], fun t ht d hd => ?_, fun t ht => ?_⟩
    · rw [List.mem_singleton.mp ht, hdeps] at hd
      cases hd
    · obtain ⟨d, ⟨u, hu, -, hd⟩, -⟩ := Relation.TransGen.head'_iff.mp ht
      rw [List.mem_singleton.mp hu, hdeps] at hd
      cases hd

theorem starts_iff {task : TaskNode} (draft : Draft)
    (hmodel : ∃ config, setup.cfg.llmForTask setup.decrypt task = .ok config) :
    Starts setup (Setup.taskRecord task draft) task ↔ task.deps = [] := by
  have hplan : (Setup.taskRecord task draft).plan = ⟨draft.planId, [task]⟩ := rfl
  constructor
  · intro h
    exact valid_single_iff.mp (Orchestration.Plan.validate_iff.mp h.validates)
  · intro hdeps
    have hv : (Setup.taskRecord task draft).plan.Valid := hplan ▸ valid_single_iff.mpr hdeps
    refine ⟨Orchestration.Plan.validate_iff.mpr hv, fun order => ?_, fun env henv order => ?_⟩
    · obtain ⟨waves, hsort, -⟩ := Orchestration.topologicalSort_valid hv order
      exact ⟨waves, hsort⟩
    · have hall : AllModels setup.cfg (Setup.taskRecord task draft).plan env := by
        intro t ht
        rw [hplan] at ht
        rw [List.mem_singleton.mp ht, henv]
        exact hmodel
      obtain ⟨hspawns, hproper, -⟩ := Orchestration.simpleRun_spec
        (Setup.taskRecord task draft).planId hv (List.cons_ne_nil _ _) hall order
      obtain ⟨sp, hsp, hid⟩ := (hspawns task.id).mpr (by rw [hplan]; simp [Orchestration.Plan.ids])
      have hnode := (hproper sp hsp).node
      rw [hid, hplan, Orchestration.Plan.findTask, List.find?_singleton] at hnode
      simp only [decide_true, if_true] at hnode
      exact ⟨sp, hsp, (Option.some.inj hnode).symm⟩

theorem ask_ok {reply : Except String String} {response : String}
    (h : setup.ask c reply = (c', .ok response)) : reply = .ok response ∧ c'.disk = c.disk := by
  unfold Setup.ask at h
  cases hmodel : setup.conductorModel with
  | error e =>
    rw [hmodel] at h
    cases h
  | ok config =>
    rw [hmodel] at h
    cases reply with
    | error e => cases h
    | ok text =>
      cases h
      exact ⟨rfl, rfl⟩

/-- A plan of `draft_plan` is drafted from the reply, and saved on the disk as it was. -/
theorem draftPlan_ok {userMsg : String} {reply : Except String String} {draft : Draft}
    (h : setup.draftPlan c userMsg reply draft = (c', .ok planId)) :
    ∃ response c₁, reply = .ok response ∧ c₁.disk = c.disk ∧
      setup.savePlan (Setup.draftRecord draft userMsg response
        (draftTasks setup.host.toml response)) draft.fate c₁ = (c', .ok planId) := by
  rw [Setup.draftPlan] at h
  cases hask : setup.ask c reply with
  | mk c₁ result =>
    rw [hask] at h
    cases result with
    | error e => cases h
    | ok response =>
      obtain ⟨hreply, hdisk⟩ := ask_ok hask
      exact ⟨response, c₁, hreply, hdisk, h⟩

theorem materializeTaskAsPlan_ok {task : TaskNode} {draft : Draft}
    (h : setup.materializeTaskAsPlan c task draft = (c', .ok planId)) :
    ∃ c₁, c'.disk = c₁.disk ∧
      setup.savePlan (Setup.taskRecord task draft) draft.fate c = (c₁, .ok planId) := by
  rw [Setup.materializeTaskAsPlan] at h
  cases hsave : setup.savePlan (Setup.taskRecord task draft) draft.fate c with
  | mk c₁ result =>
    rw [hsave] at h
    cases result with
    | error e => cases h
    | ok id =>
      cases h
      exact ⟨c₁, rfl, rfl⟩

def ConductorReply.isHotPatch : ConductorReply → Bool
  | .hotPatched _ _ => true
  | _ => false

theorem adopt_no_hotPatch {drafted : Conductor × Except String PlanId}
    {out : PlanId → ConductorReply} (hout : ∀ id, (out id).isHotPatch = false)
    {reply : ConductorReply} (h : Setup.adopt drafted out = (c', .ok reply)) :
    reply.isHotPatch = false := by
  obtain ⟨c₀, result⟩ := drafted
  cases result with
  | error e => cases h
  | ok id =>
    cases h
    exact hout id

theorem chatTurn_no_hotPatch {script : TurnScript} {reply : ConductorReply}
    (h : setup.chatTurn c script = (c', .ok reply)) : reply.isHotPatch = false := by
  rw [Setup.chatTurn] at h
  split at h
  · cases h
  · cases h
    rfl
  · cases h
    rfl

theorem normalTurn_no_hotPatch {msg : String} {script : MessageScript} {reply : ConductorReply}
    (h : setup.normalTurn c msg script = (c', .ok reply)) : reply.isHotPatch = false := by
  rw [Setup.normalTurn] at h
  split at h
  · cases h
  · cases h
    rw [Setup.buildReply]
    split
    · rfl
    · rfl
  · split at h
    · exact adopt_no_hotPatch (fun _ => rfl) h
    · cases h
      rfl

theorem hotPatched_inv {msg : String} {script : MessageScript} {task : TaskNode}
    {target : PlanId}
    (h : setup.handleUserMessage c msg script = (c', .ok (.hotPatched task target))) :
    (∃ info, task = Setup.hotPatchTask script.rand info) ∧
      ∃ config, setup.cfg.llmFor setup.decrypt .crew = .ok config := by
  have hnormal : ∀ c₀, setup.normalTurn c₀ msg script ≠ (c', .ok (.hotPatched task target)) :=
    fun c₀ heq => by cases normalTurn_no_hotPatch heq
  unfold Setup.handleUserMessage at h
  dsimp only at h
  split at h
  · exact absurd h (hnormal _)
  · split at h
    · exact absurd h (hnormal _)
    · next output hclassify =>
      split at h
      · cases chatTurn_no_hotPatch h
      · split at h
        · next info _ =>
          cases h
          refine ⟨⟨info, rfl⟩, ?_⟩
          unfold Setup.classifyMessage at hclassify
          split at hclassify
          · cases hclassify
          · next config hconfig => exact ⟨config, hconfig⟩
        · exact absurd h (hnormal _)
      · cases adopt_no_hotPatch (fun _ => rfl) h
      · cases adopt_no_hotPatch (fun _ => rfl) h

/-- **Plans execute exactly when they are saved where they are looked for and depend on
nothing.**  A plan saved by `draft_plan` or `draft_plan_from_response` is found again exactly
when the configured directory is `.mowis/plans` or held the same plan before; a hot patch is in
addition executed exactly when the classifier named no dependencies. -/
theorem plans_execute_iff (setup : Setup) (c : Conductor) :
    (∀ userMsg reply draft c' planId,
      setup.draftPlan c userMsg reply draft = (c', .ok planId) →
      ∃ response, reply = .ok response ∧
        ∀ p, p = Setup.draftRecord draft userMsg response (draftTasks setup.host.toml response) →
          setup.host.toml.Keeps p →
          (Found setup c' p ↔ SameDirectory setup ∨ Found setup c p)) ∧
    (∀ response userMsg draft c' planId,
      setup.draftPlanFromResponse c response userMsg draft = (c', .ok planId) →
        ∀ p, p = Setup.draftRecord draft userMsg response
            (responseTasks setup.host.toml response) → setup.host.toml.Keeps p →
          (Found setup c' p ↔ SameDirectory setup ∨ Found setup c p)) ∧
    (∀ msg script task target c₁ draft c' planId,
      setup.handleUserMessage c msg script = (c₁, .ok (.hotPatched task target)) →
      setup.materializeTaskAsPlan c₁ task draft = (c', .ok planId) →
        ∀ p, p = Setup.taskRecord task draft → setup.host.toml.Keeps p →
          (Found setup c' p ∧ Starts setup p task ↔
            (SameDirectory setup ∨ Found setup c₁ p) ∧ task.deps = [])) := by
  refine ⟨fun userMsg reply draft c' planId h => ?_, fun response userMsg draft c' planId h => ?_,
    fun msg script task target c₁ draft c' planId hmsg h => ?_⟩
  · obtain ⟨response, c₁, hreply, hdisk, hsave⟩ := draftPlan_ok h
    refine ⟨response, hreply, ?_⟩
    rintro p rfl htoml
    rw [found_iff htoml rfl hsave, Found, Found, hdisk]
  · rintro p rfl htoml
    exact found_iff htoml rfl h
  · rintro p rfl htoml
    obtain ⟨⟨info, rfl⟩, hcrew⟩ := hotPatched_inv hmsg
    obtain ⟨c₂, hdisk, hsave⟩ := materializeTaskAsPlan_ok h
    have hfound := found_iff htoml rfl hsave
    have hmodel : ∃ config, setup.cfg.llmForTask setup.decrypt
        (Setup.hotPatchTask script.rand info) = .ok config := hcrew
    rw [starts_iff draft hmodel, ← hfound, Found, Found, hdisk]

/-- A library that knows some values, prints a value as `text` says and reads back the printed
values it knows, also behind a line feed. -/
def tableCodec {α : Type} (known : List α) (text : α → String) : Codec α where
  print v := .ok (text v)
  parse t :=
    match known.find? fun v => text v = t ∨ "\n" ++ text v = t with
    | some v => .ok v
    | none => .error "TOML parse error"

def headerText (h : PlanToml) : String :=
  "plan_id = \"" ++ h.planId ++ "\"\ncreated_at = \"" ++ h.createdAt ++ "\"\nconversation_id = \"" ++
    h.conversationId ++ "\"\ncurrent_version = " ++ toString h.currentVersion ++
    "\nstatus = \"Draft\"\nuser_goal = \"" ++ h.userGoal ++ "\"\n"

def taskText (task : TaskNode) : String :=
  "[[tasks]]\nid = \"" ++ task.id ++ "\"\ntitle = \"" ++ task.title ++ "\"\ndescription = \"" ++
    task.description ++ "\"\ndeps = []\nmodel_tier = \"Fast\"\ntool_budget = " ++
    toString task.toolBudget ++ "\nfiles_hint = []\n"

def sandboxText : String :=
  "image_rootfs = \".mowis-cache/rootfs/ubuntu-24.04\"\nram_mb = 8192\ncpu_millis = 4000\n" ++
    "overlay_ram_mb = 1024\noverlay_cpu_millis = 1000\n"

def modelsText : String := "[tiers]\n\n[task_overrides]\n"

def toolsText : String := "[allow_extra]\n\n[deny]\n"

def sampleToml (headers : List PlanToml) (graphs : List TaskGraph) : Toml where
  printHeader h := .ok (headerText h)
  parsePlan t :=
    match headers.find? fun h => headerText h = t with
    | some h => .ok (.ofToml h)
    | none => .error "TOML parse error"
  tasks := tableCodec graphs fun g => "\n".intercalate (g.map taskText)
  sandbox := tableCodec [.default] fun _ => sandboxText
  models := tableCodec [.default] fun _ => modelsText
  tools := tableCodec [.default] fun _ => toolsText

def planSetup (plansDir : String) (toml : Toml) : Setup :=
  { chatSetup with
    host := ⟨fun path => if path = draftPlansDir then "/project/.mowis/plans" else path, toml,
      "No such file or directory"⟩
    plansDir := plansDir }

def notesTask : TaskNode := ⟨"t1", "Notes", "Write notes.md", [], .fast, 15, []⟩

def notesReply : String :=
  "Here it is.\n<plan>\n[[tasks]]\nid = \"t1\"\ntitle = \"Notes\"\ndescription = \"Write notes.md\"\n" ++
    "deps = []\nmodel_tier = \"Fast\"\ntool_budget = 15\nfiles_hint = []\n</plan>"

def notesDraft : Draft := ⟨"20260101T000000Z-0000aa", "2026-01-01T00:00:00Z", ⟨10, "unused"⟩⟩

def notesRecord : PlanRecord := Setup.draftRecord notesDraft "notes" notesReply [notesTask]

def notesToml : Toml := sampleToml [notesRecord.toPlanToml] [notesRecord.taskGraph]

theorem tableCodec_prints {α : Type} (v : α) (rest : List α) {text : α → String}
    (hne : text v ≠ "") : (tableCodec (v :: rest) text).Prints v := by
  refine ⟨text v, rfl, hne, ?_⟩
  simp [tableCodec]

theorem sampleToml_keeps {p : PlanRecord} (headers : List PlanToml) (graphs : List TaskGraph)
    (htasks : "\n".intercalate (p.taskGraph.map taskText) ≠ "")
    (hsandbox : p.sandboxConfig = .default) (hmodels : p.modelsConfig = .default)
    (htools : p.toolsConfig = .default) :
    (sampleToml (p.toPlanToml :: headers) (p.taskGraph :: graphs)).Keeps p := by
  refine ⟨⟨headerText p.toPlanToml, rfl, by simp [sampleToml]⟩, tableCodec_prints _ _ htasks,
    ?_, ?_, ?_⟩
  · rw [hsandbox]
    have hne : sandboxText ≠ "" := by decide
    exact @tableCodec_prints _ SandboxConfig.default [] (fun _ => sandboxText) hne
  · rw [hmodels]
    exact tableCodec_prints ModelsConfig.default [] (show modelsText ≠ "" by decide)
  · rw [htools]
    exact tableCodec_prints ToolsConfig.default [] (show toolsText ≠ "" by decide)

theorem responseTasks_notes :
    responseTasks notesToml notesReply = [notesTask] := by
  decide +kernel

theorem keeps_notes : notesToml.Keeps notesRecord :=
  sampleToml_keeps [] [] (by decide) rfl rfl rfl

theorem notesRecord_eq :
    notesRecord = Setup.draftRecord notesDraft "notes" notesReply
      (responseTasks notesToml notesReply) := by
  rw [responseTasks_notes]
  rfl

theorem notes_saved (plansDir : String) :
    (planSetup plansDir notesToml).draftPlanFromResponse (.start ∅) notesReply
        "notes" notesDraft =
      ({ Conductor.start ∅ with
        disk := ((planSetup plansDir notesToml).host.save notesRecord
          notesDraft.fate ∅).1 }, .ok notesRecord.planId) := by
  have hkeeps : (planSetup plansDir notesToml).host.toml.Keeps notesRecord :=
    keeps_notes
  rw [Setup.draftPlanFromResponse]
  have hrecord : Setup.draftRecord notesDraft "notes" notesReply (responseTasks
      (planSetup plansDir notesToml).host.toml notesReply) = notesRecord :=
    notesRecord_eq.symm
  rw [hrecord]
  exact savePlan_of_keeps hkeeps (by decide) _

/-- A session in which the classifier asks for a further file. -/
def patchSetup (toml : Toml) : Setup :=
  { planSetup draftPlansDir toml with
    cfg := ⟨∅, AList.insert .crew ⟨.anthropic, "claude"⟩ ∅⟩
    parseClassifier := fun _ => some ⟨.hotPatch, "a new file", some ⟨"Readme", "Write it", []⟩⟩ }

def patchScript : MessageScript := { messageWith (.error "unused") with classifier := .ok "json" }

def readmeTask : TaskNode := Setup.hotPatchTask 7 ⟨"Readme", "Write it", []⟩

def readmeRecord : PlanRecord := Setup.taskRecord readmeTask notesDraft

def readmeToml : Toml := sampleToml [readmeRecord.toPlanToml] [readmeRecord.taskGraph]

theorem keeps_readme : readmeToml.Keeps readmeRecord :=
  sampleToml_keeps [] [] (by decide) rfl rfl rfl

def withPlan : Conductor := { Conductor.start ∅ with currentPlan := some "p0" }

theorem readme_patched :
    (patchSetup readmeToml).handleUserMessage withPlan "and a readme" { patchScript with rand := 7 } =
      (Setup.receive withPlan "and a readme" "", .ok (.hotPatched readmeTask "p0")) := rfl

theorem readme_saved (c : Conductor) :
    (patchSetup readmeToml).materializeTaskAsPlan c readmeTask notesDraft =
      ({ c with
        disk := ((patchSetup readmeToml).host.save readmeRecord notesDraft.fate c.disk).1
        currentPlan := some readmeRecord.planId }, .ok readmeRecord.planId) := by
  have hkeeps : (patchSetup readmeToml).host.toml.Keeps readmeRecord := keeps_readme
  rw [Setup.materializeTaskAsPlan, ← readmeRecord,
    savePlan_of_keeps hkeeps (show 6 < notesDraft.fate.writes by decide) c]

/-- In a session whose configuration names `.mowis/plans` the plan is found; and so is the plan
of a hot patch, whose crew is started. -/
theorem notes_found :
    Found (planSetup draftPlansDir notesToml)
      { Conductor.start ∅ with
        disk := ((planSetup draftPlansDir notesToml).host.save notesRecord
          notesDraft.fate ∅).1 } notesRecord ∧
    Starts (patchSetup readmeToml) readmeRecord readmeTask :=
  ⟨((plans_execute_iff (planSetup draftPlansDir notesToml) (.start ∅)).2.1
      notesReply "notes" notesDraft _ _ (notes_saved draftPlansDir) notesRecord notesRecord_eq
      keeps_notes).mpr (.inl rfl),
    (((plans_execute_iff (patchSetup readmeToml) withPlan).2.2 "and a readme"
      { patchScript with rand := 7 } readmeTask "p0" _ notesDraft _ _ readme_patched
      (readme_saved _) readmeRecord rfl keeps_readme).mpr ⟨.inl rfl, rfl⟩).2⟩

def desktopDir : String := "/home/user/.local/share/MowisAI/plans"

/-- The desktop application configures a directory of its own: there the plan is not found. -/
theorem desktop_plan_not_found :
    (planSetup desktopDir notesToml).host.toml.Keeps notesRecord ∧
    ∃ c' planId, (planSetup desktopDir notesToml).draftPlanFromResponse
        (.start ∅) notesReply "notes" notesDraft = (c', .ok planId) ∧
      ¬ Found (planSetup desktopDir notesToml) c' notesRecord := by
  refine ⟨keeps_notes, _, _, notes_saved desktopDir, fun h => ?_⟩
  have hdir : (planSetup desktopDir notesToml).host.resolve desktopDir ≠
      (planSetup desktopDir notesToml).host.resolve notesRecord.plansDir := by
    decide
  have helse := @Host.load_save_elsewhere (planSetup desktopDir notesToml).host notesRecord desktopDir
    notesRecord.planId (.inl hdir) notesDraft.fate ∅
  cases helse.symm.trans h

end Mowis.Planning
