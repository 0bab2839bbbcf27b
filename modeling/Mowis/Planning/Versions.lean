import Mowis.Planning.Findable
import Mowis.Planning.Revising

/-!
# What loads and the history show of a plan

A save replaces the files of a plan one by one, so that a load may find some of them replaced.
-/

namespace Mowis.Planning

open Mowis.Lib
open Mowis.Orchestration (PlanId)
open Mowis.Review (Overflow)

namespace PlanRecord

def SamePart (p q : PlanRecord) : PlanFile → Prop
  | .planToml => p.toPlanToml = q.toPlanToml
  | .overview => p.overview = q.overview
  | .tasks => p.taskGraph = q.taskGraph
  | .sandbox => p.sandboxConfig = q.sandboxConfig
  | .models => p.modelsConfig = q.modelsConfig
  | .tools => p.toolsConfig = q.toolsConfig

def PartFrom (p : PlanRecord) (file : PlanFile) : Option PlanRecord → Prop
  | some q => p.SamePart q file
  | none => file ≠ .planToml ∧ p.SamePart .unread file

theorem SamePart.refl (p : PlanRecord) (file : PlanFile) : p.SamePart p file := by
  cases file <;> rfl

theorem SamePart.trans {p q r : PlanRecord} {file : PlanFile} (h : p.SamePart q file)
    (h' : q.SamePart r file) : p.SamePart r file := by
  cases file <;> exact Eq.trans h h'

theorem PartFrom.of_same {p q : PlanRecord} {file : PlanFile} {source : Option PlanRecord}
    (hsame : p.SamePart q file) (h : q.PartFrom file source) : p.PartFrom file source := by
  cases source with
  | none => exact ⟨h.1, hsame.trans h.2⟩
  | some r => exact hsame.trans h

theorem eq_of_parts {p q : PlanRecord} (h : ∀ file, p.SamePart q file) :
    p = { q with plansDir := p.plansDir } := by
  obtain ⟨header, overview, tasks, sandbox, models, tools, dir⟩ := p
  have hheader : header = q.toPlanToml := h .planToml
  have hoverview : overview = q.overview := h .overview
  have htasks : tasks = q.taskGraph := h .tasks
  have hsandbox : sandbox = q.sandboxConfig := h .sandbox
  have hmodels : models = q.modelsConfig := h .models
  have htools : tools = q.toolsConfig := h .tools
  rw [hheader, hoverview, htasks, hsandbox, hmodels, htools]

end PlanRecord

def FileOf (host : Host) (file : PlanFile) (text : Option String) : Option PlanRecord → Prop
  | some q => ∃ t, (file, .ok t) ∈ q.files host.toml ∧ text = some t
  | none => text = none

section Reading

variable {host : Host} {p q : PlanRecord} {t plansDir : String}

theorem readPart_printed {α : Type} {codec : Codec α} {v : α} {set : α → PlanRecord}
    (hprints : codec.Prints v) (hprint : codec.print v = .ok t) :
    Host.readPart t codec set p = .ok (set v) := by
  obtain ⟨hne, hparse⟩ := Host.printed hprints hprint
  exact Host.readPart_of_parse hne hparse

theorem readPart_missing {α : Type} {codec : Codec α} {set : α → PlanRecord} :
    Host.readPart ((none : Option String).getD "") codec set p = .ok p := by
  rw [Host.readPart, Option.getD_none, if_pos rfl]

/-- What reading `plan.toml` leaves. -/
structure ReadsHeader (plansDir : String) (q p' : PlanRecord) : Prop where
  header : p'.toPlanToml = q.toPlanToml
  dir : p'.plansDir = plansDir
  unread : ∀ f, f ≠ PlanFile.planToml → p'.SamePart .unread f

/-- What reading another file leaves. -/
structure ReadsPart (p p' : PlanRecord) (file : PlanFile) (source : Option PlanRecord) : Prop where
  part : p'.PartFrom file source
  dir : p'.plansDir = p.plansDir
  others : ∀ f, f ≠ file → p'.SamePart p f

theorem readFile_header (plansDir : String) (hkeeps : host.toml.Keeps q)
    (h : (.planToml, .ok t) ∈ q.files host.toml) :
    ∃ p', host.readFile plansDir p .planToml (some t) = .ok p' ∧ ReadsHeader plansDir q p' := by
  have hprint : host.toml.printHeader q.toPlanToml = .ok t := by
    simpa [PlanRecord.files, eq_comm] using h
  obtain ⟨t', hprint', hparse⟩ := hkeeps.header
  cases hprint'.symm.trans hprint
  refine ⟨{ PlanRecord.ofToml q.toPlanToml with plansDir := plansDir }, ?_, rfl, rfl, ?_⟩
  · rw [Host.readFile.eq_def]
    dsimp only
    rw [hparse]
  · intro f hf
    cases f with
    | planToml => exact absurd rfl hf
    | _ => rfl

theorem readFile_printed (hkeeps : host.toml.Keeps q) {file : PlanFile} (hne : file ≠ .planToml)
    (h : (file, .ok t) ∈ q.files host.toml) :
    ∃ p', host.readFile plansDir p file (some t) = .ok p' ∧ ReadsPart p p' file (some q) := by
  cases file with
  | planToml => exact absurd rfl hne
  | overview =>
    have htext : q.overview = t := by simpa [PlanRecord.files, eq_comm] using h
    refine ⟨{ p with overview := t }, rfl, htext.symm, rfl, fun f hf => ?_⟩
    cases f <;> first | rfl | exact absurd rfl hf
  | tasks =>
    have hprint : host.toml.tasks.print q.taskGraph = .ok t := by
      simpa [PlanRecord.files, eq_comm] using h
    refine ⟨{ p with taskGraph := q.taskGraph }, readPart_printed hkeeps.tasks hprint, rfl, rfl,
      fun f hf => ?_⟩
    cases f <;> first | rfl | exact absurd rfl hf
  | sandbox =>
    have hprint : host.toml.sandbox.print q.sandboxConfig = .ok t := by
      simpa [PlanRecord.files, eq_comm] using h
    refine ⟨{ p with sandboxConfig := q.sandboxConfig }, readPart_printed hkeeps.sandbox hprint,
      rfl, rfl, fun f hf => ?_⟩
    cases f <;> first | rfl | exact absurd rfl hf
  | models =>
    have hprint : host.toml.models.print q.modelsConfig = .ok t := by
      simpa [PlanRecord.files, eq_comm] using h
    refine ⟨{ p with modelsConfig := q.modelsConfig }, readPart_printed hkeeps.models hprint, rfl,
      rfl, fun f hf => ?_⟩
    cases f <;> first | rfl | exact absurd rfl hf
  | tools =>
    have hprint : host.toml.tools.print q.toolsConfig = .ok t := by
      simpa [PlanRecord.files, eq_comm] using h
    refine ⟨{ p with toolsConfig := q.toolsConfig }, readPart_printed hkeeps.tools hprint, rfl,
      rfl, fun f hf => ?_⟩
    cases f <;> first | rfl | exact absurd rfl hf

theorem readFile_missing {file : PlanFile} (hne : file ≠ .planToml)
    (hunread : p.SamePart .unread file) :
    host.readFile plansDir p file none = .ok p ∧ ReadsPart p p file none := by
  refine ⟨?_, ⟨hne, hunread⟩, rfl, fun f _ => .refl p f⟩
  cases file with
  | planToml => exact absurd rfl hne
  | overview =>
    have hoverview : p.overview = "" := hunread
    show Except.ok { p with overview := "" } = Except.ok p
    rw [← hoverview]
  | tasks => exact readPart_missing
  | sandbox => exact readPart_missing
  | models => exact readPart_missing
  | tools => exact readPart_missing

theorem readFile_part (plansDir : String) {file : PlanFile} {text : Option String}
    {source : Option PlanRecord}
    (hkeeps : ∀ q, source = some q → host.toml.Keeps q) (hne : file ≠ .planToml)
    (hunread : p.SamePart .unread file) (h : FileOf host file text source) :
    ∃ p', host.readFile plansDir p file text = .ok p' ∧ ReadsPart p p' file source := by
  cases source with
  | none =>
    cases h
    exact ⟨p, readFile_missing hne hunread⟩
  | some q =>
    obtain ⟨t, hmem, rfl⟩ := h
    exact readFile_printed (hkeeps q rfl) hne hmem

end Reading

/-! ### What holds of a load -/

theorem mem_loadOrder (file : PlanFile) : file ∈ loadOrder := by
  cases file <;> decide

theorem nodup_loadOrder : loadOrder.Nodup := by decide

section Loads

variable {host : Host} {disk : Disk} {saves : List Saved} {l : Loading}

def ofPlan (host : Host) (dir : String) (planId : PlanId) (saves : List Saved) : List Saved :=
  saves.filter fun e => e.IsOf host dir planId

theorem mem_sourcesOf {q : PlanRecord} (h : some q ∈ sourcesOf saves) :
    ∃ e ∈ saves, e.plan = q := by
  induction saves with
  | nil => simp [sourcesOf] at h
  | cons e older ih =>
    rw [sourcesOf, List.mem_cons] at h
    rcases h with hq | hrest
    · exact ⟨e, List.mem_cons_self, (Option.some.inj hq).symm⟩
    · split at hrest
      · cases hrest
      · obtain ⟨e', he', hplan⟩ := ih hrest
        exact ⟨e', List.mem_cons_of_mem _ he', hplan⟩

/-- What the disk holds of a plan comes from the last saves of it, and `plan.toml` from the last. -/
structure OnDisk (host : Host) (saves : List Saved) (disk : Disk) : Prop where
  files : ∀ dir planId file, ∃ q ∈ sourcesOf (ofPlan host dir planId saves),
    FileOf host file (disk.lookup ⟨dir, planId, file⟩) q
  header : ∀ dir planId, FileOf host .planToml (disk.lookup ⟨dir, planId, .planToml⟩)
    ((ofPlan host dir planId saves).head?.map Saved.plan)

/-- What holds of a load under way, or at its end. -/
structure Loading.Sound (host : Host) (saves : List Saved) (l : Loading) : Prop where
  order : l.todo <:+ loadOrder
  covers : l.result = none →
    ∀ q ∈ sourcesOf (ofPlan host (host.resolve l.plansDir) l.planId saves), q ∈ l.sources
  own : ∀ q, some q ∈ l.sources → ∃ e ∈ ofPlan host (host.resolve l.plansDir) l.planId saves,
    e.plan = q
  parts : ∀ p, l.plan = .ok p → ∀ file ∉ l.todo, ∃ q ∈ l.sources, p.PartFrom file q
  dir : ∀ p, l.plan = .ok p → .planToml ∉ l.todo → p.plansDir = l.plansDir
  unread : ∀ p, l.plan = .ok p → ∀ file ∈ l.todo, file ≠ .planToml → p.SamePart .unread file
  errs : ∀ e, l.plan = .error e → e = host.notFound ∧ none ∈ l.sources

theorem Loading.Sound.start (plansDir : String) (planId : PlanId) :
    (Loading.start plansDir planId
      (sourcesOf (ofPlan host (host.resolve plansDir) planId saves))).Sound host saves where
  order := List.suffix_refl _
  covers _ _ hq := hq
  own _ hq := mem_sourcesOf hq
  parts p _ file hfile := absurd (mem_loadOrder file) hfile
  dir p _ hdir := absurd (mem_loadOrder _) hdir
  unread p hp file _ _ := by
    cases hp
    exact .refl _ file
  errs e he := by cases he

theorem Loading.of_result_ok {p : PlanRecord} (h : l.result = some (.ok p)) :
    l.plan = .ok p ∧ l.todo = [] := by
  rw [result] at h
  split at h
  · cases h
  · next hplan htodo =>
    cases h
    exact ⟨hplan, htodo⟩
  · cases h

theorem Loading.of_result_error {e : String} (h : l.result = some (.error e)) :
    l.plan = .error e := by
  rw [result] at h
  split at h
  · next hplan =>
    cases h
    exact hplan
  · cases h
  · cases h

theorem Loading.result_reading {p : PlanRecord} {file : PlanFile} {rest : List PlanFile}
    (hplan : l.plan = .ok p) (htodo : l.todo = file :: rest) : l.result = none := by
  rw [result, hplan, htodo]

theorem rest_of_header {rest : List PlanFile} (h : PlanFile.planToml :: rest <:+ loadOrder) :
    rest = [.overview, .tasks, .sandbox, .models, .tools] := by
  rcases List.suffix_cons_iff.mp h with heq | hsuffix
  · exact (List.cons.inj heq).2
  · exact absurd (hsuffix.subset List.mem_cons_self) (by decide)

theorem header_of_not_mem {rest : List PlanFile} (h : PlanFile.planToml :: rest <:+ loadOrder)
    {file : PlanFile} (hfile : file ∉ rest) : file = .planToml := by
  have hmem := mem_loadOrder file
  rw [loadOrder, ← rest_of_header h, List.mem_cons] at hmem
  exact hmem.resolve_right hfile

theorem Loading.Sound.read_header {p : PlanRecord} {rest : List PlanFile}
    (h : l.Sound host saves) (hdisk : OnDisk host saves disk)
    (hkeeps : ∀ e ∈ saves, host.toml.Keeps e.plan) (hplan : l.plan = .ok p)
    (htodo : l.todo = .planToml :: rest) : (l.read host disk).Sound host saves := by
  obtain ⟨source, hmem, hfile⟩ := hdisk.files (host.resolve l.plansDir) l.planId .planToml
  have hsource := h.covers (result_reading hplan htodo) source hmem
  have hsuffix : PlanFile.planToml :: rest <:+ loadOrder := htodo ▸ h.order
  rw [read_ok hplan htodo]
  cases source with
  | none =>
    have hnone : disk.lookup ⟨host.resolve l.plansDir, l.planId, .planToml⟩ = none := hfile
    rw [hnone]
    exact
      { order := (List.suffix_cons _ _).trans hsuffix
        covers := fun _ => h.covers (result_reading hplan htodo)
        own := h.own
        parts := fun p hp => by cases hp
        dir := fun p hp => by cases hp
        unread := fun p hp => by cases hp
        errs := fun e he => by
          cases he
          exact ⟨rfl, hsource⟩ }
  | some q =>
    obtain ⟨t, hfiles, htext⟩ := hfile
    obtain ⟨e, he, heq⟩ := mem_sourcesOf hmem
    have hq : host.toml.Keeps q := heq ▸ hkeeps e (List.mem_of_mem_filter he)
    obtain ⟨p', hread, hheader⟩ := readFile_header (p := p) l.plansDir hq hfiles
    rw [htext, hread]
    exact
      { order := (List.suffix_cons _ _).trans hsuffix
        covers := fun _ => h.covers (result_reading hplan htodo)
        own := h.own
        parts := fun p₁ hp₁ file hrest => by
          cases hp₁
          cases header_of_not_mem hsuffix hrest
          exact ⟨some q, hsource, hheader.header⟩
        dir := fun p₁ hp₁ _ => by
          cases hp₁
          exact hheader.dir
        unread := fun p₁ hp₁ file _ hne => by
          cases hp₁
          exact hheader.unread file hne
        errs := fun e he => by cases he }

theorem Loading.Sound.read_part {p : PlanRecord} {file : PlanFile} {rest : List PlanFile}
    (h : l.Sound host saves) (hdisk : OnDisk host saves disk)
    (hkeeps : ∀ e ∈ saves, host.toml.Keeps e.plan) (hplan : l.plan = .ok p)
    (htodo : l.todo = file :: rest) (hne : file ≠ .planToml) :
    (l.read host disk).Sound host saves := by
  obtain ⟨source, hmem, hfile⟩ := hdisk.files (host.resolve l.plansDir) l.planId file
  have hsource := h.covers (result_reading hplan htodo) source hmem
  have hq : ∀ q, source = some q → host.toml.Keeps q := by
    rintro q rfl
    obtain ⟨e, he, heq⟩ := mem_sourcesOf hmem
    exact heq ▸ hkeeps e (List.mem_of_mem_filter he)
  have hunread := h.unread p hplan file (htodo ▸ List.mem_cons_self) hne
  obtain ⟨p', hread, hpart⟩ := readFile_part l.plansDir hq hne hunread hfile
  have hsuffix : file :: rest <:+ loadOrder := htodo ▸ h.order
  obtain ⟨hnew, -⟩ := List.nodup_cons.mp (hsuffix.sublist.nodup nodup_loadOrder)
  rw [read_ok hplan htodo, hread]
  exact
    { order := (List.suffix_cons _ _).trans hsuffix
      covers := fun _ => h.covers (result_reading hplan htodo)
      own := h.own
      parts := fun p₁ hp₁ f hf => by
        cases hp₁
        by_cases hff : f = file
        · exact ⟨source, hsource, hff ▸ hpart.part⟩
        · have hold : f ∉ l.todo := by
            rw [htodo, List.mem_cons, not_or]
            exact ⟨hff, hf⟩
          obtain ⟨q, hqs, hfrom⟩ := h.parts p hplan f hold
          exact ⟨q, hqs, .of_same (hpart.others f hff) hfrom⟩
      dir := fun p₁ hp₁ hf => by
        cases hp₁
        have hold : .planToml ∉ l.todo := by
          rw [htodo, List.mem_cons, not_or]
          exact ⟨hne.symm, hf⟩
        exact hpart.dir.trans (h.dir p hplan hold)
      unread := fun p₁ hp₁ f hf hfne => by
        cases hp₁
        have hff : f ≠ file := by
          rintro rfl
          exact hnew hf
        exact (hpart.others f hff).trans
          (h.unread p hplan f (htodo ▸ List.mem_cons_of_mem _ hf) hfne)
      errs := fun e he => by cases he }

theorem Loading.Sound.read (h : l.Sound host saves) (hdisk : OnDisk host saves disk)
    (hkeeps : ∀ e ∈ saves, host.toml.Keeps e.plan) : (l.read host disk).Sound host saves := by
  cases hplan : l.plan with
  | error e =>
    rw [read_error hplan]
    exact h
  | ok p =>
    cases htodo : l.todo with
    | nil =>
      rw [Loading.read, hplan, htodo]
      exact h
    | cons file rest =>
      by_cases hne : file = .planToml
      · subst hne
        exact h.read_header hdisk hkeeps hplan htodo
      · exact h.read_part hdisk hkeeps hplan htodo hne

end Loads

section Saves

variable {host : Host} {disk : Disk} {saves older : List Saved} {p : PlanRecord} {t : String}
  {file : PlanFile} {dir : String} {planId : PlanId}

theorem ofPlan_cons_of_isOf {complete : Bool}
    (h : host.resolve p.plansDir = dir ∧ p.planId = planId) :
    ofPlan host dir planId (⟨p, complete⟩ :: saves) =
      ⟨p, complete⟩ :: ofPlan host dir planId saves := by
  refine List.filter_cons_of_pos (decide_eq_true ?_)
  exact h

theorem ofPlan_cons_of_not {complete : Bool}
    (h : ¬ (host.resolve p.plansDir = dir ∧ p.planId = planId)) :
    ofPlan host dir planId (⟨p, complete⟩ :: saves) = ofPlan host dir planId saves := by
  refine List.filter_cons_of_neg ?_
  rw [decide_eq_true_eq]
  exact h

theorem ofPlan_cons_self (complete : Bool) :
    ofPlan host (host.resolve p.plansDir) p.planId (⟨p, complete⟩ :: saves) =
      ⟨p, complete⟩ :: ofPlan host (host.resolve p.plansDir) p.planId saves :=
  ofPlan_cons_of_isOf ⟨rfl, rfl⟩

theorem exists_mem_files (toml : Toml) (p : PlanRecord) (file : PlanFile) :
    ∃ content, (file, content) ∈ p.files toml := by
  cases file <;> exact ⟨_, by rw [PlanRecord.files]; simp; rfl⟩

theorem lookup_insert_of_not (file' : PlanFile)
    (h : ¬ (host.resolve p.plansDir = dir ∧ p.planId = planId)) :
    (disk.insert ⟨host.resolve p.plansDir, p.planId, file⟩ t).lookup ⟨dir, planId, file'⟩ =
      disk.lookup ⟨dir, planId, file'⟩ := by
  refine AList.lookup_insert_ne ?_
  intro heq
  cases heq
  exact h ⟨rfl, rfl⟩

theorem lookup_insert_of_file {file' : PlanFile} (h : file' ≠ file) :
    (disk.insert ⟨dir, planId, file⟩ t).lookup ⟨dir, planId, file'⟩ =
      disk.lookup ⟨dir, planId, file'⟩ := by
  refine AList.lookup_insert_ne ?_
  intro heq
  cases heq
  exact h rfl

theorem OnDisk.begun (h : OnDisk host saves disk) (hmem : (.planToml, .ok t) ∈ p.files host.toml) :
    OnDisk host (⟨p, false⟩ :: saves)
      (disk.insert ⟨host.resolve p.plansDir, p.planId, .planToml⟩ t) := by
  constructor
  · intro dir planId file
    by_cases hkey : host.resolve p.plansDir = dir ∧ p.planId = planId
    · obtain ⟨rfl, rfl⟩ := hkey
      rw [ofPlan_cons_self]
      by_cases hfile : file = .planToml
      · subst hfile
        exact ⟨some p, List.mem_cons_self, t, hmem, AList.lookup_insert _⟩
      · obtain ⟨q, hq, hold⟩ := h.files (host.resolve p.plansDir) p.planId file
        refine ⟨q, List.mem_cons_of_mem _ hq, ?_⟩
        rwa [lookup_insert_of_file hfile]
    · rw [ofPlan_cons_of_not hkey, lookup_insert_of_not file hkey]
      exact h.files dir planId file
  · intro dir planId
    by_cases hkey : host.resolve p.plansDir = dir ∧ p.planId = planId
    · obtain ⟨rfl, rfl⟩ := hkey
      rw [ofPlan_cons_self]
      exact ⟨t, hmem, AList.lookup_insert _⟩
    · rw [ofPlan_cons_of_not hkey, lookup_insert_of_not _ hkey]
      exact h.header dir planId

theorem OnDisk.write (h : OnDisk host (⟨p, false⟩ :: older) disk) (hne : file ≠ .planToml)
    (hmem : (file, .ok t) ∈ p.files host.toml) :
    OnDisk host (⟨p, false⟩ :: older)
      (disk.insert ⟨host.resolve p.plansDir, p.planId, file⟩ t) := by
  constructor
  · intro dir planId file'
    by_cases hkey : host.resolve p.plansDir = dir ∧ p.planId = planId
    · obtain ⟨rfl, rfl⟩ := hkey
      by_cases hfile : file' = file
      · subst hfile
        refine ⟨some p, ?_, t, hmem, AList.lookup_insert _⟩
        rw [ofPlan_cons_self]
        exact List.mem_cons_self
      · rw [lookup_insert_of_file hfile]
        exact h.files _ _ file'
    · rw [lookup_insert_of_not file' hkey]
      exact h.files dir planId file'
  · intro dir planId
    by_cases hkey : host.resolve p.plansDir = dir ∧ p.planId = planId
    · obtain ⟨rfl, rfl⟩ := hkey
      rw [lookup_insert_of_file hne.symm]
      exact h.header _ _
    · rw [lookup_insert_of_not _ hkey]
      exact h.header dir planId

theorem OnDisk.returned (h : OnDisk host (⟨p, false⟩ :: older) disk)
    (hall : ∀ f ∈ p.files host.toml, ∃ text, f.2 = .ok text ∧
      disk.lookup ⟨host.resolve p.plansDir, p.planId, f.1⟩ = some text) :
    OnDisk host (⟨p, true⟩ :: older) disk := by
  constructor
  · intro dir planId file
    by_cases hkey : host.resolve p.plansDir = dir ∧ p.planId = planId
    · obtain ⟨rfl, rfl⟩ := hkey
      obtain ⟨content, hmem⟩ := exists_mem_files host.toml p file
      obtain ⟨text, hcontent, hlook⟩ := hall _ hmem
      cases hcontent
      refine ⟨some p, ?_, text, hmem, hlook⟩
      rw [ofPlan_cons_self]
      exact List.mem_cons_self
    · have hold := h.files dir planId file
      rw [ofPlan_cons_of_not hkey] at hold ⊢
      exact hold
  · intro dir planId
    have hold := h.header dir planId
    by_cases hkey : host.resolve p.plansDir = dir ∧ p.planId = planId
    · obtain ⟨rfl, rfl⟩ := hkey
      rw [ofPlan_cons_self] at hold ⊢
      exact hold
    · rw [ofPlan_cons_of_not hkey] at hold ⊢
      exact hold

variable {l : Loading}

theorem Loading.Sound.begun (h : l.Sound host saves) :
    (l.meets host p).Sound host (⟨p, false⟩ :: saves) := by
  have hown : ∀ {dir planId} {e : Saved}, e ∈ ofPlan host dir planId saves →
      e ∈ ofPlan host dir planId (⟨p, false⟩ :: saves) := by
    intro dir planId e he
    by_cases hkey : host.resolve p.plansDir = dir ∧ p.planId = planId
    · rw [ofPlan_cons_of_isOf hkey]
      exact List.mem_cons_of_mem _ he
    · rwa [ofPlan_cons_of_not hkey]
  rw [meets]
  split
  · next hmeets =>
    obtain ⟨⟨hdir, hid⟩, -⟩ := hmeets
    have hcons : ofPlan host (host.resolve l.plansDir) l.planId (⟨p, false⟩ :: saves) =
        ⟨p, false⟩ :: ofPlan host (host.resolve l.plansDir) l.planId saves :=
      ofPlan_cons_of_isOf ⟨hdir.symm, hid.symm⟩
    exact
      { order := h.order
        covers := fun hresult q hq => by
          rw [hcons] at hq
          rcases List.mem_cons.mp hq with rfl | hq
          · exact List.mem_cons_self
          · exact List.mem_cons_of_mem _ (h.covers hresult q hq)
        own := fun q hq => by
          rcases List.mem_cons.mp hq with hq | hq
          · cases hq
            refine ⟨⟨p, false⟩, ?_, rfl⟩
            rw [hcons]
            exact List.mem_cons_self
          · obtain ⟨e, he, hplan⟩ := h.own q hq
            exact ⟨e, hown he, hplan⟩
        parts := fun p' hp' f hf => by
          obtain ⟨q, hq, hfrom⟩ := h.parts p' hp' f hf
          exact ⟨q, List.mem_cons_of_mem _ hq, hfrom⟩
        dir := h.dir
        unread := h.unread
        errs := fun e he => ⟨(h.errs e he).1, List.mem_cons_of_mem _ (h.errs e he).2⟩ }
  · next hnot =>
    exact
      { order := h.order
        covers := fun hresult q hq => by
          have hkey : ¬ (host.resolve p.plansDir = host.resolve l.plansDir ∧
              p.planId = l.planId) := by
            rintro ⟨hdir, hid⟩
            exact hnot ⟨⟨hdir.symm, hid.symm⟩, by rw [hresult]; rfl⟩
          rw [ofPlan_cons_of_not hkey] at hq
          exact h.covers hresult q hq
        own := fun q hq => by
          obtain ⟨e, he, hplan⟩ := h.own q hq
          exact ⟨e, hown he, hplan⟩
        parts := h.parts
        dir := h.dir
        unread := h.unread
        errs := h.errs }

theorem Loading.Sound.returned (h : l.Sound host (⟨p, false⟩ :: older)) :
    l.Sound host (⟨p, true⟩ :: older) := by
  by_cases hkey : host.resolve p.plansDir = host.resolve l.plansDir ∧ p.planId = l.planId
  · exact
      { h with
        covers := fun hresult q hq => by
          refine h.covers hresult q ?_
          rw [ofPlan_cons_of_isOf hkey] at hq ⊢
          rcases List.mem_cons.mp hq with rfl | hq
          · exact List.mem_cons_self
          · cases hq
        own := fun q hq => by
          obtain ⟨e, he, hplan⟩ := h.own q hq
          rw [ofPlan_cons_of_isOf hkey] at he ⊢
          rcases List.mem_cons.mp he with rfl | he
          · exact ⟨_, List.mem_cons_self, hplan⟩
          · exact ⟨e, List.mem_cons_of_mem _ he, hplan⟩ }
  · exact
      { h with
        covers := fun hresult q hq => by
          refine h.covers hresult q ?_
          rw [ofPlan_cons_of_not hkey] at hq ⊢
          exact hq
        own := fun q hq => by
          obtain ⟨e, he, hplan⟩ := h.own q hq
          rw [ofPlan_cons_of_not hkey] at he ⊢
          exact ⟨e, he, hplan⟩ }

end Saves

/-! ### What holds of the store -/

section Invariant

variable {host : Host} {mode : Overflow} {plansDir : String} {s s' : Store} {p : PlanRecord}

/-- What is on the disk comes from the last saves, and so does what is loaded. -/
structure Store.Kept (host : Host) (s : Store) : Prop where
  onDisk : OnDisk host s.saves s.disk
  loads : ∀ l ∈ s.loads, l.Sound host s.saves

/-- The history of a version has the files that are on the disk, but for some that are still to be
copied. -/
def Store.Copied (host : Host) (s : Store) (p : PlanRecord) (version : ℕ)
    (todo : List PlanFile) : Prop :=
  ∀ file ∈ historyFiles, file ∉ todo → ∀ text,
    s.disk.lookup ⟨host.resolve p.plansDir, p.planId, file⟩ = some text →
      s.history.lookup ⟨host.resolve p.plansDir, p.planId, version, file⟩ = some text

/-- The last save of the plan is `e`. -/
def LastSave (host : Host) (saves : List Saved) (p : PlanRecord) (e : Saved) : Prop :=
  (ofPlan host (host.resolve p.plansDir) p.planId saves).head? = some e

/-- The plan is the next version of the one that was saved last, whose files are in the history. -/
def Store.Revises (host : Host) (mode : Overflow) (s : Store) (p : PlanRecord) : Prop :=
  ∃ e, LastSave host s.saves p e ∧
    nextVersion mode e.plan.currentVersion = some p.currentVersion ∧
    s.Copied host p e.plan.currentVersion []

def Stage.Fits (host : Host) (mode : Overflow) (s : Store) : Stage → Prop
  | .idle => True
  | .loading l => l.Sound host s.saves ∧ ∀ p, l.plan = .ok p → .planToml ∉ l.todo →
      ∃ e, LastSave host s.saves p e ∧ p.toPlanToml = e.plan.toPlanToml
  | .copying p todo => todo <:+ historyFiles ∧ s.Copied host p p.currentVersion todo ∧
      ∃ e, LastSave host s.saves p e ∧ p.currentVersion = e.plan.currentVersion
  | .asking p => s.Revises host mode p
  | .saving p todo =>
      (todo = p.files host.toml ∧
        (ofPlan host (host.resolve p.plansDir) p.planId s.saves = [] ∨ s.Revises host mode p)) ∨
      ∃ older done, s.saves = ⟨p, false⟩ :: older ∧ done ≠ [] ∧ p.files host.toml = done ++ todo ∧
        ∀ f ∈ done, ∃ text, f.2 = .ok text ∧
          s.disk.lookup ⟨host.resolve p.plansDir, p.planId, f.1⟩ = some text

/-- What a step can do. -/
inductive Store.Effect (host : Host) (mode : Overflow) (s : Store) : Store → Prop
  /-- The Conductor turns to something else, -/
  | works (x : Stage) (fits : x.Fits host mode s) : Effect host mode s { s with stage := x }
  /-- loads start or go on, -/
  | reads (loads : List Loading) (sound : ∀ l ∈ loads, l.Sound host s.saves) :
      Effect host mode s { s with loads := loads }
  /-- a file is copied to the history, or the copy is interrupted, -/
  | copies (p : PlanRecord) (file : PlanFile) (rest : List PlanFile) (text : Option String)
      (x : Stage) (stage : s.stage = .copying p (file :: rest))
      (next : x = .idle ∨ x = .copying p rest ∧
        text = s.disk.lookup ⟨host.resolve p.plansDir, p.planId, file⟩) :
      Effect host mode s { s.copy host p file text with stage := x }
  /-- a save replaces its first file, -/
  | begins (p : PlanRecord) (text : String) (rest : List (PlanFile × Except String String))
      (stage : s.stage = .saving p ((.planToml, .ok text) :: rest))
      (files : (.planToml, .ok text) :: rest = p.files host.toml)
      (revises : ofPlan host (host.resolve p.plansDir) p.planId s.saves = [] ∨
        s.Revises host mode p) :
      Effect host mode s { (s.write host p .planToml text).begun host p with
        stage := .saving p rest }
  /-- another one, -/
  | goes (p : PlanRecord) (file : PlanFile) (text : String)
      (rest done : List (PlanFile × Except String String)) (older : List Saved)
      (saves : s.saves = ⟨p, false⟩ :: older) (done_ne : done ≠ [])
      (files : p.files host.toml = done ++ (file, .ok text) :: rest)
      (written : ∀ f ∈ done, ∃ text, f.2 = .ok text ∧
        s.disk.lookup ⟨host.resolve p.plansDir, p.planId, f.1⟩ = some text) :
      Effect host mode s { s.write host p file text with stage := .saving p rest }
  /-- or its last one. -/
  | ends (p : PlanRecord) (file : PlanFile) (text : String)
      (done : List (PlanFile × Except String String)) (older : List Saved)
      (saves : s.saves = ⟨p, false⟩ :: older) (done_ne : done ≠ [])
      (files : p.files host.toml = done ++ [(file, .ok text)])
      (written : ∀ f ∈ done, ∃ text, f.2 = .ok text ∧
        s.disk.lookup ⟨host.resolve p.plansDir, p.planId, f.1⟩ = some text) :
      Effect host mode s (s.write host p file text).returned

theorem map_fst_files (toml : Toml) (p : PlanRecord) : (p.files toml).map Prod.fst = loadOrder := rfl

theorem ne_planToml {toml : Toml} {p : PlanRecord} {file : PlanFile}
    {content : Except String String} {rest done : List (PlanFile × Except String String)}
    (hdone : done ≠ []) (hfiles : p.files toml = done ++ (file, content) :: rest) :
    file ≠ .planToml := by
  cases done with
  | nil => exact absurd rfl hdone
  | cons f done =>
    have hnames := (map_fst_files toml p).symm.trans (congrArg (List.map Prod.fst) hfiles)
    rw [List.cons_append, List.map_cons, loadOrder] at hnames
    have hrest := (List.cons.inj hnames).2
    have hmem : file ∈ [PlanFile.overview, .tasks, .sandbox, .models, .tools] := by
      rw [hrest, List.map_append, List.map_cons]
      exact List.mem_append_right _ List.mem_cons_self
    rintro rfl
    exact absurd hmem (by decide)

theorem LastSave.congr {q : PlanRecord} {e : Saved} (h : LastSave host s.saves p e)
    (hdir : q.plansDir = p.plansDir) (hid : q.planId = p.planId) : LastSave host s.saves q e := by
  rw [LastSave, hdir, hid]
  exact h

theorem Stage.Fits.read {l : Loading} (hf : Stage.Fits host mode s (.loading l))
    (h : s.Kept host) (hkeeps : ∀ e ∈ s.saves, host.toml.Keeps e.plan) :
    Stage.Fits host mode s (.loading (l.read host s.disk)) := by
  obtain ⟨hsound, hheader⟩ := hf
  refine ⟨hsound.read h.onDisk hkeeps, ?_⟩
  cases hplan : l.plan with
  | error e =>
    rw [Loading.read_error hplan]
    exact hheader
  | ok p₀ =>
    cases htodo : l.todo with
    | nil =>
      rw [Loading.read, hplan, htodo]
      exact hheader
    | cons file rest =>
      rw [Loading.read_ok hplan htodo]
      intro p hp hrest
      dsimp only at hp hrest
      by_cases hfile : file = .planToml
      · subst hfile
        have hlast := h.onDisk.header (host.resolve l.plansDir) l.planId
        cases hhead : (ofPlan host (host.resolve l.plansDir) l.planId s.saves).head? with
        | none =>
          rw [hhead] at hlast
          have hnone : s.disk.lookup ⟨host.resolve l.plansDir, l.planId, .planToml⟩ = none := hlast
          rw [hnone] at hp
          cases hp
        | some e =>
          rw [hhead] at hlast
          obtain ⟨t, hmem, htext⟩ := hlast
          obtain ⟨hesaves, hkey⟩ := List.mem_filter.mp (List.mem_of_head? hhead)
          obtain ⟨-, hid⟩ := of_decide_eq_true hkey
          obtain ⟨p', hread, hreads⟩ :=
            readFile_header (p := p₀) l.plansDir (hkeeps e hesaves) hmem
          rw [htext, hread] at hp
          cases hp
          have hpid : p.planId = l.planId := by rw [hreads.header, hid]
          refine ⟨e, ?_, hreads.header⟩
          rw [LastSave, hreads.dir, hpid]
          exact hhead
      · obtain ⟨source, hmem, hfrom⟩ := h.onDisk.files (host.resolve l.plansDir) l.planId file
        have hq : ∀ q, source = some q → host.toml.Keeps q := by
          rintro q rfl
          obtain ⟨e, he, heq⟩ := mem_sourcesOf hmem
          exact heq ▸ hkeeps e (List.mem_of_mem_filter he)
        have hunread := hsound.unread p₀ hplan file (htodo ▸ List.mem_cons_self) hfile
        obtain ⟨p', hread, hpart⟩ := readFile_part l.plansDir hq hfile hunread hfrom
        rw [hread] at hp
        cases hp
        have hold : .planToml ∉ l.todo := by
          rw [htodo, List.mem_cons, not_or]
          exact ⟨Ne.symm hfile, hrest⟩
        have hsame : p.toPlanToml = p₀.toPlanToml := hpart.others .planToml (Ne.symm hfile)
        obtain ⟨e, hlast, heq⟩ := hheader p₀ hplan hold
        exact ⟨e, hlast.congr hpart.dir (by rw [hsame]), hsame.trans heq⟩

theorem Stage.Fits.loaded {l : Loading} (hf : Stage.Fits host mode s (.loading l))
    (hresult : l.result = some (.ok p)) : Stage.Fits host mode s (.copying p historyFiles) := by
  obtain ⟨-, hheader⟩ := hf
  have hend := Loading.of_result_ok hresult
  obtain ⟨e, hlast, heq⟩ := hheader p hend.1 (by rw [hend.2]; exact List.not_mem_nil)
  exact ⟨List.suffix_refl _, fun file hmem hnot => absurd hmem hnot, e, hlast, by rw [heq]⟩

theorem advance_effect (h : s.Kept host) (hf : s.stage.Fits host mode s)
    (hkeeps : ∀ e ∈ s.saves, host.toml.Keeps e.plan) (hs : s.advance host mode = some s') :
    s.Effect host mode s' := by
  rw [Store.advance] at hs
  cases hstage : s.stage with
  | idle =>
    rw [hstage] at hs
    cases hs
  | asking p =>
    rw [hstage] at hs
    cases hs
  | loading l =>
    rw [hstage] at hs hf
    have hread := hf.read h hkeeps
    dsimp only at hs
    split at hs
    · cases hs
      exact .works _ hread
    · cases hs
      exact .works .idle trivial
    · next p hresult =>
      cases hs
      exact .works _ (hread.loaded hresult)
  | copying p todo =>
    rw [hstage] at hs hf
    obtain ⟨-, hcopied, e, hlast, hversion⟩ := hf
    cases todo with
    | cons file rest =>
      cases hs
      exact .copies p file rest _ _ hstage (.inr ⟨rfl, rfl⟩)
    | nil =>
      dsimp only at hs
      cases hnext : nextVersion mode p.currentVersion with
      | none =>
        rw [hnext] at hs
        cases hs
        exact .works .idle trivial
      | some version =>
        rw [hnext] at hs
        cases hs
        rw [hversion] at hnext hcopied
        exact .works (.asking { p with currentVersion := version }) ⟨e, hlast, hnext, hcopied⟩
  | saving p todo =>
    rw [hstage] at hs hf
    cases todo with
    | nil => cases hs
    | cons next rest =>
      obtain ⟨file, content⟩ := next
      cases content with
      | error e =>
        cases hs
        exact .works .idle trivial
      | ok text =>
        dsimp only at hs
        rcases hf with ⟨hfiles, hrevises⟩ | ⟨older, done, hsaves, hdone, hfiles, hwritten⟩
        · have hfirst : file = .planToml := by
            have hnames := congrArg (List.map Prod.fst) hfiles
            rw [map_fst_files, loadOrder, List.map_cons] at hnames
            exact (List.cons.inj hnames).1
          have hne : rest.isEmpty = false := by
            have hlength := congrArg List.length hfiles
            cases rest with
            | nil => cases hlength
            | cons f rest => rfl
          subst hfirst
          rw [hne] at hs
          cases hs
          exact .begins p text rest hstage hfiles hrevises
        · have hfile := ne_planToml hdone hfiles
          rw [Store.wrote, if_neg hfile] at hs
          cases rest with
          | nil =>
            cases hs
            exact .ends p file text done older hsaves hdone hfiles hwritten
          | cons f rest =>
            cases hs
            exact .goes p file text (f :: rest) done older hsaves hdone hfiles hwritten

theorem step_effect (h : s.Kept host) (hf : s.stage.Fits host mode s)
    (hkeeps : ∀ e ∈ s.saves, host.toml.Keeps e.plan) {a : StoreAction}
    (hs : s.step host mode plansDir a = some s') : s.Effect host mode s' := by
  cases a with
  | advance => exact advance_effect h hf hkeeps hs
  | draft p =>
    rw [Store.step] at hs
    split at hs
    · next hsaves =>
      cases hs
      exact .works _ (.inl ⟨rfl, .inl hsaves⟩)
    · cases hs
  | revise planId =>
    rw [Store.step] at hs
    split at hs
    · cases hs
      refine .works _ ⟨Loading.Sound.start plansDir planId, fun p _ hnot => ?_⟩
      exact absurd (mem_loadOrder _) hnot
    · cases hs
  | reply response =>
    unfold Store.step at hs
    cases hstage : s.stage with
    | asking p =>
      rw [hstage] at hs hf
      cases response with
      | error e =>
        cases hs
        exact .works .idle trivial
      | ok text =>
        cases hs
        exact .works _ (.inl ⟨rfl, .inr hf⟩)
    | _ =>
      rw [hstage] at hs
      cases hs
  | interrupt left =>
    rw [Store.step] at hs
    split at hs
    · cases hs
    · next p file rest hstage =>
      cases hs
      exact .copies p file rest left .idle hstage (.inl rfl)
    · cases hs
      exact .works .idle trivial
  | load dir planId =>
    cases hs
    refine .reads _ ?_
    intro l hl
    rcases List.mem_append.mp hl with hl | hl
    · exact h.loads l hl
    · cases List.mem_singleton.mp hl
      exact Loading.Sound.start dir planId
  | read i =>
    rw [Store.step] at hs
    split at hs
    · next l hget =>
      split at hs
      · cases hs
        refine .reads _ ?_
        intro l' hl'
        rcases List.mem_or_eq_of_mem_set hl' with hmem | rfl
        · exact h.loads l' hmem
        · exact (h.loads l (List.mem_of_getElem? hget)).read h.onDisk hkeeps
      · cases hs
    · cases hs

theorem Stage.Fits.frame {x : Stage} (h : x.Fits host mode s) (hdisk : s'.disk = s.disk)
    (hhistory : s'.history = s.history) (hsaves : s'.saves = s.saves) :
    x.Fits host mode s' := by
  obtain ⟨disk, history, stage, loads, saves⟩ := s
  obtain ⟨disk', history', stage', loads', saves'⟩ := s'
  cases hdisk
  cases hhistory
  cases hsaves
  cases x <;> exact h

theorem ne_of_before {toml : Toml} {file : PlanFile} {content : Except String String}
    {rest done : List (PlanFile × Except String String)}
    (hfiles : p.files toml = done ++ (file, content) :: rest) : ∀ f ∈ done, f.1 ≠ file := by
  have hnodup : ((p.files toml).map Prod.fst).Nodup := nodup_loadOrder
  rw [hfiles, List.map_append, List.map_cons] at hnodup
  intro f hf heq
  exact (List.nodup_append.mp hnodup).2.2 f.1 (List.mem_map_of_mem hf) file List.mem_cons_self heq

theorem written_snoc {file : PlanFile} {text : String}
    {rest done : List (PlanFile × Except String String)}
    (hfiles : p.files host.toml = done ++ (file, .ok text) :: rest)
    (hwritten : ∀ f ∈ done, ∃ text, f.2 = .ok text ∧
      s.disk.lookup ⟨host.resolve p.plansDir, p.planId, f.1⟩ = some text) :
    ∀ f ∈ done ++ [(file, .ok text)], ∃ text', f.2 = .ok text' ∧
      (s.write host p file text).disk.lookup ⟨host.resolve p.plansDir, p.planId, f.1⟩ =
        some text' := by
  intro f hf
  rcases List.mem_append.mp hf with hf | hf
  · obtain ⟨text', hcontent, hlook⟩ := hwritten f hf
    exact ⟨text', hcontent, (lookup_insert_of_file (ne_of_before hfiles f hf)).trans hlook⟩
  · cases List.mem_singleton.mp hf
    exact ⟨text, rfl, AList.lookup_insert _⟩

theorem Store.Copied.copy {file : PlanFile} {rest : List PlanFile} {version : ℕ}
    (h : s.Copied host p version (file :: rest)) (hversion : p.currentVersion = version) :
    (s.copy host p file (s.disk.lookup ⟨host.resolve p.plansDir, p.planId, file⟩)).Copied host p
      version rest := by
  subst hversion
  intro f hmem hnot text hlook
  rw [copy_disk] at hlook
  by_cases hf : f = file
  · subst hf
    rw [hlook]
    exact AList.lookup_insert _
  · have hold := h f hmem (fun hin => (List.mem_cons.mp hin).elim hf hnot) text hlook
    cases s.disk.lookup ⟨host.resolve p.plansDir, p.planId, file⟩ with
    | none => exact hold
    | some t =>
      refine (AList.lookup_insert_ne ?_).trans hold
      intro heq
      cases heq
      exact hf rfl

theorem Store.Effect.fits (he : s.Effect host mode s') (hf : s.stage.Fits host mode s) :
    s'.stage.Fits host mode s' := by
  cases he with
  | works x fits => exact fits.frame rfl rfl rfl
  | reads loads sound => exact hf.frame rfl rfl rfl
  | copies p file rest text x stage next =>
    rcases next with rfl | ⟨rfl, rfl⟩
    · exact trivial
    · rw [stage] at hf
      obtain ⟨hsuffix, hcopied, e, hlast, hversion⟩ := hf
      refine ⟨(List.suffix_cons _ _).trans hsuffix, hcopied.copy rfl, e, ?_, hversion⟩
      dsimp only
      rw [copy_saves]
      exact hlast
  | begins p text rest stage files revises =>
    refine .inr ⟨s.saves, [(.planToml, .ok text)], rfl, List.cons_ne_nil _ _, files.symm, ?_⟩
    intro f hf'
    cases List.mem_singleton.mp hf'
    exact ⟨text, rfl, AList.lookup_insert _⟩
  | goes p file text rest done older saves done_ne files written =>
    refine .inr ⟨older, done ++ [(file, .ok text)], saves, ?_, ?_, written_snoc files written⟩
    · exact List.append_ne_nil_of_right_ne_nil _ (List.cons_ne_nil _ _)
    · rw [files, List.append_assoc]
      rfl
  | ends p file text done older saves done_ne files written =>
    rw [returned_stage]
    exact trivial

theorem Store.Effect.kept (he : s.Effect host mode s') (h : s.Kept host) : s'.Kept host := by
  cases he with
  | works x fits => exact ⟨h.onDisk, h.loads⟩
  | reads loads sound => exact ⟨h.onDisk, sound⟩
  | copies p file rest text x stage next =>
    constructor
    · dsimp only
      rw [copy_disk, copy_saves]
      exact h.onDisk
    · dsimp only
      rw [copy_loads, copy_saves]
      exact h.loads
  | begins p text rest stage files revises =>
    refine ⟨h.onDisk.begun (files ▸ List.mem_cons_self), ?_⟩
    intro l hl
    obtain ⟨l₀, hl₀, rfl⟩ := List.mem_map.mp hl
    exact (h.loads l₀ hl₀).begun
  | goes p file text rest done older saves done_ne files written =>
    have hmem : (file, Except.ok text) ∈ p.files host.toml := by
      rw [files]
      exact List.mem_append_right _ List.mem_cons_self
    have hdisk := h.onDisk
    rw [saves] at hdisk
    refine ⟨?_, h.loads⟩
    show OnDisk host s.saves _
    rw [saves]
    exact hdisk.write (ne_planToml done_ne files) hmem
  | ends p file text done older saves done_ne files written =>
    have hmem : (file, Except.ok text) ∈ p.files host.toml := by
      rw [files]
      exact List.mem_append_right _ List.mem_cons_self
    have hdisk := h.onDisk
    rw [saves] at hdisk
    have hwritten := (hdisk.write (ne_planToml done_ne files) hmem).returned
      (fun f hf => written_snoc files written f (files ▸ hf))
    have hreturned : (s.write host p file text).returned.saves = ⟨p, true⟩ :: older := by
      rw [Store.returned, write_saves, saves]
    constructor
    · rw [hreturned, returned_disk]
      exact hwritten
    · rw [hreturned, returned_loads]
      intro l hl
      have hsound := h.loads l hl
      rw [saves] at hsound
      exact hsound.returned

def Store.Unwrapped (s : Store) : Prop := ∀ e ∈ s.saves, 0 < e.plan.currentVersion

def Store.InHistory (host : Host) (s : Store) (e : Saved) : Prop :=
  ∀ file ∈ historyFiles, ∀ text, (file, .ok text) ∈ e.plan.files host.toml →
    s.history.lookup ⟨host.resolve e.plan.plansDir, e.plan.planId, e.plan.currentVersion, file⟩ =
      some text

/-- Versions of a plan go up, and the history has those that are no longer on the disk. -/
structure Store.Versioned (host : Host) (s : Store) : Prop where
  versions : ∀ dir planId, (ofPlan host dir planId s.saves).Pairwise fun newer older =>
    older.plan.currentVersion < newer.plan.currentVersion
  history : ∀ dir planId newer e older, ofPlan host dir planId s.saves = newer ++ e :: older →
    newer ≠ [] → e.complete = true → s.InHistory host e

theorem nextVersion_eq {version next : ℕ} (h : nextVersion mode version = some next)
    (hpos : 0 < next) : next = version + 1 := by
  unfold nextVersion at h
  split at h
  · exact (Option.some.inj h).symm
  · cases mode with
    | wraps =>
      cases h
      exact absurd hpos (lt_irrefl 0)
    | panics => cases h

theorem content_unique {toml : Toml} {file : PlanFile} {c c' : Except String String}
    (h : (file, c) ∈ p.files toml) (h' : (file, c') ∈ p.files toml) : c = c' := by
  have hnodup : ((p.files toml).map Prod.fst).Nodup := nodup_loadOrder
  exact (Prod.mk.inj (List.inj_on_of_nodup_map hnodup h h' rfl)).2

theorem isOf_of_mem {dir : String} {planId : PlanId} {e : Saved} {saves : List Saved}
    (h : e ∈ ofPlan host dir planId saves) :
    host.resolve e.plan.plansDir = dir ∧ e.plan.planId = planId :=
  of_decide_eq_true (List.mem_filter.mp h).2

theorem Store.Kept.complete (h : s.Kept host) {e : Saved} {dir : String} {planId : PlanId}
    {older : List Saved} (hsaves : ofPlan host dir planId s.saves = e :: older)
    (hcomplete : e.complete = true) : ∀ f ∈ e.plan.files host.toml, ∃ text, f.2 = .ok text ∧
      s.disk.lookup ⟨dir, planId, f.1⟩ = some text := by
  intro f hf
  obtain ⟨q, hq, hfile⟩ := h.onDisk.files dir planId f.1
  rw [hsaves, sourcesOf, hcomplete, if_pos rfl] at hq
  cases List.mem_singleton.mp hq
  obtain ⟨t, ht, hlook⟩ := hfile
  exact ⟨t, content_unique hf ht, hlook⟩

theorem Store.Revises.last_lt (hr : s.Revises host mode p) (hv : s.Versioned host)
    (hpos : 0 < p.currentVersion) :
    ∀ e ∈ ofPlan host (host.resolve p.plansDir) p.planId s.saves,
      e.plan.currentVersion < p.currentVersion := by
  obtain ⟨e, hlast, hnext, -⟩ := hr
  have hversion := nextVersion_eq hnext hpos
  have hpairs := hv.versions (host.resolve p.plansDir) p.planId
  obtain ⟨older, hsaves⟩ := List.head?_eq_some_iff.mp hlast
  rw [hsaves] at hpairs ⊢
  intro e' he'
  rcases List.mem_cons.mp he' with rfl | he'
  · omega
  · have hlt := (List.pairwise_cons.mp hpairs).1 e' he'
    omega

theorem Store.Versioned.begins (hv : s.Versioned host) (text : String) (h : s.Kept host)
    (hrevises : ofPlan host (host.resolve p.plansDir) p.planId s.saves = [] ∨
      s.Revises host mode p) (hpos : 0 < p.currentVersion) :
    ((s.write host p .planToml text).begun host p).Versioned host := by
  constructor
  · intro dir planId
    show (ofPlan host dir planId (⟨p, false⟩ :: s.saves)).Pairwise _
    by_cases hkey : host.resolve p.plansDir = dir ∧ p.planId = planId
    · rw [ofPlan_cons_of_isOf hkey]
      refine List.pairwise_cons.mpr ⟨?_, hv.versions dir planId⟩
      obtain ⟨rfl, rfl⟩ := hkey
      rcases hrevises with hnil | hr
      · rw [hnil]
        exact fun e he => absurd he List.not_mem_nil
      · exact hr.last_lt hv hpos
    · rw [ofPlan_cons_of_not hkey]
      exact hv.versions dir planId
  · intro dir planId newer e older hsaves hnewer hcomplete
    show s.InHistory host e
    have hall : ofPlan host dir planId (⟨p, false⟩ :: s.saves) = newer ++ e :: older := hsaves
    by_cases hkey : host.resolve p.plansDir = dir ∧ p.planId = planId
    · rw [ofPlan_cons_of_isOf hkey] at hall
      cases newer with
      | nil => exact absurd rfl hnewer
      | cons first newer =>
        have hrest := (List.cons.inj hall).2
        cases newer with
        | cons second newer =>
          exact hv.history dir planId (second :: newer) e older hrest (List.cons_ne_nil _ _)
            hcomplete
        | nil =>
          obtain ⟨rfl, rfl⟩ := hkey
          have hrest' : ofPlan host (host.resolve p.plansDir) p.planId s.saves = e :: older := hrest
          rcases hrevises with hnil | ⟨e', hlast, -, hcopied⟩
          · rw [hrest'] at hnil
            cases hnil
          · rw [LastSave, hrest'] at hlast
            cases hlast
            intro file hfile t hmem
            obtain ⟨hdir, hid⟩ := isOf_of_mem (hrest' ▸ List.mem_cons_self)
            rw [hdir, hid]
            obtain ⟨t', ht', hlook⟩ := h.complete hrest' hcomplete _ hmem
            cases ht'
            exact hcopied file hfile List.not_mem_nil t hlook
    · rw [ofPlan_cons_of_not hkey] at hall
      exact hv.history dir planId newer e older hall hnewer hcomplete

theorem Store.Versioned.copies (hv : s.Versioned host) (file : PlanFile) (text : Option String)
    {e : Saved} (hlast : LastSave host s.saves p e)
    (hversion : p.currentVersion = e.plan.currentVersion) :
    (s.copy host p file text).Versioned host := by
  constructor
  · intro dir planId
    rw [copy_saves]
    exact hv.versions dir planId
  · intro dir planId newer e' older hsaves hnewer hcomplete
    rw [copy_saves] at hsaves
    have hold := hv.history dir planId newer e' older hsaves hnewer hcomplete
    cases text with
    | none => exact hold
    | some t =>
      intro f hf t' hmem
      refine (AList.lookup_insert_ne ?_).trans (hold f hf t' hmem)
      intro heq
      injection heq with hdir hid heqVersion hfile
      have hin : e' ∈ ofPlan host dir planId s.saves := by
        rw [hsaves]
        exact List.mem_append_right _ List.mem_cons_self
      obtain ⟨hdir', hid'⟩ := isOf_of_mem hin
      have hpairs := hv.versions dir planId
      obtain ⟨tail, hhead⟩ := List.head?_eq_some_iff.mp hlast
      rw [← hdir, ← hid, hdir', hid', hsaves] at hhead
      rw [hsaves] at hpairs
      cases newer with
      | nil => exact hnewer rfl
      | cons first newer =>
        cases (List.cons.inj hhead).1
        have hlt := (List.pairwise_cons.mp hpairs).1 e'
          (List.mem_append_right _ List.mem_cons_self)
        omega

theorem Store.Versioned.ends (hv : s.Versioned host) {older : List Saved} {file : PlanFile}
    {text : String} (hsaves : s.saves = ⟨p, false⟩ :: older) :
    (s.write host p file text).returned.Versioned host := by
  have hreturned : (s.write host p file text).returned.saves = ⟨p, true⟩ :: older := by
    rw [Store.returned, write_saves, hsaves]
  constructor
  · intro dir planId
    have hpairs := hv.versions dir planId
    rw [hreturned]
    rw [hsaves] at hpairs
    by_cases hkey : host.resolve p.plansDir = dir ∧ p.planId = planId
    · rw [ofPlan_cons_of_isOf hkey] at hpairs ⊢
      exact List.pairwise_cons.mpr (List.pairwise_cons.mp hpairs)
    · rwa [ofPlan_cons_of_not hkey] at hpairs ⊢
  · intro dir planId newer e older' hall hnewer hcomplete
    rw [hreturned] at hall
    have hold : s.InHistory host e := by
      by_cases hkey : host.resolve p.plansDir = dir ∧ p.planId = planId
      · rw [ofPlan_cons_of_isOf hkey] at hall
        cases newer with
        | nil => exact absurd rfl hnewer
        | cons first newer =>
          refine hv.history dir planId (⟨p, false⟩ :: newer) e older' ?_ (List.cons_ne_nil _ _)
            hcomplete
          rw [hsaves, ofPlan_cons_of_isOf hkey, (List.cons.inj hall).2]
          rfl
      · rw [ofPlan_cons_of_not hkey] at hall
        refine hv.history dir planId newer e older' ?_ hnewer hcomplete
        rw [hsaves, ofPlan_cons_of_not hkey, hall]
    intro f hf t hmem
    rw [returned_history]
    exact hold f hf t hmem

theorem Store.Effect.versioned (he : s.Effect host mode s') (h : s.Kept host)
    (hf : s.stage.Fits host mode s) (hv : s.Versioned host) (hunwrapped : s'.Unwrapped) :
    s'.Versioned host := by
  cases he with
  | works x fits => exact ⟨hv.versions, hv.history⟩
  | reads loads sound => exact ⟨hv.versions, hv.history⟩
  | copies p file rest text x stage next =>
    rw [stage] at hf
    obtain ⟨-, -, e, hlast, hversion⟩ := hf
    have hcopied := hv.copies file text hlast hversion
    exact ⟨hcopied.versions, hcopied.history⟩
  | begins p text rest stage files revises =>
    have hbegun := hv.begins text h revises (hunwrapped _ List.mem_cons_self)
    exact ⟨hbegun.versions, hbegun.history⟩
  | goes p file text rest done older saves done_ne files written =>
    exact ⟨hv.versions, hv.history⟩
  | ends p file text done older saves done_ne files written => exact hv.ends saves

end Invariant

/-! ### Runs -/

/-- The load has returned a plan in parts, whole where only one plan can have been on the disk. -/
structure Loading.Partwise (host : Host) (l : Loading) : Prop where
  parts : ∀ p, l.result = some (.ok p) →
    p.plansDir = l.plansDir ∧ ∀ file, ∃ q ∈ l.sources, p.PartFrom file q
  whole : ∀ p q, l.result = some (.ok p) → l.sources = [some q] →
    p = { q with plansDir := l.plansDir }
  error : ∀ e, l.result = some (.error e) → e = host.notFound ∧ none ∈ l.sources

def Loading.Whole (l : Loading) : Prop :=
  ∀ p, l.result = some (.ok p) → ∃ q, some q ∈ l.sources ∧ p = { q with plansDir := l.plansDir }

theorem Loading.Sound.partwise {host : Host} {saves : List Saved} {l : Loading}
    (h : l.Sound host saves) : l.Partwise host := by
  have hparts : ∀ p, l.result = some (.ok p) →
      p.plansDir = l.plansDir ∧ ∀ file, ∃ q ∈ l.sources, p.PartFrom file q := by
    intro p hresult
    obtain ⟨hplan, htodo⟩ := of_result_ok hresult
    have hread : ∀ file, file ∉ l.todo := by
      rw [htodo]
      exact fun file => List.not_mem_nil
    exact ⟨h.dir p hplan (hread _), fun file => h.parts p hplan file (hread file)⟩
  refine ⟨hparts, ?_, ?_⟩
  · intro p q hresult hsources
    obtain ⟨hdir, hfrom⟩ := hparts p hresult
    have hsame : ∀ file, p.SamePart q file := by
      intro file
      obtain ⟨source, hmem, hpart⟩ := hfrom file
      rw [hsources] at hmem
      cases List.mem_singleton.mp hmem
      exact hpart
    rw [← hdir]
    exact PlanRecord.eq_of_parts hsame
  · exact fun e hresult => h.errs e (of_result_error hresult)

section Run

variable {host : Host} {mode : Overflow} {plansDir : String} {s s' : Store}
  {past : List (Store × StoreAction)}

theorem saves_returned (s : Store) : ∀ e ∈ s.saves, ∃ e' ∈ s.returned.saves, e'.plan = e.plan := by
  rw [Store.returned]
  intro e he
  split
  · next last older hsaves =>
    rw [hsaves] at he
    rcases List.mem_cons.mp he with rfl | he
    · exact ⟨_, List.mem_cons_self, rfl⟩
    · exact ⟨e, List.mem_cons_of_mem _ he, rfl⟩
  · exact ⟨e, he, rfl⟩

theorem saves_wrote {p : PlanRecord} {file : PlanFile} {text : String} :
    ∀ e ∈ s.saves, e ∈ (s.wrote host p file text).saves := by
  intro e he
  rw [Store.wrote]
  split
  · exact List.mem_cons_of_mem _ he
  · exact he

theorem saves_step {a : StoreAction} (hs : s.step host mode plansDir a = some s') :
    ∀ e ∈ s.saves, ∃ e' ∈ s'.saves, e'.plan = e.plan := by
  intro e he
  have hkeep : s'.saves = s.saves → ∃ e' ∈ s'.saves, e'.plan = e.plan :=
    fun h => ⟨e, h ▸ he, rfl⟩
  cases a with
  | advance =>
    change s.advance host mode = some s' at hs
    rw [Store.advance] at hs
    cases hstage : s.stage with
    | idle =>
      rw [hstage] at hs
      cases hs
    | asking p =>
      rw [hstage] at hs
      cases hs
    | loading l =>
      rw [hstage] at hs
      dsimp only at hs
      split at hs
      all_goals
        cases hs
        exact hkeep rfl
    | copying p todo =>
      rw [hstage] at hs
      cases todo with
      | cons file rest =>
        cases hs
        exact hkeep (Store.copy_saves _)
      | nil =>
        dsimp only at hs
        split at hs
        all_goals
          cases hs
          exact hkeep rfl
    | saving p todo =>
      rw [hstage] at hs
      cases todo with
      | nil => cases hs
      | cons next rest =>
        obtain ⟨file, content⟩ := next
        cases content with
        | error e =>
          cases hs
          exact hkeep rfl
        | ok text =>
          cases rest with
          | nil =>
            cases hs
            exact saves_returned _ e (saves_wrote e he)
          | cons f rest =>
            cases hs
            exact ⟨e, saves_wrote e he, rfl⟩
  | draft p =>
    rw [Store.step] at hs
    split at hs
    · cases hs
      exact hkeep rfl
    · cases hs
  | revise planId =>
    rw [Store.step] at hs
    split at hs
    · cases hs
      exact hkeep rfl
    · cases hs
  | reply response =>
    unfold Store.step at hs
    cases hstage : s.stage with
    | asking p =>
      rw [hstage] at hs
      cases response
      all_goals
        cases hs
        exact hkeep rfl
    | _ =>
      rw [hstage] at hs
      cases hs
  | interrupt left =>
    rw [Store.step] at hs
    split at hs
    · cases hs
    · cases hs
      exact hkeep (Store.copy_saves _)
    · cases hs
      exact hkeep rfl
  | load dir planId =>
    cases hs
    exact hkeep rfl
  | read i =>
    rw [Store.step] at hs
    split at hs
    · split at hs
      · cases hs
        exact hkeep rfl
      · cases hs
    · cases hs

def Store.Printable (host : Host) (s : Store) : Prop := ∀ e ∈ s.saves, host.toml.Keeps e.plan

theorem printable_of_step {a : StoreAction} (hs : s.step host mode plansDir a = some s')
    (h : s'.Printable host) : s.Printable host := by
  intro e he
  obtain ⟨e', he', hplan⟩ := saves_step hs e he
  exact hplan ▸ h e' he'

theorem unwrapped_of_step {a : StoreAction} (hs : s.step host mode plansDir a = some s')
    (h : s'.Unwrapped) : s.Unwrapped := by
  intro e he
  obtain ⟨e', he', hplan⟩ := saves_step hs e he
  exact hplan ▸ h e' he'

theorem kept_start : Store.Kept host .start := by
  refine ⟨⟨?_, ?_⟩, ?_⟩
  · exact fun dir planId file => ⟨none, List.mem_singleton_self _, rfl⟩
  · exact fun dir planId => rfl
  · exact fun l hl => absurd hl List.not_mem_nil

theorem versioned_start : Store.Versioned host .start := by
  constructor
  · exact fun dir planId => List.Pairwise.nil
  · intro dir planId newer e older hsaves
    have hnil : newer ++ e :: older = [] := hsaves.symm
    exact absurd hnil (List.append_ne_nil_of_right_ne_nil _ (List.cons_ne_nil _ _))

theorem run_kept (hrun : Execution (Store.step · host mode plansDir) .start past s) :
    s.Printable host → s.Kept host ∧ s.stage.Fits host mode s ∧
      (s.Unwrapped → s.Versioned host) := by
  refine hrun.invariant (I := fun s => s.Printable host → s.Kept host ∧
    s.stage.Fits host mode s ∧ (s.Unwrapped → s.Versioned host)) ?_ ?_
  · exact fun _ => ⟨kept_start, trivial, fun _ => versioned_start⟩
  · intro s a s' ih hs hprintable
    obtain ⟨hkept, hfits, hversioned⟩ := ih (printable_of_step hs hprintable)
    have heffect := step_effect hkept hfits (printable_of_step hs hprintable) hs
    refine ⟨heffect.kept hkept, heffect.fits hfits, fun hunwrapped => ?_⟩
    exact heffect.versioned hkept hfits (hversioned (unwrapped_of_step hs hunwrapped)) hunwrapped

/-- **What a load finds of plans that are saved meanwhile, and what the history keeps of them.**
Each part of a loaded plan is that of a plan saved meanwhile or before, where the last save before
has returned Ok no older one; the plan is whole where it is the only one.  What is loaded after a
save that has returned Ok is the plan saved.  And the history of a version that was saved and then
replaced has its files. -/
theorem saves_partwise (hrun : Execution (Store.step · host mode plansDir) .start past s)
    (hprintable : s.Printable host) :
    (∀ l ∈ s.loads, l.Partwise host) ∧
    (∀ dir planId e older, s.savesOf host (host.resolve dir) planId = e :: older →
      e.complete = true → host.load s.disk dir planId = .ok { e.plan with plansDir := dir }) ∧
    (s.Unwrapped → ∀ dir planId newer e older,
      s.savesOf host dir planId = newer ++ e :: older → newer ≠ [] → e.complete = true →
        s.InHistory host e) := by
  obtain ⟨hkept, -, hversioned⟩ := run_kept hrun hprintable
  refine ⟨fun l hl => (hkept.loads l hl).partwise, ?_, fun h => (hversioned h).history⟩
  intro dir planId e older hsaves hcomplete
  have hmem : e ∈ s.savesOf host (host.resolve dir) planId := hsaves ▸ List.mem_cons_self
  obtain ⟨hdir, rfl⟩ := @isOf_of_mem host (host.resolve dir) planId e s.saves hmem
  exact Host.load_of_files (hprintable e (List.mem_of_mem_filter hmem))
    (hkept.complete hsaves hcomplete)

end Run

def shorterRecord : PlanRecord := { notesRecord with currentVersion := 2, overview := "Shorter." }

def revisedToml : Toml :=
  sampleToml [shorterRecord.toPlanToml, notesRecord.toPlanToml] [notesRecord.taskGraph]

def revisedHost : Host := (planSetup draftPlansDir revisedToml).host

def drafting : List StoreAction := .draft notesRecord :: List.replicate 6 .advance

/-- It is revised, and loaded after the save of the new version has replaced `plan.toml`. -/
def overlap : List StoreAction :=
  drafting ++ .revise notesRecord.planId :: List.replicate 12 .advance ++
    [.reply (.ok "Shorter."), .advance, .load draftPlansDir notesRecord.planId] ++
    List.replicate 6 (.read 0) ++ List.replicate 5 .advance

def mixedRecord : PlanRecord := { shorterRecord with overview := notesReply }

theorem keeps_shorter : revisedToml.Keeps shorterRecord :=
  sampleToml_keeps _ [] (by decide) rfl rfl rfl

theorem keeps_notes_revised : revisedToml.Keeps notesRecord := by
  have hother : headerText shorterRecord.toPlanToml ≠ headerText notesRecord.toPlanToml := by
    decide +kernel
  refine ⟨⟨headerText notesRecord.toPlanToml, rfl, ?_⟩, keeps_notes.tasks, keeps_notes.sandbox,
    keeps_notes.models, keeps_notes.tools⟩
  simp [revisedToml, sampleToml, hother]

set_option maxRecDepth 20000 in
theorem run_drafting : ∃ past s,
    Execution.runActions (Store.step · revisedHost .wraps draftPlansDir) drafting [] .start =
      some (past, s) ∧ s.saves = [⟨notesRecord, true⟩] ∧ s.history = ∅ :=
  ⟨_, _, rfl, rfl, rfl⟩

set_option maxRecDepth 20000 in
theorem run_overlap : ∃ past s l,
    Execution.runActions (Store.step · revisedHost .wraps draftPlansDir) overlap [] .start =
      some (past, s) ∧ s.saves = [⟨shorterRecord, true⟩, ⟨notesRecord, true⟩] ∧ s.loads = [l] ∧
      l.result = some (.ok mixedRecord) ∧ l.plansDir = draftPlansDir ∧
      l.sources = [some shorterRecord, some notesRecord] :=
  ⟨_, _, _, rfl, rfl, rfl, rfl, rfl, rfl⟩

theorem mixed_ne (q : PlanRecord) (h : some q ∈ [some shorterRecord, some notesRecord]) :
    mixedRecord ≠ { q with plansDir := draftPlansDir } := by
  intro heq
  rcases List.mem_cons.mp h with hq | hq
  · cases hq
    have hoverview : notesReply = "Shorter." := congrArg PlanRecord.overview heq
    exact absurd hoverview (by decide +kernel)
  · cases List.mem_singleton.mp hq
    have hversion : 2 = 1 := congrArg (fun p => p.currentVersion) heq
    cases hversion

theorem printable_overlap {s : Store} (hsaves : ∀ e ∈ s.saves,
    e.plan = shorterRecord ∨ e.plan = notesRecord) : s.Printable revisedHost := by
  intro e he
  rcases hsaves e he with hplan | hplan
  · exact hplan ▸ keeps_shorter
  · exact hplan ▸ keeps_notes_revised

/-- The load of the run has parts of both versions; afterwards the new one is loaded, and the
history has the old one. -/
theorem partwise_overlap : ∃ past s l,
    Execution (Store.step · revisedHost .wraps draftPlansDir) .start past s ∧ s.loads = [l] ∧
      l.result = some (.ok mixedRecord) ∧ l.Partwise revisedHost ∧
      revisedHost.load s.disk draftPlansDir shorterRecord.planId =
        .ok { shorterRecord with plansDir := draftPlansDir } ∧
      s.InHistory revisedHost ⟨notesRecord, true⟩ := by
  obtain ⟨past, s, l, hrun, hsaves, hloads, hresult, -⟩ := run_overlap
  have hexec : Execution (Store.step · revisedHost .wraps draftPlansDir) .start past s :=
    .ofRun .start hrun
  have hprintable : s.Printable revisedHost := by
    refine printable_overlap ?_
    rw [hsaves]
    exact List.forall_mem_cons.mpr ⟨.inl rfl, List.forall_mem_singleton.mpr (.inr rfl)⟩
  have hunwrapped : s.Unwrapped := by
    rw [Store.Unwrapped, hsaves]
    exact List.forall_mem_cons.mpr ⟨Nat.two_pos, List.forall_mem_singleton.mpr Nat.one_pos⟩
  obtain ⟨hparts, hrestores, hhistory⟩ := saves_partwise hexec hprintable
  have hboth : s.savesOf revisedHost (revisedHost.resolve draftPlansDir) shorterRecord.planId =
      [⟨shorterRecord, true⟩, ⟨notesRecord, true⟩] := by
    rw [Store.savesOf, hsaves]
    rfl
  refine ⟨past, s, l, hexec, hloads, hresult, hparts l (hloads ▸ List.mem_cons_self), ?_, ?_⟩
  · exact hrestores draftPlansDir _ ⟨shorterRecord, true⟩ _ hboth rfl
  · exact hhistory hunwrapped _ _ [⟨shorterRecord, true⟩] ⟨notesRecord, true⟩ [] hboth
      (List.cons_ne_nil _ _) rfl

/-- **Neither is a load whole, nor has the history all versions that were saved**: a load during a
revision has parts of two versions, and the last version is not in the history. -/
theorem not_atomic :
    (¬ ∀ (host : Host) (mode : Overflow) (plansDir : String) (past : List (Store × StoreAction))
      (s : Store), Execution (Store.step · host mode plansDir) .start past s → s.Printable host →
        ∀ l ∈ s.loads, l.Whole) ∧
    ¬ ∀ (host : Host) (mode : Overflow) (plansDir : String) (past : List (Store × StoreAction))
      (s : Store), Execution (Store.step · host mode plansDir) .start past s → s.Printable host →
        ∀ e ∈ s.saves, e.complete = true → s.InHistory host e := by
  constructor
  · intro hall
    obtain ⟨past, s, l, hrun, hsaves, hloads, hresult, hdir, hsources⟩ := run_overlap
    have hprintable : s.Printable revisedHost := by
      refine printable_overlap ?_
      rw [hsaves]
      exact List.forall_mem_cons.mpr ⟨.inl rfl, List.forall_mem_singleton.mpr (.inr rfl)⟩
    obtain ⟨q, hq, heq⟩ := hall _ _ _ _ s (.ofRun .start hrun) hprintable l
      (hloads ▸ List.mem_cons_self) mixedRecord hresult
    rw [hsources] at hq
    rw [hdir] at heq
    exact mixed_ne q hq heq
  · intro hall
    obtain ⟨past, s, hrun, hsaves, hhistory⟩ := run_drafting
    have hprintable : s.Printable revisedHost := by
      refine printable_overlap ?_
      rw [hsaves]
      exact List.forall_mem_singleton.mpr (.inr rfl)
    have hkept := hall _ _ _ _ s (.ofRun .start hrun) hprintable ⟨notesRecord, true⟩
      (hsaves ▸ List.mem_cons_self) rfl .overview List.mem_cons_self notesReply
      (List.mem_cons_of_mem _ List.mem_cons_self)
    rw [hhistory] at hkept
    cases hkept

end Mowis.Planning
