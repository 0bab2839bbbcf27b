import Mowis.Planning.Findable

/-!
# The plan shown and the plan run

A captain runs the tasks that lie on disk under the current plan.  The user has seen the task
list of the last reply that showed one.  The two are the same as long as every reply that shows
a task list is made the current plan, or repeats it.
-/

namespace Mowis.Planning

open Mowis.Lib
open Mowis.Orchestration (PlanId TaskNode ToolCall ConvMessage AgentRoundResult)
open Mowis.Review (Json)

def lastShown (toml : Toml) (replies : List String) : Option TaskGraph :=
  replies.reverse.findSome? (shownTasks toml)

theorem lastShown_snoc (toml : Toml) (replies : List String) (text : String) :
    lastShown toml (replies ++ [text]) = (shownTasks toml text).or (lastShown toml replies) := by
  rw [lastShown, List.reverse_append, List.reverse_singleton, List.singleton_append,
    List.findSome?_cons]
  cases shownTasks toml text with
  | none => rfl
  | some g => rfl

def RunsAs (setup : Setup) (disk : Disk) (planId : PlanId) (shown : Option TaskGraph) : Prop :=
  ∀ p, setup.host.load disk setup.plansDir planId = .ok p → shown = some p.taskGraph

/-- Every captain dispatched runs, whenever it loads its plan, the tasks that were shown last
when it was dispatched. -/
def RunsShown (setup : Setup) (c : Conductor) : Prop :=
  ∀ d ∈ c.dispatches, RunsAs setup c.disk d.planId (lastShown setup.host.toml d.replies)

/-- What the library reads it can write and read back. -/
def Toml.TasksKept (toml : Toml) : Prop := ∀ t g, toml.tasks.parse t = .ok g → toml.tasks.Prints g

section disk

variable {host : Host} {p q : PlanRecord}

theorem readPart_ok {α : Type} {text : String} {codec : Codec α} {set : α → PlanRecord}
    (h : Host.readPart text codec set p = .ok q) :
    text = "" ∧ q = p ∨ ∃ v, codec.parse text = .ok v ∧ q = set v := by
  rw [Host.readPart] at h
  split at h
  · next htext =>
    cases h
    exact .inl ⟨htext, rfl⟩
  · cases hparse : codec.parse text with
    | error e =>
      rw [hparse] at h
      cases h
    | ok v =>
      rw [hparse] at h
      cases h
      exact .inr ⟨v, rfl, rfl⟩

theorem readPart_frame {α β : Type} {text : String} {codec : Codec α} {set : α → PlanRecord}
    (h : Host.readPart text codec set p = .ok q) (f : PlanRecord → β)
    (hset : ∀ v, f (set v) = f p) : f q = f p := by
  rcases readPart_ok h with ⟨-, rfl⟩ | ⟨v, -, rfl⟩
  · rfl
  · exact hset v

theorem load_ok {disk : Disk} {plansDir : String} {planId : PlanId}
    (h : host.load disk plansDir planId = .ok p) :
    p.plansDir = plansDir ∧
      (host.readOr disk plansDir planId .tasks = "" ∨
        host.toml.tasks.parse (host.readOr disk plansDir planId .tasks) = .ok p.taskGraph) := by
  unfold Host.load at h
  dsimp only at h
  split at h
  · cases h
  · split at h
    · cases h
    · split at h
      · cases h
      · next p₁ h₁ =>
        split at h
        · cases h
        · next p₂ h₂ =>
          split at h
          · cases h
          · next p₃ h₃ =>
            have hdir : p.plansDir = p₁.plansDir :=
              (readPart_frame h PlanRecord.plansDir fun _ => rfl).trans
                ((readPart_frame h₃ PlanRecord.plansDir fun _ => rfl).trans
                  (readPart_frame h₂ PlanRecord.plansDir fun _ => rfl))
            have htasks : p.taskGraph = p₁.taskGraph :=
              (readPart_frame h PlanRecord.taskGraph fun _ => rfl).trans
                ((readPart_frame h₃ PlanRecord.taskGraph fun _ => rfl).trans
                  (readPart_frame h₂ PlanRecord.taskGraph fun _ => rfl))
            rw [hdir, htasks]
            rcases readPart_ok h₁ with ⟨hempty, rfl⟩ | ⟨v, hparse, rfl⟩
            · exact ⟨rfl, .inl hempty⟩
            · exact ⟨rfl, .inr hparse⟩

end disk

/-- The plan under the id cannot be loaded, or the file of its tasks holds what was shown. -/
def Holds (setup : Setup) (disk : Disk) (planId : PlanId) (shown : Option TaskGraph) : Prop :=
  (∀ p, setup.host.load disk setup.plansDir planId ≠ .ok p) ∨
    ∃ g t, shown = some g ∧
      disk.lookup ⟨setup.host.resolve setup.plansDir, planId, .tasks⟩ = some t ∧ t ≠ "" ∧
      setup.host.toml.tasks.parse t = .ok g

variable {setup : Setup} {c c' c₀ : Conductor} {disk disk' : Disk} {planId : PlanId}
  {shown : Option TaskGraph} {p : PlanRecord} {fate : SaveFate}

theorem Holds.runsAs (h : Holds setup disk planId shown) : RunsAs setup disk planId shown := by
  intro p hload
  rcases h with hno | ⟨g, t, hshown, hlookup, hne, hparse⟩
  · exact absurd hload (hno p)
  · have hread : setup.host.readOr disk setup.plansDir planId .tasks = t := by
      rw [Host.readOr, hlookup]
      rfl
    have htasks := (load_ok hload).2
    rw [hread] at htasks
    cases (htasks.resolve_left hne).symm.trans hparse
    exact hshown

theorem Holds.congr (h : Holds setup disk planId shown)
    (hfiles : ∀ file, disk'.lookup ⟨setup.host.resolve setup.plansDir, planId, file⟩ =
      disk.lookup ⟨setup.host.resolve setup.plansDir, planId, file⟩) :
    Holds setup disk' planId shown := by
  have hload := Host.load_congr hfiles
  rw [Holds, hload, hfiles]
  exact h

theorem Holds.hear {replies : List String}
    (h : Holds setup disk planId (lastShown setup.host.toml replies)) {text : String}
    (hrestates : ∀ g, shownTasks setup.host.toml text = some g →
      ∀ p, setup.host.load disk setup.plansDir planId = .ok p → p.taskGraph = g) :
    Holds setup disk planId (lastShown setup.host.toml (replies ++ [text])) := by
  rw [lastShown_snoc]
  cases hshown : shownTasks setup.host.toml text with
  | none => exact h
  | some g =>
    by_cases hloads : ∀ p, setup.host.load disk setup.plansDir planId ≠ .ok p
    · exact .inl hloads
    · push Not at hloads
      obtain ⟨p, hload⟩ := hloads
      have hrun := h.runsAs p hload
      obtain ⟨g', t, hg', hlookup, hne, hparse⟩ := h.resolve_left fun hno => hno p hload
      rw [hrun, Option.some.injEq] at hg'
      rw [← hg', hrestates g hshown p hload] at hparse
      exact .inr ⟨g, t, rfl, hlookup, hne, hparse⟩

theorem Holds.revise (hkept : setup.host.toml.TasksKept) (h : Holds setup disk planId shown)
    (hload : setup.host.load disk setup.plansDir planId = .ok p) (hid : p.planId = planId)
    {q : PlanRecord} (hq : q.planId = p.planId ∧ q.plansDir = p.plansDir ∧ q.taskGraph = p.taskGraph)
    (fate : SaveFate) : Holds setup (setup.host.save q fate disk).1 planId shown := by
  obtain ⟨hqid, hqdir, hqtasks⟩ := hq
  have hshown := h.runsAs p hload
  obtain ⟨g, t, hg, hlookup, hne, hparse⟩ := h.resolve_left fun hno => hno p hload
  rw [hshown, Option.some.injEq] at hg
  have hdir : q.plansDir = setup.plansDir := hqdir.trans (load_ok hload).1
  refine .inr ?_
  have hfile := @Host.lookup_save setup.host q .tasks fate disk
  rw [hdir, hqid, hid] at hfile
  rcases hfile with hkeep | ⟨text, hmem, hnew⟩
  · exact ⟨g, t, by rw [hshown, hg], hkeep.trans hlookup, hne, hparse⟩
  · have hprint : setup.host.toml.tasks.print g = .ok text := by
      simp only [PlanRecord.files, List.mem_cons, Prod.mk.injEq, List.not_mem_nil, reduceCtorEq,
        false_and, true_and, or_false, false_or] at hmem
      rw [← hg, ← hqtasks]
      exact hmem.symm
    obtain ⟨hne', hparse'⟩ := Host.printed (hkept t g hparse) hprint
    exact ⟨g, text, by rw [hshown, hg], hnew, hne', hparse'⟩

/-- Nothing is found under the id, and the Conductor does not use it. -/
structure Unused (setup : Setup) (c : Conductor) (planId : PlanId) : Prop where
  notFound : ∀ p, setup.host.load c.disk setup.plansDir planId ≠ .ok p
  notCurrent : c.currentPlan ≠ some planId
  notDispatched : ∀ d ∈ c.dispatches, d.planId ≠ planId

theorem Holds.saved (hsave : setup.host.save p fate disk = (disk', .ok ()))
    (hdir : p.plansDir = draftPlansDir) (hprints : setup.host.toml.tasks.Prints p.taskGraph)
    (hno : ¬ SameDirectory setup → ∀ q, setup.host.load disk setup.plansDir p.planId ≠ .ok q) :
    Holds setup disk' p.planId (some p.taskGraph) := by
  by_cases hsame : SameDirectory setup
  · obtain ⟨text, hprint, hlookup⟩ := Host.save_ok hsave (.tasks, setup.host.toml.tasks.print
      p.taskGraph) (by simp [PlanRecord.files])
    obtain ⟨hne, hparse⟩ := Host.printed hprints hprint
    rw [hdir, ← hsame] at hlookup
    exact .inr ⟨_, text, rfl, hlookup, hne, hparse⟩
  · refine .inl ?_
    have hne : setup.host.resolve setup.plansDir ≠ setup.host.resolve p.plansDir := hdir ▸ hsame
    have helse : setup.host.load (setup.host.save p fate disk).1 setup.plansDir p.planId =
        setup.host.load disk setup.plansDir p.planId :=
      Host.load_save_elsewhere (.inl hne) fate disk
    rw [hsave] at helse
    rw [helse]
    exact hno hsame

/-- What lies on disk for every captain and for the current plan is what was shown. -/
structure InOrder (setup : Setup) (c : Conductor) : Prop where
  dispatches : ∀ d ∈ c.dispatches,
    Holds setup c.disk d.planId (lastShown setup.host.toml d.replies)
  current : ∀ planId, c.currentPlan = some planId →
    Holds setup c.disk planId (lastShown setup.host.toml c.replies)

theorem InOrder.runsShown (h : InOrder setup c) : RunsShown setup c :=
  fun d hd => (h.dispatches d hd).runsAs

def Restates (setup : Setup) (c : Conductor) (text : String) : Prop :=
  ∀ g, shownTasks setup.host.toml text = some g → ∀ planId p, c.currentPlan = some planId →
    setup.host.load c.disk setup.plansDir planId = .ok p → p.taskGraph = g

def ReadAsShown (toml : Toml) (text : String) : Prop :=
  shownTasks toml text = some (responseTasks toml text)

/-- The loop asks for reply `i`: the replies before it came and did not end the loop. -/
def Asked (setup : Setup) (script : TurnScript) (c : Conductor) (i : ℕ) : Prop :=
  ∀ j < i, (∃ round, script.round j = .ok round) ∧ ¬ EndsTurn setup script c j

/-- Reply `i` is the last one of the loop, and dispatches no captain. -/
def LastQuiet (setup : Setup) (script : TurnScript) (c : Conductor) (i : ℕ) : Prop :=
  i < Setup.turnRounds ∧ Asked setup script c i ∧ ∃ round, script.round i = .ok round ∧
    (round.toolCalls = [] ∨ i + 1 = Setup.turnRounds ∧ ¬ EndsTurn setup script c i)

/-- The replies of a tool loop bring no plan that is shown and not run: ids are new, a plan
drafted before the tools are called is the one shown, and, if no plan is drafted at the end,
nothing but the current plan is shown. -/
structure TurnInOrder (setup : Setup) (script : TurnScript) (c : Conductor) (restating : Prop) :
    Prop where
  unused : ∀ i, Unused setup c (script.draft i).planId
  inline : ∀ i < Setup.turnRounds, Asked setup script c i → ∀ round, script.round i = .ok round →
    c.currentPlan = none → callsStartBuild round.toolCalls →
    hasPlanTag (textBefore script (i + 1)) = true →
    Saves setup (inlineRecord setup script (Setup.lastText c) i) (script.draft i).fate →
      ReadAsShown setup.host.toml (textBefore script (i + 1))
  restates : restating → ∀ i < Setup.turnRounds, Asked setup script c i → ∀ round text,
    script.round i = .ok round → round.text = some text → Restates setup c text

def Uses (c : Conductor) (planId : PlanId) : Prop :=
  c.currentPlan = some planId ∨ ∃ d ∈ c.dispatches, d.planId = planId

theorem Unused.not_uses (h : Unused setup c planId) : ¬ Uses c planId := by
  rintro (hcurrent | ⟨d, hd, hid⟩)
  · exact h.notCurrent hcurrent
  · exact h.notDispatched d hd hid

end Mowis.Planning
