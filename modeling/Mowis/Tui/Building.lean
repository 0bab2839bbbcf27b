import Mowis.Orchestration.SimpleCaptain
import Mowis.Tui.Editor

/-!
# The build indicator

A session: the terminal interface, and the builds that the Conductor has dispatched.  A build runs
`SimpleCaptain::run` and emits its events in order; the events of several builds, those of anyone
else, keys and pastes reach the interface in any order.
-/

namespace Mowis.Tui

open Mowis.Lib Mowis.Orchestration

def buildEvents (cfg : OrchConfig) (planId : PlanId) (loaded : Except String Plan)
    (env : Environment) (waveOrder : IterOrder TaskId) : List Event :=
  match loaded with
  | .error e => [.planFailed planId e]
  | .ok plan =>
    let run := simpleRun cfg planId plan env waveOrder
    match run.finish with
    | .returned (.error e) => run.events ++ [.planFailed planId e]
    | _ => run.events

/-- A dispatched build: the events still to come, and whether its plan is started and not yet
completed or failed. -/
structure Build where
  planId : PlanId
  pending : List Event
  running : Bool

def Build.told (b : Build) (rest : List Event) : Event → Build
  | .captainStarted _ _ => ⟨b.planId, rest, true⟩
  | .planCompleted _ | .planFailed _ _ => ⟨b.planId, rest, false⟩
  | _ => ⟨b.planId, rest, b.running⟩

structure Session where
  app : App
  builds : List Build

/-- Only a captain tells that its plan has started, completed or failed, and for a captain the
Conductor may speak. -/
def ofBuild : AppEvent → Bool
  | .orch (.captain (.captainStarted _ _)) _ => true
  | .orch (.captain (.planCompleted _)) _ => true
  | .orch (.captain (.planFailed _ _)) _ => true
  | _ => false

inductive Action where
  /-- The Conductor spawns a captain for a plan. -/
  | dispatch (cfg : OrchConfig) (planId : PlanId) (loaded : Except String Plan) (env : Environment)
      (waveOrder : IterOrder TaskId)
  /-- The next event of a build arrives. -/
  | told (i : ℕ) (queued : Bool)
  /-- Any other event. -/
  | other (event : AppEvent) (h : ofBuild event = false)

namespace Session

def start (conductorTx : Bool) : Session := ⟨.new conductorTx, []⟩

variable (s : Session)

def step : Action → Option Session
  | .dispatch cfg planId loaded env waveOrder =>
    some { s with builds := s.builds ++
      [⟨planId, buildEvents cfg planId loaded env waveOrder, false⟩] }
  | .told i queued =>
    match s.builds[i]? with
    | some b =>
      match b.pending with
      | event :: rest =>
        (s.app.step (.orch (.captain event) queued)).map fun app =>
          ⟨app, s.builds.set i (b.told rest event)⟩
      | [] => none
    | none => none
  | .other event _ => (s.app.step event).map fun app => { s with app := app }

/-- A plan was started that has neither completed nor failed. -/
def Active : Prop := ∃ b ∈ s.builds, b.running = true

def OthersRun (i : ℕ) : Prop :=
  ∃ j b, j ≠ i ∧ s.builds[j]? = some b ∧ b.running = true

/-- The indicator shows exactly the plans that are started and not yet at their end. -/
def Indicates : Prop := s.app.isBuilding = true ↔ s.Active

/-- No plan that was started fails unless another one is running, and none completes while
another one is. -/
def EventOk (i : ℕ) (b : Build) : Event → Prop
  | .planCompleted _ => ¬ s.OthersRun i
  | .planFailed _ _ => b.running = true → s.OthersRun i
  | _ => True

def StepOk : Action → Prop
  | .told i _ => ∀ b event rest, s.builds[i]? = some b → b.pending = event :: rest →
    s.EventOk i b event
  | .dispatch _ _ _ _ _ | .other _ _ => True

end Session

section Flag

variable {s s' : Session}

theorem active_set {i : ℕ} {app : App} {b b' : Build} (hget : s.builds[i]? = some b) :
    Session.Active ⟨app, s.builds.set i b'⟩ ↔ b'.running = true ∨ s.OthersRun i := by
  obtain ⟨hi, -⟩ := List.getElem?_eq_some_iff.mp hget
  constructor
  · rintro ⟨c, hc, hrunning⟩
    obtain ⟨j, hj⟩ := List.mem_iff_getElem?.mp hc
    by_cases hij : j = i
    · rw [hij, List.getElem?_set_self hi] at hj
      cases hj
      exact .inl hrunning
    · rw [List.getElem?_set_ne (Ne.symm hij)] at hj
      exact .inr ⟨j, c, hij, hj, hrunning⟩
  · rintro (hrunning | ⟨j, c, hij, hj, hrunning⟩)
    · exact ⟨b', List.mem_of_getElem? (List.getElem?_set_self hi), hrunning⟩
    · have hj' : (s.builds.set i b')[j]? = some c := by
        rw [List.getElem?_set_ne (Ne.symm hij), hj]
      exact ⟨c, List.mem_of_getElem? hj', hrunning⟩

theorem active_iff {i : ℕ} {b : Build} (hget : s.builds[i]? = some b) :
    s.Active ↔ b.running = true ∨ s.OthersRun i := by
  have hset : s.builds.set i b = s.builds := by
    obtain ⟨hi, rfl⟩ := List.getElem?_eq_some_iff.mp hget
    exact List.set_getElem_self hi
  have hactive : Session.Active ⟨s.app, s.builds.set i b⟩ ↔ _ := active_set hget
  rw [← hactive, hset]

theorem isBuilding_filterMenus (app : App) : app.filterMenus.isBuilding = app.isBuilding := by
  unfold App.filterMenus
  split
  · rfl
  · split <;> rfl

theorem isBuilding_paste {app app' : App} {text : Text} (h : app.paste text = some app') :
    app'.isBuilding = app.isBuilding := by
  obtain ⟨input, -, rfl⟩ := Option.map_eq_some_iff.mp h
  dsimp only
  split <;> rfl

theorem isBuilding_pressChar {app app' : App} {c : Char} {control : Bool}
    (h : app.pressChar c control = some app') : app'.isBuilding = app.isBuilding := by
  unfold App.pressChar at h
  split at h
  · cases h; rfl
  split at h
  · cases h; rfl
  split at h
  · cases h; rfl
  split at h
  · obtain ⟨input, -, rfl⟩ := Option.map_eq_some_iff.mp h
    rfl
  split at h
  · obtain ⟨input, -, rfl⟩ := Option.map_eq_some_iff.mp h
    rfl
  split at h
  · cases h; rfl
  split at h
  · cases h; rfl
  · obtain ⟨input, -, rfl⟩ := Option.map_eq_some_iff.mp h
    exact isBuilding_filterMenus _

theorem isBuilding_backspace {app app' : App} (h : app.backspace = some app') :
    app'.isBuilding = app.isBuilding := by
  obtain ⟨edited, hedited, rfl⟩ := Option.map_eq_some_iff.mp h
  have hsame : edited.isBuilding = app.isBuilding := by
    split at hedited
    · obtain ⟨input, -, rfl⟩ := Option.map_eq_some_iff.mp hedited
      rfl
    · cases hedited
      rfl
  rw [← hsame]
  split
  · rfl
  · exact isBuilding_filterMenus edited

theorem isBuilding_takeSlashCommand (app : App) :
    app.takeSlashCommand.isBuilding = app.isBuilding := by
  unfold App.takeSlashCommand
  split
  · cases app.slashMenu.current <;> rfl
  · rfl

theorem isBuilding_takeAtTarget (app : App) : app.takeAtTarget.isBuilding = app.isBuilding := by
  unfold App.takeAtTarget
  cases app.atMenu.current <;> rfl

theorem isBuilding_sendMessage (app : App) (msg : String) (delivered : Except String Unit) :
    (app.sendMessage msg delivered).isBuilding = app.isBuilding := by
  unfold App.sendMessage
  dsimp only
  split
  · cases delivered <;> rfl
  · rfl

theorem isBuilding_submit (app : App) (msg : String) (delivered : Except String Unit) :
    (app.submit msg delivered).isBuilding = app.isBuilding := by
  unfold App.submit
  repeat' split
  all_goals first | rfl | exact isBuilding_sendMessage app msg delivered

theorem isBuilding_pressEnter (app : App) (delivered : Except String Unit) :
    (app.pressEnter delivered).isBuilding = app.isBuilding := by
  unfold App.pressEnter
  dsimp only
  split
  · rw [isBuilding_takeAtTarget, isBuilding_takeSlashCommand]
  · have hsubmit := isBuilding_submit app.takeSlashCommand
      (String.ofList (trim app.takeSlashCommand.input)) delivered
    exact hsubmit.trans (isBuilding_takeSlashCommand app)

theorem isBuilding_pressTab (app : App) : app.pressTab.isBuilding = app.isBuilding := by
  unfold App.pressTab
  split
  · cases app.slashMenu.current <;> rfl
  split
  · cases app.atMenu.current <;> rfl
  · unfold App.cycleSidebar
    split
    · rfl
    · split <;> rfl

theorem isBuilding_pressVertical (app : App) (select : Menu → Menu)
    (move : MessageLog → MessageLog) :
    (app.pressVertical select move).isBuilding = app.isBuilding := by
  unfold App.pressVertical
  split
  · rfl
  split
  · rfl
  split <;> rfl

theorem isBuilding_pressEsc (app : App) : app.pressEsc.isBuilding = app.isBuilding := by
  unfold App.pressEsc
  split
  · rfl
  · split <;> rfl

theorem isBuilding_handleKey {app app' : App} {code : KeyCode} {control : Bool}
    {delivered : Except String Unit} (h : app.handleKey code control delivered = some app') :
    app'.isBuilding = app.isBuilding := by
  cases code with
  | char c => exact isBuilding_pressChar h
  | backspace => exact isBuilding_backspace h
  | left | right =>
    obtain rfl := Option.some.inj h
    split <;> rfl
  | up | down =>
    obtain rfl := Option.some.inj h
    exact isBuilding_pressVertical _ _ _
  | tab =>
    obtain rfl := Option.some.inj h
    exact isBuilding_pressTab app
  | enter =>
    obtain rfl := Option.some.inj h
    exact isBuilding_pressEnter app delivered
  | esc =>
    obtain rfl := Option.some.inj h
    exact isBuilding_pressEsc app
  | home | toEnd | pageUp | pageDown | delete | other =>
    obtain rfl := Option.some.inj h
    rfl

theorem isBuilding_step {app app' : App} {event : AppEvent} (h : app.step event = some app')
    (hother : ofBuild event = false) : app'.isBuilding = app.isBuilding := by
  cases event with
  | key code control delivered => exact isBuilding_handleKey h
  | paste text => exact isBuilding_paste h
  | reply reply =>
    obtain rfl := Option.some.inj h
    cases reply <;> rfl
  | orch event queued =>
    obtain rfl := Option.some.inj h
    cases event with
    | captain event => cases event <;> first | rfl | cases hother
    | _ => rfl
  | wheel | drawn =>
    obtain rfl := Option.some.inj h
    rfl

end Flag

theorem active_dispatch {s : Session} {b : Build} (hb : b.running = false) :
    Session.Active { s with builds := s.builds ++ [b] } ↔ s.Active := by
  constructor
  · rintro ⟨c, hc, hrunning⟩
    rcases List.mem_append.mp hc with hc | hc
    · exact ⟨c, hc, hrunning⟩
    · rw [List.mem_singleton.mp hc, hb] at hrunning
      cases hrunning
  · rintro ⟨c, hc, hrunning⟩
    exact ⟨c, List.mem_append_left _ hc, hrunning⟩

theorem indicates_told {s : Session} (h : s.Indicates) {i : ℕ} {b : Build}
    (hget : s.builds[i]? = some b) (rest : List Event) (queued : Bool) (event : Event) :
    Session.Indicates ⟨s.app.handleCaptainEvent queued event, s.builds.set i (b.told rest event)⟩ ↔
      s.EventOk i b event := by
  have hbefore : s.app.isBuilding = true ↔ b.running = true ∨ s.OthersRun i :=
    h.trans (active_iff hget)
  rw [Session.Indicates, active_set hget]
  cases event with
  | captainStarted planId sandboxId => exact iff_of_true ⟨fun _ => .inl rfl, fun _ => rfl⟩ trivial
  | planCompleted planId =>
    constructor
    · intro hflag hothers
      cases hflag.mpr (.inr hothers)
    · intro hnone
      exact ⟨fun hflag => (nomatch hflag), fun hor => (hor.resolve_left nofun |> hnone).elim⟩
  | planFailed planId reason =>
    constructor
    · intro hflag hrunning
      exact (hflag.mp (hbefore.mpr (.inl hrunning))).resolve_left nofun
    · intro hok
      refine ⟨fun hflag => .inr ?_, fun hor => hbefore.mpr (.inr (hor.resolve_left nofun))⟩
      exact (hbefore.mp hflag).elim hok id
  | mergeCompleted | crewFailed | taskInjected => exact iff_of_true hbefore trivial

theorem indicates_step {s s' : Session} {a : Action} (h : s.Indicates)
    (hstep : s.step a = some s') : s'.Indicates ↔ s.StepOk a := by
  cases a with
  | dispatch cfg planId loaded env waveOrder =>
    obtain rfl := Option.some.inj hstep
    exact iff_of_true (h.trans (active_dispatch rfl).symm) trivial
  | other event hother =>
    obtain ⟨app, happ, rfl⟩ := Option.map_eq_some_iff.mp hstep
    refine iff_of_true ?_ trivial
    show app.isBuilding = true ↔ s.Active
    rw [isBuilding_step happ hother]
    exact h
  | told i queued =>
    rw [Session.step] at hstep
    split at hstep
    · next b hget =>
      split at hstep
      · next event rest hpending =>
        obtain rfl := Option.some.inj hstep
        have hok : s.StepOk (.told i queued) ↔ s.EventOk i b event := by
          refine ⟨fun hok => hok b event rest hget hpending, fun hok b' event' rest' hget' hp => ?_⟩
          cases hget.symm.trans hget'
          cases hpending.symm.trans hp
          exact hok
        rw [hok]
        exact indicates_told h hget rest queued event
      · cases hstep
    · cases hstep

/-- **The indicator shows the running builds exactly when every plan ends alone.**  Over a whole
run it is right at every moment if and only if no plan that was started fails without another one
running, and none completes with another one running. -/
theorem indicates_iff {conductorTx : Bool} {past : List (Session × Action)} {s : Session}
    (h : Execution Session.step (.start conductorTx) past s) :
    ((∀ e ∈ past, e.1.Indicates) ∧ s.Indicates) ↔ ∀ e ∈ past, e.1.StepOk e.2 := by
  refine h.good_iff (I := fun _ => True) trivial (fun _ _ _ _ _ => trivial) ?_
    fun c a c' _ hgood hstep => indicates_step hgood hstep
  exact ⟨fun hflag => (nomatch hflag), fun ⟨b, hb, _⟩ => (nomatch hb)⟩

def onePlan : Plan := ⟨"p1", [⟨"a", "schema", "write the schema", [], .fast, 10, []⟩]⟩

def dispatched (pending : List Event) : Session := ⟨.new true, [⟨"p1", pending, false⟩]⟩

theorem step_dispatch {env : Environment} {pending : List Event}
    (h : buildEvents crewOnlyConfig "p1" (.ok onePlan) env .stored = pending) :
    (Session.start true).step (.dispatch crewOnlyConfig "p1" (.ok onePlan) env .stored) =
      some (dispatched pending) := by
  rw [Session.step, h]
  rfl

/-- The crew of the only task fails, and the indicator stays on. -/
theorem not_indicates : ∃ past s,
    Execution Session.step (.start true) past s ∧ ¬ s.Indicates := by
  have hevents : buildEvents crewOnlyConfig "p1" (.ok onePlan) schemaFails .stored =
      [.captainStarted "p1" "conv-p1", .planFailed "p1" "no such table"] := by decide +kernel
  have hrun := Execution.start.next (step_dispatch hevents)
  have hstarted := hrun.next (a := .told 0 true) rfl
  refine ⟨_, _, hstarted.next (a := .told 0 true) rfl, fun h => ?_⟩
  obtain ⟨b, hb, hrunning⟩ := h.mp rfl
  obtain rfl := List.mem_singleton.mp hb
  cases hrunning

theorem alone (app : App) (b : Build) : ¬ Session.OthersRun ⟨app, [b]⟩ 0 := by
  rintro ⟨j, c, hj, hget, -⟩
  obtain ⟨i, rfl⟩ := Nat.exists_eq_succ_of_ne_zero hj
  cases hget

/-- Its crew does the task. -/
theorem indicates_of_done : ∃ past s,
    Execution Session.step (.start true) past s ∧ s.app.isBuilding = false ∧
      (∃ e ∈ past, e.1.app.isBuilding = true) ∧ (∀ e ∈ past, e.1.Indicates) ∧ s.Indicates := by
  have hevents : buildEvents crewOnlyConfig "p1" (.ok onePlan) allGoesWell .stored =
      [.captainStarted "p1" "conv-p1", .mergeCompleted "p1" "p1-a", .planCompleted "p1"] := by
    decide +kernel
  have hrun := (((Execution.start.next (step_dispatch hevents)).next (a := .told 0 true) rfl).next
    (a := .told 0 true) rfl).next (a := .told 0 true) rfl
  refine ⟨_, _, hrun, rfl, ⟨_, List.mem_cons_self, rfl⟩, (indicates_iff hrun).mpr ?_⟩
  refine List.forall_mem_cons.mpr ⟨?_, List.forall_mem_cons.mpr ⟨?_, List.forall_mem_cons.mpr
    ⟨?_, List.forall_mem_cons.mpr ⟨trivial, List.forall_mem_nil _⟩⟩⟩⟩
  all_goals
    intro b event rest hget hpending
    cases hget
    cases hpending
  · exact alone _ _
  · trivial
  · trivial

end Mowis.Tui
