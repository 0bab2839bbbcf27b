import Mowis.Lib.Execution
import Mowis.Desktop.Commands

/-!
# Sessions kept apart

The commands on sessions, interleaved with the events of all orchestrations that were ever started:
an event knows nothing of its session, and reaches the one that is current when it is consumed.
-/

namespace Mowis.Desktop

open Mowis.Lib

/-- The application, and the sessions for which an orchestration was started. -/
structure Desk where
  app : AppState
  orchestrated : List SessionId

inductive DeskAction where
  | startSession (now : ℕ) (id : SessionId) (prompt : String) (mode : Option String)
  | sendMessage (now : ℕ) (message : String)
  | loadSession (id : SessionId)
  | clearCurrentSession
  | stopSession (now : ℕ) (order : IterOrder Task)
  /-- An event caused by the orchestration of the session `origin` is consumed. -/
  | event (origin : SessionId) (now : ℕ) (order : IterOrder Task) (event : BridgeEvent)

namespace Desk

variable (d : Desk)

def start (persisted : PersistedState) : Desk := ⟨.new persisted, []⟩

/-- One command or event.  The id of a new session is fresh, and a command that fails changes
nothing. -/
def step : DeskAction → Option Desk
  | .startSession now id prompt mode =>
    if id ∈ d.app.sessions then none
    else some ⟨d.app.startSession now id prompt mode, id :: d.orchestrated⟩
  | .sendMessage now message =>
    match d.app.sendMessage now message with
    | .error _ => some d
    | .ok app => some ⟨app, app.currentSessionId.toList ++ d.orchestrated⟩
  | .loadSession id =>
    match d.app.loadSession id with
    | .error _ => some d
    | .ok app => some { d with app := app }
  | .clearCurrentSession => some { d with app := d.app.clearCurrentSession }
  | .stopSession now order => some { d with app := d.app.stopSession now order }
  | .event origin now order event =>
    if origin ∈ d.orchestrated then some { d with app := d.app.handleBridgeEvent now order event }
    else none

def stored (app : AppState) (id : SessionId) : Option (Content × String) :=
  (app.sessions.lookup id).map fun r => (r.content, r.summary.status)

/-- An event leaves alone what is stored of the sessions that did not cause it. -/
def Keeps : DeskAction → Prop
  | .event origin now order event => ∀ id, id ≠ origin →
    stored (d.app.handleBridgeEvent now order event) id = stored d.app id
  | _ => True

/-- The record of the session says already what the event would write: the event leaves the live
fields as they are, and the record has them with the event's status. -/
def SaidAlready (app : AppState) (id : SessionId) (now : ℕ) (event : BridgeEvent)
    (status : String) : Prop :=
  (app.edit now event).live = app.live ∧ stored app id = some (app.live, status)

/-- The condition on a step: an event is consumed while its own session is current, or none; or it
is one that is shown only; or it says nothing new. -/
def StepOk : DeskAction → Prop
  | .event origin now _ event => ∀ id, d.app.currentSessionId = some id → id ≠ origin →
    ∀ p, event.status now = some p → SaidAlready d.app id now event p.1
  | _ => True

end Desk

namespace Desk

variable {d d' : Desk} {a : DeskAction} {app : AppState} {now : ℕ} {order : IterOrder Task}
  {event : BridgeEvent}

theorem current_step (h : d.app.Current) (hs : d.step a = some d') : d'.app.Current := by
  cases a with
  | startSession now id prompt mode =>
    rw [step] at hs
    split at hs
    · cases hs
    · obtain rfl := Option.some.inj hs
      exact .startSession now id prompt mode
  | sendMessage now message =>
    rw [step] at hs
    split at hs
    · obtain rfl := Option.some.inj hs
      exact h
    · rename_i app happ
      obtain rfl := Option.some.inj hs
      exact h.sendMessage happ
  | loadSession id =>
    rw [step] at hs
    split at hs
    · obtain rfl := Option.some.inj hs
      exact h
    · rename_i app happ
      obtain rfl := Option.some.inj hs
      exact .loadSession happ
  | clearCurrentSession =>
    obtain rfl := Option.some.inj hs
    exact .clear
  | stopSession now order =>
    obtain rfl := Option.some.inj hs
    exact h.stopSession
  | event origin now order event =>
    rw [step] at hs
    split at hs
    · obtain rfl := Option.some.inj hs
      exact h.handleBridgeEvent
    · cases hs

theorem stored_ne {id : SessionId} (h : app.currentSessionId ≠ some id) :
    stored (app.handleBridgeEvent now order event) id = stored app id := by
  rw [stored, AppState.lookup_handleBridgeEvent_ne h]
  rfl

theorem stored_current (h : app.Current) {id : SessionId} (hid : app.currentSessionId = some id)
    {p : String × Option (Option ℕ)} (hp : event.status now = some p) :
    stored (app.handleBridgeEvent now order event) id =
      some ((app.edit now event).live, p.1) := by
  rw [stored, AppState.sessions_handleBridgeEvent, hp]
  dsimp only
  rw [AppState.lookup_syncCurrentSession (by rw [AppState.currentSessionId_edit]; exact hid),
    Option.map_some, AppState.content_updatedRecord (AppState.keyed_edit h.keyed)]
  rfl

theorem live_edit_of_stored (h : app.Current) {id : SessionId} (hid : app.currentSessionId = some id)
    {status : String} (hst : stored app id = some ((app.edit now event).live, status)) :
    (app.edit now event).live = app.live := by
  obtain ⟨r, hl, hr⟩ := Option.map_eq_some_iff.mp hst
  have hcontent : r.content = (app.edit now event).live := congrArg Prod.fst hr
  obtain ⟨sent, hlive⟩ := h.record id r hid hl
  have hmessages : app.messages = r.messages ++ sent := congrArg Content.messages hlive
  have hedited : r.messages = (app.edit now event).messages := congrArg Content.messages hcontent
  have hlen := @AppState.length_messages_edit app now event
  rw [← hedited, hmessages, List.length_append] at hlen
  obtain rfl : sent = [] := List.length_eq_zero_iff.mp (by omega)
  rw [hlive, ← hcontent, List.append_nil]
  rfl

theorem keeps_iff_stepOk (h : d.app.Current) (a : DeskAction) : d.Keeps a ↔ d.StepOk a := by
  cases a with
  | event origin now order event =>
    constructor
    · intro hkeep id hid hne p hp
      have hst := (hkeep id hne).symm.trans (stored_current h hid hp)
      have hedit := live_edit_of_stored h hid hst
      exact ⟨hedit, by rw [hst, hedit]⟩
    · intro hok id hne
      by_cases hid : d.app.currentSessionId = some id
      · cases hp : event.status now with
        | none =>
          rw [stored, AppState.sessions_handleBridgeEvent, hp]
          rfl
        | some p =>
          obtain ⟨hedit, hst⟩ := hok id hid hne p hp
          rw [stored_current h hid hp, hst, hedit]
      · exact stored_ne hid
  | _ => exact Iff.rfl

end Desk

open Desk

/-- **Sessions are kept apart exactly where** every event of an orchestration is consumed while its
own session is current, or none is, or has nothing to write or nothing new. -/
theorem keeps_iff (persisted : PersistedState) {past : List (Desk × DeskAction)} {d : Desk}
    (h : Execution Desk.step (.start persisted) past d) :
    (∀ e ∈ past, e.1.Keeps e.2) ↔ ∀ e ∈ past, e.1.StepOk e.2 := by
  have hcurrent := h.invariant_past (I := fun d => d.app.Current)
    (AppState.current_new persisted) fun _ _ _ hd hs => current_step hd hs
  exact forall₂_congr fun e he => keeps_iff_stepOk (hcurrent e he) e.2

/-- One session, its answer and the end of its build. -/
theorem keeps_alone : ∃ past d, Execution Desk.step (.start .default) past d ∧ past.length = 3 ∧
    ∀ e ∈ past, e.1.Keeps e.2 := by
  have hrun : Execution.runActions Desk.step
      [.startSession 1 "A" "write a parser" none, .event "A" 2 .stored (.agentChunk "On it."),
        .event "A" 3 .stored .orchestrationComplete] [] (.start .default) = some (_, _) := rfl
  refine ⟨_, _, .ofRun .start hrun, rfl, (keeps_iff .default (.ofRun .start hrun)).mpr ?_⟩
  refine List.forall_mem_cons.mpr ⟨fun id hid hne => ?_, ?_⟩
  · exact absurd (Option.some.inj hid).symm hne
  refine List.forall_mem_cons.mpr ⟨fun id hid hne => ?_, ?_⟩
  · exact absurd (Option.some.inj hid).symm hne
  exact List.forall_mem_cons.mpr ⟨trivial, List.forall_mem_nil _⟩

/-- **Mixed up**: the first session's answer arrives after the second has been started, and is
stored with the second. -/
theorem mixes_sessions : ¬ ∀ (persisted : PersistedState) (past : List (Desk × DeskAction))
    (d : Desk), Execution Desk.step (.start persisted) past d → ∀ e ∈ past, e.1.Keeps e.2 := by
  intro hclaim
  have hrun : Execution.runActions Desk.step
      [.startSession 1 "A" "write a parser" none, .startSession 2 "B" "fix the build" none,
        .event "A" 3 .stored (.agentChunk "On it.")] [] (.start .default) = some (_, _) := rfl
  have hkeep := (List.forall_mem_cons.mp (hclaim .default _ _ (.ofRun .start hrun))).1 "B"
    (by decide)
  have hmessages := congrArg (Option.map fun p => p.1.messages.length) hkeep
  revert hmessages
  decide

end Mowis.Desktop
