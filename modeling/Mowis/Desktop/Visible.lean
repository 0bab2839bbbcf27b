import Mowis.Planning.Attribution
import Mowis.Tui.Building
import Mowis.Desktop.Commands
import Mowis.Desktop.Turn

/-!
# How a turn of the desktop ends

A turn on the current session: what its conductor does, the captains it spawns and their crews, and
the turn's own error, in any order in which the bridge can come to hear of them.
-/

namespace Mowis.Desktop

open Mowis.Lib
open Mowis.Review (Overflow)
open Mowis.Orchestration (TaskId PlanId OrchConfig Plan Environment)
open Mowis.Planning (ConductorReply)

/-- The texts that are complete, and the one being streamed. -/
structure Speech where
  said : List String
  current : Option String

namespace Speech

def texts (sp : Speech) : List String := sp.said ++ sp.current.toList

/-- A chunk continues the current text, and whatever else is shown ends it. -/
def hear (sp : Speech) : BridgeEvent → Speech
  | .agentChunk chunk => ⟨sp.said, some (sp.current.getD "" ++ chunk)⟩
  | .agentMessage content => ⟨sp.texts ++ [content], none⟩
  | .planReady _ _ _ _ | .orchestrationComplete | .orchestrationFailed _ => ⟨sp.texts, none⟩
  | _ => sp

def hearAll (sp : Speech) (events : List BridgeEvent) : Speech := events.foldl hear sp

end Speech

def ChatMessage.agentText : ChatMessage → Option String
  | .agent content _ _ => some content
  | _ => none

def agentTexts (messages : List ChatMessage) : List String :=
  messages.filterMap ChatMessage.agentText

def ChatMessage.streamed : ChatMessage → Option String
  | .agent content true _ => some content
  | _ => none

def Speech.of (messages : List ChatMessage) : Speech :=
  match messages.getLast?.bind ChatMessage.streamed with
  | some content => ⟨agentTexts messages.dropLast, some content⟩
  | none => ⟨agentTexts messages, none⟩

namespace Speech

variable {messages : List ChatMessage} {m : ChatMessage} {s : AppState} {now : ℕ}
  {event : BridgeEvent}

theorem agentTexts_snoc (messages : List ChatMessage) (m : ChatMessage) :
    agentTexts (messages ++ [m]) = agentTexts messages ++ m.agentText.toList := by
  unfold agentTexts
  rw [List.filterMap_append]
  cases m <;> rfl

theorem of_snoc_streamed {content : String} (h : m.streamed = some content) :
    of (messages ++ [m]) = ⟨agentTexts messages, some content⟩ := by
  simp [of, h]

theorem of_snoc (h : m.streamed = none) :
    of (messages ++ [m]) = ⟨agentTexts messages ++ m.agentText.toList, none⟩ := by
  simp [of, h, agentTexts_snoc]

theorem streamed_eq_some {content : String} (h : m.streamed = some content) :
    ∃ ts, m = .agent content true ts := by
  cases m with
  | agent c streaming ts =>
    cases streaming with
    | true => exact ⟨ts, by rw [Option.some.inj h]⟩
    | false => cases h
  | _ => cases h

theorem texts_of (messages : List ChatMessage) : (of messages).texts = agentTexts messages := by
  rcases List.eq_nil_or_concat' messages with rfl | ⟨init, m, rfl⟩
  · rfl
  · cases h : m.streamed with
    | some content =>
      obtain ⟨ts, rfl⟩ := streamed_eq_some h
      rw [of_snoc_streamed h, agentTexts_snoc]
      rfl
    | none => rw [of_snoc h, agentTexts_snoc, texts, Option.toList_none, List.append_nil]

theorem of_addChunk (now : ℕ) (chunk : String) (messages : List ChatMessage) :
    of (addChunk now chunk messages) =
      ⟨(of messages).said, some ((of messages).current.getD "" ++ chunk)⟩ := by
  rcases List.eq_nil_or_concat' messages with rfl | ⟨init, m, rfl⟩
  · show Speech.mk [] (some chunk) = Speech.mk [] (some ("" ++ chunk))
    rw [String.empty_append]
  · cases h : m.streamed with
    | some content =>
      obtain ⟨ts, rfl⟩ := streamed_eq_some h
      rw [of_snoc_streamed h]
      have hadd : addChunk now chunk (init ++ [.agent content true ts]) =
          init ++ [.agent (content ++ chunk) true ts] := by
        simp [addChunk, ChatMessage.extend]
      rw [hadd]
      exact of_snoc_streamed rfl
    | none =>
      have hext : m.extend chunk = none := by
        cases m with
        | agent c streaming ts =>
          cases streaming with
          | true => cases h
          | false => rfl
        | _ => rfl
      have hadd : addChunk now chunk (init ++ [m]) = init ++ [m] ++ [.agent chunk true now] := by
        simp [addChunk, hext]
      rw [hadd, of_snoc_streamed (m := .agent chunk true now) rfl, of_snoc h, agentTexts_snoc,
        Option.getD_none, String.empty_append]

theorem settle_frame (m : ChatMessage) :
    m.settle.streamed = none ∧ m.settle.agentText = m.agentText := by
  cases m <;> exact ⟨rfl, rfl⟩

theorem of_settleLast (messages : List ChatMessage) :
    of (settleLast messages) = ⟨agentTexts messages, none⟩ := by
  rcases List.eq_nil_or_concat' messages with rfl | ⟨init, m, rfl⟩
  · rfl
  · obtain ⟨hstreamed, htext⟩ := settle_frame m
    have hsettle : settleLast (init ++ [m]) = init ++ [m.settle] := by simp [settleLast]
    rw [hsettle, of_snoc hstreamed, agentTexts_snoc, htext]

/-- **What is heard is what is shown.** -/
theorem of_edit : of (s.edit now event).messages = (of s.messages).hear event := by
  cases event with
  | agentChunk chunk => exact of_addChunk now chunk s.messages
  | agentMessage content =>
    show of (settleLast s.messages ++ [_]) = _
    have htexts : agentTexts (settleLast s.messages) = agentTexts s.messages := by
      rw [← texts_of, of_settleLast, texts, Option.toList_none, List.append_nil]
    rw [of_snoc rfl, htexts, ← texts_of]
    rfl
  | planReady sandboxes taskCount agentCount mode =>
    show of (s.messages ++ [_]) = _
    rw [of_snoc rfl, ← texts_of]
    exact congrArg (Speech.mk · none) (List.append_nil _)
  | orchestrationComplete =>
    show of (settleLast s.messages) = _
    rw [of_settleLast, ← texts_of]
    rfl
  | orchestrationFailed err =>
    show of (s.messages ++ [_]) = _
    rw [of_snoc rfl, ← texts_of]
    exact congrArg (Speech.mk · none) (List.append_nil _)
  | taskUpdated id status =>
    show of (s.updateTask now id status).messages = _
    unfold AppState.updateTask
    split <;> rfl
  | _ => rfl

end Speech

def ofCaptain : Orchestration.Event → OrchEvent
  | .captainStarted planId sandboxId => .captainStarted planId sandboxId
  | .mergeCompleted planId agentId => .mergeCompleted planId agentId
  | .crewFailed planId agentId reason => .crewFailed planId agentId reason
  | .planCompleted planId => .planCompleted planId
  | .planFailed planId reason => .planFailed planId reason
  | .taskInjected planId taskId reason => .taskInjected planId taskId reason

def OrchEvent.aside : OrchEvent → Bool
  | .crewStarted _ _ _ | .crewToolSummary _ _ _ _ | .crewDone _ _ _ | .tokensUsed _ _ _
  | .criticReviewing _ _ | .criticVerdict _ _ _ => true
  | _ => false

/-- What `dispatch` makes of an event, as long as the forwarder is alive. -/
def Line.hears (l : Line) (mode : Overflow) (now : ℕ) (event : OrchEvent) : List BridgeEvent :=
  if l.alive then (dispatch mode now event).getD [] else []

/-- A turn under way: the deeds of its conductor, the events of the builds and its own error are
still to come, and `heard` has come already. -/
structure TurnRun where
  line : Line
  deeds : List Deed
  builds : List (List OrchEvent)
  ownError : Option String
  heard : List BridgeEvent

inductive TurnAction where
  /-- The conductor goes on; a captain that it spawns meets these. -/
  | deed (cfg : OrchConfig) (loaded : Except String Plan) (env : Environment)
      (waveOrder : IterOrder TaskId)
  | build (i : ℕ)
  | aside (event : OrchEvent)
  | ownError

namespace TurnRun

variable (mode : Overflow) (r : TurnRun)

def start (app : AppState) (builds : List (List OrchEvent)) (turn : TurnEnd × List Deed) :
    TurnRun where
  line := ⟨app, true⟩
  deeds := turn.2
  builds := builds
  ownError := match turn.1 with
    | .failed err => some err
    | .replied _ => none
  heard := []

def tell (now : ℕ) (order : IterOrder Task) (event : OrchEvent) : TurnRun :=
  { r with
    line := r.line.deliver mode now order event
    heard := r.heard ++ r.line.hears mode now event }

def step : ℕ × IterOrder Task × TurnAction → Option TurnRun
  | (now, order, .deed cfg loaded env waveOrder) =>
    match r.deeds with
    | .tells event :: rest => some { r.tell mode now order event with deeds := rest }
    | .dispatches planId :: rest => some { r with
        deeds := rest
        builds := r.builds ++ [(Tui.buildEvents cfg planId loaded env waveOrder).map ofCaptain] }
    | [] => none
  | (now, order, .build i) =>
    match r.builds[i]? with
    | some (event :: rest) => some { r.tell mode now order event with builds := r.builds.set i rest }
    | _ => none
  | (now, order, .aside event) =>
    if event.aside then some (r.tell mode now order event) else none
  | (now, order, .ownError) =>
    match r.ownError with
    | some err => some { r with
        line := ⟨r.line.app.handleBridgeEvent now order (.orchestrationFailed err), r.line.alive⟩
        ownError := none
        heard := r.heard ++ [.orchestrationFailed err] }
    | none => none

end TurnRun

def replyText : ConductorReply → Option String
  | .chat reply => some reply
  | .buildDispatched _ reply => some reply
  | .planDrafted _ _ | .hotPatched _ _ | .scopeChanged _ => none

def ChatMessage.isError : ChatMessage → Bool
  | .error _ _ => true
  | _ => false

def AnsweredOnce (turnEnd : TurnEnd) (texts : List String) : Prop :=
  ∃ reply, turnEnd = .replied (.ok reply) ∧ ∀ text, replyText reply = some text → texts.count text = 1

/-- The session is done and shows the reply once, or it is in error and shows an error. -/
def Visible (app : AppState) (id : SessionId) (turnEnd : TurnEnd) : Prop :=
  ∃ r, app.sessions.lookup id = some r ∧
    (r.summary.status = "done" ∧ AnsweredOnce turnEnd (agentTexts r.messages) ∨
      r.summary.status = "error" ∧ ∃ m ∈ r.messages, m.isError = true)

def BridgeEvent.word (event : BridgeEvent) : Option String := (event.status 0).map Prod.fst

def lastWord (heard : List BridgeEvent) : Option BridgeEvent :=
  heard.reverse.find? fun event => event.word.isSome

/-- The last event with a status is that of a plan completed, and the answer has been said exactly
once, or that of a failure; or there was none, and the session was at such an end before. -/
def EndsVisibly (app : AppState) (id : SessionId) (turnEnd : TurnEnd) (heard : List BridgeEvent) :
    Prop :=
  match lastWord heard with
  | none => Visible app id turnEnd
  | some .orchestrationComplete =>
    AnsweredOnce turnEnd ((Speech.of app.messages).hearAll heard).texts
  | some (.orchestrationFailed _) => True
  | some _ => False

theorem BridgeEvent.word_of_status {event : BridgeEvent} {now : ℕ} {p : String × Option (Option ℕ)}
    (h : event.status now = some p) : event.word = some p.1 := by
  cases event <;> cases h <;> rfl

theorem BridgeEvent.word_none {event : BridgeEvent} {now : ℕ} (h : event.status now = none) :
    event.word = none := by
  cases event <;> first
    | rfl
    | cases h

theorem lastWord_snoc (heard : List BridgeEvent) (event : BridgeEvent) :
    lastWord (heard ++ [event]) = if event.word.isSome then some event else lastWord heard := by
  unfold lastWord
  rw [List.reverse_append, List.reverse_singleton, List.singleton_append, List.find?_cons]
  cases event.word.isSome <;> rfl

/-- The application has handled what was heard since `app₀`. -/
structure Handled (app₀ : AppState) (id : SessionId) (heard : List BridgeEvent) (app : AppState) :
    Prop where
  current : app.currentSessionId = some id
  speech : Speech.of app.messages = (Speech.of app₀.messages).hearAll heard
  unheard : lastWord heard = none → app.sessions.lookup id = app₀.sessions.lookup id
  record : ∀ event, lastWord heard = some event → ∃ r, app.sessions.lookup id = some r ∧
    event.word = some r.summary.status ∧ r.messages = app.messages
  error : ∀ err, lastWord heard = some (.orchestrationFailed err) →
    ∃ m ∈ app.messages, m.isError = true

section

variable {app₀ app : AppState} {id : SessionId} {heard : List BridgeEvent} {mode : Overflow}
  {now : ℕ} {order : IterOrder Task}

theorem Handled.hear (h : Handled app₀ id heard app) (now : ℕ) (order : IterOrder Task)
    (event : BridgeEvent) :
    Handled app₀ id (heard ++ [event]) (app.handleBridgeEvent now order event) := by
  obtain ⟨hlive, -, hid⟩ := @AppState.live_handleBridgeEvent app now order event
  have hmessages : (app.handleBridgeEvent now order event).messages =
      (app.edit now event).messages := congrArg Content.messages hlive
  have hspeech : Speech.of (app.handleBridgeEvent now order event).messages =
      (Speech.of app₀.messages).hearAll (heard ++ [event]) := by
    rw [hmessages, Speech.of_edit, h.speech, Speech.hearAll, Speech.hearAll, List.foldl_append]
    rfl
  cases hstatus : event.status now with
  | none =>
    have hword : lastWord (heard ++ [event]) = lastWord heard := by
      rw [lastWord_snoc, BridgeEvent.word_none hstatus]
      rfl
    have hsame : (app.handleBridgeEvent now order event).messages = app.messages :=
      hmessages.trans (congrArg Content.messages (AppState.live_edit hstatus).1)
    have hsessions : (app.handleBridgeEvent now order event).sessions = app.sessions := by
      rw [AppState.sessions_handleBridgeEvent, hstatus]
    refine ⟨hid.trans h.current, hspeech, ?_, ?_, ?_⟩
    · rw [hword, hsessions]
      exact h.unheard
    · rw [hword, hsessions, hsame]
      exact h.record
    · rw [hword, hsame]
      exact h.error
  | some p =>
    have hword : lastWord (heard ++ [event]) = some event := by
      rw [lastWord_snoc, BridgeEvent.word_of_status hstatus]
      rfl
    refine ⟨hid.trans h.current, hspeech, fun hnone => ?_, fun event' hlast => ?_, fun err hlast => ?_⟩
    · rw [hword] at hnone
      cases hnone
    · obtain rfl : event = event' := Option.some.inj (hword.symm.trans hlast)
      have hcurrent : (app.edit now event).currentSessionId = some id := by
        rw [AppState.currentSessionId_edit]
        exact h.current
      rw [AppState.sessions_handleBridgeEvent, hstatus]
      exact ⟨_, AppState.lookup_syncCurrentSession hcurrent, BridgeEvent.word_of_status hstatus,
        hmessages.symm⟩
    · obtain rfl : event = _ := Option.some.inj (hword.symm.trans hlast)
      rw [hmessages]
      exact ⟨.error err now, List.mem_append_right _ List.mem_cons_self, rfl⟩

theorem Handled.hearAll (h : Handled app₀ id heard app) (events : List BridgeEvent) :
    Handled app₀ id (heard ++ events) (Line.handleAll now order app events) := by
  induction events generalizing heard app with
  | nil =>
    rw [List.append_nil]
    exact h
  | cons event events ih =>
    have hrest := ih (h.hear now order event)
    rw [List.append_assoc] at hrest
    exact hrest

theorem Line.app_deliver (l : Line) (mode : Overflow) (now : ℕ) (order : IterOrder Task)
    (event : OrchEvent) :
    (l.deliver mode now order event).app = handleAll now order l.app (l.hears mode now event) := by
  unfold deliver hears
  split
  · cases dispatch mode now event <;> rfl
  · rfl

theorem Handled.deliver {l : Line} (h : Handled app₀ id heard l.app) (event : OrchEvent) :
    Handled app₀ id (heard ++ l.hears mode now event) (l.deliver mode now order event).app := by
  rw [Line.app_deliver]
  exact h.hearAll _

theorem Handled.visible (h : Handled app₀ id heard app) (turnEnd : TurnEnd) :
    Visible app id turnEnd ↔ EndsVisibly app₀ id turnEnd heard := by
  unfold EndsVisibly
  have htexts : agentTexts app.messages = ((Speech.of app₀.messages).hearAll heard).texts := by
    rw [← h.speech, Speech.texts_of]
  cases hlast : lastWord heard with
  | none =>
    unfold Visible
    rw [h.unheard hlast]
  | some event =>
    obtain ⟨r, hl, hword, hmessages⟩ := h.record event hlast
    have hvisible : Visible app id turnEnd ↔
        (r.summary.status = "done" ∧ AnsweredOnce turnEnd (agentTexts app.messages) ∨
          r.summary.status = "error" ∧ ∃ m ∈ app.messages, m.isError = true) := by
      rw [← hmessages]
      constructor
      · rintro ⟨r', hl', hr'⟩
        obtain rfl : r = r' := Option.some.inj (hl.symm.trans hl')
        exact hr'
      · exact fun hr => ⟨r, hl, hr⟩
    rw [hvisible, htexts]
    cases event with
    | orchestrationComplete =>
      have hs : r.summary.status = "done" := (Option.some.inj hword).symm
      rw [hs]
      simp
    | orchestrationFailed err =>
      have hs : r.summary.status = "error" := (Option.some.inj hword).symm
      rw [hs]
      simp [h.error err hlast]
    | planReady _ _ _ _ | taskAdded _ | taskUpdated _ _ | agentChunk _ | agentMessage _
    | simulationTick _ _ _ =>
      have hs : r.summary.status = "running" := (Option.some.inj hword).symm
      rw [hs]
      simp
    | _ => cases hword

end

open TurnRun

theorem step_dispatch {mode : Overflow} {r : TurnRun} {planId : PlanId} {rest : List Deed}
    (hdeeds : r.deeds = .dispatches planId :: rest) {cfg : OrchConfig}
    {loaded : Except String Plan} {env : Environment} {waveOrder : IterOrder TaskId}
    {events : List Orchestration.Event}
    (hevents : Tui.buildEvents cfg planId loaded env waveOrder = events) (now : ℕ)
    (order : IterOrder Task) :
    r.step mode (now, order, .deed cfg loaded env waveOrder) =
      some { r with deeds := rest, builds := r.builds ++ [events.map ofCaptain] } := by
  rw [TurnRun.step, hdeeds, ← hevents]

end Mowis.Desktop
