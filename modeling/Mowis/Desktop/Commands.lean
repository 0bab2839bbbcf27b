import Mowis.Desktop.Bridge

/-!
# The session commands of the desktop application

`mowis-desktop/src-tauri/src/commands.rs`, as far as the application state goes: what is sent to the
bridge besides, and where a turn works, is in `Workspaces`.
-/

namespace Mowis.Desktop

open Mowis.Lib

namespace AppState

variable (s : AppState)

def startSession (now : ℕ) (id : SessionId) (prompt : String) (mode : Option String) : AppState :=
  let summary : SessionSummary :=
    { id := id
      prompt := shorten prompt
      status := "running"
      startedAt := now
      completedAt := none
      taskCount := 0
      tasksDone := 0
      tokensTotal := 0
      durationSecs := none
      mode := some (mode.getD s.config.mode) }
  let messages := [ChatMessage.user prompt now]
  { s with
    currentSessionId := some id
    messages := messages
    tasks := ∅
    tokensTotal := 0
    toolCallsTotal := 0
    sessions := s.sessions.insert id ⟨summary, messages, [], 0, 0⟩
    sessionHistory := upsertHistory s.sessionHistory summary }

def sendMessage (now : ℕ) (message : String) : Except String AppState :=
  match s.currentSessionId with
  | none => .error "No active session"
  | some _ => .ok { s with messages := s.messages ++ [.user message now] }

def stopSession (now : ℕ) (order : IterOrder Task) : AppState :=
  let stopped := { s with messages := s.messages ++ [ChatMessage.system "Session stopped." now] }
  (stopped.syncCurrentSession now order (some "stopped") (some (some now))).recordUsageForCurrent now
    "stopped"

def loadSession (id : SessionId) : Except String AppState :=
  match s.sessions.lookup id with
  | none => .error ("session not found: " ++ id)
  | some r => .ok { s with
      currentSessionId := some id
      messages := r.messages
      tasks := tasksById r.tasks
      tokensTotal := r.tokensTotal
      toolCallsTotal := r.toolCallsTotal }

def clearCurrentSession : AppState :=
  { s with
    currentSessionId := none
    messages := []
    tasks := ∅
    tokensTotal := 0
    toolCallsTotal := 0 }

/-- `delete_session`: the history only. -/
def deleteSession (id : SessionId) : AppState :=
  { s with sessionHistory := s.sessionHistory.filter fun item => item.id ≠ id }

end AppState

/-- What a session consists of, with its tasks by id. -/
@[ext] structure Content where
  messages : List ChatMessage
  tasks : String → Option Task
  tokensTotal : ℕ
  toolCallsTotal : ℕ

def SessionRecord.content (r : SessionRecord) : Content :=
  ⟨r.messages, (tasksById r.tasks).lookup, r.tokensTotal, r.toolCallsTotal⟩

def AppState.live (s : AppState) : Content :=
  ⟨s.messages, s.tasks.lookup, s.tokensTotal, s.toolCallsTotal⟩

def Keyed (tasks : HashMap String Task) : Prop := ∀ id t, tasks.lookup id = some t → t.id = id

section Tasks

variable {tasks : HashMap String Task}

theorem Keyed.insert (h : Keyed tasks) {id : String} {t : Task} (ht : t.id = id) :
    Keyed (tasks.insert id t) := by
  intro id' t' hl
  rw [HashMap.lookup_insert_eq_ite] at hl
  split at hl
  · rename_i hid
    rw [hid, ← ht, Option.some.inj hl]
  · exact h id' t' hl

theorem Keyed.mapValues (h : Keyed tasks) {f : Task → Task} (hf : ∀ t, (f t).id = t.id) :
    Keyed (HashMap.mapValues f tasks) := by
  intro id t hl
  rw [HashMap.lookup_mapValues] at hl
  obtain ⟨t₀, hl₀, rfl⟩ := Option.map_eq_some_iff.mp hl
  rw [hf]
  exact h id t₀ hl₀

theorem keyed_tasksById (ts : List Task) : Keyed (tasksById ts) := by
  have hfold : ∀ (ts : List Task) (m : HashMap String Task), Keyed m →
      Keyed (ts.foldl (fun m task => m.insert task.id task) m) := by
    intro ts
    induction ts with
    | nil => exact fun m hm => hm
    | cons t ts ih => exact fun m hm => ih _ (hm.insert rfl)
  exact hfold ts ∅ fun id t hl => by cases hl

theorem mem_taskValues {order : IterOrder Task} (h : Keyed tasks) {t : Task} :
    t ∈ taskValues order tasks ↔ tasks.lookup t.id = some t := by
  rw [taskValues, IterOrder.mem_arrange, List.mem_map]
  constructor
  · rintro ⟨e, he, rfl⟩
    have hl : tasks.lookup e.1 = some e.2 := AList.mem_lookup_iff.mpr he
    rw [h e.1 e.2 hl]
    exact hl
  · intro hl
    exact ⟨⟨t.id, t⟩, AList.mem_lookup_iff.mp hl, rfl⟩

theorem lookup_tasksById_taskValues (h : Keyed tasks) (order : IterOrder Task) :
    (tasksById (taskValues order tasks)).lookup = tasks.lookup := by
  have hids : ((taskValues order tasks).map Task.id).Perm tasks.keys := by
    refine ((order.perm _).map Task.id).trans (List.Perm.of_eq ?_)
    rw [List.map_map]
    refine List.map_congr_left fun e he => ?_
    exact h e.1 e.2 (AList.mem_lookup_iff.mpr he)
  have hnodup : ((taskValues order tasks).map Task.id).Nodup := hids.nodup_iff.mpr tasks.keys_nodup
  funext id
  cases hl : tasks.lookup id with
  | some t =>
    obtain rfl := h id t hl
    exact HashMap.lookup_foldl_insert_of_mem Task.id (fun task => task) hnodup ∅
      ((mem_taskValues h).mpr hl)
  | none =>
    have hnone : (taskValues order tasks).reverse.find? (fun t => decide (t.id = id)) = none := by
      refine List.find?_eq_none.mpr fun t ht => ?_
      rw [decide_eq_true_iff]
      rintro rfl
      rw [(mem_taskValues h).mp (List.mem_reverse.mp ht)] at hl
      cases hl
    rw [tasksById, HashMap.lookup_foldl_insert Task.id fun task => task, hnone]
    rfl

end Tasks

namespace AppState

variable {s : AppState} {now : ℕ} {order : IterOrder Task} {status : Option String}
  {completedAt : Option (Option ℕ)}

/-- The live fields are those of the current session, whose record lacks at most messages that the
user has just sent. -/
structure Current (s : AppState) : Prop where
  keyed : Keyed s.tasks
  record : ∀ id r, s.currentSessionId = some id → s.sessions.lookup id = some r →
    ∃ sent, s.live = { r.content with messages := r.messages ++ sent }

theorem content_updatedRecord (h : Keyed s.tasks) (r : SessionRecord) :
    (s.updatedRecord now order status completedAt r).content = s.live := by
  rw [SessionRecord.content, live, updatedRecord, lookup_tasksById_taskValues h]

@[simp] theorem live_syncCurrentSession :
    (s.syncCurrentSession now order status completedAt).live = s.live := by
  unfold syncCurrentSession
  split <;> rfl

@[simp] theorem tasks_syncCurrentSession :
    (s.syncCurrentSession now order status completedAt).tasks = s.tasks := by
  unfold syncCurrentSession
  split <;> rfl

@[simp] theorem currentSessionId_syncCurrentSession :
    (s.syncCurrentSession now order status completedAt).currentSessionId = s.currentSessionId := by
  unfold syncCurrentSession
  split <;> rfl

theorem recordUsageForCurrent_frame (now : ℕ) (status : String) :
    (s.recordUsageForCurrent now status).live = s.live ∧
      (s.recordUsageForCurrent now status).tasks = s.tasks ∧
      (s.recordUsageForCurrent now status).currentSessionId = s.currentSessionId := by
  unfold recordUsageForCurrent
  split
  · exact ⟨rfl, rfl, rfl⟩
  · split <;> exact ⟨rfl, rfl, rfl⟩

theorem Current.usage (h : s.Current) (status : String) :
    (s.recordUsageForCurrent now status).Current := by
  obtain ⟨hlive, htasks, hid⟩ := recordUsageForCurrent_frame (s := s) now status
  refine ⟨htasks ▸ h.keyed, fun id r hcur hl => ?_⟩
  rw [hid] at hcur
  rw [sessions_recordUsageForCurrent] at hl
  rw [hlive]
  exact h.record id r hcur hl

theorem current_syncCurrentSession (h : Keyed s.tasks) :
    (s.syncCurrentSession now order status completedAt).Current := by
  refine ⟨by rw [tasks_syncCurrentSession]; exact h, fun id r hcur hl => ⟨[], ?_⟩⟩
  rw [currentSessionId_syncCurrentSession] at hcur
  rw [lookup_syncCurrentSession hcur] at hl
  obtain rfl := Option.some.inj hl
  rw [live_syncCurrentSession, List.append_nil]
  exact (content_updatedRecord h _).symm

theorem current_new (persisted : PersistedState) : (new persisted).Current := by
  constructor
  · show Keyed (Option.getD _ _)
    cases persisted.currentSessionId.bind persisted.sessions.lookup with
    | none => exact fun id t hl => by cases hl
    | some r => exact keyed_tasksById r.tasks
  · intro id r hcur hl
    have hbind : persisted.currentSessionId.bind persisted.sessions.lookup = some r := by
      rw [show persisted.currentSessionId = some id from hcur]
      exact hl
    refine ⟨[], ?_⟩
    unfold live new
    simp only [hbind, Option.map_some, Option.getD_some, List.append_nil]
    rfl

theorem Current.startSession (now : ℕ) (id : SessionId) (prompt : String) (mode : Option String) :
    (s.startSession now id prompt mode).Current := by
  refine ⟨(fun id t hl => by cases hl), fun id' r hcur hl => ⟨[], ?_⟩⟩
  obtain rfl : id = id' := Option.some.inj hcur
  rw [AppState.startSession, AList.lookup_insert] at hl
  obtain rfl := Option.some.inj hl
  rfl

theorem Current.sendMessage (h : s.Current) {message : String} {s' : AppState}
    (hs : s.sendMessage now message = .ok s') : s'.Current := by
  rw [AppState.sendMessage] at hs
  split at hs
  · cases hs
  · obtain rfl := Except.ok.inj hs
    refine ⟨h.keyed, fun id r hcur hl => ?_⟩
    obtain ⟨sent, hlive⟩ := h.record id r hcur hl
    refine ⟨sent ++ [.user message now], ?_⟩
    rw [← List.append_assoc]
    have hm := congrArg Content.messages hlive
    have ht := congrArg Content.tasks hlive
    have hk := congrArg Content.tokensTotal hlive
    have hc := congrArg Content.toolCallsTotal hlive
    exact Content.ext (congrArg (· ++ [ChatMessage.user message now]) hm) ht hk hc

theorem Current.loadSession {id : SessionId} {s' : AppState} (hs : s.loadSession id = .ok s') :
    s'.Current := by
  rw [AppState.loadSession] at hs
  split at hs
  · cases hs
  · rename_i r hl
    obtain rfl := Except.ok.inj hs
    refine ⟨keyed_tasksById r.tasks, fun id' r' hcur hl' => ⟨[], ?_⟩⟩
    obtain rfl : id = id' := Option.some.inj hcur
    obtain rfl : r = r' := Option.some.inj (hl.symm.trans hl')
    rw [List.append_nil]
    rfl

theorem Current.clear : s.clearCurrentSession.Current :=
  ⟨(fun id t hl => by cases hl), (fun id r hcur => by cases hcur)⟩

theorem Current.stopSession (h : s.Current) : (s.stopSession now order).Current := by
  set stopped : AppState :=
    { s with messages := s.messages ++ [ChatMessage.system "Session stopped." now] }
  exact Current.usage (current_syncCurrentSession (s := stopped) h.keyed) _

variable {event : BridgeEvent}

theorem keyed_updateTask (h : Keyed s.tasks) (id : String) (status : TaskStatus) :
    Keyed (s.updateTask now id status).tasks := by
  unfold updateTask
  split
  · rename_i t hl
    refine h.insert ?_
    rw [← h id t hl]
    cases status <;> rfl
  · exact h

theorem keyed_edit (h : Keyed s.tasks) : Keyed (s.edit now event).tasks := by
  cases event with
  | taskAdded task => exact h.insert rfl
  | taskUpdated id status => exact keyed_updateTask h id status
  | orchestrationComplete =>
    refine h.mapValues fun t => ?_
    unfold Task.finish
    split <;> rfl
  | _ => exact h

theorem live_edit (h : event.status now = none) :
    (s.edit now event).live = s.live ∧ (s.edit now event).tasks = s.tasks := by
  cases event <;> first
    | exact ⟨rfl, rfl⟩
    | cases h

theorem length_settleLast (messages : List ChatMessage) :
    (settleLast messages).length = messages.length := by
  unfold settleLast
  split
  · rfl
  · rename_i last hlast
    have hpos : 0 < messages.length := List.length_pos_of_mem (List.mem_of_getLast? hlast)
    simp
    omega

theorem length_messages_edit : s.messages.length ≤ (s.edit now event).messages.length := by
  cases event with
  | planReady sandboxes taskCount agentCount mode => simp [edit]
  | agentChunk chunk =>
    show _ ≤ (addChunk now chunk s.messages).length
    unfold addChunk
    split
    · simp
      omega
    · simp
  | agentMessage content => simp [edit, length_settleLast]
  | orchestrationComplete => exact (length_settleLast _).ge
  | orchestrationFailed err => simp [edit]
  | taskUpdated id status =>
    show _ ≤ (s.updateTask now id status).messages.length
    unfold updateTask
    split <;> exact le_rfl
  | _ => exact le_rfl

theorem live_handleBridgeEvent :
    (s.handleBridgeEvent now order event).live = (s.edit now event).live ∧
      (s.handleBridgeEvent now order event).tasks = (s.edit now event).tasks ∧
      (s.handleBridgeEvent now order event).currentSessionId = s.currentSessionId := by
  unfold AppState.handleBridgeEvent
  dsimp only
  split
  · exact ⟨rfl, rfl, currentSessionId_edit⟩
  · split
    · exact ⟨live_syncCurrentSession, tasks_syncCurrentSession, by
        rw [currentSessionId_syncCurrentSession, currentSessionId_edit]⟩
    · rename_i status _
      obtain ⟨hlive, htasks, hid⟩ := recordUsageForCurrent_frame
        (s := (s.edit now event).syncCurrentSession now order _ _) now status
      exact ⟨hlive.trans live_syncCurrentSession, htasks.trans tasks_syncCurrentSession, by
        rw [hid, currentSessionId_syncCurrentSession, currentSessionId_edit]⟩

theorem mem_sessions_handleBridgeEvent {id : SessionId} (h : id ∈ s.sessions) :
    id ∈ (s.handleBridgeEvent now order event).sessions := by
  rw [sessions_handleBridgeEvent]
  split
  · exact h
  · unfold syncCurrentSession
    split
    · rw [sessions_edit]
      exact h
    · rw [AList.mem_insert, sessions_edit]
      exact .inr h

theorem Current.handleBridgeEvent (h : s.Current) : (s.handleBridgeEvent now order event).Current := by
  unfold AppState.handleBridgeEvent
  dsimp only
  split
  · rename_i hstatus
    obtain ⟨hlive, htasks⟩ := live_edit (s := s) hstatus
    refine ⟨htasks ▸ h.keyed, fun id r hcur hl => ?_⟩
    rw [currentSessionId_edit] at hcur
    rw [sessions_edit] at hl
    rw [hlive]
    exact h.record id r hcur hl
  · split
    · exact current_syncCurrentSession (keyed_edit h.keyed)
    · exact Current.usage (current_syncCurrentSession (keyed_edit h.keyed)) _

/-- `delete_session_local`: the record goes with the history. -/
def deleteSessionLocal (id : SessionId) : AppState :=
  { s with
    sessionHistory := s.sessionHistory.filter fun item => item.id ≠ id
    sessions := s.sessions.erase id }

end AppState

end Mowis.Desktop
