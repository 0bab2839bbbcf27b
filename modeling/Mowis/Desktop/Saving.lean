import Mowis.Desktop.Commands

/-!
# Saving the state, lock by lock

The commands and the event handler of the desktop application that change its state and save it,
with `save_state`, `sync_current_session` and `record_usage_for_current` of
`mowis-desktop/src-tauri/src/state.rs`: every lock that is taken, every file that is written and
every renaming is one step, and the steps of all that is under way interleave.

The two files hold texts: what was written in full decodes to what was encoded, and anything else to
the default state.
-/

namespace Mowis.Desktop

open Mowis.Lib

inductive Field where
  | config
  | current
  | sessions
  | history
  | usage
  deriving DecidableEq, Repr

def Field.Agree : Field → PersistedState → PersistedState → Prop
  | .config, p, q => p.config = q.config
  | .current, p, q => p.currentSessionId = q.currentSessionId
  | .sessions, p, q => p.sessions = q.sessions
  | .history, p, q => p.sessionHistory = q.sessionHistory
  | .usage, p, q => p.usageHistory = q.usageHistory

/-- `p` with the field of `q`. -/
def Field.copy (p q : PersistedState) : Field → PersistedState
  | .config => { p with config := q.config }
  | .current => { p with currentSessionId := q.currentSessionId }
  | .sessions => { p with sessions := q.sessions }
  | .history => { p with sessionHistory := q.sessionHistory }
  | .usage => { p with usageHistory := q.usageHistory }

/-- The live fields, as `sync_current_session` collects them. -/
structure Live where
  messages : List ChatMessage
  tasks : HashMap String Task
  tokensTotal : ℕ
  toolCallsTotal : ℕ

inductive LiveField where
  | messages
  | tasks
  | tokensTotal
  | toolCallsTotal

def LiveField.copy (l : Live) (s : AppState) : LiveField → Live
  | .messages => { l with messages := s.messages }
  | .tasks => { l with tasks := s.tasks }
  | .tokensTotal => { l with tokensTotal := s.tokensTotal }
  | .toolCallsTotal => { l with toolCallsTotal := s.toolCallsTotal }

def Live.within (l : Live) (s : AppState) : AppState :=
  { s with
    messages := l.messages
    tasks := l.tasks
    tokensTotal := l.tokensTotal
    toolCallsTotal := l.toolCallsTotal }

/-- A change of one live field. -/
inductive Touch where
  | messages (f : List ChatMessage → List ChatMessage)
  | tasks (f : HashMap String Task → HashMap String Task)
  | tokensTotal (f : ℕ → ℕ)
  | toolCallsTotal (f : ℕ → ℕ)

def Touch.apply (s : AppState) : Touch → AppState
  | .messages f => { s with messages := f s.messages }
  | .tasks f => { s with tasks := f s.tasks }
  | .tokensTotal f => { s with tokensTotal := f s.tokensTotal }
  | .toolCallsTotal f => { s with toolCallsTotal := f s.toolCallsTotal }

/-- One step of an operation: a lock, a file, or what comes next. -/
inductive Instr where
  | touch (t : Touch)
  /-- `send_message` goes on where a session is current. -/
  | needCurrent
  | setConfig (config : Config)
  | setCurrent (id : Option SessionId)
  /-- The record of a new session, with the messages of the moment. -/
  | putSession (id : SessionId) (summary : SessionSummary)
  /-- `upsert_history`, and after it a sort where `sorted`. -/
  | list (summary : SessionSummary) (sorted : Bool)
  /-- `delete_session`, and the first half of `delete_session_local`. -/
  | delete (id : SessionId)
  | unlist (id : SessionId)
  | dropSession (id : SessionId)
  /-- `load_session` finds the record, or fails. -/
  | load (id : SessionId)
  /-- `sync_current_session` asks for the current session. -/
  | sync (now : ℕ) (order : IterOrder Task) (status : Option String)
      (completedAt : Option (Option ℕ))
  | fetch (field : LiveField)
  /-- It brings the record up to date. -/
  | record (id : SessionId) (now : ℕ) (order : IterOrder Task) (status : Option String)
      (completedAt : Option (Option ℕ))
  /-- `record_usage_for_current`: the current session, its record, the line. -/
  | usage (now : ℕ) (status : String)
  | usageOf (id : SessionId) (now : ℕ) (status : String)
  | putUsage (usage : UsageRecord)
  /-- `save_state` reads a field; then the file beside the state file is written and renamed. -/
  | read (field : Field)
  | write
  | rename
  /-- Where the renaming failed and there is a state file, that is removed first. -/
  | remove
  | renameAgain
  /-- An error is logged here, and goes no further. -/
  | caught

def saveProgram : List Instr :=
  [.read .config, .read .current, .read .sessions, .read .history, .read .usage, .write, .rename]

/-- `sync_current_session` where session `id` is current. -/
def syncProgram (id : SessionId) (now : ℕ) (order : IterOrder Task) (status : Option String)
    (completedAt : Option (Option ℕ)) : List Instr :=
  [.fetch .messages, .fetch .tasks, .fetch .tokensTotal, .fetch .toolCallsTotal,
    .record id now order status completedAt] ++ saveProgram

/-- `load_session` with the record it has found. -/
def loadProgram (id : SessionId) (r : SessionRecord) : List Instr :=
  [.setCurrent (some id), .touch (.messages fun _ => r.messages),
    .touch (.tasks fun _ => tasksById r.tasks), .touch (.tokensTotal fun _ => r.tokensTotal),
    .touch (.toolCallsTotal fun _ => r.toolCallsTotal)] ++ saveProgram

def BridgeEvent.touches (now : ℕ) : BridgeEvent → List Touch
  | .planReady sandboxes taskCount agentCount mode =>
    [.messages fun ms => ms ++ [.plan sandboxes taskCount agentCount mode now]]
  | .taskAdded task => [.tasks fun ts => ts.insert task.id task]
  | .taskUpdated id status => [.tasks fun ts =>
      match ts.lookup id with
      | some t => ts.insert id (t.setStatus now status)
      | none => ts]
  | .agentChunk chunk => [.messages (addChunk now chunk)]
  | .agentMessage content => [.messages fun ms => settleLast ms ++ [.agent content false now]]
  | .orchestrationComplete =>
    [.messages settleLast, .tasks (HashMap.mapValues (Task.finish now))]
  | .orchestrationFailed err => [.messages fun ms => ms ++ [.error err now]]
  | .simulationTick _ _ tokensDelta => [.tokensTotal (· + tokensDelta), .toolCallsTotal (· + 1)]
  | _ => []

inductive Operation where
  | saveConfig (config : Config)
  | startSession (now : ℕ) (id : SessionId) (prompt mode : String)
  | sendMessage (now : ℕ) (message : String)
  | stopSession (now : ℕ) (order : IterOrder Task)
  | loadSession (id : SessionId)
  | clearCurrentSession
  | deleteSession (id : SessionId)
  | deleteSessionLocal (id : SessionId)
  | event (now : ℕ) (order : IterOrder Task) (event : BridgeEvent)

def startSummary (now : ℕ) (id : SessionId) (prompt mode : String) : SessionSummary where
  id := id
  prompt := shorten prompt
  status := "running"
  startedAt := now
  completedAt := none
  taskCount := 0
  tasksDone := 0
  tokensTotal := 0
  durationSecs := none
  mode := some mode

def emptied : List Instr :=
  [.touch (.messages fun _ => []), .touch (.tasks fun _ => ∅), .touch (.tokensTotal fun _ => 0),
    .touch (.toolCallsTotal fun _ => 0)]

def Operation.program : Operation → List Instr
  | .saveConfig config => .setConfig config :: saveProgram
  | .startSession now id prompt mode =>
    .setCurrent (some id) :: emptied ++ [.touch (.messages fun ms => ms ++ [.user prompt now]),
      .putSession id (startSummary now id prompt mode),
      .list (startSummary now id prompt mode) false] ++ saveProgram
  | .sendMessage now message =>
    [.needCurrent, .touch (.messages fun ms => ms ++ [.user message now])]
  | .stopSession now order =>
    [.touch (.messages fun ms => ms ++ [.system "Session stopped." now]),
      .sync now order (some "stopped") (some (some now)), .usage now "stopped"] ++ saveProgram
  | .loadSession id => [.load id]
  | .clearCurrentSession => .setCurrent none :: emptied ++ saveProgram
  | .deleteSession id => .delete id :: saveProgram
  | .deleteSessionLocal id => [.unlist id, .dropSession id] ++ saveProgram
  | .event now order e => (e.touches now).map .touch ++
    match e.status now with
    | none => []
    | some (status, completedAt) => [.sync now order (some status) completedAt, .caught] ++
      match e.usage with
      | none => []
      | some status => .usage now status :: saveProgram ++ [.caught]

/-- What an operation still has to do, and what it has collected. -/
structure Worker where
  program : List Instr
  live : Live
  snapshot : PersistedState

def Worker.begin (program : List Instr) : Worker := ⟨program, ⟨[], ∅, 0, 0⟩, .default⟩

/-- A file's text: the encoding of a state, or one that does not decode. -/
abbrev FileText := Option PersistedState

/-- The state in memory, the state file with the file written beside it, and the operations under
way.  `deleted` is kept for what is said of runs. -/
structure Storage where
  mem : AppState
  tmp : Option FileText
  file : Option FileText
  workers : List Worker
  deleted : List SessionId

/-- An error: what comes next is what follows the place where it is caught, if there is one. -/
def afterError (rest : List Instr) : List Instr :=
  (rest.dropWhile fun i => match i with
    | .caught => false
    | _ => true).tail

namespace Storage

variable (s : Storage)

/-- `load_persisted_state`. -/
def decoded : PersistedState := (s.file.bind id).getD .default

def fresh : Storage := ⟨.new .default, none, none, [], []⟩

/-- One step of the operation `w`; `ok` says whether a call on a file succeeds. -/
def exec (w : Worker) (rest : List Instr) (ok : Bool) : Instr → Storage × Worker
  | .touch t => ({ s with mem := t.apply s.mem }, { w with program := rest })
  | .needCurrent =>
    (s, { w with program := if s.mem.currentSessionId.isSome then rest else [] })
  | .setConfig config =>
    ({ s with mem := { s.mem with config := config } }, { w with program := rest })
  | .setCurrent id =>
    ({ s with mem := { s.mem with currentSessionId := id } }, { w with program := rest })
  | .putSession id summary =>
    ({ s with mem := { s.mem with
        sessions := s.mem.sessions.insert id ⟨summary, s.mem.messages, [], 0, 0⟩ } },
      { w with program := rest })
  | .list summary sorted =>
    let history := upsertHistory s.mem.sessionHistory summary
    ({ s with mem := { s.mem with
        sessionHistory := if sorted then sortByKey SessionSummary.startedAt history else history } },
      { w with program := rest })
  | .delete id => ({ s with mem := s.mem.deleteSession id, deleted := id :: s.deleted },
      { w with program := rest })
  | .unlist id => ({ s with mem := s.mem.deleteSession id }, { w with program := rest })
  | .dropSession id =>
    ({ s with mem := { s.mem with sessions := s.mem.sessions.erase id } }, { w with program := rest })
  | .load id =>
    match s.mem.sessions.lookup id with
    | none => (s, { w with program := [] })
    | some r => (s, { w with program := loadProgram id r ++ rest })
  | .sync now order status completedAt =>
    match s.mem.currentSessionId with
    | none => (s, { w with program := saveProgram ++ rest })
    | some id => (s, { w with program := syncProgram id now order status completedAt ++ rest })
  | .fetch field => (s, { w with program := rest, live := field.copy w.live s.mem })
  | .record id now order status completedAt =>
    let collected := w.live.within s.mem
    let r := collected.updatedRecord now order status completedAt
      ((s.mem.sessions.lookup id).getD (collected.freshRecord now id))
    ({ s with mem := { s.mem with sessions := s.mem.sessions.insert id r } },
      { w with program := .list r.summary true :: rest })
  | .usage now status =>
    match s.mem.currentSessionId with
    | none => (s, { w with program := rest })
    | some id => (s, { w with program := .usageOf id now status :: rest })
  | .usageOf id now status =>
    match s.mem.sessions.lookup id with
    | none => (s, { w with program := rest })
    | some r =>
      let usage : UsageRecord :=
        { sessionId := id
          promptShort := r.summary.prompt
          ts := r.summary.completedAt.getD now
          taskCount := r.summary.taskCount
          tokens := r.tokensTotal
          toolCalls := r.toolCallsTotal
          durationSecs := now - r.summary.startedAt
          status := status }
      (s, { w with program := .putUsage usage :: rest })
  | .putUsage usage =>
    ({ s with mem := { s.mem with
        usageHistory := sortByKey UsageRecord.ts
          (upsert UsageRecord.sessionId usage s.mem.usageHistory) } }, { w with program := rest })
  | .read field =>
    (s, { w with program := rest, snapshot := field.copy w.snapshot s.mem.persisted })
  | .write =>
    if ok then ({ s with tmp := some (some w.snapshot) }, { w with program := rest })
    else ({ s with tmp := some none }, { w with program := afterError rest })
  | .rename =>
    if ok && s.tmp.isSome then ({ s with file := s.tmp, tmp := none }, { w with program := rest })
    else if s.file.isSome then (s, { w with program := .remove :: .renameAgain :: rest })
    else (s, { w with program := afterError rest })
  | .remove =>
    if ok then ({ s with file := none }, { w with program := rest })
    else (s, { w with program := afterError rest })
  | .renameAgain =>
    if ok && s.tmp.isSome then ({ s with file := s.tmp, tmp := none }, { w with program := rest })
    else (s, { w with program := afterError rest })
  | .caught => (s, { w with program := rest })

end Storage

inductive StorageAction where
  | begin (op : Operation)
  /-- The operation at a position does its next step. -/
  | run (i : ℕ) (ok : Bool)
  /-- The application is left when all is done, and started again. -/
  | restart

namespace Storage

variable (s : Storage)

def Idle : Prop := ∀ w ∈ s.workers, w.program = []

instance : Decidable s.Idle :=
  decidable_of_iff (s.workers.all (fun w => w.program.isEmpty) = true) (by simp [Idle])

def step : StorageAction → Option Storage
  | .begin op => some { s with workers := s.workers ++ [.begin op.program] }
  | .run i ok =>
    match s.workers[i]? with
    | some w =>
      match w.program with
      | instr :: rest =>
        let (s', w') := s.exec w rest ok instr
        some { s' with workers := s.workers.set i w' }
      | [] => none
    | none => none
  | .restart => if s.Idle then some { s with mem := .new s.decoded, workers := [] } else none

end Storage

/-- Lock by lock the handler does to the fields of a session what `AppState.edit` says. -/
theorem exec_touches (s : AppState) (now : ℕ) {event : BridgeEvent} (h : event.status now ≠ none) :
    (event.touches now).foldl Touch.apply s = s.edit now event := by
  cases event with
  | taskUpdated id status =>
    cases hl : s.tasks.lookup id <;>
      simp [BridgeEvent.touches, Touch.apply, AppState.edit, AppState.updateTask, hl]
  | planReady _ _ _ _ | taskAdded _ | agentChunk _ | agentMessage _ | orchestrationComplete
  | orchestrationFailed _ | simulationTick _ _ _ => rfl
  | _ => exact absurd rfl h

/-- The first `n` steps of an operation, undisturbed. -/
def Storage.alone : ℕ → Storage → Worker → Storage × Worker
  | 0, s, w => (s, w)
  | n + 1, s, w =>
    match w.program with
    | [] => (s, w)
    | instr :: rest => alone n (s.exec w rest true instr).1 (s.exec w rest true instr).2

/-- Undisturbed, the steps of a synchronisation up to its save do what `syncCurrentSession` says. -/
theorem alone_sync (s : Storage) (w : Worker) {id : SessionId} {now : ℕ} {order : IterOrder Task}
    {status : Option String} {completedAt : Option (Option ℕ)} {rest : List Instr}
    (hid : s.mem.currentSessionId = some id)
    (hw : w.program = .sync now order status completedAt :: rest) :
    (Storage.alone 7 s w).1.mem = s.mem.syncCurrentSession now order status completedAt ∧
      (Storage.alone 7 s w).2.program = saveProgram ++ rest := by
  have hstart : s.exec w rest true (.sync now order status completedAt) =
      (s, { w with program := syncProgram id now order status completedAt ++ rest }) := by
    rw [Storage.exec, hid]
  rw [Storage.alone, hw]
  dsimp only
  rw [hstart]
  refine ⟨?_, rfl⟩
  unfold AppState.syncCurrentSession
  split
  · rename_i hnone
    rw [hid] at hnone
    cases hnone
  · rename_i id' hid'
    obtain rfl := Option.some.inj (hid.symm.trans hid')
    rfl

theorem alone_save (s : Storage) (w : Worker) {rest : List Instr}
    (hw : w.program = saveProgram ++ rest) :
    (Storage.alone 7 s w).1.decoded = s.mem.persisted ∧ (Storage.alone 7 s w).2.program = rest := by
  rw [Storage.alone, hw]
  exact ⟨rfl, rfl⟩

end Mowis.Desktop
