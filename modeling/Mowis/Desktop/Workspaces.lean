import Mowis.Lib.Execution
import Mowis.Desktop.Commands
import Mowis.Desktop.Turn

/-!
# Where the turns of a session work

The commands on sessions with what they send to the bridge (`mowis-desktop/src-tauri/src/commands.rs`
and the command handler of `bridge_loop.rs`): a command becomes known to the bridge some time after
it was given, the turns it starts wait for the stored orchestration in any order, and of the turns
one at a time holds it.
-/

namespace Mowis.Desktop

open Mowis.Lib

inductive BridgeCommand where
  | startOrchestration (req : TurnRequest)
  | stopOrchestration

/-- The context that `start_session` resolves: no project in zero mode or with a blank path, and the
copy in a sandbox where one is made. -/
def resolveContext (cfg : Config) (mode projectPath : Option String)
    (created : Except String String) : Option String :=
  if mode.getD cfg.mode = "zero" then none
  else
    match projectPath.filter fun path => !(trim path.toList).isEmpty with
    | none => none
    | some path =>
      if cfg.sandboxEnabled then
        match created with
        | .ok upperDir => some upperDir
        | .error _ => some path
      else some path

/-- The application and its bridge.  `chosen`, `ran` and `displaced` are kept for what is said of
runs: the workspaces that sessions were started with, those that turns ran in, and whether a turn
of another session has taken the place of the current one's orchestration. -/
structure Hub where
  app : AppState
  orch : Option OrchSession
  starting : ℕ
  sending : List BridgeCommand
  channel : List BridgeCommand
  waiting : List TurnRequest
  chosen : SessionId → String
  ran : List (SessionId × String)
  displaced : Bool

inductive HubAction where
  /-- `start_session` drops the stored orchestration. -/
  | dropOrch
  /-- It makes its session current; `saved` says whether the state could be saved. -/
  | startSession (now : ℕ) (id : SessionId) (prompt : String) (mode projectPath : Option String)
      (created : Except String String) (saved : Bool)
  | sendMessage (now : ℕ) (message : String)
  | stopSession (now : ℕ) (order : IterOrder Task)
  | loadSession (id : SessionId)
  /-- A command that was given reaches the channel. -/
  | enqueue (i : ℕ)
  /-- The handler takes a command from the channel. -/
  | receive
  /-- A turn that waits gets the orchestration, and holds it to its end. -/
  | turn (i : ℕ) (fate : TurnFate) (reception : Reception)

namespace Hub

variable (h : Hub)

def start (persisted : PersistedState) (chosen : SessionId → String) : Hub where
  app := .new persisted
  orch := none
  starting := 0
  sending := []
  channel := []
  waiting := []
  chosen := chosen
  ran := []
  displaced := false

/-- No session has this id, no turn has run for it, and no orchestration is stored for it. -/
def Unused (id : SessionId) : Prop :=
  id ∉ h.app.sessions ∧ (∀ e ∈ h.ran, e.1 ≠ id) ∧ h.orch.all (fun s => s.sessionId ≠ id) = true

instance (id : SessionId) : Decidable (h.Unused id) :=
  inferInstanceAs (Decidable (_ ∧ _ ∧ _))

/-- The stored orchestration is that of the current session, and the turn is of another. -/
def displaces (req : TurnRequest) : Bool :=
  match h.orch with
  | some s => h.app.currentSessionId = some s.sessionId && s.sessionId ≠ req.sessionId
  | none => false

def step (m : Machine) : HubAction → Option Hub
  | .dropOrch => some { h with orch := none, starting := h.starting + 1 }
  | .startSession now id prompt mode projectPath created saved =>
    if h.starting = 0 ∨ ¬ h.Unused id then none
    else
      let context := resolveContext h.app.config mode projectPath created
      some { h with
        app := h.app.startSession now id prompt mode
        starting := h.starting - 1
        sending := if saved then
          h.sending ++ [.startOrchestration ⟨id, prompt, h.app.config, context⟩] else h.sending
        chosen := Function.update h.chosen id (m.workspaceOf id context) }
  | .sendMessage now message =>
    match h.app.currentSessionId, h.app.sendMessage now message with
    | some id, .ok app => some { h with
        app := app
        sending := h.sending ++ [.startOrchestration ⟨id, message, h.app.config, none⟩] }
    | _, _ => some h
  | .stopSession now order => some { h with
      app := h.app.stopSession now order
      sending := h.sending ++ [.stopOrchestration] }
  | .loadSession id =>
    match h.app.loadSession id with
    | .ok app => some { h with app := app }
    | .error _ => some h
  | .enqueue i =>
    match h.sending[i]? with
    | some cmd => some { h with sending := h.sending.eraseIdx i, channel := h.channel ++ [cmd] }
    | none => none
  | .receive =>
    match h.channel with
    | .startOrchestration req :: rest =>
      some { h with channel := rest, waiting := h.waiting ++ [req] }
    | .stopOrchestration :: rest => some { h with
        channel := rest
        orch := h.orch.map fun s => { s with accepting := false } }
    | [] => none
  | .turn i fate reception =>
    match h.waiting[i]? with
    | some req =>
      match m.acquire h.orch req fate with
      | .error _ => some { h with waiting := h.waiting.eraseIdx i }
      | .ok session => some { h with
          orch := (m.runOrchTurn h.orch req fate reception).1
          waiting := h.waiting.eraseIdx i
          ran := (req.sessionId, session.workspace) :: h.ran
          displaced := h.displaced || h.displaces req }
    | none => none

/-- What is promised. -/
structure Kept : Prop where
  workspaces : ∀ e ∈ h.ran, e.2 = h.chosen e.1
  accepting : ∀ s, h.orch = some s → s.accepting = true
  undisplaced : h.displaced = false

/-- The turn makes an orchestration of its own, in a workspace that it finds from its own context. -/
def MakesOwn (req : TurnRequest) : Prop :=
  h.orch.filter (fun s => s.sessionId = req.sessionId) = none

/-- The condition on a step: the bridge hears of a stop only while nothing is stored; a turn that
comes to run is answered; and one that makes an orchestration of its own finds the workspace that
its session was started with, and the place free of the current session's orchestration. -/
def StepOk (m : Machine) : HubAction → Prop
  | .receive => ∀ rest, h.channel = .stopOrchestration :: rest → h.orch = none
  | .turn i fate reception => ∀ req session, h.waiting[i]? = some req →
    m.acquire h.orch req fate = .ok session →
      (∀ deeds, reception ≠ .dropped deeds) ∧
      (h.MakesOwn req → m.workspaceOf req.sessionId req.repoContext = h.chosen req.sessionId ∧
        h.displaces req = false)
  | _ => True

end Hub

/-! ### One step -/

namespace Machine

variable {m : Machine} {stored : Option OrchSession} {req : TurnRequest} {fate : TurnFate}
  {session : OrchSession}

theorem acquire_ok (h : m.acquire stored req fate = .ok session) :
    session.sessionId = req.sessionId ∧
      (stored = some session ∨ stored.filter (fun s => s.sessionId = req.sessionId) = none ∧
        session = ⟨req.sessionId, m.workspaceOf req.sessionId req.repoContext, true⟩) := by
  unfold acquire at h
  split at h
  · cases h
  · split at h
    · rename_i s hs
      obtain rfl := Except.ok.inj h
      obtain ⟨hstored, hid⟩ := Option.filter_eq_some_iff.mp hs
      exact ⟨by simpa using hid, .inl hstored⟩
    · rename_i hnone
      split at h
      · cases h
      · split at h
        · cases h
        · obtain rfl := Except.ok.inj h
          exact ⟨rfl, .inr ⟨hnone, rfl⟩⟩

theorem runOrchTurn_stored (h : m.acquire stored req fate = .ok session) (reception : Reception) :
    (m.runOrchTurn stored req fate reception).1 =
      some (session.sendMessage req.prompt reception).1 := by
  unfold runOrchTurn
  rw [h]

end Machine

theorem OrchSession.sendMessage_frame (session : OrchSession) (prompt : String)
    (reception : Reception) :
    (session.sendMessage prompt reception).1.sessionId = session.sessionId ∧
      (session.sendMessage prompt reception).1.workspace = session.workspace := by
  unfold sendMessage
  split
  · cases reception <;> exact ⟨rfl, rfl⟩
  · exact ⟨rfl, rfl⟩

theorem OrchSession.accepting_sendMessage {session : OrchSession} (h : session.accepting = true)
    (prompt : String) (reception : Reception) :
    (session.sendMessage prompt reception).1.accepting = true ↔
      ∀ deeds, reception ≠ .dropped deeds := by
  unfold sendMessage
  rw [if_pos h]
  cases reception with
  | handled setup c script voice => exact iff_of_true h fun deeds hd => by cases hd
  | dropped deeds => exact iff_of_false Bool.false_ne_true fun hd => hd deeds rfl

namespace Hub

variable {m : Machine} {h h' : Hub}

/-- What holds while every step meets the condition: besides what is promised, the stored
orchestration works where its session was started. -/
structure Sound (h : Hub) : Prop extends h.Kept where
  stored : ∀ s, h.orch = some s → s.workspace = h.chosen s.sessionId

theorem sound_start (persisted : PersistedState) (chosen : SessionId → String) :
    (start persisted chosen).Sound :=
  ⟨⟨List.forall_mem_nil _, (fun s hs => by cases hs), rfl⟩, (fun s hs => by cases hs)⟩

theorem Sound.startSession (hs : h.Sound) {id : SessionId} (hid : h.Unused id) (workspace : String)
    (app : AppState) (starting : ℕ) (sending : List BridgeCommand) :
    Sound { h with
      app := app
      starting := starting
      sending := sending
      chosen := Function.update h.chosen id workspace } := by
  obtain ⟨-, hran, horch⟩ := hid
  refine ⟨⟨fun e he => ?_, hs.accepting, hs.undisplaced⟩, fun s hstored => ?_⟩
  · show e.2 = Function.update h.chosen id workspace e.1
    rw [Function.update_of_ne (hran e he)]
    exact hs.workspaces e he
  · have hne : s.sessionId ≠ id := by
      have hall := horch
      rw [show h.orch = some s from hstored] at hall
      exact of_decide_eq_true hall
    show s.workspace = Function.update h.chosen id workspace s.sessionId
    rw [Function.update_of_ne hne]
    exact hs.stored s hstored

theorem Sound.acquired (hs : h.Sound) {req : TurnRequest} {fate : TurnFate} {session : OrchSession}
    (ha : m.acquire h.orch req fate = .ok session) :
    session.sessionId = req.sessionId ∧ session.accepting = true ∧
      (session.workspace = h.chosen req.sessionId ↔
        (h.MakesOwn req → m.workspaceOf req.sessionId req.repoContext = h.chosen req.sessionId)) := by
  obtain ⟨hid, hstored | ⟨hnone, rfl⟩⟩ := Machine.acquire_ok ha
  · refine ⟨hid, hs.accepting session hstored, iff_of_true (hid ▸ hs.stored session hstored) ?_⟩
    intro hown
    rw [MakesOwn, hstored, Option.filter_some, if_pos (by simpa using hid)] at hown
    cases hown
  · exact ⟨hid, rfl, fun hw _ => hw, fun hw => hw hnone⟩

theorem Sound.turn (hs : h.Sound) {req : TurnRequest} {fate : TurnFate} {session : OrchSession}
    (ha : m.acquire h.orch req fate = .ok session) (reception : Reception)
    (waiting : List TurnRequest) {h' : Hub}
    (hh' : h' = { h with
      orch := (m.runOrchTurn h.orch req fate reception).1
      waiting := waiting
      ran := (req.sessionId, session.workspace) :: h.ran
      displaced := h.displaced || h.displaces req }) :
    (h'.Kept ↔ (∀ deeds, reception ≠ .dropped deeds) ∧
      (h.MakesOwn req → m.workspaceOf req.sessionId req.repoContext = h.chosen req.sessionId ∧
        h.displaces req = false)) ∧ (h'.Kept → h'.Sound) := by
  obtain ⟨hid, haccepting, hworkspace⟩ := hs.acquired ha
  obtain ⟨hid', hworkspace'⟩ := session.sendMessage_frame req.prompt reception
  have horch : h'.orch = some (session.sendMessage req.prompt reception).1 := by
    rw [hh']
    exact Machine.runOrchTurn_stored ha reception
  have hown : h.displaces req = true → h.MakesOwn req := by
    intro hd
    unfold displaces at hd
    unfold MakesOwn
    split at hd
    · rename_i s hstored
      simp only [Bool.and_eq_true, decide_eq_true_eq] at hd
      rw [hstored, Option.filter_some, if_neg (by simpa using hd.2)]
    · cases hd
  constructor
  · constructor
    · intro hk
      have haccepts := hk.accepting _ horch
      have hran : session.workspace = h.chosen req.sessionId := by
        have hall := hk.workspaces
        rw [hh'] at hall
        exact hall _ List.mem_cons_self
      have hdisplaced : (h.displaced || h.displaces req) = false := by
        have hk' := hk.undisplaced
        rw [hh'] at hk'
        exact hk'
      exact ⟨(OrchSession.accepting_sendMessage haccepting req.prompt reception).mp haccepts,
        fun ho => ⟨hworkspace.mp hran ho, (Bool.or_eq_false_iff.mp hdisplaced).2⟩⟩
    · rintro ⟨hanswered, hmakes⟩
      refine ⟨?_, fun s hs' => ?_, ?_⟩
      · rw [hh']
        exact List.forall_mem_cons.mpr ⟨hworkspace.mpr fun ho => (hmakes ho).1, hs.workspaces⟩
      · obtain rfl := Option.some.inj (horch.symm.trans hs')
        exact (OrchSession.accepting_sendMessage haccepting req.prompt reception).mpr hanswered
      · rw [hh']
        refine Bool.or_eq_false_iff.mpr ⟨hs.undisplaced, ?_⟩
        by_contra hd
        have hd' : h.displaces req = true := by simpa using hd
        exact hd (hmakes (hown hd')).2
  · intro hk
    refine ⟨hk, fun s hs' => ?_⟩
    obtain rfl := Option.some.inj (horch.symm.trans hs')
    have hran : session.workspace = h.chosen req.sessionId := by
      have hall := hk.workspaces
      rw [hh'] at hall
      exact hall _ List.mem_cons_self
    rw [hworkspace', hid', hid, hran, hh']

theorem sound_step {a : HubAction} (hs : h.Sound) (hstep : h.step m a = some h') :
    (h'.Kept ↔ h.StepOk m a) ∧ (h'.Kept → h'.Sound) := by
  have hsame : ∀ {app starting sending channel waiting}, Sound { h with
      app := app, starting := starting, sending := sending, channel := channel
      waiting := waiting } :=
    ⟨⟨hs.workspaces, hs.accepting, hs.undisplaced⟩, hs.stored⟩
  have htrivial : ∀ {h' : Hub}, h'.Sound → (h'.Kept ↔ True) ∧ (h'.Kept → h'.Sound) :=
    fun hs' => ⟨iff_true_intro hs'.toKept, fun _ => hs'⟩
  cases a with
  | dropOrch =>
    obtain rfl := Option.some.inj hstep
    exact htrivial ⟨⟨hs.workspaces, (fun s hs' => by cases hs'), hs.undisplaced⟩,
      (fun s hs' => by cases hs')⟩
  | startSession now id prompt mode projectPath created saved =>
    rw [step] at hstep
    split at hstep
    · cases hstep
    · rename_i hguard
      obtain rfl := Option.some.inj hstep
      exact htrivial (hs.startSession (not_not.mp (not_or.mp hguard).2) _ _ _ _)
  | sendMessage now message =>
    rw [step] at hstep
    split at hstep
    · obtain rfl := Option.some.inj hstep
      exact htrivial hsame
    · obtain rfl := Option.some.inj hstep
      exact htrivial hs
  | stopSession now order =>
    obtain rfl := Option.some.inj hstep
    exact htrivial hsame
  | loadSession id =>
    rw [step] at hstep
    split at hstep
    · obtain rfl := Option.some.inj hstep
      exact htrivial hsame
    · obtain rfl := Option.some.inj hstep
      exact htrivial hs
  | enqueue i =>
    rw [step] at hstep
    split at hstep
    · obtain rfl := Option.some.inj hstep
      exact htrivial hsame
    · cases hstep
  | receive =>
    rw [step] at hstep
    split at hstep
    · rename_i req rest hchannel
      obtain rfl := Option.some.inj hstep
      refine ⟨iff_of_true hsame.toKept fun rest' hrest => ?_, fun _ => hsame⟩
      rw [hchannel] at hrest
      cases hrest
    · rename_i rest hchannel
      obtain rfl := Option.some.inj hstep
      cases horch : h.orch with
      | none =>
        have hnone : Sound { h with
            channel := rest
            orch := Option.map (fun s : OrchSession => { s with accepting := false }) none } :=
          ⟨⟨hs.workspaces, (fun s hs' => by cases hs'), hs.undisplaced⟩,
            (fun s hs' => by cases hs')⟩
        exact ⟨iff_of_true hnone.toKept fun _ _ => horch, fun _ => hnone⟩
      | some s =>
        have hdead : ¬ Kept { h with
            channel := rest
            orch := Option.map (fun s : OrchSession => { s with accepting := false }) (some s) } :=
          fun hk => Bool.false_ne_true (hk.accepting _ rfl)
        refine ⟨iff_of_false hdead fun hok => ?_, fun hk => absurd hk hdead⟩
        rw [hok rest hchannel] at horch
        cases horch
    · cases hstep
  | turn i fate reception =>
    rw [step] at hstep
    split at hstep
    · rename_i req hwaiting
      split at hstep
      · rename_i e hacquire
        obtain rfl := Option.some.inj hstep
        refine ⟨iff_of_true hsame.toKept fun req' session hreq ha => ?_, fun _ => hsame⟩
        obtain rfl := Option.some.inj (hwaiting.symm.trans hreq)
        rw [hacquire] at ha
        cases ha
      · rename_i session hacquire
        obtain ⟨hiff, hsound⟩ := hs.turn hacquire reception _ (Option.some.inj hstep).symm
        refine ⟨hiff.trans ⟨fun hok req' session' hreq ha => ?_, fun hok => hok req session hwaiting
          hacquire⟩, hsound⟩
        obtain rfl := Option.some.inj (hwaiting.symm.trans hreq)
        exact hok
    · cases hstep

end Hub

open Hub

/-- **Sessions keep workspace and conductor exactly where** the bridge hears of no stop while an
orchestration is stored, every turn that comes to run is answered, and every turn that makes an
orchestration of its own finds the workspace its session was started with, while no orchestration
of the then current session is stored. -/
theorem workspaces_kept_iff (m : Machine) (persisted : PersistedState) (chosen : SessionId → String)
    {past : List (Hub × HubAction)} {h : Hub}
    (hrun : Execution (fun h a => Hub.step h m a) (.start persisted chosen) past h) :
    ((∀ e ∈ past, e.1.Kept) ∧ h.Kept) ↔ ∀ e ∈ past, e.1.StepOk m e.2 := by
  refine @Execution.sound_iff _ _ _ _ _ _ Sound Kept (fun h a => h.StepOk m a) hrun
    (sound_start persisted chosen) ?_ (fun _ hs => hs.toKept) ?_
  · intro c a c' hs hok hstep
    obtain ⟨hiff, hsound⟩ := sound_step hs hstep
    exact hsound (hiff.mpr hok)
  · intro c a c' hs hno hstep hk
    exact hno ((sound_step hs hstep).1.mp hk)

section

variable {m : Machine} {h : Hub} {i : ℕ} {fate : TurnFate} {reception : Reception}
  {req : TurnRequest}

theorem stepOk_start {rest : List BridgeCommand}
    (hchannel : h.channel = .startOrchestration req :: rest) : h.StepOk m .receive := by
  intro rest' hrest
  rw [hchannel] at hrest
  cases hrest

theorem stepOk_again {s : OrchSession} (hwaiting : h.waiting[i]? = some req)
    (hstored : h.orch = some s) (hid : s.sessionId = req.sessionId)
    (hanswered : ∀ deeds, reception ≠ .dropped deeds) : h.StepOk m (.turn i fate reception) := by
  intro req' session hreq _
  obtain rfl := Option.some.inj (hwaiting.symm.trans hreq)
  refine ⟨hanswered, fun hown => ?_⟩
  rw [MakesOwn, hstored, Option.filter_some, if_pos (by simpa using hid)] at hown
  cases hown

theorem stepOk_own (hwaiting : h.waiting[i]? = some req) (hstored : h.orch = none)
    (hworkspace : m.workspaceOf req.sessionId req.repoContext = h.chosen req.sessionId)
    (hanswered : ∀ deeds, reception ≠ .dropped deeds) : h.StepOk m (.turn i fate reception) := by
  intro req' session hreq _
  obtain rfl := Option.some.inj (hwaiting.symm.trans hreq)
  refine ⟨hanswered, fun _ => ⟨hworkspace, ?_⟩⟩
  rw [displaces, hstored]

end

def home : Machine := ⟨"/data", fun _ => none⟩

def wellFate : TurnFate := ⟨.ok ⟨∅, ∅⟩, .ok (), .ok ()⟩

def answered : Reception :=
  .handled ⟨⟨id, ⟨fun _ => .error "", fun _ => .error "", ⟨fun _ => .error "", fun _ => .error ""⟩,
      ⟨fun _ => .error "", fun _ => .error ""⟩, ⟨fun _ => .error "", fun _ => .error ""⟩,
      ⟨fun _ => .error "", fun _ => .error ""⟩⟩, ""⟩, ⟨∅, ∅⟩, .ok, "plans", fun _ => none⟩
    (.start ∅) ⟨"", .error "", 0, ⟨fun _ => .error "offline", fun _ _ => .null,
      fun _ => ⟨"p", "now", ⟨0, ""⟩⟩⟩, ⟨"p", "now", ⟨0, ""⟩⟩, .error ""⟩ ⟨fun _ => [], ⟨0, 0⟩⟩

def firstTurn (now : ℕ) (id : SessionId) (project : Option String) : List HubAction :=
  [.dropOrch, .startSession now id "write a parser" none project (.error "no overlayfs") true,
    .enqueue 0, .receive, .turn 0 wellFate answered]

/-- A session in a project, with a second message. -/
theorem workspaces_kept : ∃ past h, Execution (fun h a => Hub.step h home a)
    (.start .default fun _ => "") past h ∧ h.ran = [("A", "/src"), ("A", "/src")] ∧
      (∀ e ∈ past, e.1.Kept) ∧ h.Kept := by
  have hrun : Execution.runActions (fun h a => Hub.step h home a)
      (firstTurn 1 "A" (some "/src") ++ [.sendMessage 2 "go on", .enqueue 0, .receive,
        .turn 0 wellFate answered]) [] (.start .default fun _ => "") = some (_, _) := rfl
  refine ⟨_, _, .ofRun .start hrun, rfl, (workspaces_kept_iff home _ _ (.ofRun .start hrun)).mpr ?_⟩
  have hanswered : ∀ deeds, answered ≠ .dropped deeds := fun deeds hd => by cases hd
  exact List.forall_mem_cons.mpr ⟨stepOk_again rfl rfl rfl hanswered,
    List.forall_mem_cons.mpr ⟨stepOk_start rfl,
      List.forall_mem_cons.mpr ⟨trivial, List.forall_mem_cons.mpr ⟨trivial,
        List.forall_mem_cons.mpr ⟨stepOk_own rfl rfl rfl hanswered,
          List.forall_mem_cons.mpr ⟨stepOk_start rfl,
            List.forall_mem_cons.mpr ⟨trivial, List.forall_mem_cons.mpr ⟨trivial,
              List.forall_mem_cons.mpr ⟨trivial, List.forall_mem_nil _⟩⟩⟩⟩⟩⟩⟩⟩⟩

/-- **A dead conductor stays registered**: after a stop the stored orchestration of the session takes
no more commands. -/
theorem dead_conductor_kept : ¬ ∀ (m : Machine) (persisted : PersistedState) (chosen : SessionId → String)
    (past : List (Hub × HubAction)) (h : Hub),
    Execution (fun h a => Hub.step h m a) (.start persisted chosen) past h → h.Kept := by
  intro hclaim
  have hrun : Execution.runActions (fun h a => Hub.step h home a)
      (firstTurn 1 "A" (some "/src") ++ [.stopSession 2 .stored, .enqueue 0, .receive]) []
      (.start .default fun _ => "") = some (_, _) := rfl
  exact Bool.false_ne_true ((hclaim home .default _ _ _ (.ofRun .start hrun)).accepting _ rfl)

end Mowis.Desktop
