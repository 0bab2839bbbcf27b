import Mowis.Lib.Execution
import Mowis.Planning.Findable

/-!
# One captain at a time

A captain is spawned by each call of `start_build` that finds a plan, and runs as a task of its
own.  The Conductor keeps no account of the captains that run; when each of them ends is given by
`Ends`, and may be at any moment.
-/

namespace Mowis.Planning

open Mowis.Lib
open Mowis.Review (Json)
open Mowis.Orchestration (PlanId TaskNode ToolCall ConvMessage AgentRoundResult)

/-- `ends j = some k` says that captain `j` ends before captain `k` is spawned, and not before an
earlier one. -/
abbrev Ends := ℕ → Option ℕ

/-- Captain `j` has ended when captain `k` is spawned. -/
def Ends.By (ends : Ends) (j k : ℕ) : Prop := ∃ e, ends j = some e ∧ e ≤ k

/-- Each of the first `n` captains is spawned when all before it have ended. -/
def Exclusive (ends : Ends) (n : ℕ) : Prop := ∀ k < n, ∀ j < k, ends.By j k

def Conductor.Alone (ends : Ends) (c : Conductor) : Prop := Exclusive ends c.dispatches.length

theorem exclusive_add {ends : Ends} {n m : ℕ} (h : Exclusive ends n) :
    Exclusive ends (n + m) ↔ ∀ k < m, ∀ j < n + k, ends.By j (n + k) := by
  constructor
  · intro hall k hk j hj
    exact hall (n + k) (Nat.add_lt_add_left hk n) j hj
  · intro hnew k hk j hj
    rcases Nat.lt_or_ge k n with hold | hge
    · exact h k hold j hj
    · obtain ⟨i, rfl⟩ := Nat.exists_eq_add_of_le hge
      exact hnew i (Nat.lt_of_add_lt_add_left hk) j hj

theorem Exclusive.of_le {ends : Ends} {n m : ℕ} (h : Exclusive ends m) (hle : n ≤ m) :
    Exclusive ends n := fun k hk => h k (hk.trans_le hle)

def startCalls (calls : List ToolCall) : ℕ := calls.countP fun tc => tc.name = "start_build"

namespace Setup

variable (setup : Setup)

/-- The replies of `turnLoop` with tool calls, each with the state in which these are executed. -/
def toolReplies (script : TurnScript) :
    ℕ → ℕ → Conductor → List ConvMessage → String → List (Conductor × List ToolCall)
  | 0, _, _, _, _ => []
  | n + 1, i, c, later, finalText =>
    match script.round i with
    | .error _ => []
    | .ok round =>
      let c₁ := (c.request later).hear round.text
      let finalText := keepText finalText round.text
      if round.toolCalls.isEmpty then []
      else
        let c₂ := setup.draftInline c₁ finalText round.toolCalls (script.draft i)
        let (c₃, results) := executeTools script i 0 round.toolCalls c₂
        (c₂, round.toolCalls) ::
          if dispatchedIn results then []
          else
            toolReplies script n (i + 1) c₃
              (later ++ [.assistantToolCalls round.toolCalls,
                .toolResults (results.map fun r => (r.1.id, r.1.name, r.2))]) finalText

def takesTurn (c : Conductor) (script : MessageScript) : Bool :=
  match c.currentPlan with
  | none => true
  | some _ =>
    match setup.classifyMessage script.classifier with
    | .error _ => true
    | .ok output =>
      match output.decision with
      | .informational => true
      | .hotPatch => output.task.isNone
      | .scopeChange | .newPlan => false

def executed (c : Conductor) : Op → List (Conductor × List ToolCall)
  | .userMessage msg script =>
    let c := receive c msg script.digest
    if setup.takesTurn c script then
      match setup.conductorModel with
      | .error _ => []
      | .ok _ => setup.toolReplies script.turn turnRounds 0 c [] ""
    else []
  | _ => []

end Setup

/-- When there is a plan, every call of `start_build` comes after the captains before it have
ended, those of the same reply among them. -/
def ReplyOk (ends : Ends) (c : Conductor) (calls : List ToolCall) : Prop :=
  c.currentPlan.isSome = true → ∀ k < startCalls calls, ∀ j < c.dispatches.length + k,
    ends.By j (c.dispatches.length + k)

def OpOk (setup : Setup) (ends : Ends) (c : Conductor) (op : Op) : Prop :=
  ∀ r ∈ setup.executed c op, ReplyOk ends r.1 r.2

section Reply

variable {setup : Setup} {c : Conductor} {script : TurnScript} {ends : Ends}

theorem currentPlan_executeConductorTool (i index : ℕ) (tc : ToolCall) (c : Conductor) :
    (Setup.executeConductorTool script i index tc c).1.currentPlan = c.currentPlan := by
  unfold Setup.executeConductorTool Setup.executeStartBuild
  split
  · split <;> rfl
  · split <;> rfl

theorem length_executeConductorTool (i index : ℕ) (tc : ToolCall) (c : Conductor) :
    (Setup.executeConductorTool script i index tc c).1.dispatches.length =
      c.dispatches.length +
        if c.currentPlan.isSome = true ∧ tc.name = "start_build" then 1 else 0 := by
  unfold Setup.executeConductorTool Setup.executeStartBuild
  by_cases hname : tc.name = "start_build"
  · rw [if_pos hname]
    cases hplan : c.currentPlan <;> simp [hname]
  · have hnone : ¬ (c.currentPlan.isSome = true ∧ tc.name = "start_build") := fun h => hname h.2
    rw [if_neg hname, if_neg hnone]
    split <;> rfl

/-- The tools of a reply spawn a captain for each call of `start_build`, when there is a plan. -/
theorem length_executeTools (i : ℕ) (calls : List ToolCall) (index : ℕ) (c : Conductor) :
    (Setup.executeTools script i index calls c).1.dispatches.length =
      c.dispatches.length + if c.currentPlan.isSome then startCalls calls else 0 := by
  induction calls generalizing index c with
  | nil => simp [Setup.executeTools, startCalls]
  | cons tc rest ih =>
    have hcons : (Setup.executeTools script i index (tc :: rest) c).1 =
        (Setup.executeTools script i (index + 1) rest
          (Setup.executeConductorTool script i index tc c).1).1 := rfl
    rw [hcons, ih, currentPlan_executeConductorTool, length_executeConductorTool]
    cases c.currentPlan with
    | none => simp
    | some planId =>
      rw [startCalls, startCalls, List.countP_cons]
      by_cases hname : tc.name = "start_build"
      · simp only [hname, Option.isSome_some, true_and, if_true, decide_true]
        omega
      · simp [hname]

theorem exclusive_executeTools (i : ℕ) (calls : List ToolCall)
    (h : Exclusive ends c.dispatches.length) :
    Exclusive ends (Setup.executeTools script i 0 calls c).1.dispatches.length ↔
      ReplyOk ends c calls := by
  rw [length_executeTools]
  unfold ReplyOk
  cases c.currentPlan with
  | none => simpa using h
  | some planId => simpa using exclusive_add h

theorem dispatches_savePlan (p : PlanRecord) (fate : SaveFate) (c : Conductor) :
    (setup.savePlan p fate c).1.dispatches = c.dispatches := by
  unfold Setup.savePlan
  split <;> rfl

theorem dispatches_draftInline (finalText : String) (calls : List ToolCall) (draft : Draft)
    (c : Conductor) : (setup.draftInline c finalText calls draft).dispatches = c.dispatches := by
  unfold Setup.draftInline
  split
  · have hsave : (setup.savePlan (Setup.draftRecord draft (Setup.lastText c) finalText
        (responseTasks setup.host.toml finalText)) draft.fate c).1.dispatches = c.dispatches :=
      dispatches_savePlan _ _ _
    unfold Setup.draftPlanFromResponse
    split
    · next c' planId heq =>
      rw [heq] at hsave
      exact hsave
    · next c' e heq =>
      rw [heq] at hsave
      exact hsave
  · rfl

theorem dispatches_ask (c : Conductor) (reply : Except String String) :
    (setup.ask c reply).1.dispatches = c.dispatches := by
  unfold Setup.ask
  split
  · rfl
  · split <;> rfl

theorem length_le_turnLoop (n i : ℕ) (c : Conductor) (later : List ConvMessage)
    (finalText : String) :
    c.dispatches.length ≤ (setup.turnLoop script n i c later finalText).1.dispatches.length := by
  induction n generalizing i c later finalText with
  | zero => exact le_rfl
  | succ n ih =>
    rw [Setup.turnLoop]
    cases hround : script.round i with
    | error e => exact le_rfl
    | ok round =>
      dsimp only
      split
      · exact le_rfl
      · have hlength : c.dispatches.length ≤ (Setup.executeTools script i 0 round.toolCalls
            (setup.draftInline ((c.request later).hear round.text)
              (Setup.keepText finalText round.text) round.toolCalls
              (script.draft i))).1.dispatches.length := by
          rw [length_executeTools, dispatches_draftInline]
          exact Nat.le_add_right _ _
        split
        · exact hlength
        · exact hlength.trans (ih _ _ _ _)

theorem exclusive_turnLoop (n i : ℕ) (c : Conductor) (later : List ConvMessage)
    (finalText : String) (h : Exclusive ends c.dispatches.length) :
    Exclusive ends (setup.turnLoop script n i c later finalText).1.dispatches.length ↔
      ∀ r ∈ setup.toolReplies script n i c later finalText, ReplyOk ends r.1 r.2 := by
  induction n generalizing i c later finalText with
  | zero => exact iff_of_true h (List.forall_mem_nil _)
  | succ n ih =>
    rw [Setup.turnLoop, Setup.toolReplies]
    cases hround : script.round i with
    | error e => exact iff_of_true h (List.forall_mem_nil _)
    | ok round =>
      dsimp only
      split
      · exact iff_of_true h (List.forall_mem_nil _)
      · have hbefore : Exclusive ends (setup.draftInline ((c.request later).hear round.text)
            (Setup.keepText finalText round.text) round.toolCalls
            (script.draft i)).dispatches.length := by
          rw [dispatches_draftInline]
          exact h
        rw [List.forall_mem_cons, ← exclusive_executeTools i round.toolCalls hbefore]
        split
        · exact (and_iff_left (List.forall_mem_nil _)).symm
        · constructor
          · intro hall
            have hafter := hall.of_le (length_le_turnLoop _ _ _ _ _)
            exact ⟨hafter, (ih _ _ _ _ hafter).mp hall⟩
          · rintro ⟨hafter, hrest⟩
            exact (ih _ _ _ _ hafter).mpr hrest

end Reply

section Operation

variable {setup : Setup} {c : Conductor} {ends : Ends}

theorem dispatches_adopt (drafted : Conductor × Except String PlanId)
    (reply : PlanId → ConductorReply) :
    (Setup.adopt drafted reply).1.dispatches = drafted.1.dispatches := by
  unfold Setup.adopt
  split <;> rfl

theorem dispatches_draftPlan (userMsg : String) (reply : Except String String) (draft : Draft)
    (c : Conductor) : (setup.draftPlan c userMsg reply draft).1.dispatches = c.dispatches := by
  have hask : (setup.ask c reply).1.dispatches = c.dispatches := dispatches_ask c reply
  unfold Setup.draftPlan
  split
  · next c' e heq =>
    rw [heq] at hask
    exact hask
  · next c' response heq =>
    rw [heq] at hask
    exact (dispatches_savePlan _ _ _).trans hask

theorem dispatches_normalTurn (msg : String) (script : MessageScript) (c : Conductor) :
    (setup.normalTurn c msg script).1.dispatches =
      (setup.conversationalTurn c script.turn).1.dispatches := by
  unfold Setup.normalTurn
  rcases setup.conversationalTurn c script.turn with ⟨c', e | ⟨reply, dispatched⟩⟩
  · rfl
  · cases dispatched with
    | true => rfl
    | false =>
      dsimp only
      split
      · exact (dispatches_adopt _ _).trans (dispatches_savePlan _ _ _)
      · rfl

theorem dispatches_chatTurn (script : TurnScript) (c : Conductor) :
    (setup.chatTurn c script).1.dispatches = (setup.conversationalTurn c script).1.dispatches := by
  unfold Setup.chatTurn
  rcases setup.conversationalTurn c script with ⟨c', e | ⟨reply, _ | _⟩⟩ <;> rfl

theorem dispatches_handleUserMessage (msg : String) (script : MessageScript) :
    (setup.handleUserMessage c msg script).1.dispatches =
      if setup.takesTurn (Setup.receive c msg script.digest) script then
        (setup.conversationalTurn (Setup.receive c msg script.digest) script.turn).1.dispatches
      else c.dispatches := by
  have hreceive : (Setup.receive c msg script.digest).dispatches = c.dispatches := by
    unfold Setup.receive
    split <;> rfl
  rw [Setup.handleUserMessage, Setup.takesTurn]
  cases (Setup.receive c msg script.digest).currentPlan with
  | none => exact dispatches_normalTurn msg script _
  | some oldPlan =>
    cases setup.classifyMessage script.classifier with
    | error e => exact dispatches_normalTurn msg script _
    | ok output =>
      cases hdecision : output.decision with
      | informational =>
        simp only [hdecision]
        exact dispatches_chatTurn script.turn _
      | hotPatch =>
        simp only [hdecision]
        cases output.task with
        | none => exact dispatches_normalTurn msg script _
        | some info => exact hreceive
      | scopeChange =>
        simp only [hdecision]
        exact ((dispatches_adopt _ _).trans (dispatches_draftPlan _ _ _ _)).trans hreceive
      | newPlan =>
        simp only [hdecision]
        exact ((dispatches_adopt _ _).trans (dispatches_draftPlan _ _ _ _)).trans hreceive

theorem dispatches_handleCriticVerdict (planId : PlanId) (verdict : Verdict)
    (script : ReviseScript) :
    (setup.handleCriticVerdict c planId verdict script).1.dispatches = c.dispatches := by
  unfold Setup.handleCriticVerdict
  cases verdict with
  | approve => rfl
  | block reason => rfl
  | revise issues =>
    dsimp only
    split
    · rfl
    · split
      · rfl
      · have hask : (setup.ask (c.push .system (Setup.fixPrompt issues))
            script.reply).1.dispatches = c.dispatches := dispatches_ask _ _
        split
        · next heq =>
          rw [heq] at hask
          exact hask
        · next heq =>
          rw [heq] at hask
          exact hask

theorem dispatches_announceCompletion (builtSummary : String) (reply : Except String String) :
    (setup.announceCompletion c builtSummary reply).1.dispatches = c.dispatches := by
  have hask : (setup.ask (c.push .system (Setup.completionText builtSummary))
      reply).1.dispatches = c.dispatches := dispatches_ask _ _
  unfold Setup.announceCompletion
  split
  · next heq =>
    rw [heq] at hask
    exact hask
  · next heq =>
    rw [heq] at hask
    exact hask

theorem dispatches_materializeTaskAsPlan (task : TaskNode) (draft : Draft) :
    (setup.materializeTaskAsPlan c task draft).1.dispatches = c.dispatches := by
  have hsave : (setup.savePlan (Setup.taskRecord task draft) draft.fate c).1.dispatches =
      c.dispatches := dispatches_savePlan _ _ _
  unfold Setup.materializeTaskAsPlan
  split
  · next heq =>
    rw [heq] at hsave
    exact hsave
  · next heq =>
    rw [heq] at hsave
    exact hsave

/-- **One operation.** -/
theorem exclusive_step (op : Op) (h : Exclusive ends c.dispatches.length) :
    Exclusive ends (setup.step c op).dispatches.length ↔ OpOk setup ends c op := by
  cases op with
  | userMessage msg script =>
    have hreceive : (Setup.receive c msg script.digest).dispatches = c.dispatches := by
      unfold Setup.receive
      split <;> rfl
    rw [Setup.step, dispatches_handleUserMessage, OpOk, Setup.executed]
    split
    · rw [Setup.conversationalTurn]
      cases setup.conductorModel with
      | error e =>
        rw [hreceive]
        exact iff_of_true h (List.forall_mem_nil _)
      | ok model =>
        refine exclusive_turnLoop Setup.turnRounds 0 _ [] "" ?_
        rw [hreceive]
        exact h
    · exact iff_of_true h (List.forall_mem_nil _)
  | criticVerdict planId verdict script =>
    rw [Setup.step, dispatches_handleCriticVerdict]
    exact iff_of_true h (List.forall_mem_nil _)
  | announceCompletion builtSummary reply =>
    rw [Setup.step, dispatches_announceCompletion]
    exact iff_of_true h (List.forall_mem_nil _)
  | materializeTask task draft =>
    rw [Setup.step, dispatches_materializeTaskAsPlan]
    exact iff_of_true h (List.forall_mem_nil _)

end Operation

/-- **The Conductor and its captains.**  Whenever captains end, each is spawned when all before it
have ended if and only if every reply that is executed is as `ReplyOk` says. -/
theorem alone_iff (setup : Setup) (ends : Ends) (disk : Disk) {past : List (Conductor × Op)}
    {c : Conductor}
    (h : Execution (fun c op => some (setup.step c op)) (.start disk) past c) :
    ((∀ e ∈ past, e.1.Alone ends) ∧ c.Alone ends) ↔ ∀ e ∈ past, OpOk setup ends e.1 e.2 := by
  have hstart : (Conductor.start disk).Alone ends := nofun
  refine h.good_iff (I := fun _ => True) trivial (fun _ _ _ _ _ => trivial) hstart ?_
  rintro c op _ - hbefore ⟨⟩
  exact exclusive_step op hbefore

def startBuildCall : ToolCall := ⟨"call_1", "start_build", .object []⟩

/-- A message that the classifier does not understand, and one reply with these calls. -/
def callsMessage (calls : List ToolCall) : MessageScript where
  digest := ""
  classifier := .error "overloaded"
  rand := 0
  turn := ⟨fun _ => .ok ⟨none, calls, ⟨0, 0⟩⟩, fun _ _ => .null, fun _ => notesDraft⟩
  draft := notesDraft
  draftReply := .error "overloaded"

/-- One call, and one captain. -/
theorem alone_of_call : ∃ past c,
    Execution (fun c op => some ((planSetup draftPlansDir notesToml).step c op)) (.start ∅) past c ∧
      c.dispatches.length = 1 ∧ c.Alone fun _ => none := by
  have hstart : Execution (fun c op => some ((planSetup draftPlansDir notesToml).step c op))
    (.start ∅) [] (.start ∅) := .start
  have hrun := (hstart.next (a := .materializeTask notesTask notesDraft) rfl).next
    (a := .userMessage "go ahead" (callsMessage [startBuildCall])) rfl
  refine ⟨_, _, hrun, rfl, ((alone_iff _ _ _ hrun).mpr ?_).2⟩
  intro e he
  rcases List.mem_cons.mp he with rfl | he
  · intro r hr
    cases List.mem_singleton.mp hr
    intro _ k hk j hj
    cases Nat.lt_one_iff.mp hk
    cases hj
  · rw [List.mem_singleton.mp he]
    exact nofun

/-- Two calls in one reply, and neither captain ends. -/
theorem not_alone : ¬ ∀ (setup : Setup) (ends : Ends) (disk : Disk) past c,
    Execution (fun c op => some (setup.step c op)) (.start disk) past c → c.Alone ends := by
  intro hall
  have hstart : Execution (fun c op => some ((planSetup draftPlansDir notesToml).step c op))
    (.start ∅) [] (.start ∅) := .start
  have hrun := (hstart.next (a := .materializeTask notesTask notesDraft) rfl).next
    (a := .userMessage "go ahead" (callsMessage [startBuildCall, startBuildCall])) rfl
  have halone := hall _ (fun _ => none) _ _ _ hrun
  obtain ⟨e, he, -⟩ := halone 1 (show 1 < 2 by decide) 0 (by decide)
  cases he

end Mowis.Planning
