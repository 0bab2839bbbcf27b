import Mowis.Lib.Execution
import Mowis.Desktop.Commands
import Mowis.Orchestration.Plan

/-!
# What the desktop records of a build

A session from its start to the end of a build: `SimpleCaptain::run` of `captain.rs` with its crews
(`crew.rs`), anyone else's events, and every event delivered through `dispatch` and the handler.  A
crew that fails or panics tells nothing, and one that is done tells it under its agent id.
-/

namespace Mowis.Desktop

open Mowis.Lib
open Mowis.Review (Overflow addU32)
open Mowis.Orchestration (TaskId PlanId CrewEnd)

inductive PlanEnd where
  | completed
  | failed
  deriving DecidableEq

def agentIdOf (planId : PlanId) (t : TaskId) : String := planId ++ "-" ++ t

structure BuildRun where
  planId : PlanId
  line : Line
  started : List TaskId
  ended : HashMap TaskId CrewEnd
  /-- Input and output tokens, as reported by anyone. -/
  reports : List (UInt32 × UInt32)
  /-- Reports of tokens and of the captain's status. -/
  ticks : ℕ
  /-- The tool calls the crews have made. -/
  calls : ℕ
  verdict : Option PlanEnd

inductive BuildAction where
  | captainStarted
  | crewStarted (t : TaskId)
  | tokensUsed (agentId : String) (inputTokens outputTokens : UInt32)
  | statusUpdate (inFlight completed : ℕ)
  /-- A crew deals with a tool call: it makes it or blocks it, and may tell so. -/
  | toolCall (t : TaskId) (made : Bool) (told : Option (String × String × Bool))
  | crewEnds (t : TaskId) (crewEnd : CrewEnd)
  | merged (t : TaskId)
  /-- An event that tells of no crew, no tokens and no end of a plan. -/
  | other (event : OrchEvent)
  | planCompleted
  | planFailed (reason : String)

def OrchEvent.foreign : OrchEvent → Bool
  | .crewStarted _ _ _ | .crewDone _ _ _ | .crewFailed _ _ _ | .planCompleted _ | .planFailed _ _
  | .tokensUsed _ _ _ | .captainStatusUpdate _ _ => false
  | _ => true

namespace BuildRun

variable (mode : Overflow) (b : BuildRun)

def start (persisted : PersistedState) (now : ℕ) (id : SessionId) (prompt : String)
    (sessionMode : Option String) (planId : PlanId) : BuildRun where
  planId := planId
  line := ⟨(AppState.new persisted).startSession now id prompt sessionMode, true⟩
  started := []
  ended := ∅
  reports := []
  ticks := 0
  calls := 0
  verdict := none

def tell (now : ℕ) (order : IterOrder Task) (event : OrchEvent) : BuildRun :=
  { b with line := b.line.deliver mode now order event }

def working (t : TaskId) : Bool := decide (t ∈ b.started) && (b.ended.lookup t).isNone

def noneFailed : Bool :=
  b.started.all fun t =>
    match b.ended.lookup t with
    | some crewEnd => !crewEnd.isFailure
    | none => false

/-- What the crew of `t` tells when it ends: its success only. -/
def lastWord (t : TaskId) : CrewEnd → Option OrchEvent
  | .returned (.ok (.done _ summary _)) => some (.crewDone b.planId (agentIdOf b.planId t) summary)
  | _ => none

/-- One event, with the time and the order of the tasks at the synchronisations it causes. -/
def step (e : ℕ × IterOrder Task × BuildAction) : Option BuildRun :=
  if b.verdict.isSome then none
  else
    match e with
    | (now, order, .captainStarted) =>
      some (b.tell mode now order (.captainStarted b.planId ("conv-" ++ b.planId)))
    | (now, order, .crewStarted t) =>
      if t ∈ b.started then none
      else some { b.tell mode now order (.crewStarted b.planId t (agentIdOf b.planId t)) with
        started := t :: b.started }
    | (now, order, .tokensUsed agentId inputTokens outputTokens) =>
      some { b.tell mode now order (.tokensUsed agentId inputTokens outputTokens) with
        reports := (inputTokens, outputTokens) :: b.reports
        ticks := b.ticks + 1 }
    | (now, order, .statusUpdate inFlight completed) =>
      some { b.tell mode now order (.captainStatusUpdate inFlight completed) with
        ticks := b.ticks + 1 }
    | (now, order, .toolCall t made told) =>
      if b.working t then
        let b' := match told with
          | some (text, toolName, success) =>
            b.tell mode now order (.crewToolSummary (agentIdOf b.planId t) text toolName success)
          | none => b
        some { b' with calls := if made then b.calls + 1 else b.calls }
      else none
    | (now, order, .crewEnds t crewEnd) =>
      if b.working t then
        let b' := match b.lastWord t crewEnd with
          | some event => b.tell mode now order event
          | none => b
        some { b' with ended := b.ended.insert t crewEnd }
      else none
    | (now, order, .merged t) =>
      some (b.tell mode now order (.mergeCompleted b.planId (agentIdOf b.planId t)))
    | (now, order, .other event) =>
      if event.foreign then some (b.tell mode now order event) else none
    | (now, order, .planCompleted) =>
      if b.noneFailed then
        some { b.tell mode now order (.planCompleted b.planId) with verdict := some .completed }
      else none
    | (now, order, .planFailed reason) =>
      some { b.tell mode now order (.planFailed b.planId reason) with verdict := some .failed }

def Done (t : TaskId) : Prop := ∃ crewEnd, b.ended.lookup t = some crewEnd ∧ crewEnd.isDone = true

def Failed (t : TaskId) : Prop :=
  ∃ crewEnd, b.ended.lookup t = some crewEnd ∧ crewEnd.isFailure = true

def reported : ℕ := (b.reports.map fun r => r.1.toNat + r.2.toNat).sum

def Truthful (id : SessionId) : Prop :=
  ∃ r, b.line.app.sessions.lookup id = some r ∧
    (∀ task ∈ r.tasks, (task.status = .complete ↔ b.Done task.id) ∧
      (task.status = .failed ↔ b.Failed task.id)) ∧
    r.tokensTotal = b.reported ∧ r.toolCallsTotal = b.calls

/-- No sum of reported tokens reaches `2^32`. -/
def SumsFit : Prop := ∀ r ∈ b.reports, r.1.toNat + r.2.toNat < 2 ^ 32

/-- The sums of tokens fit, there were as many reports as tool calls, and of the crews, none
panicked where the plan completed, and all that ended panicked where it failed. -/
def FitsRecord (planEnd : PlanEnd) : Prop :=
  b.SumsFit ∧ b.ticks = b.calls ∧
    ∀ t crewEnd, b.ended.lookup t = some crewEnd →
      (crewEnd.isPanic = true ↔ planEnd = .failed)

end BuildRun

def AppState.tally (s : AppState) : HashMap String Task × ℕ × ℕ :=
  (s.tasks, s.tokensTotal, s.toolCallsTotal)

def BridgeEvent.quiet : BridgeEvent → Bool
  | .taskAdded _ | .taskUpdated _ _ | .orchestrationComplete | .simulationTick _ _ _ => false
  | _ => true

namespace AppState

variable {s : AppState} {now : ℕ} {order : IterOrder Task} {event : BridgeEvent}

theorem tally_handleBridgeEvent :
    (s.handleBridgeEvent now order event).tally = (s.edit now event).tally := by
  obtain ⟨hlive, htasks, -⟩ := @live_handleBridgeEvent s now order event
  rw [tally, tally, htasks]
  have htokens : (s.handleBridgeEvent now order event).tokensTotal =
      (s.edit now event).tokensTotal := congrArg Content.tokensTotal hlive
  have hcalls : (s.handleBridgeEvent now order event).toolCallsTotal =
      (s.edit now event).toolCallsTotal := congrArg Content.toolCallsTotal hlive
  rw [htokens, hcalls]

theorem tally_edit_quiet (h : event.quiet = true) : (s.edit now event).tally = s.tally := by
  cases event <;> first
    | rfl
    | cases h

end AppState

namespace Line

variable {l : Line} {mode : Overflow} {now : ℕ} {order : IterOrder Task}

theorem tally_handleAll_quiet (events : List BridgeEvent) (h : ∀ e ∈ events, e.quiet = true)
    (app : AppState) : (handleAll now order app events).tally = app.tally := by
  induction events generalizing app with
  | nil => rfl
  | cons e events ih =>
    obtain ⟨he, hrest⟩ := List.forall_mem_cons.mp h
    show (handleAll now order (app.handleBridgeEvent now order e) events).tally = _
    rw [ih hrest, AppState.tally_handleBridgeEvent, AppState.tally_edit_quiet he]

theorem dispatch_foreign (mode : Overflow) (now : ℕ) {event : OrchEvent} (h : event.foreign = true) :
    ∃ events, dispatch mode now event = some events ∧ ∀ e ∈ events, e.quiet = true := by
  cases event with
  | conductorReply kind text =>
    by_cases htext : text = ""
    · cases kind <;> simp [dispatch, htext, BridgeEvent.quiet]
    · cases kind <;> simp [dispatch, htext, BridgeEvent.quiet]
  | crewStarted _ _ _ | crewDone _ _ _ | crewFailed _ _ _ | planCompleted _ | planFailed _ _
  | tokensUsed _ _ _ | captainStatusUpdate _ _ => cases h
  | _ => simp [dispatch, BridgeEvent.quiet]

variable (mode now order)

theorem deliver_foreign {event : OrchEvent} (h : event.foreign = true) :
    (l.deliver mode now order event).alive = l.alive ∧
      (l.deliver mode now order event).app.tally = l.app.tally := by
  obtain ⟨events, hevents, hquiet⟩ := dispatch_foreign mode now h
  unfold deliver
  split
  · rw [hevents]
    exact ⟨rfl, tally_handleAll_quiet events hquiet l.app⟩
  · exact ⟨rfl, rfl⟩

variable {now order} in
theorem tally_handleAll_cons {event : BridgeEvent} {rest : List BridgeEvent}
    (hrest : ∀ e ∈ rest, e.quiet = true) (app : AppState) :
    (handleAll now order app (event :: rest)).tally = (app.edit now event).tally :=
  (tally_handleAll_quiet rest hrest _).trans AppState.tally_handleBridgeEvent

/-- Where the forwarder is alive, an event of which `dispatch` makes one bridge event that matters
has the effect of that one. -/
theorem deliver_cons (event : OrchEvent) {first : BridgeEvent} {rest : List BridgeEvent}
    (halive : l.alive = true) (hd : dispatch mode now event = some (first :: rest))
    (hrest : ∀ e ∈ rest, e.quiet = true) :
    (l.deliver mode now order event).alive = true ∧
      (l.deliver mode now order event).app.tally = (l.app.edit now first).tally := by
  unfold deliver
  rw [if_pos halive, hd]
  exact ⟨halive, tally_handleAll_cons hrest l.app⟩

theorem deliver_dead (event : OrchEvent) (h : l.alive = false) :
    l.deliver mode now order event = l := by
  unfold deliver
  rw [if_neg (by rw [h]; exact Bool.false_ne_true)]

/-- The session is current, and its record lacks at most what its user wrote. -/
structure Kept (l : Line) (id : SessionId) : Prop where
  current : l.app.Current
  currentId : l.app.currentSessionId = some id
  record : id ∈ l.app.sessions

theorem Kept.deliver {id : SessionId} (h : l.Kept id) (event : OrchEvent) :
    (l.deliver mode now order event).Kept id := by
  have hall : ∀ (events : List BridgeEvent) (app : AppState), Kept ⟨app, true⟩ id →
      Kept ⟨handleAll now order app events, true⟩ id := by
    intro events
    induction events with
    | nil => exact fun app happ => happ
    | cons e events ih =>
      intro app happ
      refine ih (app.handleBridgeEvent now order e) ⟨happ.current.handleBridgeEvent, ?_, ?_⟩
      · rw [(AppState.live_handleBridgeEvent (s := app)).2.2]
        exact happ.currentId
      · exact AppState.mem_sessions_handleBridgeEvent happ.record
  unfold Line.deliver
  split
  · split
    · rename_i events _
      have := hall events l.app ⟨h.current, h.currentId, h.record⟩
      exact ⟨this.current, this.currentId, this.record⟩
    · exact ⟨h.current, h.currentId, h.record⟩
  · exact h

end Line

theorem addU32_spec (mode : Overflow) (a b : UInt32) :
    match addU32 mode a b with
    | some total => total.toNat ≤ a.toNat + b.toNat ∧
        (total.toNat = a.toNat + b.toNat ↔ a.toNat + b.toNat < 2 ^ 32)
    | none => 2 ^ 32 ≤ a.toNat + b.toNat := by
  have hadd : (a + b).toNat = (a.toNat + b.toNat) % 2 ^ 32 := UInt32.toNat_add a b
  cases mode with
  | wraps =>
    show (a + b).toNat ≤ _ ∧ _
    rw [hadd]
    omega
  | panics =>
    unfold addU32
    dsimp only
    by_cases h : a.toNat + b.toNat < 2 ^ 32
    · rw [if_pos h]
      show (a + b).toNat ≤ _ ∧ _
      rw [hadd]
      omega
    · rw [if_neg h]
      exact not_lt.mp h

/-! ### The invariant of a build -/

namespace BuildRun

variable {mode : Overflow} {b b' : BuildRun} {id : SessionId}

/-- While the plan is under way. -/
structure Tracks (id : SessionId) (b : BuildRun) : Prop where
  kept : b.line.Kept id
  begun : ∀ t crewEnd, b.ended.lookup t = some crewEnd → t ∈ b.started
  /-- Tokens are lost by a sum that does not fit, and only so. -/
  tokens : ∃ lost, b.line.app.tokensTotal + lost = b.reported ∧ (lost = 0 ↔ b.SumsFit)
  dead : b.line.alive = false → ¬ b.SumsFit
  ticks : b.line.alive = true → b.line.app.toolCallsTotal = b.ticks
  listed : b.line.alive = true → ∀ t, t ∈ b.line.app.tasks ↔ t ∈ b.started
  /-- A task is completed by another task's crew that reports under its id. -/
  status : b.line.alive = true → ∀ t task, b.line.app.tasks.lookup t = some task →
    task.status = .running ∨
      task.status = .complete ∧ ∃ v, b.Done v ∧ agentIdOf b.planId v = t

theorem tracks_start (persisted : PersistedState) (now : ℕ) (id : SessionId) (prompt : String)
    (sessionMode : Option String) (planId : PlanId) :
    Tracks id (start persisted now id prompt sessionMode planId) where
  kept := ⟨.startSession now id prompt sessionMode, rfl, (AList.mem_insert _).mpr (.inl rfl)⟩
  begun := fun t crewEnd h => by cases h
  tokens := ⟨0, rfl, iff_of_true rfl (List.forall_mem_nil _)⟩
  dead := fun h => by cases h
  ticks := fun _ => rfl
  listed := fun _ t => iff_of_false (AList.notMem_empty t) (List.not_mem_nil)
  status := fun _ t task h => by cases h

theorem Tracks.line (h : Tracks id b) {l : Line} (hkept : l.Kept id)
    (halive : l.alive = b.line.alive) (htally : l.app.tally = b.line.app.tally) :
    Tracks id { b with line := l } := by
  obtain ⟨htasks, htokens, hcalls⟩ : l.app.tasks = b.line.app.tasks ∧
      l.app.tokensTotal = b.line.app.tokensTotal ∧
      l.app.toolCallsTotal = b.line.app.toolCallsTotal := by
    simpa only [AppState.tally, Prod.mk.injEq] using htally
  refine ⟨hkept, h.begun, ?_, fun hd => h.dead (halive ▸ hd), fun ha => ?_, fun ha => ?_,
    fun ha => ?_⟩
  · show ∃ lost, l.app.tokensTotal + lost = _ ∧ _
    rw [htokens]
    exact h.tokens
  · exact hcalls.trans (h.ticks (halive ▸ ha))
  · show ∀ t, t ∈ l.app.tasks ↔ _
    rw [htasks]
    exact h.listed (halive ▸ ha)
  · show ∀ t task, l.app.tasks.lookup t = some task → _
    rw [htasks]
    exact h.status (halive ▸ ha)

theorem Tracks.foreign (h : Tracks id b) (now : ℕ) (order : IterOrder Task) {event : OrchEvent}
    (hf : event.foreign = true) : Tracks id (b.tell mode now order event) := by
  obtain ⟨halive, htally⟩ := Line.deliver_foreign (l := b.line) mode now order hf
  exact h.line (h.kept.deliver mode now order event) halive htally

theorem Tracks.crewStarted (h : Tracks id b) (now : ℕ) (order : IterOrder Task) (t : TaskId) :
    Tracks id { b.tell mode now order (.crewStarted b.planId t (agentIdOf b.planId t)) with
      started := t :: b.started } := by
  have hkept := h.kept.deliver mode now order
    (.crewStarted b.planId t (agentIdOf b.planId t))
  by_cases halive : b.line.alive = true
  · obtain ⟨halive', htally⟩ := Line.deliver_cons (l := b.line) mode now order
      (.crewStarted b.planId t (agentIdOf b.planId t)) halive rfl
      (by simp [BridgeEvent.quiet])
    simp only [AppState.tally, AppState.edit, Prod.mk.injEq] at htally
    obtain ⟨htasks, htokens, hcalls⟩ := htally
    refine ⟨hkept, fun u e he => List.mem_cons_of_mem _ (h.begun u e he), ?_, fun hd => ?_,
      fun _ => hcalls.trans (h.ticks halive), fun _ u => ?_, fun _ u task hl => ?_⟩
    · show ∃ lost, (b.line.deliver mode now order _).app.tokensTotal + lost = _ ∧ _
      rw [htokens]
      exact h.tokens
    · exact absurd (halive'.symm.trans hd) (by decide)
    · show u ∈ (b.line.deliver mode now order _).app.tasks ↔ _
      rw [htasks, AList.mem_insert, h.listed halive u, List.mem_cons]
      rfl
    · rw [tell, htasks, HashMap.lookup_insert_eq_ite] at hl
      split at hl
      · obtain rfl := Option.some.inj hl
        exact .inl rfl
      · exact h.status halive u task hl
  · have hdead : b.line.alive = false := by simpa using halive
    have hline := Line.deliver_dead mode now order
      (.crewStarted b.planId t (agentIdOf b.planId t)) hdead
    unfold tell
    rw [hline]
    exact ⟨h.kept, fun u e he => List.mem_cons_of_mem _ (h.begun u e he), h.tokens, h.dead,
      fun ha => absurd ha halive, fun ha => absurd ha halive, fun ha => absurd ha halive⟩

theorem Tracks.ends (h : Tracks id b) {t : TaskId} (hw : b.working t = true) (crewEnd : CrewEnd) :
    Tracks id { b with ended := b.ended.insert t crewEnd } := by
  obtain ⟨hstarted, hnone⟩ : t ∈ b.started ∧ b.ended.lookup t = none := by
    simpa [working] using hw
  refine ⟨h.kept, fun u e he => ?_, h.tokens, h.dead, h.ticks, h.listed, fun ha u task hl => ?_⟩
  · rw [HashMap.lookup_insert_eq_ite] at he
    split at he
    · rename_i hu
      rw [hu]
      exact hstarted
    · exact h.begun u e he
  · refine (h.status ha u task hl).imp_right fun ⟨hc, v, ⟨e, he, hd⟩, hv⟩ =>
      ⟨hc, v, ⟨e, ?_, hd⟩, hv⟩
    have hvt : v ≠ t := by
      rintro rfl
      rw [hnone] at he
      cases he
    exact (AList.lookup_insert_ne hvt).trans he

theorem Tracks.crewDone (h : Tracks id b) (mode : Overflow) (now : ℕ) (order : IterOrder Task)
    {t : TaskId} (hdone : b.Done t) (summary : String) :
    Tracks id (b.tell mode now order (.crewDone b.planId (agentIdOf b.planId t) summary)) := by
  have hkept := h.kept.deliver mode now order
    (.crewDone b.planId (agentIdOf b.planId t) summary)
  by_cases halive : b.line.alive = true
  · obtain ⟨halive', htally⟩ := Line.deliver_cons (l := b.line) mode now order
      (.crewDone b.planId (agentIdOf b.planId t) summary) halive rfl
      (by simp [BridgeEvent.quiet])
    change _ = (b.line.app.updateTask now (agentIdOf b.planId t) .complete).tally at htally
    cases hl : b.line.app.tasks.lookup (agentIdOf b.planId t) with
    | none =>
      rw [AppState.updateTask, hl] at htally
      exact h.line hkept (halive'.trans halive.symm) htally
    | some task₀ =>
      rw [AppState.updateTask, hl] at htally
      simp only [AppState.tally, Prod.mk.injEq] at htally
      obtain ⟨htasks, htokens, hcalls⟩ := htally
      refine ⟨hkept, h.begun, ?_, fun hd => ?_, fun _ => hcalls.trans (h.ticks halive),
        fun _ u => ?_, fun _ u task hu => ?_⟩
      · show ∃ lost, (b.line.deliver mode now order _).app.tokensTotal + lost = _ ∧ _
        rw [htokens]
        exact h.tokens
      · exact absurd (halive'.symm.trans hd) (by decide)
      · show u ∈ (b.line.deliver mode now order _).app.tasks ↔ u ∈ b.started
        have hmem : agentIdOf b.planId t ∈ b.line.app.tasks :=
          AList.lookup_isSome.mp (by rw [hl]; rfl)
        rw [htasks, AList.mem_insert, ← h.listed halive u]
        constructor
        · rintro (rfl | hu)
          · exact hmem
          · exact hu
        · exact .inr
      · rw [tell, htasks, HashMap.lookup_insert_eq_ite] at hu
        split at hu
        · rename_i hut
          obtain rfl := Option.some.inj hu
          exact .inr ⟨rfl, t, hdone, hut.symm⟩
        · exact h.status halive u task hu
  · have hdead : b.line.alive = false := by simpa using halive
    rw [tell, Line.deliver_dead mode now order _ hdead]
    exact h

theorem Tracks.tokensUsed (h : Tracks id b) (now : ℕ) (order : IterOrder Task) (agentId : String)
    (i o : UInt32) :
    Tracks id { b.tell mode now order (.tokensUsed agentId i o) with
      reports := (i, o) :: b.reports
      ticks := b.ticks + 1 } := by
  have hkept := h.kept.deliver mode now order (.tokensUsed agentId i o)
  obtain ⟨lost, hsum, hlost⟩ := h.tokens
  have hspec := addU32_spec mode i o
  have hreported : ∀ b' : BuildRun, b'.reports = (i, o) :: b.reports →
      b'.reported = i.toNat + o.toNat + b.reported := by
    intro b' hb'
    rw [reported, hb']
    rfl
  have hfit : ∀ b' : BuildRun, b'.reports = (i, o) :: b.reports →
      (b'.SumsFit ↔ i.toNat + o.toNat < 2 ^ 32 ∧ b.SumsFit) := by
    intro b' hb'
    rw [SumsFit, hb']
    exact List.forall_mem_cons
  by_cases halive : b.line.alive = true
  · cases hadd : addU32 mode i o with
    | some total =>
      rw [hadd] at hspec
      obtain ⟨hle, hexact⟩ := hspec
      have hd : dispatch mode now (.tokensUsed agentId i o) =
          some [.simulationTick 0 1 total.toNat] := by
        rw [dispatch, hadd]
        rfl
      obtain ⟨halive', htally⟩ := Line.deliver_cons (l := b.line) mode now order _ halive hd
        (List.forall_mem_nil _)
      simp only [AppState.tally, AppState.edit, Prod.mk.injEq] at htally
      obtain ⟨htasks, htokens, hcalls⟩ := htally
      refine ⟨hkept, h.begun, ⟨lost + (i.toNat + o.toNat - total.toNat), ?_, ?_⟩, fun hd => ?_,
        fun _ => ?_, fun _ u => ?_, fun _ u task hu => ?_⟩
      · rw [hreported _ rfl]
        show (b.line.deliver mode now order _).app.tokensTotal + _ = _
        rw [htokens]
        omega
      · rw [hfit _ rfl, ← hlost, ← hexact]
        omega
      · exact absurd (halive'.symm.trans hd) (by decide)
      · show (b.line.deliver mode now order _).app.toolCallsTotal = b.ticks + 1
        rw [hcalls, h.ticks halive]
      · show u ∈ (b.line.deliver mode now order _).app.tasks ↔ u ∈ b.started
        rw [htasks]
        exact h.listed halive u
      · rw [tell, htasks] at hu
        exact h.status halive u task hu
    | none =>
      -- the forwarder dies of the sum
      rw [hadd] at hspec
      have hline : b.line.deliver mode now order (.tokensUsed agentId i o) =
          { b.line with alive := false } := by
        unfold Line.deliver
        rw [if_pos halive, dispatch, hadd]
        rfl
      unfold tell
      rw [hline]
      have hnot : ¬ i.toNat + o.toNat < 2 ^ 32 := not_lt.mpr hspec
      refine ⟨⟨h.kept.current, h.kept.currentId, h.kept.record⟩, h.begun,
        ⟨lost + (i.toNat + o.toNat), ?_, ?_⟩, fun _ hf => ?_, fun ha => ?_, fun ha => ?_,
        fun ha => ?_⟩
      · rw [hreported _ rfl]
        show b.line.app.tokensTotal + _ = _
        omega
      · rw [hfit _ rfl]
        refine iff_of_false ?_ fun hf => hnot hf.1
        have : 0 < 2 ^ 32 := by norm_num
        omega
      · exact hnot ((hfit _ rfl).mp hf).1
      · cases ha
      · cases ha
      · cases ha
  · have hdead : b.line.alive = false := by simpa using halive
    unfold tell
    rw [Line.deliver_dead mode now order _ hdead]
    have hnot := h.dead hdead
    refine ⟨h.kept, h.begun, ⟨lost + (i.toNat + o.toNat), ?_, ?_⟩, fun _ hf => ?_,
      fun ha => absurd ha halive, fun ha => absurd ha halive, fun ha => absurd ha halive⟩
    · rw [hreported _ rfl]
      show b.line.app.tokensTotal + _ = _
      omega
    · rw [hfit _ rfl]
      refine iff_of_false ?_ fun hf => hnot hf.2
      have : lost ≠ 0 := fun hz => hnot (hlost.mp hz)
      omega
    · exact hnot ((hfit _ rfl).mp hf).2

theorem Tracks.statusUpdate (h : Tracks id b) (now : ℕ) (order : IterOrder Task)
    (inFlight completed : ℕ) :
    Tracks id { b.tell mode now order (.captainStatusUpdate inFlight completed) with
      ticks := b.ticks + 1 } := by
  have hkept := h.kept.deliver mode now order
    (.captainStatusUpdate inFlight completed)
  by_cases halive : b.line.alive = true
  · obtain ⟨halive', htally⟩ := Line.deliver_cons (l := b.line) mode now order
      (.captainStatusUpdate inFlight completed) halive rfl
      (List.forall_mem_nil _)
    simp only [AppState.tally, AppState.edit, Prod.mk.injEq] at htally
    obtain ⟨htasks, htokens, hcalls⟩ := htally
    refine ⟨hkept, h.begun, ?_, fun hd => ?_, fun _ => ?_, fun _ u => ?_, fun _ u task hu => ?_⟩
    · show ∃ lost, (b.line.deliver mode now order _).app.tokensTotal + lost = _ ∧ _
      rw [htokens]
      exact h.tokens
    · exact absurd (halive'.symm.trans hd) (by decide)
    · show (b.line.deliver mode now order _).app.toolCallsTotal = b.ticks + 1
      rw [hcalls, h.ticks halive]
    · show u ∈ (b.line.deliver mode now order _).app.tasks ↔ u ∈ b.started
      rw [htasks]
      exact h.listed halive u
    · rw [tell, htasks] at hu
      exact h.status halive u task hu
  · have hdead : b.line.alive = false := by simpa using halive
    unfold tell
    rw [Line.deliver_dead mode now order _ hdead]
    exact ⟨h.kept, h.begun, h.tokens, h.dead, fun ha => absurd ha halive,
      fun ha => absurd ha halive, fun ha => absurd ha halive⟩

theorem Tracks.calls (h : Tracks id b) (calls : ℕ) : Tracks id { b with calls := calls } :=
  ⟨h.kept, h.begun, h.tokens, h.dead, h.ticks, h.listed, h.status⟩

theorem Tracks.crewEnds (h : Tracks id b) (now : ℕ) (order : IterOrder Task) {t : TaskId}
    (hw : b.working t = true) (crewEnd : CrewEnd) :
    Tracks id { (match b.lastWord t crewEnd with
      | some event => b.tell mode now order event
      | none => b) with ended := b.ended.insert t crewEnd } := by
  have hends := h.ends hw crewEnd
  cases crewEnd with
  | panicked => exact hends
  | returned result =>
    cases result with
    | error e => exact hends
    | ok outcome =>
      cases outcome with
      | failed agentId reason calls => exact hends
      | done agentId summary calls =>
        exact hends.crewDone mode now order ⟨_, AList.lookup_insert _, rfl⟩ summary

theorem tracks_step (h : Tracks id b) {e : ℕ × IterOrder Task × BuildAction}
    (hs : b.step mode e = some b') (hv : b'.verdict = none) : Tracks id b' := by
  obtain ⟨now, order, a⟩ := e
  unfold step at hs
  split at hs
  · cases hs
  cases a with
  | captainStarted =>
    obtain rfl := Option.some.inj hs
    exact h.foreign now order rfl
  | crewStarted t =>
    dsimp only at hs
    split at hs
    · cases hs
    · obtain rfl := Option.some.inj hs
      exact h.crewStarted now order t
  | tokensUsed agentId i o =>
    obtain rfl := Option.some.inj hs
    exact h.tokensUsed now order agentId i o
  | statusUpdate inFlight completed =>
    obtain rfl := Option.some.inj hs
    exact h.statusUpdate now order inFlight completed
  | toolCall t made told =>
    dsimp only at hs
    split at hs
    · obtain rfl := Option.some.inj hs
      cases told with
      | none => exact h.calls _
      | some told => exact (h.foreign now order rfl).calls _
    · cases hs
  | crewEnds t crewEnd =>
    dsimp only at hs
    split at hs
    · rename_i hw
      obtain rfl := Option.some.inj hs
      exact h.crewEnds now order hw crewEnd
    · cases hs
  | merged t =>
    obtain rfl := Option.some.inj hs
    exact h.foreign now order rfl
  | other event =>
    dsimp only at hs
    split at hs
    · rename_i hf
      obtain rfl := Option.some.inj hs
      exact h.foreign now order hf
    · cases hs
  | planCompleted =>
    dsimp only at hs
    split at hs
    · obtain rfl := Option.some.inj hs
      cases hv
    · cases hs
  | planFailed reason =>
    obtain rfl := Option.some.inj hs
    cases hv

/-! ### The end -/

theorem record_after {s : AppState} {now : ℕ} (order : IterOrder Task) (hk : Keyed s.tasks)
    (hid : s.currentSessionId = some id) {event : BridgeEvent} {p : String × Option (Option ℕ)}
    (hp : event.status now = some p) :
    ∃ r, (s.handleBridgeEvent now order event).sessions.lookup id = some r ∧
      (∀ task, task ∈ r.tasks ↔ (s.edit now event).tasks.lookup task.id = some task) ∧
      r.tokensTotal = (s.edit now event).tokensTotal ∧
      r.toolCallsTotal = (s.edit now event).toolCallsTotal := by
  rw [AppState.sessions_handleBridgeEvent, hp]
  dsimp only
  rw [AppState.lookup_syncCurrentSession (by rw [AppState.currentSessionId_edit]; exact hid)]
  exact ⟨_, rfl, fun task => mem_taskValues (AppState.keyed_edit hk), rfl, rfl⟩

/-- Where tokens were lost the record is wrong. -/
theorem Tracks.not_truthful (h : Tracks id b) (hd : ¬ b.SumsFit) (planEnd : Option PlanEnd) :
    ¬ Truthful { b with verdict := planEnd } id := by
  rintro ⟨r, hl, -, htokens, -⟩
  obtain ⟨lost, hsum, hlost⟩ := h.tokens
  obtain ⟨sent, hlive⟩ := h.kept.current.record id r h.kept.currentId hl
  have hr : b.line.app.tokensTotal = r.tokensTotal := congrArg Content.tokensTotal hlive
  have htokens : r.tokensTotal = b.reported := htokens
  exact hd (hlost.mp (by omega))

theorem Tracks.tokens_iff (h : Tracks id b) :
    b.line.app.tokensTotal = b.reported ↔ b.SumsFit := by
  obtain ⟨lost, hsum, hlost⟩ := h.tokens
  rw [← hlost]
  omega

theorem not_done_of_status (planId : PlanId) {P : TaskId → Prop}
    (h : ∀ t, P t → ∃ v, P v ∧ agentIdOf planId v = t) (t : TaskId) : ¬ P t := by
  induction hn : t.length using Nat.strongRecOn generalizing t with
  | ind n ih =>
    intro ht
    obtain ⟨v, hv, rfl⟩ := h t ht
    refine ih v.length ?_ v rfl hv
    rw [← hn, agentIdOf, String.length_append, String.length_append]
    have : "-".length = 1 := rfl
    omega

theorem Tracks.tasks_completed (h : Tracks id b) (halive : b.line.alive = true)
    (hnone : b.noneFailed = true) (now : ℕ) :
    (∀ task : Task, (HashMap.mapValues (Task.finish now) b.line.app.tasks).lookup task.id = some task →
      (task.status = .complete ↔ b.Done task.id) ∧ (task.status = .failed ↔ b.Failed task.id)) ↔
    ∀ t crewEnd, b.ended.lookup t = some crewEnd → crewEnd.isPanic = false := by
  have hended : ∀ t ∈ b.started, ∃ e, b.ended.lookup t = some e ∧ e.isFailure = false := by
    intro t ht
    have := List.all_eq_true.mp hnone t ht
    split at this
    · rename_i e he
      exact ⟨e, he, by simpa using this⟩
    · cases this
  have hkeyed : Keyed b.line.app.tasks := h.kept.current.keyed
  -- every task is complete by now
  have hfinish : ∀ t task, b.line.app.tasks.lookup t = some task →
      (task.finish now).status = .complete := by
    intro t task hl
    unfold Task.finish
    rcases h.status halive t task hl with hr | ⟨hc, -⟩
    · rw [if_pos hr]
    · rw [if_neg (by rw [hc]; decide)]
      exact hc
  have hid : ∀ task : Task, (task.finish now).id = task.id := by
    intro task
    unfold Task.finish
    split <;> rfl
  constructor
  · intro hall t e he
    obtain ⟨task, hl⟩ := Option.isSome_iff_exists.mp
      (AList.lookup_isSome.mpr ((h.listed halive t).mpr (h.begun t e he)))
    obtain rfl := hkeyed t task hl
    have hmap : (HashMap.mapValues (Task.finish now) b.line.app.tasks).lookup (task.finish now).id =
        some (task.finish now) := by
      rw [HashMap.lookup_mapValues, hid, hl]
      rfl
    obtain ⟨e', he', hdone⟩ := (hall _ hmap).1.mp (hfinish _ task hl)
    rw [hid, he] at he'
    obtain rfl := Option.some.inj he'
    rcases e.trichotomy with ⟨-, -, hp⟩ | ⟨hd, -⟩ | ⟨hd, -⟩
    · exact hp
    · exact absurd (hdone.symm.trans hd) (by decide)
    · exact absurd (hdone.symm.trans hd) (by decide)
  · intro hall task hl
    rw [HashMap.lookup_mapValues] at hl
    obtain ⟨task₀, hl₀, rfl⟩ := Option.map_eq_some_iff.mp hl
    have hcomplete := hfinish _ task₀ hl₀
    have hstarted := (h.listed halive _).mp (AList.lookup_isSome.mp (by rw [hl₀]; rfl))
    obtain ⟨e, he, hnf⟩ := hended _ hstarted
    refine ⟨iff_of_true hcomplete ⟨e, he, ?_⟩, iff_of_false (by rw [hcomplete]; decide) ?_⟩
    · rcases e.trichotomy with ⟨hd, -⟩ | ⟨-, hf, -⟩ | ⟨-, -, hp⟩
      · exact hd
      · exact absurd (hf.symm.trans hnf) (by decide)
      · exact absurd (hp.symm.trans (hall _ e he)) (by decide)
    · rintro ⟨e', he', hf⟩
      rw [he] at he'
      obtain rfl := Option.some.inj he'
      exact absurd (hf.symm.trans hnf) (by decide)

theorem Tracks.tasks_failed (h : Tracks id b) (halive : b.line.alive = true) :
    (∀ task : Task, b.line.app.tasks.lookup task.id = some task →
      (task.status = .complete ↔ b.Done task.id) ∧ (task.status = .failed ↔ b.Failed task.id)) ↔
    ∀ t crewEnd, b.ended.lookup t = some crewEnd → crewEnd.isPanic = true := by
  have hkeyed : Keyed b.line.app.tasks := h.kept.current.keyed
  constructor
  · intro hall t e he
    have hask : ∀ u e, b.ended.lookup u = some e → ∃ task : Task, task.id = u ∧
        b.line.app.tasks.lookup u = some task ∧ (task.status = .complete ↔ b.Done u) ∧
        (task.status = .failed ↔ b.Failed u) := by
      intro u e hu
      obtain ⟨task, hl⟩ := Option.isSome_iff_exists.mp
        (AList.lookup_isSome.mpr ((h.listed halive u).mpr (h.begun u e hu)))
      obtain rfl := hkeyed u task hl
      exact ⟨task, rfl, hl, hall task hl⟩
    rcases e.trichotomy with ⟨hd, -⟩ | ⟨-, hf, -⟩ | ⟨-, -, hp⟩
    · refine absurd ⟨e, he, hd⟩ (not_done_of_status b.planId (P := b.Done) ?_ t)
      rintro u ⟨e, hu, hd⟩
      obtain ⟨task, -, hl, hc, -⟩ := hask u e hu
      rcases h.status halive u task hl with hr | ⟨-, v, hv, hvu⟩
      · have := hc.mpr ⟨e, hu, hd⟩
        rw [hr] at this
        cases this
      · exact ⟨v, hv, hvu⟩
    · obtain ⟨task, -, hl, -, hfail⟩ := hask t e he
      have hstatus := hfail.mpr ⟨e, he, hf⟩
      rcases h.status halive t task hl with hr | ⟨hc, -⟩
      · rw [hstatus] at hr
        cases hr
      · rw [hstatus] at hc
        cases hc
    · exact hp
  · intro hall task hl
    have hnone : ∀ u, ¬ b.Done u := by
      rintro u ⟨e, hu, hd⟩
      rcases e.trichotomy with ⟨-, -, hp⟩ | ⟨hd', -⟩ | ⟨hd', -⟩
      · exact absurd ((hall u e hu).symm.trans hp) (by decide)
      · exact absurd (hd.symm.trans hd') (by decide)
      · exact absurd (hd.symm.trans hd') (by decide)
    have hnotFailed : ¬ b.Failed task.id := by
      rintro ⟨e, hu, hf⟩
      rcases e.trichotomy with ⟨-, hf', -⟩ | ⟨-, -, hp⟩ | ⟨-, hf', -⟩
      · exact absurd (hf.symm.trans hf') (by decide)
      · exact absurd ((hall _ e hu).symm.trans hp) (by decide)
      · exact absurd (hf.symm.trans hf') (by decide)
    rcases h.status halive _ task hl with hr | ⟨-, v, hv, -⟩
    · exact ⟨iff_of_false (by rw [hr]; decide) (hnone _),
        iff_of_false (by rw [hr]; decide) hnotFailed⟩
    · exact absurd hv (hnone v)

theorem deliver_one {l : Line} {now : ℕ} {order : IterOrder Task} {event : OrchEvent}
    {told : BridgeEvent} (halive : l.alive = true)
    (hd : dispatch mode now event = some [told]) :
    (l.deliver mode now order event).app = l.app.handleBridgeEvent now order told := by
  unfold Line.deliver
  rw [if_pos halive, hd]
  rfl

theorem Tracks.finish (h : Tracks id b) {planEnd : PlanEnd} {event : OrchEvent}
    (told : BridgeEvent) {now : ℕ} {order : IterOrder Task} {p : String × Option (Option ℕ)}
    (hd : dispatch mode now event = some [told]) (hp : told.status now = some p)
    (hcounters : (b.line.app.edit now told).tokensTotal = b.line.app.tokensTotal ∧
      (b.line.app.edit now told).toolCallsTotal = b.line.app.toolCallsTotal)
    (htasks : b.line.alive = true →
      ((∀ task : Task, (b.line.app.edit now told).tasks.lookup task.id = some task →
        (task.status = .complete ↔ b.Done task.id) ∧ (task.status = .failed ↔ b.Failed task.id)) ↔
      ∀ t crewEnd, b.ended.lookup t = some crewEnd →
        (crewEnd.isPanic = true ↔ planEnd = .failed))) :
    Truthful { b.tell mode now order event with verdict := some planEnd } id ↔
      FitsRecord { b.tell mode now order event with verdict := some planEnd } planEnd := by
  by_cases halive : b.line.alive = true
  · obtain ⟨r, hl, hmem, htokens, hcalls⟩ := record_after order
      h.kept.current.keyed h.kept.currentId hp
    have hl' : (b.line.deliver mode now order event).app.sessions.lookup id = some r := by
      rw [deliver_one halive hd]
      exact hl
    rw [hcounters.1] at htokens
    rw [hcounters.2, h.ticks halive] at hcalls
    have htruth : Truthful { b.tell mode now order event with verdict := some planEnd } id ↔
        (∀ task ∈ r.tasks, (task.status = .complete ↔ b.Done task.id) ∧
          (task.status = .failed ↔ b.Failed task.id)) ∧
        r.tokensTotal = b.reported ∧ r.toolCallsTotal = b.calls := by
      constructor
      · rintro ⟨r', hr', hall⟩
        obtain rfl : r = r' := Option.some.inj (hl'.symm.trans hr')
        exact hall
      · intro hall
        exact ⟨r, hl', hall⟩
    rw [htruth, htokens, hcalls, h.tokens_iff]
    simp only [hmem]
    rw [htasks halive]
    constructor
    · rintro ⟨hends, hsums, hticks⟩
      exact ⟨hsums, hticks, hends⟩
    · rintro ⟨hsums, hticks, hends⟩
      exact ⟨hends, hsums, hticks⟩
  · have hdead : b.line.alive = false := by simpa using halive
    have hline : b.tell mode now order event = b := by
      rw [tell, Line.deliver_dead mode now order _ hdead]
    rw [hline]
    exact iff_of_false (h.not_truthful (h.dead hdead) _) fun hfit => h.dead hdead hfit.1

theorem verdict_step {e : ℕ × IterOrder Task × BuildAction} (hs : b.step mode e = some b') :
    b.verdict = none := by
  unfold step at hs
  split at hs
  · cases hs
  · rename_i hv
    simpa using hv

theorem verdict_of_step {now : ℕ} {order : IterOrder Task} {a : BuildAction}
    (hs : b.step mode (now, order, a) = some b') :
    b'.verdict = none ∨ a = .planCompleted ∨ ∃ reason, a = .planFailed reason := by
  have hno := verdict_step hs
  unfold step at hs
  split at hs
  · cases hs
  cases a with
  | planCompleted => exact .inr (.inl rfl)
  | planFailed reason => exact .inr (.inr ⟨reason, rfl⟩)
  | toolCall t made told =>
    dsimp only at hs
    split at hs
    · obtain rfl := Option.some.inj hs
      cases told <;> exact .inl hno
    · cases hs
  | crewEnds t crewEnd =>
    dsimp only at hs
    split at hs
    · obtain rfl := Option.some.inj hs
      cases b.lastWord t crewEnd <;> exact .inl hno
    · cases hs
  | crewStarted t =>
    dsimp only at hs
    split at hs
    · cases hs
    · obtain rfl := Option.some.inj hs
      exact .inl hno
  | other event =>
    dsimp only at hs
    split at hs
    · obtain rfl := Option.some.inj hs
      exact .inl hno
    · cases hs
  | _ =>
    obtain rfl := Option.some.inj hs
    exact .inl hno

end BuildRun

open BuildRun

/-- **The record tells the truth about a build exactly where** every reported sum of tokens fits in
a `u32`, there were as many reports (of tokens, or of the captain's status) as tool calls, and no
crew panicked, where the plan completed, or every crew that had ended panicked, where it failed. -/
theorem truthful_iff (mode : Overflow) (persisted : PersistedState) (now : ℕ) (id : SessionId)
    (prompt : String) (sessionMode : Option String) (planId : PlanId)
    {past : List (BuildRun × (ℕ × IterOrder Task × BuildAction))} {b : BuildRun}
    (h : Execution (BuildRun.step mode) (.start persisted now id prompt sessionMode planId) past b)
    {planEnd : PlanEnd} (hend : b.verdict = some planEnd) :
    b.Truthful id ↔ b.FitsRecord planEnd := by
  have htracks : ∀ {past b}, Execution (BuildRun.step mode)
      (.start persisted now id prompt sessionMode planId) past b → b.verdict = none →
      Tracks id b := by
    intro past b hrun
    induction hrun with
    | start => exact fun _ => tracks_start persisted now id prompt sessionMode planId
    | next _ hs ih => exact fun hv => tracks_step (ih (verdict_step hs)) hs hv
  cases h with
  | start => cases hend
  | @next _ b₀ _ e hrest hs =>
    have ht := htracks hrest (verdict_step hs)
    have hno := verdict_step hs
    obtain ⟨now', order, a⟩ := e
    rcases verdict_of_step hs with hv | rfl | ⟨reason, rfl⟩
    · rw [hv] at hend
      cases hend
    · unfold BuildRun.step at hs
      rw [hno] at hs
      dsimp only at hs
      split at hs
      · cases hs
      split at hs
      · rename_i hnone
        obtain rfl := Option.some.inj hs
        obtain rfl : PlanEnd.completed = planEnd := Option.some.inj hend
        refine ht.finish .orchestrationComplete rfl rfl ⟨rfl, rfl⟩ fun halive => ?_
        refine (ht.tasks_completed halive hnone now').trans (forall₃_congr fun t e _ => ?_)
        cases e.isPanic <;> simp
      · cases hs
    · unfold BuildRun.step at hs
      rw [hno] at hs
      dsimp only at hs
      split at hs
      · cases hs
      obtain rfl := Option.some.inj hs
      obtain rfl : PlanEnd.failed = planEnd := Option.some.inj hend
      refine ht.finish (.orchestrationFailed reason) rfl rfl ⟨rfl, rfl⟩ fun halive => ?_
      refine (ht.tasks_failed halive).trans (forall₃_congr fun t e _ => ?_)
      cases e.isPanic <;> simp

def buildSession : BuildRun := .start .default 1 "A" "write a parser" none "p1"

def oneCallRun : List (ℕ × IterOrder Task × BuildAction) :=
  [(2, .stored, .captainStarted), (3, .stored, .crewStarted "t1"),
    (4, .stored, .tokensUsed "p1-t1" 100 20),
    (5, .stored, .toolCall "t1" true (some ("wrote parser.rs", "write_file", true))),
    (6, .stored, .crewEnds "t1" (.returned (.ok (.done "p1-t1" "parser written" 1)))),
    (7, .stored, .merged "t1"), (8, .stored, .planCompleted)]

theorem truthful_oneCall : ∃ past b, Execution (BuildRun.step .wraps) buildSession past b ∧
    b.verdict = some .completed ∧ b.Truthful "A" := by
  have hrun : Execution.runActions (BuildRun.step .wraps) oneCallRun [] buildSession =
      some (_, _) := rfl
  refine ⟨_, _, .ofRun .start hrun, rfl, (truthful_iff .wraps .default 1 "A" "write a parser" none
    "p1" (.ofRun .start hrun) rfl).mpr ⟨?_, rfl, fun t e he => ?_⟩⟩
  · intro r hr
    obtain rfl := List.mem_singleton.mp hr
    decide
  · have he : (AList.insert "t1" _ (∅ : HashMap TaskId CrewEnd)).lookup t = some e := he
    rw [HashMap.lookup_insert_eq_ite] at he
    split at he
    · obtain rfl := Option.some.inj he
      decide
    · cases he

def llmErrorRun : List (ℕ × IterOrder Task × BuildAction) :=
  [(2, .stored, .captainStarted), (3, .stored, .crewStarted "t1"),
    (4, .stored, .crewEnds "t1" (.returned (.ok (.failed "p1-t1" "LLM error: timeout" 0)))),
    (5, .stored, .planFailed "LLM error: timeout")]

/-- **A failed task that runs for ever**: its crew tells of its success only, and the end of a plan
that failed touches no task. -/
theorem not_truthful : ¬ ∀ (mode : Overflow) (persisted : PersistedState) (now : ℕ)
    (id : SessionId) (prompt : String) (sessionMode : Option String) (planId : PlanId)
    (past : List (BuildRun × (ℕ × IterOrder Task × BuildAction))) (b : BuildRun)
    (planEnd : PlanEnd),
    Execution (BuildRun.step mode) (.start persisted now id prompt sessionMode planId) past b →
    b.verdict = some planEnd → b.Truthful id := by
  intro hclaim
  have hrun : Execution.runActions (BuildRun.step .wraps) llmErrorRun [] buildSession =
      some (_, _) := rfl
  obtain ⟨r, hl, htasks, -⟩ := hclaim .wraps .default 1 "A" "write a parser" none "p1" _ _ .failed
    (.ofRun .start hrun) rfl
  obtain rfl := Option.some.inj hl
  have hfailed := (htasks _ List.mem_cons_self).2.mpr ⟨_, rfl, rfl⟩
  cases hfailed

end Mowis.Desktop
