import Mowis.Orchestration.Plan

/-!
# What the user is told on coming back

`SummaryDigestBuffer` of `mowis-orchestration/src/digest.rs`: a bounded buffer of events, and the
summary that `drain_markdown` writes of it.
-/

namespace Mowis.Planning

open Mowis.Orchestration (PlanId TaskId)

/-- The events that a summary speaks of.  The others are `other`. -/
inductive Event where
  | crewStarted (planId : PlanId) (taskId : TaskId) (agentId : String)
  | crewToolSummary (agentId text toolName : String) (success : Bool)
  | crewDone (planId : PlanId) (agentId summary : String)
  | crewFailed (planId : PlanId) (agentId reason : String)
  | mergeCompleted (planId : PlanId) (agentId : String)
  | taskInjected (planId : PlanId) (taskId : TaskId) (reason : String)
  | planCompleted (planId : PlanId)
  | planFailed (planId : PlanId) (reason : String)
  | other

structure DigestEvent where
  event : Event
  timestamp : ℕ

structure SummaryDigestBuffer where
  events : List DigestEvent
  capacity : ℕ
  droppedCount : ℕ

/-- What the loop of `drain_markdown` collects. -/
structure Tally where
  lines : List String
  toolCalls : ℕ
  crewsDone : ℕ
  crewsFailed : ℕ
  crewsRunning : Finset String
  lastFiles : List String
  mergesCompleted : ℕ
  tasksInjected : ℕ

namespace Tally

def empty : Tally := ⟨[], 0, 0, 0, ∅, [], 0, 0⟩

def line (t : Tally) (line : String) : Tally := { t with lines := t.lines ++ [line] }

def add (t : Tally) (de : DigestEvent) : Tally :=
  match de.event with
  | .crewToolSummary _ text _ _ =>
    { t with toolCalls := t.toolCalls + 1, lastFiles := t.lastFiles ++ [text] }
  | .crewDone _ agentId summary =>
    { t with crewsDone := t.crewsDone + 1, crewsRunning := t.crewsRunning.erase agentId }.line
      ("- Crew finished: " ++ summary)
  | .crewFailed _ agentId reason =>
    { t with crewsFailed := t.crewsFailed + 1, crewsRunning := t.crewsRunning.erase agentId }.line
      ("- Crew failed: " ++ reason)
  | .crewStarted _ taskId agentId =>
    { t with crewsRunning := insert agentId t.crewsRunning }.line
      ("- Crew started task " ++ taskId)
  | .mergeCompleted _ agentId =>
    { t with mergesCompleted := t.mergesCompleted + 1 }.line ("- Merged overlay for " ++ agentId)
  | .taskInjected _ taskId reason =>
    { t with tasksInjected := t.tasksInjected + 1 }.line
      ("- Task " ++ taskId ++ " injected: " ++ reason)
  | .planCompleted planId => t.line ("- Plan " ++ planId ++ " completed!")
  | .planFailed planId reason => t.line ("- Plan " ++ planId ++ " failed: " ++ reason)
  | .other => t

def of (events : List DigestEvent) : Tally := events.foldl add empty

def counted (n : ℕ) (rest : String) : String := if n > 0 then "- " ++ toString n ++ rest else ""

def render (t : Tally) (droppedCount : ℕ) : String :=
  "While you were away:\n\n" ++
    counted t.toolCalls (" tool calls across " ++
      toString (t.crewsDone + t.crewsRunning.card) ++ " crews\n") ++
    counted t.crewsDone " crews finished\n" ++
    counted t.crewsRunning.card " crews still running\n" ++
    counted t.crewsFailed " crews failed\n" ++
    counted t.mergesCompleted " merges completed\n" ++
    counted t.tasksInjected " tasks injected mid-run\n" ++
    (if t.lastFiles.isEmpty then ""
      else "- Recent activity: " ++ "; ".intercalate (t.lastFiles.reverse.take 5) ++ "\n") ++
    counted droppedCount " dropped events (digest buffer overflow)\n" ++
    String.join (t.lines.map (· ++ "\n"))

end Tally

namespace SummaryDigestBuffer

def new (capacity : ℕ) : SummaryDigestBuffer := ⟨[], capacity, 0⟩

def push (b : SummaryDigestBuffer) (event : Event) (now : ℕ) : SummaryDigestBuffer :=
  let b' := if b.events.length ≥ b.capacity then
      { b with events := b.events.tail, droppedCount := b.droppedCount + 1 }
    else b
  { b' with events := b'.events ++ [⟨event, now⟩] }

def drainMarkdown (b : SummaryDigestBuffer) : String × SummaryDigestBuffer :=
  if b.events.isEmpty && b.droppedCount == 0 then ("", b)
  else ((Tally.of b.events).render b.droppedCount, { b with droppedCount := 0 })

end SummaryDigestBuffer

inductive DigestCall where
  | push (event : Event) (now : ℕ)
  | drain

namespace DigestCall

def isDrain : DigestCall → Bool
  | .push _ _ => false
  | .drain => true

def perform (b : SummaryDigestBuffer) : DigestCall → SummaryDigestBuffer
  | .push event now => b.push event now
  | .drain => b.drainMarkdown.2

def record (since : List DigestEvent) : DigestCall → List DigestEvent
  | .push event now => since ++ [⟨event, now⟩]
  | .drain => []

end DigestCall

open DigestCall (perform record)

def bufferAfter (capacity : ℕ) (calls : List DigestCall) : SummaryDigestBuffer :=
  calls.foldl perform (.new capacity)

def pushedSince (calls : List DigestCall) : List DigestEvent := calls.foldl record []

def Event.isCrewDone : Event → Bool
  | .crewDone _ _ _ => true
  | _ => false

def Event.isCrewFailed : Event → Bool
  | .crewFailed _ _ _ => true
  | _ => false

def Event.isMergeCompleted : Event → Bool
  | .mergeCompleted _ _ => true
  | _ => false

/-- What is promised of a drain of `b`, with `since` the events that were pushed since the previous
one: it takes into account some of these events and no others, and counts the rest as dropped. -/
structure Delivered (since : List DigestEvent) (b : SummaryDigestBuffer) : Prop where
  accounted : ∃ dropped, since = dropped ++ b.events ∧ b.droppedCount = dropped.length
  silent : since = [] → b.drainMarkdown.1 = ""
  finished : (Tally.of b.events).crewsDone =
    (since.drop b.droppedCount).countP (·.event.isCrewDone)
  failed : (Tally.of b.events).crewsFailed =
    (since.drop b.droppedCount).countP (·.event.isCrewFailed)
  merged : (Tally.of b.events).mergesCompleted =
    (since.drop b.droppedCount).countP (·.event.isMergeCompleted)

structure Delivers (capacity : ℕ) (calls : List DigestCall) : Prop where
  bounded : ∀ before, before <+: calls → (bufferAfter capacity before).events.length ≤ capacity
  delivered : ∀ before, before ++ [.drain] <+: calls →
    Delivered (pushedSince before) (bufferAfter capacity before)

theorem foldl_add_count (count : Tally → ℕ) (p : Event → Bool)
    (hstep : ∀ t de, count (t.add de) = count t + if p de.event then 1 else 0)
    (events : List DigestEvent) (t : Tally) :
    count (events.foldl Tally.add t) = count t + events.countP (p ·.event) := by
  induction events generalizing t with
  | nil => rfl
  | cons de events ih =>
    rw [List.foldl_cons, ih, hstep, List.countP_cons]
    omega

theorem crewsDone_of (events : List DigestEvent) :
    (Tally.of events).crewsDone = events.countP (·.event.isCrewDone) := by
  rw [Tally.of, foldl_add_count Tally.crewsDone Event.isCrewDone _ events]
  · exact Nat.zero_add _
  · intro t de
    obtain ⟨event, timestamp⟩ := de
    cases event <;> rfl

theorem crewsFailed_of (events : List DigestEvent) :
    (Tally.of events).crewsFailed = events.countP (·.event.isCrewFailed) := by
  rw [Tally.of, foldl_add_count Tally.crewsFailed Event.isCrewFailed _ events]
  · exact Nat.zero_add _
  · intro t de
    obtain ⟨event, timestamp⟩ := de
    cases event <;> rfl

theorem mergesCompleted_of (events : List DigestEvent) :
    (Tally.of events).mergesCompleted = events.countP (·.event.isMergeCompleted) := by
  rw [Tally.of, foldl_add_count Tally.mergesCompleted Event.isMergeCompleted _ events]
  · exact Nat.zero_add _
  · intro t de
    obtain ⟨event, timestamp⟩ := de
    cases event <;> rfl

theorem delivered_iff {since : List DigestEvent} {b : SummaryDigestBuffer} :
    Delivered since b ↔ ∃ dropped, since = dropped ++ b.events ∧ b.droppedCount = dropped.length := by
  refine ⟨Delivered.accounted, fun h => ?_⟩
  obtain ⟨dropped, hsince, hdropped⟩ := h
  have hkept : since.drop b.droppedCount = b.events := by
    rw [hsince, hdropped, List.drop_left]
  refine ⟨⟨dropped, hsince, hdropped⟩, fun hnil => ?_, ?_, ?_, ?_⟩
  · obtain ⟨hd, he⟩ := List.append_eq_nil_iff.mp (hsince.symm.trans hnil)
    have hzero : b.droppedCount = 0 := by rw [hdropped, hd]; rfl
    unfold SummaryDigestBuffer.drainMarkdown
    rw [he, hzero]
    rfl
  · rw [hkept, crewsDone_of]
  · rw [hkept, crewsFailed_of]
  · rw [hkept, mergesCompleted_of]

theorem bufferAfter_concat (capacity : ℕ) (calls : List DigestCall) (call : DigestCall) :
    bufferAfter capacity (calls ++ [call]) = perform (bufferAfter capacity calls) call :=
  List.foldl_concat ..

theorem pushedSince_concat (calls : List DigestCall) (call : DigestCall) :
    pushedSince (calls ++ [call]) = record (pushedSince calls) call :=
  List.foldl_concat ..

theorem bufferAfter_append (capacity : ℕ) (calls calls' : List DigestCall) :
    bufferAfter capacity (calls ++ calls') = calls'.foldl perform (bufferAfter capacity calls) :=
  List.foldl_append ..

theorem pushedSince_append (calls calls' : List DigestCall) :
    pushedSince (calls ++ calls') = calls'.foldl record (pushedSince calls) :=
  List.foldl_append ..

section Calls

variable {b : SummaryDigestBuffer} {since : List DigestEvent} {call : DigestCall}

theorem drain_events : (perform b .drain).events = b.events := by
  show (b.drainMarkdown.2).events = _
  unfold SummaryDigestBuffer.drainMarkdown
  split <;> rfl

theorem perform_capacity (call : DigestCall) : (perform b call).capacity = b.capacity := by
  cases call with
  | push event now =>
    show (b.push event now).capacity = _
    unfold SummaryDigestBuffer.push
    split <;> rfl
  | drain =>
    show (b.drainMarkdown.2).capacity = _
    unfold SummaryDigestBuffer.drainMarkdown
    split <;> rfl

theorem push_cases (hcapacity : 1 ≤ b.capacity) (event : Event) (now : ℕ) :
    ((b.push event now).events = b.events ++ [⟨event, now⟩] ∧
      (b.push event now).droppedCount = b.droppedCount ∧ b.events.length < b.capacity) ∨
    ∃ oldest rest, b.events = oldest :: rest ∧
      (b.push event now).events = rest ++ [⟨event, now⟩] ∧
      (b.push event now).droppedCount = b.droppedCount + 1 := by
  unfold SummaryDigestBuffer.push
  split
  · next hfull =>
    cases hevents : b.events with
    | nil =>
      rw [hevents] at hfull
      exact absurd (hcapacity.trans hfull) (by decide)
    | cons oldest rest => exact .inr ⟨oldest, rest, rfl, rfl, rfl⟩
  · next hroom => exact .inl ⟨rfl, rfl, Nat.lt_of_not_le hroom⟩

def Accounted (since : List DigestEvent) (b : SummaryDigestBuffer) : Prop :=
  ∃ dropped, since = dropped ++ b.events ∧ b.droppedCount = dropped.length

theorem Accounted.push (h : Accounted since b) (hcapacity : 1 ≤ b.capacity) (event : Event)
    (now : ℕ) : Accounted (since ++ [⟨event, now⟩]) (b.push event now) := by
  obtain ⟨dropped, hsince, hdropped⟩ := h
  rcases push_cases hcapacity event now with ⟨he, hd, -⟩ | ⟨oldest, rest, hb, he, hd⟩
  · refine ⟨dropped, ?_, hd.trans hdropped⟩
    rw [hsince, he, List.append_assoc]
  · refine ⟨dropped ++ [oldest], ?_, ?_⟩
    · rw [hsince, he, hb]
      simp only [List.append_assoc, List.cons_append, List.nil_append]
    · rw [hd, hdropped, List.length_append]
      rfl

/-- Some events of the buffer were summarised before: there are more than were pushed since. -/
def Carried (since : List DigestEvent) (b : SummaryDigestBuffer) : Prop :=
  b.events ≠ [] ∧ since.length < b.events.length + b.droppedCount

theorem Carried.not_accounted (h : Carried since b) : ¬ Accounted since b := by
  rintro ⟨dropped, hsince, hdropped⟩
  have hlength := h.2
  rw [hsince, hdropped, List.length_append] at hlength
  omega

theorem push_nonempty (event : Event) (now : ℕ) : (b.push event now).events ≠ [] := by
  unfold SummaryDigestBuffer.push
  exact List.append_ne_nil_of_right_ne_nil _ (List.cons_ne_nil _ _)

theorem Carried.next (h : Carried since b) (hcapacity : 1 ≤ b.capacity) :
    Carried (record since call) (perform b call) := by
  cases call with
  | push event now =>
    refine ⟨push_nonempty event now, ?_⟩
    show (since ++ [(⟨event, now⟩ : DigestEvent)]).length <
      (b.push event now).events.length + (b.push event now).droppedCount
    have hlength := h.2
    rcases push_cases hcapacity event now with ⟨he, hd, -⟩ | ⟨oldest, rest, hb, he, hd⟩
    · rw [he, hd, List.length_append, List.length_append]
      show since.length + 1 < b.events.length + 1 + b.droppedCount
      omega
    · rw [hb] at hlength
      rw [he, hd, List.length_append, List.length_append]
      show since.length + 1 < rest.length + 1 + (b.droppedCount + 1)
      have hcons : (oldest :: rest).length = rest.length + 1 := rfl
      omega
  | drain =>
    refine ⟨?_, ?_⟩
    · rw [drain_events]
      exact h.1
    · have hpos : 0 < b.events.length := List.length_pos_iff.mpr h.1
      rw [drain_events]
      exact Nat.add_pos_left hpos _

theorem Carried.foldl (h : Carried since b) (hcapacity : 1 ≤ b.capacity)
    (calls : List DigestCall) :
    Carried (calls.foldl record since) (calls.foldl DigestCall.perform b) := by
  induction calls generalizing b since with
  | nil => exact h
  | cons call calls ih =>
    refine ih (h.next hcapacity) ?_
    rw [perform_capacity]
    exact hcapacity

theorem carried_of_drain (hcapacity : 1 ≤ b.capacity) (hevents : b.events ≠ [])
    {calls : List DigestCall} (hdrain : 1 ≤ calls.countP DigestCall.isDrain) :
    Carried (calls.foldl record since) (calls.foldl DigestCall.perform b) := by
  induction calls generalizing b since with
  | nil => exact absurd hdrain (by decide)
  | cons call calls ih =>
    have hcapacity' : 1 ≤ (perform b call).capacity := by
      rw [perform_capacity]
      exact hcapacity
    cases call with
    | push event now => exact ih hcapacity' (push_nonempty event now) hdrain
    | drain =>
      refine Carried.foldl ⟨?_, ?_⟩ hcapacity' calls
      · rw [drain_events]
        exact hevents
      · have hpos : 0 < b.events.length := List.length_pos_iff.mpr hevents
        rw [drain_events]
        exact Nat.add_pos_left hpos _

end Calls

theorem bufferAfter_capacity (capacity : ℕ) (calls : List DigestCall) :
    (bufferAfter capacity calls).capacity = capacity := by
  induction calls using List.reverseRecOn with
  | nil => rfl
  | append_singleton calls call ih => rw [bufferAfter_concat, perform_capacity, ih]

theorem bufferAfter_bounded {capacity : ℕ} (hcapacity : 1 ≤ capacity) (calls : List DigestCall) :
    (bufferAfter capacity calls).events.length ≤ capacity := by
  induction calls using List.reverseRecOn with
  | nil => exact Nat.zero_le _
  | append_singleton calls call ih =>
    rw [bufferAfter_concat]
    have hcap := bufferAfter_capacity capacity calls
    cases call with
    | push event now =>
      show ((bufferAfter capacity calls).push event now).events.length ≤ capacity
      rcases push_cases (hcap ▸ hcapacity) event now with ⟨he, -, hlt⟩ | ⟨oldest, rest, hb, he, -⟩
      · rw [he, List.length_append]
        show _ + 1 ≤ capacity
        omega
      · rw [hb] at ih
        rw [he, List.length_append]
        exact ih
    | drain =>
      rw [drain_events]
      exact ih

theorem bufferAfter_drains (capacity : ℕ) {calls : List DigestCall}
    (h : ∀ call ∈ calls, call.isDrain = true) :
    bufferAfter capacity calls = .new capacity ∧ pushedSince calls = [] := by
  induction calls using List.reverseRecOn with
  | nil => exact ⟨rfl, rfl⟩
  | append_singleton calls call ih =>
    obtain ⟨hbuffer, -⟩ := ih fun c hc => h c (List.mem_append_left _ hc)
    have hcall := h call (List.mem_append_right _ List.mem_cons_self)
    rw [bufferAfter_concat, pushedSince_concat, hbuffer]
    cases call with
    | push => cases hcall
    | drain => exact ⟨rfl, rfl⟩

def fromPush (calls : List DigestCall) : List DigestCall := calls.dropWhile DigestCall.isDrain

theorem exists_first_push (calls : List DigestCall) : (∀ call ∈ calls, call.isDrain = true) ∨
    ∃ drains event now rest, calls = drains ++ .push event now :: rest ∧
      (∀ call ∈ drains, call.isDrain = true) ∧ fromPush calls = .push event now :: rest := by
  induction calls with
  | nil => exact .inl fun _ hc => nomatch hc
  | cons call calls ih =>
    cases call with
    | push event now => exact .inr ⟨[], event, now, calls, rfl, fun _ hc => (nomatch hc), rfl⟩
    | drain =>
      rcases ih with hall | ⟨drains, event, now, rest, hcalls, hdrains, hfrom⟩
      · exact .inl (List.forall_mem_cons.mpr ⟨rfl, hall⟩)
      · exact .inr ⟨.drain :: drains, event, now, rest, congrArg (DigestCall.drain :: ·) hcalls,
          List.forall_mem_cons.mpr ⟨rfl, hdrains⟩, hfrom⟩

theorem fromPush_append (calls calls' : List DigestCall) :
    (∀ call ∈ calls, call.isDrain = true) ∨
      fromPush (calls ++ calls') = fromPush calls ++ calls' := by
  rcases exists_first_push calls with hall | ⟨drains, event, now, rest, hcalls, hdrains, hfrom⟩
  · exact .inl hall
  · right
    rw [hfrom, hcalls, List.append_assoc, fromPush, List.dropWhile_append_of_pos hdrains]
    rfl

theorem accounted_of_pushes {capacity : ℕ} (hcapacity : 1 ≤ capacity) {calls : List DigestCall}
    (h : ∀ call ∈ fromPush calls, call.isDrain = false) :
    Accounted (pushedSince calls) (bufferAfter capacity calls) := by
  have hsplit : calls.takeWhile DigestCall.isDrain ++ fromPush calls = calls :=
    List.takeWhile_append_dropWhile
  have hfold : ∀ (pushes : List DigestCall) (b : SummaryDigestBuffer) (since : List DigestEvent),
      (∀ call ∈ pushes, call.isDrain = false) → 1 ≤ b.capacity → Accounted since b →
      Accounted (pushes.foldl record since) (pushes.foldl perform b) := by
    intro pushes
    induction pushes with
    | nil => exact fun _ _ _ _ hb => hb
    | cons call pushes ih =>
      intro b since hpushes hb haccounted
      have hcall := hpushes call List.mem_cons_self
      cases call with
      | push event now =>
        refine ih _ _ (fun c hc => hpushes c (List.mem_cons_of_mem _ hc)) ?_
          (haccounted.push hb event now)
        rw [perform_capacity]
        exact hb
      | drain => cases hcall
  obtain ⟨hbuffer, hsince⟩ := bufferAfter_drains capacity
    fun call hcall => List.mem_takeWhile_imp hcall
  rw [← hsplit, bufferAfter_append, pushedSince_append, hbuffer, hsince]
  exact hfold _ _ _ h hcapacity ⟨[], rfl, rfl⟩

theorem exists_last_drain (calls : List DigestCall) (h : 2 ≤ calls.countP DigestCall.isDrain) :
    ∃ before after, calls = before ++ .drain :: after ∧
      1 ≤ before.countP DigestCall.isDrain := by
  induction calls using List.reverseRecOn with
  | nil => exact absurd h (by decide)
  | append_singleton calls call ih =>
    rw [List.countP_append] at h
    cases call with
    | push event now =>
      obtain ⟨before, after, hcalls, hbefore⟩ := ih h
      refine ⟨before, after ++ [.push event now], ?_, hbefore⟩
      rw [hcalls, List.append_assoc]
      rfl
    | drain => exact ⟨calls, [], rfl, Nat.le_of_succ_le_succ h⟩

/-- **A sequence of calls delivers every event once if and only if there is no push, or the buffer
can hold an event and at most one drain comes after the first push.** -/
theorem delivers_iff (capacity : ℕ) (calls : List DigestCall) :
    Delivers capacity calls ↔ (∀ call ∈ calls, call.isDrain = true) ∨
      (1 ≤ capacity ∧ (fromPush calls).countP DigestCall.isDrain ≤ 1) := by
  constructor
  · intro h
    rcases exists_first_push calls with hall | ⟨drains, event, now, rest, hcalls, hdrains, hfrom⟩
    · exact .inl hall
    right
    have hbuffer := (bufferAfter_drains capacity hdrains).1
    have hone : 1 ≤ capacity := by
      have hbounded := h.bounded (drains ++ [.push event now]) ⟨rest, by
        rw [hcalls, List.append_assoc]
        rfl⟩
      rw [bufferAfter_concat, hbuffer] at hbounded
      exact (List.length_pos_iff.mpr (push_nonempty event now)).trans_le hbounded
    refine ⟨hone, ?_⟩
    by_contra htwo
    rw [hfrom] at htwo
    obtain ⟨before, after, hrest, hbefore⟩ :=
      exists_last_drain rest (Nat.lt_of_not_le htwo)
    have hdelivered := h.delivered (drains ++ .push event now :: before) ⟨after, by
      rw [hcalls, hrest]
      simp only [List.append_assoc, List.cons_append, List.nil_append]⟩
    rw [bufferAfter_append, pushedSince_append, hbuffer] at hdelivered
    exact (carried_of_drain (b := perform (.new capacity) (.push event now))
      ((perform_capacity _).symm ▸ hone) (push_nonempty event now) hbefore).not_accounted
      hdelivered.accounted
  · rintro (hall | ⟨hone, hcount⟩)
    · have hempty : ∀ before, before <+: calls →
          bufferAfter capacity before = .new capacity ∧ pushedSince before = [] :=
        fun before hbefore => bufferAfter_drains capacity fun call hcall => hall call (hbefore.subset hcall)
      refine ⟨fun before hbefore => ?_, fun before hbefore => ?_⟩
      · rw [(hempty before hbefore).1]
        exact Nat.zero_le _
      · obtain ⟨hbuffer, hsince⟩ :=
          hempty before ((List.prefix_append before [.drain]).trans hbefore)
        rw [hbuffer, hsince]
        exact delivered_iff.mpr ⟨[], rfl, rfl⟩
    · refine ⟨fun before _ => bufferAfter_bounded hone before, fun before hbefore => ?_⟩
      refine delivered_iff.mpr (accounted_of_pushes hone fun call hcall => ?_)
      -- the drain itself is the one that comes after the first push
      obtain ⟨after, hcalls⟩ := hbefore
      rw [List.append_assoc] at hcalls
      rcases fromPush_append before ([.drain] ++ after) with hall | happend
      · have hnil : fromPush before = [] := List.dropWhile_eq_nil_iff.mpr hall
        rw [hnil] at hcall
        cases hcall
      · rw [← hcalls, happend, List.countP_append] at hcount
        have htail : 1 ≤ ([DigestCall.drain] ++ after).countP DigestCall.isDrain :=
          List.countP_pos_iff.mpr ⟨.drain, List.mem_cons_self, rfl⟩
        have hzero : (fromPush before).countP DigestCall.isDrain = 0 := by omega
        exact Bool.eq_false_iff.mpr (List.countP_eq_zero.mp hzero call hcall)

/-- A crew has finished, and the user asks twice. -/
theorem not_delivers :
    ¬ Delivers 512 [.push (.crewDone "p1" "ag-1" "Task completed") 0, .drain, .drain] := by
  intro h
  have hsilent := (h.delivered [.push (.crewDone "p1" "ag-1" "Task completed") 0, .drain]
    (List.prefix_refl _)).silent rfl
  exact absurd hsilent (by decide)

end Mowis.Planning
