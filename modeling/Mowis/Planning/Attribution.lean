import Mowis.Planning.Conductor

/-!
# Who said what

The Conductor does not store who spoke.  It sends entries at even positions as the user's and
those at odd positions as the assistant's, which is right as long as every operation that adds
an entry of the user or the system adds one of the model after it.
-/

namespace Mowis.Planning

open Mowis.Lib
open Mowis.Orchestration (PlanId TaskNode ToolCall ConvMessage AgentRoundResult)
open Mowis.Review (Json)

/-- Entries sent as the assistant's are the model's, and no others. -/
def Request.Attributed (r : Request) : Prop :=
  ∀ p ∈ r.history, p.1 = .assistant ↔ p.2.speaker = .model

def Conductor.Attributed (c : Conductor) : Prop := ∀ r ∈ c.requests, r.Attributed

def Alternating (conversation : List Entry) : Prop :=
  ∀ i e, conversation[i]? = some e → (i % 2 = 1 ↔ e.speaker = .model)

theorem attributed_history {conversation : List Entry} {later : List ConvMessage} :
    (Request.mk (history conversation) later).Attributed ↔ Alternating conversation := by
  have hrole : ∀ i, roleAt i = .assistant ↔ i % 2 = 1 := by
    intro i
    rw [roleAt]
    split
    · next h => simp [h]
    · next h => simpa using Nat.mod_two_ne_zero.mp h
  constructor
  · intro h i e he
    rw [← hrole i]
    obtain ⟨hi, heq⟩ := List.getElem?_eq_some_iff.mp he
    exact h (roleAt i, e) (List.mem_mapIdx.mpr ⟨i, hi, by rw [heq]⟩)
  · intro h p hp
    obtain ⟨i, hi, rfl⟩ := List.mem_mapIdx.mp hp
    rw [hrole i]
    exact h i _ (List.getElem?_eq_getElem hi)

theorem Alternating.append {xs ys : List Entry} (h : Alternating (xs ++ ys)) : Alternating xs :=
  fun i e he => h i e (List.getElem?_append_left (List.getElem?_eq_some_iff.mp he).1 ▸ he)

theorem alternating_snoc {xs : List Entry} {e : Entry} :
    Alternating (xs ++ [e]) ↔ Alternating xs ∧ (xs.length % 2 = 1 ↔ e.speaker = .model) := by
  constructor
  · intro h
    exact ⟨h.append, h xs.length e (by simp)⟩
  · rintro ⟨h, hlast⟩ i e' he
    rcases Nat.lt_trichotomy i xs.length with hlt | rfl | hgt
    · rw [List.getElem?_append_left hlt] at he
      exact h i e' he
    · simp only [List.getElem?_append_right (le_refl _), Nat.sub_self, List.getElem?_cons_zero] at he
      cases he
      exact hlast
    · rw [List.getElem?_eq_none (by simpa using hgt)] at he
      cases he

section

variable (setup : Setup)

def Saves (p : PlanRecord) (fate : SaveFate) : Prop :=
  (p.files setup.host.toml).length < fate.writes ∧
    ∀ f ∈ p.files setup.host.toml, ∃ text, f.2 = .ok text

/-- The text that the loop keeps before reply `i`. -/
def textBefore (script : TurnScript) : ℕ → String
  | 0 => ""
  | i + 1 =>
    Setup.keepText (textBefore script i) ((script.round i).toOption.bind AgentRoundResult.text)

/-- The plan that would be drafted before the tools of reply `i` are called. -/
def inlineRecord (script : TurnScript) (userMsg : String) (i : ℕ) : PlanRecord :=
  Setup.draftRecord (script.draft i) userMsg (textBefore script (i + 1))
    (responseTasks setup.host.toml (textBefore script (i + 1)))

def callsStartBuild (calls : List ToolCall) : Prop := ∃ tc ∈ calls, tc.name = "start_build"

/-- Reply `i` ends the tool loop: it calls no tools, or it calls `start_build` and there is a
plan, be it one that the reply itself brings. -/
def EndsTurn (script : TurnScript) (c : Conductor) (i : ℕ) : Prop :=
  ∃ round, script.round i = .ok round ∧ (round.toolCalls = [] ∨
    callsStartBuild round.toolCalls ∧ (c.currentPlan.isSome = true ∨
      hasPlanTag (textBefore script (i + 1)) = true ∧
        Saves setup (inlineRecord setup script (Setup.lastText c) i) (script.draft i).fate))

def Replied (script : TurnScript) (c : Conductor) : Prop :=
  ∃ i < Setup.turnRounds, (∀ j ≤ i, ∃ round, script.round j = .ok round) ∧
    (i + 1 = Setup.turnRounds ∨ EndsTurn setup script c i)

/-- What a user message leads to: a hot patch that is returned at once, a plan drafted from one
reply, or a tool loop. -/
inductive Branch where
  | hotPatch
  | draft
  | turn

/-- The branch is told from the plan, the model of the classifier and its reply. -/
def branch (c : Conductor) (script : MessageScript) : Branch :=
  if c.currentPlan.isNone then .turn
  else
    match setup.classifyMessage script.classifier with
    | .error _ => .turn
    | .ok output =>
      match output.decision with
      | .informational => .turn
      | .hotPatch => if output.task.isSome then .hotPatch else .turn
      | .scopeChange => .draft
      | .newPlan => .draft

def HasModel : Prop := ∃ config, setup.conductorModel = .ok config

/-- The verdict asks for a revision of a plan that is found and copied to its history. -/
def Revises (c : Conductor) (planId : PlanId) : Verdict → ReviseScript → Prop
  | .revise _, script =>
    (∃ plan, setup.host.load c.disk setup.plansDir planId = .ok plan) ∧ script.snapshot = .ok ()
  | _, _ => False

def Asks (c : Conductor) : Op → Prop
  | .userMessage _ script => HasModel setup ∧ branch setup c script ≠ .hotPatch
  | .criticVerdict planId verdict script => HasModel setup ∧ Revises setup c planId verdict script
  | .announceCompletion _ _ => HasModel setup
  | .materializeTask _ _ => False

/-- The operation adds no entry, or one and the reply to it. -/
def Answered (c : Conductor) : Op → Prop
  | .userMessage msg script => script.digest = "" ∧ HasModel setup ∧
    match branch setup c script with
    | .hotPatch => False
    | .draft => ∃ reply, script.draftReply = .ok reply
    | .turn => Replied setup script.turn (Setup.receive c msg script.digest)
  | .criticVerdict planId verdict script => Revises setup c planId verdict script →
    HasModel setup ∧ ∃ reply, script.reply = .ok reply
  | .announceCompletion _ reply => HasModel setup ∧ ∃ text, reply = .ok text
  | .materializeTask _ _ => True

end

def Op.HasDigest : Op → Prop
  | .userMessage _ script => script.digest ≠ ""
  | _ => False

/-- The history was sent, as it was, if something is asked; and a reply of the model is the
next entry if something is answered. -/
structure Exchange (c c' : Conductor) (asks answered : Prop) : Prop where
  replies : ∃ reply, c'.conversation = c.conversation ++ reply ∧ reply.length ≤ 1 ∧
    (∀ e ∈ reply, e.speaker = .model) ∧ (reply ≠ [] ↔ answered)
  requests : ∃ sent, c'.requests = c.requests ++ sent ∧
    (∀ r ∈ sent, r.history = history c.conversation) ∧ (sent ≠ [] ↔ asks)

namespace Exchange

variable {c c' c'' : Conductor} {asks answered : Prop}

theorem none (hconv : c'.conversation = c.conversation) (hreq : c'.requests = c.requests)
    (hasks : ¬ asks) (hanswered : ¬ answered) : Exchange c c' asks answered :=
  ⟨⟨[], by simp [hconv, hanswered]⟩, ⟨[], by simp [hreq, hasks]⟩⟩

theorem trans (h : Exchange c c' asks answered) (hconv : c''.conversation = c'.conversation)
    (hreq : c''.requests = c'.requests) : Exchange c c'' asks answered :=
  ⟨by rw [hconv]; exact h.replies, by rw [hreq]; exact h.requests⟩

theorem congr (h : Exchange c c' asks answered) {asks' answered' : Prop} (hasks : asks ↔ asks')
    (hanswered : answered ↔ answered') : Exchange c c' asks' answered' := by
  obtain ⟨⟨reply, h₁, h₂, h₃, h₄⟩, ⟨sent, h₅, h₆, h₇⟩⟩ := h
  exact ⟨⟨reply, h₁, h₂, h₃, h₄.trans hanswered⟩, ⟨sent, h₅, h₆, h₇.trans hasks⟩⟩

end Exchange

variable {setup : Setup} {c : Conductor}

theorem not_hasModel {e : String} (h : setup.conductorModel = .error e) : ¬ HasModel setup := by
  rintro ⟨config, hok⟩
  rw [h] at hok
  cases hok

theorem ask_exchange (setup : Setup) (c : Conductor) (reply : Except String String) :
    Exchange c (setup.ask c reply).1 (HasModel setup)
        (HasModel setup ∧ ∃ text, reply = .ok text) ∧
      ((∃ text, (setup.ask c reply).2 = .ok text) ↔ HasModel setup ∧ ∃ text, reply = .ok text) := by
  unfold Setup.ask
  cases hmodel : setup.conductorModel with
  | error e =>
    have hno := not_hasModel hmodel
    exact ⟨.none rfl rfl hno fun h => hno h.1, by simp [hno]⟩
  | ok config =>
    have hyes : HasModel setup := ⟨config, hmodel⟩
    cases reply with
    | error e =>
      exact ⟨⟨⟨[], by simp [Conductor.request]⟩, ⟨[⟨history c.conversation, []⟩],
        by simp [Conductor.request, hyes]⟩⟩, by simp⟩
    | ok text =>
      exact ⟨⟨⟨[⟨.model, text⟩], by simp [Conductor.push, Conductor.hear, Conductor.request, hyes]⟩,
        ⟨[⟨history c.conversation, []⟩], by simp [Conductor.push, Conductor.hear, Conductor.request,
          hyes]⟩⟩, by simp [hyes]⟩

theorem savePlan_frame (setup : Setup) (p : PlanRecord) (fate : SaveFate) (c : Conductor) :
    (setup.savePlan p fate c).1 = { c with disk := (setup.host.save p fate c.disk).1 } := by
  rw [Setup.savePlan]
  cases hsave : setup.host.save p fate c.disk with
  | mk disk result =>
    cases result with
    | ok u => rfl
    | error e => rfl

theorem writeFiles_result (dir : String) (planId : PlanId) (error : String)
    (files : List (PlanFile × Except String String)) (n : ℕ) (disk : Disk) :
    (writeFiles dir planId error n files disk).2 = .ok () ↔
      files.length ≤ n ∧ ∀ f ∈ files, ∃ text, f.2 = .ok text := by
  induction files generalizing n disk with
  | nil => simp [writeFiles]
  | cons f rest ih =>
    obtain ⟨file, content⟩ := f
    cases content with
    | error e => simp [writeFiles]
    | ok text =>
      cases n with
      | zero => simp [writeFiles]
      | succ n =>
        rw [writeFiles, ih]
        simp

theorem savePlan_ok_iff (setup : Setup) (p : PlanRecord) (fate : SaveFate) (c : Conductor) :
    (∃ planId, (setup.savePlan p fate c).2 = .ok planId) ↔ Saves setup p fate := by
  have hsave : (setup.host.save p fate c.disk).2 = .ok () ↔ Saves setup p fate := by
    rw [Host.save, Saves]
    cases fate.writes with
    | zero => simp
    | succ n => rw [writeFiles_result, Nat.lt_succ_iff]
  rw [← hsave, Setup.savePlan]
  cases setup.host.save p fate c.disk with
  | mk disk result =>
    cases result with
    | ok u => simp
    | error e => simp

/-! ### The tool loop -/

theorem executeConductorTool_frame (script : TurnScript) (i index : ℕ) (tc : ToolCall)
    (c : Conductor) :
    ∃ dispatches, (Setup.executeConductorTool script i index tc c).1 =
      { c with dispatches := dispatches } := by
  rw [Setup.executeConductorTool]
  split
  · rw [Setup.executeStartBuild]
    split
    · exact ⟨c.dispatches, rfl⟩
    · exact ⟨_, rfl⟩
  · split
    · exact ⟨c.dispatches, rfl⟩
    · exact ⟨c.dispatches, rfl⟩

theorem executeConductorTool_started (script : TurnScript) (i index : ℕ) (tc : ToolCall)
    (c : Conductor) :
    (tc.name = "start_build" ∧
        Setup.started (Setup.executeConductorTool script i index tc c).2 = true) ↔
      tc.name = "start_build" ∧ c.currentPlan.isSome = true := by
  refine and_congr_right fun hstart => ?_
  rw [Setup.executeConductorTool, if_pos hstart, Setup.executeStartBuild]
  cases c.currentPlan with
  | none =>
    have hno : Setup.started (Orchestration.errorJson Setup.noPlanText) = false := rfl
    simp [hno]
  | some planId =>
    have hyes : Setup.started (Setup.startedJson planId) = true := rfl
    simp [hyes]

/-- The tools leave the conversation, the requests and the plan; and a captain is dispatched
exactly when `start_build` is called while there is a plan. -/
theorem executeTools_frame (script : TurnScript) (i : ℕ) (calls : List ToolCall) (index : ℕ)
    (c : Conductor) :
    (∃ dispatches, (Setup.executeTools script i index calls c).1 =
        { c with dispatches := dispatches }) ∧
      (Setup.dispatchedIn (Setup.executeTools script i index calls c).2 = true ↔
        callsStartBuild calls ∧ c.currentPlan.isSome = true) := by
  induction calls generalizing index c with
  | nil => exact ⟨⟨c.dispatches, rfl⟩, by simp [Setup.executeTools, Setup.dispatchedIn,
      callsStartBuild]⟩
  | cons tc rest ih =>
    obtain ⟨dispatches, hframe⟩ := executeConductorTool_frame script i index tc c
    have hstarted := executeConductorTool_started script i index tc c
    obtain ⟨⟨dispatches', hframe'⟩, hrest⟩ := ih (index + 1)
      (Setup.executeConductorTool script i index tc c).1
    refine ⟨⟨dispatches', ?_⟩, ?_⟩
    · have hcons : (Setup.executeTools script i index (tc :: rest) c).1 =
          (Setup.executeTools script i (index + 1) rest
            (Setup.executeConductorTool script i index tc c).1).1 := rfl
      rw [hcons, hframe', hframe]
    · have hcons : Setup.dispatchedIn (Setup.executeTools script i index (tc :: rest) c).2 = true ↔
          (tc.name = "start_build" ∧
            Setup.started (Setup.executeConductorTool script i index tc c).2 = true) ∨
          Setup.dispatchedIn (Setup.executeTools script i (index + 1) rest
            (Setup.executeConductorTool script i index tc c).1).2 = true := by
        rw [Setup.executeTools, Setup.dispatchedIn, List.any_cons]
        simp [Setup.dispatchedIn]
      rw [hcons, hstarted, hrest, hframe]
      simp only [callsStartBuild, List.exists_mem_cons_iff]
      tauto

theorem draftInline_frame (c : Conductor) (finalText : String) (calls : List ToolCall)
    (draft : Draft) :
    (setup.draftInline c finalText calls draft).conversation = c.conversation ∧
      (setup.draftInline c finalText calls draft).requests = c.requests ∧
      ((setup.draftInline c finalText calls draft).currentPlan = c.currentPlan ∨
        callsStartBuild calls ∧
          (setup.draftInline c finalText calls draft).currentPlan.isSome = true) ∧
      (callsStartBuild calls →
        ((setup.draftInline c finalText calls draft).currentPlan.isSome = true ↔
          c.currentPlan.isSome = true ∨ hasPlanTag finalText = true ∧
            Saves setup (Setup.draftRecord draft (Setup.lastText c) finalText
              (responseTasks setup.host.toml finalText)) draft.fate)) := by
  have hcalls : calls.any (fun tc => decide (tc.name = "start_build")) = true ↔
      callsStartBuild calls := by simp [callsStartBuild]
  have hsaves := savePlan_ok_iff setup (Setup.draftRecord draft (Setup.lastText c)
    finalText (responseTasks setup.host.toml finalText)) draft.fate c
  have hframe := savePlan_frame setup (Setup.draftRecord draft (Setup.lastText c)
    finalText (responseTasks setup.host.toml finalText)) draft.fate c
  rw [Setup.draftInline]
  by_cases hdrafts : Setup.draftsInline c finalText calls = true
  · rw [if_pos hdrafts, Setup.draftPlanFromResponse]
    rw [Setup.draftsInline, Bool.and_eq_true, Bool.and_eq_true, hcalls,
      Option.isNone_iff_eq_none] at hdrafts
    obtain ⟨⟨htag, hnone⟩, hstart⟩ := hdrafts
    cases hsave : setup.savePlan (Setup.draftRecord draft (Setup.lastText c) finalText
      (responseTasks setup.host.toml finalText)) draft.fate c with
    | mk c' result =>
      rw [hsave] at hsaves hframe
      dsimp only at hframe
      subst hframe
      cases result with
      | ok planId =>
        have hyes := hsaves.mp ⟨planId, rfl⟩
        exact ⟨rfl, rfl, .inr ⟨hstart, rfl⟩, fun _ => by simp [htag, hyes]⟩
      | error e =>
        have hno : ¬ Saves setup _ draft.fate := fun hyes => by
          obtain ⟨planId, hok⟩ := hsaves.mpr hyes
          cases hok
        exact ⟨rfl, rfl, .inl rfl, fun _ => by simp [hnone, hno]⟩
  · rw [if_neg hdrafts]
    refine ⟨rfl, rfl, .inl rfl, fun hstart => ?_⟩
    rw [Setup.draftsInline, Bool.and_eq_true, Bool.and_eq_true, hcalls,
      Option.isNone_iff_eq_none] at hdrafts
    constructor
    · exact .inl
    · rintro (hsome | ⟨htag, -⟩)
      · exact hsome
      · rw [Option.isSome_iff_ne_none]
        exact fun hnone => hdrafts ⟨⟨htag, hnone⟩, hstart⟩

/-- With at least `n` replies still to ask for, all of them come until the loop ends. -/
def RepliedFrom (setup : Setup) (script : TurnScript) (c : Conductor) (i n : ℕ) : Prop :=
  ∃ k < n, (∀ j ≤ k, ∃ round, script.round (i + j) = .ok round) ∧
    (k + 1 = n ∨ EndsTurn setup script c (i + k))

theorem EndsTurn.congr {script : TurnScript} {c' : Conductor} {i : ℕ}
    (hplan : c'.currentPlan = c.currentPlan) (hconv : c'.conversation = c.conversation) :
    EndsTurn setup script c' i ↔ EndsTurn setup script c i := by
  rw [EndsTurn, EndsTurn, hplan, Setup.lastText, Setup.lastText, hconv]

theorem repliedFrom_succ {script : TurnScript} {i n : ℕ} :
    RepliedFrom setup script c i (n + 1) ↔ (∃ round, script.round i = .ok round) ∧
      (n = 0 ∨ EndsTurn setup script c i ∨ RepliedFrom setup script c (i + 1) n) := by
  constructor
  · rintro ⟨k, hk, hok, hend⟩
    refine ⟨hok 0 (Nat.zero_le k), ?_⟩
    cases k with
    | zero => exact hend.imp (fun h => (Nat.succ.inj h).symm) .inl
    | succ k =>
      refine .inr (.inr ⟨k, Nat.lt_of_succ_lt_succ hk, fun j hj => ?_, ?_⟩)
      · have := hok (j + 1) (Nat.succ_le_succ hj)
        rwa [show i + (j + 1) = i + 1 + j by omega] at this
      · rw [show i + (k + 1) = i + 1 + k by omega] at hend
        exact hend.imp_left Nat.succ.inj
  · rintro ⟨hfirst, hrest⟩
    have hzero : ∀ j ≤ 0, ∃ round, script.round (i + j) = .ok round := by
      intro j hj
      rwa [Nat.le_zero.mp hj]
    rcases hrest with rfl | hend | ⟨k, hk, hok, hend⟩
    · exact ⟨0, Nat.zero_lt_one, hzero, .inl rfl⟩
    · exact ⟨0, Nat.succ_pos n, hzero, .inr hend⟩
    · refine ⟨k + 1, Nat.succ_lt_succ hk, fun j hj => ?_, ?_⟩
      · cases j with
        | zero => exact hfirst
        | succ j =>
          rw [show i + (j + 1) = i + 1 + j by omega]
          exact hok j (Nat.le_of_succ_le_succ hj)
      · rw [show i + (k + 1) = i + 1 + k by omega]
        exact hend.imp_left (congrArg Nat.succ)

/-- A result of the loop: one exchange, that is answered when the loop returns a text. -/
def Turned (c : Conductor) (result : Conductor × Except String (String × Bool))
    (answered : Prop) : Prop :=
  Exchange c result.1 True answered ∧ ((∃ r, result.2 = .ok r) ↔ answered)

theorem Turned.congr {result : Conductor × Except String (String × Bool)} {answered answered' : Prop}
    (h : Turned c result answered) (hiff : answered ↔ answered') : Turned c result answered' :=
  ⟨h.1.congr Iff.rfl hiff, h.2.trans hiff⟩

theorem finishTurn_turned {c' : Conductor} (hconv : c'.conversation = c.conversation)
    {later : List ConvMessage}
    (hreq : c'.requests = c.requests ++ [⟨history c.conversation, later⟩]) (finalText : String)
    (dispatched : Bool) : Turned c (Setup.finishTurn c' finalText dispatched) True := by
  rw [Setup.finishTurn, Conductor.push]
  exact ⟨⟨⟨[⟨.model, finalText⟩], by simp [hconv]⟩, ⟨[⟨history c.conversation, later⟩],
    by simp [hreq]⟩⟩, by simp⟩

theorem Turned.after {c₃ : Conductor} {result : Conductor × Except String (String × Bool)}
    {answered : Prop} (h : Turned c₃ result answered) (hconv : c₃.conversation = c.conversation)
    {later : List ConvMessage}
    (hreq : c₃.requests = c.requests ++ [⟨history c.conversation, later⟩]) :
    Turned c result answered := by
  obtain ⟨⟨hreplies, ⟨sent, hsent, hhist, -⟩⟩, hok⟩ := h
  rw [hconv] at hreplies hhist
  refine ⟨⟨hreplies, ⟨⟨history c.conversation, later⟩ :: sent, ?_, ?_, by simp⟩⟩, hok⟩
  · rw [hsent, hreq, List.append_assoc]
    rfl
  · exact List.forall_mem_cons.mpr ⟨rfl, hhist⟩

theorem endsTurn_iff_dispatched {script : TurnScript} {i : ℕ} {round : AgentRoundResult}
    (hround : script.round i = .ok round) (hcalls : round.toolCalls ≠ []) {c₁ : Conductor}
    (hconv : c₁.conversation = c.conversation) (hplan : c₁.currentPlan = c.currentPlan) :
    EndsTurn setup script c i ↔ Setup.dispatchedIn (Setup.executeTools script i 0 round.toolCalls
      (setup.draftInline c₁ (textBefore script (i + 1)) round.toolCalls (script.draft i))).2 =
        true := by
  obtain ⟨-, -, -, hstart⟩ := @draftInline_frame setup c₁ (textBefore script (i + 1))
    round.toolCalls (script.draft i)
  rw [(executeTools_frame script i round.toolCalls 0 _).2, ← EndsTurn.congr hplan hconv]
  constructor
  · rintro ⟨round', hround', hnil | ⟨hcall, hsome⟩⟩
    · cases hround.symm.trans hround'
      exact absurd hnil hcalls
    · cases hround.symm.trans hround'
      exact ⟨hcall, (hstart hcall).mpr hsome⟩
  · rintro ⟨hcall, hsome⟩
    exact ⟨round, hround, .inr ⟨hcall, (hstart hcall).mp hsome⟩⟩

theorem turnLoop_reply (script : TurnScript) (n i : ℕ) (c : Conductor) (later : List ConvMessage)
    (hrest : ∀ c₃ later', c₃.conversation = c.conversation → c₃.currentPlan = c.currentPlan →
      c₃.requests = c.requests ++ [⟨history c.conversation, later⟩] →
      Turned c (setup.turnLoop script n (i + 1) c₃ later' (textBefore script (i + 1)))
        (n = 0 ∨ RepliedFrom setup script c (i + 1) n)) :
    Turned c (setup.turnLoop script (n + 1) i c later (textBefore script i))
      (RepliedFrom setup script c i (n + 1)) := by
  rw [Setup.turnLoop]
  have hiff : RepliedFrom setup script c i (n + 1) ↔ _ := repliedFrom_succ
  cases hround : script.round i with
  | error e =>
    have hno : ¬ RepliedFrom setup script c i (n + 1) := by
      rw [hiff, hround]
      rintro ⟨⟨round, hok⟩, -⟩
      cases hok
    exact ⟨⟨⟨[], by simp [Conductor.request, hno]⟩, ⟨[⟨history c.conversation, later⟩],
      by simp [Conductor.request]⟩⟩, by simp [hno]⟩
  | ok round =>
    have htext : Setup.keepText (textBefore script i) round.text = textBefore script (i + 1) := by
      rw [textBefore, hround]
      rfl
    have hround' : ∃ round, script.round i = .ok round := ⟨round, hround⟩
    dsimp only
    rw [htext]
    cases hempty : round.toolCalls with
    | nil =>
      have hyes : RepliedFrom setup script c i (n + 1) :=
        hiff.mpr ⟨hround', .inr (.inl ⟨round, hround, .inl hempty⟩)⟩
      have hfinish : Turned c (Setup.finishTurn ((c.request later).hear round.text)
        (textBefore script (i + 1)) false) True :=
          @finishTurn_turned c ((c.request later).hear round.text) rfl later rfl _ _
      exact hfinish.congr (by simp [hyes])
    | cons tc rest =>
      have hcalls : round.toolCalls ≠ [] := by simp [hempty]
      have hends : EndsTurn setup script c i ↔ _ := @endsTurn_iff_dispatched setup c script i
        round hround hcalls ((c.request later).hear round.text) rfl rfl
      rw [hempty] at hends
      obtain ⟨hconv₂, hreq₂, hplan₂, -⟩ := @draftInline_frame setup
        ((c.request later).hear round.text) (textBefore script (i + 1)) (tc :: rest)
        (script.draft i)
      obtain ⟨⟨dispatches, htools⟩, hdispatched⟩ := executeTools_frame script i (tc :: rest) 0
        (setup.draftInline ((c.request later).hear round.text) (textBefore script (i + 1))
          (tc :: rest) (script.draft i))
      have hconv₃ : ({ setup.draftInline ((c.request later).hear round.text)
          (textBefore script (i + 1)) (tc :: rest) (script.draft i) with
            dispatches := dispatches } : Conductor).conversation = c.conversation := hconv₂
      rw [List.isEmpty_cons, if_neg (by simp)]
      by_cases hend : EndsTurn setup script c i
      · have hyes : RepliedFrom setup script c i (n + 1) :=
          hiff.mpr ⟨hround', .inr (.inl hend)⟩
        rw [if_pos (hends.mp hend), htools]
        have hfinish := finishTurn_turned hconv₃ hreq₂ (textBefore script (i + 1)) true
        exact hfinish.congr (by simp [hyes])
      · have hsame : (setup.draftInline ((c.request later).hear round.text)
            (textBefore script (i + 1)) (tc :: rest) (script.draft i)).currentPlan =
            c.currentPlan := by
          refine hplan₂.resolve_right fun hnew => ?_
          exact hend (hends.mpr (hdispatched.mpr hnew))
        rw [if_neg fun h => hend (hends.mpr h), htools]
        refine (hrest _ _ hconv₃ hsame hreq₂).congr ?_
        rw [hiff]
        simp [hround', hend]

theorem turnLoop_turned (script : TurnScript) (n i : ℕ) (c : Conductor)
    (later : List ConvMessage) :
    Turned c (setup.turnLoop script (n + 1) i c later (textBefore script i))
      (RepliedFrom setup script c i (n + 1)) := by
  induction n generalizing i c later with
  | zero =>
    refine turnLoop_reply script 0 i c later fun c₃ later' hconv hplan hreq => ?_
    rw [Setup.turnLoop]
    exact (finishTurn_turned hconv hreq _ _).congr (by simp)
  | succ n ih =>
    refine turnLoop_reply script (n + 1) i c later fun c₃ later' hconv hplan hreq => ?_
    refine ((ih (i + 1) c₃ later').after hconv hreq).congr ?_
    simp only [Nat.succ_ne_zero, false_or]
    rw [RepliedFrom, RepliedFrom]
    simp only [EndsTurn.congr hplan hconv]

theorem repliedFrom_turnRounds {script : TurnScript} :
    RepliedFrom setup script c 0 Setup.turnRounds ↔ Replied setup script c := by
  rw [RepliedFrom, Replied]
  simp only [Nat.zero_add]

theorem conversationalTurn_exchange (setup : Setup) (c : Conductor) (script : TurnScript) :
    Exchange c (setup.conversationalTurn c script).1 (HasModel setup)
        (HasModel setup ∧ Replied setup script c) ∧
      ((∃ r, (setup.conversationalTurn c script).2 = .ok r) ↔
        HasModel setup ∧ Replied setup script c) := by
  unfold Setup.conversationalTurn
  cases hmodel : setup.conductorModel with
  | error e =>
    have hno := not_hasModel hmodel
    exact ⟨.none rfl rfl hno fun h => hno h.1, by simp [hno]⟩
  | ok config =>
    have hyes : HasModel setup := ⟨config, hmodel⟩
    obtain ⟨hexchange, hok⟩ := @turnLoop_turned setup script 4 0 c []
    rw [show (4 + 1 : ℕ) = Setup.turnRounds from rfl, repliedFrom_turnRounds] at hexchange hok
    exact ⟨hexchange.congr (by simp [hyes]) (by simp [hyes]), hok.trans (by simp [hyes])⟩

/-! ### One operation -/

theorem receive_frame (c : Conductor) (msg digest : String) :
    ∃ heard, (Setup.receive c msg digest).conversation = c.conversation ++ heard ∧
      (Setup.receive c msg digest).requests = c.requests ∧
      (Setup.receive c msg digest).currentPlan = c.currentPlan ∧ heard ≠ [] ∧
      (∀ e ∈ heard, e.speaker ≠ .model) ∧ (heard.length = 1 ↔ digest = "") := by
  rw [Setup.receive]
  split
  · next h => exact ⟨[⟨.user, msg⟩], by simp [Conductor.push, h]⟩
  · next h => exact ⟨[⟨.user, msg⟩, ⟨.system, "[System] " ++ digest⟩],
      by simp [Conductor.push, h]⟩

def MessageReplied (setup : Setup) (c c₀ : Conductor) (script : MessageScript) : Prop :=
  match branch setup c script with
  | .hotPatch => False
  | .draft => HasModel setup ∧ ∃ reply, script.draftReply = .ok reply
  | .turn => HasModel setup ∧ Replied setup script.turn c₀

theorem draftPlan_exchange (setup : Setup) (c : Conductor) (msg : String) (reply : Except String String)
    (draft : Draft) (out : PlanId → ConductorReply) :
    Exchange c (Setup.adopt (setup.draftPlan c msg reply draft) out).1 (HasModel setup)
      (HasModel setup ∧ ∃ text, reply = .ok text) := by
  have hask := (ask_exchange setup c reply).1
  rw [Setup.draftPlan]
  cases hcall : setup.ask c reply with
  | mk c₁ result =>
    rw [hcall] at hask
    cases result with
    | error e => exact hask
    | ok response =>
      dsimp only
      have hframe := savePlan_frame setup
        (Setup.draftRecord draft msg response (draftTasks setup.host.toml response)) draft.fate c₁
      cases hsave : setup.savePlan (Setup.draftRecord draft msg response
        (draftTasks setup.host.toml response)) draft.fate c₁ with
      | mk c₂ saved =>
        rw [hsave] at hframe
        dsimp only at hframe
        subst hframe
        cases saved with
        | ok planId => exact hask.trans rfl rfl
        | error e => exact hask.trans rfl rfl

theorem chatTurn_exchange (setup : Setup) (c : Conductor) (script : TurnScript) :
    Exchange c (setup.chatTurn c script).1 (HasModel setup)
      (HasModel setup ∧ Replied setup script c) := by
  have hturn := (conversationalTurn_exchange setup c script).1
  rw [Setup.chatTurn]
  split
  · next hcall => rwa [hcall] at hturn
  · next hcall => rwa [hcall] at hturn
  · next hcall => rwa [hcall] at hturn

theorem normalTurn_exchange (setup : Setup) (c : Conductor) (msg : String) (script : MessageScript) :
    Exchange c (setup.normalTurn c msg script).1 (HasModel setup)
      (HasModel setup ∧ Replied setup script.turn c) := by
  have hturn := (conversationalTurn_exchange setup c script.turn).1
  rw [Setup.normalTurn]
  split
  · next hcall => rwa [hcall] at hturn
  · next hcall => rwa [hcall] at hturn
  · next c₁ reply hcall =>
    rw [hcall] at hturn
    split
    · have hframe := savePlan_frame setup (Setup.draftRecord script.draft msg reply
        (responseTasks setup.host.toml reply)) script.draft.fate c₁
      rw [Setup.draftPlanFromResponse]
      cases hsave : setup.savePlan (Setup.draftRecord script.draft msg reply
        (responseTasks setup.host.toml reply)) script.draft.fate c₁ with
      | mk c₂ saved =>
        rw [hsave] at hframe
        dsimp only at hframe
        subst hframe
        cases saved with
        | ok planId => exact hturn.trans rfl rfl
        | error e => exact hturn.trans rfl rfl
    · exact hturn

theorem handleUserMessage_exchange (setup : Setup) (c : Conductor) (msg : String) (script : MessageScript) :
    Exchange (Setup.receive c msg script.digest) (setup.handleUserMessage c msg script).1
      (Asks setup c (.userMessage msg script))
      (MessageReplied setup c (Setup.receive c msg script.digest) script) := by
  obtain ⟨-, -, -, hplan, -⟩ := receive_frame c msg script.digest
  have hnormal := normalTurn_exchange setup (Setup.receive c msg script.digest) msg script
  have hchat := chatTurn_exchange setup (Setup.receive c msg script.digest) script.turn
  have hdraft := draftPlan_exchange setup (Setup.receive c msg script.digest) msg
    script.draftReply script.draft
  unfold Setup.handleUserMessage
  dsimp only
  rw [hplan, Asks, MessageReplied, branch]
  cases c.currentPlan with
  | none => exact hnormal.congr (by simp) Iff.rfl
  | some oldPlan =>
    cases setup.classifyMessage script.classifier with
    | error e => exact hnormal.congr (by simp) Iff.rfl
    | ok output =>
      dsimp only
      cases output.decision with
      | informational => exact hchat.congr (by simp) Iff.rfl
      | hotPatch =>
        cases output.task with
        | none => exact hnormal.congr (by simp) Iff.rfl
        | some info => exact .none rfl rfl (by simp) id
      | scopeChange => exact (hdraft _).congr (by simp) Iff.rfl
      | newPlan => exact (hdraft _).congr (by simp) Iff.rfl

/-- What an operation adds: entries of the user and the system, sent as they are if anything is
asked, and a reply behind them if they are answered. -/
structure Adds (setup : Setup) (c : Conductor) (op : Op) (heard : List Entry) (replied : Prop) :
    Prop where
  speakers : ∀ e ∈ heard, e.speaker ≠ .model
  silent : heard = [] → ¬ Asks setup c op ∧ ¬ replied
  digest : Asks setup c op → (heard.length = 1 ↔ ¬ op.HasDigest)
  answered : Answered setup c op ↔ heard = [] ∨ heard.length = 1 ∧ replied

theorem step_exchange (setup : Setup) (c : Conductor) (op : Op) :
    ∃ heard c₀ replied, Adds setup c op heard replied ∧
      c₀.conversation = c.conversation ++ heard ∧ c₀.requests = c.requests ∧
      Exchange c₀ (setup.step c op) (Asks setup c op) replied := by
  cases op with
  | userMessage msg script =>
    obtain ⟨heard, hconv, hreq, hplan, hne, hspeakers, hone⟩ := receive_frame c msg script.digest
    refine ⟨heard, _, _, ⟨hspeakers, fun h => absurd h hne, fun _ => ?_, ?_⟩, hconv, hreq,
      handleUserMessage_exchange setup c msg script⟩
    · rw [hone, Op.HasDigest, not_not]
    · rw [Answered, MessageReplied, hone]
      cases branch setup c script with
      | hotPatch => simp [hne]
      | draft => simp [hne]
      | turn => simp [hne]
  | criticVerdict planId verdict script =>
    have hsilent : ¬ Revises setup c planId verdict script →
        setup.step c (.criticVerdict planId verdict script) = c →
        ∃ heard c₀ replied, Adds setup c (.criticVerdict planId verdict script) heard replied ∧
          c₀.conversation = c.conversation ++ heard ∧ c₀.requests = c.requests ∧
          Exchange c₀ (setup.step c (.criticVerdict planId verdict script))
            (Asks setup c (.criticVerdict planId verdict script)) replied := by
      intro hno hsame
      have hasks : ¬ Asks setup c (.criticVerdict planId verdict script) := fun h => hno h.2
      refine ⟨[], c, False, ⟨by simp, fun _ => ⟨hasks, id⟩, fun h => absurd h hasks, ?_⟩, by simp,
        rfl, .none (by rw [hsame]) (by rw [hsame]) hasks id⟩
      rw [Answered]
      simp [hno]
    cases verdict with
    | approve => exact hsilent id rfl
    | block reason => exact hsilent id rfl
    | revise issues =>
      cases hload : setup.host.load c.disk setup.plansDir planId with
      | error e =>
        refine hsilent ?_ ?_
        · rintro ⟨⟨plan, hok⟩, -⟩
          rw [hload] at hok
          cases hok
        · rw [Setup.step, Setup.handleCriticVerdict]
          simp only [hload]
      | ok plan =>
        cases hsnapshot : script.snapshot with
        | error e =>
          refine hsilent ?_ ?_
          · rintro ⟨-, hok⟩
            rw [hsnapshot] at hok
            cases hok
          · rw [Setup.step, Setup.handleCriticVerdict]
            simp only [hload, hsnapshot]
        | ok u =>
          have hrevises : Revises setup c planId (.revise issues) script :=
            ⟨⟨plan, hload⟩, hsnapshot⟩
          have hask := (ask_exchange setup (c.push .system (Setup.fixPrompt issues)) script.reply).1
          have hstep : Exchange (c.push .system (Setup.fixPrompt issues))
              (setup.step c (.criticVerdict planId (.revise issues) script)) (HasModel setup)
              (HasModel setup ∧ ∃ text, script.reply = .ok text) := by
            rw [Setup.step, Setup.handleCriticVerdict]
            simp only [hload, hsnapshot]
            cases hcall : setup.ask (c.push .system (Setup.fixPrompt issues)) script.reply with
            | mk c₁ result =>
              rw [hcall] at hask
              cases result with
              | error e => exact hask
              | ok response => exact hask.trans rfl rfl
          refine ⟨[⟨.system, Setup.fixPrompt issues⟩], c.push .system (Setup.fixPrompt issues),
            HasModel setup ∧ ∃ text, script.reply = .ok text,
            ⟨by simp, by simp, by simp [Op.HasDigest], ?_⟩, rfl, rfl, hstep.congr ?_ Iff.rfl⟩
          · rw [Answered]
            simp [hrevises]
          · rw [Asks]
            simp [hrevises]
  | announceCompletion builtSummary reply =>
    have hask := (ask_exchange setup (c.push .system (Setup.completionText builtSummary)) reply).1
    have hstep : setup.step c (.announceCompletion builtSummary reply) =
        (setup.ask (c.push .system (Setup.completionText builtSummary)) reply).1 := by
      rw [Setup.step, Setup.announceCompletion]
      split
      · next hcall => rw [hcall]
      · next hcall => rw [hcall]
    refine ⟨[⟨.system, Setup.completionText builtSummary⟩],
      c.push .system (Setup.completionText builtSummary),
      HasModel setup ∧ ∃ text, reply = .ok text,
      ⟨by simp, by simp, by simp [Op.HasDigest], ?_⟩, rfl, rfl, hstep ▸ hask⟩
    rw [Answered]
    simp
  | materializeTask task draft =>
    have hframe := savePlan_frame setup (Setup.taskRecord task draft) draft.fate c
    refine ⟨[], c, False, ⟨by simp, by simp [Asks], by simp [Asks], by simp [Answered]⟩, by simp,
      rfl, ?_⟩
    rw [Setup.step, Setup.materializeTaskAsPlan]
    cases hsave : setup.savePlan (Setup.taskRecord task draft) draft.fate c with
    | mk c₁ result =>
      rw [hsave] at hframe
      dsimp only at hframe
      subst hframe
      cases result with
      | ok planId => exact .none rfl rfl id id
      | error e => exact .none rfl rfl id id

/-! ### Runs -/

def Setup.run (setup : Setup) (disk : Disk) (ops : List Op) : Conductor :=
  ops.foldl setup.step (.start disk)

theorem Setup.run_snoc (setup : Setup) (disk : Disk) (ops : List Op) (op : Op) :
    setup.run disk (ops ++ [op]) = setup.step (setup.run disk ops) op := by
  rw [Setup.run, List.foldl_append]
  rfl

def AllAnswered (setup : Setup) (disk : Disk) (ops : List Op) : Prop :=
  ∀ before op after, ops = before ++ op :: after → Answered setup (setup.run disk before) op

/-- Whenever the model is asked, no digest was added and everything before was answered. -/
def AskedInTurn (setup : Setup) (disk : Disk) (ops : List Op) : Prop :=
  ∀ before op after, ops = before ++ op :: after → Asks setup (setup.run disk before) op →
    ¬ op.HasDigest ∧ AllAnswered setup disk before

theorem append_cons_eq_snoc {α : Type*} {before after xs : List α} {x y : α} :
    xs ++ [y] = before ++ x :: after ↔
      (after = [] ∧ before = xs ∧ x = y) ∨ ∃ rest, after = rest ++ [y] ∧ xs = before ++ x :: rest := by
  rcases List.eq_nil_or_concat after with rfl | ⟨rest, z, rfl⟩
  · constructor
    · intro h
      obtain ⟨rfl, heq⟩ := List.append_inj' h rfl
      exact .inl ⟨rfl, rfl, (List.cons.inj heq).1.symm⟩
    · rintro (⟨-, rfl, rfl⟩ | ⟨rest, hnil, -⟩)
      · rfl
      · simp at hnil
  · rw [List.concat_eq_append, ← List.cons_append, ← List.append_assoc]
    constructor
    · intro h
      obtain ⟨rfl, heq⟩ := List.append_inj' h rfl
      exact .inr ⟨rest, by rw [(List.cons.inj heq).1], rfl⟩
    · rintro (⟨hnil, -⟩ | ⟨rest', heq, rfl⟩)
      · simp at hnil
      · rw [List.append_inj_left' heq rfl, (List.cons.inj (List.append_inj_right' heq rfl)).1]

theorem forall_snoc {α : Type*} {P : List α → α → Prop} {xs : List α} {y : α} :
    (∀ before x after, xs ++ [y] = before ++ x :: after → P before x) ↔
      (∀ before x after, xs = before ++ x :: after → P before x) ∧ P xs y := by
  simp only [append_cons_eq_snoc]
  constructor
  · intro h
    exact ⟨fun before x after heq => h before x _ (.inr ⟨after, rfl, heq⟩),
      h xs y [] (.inl ⟨rfl, rfl, rfl⟩)⟩
  · rintro ⟨hxs, hy⟩ before x after (⟨-, rfl, rfl⟩ | ⟨rest, -, heq⟩)
    · exact hy
    · exact hxs before x rest heq

theorem allAnswered_snoc {disk : Disk} {ops : List Op} {op : Op} :
    AllAnswered setup disk (ops ++ [op]) ↔
      AllAnswered setup disk ops ∧ Answered setup (setup.run disk ops) op :=
  forall_snoc

theorem askedInTurn_snoc {disk : Disk} {ops : List Op} {op : Op} :
    AskedInTurn setup disk (ops ++ [op]) ↔ AskedInTurn setup disk ops ∧
      (Asks setup (setup.run disk ops) op → ¬ op.HasDigest ∧ AllAnswered setup disk ops) :=
  forall_snoc

/-- A conversation that was answered alternates and waits for the next user message; in any
other, an entry added next stands where the model's would. -/
def InStep (conversation : List Entry) : Prop :=
  Alternating conversation ∧ conversation.length % 2 = 0

theorem alternating_append_heard {xs heard : List Entry} (hne : heard ≠ [])
    (hspeakers : ∀ e ∈ heard, e.speaker ≠ .model) :
    Alternating (xs ++ heard) ↔ InStep xs ∧ heard.length = 1 := by
  cases heard with
  | nil => exact absurd rfl hne
  | cons e rest =>
    have hfirst : e.speaker ≠ .model := hspeakers e List.mem_cons_self
    have hone : Alternating (xs ++ [e]) ↔ InStep xs := by
      rw [alternating_snoc, InStep]
      simp [hfirst]
    cases rest with
    | nil => simpa using hone
    | cons e' rest =>
      have hsecond : e'.speaker ≠ .model := hspeakers e' (by simp)
      refine ⟨fun h => ?_, fun h => absurd h.2 (by simp)⟩
      rw [show xs ++ e :: e' :: rest = xs ++ [e] ++ [e'] ++ rest by simp] at h
      obtain ⟨h₁, hlast⟩ := alternating_snoc.mp h.append
      obtain ⟨-, heven⟩ := hone.mp h₁
      exact absurd (hlast.mp (by simp; omega)) hsecond

theorem inStep_step (op : Op) :
    InStep (setup.step c op).conversation ↔ InStep c.conversation ∧ Answered setup c op := by
  obtain ⟨heard, c₀, replied, hadds, hconv, -, ⟨reply, hreply, hlen, hmodel, hreplied⟩, -⟩ :=
    step_exchange setup c op
  rw [hreply, hconv, hadds.answered]
  by_cases hheard : heard = []
  · have hnil : reply = [] := by
      by_contra hne
      exact (hadds.silent hheard).2 (hreplied.mp hne)
    simp [hheard, hnil]
  · have halt : Alternating (c.conversation ++ heard) ↔ InStep c.conversation ∧ heard.length = 1 :=
      alternating_append_heard hheard hadds.speakers
    cases reply with
    | nil =>
      have hno : ¬ replied := fun h => hreplied.mpr h rfl
      rw [InStep, List.append_nil, halt]
      simp only [hheard, hno, and_false, or_self, iff_false, not_and]
      rintro ⟨⟨-, heven⟩, hone⟩
      simp [hone]
      omega
    | cons e rest =>
      have hyes : replied := hreplied.mp (List.cons_ne_nil _ _)
      have hrest : rest = [] := by
        rw [List.length_cons] at hlen
        exact List.length_eq_zero_iff.mp (by omega)
      subst hrest
      have hspeaker : e.speaker = .model := hmodel e List.mem_cons_self
      rw [InStep, alternating_snoc, halt]
      simp only [hheard, hyes, hspeaker, and_true, iff_true, false_or]
      constructor
      · rintro ⟨⟨⟨hin, hone⟩, -⟩, -⟩
        exact ⟨hin, hone⟩
      · rintro ⟨hin, hone⟩
        have heven := hin.2
        refine ⟨⟨⟨hin, hone⟩, ?_⟩, ?_⟩
        · simp [hone]; omega
        · simp [hone]; omega

theorem attributed_step (op : Op) :
    (setup.step c op).Attributed ↔ c.Attributed ∧
      (Asks setup c op → ¬ op.HasDigest ∧ InStep c.conversation) := by
  obtain ⟨heard, c₀, replied, hadds, hconv, hreq, -, ⟨sent, hsent, hhist, hasks⟩⟩ :=
    step_exchange setup c op
  have hrequest : ∀ r ∈ sent, r.Attributed ↔ ¬ op.HasDigest ∧ InStep c.conversation := by
    intro r hr
    have hask : Asks setup c op := hasks.mp (List.ne_nil_of_mem hr)
    have hne : heard ≠ [] := fun h => (hadds.silent h).1 hask
    have hattr : r.Attributed ↔ Alternating c₀.conversation := by
      have hsame : r = ⟨history c₀.conversation, r.later⟩ := by rw [← hhist r hr]
      rw [hsame]
      exact attributed_history
    rw [hattr, hconv, alternating_append_heard hne hadds.speakers, hadds.digest hask]
    exact and_comm
  rw [Conductor.Attributed, hsent, hreq]
  simp only [List.forall_mem_append]
  refine and_congr_right fun _ => ⟨fun h hask => ?_, fun h r hr => ?_⟩
  · obtain ⟨r, hr⟩ := List.exists_mem_of_ne_nil _ (hasks.mpr hask)
    exact (hrequest r hr).mp (h r hr)
  · exact (hrequest r hr).mpr (h (hasks.mp (List.ne_nil_of_mem hr)))

theorem inStep_run (disk : Disk) (ops : List Op) :
    InStep (setup.run disk ops).conversation ↔ AllAnswered setup disk ops := by
  induction ops using List.reverseRecOn with
  | nil =>
    refine ⟨fun _ before op after h => ?_, fun _ => ⟨fun i e he => ?_, rfl⟩⟩
    · simp at h
    · cases he
  | append_singleton ops op ih => rw [Setup.run_snoc, inStep_step, ih, allAnswered_snoc]

/-- **Entries keep their speakers exactly as long as the model is asked in turn.**  After any
sequence of operations every history sent to the model gives each entry the role of the one
who produced it, if and only if no operation asks the model with a digest, or after an
operation that was left without an answer. -/
theorem attributed_iff (setup : Setup) (disk : Disk) (ops : List Op) :
    (setup.run disk ops).Attributed ↔ AskedInTurn setup disk ops := by
  induction ops using List.reverseRecOn with
  | nil =>
    refine ⟨fun _ before op after h => ?_, fun _ r hr => ?_⟩
    · simp at h
    · cases hr
  | append_singleton ops op ih =>
    rw [Setup.run_snoc, attributed_step, ih, askedInTurn_snoc, inStep_run]

def chatSetup : Setup where
  host := ⟨id, ⟨fun _ => .error "", fun _ => .error "", ⟨fun _ => .error "", fun _ => .error ""⟩,
    ⟨fun _ => .error "", fun _ => .error ""⟩, ⟨fun _ => .error "", fun _ => .error ""⟩,
    ⟨fun _ => .error "", fun _ => .error ""⟩⟩, "No such file or directory"⟩
  cfg := ⟨∅, AList.insert .conductor ⟨.anthropic, "claude"⟩ ∅⟩
  decrypt := .ok
  plansDir := ".mowis/plans"
  parseClassifier _ := none

def messageWith (reply : Except String AgentRoundResult) : MessageScript where
  digest := ""
  classifier := .error "unused"
  rand := 0
  turn := ⟨fun _ => reply, fun _ _ => .null, fun _ => ⟨"p", "now", ⟨0, "unused"⟩⟩⟩
  draft := ⟨"p", "now", ⟨0, "unused"⟩⟩
  draftReply := .error "unused"

/-- The first call of the model fails, and the user's second message is sent as the assistant's. -/
theorem failed_call_shifts_roles :
    ¬ (chatSetup.run ∅ [.userMessage "hello" (messageWith (.error "429")),
      .userMessage "are you there?" (messageWith (.ok ⟨some "yes", [], ⟨0, 0⟩⟩))]).Attributed := by
  intro h
  have hsecond : (⟨[(.user, ⟨.user, "hello"⟩), (.assistant, ⟨.user, "are you there?"⟩)], []⟩ :
      Request) ∈ (chatSetup.run ∅ [.userMessage "hello" (messageWith (.error "429")),
        .userMessage "are you there?" (messageWith (.ok ⟨some "yes", [], ⟨0, 0⟩⟩))]).requests :=
    List.mem_cons_of_mem _ List.mem_cons_self
  have hrole := (h _ hsecond (.assistant, ⟨.user, "are you there?"⟩)
    (List.mem_cons_of_mem _ List.mem_cons_self)).mp rfl
  cases hrole

end Mowis.Planning
