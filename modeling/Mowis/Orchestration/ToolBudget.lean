import Mowis.Orchestration.Pairing

/-!
# The tool budget of a crew

`Crew::run` looks at the number of its tool calls before a round, and handles every call of the
reply; and the input that a waiting command is sent is no counted call.
-/

namespace Mowis.Orchestration

open Mowis.Lib
open Mowis.Review (Json)

def Action.isInvoke : Action → Bool
  | .invoke _ => true
  | .llm _ _ => false

def invocations (actions : List Action) : ℕ := actions.countP Action.isInvoke

theorem invocations_snoc (actions : List Action) (a : Action) :
    invocations (actions ++ [a]) = invocations actions + if a.isInvoke then 1 else 0 := by
  rw [invocations, invocations, List.countP_append, List.countP_singleton]

def CrewOutcome.toolCalls : CrewOutcome → ℕ
  | .done _ _ toolCalls => toolCalls
  | .failed _ _ toolCalls => toolCalls

def Script.answersPrompt (script : Script) (t index : ℕ) : Bool :=
  (interactivePrompt (resultJson (script.result t index))).isSome && (script.input t index).isOk

namespace Crew

variable (crew : Crew) (script : Script)

/-- The inputs sent for the calls of a reply, from the one at `index` on. -/
def sentFrom (t : ℕ) : ℕ → List ToolCall → List Asked → ℕ
  | _, [], _ => 0
  | index, tc :: rest, earlier =>
    (if crew.counted earlier tc && script.answersPrompt t index then 1 else 0) +
      sentFrom t (index + 1) rest ((tc, script.result t index) :: earlier)

/-- The inputs sent for the first `t` replies. -/
def sent : ℕ → ℕ
  | 0 => 0
  | t + 1 => sent t + crew.sentFrom script t 0 (script.toolCalls t) (script.asked t)

/-- The calls of the gateway stay within the budget throughout the run, and what the crew
returns is their number. -/
structure BudgetKept : Prop where
  bounded : ∀ n, invocations (crew.run script n).actions ≤ maxToolCalls
  truthful : ∀ n outcome actions, crew.run script n = .returned outcome actions →
    outcome.toolCalls = invocations actions

/-- No reply that is read takes the counted calls, with the inputs sent, over the budget; and no
input is sent by a crew that returns. -/
def RepliesFit : Prop :=
  ∀ t, (∀ j < t, ¬ crew.Stops script j) →
    crew.countedCalls (script.asked t) + crew.sent script t ≤ maxToolCalls ∧
      (crew.Stops script t → crew.sent script t = 0)

variable {crew script}
variable {rounds index t : ℕ} {earlier : List Asked} {st : CrewState} {tc : ToolCall}

theorem invoke_invocations (index : ℕ) (tc : ToolCall) (st : CrewState) :
    (crew.invoke script index tc st).1.toolCallCount = st.toolCallCount + 1 ∧
      invocations (crew.invoke script index tc st).1.actions = invocations st.actions + 1 +
        if script.answersPrompt st.turn index then 1 else 0 := by
  rw [Crew.invoke, Script.answersPrompt]
  dsimp only
  cases interactivePrompt (resultJson (script.result st.turn index)) with
  | none => exact ⟨rfl, invocations_snoc _ _⟩
  | some prompt =>
    dsimp only
    have hasked : ∀ c, invocations (st.actions ++ [.invoke tc] ++ [.llm .input c]) =
        invocations st.actions + 1 := by
      intro c
      rw [invocations_snoc, invocations_snoc]
      rfl
    cases script.input st.turn index with
    | error e => exact ⟨rfl, hasked _⟩
    | ok round => exact ⟨rfl, (invocations_snoc _ _).trans (congrArg (· + 1) (hasked _))⟩

theorem handleCall_invocations (index : ℕ) (tc : ToolCall) (st : CrewState) :
    ((crew.handleCall script index tc st).1.toolCallCount = st.toolCallCount ∧
      invocations (crew.handleCall script index tc st).1.actions = invocations st.actions) ∨
    ((crew.handleCall script index tc st).1.toolCallCount = st.toolCallCount + 1 ∧
      invocations (crew.handleCall script index tc st).1.actions = invocations st.actions + 1 +
        if script.answersPrompt st.turn index then 1 else 0) := by
  have hrecord := recordWrite_eq st tc
  rw [handleCall]
  split
  · exact .inl ⟨rfl, rfl⟩
  · split
    · exact .inl ⟨rfl, rfl⟩
    · dsimp only
      rw [hrecord]
      split
      · exact .inl ⟨rfl, rfl⟩
      · split
        · exact .inl ⟨rfl, rfl⟩
        · exact .inr (invoke_invocations index tc _)

/-- What was made so far is what the replies say. -/
structure Invoked (crew : Crew) (rounds : ℕ) (earlier : List Asked) (sent : ℕ) (st : CrewState) :
    Prop where
  tracks : Tracks crew rounds earlier st
  made : invocations st.actions = crew.countedCalls earlier + sent

theorem Invoked.handleCall {sent : ℕ} (h : Invoked crew rounds earlier sent st) (index : ℕ)
    (tc : ToolCall) :
    Invoked crew rounds ((tc, script.result st.turn index) :: earlier)
      (sent + if crew.counted earlier tc && script.answersPrompt st.turn index then 1 else 0)
      (crew.handleCall script index tc st).1 := by
  have htracks : Tracks crew rounds ((tc, script.result st.turn index) :: earlier)
      (crew.handleCall script index tc st).1 := h.tracks.handleCall index tc
  have hbefore := h.tracks.count
  have hafter := htracks.count
  have hmade := h.made
  refine ⟨htracks, ?_⟩
  rw [countedCalls] at hafter ⊢
  cases hcounted : crew.counted earlier tc with
  | false =>
    simp only [hcounted, Bool.false_and, Bool.false_eq_true, if_false, Nat.add_zero] at hafter ⊢
    rcases @handleCall_invocations crew script index tc st with
      ⟨-, hsame⟩ | ⟨hcount, -⟩
    · rw [hsame, hmade]
    · omega
  | true =>
    simp only [hcounted, Bool.true_and, if_true] at hafter ⊢
    rcases @handleCall_invocations crew script index tc st with
      ⟨hcount, -⟩ | ⟨-, hmore⟩
    · omega
    · rw [hmore, hmade]
      omega

theorem Invoked.handleCalls (calls : List ToolCall) {sent : ℕ} (index : ℕ)
    (h : Invoked crew rounds earlier sent st) :
    Invoked crew rounds (script.askedFrom st.turn index calls earlier)
      (sent + crew.sentFrom script st.turn index calls earlier)
      (crew.handleCalls script index calls st).1 := by
  induction calls generalizing index earlier sent st with
  | nil => exact h
  | cons tc rest ih =>
    have hturn : (crew.handleCall script index tc st).1.turn = st.turn :=
      (handleCall_frame index tc st).1
    have hrest := ih (index + 1) (@Invoked.handleCall crew script _ _ _ _ h index tc)
    rw [hturn, Nat.add_assoc] at hrest
    exact hrest

/-- The state in which turn `t` begins, with the calls made so far. -/
structure Spent (crew : Crew) (script : Script) (t : ℕ) (st : CrewState) : Prop where
  turn : Turn crew script t st
  made : invocations st.actions = crew.countedCalls (script.asked t) + crew.sent script t

theorem Spent.start : Spent crew script 0 crew.start := ⟨Turn.start, rfl⟩

theorem Spent.step (h : Spent crew script t st) :
    (crew.Stops script t → ∃ outcome actions, crew.turn script st = .returned outcome actions ∧
      outcome.toolCalls = crew.countedCalls (script.asked t) ∧
      invocations actions = crew.countedCalls (script.asked t) + crew.sent script t) ∧
    (¬ crew.Stops script t → ∃ st', crew.turn script st = .running st' ∧
      Spent crew script (t + 1) st') := by
  have hcount := h.turn.tracks.count
  have hmade := h.made
  have hround : invocations (st.act (.llm .round st.conversation)).actions =
      crew.countedCalls (script.asked t) + crew.sent script t :=
    (invocations_snoc _ _).trans hmade
  constructor
  · intro hstop
    rw [Crew.turn, h.turn.tracks.roundCount, if_neg (by decide), hcount, h.turn.tokens, h.turn.turn]
    by_cases hcalls : maxToolCalls ≤ crew.countedCalls (script.asked t)
    · rw [if_pos hcalls]
      exact ⟨_, _, rfl, hcount, hmade⟩
    · rw [if_neg hcalls]
      by_cases htokens : maxInputTokens ≤ script.tokens t
      · rw [if_pos htokens]
        exact ⟨_, _, rfl, hcount, hmade⟩
      · rw [if_neg htokens]
        have hends : script.Ends t := hstop.resolve_left (not_or.mpr ⟨hcalls, htokens⟩)
        rw [Script.Ends, Script.toolCalls] at hends
        dsimp only
        cases hreply : script.reply t with
        | error e => exact ⟨_, _, rfl, hcount, hround⟩
        | ok round =>
          rw [hreply] at hends
          have hfinal : round.isFinal = true := List.isEmpty_iff.mpr hends
          dsimp only
          rw [if_pos hfinal]
          exact ⟨_, _, rfl, hcount, hround⟩
  · intro hgoes
    obtain ⟨st', hturn, hnext⟩ := h.turn.step.2 hgoes
    refine ⟨st', hturn, hnext, ?_⟩
    obtain ⟨hused, hends⟩ := not_or.mp hgoes
    obtain ⟨hcalls, htokens⟩ := not_or.mp hused
    rw [Crew.turn, h.turn.tracks.roundCount, if_neg (by decide), hcount, h.turn.tokens, h.turn.turn,
      if_neg hcalls, if_neg htokens] at hturn
    dsimp only at hturn
    rw [Script.Ends, Script.toolCalls] at hends
    cases hreply : script.reply t with
    | error e =>
      rw [hreply] at hends
      exact absurd rfl hends
    | ok round =>
      rw [hreply] at hends hturn
      have hfinal : round.isFinal = false := by
        rw [AgentRoundResult.isFinal, List.isEmpty_eq_false_iff]
        exact hends
      dsimp only at hturn
      rw [if_neg (by simp [hfinal])] at hturn
      have hbefore : Invoked crew (t + 1) (script.asked t) (crew.sent script t)
          { st.act (.llm .round st.conversation) with
            totalInputTokens := st.totalInputTokens + round.usage.inputTokens } :=
        ⟨h.turn.tracks.openRound _, hround⟩
      have hafter := @Invoked.handleCalls crew script _ _ _ round.toolCalls _ 0 hbefore
      have hreplied : script.toolCalls t = round.toolCalls := by rw [Script.toolCalls, hreply]
      have hact : (st.act (.llm .round st.conversation)).turn = t := h.turn.turn
      rw [← hreplied] at hafter hturn
      rw [hact] at hafter
      cases hturn
      exact hafter.made

theorem run_spent (n : ℕ) (h : ∀ t < n, ¬ crew.Stops script t) :
    ∃ st, crew.run script n = .running st ∧ Spent crew script n st := by
  induction n with
  | zero => exact ⟨crew.start, rfl, Spent.start⟩
  | succ n ih =>
    obtain ⟨st, hrun, hspent⟩ := ih fun t ht => h t (Nat.lt_succ_of_lt ht)
    obtain ⟨st', hstep, hnext⟩ := hspent.step.2 (h n (Nat.lt_succ_self n))
    refine ⟨st', ?_, hnext⟩
    rw [run, Function.iterate_succ_apply', ← run, hrun]
    exact hstep

theorem run_stopped (hstop : crew.Stops script t) (hfirst : ∀ j < t, ¬ crew.Stops script j) :
    ∃ outcome actions, crew.run script (t + 1) = .returned outcome actions ∧
      outcome.toolCalls = crew.countedCalls (script.asked t) ∧
      invocations actions = crew.countedCalls (script.asked t) + crew.sent script t := by
  obtain ⟨st, hrun, hspent⟩ := run_spent t hfirst
  obtain ⟨outcome, actions, hstep, hcount, hmade⟩ := hspent.step.1 hstop
  refine ⟨outcome, actions, ?_, hcount, hmade⟩
  rw [run, Function.iterate_succ_apply', ← run, hrun]
  exact hstep

theorem run_cases (crew : Crew) (script : Script) (n : ℕ) :
    (∀ t < n, ¬ crew.Stops script t) ∨
      ∃ t < n, crew.Stops script t ∧ ∀ j < t, ¬ crew.Stops script j := by
  by_cases hex : ∃ t < n, crew.Stops script t
  · right
    classical
    have hfound := Nat.find_spec hex
    refine ⟨Nat.find hex, hfound.1, hfound.2, fun j hj hstop => ?_⟩
    exact Nat.find_min hex hj ⟨hj.trans hfound.1, hstop⟩
  · left
    push Not at hex
    exact hex

/-- **The tool budget.** The calls of the gateway, with the inputs sent to waiting commands, stay
within the budget and are the figure in the outcome exactly when no reply takes them over the
budget and no input is sent by a crew that returns. -/
theorem budgetKept_iff (crew : Crew) (script : Script) :
    crew.BudgetKept script ↔ crew.RepliesFit script := by
  constructor
  · rintro ⟨hbounded, htruthful⟩ t hfirst
    obtain ⟨st, hrun, hspent⟩ := run_spent t hfirst
    have hbound := hbounded t
    rw [hrun] at hbound
    refine ⟨hspent.made ▸ hbound, fun hstop => ?_⟩
    obtain ⟨outcome, actions, hreturned, hcount, hmade⟩ := run_stopped hstop hfirst
    have hsame := htruthful _ _ _ hreturned
    omega
  · intro hfit
    constructor
    · intro n
      rcases run_cases crew script n with hgoes | ⟨t, ht, hstop, hfirst⟩
      · obtain ⟨st, hrun, hspent⟩ := run_spent n hgoes
        rw [hrun]
        exact hspent.made ▸ (hfit n hgoes).1
      · obtain ⟨outcome, actions, hreturned, -, hmade⟩ := run_stopped hstop hfirst
        rw [run_returned (Nat.succ_le_of_lt ht) hreturned]
        exact hmade ▸ (hfit t hfirst).1
    · intro n outcome actions hrun
      rcases run_cases crew script n with hgoes | ⟨t, ht, hstop, hfirst⟩
      · obtain ⟨st, hrunning, -⟩ := run_spent n hgoes
        rw [hrun] at hrunning
        cases hrunning
      · obtain ⟨outcome', actions', hreturned, hcount, hmade⟩ := run_stopped hstop hfirst
        rw [run_returned (Nat.succ_le_of_lt ht) hreturned] at hrun
        cases hrun
        rw [hcount, hmade, (hfit t hfirst).2 hstop, Nat.add_zero]

/-- A reply with thirteen calls, the first of which starts a command that asks for input. -/
def thirteen : Script where
  reply t := if t = 0 then
      .ok ⟨none, (List.range 13).map fun i => ⟨"call", "tool-" ++ toString i, .null⟩, ⟨0, 0⟩⟩
    else .ok ⟨some "Done", [], ⟨0, 0⟩⟩
  result _ index :=
    if index = 0 then .ok (.object [("interactive_prompt".toList, .string "proceed?".toList)])
    else .ok .null
  input _ _ := .ok ⟨some "y", [], ⟨0, 0⟩⟩
  final := .error "unused"

/-- Fourteen calls of the gateway are made, and thirteen reported. -/
theorem thirteen_over_budget :
    invocations (reader.run thirteen 1).actions = 14 ∧
      (∃ outcome actions, reader.run thirteen 2 = .returned outcome actions ∧
        outcome.toolCalls = 13 ∧ invocations actions = 14) ∧
      ¬ reader.BudgetKept thirteen := by
  have hmade : invocations (reader.run thirteen 1).actions = 14 := by decide +kernel
  refine ⟨hmade, ⟨_, _, rfl, by decide +kernel, by decide +kernel⟩, fun h => ?_⟩
  have hbound := h.bounded 1
  rw [hmade] at hbound
  exact absurd hbound (by decide)

end Crew

end Mowis.Orchestration
