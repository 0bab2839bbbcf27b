import Mowis.Orchestration.RoundBudget

/-!
# The conversation of a crew

A tool-calling API takes a conversation in which the results of tool calls follow the message
of the assistant that asks for them.  `Crew::run` adds results and never such a message, so
that every result it sends answers nothing.
-/

namespace Mowis.Orchestration

open Mowis.Lib
open Mowis.Review (Json)

def ConvMessage.isToolResults : ConvMessage → Bool
  | .toolResults _ => true
  | _ => false

def ConvMessage.askedIds : ConvMessage → List String
  | .assistantToolCalls calls => calls.map ToolCall.id
  | _ => []

def ConvMessage.answeredIds : ConvMessage → List String
  | .toolResults results => results.map fun r => r.1
  | _ => []

/-- Results follow at once the calls they answer, with the same ids in the same order; every
id is answered once; and calls are followed at once by results. -/
structure WellPaired (messages : List ConvMessage) : Prop where
  preceded : ∀ before results after, messages = before ++ .toolResults results :: after →
    ∃ earlier calls, before = earlier ++ [.assistantToolCalls calls] ∧
      (ConvMessage.toolResults results).answeredIds = calls.map ToolCall.id
  once : ∀ id ∈ messages.flatMap ConvMessage.askedIds,
    (messages.flatMap ConvMessage.answeredIds).count id = 1
  answered : ∀ before calls after, messages = before ++ .assistantToolCalls calls :: after →
    ∃ results rest, after = .toolResults results :: rest

theorem wellPaired_iff_no_results {messages : List ConvMessage}
    (hasked : ∀ m ∈ messages, m.isToolCalls = false) :
    WellPaired messages ↔ ∀ m ∈ messages, m.isToolResults = false := by
  have hnot : ∀ before calls after, messages ≠ before ++ .assistantToolCalls calls :: after := by
    rintro before calls after rfl
    have := hasked (.assistantToolCalls calls) (by simp)
    cases this
  constructor
  · intro h m hm
    cases m with
    | toolResults results =>
      obtain ⟨before, after, rfl⟩ := List.append_of_mem hm
      obtain ⟨earlier, calls, rfl, -⟩ := h.preceded before results after rfl
      exact absurd (List.append_assoc earlier _ _) (hnot earlier calls _)
    | user text => rfl
    | assistantText text => rfl
    | assistantToolCalls calls => rfl
  · intro h
    refine ⟨fun before results after heq => ?_, fun id hid => ?_, fun before calls after heq =>
      absurd heq (hnot before calls after)⟩
    · have := h (.toolResults results) (by rw [heq]; simp)
      cases this
    · obtain ⟨m, hm, hin⟩ := List.mem_flatMap.mp hid
      cases m with
      | assistantToolCalls calls =>
        obtain ⟨before, after, heq⟩ := List.append_of_mem hm
        exact absurd heq (hnot before calls after)
      | user text => cases hin
      | assistantText text => cases hin
      | toolResults results => cases hin

/-- The conversation that a call of the model is given is accepted. -/
def Action.Paired : Action → Prop
  | .llm _ conversation => WellPaired conversation.messages
  | .invoke _ => True

def Crew.Config.actions : Crew.Config → List Action
  | .running st => st.actions
  | .returned _ actions => actions

namespace Crew

variable {crew : Crew} {script : Script}

/-- At every call of the model the conversation is accepted. -/
def AllPaired (crew : Crew) (script : Script) : Prop :=
  ∀ n, ∀ a ∈ (crew.run script n).actions, a.Paired

/-- The first reply ends the loop; or its tool calls ask for no input, and use up the tool
calls or the input tokens. -/
def NothingToAnswer (crew : Crew) (script : Script) : Prop :=
  script.Ends 0 ∨ crew.promptCount (script.asked 1) = 0 ∧ crew.UsedUp script 1

def SentResults (actions : List Action) : Prop :=
  ∃ call conversation, Action.llm call conversation ∈ actions ∧
    (∀ m ∈ conversation.messages, m.isToolCalls = false) ∧
    ∃ m ∈ conversation.messages, m.isToolResults = true

theorem SentResults.mono {actions actions' : List Action} (h : SentResults actions)
    (hsub : ∀ a ∈ actions, a ∈ actions') : SentResults actions' := by
  obtain ⟨call, conversation, hin, hrest⟩ := h
  exact ⟨call, conversation, hsub _ hin, hrest⟩

theorem SentResults.not_paired {actions : List Action} (h : SentResults actions) :
    ¬ ∀ a ∈ actions, a.Paired := by
  obtain ⟨call, conversation, hin, hasked, m, hm, hresults⟩ := h
  intro hall
  have hnone := (wellPaired_iff_no_results hasked).mp (hall _ hin) m hm
  rw [hresults] at hnone
  cases hnone

/-- What tool calls add to a state: without a question for input only calls of tools. -/
structure Quiet (st st' : CrewState) : Prop where
  conversation : st'.conversation = st.conversation
  actions : ∀ a ∈ st'.actions, a ∈ st.actions ∨ ∃ tc, a = .invoke tc

theorem Quiet.trans {st₁ st₂ st₃ : CrewState} (h : Quiet st₁ st₂) (h' : Quiet st₂ st₃) :
    Quiet st₁ st₃ := by
  refine ⟨h'.conversation.trans h.conversation, fun a ha => ?_⟩
  rcases h'.actions a ha with hin | hcall
  · exact h.actions a hin
  · exact .inr hcall

variable {rounds index : ℕ} {earlier : List Asked} {st : CrewState} {tc : ToolCall}

theorem Tracks.handleCall_cases (h : Tracks crew rounds earlier st) (script : Script) (index : ℕ)
    (tc : ToolCall) :
    (crew.counted earlier tc = false ∧
      (crew.handleCall script index tc st).1.conversation = st.conversation ∧
      (crew.handleCall script index tc st).1.actions = st.actions) ∨
    (crew.counted earlier tc = true ∧
      crew.handleCall script index tc st = crew.invoke script index tc (recordWrite st tc)) := by
  have hframe : (recordWrite st tc).conversation = st.conversation ∧
      (recordWrite st tc).actions = st.actions ∧
      (recordWrite st tc).recentCalls = st.recentCalls := by
    rw [recordWrite_eq]
    exact ⟨rfl, rfl, rfl⟩
  have hrefused : crew.refused earlier tc =
      ((rejectedWrite st tc).isSome || (rejectedRead (recordWrite st tc) tc).isSome) := h.refused
  have hkey := h.recent (crew.callKey tc)
  rw [Crew.handleCall]
  cases hallowed : crew.allows tc.name with
  | false => exact .inl ⟨by simp [counted, hallowed], rfl, rfl⟩
  | true =>
    rw [if_neg (by simp)]
    cases hwrite : rejectedWrite st tc with
    | some msg => exact .inl ⟨by simp [counted, hrefused, hwrite], rfl, rfl⟩
    | none =>
      dsimp only
      cases hread : rejectedRead (recordWrite st tc) tc with
      | some msg => exact .inl ⟨by simp [counted, hrefused, hread], hframe.1, hframe.2.1⟩
      | none =>
        rw [hframe.2.2]
        cases hlookup : st.recentCalls.lookup (crew.callKey tc) with
        | some prev => exact .inl ⟨by simp [counted, ← hkey, hlookup], hframe.1, hframe.2.1⟩
        | none =>
          exact .inr ⟨by simp [counted, hallowed, hrefused, hwrite, hread, ← hkey, hlookup], rfl⟩

theorem invoke_quiet (hno : interactivePrompt (resultJson (script.result st.turn index)) = none) :
    Quiet st (crew.invoke script index tc st).1 := by
  rw [Crew.invoke]
  dsimp only
  rw [hno]
  refine ⟨rfl, fun a ha => ?_⟩
  rcases List.mem_append.mp ha with hin | hin
  · exact .inl hin
  · exact .inr ⟨tc, List.mem_singleton.mp hin⟩

theorem invoke_sends (hasked : ∀ m ∈ st.conversation.messages, m.isToolCalls = false)
    {prompt : Text}
    (hsome : interactivePrompt (resultJson (script.result st.turn index)) = some prompt) :
    SentResults (crew.invoke script index tc st).1.actions := by
  have hsent : SentResults (st.actions ++ [Action.invoke tc] ++ [.llm .input
      ((st.conversation.pushToolResults [(tc, resultJson (script.result st.turn index))]).pushUser
        (waitingText prompt))]) := by
    refine ⟨.input, _, List.mem_append_right _ (List.mem_singleton_self _), fun m hm => ?_,
      .toolResults [(tc.id, tc.name, resultJson (script.result st.turn index))], ?_, rfl⟩
    · simp only [AgentConversation.pushUser, AgentConversation.pushToolResults, List.mem_append,
        List.mem_singleton] at hm
      rcases hm with (hm | rfl) | rfl
      · exact hasked m hm
      · rfl
      · rfl
    · simp [AgentConversation.pushUser, AgentConversation.pushToolResults]
  rw [Crew.invoke]
  dsimp only
  rw [hsome]
  cases script.input st.turn index with
  | error e => exact hsent
  | ok round => exact hsent.mono fun a ha => List.mem_append_left _ ha

theorem invoke_keeps (a : Action) (ha : a ∈ st.actions) :
    a ∈ (crew.invoke script index tc st).1.actions := by
  rw [Crew.invoke]
  dsimp only
  split
  · exact List.mem_append_left _ ha
  · split
    · exact List.mem_append_left _ (List.mem_append_left _ ha)
    · exact List.mem_append_left _ (List.mem_append_left _ (List.mem_append_left _ ha))

theorem Tracks.handleCall_sends (h : Tracks crew rounds earlier st) (script : Script) (index : ℕ)
    (tc : ToolCall) :
    (∀ a ∈ st.actions, a ∈ (crew.handleCall script index tc st).1.actions) ∧
      ((crew.promptCount ((tc, script.result st.turn index) :: earlier) =
          crew.promptCount earlier ∧ Quiet st (crew.handleCall script index tc st).1) ∨
        (crew.promptCount earlier <
            crew.promptCount ((tc, script.result st.turn index) :: earlier) ∧
          SentResults (crew.handleCall script index tc st).1.actions)) := by
  have hprompts : crew.promptCount ((tc, script.result st.turn index) :: earlier) =
      crew.promptCount earlier + if crew.counted earlier tc ∧
        (interactivePrompt (resultJson (script.result st.turn index))).isSome then 1 else 0 := rfl
  rcases h.handleCall_cases script index tc with
    ⟨hnot, hconv, hactions⟩ | ⟨hcounted, hinvoke⟩
  · refine ⟨fun a ha => hactions ▸ ha, .inl ⟨?_, hconv, fun a ha => .inl (hactions ▸ ha)⟩⟩
    rw [hprompts, hnot]
    rfl
  · have hrecord : (recordWrite st tc).turn = st.turn ∧
        (recordWrite st tc).conversation = st.conversation ∧
        (recordWrite st tc).actions = st.actions := by
      rw [recordWrite_eq]
      exact ⟨rfl, rfl, rfl⟩
    obtain ⟨hturn, hconv, hactions⟩ := hrecord
    rw [hinvoke, hprompts, hcounted]
    refine ⟨fun a ha => invoke_keeps a (hactions ▸ ha), ?_⟩
    cases hprompt : interactivePrompt (resultJson (script.result st.turn index)) with
    | none =>
      have hquiet := @invoke_quiet crew script index (recordWrite st tc) tc (by rw [hturn, hprompt])
      exact .inl ⟨rfl, hquiet.conversation.trans hconv, fun a ha => hactions ▸ hquiet.actions a ha⟩
    | some prompt =>
      have hasked : ∀ m ∈ (recordWrite st tc).conversation.messages, m.isToolCalls = false := by
        rw [hconv]
        exact h.conversation
      rw [← hturn] at hprompt
      exact .inr ⟨Nat.lt_succ_self _, invoke_sends hasked hprompt⟩

theorem Tracks.handleCalls_sends (h : Tracks crew rounds earlier st) (script : Script)
    (calls : List ToolCall) (index : ℕ) :
    (∀ a ∈ st.actions, a ∈ (crew.handleCalls script index calls st).1.actions) ∧
      ((crew.promptCount (script.askedFrom st.turn index calls earlier) =
          crew.promptCount earlier ∧ Quiet st (crew.handleCalls script index calls st).1) ∨
        (crew.promptCount earlier <
            crew.promptCount (script.askedFrom st.turn index calls earlier) ∧
          SentResults (crew.handleCalls script index calls st).1.actions)) := by
  induction calls generalizing index earlier st with
  | nil => exact ⟨fun a ha => ha, .inl ⟨rfl, rfl, fun a ha => .inl ha⟩⟩
  | cons tc rest ih =>
    have hturn : (crew.handleCall script index tc st).1.turn = st.turn :=
      (handleCall_frame index tc st).1
    obtain ⟨hkeep, hcall⟩ := h.handleCall_sends script index tc
    obtain ⟨hkeeps, hrest⟩ := ih (h.handleCall index tc) (index + 1)
    rw [hturn] at hrest
    have hmono : crew.promptCount ((tc, script.result st.turn index) :: earlier) ≤
        crew.promptCount (script.askedFrom st.turn (index + 1) rest
          ((tc, script.result st.turn index) :: earlier)) := promptCount_askedFrom_le _ _ _ _
    refine ⟨fun a ha => hkeeps a (hkeep a ha), ?_⟩
    rcases hcall with ⟨hsame, hquiet⟩ | ⟨hmore, hsent⟩
    · rcases hrest with ⟨hsame', hquiet'⟩ | ⟨hmore', hsent'⟩
      · exact .inl ⟨hsame'.trans hsame, hquiet.trans hquiet'⟩
      · exact .inr ⟨hsame ▸ hmore', hsent'⟩
    · exact .inr ⟨hmore.trans_le hmono, hsent.mono hkeeps⟩

variable {t : ℕ}

theorem Turn.usedUp (h : Turn crew script t st) (hused : crew.UsedUp script t) :
    ∃ outcome, crew.turn script st = .returned outcome st.actions := by
  rw [Crew.turn, h.tracks.roundCount, if_neg (by decide), h.tracks.count, h.tokens]
  by_cases hcalls : maxToolCalls ≤ crew.countedCalls (script.asked t)
  · rw [if_pos hcalls]
    exact ⟨_, rfl⟩
  · rw [if_neg hcalls, if_pos (hused.resolve_left hcalls)]
    exact ⟨_, rfl⟩

theorem Turn.asks (h : Turn crew script t st) (hused : ¬ crew.UsedUp script t) :
    Action.llm .round st.conversation ∈ (crew.turn script st).actions ∧
      (script.Ends t → ∃ outcome, crew.turn script st =
        .returned outcome (st.actions ++ [.llm .round st.conversation])) ∧
      (¬ script.Ends t → ∃ st', crew.turn script st = .running st' ∧
        (∃ m ∈ st'.conversation.messages, m.isToolResults = true) ∧
        ((crew.promptCount (script.asked (t + 1)) = crew.promptCount (script.asked t) ∧
            ∀ a ∈ st'.actions, a ∈ st.actions ∨ a = .llm .round st.conversation ∨
              ∃ tc, a = .invoke tc) ∨
          (crew.promptCount (script.asked t) < crew.promptCount (script.asked (t + 1)) ∧
            SentResults st'.actions))) := by
  obtain ⟨hcalls, htokens⟩ := not_or.mp hused
  rw [Crew.turn, h.tracks.roundCount, if_neg (by decide), h.tracks.count, h.tokens, h.turn,
    if_neg hcalls, if_neg htokens]
  dsimp only
  have hlast : Action.llm .round st.conversation ∈
      (st.act (.llm .round st.conversation)).actions :=
    List.mem_append_right _ (List.mem_singleton_self _)
  cases hreply : script.reply t with
  | error e =>
    have hends : script.Ends t := by rw [Script.Ends, Script.toolCalls, hreply]
    exact ⟨hlast, fun _ => ⟨_, rfl⟩, fun hno => absurd hends hno⟩
  | ok round =>
    have hreplied : script.toolCalls t = round.toolCalls := by rw [Script.toolCalls, hreply]
    dsimp only
    cases hfinal : round.isFinal with
    | true =>
      have hends : script.Ends t := by
        rw [Script.Ends, hreplied]
        exact List.isEmpty_iff.mp hfinal
      exact ⟨hlast, fun _ => ⟨_, rfl⟩, fun hno => absurd hends hno⟩
    | false =>
      have hgoes : ¬ script.Ends t := by
        rw [Script.Ends, hreplied]
        intro hnil
        rw [AgentRoundResult.isFinal, hnil] at hfinal
        cases hfinal
      have htracks := h.tracks.openRound (st.totalInputTokens + round.usage.inputTokens)
      obtain ⟨hkeep, hsends⟩ := htracks.handleCalls_sends script round.toolCalls 0
      have hturn : (st.act (.llm .round st.conversation)).turn = t := h.turn
      rw [hturn, ← hreplied] at hsends
      refine ⟨hkeep _ hlast, fun hends => absurd hends hgoes, fun _ => ⟨_, rfl, ?_, ?_⟩⟩
      · exact ⟨_, List.mem_append_right _ (List.mem_singleton_self _), rfl⟩
      · rw [hreplied] at hsends
        refine hsends.imp (fun hquiet => ⟨?_, fun a ha => ?_⟩) (fun hsent => ⟨?_, hsent.2⟩)
        · rw [Script.asked, hreplied]
          exact hquiet.1
        · rcases hquiet.2.actions a ha with hin | hcall
          · rcases List.mem_append.mp hin with hin | hin
            · exact .inl hin
            · exact .inr (.inl (List.mem_singleton.mp hin))
          · exact .inr (.inr hcall)
        · rw [Script.asked, hreplied]
          exact hsent.1

theorem not_usedUp_zero (crew : Crew) (script : Script) : ¬ crew.UsedUp script 0 :=
  not_or.mpr ⟨Nat.not_le.mpr (show 0 < maxToolCalls by decide),
    Nat.not_le.mpr (show 0 < maxInputTokens by decide)⟩

theorem wellPaired_start (crew : Crew) : WellPaired crew.start.conversation.messages := by
  have hone : ∀ m ∈ crew.start.conversation.messages, m.isToolCalls = false ∧
      m.isToolResults = false := by
    intro m hm
    obtain rfl := List.mem_singleton.mp hm
    exact ⟨rfl, rfl⟩
  exact (wellPaired_iff_no_results fun m hm => (hone m hm).1).mpr fun m hm => (hone m hm).2

/-- **Conversations are accepted only as long as there is nothing to answer.**  Every call of
the model made by `Crew::run` gets a conversation that a tool-calling API accepts if and only
if no call is made after the first reply that asks for tools. -/
theorem paired_iff (crew : Crew) (script : Script) :
    crew.AllPaired script ↔ crew.NothingToAnswer script := by
  have hzero := not_usedUp_zero crew script
  have hturn := @Turn.start crew script
  have hone : crew.run script 1 = crew.turn script crew.start := rfl
  obtain ⟨-, hends, hgoes⟩ := hturn.asks hzero
  constructor
  · intro h
    by_cases hend : script.Ends 0
    · exact .inl hend
    · obtain ⟨st, hst, ⟨m, hm, hresults⟩, hsends⟩ := hgoes hend
      obtain ⟨st', hst', hturn'⟩ := hturn.step.2 (not_or.mpr ⟨hzero, hend⟩)
      obtain rfl := Config.running.inj (hst'.symm.trans hst)
      rw [hst] at hone
      rcases hsends with ⟨hsame, -⟩ | ⟨-, hsent⟩
      · refine .inr ⟨hsame, Classical.byContradiction fun hused => ?_⟩
        have htwo : crew.run script 2 = crew.turn script st' := by
          rw [run, Function.iterate_succ_apply', ← run, hone]
          rfl
        have hpaired := h 2 _ (htwo ▸ (hturn'.asks hused).1)
        have hnone := (wellPaired_iff_no_results hturn'.tracks.conversation).mp hpaired m hm
        rw [hresults] at hnone
        cases hnone
      · have hall := h 1
        rw [hone] at hall
        exact absurd hall hsent.not_paired
  · rintro hnothing n a ha
    have hfirst : ∀ a ∈ crew.start.actions ++ [Action.llm .round crew.start.conversation],
        a.Paired := by
      intro a ha
      obtain rfl := List.mem_singleton.mp ha
      exact wellPaired_start crew
    cases n with
    | zero => cases ha
    | succ n =>
      by_cases hend : script.Ends 0
      · obtain ⟨outcome, hreturn⟩ := hends hend
        rw [run_returned (Nat.succ_le_succ (Nat.zero_le n)) (hone.trans hreturn)] at ha
        exact hfirst a ha
      · obtain ⟨hsame, hused⟩ := hnothing.resolve_left hend
        obtain ⟨st, hst, -, hsends⟩ := hgoes hend
        obtain ⟨st', hst', hturn'⟩ := hturn.step.2 (not_or.mpr ⟨hzero, hend⟩)
        obtain rfl := Config.running.inj (hst'.symm.trans hst)
        rw [hst] at hone
        obtain ⟨-, hquiet⟩ := hsends.resolve_right fun hsent => absurd hsame (Nat.ne_of_gt hsent.1)
        have hpaired : ∀ a ∈ st'.actions, a.Paired := by
          intro a ha
          rcases hquiet a ha with hin | rfl | ⟨tc, rfl⟩
          · exact hfirst a (List.mem_append_left _ hin)
          · exact wellPaired_start crew
          · trivial
        cases n with
        | zero =>
          rw [hone] at ha
          exact hpaired a ha
        | succ n =>
          obtain ⟨outcome, hreturn⟩ := hturn'.usedUp hused
          have htwo : crew.run script 2 = .returned outcome st'.actions := by
            rw [run, Function.iterate_succ_apply', ← run, hone]
            exact hreturn
          rw [run_returned (Nat.le_add_left 2 n) htwo] at ha
          exact hpaired a ha

/-- The reader asks for a file, and the second call of the model is given the content with no
message that asks for it. -/
theorem reader_unpaired : ¬ reader.AllPaired readAgain := by
  intro h
  have hsecond : (reader.run readAgain 2).actions =
      [.llm .round reader.start.conversation, .invoke readNotes,
        .llm .round (reader.start.conversation.pushToolResults
          [(readNotes, .object [("content".toList, .string "notes".toList)])])] := by rfl
  have hall := h 2
  rw [hsecond] at hall
  have hpaired := hall _ (List.mem_cons_of_mem _ (List.mem_cons_of_mem _ List.mem_cons_self))
  obtain ⟨earlier, calls, hbefore, -⟩ :=
    hpaired.preceded reader.start.conversation.messages _ [] rfl
  have hlast : ConvMessage.assistantToolCalls calls ∈ reader.start.conversation.messages := by
    rw [hbefore]
    exact List.mem_append_right _ (List.mem_singleton_self _)
  cases List.mem_singleton.mp hlast

end Crew

end Mowis.Orchestration
