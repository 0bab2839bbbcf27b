import Mowis.Orchestration.Crew

/-!
# The round budget of a crew

`Crew::run` counts its rounds by the messages with tool calls of the assistant, and never
adds one to the conversation: the count stays at zero.  What ends the loop is then only what
the model replies: an error, a reply without tool calls, or replies whose tokens or new tool
calls use up the other two budgets.
-/

namespace Mowis.Orchestration

open Mowis.Lib
open Mowis.Review (Json)

namespace Crew

variable (crew : Crew) (script : Script)

/-- A tool call of a reply with the answer the tool gives if it is asked. -/
abbrev Asked := ToolCall × Except String Json

def wrote (earlier : List Asked) (path : Text) : Bool :=
  earlier.any fun a =>
    crew.allows a.1.name && decide (a.1.name = "write_file") && decide (a.1.path = some path)

def refused (earlier : List Asked) (tc : ToolCall) : Bool :=
  match tc.path with
  | some path =>
    (decide (tc.name = "write_file") || decide (tc.name = "read_file")) && crew.wrote earlier path
  | none => false

/-- Whether a counted call among `earlier`, the latest first, has the key. -/
def repeats (key : String × ℕ) : List Asked → Bool
  | [] => false
  | a :: earlier =>
    decide (crew.callKey a.1 = key) && crew.allows a.1.name && !crew.refused earlier a.1 &&
        !repeats (crew.callKey a.1) earlier ||
      repeats key earlier

/-- A call counts when it is allowed, not refused and not the repetition of a counted call. -/
def counted (earlier : List Asked) (tc : ToolCall) : Bool :=
  crew.allows tc.name && !crew.refused earlier tc && !crew.repeats (crew.callKey tc) earlier

def countedCalls : List Asked → ℕ
  | [] => 0
  | a :: earlier => countedCalls earlier + if crew.counted earlier a.1 then 1 else 0

def promptCount : List Asked → ℕ
  | [] => 0
  | a :: earlier => promptCount earlier +
      if crew.counted earlier a.1 ∧ (interactivePrompt (resultJson a.2)).isSome then 1 else 0

theorem repeats_cons (key : String × ℕ) (a : Asked) (earlier : List Asked) :
    crew.repeats key (a :: earlier) =
      (decide (crew.callKey a.1 = key) && crew.counted earlier a.1 || crew.repeats key earlier) := by
  rw [repeats, counted]
  simp only [Bool.and_assoc]

end Crew

namespace Script

variable (script : Script)

def toolCalls (t : ℕ) : List ToolCall :=
  match script.reply t with
  | .ok round => round.toolCalls
  | .error _ => []

def inputTokens (t : ℕ) : ℕ :=
  match script.reply t with
  | .ok round => round.usage.inputTokens
  | .error _ => 0

def Ends (t : ℕ) : Prop := script.toolCalls t = []

/-- The calls of a list from the one at `index` on, the latest first, before the earlier ones. -/
def askedFrom (t : ℕ) : ℕ → List ToolCall → List Crew.Asked → List Crew.Asked
  | _, [], earlier => earlier
  | index, tc :: rest, earlier =>
    askedFrom t (index + 1) rest ((tc, script.result t index) :: earlier)

/-- The tool calls of the first `t` replies, the latest first. -/
def asked : ℕ → List Crew.Asked
  | 0 => []
  | t + 1 => script.askedFrom t 0 (script.toolCalls t) (asked t)

/-- The input tokens reported with the first `t` replies. -/
def tokens : ℕ → ℕ
  | 0 => 0
  | t + 1 => tokens t + script.inputTokens t

end Script

namespace Crew

variable (crew : Crew) (script : Script)

/-- The first `t` replies use up the tool calls or the input tokens. -/
def UsedUp (t : ℕ) : Prop :=
  maxToolCalls ≤ crew.countedCalls (script.asked t) ∨ maxInputTokens ≤ script.tokens t

/-- The loop ends after `t` replies, or at the one that follows them. -/
def Stops (t : ℕ) : Prop := crew.UsedUp script t ∨ script.Ends t

instance (t : ℕ) : Decidable (crew.UsedUp script t) := inferInstanceAs (Decidable (_ ∨ _))

/-- The calls of the model that offer tools, up to the end of the loop after `t` replies or at
the one that follows them. -/
def offered (t : ℕ) : ℕ :=
  t + crew.promptCount (script.asked t) + if crew.UsedUp script t then 0 else 1

end Crew

def Action.offersTools : Action → Bool
  | .llm .round _ => true
  | .llm .input _ => true
  | _ => false

def Action.isFinalCall : Action → Bool
  | .llm .final _ => true
  | _ => false

def offers (actions : List Action) : ℕ := actions.countP Action.offersTools

def finals (actions : List Action) : ℕ := actions.countP Action.isFinalCall

theorem offers_snoc (actions : List Action) (a : Action) :
    offers (actions ++ [a]) = offers actions + if a.offersTools then 1 else 0 := by
  rw [offers, offers, List.countP_append, List.countP_singleton]

theorem finals_snoc (actions : List Action) (a : Action) :
    finals (actions ++ [a]) = finals actions + if a.isFinalCall then 1 else 0 := by
  rw [finals, finals, List.countP_append, List.countP_singleton]

namespace Crew

variable {crew : Crew} {script : Script}

theorem wrote_cons (a : Asked) (earlier : List Asked) (path : Text) :
    crew.wrote (a :: earlier) path =
      (crew.allows a.1.name && decide (a.1.name = "write_file") && decide (a.1.path = some path) ||
        crew.wrote earlier path) := rfl

/-! ### One tool call -/

/-- What the loop keeps is what the calls handled so far say, after `rounds` rounds; and no
message of the conversation holds tool calls of the assistant. -/
structure Tracks (crew : Crew) (rounds : ℕ) (earlier : List Asked) (st : CrewState) : Prop where
  conversation : ∀ m ∈ st.conversation.messages, m.isToolCalls = false
  count : st.toolCallCount = crew.countedCalls earlier
  written : ∀ path, (st.writtenFiles.lookup path).isSome = crew.wrote earlier path
  recent : ∀ key, (st.recentCalls.lookup key).isSome = crew.repeats key earlier
  offers : offers st.actions = rounds + crew.promptCount earlier
  finals : finals st.actions = 0

variable {rounds index : ℕ} {earlier : List Asked} {st : CrewState} {tc : ToolCall}

theorem Tracks.roundCount (h : Tracks crew rounds earlier st) :
    st.conversation.roundCount = 0 := by
  rw [AgentConversation.roundCount, List.length_eq_zero_iff, List.filter_eq_nil_iff]
  intro m hm
  simp [h.conversation m hm]

theorem Tracks.refused (h : Tracks crew rounds earlier st) :
    crew.refused earlier tc =
      ((rejectedWrite st tc).isSome || (rejectedRead (recordWrite st tc) tc).isSome) := by
  cases hpath : tc.path with
  | none => simp [Crew.refused, rejectedWrite, rejectedRead, hpath]
  | some path =>
    by_cases hw : tc.name = "write_file"
    · simp [Crew.refused, rejectedWrite, rejectedRead, hpath, hw, h.written path]
    · by_cases hr : tc.name = "read_file"
      · simp [Crew.refused, rejectedWrite, rejectedRead, recordWrite, hpath, hr, h.written path]
      · simp [Crew.refused, rejectedWrite, rejectedRead, hpath, hw, hr]

theorem Tracks.written_recordWrite (h : Tracks crew rounds earlier st) (hallowed : crew.allows tc.name = true)
    (a : Except String Json) (path : Text) :
    ((recordWrite st tc).writtenFiles.lookup path).isSome = crew.wrote ((tc, a) :: earlier) path := by
  rw [wrote_cons, ← h.written path, recordWrite]
  by_cases hw : tc.name = "write_file"
  · rw [hw] at hallowed
    rw [if_pos hw]
    cases tc.path with
    | none => simp [hw]
    | some q =>
      rw [HashMap.lookup_insert_eq_ite]
      by_cases hq : path = q
      · simp [hallowed, hw, hq]
      · simp [hw, hq, Ne.symm hq]
  · rw [if_neg hw]
    simp [hw]

theorem Tracks.skip (h : Tracks crew rounds earlier st) {a : Except String Json}
    (hnot : crew.counted earlier tc = false) {writtenFiles : HashMap Text ℕ}
    (hwritten : ∀ path, (writtenFiles.lookup path).isSome = crew.wrote ((tc, a) :: earlier) path) :
    Tracks crew rounds ((tc, a) :: earlier) { st with writtenFiles := writtenFiles } := by
  refine ⟨h.conversation, ?_, hwritten, fun key => ?_, ?_, h.finals⟩
  · rw [countedCalls, hnot]
    exact h.count
  · rw [repeats_cons, hnot, Bool.and_false, Bool.false_or]
    exact h.recent key
  · rw [promptCount, hnot]
    simpa using h.offers

theorem Tracks.invoke (h : Tracks crew rounds earlier st)
    (hcounted : crew.counted earlier tc = true) {writtenFiles : HashMap Text ℕ}
    (hwritten : ∀ path, (writtenFiles.lookup path).isSome =
      crew.wrote ((tc, script.result st.turn index) :: earlier) path) :
    Tracks crew rounds ((tc, script.result st.turn index) :: earlier)
      (crew.invoke script index tc { st with writtenFiles := writtenFiles }).1 := by
  have hcount : st.toolCallCount + 1 =
      crew.countedCalls ((tc, script.result st.turn index) :: earlier) := by
    rw [countedCalls, hcounted, h.count]
    rfl
  have hrecent : ∀ key, ((st.recentCalls.insert (crew.callKey tc) st.toolCallCount).lookup
      key).isSome = crew.repeats key ((tc, script.result st.turn index) :: earlier) := by
    intro key
    rw [repeats_cons, hcounted, HashMap.lookup_insert_eq_ite, ← h.recent key]
    by_cases hkey : key = crew.callKey tc
    · simp [hkey]
    · simp [hkey, Ne.symm hkey]
  have hprompts : crew.promptCount ((tc, script.result st.turn index) :: earlier) =
      crew.promptCount earlier +
        if (interactivePrompt (resultJson (script.result st.turn index))).isSome then 1 else 0 := by
    rw [promptCount]
    simp [hcounted]
  have hoffers : Orchestration.offers (st.actions ++ [.invoke tc]) =
      rounds + crew.promptCount earlier := (offers_snoc _ _).trans h.offers
  have hfinals : Orchestration.finals (st.actions ++ [.invoke tc]) = 0 :=
    (finals_snoc _ _).trans h.finals
  rw [Crew.invoke]
  dsimp only
  cases hprompt : interactivePrompt (resultJson (script.result st.turn index)) with
  | none =>
    refine ⟨h.conversation, hcount, hwritten, hrecent, ?_, hfinals⟩
    rw [hprompts, hprompt]
    exact hoffers
  | some prompt =>
    dsimp only
    have hmessages : ∀ m ∈ ((st.conversation.pushToolResults
        [(tc, resultJson (script.result st.turn index))]).pushUser (waitingText prompt)).messages,
        m.isToolCalls = false := by
      intro m hm
      rw [AgentConversation.pushUser, AgentConversation.pushToolResults] at hm
      simp only [List.mem_append, List.mem_singleton] at hm
      rcases hm with (hm | rfl) | rfl
      · exact h.conversation m hm
      · rfl
      · rfl
    have hoffers' : ∀ c, Orchestration.offers (st.actions ++ [.invoke tc] ++ [.llm .input c]) =
        rounds + crew.promptCount ((tc, script.result st.turn index) :: earlier) := by
      intro c
      rw [offers_snoc, hoffers, hprompts, hprompt]
      rfl
    have hfinals' : ∀ c,
        Orchestration.finals (st.actions ++ [.invoke tc] ++ [.llm .input c]) = 0 := by
      intro c
      rw [finals_snoc, hfinals]
      rfl
    cases script.input st.turn index with
    | error e => exact ⟨hmessages, hcount, hwritten, hrecent, hoffers' _, hfinals' _⟩
    | ok round =>
      exact ⟨hmessages, hcount, hwritten, hrecent, (offers_snoc _ _).trans (hoffers' _),
        (finals_snoc _ _).trans (hfinals' _)⟩

theorem recordWrite_eq (st : CrewState) (tc : ToolCall) :
    recordWrite st tc = { st with writtenFiles := (recordWrite st tc).writtenFiles } := by
  rw [recordWrite]
  split
  · split
    · rfl
    · rfl
  · rfl

theorem handleCall_frame (index : ℕ) (tc : ToolCall) (st : CrewState) :
    (crew.handleCall script index tc st).1.turn = st.turn ∧
      (crew.handleCall script index tc st).1.totalInputTokens = st.totalInputTokens := by
  have hinvoke : ∀ st' : CrewState, (crew.invoke script index tc st').1.turn = st'.turn ∧
      (crew.invoke script index tc st').1.totalInputTokens = st'.totalInputTokens := by
    intro st'
    rw [Crew.invoke]
    dsimp only
    split
    · exact ⟨rfl, rfl⟩
    · split
      · exact ⟨rfl, rfl⟩
      · exact ⟨rfl, rfl⟩
  have hrecord : (recordWrite st tc).turn = st.turn ∧
      (recordWrite st tc).totalInputTokens = st.totalInputTokens := by
    rw [recordWrite_eq]
    exact ⟨rfl, rfl⟩
  rw [handleCall]
  split
  · exact ⟨rfl, rfl⟩
  · split
    · exact ⟨rfl, rfl⟩
    · dsimp only
      split
      · exact hrecord
      · split
        · exact hrecord
        · exact ⟨(hinvoke _).1.trans hrecord.1, (hinvoke _).2.trans hrecord.2⟩

theorem Tracks.handleCall (h : Tracks crew rounds earlier st) (index : ℕ) (tc : ToolCall) :
    Tracks crew rounds ((tc, script.result st.turn index) :: earlier)
      (crew.handleCall script index tc st).1 := by
  rw [Crew.handleCall]
  cases hallowed : crew.allows tc.name with
  | false =>
    have hnot : crew.counted earlier tc = false := by simp [counted, hallowed]
    refine h.skip hnot fun path => ?_
    rw [wrote_cons, h.written path, hallowed]
    rfl
  | true =>
    rw [if_neg (by simp)]
    have hrefused : crew.refused earlier tc =
        ((rejectedWrite st tc).isSome || (rejectedRead (recordWrite st tc) tc).isSome) := h.refused
    cases hwrite : rejectedWrite st tc with
    | some msg =>
      have hnot : crew.counted earlier tc = false := by simp [counted, hrefused, hwrite]
      refine h.skip hnot fun path => ?_
      -- the path of the rejected write is among those written before
      rw [wrote_cons, h.written path]
      by_cases hpath : tc.name = "write_file" ∧ tc.path = some path
      · have hin : (st.writtenFiles.lookup path).isSome = true := by
          rw [rejectedWrite, if_pos hpath.1, hpath.2] at hwrite
          obtain ⟨_, hlookup, -⟩ := Option.map_eq_some_iff.mp hwrite
          rw [hlookup]
          rfl
        rw [← h.written path, hin, Bool.or_true]
      · have hno : (decide (tc.name = "write_file") && decide (tc.path = some path)) = false := by
          simpa using fun hn => not_and.mp hpath hn
        rw [Bool.and_assoc, hno, Bool.and_false, Bool.false_or]
    | none =>
      dsimp only
      have hwritten := h.written_recordWrite hallowed (script.result st.turn index)
      cases hread : rejectedRead (recordWrite st tc) tc with
      | some msg =>
        have hnot : crew.counted earlier tc = false := by simp [counted, hrefused, hread]
        rw [recordWrite_eq]
        exact h.skip hnot hwritten
      | none =>
        have hrecent : (recordWrite st tc).recentCalls = st.recentCalls := by rw [recordWrite_eq]
        have hkey := h.recent (crew.callKey tc)
        rw [hrecent]
        cases hlookup : st.recentCalls.lookup (crew.callKey tc) with
        | some prev =>
          have hnot : crew.counted earlier tc = false := by simp [counted, ← hkey, hlookup]
          rw [recordWrite_eq]
          exact h.skip hnot hwritten
        | none =>
          have hcounted : crew.counted earlier tc = true := by
            simp [counted, hallowed, hrefused, hwrite, hread, ← hkey, hlookup]
          rw [recordWrite_eq]
          exact h.invoke hcounted hwritten

theorem Tracks.handleCalls (calls : List ToolCall) (index : ℕ)
    (h : Tracks crew rounds earlier st) :
    Tracks crew rounds (script.askedFrom st.turn index calls earlier)
        (crew.handleCalls script index calls st).1 ∧
      (crew.handleCalls script index calls st).1.totalInputTokens = st.totalInputTokens := by
  induction calls generalizing index earlier st with
  | nil => exact ⟨h, rfl⟩
  | cons tc rest ih =>
    obtain ⟨hturn, htokens⟩ : (crew.handleCall script index tc st).1.turn = st.turn ∧
        (crew.handleCall script index tc st).1.totalInputTokens = st.totalInputTokens :=
      handleCall_frame index tc st
    obtain ⟨hrest, hrest'⟩ := ih (index + 1) (h.handleCall index tc)
    rw [hturn] at hrest
    exact ⟨hrest, hrest'.trans htokens⟩

theorem Tracks.endTurn (h : Tracks crew rounds earlier st) (turn : ℕ)
    (results : List (ToolCall × Json)) :
    Tracks crew rounds earlier { st with
      turn := turn
      conversation := st.conversation.pushToolResults results } := by
  refine ⟨fun m hm => ?_, h.count, h.written, h.recent, h.offers, h.finals⟩
  rcases List.mem_append.mp hm with hm | hm
  · exact h.conversation m hm
  · obtain rfl := List.mem_singleton.mp hm
    rfl

theorem Tracks.openRound (h : Tracks crew rounds earlier st) (tokens : ℕ) :
    Tracks crew (rounds + 1) earlier
      { st.act (.llm .round st.conversation) with totalInputTokens := tokens } := by
  refine ⟨h.conversation, h.count, h.written, h.recent, (offers_snoc _ _).trans ?_,
    (finals_snoc _ _).trans h.finals⟩
  rw [h.offers]
  show rounds + crew.promptCount earlier + 1 = _
  omega

/-- The state in which turn `t` of the loop begins. -/
structure Turn (crew : Crew) (script : Script) (t : ℕ) (st : CrewState) : Prop where
  tracks : Tracks crew t (script.asked t) st
  turn : st.turn = t
  tokens : st.totalInputTokens = script.tokens t

theorem Turn.start : Turn crew script 0 crew.start := by
  refine ⟨⟨?_, rfl, fun _ => rfl, fun _ => rfl, rfl, rfl⟩, rfl, rfl⟩
  intro m hm
  obtain rfl := List.mem_singleton.mp hm
  rfl

theorem Turn.step {t : ℕ} (h : Turn crew script t st) :
    (crew.Stops script t → ∃ outcome actions, crew.turn script st = .returned outcome actions ∧
      offers actions = crew.offered script t ∧ finals actions = 0) ∧
    (¬ crew.Stops script t → ∃ st', crew.turn script st = .running st' ∧
      Turn crew script (t + 1) st') := by
  have hoffers := h.tracks.offers
  have hfinals := h.tracks.finals
  rw [Crew.turn, h.tracks.roundCount, if_neg (by decide), h.tracks.count, h.tokens, h.turn]
  by_cases hcalls : maxToolCalls ≤ crew.countedCalls (script.asked t)
  · have hused : crew.UsedUp script t := .inl hcalls
    rw [if_pos hcalls]
    refine ⟨fun _ => ⟨_, _, rfl, ?_, hfinals⟩, fun hno => absurd (.inl hused) hno⟩
    rw [offered, if_pos hused, hoffers, Nat.add_zero]
  · rw [if_neg hcalls]
    by_cases htokens : maxInputTokens ≤ script.tokens t
    · have hused : crew.UsedUp script t := .inr htokens
      rw [if_pos htokens]
      refine ⟨fun _ => ⟨_, _, rfl, ?_, hfinals⟩, fun hno => absurd (.inl hused) hno⟩
      rw [offered, if_pos hused, hoffers, Nat.add_zero]
    · have hused : ¬ crew.UsedUp script t := not_or.mpr ⟨hcalls, htokens⟩
      have hround := h.tracks.openRound
      have hlast : offers (st.act (.llm .round st.conversation)).actions =
          crew.offered script t := by
        rw [offered, if_neg hused]
        exact (hround 0).offers.trans (Nat.add_right_comm _ _ _)
      rw [if_neg htokens]
      dsimp only
      cases hreply : script.reply t with
      | error e =>
        have hends : script.Ends t := by rw [Script.Ends, Script.toolCalls, hreply]
        exact ⟨fun _ => ⟨_, _, rfl, hlast, (hround 0).finals⟩, fun hno => absurd (.inr hends) hno⟩
      | ok round =>
        have hreplied : script.toolCalls t = round.toolCalls := by rw [Script.toolCalls, hreply]
        dsimp only
        cases hfinal : round.isFinal with
        | true =>
          have hends : script.Ends t := by
            rw [Script.Ends, hreplied]
            exact List.isEmpty_iff.mp hfinal
          exact ⟨fun _ => ⟨_, _, rfl, hlast, (hround 0).finals⟩, fun hno => absurd (.inr hends) hno⟩
        | false =>
          have hgoes : ¬ crew.Stops script t := by
            rintro (hu | hends)
            · exact hused hu
            · rw [Script.Ends, hreplied] at hends
              rw [AgentRoundResult.isFinal, hends] at hfinal
              cases hfinal
          refine ⟨fun hstop => absurd hstop hgoes, fun _ => ⟨_, rfl, ?_⟩⟩
          obtain ⟨htracks, hsum⟩ := @Tracks.handleCalls crew script _ _ _ round.toolCalls 0
            (hround (st.totalInputTokens + round.usage.inputTokens))
          have hturn : (st.act (.llm .round st.conversation)).turn = t := h.turn
          rw [← hreplied] at htracks hsum ⊢
          rw [hturn] at htracks
          refine ⟨htracks.endTurn (t + 1) _, rfl, hsum.trans ?_⟩
          rw [Script.tokens, Script.inputTokens, hreply, h.tokens]

theorem run_running (n : ℕ) (h : ∀ t < n, ¬ crew.Stops script t) :
    ∃ st, crew.run script n = .running st ∧ Turn crew script n st := by
  induction n with
  | zero => exact ⟨crew.start, rfl, Turn.start⟩
  | succ n ih =>
    obtain ⟨st, hrun, hturn⟩ := ih fun t ht => h t (Nat.lt_succ_of_lt ht)
    obtain ⟨st', hstep, hnext⟩ := hturn.step.2 (h n (Nat.lt_succ_self n))
    refine ⟨st', ?_, hnext⟩
    rw [run, Function.iterate_succ_apply', ← run, hrun]
    exact hstep

theorem run_first_stop {t : ℕ} (hstop : crew.Stops script t)
    (hfirst : ∀ j < t, ¬ crew.Stops script j) :
    ∃ outcome actions, crew.run script (t + 1) = .returned outcome actions ∧
      offers actions = crew.offered script t ∧ finals actions = 0 := by
  obtain ⟨st, hrun, hturn⟩ := run_running t hfirst
  obtain ⟨outcome, actions, hstep, hoffers, hfinals⟩ := hturn.step.1 hstop
  refine ⟨outcome, actions, ?_, hoffers, hfinals⟩
  rw [run, Function.iterate_succ_apply', ← run, hrun]
  exact hstep

theorem run_returned {n m : ℕ} (hnm : n ≤ m) {outcome : CrewOutcome} {actions : List Action}
    (h : crew.run script n = .returned outcome actions) :
    crew.run script m = .returned outcome actions := by
  induction m, hnm using Nat.le_induction with
  | base => exact h
  | succ m _ ih =>
    rw [run, Function.iterate_succ_apply', ← run, ih]
    rfl

theorem run_returned_iff (bound : ℕ) :
    (∃ n outcome actions, crew.run script n = .returned outcome actions ∧
      offers actions ≤ bound ∧ finals actions ≤ 1) ↔
    ∃ t, crew.Stops script t ∧ (∀ j < t, ¬ crew.Stops script j) ∧
      crew.offered script t ≤ bound := by
  constructor
  · rintro ⟨n, outcome, actions, hrun, hbound, -⟩
    have hex : ∃ t, crew.Stops script t := by
      by_contra hno
      push Not at hno
      obtain ⟨st, hrun', -⟩ := run_running n fun t _ => hno t
      rw [hrun] at hrun'
      cases hrun'
    obtain ⟨t, hstop, hfirst⟩ : ∃ t, crew.Stops script t ∧ ∀ j < t, ¬ crew.Stops script j := by
      classical
      exact ⟨Nat.find hex, Nat.find_spec hex, fun j hj => Nat.find_min hex hj⟩
    obtain ⟨outcome', actions', hrun', hoffers, -⟩ := run_first_stop hstop hfirst
    have hsame := run_returned (le_max_right n (t + 1)) hrun'
    rw [run_returned (le_max_left n (t + 1)) hrun] at hsame
    cases hsame
    exact ⟨t, hstop, hfirst, hoffers ▸ hbound⟩
  · rintro ⟨t, hstop, hfirst, hbound⟩
    obtain ⟨outcome, actions, hrun, hoffers, hfinals⟩ := run_first_stop hstop hfirst
    exact ⟨t + 1, outcome, actions, hrun, hoffers ▸ hbound, by rw [hfinals]; exact Nat.zero_le 1⟩

/-- The run returns after at most `maxRounds` calls of the model that offer tools and one call
for the final answer. -/
def WithinBudget (crew : Crew) (script : Script) : Prop :=
  ∃ n outcome actions, crew.run script n = .returned outcome actions ∧
    offers actions ≤ maxRounds ∧ finals actions ≤ 1

/-- Within `maxRounds` calls that offer tools, the replies use up the tool calls or the input
tokens, or one of them is an error or holds no tool call. -/
def RepliesEndInTime (crew : Crew) (script : Script) : Prop :=
  ∃ t, t + crew.promptCount (script.asked t) ≤ maxRounds ∧
    (crew.UsedUp script t ∨
      script.Ends t ∧ t + 1 + crew.promptCount (script.asked t) ≤ maxRounds)

theorem promptCount_askedFrom_le (t : ℕ) (calls : List ToolCall) (index : ℕ)
    (earlier : List Asked) :
    crew.promptCount earlier ≤ crew.promptCount (script.askedFrom t index calls earlier) := by
  induction calls generalizing index earlier with
  | nil => exact le_refl _
  | cons tc rest ih =>
    refine le_trans ?_ (ih (index + 1) ((tc, script.result t index) :: earlier))
    rw [promptCount]
    exact Nat.le_add_right _ _

theorem promptCount_asked_mono {t t' : ℕ} (h : t ≤ t') :
    crew.promptCount (script.asked t) ≤ crew.promptCount (script.asked t') := by
  induction t', h using Nat.le_induction with
  | base => exact le_refl _
  | succ t' _ ih => exact ih.trans (promptCount_askedFrom_le t' _ 0 _)

/-- **The round budget is kept exactly when it is not needed.**  `Crew::run` makes at most
`maxRounds` calls of the model that offer tools, and one final call, if and only if the replies
within those calls end the loop by themselves. -/
theorem within_budget_iff (crew : Crew) (script : Script) :
    crew.WithinBudget script ↔ crew.RepliesEndInTime script := by
  rw [WithinBudget, run_returned_iff]
  constructor
  · rintro ⟨t, hstop, -, hbound⟩
    rw [offered] at hbound
    by_cases hused : crew.UsedUp script t
    · rw [if_pos hused] at hbound
      exact ⟨t, hbound, .inl hused⟩
    · rw [if_neg hused] at hbound
      exact ⟨t, by omega, .inr ⟨hstop.resolve_left hused, by omega⟩⟩
  · rintro ⟨t, hbound, hends⟩
    have hstop : crew.Stops script t := hends.imp id And.left
    obtain ⟨first, hfirst, hmin⟩ : ∃ j, crew.Stops script j ∧ ∀ i < j, ¬ crew.Stops script i := by
      classical
      exact ⟨Nat.find ⟨t, hstop⟩, Nat.find_spec ⟨t, hstop⟩, fun i hi => Nat.find_min ⟨t, hstop⟩ hi⟩
    refine ⟨first, hfirst, hmin, ?_⟩
    have hle : first ≤ t := Nat.le_of_not_lt fun hlt => hmin t hlt hstop
    have hprompts : crew.promptCount (script.asked first) ≤ crew.promptCount (script.asked t) :=
      promptCount_asked_mono hle
    rw [offered]
    rcases Nat.lt_or_eq_of_le hle with hlt | rfl
    · split <;> omega
    · rcases hends with hused | ⟨-, hlast⟩
      · rw [if_pos hused]
        exact hbound
      · split <;> omega

def reader : Crew := ⟨"crew-1", "Read the notes", "Summarize a.txt", crewAllowlist, fun _ => 0⟩

def readNotes : ToolCall :=
  ⟨"call-1", "read_file", .object [("path".toList, .string "a.txt".toList)]⟩

/-- Every reply asks for the same file again, and no tokens are reported. -/
def readAgain : Script where
  reply _ := .ok ⟨none, [readNotes], ⟨0, 0⟩⟩
  result _ _ := .ok (.object [("content".toList, .string "notes".toList)])
  input _ _ := .error "unused"
  final := .ok ⟨some "Done", [], ⟨0, 0⟩⟩

theorem countedCalls_readAgain (t : ℕ) :
    reader.countedCalls (readAgain.asked (t + 1)) = 1 ∧
      reader.repeats (reader.callKey readNotes) (readAgain.asked (t + 1)) = true := by
  induction t with
  | zero => exact ⟨rfl, rfl⟩
  | succ t ih =>
    obtain ⟨hcount, hrepeats⟩ := ih
    have hasked : readAgain.asked (t + 1 + 1) =
        (readNotes, readAgain.result (t + 1) 0) :: readAgain.asked (t + 1) := rfl
    have hnot : reader.counted (readAgain.asked (t + 1)) readNotes = false := by
      simp [counted, hrepeats]
    rw [hasked, countedCalls, repeats_cons, hnot, hcount, hrepeats]
    exact ⟨rfl, Bool.or_true _⟩

theorem tokens_readAgain (t : ℕ) : readAgain.tokens t = 0 := by
  induction t with
  | zero => rfl
  | succ t ih => rw [Script.tokens, ih]; rfl

theorem reader_not_stopped (t : ℕ) : ¬ reader.Stops readAgain t := by
  rintro ((hcalls | htokens) | hends)
  · cases t with
    | zero => exact absurd hcalls (by decide)
    | succ t =>
      rw [(countedCalls_readAgain t).1] at hcalls
      exact absurd hcalls (by decide)
  · rw [tokens_readAgain] at htokens
    exact absurd htokens (by decide)
  · exact absurd hends (List.cons_ne_nil _ _)

/-- The reader runs for ever: it returns after no number of turns. -/
theorem reader_never_returns : ¬ reader.WithinBudget readAgain := by
  rintro ⟨n, outcome, actions, hrun, -, -⟩
  obtain ⟨st, hrunning, -⟩ := run_running n fun t _ => reader_not_stopped t
  rw [hrun] at hrunning
  cases hrunning

end Crew

end Mowis.Orchestration
