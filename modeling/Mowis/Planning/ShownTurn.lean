import Mowis.Planning.ShownPlan

/-!
# Plans shown in a tool loop

A loop asks the model for several replies.  A captain may be dispatched by the tools of a
reply, with the current plan or with one drafted from that reply, and then the loop ends.
-/

namespace Mowis.Planning

open Mowis.Lib
open Mowis.Orchestration (PlanId TaskNode ToolCall ConvMessage AgentRoundResult)

variable {setup : Setup} {c c' c₀ : Conductor} {disk disk' : Disk} {planId : PlanId}
  {shown : Option TaskGraph} {p : PlanRecord} {fate : SaveFate}

/-! ### Inside a tool loop -/

/-- The state inside a tool loop that began in `c₀`, before a plan is adopted or a captain
dispatched. -/
structure Follows (setup : Setup) (c₀ c : Conductor) (restating : Prop) : Prop where
  plan : c.currentPlan = c₀.currentPlan
  dispatched : c.dispatches = c₀.dispatches
  files : ∀ planId, Uses c₀ planId → ∀ file,
    c.disk.lookup ⟨setup.host.resolve setup.plansDir, planId, file⟩ =
      c₀.disk.lookup ⟨setup.host.resolve setup.plansDir, planId, file⟩
  elsewhere : ¬ SameDirectory setup → ∀ planId file,
    c.disk.lookup ⟨setup.host.resolve setup.plansDir, planId, file⟩ =
      c₀.disk.lookup ⟨setup.host.resolve setup.plansDir, planId, file⟩
  shown : restating → ∀ planId, c₀.currentPlan = some planId →
    Holds setup c.disk planId (lastShown setup.host.toml c.replies)

variable {restating : Prop}

theorem Follows.refl (h : InOrder setup c₀) : Follows setup c₀ c₀ restating :=
  ⟨rfl, rfl, fun _ _ _ => rfl, fun _ _ _ => rfl, fun _ => h.current⟩

theorem Follows.hear (h : Follows setup c₀ c restating) (later : List ConvMessage)
    (text : Option String) (hrestates : restating → ∀ t, text = some t → Restates setup c₀ t) :
    Follows setup c₀ ((c.request later).hear text) restating := by
  refine ⟨h.plan, h.dispatched, h.files, h.elsewhere, fun hr planId hcurrent => ?_⟩
  have hholds := h.shown hr planId hcurrent
  cases text with
  | none =>
    show Holds setup c.disk planId (lastShown setup.host.toml (c.replies ++ []))
    rwa [List.append_nil]
  | some t =>
    refine hholds.hear fun g hg p hload => hrestates hr t rfl g hg planId p hcurrent ?_
    rwa [Host.load_congr (h.files planId (.inl hcurrent))] at hload

theorem Follows.imp {restating' : Prop} (h : Follows setup c₀ c restating)
    (himp : restating' → restating) : Follows setup c₀ c restating' :=
  ⟨h.plan, h.dispatched, h.files, h.elsewhere, fun hr => h.shown (himp hr)⟩

theorem Follows.push (h : Follows setup c₀ c restating) (speaker : Speaker) (text : String) :
    Follows setup c₀ (c.push speaker text) restating :=
  ⟨h.plan, h.dispatched, h.files, h.elsewhere, h.shown⟩

theorem Follows.save (h : Follows setup c₀ c restating) (hdir : p.plansDir = draftPlansDir)
    (hunused : ¬ Uses c₀ p.planId) (fate : SaveFate) :
    Follows setup c₀ { c with disk := (setup.host.save p fate c.disk).1 } restating := by
  have hother : ∀ planId, Uses c₀ planId → ∀ file,
      (setup.host.save p fate c.disk).1.lookup ⟨setup.host.resolve setup.plansDir, planId, file⟩ =
        c.disk.lookup ⟨setup.host.resolve setup.plansDir, planId, file⟩ := by
    intro planId huses file
    refine Host.lookup_save_of_ne (.inr ?_) fate c.disk
    rintro rfl
    exact hunused huses
  refine ⟨h.plan, h.dispatched, fun planId huses file => ?_, fun hne planId file => ?_,
    fun hr planId hcurrent => ?_⟩
  · exact (hother planId huses file).trans (h.files planId huses file)
  · exact (Host.lookup_save_of_ne (.inl (hdir ▸ hne)) fate c.disk).trans (h.elsewhere hne planId file)
  · exact (h.shown hr planId hcurrent).congr (hother planId (.inl hcurrent))

theorem Follows.dispatches (h : Follows setup c₀ c restating) (h₀ : InOrder setup c₀) :
    ∀ d ∈ c.dispatches, Holds setup c.disk d.planId (lastShown setup.host.toml d.replies) := by
  intro d hd
  rw [h.dispatched] at hd
  exact (h₀.dispatches d hd).congr (h.files d.planId (.inr ⟨d, hd, rfl⟩))

theorem Follows.inOrder (h : Follows setup c₀ c restating) (h₀ : InOrder setup c₀)
    (hr : restating) : InOrder setup c :=
  ⟨h.dispatches h₀, fun planId hcurrent => h.shown hr planId (h.plan ▸ hcurrent)⟩

theorem Follows.adopt (h : Follows setup c₀ c restating) (h₀ : InOrder setup c₀)
    (hsave : setup.host.save p fate c.disk = (disk', .ok ())) (hdir : p.plansDir = draftPlansDir)
    (hunused : Unused setup c₀ p.planId) (hkept : setup.host.toml.TasksKept)
    (hshown : lastShown setup.host.toml c.replies = some p.taskGraph) :
    InOrder setup { c with disk := disk', currentPlan := some p.planId } := by
  have hafter := h.save hdir hunused.not_uses fate
  rw [hsave] at hafter
  refine ⟨hafter.dispatches h₀, fun planId hcurrent => ?_⟩
  obtain rfl := Option.some.inj hcurrent
  have hprints : setup.host.toml.tasks.Prints p.taskGraph := by
    obtain ⟨l, reply, r, -, hfound, -⟩ := List.findSome?_eq_some_iff.mp hshown
    obtain ⟨l', block, r', -, hblock, -⟩ := List.findSome?_eq_some_iff.mp hfound
    rw [blockTasks] at hblock
    split at hblock
    · next graph hparse =>
      split at hblock
      · cases hblock
      · cases hblock
        exact hkept _ _ hparse
    · cases hblock
  show Holds setup disk' p.planId (lastShown setup.host.toml c.replies)
  rw [hshown]
  refine Holds.saved hsave hdir hprints fun hne q => ?_
  rw [Host.load_congr (h.elsewhere hne p.planId)]
  exact hunused.notFound q

theorem draftInline_cases (c : Conductor) (finalText : String) (calls : List ToolCall)
    (draft : Draft) (hp : p = Setup.draftRecord draft (Setup.lastText c) finalText
      (responseTasks setup.host.toml finalText)) :
    setup.draftInline c finalText calls draft = c ∨
      setup.draftInline c finalText calls draft =
          { c with disk := (setup.host.save p draft.fate c.disk).1 } ∨
      (Setup.draftsInline c finalText calls = true ∧ Saves setup p draft.fate ∧
        ∃ disk', setup.host.save p draft.fate c.disk = (disk', .ok ()) ∧
          setup.draftInline c finalText calls draft =
            { c with disk := disk', currentPlan := some p.planId }) := by
  subst hp
  rw [Setup.draftInline]
  by_cases hdrafts : Setup.draftsInline c finalText calls = true
  · rw [if_pos hdrafts, Setup.draftPlanFromResponse]
    have hframe := savePlan_frame setup (Setup.draftRecord draft (Setup.lastText c) finalText
      (responseTasks setup.host.toml finalText)) draft.fate c
    have hok := savePlan_ok_iff setup (Setup.draftRecord draft (Setup.lastText c) finalText
      (responseTasks setup.host.toml finalText)) draft.fate c
    cases hsave : setup.savePlan (Setup.draftRecord draft (Setup.lastText c) finalText
      (responseTasks setup.host.toml finalText)) draft.fate c with
    | mk c₁ result =>
      rw [hsave] at hframe hok
      dsimp only at hframe hok
      cases result with
      | error e =>
        subst hframe
        exact .inr (.inl rfl)
      | ok planId =>
        obtain ⟨rfl, hdisk⟩ := savePlan_ok hsave
        refine .inr (.inr ⟨hdrafts, hok.mp ⟨_, rfl⟩, c₁.disk, hdisk, ?_⟩)
        rw [hframe]
  · rw [if_neg hdrafts]
    exact .inl rfl

theorem executeTools_dispatches (script : TurnScript) (i : ℕ) (calls : List ToolCall) (index : ℕ)
    (c : Conductor) :
    ∃ new, (Setup.executeTools script i index calls c).1 =
        { c with dispatches := c.dispatches ++ new } ∧
      (∀ d ∈ new, c.currentPlan = some d.planId ∧ d.replies = c.replies) ∧
      (new ≠ [] → callsStartBuild calls) := by
  induction calls generalizing index c with
  | nil => exact ⟨[], by simp [Setup.executeTools], by simp, fun h => absurd rfl h⟩
  | cons tc rest ih =>
    have hone : ∃ new, (Setup.executeConductorTool script i index tc c).1 =
        { c with dispatches := c.dispatches ++ new } ∧
        (∀ d ∈ new, c.currentPlan = some d.planId ∧ d.replies = c.replies) ∧
        (new ≠ [] → tc.name = "start_build") := by
      rw [Setup.executeConductorTool]
      split
      · next hname =>
        rw [Setup.executeStartBuild]
        split
        · exact ⟨[], by simp, by simp, fun h => absurd rfl h⟩
        · next planId hplan => exact ⟨[⟨planId, c.replies⟩], rfl, by simp [hplan], fun _ => hname⟩
      · split
        · exact ⟨[], by simp, by simp, fun h => absurd rfl h⟩
        · exact ⟨[], by simp, by simp, fun h => absurd rfl h⟩
    obtain ⟨new, hframe, hnew, hname⟩ := hone
    obtain ⟨new', hframe', hnew', hcalls⟩ := ih (index + 1)
      (Setup.executeConductorTool script i index tc c).1
    rw [hframe] at hframe' hnew'
    have hcons : (Setup.executeTools script i index (tc :: rest) c).1 =
        (Setup.executeTools script i (index + 1) rest
          (Setup.executeConductorTool script i index tc c).1).1 := rfl
    refine ⟨new ++ new', ?_, fun d hd => ?_, fun hne => ?_⟩
    · rw [hcons, hframe, hframe', List.append_assoc]
    · rcases List.mem_append.mp hd with hd | hd
      · exact hnew d hd
      · exact hnew' d hd
    · by_cases hnil : new = []
      · subst hnil
        obtain ⟨tc', htc', hstart⟩ := hcalls hne
        exact ⟨tc', List.mem_cons_of_mem _ htc', hstart⟩
      · exact ⟨tc, List.mem_cons_self, hname hnil⟩

theorem InOrder.executeTools (h : InOrder setup c) (script : TurnScript) (i : ℕ)
    (calls : List ToolCall) (index : ℕ) :
    InOrder setup (Setup.executeTools script i index calls c).1 := by
  obtain ⟨new, hframe, hnew, -⟩ := executeTools_dispatches script i calls index c
  rw [hframe]
  refine ⟨fun d hd => ?_, h.current⟩
  rcases List.mem_append.mp hd with hd | hd
  · exact h.dispatches d hd
  · obtain ⟨hcurrent, hreplies⟩ := hnew d hd
    rw [hreplies]
    exact h.current d.planId hcurrent

def KeptShown (toml : Toml) (text : String) (replies : List String) : Prop :=
  ∀ g, shownTasks toml text = some g → lastShown toml replies = some g

theorem shownTasks_empty (toml : Toml) : shownTasks toml "" = none :=
  shownTasks_of_no_tag toml (by decide)

theorem KeptShown.hear {toml : Toml} {finalText : String} {replies : List String}
    (h : KeptShown toml finalText replies) (text : Option String) :
    KeptShown toml (Setup.keepText finalText text) (replies ++ text.toList) := by
  intro g hg
  cases text with
  | none =>
    show lastShown toml (replies ++ []) = some g
    rw [List.append_nil]
    exact h g hg
  | some t =>
    show lastShown toml (replies ++ [t]) = some g
    rw [lastShown_snoc]
    by_cases ht : t = ""
    · rw [Setup.keepText, if_pos ht] at hg
      rw [ht, shownTasks_empty, h g hg]
      rfl
    · rw [Setup.keepText, if_neg ht] at hg
      rw [hg]
      rfl

/-- What a tool loop that began in `c₀` can lead to. -/
inductive TurnEnd (setup : Setup) (script : TurnScript) (c₀ : Conductor) (restating : Prop) :
    Conductor × Except String (String × Bool) → Prop where
  | unasked (e : String) : TurnEnd setup script c₀ restating (c₀, .error e)
  | failed (c : Conductor) (i : ℕ) (e : String) (rounds : i < Setup.turnRounds)
      (asked : Asked setup script c₀ i) (error : script.round i = .error e)
      (follows : Follows setup c₀ c restating) :
      TurnEnd setup script c₀ restating (c, .error e)
  | quiet (c : Conductor) (i : ℕ) (last : LastQuiet setup script c₀ i)
      (follows : Follows setup c₀ c restating)
      (kept : KeptShown setup.host.toml (textBefore script (i + 1)) c.replies) :
      TurnEnd setup script c₀ restating (Setup.finishTurn c (textBefore script (i + 1)) false)
  | dispatched (c : Conductor) (text : String) (inOrder : InOrder setup c) :
      TurnEnd setup script c₀ restating (Setup.finishTurn c text true)

/-- What is true of the state before reply `i` of a loop that began in `c₀`. -/
structure Inside (setup : Setup) (script : TurnScript) (c₀ : Conductor) (restating : Prop) (i : ℕ)
    (c : Conductor) : Prop where
  asked : Asked setup script c₀ i
  conversation : c.conversation = c₀.conversation
  follows : Follows setup c₀ c restating
  kept : KeptShown setup.host.toml (textBefore script i) c.replies

def RestatesOnDispatch (setup : Setup) (script : TurnScript) (c₀ : Conductor) (restating : Prop) :
    Prop :=
  ∀ i < Setup.turnRounds, Asked setup script c₀ i → ∀ round, script.round i = .ok round →
    round.toolCalls ≠ [] → EndsTurn setup script c₀ i → restating

theorem Follows.dispatch {script : TurnScript} {i : ℕ} (hkept : setup.host.toml.TasksKept)
    (h₀ : InOrder setup c₀) (hturn : TurnInOrder setup script c₀ restating)
    (hends : RestatesOnDispatch setup script c₀ restating)
    (hi : i < Setup.turnRounds) {round : AgentRoundResult} (hround : script.round i = .ok round)
    (hcalls : round.toolCalls ≠ []) (hend : EndsTurn setup script c₀ i)
    (hasked : Asked setup script c₀ i) (hconv : c.conversation = c₀.conversation)
    (hfollows : Follows setup c₀ c restating)
    (hshown : KeptShown setup.host.toml (textBefore script (i + 1)) c.replies) :
    InOrder setup (setup.draftInline c (textBefore script (i + 1)) round.toolCalls
      (script.draft i)) := by
  have hrestating : restating := hends i hi hasked round hround hcalls hend
  have hlast : Setup.lastText c = Setup.lastText c₀ := by
    rw [Setup.lastText, Setup.lastText, hconv]
  rcases draftInline_cases c (textBefore script (i + 1)) round.toolCalls (script.draft i) rfl with
    hsame | hfailed | ⟨hdrafts, hsaves, disk', hsave, hadopted⟩
  · rw [hsame]
    exact hfollows.inOrder h₀ hrestating
  · rw [hfailed]
    exact (hfollows.save rfl (hturn.unused i).not_uses _).inOrder h₀ hrestating
  · rw [hadopted]
    rw [Setup.draftsInline, Bool.and_eq_true, Bool.and_eq_true, Option.isNone_iff_eq_none] at hdrafts
    obtain ⟨⟨htag, hnone⟩, hstart⟩ := hdrafts
    have hcallsStart : callsStartBuild round.toolCalls := by
      simpa [callsStartBuild] using hstart
    rw [hlast] at hsaves
    have hread := hturn.inline i hi hasked round hround (hfollows.plan ▸ hnone) hcallsStart htag
      hsaves
    exact hfollows.adopt h₀ hsave rfl (hturn.unused i) hkept (hshown _ hread)

theorem Follows.quietTools {script : TurnScript} {i : ℕ} {finalText : String}
    {calls : List ToolCall} (h : Follows setup c₀ c restating)
    (hunused : ¬ Uses c₀ (script.draft i).planId)
    (hno : Setup.dispatchedIn (Setup.executeTools script i 0 calls
      (setup.draftInline c finalText calls (script.draft i))).2 ≠ true) :
    Follows setup c₀ (Setup.executeTools script i 0 calls
        (setup.draftInline c finalText calls (script.draft i))).1 restating ∧
      (Setup.executeTools script i 0 calls
        (setup.draftInline c finalText calls (script.draft i))).1.replies = c.replies ∧
      (Setup.executeTools script i 0 calls
        (setup.draftInline c finalText calls (script.draft i))).1.conversation = c.conversation := by
  rw [ne_eq, (executeTools_frame script i calls 0 _).2, not_and] at hno
  obtain ⟨new, hframe, hnew, hstart⟩ := executeTools_dispatches script i calls 0
    (setup.draftInline c finalText calls (script.draft i))
  have hnil : new = [] := by
    by_contra hne
    obtain ⟨d, hd⟩ := List.exists_mem_of_ne_nil _ hne
    exact hno (hstart hne) (by rw [(hnew d hd).1]; rfl)
  subst hnil
  rw [List.append_nil] at hframe
  rw [hframe]
  rcases draftInline_cases c finalText calls (script.draft i) rfl with
    hsame | hfailed | ⟨hdrafts, -, disk', -, hadopted⟩
  · rw [hsame]
    exact ⟨h, rfl, rfl⟩
  · rw [hfailed]
    exact ⟨h.save rfl hunused _, rfl, rfl⟩
  · rw [Setup.draftsInline, Bool.and_eq_true] at hdrafts
    have hcalls : callsStartBuild calls := by simpa [callsStartBuild] using hdrafts.2
    exact absurd (by rw [hadopted]; rfl) (hno hcalls)

theorem turnLoop_inOrder_reply {script : TurnScript} (hkept : setup.host.toml.TasksKept)
    (h₀ : InOrder setup c₀) (hturn : TurnInOrder setup script c₀ restating)
    (hends : RestatesOnDispatch setup script c₀ restating) {n i : ℕ}
    (hn : i + (n + 1) = Setup.turnRounds) (h : Inside setup script c₀ restating i c)
    (later : List ConvMessage)
    (hrest : ∀ c₃ later', Inside setup script c₀ restating (i + 1) c₃ →
      TurnEnd setup script c₀ restating
        (setup.turnLoop script n (i + 1) c₃ later' (textBefore script (i + 1)))) :
    TurnEnd setup script c₀ restating
      (setup.turnLoop script (n + 1) i c later (textBefore script i)) := by
  have hi : i < Setup.turnRounds := by omega
  rw [Setup.turnLoop]
  cases hround : script.round i with
  | error e =>
    have hhear := h.follows.hear later none fun _ t ht => by cases ht
    rw [Conductor.hear, Option.toList_none, List.append_nil] at hhear
    exact .failed _ i e hi h.asked hround hhear
  | ok round =>
    have htext : Setup.keepText (textBefore script i) round.text = textBefore script (i + 1) := by
      rw [textBefore, hround]
      rfl
    have hfollows : Follows setup c₀ ((c.request later).hear round.text) restating :=
      h.follows.hear later round.text fun hr t ht =>
        hturn.restates hr i hi h.asked round t hround ht
    have hshown : KeptShown setup.host.toml (textBefore script (i + 1))
        ((c.request later).hear round.text).replies := htext ▸ h.kept.hear round.text
    dsimp only
    rw [htext]
    by_cases hcalls : round.toolCalls = []
    · rw [hcalls, List.isEmpty_nil, if_pos rfl]
      exact .quiet _ i ⟨hi, h.asked, round, hround, .inl hcalls⟩ hfollows hshown
    · have hdispatched := @endsTurn_iff_dispatched setup c₀ script i round hround hcalls
        ((c.request later).hear round.text) h.conversation hfollows.plan
      rw [List.isEmpty_eq_false_iff.mpr hcalls, if_neg Bool.false_ne_true]
      by_cases hend : EndsTurn setup script c₀ i
      · rw [if_pos (hdispatched.mp hend)]
        have hconv : ((c.request later).hear round.text).conversation = c₀.conversation :=
          h.conversation
        have hdraft := hfollows.dispatch hkept h₀ hturn hends hi hround hcalls hend h.asked hconv
          hshown
        exact .dispatched _ _ (hdraft.executeTools script i round.toolCalls 0)
      · rw [if_neg fun hd => hend (hdispatched.mpr hd)]
        have hno := fun hd => hend (hdispatched.mpr hd)
        obtain ⟨hafter, hreplies, hconv⟩ := hfollows.quietTools (hturn.unused i).not_uses hno
        refine hrest _ _ ⟨fun j hj => ?_, hconv.trans h.conversation, hafter, hreplies ▸ hshown⟩
        rcases Nat.lt_succ_iff_lt_or_eq.mp hj with hlt | rfl
        · exact h.asked j hlt
        · exact ⟨⟨round, hround⟩, hend⟩

theorem turnLoop_inOrder {script : TurnScript} (hkept : setup.host.toml.TasksKept)
    (h₀ : InOrder setup c₀) (hturn : TurnInOrder setup script c₀ restating)
    (hends : RestatesOnDispatch setup script c₀ restating) {n i : ℕ}
    (hn : i + (n + 1) = Setup.turnRounds) (h : Inside setup script c₀ restating i c)
    (later : List ConvMessage) :
    TurnEnd setup script c₀ restating
      (setup.turnLoop script (n + 1) i c later (textBefore script i)) := by
  induction n generalizing i c later with
  | zero =>
    refine turnLoop_inOrder_reply hkept h₀ hturn hends hn h later fun c₃ later' h₃ => ?_
    obtain ⟨⟨round, hround⟩, hend⟩ := h₃.asked i (Nat.lt_succ_self i)
    rw [Setup.turnLoop]
    exact .quiet c₃ i ⟨by omega, h.asked, round, hround, .inr ⟨hn, hend⟩⟩ h₃.follows h₃.kept
  | succ n ih =>
    refine turnLoop_inOrder_reply hkept h₀ hturn hends hn h later fun c₃ later' h₃ => ?_
    exact ih (by omega) h₃ later'

theorem LastQuiet.le {script : TurnScript} {i j : ℕ} (h : LastQuiet setup script c i)
    (hj : j < Setup.turnRounds) (hasked : Asked setup script c j) : j ≤ i := by
  obtain ⟨hi, -, round, hround, hquiet⟩ := h
  by_contra hgt
  have hno := (hasked i (Nat.lt_of_not_le hgt)).2
  rcases hquiet with hnil | ⟨hlast, -⟩
  · exact hno ⟨round, hround, .inl hnil⟩
  · omega

theorem LastQuiet.unique {script : TurnScript} {i j : ℕ} (h : LastQuiet setup script c i)
    (h' : LastQuiet setup script c j) : j = i :=
  le_antisymm (h.le h'.1 h'.2.1) (h'.le h.1 h.2.1)

theorem LastQuiet.replied {script : TurnScript} {i j : ℕ} (h : LastQuiet setup script c i)
    (hj : j < Setup.turnRounds) (hasked : Asked setup script c j) :
    ∃ round, script.round j = .ok round := by
  obtain ⟨-, haskedi, round, hround, -⟩ := id h
  rcases Nat.lt_or_eq_of_le (h.le hj hasked) with hlt | rfl
  · exact (haskedi j hlt).1
  · exact ⟨round, hround⟩

theorem LastQuiet.no_calls {script : TurnScript} {i j : ℕ} (h : LastQuiet setup script c i)
    (hj : j < Setup.turnRounds) (hasked : Asked setup script c j) {round : AgentRoundResult}
    (hround : script.round j = .ok round) (hend : EndsTurn setup script c j) :
    round.toolCalls = [] := by
  obtain ⟨-, haskedi, round', hround', hquiet⟩ := id h
  rcases Nat.lt_or_eq_of_le (h.le hj hasked) with hlt | rfl
  · exact absurd hend (haskedi j hlt).2
  · cases hround.symm.trans hround'
    exact hquiet.resolve_right fun hlast => hlast.2 hend

end Mowis.Planning
