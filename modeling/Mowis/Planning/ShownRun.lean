import Mowis.Planning.ShownTurn

/-!
# Captains run what was shown

What each operation must show and adopt for the captains to run what the user has seen.
-/

namespace Mowis.Planning

open Mowis.Lib
open Mowis.Orchestration (PlanId TaskNode ToolCall)

variable {setup : Setup} {c c' c₀ : Conductor} {disk disk' : Disk} {planId : PlanId}
  {shown : Option TaskGraph} {p : PlanRecord} {fate : SaveFate}

variable {restating : Prop}

/-! ### One operation -/

def IsChat (setup : Setup) (c : Conductor) (script : MessageScript) : Prop :=
  c.currentPlan.isSome = true ∧ ∃ output, setup.classifyMessage script.classifier = .ok output ∧
    output.decision = .informational

/-- The plan that the normal flow would draft from the text of reply `i`. -/
def endRecord (setup : Setup) (msg : String) (script : MessageScript) (i : ℕ) : PlanRecord :=
  Setup.draftRecord script.draft msg (textBefore script.turn (i + 1))
    (responseTasks setup.host.toml (textBefore script.turn (i + 1)))

/-- The normal flow adopts a plan when its loop has ended. -/
def DraftsAtEnd (setup : Setup) (c : Conductor) (msg : String) (script : MessageScript) : Prop :=
  ∃ i, LastQuiet setup script.turn c i ∧ hasPlanTag (textBefore script.turn (i + 1)) = true ∧
    Saves setup (endRecord setup msg script i) script.draft.fate

/-- The loop of a message brings no plan that is shown and not run. -/
structure MessageInOrder (setup : Setup) (c : Conductor) (msg : String) (script : MessageScript)
    (chat : Prop) : Prop where
  turn : TurnInOrder setup script.turn c (chat ∨ ¬ DraftsAtEnd setup c msg script)
  drafted : ¬ chat → ∀ i, LastQuiet setup script.turn c i →
    hasPlanTag (textBefore script.turn (i + 1)) = true → Unused setup c script.draft.planId ∧
      (Saves setup (endRecord setup msg script i) script.draft.fate →
        ReadAsShown setup.host.toml (textBefore script.turn (i + 1)))

/-- A plan drafted from one reply is the one the reply shows; if it cannot be saved, the reply
shows nothing new. -/
structure DraftInOrder (setup : Setup) (c : Conductor) (msg response : String) (draft : Draft) :
    Prop where
  unused : Unused setup c draft.planId
  shown : Saves setup (Setup.draftRecord draft msg response
    (draftTasks setup.host.toml response)) draft.fate → shownTasks setup.host.toml response ≠ none
  restates : ¬ Saves setup (Setup.draftRecord draft msg response
    (draftTasks setup.host.toml response)) draft.fate → Restates setup c response

def Adopts (setup : Setup) (c : Conductor) : Op → Prop
  | .userMessage msg script => HasModel setup →
    match branch setup c script with
    | .hotPatch => True
    | .draft => ∀ response, script.draftReply = .ok response →
      DraftInOrder setup (Setup.receive c msg script.digest) msg response script.draft
    | .turn => MessageInOrder setup (Setup.receive c msg script.digest) msg script
      (IsChat setup c script)
  | .criticVerdict planId verdict script => HasModel setup → Revises setup c planId verdict script →
    ∀ response, script.reply = .ok response → Restates setup c response ∧
      ∀ p, setup.host.load c.disk setup.plansDir planId = .ok p →
        p.planId = planId ∨ ¬ Uses c p.planId
  | .announceCompletion _ reply => HasModel setup → ∀ response, reply = .ok response →
    Restates setup c response
  | .materializeTask task draft => Unused setup c draft.planId ∧
    (Saves setup (Setup.taskRecord task draft) draft.fate →
      lastShown setup.host.toml c.replies = some [task])

theorem InOrder.adopt (h₀ : InOrder setup c₀) (hkept : setup.host.toml.TasksKept)
    (hdir : p.plansDir = draftPlansDir) (hunused : Unused setup c₀ p.planId)
    (hsaves : Saves setup p fate → Follows setup c₀ c False ∧
      lastShown setup.host.toml c.replies = some p.taskGraph)
    (hfails : ¬ Saves setup p fate → Follows setup c₀ c True) (out : PlanId → ConductorReply) :
    InOrder setup (Setup.adopt (setup.savePlan p fate c) out).1 := by
  have hframe := savePlan_frame setup p fate c
  have hok := savePlan_ok_iff setup p fate c
  cases hsave : setup.savePlan p fate c with
  | mk c₁ result =>
    rw [hsave] at hframe hok
    dsimp only at hframe hok
    cases result with
    | error e =>
      have hno : ¬ Saves setup p fate := fun hyes => by
        obtain ⟨planId, h⟩ := hok.mpr hyes
        cases h
      rw [hframe]
      exact ((hfails hno).save hdir hunused.not_uses fate).inOrder h₀ trivial
    | ok planId =>
      obtain ⟨hfollows, hshown⟩ := hsaves (hok.mp ⟨planId, rfl⟩)
      obtain ⟨rfl, hdisk⟩ := savePlan_ok hsave
      rw [hframe] at hdisk ⊢
      exact hfollows.adopt h₀ hdisk hdir hunused hkept hshown

theorem receive_eq (c : Conductor) (msg digest : String) :
    ∃ conversation, Setup.receive c msg digest = { c with conversation := conversation } := by
  rw [Setup.receive]
  split
  · exact ⟨_, rfl⟩
  · exact ⟨_, rfl⟩

theorem InOrder.receive (h : InOrder setup c) (msg digest : String) :
    InOrder setup (Setup.receive c msg digest) := by
  obtain ⟨conversation, heq⟩ := receive_eq c msg digest
  rw [heq]
  exact ⟨h.dispatches, h.current⟩

theorem InOrder.ask (h : InOrder setup c) {reply : Except String String}
    (hreply : HasModel setup → ∀ response, reply = .ok response → Restates setup c response) :
    InOrder setup (setup.ask c reply).1 := by
  unfold Setup.ask
  cases hmodel : setup.conductorModel with
  | error e => exact h
  | ok config =>
    cases reply with
    | error e => exact ⟨h.dispatches, h.current⟩
    | ok response =>
      have hfollows : Follows setup c ((c.request []).hear (some response)) True :=
        (Follows.refl h).hear [] (some response) fun _ t ht => by
          cases ht
          exact hreply ⟨config, hmodel⟩ response rfl
      have hin := hfollows.inOrder h trivial
      exact ⟨hin.dispatches, hin.current⟩

theorem InOrder.draftPlan (h : InOrder setup c) (hkept : setup.host.toml.TasksKept) {msg : String}
    {reply : Except String String} {draft : Draft}
    (hdraft : HasModel setup → ∀ response, reply = .ok response →
      DraftInOrder setup c msg response draft) (out : PlanId → ConductorReply) :
    InOrder setup (Setup.adopt (setup.draftPlan c msg reply draft) out).1 := by
  unfold Setup.draftPlan Setup.ask
  cases hmodel : setup.conductorModel with
  | error e => exact h
  | ok config =>
    cases reply with
    | error e => exact ⟨h.dispatches, h.current⟩
    | ok response =>
      have hshow := hdraft ⟨config, hmodel⟩ response rfl
      refine h.adopt hkept rfl hshow.unused (fun hsaves => ⟨?_, ?_⟩) (fun hfails => ?_) out
      · have hfollows : Follows setup c ((c.request []).hear (some response)) False :=
          (Follows.refl h).hear [] (some response) fun hno => hno.elim
        exact hfollows.push .model response
      · show lastShown setup.host.toml (c.replies ++ [response]) = _
        obtain ⟨g, hg⟩ := Option.ne_none_iff_exists'.mp (hshow.shown hsaves)
        rw [lastShown_snoc, hg, Setup.draftRecord, draftTasks_of_shown _ hg]
        rfl
      · have hfollows : Follows setup c ((c.request []).hear (some response)) True :=
          (Follows.refl h).hear [] (some response) fun _ t ht => by
            cases ht
            exact hshow.restates hfails
        exact hfollows.push .model response

theorem restatesOnDispatch {msg : String} {script : MessageScript} {chat : Prop} :
    RestatesOnDispatch setup script.turn c (chat ∨ ¬ DraftsAtEnd setup c msg script) := by
  intro i hi hasked round hround hcalls hend
  refine .inr ?_
  rintro ⟨j, hlast, -⟩
  exact hcalls (hlast.no_calls hi hasked hround hend)

theorem InOrder.conversationalTurn (h : InOrder setup c) (hkept : setup.host.toml.TasksKept)
    {msg : String} {script : MessageScript} {chat : Prop}
    (hmessage : HasModel setup → MessageInOrder setup c msg script chat) :
    TurnEnd setup script.turn c (chat ∨ ¬ DraftsAtEnd setup c msg script)
      (setup.conversationalTurn c script.turn) := by
  unfold Setup.conversationalTurn
  cases hmodel : setup.conductorModel with
  | error e => exact .unasked e
  | ok config =>
    have hinside : Inside setup script.turn c (chat ∨ ¬ DraftsAtEnd setup c msg script) 0 c :=
      ⟨fun j hj => absurd hj (Nat.not_lt_zero j), rfl, .refl h, fun g hg => by
        rw [textBefore, shownTasks_empty] at hg
        cases hg⟩
    exact turnLoop_inOrder hkept h (hmessage ⟨config, hmodel⟩).turn restatesOnDispatch rfl
      hinside []

theorem InOrder.push (h : InOrder setup c) (speaker : Speaker) (text : String) :
    InOrder setup (c.push speaker text) :=
  ⟨h.dispatches, h.current⟩

theorem InOrder.chatTurn (h : InOrder setup c) (hkept : setup.host.toml.TasksKept) {msg : String}
    {script : MessageScript} {chat : Prop} (hchat : chat)
    (hmessage : HasModel setup → MessageInOrder setup c msg script chat) :
    InOrder setup (setup.chatTurn c script.turn).1 := by
  have hend := h.conversationalTurn hkept hmessage
  rw [Setup.chatTurn]
  generalize setup.conversationalTurn c script.turn = result at hend
  cases hend with
  | unasked e => exact h
  | failed c₁ i e rounds asked error follows => exact follows.inOrder h (.inl hchat)
  | quiet c₁ i last follows kept => exact (follows.inOrder h (.inl hchat)).push _ _
  | dispatched c₁ text inOrder => exact inOrder.push _ _

theorem InOrder.normalTurn (h : InOrder setup c) (hkept : setup.host.toml.TasksKept) {msg : String}
    {script : MessageScript} {chat : Prop} (hchat : ¬ chat)
    (hmessage : HasModel setup → MessageInOrder setup c msg script chat) :
    InOrder setup (setup.normalTurn c msg script).1 := by
  have hend := h.conversationalTurn hkept hmessage
  have hmodel : ∀ c₁ r, setup.conversationalTurn c script.turn = (c₁, .ok r) → HasModel setup :=
    fun c₁ r heq => ((conversationalTurn_exchange setup c script.turn).2.mp ⟨r, by rw [heq]⟩).1
  rw [Setup.normalTurn]
  generalize setup.conversationalTurn c script.turn = result at hend hmodel
  cases hend with
  | unasked e => exact h
  | failed c₁ i e rounds asked error follows =>
    refine follows.inOrder h (.inr ?_)
    rintro ⟨j, hlast, -⟩
    obtain ⟨round, hround⟩ := hlast.replied rounds asked
    rw [error] at hround
    cases hround
  | quiet c₁ i last follows kept =>
    have hdrafted := (hmessage (hmodel _ _ rfl)).drafted hchat i last
    rw [Setup.finishTurn]
    dsimp only
    by_cases htag : hasPlanTag (textBefore script.turn (i + 1)) = true
    · rw [if_pos htag, Setup.draftPlanFromResponse]
      obtain ⟨hunused, hread⟩ := hdrafted htag
      refine h.adopt hkept rfl hunused (fun hsaves => ⟨?_, ?_⟩) (fun hfails => ?_) _
      · exact (follows.imp fun hno => hno.elim).push _ _
      · exact kept _ (hread hsaves)
      · refine (follows.imp fun _ => .inr ?_).push _ _
        rintro ⟨j, hlast, -, hsaves⟩
        rw [last.unique hlast] at hsaves
        exact hfails hsaves
    · rw [if_neg htag]
      refine (follows.inOrder h (.inr ?_)).push _ _
      rintro ⟨j, hlast, htag', -⟩
      rw [last.unique hlast] at htag'
      exact htag htag'
  | dispatched c₁ text inOrder => exact inOrder.push _ _

theorem Adopts.turn {msg : String} {script : MessageScript}
    (h : Adopts setup c (.userMessage msg script)) (hbranch : branch setup c script = .turn)
    (hmodel : HasModel setup) :
    MessageInOrder setup (Setup.receive c msg script.digest) msg script (IsChat setup c script) := by
  have hmessage := h hmodel
  rwa [hbranch] at hmessage

theorem Adopts.draft {msg : String} {script : MessageScript}
    (h : Adopts setup c (.userMessage msg script)) (hbranch : branch setup c script = .draft)
    (hmodel : HasModel setup) (response : String) (hreply : script.draftReply = .ok response) :
    DraftInOrder setup (Setup.receive c msg script.digest) msg response script.draft := by
  have hdraft := h hmodel
  rw [hbranch] at hdraft
  exact hdraft response hreply

theorem InOrder.handleUserMessage (h : InOrder setup c) (hkept : setup.host.toml.TasksKept)
    {msg : String} {script : MessageScript} (hadopts : Adopts setup c (.userMessage msg script)) :
    InOrder setup (setup.handleUserMessage c msg script).1 := by
  have hreceive := h.receive msg script.digest
  have hplan : (Setup.receive c msg script.digest).currentPlan = c.currentPlan := by
    obtain ⟨conversation, heq⟩ := receive_eq c msg script.digest
    rw [heq]
  unfold Setup.handleUserMessage
  dsimp only
  rw [hplan]
  cases hcurrent : c.currentPlan with
  | none =>
    have hno : ¬ IsChat setup c script := fun hchat => by
      rw [IsChat, hcurrent] at hchat
      cases hchat.1
    exact hreceive.normalTurn hkept hno (hadopts.turn (by simp [branch, hcurrent]))
  | some oldPlan =>
    have hsome : c.currentPlan.isNone = false := by rw [hcurrent]; rfl
    cases hclassify : setup.classifyMessage script.classifier with
    | error e =>
      have hno : ¬ IsChat setup c script := by
        rintro ⟨-, output, hok, -⟩
        rw [hclassify] at hok
        cases hok
      exact hreceive.normalTurn hkept hno (hadopts.turn (by simp [branch, hsome, hclassify]))
    | ok output =>
      dsimp only
      cases hdecision : output.decision with
      | informational =>
        have hchat : IsChat setup c script := ⟨by rw [hcurrent]; rfl, output, hclassify, hdecision⟩
        exact hreceive.chatTurn hkept hchat
          (hadopts.turn (by simp [branch, hsome, hclassify, hdecision]))
      | hotPatch =>
        cases htask : output.task with
        | some info => exact hreceive
        | none =>
          have hno : ¬ IsChat setup c script := by
            rintro ⟨-, output', hok, hinfo⟩
            cases hclassify.symm.trans hok
            cases hdecision.symm.trans hinfo
          exact hreceive.normalTurn hkept hno
            (hadopts.turn (by simp [branch, hsome, hclassify, hdecision, htask]))
      | scopeChange =>
        exact hreceive.draftPlan hkept
          (hadopts.draft (by simp [branch, hsome, hclassify, hdecision])) _
      | newPlan =>
        exact hreceive.draftPlan hkept
          (hadopts.draft (by simp [branch, hsome, hclassify, hdecision])) _

theorem ask_frame (setup : Setup) (c : Conductor) (reply : Except String String) :
    ∃ conversation requests replies, (setup.ask c reply).1 =
      { c with conversation := conversation, requests := requests, replies := replies } := by
  unfold Setup.ask
  cases setup.conductorModel with
  | error e => exact ⟨_, _, _, rfl⟩
  | ok config =>
    cases reply with
    | error e => exact ⟨_, _, _, rfl⟩
    | ok response => exact ⟨_, _, _, rfl⟩

theorem InOrder.revise (h : InOrder setup c) (hkept : setup.host.toml.TasksKept)
    (hload : setup.host.load c.disk setup.plansDir planId = .ok p)
    (hid : p.planId = planId ∨ ¬ Uses c p.planId) (q : PlanRecord)
    (hq : q.planId = p.planId ∧ q.plansDir = p.plansDir ∧ q.taskGraph = p.taskGraph)
    (fate : SaveFate) :
    InOrder setup { c with disk := (setup.host.save q fate c.disk).1 } := by
  have hholds : ∀ id shown, Uses c id → Holds setup c.disk id shown →
      Holds setup (setup.host.save q fate c.disk).1 id shown := by
    intro id shown huses hold
    by_cases hsame : id = q.planId
    · have hself : p.planId = planId :=
        hid.resolve_right fun hno => hno (by rwa [hsame, hq.1] at huses)
      rw [hsame, hq.1, hself] at hold ⊢
      exact hold.revise hkept hload hself hq fate
    · exact hold.congr fun file => Host.lookup_save_of_ne (.inr hsame) fate c.disk
  exact ⟨fun d hd => hholds d.planId _ (.inr ⟨d, hd, rfl⟩) (h.dispatches d hd),
    fun id hcurrent => hholds id _ (.inl hcurrent) (h.current id hcurrent)⟩

theorem InOrder.handleCriticVerdict (h : InOrder setup c) (hkept : setup.host.toml.TasksKept)
    {verdict : Verdict} {script : ReviseScript}
    (hadopts : Adopts setup c (.criticVerdict planId verdict script)) :
    InOrder setup (setup.handleCriticVerdict c planId verdict script).1 := by
  cases verdict with
  | approve => exact h
  | block reason => exact h
  | revise issues =>
    unfold Setup.handleCriticVerdict
    dsimp only
    cases hload : setup.host.load c.disk setup.plansDir planId with
    | error e => exact h
    | ok plan =>
      dsimp only
      cases hsnapshot : script.snapshot with
      | error e => exact h
      | ok u =>
        have hrevises : Revises setup c planId (.revise issues) script :=
          ⟨⟨plan, hload⟩, hsnapshot⟩
        have hpush := h.push .system (Setup.fixPrompt issues)
        have hasked : InOrder setup
            (setup.ask (c.push .system (Setup.fixPrompt issues)) script.reply).1 :=
          hpush.ask fun hmodel response hreply =>
            (hadopts hmodel hrevises response hreply).1
        dsimp only
        have hframe := ask_frame setup (c.push .system (Setup.fixPrompt issues)) script.reply
        have hanswered := (ask_exchange setup (c.push .system (Setup.fixPrompt issues))
          script.reply).2
        cases hcall : setup.ask (c.push .system (Setup.fixPrompt issues)) script.reply with
        | mk c₁ result =>
          rw [hcall] at hasked hframe hanswered
          cases result with
          | error e => exact hasked
          | ok response =>
            obtain ⟨hmodel, -⟩ := hanswered.mp ⟨response, rfl⟩
            obtain ⟨hreply, -⟩ := ask_ok hcall
            obtain ⟨conversation, requests, replies, rfl⟩ := hframe
            exact hasked.revise hkept hload
              ((hadopts hmodel hrevises response hreply).2 plan hload)
              { plan with currentVersion := plan.currentVersion + 1, overview := response }
              ⟨rfl, rfl, rfl⟩ script.fate

theorem InOrder.announceCompletion (h : InOrder setup c) {builtSummary : String}
    {reply : Except String String} (hadopts : Adopts setup c (.announceCompletion builtSummary reply)) :
    InOrder setup (setup.announceCompletion c builtSummary reply).1 := by
  have hasked : InOrder setup
      (setup.ask (c.push .system (Setup.completionText builtSummary)) reply).1 :=
    (h.push .system (Setup.completionText builtSummary)).ask hadopts
  rw [Setup.announceCompletion]
  split
  · next hcall => rwa [hcall] at hasked
  · next hcall => rwa [hcall] at hasked

theorem InOrder.materializeTaskAsPlan (h : InOrder setup c) (hkept : setup.host.toml.TasksKept)
    {task : TaskNode} {draft : Draft} (hadopts : Adopts setup c (.materializeTask task draft)) :
    InOrder setup (setup.materializeTaskAsPlan c task draft).1 := by
  obtain ⟨hunused, hshown⟩ := hadopts
  have hadopt : InOrder setup (Setup.adopt (setup.savePlan (Setup.taskRecord task draft) draft.fate c)
      .scopeChanged).1 :=
    h.adopt hkept rfl hunused (fun hsaves => ⟨.refl h, hshown hsaves⟩) (fun _ => .refl h) _
  rw [Setup.materializeTaskAsPlan]
  cases hsave : setup.savePlan (Setup.taskRecord task draft) draft.fate c with
  | mk c₁ result =>
    rw [hsave] at hadopt
    cases result with
    | error e => exact hadopt
    | ok planId => exact hadopt

theorem InOrder.step (h : InOrder setup c) (hkept : setup.host.toml.TasksKept) {op : Op}
    (hadopts : Adopts setup c op) : InOrder setup (setup.step c op) := by
  cases op with
  | userMessage msg script => exact h.handleUserMessage hkept hadopts
  | criticVerdict planId verdict script => exact h.handleCriticVerdict hkept hadopts
  | announceCompletion builtSummary reply => exact h.announceCompletion hadopts
  | materializeTask task draft => exact h.materializeTaskAsPlan hkept hadopts

theorem InOrder.run (hkept : setup.host.toml.TasksKept) (disk : Disk) (ops : List Op)
    (hadopts : ∀ before op after, ops = before ++ op :: after →
      Adopts setup (setup.run disk before) op) : InOrder setup (setup.run disk ops) := by
  induction ops using List.reverseRecOn with
  | nil => exact ⟨fun d hd => absurd hd List.not_mem_nil, fun planId hcurrent => by cases hcurrent⟩
  | append_singleton ops op ih =>
    rw [Setup.run_snoc]
    refine (ih fun before op' after heq => ?_).step hkept
      (hadopts ops op [] (append_cons_eq_snoc.mpr (.inl ⟨rfl, rfl, rfl⟩)))
    exact hadopts before op' _ (append_cons_eq_snoc.mpr (.inr ⟨after, rfl, heq⟩))

/-- **Captains run what was shown, as long as everything shown is adopted.**  In a run whose
every operation either makes the plan it shows the current one or shows nothing but that plan,
each captain loads the tasks of the last reply that showed some when it was dispatched. -/
theorem runs_shown_of_adopted (setup : Setup) (hkept : setup.host.toml.TasksKept) (disk : Disk)
    (ops : List Op) (hadopts : ∀ before op after, ops = before ++ op :: after →
      Adopts setup (setup.run disk before) op) : RunsShown setup (setup.run disk ops) :=
  (InOrder.run hkept disk ops hadopts).runsShown

/-! ### A plan that is shown and built -/

def startBuild : ToolCall := ⟨"call_1", "start_build", .object []⟩

/-- A message to which the model answers with a text and a call of `start_build`. -/
def buildMessage (reply : String) : MessageScript :=
  { messageWith (.error "unused") with
    turn := ⟨fun _ => .ok ⟨some reply, [startBuild], ⟨0, 0⟩⟩, fun _ _ => .null, fun _ => notesDraft⟩ }

theorem textBefore_buildMessage {reply : String} (hne : reply ≠ "") (i : ℕ) :
    textBefore (buildMessage reply).turn (i + 1) = reply := if_neg hne

theorem buildMessage_runs {config : Orchestration.LlmConfig}
    (hmodel : setup.conductorModel = .ok config) {reply : String} (hne : reply ≠ "") (msg : String)
    {c₂ : Conductor}
    (hdraft : setup.draftInline (((c.push .user msg).request []).hear (some reply)) reply
      [startBuild] notesDraft = c₂) (hplan : c₂.currentPlan = some planId) :
    setup.step c (.userMessage msg (buildMessage reply)) =
      ({ c₂ with dispatches := c₂.dispatches ++ [⟨planId, c₂.replies⟩] } : Conductor).push
        .model reply := by
  have hclassify : ∃ e, setup.classifyMessage (buildMessage reply).classifier = .error e := by
    unfold Setup.classifyMessage
    cases setup.cfg.llmFor setup.decrypt .crew with
    | error e => exact ⟨e, rfl⟩
    | ok config => exact ⟨"unused", rfl⟩
  obtain ⟨e, hclassify⟩ := hclassify
  have hnormal : setup.handleUserMessage c msg (buildMessage reply) =
      setup.normalTurn (c.push .user msg) msg (buildMessage reply) := by
    have hreceive : Setup.receive c msg (buildMessage reply).digest = c.push .user msg := rfl
    unfold Setup.handleUserMessage
    dsimp only
    rw [hclassify, hreceive]
    cases (c.push .user msg).currentPlan with
    | none => rfl
    | some oldPlan => rfl
  have htools : Setup.executeTools (buildMessage reply).turn 0 0 [startBuild] c₂ =
      ({ c₂ with dispatches := c₂.dispatches ++ [⟨planId, c₂.replies⟩] },
        [(startBuild, Setup.startedJson planId)]) := by
    have hstart : Setup.executeStartBuild c₂ =
        ({ c₂ with dispatches := c₂.dispatches ++ [⟨planId, c₂.replies⟩] },
          Setup.startedJson planId) := by
      rw [Setup.executeStartBuild, hplan]
    have htool : Setup.executeConductorTool (buildMessage reply).turn 0 0 startBuild c₂ =
        Setup.executeStartBuild c₂ := if_pos rfl
    simp only [Setup.executeTools, htool, hstart]
  have hloop : setup.conversationalTurn (c.push .user msg) (buildMessage reply).turn =
      Setup.finishTurn { c₂ with dispatches := c₂.dispatches ++ [⟨planId, c₂.replies⟩] } reply
        true := by
    have hkeep : Setup.keepText "" (some reply) = reply := if_neg hne
    unfold Setup.conversationalTurn
    rw [hmodel]
    show setup.turnLoop (buildMessage reply).turn (4 + 1) 0 (c.push .user msg) [] "" = _
    rw [Setup.turnLoop]
    show (if Setup.dispatchedIn (Setup.executeTools (buildMessage reply).turn 0 0 [startBuild]
        (setup.draftInline (((c.push .user msg).request []).hear (some reply))
          (Setup.keepText "" (some reply)) [startBuild] notesDraft)).2 = true then
      Setup.finishTurn (Setup.executeTools (buildMessage reply).turn 0 0 [startBuild]
        (setup.draftInline (((c.push .user msg).request []).hear (some reply))
          (Setup.keepText "" (some reply)) [startBuild] notesDraft)).1
          (Setup.keepText "" (some reply)) true else _) = _
    rw [hkeep, hdraft, htools]
    rfl
  rw [Setup.step, hnormal, Setup.normalTurn, hloop]
  rfl

theorem notes_built {toml : Toml} (hkeeps : toml.Keeps notesRecord)
    (htasks : responseTasks toml notesReply = [notesTask]) :
    ∃ conversation requests,
      (planSetup draftPlansDir toml).step (.start ∅) (.userMessage "notes" (buildMessage notesReply)) =
        ⟨conversation, some notesRecord.planId,
          ((planSetup draftPlansDir toml).host.save notesRecord notesDraft.fate ∅).1, requests,
          [notesReply], [⟨notesRecord.planId, [notesReply]⟩]⟩ := by
  have hmodel : ∃ config, (planSetup draftPlansDir toml).conductorModel = .ok config := ⟨_, rfl⟩
  obtain ⟨config, hmodel⟩ := hmodel
  have hinline : ∀ c : Conductor, c.currentPlan = none → Setup.lastText c = "notes" →
      (planSetup draftPlansDir toml).draftInline c notesReply [startBuild] notesDraft =
        { c with
          disk := ((planSetup draftPlansDir toml).host.save notesRecord notesDraft.fate c.disk).1
          currentPlan := some notesRecord.planId } := by
    intro c hplan hlast
    have hrecord : Setup.draftRecord notesDraft "notes" notesReply
        (responseTasks (planSetup draftPlansDir toml).host.toml notesReply) = notesRecord := by
      rw [show (planSetup draftPlansDir toml).host.toml = toml from rfl, htasks]
      rfl
    have hdrafts : Setup.draftsInline c notesReply [startBuild] = true := by
      rw [Setup.draftsInline, hplan]
      decide +kernel
    have hkeeps' : (planSetup draftPlansDir toml).host.toml.Keeps notesRecord := hkeeps
    rw [Setup.draftInline, if_pos hdrafts, Setup.draftPlanFromResponse, hlast, hrecord,
      savePlan_of_keeps hkeeps' (show 6 < notesDraft.fate.writes by decide) c]
  have hrun := buildMessage_runs hmodel (show notesReply ≠ "" by decide) "notes"
    (hinline ((((Conductor.start ∅).push .user "notes").request []).hear (some notesReply)) rfl rfl)
    rfl
  exact ⟨_, _, hrun⟩

theorem tableCodec_kept {known : List TaskGraph} {text : TaskGraph → String}
    (hne : ∀ g ∈ known, text g ≠ "")
    (hdistinct : ∀ g ∈ known, ∀ g' ∈ known, text g' = text g ∨ "\n" ++ text g' = text g → g' = g)
    (t : String) (g : TaskGraph) (h : (tableCodec known text).parse t = .ok g) :
    (tableCodec known text).Prints g := by
  have hmem : g ∈ known := by
    dsimp only [tableCodec] at h
    split at h
    · next g' hfind =>
      cases h
      exact List.mem_of_find?_eq_some hfind
    · cases h
  refine ⟨text g, rfl, hne g hmem, ?_⟩
  dsimp only [tableCodec]
  cases hfind : known.find? fun g' => text g' = text g ∨ "\n" ++ text g' = text g with
  | none =>
    have hno := List.find?_eq_none.mp hfind g hmem
    simp at hno
  | some g' =>
    have htext := List.find?_some hfind
    rw [hdistinct g hmem g' (List.mem_of_find?_eq_some hfind) (by simpa using htext)]

theorem notes_kept : notesToml.TasksKept :=
  tableCodec_kept (by decide) (by decide)

theorem shownTasks_notes : shownTasks notesToml notesReply = some [notesTask] := by
  decide +kernel

theorem load_empty (host : Host) (plansDir : String) (planId : PlanId) :
    host.load ∅ plansDir planId = .error host.notFound := rfl

theorem notes_adopted (toml : Toml) (hshown : shownTasks toml notesReply = some [notesTask])
    (htasks : responseTasks toml notesReply = [notesTask]) :
    Adopts (planSetup draftPlansDir toml) (.start ∅)
      (.userMessage "notes" (buildMessage notesReply)) := by
  intro hmodel
  have htext := textBefore_buildMessage (show notesReply ≠ "" by decide)
  have hread : ReadAsShown toml notesReply := by rw [ReadAsShown, hshown, htasks]
  have hunused : ∀ planId, Unused (planSetup draftPlansDir toml)
      ((Conductor.start ∅).push .user "notes") planId := by
    intro planId
    refine ⟨fun p h => ?_, fun h => ?_, fun d hd => ?_⟩
    · have hempty := load_empty (planSetup draftPlansDir toml).host
        (planSetup draftPlansDir toml).plansDir planId
      cases hempty.symm.trans h
    · cases h
    · cases hd
  have hnone : ∀ text, Restates (planSetup draftPlansDir toml)
      ((Conductor.start ∅).push .user "notes") text := by
    intro text g hg planId p hcurrent
    cases hcurrent
  refine ⟨⟨fun i => hunused _, fun i hi hasked round hround hcurrent hcalls htag hsaves => ?_,
    fun _ i hi hasked round text hround htext => hnone text⟩, fun hchat i hlast htag =>
    ⟨hunused _, fun hsaves => ?_⟩⟩
  · rw [htext]
    exact hread
  · rw [htext]
    exact hread

/-- A plan is shown and built. -/
theorem notes_runs_shown :
    RunsShown (planSetup draftPlansDir notesToml) ((planSetup draftPlansDir notesToml).run ∅
      [.userMessage "notes" (buildMessage notesReply)]) := by
  refine runs_shown_of_adopted _ notes_kept ∅ _ fun before op after heq => ?_
  cases before with
  | nil =>
    cases heq
    exact notes_adopted notesToml shownTasks_notes responseTasks_notes
  | cons o rest => simp at heq

def readmeFile : TaskNode := ⟨"t1", "Readme", "Write README.md", [], .fast, 15, []⟩

def readmeReply : String :=
  "A readme as well.\n<plan>\n[[tasks]]\nid = \"t1\"\ntitle = \"Readme\"\ndescription = \"" ++
    "Write README.md\"\ndeps = []\nmodel_tier = \"Fast\"\ntool_budget = 15\nfiles_hint = []\n</plan>"

def bothToml : Toml := sampleToml [notesRecord.toPlanToml] [notesRecord.taskGraph, [readmeFile]]

theorem both_kept : bothToml.TasksKept :=
  tableCodec_kept (by decide) (by decide)

/-- The second reply shows another plan and calls `start_build`: the first plan is run again. -/
theorem second_plan_not_run :
    bothToml.TasksKept ∧ ¬ RunsShown (planSetup draftPlansDir bothToml)
      ((planSetup draftPlansDir bothToml).run ∅
        [.userMessage "notes" (buildMessage notesReply),
          .userMessage "and a readme" (buildMessage readmeReply)]) := by
  refine ⟨both_kept, fun h => ?_⟩
  have hkeeps : bothToml.Keeps notesRecord :=
    sampleToml_keeps [] [[readmeFile]] (by decide) rfl rfl rfl
  obtain ⟨conversation, requests, hfirst⟩ := notes_built hkeeps (by decide +kernel)
  have hmodel : ∃ config, (planSetup draftPlansDir bothToml).conductorModel = .ok config := ⟨_, rfl⟩
  obtain ⟨config, hmodel⟩ := hmodel
  have hinline : ∀ c : Conductor, c.currentPlan = some notesRecord.planId →
      (planSetup draftPlansDir bothToml).draftInline c readmeReply [startBuild] notesDraft = c := by
    intro c hplan
    have hno : Setup.draftsInline c readmeReply [startBuild] ≠ true := by
      rw [Setup.draftsInline, hplan]
      decide +kernel
    rw [Setup.draftInline, if_neg hno]
  have hlist : [Op.userMessage "notes" (buildMessage notesReply),
      .userMessage "and a readme" (buildMessage readmeReply)] =
      [] ++ [.userMessage "notes" (buildMessage notesReply)] ++
        [.userMessage "and a readme" (buildMessage readmeReply)] := rfl
  rw [hlist, Setup.run_snoc, Setup.run_snoc] at h
  have hstart : (planSetup draftPlansDir bothToml).run ∅ [] = .start ∅ := rfl
  rw [hstart, hfirst, buildMessage_runs hmodel (show readmeReply ≠ "" by decide)
    "and a readme" (hinline _ rfl) rfl] at h
  have hkeeps' : (planSetup draftPlansDir bothToml).host.toml.Keeps notesRecord := hkeeps
  have hsave := savePlan_of_keeps hkeeps' (show 6 < notesDraft.fate.writes by decide) (.start ∅)
  have hload : (planSetup draftPlansDir bothToml).host.load
      ((planSetup draftPlansDir bothToml).host.save notesRecord notesDraft.fate ∅).1 draftPlansDir
      notesRecord.planId = .ok { notesRecord with plansDir := draftPlansDir } :=
    Host.load_save hkeeps' (savePlan_ok hsave).2 rfl
  have hruns : lastShown bothToml ([notesReply] ++ [readmeReply]) = some notesRecord.taskGraph :=
    h ⟨notesRecord.planId, [notesReply] ++ [readmeReply]⟩
      (List.mem_append_right _ (List.mem_singleton_self _)) _ hload
  have hshown : shownTasks bothToml readmeReply = some [readmeFile] := by decide +kernel
  rw [lastShown_snoc, hshown, Option.some_or] at hruns
  have hne : some [readmeFile] ≠ some notesRecord.taskGraph := by decide
  exact hne hruns

end Mowis.Planning
