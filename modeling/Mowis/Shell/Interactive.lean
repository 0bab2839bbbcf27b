import Mowis.Shell.RunCommand

/-!
# Whom an input reaches

Several commands may run at a time, in any containers, and there is one sender, one flag and one
prompt for all of them.
-/

namespace Mowis.Shell

open Mowis.Lib

/-- The child runs, or the invocation has not returned. -/
def Command.Active (cmd : Command) : Prop :=
  cmd.alive = true ∨ cmd.phase ≠ .idle ∧ cmd.phase ≠ .ended ∧ cmd.phase ≠ .abandoned

def Command.Asks (cmd : Command) : Prop := cmd.Active ∧ cmd.asking = true

structure Right (s : State) : Prop where
  addressed : ∀ e ∈ s.sent, e.reported = some e.target
  delivered : ∀ i, inputsTo s.sent i = (s.cmd i).stdin ++ (s.cmd i).channel
  fed : ∀ i, (s.cmd i).alive = true → (s.cmd i).stdinOpen = true
  waiting : s.waiting = true ↔ ∃ i, (s.cmd i).Asks

/-- A step of the commands that have been started, their children included. -/
def Action.Inner : Action → Prop
  | .spawn _ | .waitFails _ | .sendInput _ => False
  | _ => True

def Goes (s t : State) : Prop := ∃ a : Action, a.Inner ∧ step s a = some t

def Continues : State → State → Prop := Relation.ReflTransGen Goes

def Settled (s : State) : Prop := ∀ t, Continues s t → Right t

/-- A command starts when no other runs, no input is answered as sent, and no wait fails. -/
def StepOk (s : State) : Action → Prop
  | .spawn _ => ∀ i, ¬ (s.cmd i).Active
  | .sendInput _ => s.receiver = none
  | .waitFails _ => False
  | _ => True

variable {s t : State} {a : Action} {i j : ℕ} {cmd : Command}

theorem Action.Inner.stepOk (h : a.Inner) : StepOk s a := by
  cases a <;> first | exact trivial | exact h.elim

/-! ### One command at a time -/

/-- A command among those that no input was sent to; `held` says that its sender is the one
stored. -/
structure Command.Keeps (cmd : Command) (held : Prop) : Prop where
  attended : cmd.phase ≠ .abandoned
  fed : cmd.alive = true → cmd.stdinOpen = true
  alive : cmd.alive = true → cmd.phase = .spawned ∨ cmd.phase = .registered ∨ cmd.phase = .running
  held_iff : held ↔ cmd.phase = .registered ∨ cmd.phase = .running
  scanned : cmd.phase ≠ .running → cmd.Scanned
  fresh : cmd.asking = true → cmd.phase = .running ∨ cmd.phase = .unregistered ∨ cmd.phase = .ended
  asked : cmd.flagged.isSome = true → cmd.asking = true
  unsent : cmd.channel = [] ∧ cmd.stdin = []

/-- At most one command runs, and no input was sent. -/
structure Sole (s : State) : Prop where
  unsent : s.sent = []
  one : ∀ i j, (s.cmd i).Active → (s.cmd j).Active → i = j
  keeps : ∀ i, (s.cmd i).Keeps (s.stdin = some i)
  waiting : s.waiting = true ↔ ∃ i, (s.cmd i).Asks

theorem Sole.right (h : Sole s) : Right s where
  addressed := by
    rw [h.unsent]
    exact List.forall_mem_nil _
  delivered i := by
    obtain ⟨hchannel, hstdin⟩ := (h.keeps i).unsent
    rw [h.unsent, hchannel, hstdin]
    rfl
  fed i := (h.keeps i).fed
  waiting := h.waiting

theorem sole_start : Sole .start where
  unsent := rfl
  one i j hi := by
    obtain hi | hi := hi
    · cases hi
    · exact (hi.1 rfl).elim
  keeps i := by constructor <;> simp [State.start, Command.Scanned]
  waiting := by simp [State.start, Command.Asks, Command.Active]

theorem exists_asks_put :
    (∃ k, ((s.put i cmd).cmd k).Asks) ↔ cmd.Asks ∨ ∃ k, k ≠ i ∧ (s.cmd k).Asks := by
  constructor
  · rintro ⟨k, hk⟩
    by_cases hki : k = i
    · subst hki
      rw [State.put_cmd_self] at hk
      exact .inl hk
    · rw [State.put_cmd_of_ne hki] at hk
      exact .inr ⟨k, hki, hk⟩
  · rintro (h | ⟨k, hki, hk⟩)
    · exact ⟨i, by rwa [State.put_cmd_self]⟩
    · exact ⟨k, by rwa [State.put_cmd_of_ne hki]⟩

/-- Command `i` takes a step; the other commands find the sender stored or not as before. -/
theorem Sole.put {slot : Option ℕ} {waiting : Bool} {prompt : Text} {prompter : Option ℕ}
    (h : Sole s) (hone : cmd.Active → ∀ k, k ≠ i → ¬ (s.cmd k).Active)
    (hkeeps : cmd.Keeps (slot = some i))
    (hslot : ∀ k, k ≠ i → (slot = some k ↔ s.stdin = some k))
    (hwaiting : waiting = true ↔ cmd.Asks ∨ ∃ k, k ≠ i ∧ (s.cmd k).Asks) :
    Sole { s.put i cmd with stdin := slot, waiting, prompt, prompter } where
  unsent := h.unsent
  one k l hk hl := by
    change ((s.put i cmd).cmd k).Active at hk
    change ((s.put i cmd).cmd l).Active at hl
    by_cases hki : k = i
    · by_cases hli : l = i
      · rw [hki, hli]
      · subst hki
        rw [State.put_cmd_self] at hk
        rw [State.put_cmd_of_ne hli] at hl
        exact (hone hk l hli hl).elim
    · rw [State.put_cmd_of_ne hki] at hk
      by_cases hli : l = i
      · subst hli
        rw [State.put_cmd_self] at hl
        exact (hone hl k hki hk).elim
      · rw [State.put_cmd_of_ne hli] at hl
        exact h.one k l hk hl
  keeps k := by
    show ((s.put i cmd).cmd k).Keeps (slot = some k)
    by_cases hki : k = i
    · subst hki
      rw [State.put_cmd_self]
      exact hkeeps
    · rw [State.put_cmd_of_ne hki, propext (hslot k hki)]
      exact h.keeps k
  waiting := hwaiting.trans exists_asks_put.symm

theorem Sole.asks_iff (h : Sole s) (hactive : cmd.Active ↔ (s.cmd i).Active)
    (hasking : cmd.asking = (s.cmd i).asking) :
    s.waiting = true ↔ cmd.Asks ∨ ∃ k, k ≠ i ∧ (s.cmd k).Asks := by
  have hasks : cmd.Asks ↔ (s.cmd i).Asks := by rw [Command.Asks, hactive, hasking, ← Command.Asks]
  rw [h.waiting, hasks]
  constructor
  · rintro ⟨k, hk⟩
    by_cases hki : k = i
    · exact .inl (hki ▸ hk)
    · exact .inr ⟨k, hki, hk⟩
  · rintro (hi | ⟨k, -, hk⟩)
    · exact ⟨i, hi⟩
    · exact ⟨k, hk⟩

theorem Sole.not_active (h : Sole s) (hi : (s.cmd i).Active) (k : ℕ) (hki : k ≠ i) :
    ¬ (s.cmd k).Active := fun hk => hki (h.one k i hk hi)

theorem Sole.not_asks (h : Sole s) (hi : (s.cmd i).Active) : ¬ ∃ k, k ≠ i ∧ (s.cmd k).Asks := by
  rintro ⟨k, hki, hk, -⟩
  exact h.not_active hi k hki hk

theorem Sole.put_same {prompt : Text} {prompter : Option ℕ} (h : Sole s)
    (hactive : cmd.Active ↔ (s.cmd i).Active) (hasking : cmd.asking = (s.cmd i).asking)
    (hkeeps : cmd.Keeps (s.stdin = some i)) :
    Sole { s.put i cmd with prompt, prompter } :=
  h.put (fun hcmd => h.not_active (hactive.mp hcmd)) hkeeps (fun _ _ => Iff.rfl)
    (h.asks_iff hactive hasking)

theorem active_of_phase (h : cmd.phase = .spawned ∨ cmd.phase = .registered ∨
    cmd.phase = .running ∨ cmd.phase = .unregistered) : cmd.Active := by
  refine .inr ⟨?_, ?_, ?_⟩ <;> intro hphase <;> simp [hphase] at h

namespace Command.Keeps

variable {held : Prop}

theorem running_of_found (h : cmd.Keeps held) (hfound : cmd.found ≠ []) :
    cmd.phase = .running := by
  by_contra hphase
  exact hfound (h.scanned hphase).1

theorem running_of_flagged (h : cmd.Keeps held) (hflagged : cmd.flagged.isSome = true) :
    cmd.phase = .running := by
  by_contra hphase
  rw [(h.scanned hphase).2] at hflagged
  cases hflagged

theorem not_alive (h : cmd.Keeps held) (hphase : cmd.phase = .unregistered ∨ cmd.phase = .ended) :
    cmd.alive = false := by
  cases halive : cmd.alive with
  | false => rfl
  | true => rcases h.alive halive with hlive | hlive | hlive <;> simp [hlive] at hphase

theorem not_asking (h : cmd.Keeps held)
    (hphase : cmd.phase = .idle ∨ cmd.phase = .spawned ∨ cmd.phase = .registered) :
    cmd.asking = false := by
  cases hasking : cmd.asking with
  | false => rfl
  | true => rcases h.fresh hasking with hlate | hlate | hlate <;> simp [hlate] at hphase

end Command.Keeps

theorem Sole.slot_of_ne (h : Sole s) (hi : (s.cmd i).Active) (k : ℕ) (hki : k ≠ i) :
    s.stdin ≠ some k := by
  intro hslot
  refine h.not_active hi k hki (active_of_phase ?_)
  rcases (h.keeps k).held_iff.mp hslot with hphase | hphase <;> simp [hphase]

/-- **One command at a time.**  A step that meets the condition. -/
theorem Sole.next (h : Sole s) (hok : StepOk s a) (hen : Enabled s a) : Sole (next s a) := by
  cases a with
  | spawn i =>
    have hslot : s.stdin ≠ some i := by
      intro hslot
      have hphase := (h.keeps i).held_iff.mp hslot
      rw [show (s.cmd i).phase = .idle from hen] at hphase
      simp at hphase
    refine h.put (fun _ k _ => hok k) ?_ (fun _ _ => Iff.rfl) ?_
    · constructor <;> simp [Command.Scanned, hslot]
    · refine h.waiting.trans ?_
      constructor
      · rintro ⟨k, hk, -⟩
        exact (hok k hk).elim
      · rintro (hi | ⟨k, -, hk⟩)
        · cases hi.2
        · exact ⟨k, hk⟩
  | register i =>
    have hphase : (s.cmd i).phase = .spawned := hen
    have hi : (s.cmd i).Active := active_of_phase (.inl hphase)
    have hactive : { s.cmd i with phase := .registered : Command }.Active ↔ (s.cmd i).Active :=
      iff_of_true (active_of_phase (.inr (.inl rfl))) hi
    refine h.put (fun _ => h.not_active hi) ?_ ?_ (h.asks_iff hactive rfl)
    · exact
        { (h.keeps i) with
          attended := by simp
          alive := by simp
          held_iff := by simp
          scanned := fun _ => (h.keeps i).scanned (by simp [hphase])
          fresh := by simp [(h.keeps i).not_asking (.inr (.inl hphase))] }
    · intro k hki
      exact iff_of_false (fun heq => hki (Option.some.inj heq).symm) (h.slot_of_ne hi k hki)
  | clear i =>
    have hphase : (s.cmd i).phase = .registered := hen
    have hi : (s.cmd i).Active := active_of_phase (.inr (.inl hphase))
    have hasking := (h.keeps i).not_asking (.inr (.inr hphase))
    refine h.put (fun _ => h.not_active hi) ?_ (fun _ _ => Iff.rfl) ?_
    · exact
        { (h.keeps i) with
          attended := by simp
          alive := by simp
          held_iff := iff_of_true ((h.keeps i).held_iff.mpr (.inl hphase)) (.inr rfl)
          scanned := by simp
          fresh := by simp }
    · refine iff_of_false Bool.false_ne_true ?_
      rintro (⟨-, hasks⟩ | hothers)
      · rw [hasking] at hasks
        cases hasks
      · exact h.not_asks hi hothers
  | output i chunk =>
    have hphase : (s.cmd i).phase = .running := hen.1.resolve_right (h.keeps i).attended
    exact h.put_same Iff.rfl rfl
      { (h.keeps i) with scanned := fun hne => (hne hphase).elim }
  | flag i =>
    have hphase : (s.cmd i).phase = .running := (h.keeps i).running_of_found hen.1
    have hi : (s.cmd i).Active := active_of_phase (.inr (.inr (.inl hphase)))
    refine h.put (fun _ => h.not_active hi) ?_ (fun _ _ => Iff.rfl) ?_
    · exact
        { (h.keeps i) with
          scanned := fun hne => (hne hphase).elim
          fresh := fun _ => .inl hphase
          asked := fun _ => rfl }
    · exact iff_of_true rfl (.inl ⟨hi, rfl⟩)
  | report i =>
    have hphase : (s.cmd i).phase = .running := (h.keeps i).running_of_flagged hen
    exact h.put_same Iff.rfl rfl
      { (h.keeps i) with
        scanned := fun hne => (hne hphase).elim
        asked := by simp }
  | write i => exact (hen.2.2.2 (h.keeps i).unsent.1).elim
  | writeFails i => exact (hen.2.2 (h.keeps i).unsent.1).elim
  | disconnect i =>
    obtain ⟨hthreads, -, -, hslot⟩ := hen
    have halive : (s.cmd i).alive = false := by
      refine (h.keeps i).not_alive ?_
      rcases hthreads with hphase | hphase | hphase | hphase
      · exact (hslot ((h.keeps i).held_iff.mpr (.inr hphase))).elim
      · exact .inl hphase
      · exact .inr hphase
      · exact ((h.keeps i).attended hphase).elim
    exact h.put_same Iff.rfl rfl
      { (h.keeps i) with fed := by simp [halive] }
  | exit i =>
    have halive : (s.cmd i).alive = true := hen
    have hactive : { s.cmd i with alive := false : Command }.Active ↔ (s.cmd i).Active := by
      refine iff_of_true (active_of_phase ?_) (.inl halive)
      rcases (h.keeps i).alive halive with hphase | hphase | hphase <;> simp [hphase]
    exact h.put_same hactive rfl
      { (h.keeps i) with
        fed := by simp
        alive := by simp }
  | waitFails i => exact hok.elim
  | unregister i =>
    obtain ⟨hphase, halive, hscanned⟩ := hen
    have hi : (s.cmd i).Active := active_of_phase (.inr (.inr (.inl hphase)))
    have hactive : { s.cmd i with phase := .unregistered : Command }.Active ↔
        (s.cmd i).Active := iff_of_true (active_of_phase (.inr (.inr (.inr rfl)))) hi
    refine h.put (fun _ => h.not_active hi) ?_ ?_ (h.asks_iff hactive rfl)
    · exact
        { (h.keeps i) with
          attended := by simp
          alive := by simp [halive]
          held_iff := by simp
          scanned := fun _ => hscanned
          fresh := by simp }
    · intro k hki
      exact iff_of_false (by simp) (h.slot_of_ne hi k hki)
  | finish i =>
    have hphase : (s.cmd i).phase = .unregistered := hen
    have hi : (s.cmd i).Active := active_of_phase (.inr (.inr (.inr hphase)))
    have halive := (h.keeps i).not_alive (.inl hphase)
    have hslot : ¬ s.stdin = some i := by
      rw [(h.keeps i).held_iff, hphase]
      simp
    refine h.put (fun _ => h.not_active hi) ?_ (fun _ _ => Iff.rfl) ?_
    · exact
        { (h.keeps i) with
          attended := by simp
          alive := by simp [halive]
          held_iff := iff_of_false hslot (by simp)
          scanned := fun _ => (h.keeps i).scanned (by simp [hphase])
          fresh := by simp }
    · refine iff_of_false Bool.false_ne_true ?_
      rintro (⟨hactive | hactive, -⟩ | hothers)
      · rw [halive] at hactive
        cases hactive
      · exact hactive.2.1 rfl
      · exact h.not_asks hi hothers
  | sendInput data =>
    have hnone : s.receiver = none := hok
    rw [Shell.next, hnone]
    exact h

theorem Sole.continues (h : Sole s) (hgoes : Continues s t) : Sole t := by
  induction hgoes with
  | refl => exact h
  | tail _ hgoes ih =>
    obtain ⟨a, hinner, hstep⟩ := hgoes
    obtain ⟨hen, rfl⟩ := step_eq_some.mp hstep
    exact ih.next hinner.stepOk hen

theorem Sole.settled (h : Sole s) : Settled s := fun _ hgoes => (h.continues hgoes).right

/-! ### What goes wrong otherwise -/

theorem Continues.step (h : Continues s t) (hinner : a.Inner) (hen : Enabled t a) :
    Continues s (next t a) := h.tail ⟨a, hinner, step_eq_some.mpr ⟨hen, rfl⟩⟩

theorem Right.waiting_of_asks (h : Right s) (hi : (s.cmd i).Asks) : s.waiting = true :=
  h.waiting.mpr ⟨i, hi⟩

/-- Nothing but command `i` and the flag is different. -/
structure Apart (i : ℕ) (s t : State) : Prop where
  others : ∀ k, k ≠ i → t.cmd k = s.cmd k
  slot : t.stdin = s.stdin

theorem Apart.refl (i : ℕ) (s : State) : Apart i s s := ⟨fun _ _ => rfl, rfl⟩

theorem continues_flag (hfound : (s.cmd i).found ≠ []) (hflagged : (s.cmd i).flagged = none) :
    ∃ t, Continues s t ∧ Apart i s t ∧ t.waiting = true ∧ (t.cmd i).asking = true ∧
      (t.cmd i).phase = (s.cmd i).phase ∧ (t.cmd i).alive = (s.cmd i).alive := by
  have hgoes : Continues s (next s (.flag i)) := .step .refl trivial ⟨hfound, hflagged⟩
  refine ⟨_, hgoes, ⟨fun k hki => State.put_cmd_of_ne hki, rfl⟩, rfl, ?_⟩
  have hcmd : (next s (.flag i)).cmd i = { s.cmd i with
      found := (s.cmd i).found.tail, flagged := (s.cmd i).found.head?, asking := true } :=
    State.put_cmd_self
  rw [hcmd]
  exact ⟨rfl, rfl, rfl⟩

theorem promptsIn_yes : promptsIn (utf8 "(Y/n)".toList) = ["(Y/n)".toList] := by
  unfold promptsIn
  rw [decodeUtf8_eq_some.mpr rfl]
  decide

theorem continues_asks (hphase : (s.cmd i).phase = .running ∨ (s.cmd i).phase = .abandoned)
    (hasked : (s.cmd i).flagged.isSome = true → (s.cmd i).asking = true)
    (hwaiting : (s.cmd i).asking = true → s.waiting = true) :
    ∃ t, Continues s t ∧ Apart i s t ∧ t.waiting = true ∧ (t.cmd i).asking = true ∧
      (t.cmd i).phase = (s.cmd i).phase ∧ (t.cmd i).alive = (s.cmd i).alive := by
  by_cases hasking : (s.cmd i).asking = true
  · exact ⟨s, .refl, .refl i s, hwaiting hasking, hasking, rfl, rfl⟩
  · have hflagged : (s.cmd i).flagged = none := by
      cases hflagged : (s.cmd i).flagged with
      | none => rfl
      | some line => exact (hasking (hasked (by rw [hflagged]; rfl))).elim
    by_cases hfound : (s.cmd i).found = []
    · let output : Action := .output i (utf8 "(Y/n)".toList)
      have hgoes : Continues s (next s output) := .step .refl trivial ⟨hphase, hfound, hflagged⟩
      have hcmd : (next s output).cmd i = { s.cmd i with
          found := promptsIn (utf8 "(Y/n)".toList) } := State.put_cmd_self
      have hothers : ∀ k, k ≠ i → (next s output).cmd k = s.cmd k :=
        fun k hki => State.put_cmd_of_ne hki
      obtain ⟨t, hflag, hapart, hset, hasks, hsame, halive⟩ :=
        continues_flag (s := next s output) (i := i) (by rw [hcmd, promptsIn_yes]; simp)
          (by rw [hcmd]; exact hflagged)
      refine ⟨t, hgoes.trans hflag, ⟨?_, hapart.slot⟩, hset, hasks, ?_, ?_⟩
      · intro k hki
        rw [hapart.others k hki, hothers k hki]
      · rw [hsame, hcmd]
      · rw [halive, hcmd]
    · exact continues_flag hfound hflagged

theorem continues_running (hphase : (s.cmd i).phase = .spawned ∨ (s.cmd i).phase = .registered) :
    ∃ t, Continues s t ∧ t.cmd i = { s.cmd i with phase := .running } ∧ t.waiting = false ∧
      ∀ k, k ≠ i → t.cmd k = s.cmd k := by
  have hclear : ∀ u : State, (u.cmd i).phase = .registered →
      ∃ t, Continues u t ∧ t.cmd i = { u.cmd i with phase := .running } ∧ t.waiting = false ∧
        ∀ k, k ≠ i → t.cmd k = u.cmd k := fun u hu =>
    ⟨next u (.clear i), .step .refl trivial hu, State.put_cmd_self, rfl,
      fun k hki => State.put_cmd_of_ne hki⟩
  rcases hphase with hspawned | hregistered
  · have hgoes : Continues s (next s (.register i)) := .step .refl trivial hspawned
    have hcmd : (next s (.register i)).cmd i = { s.cmd i with phase := .registered } :=
      State.put_cmd_self
    obtain ⟨t, ht, hi, hset, hothers⟩ := hclear (next s (.register i)) (by rw [hcmd])
    refine ⟨t, hgoes.trans ht, ?_, hset, ?_⟩
    · rw [hi, hcmd]
    · intro k hki
      rw [hothers k hki]
      exact State.put_cmd_of_ne hki
  · exact hclear s hregistered

theorem not_settled_of_asks (hij : i ≠ j) (hi : (s.cmd i).Asks) (hj : (s.cmd j).phase = .spawned) :
    ¬ Settled s := by
  intro hsettled
  obtain ⟨t, ht, -, hset, hothers⟩ := continues_running (.inl hj)
  have hasks : (t.cmd i).Asks := by rwa [hothers i hij]
  have hwaiting := (hsettled t ht).waiting_of_asks hasks
  rw [hset] at hwaiting
  cases hwaiting

theorem Settled.continues (h : Settled s) (hgoes : Continues s t) : Settled t :=
  fun u hu => h u (hgoes.trans hu)

theorem not_settled_of_spawn (h : Sole s) (hidle : (s.cmd j).phase = .idle)
    (hi : (s.cmd i).Active) : ¬ Settled (next s (.spawn j)) := by
  have hkeeps := h.keeps i
  have hij : i ≠ j := by
    rintro rfl
    rcases hi with halive | hlate
    · rcases hkeeps.alive halive with hphase | hphase | hphase <;> simp [hphase] at hidle
    · exact hlate.1 hidle
  have hcmdi : (next s (.spawn j)).cmd i = s.cmd i := State.put_cmd_of_ne hij
  have hcmdj : ((next s (.spawn j)).cmd j) =
      { phase := .spawned, alive := true, stdinOpen := true } := State.put_cmd_self
  have hwaiting : (s.cmd i).asking = true → s.waiting = true :=
    fun hasking => h.waiting.mpr ⟨i, hi, hasking⟩
  intro hsettled
  -- from where command `i` runs, it may ask, and then command `j` goes on with its start
  have hrunning : ∀ u, Continues (next s (.spawn j)) u → (u.cmd i).phase = .running →
      ((u.cmd i).flagged.isSome = true → (u.cmd i).asking = true) →
      ((u.cmd i).asking = true → u.waiting = true) → (u.cmd j).phase = .spawned → False := by
    intro u hu hphase hasked hset hspawned
    obtain ⟨t, ht, hapart, -, hasking, hsame, -⟩ := continues_asks (.inl hphase) hasked hset
    refine not_settled_of_asks hij (s := t) ⟨active_of_phase ?_, hasking⟩ ?_
      ((hsettled.continues hu).continues ht)
    · exact .inr (.inr (.inl (hsame.trans hphase)))
    · rw [hapart.others j hij.symm, hspawned]
  have hphases : (s.cmd i).phase = .spawned ∨ (s.cmd i).phase = .registered ∨
      (s.cmd i).phase = .running ∨ (s.cmd i).phase = .unregistered := by
    rcases hi with halive | ⟨hidle, hended, habandoned⟩
    · rcases hkeeps.alive halive with hphase | hphase | hphase <;> simp [hphase]
    · cases hphase : (s.cmd i).phase <;> simp_all
  by_cases hasking : (s.cmd i).asking = true
  · exact not_settled_of_asks hij (by rw [hcmdi]; exact ⟨hi, hasking⟩) (by rw [hcmdj]) hsettled
  have hstarts : (s.cmd i).phase = .spawned ∨ (s.cmd i).phase = .registered → False := by
    intro hphase
    obtain ⟨t, ht, hcmd, -, hothers⟩ := continues_running (s := next s (.spawn j)) (i := i)
      (by rwa [hcmdi])
    rw [hcmdi] at hcmd
    refine hrunning t ht (by rw [hcmd]) ?_ ?_ (by rw [hothers j hij.symm, hcmdj])
    · rw [hcmd]
      exact hkeeps.asked
    · rw [hcmd]
      exact fun hasks => (hasking hasks).elim
  rcases hphases with hphase | hphase | hphase | hphase
  · exact hstarts (.inl hphase)
  · exact hstarts (.inr hphase)
  · refine hrunning _ .refl (by rw [hcmdi, hphase]) ?_ ?_ (by rw [hcmdj])
    · rw [hcmdi]
      exact hkeeps.asked
    · rw [hcmdi]
      exact hwaiting
  -- command `i` has left the sender and has still to clear the flag: command `j` asks before
  · obtain ⟨t, ht, hcmd, -, hothers⟩ := continues_running (s := next s (.spawn j)) (i := j)
      (by rw [hcmdj]; exact .inl rfl)
    rw [hcmdj] at hcmd
    obtain ⟨u, hu, hapart, -, hasks, hsame, -⟩ := continues_asks (s := t) (i := j)
      (by rw [hcmd]; exact .inl rfl) (by rw [hcmd]; simp) (by rw [hcmd]; simp)
    have hfinish : Enabled u (.finish i) := by
      show (u.cmd i).phase = .unregistered
      rw [hapart.others i hij, hothers i hij, hcmdi, hphase]
    have hgoes := Continues.step (a := .finish i) (ht.trans hu) trivial hfinish
    have hcmdu : (next u (.finish i)).cmd j = u.cmd j := State.put_cmd_of_ne hij.symm
    have hwaits := (hsettled _ hgoes).waiting_of_asks (i := j) (by
      rw [hcmdu]
      exact ⟨active_of_phase (by rw [hsame, hcmd]; simp), hasks⟩)
    cases hwaits

theorem not_settled_of_sendInput {data : Option String} (h : Sole s) (hsent : s.receiver ≠ none) :
    ¬ Settled (next s (.sendInput data)) := by
  obtain ⟨i, hreceiver⟩ := Option.ne_none_iff_exists'.mp hsent
  obtain ⟨hslot, -⟩ := Option.filter_eq_some_iff.mp hreceiver
  have hi : (s.cmd i).Active := by
    refine active_of_phase ?_
    rcases (h.keeps i).held_iff.mp hslot with hphase | hphase <;> simp [hphase]
  intro hsettled
  have hright := hsettled _ .refl
  rw [Shell.next, hreceiver] at hright
  dsimp only at hright
  have hreported : s.reported = some i :=
    hright.addressed ⟨i, s.reported, State.bytesOf data⟩
      (List.mem_append_right _ List.mem_cons_self)
  have hwaiting : s.waiting = true := by
    unfold State.reported at hreported
    split at hreported
    · assumption
    · cases hreported
  obtain ⟨k, hk⟩ := exists_asks_put.mp (hright.waiting.mp hwaiting)
  · cases hk
  · exact h.not_asks hi ‹_›

theorem not_settled_of_waitFails (h : Sole s) (hphase : (s.cmd i).phase = .running) :
    ¬ Settled (next s (.waitFails i)) := by
  have hi : (s.cmd i).Active := active_of_phase (.inr (.inr (.inl hphase)))
  have hcmd : (next s (.waitFails i)).cmd i = { s.cmd i with phase := .abandoned } :=
    State.put_cmd_self
  have hothers : ∀ k, k ≠ i → (next s (.waitFails i)).cmd k = s.cmd k :=
    fun k hki => State.put_cmd_of_ne hki
  intro hsettled
  obtain ⟨t, ht, hapart, hset, -, hsame, -⟩ := continues_asks (s := next s (.waitFails i)) (i := i)
    (by rw [hcmd]; exact .inr rfl) (by rw [hcmd]; exact (h.keeps i).asked)
    (by rw [hcmd]; exact fun hasking => h.waiting.mpr ⟨i, hi, hasking⟩)
  rw [hcmd] at hsame
  -- once the child has exited nothing runs, and the flag stays set
  have hgone : ∀ u : State, Right u → u.waiting = true → (u.cmd i).alive = false →
      (u.cmd i).phase = .abandoned → (∀ k, k ≠ i → u.cmd k = t.cmd k) → False := by
    intro u hright hwaiting hdead habandoned hrest
    obtain ⟨k, hactive, hasking⟩ := hright.waiting.mp hwaiting
    by_cases hki : k = i
    · subst hki
      rcases hactive with halive | hlate
      · rw [hdead] at halive
        cases halive
      · exact hlate.2.2 habandoned
    · rw [hrest k hki, hapart.others k hki, hothers k hki] at hactive
      exact h.not_active hi k hki hactive
  cases halive : (t.cmd i).alive with
  | false => exact hgone t (hsettled t ht) hset halive hsame fun _ _ => rfl
  | true =>
    have hexit : (next t (.exit i)).cmd i = { t.cmd i with alive := false } := State.put_cmd_self
    have hgoes := ht.step (a := .exit i) trivial halive
    refine hgone _ (hsettled _ hgoes) hset ?_ ?_ fun k hki => State.put_cmd_of_ne hki
    · rw [hexit]
    · rw [hexit, hsame]

/-- **Interactive input.**  In a run all is right, and stays so however the commands go on, if and
only if every command starts when no other runs, no wait fails, and no input is sent. -/
theorem interactive_iff {past : List (State × Action)} (h : Execution step .start past s) :
    ((∀ e ∈ past, Settled e.1) ∧ Settled s) ↔ ∀ e ∈ past, StepOk e.1 e.2 := by
  refine h.sound_iff sole_start ?_ (fun _ => Sole.settled) ?_
  · intro c a c' hc hok hstep
    obtain ⟨hen, rfl⟩ := step_eq_some.mp hstep
    exact hc.next hok hen
  · intro c a c' hc hok hstep
    obtain ⟨hen, rfl⟩ := step_eq_some.mp hstep
    cases a with
    | spawn j =>
      obtain ⟨i, hi⟩ := not_forall_not.mp hok
      exact not_settled_of_spawn hc hen hi
    | sendInput data => exact not_settled_of_sendInput hc hok
    | waitFails i => exact not_settled_of_waitFails hc hen
    | _ => exact (hok trivial).elim

theorem run_next {past : List (State × Action)} (h : Execution step .start past s) (a : Action)
    (hen : Enabled s a) : Execution step .start ((s, a) :: past) (next s a) :=
  h.next (step_eq_some.mpr ⟨hen, rfl⟩)

/-- A command asks, and exits without an answer. -/
theorem settled_of_exit : ∃ past s, Execution step .start past s ∧ past.length = 9 ∧ Settled s := by
  have houtput : Execution step .start _ _ := .ofRun .start
    (show Execution.runActions step [.spawn 0, .register 0, .clear 0,
      .output 0 (utf8 "(Y/n)".toList)] [] .start = some (_, _) from rfl)
  have hflag := run_next houtput (.flag 0) ⟨by
    show promptsIn _ ≠ []
    rw [promptsIn_yes]
    decide, rfl⟩
  have hexit := run_next (run_next hflag (.report 0) (by
    show (promptsIn _).head?.isSome = true
    rw [promptsIn_yes]
    rfl)) (.exit 0) rfl
  have hfinish := run_next (run_next hexit (.unregister 0) ⟨rfl, rfl, by
    show (promptsIn _).tail = []
    rw [promptsIn_yes]
    rfl, rfl⟩) (.finish 0) rfl
  refine ⟨_, _, hfinish, rfl, ((interactive_iff hfinish).mpr ?_).2⟩
  have hstart : ∀ i, ¬ (State.start.cmd i).Active := by
    rintro i (halive | hlate)
    · cases halive
    · exact hlate.1 rfl
  simpa [StepOk] using hstart

/-- A second command runs, and the answer to the first one's prompt goes to it. -/
theorem not_interactive : ¬ ∀ past s, Execution step .start past s → Right s := by
  intro hall
  have houtput : Execution step .start _ _ := .ofRun .start
    (show Execution.runActions step [.spawn 0, .register 0, .clear 0, .spawn 1, .register 1,
      .clear 1, .output 0 (utf8 "(Y/n)".toList)] [] .start = some (_, _) from rfl)
  have hflag := run_next houtput (.flag 0) ⟨by
    show promptsIn _ ≠ []
    rw [promptsIn_yes]
    decide, rfl⟩
  have hreport := run_next hflag (.report 0) (by
    show (promptsIn _).head?.isSome = true
    rw [promptsIn_yes]
    rfl)
  have hsend := run_next hreport (.sendInput (some "y")) trivial
  have haddressed := (hall _ _ hsend).addressed ⟨1, some 0, utf8 "y".toList⟩ List.mem_cons_self
  cases haddressed

end Mowis.Shell
