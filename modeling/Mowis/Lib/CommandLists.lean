import Mathlib

/-!
# Lists of commands

Scripts of a shell as far as their lists go: commands that are joined by `&&` and `||`, one list
after another, some of them in the background.  What a command does is a parameter, and so is what
the shell sees of a job in the background.
-/

namespace Mowis.Lib.CommandLists

inductive Connector where
  | and
  | or
  deriving DecidableEq, Repr

structure AndOr (P : Type*) where
  first : P
  rest : List (Connector × P)
  deriving DecidableEq, Repr

structure Item (P : Type*) where
  list : AndOr P
  background : Bool
  deriving DecidableEq, Repr

/-- The lists that are read, and whether something follows that cannot be. -/
structure Script (P : Type*) where
  items : List (Item P)
  bad : Bool
  deriving DecidableEq, Repr

variable {P σ : Type*}

def AndOr.cons (c : P) (l : AndOr P) : AndOr P := ⟨c, (.and, l.first) :: l.rest⟩

/-- A command in front of the first list.  Without a list nothing stands behind the `&&`. -/
def Script.cons (c : P) : Script P → Script P
  | ⟨[], _⟩ => ⟨[], true⟩
  | ⟨item :: items, bad⟩ => ⟨⟨item.list.cons c, item.background⟩ :: items, bad⟩

/-- How a command ends; it may end the shell. -/
structure Answer (σ : Type*) where
  state : σ
  status : ℕ
  ended : Bool

/-- The shell, with the commands that were started and the states they were started in. -/
structure Run (P σ : Type*) where
  state : σ
  status : ℕ
  ended : Bool
  started : List (P × σ)

def Run.init (s : σ) : Run P σ := ⟨s, 0, false, []⟩

def Run.after (pre : List (P × σ)) (r : Run P σ) : Run P σ := { r with started := pre ++ r.started }

/-- What a shell does; it is told of a command whether it is the last of its list. -/
structure Machine (P σ : Type*) where
  exec : Bool → P → σ → Answer σ
  /-- The state of the shell next to a job, from that of the job. -/
  beside : σ → σ → σ
  syntaxError : ℕ

section Runs

variable (m : Machine P σ)

def Run.start (r : Run P σ) (last : Bool) (p : P) : Run P σ :=
  let a := m.exec last p r.state
  ⟨a.state, a.status, a.ended, r.started ++ [(p, r.state)]⟩

def Connector.goesOn : Connector → ℕ → Bool
  | .and, status => status == 0
  | .or, status => status != 0

def runRest : Run P σ → List (Connector × P) → Run P σ
  | r, [] => r
  | r, (c, p) :: rest =>
    if r.ended then r
    else if c.goesOn r.status then runRest (r.start m rest.isEmpty p) rest
    else runRest r rest

def runAndOr (s : σ) (l : AndOr P) : Run P σ :=
  runRest m ((Run.init s).start m l.rest.isEmpty l.first) l.rest

def Run.item (r : Run P σ) (item : Item P) : Run P σ :=
  let job := runAndOr m r.state item.list
  if item.background then ⟨m.beside r.state job.state, 0, false, r.started ++ job.started⟩
  else ⟨job.state, job.status, job.ended, r.started ++ job.started⟩

def runItems : Run P σ → List (Item P) → Run P σ
  | r, [] => r
  | r, item :: items => if r.ended then r else runItems (r.item m item) items

def runScript (s : σ) (script : Script P) : Run P σ :=
  let r := runItems m (.init s) script.items
  if script.bad && !r.ended then { r with status := m.syntaxError, ended := true } else r

end Runs

section Started

variable {m : Machine P σ} {r : Run P σ} {c : P} {s s' : σ}

theorem runRest_after (pre : List (P × σ)) (r : Run P σ) (rest : List (Connector × P)) :
    runRest m (r.after pre) rest = (runRest m r rest).after pre := by
  induction rest generalizing r with
  | nil => rfl
  | cons e rest ih =>
    obtain ⟨c, p⟩ := e
    have hstart : (r.after pre).start m rest.isEmpty p = (r.start m rest.isEmpty p).after pre := by
      rw [Run.start, Run.start, Run.after, Run.after]
      simp only [List.append_assoc]
    have hended : (r.after pre).ended = r.ended := rfl
    have hstatus : (r.after pre).status = r.status := rfl
    rw [runRest, runRest, hstart, hended, hstatus, ih, ih]
    split_ifs <;> rfl

theorem started_item (r : Run P σ) (item : Item P) :
    (r.item m item).started = r.started ++ (runAndOr m r.state item.list).started := by
  rw [Run.item]
  split_ifs <;> rfl

theorem ended_item {item : Item P} (h : (runAndOr m r.state item.list).ended = false) :
    (r.item m item).ended = false := by
  rw [Run.item]
  split_ifs
  · rfl
  · exact h

theorem runItems_cons (hended : r.ended = false) (item : Item P) (items : List (Item P)) :
    runItems m r (item :: items) = runItems m (r.item m item) items := by
  rw [runItems, if_neg (by rw [hended]; exact Bool.false_ne_true)]

theorem runItems_after (pre : List (P × σ)) (r : Run P σ) (items : List (Item P)) :
    runItems m (r.after pre) items = (runItems m r items).after pre := by
  induction items generalizing r with
  | nil => rfl
  | cons item items ih =>
    have hitem : (r.after pre).item m item = (r.item m item).after pre := by
      have hstate : (r.after pre).state = r.state := rfl
      rw [Run.item, Run.item, hstate]
      simp only [Run.after, List.append_assoc]
      split_ifs <;> rfl
    have hended : (r.after pre).ended = r.ended := rfl
    rw [runItems, runItems, hitem, hended, ih]
    split_ifs <;> rfl

theorem started_prefix_runRest (r : Run P σ) (rest : List (Connector × P)) :
    r.started <+: (runRest m r rest).started := by
  induction rest generalizing r with
  | nil => exact List.prefix_refl _
  | cons e rest ih =>
    obtain ⟨c, p⟩ := e
    rw [runRest]
    split_ifs
    · exact List.prefix_refl _
    · refine List.IsPrefix.trans ?_ (ih _)
      exact List.prefix_append _ _
    · exact ih r

theorem started_runAndOr (s : σ) (l : AndOr P) : [(l.first, s)] <+: (runAndOr m s l).started :=
  started_prefix_runRest ((Run.init s).start m l.rest.isEmpty l.first) l.rest

theorem started_prefix_runItems (r : Run P σ) (items : List (Item P)) :
    r.started <+: (runItems m r items).started := by
  induction items generalizing r with
  | nil => exact List.prefix_refl _
  | cons item items ih =>
    rw [runItems]
    split_ifs
    · exact List.prefix_refl _
    · have hitem : r.started <+: (r.item m item).started := by
        rw [started_item]
        exact List.prefix_append _ _
      exact hitem.trans (ih _)

theorem started_runItems_cons (hended : r.ended = false) (item : Item P) (items : List (Item P)) :
    r.started ++ [(item.list.first, r.state)] <+: (runItems m r (item :: items)).started := by
  rw [runItems_cons hended]
  refine List.IsPrefix.trans ?_ (started_prefix_runItems _ items)
  rw [started_item]
  exact (List.prefix_append_right_inj _).mpr (started_runAndOr _ _)

theorem started_runScript (s : σ) (script : Script P) :
    (runScript m s script).started = (runItems m (.init s) script.items).started := by
  rw [runScript]
  split_ifs <;> rfl

theorem state_runScript (s : σ) (script : Script P) :
    (runScript m s script).state = (runItems m (.init s) script.items).state := by
  rw [runScript]
  split_ifs <;> rfl

end Started

/-! ### A command in front -/

section Cons

variable {m : Machine P σ} {c : P} {s s' : σ}

theorem start_init {a : Answer σ} {last : Bool} (hc : m.exec last c s = a) :
    (Run.init s).start m last c = (⟨a.state, a.status, a.ended, [(c, s)]⟩ : Run P σ) := by
  subst hc
  rfl

theorem runAndOr_cons (s : σ) (l : AndOr P) :
    runAndOr m s (l.cons c) =
      runRest m ((Run.init s).start m false c) ((.and, l.first) :: l.rest) := rfl

theorem runAndOr_cons_ok (hc : m.exec false c s = ⟨s', 0, false⟩) (l : AndOr P) :
    runAndOr m s (l.cons c) = (runAndOr m s' l).after [(c, s)] := by
  have hgo : Connector.and.goesOn 0 = true := rfl
  rw [runAndOr_cons, start_init hc, runRest]
  dsimp only
  rw [if_neg Bool.false_ne_true, if_pos hgo, runAndOr, ← runRest_after]
  rfl

theorem runRest_skipped {r : Run P σ} (hended : r.ended = false) (hstatus : r.status ≠ 0)
    {rest : List (Connector × P)} (hrest : ∀ e ∈ rest, e.1 = .and) : runRest m r rest = r := by
  induction rest with
  | nil => rfl
  | cons e rest ih =>
    obtain ⟨c, p⟩ := e
    obtain ⟨hc, hnext⟩ := List.forall_mem_cons.mp hrest
    have hskip : c.goesOn r.status = false := by
      rw [show c = .and from hc]
      exact beq_eq_false_iff_ne.mpr hstatus
    rw [runRest, if_neg (by rw [hended]; exact Bool.false_ne_true), hskip,
      if_neg Bool.false_ne_true, ih hnext]

theorem runRest_failed {r : Run P σ} (hended : r.ended = false) (hstatus : r.status ≠ 0)
    (rest : List (Connector × P)) :
    (runRest m r rest).started = r.started ↔ ∀ e ∈ rest, e.1 = .and := by
  refine ⟨fun heq => ?_, fun hrest => by rw [runRest_skipped hended hstatus hrest]⟩
  induction rest with
  | nil => exact List.forall_mem_nil _
  | cons e rest ih =>
    obtain ⟨c, p⟩ := e
    rw [runRest, if_neg (by rw [hended]; exact Bool.false_ne_true)] at heq
    cases c with
    | and =>
      have hskip : Connector.and.goesOn r.status = false := beq_eq_false_iff_ne.mpr hstatus
      rw [hskip, if_neg Bool.false_ne_true] at heq
      exact List.forall_mem_cons.mpr ⟨rfl, ih heq⟩
    | or =>
      have hgo : Connector.or.goesOn r.status = true := bne_iff_ne.mpr hstatus
      rw [hgo, if_pos rfl] at heq
      have hlength := (started_prefix_runRest (m := m) (r.start m rest.isEmpty p) rest).length_le
      have hmore : (r.start m rest.isEmpty p).started.length = r.started.length + 1 :=
        List.length_append
      rw [heq] at hlength
      omega

theorem runAndOr_cons_failed {n : ℕ} (hc : m.exec false c s = ⟨s, n, false⟩) (l : AndOr P) :
    runAndOr m s (l.cons c) = runRest m ⟨s, n, false, [(c, s)]⟩ ((.and, l.first) :: l.rest) := by
  rw [runAndOr_cons, start_init hc]

theorem runItems_cons_ok (hc : m.exec false c s = ⟨s', 0, false⟩) {item : Item P}
    {items : List (Item P)} (hitem : item.background = true → items = []) :
    (runItems m (.init s) (⟨item.list.cons c, item.background⟩ :: items)).ended =
        (runItems m (.init s') (item :: items)).ended ∧
      (runItems m (.init s) (⟨item.list.cons c, item.background⟩ :: items)).status =
        (runItems m (.init s') (item :: items)).status ∧
      (runItems m (.init s) (⟨item.list.cons c, item.background⟩ :: items)).started =
        (c, s) :: (runItems m (.init s') (item :: items)).started := by
  have hjob : runAndOr m (Run.init s : Run P σ).state (item.list.cons c) =
      (runAndOr m s' item.list).after [(c, s)] := runAndOr_cons_ok hc item.list
  rw [runItems_cons rfl, runItems_cons rfl]
  cases hbackground : item.background with
  | false =>
    have hfirst : (Run.init s).item m ⟨item.list.cons c, false⟩ =
        ((Run.init s').item m item).after [(c, s)] := by
      rw [Run.item, Run.item, hbackground]
      dsimp only
      rw [hjob]
      rfl
    rw [hfirst, runItems_after]
    exact ⟨rfl, rfl, rfl⟩
  | true =>
    rw [hitem hbackground]
    refine ⟨?_, ?_, ?_⟩
    · show ((Run.init s).item m _).ended = ((Run.init s').item m item).ended
      rw [Run.item, Run.item, hbackground]
      rfl
    · show ((Run.init s).item m _).status = ((Run.init s').item m item).status
      rw [Run.item, Run.item, hbackground]
      rfl
    · show ((Run.init s).item m _).started = _ :: ((Run.init s').item m item).started
      rw [started_item, started_item, hjob]
      rfl

theorem runScript_cons_ok (hc : m.exec false c s = ⟨s', 0, false⟩) {item : Item P}
    {items : List (Item P)} {bad : Bool} (hitem : item.background = true → items = []) :
    (runScript m s (Script.cons c ⟨item :: items, bad⟩)).status =
        (runScript m s' ⟨item :: items, bad⟩).status ∧
      (runScript m s (Script.cons c ⟨item :: items, bad⟩)).started =
        (c, s) :: (runScript m s' ⟨item :: items, bad⟩).started := by
  obtain ⟨hended, hstatus, hstarted⟩ := runItems_cons_ok hc hitem
  rw [started_runScript, started_runScript]
  refine ⟨?_, hstarted⟩
  rw [Script.cons, runScript, runScript]
  dsimp only
  rw [hended]
  split_ifs
  · rfl
  · exact hstatus

theorem beside_of_started (hc : m.exec false c s = ⟨s', 0, false⟩) {item next : Item P}
    {items : List (Item P)} {bad : Bool} (hbackground : item.background = true)
    (heq : (runScript m s (Script.cons c ⟨item :: next :: items, bad⟩)).started =
      (c, s) :: (runScript m s' ⟨item :: next :: items, bad⟩).started) :
    ∃ t, m.beside s t = m.beside s' t := by
  set job := runAndOr m s' item.list with hjob
  have hline : (Run.init s).item m ⟨item.list.cons c, item.background⟩ =
      ⟨m.beside s job.state, 0, false, (c, s) :: job.started⟩ := by
    have hcons : runAndOr m (Run.init s : Run P σ).state (item.list.cons c) =
        job.after [(c, s)] := runAndOr_cons_ok hc item.list
    rw [Run.item, hbackground]
    dsimp only
    rw [hcons]
    rfl
  have halone : (Run.init s').item m item = ⟨m.beside s' job.state, 0, false, job.started⟩ := by
    rw [Run.item, hbackground]
    rfl
  have hnext := started_runItems_cons (m := m)
    (r := ⟨m.beside s job.state, 0, false, (c, s) :: job.started⟩) rfl next items
  have hnext' := started_runItems_cons (m := m)
    (r := ⟨m.beside s' job.state, 0, false, job.started⟩) rfl next items
  rw [started_runScript, started_runScript, Script.cons] at heq
  dsimp only at heq
  rw [runItems_cons (r := Run.init s) rfl, runItems_cons (r := Run.init s') rfl, hline,
    halone] at heq
  rw [heq] at hnext
  -- both are the commands up to the first of the next list
  have hsame := (List.prefix_of_prefix_length_le hnext
    ((List.prefix_cons_inj (c, s)).mpr hnext') (by simp)).eq_of_length (by simp)
  have hlast := (List.append_inj' (List.cons.inj hsame).2 rfl).2
  exact ⟨job.state, (Prod.mk.inj (List.singleton_inj.mp hlast)).2⟩

theorem started_runScript_cons (item : Item P) (items : List (Item P)) (bad : Bool) :
    [(c, s)] <+: (runScript m s (Script.cons c ⟨item :: items, bad⟩)).started := by
  rw [started_runScript]
  exact started_runItems_cons (r := Run.init s) rfl ⟨item.list.cons c, item.background⟩ items

/-- Nothing but the command is started where it fails, unless there is an `||` in the list, or
another list. -/
theorem runScript_cons_failed {n : ℕ} (hc : m.exec false c s = ⟨s, n, false⟩) (hn : n ≠ 0)
    (item : Item P) (items : List (Item P)) (bad : Bool) :
    (runScript m s (Script.cons c ⟨item :: items, bad⟩)).started = [(c, s)] ↔
      items = [] ∧ ∀ e ∈ item.list.rest, e.1 = .and := by
  have hjob := runAndOr_cons_failed hc item.list
  have hrest : (∀ e ∈ (Connector.and, item.list.first) :: item.list.rest, e.1 = .and) ↔
      ∀ e ∈ item.list.rest, e.1 = .and := by
    rw [List.forall_mem_cons]
    exact and_iff_right rfl
  have hstarted := runRest_failed (m := m) (r := ⟨s, n, false, [(c, s)]⟩) rfl hn
    ((.and, item.list.first) :: item.list.rest)
  rw [hrest, ← hjob] at hstarted
  have hfirst : ((Run.init s).item m ⟨item.list.cons c, item.background⟩).started =
      (runAndOr m s (item.list.cons c)).started := by
    rw [started_item]
    rfl
  rw [started_runScript, Script.cons]
  dsimp only
  rw [runItems_cons rfl]
  constructor
  · intro heq
    have hjobstarted : (runAndOr m s (item.list.cons c)).started = [(c, s)] := by
      have hpart := started_prefix_runItems (m := m)
        ((Run.init s).item m ⟨item.list.cons c, item.background⟩) items
      rw [heq, hfirst] at hpart
      exact hpart.eq_of_length_le (started_runAndOr s (item.list.cons c)).length_le
    have hall := hstarted.mp hjobstarted
    refine ⟨?_, hall⟩
    -- the shell goes on, so that another list would be started
    by_contra hitems
    obtain ⟨next, items, rfl⟩ := List.exists_cons_of_ne_nil hitems
    have hgoes : ((Run.init s).item m ⟨item.list.cons c, item.background⟩).ended = false := by
      refine ended_item ?_
      show (runAndOr m s (item.list.cons c)).ended = false
      rw [hjob, runRest_skipped rfl hn (hrest.mpr hall)]
    have hlength := (started_runItems_cons (m := m) hgoes next items).length_le
    rw [heq, List.length_append, hfirst, hjobstarted] at hlength
    exact absurd hlength (by simp)
  · rintro ⟨rfl, hall⟩
    exact hfirst.trans (hstarted.mpr hall)

theorem state_runScript_cons_failed {n : ℕ} (hc : m.exec false c s = ⟨s, n, false⟩) (hn : n ≠ 0)
    {item : Item P} (hall : ∀ e ∈ item.list.rest, e.1 = .and) (bad : Bool) :
    (runScript m s (Script.cons c ⟨[item], bad⟩)).state = s ∨
      (runScript m s (Script.cons c ⟨[item], bad⟩)).state = m.beside s s := by
  have hjob : runAndOr m (Run.init s : Run P σ).state (item.list.cons c) =
      ⟨s, n, false, [(c, s)]⟩ := by
    rw [show (Run.init s : Run P σ).state = s from rfl, runAndOr_cons_failed hc,
      runRest_skipped rfl hn (List.forall_mem_cons.mpr ⟨rfl, hall⟩)]
  have hitem : runItems m (.init s) (Script.cons c ⟨[item], bad⟩).items =
      (Run.init s).item m ⟨item.list.cons c, item.background⟩ := runItems_cons rfl _ _
  rw [state_runScript, hitem, Run.item]
  dsimp only
  rw [hjob]
  split_ifs
  · exact .inr rfl
  · exact .inl rfl

end Cons

end Mowis.Lib.CommandLists
