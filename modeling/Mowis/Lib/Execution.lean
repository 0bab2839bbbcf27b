import Mathlib

/-!
# Executions of a labelled step function

A partial step function `step : σ → A → Option σ` says what an action does and
when it is possible.  An execution keeps, newest first, the states it passed
through together with the action taken in each.
-/

namespace Mowis.Lib

variable {σ A : Type*}

/-- `c` is reached from `init` through the states and actions of the list. -/
inductive Execution (step : σ → A → Option σ) (init : σ) : List (σ × A) → σ → Prop
  | start : Execution step init [] init
  | next {past : List (σ × A)} {c c' : σ} {a : A} :
      Execution step init past c → step c a = some c' → Execution step init ((c, a) :: past) c'

namespace Execution

variable {step : σ → A → Option σ} {init c : σ} {past : List (σ × A)} {I : σ → Prop}

theorem invariant (h : Execution step init past c) (hinit : I init)
    (hstep : ∀ c a c', I c → step c a = some c' → I c') : I c := by
  induction h with
  | start => exact hinit
  | next _ hs ih => exact hstep _ _ _ ih hs

theorem invariant_past (h : Execution step init past c) (hinit : I init)
    (hstep : ∀ c a c', I c → step c a = some c' → I c') : ∀ e ∈ past, I e.1 := by
  induction h with
  | start => simp
  | next hrest hs ih =>
    intro e he
    rcases List.mem_cons.mp he with rfl | he
    · exact hrest.invariant hinit hstep
    · exact ih e he

theorem init_of (h : Execution step init past c) (hpast : ∀ e ∈ past, I e.1) (hlast : I c) :
    I init := by
  induction h with
  | start => exact hlast
  | next _ _ ih =>
    exact ih (fun e he => hpast e (List.mem_cons_of_mem _ he)) (hpast _ List.mem_cons_self)

theorem invariant_of {ok : σ → A → Prop} (h : Execution step init past c) (hinit : I init)
    (hstep : ∀ c a c', I c → ok c a → step c a = some c' → I c') (hok : ∀ e ∈ past, ok e.1 e.2) :
    I c := by
  induction h with
  | start => exact hinit
  | next _ hs ih =>
    exact hstep _ _ _ (ih fun e he => hok e (List.mem_cons_of_mem _ he))
      (hok _ List.mem_cons_self) hs

theorem good_iff {Good : σ → Prop} {ok : σ → A → Prop} (h : Execution step init past c)
    (hinit : I init) (hstep : ∀ c a c', I c → step c a = some c' → I c') (hgood : Good init)
    (hiff : ∀ c a c', I c → Good c → step c a = some c' → (Good c' ↔ ok c a)) :
    ((∀ e ∈ past, Good e.1) ∧ Good c) ↔ ∀ e ∈ past, ok e.1 e.2 := by
  induction h with
  | start => exact ⟨fun _ _ he => (nomatch he), fun _ => ⟨fun _ he => (nomatch he), hgood⟩⟩
  | next hrest hs ih =>
    have hinv := hrest.invariant hinit hstep
    constructor
    · rintro ⟨hall, hlast⟩
      obtain ⟨hhead, htail⟩ := List.forall_mem_cons.mp hall
      exact List.forall_mem_cons.mpr ⟨(hiff _ _ _ hinv hhead hs).mp hlast,
        ih.mp ⟨htail, hhead⟩⟩
    · intro hok
      obtain ⟨hhead, htail⟩ := List.forall_mem_cons.mp hok
      obtain ⟨hall, hlast⟩ := ih.mpr htail
      exact ⟨List.forall_mem_cons.mpr ⟨hlast, hall⟩, (hiff _ _ _ hinv hlast hs).mpr hhead⟩

/-- As `good_iff`, where the invariant holds only as long as every step meets the condition. -/
theorem sound_iff {Good : σ → Prop} {ok : σ → A → Prop} (h : Execution step init past c)
    (hinit : I init) (hstep : ∀ c a c', I c → ok c a → step c a = some c' → I c')
    (hgood : ∀ c, I c → Good c)
    (hbad : ∀ c a c', I c → ¬ ok c a → step c a = some c' → ¬ Good c') :
    ((∀ e ∈ past, Good e.1) ∧ Good c) ↔ ∀ e ∈ past, ok e.1 e.2 := by
  induction h with
  | start => exact ⟨fun _ => List.forall_mem_nil _, fun _ => ⟨List.forall_mem_nil _, hgood _ hinit⟩⟩
  | next hrest hs ih =>
    constructor
    · rintro ⟨hall, hlast⟩
      obtain ⟨hhead, htail⟩ := List.forall_mem_cons.mp hall
      have hbefore := ih.mp ⟨htail, hhead⟩
      refine List.forall_mem_cons.mpr ⟨?_, hbefore⟩
      by_contra hnot
      exact hbad _ _ _ (hrest.invariant_of hinit hstep hbefore) hnot hs hlast
    · intro hok
      obtain ⟨hhead, htail⟩ := List.forall_mem_cons.mp hok
      obtain ⟨hall, hlast⟩ := ih.mpr htail
      exact ⟨List.forall_mem_cons.mpr ⟨hlast, hall⟩,
        hgood _ (hstep _ _ _ (hrest.invariant_of hinit hstep htail) hhead hs)⟩

theorem leads {M : σ → A → Prop} {Q : σ → Prop} (h : Execution step init past c)
    (hinit : I init) (hstep : ∀ c a c', I c → step c a = some c' → I c')
    (hmake : ∀ c a c', I c → M c a → step c a = some c' → Q c')
    (hkeep : ∀ c a c', I c → Q c → step c a = some c' → Q c') :
    ∀ e ∈ past, M e.1 e.2 → Q c := by
  induction h with
  | start => simp
  | next hrest hs ih =>
    intro e he hM
    have hI := hrest.invariant hinit hstep
    rcases List.mem_cons.mp he with rfl | he
    · exact hmake _ _ _ hI hM hs
    · exact hkeep _ _ _ hI (ih e he hM) hs

theorem stable {Q : σ → Prop} (h : Execution step init past c) (hinit : I init)
    (hstep : ∀ c a c', I c → step c a = some c' → I c')
    (hkeep : ∀ c a c', I c → Q c → step c a = some c' → Q c') :
    ∀ e ∈ past, Q e.1 → Q c :=
  h.leads (M := fun c _ => Q c) hinit hstep (fun c a c' hI hQ hs => hkeep c a c' hI hQ hs) hkeep

def runActions (step : σ → A → Option σ) : List A → List (σ × A) → σ → Option (List (σ × A) × σ)
  | [], past, c => some (past, c)
  | a :: as, past, c =>
    match step c a with
    | none => none
    | some c' => runActions step as ((c, a) :: past) c'

theorem runActions_cons {a : A} {c' : σ} (as : List A) (past : List (σ × A))
    (h : step c a = some c') :
    runActions step (a :: as) past c = runActions step as ((c, a) :: past) c' := by
  rw [runActions, h]

theorem ofRun {as : List A} {past past' : List (σ × A)} {c c' : σ}
    (h : Execution step init past c) (hr : runActions step as past c = some (past', c')) :
    Execution step init past' c' := by
  induction as generalizing past c with
  | nil =>
    obtain ⟨rfl, rfl⟩ := Prod.mk.inj (Option.some.inj hr)
    exact h
  | cons a as ih =>
    rw [runActions] at hr
    split at hr
    · cases hr
    · next c₁ hc₁ => exact ih (.next h hc₁) hr

end Execution

/-- A loop does not fail when no turn does: `I` says what holds with the list still to go. -/
theorem foldlM_ok {α ε : Type*} {step : σ → α → Except ε σ} {I : List α → σ → Prop}
    (hstep : ∀ a rest s, I (a :: rest) s → ∃ s', step s a = .ok s' ∧ I rest s') (xs : List α)
    {s : σ} (h : I xs s) : ∃ s', xs.foldlM step s = .ok s' ∧ I [] s' := by
  induction xs generalizing s with
  | nil => exact ⟨s, rfl, h⟩
  | cons a rest ih =>
    obtain ⟨s₁, hs₁, hI⟩ := hstep a rest s h
    obtain ⟨s', hs', hend⟩ := ih hI
    refine ⟨s', ?_, hend⟩
    rw [List.foldlM_cons, hs₁]
    exact hs'

theorem forall_mem_replace {α : Type*} {P Q : α → Prop} {before after : List α} {x y : α}
    (h : ∀ a ∈ before ++ x :: after, P a) (hPQ : ∀ a, P a → Q a) (hy : Q y) :
    ∀ a ∈ before ++ y :: after, Q a := by
  intro a ha
  rcases List.mem_append.mp ha with ha | ha
  · exact hPQ a (h a (List.mem_append_left _ ha))
  · rcases List.mem_cons.mp ha with rfl | ha
    · exact hy
    · exact hPQ a (h a (List.mem_append_right _ (List.mem_cons_of_mem _ ha)))

end Mowis.Lib
