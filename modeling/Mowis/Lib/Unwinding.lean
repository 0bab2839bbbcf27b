import Mathlib

/-!
# Runs that cannot be told apart

A deterministic machine answers every input with an output.  Two states are compared by the outputs
of one list of inputs from each.
-/

namespace Mowis.Lib

variable {σ α ο : Type*} (step : σ → α → σ × ο)

def observations : σ → List α → List ο
  | _, [] => []
  | s, a :: as => (step s a).2 :: observations (step s a).1 as

def visited : σ → List α → List σ
  | s, [] => [s]
  | s, a :: as => s :: visited (step s a).1 as

def Along (ok : σ → α → Prop) : σ → List α → Prop
  | _, [] => True
  | s, a :: as => ok s a ∧ Along ok (step s a).1 as

variable {step} {ok : σ → α → Prop}

theorem visited_of_along {I : σ → Prop} (hstep : ∀ s a, I s → ok s a → I (step s a).1)
    (as : List α) {s : σ} (hs : I s) (hok : Along step ok s as) : ∀ t ∈ visited step s as, I t := by
  induction as generalizing s with
  | nil =>
    intro t ht
    rwa [List.mem_singleton.mp ht]
  | cons a as ih =>
    intro t ht
    rcases List.mem_cons.mp ht with rfl | ht
    · exact hs
    · exact ih (hstep s a hs hok.1) hok.2 t ht

theorem observations_congr {R : σ → σ → Prop}
    (hstep : ∀ s t a, R s t → ok s a →
      (step t a).2 = (step s a).2 ∧ R (step s a).1 (step t a).1) (as : List α) {s t : σ}
    (h : R s t) (hok : Along step ok s as) : observations step t as = observations step s as := by
  induction as generalizing s t with
  | nil => rfl
  | cons a as ih =>
    obtain ⟨hanswer, hnext⟩ := hstep s t a h hok.1
    rw [observations, observations, hanswer, ih hnext hok.2]

/-- `P i s t` says that `t` is `s` with a change marked `i`; at each step only finitely many marks
are bad. -/
theorem observations_ne_of_not_along {ι : Type*} {P : ι → σ → σ → Prop}
    (hkeep : ∀ i s t a, P i s t → ok s a → P i (step s a).1 (step t a).1)
    (htell : ∀ s a, ¬ ok s a → ∃ bad : List ι, ∀ i ∉ bad, ∀ t, P i s t →
      (step t a).2 ≠ (step s a).2) (as : List α) {s : σ} (hnot : ¬ Along step ok s as) :
    ∃ bad : List ι, ∀ i ∉ bad, ∀ t, P i s t → observations step t as ≠ observations step s as := by
  induction as generalizing s with
  | nil => exact absurd trivial hnot
  | cons a as ih =>
    by_cases hok : ok s a
    · obtain ⟨bad, hbad⟩ := ih fun hrest => hnot ⟨hok, hrest⟩
      refine ⟨bad, fun i hi t hP heq => hbad i hi _ (hkeep i s t a hP hok) ?_⟩
      exact (List.cons.inj heq).2
    · obtain ⟨bad, hbad⟩ := htell s a hok
      exact ⟨bad, fun i hi t hP heq => hbad i hi t hP (List.cons.inj heq).1⟩

end Mowis.Lib
