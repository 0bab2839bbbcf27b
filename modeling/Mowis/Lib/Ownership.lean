import Mathlib

/-!
# Resources with one owner

Every owner holds a list of resources.
-/

namespace Mowis.Lib

variable {O R : Type*}

structure Exclusive (holdings : O → List R) : Prop where
  once : ∀ o, (holdings o).Nodup
  apart : ∀ o o' r, r ∈ holdings o → r ∈ holdings o' → o = o'

namespace Exclusive

variable {f g : O → List R}

theorem move (h : Exclusive f) (o : O) (moved : List R) (honce : (g o).Nodup)
    (hgain : ∀ r ∈ g o, r ∈ f o ∨ r ∈ moved)
    (hother : ∀ o' ≠ o, (g o').Sublist (f o') ∧ ∀ r ∈ moved, r ∉ g o') : Exclusive g where
  once o' := by
    by_cases ho : o' = o
    · rw [ho]
      exact honce
    · exact (h.once o').sublist (hother o' ho).1
  apart := by
    have hone : ∀ o' r, r ∈ g o → r ∈ g o' → o = o' := by
      intro o' r hr hr'
      by_contra hne
      obtain ⟨hsub, hmoved⟩ := hother o' (Ne.symm hne)
      rcases hgain r hr with hf | hm
      · exact hne (h.apart o o' r hf (hsub.subset hr'))
      · exact hmoved r hm hr'
    intro o₁ o₂ r h₁ h₂
    by_cases ho₁ : o₁ = o
    · subst ho₁
      exact hone o₂ r h₁ h₂
    · by_cases ho₂ : o₂ = o
      · subst ho₂
        exact (hone o₁ r h₂ h₁).symm
      · exact h.apart o₁ o₂ r ((hother o₁ ho₁).1.subset h₁) ((hother o₂ ho₂).1.subset h₂)

theorem exchange (h : Exclusive f) {o₁ o₂ : O} (hne : o₁ ≠ o₂)
    (hperm : (g o₁ ++ g o₂).Perm (f o₁ ++ f o₂))
    (hother : ∀ o, o ≠ o₁ → o ≠ o₂ → g o = f o) : Exclusive g := by
  have hnodup : (g o₁ ++ g o₂).Nodup := by
    refine hperm.nodup_iff.mpr (List.nodup_append'.mpr ⟨h.once o₁, h.once o₂, fun r h₁ h₂ => ?_⟩)
    exact hne (h.apart o₁ o₂ r h₁ h₂)
  obtain ⟨h₁, h₂, hdisjoint⟩ := List.nodup_append'.mp hnodup
  have hold : ∀ o, o = o₁ ∨ o = o₂ → ∀ r ∈ g o, r ∈ f o₁ ∨ r ∈ f o₂ := by
    intro o ho r hr
    refine List.mem_append.mp (hperm.subset (List.mem_append.mpr ?_))
    rcases ho with rfl | rfl
    · exact .inl hr
    · exact .inr hr
  -- a resource of a third owner is none of the two
  have hthird : ∀ o, o = o₁ ∨ o = o₂ → ∀ o', o' ≠ o₁ → o' ≠ o₂ → ∀ r ∈ g o, r ∉ g o' := by
    intro o ho o' h₁' h₂' r hr hr'
    rw [hother o' h₁' h₂'] at hr'
    rcases hold o ho r hr with hf | hf
    · exact h₁' (h.apart o' o₁ r hr' hf)
    · exact h₂' (h.apart o' o₂ r hr' hf)
  constructor
  case once =>
    intro o
    by_cases ho₁ : o = o₁
    · rw [ho₁]
      exact h₁
    by_cases ho₂ : o = o₂
    · rw [ho₂]
      exact h₂
    rw [hother o ho₁ ho₂]
    exact h.once o
  case apart =>
    intro o o' r hr hr'
    by_cases ho : o = o₁ ∨ o = o₂
    · by_cases ho' : o' = o₁ ∨ o' = o₂
      · rcases ho with rfl | rfl <;> rcases ho' with rfl | rfl
        · rfl
        · exact absurd hr' (hdisjoint hr)
        · exact absurd hr (hdisjoint hr')
        · rfl
      · obtain ⟨h₁', h₂'⟩ := not_or.mp ho'
        exact absurd hr' (hthird o ho o' h₁' h₂' r hr)
    · obtain ⟨h₁', h₂'⟩ := not_or.mp ho
      by_cases ho' : o' = o₁ ∨ o' = o₂
      · exact absurd hr (hthird o' ho' o h₁' h₂' r hr')
      · obtain ⟨h₁'', h₂''⟩ := not_or.mp ho'
        rw [hother o h₁' h₂'] at hr
        rw [hother o' h₁'' h₂''] at hr'
        exact h.apart o o' r hr hr'

theorem gather (h : Exclusive f) {owners : List O} (hnodup : owners.Nodup) :
    (owners.flatMap f).Nodup := by
  induction owners with
  | nil => exact List.nodup_nil
  | cons o owners ih =>
    obtain ⟨hnot, hrest⟩ := List.nodup_cons.mp hnodup
    refine List.nodup_append'.mpr ⟨h.once o, ih hrest, fun r hr hr' => hnot ?_⟩
    obtain ⟨o', ho', hmem⟩ := List.mem_flatMap.mp hr'
    exact h.apart o o' r hr hmem ▸ ho'

theorem shrink (h : Exclusive f) (hsub : ∀ o, (g o).Sublist (f o)) : Exclusive g where
  once o := (h.once o).sublist (hsub o)
  apart o o' r hr hr' := h.apart o o' r ((hsub o).subset hr) ((hsub o').subset hr')

end Exclusive

theorem held_exchange [DecidableEq O] {f g : O → List R} {o₁ o₂ : O}
    (hperm : (g o₁ ++ g o₂).Perm (f o₁ ++ f o₂))
    (hother : ∀ o, o ≠ o₁ → o ≠ o₂ → g o = f o) (r : R) :
    (∃ o, r ∈ g o) ↔ ∃ o, r ∈ f o := by
  have hone : ∀ {f g : O → List R}, (g o₁ ++ g o₂).Perm (f o₁ ++ f o₂) →
      (∀ o, o ≠ o₁ → o ≠ o₂ → g o = f o) → (∃ o, r ∈ g o) → ∃ o, r ∈ f o := by
    rintro f g hperm hother ⟨o, ho⟩
    by_cases hmem : o = o₁ ∨ o = o₂
    · have hg : r ∈ g o₁ ++ g o₂ := by
        rcases hmem with rfl | rfl
        · exact List.mem_append_left _ ho
        · exact List.mem_append_right _ ho
      rcases List.mem_append.mp (hperm.subset hg) with hf | hf
      · exact ⟨o₁, hf⟩
      · exact ⟨o₂, hf⟩
    · obtain ⟨h₁, h₂⟩ := not_or.mp hmem
      exact ⟨o, hother o h₁ h₂ ▸ ho⟩
  exact ⟨hone hperm hother, hone hperm.symm fun o h₁ h₂ => (hother o h₁ h₂).symm⟩

end Mowis.Lib
