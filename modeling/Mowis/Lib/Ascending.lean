import Mathlib

/-!
# Entries in the order of their keys

Lists of entries whose keys ascend, as an ordered map enumerates them.
-/

namespace Mowis.Lib

variable {κ ν : Type*} [LinearOrder κ]

def Ascending (l : List (κ × ν)) : Prop := l.Pairwise fun p q => p.1 < q.1

theorem lookup_eq_none_of_lt {k : κ} {l : List (κ × ν)} (h : ∀ p ∈ l, k < p.1) :
    l.lookup k = none := by
  rw [List.lookup_eq_none_iff]
  intro p hp
  exact bne_iff_ne.mpr (h p hp).ne

theorem lookup_cons_ne {k a : κ} {v : ν} {l : List (κ × ν)} (h : k ≠ a) :
    ((a, v) :: l).lookup k = l.lookup k := by
  rw [List.lookup_cons, beq_false_of_ne h]

theorem Ascending.ext {l l' : List (κ × ν)} (hl : Ascending l) (hl' : Ascending l')
    (h : ∀ k, l.lookup k = l'.lookup k) : l = l' := by
  induction l generalizing l' with
  | nil =>
    cases l' with
    | nil => rfl
    | cons q l' =>
      have hq := h q.1
      rw [List.lookup_cons_self] at hq
      cases hq
  | cons p l ih =>
    obtain ⟨a, v⟩ := p
    obtain ⟨hp, htail⟩ := List.pairwise_cons.mp hl
    cases l' with
    | nil =>
      have ha := h a
      rw [List.lookup_cons_self] at ha
      cases ha
    | cons q l' =>
      obtain ⟨b, w⟩ := q
      obtain ⟨hq, htail'⟩ := List.pairwise_cons.mp hl'
      have hkey : a = b := by
        rcases lt_trichotomy a b with hlt | heq | hlt
        · have hnone : ((b, w) :: l').lookup a = none :=
            lookup_eq_none_of_lt (List.forall_mem_cons.mpr ⟨hlt, fun r hr => hlt.trans (hq r hr)⟩)
          have ha := h a
          rw [hnone, List.lookup_cons_self] at ha
          cases ha
        · exact heq
        · have hnone : ((a, v) :: l).lookup b = none :=
            lookup_eq_none_of_lt (List.forall_mem_cons.mpr ⟨hlt, fun r hr => hlt.trans (hp r hr)⟩)
          have hb := h b
          rw [hnone, List.lookup_cons_self] at hb
          cases hb
      subst hkey
      have hvalue : v = w := by
        have ha := h a
        rw [List.lookup_cons_self, List.lookup_cons_self] at ha
        exact Option.some.inj ha
      have hrest : l = l' := by
        refine ih htail htail' fun k => ?_
        by_cases hk : k = a
        · rw [hk, lookup_eq_none_of_lt hp, lookup_eq_none_of_lt hq]
        · have hboth := h k
          rwa [lookup_cons_ne hk, lookup_cons_ne hk] at hboth
      rw [hvalue, hrest]

end Mowis.Lib
