import Mathlib.Data.List.Basic
import Mathlib.Data.List.Infix

/-!
# Statements about a history

A history is a list, newest first.  A statement about an entry may speak of the entries before it,
which are the rest of the list.
-/

namespace Mowis.Lib

variable {α β : Type*}

/-- Every entry meets the condition, given the entries before it. -/
def Always (ok : List α → α → Prop) : List α → Prop
  | [] => True
  | a :: before => ok before a ∧ Always ok before

def Since (bad good : List α → α → Prop) : List α → Prop
  | [] => False
  | a :: before => good before a ∨ ¬ bad before a ∧ Since bad good before

def Ever (good : List α → α → Prop) : List α → Prop := Since (fun _ _ => False) good

def annotate (note : List α → α → β) : List α → List β
  | [] => []
  | a :: before => note before a :: annotate note before

theorem Since.ever {bad good : List α → α → Prop} {l : List α} (h : Since bad good l) :
    Ever good l := by
  induction l with
  | nil => exact h
  | cons a before ih =>
    rcases h with hgood | ⟨-, hsince⟩
    · exact .inl hgood
    · exact .inr ⟨not_false, ih hsince⟩

theorem ever_iff_exists {good : List α → α → Prop} {l : List α} :
    Ever good l ↔ ∃ a before, a :: before <:+ l ∧ good before a := by
  induction l with
  | nil => simp [Ever, Since]
  | cons b l ih =>
    have hstep : Ever good (b :: l) ↔ good l b ∨ Ever good l := by
      simp only [Ever, Since, not_false_eq_true, true_and]
    rw [hstep, ih]
    constructor
    · rintro (hgood | ⟨a, before, hsuffix, hgood⟩)
      · exact ⟨b, l, List.suffix_refl _, hgood⟩
      · exact ⟨a, before, hsuffix.trans (List.suffix_cons _ _), hgood⟩
    · rintro ⟨a, before, hsuffix, hgood⟩
      rcases List.suffix_cons_iff.mp hsuffix with heq | hsuffix
      · cases heq
        exact .inl hgood
      · exact .inr ⟨a, before, hsuffix, hgood⟩

theorem map_annotate (note : List α → α → β) (f : β → α) (hf : ∀ before a, f (note before a) = a)
    (l : List α) : (annotate note l).map f = l := by
  induction l with
  | nil => rfl
  | cons a before ih => rw [annotate, List.map_cons, hf, ih]

section Annotated

variable {note : List α → α → β} {l : List α}

theorem since_annotate {bad good : List β → β → Prop} {bad' good' : List α → α → Prop}
    (hbad : ∀ before a, a :: before <:+ l →
      (bad (annotate note before) (note before a) ↔ bad' before a))
    (hgood : ∀ before a, a :: before <:+ l →
      (good (annotate note before) (note before a) ↔ good' before a)) :
    Since bad good (annotate note l) ↔ Since bad' good' l := by
  induction l with
  | nil => exact Iff.rfl
  | cons a before ih =>
    have hlast : a :: before <:+ a :: before := List.suffix_refl _
    have hrest := ih
      (fun before' a' h => hbad before' a' (h.trans (List.suffix_cons _ _)))
      (fun before' a' h => hgood before' a' (h.trans (List.suffix_cons _ _)))
    rw [annotate, Since, Since, hbad before a hlast, hgood before a hlast, hrest]

theorem ever_annotate {good : List β → β → Prop} {good' : List α → α → Prop}
    (hgood : ∀ before a, a :: before <:+ l →
      (good (annotate note before) (note before a) ↔ good' before a)) :
    Ever good (annotate note l) ↔ Ever good' l :=
  since_annotate (fun _ _ _ => Iff.rfl) hgood

theorem always_annotate {ok : List β → β → Prop} {ok' : List α → α → Prop}
    (h : ∀ before a, a :: before <:+ l → Always ok' before →
      (ok (annotate note before) (note before a) ↔ ok' before a)) :
    Always ok (annotate note l) ↔ Always ok' l := by
  induction l with
  | nil => exact Iff.rfl
  | cons a before ih =>
    have hrest := ih fun before' a' hsuffix =>
      h before' a' (hsuffix.trans (List.suffix_cons _ _))
    rw [annotate, Always, Always, hrest]
    exact and_congr_left fun hbefore => h before a (List.suffix_refl _) hbefore

end Annotated

end Mowis.Lib
