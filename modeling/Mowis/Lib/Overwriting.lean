import Mathlib

/-!
# Versions copied over one another

A version has a value at some keys.  Versions that are derived from one base are copied one after
the other to one place, each over what the ones before it left.
-/

namespace Mowis.Lib

variable {K V α : Type*}

def merged (order : List (K → Option V)) (k : K) : Option V := order.reverse.findSome? (· k)

@[simp] theorem merged_nil (k : K) : merged ([] : List (K → Option V)) k = none := rfl

theorem merged_append (xs ys : List (K → Option V)) (k : K) :
    merged (xs ++ ys) k = (merged ys k).or (merged xs k) := by
  rw [merged, List.reverse_append, List.findSome?_append]
  rfl

theorem merged_cons (w : K → Option V) (ws : List (K → Option V)) (k : K) :
    merged (w :: ws) k = (merged ws k).or (w k) := by
  rw [← List.singleton_append, merged_append]
  congr 1
  exact List.findSome?_singleton

theorem merged_flatMap (parts : List α) (part : α → List (K → Option V)) (k : K) :
    merged (parts.flatMap part) k = merged (parts.map fun a => merged (part a)) k := by
  induction parts with
  | nil => rfl
  | cons a parts ih => rw [List.flatMap_cons, merged_append, List.map_cons, merged_cons, ih]

theorem merged_map {W : Type*} (f : V → W) (ws : List (K → Option V)) (k : K) :
    (merged ws k).map f = merged (ws.map fun w k => (w k).map f) k := by
  induction ws with
  | nil => rfl
  | cons w ws ih =>
    rw [List.map_cons, merged_cons, merged_cons, ← ih]
    cases merged ws k <;> rfl

theorem merged_eq_none_iff {order : List (K → Option V)} {k : K} :
    merged order k = none ↔ ∀ w ∈ order, w k = none := by
  rw [merged, List.findSome?_eq_none_iff]
  constructor
  · intro h w hw
    exact h w (List.mem_reverse.mpr hw)
  · intro h w hw
    exact h w (List.mem_reverse.mp hw)

theorem merged_eq_some_iff {order : List (K → Option V)} {k : K} {v : V} :
    merged order k = some v ↔
      ∃ before w after, order = before ++ w :: after ∧ w k = some v ∧ ∀ w' ∈ after, w' k = none := by
  constructor
  · intro h
    induction order with
    | nil => cases h
    | cons w order ih =>
      rw [merged_cons] at h
      cases hrest : merged order k with
      | none =>
        rw [hrest] at h
        exact ⟨[], w, order, rfl, h, merged_eq_none_iff.mp hrest⟩
      | some v' =>
        rw [hrest] at h
        obtain ⟨before, w', after, heq, hw'⟩ := ih (hrest.trans h)
        exact ⟨w :: before, w', after, by rw [heq, List.cons_append], hw'⟩
  · rintro ⟨before, w, after, rfl, hw, hafter⟩
    rw [merged_append, merged_cons, merged_eq_none_iff.mpr hafter, hw]
    rfl

section Promised

variable (base : K → Option V) (works : List (K → Option V)) (k : K)

def Modified (w : K → Option V) : Prop := ∃ v, w k = some v ∧ base k ≠ some v

/-- One version has a value of its own, and no other one has. -/
def ModifiedOnce (v : V) : Prop :=
  ∃ before w after, works = before ++ w :: after ∧ w k = some v ∧ base k ≠ some v ∧
    ∀ w' ∈ before ++ after, ¬ Modified base k w'

/-- No version has a value of its own, and where there are versions one has that of the base. -/
def Kept (v : V) : Prop :=
  base k = some v ∧ (∀ w ∈ works, ¬ Modified base k w) ∧ (works = [] ∨ ∃ w ∈ works, w k = some v)

def Promised (v : V) : Prop := ModifiedOnce base works k v ∨ Kept base works k v

def ModifierLast (order : List (K → Option V)) : Prop :=
  ∃ before w after, order = before ++ w :: after ∧ Modified base k w ∧ ∀ w' ∈ after, w' k = none

end Promised

variable {base : K → Option V} {works order : List (K → Option V)} {k : K} {v : V}

theorem eq_of_not_modified {w : K → Option V} (h : ¬ Modified base k w) (hw : w k = some v) :
    base k = some v := by
  by_contra hne
  exact h ⟨v, hw, hne⟩

theorem merged_of_modifiedOnce_iff (hmem : ∀ w, w ∈ order ↔ w ∈ works)
    (honce : ModifiedOnce base works k v) :
    merged order k = some v ↔ ModifierLast base k order := by
  obtain ⟨before, w, after, hworks, hw, hbase, hothers⟩ := honce
  -- who modifies the key has this value
  have hvalue : ∀ w' ∈ order, Modified base k w' → w' k = some v := by
    intro w' hw' hmodified
    rw [hmem, hworks] at hw'
    rcases List.mem_append.mp hw' with hleft | hright
    · exact absurd hmodified (hothers w' (List.mem_append_left _ hleft))
    · rcases List.mem_cons.mp hright with rfl | hright
      · exact hw
      · exact absurd hmodified (hothers w' (List.mem_append_right _ hright))
  rw [merged_eq_some_iff]
  constructor
  · rintro ⟨before', w', after', horder, hw', hafter⟩
    exact ⟨before', w', after', horder, ⟨v, hw', hbase⟩, hafter⟩
  · rintro ⟨before', w', after', horder, hmodified, hafter⟩
    have hin : w' ∈ order := by
      rw [horder]
      exact List.mem_append_right _ List.mem_cons_self
    exact ⟨before', w', after', horder, hvalue w' hin hmodified, hafter⟩

theorem merged_of_kept (hmem : ∀ w, w ∈ order ↔ w ∈ works) (hworks : works ≠ [])
    (hkept : Kept base works k v) : merged order k = some v := by
  obtain ⟨hbase, hnone, hsome⟩ := hkept
  obtain ⟨w, hw, hwk⟩ := hsome.resolve_left hworks
  cases hmerged : merged order k with
  | none =>
    have hgone := merged_eq_none_iff.mp hmerged w ((hmem w).mpr hw)
    rw [hwk] at hgone
    cases hgone
  | some v' =>
    obtain ⟨before, w', after, horder, hw', _⟩ := merged_eq_some_iff.mp hmerged
    have hin : w' ∈ order := by
      rw [horder]
      exact List.mem_append_right _ List.mem_cons_self
    rw [← hbase]
    exact (eq_of_not_modified (hnone w' ((hmem w').mp hin)) hw').symm

/-- **Copying keeps what is promised** exactly when the version that modifies a key is the last of
those that have it and, where nothing is copied, the base was there before. -/
theorem keepsPromises_iff (there : K → Option V) (hmem : ∀ w, w ∈ order ↔ w ∈ works) :
    (∀ k v, Promised base works k v → (merged order k).or (there k) = some v) ↔
      (∀ k v, ModifiedOnce base works k v → ModifierLast base k order) ∧
        (works = [] → ∀ k v, base k = some v → there k = some v) := by
  constructor
  · intro h
    constructor
    · intro k v honce
      have hv := h k v (.inl honce)
      have hmerged : merged order k = some v := by
        cases hmerged : merged order k with
        | some v' =>
          rw [hmerged] at hv
          exact hv
        | none =>
          obtain ⟨before, w, after, hworks, hw, _⟩ := honce
          have hin : w ∈ order := by
            rw [hmem, hworks]
            exact List.mem_append_right _ List.mem_cons_self
          have hgone := merged_eq_none_iff.mp hmerged w hin
          rw [hw] at hgone
          cases hgone
      exact (merged_of_modifiedOnce_iff hmem honce).mp hmerged
    · intro hworks k v hbase
      have horder : order = [] := by
        rw [List.eq_nil_iff_forall_not_mem]
        intro w hw
        rw [hmem, hworks] at hw
        cases hw
      have hkept : Kept base works k v := by
        refine ⟨hbase, ?_, .inl hworks⟩
        rw [hworks]
        intro w hw
        cases hw
      have hv := h k v (.inr hkept)
      rwa [horder, merged_nil, Option.none_or] at hv
  · rintro ⟨hlast, hempty⟩ k v (honce | hkept)
    · rw [(merged_of_modifiedOnce_iff hmem honce).mpr (hlast k v honce)]
      rfl
    · by_cases hworks : works = []
      · have horder : order = [] := by
          rw [List.eq_nil_iff_forall_not_mem]
          intro w hw
          rw [hmem, hworks] at hw
          cases hw
        rw [horder, merged_nil, Option.none_or]
        exact hempty hworks k v hkept.1
      · rw [merged_of_kept hmem hworks hkept]
        rfl

end Mowis.Lib
