import Mathlib

/-!
# Forests that grow

A forest is the list of its nodes in the order in which they were made.  A node has a label and
may have a parent, which was made before it.
-/

namespace Mowis.Lib

structure Forest (α : Type*) where
  nodes : List (α × Option ℕ)
  earlier : ∀ (i p : ℕ) (a : α), nodes[i]? = some (a, some p) → p < i

namespace Forest

variable {α : Type*} {R : α → α → Prop} {f : Forest α} {i p : ℕ} {a b : α}

def empty : Forest α := ⟨[], by simp⟩

/-- Node `i` has the label `a` and the parent `p`. -/
def Child (f : Forest α) (i p : ℕ) (a : α) : Prop := f.nodes[i]? = some (a, some p)

def label (f : Forest α) (i : ℕ) : Option α := f.nodes[i]?.map Prod.fst

theorem Child.label (h : f.Child i p a) : f.label i = some a := by
  rw [Forest.label, h]
  rfl

theorem Child.exists_label (h : f.Child i p a) : ∃ b, f.label p = some b := by
  have hi : i < f.nodes.length := (List.getElem?_eq_some_iff.mp h).1
  have hp : p < f.nodes.length := (f.earlier i p a h).trans hi
  exact ⟨_, by rw [Forest.label, List.getElem?_eq_getElem hp]; rfl⟩

/-- `p` is the parent of `i`, or an ancestor of its parent. -/
inductive Ancestor (f : Forest α) : ℕ → ℕ → Prop
  | parent {i p : ℕ} {a : α} : f.Child i p a → Ancestor f i p
  | step {i p q : ℕ} {a : α} : f.Child i p a → Ancestor f p q → Ancestor f i q

/-- The label of every node has the relation to that of its parent. -/
def Linked (R : α → α → Prop) (f : Forest α) : Prop :=
  ∀ i p a b, f.Child i p a → f.label p = some b → R a b

theorem Linked.of_ancestor (h : f.Linked R) (htrans : ∀ a b c, R a b → R b c → R a c) {q : ℕ}
    (hancestor : f.Ancestor i q) (ha : f.label i = some a) (hb : f.label q = some b) : R a b := by
  induction hancestor generalizing a with
  | parent hchild =>
    cases Option.some.inj (hchild.label.symm.trans ha)
    exact h _ _ _ _ hchild hb
  | step hchild _ ih =>
    cases Option.some.inj (hchild.label.symm.trans ha)
    obtain ⟨c, hc⟩ := hchild.exists_label
    exact htrans _ _ _ (h _ _ _ _ hchild hc) (ih hc hb)

def grow (f : Forest α) (a : α) (parent : Option ℕ)
    (hparent : ∀ p, parent = some p → p < f.nodes.length) : Forest α where
  nodes := f.nodes ++ [(a, parent)]
  earlier i p b h := by
    rcases Nat.lt_trichotomy i f.nodes.length with hi | hi | hi
    · rw [List.getElem?_append_left hi] at h
      exact f.earlier i p b h
    · rw [hi, List.getElem?_concat_length] at h
      rw [hi]
      exact hparent p (Prod.mk.inj (Option.some.inj h)).2
    · rw [List.getElem?_eq_none (by simp; omega)] at h
      cases h

section Grow

variable {parent : Option ℕ} {hparent : ∀ p, parent = some p → p < f.nodes.length}

theorem child_grow {c : α} : (f.grow a parent hparent).Child i p c ↔
    f.Child i p c ∨ (i = f.nodes.length ∧ a = c ∧ parent = some p) := by
  show (f.nodes ++ [(a, parent)])[i]? = some (c, some p) ↔ f.nodes[i]? = some (c, some p) ∨ _
  rcases Nat.lt_trichotomy i f.nodes.length with hi | hi | hi
  · rw [List.getElem?_append_left hi]
    simp [hi.ne]
  · rw [hi, List.getElem?_concat_length, List.getElem?_eq_none le_rfl]
    simp
  · rw [List.getElem?_eq_none (by simp; omega), List.getElem?_eq_none hi.le]
    simp [hi.ne']

theorem label_grow_of_lt (hi : i < f.nodes.length) :
    (f.grow a parent hparent).label i = f.label i := by
  rw [label, grow, List.getElem?_append_left hi]
  rfl

theorem linked_grow_iff (h : f.Linked R) : (f.grow a parent hparent).Linked R ↔
    ∀ p b, parent = some p → f.label p = some b → R a b := by
  constructor
  · intro hlinked p b hp hb
    refine hlinked f.nodes.length p a b (child_grow.mpr (.inr ⟨rfl, rfl, hp⟩)) ?_
    rw [label_grow_of_lt (hparent p hp), hb]
  · intro hnew i p c b hchild hb
    rcases child_grow.mp hchild with hold | ⟨rfl, rfl, hp⟩
    · have hi : i < f.nodes.length := (List.getElem?_eq_some_iff.mp hold).1
      rw [label_grow_of_lt ((f.earlier i p c hold).trans hi)] at hb
      exact h i p c b hold hb
    · rw [label_grow_of_lt (hparent p hp)] at hb
      exact hnew p b hp hb

end Grow

def relabel (f : Forest α) (j : ℕ) (a : α) : Forest α where
  nodes := f.nodes.modify j fun node => (a, node.2)
  earlier i p b h := by
    rw [List.getElem?_modify] at h
    cases hnode : f.nodes[i]? with
    | none => simp [hnode] at h
    | some node =>
      have hparent : node.2 = some p := by
        rw [hnode] at h
        split at h
        · exact (Prod.mk.inj (Option.some.inj h)).2
        · exact congrArg Prod.snd (Option.some.inj h)
      exact f.earlier i p node.1 (by rw [hnode, ← hparent])

section Relabel

variable {j : ℕ}

theorem label_relabel (hj : f.label j = some b) : (f.relabel j a).label i =
    if i = j then some a else f.label i := by
  rw [label, relabel, List.getElem?_modify]
  by_cases hij : j = i
  · subst hij
    obtain ⟨node, hnode, -⟩ := Option.map_eq_some_iff.mp hj
    rw [hnode]
    simp
  · rw [if_neg (Ne.symm hij), label]
    cases f.nodes[i]? <;> simp [hij]

theorem child_relabel {c : α} : (f.relabel j a).Child i p c ↔
    ∃ c', f.Child i p c' ∧ c = if i = j then a else c' := by
  show (f.nodes.modify j fun node => (a, node.2))[i]? = some (c, some p) ↔
    ∃ c', f.nodes[i]? = some (c', some p) ∧ _
  rw [List.getElem?_modify]
  cases f.nodes[i]? with
  | none => simp
  | some node =>
    obtain ⟨c', parent⟩ := node
    by_cases hij : j = i
    · simp [hij, eq_comm, and_comm]
    · simp only [hij, Ne.symm hij, if_false, Option.map_eq_map, Option.map_some]
      constructor
      · intro h
        cases h
        exact ⟨c, rfl, rfl⟩
      · rintro ⟨c'', h, rfl⟩
        exact h

theorem linked_relabel_iff (h : f.Linked R) (hj : f.label j = some b) :
    (f.relabel j a).Linked R ↔
      (∀ p b', (∃ c, f.Child j p c) → f.label p = some b' → R a b') ∧
        ∀ i c, f.Child i j c → R c a := by
  have hself : ∀ {i c}, f.Child i j c → i ≠ j := fun hchild =>
    (f.earlier _ _ _ hchild).ne'
  constructor
  · intro hlinked
    constructor
    · rintro p b' ⟨c, hchild⟩ hb'
      refine hlinked j p a b' (child_relabel.mpr ⟨c, hchild, (if_pos rfl).symm⟩) ?_
      rw [label_relabel hj, if_neg (f.earlier _ _ _ hchild).ne, hb']
    · intro i c hchild
      refine hlinked i j c a (child_relabel.mpr ⟨c, hchild, (if_neg (hself hchild)).symm⟩) ?_
      rw [label_relabel hj, if_pos rfl]
  · rintro ⟨habove, hbelow⟩ i p c b' hchild hb'
    obtain ⟨c', hold, rfl⟩ := child_relabel.mp hchild
    rw [label_relabel hj] at hb'
    by_cases hij : i = j
    · subst hij
      rw [if_neg (f.earlier _ _ _ hold).ne] at hb'
      rw [if_pos rfl]
      exact habove p b' ⟨c', hold⟩ hb'
    · rw [if_neg hij]
      by_cases hpj : p = j
      · subst hpj
        rw [if_pos rfl] at hb'
        cases hb'
        exact hbelow i c' hold
      · rw [if_neg hpj] at hb'
        exact h i p c' b' hold hb'

end Relabel

end Forest

end Mowis.Lib
