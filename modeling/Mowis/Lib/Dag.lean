import Mathlib

/-!
# Acyclic relations on finite collections

`r a b` reads "`a` depends on `b`".  A relation without cycles has, on every
non-empty list, an element that depends on no other element of the list; and an
induction over dependencies is available on every list closed under them.
-/

namespace Mowis.Lib

variable {α : Type*} {r : α → α → Prop}

/-- No element depends on itself, directly or through others. -/
def AcyclicRel (r : α → α → Prop) : Prop := ∀ a, ¬ Relation.TransGen r a a

theorem AcyclicRel.of_lt {β : Type*} [Preorder β] (rank : α → β)
    (h : ∀ a b, r a b → rank b < rank a) : AcyclicRel r := by
  have hlt : ∀ a b, Relation.TransGen r a b → rank b < rank a := by
    intro a b hab
    induction hab with
    | single hr => exact h _ _ hr
    | tail _ hr ih => exact (h _ _ hr).trans ih
  exact fun a ha => lt_irrefl _ (hlt a a ha)

theorem AcyclicRel.of_acc (h : ∀ a b, r a b → Acc (fun d t => r t d) a) : AcyclicRel r := by
  intro a ha
  obtain ⟨b, hab, -⟩ := Relation.TransGen.head'_iff.mp ha
  have hacc := (h a b hab).transGen
  have hloop : Relation.TransGen (fun d t => r t d) a a := Relation.transGen_swap.mpr ha
  clear hab ha
  induction hacc with
  | intro u _ ih => exact ih u hloop hloop

theorem AcyclicRel.wellFoundedOn (h : AcyclicRel r) (l : List α) :
    WellFounded (fun a b : {x // x ∈ l} => Relation.TransGen r b.1 a.1) := by
  classical
  have htrans : IsTrans {x // x ∈ l} (fun a b => Relation.TransGen r b.1 a.1) :=
    ⟨fun _ _ _ hab hbc => hbc.trans hab⟩
  have hirrefl : Std.Irrefl (fun a b : {x // x ∈ l} => Relation.TransGen r b.1 a.1) :=
    ⟨fun a ha => h a.1 ha⟩
  have hfin : Finite {x // x ∈ l} := (List.finite_toSet l).to_subtype
  exact Finite.wellFounded_of_trans_of_irrefl _

theorem AcyclicRel.exists_minimal (h : AcyclicRel r) {l : List α} (hl : l ≠ []) :
    ∃ m ∈ l, ∀ x ∈ l, ¬ r m x := by
  obtain ⟨a, rest, rfl⟩ := List.exists_cons_of_ne_nil hl
  obtain ⟨m, -, hmin⟩ := (h.wellFoundedOn (a :: rest)).has_min Set.univ
    ⟨⟨a, List.mem_cons_self⟩, trivial⟩
  exact ⟨m.1, m.2, fun x hx hr => hmin ⟨x, hx⟩ trivial (.single hr)⟩

theorem AcyclicRel.induction (h : AcyclicRel r) {l : List α} {P : α → Prop}
    (hclosed : ∀ a ∈ l, ∀ b, r a b → b ∈ l)
    (step : ∀ a ∈ l, (∀ b, r a b → P b) → P a) : ∀ a ∈ l, P a := by
  intro a ha
  refine (h.wellFoundedOn l).induction (C := fun x => P x.1) ⟨a, ha⟩ fun x ih => ?_
  exact step x.1 x.2 fun b hb => ih ⟨b, hclosed x.1 x.2 b hb⟩ (.single hb)

/-- `Chain r n a`: some chain of `n` dependencies starts at `a`. -/
inductive Chain (r : α → α → Prop) : ℕ → α → Prop
  | start (a : α) : Chain r 0 a
  | link {n : ℕ} {a b : α} (hab : r a b) (h : Chain r n b) : Chain r (n + 1) a

theorem isGreatest_chain_of_levels {level : ℕ → α → Prop}
    (hlower : ∀ i a b, level i a → r a b → ∃ j < i, level j b)
    (hbelow : ∀ i a, level (i + 1) a → ∃ b, r a b ∧ level i b) {i : ℕ} {a : α}
    (ha : level i a) : IsGreatest {n | Chain r n a} i := by
  constructor
  · show Chain r i a
    induction i generalizing a with
    | zero => exact .start a
    | succ i ih =>
      obtain ⟨b, hab, hb⟩ := hbelow i a ha
      exact .link hab (ih hb)
  · intro n hn
    replace hn : Chain r n a := hn
    induction hn generalizing i with
    | start _ => exact Nat.zero_le i
    | @link n a b hab _ ih =>
      obtain ⟨j, hj, hb⟩ := hlower i a b ha hab
      have hle := ih hb
      omega

end Mowis.Lib
