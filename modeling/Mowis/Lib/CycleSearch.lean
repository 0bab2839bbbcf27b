import Mowis.Lib.Dag

/-!
# Depth-first search for a cycle

A search that walks a list of nodes, enters every node that it has not visited,
walks the node's successors, and stops as soon as it meets a node that is still on
its stack.  `Sweep` describes one such walk by what it answers: `none` when a node
on the stack was met, and otherwise the set of nodes visited at the end.  An
implementation may keep its two sets as it likes, as long as its calls are sweeps.
-/

namespace Mowis.Lib

variable {α : Type*} [DecidableEq α]

/-- The number of nodes of `all` that are not visited. -/
def unvisited (all : List α) (visited : Finset α) : ℕ :=
  (all.filter (fun a => decide (a ∉ visited))).length

theorem unvisited_mono (all : List α) {visited visited' : Finset α} (h : visited ⊆ visited') :
    unvisited all visited' ≤ unvisited all visited := by
  rw [unvisited, unvisited]
  refine (List.monotone_filter_right all fun a ha => ?_).length_le
  have hno : a ∉ visited' := of_decide_eq_true ha
  exact decide_eq_true fun hm => hno (h hm)

theorem unvisited_insert {all : List α} {visited : Finset α} {a : α} (hmem : a ∈ all)
    (hnew : a ∉ visited) : unvisited all (insert a visited) < unvisited all visited := by
  have hfilter : all.filter (fun b => decide (b ∉ insert a visited)) =
      (all.filter (fun b => decide (b ∉ visited))).filter (fun b => decide (b ≠ a)) := by
    rw [List.filter_filter]
    refine List.filter_congr fun b _ => ?_
    by_cases hb : b = a
    · simp [hb]
    · simp [hb]
  rw [unvisited, unvisited, hfilter]
  refine List.length_filter_lt_length_iff_exists.mpr ⟨a, ?_, by simp⟩
  exact List.mem_filter.mpr ⟨hmem, decide_eq_true hnew⟩

variable (succ : α → List α)

/-- One walk over a list of nodes with the given stack: from the visited set before it to
its answer. -/
inductive Sweep : Finset α → Finset α → List α → Option (Finset α) → Prop
  | nil {stack visited : Finset α} : Sweep stack visited [] (some visited)
  | onStack {stack visited : Finset α} {a : α} {rest : List α} (h : a ∈ stack) :
      Sweep stack visited (a :: rest) none
  | seen {stack visited : Finset α} {a : α} {rest : List α} {res : Option (Finset α)}
      (hstack : a ∉ stack) (h : a ∈ visited) (hrest : Sweep stack visited rest res) :
      Sweep stack visited (a :: rest) res
  | cycleBelow {stack visited : Finset α} {a : α} {rest : List α} (hstack : a ∉ stack)
      (hnew : a ∉ visited)
      (hbelow : Sweep (insert a stack) (insert a visited) (succ a) none) :
      Sweep stack visited (a :: rest) none
  | left {stack visited visited₁ : Finset α} {a : α} {rest : List α}
      {res : Option (Finset α)} (hstack : a ∉ stack) (hnew : a ∉ visited)
      (hbelow : Sweep (insert a stack) (insert a visited) (succ a) (some visited₁))
      (hrest : Sweep stack visited₁ rest res) : Sweep stack visited (a :: rest) res

namespace Sweep

variable {succ} {stack visited visited' : Finset α} {xs ys : List α}

theorem append_none (h : Sweep succ stack visited xs none) (ys : List α) :
    Sweep succ stack visited (xs ++ ys) none := by
  generalize hres : (none : Option (Finset α)) = res at h
  induction h with
  | nil => cases hres
  | onStack hmem => exact .onStack hmem
  | seen hstack hmem _ ih => exact .seen hstack hmem (ih hres)
  | cycleBelow hstack hnew hbelow _ => exact .cycleBelow hstack hnew hbelow
  | left hstack hnew hbelow _ _ ih => exact .left hstack hnew hbelow (ih hres)

theorem append {res : Option (Finset α)} (h : Sweep succ stack visited xs (some visited'))
    (hys : Sweep succ stack visited' ys res) : Sweep succ stack visited (xs ++ ys) res := by
  generalize hans : some visited' = ans at h
  induction h with
  | nil =>
    cases hans
    exact hys
  | onStack _ => cases hans
  | seen hstack hmem _ ih => exact .seen hstack hmem (ih hys hans)
  | cycleBelow _ _ _ _ => cases hans
  | left hstack hnew hbelow _ _ ih => exact .left hstack hnew hbelow (ih hys hans)

theorem subset (h : Sweep succ stack visited xs (some visited')) : visited ⊆ visited' := by
  generalize hans : some visited' = ans at h
  induction h generalizing visited' with
  | nil =>
    cases hans
    exact Finset.Subset.refl _
  | onStack _ => cases hans
  | seen _ _ _ ih => exact ih hans
  | cycleBelow _ _ _ _ => cases hans
  | left _ _ _ _ ihbelow ihrest =>
    exact (Finset.subset_insert _ _).trans ((ihbelow rfl).trans (ihrest hans))

theorem found (h : Sweep succ stack visited xs (some visited')) :
    ∀ a ∈ xs, a ∈ visited' ∧ a ∉ stack := by
  generalize hans : some visited' = ans at h
  induction h generalizing visited' with
  | nil => simp
  | onStack _ => cases hans
  | seen hstack hmem hrest ih =>
    subst hans
    intro b hb
    rcases List.mem_cons.mp hb with rfl | hb
    · exact ⟨hrest.subset hmem, hstack⟩
    · exact ih rfl b hb
  | cycleBelow _ _ _ _ => cases hans
  | left hstack _ hbelow hrest _ ih =>
    subst hans
    intro b hb
    rcases List.mem_cons.mp hb with rfl | hb
    · exact ⟨hrest.subset (hbelow.subset (Finset.mem_insert_self _ _)), hstack⟩
    · exact ih rfl b hb

/-- The nodes that the search has left start finite chains of successors only. -/
def Cleared (succ : α → List α) (stack visited : Finset α) : Prop :=
  ∀ a ∈ visited, a ∉ stack → Acc (fun b c => b ∈ succ c) a

theorem Cleared.enter {a : α} (h : Cleared succ stack visited) :
    Cleared succ (insert a stack) (insert a visited) := by
  intro b hb hout
  have hne : b ≠ a := fun he => hout (he ▸ Finset.mem_insert_self _ _)
  exact h b (Finset.mem_of_mem_insert_of_ne hb hne) fun hs => hout (Finset.mem_insert_of_mem hs)

theorem cleared (h : Sweep succ stack visited xs (some visited'))
    (hclear : Cleared succ stack visited) : Cleared succ stack visited' := by
  generalize hans : some visited' = ans at h
  induction h generalizing visited' with
  | nil =>
    cases hans
    exact hclear
  | onStack _ => cases hans
  | seen _ _ _ ih => exact ih hclear hans
  | cycleBelow _ _ _ _ => cases hans
  | @left _ _ visited₁ a _ _ _ _ hbelow _ ihbelow ihrest =>
    refine ihrest (fun b hb hout => ?_) hans
    have hinner := ihbelow hclear.enter rfl
    by_cases hba : b = a
    · -- the node itself: its successors are all off the stack
      subst hba
      refine Acc.intro _ fun c hc => ?_
      obtain ⟨hcvis, hcout⟩ := hbelow.found c hc
      exact hinner c hcvis hcout
    · exact hinner b hb fun hs => hout (Finset.mem_of_mem_insert_of_ne hs hba)

theorem exists_cycle (h : Sweep succ stack visited xs none)
    (hpath : ∀ s ∈ stack, ∀ a ∈ xs, Relation.TransGen (fun a b => b ∈ succ a) s a) :
    ∃ a, Relation.TransGen (fun a b => b ∈ succ a) a a := by
  generalize hans : (none : Option (Finset α)) = ans at h
  induction h with
  | nil => cases hans
  | onStack hmem => exact ⟨_, hpath _ hmem _ List.mem_cons_self⟩
  | seen _ _ _ ih => exact ih (fun s hs b hb => hpath s hs b (List.mem_cons_of_mem _ hb)) hans
  | cycleBelow _ _ _ ih =>
    refine ih (fun s hs b hb => ?_) rfl
    rcases Finset.mem_insert.mp hs with rfl | hs
    · exact .single hb
    · exact (hpath s hs _ List.mem_cons_self).tail hb
  | left _ _ _ _ _ ih => exact ih (fun s hs b hb => hpath s hs b (List.mem_cons_of_mem _ hb)) hans

/-- **The search decides acyclicity.**  Started from a list that holds every node with a
successor, it ends exactly when the graph has no cycle. -/
theorem acyclic_iff {res : Option (Finset α)} (h : Sweep succ ∅ ∅ xs res)
    (hall : ∀ a b, b ∈ succ a → a ∈ xs) :
    AcyclicRel (fun a b => b ∈ succ a) ↔ res ≠ none := by
  constructor
  · rintro hac rfl
    obtain ⟨a, ha⟩ := h.exists_cycle fun s hs => absurd hs (Finset.notMem_empty s)
    exact hac a ha
  · intro hres
    obtain ⟨visited, rfl⟩ := Option.ne_none_iff_exists'.mp hres
    have hclear := h.cleared fun a ha => absurd ha (Finset.notMem_empty a)
    refine AcyclicRel.of_acc fun a b hab => ?_
    obtain ⟨hvis, hout⟩ := h.found a (hall a b hab)
    exact hclear a hvis hout

end Sweep

end Mowis.Lib
