import Mowis.MergeWorker.Coordinator

/-!
# When diffs are merged in order

* `inOrder_iff` — a diff that is left over on a level overtakes all others, so that the list comes
  out rotated by what its length lacks of a power of two.
* `reports_iff` — the first merge that fails ends the report, while the others of its level run.
* `mergeDiffs_iff` — both, as the exact condition.
-/

namespace Mowis.MergeWorker

open Mowis.Lib

section merge

variable {mergeTwoDiffs : MergeTwo}

theorem perm_emitted (diffs : List Text) : (emitted diffs).Perm diffs := by
  have hperm := (emitted diffs).rotate_perm (2 ^ Nat.clog 2 diffs.length - diffs.length)
  rw [rotate_emitted] at hperm
  exact hperm.symm

theorem folded_eq_leftFold {diffs : List Text} (h : diffs ≠ []) (op : Text → Text → Text) :
    folded op diffs = some (leftFold op diffs) := by
  obtain ⟨diff, rest, rfl⟩ := List.exists_cons_of_ne_nil h
  rfl

theorem head?_lastLevel_eq_iff {diffs : List Text} (h : diffs ≠ []) {op : Text → Text → Text}
    (hop : ∀ a b c, op (op a b) c = op a (op b c)) :
    (lastLevel op diffs).headD [] = leftFold op diffs ↔
      folded op (emitted diffs) = folded op diffs := by
  obtain ⟨out, hout⟩ := List.length_eq_one_iff.mp (@length_lastLevel _ op _ h)
  rw [folded_lastLevel hop, folded_eq_leftFold h, hout, List.headD_cons, List.head?_cons,
    Option.some_inj]

theorem inOrder_iff (diffs : List Text) : (∀ mergeTwoDiffs, InOrder mergeTwoDiffs diffs) ↔
    diffs.rotate (2 ^ Nat.clog 2 diffs.length - diffs.length) = diffs := by
  by_cases hnil : diffs = []
  · rw [hnil]
    exact ⟨fun _ => rfl, fun _ _ _ _ _ => ⟨_, rfl, rfl, rfl⟩⟩
  rw [← emitted_eq_self_iff]
  constructor
  · intro h
    obtain ⟨op, hop, hseparates⟩ := exists_separating diffs
    let merge : MergeTwo := fun a b => .ok ⟨true, op a b, 0, []⟩
    obtain ⟨r, hr, -, hmerged⟩ := h merge op hop fun a b => ⟨_, rfl, rfl, rfl⟩
    have hall : ∀ a b, Succeeds merge (a, b) := fun a b => ⟨_, rfl, rfl⟩
    obtain ⟨total, unresolved, hlevels⟩ := @mergeLevels_of_all merge diffs hall 0 []
    rw [mergeDiffs_eq hnil, hlevels] at hr
    cases hr
    exact hseparates _ (perm_emitted diffs) ((head?_lastLevel_eq_iff hnil hop).mp hmerged)
  · intro h merge op hop hmerge
    have hall : ∀ a b, Succeeds merge (a, b) := by
      intro a b
      obtain ⟨r, hr, hsuccess, -⟩ := hmerge a b
      exact ⟨r, hr, hsuccess⟩
    have hmerged : mergedDiff merge = op := by
      funext a b
      obtain ⟨r, hr, -, hdiff⟩ := hmerge a b
      rw [mergedDiff, hr, ← hdiff]
    obtain ⟨total, unresolved, hlevels⟩ := @mergeLevels_of_all merge diffs hall 0 []
    rw [mergeDiffs_eq hnil]
    refine ⟨_, hlevels, rfl, ?_⟩
    show (lastLevel (mergedDiff merge) diffs).headD [] = leftFold op diffs
    rw [hmerged, head?_lastLevel_eq_iff hnil hop, h]

theorem first_unique {before before' after after' : List (Text × Text)} {p p' : Text × Text}
    (heq : before ++ p :: after = before' ++ p' :: after')
    (hbefore : ∀ q ∈ before, Succeeds mergeTwoDiffs q) (hp : ¬ Succeeds mergeTwoDiffs p)
    (hbefore' : ∀ q ∈ before', Succeeds mergeTwoDiffs q) (hp' : ¬ Succeeds mergeTwoDiffs p') :
    p = p' ∧ after = after' := by
  induction before generalizing before' with
  | nil =>
    cases before' with
    | nil =>
      cases heq
      exact ⟨rfl, rfl⟩
    | cons q before' =>
      cases heq
      exact absurd (hbefore' p List.mem_cons_self) hp
  | cons q before ih =>
    cases before' with
    | nil =>
      cases heq
      exact absurd (hbefore p' List.mem_cons_self) hp'
    | cons q' before' =>
      rw [List.cons_append, List.cons_append] at heq
      exact ih (List.cons.inj heq).2 (fun r hr => hbefore r (List.mem_cons_of_mem q hr))
        (fun r hr => hbefore' r (List.mem_cons_of_mem q' hr))

theorem Fails.not_succeeds {p : Text × Text} (h : Fails mergeTwoDiffs p) :
    ¬ Succeeds mergeTwoDiffs p := by
  rintro ⟨r, hr, hsuccess⟩
  obtain ⟨r', hr', hfails⟩ := h
  rw [hr] at hr'
  cases hr'
  rw [hsuccess] at hfails
  cases hfails

theorem started_eq_nil {diffs : List Text}
    (h : ∃ p ∈ (started mergeTwoDiffs diffs).flatten, Fails mergeTwoDiffs p) : diffs ≠ [] := by
  rintro rfl
  rw [started_of_not_lt (by simp)] at h
  obtain ⟨p, hp, -⟩ := h
  cases hp

theorem reports_iff (diffs : List Text) :
    Reports mergeTwoDiffs diffs ↔ FailsLast mergeTwoDiffs diffs := by
  by_cases hfails : ∃ p ∈ (started mergeTwoDiffs diffs).flatten, Fails mergeTwoDiffs p
  · have hno : ∃ p ∈ (started mergeTwoDiffs diffs).flatten, ¬ Succeeds mergeTwoDiffs p := by
      obtain ⟨p, hp, hfailed⟩ := hfails
      exact ⟨p, hp, hfailed.not_succeeds⟩
    obtain ⟨earlier, before, p, after, heq, hbefore, hp, hstop⟩ := exists_stop hno 0 []
    rw [← mergeDiffs_eq (started_eq_nil hfails), List.nil_append] at hstop
    have hlast : ∀ tasks ∈ started mergeTwoDiffs diffs, (∃ q ∈ tasks, Fails mergeTwoDiffs q) →
        tasks = before ++ p :: after := by
      rintro tasks htasks ⟨q, hq, hfailed⟩
      rw [heq] at htasks
      rcases List.mem_append.mp htasks with htasks | htasks
      · exact absurd (hbefore q (List.mem_append_left _ (List.mem_flatten_of_mem htasks hq)))
          hfailed.not_succeeds
      · exact List.mem_singleton.mp htasks
    have hall : (started mergeTwoDiffs diffs).flatten.flatMap (conflictsOf mergeTwoDiffs) =
        (earlier.flatten ++ before ++ [p]).flatMap (conflictsOf mergeTwoDiffs) ++
          after.flatMap (conflictsOf mergeTwoDiffs) := by
      rw [heq]
      simp
    constructor
    · intro h tasks htasks hin
      obtain ⟨r, hr, -, hconflicts⟩ := h hfails
      rw [hr] at hstop
      rcases hstop with ⟨e, -, herror⟩ | ⟨hfailed, total, hok⟩
      · cases herror
      · cases hok
        rw [hall, List.self_eq_append_right] at hconflicts
        exact ⟨before, p, after, hlast tasks htasks hin,
          fun q hq => hbefore q (List.mem_append_right _ hq), hfailed,
          List.flatMap_eq_nil_iff.mp hconflicts⟩
    · intro h _
      obtain ⟨q, hq, hfailed⟩ := hfails
      obtain ⟨tasks, htasks, hin⟩ := List.mem_flatten.mp hq
      obtain ⟨before', p', after', heq', hbefore', hp', hafter'⟩ := h tasks htasks ⟨q, hin, hfailed⟩
      rw [hlast tasks htasks ⟨q, hin, hfailed⟩] at heq'
      obtain ⟨rfl, rfl⟩ := first_unique heq' (fun q hq => hbefore q (List.mem_append_right _ hq)) hp
        hbefore' hp'.not_succeeds
      rcases hstop with ⟨e, he, -⟩ | ⟨-, total, hok⟩
      · obtain ⟨r, hr, -⟩ := hp'
        rw [he] at hr
        cases hr
      · refine ⟨_, hok, rfl, ?_⟩
        rw [hall, List.flatMap_eq_nil_iff.mpr hafter', List.append_nil]
  · constructor
    · intro _ tasks htasks hin
      obtain ⟨p, hp, hfailed⟩ := hin
      exact absurd ⟨p, List.mem_flatten_of_mem htasks hp, hfailed⟩ hfails
    · exact fun _ h => absurd h hfails

/-- **Which lists are merged in order.**  Whatever the merge of two diffs does, as long as it is
associative and succeeds, the diffs of a list are merged from left to right exactly if the list is
the same after its last diffs are moved to its front, as many as its length lacks of a power of
two; so it is for a list whose length is one.  And for any merge of two diffs, the conflicts of all
merges are reported exactly if the first merge that fails is the last one with conflicts. -/
theorem mergeDiffs_iff (diffs : List Text) :
    ((∀ mergeTwoDiffs, InOrder mergeTwoDiffs diffs) ↔
      diffs.rotate (2 ^ Nat.clog 2 diffs.length - diffs.length) = diffs) ∧
    ∀ mergeTwoDiffs, Reports mergeTwoDiffs diffs ↔ FailsLast mergeTwoDiffs diffs :=
  ⟨inOrder_iff diffs, fun _ => reports_iff diffs⟩

def joining : MergeTwo := fun a b => .ok ⟨true, a ++ b, 0, []⟩

/-- The third diff comes first. -/
theorem not_mergeDiffs : ¬ ∀ diffs mergeTwoDiffs, InOrder mergeTwoDiffs diffs ∧
    Reports mergeTwoDiffs diffs := by
  intro h
  obtain ⟨r, hr, -, hmerged⟩ := (h [['1'], ['2'], ['3']] joining).1 (· ++ ·)
    (fun _ _ _ => List.append_assoc _ _ _) fun _ _ => ⟨_, rfl, rfl, rfl⟩
  have hlevels : mergeDiffs joining [['1'], ['2'], ['3']] = .ok ⟨true, ['3', '1', '2'], 0, []⟩ := by
    simp [mergeDiffs, mergeLevels, awaitTasks, inPairs, oddOne, joining]
  rw [hlevels] at hr
  cases hr
  revert hmerged
  decide

end merge

end Mowis.MergeWorker
