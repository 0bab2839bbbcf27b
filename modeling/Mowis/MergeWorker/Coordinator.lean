import Mowis.Lib.Pairing
import Mowis.Lib.Text

/-!
# Merging the diffs of agents in pairs

`ParallelMergeCoordinator::merge_diffs` of `agentd/src/orchestration/merge_worker.rs`: the diffs are
merged in pairs, level by level, and the merges of a level run at the same time.  The merge of two
diffs is a parameter.
-/

namespace Mowis.MergeWorker

open Mowis.Lib

structure MergeResult where
  success : Bool
  mergedDiff : Text
  conflictsResolved : ℕ
  unresolvedConflicts : List Text
  deriving DecidableEq, Repr

/-- What is collected in a level. -/
structure Collected where
  nextLevel : List Text
  totalConflictsResolved : ℕ
  allUnresolved : List Text

/-- The task of a merge ends with a result, or with an error or a panic. -/
abbrev MergeTwo := Text → Text → Except Text MergeResult

section merge

variable (mergeTwoDiffs : MergeTwo)

/-- The loop over the tasks of a level: the first merge that fails ends the whole merge. -/
def awaitTasks : List (Text × Text) → Collected → Except Text (MergeResult ⊕ Collected)
  | [], c => .ok (.inr c)
  | (diff1, diff2) :: tasks, c =>
    match mergeTwoDiffs diff1 diff2 with
    | .error e => .error e
    | .ok result =>
      let total := c.totalConflictsResolved + result.conflictsResolved
      let unresolved := c.allUnresolved ++ result.unresolvedConflicts
      if result.success then
        awaitTasks tasks ⟨c.nextLevel ++ [result.mergedDiff], total, unresolved⟩
      else .ok (.inl ⟨false, [], total, unresolved⟩)

theorem length_awaitTasks {tasks : List (Text × Text)} {c c' : Collected}
    (h : awaitTasks mergeTwoDiffs tasks c = .ok (.inr c')) :
    c'.nextLevel.length = c.nextLevel.length + tasks.length := by
  induction tasks generalizing c with
  | nil =>
    cases h
    rfl
  | cons p tasks ih =>
    rw [awaitTasks] at h
    split at h
    · cases h
    · split at h
      · rw [ih h, List.length_append, List.length_singleton, List.length_cons]
        omega
      · cases h

theorem length_level {level : List Text} (hlen : 1 < level.length) {total : ℕ}
    {unresolved : List Text} {c : Collected}
    (h : awaitTasks mergeTwoDiffs (inPairs level) ⟨oddOne level, total, unresolved⟩ =
      .ok (.inr c)) : c.nextLevel.length < level.length := by
  rw [length_awaitTasks mergeTwoDiffs h, length_oddOne, length_inPairs]
  omega

/-- The `while` loop. -/
def mergeLevels (level : List Text) (total : ℕ) (unresolved : List Text) :
    Except Text MergeResult :=
  if _hlen : 1 < level.length then
    match _h : awaitTasks mergeTwoDiffs (inPairs level) ⟨oddOne level, total, unresolved⟩ with
    | .error e => .error e
    | .ok (.inl result) => .ok result
    | .ok (.inr c) => mergeLevels c.nextLevel c.totalConflictsResolved c.allUnresolved
  else .ok ⟨true, level.headD [], total, unresolved⟩
termination_by level.length
decreasing_by exact length_level mergeTwoDiffs _hlen _h

def mergeDiffs : List Text → Except Text MergeResult
  | [] => .ok ⟨true, [], 0, []⟩
  | [diff] => .ok ⟨true, diff, 0, []⟩
  | diffs => mergeLevels mergeTwoDiffs diffs 0 []

def Succeeds (p : Text × Text) : Prop := ∃ r, mergeTwoDiffs p.1 p.2 = .ok r ∧ r.success = true

def Fails (p : Text × Text) : Prop := ∃ r, mergeTwoDiffs p.1 p.2 = .ok r ∧ r.success = false

def conflictsOf (p : Text × Text) : List Text :=
  match mergeTwoDiffs p.1 p.2 with
  | .ok r => r.unresolvedConflicts
  | .error _ => []

def started (level : List Text) : List (List (Text × Text)) :=
  if _hlen : 1 < level.length then
    inPairs level ::
      match _h : awaitTasks mergeTwoDiffs (inPairs level) ⟨oddOne level, 0, []⟩ with
      | .ok (.inr c) => started c.nextLevel
      | .ok (.inl _) => []
      | .error _ => []
  else []
termination_by level.length
decreasing_by exact length_level mergeTwoDiffs _hlen _h

def leftFold (op : Text → Text → Text) : List Text → Text
  | [] => []
  | diff :: diffs => diffs.foldl op diff

/-- If the merge of two diffs is an associative operation that succeeds, then all diffs are merged,
from left to right. -/
def InOrder (diffs : List Text) : Prop :=
  ∀ op : Text → Text → Text, (∀ a b c, op (op a b) c = op a (op b c)) →
    (∀ a b, ∃ r, mergeTwoDiffs a b = .ok r ∧ r.success = true ∧ r.mergedDiff = op a b) →
      ∃ r, mergeDiffs mergeTwoDiffs diffs = .ok r ∧ r.success = true ∧
        r.mergedDiff = leftFold op diffs

def Reports (diffs : List Text) : Prop :=
  (∃ p ∈ (started mergeTwoDiffs diffs).flatten, Fails mergeTwoDiffs p) →
    ∃ r, mergeDiffs mergeTwoDiffs diffs = .ok r ∧ r.success = false ∧
      r.unresolvedConflicts =
        (started mergeTwoDiffs diffs).flatten.flatMap (conflictsOf mergeTwoDiffs)

/-- In the first level in which a merge fails, the first merge that does not succeed fails, and no
merge behind it has conflicts. -/
def FailsLast (diffs : List Text) : Prop :=
  ∀ tasks ∈ started mergeTwoDiffs diffs, (∃ p ∈ tasks, Fails mergeTwoDiffs p) →
    ∃ before p after, tasks = before ++ p :: after ∧ (∀ q ∈ before, Succeeds mergeTwoDiffs q) ∧
      Fails mergeTwoDiffs p ∧ ∀ q ∈ after, conflictsOf mergeTwoDiffs q = []

def mergedDiff (a b : Text) : Text :=
  match mergeTwoDiffs a b with
  | .ok r => r.mergedDiff
  | .error _ => []

variable {mergeTwoDiffs}

theorem awaitTasks_succeeds {p : Text × Text} (hp : Succeeds mergeTwoDiffs p)
    (tasks : List (Text × Text)) (c : Collected) : ∃ total,
      awaitTasks mergeTwoDiffs (p :: tasks) c = awaitTasks mergeTwoDiffs tasks
        ⟨c.nextLevel ++ [mergedDiff mergeTwoDiffs p.1 p.2], total,
          c.allUnresolved ++ conflictsOf mergeTwoDiffs p⟩ := by
  obtain ⟨r, hr, hsuccess⟩ := hp
  refine ⟨c.totalConflictsResolved + r.conflictsResolved, ?_⟩
  simp only [awaitTasks, mergedDiff, conflictsOf, hr, hsuccess, if_true]

theorem awaitTasks_fails {p : Text × Text} (hp : Fails mergeTwoDiffs p)
    (tasks : List (Text × Text)) (c : Collected) : ∃ total,
      awaitTasks mergeTwoDiffs (p :: tasks) c =
        .ok (.inl ⟨false, [], total, c.allUnresolved ++ conflictsOf mergeTwoDiffs p⟩) := by
  obtain ⟨r, hr, hfails⟩ := hp
  refine ⟨c.totalConflictsResolved + r.conflictsResolved, ?_⟩
  simp only [awaitTasks, conflictsOf, hr, hfails, Bool.false_eq_true, if_false]

theorem awaitTasks_append {before : List (Text × Text)}
    (h : ∀ p ∈ before, Succeeds mergeTwoDiffs p) (tasks : List (Text × Text)) (c : Collected) :
    ∃ total, awaitTasks mergeTwoDiffs (before ++ tasks) c = awaitTasks mergeTwoDiffs tasks
      ⟨c.nextLevel ++ before.map fun p => mergedDiff mergeTwoDiffs p.1 p.2, total,
        c.allUnresolved ++ before.flatMap (conflictsOf mergeTwoDiffs)⟩ := by
  induction before generalizing c with
  | nil => exact ⟨c.totalConflictsResolved, by simp⟩
  | cons p before ih =>
    obtain ⟨total, hp⟩ := awaitTasks_succeeds (h p List.mem_cons_self) (before ++ tasks) c
    obtain ⟨total', hrest⟩ := ih (fun q hq => h q (List.mem_cons_of_mem p hq))
      ⟨c.nextLevel ++ [mergedDiff mergeTwoDiffs p.1 p.2], total,
        c.allUnresolved ++ conflictsOf mergeTwoDiffs p⟩
    refine ⟨total', ?_⟩
    rw [List.cons_append, hp, hrest]
    simp

theorem awaitTasks_level {level : List Text}
    (h : ∀ p ∈ inPairs level, Succeeds mergeTwoDiffs p) (total : ℕ) (unresolved : List Text) :
    ∃ total', awaitTasks mergeTwoDiffs (inPairs level) ⟨oddOne level, total, unresolved⟩ =
      .ok (.inr ⟨nextLevel (mergedDiff mergeTwoDiffs) level, total',
        unresolved ++ (inPairs level).flatMap (conflictsOf mergeTwoDiffs)⟩) := by
  obtain ⟨total', hall⟩ := awaitTasks_append h [] ⟨oddOne level, total, unresolved⟩
  rw [List.append_nil] at hall
  exact ⟨total', hall⟩

theorem exists_first {tasks : List (Text × Text)}
    (h : ¬ ∀ p ∈ tasks, Succeeds mergeTwoDiffs p) :
    ∃ before p after, tasks = before ++ p :: after ∧ (∀ q ∈ before, Succeeds mergeTwoDiffs q) ∧
      ¬ Succeeds mergeTwoDiffs p := by
  classical
  have hfind : (tasks.find? fun p => !decide (Succeeds mergeTwoDiffs p)).isSome := by
    rw [List.find?_isSome]
    simpa using h
  obtain ⟨p, hp⟩ := Option.isSome_iff_exists.mp hfind
  obtain ⟨hno, before, after, heq, hbefore⟩ := List.find?_eq_some_iff_append.mp hp
  exact ⟨before, p, after, heq, by simpa using hbefore, by simpa using hno⟩

theorem fails_or_error {p : Text × Text} (h : ¬ Succeeds mergeTwoDiffs p) :
    Fails mergeTwoDiffs p ∨ ∃ e, mergeTwoDiffs p.1 p.2 = .error e := by
  cases hr : mergeTwoDiffs p.1 p.2 with
  | error e => exact .inr ⟨e, rfl⟩
  | ok r =>
    cases hsuccess : r.success with
    | true => exact absurd ⟨r, hr, hsuccess⟩ h
    | false => exact .inl ⟨r, hr, hsuccess⟩

theorem mergeLevels_of_succeeds {level : List Text} (hlen : 1 < level.length)
    (h : ∀ p ∈ inPairs level, Succeeds mergeTwoDiffs p) (total : ℕ) (unresolved : List Text) :
    ∃ total', mergeLevels mergeTwoDiffs level total unresolved =
      mergeLevels mergeTwoDiffs (nextLevel (mergedDiff mergeTwoDiffs) level) total'
        (unresolved ++ (inPairs level).flatMap (conflictsOf mergeTwoDiffs)) := by
  obtain ⟨total', hawait⟩ := awaitTasks_level h total unresolved
  refine ⟨total', ?_⟩
  rw [mergeLevels, dif_pos hlen]
  split
  · next heq =>
    rw [hawait] at heq
    cases heq
  · next heq =>
    rw [hawait] at heq
    cases heq
  · next heq =>
    rw [hawait] at heq
    cases heq
    rfl

theorem started_of_succeeds {level : List Text} (hlen : 1 < level.length)
    (h : ∀ p ∈ inPairs level, Succeeds mergeTwoDiffs p) :
    started mergeTwoDiffs level =
      inPairs level :: started mergeTwoDiffs (nextLevel (mergedDiff mergeTwoDiffs) level) := by
  obtain ⟨total', hawait⟩ := awaitTasks_level h 0 []
  rw [started, dif_pos hlen]
  split
  · next heq =>
    rw [hawait] at heq
    cases heq
    rfl
  · next heq =>
    rw [hawait] at heq
    cases heq
  · next heq =>
    rw [hawait] at heq
    cases heq

theorem started_of_not_lt {level : List Text} (hlen : ¬ 1 < level.length) :
    started mergeTwoDiffs level = [] := by
  rw [started, dif_neg hlen]

variable (mergeTwoDiffs) in
/-- The outcome when a merge is the first one that does not succeed: its error, or a failure with
the conflicts so far. -/
def StopsAt (p : Text × Text) (unresolved : List Text) (outcome : Except Text MergeResult) : Prop :=
  (∃ e, mergeTwoDiffs p.1 p.2 = .error e ∧ outcome = .error e) ∨
    Fails mergeTwoDiffs p ∧ ∃ total, outcome = .ok ⟨false, [], total, unresolved⟩

theorem stopsAt_level {level : List Text} (hlen : 1 < level.length)
    {before after : List (Text × Text)} {p : Text × Text}
    (heq : inPairs level = before ++ p :: after) (hbefore : ∀ q ∈ before, Succeeds mergeTwoDiffs q)
    (hp : ¬ Succeeds mergeTwoDiffs p) (total : ℕ) (unresolved : List Text) :
    started mergeTwoDiffs level = [inPairs level] ∧
      StopsAt mergeTwoDiffs p
        (unresolved ++ (before ++ [p]).flatMap (conflictsOf mergeTwoDiffs))
        (mergeLevels mergeTwoDiffs level total unresolved) := by
  have hawait : ∀ c, StopsAt mergeTwoDiffs p
      (c.allUnresolved ++ (before ++ [p]).flatMap (conflictsOf mergeTwoDiffs))
      ((awaitTasks mergeTwoDiffs (inPairs level) c).map (Sum.elim id fun _ => ⟨true, [], 0, []⟩)) ∧
        ∀ c', awaitTasks mergeTwoDiffs (inPairs level) c ≠ .ok (.inr c') := by
    intro c
    obtain ⟨total', happend⟩ := awaitTasks_append hbefore (p :: after) c
    rw [heq, happend]
    rcases fails_or_error hp with hfails | ⟨e, he⟩
    · obtain ⟨total'', hstop⟩ := awaitTasks_fails hfails after
        ⟨c.nextLevel ++ before.map fun p => mergedDiff mergeTwoDiffs p.1 p.2, total',
          c.allUnresolved ++ before.flatMap (conflictsOf mergeTwoDiffs)⟩
      rw [hstop]
      refine ⟨.inr ⟨hfails, total'', ?_⟩, fun c' h => by cases h⟩
      simp [Except.map]
    · rw [awaitTasks, he]
      exact ⟨.inl ⟨e, he, rfl⟩, fun c' h => by cases h⟩
  constructor
  · rw [started, dif_pos hlen]
    split
    · next h => exact absurd h ((hawait _).2 _)
    · rfl
    · rfl
  · have hstop := (hawait ⟨oddOne level, total, unresolved⟩).1
    rw [mergeLevels, dif_pos hlen]
    split
    · next h =>
      rw [h] at hstop
      exact hstop
    · next h =>
      rw [h] at hstop
      exact hstop
    · next h => exact absurd h ((hawait _).2 _)

theorem exists_stop {level : List Text}
    (h : ∃ p ∈ (started mergeTwoDiffs level).flatten, ¬ Succeeds mergeTwoDiffs p) (total : ℕ)
    (unresolved : List Text) :
    ∃ earlier before p after, started mergeTwoDiffs level = earlier ++ [before ++ p :: after] ∧
      (∀ q ∈ earlier.flatten ++ before, Succeeds mergeTwoDiffs q) ∧ ¬ Succeeds mergeTwoDiffs p ∧
      StopsAt mergeTwoDiffs p
        (unresolved ++ (earlier.flatten ++ before ++ [p]).flatMap (conflictsOf mergeTwoDiffs))
        (mergeLevels mergeTwoDiffs level total unresolved) := by
  induction level using lastLevel.induct (mergedDiff mergeTwoDiffs)
    generalizing total unresolved with
  | case1 level hlen ih =>
    by_cases hall : ∀ p ∈ inPairs level, Succeeds mergeTwoDiffs p
    · rw [started_of_succeeds hlen hall] at h ⊢
      have hlater : ∃ p ∈ (started mergeTwoDiffs
          (nextLevel (mergedDiff mergeTwoDiffs) level)).flatten, ¬ Succeeds mergeTwoDiffs p := by
        obtain ⟨p, hp, hno⟩ := h
        rcases List.mem_append.mp (List.flatten_cons ▸ hp) with hp | hp
        · exact absurd (hall p hp) hno
        · exact ⟨p, hp, hno⟩
      obtain ⟨total', hlevel⟩ := mergeLevels_of_succeeds hlen hall total unresolved
      obtain ⟨earlier, before, p, after, heq, hbefore, hp, hstop⟩ := ih hlater total'
        (unresolved ++ (inPairs level).flatMap (conflictsOf mergeTwoDiffs))
      refine ⟨inPairs level :: earlier, before, p, after, by rw [heq, List.cons_append], ?_, hp, ?_⟩
      · intro q hq
        rw [List.flatten_cons, List.append_assoc] at hq
        rcases List.mem_append.mp hq with hq | hq
        · exact hall q hq
        · exact hbefore q hq
      · rw [hlevel]
        simpa [List.append_assoc] using hstop
    · obtain ⟨before, p, after, heq, hbefore, hp⟩ := exists_first hall
      obtain ⟨hstarted, hstop⟩ := stopsAt_level hlen heq hbefore hp total unresolved
      exact ⟨[], before, p, after, by rw [hstarted, heq]; rfl, by simpa using hbefore, hp,
        by simpa using hstop⟩
  | case2 level hlen =>
    rw [started_of_not_lt hlen] at h
    obtain ⟨p, hp, -⟩ := h
    cases hp

theorem mergeLevels_of_all {level : List Text}
    (h : ∀ a b, Succeeds mergeTwoDiffs (a, b)) (total : ℕ) (unresolved : List Text) :
    ∃ total' unresolved', mergeLevels mergeTwoDiffs level total unresolved =
      .ok ⟨true, (lastLevel (mergedDiff mergeTwoDiffs) level).headD [], total', unresolved'⟩ := by
  induction level using lastLevel.induct (mergedDiff mergeTwoDiffs)
    generalizing total unresolved with
  | case1 level hlen ih =>
    obtain ⟨total', hlevel⟩ :=
      mergeLevels_of_succeeds hlen (fun p _ => h p.1 p.2) total unresolved
    rw [hlevel, lastLevel_of_lt hlen]
    exact ih _ _
  | case2 level hlen =>
    rw [mergeLevels, dif_neg hlen, lastLevel_of_not_lt hlen]
    exact ⟨total, unresolved, rfl⟩

theorem mergeDiffs_eq {diffs : List Text} (h : diffs ≠ []) :
    mergeDiffs mergeTwoDiffs diffs = mergeLevels mergeTwoDiffs diffs 0 [] := by
  match diffs with
  | [] => exact absurd rfl h
  | [diff] => rw [mergeDiffs, mergeLevels, dif_neg (by simp), List.headD_cons]
  | _ :: _ :: _ => rfl

end merge

end Mowis.MergeWorker
