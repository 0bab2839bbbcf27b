import Mowis.Lib.Execution

/-!
# The verification loop

`verify_sandbox` and `determine_status` of `agentd/src/orchestration/verification.rs`.  The
verdicts of `execute_vf`, the outcomes of the fix attempts and of the diff refreshes are given
from outside; the content of the sandbox, and what ran on it, are recorded beside the loop.
-/

namespace Mowis.Verification

abbrev TaskId := String

structure VerificationFunction where
  id : TaskId
  command : String
  deps : List TaskId
  deriving DecidableEq, Repr

structure VfResult where
  passed : Bool
  output : String
  deriving DecidableEq, Repr

/-- What `execute_vf` returns. -/
abbrev Verdict := Except String VfResult

inductive VerificationStatus where
  | notStarted
  | passed
  | partiallyVerified
  | failed
  deriving DecidableEq, Repr

section Loop

-- `C` is the content of a sandbox, and `D` a diff.
variable {C D : Type*}

/-- What becomes of a fix task: there is no agent for it; it fails, or has no diff; its diff is
applied, which may fail half way; the diff of the sandbox is refreshed after an applied one. -/
inductive Fix (C : Type*) where
  | noAgent
  | noDiff
  | applyFailed (content : C)
  | applied (content : C) (refreshed : Bool)

/-- What happens from outside in one round: the verdict of every function, and the fixes for
every failure, by their positions. -/
structure Round (C : Type*) where
  verdicts : ℕ → Verdict
  fixes : ℕ → List (Fix C)

/-- A round that was executed: the content of the sandbox, and the functions with what they
did. -/
structure Record (C : Type*) where
  content : C
  ran : List (VerificationFunction × Bool)

structure State (C D : Type*) where
  currentMergedDiff : D
  passedTests : List TaskId
  failedTests : List TaskId
  roundsCompleted : ℕ
  content : C
  records : List (Record C)

structure VerificationResult (D : Type*) where
  status : VerificationStatus
  passedTests : List TaskId
  failedTests : List TaskId
  roundsCompleted : ℕ
  updatedDiff : Option D

def determineStatus (failedTests passedTests : List TaskId) (roundsCompleted maxRounds : ℕ) :
    VerificationStatus :=
  if passedTests.isEmpty && failedTests.isEmpty then .notStarted
  else if failedTests.isEmpty then .passed
  else if maxRounds ≤ roundsCompleted then .partiallyVerified
  else .failed

/-- The lists of one round. -/
structure Tally where
  passed : List TaskId
  failed : List TaskId
  failures : List (TaskId × String × String)

def Tally.push (t : Tally) (vf : VerificationFunction) : Verdict → Tally
  | .ok r =>
    if r.passed then { t with passed := t.passed ++ [vf.id] }
    else { t with
      failed := t.failed ++ [vf.id]
      failures := t.failures ++ [(vf.id, vf.command, r.output)] }
  | .error e => { t with
      failed := t.failed ++ [vf.id]
      failures := t.failures ++ [(vf.id, vf.command, e)] }

def tally (vfs : List VerificationFunction) (verdicts : ℕ → Verdict) : Tally :=
  vfs.zipIdx.foldl (fun t p => t.push p.1 (verdicts p.2)) ⟨[], [], []⟩

def passes : Verdict → Bool
  | .ok r => r.passed
  | .error _ => false

variable (diffOf : C → D)

def Fix.apply (s : State C D) : Fix C → State C D
  | .noAgent => s
  | .noDiff => s
  | .applyFailed content => { s with content }
  | .applied content true => { s with content, currentMergedDiff := diffOf content }
  | .applied content false => { s with content }

def fixAll (failures : List (TaskId × String × String)) (fixes : ℕ → List (Fix C))
    (s : State C D) : State C D :=
  failures.zipIdx.foldl (fun s p => (fixes p.2).foldl (Fix.apply diffOf) s) s

/-- The rounds from `round` on, of which `n` are left. -/
def rounds (vfs : List VerificationFunction) (maxRounds : ℕ) (env : ℕ → Round C) :
    ℕ → ℕ → State C D → State C D
  | 0, _, s => s
  | n + 1, round, s =>
    let t := tally vfs (env round).verdicts
    let s := { s with
      roundsCompleted := round + 1
      passedTests := t.passed
      failedTests := t.failed
      records := s.records ++
        [⟨s.content, vfs.zipIdx.map fun p => (p.1, passes ((env round).verdicts p.2))⟩] }
    if t.failures.isEmpty then s
    else
      let s := if round < maxRounds - 1 then fixAll diffOf t.failures (env round).fixes s else s
      rounds vfs maxRounds env n (round + 1) s

def finalState (vfs : List VerificationFunction) (maxRounds : ℕ) (mergedDiff : D) (content : C)
    (env : ℕ → Round C) : State C D :=
  rounds diffOf vfs maxRounds env maxRounds 0 ⟨mergedDiff, [], [], 0, content, []⟩

/-- `verify_sandbox`, with the rounds that were executed. -/
def verifySandbox (vfs : List VerificationFunction) (maxRounds : ℕ) (mergedDiff : D) (content : C)
    (env : ℕ → Round C) : VerificationResult D × List (Record C) :=
  if vfs.isEmpty then (⟨.notStarted, [], [], 0, some mergedDiff⟩, [])
  else
    let s := finalState diffOf vfs maxRounds mergedDiff content env
    (⟨determineStatus s.failedTests s.passedTests s.roundsCompleted maxRounds, s.passedTests,
      s.failedTests, s.roundsCompleted, some s.currentMergedDiff⟩, s.records)

/-- A verification means what it says: when it passed, all functions passed in one round, and the
diff is that of the content they ran on; a function is run when its dependencies have passed in
the same round. -/
structure Meant (vfs : List VerificationFunction) (out : VerificationResult D × List (Record C)) :
    Prop where
  passed : out.1.status = .passed → ∃ r ∈ out.2, r.ran = vfs.map (fun vf => (vf, true)) ∧
    out.1.updatedDiff = some (diffOf r.content)
  deps : ∀ r ∈ out.2, ∀ before vf ok after, r.ran = before ++ (vf, ok) :: after →
    ∀ dep ∈ vf.deps, ∃ vf', (vf', true) ∈ before ∧ vf'.id = dep

def Passes (vfs : List VerificationFunction) (round : Round C) : Prop :=
  ∀ i < vfs.length, passes (round.verdicts i) = true

def Executed (vfs : List VerificationFunction) (maxRounds : ℕ) (env : ℕ → Round C) (n : ℕ) : Prop :=
  n < maxRounds ∧ ∀ m < n, ¬ Passes vfs (env m)

def failing (vfs : List VerificationFunction) (round : Round C) : List ℕ :=
  (List.range vfs.length).filter fun i => !passes (round.verdicts i)

def fixesBefore (vfs : List VerificationFunction) (env : ℕ → Round C) (n : ℕ) : List (Fix C) :=
  (List.range n).flatMap fun m =>
    (List.range (failing vfs (env m)).length).flatMap (env m).fixes

def Fix.contentAfter (content : C) : Fix C → C
  | .applyFailed content => content
  | .applied content _ => content
  | _ => content

def contentAfter (content : C) (fixes : List (Fix C)) : C := fixes.foldl Fix.contentAfter content

def Fix.refreshed : Fix C → Bool
  | .applied _ refreshed => refreshed
  | _ => false

/-- Since the last refresh, or since the start when there is none, the diff of the sandbox has
not changed. -/
def Settled (mergedDiff : D) (content : C) (fixes : List (Fix C)) : Prop :=
  ∀ before after, fixes = before ++ after → (∀ fix ∈ after, fix.refreshed = false) →
    (before = [] → mergedDiff = diffOf (contentAfter content fixes)) ∧
    ∀ fix, before.getLast? = some fix → fix.refreshed = true →
      diffOf (contentAfter content before) = diffOf (contentAfter content fixes)

/-- In every round that is executed the dependencies of a function stand before it and pass, and
when a round passes the diff of the sandbox is settled. -/
structure Condition (vfs : List VerificationFunction) (maxRounds : ℕ) (mergedDiff : D) (content : C)
    (env : ℕ → Round C) : Prop where
  deps : ∀ n, Executed vfs maxRounds env n → ∀ i vf, vfs[i]? = some vf → ∀ dep ∈ vf.deps,
    ∃ j < i, ∃ vf', vfs[j]? = some vf' ∧ vf'.id = dep ∧ passes ((env n).verdicts j) = true
  settled : vfs ≠ [] → ∀ n, Executed vfs maxRounds env n → Passes vfs (env n) →
    Settled diffOf mergedDiff content (fixesBefore vfs env n)

section Proofs

variable {vfs : List VerificationFunction} {maxRounds : ℕ} {mergedDiff : D} {content : C}
  {env : ℕ → Round C} {diffOf : C → D}

def ran (vfs : List VerificationFunction) (round : Round C) : List (VerificationFunction × Bool) :=
  vfs.zipIdx.map fun p => (p.1, passes (round.verdicts p.2))

theorem getElem?_ran (round : Round C) (i : ℕ) :
    (ran vfs round)[i]? = vfs[i]?.map fun vf => (vf, passes (round.verdicts i)) := by
  rw [ran, List.getElem?_map, List.getElem?_zipIdx]
  cases vfs[i]? with
  | none => rfl
  | some vf =>
    show some (vf, passes (round.verdicts (0 + i))) = _
    rw [Nat.zero_add]
    rfl

theorem foldl_push (ps : List (VerificationFunction × ℕ)) (verdicts : ℕ → Verdict) (t : Tally) :
    let t' := ps.foldl (fun t p => t.push p.1 (verdicts p.2)) t
    t'.passed = t.passed ++ (ps.filter fun p => passes (verdicts p.2)).map (·.1.id) ∧
    t'.failed = t.failed ++ (ps.filter fun p => !passes (verdicts p.2)).map (·.1.id) ∧
    t'.failures.length =
      t.failures.length + (ps.filter fun p => !passes (verdicts p.2)).length := by
  induction ps generalizing t with
  | nil => exact ⟨(List.append_nil _).symm, (List.append_nil _).symm, rfl⟩
  | cons p ps ih =>
    obtain ⟨hpassed, hfailed, hfailures⟩ := ih (t.push p.1 (verdicts p.2))
    rw [List.foldl_cons]
    refine ⟨hpassed.trans ?_, hfailed.trans ?_, hfailures.trans ?_⟩
    all_goals
      cases hv : verdicts p.2 with
      | error e => simp [Tally.push, passes, hv]; try omega
      | ok r => cases hr : r.passed <;> simp [Tally.push, passes, hv, hr]; try omega

theorem map_snd_zipIdx {α : Type*} (l : List α) : l.zipIdx.map Prod.snd = List.range l.length := by
  rw [List.zipIdx_map_snd, List.range_eq_range']

theorem length_failing (round : Round C) :
    (vfs.zipIdx.filter fun p => !passes (round.verdicts p.2)).length =
      (failing vfs round).length := by
  rw [failing, ← map_snd_zipIdx vfs, List.filter_map, List.length_map]
  rfl

theorem length_failures (round : Round C) :
    (tally vfs round.verdicts).failures.length = (failing vfs round).length := by
  rw [← length_failing]
  exact (foldl_push _ _ _).2.2.trans (Nat.zero_add _)

theorem failing_eq_nil {round : Round C} : failing vfs round = [] ↔ Passes vfs round := by
  rw [failing, List.filter_eq_nil_iff]
  simp only [List.mem_range, Bool.not_eq_true', Bool.not_eq_false]
  rfl

theorem failures_isEmpty {round : Round C} :
    (tally vfs round.verdicts).failures.isEmpty = true ↔ Passes vfs round := by
  rw [List.isEmpty_iff_length_eq_zero, length_failures, List.length_eq_zero_iff, failing_eq_nil]

theorem tally_failed_eq_nil {round : Round C} :
    (tally vfs round.verdicts).failed = [] ↔ Passes vfs round := by
  have hlen : (tally vfs round.verdicts).failed.length = (failing vfs round).length := by
    rw [tally, (foldl_push _ _ _).2.1, List.nil_append, List.length_map, length_failing]
  rw [← failing_eq_nil, ← List.length_eq_zero_iff, hlen, List.length_eq_zero_iff]

theorem tally_passed {round : Round C} (h : Passes vfs round) :
    (tally vfs round.verdicts).passed = vfs.map (·.id) := by
  have hall : (vfs.zipIdx.filter fun p => passes (round.verdicts p.2)) = vfs.zipIdx := by
    refine List.filter_eq_self.mpr fun p hp => h p.2 ?_
    have hmem : p.2 ∈ vfs.zipIdx.map Prod.snd := List.mem_map_of_mem hp
    rwa [map_snd_zipIdx, List.mem_range] at hmem
  rw [tally, (foldl_push _ _ _).1, hall, List.nil_append]
  show vfs.zipIdx.map ((·.id) ∘ Prod.fst) = _
  rw [← List.map_map, List.zipIdx_map_fst]

theorem ran_of_passes {round : Round C} :
    ran vfs round = vfs.map (fun vf => (vf, true)) ↔ Passes vfs round := by
  constructor
  · intro h i hi
    have hget : (ran vfs round)[i]? = _ := getElem?_ran round i
    rw [h, List.getElem?_map, List.getElem?_eq_getElem hi] at hget
    exact (congrArg Prod.snd (Option.some.inj hget)).symm
  · intro h
    refine List.ext_getElem? fun i => ?_
    rw [getElem?_ran, List.getElem?_map]
    by_cases hi : i < vfs.length
    · rw [List.getElem?_eq_getElem hi, h i hi]
    · rw [List.getElem?_eq_none (Nat.le_of_not_lt hi)]
      rfl

theorem fixAll_eq (failures : List (TaskId × String × String)) (fixes : ℕ → List (Fix C))
    (s : State C D) : fixAll diffOf failures fixes s =
      ((List.range failures.length).flatMap fixes).foldl (Fix.apply diffOf) s := by
  rw [List.foldl_flatMap, ← map_snd_zipIdx, List.foldl_map]
  rfl

def shown (diffOf : C → D) (mergedDiff : D) (content : C) (fixes : List (Fix C)) : D :=
  (fixes.foldl (fun p fix => (fix.contentAfter p.1,
    if fix.refreshed then diffOf (fix.contentAfter p.1) else p.2)) (content, mergedDiff)).2

theorem foldl_apply (fixes : List (Fix C)) (s : State C D) :
    fixes.foldl (Fix.apply diffOf) s = { s with
      content := contentAfter s.content fixes
      currentMergedDiff := shown diffOf s.currentMergedDiff s.content fixes } := by
  induction fixes generalizing s with
  | nil => rfl
  | cons fix fixes ih =>
    rw [List.foldl_cons, ih]
    cases fix with
    | noAgent | noDiff | applyFailed => rfl
    | applied c refreshed => cases refreshed <;> rfl

theorem foldl_shown (diffOf : C → D) (fixes : List (Fix C)) (p : C × D) :
    (fixes.foldl (fun p fix => (fix.contentAfter p.1,
      if fix.refreshed then diffOf (fix.contentAfter p.1) else p.2)) p).1 =
      contentAfter p.1 fixes := by
  induction fixes generalizing p with
  | nil => rfl
  | cons fix fixes ih => exact ih _

theorem contentAfter_append (content : C) (fixes fixes' : List (Fix C)) :
    contentAfter content (fixes ++ fixes') = contentAfter (contentAfter content fixes) fixes' :=
  List.foldl_append

theorem shown_append (fixes fixes' : List (Fix C)) :
    shown diffOf mergedDiff content (fixes ++ fixes') =
      shown diffOf (shown diffOf mergedDiff content fixes) (contentAfter content fixes) fixes' := by
  rw [shown, List.foldl_append, ← foldl_shown diffOf fixes (content, mergedDiff)]
  rfl

theorem shown_of_unrefreshed {fixes : List (Fix C)} (h : ∀ fix ∈ fixes, fix.refreshed = false)
    (mergedDiff : D) (content : C) : shown diffOf mergedDiff content fixes = mergedDiff := by
  induction fixes generalizing content with
  | nil => rfl
  | cons fix fixes ih =>
    obtain ⟨hfix, hfixes⟩ := List.forall_mem_cons.mp h
    have hcons : shown diffOf mergedDiff content ([fix] ++ fixes) = _ := shown_append [fix] fixes
    have hone : shown diffOf mergedDiff content [fix] = mergedDiff := by
      show (if fix.refreshed then _ else mergedDiff) = mergedDiff
      rw [hfix]
      rfl
    rw [List.singleton_append, hone, ih hfixes] at hcons
    exact hcons

theorem shown_of_refreshed {before : List (Fix C)} {fix : Fix C} (hlast : before.getLast? = some fix)
    (h : fix.refreshed = true) :
    shown diffOf mergedDiff content before = diffOf (contentAfter content before) := by
  obtain ⟨before, rfl⟩ := List.getLast?_eq_some_iff.mp hlast
  rw [shown_append, contentAfter_append]
  show (if fix.refreshed then _ else _) = _
  rw [h]
  rfl

theorem exists_last_refresh (fixes : List (Fix C)) :
    ∃ before after, fixes = before ++ after ∧ (∀ fix ∈ after, fix.refreshed = false) ∧
      (before = [] ∨ ∃ fix, before.getLast? = some fix ∧ fix.refreshed = true) := by
  induction fixes using List.reverseRecOn with
  | nil => exact ⟨[], [], rfl, (fun _ h => nomatch h), .inl rfl⟩
  | append_singleton fixes fix ih =>
    cases hfix : fix.refreshed with
    | true =>
      exact ⟨fixes ++ [fix], [], (List.append_nil _).symm, (fun _ h => nomatch h),
        .inr ⟨fix, List.getLast?_concat, hfix⟩⟩
    | false =>
      obtain ⟨before, after, rfl, hafter, hbefore⟩ := ih
      refine ⟨before, after ++ [fix], List.append_assoc _ _ _, fun fix' hmem => ?_, hbefore⟩
      rcases List.mem_append.mp hmem with hmem | hmem
      · exact hafter fix' hmem
      · rw [List.mem_singleton.mp hmem]
        exact hfix

theorem settled_iff (fixes : List (Fix C)) : Settled diffOf mergedDiff content fixes ↔
    shown diffOf mergedDiff content fixes = diffOf (contentAfter content fixes) := by
  constructor
  · intro h
    obtain ⟨before, after, hsplit, hafter, hbefore⟩ := exists_last_refresh fixes
    obtain ⟨hstart, hrefreshed⟩ := h before after hsplit hafter
    rcases hbefore with hnil | ⟨fix, hlast, hfix⟩
    · rw [← hstart hnil, hsplit, hnil, List.nil_append, shown_of_unrefreshed hafter]
    · rw [← hrefreshed fix hlast hfix, hsplit, shown_append, shown_of_unrefreshed hafter,
        shown_of_refreshed hlast hfix]
  · rintro h before after rfl hafter
    rw [shown_append, shown_of_unrefreshed hafter] at h
    refine ⟨fun hnil => ?_, fun fix hlast hfix => ?_⟩
    · subst hnil
      exact h
    · rw [← h, shown_of_refreshed hlast hfix]

theorem fixesBefore_succ (n : ℕ) : fixesBefore vfs env (n + 1) = fixesBefore vfs env n ++
    (List.range (failing vfs (env n)).length).flatMap (env n).fixes := by
  rw [fixesBefore, List.range_succ, List.flatMap_append, List.flatMap_singleton]
  rfl

def record (vfs : List VerificationFunction) (content : C) (env : ℕ → Round C) (n : ℕ) : Record C :=
  ⟨contentAfter content (fixesBefore vfs env n), ran vfs (env n)⟩

/-- The state before a round. -/
structure Before (diffOf : C → D) (vfs : List VerificationFunction) (mergedDiff : D) (content : C)
    (env : ℕ → Round C) (n : ℕ) (s : State C D) : Prop where
  failed : ∀ m < n, ¬ Passes vfs (env m)
  records : s.records = (List.range n).map (record vfs content env)
  reached : s.content = contentAfter content (fixesBefore vfs env n)
  current : s.currentMergedDiff = shown diffOf mergedDiff content (fixesBefore vfs env n)

/-- The state at the end: `n` rounds were executed, and the last one may have passed. -/
structure After (diffOf : C → D) (vfs : List VerificationFunction) (maxRounds : ℕ) (mergedDiff : D)
    (content : C) (env : ℕ → Round C) (n : ℕ) (s : State C D) : Prop where
  executed : ∀ m, m < n ↔ Executed vfs maxRounds env m
  records : s.records = (List.range n).map (record vfs content env)
  passed : ∀ m < n, Passes vfs (env m) → s.failedTests = [] ∧ s.passedTests = vfs.map (·.id) ∧
    s.currentMergedDiff = shown diffOf mergedDiff content (fixesBefore vfs env m)
  failed : (∀ m < n, ¬ Passes vfs (env m)) → s.failedTests = [] → s.passedTests = []

theorem rounds_after {n round : ℕ} {s : State C D} (hround : round + n = maxRounds)
    (hbefore : n ≠ 0 → Before diffOf vfs mergedDiff content env round s)
    (hlast : n = 0 → (∀ m < round, ¬ Passes vfs (env m)) ∧
      s.records = (List.range round).map (record vfs content env) ∧
      (s.failedTests = [] → s.passedTests = [])) (hstart : round = 0 → s.failedTests = [] ∧
      s.passedTests = []) :
    ∃ k, After diffOf vfs maxRounds mergedDiff content env k
      (rounds diffOf vfs maxRounds env n round s) := by
  induction n generalizing round s with
  | zero =>
    obtain ⟨hfailed, hrecords, hlists⟩ := hlast rfl
    have hround' : round = maxRounds := hround
    refine ⟨round, fun m => ?_, hrecords, fun m hm hpass => absurd hpass (hfailed m hm),
      fun _ => hlists⟩
    rw [hround']
    exact ⟨fun hm => ⟨hm, fun m' hm' => hfailed m' (by omega)⟩, fun h => h.1⟩
  | succ n ih =>
    obtain ⟨hfailed, hrecords, hcontent, hdiff⟩ := hbefore (Nat.succ_ne_zero n)
    have hrecord : s.records ++ [⟨s.content, ran vfs (env round)⟩] =
        (List.range (round + 1)).map (record vfs content env) := by
      rw [List.range_succ, List.map_append, ← hrecords, hcontent]
      rfl
    unfold rounds
    dsimp only
    split
    · next hpass =>
      rw [failures_isEmpty] at hpass
      refine ⟨round + 1, fun m => ?_, hrecord, fun m hm hpass' => ?_, fun hnone => ?_⟩
      · refine ⟨fun hm => ⟨by omega, fun m' hm' => hfailed m' (by omega)⟩, fun h => ?_⟩
        by_contra hm
        exact h.2 round (by omega) hpass
      · have hm' : m = round := by
          by_contra hne
          exact hfailed m (by omega) hpass'
        subst hm'
        exact ⟨tally_failed_eq_nil.mpr hpass, tally_passed hpass, hdiff⟩
      · exact absurd hpass (hnone round (Nat.lt_succ_self round))
    · next hfail =>
      rw [failures_isEmpty] at hfail
      have hfailed' : ∀ m < round + 1, ¬ Passes vfs (env m) := by
        intro m hm hpass
        rcases Nat.lt_succ_iff_lt_or_eq.mp hm with hm | rfl
        · exact hfailed m hm hpass
        · exact hfail hpass
      refine ih (by omega) (fun hn => ?_) (fun hn => ?_) (fun h => absurd h (Nat.succ_ne_zero _))
      · rw [if_pos (show round < maxRounds - 1 by omega), fixAll_eq, length_failures, foldl_apply]
        refine ⟨hfailed', hrecord, ?_, ?_⟩
        · rw [fixesBefore_succ, contentAfter_append, ← hcontent]
        · rw [fixesBefore_succ, shown_append, ← hdiff, ← hcontent]
      · rw [if_neg (show ¬ round < maxRounds - 1 by omega)]
        refine ⟨hfailed', hrecord, fun hnil => ?_⟩
        exact absurd (tally_failed_eq_nil.mp hnil) hfail

theorem finalState_after (diffOf : C → D) (vfs : List VerificationFunction) (maxRounds : ℕ)
    (mergedDiff : D) (content : C) (env : ℕ → Round C) :
    ∃ n, After diffOf vfs maxRounds mergedDiff content env n
      (finalState diffOf vfs maxRounds mergedDiff content env) :=
  rounds_after (Nat.zero_add _) (fun _ => ⟨fun _ hm => absurd hm (Nat.not_lt_zero _), rfl, rfl, rfl⟩)
    (fun _ => ⟨fun _ hm => absurd hm (Nat.not_lt_zero _), rfl, fun _ => rfl⟩) fun _ => ⟨rfl, rfl⟩

theorem determineStatus_passed {failedTests passedTests : List TaskId} {roundsCompleted : ℕ} :
    determineStatus failedTests passedTests roundsCompleted maxRounds = .passed ↔
      failedTests = [] ∧ passedTests ≠ [] := by
  unfold determineStatus
  cases failedTests with
  | nil => cases passedTests <;> simp
  | cons id failedTests =>
    simp only [List.isEmpty_cons, Bool.and_false, Bool.false_eq_true, if_false, reduceCtorEq,
      false_and, iff_false]
    split <;> exact fun h => nomatch h

theorem mem_take_ran {round : Round C} {i : ℕ} {vf : VerificationFunction} :
    (vf, true) ∈ (ran vfs round).take i ↔
      ∃ j < i, vfs[j]? = some vf ∧ passes (round.verdicts j) = true := by
  rw [List.mem_iff_getElem?]
  constructor
  · rintro ⟨j, hj⟩
    rw [List.getElem?_take] at hj
    split at hj
    · next hlt =>
      rw [getElem?_ran] at hj
      obtain ⟨vf', hvf', heq⟩ := Option.map_eq_some_iff.mp hj
      obtain ⟨rfl, hpasses⟩ := Prod.mk.inj heq
      exact ⟨j, hlt, hvf', hpasses⟩
    · cases hj
  · rintro ⟨j, hlt, hvf, hpasses⟩
    refine ⟨j, ?_⟩
    rw [List.getElem?_take, if_pos hlt, getElem?_ran, hvf, ← hpasses]
    rfl

theorem deps_iff (round : Round C) :
    (∀ before vf ok after, ran vfs round = before ++ (vf, ok) :: after →
      ∀ dep ∈ vf.deps, ∃ vf', (vf', true) ∈ before ∧ vf'.id = dep) ↔
    ∀ i vf, vfs[i]? = some vf → ∀ dep ∈ vf.deps,
      ∃ j < i, ∃ vf', vfs[j]? = some vf' ∧ vf'.id = dep ∧ passes (round.verdicts j) = true := by
  constructor
  · intro h i vf hvf dep hdep
    have hget : (ran vfs round)[i]? = _ := getElem?_ran round i
    rw [hvf] at hget
    obtain ⟨hi, hval⟩ := List.getElem?_eq_some_iff.mp hget
    change (ran vfs round)[i] = (vf, passes (round.verdicts i)) at hval
    have hsplit : ran vfs round =
        (ran vfs round).take i ++ (vf, passes (round.verdicts i)) :: (ran vfs round).drop (i + 1) := by
      rw [← hval, ← List.drop_eq_getElem_cons hi, List.take_append_drop]
    obtain ⟨vf', hmem, hid⟩ := h _ _ _ _ hsplit dep hdep
    obtain ⟨j, hlt, hvf', hpasses⟩ := mem_take_ran.mp hmem
    exact ⟨j, hlt, vf', hvf', hid, hpasses⟩
  · intro h before vf ok after hsplit dep hdep
    have hget : (ran vfs round)[before.length]? = _ := getElem?_ran round before.length
    rw [hsplit, List.getElem?_append_right le_rfl, Nat.sub_self] at hget
    obtain ⟨vf', hvf', heq⟩ := Option.map_eq_some_iff.mp hget.symm
    obtain ⟨rfl, -⟩ := Prod.mk.inj heq
    obtain ⟨j, hlt, dep', hdep', hid, hpasses⟩ := h _ _ hvf' dep hdep
    have hmem := mem_take_ran.mpr ⟨j, hlt, hdep', hpasses⟩
    rw [hsplit, List.take_left'] at hmem
    · exact ⟨dep', hmem, hid⟩
    · rfl

theorem Executed.unique {m n : ℕ} (hm : Executed vfs maxRounds env m)
    (hn : Executed vfs maxRounds env n) (hpm : Passes vfs (env m)) (hpn : Passes vfs (env n)) :
    m = n := by
  rcases Nat.lt_trichotomy m n with h | h | h
  · exact absurd hpm (hn.2 m h)
  · exact h
  · exact absurd hpn (hm.2 n h)

end Proofs

/-- **A verification means what it says** exactly when the dependencies of the functions happen
to pass first, and the diff of the sandbox has not changed since it was refreshed. -/
theorem meant_iff (diffOf : C → D) (vfs : List VerificationFunction) (maxRounds : ℕ)
    (mergedDiff : D) (content : C) (env : ℕ → Round C) :
    Meant diffOf vfs (verifySandbox diffOf vfs maxRounds mergedDiff content env) ↔
      Condition diffOf vfs maxRounds mergedDiff content env := by
  by_cases hvfs : vfs = []
  · subst hvfs
    refine ⟨fun _ => ⟨fun _ _ i vf hvf => ?_, fun h => absurd rfl h⟩,
      fun _ => ⟨(fun h => nomatch h), (fun _ h => nomatch h)⟩⟩
    cases hvf
  · obtain ⟨n, hafter⟩ := finalState_after diffOf vfs maxRounds mergedDiff content env
    unfold verifySandbox
    rw [if_neg (by simpa using hvfs)]
    dsimp only
    generalize finalState diffOf vfs maxRounds mergedDiff content env = s at hafter
    have hpassed : ∀ m < n, Passes vfs (env m) →
        determineStatus s.failedTests s.passedTests s.roundsCompleted maxRounds = .passed := by
      intro m hm hpass
      obtain ⟨hfailed, hpassed, -⟩ := hafter.passed m hm hpass
      refine determineStatus_passed.mpr ⟨hfailed, ?_⟩
      rw [hpassed]
      simpa using hvfs
    have hmem : ∀ r, r ∈ s.records ↔ ∃ m < n, record vfs content env m = r := by
      intro r
      rw [hafter.records]
      simp only [List.mem_map, List.mem_range]
    constructor
    · rintro ⟨hmeant, hdeps⟩
      refine ⟨fun m hm => ?_, fun _ m hm hpass => ?_⟩
      · exact (deps_iff (env m)).mp
          (hdeps (record vfs content env m) ((hmem _).mpr ⟨m, (hafter.executed m).mpr hm, rfl⟩))
      · have hlt := (hafter.executed m).mpr hm
        obtain ⟨r, hr, hran, hdiff⟩ := hmeant (hpassed m hlt hpass)
        obtain ⟨m', hlt', rfl⟩ := (hmem r).mp hr
        obtain rfl := hm.unique ((hafter.executed m').mp hlt') hpass (ran_of_passes.mp hran)
        rw [settled_iff, ← (hafter.passed m hlt hpass).2.2]
        exact Option.some.inj hdiff
    · rintro ⟨hdeps, hsettled⟩
      refine ⟨fun hstatus => ?_, fun r hr => ?_⟩
      · have hsome : ∃ m < n, Passes vfs (env m) := by
          by_contra hnone
          push Not at hnone
          obtain ⟨hfailed, hpassed⟩ := determineStatus_passed.mp hstatus
          exact hpassed (hafter.failed hnone hfailed)
        obtain ⟨m, hlt, hpass⟩ := hsome
        refine ⟨record vfs content env m, (hmem _).mpr ⟨m, hlt, rfl⟩, ran_of_passes.mpr hpass, ?_⟩
        rw [(hafter.passed m hlt hpass).2.2]
        exact congrArg some
          ((settled_iff _).mp (hsettled hvfs m ((hafter.executed m).mp hlt) hpass))
      · obtain ⟨m, hlt, rfl⟩ := (hmem r).mp hr
        exact (deps_iff (env m)).mpr (hdeps m ((hafter.executed m).mp hlt))

def buildAndTest : List VerificationFunction :=
  [⟨"build", "cargo build", []⟩, ⟨"test", "cargo test", ["build"]⟩]

/-- Both functions fail before the fixes, and pass after them.  The sandbox holds a number, and
its diff prints it. -/
def fixedOnce (refreshed : Bool) : ℕ → Round ℕ
  | 0 => ⟨fun _ => .ok ⟨false, "error"⟩, fun _ => [.applied 1 refreshed]⟩
  | _ => ⟨fun _ => .ok ⟨true, ""⟩, fun _ => []⟩

/-- A function is run although the one it depends on has failed; and when the refresh fails, the
verification passes with the diff from before the fix. -/
theorem not_meant :
    ¬ Meant toString buildAndTest (verifySandbox toString buildAndTest 3 "0" 0 (fixedOnce true)) ∧
    (verifySandbox toString [⟨"build", "cargo build", []⟩] 3 "0" 0 (fixedOnce false)).1.status =
      .passed ∧
    ¬ Meant toString [⟨"build", "cargo build", []⟩]
      (verifySandbox toString [⟨"build", "cargo build", []⟩] 3 "0" 0 (fixedOnce false)) := by
  refine ⟨fun h => ?_, by decide, fun h => ?_⟩
  · have hrun : (verifySandbox toString buildAndTest 3 "0" 0 (fixedOnce true)).2 =
        [⟨0, [(⟨"build", "cargo build", []⟩, false), (⟨"test", "cargo test", ["build"]⟩, false)]⟩,
          ⟨1, [(⟨"build", "cargo build", []⟩, true), (⟨"test", "cargo test", ["build"]⟩, true)]⟩] := rfl
    obtain ⟨vf', hmem, -⟩ := h.deps _ (hrun ▸ List.mem_cons_self) [_] _ _ [] rfl "build"
      List.mem_cons_self
    simp at hmem
  · obtain ⟨r, hr, hran, hdiff⟩ := h.passed (by decide)
    have hrun : (verifySandbox toString [⟨"build", "cargo build", []⟩] 3 "0" 0
        (fixedOnce false)).2 = [⟨0, [(⟨"build", "cargo build", []⟩, false)]⟩,
          ⟨1, [(⟨"build", "cargo build", []⟩, true)]⟩] := rfl
    have hshown : (verifySandbox toString [⟨"build", "cargo build", []⟩] 3 "0" 0
        (fixedOnce false)).1.updatedDiff = some "0" := rfl
    rw [hrun] at hr
    rw [hshown] at hdiff
    rcases List.mem_pair.mp hr with rfl | rfl
    · simp at hran
    · exact absurd hdiff (by decide)

end Loop

end Mowis.Verification
