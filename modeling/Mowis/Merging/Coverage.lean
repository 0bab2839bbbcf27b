import Mowis.Merging.Layers

/-!
# Whether every change reaches the merged diff

* `Covered` — what is promised: a path that an agent with a completed task changed stands in one
  section of the merged diff, unless a review dropped it.
* `NamedOnce` — the path is named once, told from what the agents changed, the entries of the
  replies and the diffs that verification left.
* `sectionPaths_diff`, `sectionPaths_merged` — the paths that the diffs name.
* `covered_iff` — the one holds exactly when the other does for all such paths.
-/

namespace Mowis.Merging

open Mowis.Lib Mowis.Review

/-- The two modes that plan; in the full one the diffs of the sandboxes are reviewed too. -/
inductive Mode where
  | full (cross : Reviewing)
  | standard

def mergedDiff (overflow : Overflow) : Mode → List Sandbox → Option Text
  | .full cross, sandboxes => mergeFull overflow cross sandboxes
  | .standard, sandboxes => mergeStandard overflow sandboxes

def Sandbox.review (overflow : Overflow) (s : Sandbox) : Mode → Option ReviewResult
  | .full _ => (reviewInTime overflow s.reviewing (contributions s.results)).join
  | .standard =>
    if (contributions s.results).length = 1 then none
    else (reviewInTime overflow s.reviewing (contributions s.results)).join

def Sandbox.diff (s : Sandbox) (r : Option ReviewResult) : Option Text :=
  afterVerification s.updatedDiff
    (if (contributions s.results).isEmpty then none
      else some (reviewedDiff (contributions s.results) r))

def sandboxDiffs (overflow : Overflow) (m : Mode) (sandboxes : List Sandbox) :
    List (Text × Text) :=
  sandboxes.filterMap fun s =>
    ((s.diff (s.review overflow m)).filter (!·.isEmpty)).map fun diff => (s.name, diff)

def crossContributions (overflow : Overflow) (m : Mode) (sandboxes : List Sandbox) :
    List AgentContribution :=
  (sandboxDiffs overflow m sandboxes).map crossContribution

/-- The review of the diffs of the sandboxes, if there was one and it came to a result. -/
def crossReview (overflow : Overflow) (m : Mode) (sandboxes : List Sandbox) :
    Option ReviewResult :=
  match m with
  | .full cross =>
    if (sandboxDiffs overflow m sandboxes).length ≤ 1 then none
    else (reviewInTime overflow cross (crossContributions overflow m sandboxes)).join
  | .standard => none

def changedPaths (results : List AgentWorkResult) : List Text :=
  (results.filter (·.success)).flatMap fun awr => sectionPaths (awr.gitDiff.getD [])

def Drops (r : ReviewResult) (path : Text) : Prop :=
  ∃ d ∈ r.decisions, bare d.filePath = path ∧ d.keeps = false

def Dropped (overflow : Overflow) (m : Mode) (sandboxes : List Sandbox) (path : Text) : Prop :=
  (∃ s ∈ sandboxes, ∃ r, s.review overflow m = some r ∧ Drops r path) ∨
    ∃ r, crossReview overflow m sandboxes = some r ∧ Drops r path

/-- A path that was changed and not dropped has one section in the merged diff. -/
def Covered (overflow : Overflow) (m : Mode) (sandboxes : List Sandbox) (out : Text) : Prop :=
  ∀ path, (∃ s ∈ sandboxes, path ∈ changedPaths s.results) →
    ¬ Dropped overflow m sandboxes path → (sectionPaths out).count path = 1

/-- What contributions name: every path of a change, and where there was a review every path once,
and besides what surplus entries of the reply name. -/
def named (overflow : Overflow) (env : Reviewing) (cs : List AgentContribution) :
    Option ReviewResult → List Text
  | some _ => decidedPaths env.llm cs ((detect overflow env.detectOrder cs).getD [])
  | none => cs.flatMap fun c => c.fileChanges.map fun fc => bare fc.filePath

def KeepsNone (cs : List AgentContribution) (r : Option ReviewResult) : Bool :=
  r.any fun result => (keptPaths cs result.decisions).isEmpty

/-- What a sandbox names: a diff that the verification left replaces what its agents changed, unless
there was nothing to verify. -/
def Sandbox.named (overflow : Overflow) (s : Sandbox) (r : Option ReviewResult) : List Text :=
  let cs := contributions s.results
  match s.updatedDiff.filter (!·.isEmpty) with
  | none => Merging.named overflow s.reviewing cs r
  | some updated => if cs.isEmpty || KeepsNone cs r then [] else sectionPaths updated

/-- In the full mode the contributions to the last review name the path once, or where there was
none the sandboxes do among them.  In the standard mode the first sandbox with a contribution names
it once. -/
def NamedOnce (overflow : Overflow) (m : Mode) (sandboxes : List Sandbox) (path : Text) : Prop :=
  match m with
  | .full cross =>
    match crossReview overflow m sandboxes with
    | some r =>
      (named overflow cross (crossContributions overflow m sandboxes) (some r)).count path = 1
    | none =>
      (sandboxes.map fun s => (s.named overflow (s.review overflow m)).count path).sum = 1
  | .standard =>
    ∃ s, sandboxes.find? (fun s => !(contributions s.results).isEmpty) = some s ∧
      (s.named overflow (s.review overflow m)).count path = 1

theorem parsed_contributions (results : List AgentWorkResult) :
    Parsed (contributions results) := by
  intro c hc
  obtain ⟨awr, -, rfl⟩ := List.mem_map.mp hc
  rfl

theorem parsed_cross (diffs : List (Text × Text)) : Parsed (diffs.map crossContribution) := by
  intro c hc
  obtain ⟨d, -, rfl⟩ := List.mem_map.mp hc
  rfl

theorem rawDiff_ne_nil {results : List AgentWorkResult} {c : AgentContribution}
    (hc : c ∈ contributions results) : c.rawDiff ≠ [] := by
  obtain ⟨awr, hawr, rfl⟩ := List.mem_map.mp hc
  have hfull := (List.mem_filter.mp hawr).2
  cases hdiff : awr.gitDiff with
  | none =>
    rw [hdiff] at hfull
    cases hfull
  | some diff =>
    rw [hdiff] at hfull
    simpa [AgentWorkResult.contribution, hdiff] using hfull

/-- What is left of the paths of contributions: those that the review keeps, or all of them. -/
def leftPaths (cs : List AgentContribution) : Option ReviewResult → List Text
  | some r => keptPaths cs r.decisions
  | none => cs.flatMap fun c => c.fileChanges.map fun fc => bare fc.filePath

def Sandbox.paths (s : Sandbox) (r : Option ReviewResult) : List Text :=
  let cs := contributions s.results
  match s.updatedDiff.filter (!·.isEmpty) with
  | none => leftPaths cs r
  | some updated => if cs.isEmpty || KeepsNone cs r then [] else sectionPaths updated

theorem sectionPaths_fallbackDiff {cs : List AgentContribution} (h : Parsed cs) :
    sectionPaths (fallbackDiff cs) =
      cs.flatMap fun c => c.fileChanges.map fun fc => bare fc.filePath := by
  rw [fallbackDiff, sectionPaths_joinLines, List.flatMap_map]
  refine List.flatMap_congr fun c hc => ?_
  rw [h c hc, sectionPaths_parsed]

theorem of_reviewInTime {overflow : Overflow} {env : Reviewing} {cs : List AgentContribution}
    {result : ReviewResult} (h : reviewInTime overflow env cs = some (some result)) :
    ∃ conflicts, detect overflow env.detectOrder cs = some conflicts ∧
      review overflow env.order env.llm cs conflicts = some (.ok result) := by
  obtain ⟨conflicts, hdetect, hreview⟩ := Option.bind_eq_some_iff.mp h
  refine ⟨conflicts, hdetect, ?_⟩
  split at hreview
  · obtain ⟨out, hout, htwo⟩ := Option.map_eq_some_iff.mp hreview
    cases out with
    | error e => cases htwo
    | ok result' =>
      cases htwo
      exact hout
  · cases hreview

def ReviewOf (overflow : Overflow) (env : Reviewing) (cs : List AgentContribution)
    (r : Option ReviewResult) : Prop :=
  ∀ result, r = some result → reviewInTime overflow env cs = some (some result)

section Reviewed

variable {overflow : Overflow} {env : Reviewing} {cs : List AgentContribution}
  {r : Option ReviewResult}

theorem reviewOf_none : ReviewOf overflow env cs none := fun _ h => by cases h

theorem reviewOf_join : ReviewOf overflow env cs (reviewInTime overflow env cs).join :=
  fun _ h => Option.join_eq_some_iff.mp h

theorem sectionPaths_reviewedDiff (h : Parsed cs) (hr : ReviewOf overflow env cs r) :
    sectionPaths (reviewedDiff cs r) = leftPaths cs r := by
  cases r with
  | none => exact sectionPaths_fallbackDiff h
  | some result =>
    obtain ⟨conflicts, hdetect, hreview⟩ := of_reviewInTime (hr result rfl)
    exact sectionPaths_review h hdetect hreview

theorem reviewedDiff_isEmpty (h : Parsed cs) (hne : cs ≠ []) (hraw : ∀ c ∈ cs, c.rawDiff ≠ [])
    (hr : ReviewOf overflow env cs r) :
    (reviewedDiff cs r).isEmpty = KeepsNone cs r := by
  cases r with
  | none =>
    obtain ⟨c, cs', rfl⟩ := List.exists_cons_of_ne_nil hne
    have hfull : fallbackDiff (c :: cs') ≠ [] := by
      have hc := hraw c List.mem_cons_self
      cases cs' with
      | nil => simpa [fallbackDiff, joinLines] using hc
      | cons c' cs' => simp [fallbackDiff, joinLines, List.intercalate]
    exact List.isEmpty_eq_false_iff.mpr hfull
  | some result =>
    have hpaths := sectionPaths_reviewedDiff h hr
    obtain ⟨conflicts, hdetect, hreview⟩ := of_reviewInTime (hr result rfl)
    rw [KeepsNone, Option.any_some, Bool.eq_iff_iff, List.isEmpty_iff, List.isEmpty_iff]
    constructor
    · intro hnil
      rw [hnil, sectionPaths_nil] at hpaths
      exact hpaths.symm
    · exact finalDiff_eq_nil h hdetect hreview

end Reviewed

theorem leftPaths_nil (r : Option ReviewResult) : leftPaths [] r = [] := by
  cases r with
  | none => rfl
  | some result =>
    have hnone : (result.decisions.filter fun d =>
        d.keeps && (touchedPaths []).contains d.filePath) = [] :=
      List.filter_eq_nil_iff.mpr fun d _ => by simp [touchedPaths]
    rw [leftPaths, keptPaths, hnone]
    rfl

theorem sectionPaths_diff {overflow : Overflow} (s : Sandbox) {r : Option ReviewResult}
    (hr : ReviewOf overflow s.reviewing (contributions s.results) r) :
    (s.diff r).elim [] sectionPaths = s.paths r := by
  rw [Sandbox.diff, Sandbox.paths]
  by_cases hnil : contributions s.results = []
  · rw [hnil, leftPaths_nil]
    cases s.updatedDiff.filter (!·.isEmpty) <;> rfl
  · have hcs : (contributions s.results).isEmpty = false := List.isEmpty_eq_false_iff.mpr hnil
    have hempty := reviewedDiff_isEmpty (parsed_contributions s.results) hnil
      (fun c hc => rawDiff_ne_nil hc) hr
    have hpaths := sectionPaths_reviewedDiff (parsed_contributions s.results) hr
    rw [hcs, if_neg Bool.false_ne_true, afterVerification, Option.map_some, Option.elim_some,
      hempty]
    cases hgone : KeepsNone (contributions s.results) r with
    | true =>
      have hleft : leftPaths (contributions s.results) r = [] := by
        obtain ⟨result, rfl, hkeeps⟩ := (Option.any_eq_true _ _).mp hgone
        exact List.isEmpty_iff.mp hkeeps
      rw [if_pos rfl, hpaths, hleft]
      cases s.updatedDiff.filter (!·.isEmpty) <;> rfl
    | false =>
      rw [if_neg Bool.false_ne_true]
      cases s.updatedDiff.filter (!·.isEmpty) with
      | none => exact hpaths
      | some updated => rfl

theorem mapM_eq_map {α β : Type} {f : α → Option β} {g : α → β}
    (hfg : ∀ x y, f x = some y → y = g x) {l : List α} {ys : List β} (h : l.mapM f = some ys) :
    ys = l.map g := by
  induction l generalizing ys with
  | nil =>
    cases h
    rfl
  | cons x l ih =>
    rw [List.mapM_cons] at h
    obtain ⟨y, hy, h⟩ := Option.bind_eq_some_iff.mp h
    obtain ⟨rest, hrest, h⟩ := Option.bind_eq_some_iff.mp h
    cases h
    rw [List.map_cons, hfg x y hy, ih hrest]

theorem mergeSandbox_eq {overflow : Overflow} {s : Sandbox} {merged : Option Text}
    (h : mergeSandbox overflow s = some merged) (cross : Reviewing) :
    afterVerification s.updatedDiff merged = s.diff (s.review overflow (.full cross)) := by
  rw [Sandbox.diff, Sandbox.review]
  rw [mergeSandbox] at h
  split at h
  · next hnil =>
    cases h
    rw [if_pos hnil]
  · next hne =>
    obtain ⟨r, hr, rfl⟩ := Option.map_eq_some_iff.mp h
    rw [if_neg hne, hr]
    rfl

theorem mergeSandboxStandard_eq {overflow : Overflow} {s : Sandbox} {merged : Option Text}
    (h : mergeSandboxStandard overflow s = some merged) :
    afterVerification s.updatedDiff merged = s.diff (s.review overflow .standard) := by
  rw [Sandbox.diff, Sandbox.review]
  rw [mergeSandboxStandard] at h
  split at h
  · next hnil =>
    cases h
    rw [hnil]
    rfl
  · next c hone =>
    cases h
    have hdiff : joinLines [c.rawDiff] = c.rawDiff := List.intercalate_singleton
    rw [hone, if_pos List.length_singleton]
    exact congrArg (afterVerification s.updatedDiff) (congrArg some hdiff.symm)
  · next cs hnil hone =>
    obtain ⟨r, hr, rfl⟩ := Option.map_eq_some_iff.mp h
    have hlen : (contributions s.results).length ≠ 1 := fun hlen => by
      obtain ⟨c, hc⟩ := List.length_eq_one_iff.mp hlen
      exact hone c hc
    have hfull : ¬ (contributions s.results).isEmpty = true := fun hempty =>
      hnil (List.isEmpty_iff.mp hempty)
    rw [if_neg hlen, if_neg hfull, hr]
    rfl

theorem crossMerge_eq {overflow : Overflow} {cross : Reviewing} {sandboxes : List Sandbox}
    {out : Text}
    (h : crossMerge overflow cross (sandboxDiffs overflow (.full cross) sandboxes) = some out) :
    out = reviewedDiff (crossContributions overflow (.full cross) sandboxes)
      (crossReview overflow (.full cross) sandboxes) := by
  rw [crossReview, crossContributions]
  unfold crossMerge at h
  split at h
  · next hnil =>
    cases h
    rw [hnil]
    rfl
  · next name diff hone =>
    cases h
    rw [hone, if_pos (by simp)]
    exact (List.intercalate_singleton : joinLines [out] = out).symm
  · next diffs hnil hone =>
    obtain ⟨r, hr, rfl⟩ := Option.map_eq_some_iff.mp h
    have hlen : ¬ (sandboxDiffs overflow (.full cross) sandboxes).length ≤ 1 := fun hlen => by
      rcases Nat.le_one_iff_eq_zero_or_eq_one.mp hlen with hzero | hlen
      · exact hnil (List.length_eq_zero_iff.mp hzero)
      · obtain ⟨⟨name, diff⟩, hd⟩ := List.length_eq_one_iff.mp hlen
        exact hone name diff hd
    rw [if_neg hlen, hr]
    rfl

theorem mergeFull_eq {overflow : Overflow} {cross : Reviewing} {sandboxes : List Sandbox}
    {out : Text} (h : mergeFull overflow cross sandboxes = some out) :
    out = reviewedDiff (crossContributions overflow (.full cross) sandboxes)
      (crossReview overflow (.full cross) sandboxes) := by
  obtain ⟨results, hresults, hmerge⟩ := Option.bind_eq_some_iff.mp h
  have hall : results = sandboxes.map fun s =>
      (s.name, s.diff (s.review overflow (.full cross))) := by
    refine mapM_eq_map (fun s y hy => ?_) hresults
    obtain ⟨merged, hmerged, rfl⟩ := Option.map_eq_some_iff.mp hy
    rw [mergeSandbox_eq hmerged cross]
  rw [hall, List.filterMap_map] at hmerge
  exact crossMerge_eq hmerge

theorem mergeStandard_eq {overflow : Overflow} {sandboxes : List Sandbox} {out : Text}
    (h : mergeStandard overflow sandboxes = some out) :
    out = (sandboxes.findSome? fun s => s.diff (s.review overflow .standard)).getD [] := by
  obtain ⟨results, hresults, rfl⟩ := Option.map_eq_some_iff.mp h
  have hall : results = sandboxes.map fun s => s.diff (s.review overflow .standard) := by
    refine mapM_eq_map (fun s y hy => ?_) hresults
    obtain ⟨merged, hmerged, rfl⟩ := Option.map_eq_some_iff.mp hy
    exact mergeSandboxStandard_eq hmerged
  rw [hall, List.findSome?_map]
  rfl

theorem Sandbox.reviewOf (overflow : Overflow) (s : Sandbox) (m : Mode) :
    ReviewOf overflow s.reviewing (contributions s.results) (s.review overflow m) := by
  cases m with
  | full cross => exact reviewOf_join
  | standard =>
    rw [Sandbox.review]
    split
    · exact reviewOf_none
    · exact reviewOf_join

theorem crossReviewOf (overflow : Overflow) (cross : Reviewing) (sandboxes : List Sandbox) :
    ReviewOf overflow cross (crossContributions overflow (.full cross) sandboxes)
      (crossReview overflow (.full cross) sandboxes) := by
  rw [crossReview]
  split
  · exact reviewOf_none
  · exact reviewOf_join

theorem leftPaths_cross (overflow : Overflow) (m : Mode) (sandboxes : List Sandbox) :
    leftPaths (crossContributions overflow m sandboxes) none =
      sandboxes.flatMap fun s => s.paths (s.review overflow m) := by
  rw [leftPaths, crossContributions, List.flatMap_map, sandboxDiffs]
  induction sandboxes with
  | nil => rfl
  | cons s rest ih =>
    rw [List.flatMap_cons, ← ih, ← sectionPaths_diff s (s.reviewOf overflow m), List.filterMap_cons]
    cases s.diff (s.review overflow m) with
    | none => rfl
    | some diff =>
      cases diff with
      | nil =>
        rw [Option.elim_some, sectionPaths_nil]
        rfl
      | cons c cs =>
        exact congrArg (· ++ _) (sectionPaths_parsed (c :: cs))

theorem sectionPaths_mergeFull {overflow : Overflow} {cross : Reviewing}
    {sandboxes : List Sandbox} {out : Text} (h : mergeFull overflow cross sandboxes = some out) :
    sectionPaths out = leftPaths (crossContributions overflow (.full cross) sandboxes)
      (crossReview overflow (.full cross) sandboxes) := by
  rw [mergeFull_eq h]
  exact sectionPaths_reviewedDiff (parsed_cross _) (crossReviewOf overflow cross sandboxes)

theorem diff_isSome (s : Sandbox) (r : Option ReviewResult) :
    (s.diff r).isSome = !(contributions s.results).isEmpty := by
  rw [Sandbox.diff, afterVerification]
  cases (contributions s.results).isEmpty <;> rfl

theorem sectionPaths_mergeStandard {overflow : Overflow} {sandboxes : List Sandbox} {out : Text}
    (h : mergeStandard overflow sandboxes = some out) :
    sectionPaths out = (sandboxes.find? fun s => !(contributions s.results).isEmpty).elim []
      fun s => s.paths (s.review overflow .standard) := by
  rw [mergeStandard_eq h]
  clear h
  induction sandboxes with
  | nil => exact sectionPaths_nil
  | cons s rest ih =>
    have hsome := diff_isSome s (s.review overflow .standard)
    have hpaths := sectionPaths_diff s (s.reviewOf overflow .standard)
    rw [List.findSome?_cons, List.find?_cons, ← hsome]
    cases hdiff : s.diff (s.review overflow .standard) with
    | none => exact ih
    | some diff =>
      rw [hdiff] at hpaths
      exact hpaths

theorem count_leftPaths {overflow : Overflow} {env : Reviewing} {cs : List AgentContribution}
    {r : Option ReviewResult} (hr : ReviewOf overflow env cs r) {path : Text}
    (hkept : ∀ result, r = some result → ¬ Drops result path) :
    (leftPaths cs r).count path = (named overflow env cs r).count path := by
  cases r with
  | none => rfl
  | some result =>
    obtain ⟨conflicts, hdetect, hreview⟩ := of_reviewInTime (hr result rfl)
    rw [leftPaths, named, hdetect, Option.getD_some]
    refine count_keptPaths hdetect hreview fun d hd hpath => ?_
    by_contra hdrops
    exact hkept result rfl ⟨d, hd, hpath, Bool.eq_false_iff.mpr hdrops⟩

theorem count_paths {overflow : Overflow} {m : Mode} {sandboxes : List Sandbox} {path : Text}
    (hkept : ¬ Dropped overflow m sandboxes path) {s : Sandbox} (hs : s ∈ sandboxes) :
    (s.paths (s.review overflow m)).count path =
      (s.named overflow (s.review overflow m)).count path := by
  rw [Sandbox.paths, Sandbox.named]
  split
  · exact count_leftPaths (s.reviewOf overflow m) fun result hresult hdrops =>
      hkept (.inl ⟨s, hs, result, hresult, hdrops⟩)
  · rfl

theorem count_merged_iff {overflow : Overflow} {m : Mode} {sandboxes : List Sandbox} {out : Text}
    (h : mergedDiff overflow m sandboxes = some out) {path : Text}
    (hkept : ¬ Dropped overflow m sandboxes path) :
    (sectionPaths out).count path = 1 ↔ NamedOnce overflow m sandboxes path := by
  cases m with
  | full cross =>
    rw [sectionPaths_mergeFull h, NamedOnce]
    cases hcross : crossReview overflow (.full cross) sandboxes with
    | some result =>
      have hreview := crossReviewOf overflow cross sandboxes
      rw [hcross] at hreview
      rw [count_leftPaths hreview fun result' hresult hdrops =>
        hkept (.inr ⟨result', hcross.trans hresult, hdrops⟩)]
    | none =>
      rw [leftPaths_cross, List.count_flatMap]
      have hsame : sandboxes.map (List.count path ∘ fun s =>
            s.paths (s.review overflow (.full cross))) =
          sandboxes.map fun s =>
            (s.named overflow (s.review overflow (.full cross))).count path :=
        List.map_congr_left fun s hs => count_paths hkept hs
      rw [hsame]
  | standard =>
    rw [sectionPaths_mergeStandard h, NamedOnce]
    cases hfind : sandboxes.find? fun s => !(contributions s.results).isEmpty with
    | none => simp
    | some s =>
      rw [Option.elim_some, count_paths hkept (List.mem_of_find?_eq_some hfind)]
      simp

/-- **Whether every change reaches the merged diff.**  In either mode, for any sandboxes, results,
replies, failures and delays of the reviews, and whatever verification leaves: the paths that are
changed and not dropped have one section each exactly when each of them is named once. -/
theorem covered_iff {overflow : Overflow} {m : Mode} {sandboxes : List Sandbox} {out : Text}
    (h : mergedDiff overflow m sandboxes = some out) :
    Covered overflow m sandboxes out ↔
      ∀ path, (∃ s ∈ sandboxes, path ∈ changedPaths s.results) →
        ¬ Dropped overflow m sandboxes path → NamedOnce overflow m sandboxes path :=
  forall_congr' fun _ => imp_congr_right fun _ => forall_congr' fun hkept =>
    count_merged_iff h hkept

def fileDiff (name : Char) : Text :=
  "diff --git a/".toList ++ name :: (" b/".toList ++ name :: "\n@@ -1 +1 @@\n-p\n+q\n".toList)

def edited (names : List Char) : AgentWorkResult where
  taskId := names
  success := true
  gitDiff := some (names.flatMap fileDiff)
  taskDescription := names

def silentLlm : Llm where
  generateText _ _ _ := .error "no answer".toList
  fromStr _ := none

def sandboxOf (names : List Char) : Sandbox where
  name := names
  results := [edited names]
  reviewing := ⟨.stored, .stored, silentLlm, true⟩
  updatedDiff := none

theorem changedPaths_sandboxOf (names : List Char) :
    changedPaths (sandboxOf names).results = sectionPaths (names.flatMap fileDiff) :=
  List.append_nil _

theorem contributions_sandboxOf {name : Char} {names : List Char} :
    contributions (sandboxOf (name :: names)).results = [(edited (name :: names)).contribution] :=
  rfl

theorem named_sandboxOf (overflow : Overflow) (name : Char) (names : List Char) :
    (sandboxOf (name :: names)).named overflow none =
      sectionPaths ((name :: names).flatMap fileDiff) := by
  rw [Sandbox.named, contributions_sandboxOf]
  exact (List.append_nil _).trans (sectionPaths_parsed _)

theorem review_sandboxOf (overflow : Overflow) (name : Char) (names : List Char) :
    (sandboxOf (name :: names)).review overflow .standard = none := rfl

theorem covered_one_sandbox : Covered .panics .standard [sandboxOf ['f', 'g']]
    (fileDiff 'f' ++ fileDiff 'g') := by
  refine (covered_iff rfl).mpr fun path hchanged _ => ⟨sandboxOf ['f', 'g'], rfl, ?_⟩
  have hpaths : sectionPaths (['f', 'g'].flatMap fileDiff) = [['f'], ['g']] := by
    rw [sectionPaths_eq]
    decide +kernel
  obtain ⟨s, hs, hpath⟩ := hchanged
  rw [List.mem_singleton.mp hs, changedPaths_sandboxOf, hpaths] at hpath
  rw [review_sandboxOf, named_sandboxOf, hpaths]
  rcases List.mem_pair.mp hpath with rfl | rfl
  · rfl
  · rfl

/-- The diff of the second sandbox is lost. -/
theorem not_covered : ¬ ∀ (overflow : Overflow) (m : Mode) (sandboxes : List Sandbox) (out : Text),
    mergedDiff overflow m sandboxes = some out → Covered overflow m sandboxes out := by
  intro h
  have hkept : ¬ Dropped .panics .standard [sandboxOf ['f'], sandboxOf ['g']] ['g'] := by
    rintro (⟨s, hs, r, hr, -⟩ | ⟨r, hr, -⟩)
    · rcases List.mem_pair.mp hs with rfl | rfl
      · cases hr
      · cases hr
    · cases hr
  have hchanged : ['g'] ∈ changedPaths (sandboxOf ['g']).results := by
    rw [changedPaths_sandboxOf, sectionPaths_eq]
    decide +kernel
  have hcount := h .panics .standard [sandboxOf ['f'], sandboxOf ['g']] (fileDiff 'f') rfl ['g']
    ⟨sandboxOf ['g'], by simp, hchanged⟩ hkept
  rw [sectionPaths_eq] at hcount
  revert hcount
  decide +kernel

end Mowis.Merging
