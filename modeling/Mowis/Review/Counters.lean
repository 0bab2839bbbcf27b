import Mowis.Review.Paths

/-!
# The counters of a review

The counters are raised with every decision, and the summary subtracts them from one another.
-/

namespace Mowis.Review

open Mowis.Lib

def MergeDecision.deletes (d : MergeDecision) : Bool :=
  match d.action with
  | .delete => true
  | _ => false

def MergeDecision.rejects (d : MergeDecision) : Bool :=
  match d.action with
  | .reject _ => true
  | _ => false

def conflictDecisions (llm : Llm) (contributions : List AgentContribution)
    (conflicts : List MergeConflict) : List MergeDecision :=
  if contributions = [] ∨ conflicts = [] then []
  else
    match callLlm llm (buildConflictPrompt conflicts (FileMap.build contributions)
      contributions) with
    | .error _ => []
    | .ok llmRaw => parseLlmDecisions llm.fromStr llmRaw conflicts

def undisputed (contributions : List AgentContribution) (conflicts : List MergeConflict) :
    List Text :=
  (touchedPaths contributions).filter fun path => !(conflicts.map (·.filePath)).contains path

structure Books (order : IterOrder Text) (llm : Llm) (contributions : List AgentContribution)
    (conflicts : List MergeConflict) : Prop where
  decisions : ∀ {mode r}, review mode order llm contributions conflicts = some (.ok r) →
    r.filesAccepted + r.filesRejected + r.decisions.countP (·.deletes) = r.decisions.length
  resolved : ∀ {mode r}, review mode order llm contributions conflicts = some (.ok r) →
    r.conflictsResolved = (conflictDecisions llm contributions conflicts).length
  noUnderflow : review .panics order llm contributions conflicts ≠ none

theorem autoAccept_counters {contributions : List AgentContribution} (paths : List Text)
    {ks : List Text} (hks : ∀ k ∈ ks, k ∈ touchedPaths contributions) (st : ReviewState) :
    let st' := ks.foldl (autoAcceptFile (FileMap.build contributions) paths) st
    st'.filesAccepted = st.filesAccepted + (ks.filter fun k => !paths.contains k).length ∧
      st'.conflictsResolved = st.conflictsResolved ∧ st'.filesRejected = st.filesRejected := by
  induction ks generalizing st with
  | nil => exact ⟨rfl, rfl, rfl⟩
  | cons k ks ih =>
    have hrest := ih (fun k' hk' => hks k' (List.mem_cons_of_mem k hk'))
      (autoAcceptFile (FileMap.build contributions) paths st k)
    rw [List.foldl_cons]
    by_cases hk : k ∈ paths
    · have hskip : autoAcceptFile (FileMap.build contributions) paths st k = st := if_pos hk
      rw [hskip] at hrest ⊢
      rwa [List.filter_cons_of_neg (by simpa using hk)]
    · rw [autoAcceptFile_eq hk (hks k List.mem_cons_self)] at hrest ⊢
      obtain ⟨haccepted, hresolved, hrejected⟩ := hrest
      refine ⟨haccepted.trans ?_, hresolved, hrejected⟩
      show st.filesAccepted + 1 + _ = _
      rw [List.filter_cons_of_pos (by simpa using hk), List.length_cons]
      omega

theorem resolve_counters (fileMap : FileMap) (ds : List MergeDecision) (st : ReviewState) :
    let st' := ds.foldl (resolveDecision fileMap) st
    st'.filesAccepted = st.filesAccepted + ds.countP (·.keeps) ∧
      st'.conflictsResolved = st.conflictsResolved + ds.length ∧
      st'.filesRejected = st.filesRejected + ds.countP (·.rejects) := by
  induction ds generalizing st with
  | nil => exact ⟨rfl, rfl, rfl⟩
  | cons d ds ih =>
    obtain ⟨haccepted, hresolved, hrejected⟩ := ih (resolveDecision fileMap st d)
    rw [List.foldl_cons]
    refine ⟨haccepted.trans ?_, hresolved.trans ?_, hrejected.trans ?_⟩
    all_goals
      rw [resolveDecision]
      cases haction : d.action <;>
        simp [MergeDecision.keeps, MergeDecision.rejects, haction] <;> omega

theorem count_kinds (ds : List MergeDecision) :
    ds.countP (·.keeps) + ds.countP (·.rejects) + ds.countP (·.deletes) = ds.length := by
  induction ds with
  | nil => rfl
  | cons d ds ih =>
    rw [List.countP_cons, List.countP_cons, List.countP_cons, List.length_cons, ← ih,
      MergeDecision.keeps, MergeDecision.rejects, MergeDecision.deletes]
    cases d.action <;> simp <;> omega

theorem countP_autoDecisions (contributions : List AgentContribution) (paths ks : List Text) :
    (autoDecisions contributions paths ks).countP (·.deletes) = 0 := by
  refine List.countP_eq_zero.mpr fun d hd => ?_
  obtain ⟨k, -, rfl⟩ := List.mem_map.mp hd
  exact Bool.false_ne_true

theorem length_arranged (order : IterOrder Text) (contributions : List AgentContribution)
    (conflicts : List MergeConflict) :
    ((order.arrange (FileMap.build contributions).keys).filter
        fun k => !(conflicts.map (·.filePath)).contains k).length =
      (undisputed contributions conflicts).length := by
  have hperm : (order.arrange (FileMap.build contributions).keys).Perm
      (touchedPaths contributions) := by
    refine (order.perm _).trans ?_
    exact (List.perm_ext_iff_of_nodup (FileMap.build contributions).keys_nodup
      (nodup_touchedPaths contributions)).mpr fun path => mem_keys_build
  exact (hperm.filter _).length_eq

theorem autoAccept_spec_counters (order : IterOrder Text) (contributions : List AgentContribution)
    (conflicts : List MergeConflict) :
    (autoAccept order contributions conflicts).filesAccepted =
        (undisputed contributions conflicts).length ∧
      (autoAccept order contributions conflicts).conflictsResolved = 0 ∧
      (autoAccept order contributions conflicts).filesRejected = 0 ∧
      (autoAccept order contributions conflicts).allDecisions.length =
        (undisputed contributions conflicts).length ∧
      (autoAccept order contributions conflicts).allDecisions.countP (·.deletes) = 0 := by
  have hks : ∀ k ∈ order.arrange (FileMap.build contributions).keys,
      k ∈ touchedPaths contributions :=
    fun k hk => mem_keys_build.mp ((order.mem_arrange _ k).mp hk)
  obtain ⟨haccepted, hresolved, hrejected⟩ :=
    autoAccept_counters (conflicts.map (·.filePath)) hks .start
  obtain ⟨hdecisions, -⟩ := autoAccept_spec (conflicts.map (·.filePath)) hks .start
  have hlength := length_arranged order contributions conflicts
  refine ⟨haccepted.trans ?_, hresolved, hrejected, ?_, ?_⟩
  · rw [hlength]
    exact Nat.zero_add _
  · refine (congrArg List.length hdecisions).trans ?_
    rw [← hlength]
    simp [ReviewState.start, autoDecisions]
  · refine (congrArg (List.countP (·.deletes)) hdecisions).trans ?_
    rw [List.countP_append, countP_autoDecisions]
    rfl

theorem review_replied {order : IterOrder Text} {llm : Llm}
    {contributions : List AgentContribution} {conflicts : List MergeConflict} {llmRaw : Text}
    (hsome : contributions ≠ []) (hconflicts : conflicts ≠ [])
    (hcall : callLlm llm (buildConflictPrompt conflicts (FileMap.build contributions)
      contributions) = .ok llmRaw) :
    let ds := parseLlmDecisions llm.fromStr llmRaw conflicts
    (∀ {mode r}, review mode order llm contributions conflicts = some (.ok r) →
      r.filesAccepted = (undisputed contributions conflicts).length + ds.countP (·.keeps) ∧
        r.conflictsResolved = ds.length ∧ r.filesRejected = ds.countP (·.rejects) ∧
        r.decisions.length = (undisputed contributions conflicts).length + ds.length ∧
        r.decisions.countP (·.deletes) = ds.countP (·.deletes)) ∧
    (review .panics order llm contributions conflicts ≠ none ↔
      ds.countP (·.deletes) ≤ (undisputed contributions conflicts).length) := by
  intro ds
  obtain ⟨hauto, hautoResolved, hautoRejected, hlength, hdeletes⟩ :=
    autoAccept_spec_counters order contributions conflicts
  obtain ⟨haccepted, hresolved, hrejected⟩ := resolve_counters (FileMap.build contributions) ds
    (autoAccept order contributions conflicts)
  have hdecisions : (resolveAll order contributions conflicts ds).allDecisions =
      (autoAccept order contributions conflicts).allDecisions := resolve_allDecisions _ _ _
  have hkinds := count_kinds ds
  rw [hauto] at haccepted
  rw [hautoResolved, Nat.zero_add] at hresolved
  rw [hautoRejected, Nat.zero_add] at hrejected
  constructor
  · intro mode r h
    rw [review, if_neg hsome] at h
    simp only [if_neg hconflicts, hcall] at h
    split at h
    · cases h
    · cases h
      refine ⟨haccepted, hresolved, hrejected, ?_, ?_⟩
      · show ((resolveAll order contributions conflicts ds).allDecisions ++ ds).length = _
        rw [hdecisions, List.length_append, hlength]
      · show ((resolveAll order contributions conflicts ds).allDecisions ++ ds).countP _ = _
        rw [hdecisions, List.countP_append, hdeletes, Nat.zero_add]
  · rw [review, if_neg hsome]
    simp only [if_neg hconflicts, hcall]
    have hfirst : subUsize .panics (resolveAll order contributions conflicts ds).conflictsResolved
        (resolveAll order contributions conflicts ds).filesRejected =
          some (ds.length - ds.countP (·.rejects)) := by
      rw [subUsize, if_pos]
      · exact congrArg some (congrArg₂ _ hresolved hrejected)
      · exact hresolved ▸ hrejected ▸ List.countP_le_length
    rw [hfirst, Option.bind_some, subUsize]
    have hsecond : ds.length - ds.countP (·.rejects) ≤
        (resolveAll order contributions conflicts ds).filesAccepted ↔
          ds.countP (·.deletes) ≤ (undisputed contributions conflicts).length := by
      rw [show (resolveAll order contributions conflicts ds).filesAccepted = _ from haccepted]
      omega
    by_cases hle : ds.countP (·.deletes) ≤ (undisputed contributions conflicts).length
    · rw [if_pos (hsecond.mpr hle)]
      simp [hle]
    · rw [if_neg (fun h => hle (hsecond.mp h))]
      simp [hle]

/-- **The books of a review.**  For all contributions and conflicts, every order of the files and
every reply of the model: the counters account for all decisions, and no subtraction underflows,
exactly if no more files are to be deleted than are accepted without a conflict. -/
theorem books_iff (order : IterOrder Text) (llm : Llm) (contributions : List AgentContribution)
    (conflicts : List MergeConflict) :
    Books order llm contributions conflicts ↔
      (conflictDecisions llm contributions conflicts).countP (·.deletes) ≤
        (undisputed contributions conflicts).length := by
  by_cases hnone : contributions = []
  · have hreview : ∀ mode, review mode order llm contributions conflicts = some (.ok _) :=
      fun mode => if_pos hnone
    rw [conflictDecisions, if_pos (.inl hnone)]
    refine ⟨fun _ => Nat.zero_le _, fun _ => ⟨?_, ?_, ?_⟩⟩
    · intro mode r h
      cases (hreview mode).symm.trans h
      rfl
    · intro mode r h
      cases (hreview mode).symm.trans h
      rw [conflictDecisions, if_pos (.inl hnone)]
      rfl
    · exact fun h => Option.some_ne_none _ ((hreview .panics).symm.trans h)
  obtain ⟨hauto, -, -, hlength, hdeletes⟩ := autoAccept_spec_counters order contributions conflicts
  by_cases hquiet : conflicts = []
  · have hreview : ∀ mode, review mode order llm contributions conflicts = some (.ok _) :=
      fun mode => (if_neg hnone).trans (if_pos hquiet)
    rw [conflictDecisions, if_pos (.inr hquiet)]
    refine ⟨fun _ => Nat.zero_le _, fun _ => ⟨?_, ?_, ?_⟩⟩
    · intro mode r h
      cases (hreview mode).symm.trans h
      show (autoAccept order contributions conflicts).filesAccepted + 0 +
        (autoAccept order contributions conflicts).allDecisions.countP _ = _
      rw [hauto, hdeletes, hlength, Nat.add_zero]
    · intro mode r h
      cases (hreview mode).symm.trans h
      rw [conflictDecisions, if_pos (.inr hquiet)]
      rfl
    · exact fun h => Option.some_ne_none _ ((hreview .panics).symm.trans h)
  rw [conflictDecisions, if_neg (not_or.mpr ⟨hnone, hquiet⟩)]
  cases hcall : callLlm llm (buildConflictPrompt conflicts (FileMap.build contributions)
      contributions) with
  | error e =>
    have hreview : ∀ mode, review mode order llm contributions conflicts = some (.error e) := by
      intro mode
      rw [review, if_neg hnone]
      simp only [if_neg hquiet, hcall]
    refine ⟨fun _ => Nat.zero_le _, fun _ => ⟨?_, ?_, ?_⟩⟩
    · intro mode r h
      cases (hreview mode).symm.trans h
    · intro mode r h
      cases (hreview mode).symm.trans h
    · exact fun h => Option.some_ne_none _ ((hreview .panics).symm.trans h)
  | ok llmRaw =>
    obtain ⟨hcounters, hwritten⟩ := @review_replied order llm contributions conflicts llmRaw
      hnone hquiet hcall
    refine ⟨fun h => hwritten.mp h.noUnderflow, fun h => ⟨?_, ?_, hwritten.mpr h⟩⟩
    · intro mode r hr
      obtain ⟨haccepted, -, hrejected, hdecisions, hdeleted⟩ := hcounters hr
      have hkinds := count_kinds (parseLlmDecisions llm.fromStr llmRaw conflicts)
      omega
    · intro mode r hr
      rw [conflictDecisions, if_neg (not_or.mpr ⟨hnone, hquiet⟩)]
      simp only [hcall]
      exact (hcounters hr).2.1

def deleteLlm : Llm where
  generateText _ _ _ := .ok ['x']
  fromStr text :=
    if text = ['x'] then
      some [.object [(filePathKey, .string ['f']), (actionKey, .string "delete".toList)]]
    else none

/-- Two agents change one file, no other file is changed, and the file is deleted: the summary
subtracts one from nothing. -/
theorem not_books :
    detect .panics .stored twoEditors = some twoEditorsConflicts ∧
      ¬ Books .stored deleteLlm twoEditors twoEditorsConflicts := by
  refine ⟨by decide +kernel, fun h => h.noUnderflow ?_⟩
  decide +kernel

end Mowis.Review
