import Mowis.Review.Detection
import Mowis.Review.Sections

/-!
# What a review keeps

The decisions and the diff of a review, for every reply of the model.
-/

namespace Mowis.Review

open Mowis.Lib

def touchedPaths (contributions : List AgentContribution) : List Text :=
  ((contributions.flatMap (·.fileChanges)).map (·.filePath)).dedup

def MergeDecision.Kept (d : MergeDecision) : Prop :=
  match d.action with
  | .accept _ => True
  | .merge => True
  | .reject _ => False
  | .delete => False

/-- The diff is that of a contributor of the file, or is made of the merged content. -/
inductive Origin (contributions : List AgentContribution) (d : MergeDecision) : Text → Prop where
  | contributor {c : AgentContribution} {fc : FileChange} (hc : c ∈ contributions)
      (hfc : fc ∈ c.fileChanges) (hpath : fc.filePath = d.filePath) :
      Origin contributions d fc.rawDiff
  | merged {content : Text} (hmerge : d.action = .merge) (hcontent : d.finalContent = some content)
      (hne : content ≠ []) :
      Origin contributions d (synthesizeDiffFromContent d.filePath content)

/-- Nothing is lost, and nothing is decided twice. -/
structure Complete (contributions : List AgentContribution) (r : ReviewResult) : Prop where
  decided : (r.decisions.map (·.filePath)).Perm (touchedPaths contributions)
  once : ((sections r.finalDiff).filterMap sectionPath).Nodup
  kept : ∀ d ∈ r.decisions, d.Kept → d.filePath ∈ touchedPaths contributions →
    ∃ diff, Origin contributions d diff ∧ diff.splitOn '\n' ∈ sections r.finalDiff ∧
      sectionPath (diff.splitOn '\n') = some d.filePath

def repliedDecisions (llm : Llm) (contributions : List AgentContribution)
    (conflicts : List MergeConflict) : List MergeDecision :=
  match callLlm llm (buildConflictPrompt conflicts (FileMap.build contributions) contributions) with
  | .error _ => []
  | .ok llmRaw =>
    match llm.fromStr (cleanReply llmRaw) with
    | none => []
    | some items => items.filterMap decisionOf

/-- No two decisions are about one path, and all are about a path in conflict. -/
structure OnePerConflict (decisions : List MergeDecision) (conflicts : List MergeConflict) :
    Prop where
  nodup : (decisions.map (·.filePath)).Nodup
  conflicting : ∀ d ∈ decisions, d.filePath ∈ conflicts.map (·.filePath)

theorem mem_bucket_build {contributions : List AgentContribution} {path : Text}
    {e : Text × Text × FileChange} :
    e ∈ (FileMap.build contributions).bucket path ↔
      e ∈ FileMap.changes contributions ∧ e.2.2.filePath = path := by
  rw [FileMap.build, HashMap.bucket_groupBy, List.map_id, List.mem_filter, decide_eq_true_eq]

theorem mem_changes {contributions : List AgentContribution} {e : Text × Text × FileChange} :
    e ∈ FileMap.changes contributions ↔
      ∃ c ∈ contributions, ∃ fc ∈ c.fileChanges, (c.agentId, c.taskDescription, fc) = e := by
  simp only [FileMap.changes, List.mem_flatMap, List.mem_map]

theorem mem_touchedPaths {contributions : List AgentContribution} {path : Text} :
    path ∈ touchedPaths contributions ↔
      ∃ c ∈ contributions, ∃ fc ∈ c.fileChanges, fc.filePath = path := by
  simp only [touchedPaths, List.mem_dedup, List.mem_map, List.mem_flatMap]
  constructor
  · intro ⟨fc, ⟨c, hc, hfc⟩, hpath⟩
    exact ⟨c, hc, fc, hfc, hpath⟩
  · intro ⟨c, hc, fc, hfc, hpath⟩
    exact ⟨fc, ⟨c, hc, hfc⟩, hpath⟩

theorem mem_keys_build {contributions : List AgentContribution} {path : Text} :
    path ∈ (FileMap.build contributions).keys ↔ path ∈ touchedPaths contributions := by
  show path ∈ FileMap.build contributions ↔ _
  rw [FileMap.build, HashMap.mem_groupBy, mem_touchedPaths]
  constructor
  · intro ⟨e, he, hpath⟩
    obtain ⟨c, hc, fc, hfc, rfl⟩ := mem_changes.mp he
    exact ⟨c, hc, fc, hfc, hpath⟩
  · intro ⟨c, hc, fc, hfc, hpath⟩
    exact ⟨_, mem_changes.mpr ⟨c, hc, fc, hfc, rfl⟩, hpath⟩

theorem nodup_touchedPaths (contributions : List AgentContribution) :
    (touchedPaths contributions).Nodup := List.nodup_dedup _

theorem bucket_ne_nil {contributions : List AgentContribution} {path : Text}
    (h : path ∈ touchedPaths contributions) : (FileMap.build contributions).bucket path ≠ [] := by
  obtain ⟨c, hc, fc, hfc, hpath⟩ := mem_touchedPaths.mp h
  exact List.ne_nil_of_mem
    (mem_bucket_build.mpr ⟨mem_changes.mpr ⟨c, hc, fc, hfc, rfl⟩, hpath⟩)

def Parsed (contributions : List AgentContribution) : Prop :=
  ∀ c ∈ contributions, c.fileChanges = parseUnifiedDiff c.rawDiff

theorem section_of_entry {contributions : List AgentContribution} (h : Parsed contributions)
    {path : Text} {e : Text × Text × FileChange}
    (he : e ∈ (FileMap.build contributions).bucket path) : SectionDiff e.2.2.rawDiff path := by
  obtain ⟨hmem, hpath⟩ := mem_bucket_build.mp he
  obtain ⟨c, hc, fc, hfc, rfl⟩ := mem_changes.mp hmem
  rw [h c hc] at hfc
  rw [← hpath]
  exact (section_of_parsed hfc).1

theorem headerPath_of_touched {contributions : List AgentContribution} (h : Parsed contributions)
    {path : Text} (hpath : path ∈ touchedPaths contributions) : HeaderPath path := by
  obtain ⟨c, hc, fc, hfc, rfl⟩ := mem_touchedPaths.mp hpath
  rw [h c hc] at hfc
  exact headerPath_of_parsed hfc

theorem SectionDiff.ne_nil {diff path : Text} (h : SectionDiff diff path) : diff ≠ [] := by
  intro hnil
  have hpath := h.path_eq
  rw [hnil] at hpath
  cases hpath

theorem nonemptyDiff_of_section {diff path : Text} (h : SectionDiff diff path) :
    nonemptyDiff diff = some diff := if_neg h.ne_nil

theorem nonemptyDiff_some {diff diff' : Text} (h : nonemptyDiff diff = some diff') :
    diff' = diff ∧ diff ≠ [] := by
  unfold nonemptyDiff at h
  split at h
  · cases h
  · next hne =>
    cases h
    exact ⟨rfl, hne⟩

def decisionDiff (fileMap : FileMap) (d : MergeDecision) : Option Text :=
  (buildDiffForDecision d fileMap).bind nonemptyDiff

theorem lookup_build {contributions : List AgentContribution} {path : Text}
    (h : path ∈ touchedPaths contributions) :
    (FileMap.build contributions).lookup path =
      some ((FileMap.build contributions).bucket path) := by
  have hmem : path ∈ FileMap.build contributions := mem_keys_build.mpr h
  obtain ⟨es, hes⟩ := Option.isSome_iff_exists.mp (AList.lookup_isSome.mpr hmem)
  rw [HashMap.bucket, hes]
  rfl

theorem lookup_build_none {contributions : List AgentContribution} {path : Text}
    (h : path ∉ touchedPaths contributions) :
    (FileMap.build contributions).lookup path = none :=
  AList.lookup_eq_none.mpr fun hmem => h (mem_keys_build.mp hmem)

theorem decisionDiff_some {contributions : List AgentContribution} (h : Parsed contributions)
    {d : MergeDecision} {diff : Text}
    (hdiff : decisionDiff (FileMap.build contributions) d = some diff) :
    SectionDiff diff d.filePath ∧ Origin contributions d diff := by
  have hentry : ∀ e ∈ (FileMap.build contributions).bucket d.filePath, ∀ diff',
      nonemptyDiff e.2.2.rawDiff = some diff' →
      SectionDiff diff' d.filePath ∧ Origin contributions d diff' := by
    intro e he diff' hne
    obtain ⟨rfl, -⟩ := nonemptyDiff_some hne
    refine ⟨section_of_entry h he, ?_⟩
    obtain ⟨hmem, hpath⟩ := mem_bucket_build.mp he
    obtain ⟨c, hc, fc, hfc, rfl⟩ := mem_changes.mp hmem
    exact .contributor hc hfc hpath
  obtain ⟨built, hbuilt, hne⟩ := Option.bind_eq_some_iff.mp hdiff
  obtain ⟨rfl, -⟩ := nonemptyDiff_some hne
  by_cases htouched : d.filePath ∈ touchedPaths contributions
  · have hfirst : ∀ diff', (((FileMap.build contributions).bucket d.filePath).head?.bind
        fun e => nonemptyDiff e.2.2.rawDiff) = some diff' →
        SectionDiff diff' d.filePath ∧ Origin contributions d diff' := by
      intro diff' hsome
      obtain ⟨e, he, hraw⟩ := Option.bind_eq_some_iff.mp hsome
      exact hentry e (List.mem_of_head? he) diff' hraw
    rw [buildDiffForDecision, lookup_build htouched] at hbuilt
    simp only at hbuilt
    split at hbuilt
    · obtain ⟨e, he, hraw⟩ := Option.bind_eq_some_iff.mp hbuilt
      rcases Option.or_eq_some_iff.mp he with hfind | ⟨-, hhead⟩
      · exact hentry e (List.mem_of_find?_eq_some hfind) _ hraw
      · exact hentry e (List.mem_of_head? hhead) _ hraw
    · next hmerge =>
      split at hbuilt
      · next content hcontent =>
        split at hbuilt
        · next hnonempty =>
          cases hbuilt
          exact ⟨section_synthesized (headerPath_of_touched h htouched) hnonempty,
            .merged hmerge hcontent hnonempty⟩
        · exact hfirst _ hbuilt
      · exact hfirst _ hbuilt
    · cases hbuilt
    · cases hbuilt
  · rw [buildDiffForDecision, lookup_build_none htouched] at hbuilt
    cases hbuilt

theorem decisionDiff_isSome {contributions : List AgentContribution} (h : Parsed contributions)
    {d : MergeDecision} (hkept : d.Kept) (htouched : d.filePath ∈ touchedPaths contributions) :
    ∃ diff, decisionDiff (FileMap.build contributions) d = some diff := by
  obtain ⟨e, es, hes⟩ := List.exists_cons_of_ne_nil (bucket_ne_nil htouched)
  have hraw : ∀ e' ∈ (FileMap.build contributions).bucket d.filePath,
      nonemptyDiff e'.2.2.rawDiff = some e'.2.2.rawDiff :=
    fun e' he' => nonemptyDiff_of_section (section_of_entry h he')
  have hhead := hraw e (hes ▸ List.mem_cons_self)
  rw [decisionDiff, buildDiffForDecision, lookup_build htouched]
  simp only
  unfold MergeDecision.Kept at hkept
  split at hkept
  · next agent haccept =>
    rw [haccept]
    simp only
    cases hfind : ((FileMap.build contributions).bucket d.filePath).find?
        (fun e => e.1 = agent) with
    | some e' =>
      have hdiff := hraw e' (List.mem_of_find?_eq_some hfind)
      exact ⟨e'.2.2.rawDiff, by simp [hdiff]⟩
    | none => exact ⟨e.2.2.rawDiff, by simp [hes, hhead]⟩
  · next hmerge =>
    rw [hmerge]
    simp only
    split
    · next content _ =>
      split
      · next hnonempty =>
        have hdiff := nonemptyDiff_of_section
          (section_synthesized (headerPath_of_touched h htouched) hnonempty)
        exact ⟨_, by rw [Option.bind_some, hdiff]⟩
      · exact ⟨e.2.2.rawDiff, by simp [hes, hhead]⟩
    · exact ⟨e.2.2.rawDiff, by simp [hes, hhead]⟩
  · exact hkept.elim
  · exact hkept.elim

/-- Each part of the diff is one section, their paths are those of decisions in order, and each
decision to keep a touched path has its part. -/
structure Tracked (contributions : List AgentContribution) (decisions : List MergeDecision)
    (parts : List Text) : Prop where
  sections : ∀ p ∈ parts, ∃ path, SectionDiff p path
  paths : (parts.filterMap fun p => sectionPath (p.splitOn '\n')).Sublist
    (decisions.map (·.filePath))
  kept : ∀ d ∈ decisions, d.Kept → d.filePath ∈ touchedPaths contributions →
    ∃ p ∈ parts, Origin contributions d p ∧ SectionDiff p d.filePath

theorem tracked_decisions {contributions : List AgentContribution} (h : Parsed contributions)
    (decisions : List MergeDecision) :
    Tracked contributions decisions
      (decisions.filterMap (decisionDiff (FileMap.build contributions))) := by
  constructor
  · intro p hp
    obtain ⟨d, -, hdiff⟩ := List.mem_filterMap.mp hp
    exact ⟨d.filePath, (decisionDiff_some h hdiff).1⟩
  · induction decisions with
    | nil => exact List.Sublist.slnil
    | cons d ds ih =>
      cases hdiff : decisionDiff (FileMap.build contributions) d with
      | none =>
        rw [List.filterMap_cons_none hdiff]
        exact ih.cons _
      | some diff =>
        have hpath := (decisionDiff_some h hdiff).1.path_eq
        rw [List.filterMap_cons_some hdiff, List.filterMap_cons, hpath]
        exact ih.cons_cons _
  · intro d hd hkept htouched
    obtain ⟨diff, hdiff⟩ := decisionDiff_isSome h hkept htouched
    obtain ⟨hsection, horigin⟩ := decisionDiff_some h hdiff
    exact ⟨diff, List.mem_filterMap.mpr ⟨d, hd, hdiff⟩, horigin, hsection⟩

def autoDecision (fileMap : FileMap) (filePath : Text) : MergeDecision where
  filePath := filePath
  action := .accept (((fileMap.bucket filePath).head?.map Prod.fst).getD [])
  finalContent := none
  reasoning := autoReasoning

theorem autoAcceptFile_eq {contributions : List AgentContribution} {paths : List Text}
    {path : Text} (hpath : path ∉ paths) (htouched : path ∈ touchedPaths contributions)
    (st : ReviewState) :
    autoAcceptFile (FileMap.build contributions) paths st path =
      { st with
        allDecisions := st.allDecisions ++ [autoDecision (FileMap.build contributions) path]
        diffParts := st.diffParts ++
          (decisionDiff (FileMap.build contributions)
            (autoDecision (FileMap.build contributions) path)).toList
        filesAccepted := st.filesAccepted + 1 } := by
  obtain ⟨e, es, hes⟩ := List.exists_cons_of_ne_nil (bucket_ne_nil htouched)
  obtain ⟨agentId, desc, fc⟩ := e
  have hauto : autoDecision (FileMap.build contributions) path =
      { filePath := path, action := .accept agentId, finalContent := none,
        reasoning := autoReasoning } := by
    rw [autoDecision, hes]
    rfl
  have hdiff : decisionDiff (FileMap.build contributions)
      (autoDecision (FileMap.build contributions) path) = nonemptyDiff fc.rawDiff := by
    rw [hauto, decisionDiff, buildDiffForDecision, lookup_build htouched, hes]
    simp only [List.find?_cons, decide_true, Option.some_or, Option.bind_some]
    unfold nonemptyDiff
    split
    · rfl
    · next hne => simp [hne]
  rw [hdiff, hauto, autoAcceptFile, if_neg hpath, hes]

def autoDecisions (contributions : List AgentContribution) (paths ks : List Text) :
    List MergeDecision :=
  (ks.filter fun k => !paths.contains k).map (autoDecision (FileMap.build contributions))

theorem autoAccept_spec {contributions : List AgentContribution} (paths : List Text)
    {ks : List Text} (hks : ∀ k ∈ ks, k ∈ touchedPaths contributions) (st : ReviewState) :
    let st' := ks.foldl (autoAcceptFile (FileMap.build contributions) paths) st
    st'.allDecisions = st.allDecisions ++ autoDecisions contributions paths ks ∧
      st'.diffParts = st.diffParts ++ (autoDecisions contributions paths ks).filterMap
        (decisionDiff (FileMap.build contributions)) := by
  induction ks generalizing st with
  | nil => exact ⟨by simp [autoDecisions], by simp [autoDecisions]⟩
  | cons k ks ih =>
    have hrest : ∀ k' ∈ ks, k' ∈ touchedPaths contributions :=
      fun k' hk' => hks k' (List.mem_cons_of_mem k hk')
    obtain ⟨hdecisions, hparts⟩ :=
      ih hrest (autoAcceptFile (FileMap.build contributions) paths st k)
    rw [List.foldl_cons]
    refine ⟨hdecisions.trans ?_, hparts.trans ?_⟩
    · by_cases hk : k ∈ paths
      · have hskip : autoAcceptFile (FileMap.build contributions) paths st k = st := if_pos hk
        rw [hskip, autoDecisions, autoDecisions, List.filter_cons_of_neg (by simpa using hk)]
      · rw [autoAcceptFile_eq hk (hks k List.mem_cons_self), autoDecisions, autoDecisions,
          List.filter_cons_of_pos (by simpa using hk)]
        simp
    · by_cases hk : k ∈ paths
      · have hskip : autoAcceptFile (FileMap.build contributions) paths st k = st := if_pos hk
        rw [hskip, autoDecisions, autoDecisions, List.filter_cons_of_neg (by simpa using hk)]
      · rw [autoAcceptFile_eq hk (hks k List.mem_cons_self), autoDecisions, autoDecisions,
          List.filter_cons_of_pos (by simpa using hk), List.map_cons]
        cases hdiff : decisionDiff (FileMap.build contributions)
            (autoDecision (FileMap.build contributions) k) with
        | none => rw [List.filterMap_cons_none hdiff]; simp
        | some diff => rw [List.filterMap_cons_some hdiff]; simp

theorem resolveDecision_diffParts (fileMap : FileMap) (st : ReviewState) (d : MergeDecision) :
    (resolveDecision fileMap st d).diffParts = st.diffParts ++ (decisionDiff fileMap d).toList := by
  have hnone : d.action = .delete ∨ (∃ reason, d.action = .reject reason) →
      decisionDiff fileMap d = none := by
    intro haction
    rw [decisionDiff, buildDiffForDecision]
    cases fileMap.lookup d.filePath with
    | none => rfl
    | some entries =>
      obtain haction | ⟨reason, haction⟩ := haction
      · rw [haction]
        rfl
      · rw [haction]
        rfl
  unfold resolveDecision
  simp only
  split
  · rfl
  · rfl
  · next haction => simp [hnone (.inl haction)]
  · next reason haction => simp [hnone (.inr ⟨reason, haction⟩)]

theorem resolveDecision_allDecisions (fileMap : FileMap) (st : ReviewState) (d : MergeDecision) :
    (resolveDecision fileMap st d).allDecisions = st.allDecisions := by
  unfold resolveDecision
  simp only
  split <;> rfl

theorem resolve_allDecisions (fileMap : FileMap) (ds : List MergeDecision) (st : ReviewState) :
    (ds.foldl (resolveDecision fileMap) st).allDecisions = st.allDecisions := by
  induction ds generalizing st with
  | nil => rfl
  | cons d ds ih => rw [List.foldl_cons, ih, resolveDecision_allDecisions]

theorem resolve_diffParts (fileMap : FileMap) (ds : List MergeDecision) (st : ReviewState) :
    (ds.foldl (resolveDecision fileMap) st).diffParts =
      st.diffParts ++ ds.filterMap (decisionDiff fileMap) := by
  induction ds generalizing st with
  | nil => simp
  | cons d ds ih =>
    rw [List.foldl_cons, ih, resolveDecision_diffParts, List.append_assoc]
    cases hdiff : decisionDiff fileMap d with
    | none => rw [List.filterMap_cons_none hdiff]; rfl
    | some diff => rw [List.filterMap_cons_some hdiff]; rfl

theorem fillGaps_paths (ds : List MergeDecision) {conflicts : List MergeConflict}
    (h : (conflicts.map (·.filePath)).Nodup) :
    (fillGaps ds conflicts).map (·.filePath) =
      ds.map (·.filePath) ++
        (conflicts.map (·.filePath)).filter (· ∉ ds.map (·.filePath)) := by
  induction conflicts generalizing ds with
  | nil => simp [fillGaps]
  | cons c cs ih =>
    rw [List.map_cons, List.nodup_cons] at h
    have hcons : fillGaps ds (c :: cs) =
        fillGaps (if ds.any (·.filePath = c.filePath) then ds
          else ds ++ [fallbackDecision undecidedReasoning c]) cs := rfl
    rw [hcons, List.map_cons]
    by_cases hc : c.filePath ∈ ds.map (·.filePath)
    · have hany : ds.any (·.filePath = c.filePath) = true := by
        obtain ⟨d, hd, hpath⟩ := List.mem_map.mp hc
        exact List.any_eq_true.mpr ⟨d, hd, decide_eq_true hpath⟩
      rw [if_pos hany, ih ds h.2, List.filter_cons_of_neg (by simpa using hc)]
    · have hany : ¬ ds.any (·.filePath = c.filePath) = true := by
        intro hany
        obtain ⟨d, hd, hpath⟩ := List.any_eq_true.mp hany
        exact hc (List.mem_map.mpr ⟨d, hd, of_decide_eq_true hpath⟩)
      rw [if_neg hany, ih _ h.2, List.filter_cons_of_pos (by simpa using hc)]
      -- no later conflict has the path of this one
      have hlater : (cs.map (·.filePath)).filter
          (· ∉ (ds ++ [fallbackDecision undecidedReasoning c]).map (·.filePath)) =
          (cs.map (·.filePath)).filter (· ∉ ds.map (·.filePath)) := by
        refine List.filter_congr fun p hp => ?_
        have hne : p ≠ c.filePath := fun heq => h.1 (heq ▸ hp)
        simp [fallbackDecision, hne]
      rw [hlater]
      simp [fallbackDecision]

theorem conflictsOf_sublist {mode : Overflow} {contributions : List AgentContribution}
    {m : HashMap Text (List (ℕ × FileChange))} {paths : List Text} {found : List MergeConflict}
    (h : conflictsOf mode contributions m paths = some found) :
    (found.map (·.filePath)).Sublist paths := by
  induction paths generalizing found with
  | nil =>
    cases h
    exact List.Sublist.slnil
  | cons path paths ih =>
    rw [conflictsOf] at h
    cases hat : conflictAt mode contributions path (m.bucket path) with
    | none => simp [hat] at h
    | some r =>
      simp only [hat] at h
      obtain ⟨rest, hrest, rfl⟩ := Option.map_eq_some_iff.mp h
      cases r with
      | none => exact (ih hrest).cons path
      | some c =>
        have hpath := ((conflictAt_some hat).2 c rfl).1
        rw [Option.toList_some, List.singleton_append, List.map_cons, hpath]
        exact (ih hrest).cons_cons path

theorem nodup_conflicts {mode : Overflow} {order : IterOrder Text}
    {contributions : List AgentContribution} {conflicts : List MergeConflict}
    (h : detect mode order contributions = some conflicts) :
    (conflicts.map (·.filePath)).Nodup := by
  obtain ⟨found, hfound, rfl⟩ := Option.map_eq_some_iff.mp h
  have hkeys : (order.arrange (fileMap contributions).keys).Nodup :=
    order.nodup_arrange (fileMap contributions).keys_nodup
  have hperm := (List.mergeSort_perm found
    fun a b => decide (b.severity.rank ≤ a.severity.rank)).map (·.filePath)
  exact hperm.nodup_iff.mpr (hkeys.sublist (conflictsOf_sublist hfound))

theorem touched_of_conflict {mode : Overflow} {order : IterOrder Text}
    {contributions : List AgentContribution} {conflicts : List MergeConflict}
    (h : detect mode order contributions = some conflicts) {path : Text}
    (hpath : path ∈ conflicts.map (·.filePath)) : path ∈ touchedPaths contributions := by
  obtain ⟨c, hc, rfl⟩ := List.mem_map.mp hpath
  have hlen := (reported_iff h c.filePath).mp ⟨c, hc, rfl⟩
  have hne : entriesAt contributions c.filePath ≠ [] := List.length_pos_iff.mp (by omega)
  obtain ⟨e, he⟩ := List.exists_mem_of_ne_nil _ hne
  obtain ⟨c', hc', hmem⟩ := mem_entriesAt.mp he
  obtain ⟨hfc, hp⟩ := mem_sectionsAt.mp hmem
  exact mem_touchedPaths.mpr ⟨c', List.mem_of_getElem? hc', e.2, hfc, hp⟩

theorem perm_fill_iff {xs ys : List Text} (hys : ys.Nodup) :
    (xs ++ ys.filter (· ∉ xs)).Perm ys ↔ xs.Nodup ∧ ∀ x ∈ xs, x ∈ ys := by
  constructor
  · intro h
    have hnodup := h.nodup_iff.mpr hys
    exact ⟨(List.nodup_append.mp hnodup).1,
      fun x hx => h.subset (List.mem_append_left _ hx)⟩
  · intro ⟨hxs, hsub⟩
    have hdisjoint : (xs ++ ys.filter (· ∉ xs)).Nodup := by
      refine List.nodup_append.mpr ⟨hxs, hys.filter _, fun a ha b hb => ?_⟩
      rintro rfl
      exact of_decide_eq_true (List.mem_filter.mp hb).2 ha
    refine (List.perm_ext_iff_of_nodup hdisjoint hys).mpr fun a => ?_
    simp only [List.mem_append, List.mem_filter, decide_eq_true_eq]
    by_cases ha : a ∈ xs
    · simp [ha, hsub a ha]
    · simp [ha]

theorem parseLlmDecisions_paths {llm : Llm} {contributions : List AgentContribution}
    {conflicts : List MergeConflict} (h : (conflicts.map (·.filePath)).Nodup) {llmRaw : Text}
    (hcall : callLlm llm (buildConflictPrompt conflicts (FileMap.build contributions)
      contributions) = .ok llmRaw) :
    (parseLlmDecisions llm.fromStr llmRaw conflicts).map (·.filePath) =
      (repliedDecisions llm contributions conflicts).map (·.filePath) ++
        (conflicts.map (·.filePath)).filter
          (· ∉ (repliedDecisions llm contributions conflicts).map (·.filePath)) := by
  cases hreply : llm.fromStr (cleanReply llmRaw) with
  | none =>
    have hparse : parseLlmDecisions llm.fromStr llmRaw conflicts = fallbackDecisions conflicts := by
      rw [parseLlmDecisions, hreply]
    have hreplied : repliedDecisions llm contributions conflicts = [] := by
      rw [repliedDecisions, hcall]
      simp only [hreply]
    rw [hparse, hreplied]
    simp [fallbackDecisions, fallbackDecision]
  | some items =>
    have hparse : parseLlmDecisions llm.fromStr llmRaw conflicts =
        fillGaps (items.filterMap decisionOf) conflicts := by
      rw [parseLlmDecisions, hreply]
    have hreplied : repliedDecisions llm contributions conflicts = items.filterMap decisionOf := by
      rw [repliedDecisions, hcall]
      simp only [hreply]
    rw [hparse, hreplied]
    exact fillGaps_paths _ h

theorem perm_keys (order : IterOrder Text) (contributions : List AgentContribution) :
    (order.arrange (FileMap.build contributions).keys).Perm (touchedPaths contributions) := by
  refine (order.perm _).trans ?_
  refine (List.perm_ext_iff_of_nodup (FileMap.build contributions).keys_nodup
    (nodup_touchedPaths contributions)).mpr fun a => ?_
  exact mem_keys_build

/-- The decisions about the files without a conflict, in the order of the map. -/
def phaseOne (order : IterOrder Text) (contributions : List AgentContribution)
    (conflicts : List MergeConflict) : List MergeDecision :=
  autoDecisions contributions (conflicts.map (·.filePath))
    (order.arrange (FileMap.build contributions).keys)

theorem phaseOne_paths (order : IterOrder Text) (contributions : List AgentContribution)
    (conflicts : List MergeConflict) :
    (phaseOne order contributions conflicts).map (·.filePath) =
      (order.arrange (FileMap.build contributions).keys).filter
        (· ∉ conflicts.map (·.filePath)) := by
  rw [phaseOne, autoDecisions, List.map_map]
  refine (List.map_id _).trans (List.filter_congr fun path _ => ?_)
  rw [List.contains_eq_mem, decide_not]

theorem autoAccept_phaseOne (order : IterOrder Text) (contributions : List AgentContribution)
    (conflicts : List MergeConflict) :
    (autoAccept order contributions conflicts).allDecisions =
        phaseOne order contributions conflicts ∧
      (autoAccept order contributions conflicts).diffParts =
        (phaseOne order contributions conflicts).filterMap
          (decisionDiff (FileMap.build contributions)) := by
  have hks : ∀ k ∈ order.arrange (FileMap.build contributions).keys,
      k ∈ touchedPaths contributions :=
    fun k hk => mem_keys_build.mp ((order.mem_arrange _ k).mp hk)
  exact autoAccept_spec (conflicts.map (·.filePath)) hks .start

theorem resolveAll_diffParts (order : IterOrder Text) (contributions : List AgentContribution)
    (conflicts : List MergeConflict) (decisions : List MergeDecision) :
    (resolveAll order contributions conflicts decisions).diffParts =
      (phaseOne order contributions conflicts ++ decisions).filterMap
        (decisionDiff (FileMap.build contributions)) := by
  rw [resolveAll, resolve_diffParts, (autoAccept_phaseOne order contributions conflicts).2,
    List.filterMap_append]

theorem perm_touched {mode : Overflow} {order order' : IterOrder Text}
    {contributions : List AgentContribution} {conflicts : List MergeConflict}
    (hdetect : detect mode order contributions = some conflicts) :
    ((phaseOne order' contributions conflicts).map (·.filePath) ++
      conflicts.map (·.filePath)).Perm (touchedPaths contributions) := by
  have hperm := perm_keys order' contributions
  have hks := hperm.nodup_iff.mpr (nodup_touchedPaths contributions)
  rw [phaseOne_paths]
  have hboth : ((order'.arrange (FileMap.build contributions).keys).filter
      (· ∉ conflicts.map (·.filePath)) ++ conflicts.map (·.filePath)).Nodup := by
    refine List.nodup_append.mpr ⟨hks.filter _, nodup_conflicts hdetect, fun a ha b hb => ?_⟩
    intro hab
    exact of_decide_eq_true (List.mem_filter.mp ha).2 (hab ▸ hb)
  refine (List.perm_ext_iff_of_nodup hboth (nodup_touchedPaths contributions)).mpr fun a => ?_
  rw [List.mem_append, List.mem_filter, hperm.mem_iff, decide_eq_true_eq]
  by_cases ha : a ∈ conflicts.map (·.filePath)
  · simp only [ha, not_true_eq_false, and_false, or_true, true_iff]
    exact touched_of_conflict hdetect ha
  · simp [ha]

theorem review_spec {mode : Overflow} {order order' : IterOrder Text} {llm : Llm}
    {contributions : List AgentContribution} {conflicts : List MergeConflict} {r : ReviewResult}
    (hdetect : detect mode order contributions = some conflicts)
    (hreview : review mode order' llm contributions conflicts = some (.ok r)) :
    r.finalDiff =
        joinLines (r.decisions.filterMap (decisionDiff (FileMap.build contributions))) ∧
      r.decisions.map (·.filePath) =
        (phaseOne order' contributions conflicts).map (·.filePath) ++
          if conflicts = [] then []
          else (repliedDecisions llm contributions conflicts).map (·.filePath) ++
            (conflicts.map (·.filePath)).filter
              (· ∉ (repliedDecisions llm contributions conflicts).map (·.filePath)) := by
  obtain ⟨hauto, hparts⟩ := autoAccept_phaseOne order' contributions conflicts
  unfold review at hreview
  split at hreview
  · next hempty =>
    cases hreview
    subst hempty
    have hnone : conflicts = [] := by
      refine List.eq_nil_iff_forall_not_mem.mpr fun c hc => ?_
      exact absurd (touched_of_conflict hdetect (List.mem_map_of_mem hc)) List.not_mem_nil
    subst hnone
    refine ⟨rfl, ?_⟩
    rw [phaseOne_paths, List.perm_nil.mp (perm_keys order' [])]
    rfl
  · simp only at hreview
    split at hreview
    · next hnone =>
      cases hreview
      rw [if_pos hnone, List.append_nil, hauto]
      exact ⟨congrArg joinLines hparts, rfl⟩
    · next hsome =>
      split at hreview
      · cases hreview
      · next llmRaw hcall =>
        split at hreview
        · cases hreview
        · cases hreview
          have hall : (resolveAll order' contributions conflicts
              (parseLlmDecisions llm.fromStr llmRaw conflicts)).allDecisions =
                phaseOne order' contributions conflicts := by
            rw [resolveAll, resolve_allDecisions, hauto]
          rw [hall, if_neg hsome, List.map_append,
            parseLlmDecisions_paths (nodup_conflicts hdetect) hcall]
          exact ⟨congrArg joinLines (resolveAll_diffParts _ _ _ _), rfl⟩

/-- **What a review keeps.**  A review is complete, with one decision and at most one section
for each path and a section for each decision to keep a file, exactly when there is no conflict
or the entries of the reply name different paths, all of them in conflict. -/
theorem review_complete_iff {mode : Overflow} {order order' : IterOrder Text} {llm : Llm}
    {contributions : List AgentContribution} {conflicts : List MergeConflict} {r : ReviewResult}
    (hparsed : Parsed contributions) (hdetect : detect mode order contributions = some conflicts)
    (hreview : review mode order' llm contributions conflicts = some (.ok r)) :
    Complete contributions r ↔
      conflicts = [] ∨ OnePerConflict (repliedDecisions llm contributions conflicts) conflicts := by
  obtain ⟨hdiff, hpaths⟩ := review_spec hdetect hreview
  have htracked := tracked_decisions hparsed r.decisions
  have hdecided : (r.decisions.map (·.filePath)).Perm (touchedPaths contributions) ↔
      conflicts = [] ∨ OnePerConflict (repliedDecisions llm contributions conflicts) conflicts := by
    have hall := @perm_touched mode order order' contributions conflicts hdetect
    have htarget : (r.decisions.map (·.filePath)).Perm (touchedPaths contributions) ↔
        (r.decisions.map (·.filePath)).Perm
          ((phaseOne order' contributions conflicts).map (·.filePath) ++
            conflicts.map (·.filePath)) :=
      ⟨fun h => h.trans hall.symm, fun h => h.trans hall⟩
    rw [htarget, hpaths, List.perm_append_left_iff]
    by_cases hnone : conflicts = []
    · simp [hnone]
    · rw [if_neg hnone, perm_fill_iff (nodup_conflicts hdetect)]
      constructor
      · intro ⟨h1, h2⟩
        exact .inr ⟨h1, fun d hd => h2 _ (List.mem_map_of_mem hd)⟩
      · intro h
        obtain ⟨h1, h2⟩ := h.resolve_left hnone
        refine ⟨h1, fun p hp => ?_⟩
        obtain ⟨d, hd, rfl⟩ := List.mem_map.mp hp
        exact h2 d hd
  constructor
  · intro hcomplete
    exact hdecided.mp hcomplete.decided
  · intro hone
    have hpermuted := hdecided.mpr hone
    have hsections : sections r.finalDiff =
        (r.decisions.filterMap (decisionDiff (FileMap.build contributions))).map
          (·.splitOn '\n') := by
      rw [hdiff]
      exact sections_joinLines htracked.sections
    constructor
    · exact hpermuted
    · rw [hsections, List.filterMap_map]
      exact (hpermuted.nodup_iff.mpr (nodup_touchedPaths contributions)).sublist htracked.paths
    · intro d hd hkept htouched
      obtain ⟨diff, hmem, horigin, hsection⟩ := htracked.kept d hd hkept htouched
      refine ⟨diff, horigin, ?_, hsection.path_eq⟩
      rw [hsections]
      exact List.mem_map_of_mem hmem

/-- The only line of the file `f` is replaced. -/
def fDiff (l : Char) : Text :=
  joinLines ["diff --git a/f b/f".toList, "@@ -1 +1 @@".toList, ['-', 'p'], ['+', l]]

def editor (agentId l : Char) : AgentContribution where
  agentId := [agentId]
  taskId := [agentId]
  taskDescription := []
  fileChanges := parseUnifiedDiff (fDiff l)
  rawDiff := fDiff l

def twoEditors : List AgentContribution := [editor 'a' 'q', editor 'b' 'r']

theorem parsed_twoEditors : Parsed twoEditors := by
  intro c hc
  simp only [twoEditors, List.mem_cons, List.not_mem_nil, or_false] at hc
  obtain rfl | rfl := hc
  · rfl
  · rfl

def twoEditorsConflicts : List MergeConflict := (detect .panics .stored twoEditors).getD []

def acceptEntry (agentId : Text) : Json :=
  .object [(filePathKey, .string ['f']), (actionKey, .string "accept".toList),
    (agentIdKey, .string agentId)]

def acceptEntryText (agentId : Text) : Text :=
  "\x7b\"file_path\":\"f\",\"action\":\"accept\",\"agent_id\":\"".toList ++ agentId ++
    "\"\x7d".toList

def acceptText (agentIds : List Text) : Text :=
  ['['] ++ [','].intercalate (agentIds.map acceptEntryText) ++ [']']

def acceptLlm (agentIds : List Text) : Llm where
  generateText _ _ _ := .ok (acceptText agentIds)
  fromStr text := if text = acceptText agentIds then some (agentIds.map acceptEntry) else none

def twoEditorsResult (agentIds : List Text) : ReviewResult :=
  match review .panics .stored (acceptLlm agentIds) twoEditors twoEditorsConflicts with
  | some (.ok r) => r
  | _ =>
    { decisions := [], finalDiff := [], conflictsResolved := 0, filesAccepted := 0,
      filesRejected := 0, summary := [] }

/-- With one entry for the file the review is complete. -/
theorem review_complete_two_editors : Complete twoEditors (twoEditorsResult [['a']]) := by
  have hdetect : detect .panics .stored twoEditors = some twoEditorsConflicts := by
    decide +kernel
  have hreview : review .panics .stored (acceptLlm [['a']]) twoEditors twoEditorsConflicts =
      some (.ok (twoEditorsResult [['a']])) := by
    decide +kernel
  exact (review_complete_iff parsed_twoEditors hdetect hreview).mpr
    (.inr ⟨by decide +kernel, by decide +kernel⟩)

/-- With two entries for the file it is decided twice. -/
theorem file_decided_twice :
    detect .panics .stored twoEditors = some twoEditorsConflicts ∧
      review .panics .stored (acceptLlm [['a'], ['b']]) twoEditors twoEditorsConflicts =
        some (.ok (twoEditorsResult [['a'], ['b']])) ∧
      ¬ Complete twoEditors (twoEditorsResult [['a'], ['b']]) := by
  refine ⟨by decide +kernel, by decide +kernel, fun h => ?_⟩
  have hlen := h.decided.length_eq
  exact absurd hlen (by decide +kernel)

end Mowis.Review
