import Mowis.Review.Complete

/-!
# The paths that a diff names

The path of a section stands in its header.  A carriage return at the end of the header belongs to
the line ending, not to the path.
-/

namespace Mowis.Review

open Mowis.Lib

def bare (path : Text) : Text := path.rdropWhile (· == '\r')

def sectionPaths (diff : Text) : List Text := ((sections diff).filterMap sectionPath).map bare

def headerPath (line : Text) : Option Text :=
  if isHeader line then (extractPathFromDiffHeader line).map bare else none

theorem filterMap_headerPath_dropWhile (ls : List Text) :
    (ls.dropWhile (!isHeader ·)).filterMap headerPath = ls.filterMap headerPath := by
  have hnone : (ls.takeWhile (!isHeader ·)).filterMap headerPath = [] := by
    refine List.filterMap_eq_nil_iff.mpr fun l hl => ?_
    have hno : isHeader l = false := by simpa using List.mem_takeWhile_imp hl
    rw [headerPath, hno, if_neg Bool.false_ne_true]
  conv_rhs => rw [← @List.takeWhile_append_dropWhile _ (!isHeader ·) ls]
  rw [List.filterMap_append, hnone, List.nil_append]

theorem groupSections_paths (ls : List Text) :
    ((groupSections ls).filterMap sectionPath).map bare = ls.filterMap headerPath := by
  induction ls using groupSections.induct with
  | case1 =>
    rw [groupSections]
    rfl
  | case2 line rest hline ih =>
    rw [filterMap_headerPath_dropWhile] at ih
    rw [groupSections, if_pos hline, List.filterMap_cons, List.filterMap_cons, headerPath,
      if_pos hline, sectionPath, List.head?_cons, Option.bind_some]
    cases extractPathFromDiffHeader line with
    | none => exact ih
    | some path => exact congrArg (bare path :: ·) ih
  | case3 line rest hline ih =>
    have hnone : headerPath line = none := if_neg hline
    rw [groupSections, if_neg hline, ih, List.filterMap_cons_none hnone]

theorem sectionPaths_eq (diff : Text) :
    sectionPaths diff = (diff.splitOn '\n').filterMap headerPath := groupSections_paths _

theorem parseSections_paths (ls : List Text) :
    (parseSections ls).map (fun fc => bare fc.filePath) = ls.filterMap headerPath := by
  induction ls using parseSections.induct with
  | case1 =>
    rw [parseSections]
    rfl
  | case2 line rest hline ih =>
    rw [filterMap_headerPath_dropWhile] at ih
    rw [parseSections, if_pos hline, List.map_append, ih, List.filterMap_cons, headerPath,
      if_pos hline, parseSingleFileDiff]
    cases extractPathFromDiffHeader line <;> rfl
  | case3 line rest hline ih =>
    have hnone : headerPath line = none := if_neg hline
    rw [parseSections, if_neg hline, ih, List.filterMap_cons_none hnone]

theorem bare_snoc (path : Text) : bare (path ++ ['\r']) = bare path :=
  List.rdropWhile_concat_pos _ _ _ rfl

theorem prefix_snoc {pre : Text} (hpre : pre.getLast? ≠ some '\r') (l : Text) :
    pre <+: l ++ ['\r'] ↔ pre <+: l := by
  rw [List.prefix_concat_iff]
  refine or_iff_right fun heq => hpre ?_
  rw [heq, List.getLast?_concat]

theorem isHeader_snoc (l : Text) : isHeader (l ++ ['\r']) = isHeader l :=
  decide_eq_decide.mpr (prefix_snoc (by decide) l)

theorem extract_snoc (l : Text) : extractPathFromDiffHeader (l ++ ['\r']) =
    (extractPathFromDiffHeader l).map (· ++ ['\r']) := by
  have hpre := @prefix_snoc headerPathPrefix (by decide) l
  rw [extractPathFromDiffHeader, extractPathFromDiffHeader, afterPrefix, afterPrefix]
  by_cases hl : headerPathPrefix <+: l
  · rw [if_pos hl, if_pos (hpre.mpr hl), List.drop_append_of_le_length hl.length_le]
    simp only
    have hno : ∀ v : Text, ¬ bPrefix <:+: v → ¬ bPrefix <:+: v ++ ['\r'] := by
      intro v hv hin
      refine hv ((List.infix_concat_iff.mp hin).resolve_left fun hsuffix => ?_)
      obtain ⟨u, hu⟩ := hsuffix
      have hlast := congrArg List.getLast? hu
      rw [List.getLast?_concat, List.getLast?_append] at hlast
      cases hlast
    cases hsplit : splitLast bPrefix (l.drop headerPathPrefix.length) with
    | none =>
      have hfree := hno _ ((splitLast_eq_none_iff (by decide)).mp hsplit)
      rw [(splitLast_eq_none_iff (by decide)).mpr hfree]
      rfl
    | some parts =>
      obtain ⟨u, v⟩ := parts
      have hfree := hno v (not_infix_of_splitLast (by decide) hsplit)
      rw [splitLast_eq_some hsplit, List.append_assoc, List.append_assoc,
        splitLast_bPrefix ((splitLast_eq_none_iff (by decide)).mpr hfree)]
      rfl
  · rw [if_neg hl, if_neg (mt hpre.mp hl)]
    rfl

theorem headerPath_dropCR (l : Text) : headerPath (dropCR l) = headerPath l := by
  unfold dropCR
  split
  · next h =>
    obtain ⟨l', rfl⟩ := List.getLast?_eq_some_iff.mp h
    rw [List.dropLast_concat, headerPath, headerPath, isHeader_snoc, extract_snoc, Option.map_map]
    have hbare : bare ∘ (fun p => p ++ ['\r']) = bare := funext bare_snoc
    rw [hbare]
  · rfl

theorem lines_paths (t : Text) :
    (lines t).filterMap headerPath = (t.splitOn '\n').filterMap headerPath := by
  induction hlen : t.length using Nat.strong_induction_on generalizing t with
  | h n ih =>
    by_cases hin : '\n' ∈ t
    · obtain ⟨l, rest, rfl, hl⟩ := List.eq_append_cons_of_mem hin
      have hshort : rest.length < n := by
        rw [← hlen, List.length_append, List.length_cons]
        omega
      have hlines : lines (l ++ '\n' :: rest) = dropCR l :: lines rest := by
        have h := lines_flatMap_endLine_append (List.forall_mem_singleton.mpr hl) rest
        rwa [List.flatMap_singleton, endLine, List.append_assoc] at h
      rw [hlines, List.splitOn_append_cons_self_of_not_mem hl, List.filterMap_cons,
        List.filterMap_cons, headerPath_dropCR, ih _ hshort rest rfl]
    · by_cases hnil : t = []
      · rw [hnil]
        rfl
      · rw [lines_last hnil hin, List.splitOn_eq_singleton hin]

theorem sectionPaths_parsed (diff : Text) :
    (parseUnifiedDiff diff).map (fun fc => bare fc.filePath) = sectionPaths diff := by
  rw [parseUnifiedDiff, parseSections_paths, lines_paths, sectionPaths_eq]

theorem sectionPaths_nil : sectionPaths [] = [] := by
  rw [sectionPaths_eq]
  rfl

theorem sectionPaths_joinLines (diffs : List Text) :
    sectionPaths (joinLines diffs) = diffs.flatMap sectionPaths := by
  cases diffs with
  | nil => exact sectionPaths_nil
  | cons d ds =>
    rw [sectionPaths_eq, splitOn_joinLines (List.cons_ne_nil d ds), List.filterMap_flatMap]
    exact List.flatMap_congr fun t _ => (sectionPaths_eq t).symm

/-- `MergeDecision.Kept`, as a test. -/
def MergeDecision.keeps (d : MergeDecision) : Bool :=
  match d.action with
  | .accept _ => true
  | .merge => true
  | .reject _ => false
  | .delete => false

theorem MergeDecision.keeps_eq_true (d : MergeDecision) : d.keeps = true ↔ d.Kept := by
  rw [keeps, Kept]
  cases d.action <;> simp

def keptPaths (contributions : List AgentContribution) (decisions : List MergeDecision) :
    List Text :=
  (decisions.filter fun d => d.keeps && (touchedPaths contributions).contains d.filePath).map
    fun d => bare d.filePath

theorem decisionDiff_iff {contributions : List AgentContribution} (h : Parsed contributions)
    (d : MergeDecision) : (decisionDiff (FileMap.build contributions) d).isSome =
      (d.keeps && (touchedPaths contributions).contains d.filePath) := by
  rw [Bool.eq_iff_iff, Bool.and_eq_true, d.keeps_eq_true, List.contains_iff_mem]
  constructor
  · intro hsome
    obtain ⟨diff, hdiff⟩ := Option.isSome_iff_exists.mp hsome
    obtain ⟨built, hbuilt, -⟩ := Option.bind_eq_some_iff.mp hdiff
    by_cases htouched : d.filePath ∈ touchedPaths contributions
    · refine ⟨?_, htouched⟩
      rw [buildDiffForDecision, lookup_build htouched] at hbuilt
      rw [MergeDecision.Kept]
      cases hact : d.action with
      | accept agent => trivial
      | merge => trivial
      | delete =>
        rw [hact] at hbuilt
        cases hbuilt
      | reject reason =>
        rw [hact] at hbuilt
        cases hbuilt
    · rw [buildDiffForDecision, lookup_build_none htouched] at hbuilt
      cases hbuilt
  · rintro ⟨hkept, htouched⟩
    obtain ⟨diff, hdiff⟩ := decisionDiff_isSome h hkept htouched
    rw [hdiff]
    rfl

theorem sectionPaths_section {diff path : Text} (h : SectionDiff diff path) :
    sectionPaths diff = [bare path] := by
  have hone := sections_joinLines (List.forall_mem_singleton.mpr ⟨path, h⟩)
  have hjoin : joinLines [diff] = diff := List.intercalate_singleton
  rw [hjoin] at hone
  rw [sectionPaths, hone, List.map_singleton, List.filterMap_cons, h.path_eq]
  rfl

theorem sectionPaths_review {mode : Overflow} {order order' : IterOrder Text} {llm : Llm}
    {contributions : List AgentContribution} {conflicts : List MergeConflict} {r : ReviewResult}
    (hparsed : Parsed contributions) (hdetect : detect mode order contributions = some conflicts)
    (hreview : review mode order' llm contributions conflicts = some (.ok r)) :
    sectionPaths r.finalDiff = keptPaths contributions r.decisions := by
  obtain ⟨hdiff, -⟩ := review_spec hdetect hreview
  rw [hdiff, sectionPaths_joinLines, keptPaths]
  induction r.decisions with
  | nil => rfl
  | cons d ds ih =>
    have hkeeps := decisionDiff_iff hparsed d
    cases hpart : decisionDiff (FileMap.build contributions) d with
    | none =>
      rw [hpart] at hkeeps
      rw [List.filterMap_cons_none hpart, ih, List.filter_cons, ← hkeeps]
      rfl
    | some diff =>
      rw [hpart] at hkeeps
      have hsection := (decisionDiff_some hparsed hpart).1
      rw [List.filterMap_cons_some hpart, List.flatMap_cons, ih, List.filter_cons, ← hkeeps,
        sectionPaths_section hsection]
      rfl

theorem finalDiff_eq_nil {mode : Overflow} {order order' : IterOrder Text} {llm : Llm}
    {contributions : List AgentContribution} {conflicts : List MergeConflict} {r : ReviewResult}
    (hparsed : Parsed contributions) (hdetect : detect mode order contributions = some conflicts)
    (hreview : review mode order' llm contributions conflicts = some (.ok r))
    (hnone : keptPaths contributions r.decisions = []) : r.finalDiff = [] := by
  obtain ⟨hdiff, -⟩ := review_spec hdetect hreview
  have hparts : r.decisions.filterMap (decisionDiff (FileMap.build contributions)) = [] := by
    refine List.filterMap_eq_nil_iff.mpr fun d hd => Option.not_isSome_iff_eq_none.mp ?_
    have hlost := List.filter_eq_nil_iff.mp (List.map_eq_nil_iff.mp hnone) d hd
    rwa [decisionDiff_iff hparsed]
  rw [hdiff, hparts]
  rfl

/-- The paths of the entries of a reply that settle no conflict: of paths without one, and of paths
that another entry names too. -/
def surplus (llm : Llm) (contributions : List AgentContribution) :
    List MergeConflict → List Text
  | [] => []
  | conflicts =>
    ((repliedDecisions llm contributions conflicts).map (·.filePath)).diff
      (conflicts.map (·.filePath))

def decidedPaths (llm : Llm) (contributions : List AgentContribution)
    (conflicts : List MergeConflict) : List Text :=
  (touchedPaths contributions ++
    (surplus llm contributions conflicts).filter (touchedPaths contributions).contains).map bare

theorem perm_diff {xs ys : List Text} (hys : ys.Nodup) :
    (xs ++ ys.filter (· ∉ xs)).Perm (ys ++ xs.diff ys) := by
  rw [List.perm_iff_count]
  intro a
  rw [List.count_append, List.count_append, List.count_diff]
  have hone := List.nodup_iff_count_le_one.mp hys a
  by_cases hin : a ∈ xs
  · have hpos := List.count_pos_iff.mpr hin
    have hnone : (ys.filter (· ∉ xs)).count a = 0 :=
      List.count_eq_zero.mpr fun hmem => of_decide_eq_true (List.mem_filter.mp hmem).2 hin
    omega
  · have hzero := List.count_eq_zero.mpr hin
    have hsame : (ys.filter (· ∉ xs)).count a = ys.count a := List.count_filter (by simpa using hin)
    omega

theorem perm_decisions {mode : Overflow} {order order' : IterOrder Text} {llm : Llm}
    {contributions : List AgentContribution} {conflicts : List MergeConflict} {r : ReviewResult}
    (hdetect : detect mode order contributions = some conflicts)
    (hreview : review mode order' llm contributions conflicts = some (.ok r)) :
    (r.decisions.map (·.filePath)).Perm
      (touchedPaths contributions ++ surplus llm contributions conflicts) := by
  obtain ⟨-, hpaths⟩ := review_spec hdetect hreview
  have htouched := @perm_touched mode order order' contributions conflicts hdetect
  rw [hpaths]
  cases conflicts with
  | nil =>
    rw [if_pos rfl, List.append_nil]
    rw [List.map_nil, List.append_nil] at htouched
    exact (htouched.trans (.of_eq (List.append_nil _).symm))
  | cons c cs =>
    rw [if_neg (List.cons_ne_nil c cs)]
    refine ((perm_diff (nodup_conflicts hdetect)).append_left _).trans ?_
    rw [← List.append_assoc]
    exact htouched.append_right _

theorem count_keptPaths {mode : Overflow} {order order' : IterOrder Text} {llm : Llm}
    {contributions : List AgentContribution} {conflicts : List MergeConflict} {r : ReviewResult}
    (hdetect : detect mode order contributions = some conflicts)
    (hreview : review mode order' llm contributions conflicts = some (.ok r)) {path : Text}
    (hkept : ∀ d ∈ r.decisions, bare d.filePath = path → d.keeps = true) :
    (keptPaths contributions r.decisions).count path =
      (decidedPaths llm contributions conflicts).count path := by
  have hperm := perm_decisions hdetect hreview
  have htouched : (touchedPaths contributions).filter (touchedPaths contributions).contains =
      touchedPaths contributions :=
    List.filter_eq_self.mpr fun q hq => List.contains_iff_mem.mpr hq
  calc (keptPaths contributions r.decisions).count path
      = (r.decisions.filter fun d => d.keeps &&
          (touchedPaths contributions).contains d.filePath).countP
            (fun d => bare d.filePath == path) := by
        rw [keptPaths, List.count, List.countP_map]
        rfl
    _ = r.decisions.countP fun d => bare d.filePath == path && (d.keeps &&
          (touchedPaths contributions).contains d.filePath) := List.countP_filter
    _ = r.decisions.countP fun d => bare d.filePath == path &&
          (touchedPaths contributions).contains d.filePath := by
        refine List.countP_congr fun d hd => ?_
        by_cases hpath : bare d.filePath = path
        · simp [hkept d hd hpath]
        · simp [hpath]
    _ = (r.decisions.map (·.filePath)).countP fun q => bare q == path &&
          (touchedPaths contributions).contains q := by
        rw [List.countP_map]
        rfl
    _ = (touchedPaths contributions ++ surplus llm contributions conflicts).countP fun q =>
          bare q == path && (touchedPaths contributions).contains q := hperm.countP_eq _
    _ = (decidedPaths llm contributions conflicts).count path := by
        rw [← List.countP_filter, List.filter_append, htouched, decidedPaths, List.count,
          List.countP_map]
        rfl

end Mowis.Review
