import Mowis.Review.Reviewer

/-!
# The sections of a diff

A text is cut at its line feeds, and its lines into sections that go from a header to the next
one.
-/

namespace Mowis.Review

open Mowis.Lib

def groupSections : List Text → List (List Text)
  | [] => []
  | line :: rest =>
    if isHeader line then
      (line :: rest.takeWhile (!isHeader ·)) :: groupSections (rest.dropWhile (!isHeader ·))
    else groupSections rest
termination_by ls => ls.length
decreasing_by
  · exact Nat.lt_succ_of_le (List.length_dropWhile_le _ _)
  · exact Nat.lt_succ_self _

def sections (diff : Text) : List (List Text) := groupSections (diff.splitOn '\n')

def sectionPath (s : List Text) : Option Text := s.head?.bind extractPathFromDiffHeader

/-- The lines of one section, with its path. -/
structure IsSection (s : List Text) (path : Text) : Prop where
  path_eq : sectionPath s = some path
  header : ∀ l, s.head? = some l → isHeader l = true
  body : ∀ l ∈ s.tail, isHeader l = false

def SectionDiff (diff path : Text) : Prop := IsSection (diff.splitOn '\n') path

theorem groupSections_append {s rest : List Text} {path : Text} (hs : IsSection s path)
    (hrest : ∀ l, rest.head? = some l → isHeader l = true) :
    groupSections (s ++ rest) = s :: groupSections rest := by
  obtain ⟨hpath, hheader, hbody⟩ := hs
  cases s with
  | nil => cases hpath
  | cons h body =>
    have htake : (body ++ rest).takeWhile (!isHeader ·) = body ∧
        (body ++ rest).dropWhile (!isHeader ·) = rest := by
      rw [List.takeWhile_append_of_pos fun l hl => by simp [hbody l hl],
        List.dropWhile_append_of_pos fun l hl => by simp [hbody l hl]]
      cases rest with
      | nil => simp
      | cons r rest => simp [hrest r rfl]
    rw [List.cons_append, groupSections, if_pos (hheader h rfl), htake.1, htake.2]

theorem groupSections_flatten {ss : List (List Text)} (h : ∀ s ∈ ss, ∃ path, IsSection s path) :
    groupSections ss.flatten = ss := by
  induction ss with
  | nil => simp [groupSections]
  | cons s ss ih =>
    obtain ⟨path, hs⟩ := h s List.mem_cons_self
    have hrest : ∀ l, ss.flatten.head? = some l → isHeader l = true := by
      intro l hl
      cases ss with
      | nil => cases hl
      | cons s' ss =>
        obtain ⟨path', hs'⟩ := h s' (List.mem_cons_of_mem s List.mem_cons_self)
        cases s' with
        | nil => cases hs'.path_eq
        | cons l' s' => exact hs'.header l hl
    rw [List.flatten_cons, groupSections_append hs hrest,
      ih fun s' hs' => h s' (List.mem_cons_of_mem s hs')]

theorem sections_joinLines {parts : List Text} (h : ∀ p ∈ parts, ∃ path, SectionDiff p path) :
    sections (joinLines parts) = parts.map (·.splitOn '\n') := by
  cases parts with
  | nil =>
    show groupSections [[]] = []
    rw [groupSections, if_neg (by decide), groupSections]
  | cons p ps =>
    rw [sections, splitOn_joinLines (List.cons_ne_nil p ps), List.flatMap]
    refine groupSections_flatten fun s hs => ?_
    obtain ⟨q, hq, rfl⟩ := List.mem_map.mp hs
    exact h q hq

theorem lines_of_mem_parseSections {ls : List Text} {fc : FileChange}
    (h : fc ∈ parseSections ls) :
    ∃ header rest, isHeader header = true ∧ (∀ l ∈ rest, isHeader l = false) ∧
      (∀ l ∈ header :: rest, l ∈ ls) ∧
      parseSingleFileDiff (header :: rest) (joinLines (header :: rest)) = some fc := by
  induction ls using parseSections.induct with
  | case1 =>
    rw [parseSections] at h
    exact absurd h List.not_mem_nil
  | case2 line rest hline ih =>
    rw [parseSections, if_pos hline] at h
    rcases List.mem_append.mp h with h | h
    · refine ⟨line, rest.takeWhile (!isHeader ·), hline, ?_, ?_, Option.mem_toList.mp h⟩
      · intro l hl
        simpa using List.mem_takeWhile_imp hl
      · intro l hl
        rcases List.mem_cons.mp hl with rfl | hl
        · exact List.mem_cons_self
        · exact List.mem_cons_of_mem line ((List.takeWhile_sublist _).subset hl)
    · obtain ⟨header, body, h1, h2, h3, h4⟩ := ih h
      refine ⟨header, body, h1, h2, fun l hl => ?_, h4⟩
      exact List.mem_cons_of_mem line ((List.dropWhile_sublist _).subset (h3 l hl))
  | case3 line rest hline ih =>
    rw [parseSections, if_neg hline] at h
    obtain ⟨header, body, h1, h2, h3, h4⟩ := ih h
    exact ⟨header, body, h1, h2, fun l hl => List.mem_cons_of_mem line (h3 l hl), h4⟩

theorem parseSingleFileDiff_some {header : Text} {rest : List Text} {raw : Text} {fc : FileChange}
    (h : parseSingleFileDiff (header :: rest) raw = some fc) :
    extractPathFromDiffHeader header = some fc.filePath ∧ fc.rawDiff = raw := by
  rw [parseSingleFileDiff] at h
  split at h
  · cases h
  · next path hpath =>
    cases h
    exact ⟨hpath, rfl⟩

theorem section_of_parsed {raw : Text} {fc : FileChange} (h : fc ∈ parseUnifiedDiff raw) :
    SectionDiff fc.rawDiff fc.filePath ∧
      parseSingleFileDiff (fc.rawDiff.splitOn '\n') fc.rawDiff = some fc := by
  obtain ⟨header, rest, hheader, hbody, hmem, hparse⟩ := lines_of_mem_parseSections h
  obtain ⟨hpath, hraw⟩ := parseSingleFileDiff_some hparse
  have hsplit : fc.rawDiff.splitOn '\n' = header :: rest := by
    rw [hraw]
    exact List.splitOn_intercalate '\n' (fun l hl => notMem_lines (hmem l hl))
      (List.cons_ne_nil header rest)
  rw [SectionDiff, hsplit]
  refine ⟨⟨hpath, ?_, hbody⟩, ?_⟩
  · intro l hl
    cases hl
    exact hheader
  · rw [hraw]
    exact hparse

def HeaderPath (path : Text) : Prop := '\n' ∉ path ∧ ¬ bPrefix <:+: path

theorem headerPath_of_extract {header path : Text}
    (h : extractPathFromDiffHeader header = some path) (hline : '\n' ∉ header) :
    HeaderPath path := by
  unfold extractPathFromDiffHeader afterPrefix at h
  split at h
  · cases h
  · next rest hrest =>
    have hrest : header.drop headerPathPrefix.length = rest := by
      split at hrest
      · exact Option.some.inj hrest
      · cases hrest
    have hno : '\n' ∉ rest := by
      rw [← hrest]
      exact fun hmem => hline (List.mem_of_mem_drop hmem)
    split at h
    · next u v hsplit =>
      cases h
      refine ⟨fun hmem => hno ?_, not_infix_of_splitLast (by decide) hsplit⟩
      rw [splitLast_eq_some hsplit]
      exact List.mem_append_right _ hmem
    · next hsplit =>
      cases h
      exact ⟨hno, (splitLast_eq_none_iff (by decide)).mp hsplit⟩

theorem headerPath_of_parsed {raw : Text} {fc : FileChange} (h : fc ∈ parseUnifiedDiff raw) :
    HeaderPath fc.filePath := by
  obtain ⟨header, rest, -, -, hmem, hparse⟩ := lines_of_mem_parseSections h
  exact headerPath_of_extract (parseSingleFileDiff_some hparse).1
    (notMem_lines (hmem header List.mem_cons_self))

theorem extractPath_header {path : Text} (h : ¬ bPrefix <:+: path) (source : Text) :
    extractPathFromDiffHeader (headerPathPrefix ++ source ++ bPrefix ++ path) = some path := by
  have hsplit := splitLast_bPrefix ((splitLast_eq_none_iff (by decide)).mpr h) source
  rw [List.append_assoc, List.append_assoc, extractPathFromDiffHeader, afterPrefix_append]
  simp only [hsplit]

theorem synthesized_eq (path content : Text) :
    synthesizeDiffFromContent path content =
      joinLines [joinLines (synthesizedHeader path (lines content).length),
        joinLines ((lines content).map ('+' :: ·)), []] := by
  simp [synthesizeDiffFromContent, joinLines, List.intercalate, List.intersperse]

theorem lines_ne_nil {content : Text} (h : content ≠ []) : lines content ≠ [] := by
  obtain ⟨c, rest, rfl⟩ := List.exists_cons_of_ne_nil h
  rw [lines, Ne, List.map_eq_nil_iff, splitInclusive]
  split
  · exact List.cons_ne_nil _ _
  · split
    · exact List.cons_ne_nil _ _
    · exact List.cons_ne_nil _ _

theorem notMem_showNat {c : Char} (hc : ¬ c.isDigit) (n : ℕ) : c ∉ showNat n :=
  fun h => hc (Nat.isDigit_of_mem_toDigits (by decide) (by decide) h)

theorem notMem_synthesizedHeader {path : Text} (h : '\n' ∉ path) (n : ℕ) :
    ∀ l ∈ synthesizedHeader path n, '\n' ∉ l := by
  have hheader : '\n' ∉ headerPathPrefix := by decide
  have hb : '\n' ∉ bPrefix := by decide
  have hold : '\n' ∉ oldLabelPrefix := by decide
  have hnew : '\n' ∉ newLabelPrefix := by decide
  have hhunk : '\n' ∉ hunkPrefix := by decide
  have hcount := notMem_showNat (c := '\n') (by decide) n
  intro l hl
  simp only [synthesizedHeader, List.mem_cons, List.not_mem_nil, or_false] at hl
  obtain rfl | rfl | rfl | rfl | rfl := hl
  · simp [hheader, hb, h]
  · decide
  · simp [hold, h]
  · simp [hnew, h]
  · simp [hhunk, hcount]

theorem splitOn_synthesized {path content : Text} (hpath : '\n' ∉ path) (hcontent : content ≠ []) :
    (synthesizeDiffFromContent path content).splitOn '\n' =
      synthesizedHeader path (lines content).length ++
        ((lines content).map ('+' :: ·) ++ [[]]) := by
  have hheader : (joinLines (synthesizedHeader path (lines content).length)).splitOn '\n' =
      synthesizedHeader path (lines content).length :=
    List.splitOn_intercalate '\n' (notMem_synthesizedHeader hpath _) (List.cons_ne_nil _ _)
  have hbody : (joinLines ((lines content).map ('+' :: ·))).splitOn '\n' =
      (lines content).map ('+' :: ·) := by
    refine List.splitOn_intercalate '\n' (fun l hl => ?_) ?_
    · obtain ⟨l', hl', rfl⟩ := List.mem_map.mp hl
      simp [notMem_lines hl']
    · simpa using lines_ne_nil hcontent
  rw [synthesized_eq, splitOn_joinLines (List.cons_ne_nil _ _)]
  simp [hheader, hbody]

theorem section_synthesized {path content : Text} (hpath : HeaderPath path)
    (hcontent : content ≠ []) : SectionDiff (synthesizeDiffFromContent path content) path := by
  rw [SectionDiff, splitOn_synthesized hpath.1 hcontent]
  constructor
  · exact extractPath_header hpath.2 path
  · intro l hl
    cases hl
    apply decide_eq_true
    rw [headerPathPrefix_eq]
    simp only [List.append_assoc]
    exact List.prefix_append _ _
  · intro l hl
    have hbody : l ∈ (synthesizedHeader path (lines content).length).tail ∨
        l ∈ (lines content).map ('+' :: ·) ++ [[]] := List.mem_append.mp hl
    rcases hbody with hbody | hbody
    · simp only [synthesizedHeader, List.tail_cons, List.mem_cons, List.not_mem_nil, or_false]
        at hbody
      obtain rfl | rfl | rfl | rfl := hbody
      · decide
      · exact isHeader_cons_ne (c := '-') (by decide) _
      · exact isHeader_cons_ne (c := '+') (by decide) _
      · exact isHeader_cons_ne (c := '@') (by decide) _
    · rcases List.mem_append.mp hbody with hbody | hbody
      · obtain ⟨l', -, rfl⟩ := List.mem_map.mp hbody
        exact isHeader_cons_ne (by decide) l'
      · rw [List.mem_singleton.mp hbody]
        decide

end Mowis.Review
