import Mowis.Review.Apply

/-!
# Applying a diff to files, strictly

The meaning of a unified diff where a change needs the file it changes, and where only the
last line of a file has no line feed.  This is the format's meaning, not code of the
repository.
-/

namespace Mowis.Topology

open Mowis.Lib Mowis.Review

/-- The hunks of a file change on the content of a file; the result is a file of these lines. -/
def patchHunks (fc : FileChange) (content : Text) : Option Text :=
  if HeadersRead fc then
    match hunkEdits fc.hunks with
    | none => none
    | some es =>
      match applyPatch es (fileLines content) with
      | none => none
      | some ls => if fileLines ls.flatten = ls then some ls.flatten else none
  else none

def patchChange (fc : FileChange) (files : Files) : Option Files :=
  match fc.changeType with
  | .added =>
    match files fc.filePath with
    | some _ => none
    | none =>
      (patchHunks fc []).map fun content => Function.update files fc.filePath (some content)
  | .modified =>
    match files fc.filePath with
    | none => none
    | some old =>
      (patchHunks fc old).map fun content => Function.update files fc.filePath (some content)
  | .deleted =>
    match files fc.filePath with
    | none => none
    | some old =>
      if patchHunks fc old = some [] then some (Function.update files fc.filePath none) else none
  | .renamed from_ =>
    match files from_, files fc.filePath with
    | some old, none =>
      (patchHunks fc old).map fun content =>
        Function.update (Function.update files from_ none) fc.filePath (some content)
    | _, _ => none

def patchFiles (diff : Text) (files : Files) : Option Files :=
  match readDiff diff with
  | none => none
  | some fcs => runAll patchChange fcs files

theorem span_concat {α : Type} {p : α → Bool} {a : α} (ha : p a = true) (xs : List α) :
    (xs.takeWhile p = xs ∧ xs.dropWhile p = [] ∧
      (xs ++ [a]).takeWhile p = xs ++ [a] ∧ (xs ++ [a]).dropWhile p = []) ∨
    ((xs ++ [a]).takeWhile p = xs.takeWhile p ∧
      (xs ++ [a]).dropWhile p = xs.dropWhile p ++ [a]) := by
  induction xs with
  | nil => exact .inl ⟨rfl, rfl, by simp [ha], by simp [ha]⟩
  | cons x xs ih =>
    cases hx : p x with
    | false => exact .inr ⟨by simp [hx], by simp [hx]⟩
    | true => simpa [hx] using ih

theorem joinLines_concat_nil {ls : List Text} (h : ls ≠ []) :
    joinLines (ls ++ [[]]) = joinLines ls ++ ['\n'] := by
  show joinLines (ls ++ [[]]) = endLine (joinLines ls)
  have hend : endLine (joinLines (ls ++ [[]])) = endLine (endLine (joinLines ls)) := by
    rw [endLine_joinLines (by simp), endLine_joinLines h, List.flatMap_append]
    simp [endLine]
  exact List.append_cancel_right hend

theorem splitOn_endLine (t : Text) : (endLine t).splitOn '\n' = t.splitOn '\n' ++ [[]] := by
  rw [endLine, List.splitOn_append_cons_self]
  simp

theorem readBody_concat_nil (body : List Text) (o n : ℕ) :
    readBody (body ++ [[]]) o n = readBody body o n := by
  induction body generalizing o n with
  | nil =>
    by_cases hzero : o = 0 ∧ n = 0
    · simp [readBody, hzero]
    · simp [readBody, hzero]
  | cons line rest ih =>
    have heol : eolOf (rest ++ [[]]) = eolOf rest := by
      cases rest with
      | nil => rfl
      | cons l rest =>
        cases l with
        | nil => rfl
        | cons c l => by_cases hc : c = '\\' <;> simp [eolOf, hc]
    rw [List.cons_append]
    unfold readBody
    simp only [ih, heol]

/-- Two hunks that differ at most in a line feed at the end. -/
structure SameHunk (h h' : DiffHunk) : Prop where
  header : h'.header = h.header
  content : h'.content = h.content ∨ h'.content = endLine h.content

theorem SameHunk.refl (h : DiffHunk) : SameHunk h h := ⟨rfl, .inl rfl⟩

theorem SameHunk.hunkEdit {h h' : DiffHunk} (hs : SameHunk h h') : hunkEdit h' = hunkEdit h := by
  obtain ⟨hheader, hcontent⟩ := hs
  have hold : h'.oldCount = h.oldCount := congrArg HunkHeader.oldCount hheader
  have hnew : h'.newCount = h.newCount := congrArg HunkHeader.newCount hheader
  rw [Review.hunkEdit, Review.hunkEdit, hheader, hold, hnew]
  rcases hcontent with hcontent | hcontent
  · rw [hcontent]
  · have htail : ((h.content.splitOn '\n') ++ [[]]).tail = (h.content.splitOn '\n').tail ++ [[]] :=
      List.tail_append_of_ne_nil (List.splitOn_ne_nil _ _)
    rw [hcontent, splitOn_endLine, htail, readBody_concat_nil]

theorem hunkEdits_eq_of_same {hs hs' : List DiffHunk} (h : List.Forall₂ SameHunk hs hs') :
    hunkEdits hs' = hunkEdits hs := by
  induction h with
  | nil => rfl
  | cons hsame _ ih => rw [hunkEdits, hunkEdits, hsame.hunkEdit, ih]

theorem parseSectionLines_concat_nil (ls : List Text) (st : SectionState) :
    (parseSectionLines (ls ++ [[]]) st).changeType = (parseSectionLines ls st).changeType ∧
      List.Forall₂ SameHunk (parseSectionLines ls st).hunks
        (parseSectionLines (ls ++ [[]]) st).hunks := by
  have hrefl : ∀ hs : List DiffHunk, List.Forall₂ SameHunk hs hs := fun hs =>
    List.forall₂_same.mpr fun h _ => .refl h
  have hempty : ∀ st, parseSectionLines [[]] st = st := by
    intro st
    rw [parseSectionLines, if_neg (by decide), parseSectionLines]
    rfl
  induction ls, st using parseSectionLines.induct with
  | case1 st =>
    rw [List.nil_append, hempty, parseSectionLines]
    exact ⟨rfl, hrefl _⟩
  | case2 line rest st hline oldStart oldCount newStart newCount hheader body ih =>
    rw [List.cons_append, parseSectionLines, if_pos hline, hheader, parseSectionLines,
      if_pos hline, hheader]
    rcases span_concat (p := (!isHunkHeader ·)) (a := ([] : Text)) (by decide) rest with
      ⟨htake, hdrop, htake', hdrop'⟩ | ⟨htake, hdrop⟩
    · -- the hunk is the last one, and takes the empty line
      simp only [htake, hdrop, htake', hdrop', parseSectionLines]
      refine ⟨trivial, List.rel_append (hrefl _) (.cons ⟨rfl, .inr ?_⟩ .nil)⟩
      exact joinLines_concat_nil (List.cons_ne_nil line rest)
    · simp only [htake, hdrop]
      exact ih
  | case3 line rest st hline hheader ih =>
    rw [List.cons_append, parseSectionLines, if_pos hline, hheader, parseSectionLines,
      if_pos hline, hheader]
    exact ih
  | case4 line rest st hline ih =>
    rw [List.cons_append, parseSectionLines, if_neg hline, parseSectionLines, if_neg hline]
    exact ih

def SameChange (fc fc' : FileChange) : Prop := patchChange fc' = patchChange fc

theorem sameChange_of_hunks {fc fc' : FileChange} (hpath : fc'.filePath = fc.filePath)
    (hkind : fc'.changeType = fc.changeType) (hhunks : List.Forall₂ SameHunk fc.hunks fc'.hunks)
    (hraw : fc'.rawDiff = endLine fc.rawDiff) : SameChange fc fc' := by
  have hread : HeadersRead fc' ↔ HeadersRead fc := by
    have hempty : isHunkHeader [] = false := by decide
    rw [HeadersRead, HeadersRead, hraw, splitOn_endLine, List.countP_append, hhunks.length_eq]
    simp [hempty]
  have hpatch : ∀ old, patchHunks fc' old = patchHunks fc old := by
    intro old
    rw [patchHunks, patchHunks, hunkEdits_eq_of_same hhunks]
    exact if_congr hread rfl rfl
  funext files
  rw [patchChange, patchChange, hkind, hpath]
  simp only [hpatch]

/-- A section, and the same section with an empty line after it. -/
def Padded (s s' : List Text) : Prop := s ≠ [] ∧ (s' = s ∨ s' = s ++ [[]])

theorem groupSections_concat_nil (ls : List Text) :
    List.Forall₂ Padded (groupSections ls) (groupSections (ls ++ [[]])) := by
  induction ls using groupSections.induct with
  | case1 =>
    rw [groupSections, List.nil_append, groupSections, if_neg (by decide), groupSections]
    exact .nil
  | case2 line rest hline ih =>
    rw [List.cons_append, groupSections, if_pos hline, groupSections, if_pos hline]
    rcases span_concat (p := (!isHeader ·)) (a := ([] : Text)) (by decide) rest with
      ⟨htake, hdrop, htake', hdrop'⟩ | ⟨htake, hdrop⟩
    · rw [htake, hdrop, htake', hdrop', groupSections]
      exact .cons ⟨List.cons_ne_nil line rest, .inr rfl⟩ .nil
    · rw [htake, hdrop]
      exact .cons ⟨List.cons_ne_nil line _, .inl rfl⟩ ih
  | case3 line rest hline ih =>
    rw [List.cons_append, groupSections, if_neg hline, groupSections, if_neg hline]
    exact ih

theorem readSection_padded {s s' : List Text} (h : Padded s s') :
    (readSection s = none ∧ readSection s' = none) ∨
      ∃ fc fc', readSection s = some fc ∧ readSection s' = some fc' ∧ SameChange fc fc' := by
  obtain ⟨hne, rfl | rfl⟩ := h
  · cases hread : readSection s' with
    | none => exact .inl ⟨rfl, rfl⟩
    | some fc => exact .inr ⟨fc, fc, rfl, rfl, rfl⟩
  · cases s with
    | nil => exact absurd rfl hne
    | cons header rest =>
      rw [readSection, readSection, List.cons_append, parseSingleFileDiff, parseSingleFileDiff]
      cases hpath : extractPathFromDiffHeader header with
      | none => exact .inl ⟨rfl, rfl⟩
      | some path =>
        obtain ⟨hkind, hhunks⟩ := parseSectionLines_concat_nil rest
          { changeType := .modified, renameFrom := none, hunks := [] }
        refine .inr ⟨_, _, rfl, rfl, sameChange_of_hunks rfl hkind hhunks ?_⟩
        exact joinLines_concat_nil hne

theorem readSections_padded {ss ss' : List (List Text)} (h : List.Forall₂ Padded ss ss') :
    (readSections ss = none ∧ readSections ss' = none) ∨
      ∃ fcs fcs', readSections ss = some fcs ∧ readSections ss' = some fcs' ∧
        List.Forall₂ SameChange fcs fcs' := by
  induction h with
  | nil => exact .inr ⟨[], [], rfl, rfl, .nil⟩
  | cons hs _ ih =>
    rw [readSections, readSections]
    rcases readSection_padded hs with ⟨hnone, hnone'⟩ | ⟨fc, fc', hfc, hfc', hsame⟩
    · rw [hnone, hnone']
      exact .inl ⟨rfl, rfl⟩
    · rw [hfc, hfc']
      rcases ih with ⟨hnone, hnone'⟩ | ⟨fcs, fcs', hfcs, hfcs', hrest⟩
      · rw [hnone, hnone']
        exact .inl ⟨rfl, rfl⟩
      · rw [hfcs, hfcs']
        exact .inr ⟨fc :: fcs, fc' :: fcs', rfl, rfl, .cons hsame hrest⟩

theorem runAll_same {fcs fcs' : List FileChange} (h : List.Forall₂ SameChange fcs fcs')
    (files : Files) : runAll patchChange fcs' files = runAll patchChange fcs files := by
  induction h generalizing files with
  | nil => rfl
  | cons hsame _ ih =>
    rw [runAll, runAll, hsame]
    split
    · rfl
    · exact ih _

theorem patchFiles_endLine (diff : Text) : patchFiles (endLine diff) = patchFiles diff := by
  funext files
  rw [patchFiles, patchFiles, readDiff, readDiff, sections, sections, splitOn_endLine]
  rcases readSections_padded (groupSections_concat_nil (diff.splitOn '\n')) with
    ⟨hnone, hnone'⟩ | ⟨fcs, fcs', hfcs, hfcs', hsame⟩
  · rw [hnone, hnone']
  · rw [hfcs, hfcs']
    exact runAll_same hsame files

theorem infix_joinLines {l : Text} {ls : List Text} (h : l ∈ ls) : l <:+: joinLines ls := by
  induction ls with
  | nil => exact absurd h List.not_mem_nil
  | cons x xs ih =>
    cases xs with
    | nil =>
      obtain rfl := List.mem_singleton.mp h
      simp [joinLines, List.intercalate]
    | cons y ys =>
      have hjoin : joinLines (x :: y :: ys) = x ++ '\n' :: joinLines (y :: ys) := by
        simp [joinLines, List.intercalate, List.intersperse]
      rw [hjoin]
      rcases List.mem_cons.mp h with rfl | h
      · exact (List.prefix_append _ _).isInfix
      · exact (ih h).trans ((List.suffix_cons _ _).trans (List.suffix_append x _)).isInfix

theorem groupSections_eq_nil {ls : List Text} (h : ∀ l ∈ ls, isHeader l = false) :
    groupSections ls = [] := by
  induction ls with
  | nil => rw [groupSections]
  | cons l ls ih =>
    rw [groupSections, if_neg (by simp [h l List.mem_cons_self])]
    exact ih fun l' hl' => h l' (List.mem_cons_of_mem l hl')

theorem patchFiles_of_no_header {diff : Text} (h : ¬ headerPrefix <:+: diff) (files : Files) :
    patchFiles diff files = some files := by
  have hlines : ∀ l ∈ diff.splitOn '\n', isHeader l = false := by
    intro l hl
    refine decide_eq_false fun hpre => h ?_
    have hinfix := infix_joinLines hl
    rw [joinLines, List.intercalate_splitOn] at hinfix
    exact hpre.isInfix.trans hinfix
  rw [patchFiles, readDiff, sections, groupSections_eq_nil hlines]
  rfl

end Mowis.Topology
