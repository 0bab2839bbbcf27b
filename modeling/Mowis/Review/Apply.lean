import Mowis.Lib.Footprint
import Mowis.Review.Complete
import Mowis.Review.Faithful

/-!
# The meaning of a diff

What a diff does to the files of a tree, with the full context matched.  This is the format's
meaning, not code of the repository.  A file that is not there has no lines, so a hunk without
old lines makes it.
-/

namespace Mowis.Review

open Mowis.Lib

/-- The content of the file at a path, if there is one. -/
abbrev Files := Text → Option Text

def FileChange.renamedFrom (fc : FileChange) : Option Text :=
  match fc.changeType with
  | .renamed from_ => some from_
  | _ => none

def FileChange.paths (fc : FileChange) : Set Text :=
  {path | path = fc.filePath ∨ fc.renamedFrom = some path}

def HeadersRead (fc : FileChange) : Prop :=
  (fc.rawDiff.splitOn '\n').countP isHunkHeader = fc.hunks.length

instance (fc : FileChange) : Decidable (HeadersRead fc) := inferInstanceAs (Decidable (_ = _))

def applyHunks (fc : FileChange) (content : Text) : Option Text :=
  if HeadersRead fc then
    match hunkEdits fc.hunks with
    | none => none
    | some es => (applyPatch es (fileLines content)).map List.flatten
  else none

def applyChange (fc : FileChange) (files : Files) : Option Files :=
  match fc.changeType with
  | .added =>
    match files fc.filePath with
    | some _ => none
    | none =>
      (applyHunks fc []).map fun content => Function.update files fc.filePath (some content)
  | .modified =>
    (applyHunks fc ((files fc.filePath).getD [])).map fun content =>
      Function.update files fc.filePath (some content)
  | .deleted =>
    match files fc.filePath with
    | none => none
    | some old =>
      if applyHunks fc old = some [] then some (Function.update files fc.filePath none) else none
  | .renamed from_ =>
    match files from_, files fc.filePath with
    | some old, none =>
      (applyHunks fc old).map fun content =>
        Function.update (Function.update files from_ none) fc.filePath (some content)
    | _, _ => none

def applyChanges (fcs : List FileChange) (files : Files) : Option Files :=
  runAll applyChange fcs files

def readSection (s : List Text) : Option FileChange := parseSingleFileDiff s (joinLines s)

def readSections : List (List Text) → Option (List FileChange)
  | [] => some []
  | s :: ss =>
    match readSection s, readSections ss with
    | some fc, some fcs => some (fc :: fcs)
    | _, _ => none

def readDiff (diff : Text) : Option (List FileChange) := readSections (sections diff)

def applyDiff (diff : Text) (files : Files) : Option Files :=
  match readDiff diff with
  | none => none
  | some fcs => applyChanges fcs files

theorem parseRange_zero : parseRange "0,0".toList = some (0, 0) := by decide

theorem parseRange_one_count (n : ℕ) :
    parseRange ("1,".toList ++ showNat n) =
      if n < 2 ^ 32 then some (1, UInt32.ofNat n) else none := by
  have hone : parseU32 ['1'] = some 1 := by decide
  have hsplit : splitFirst [','] ("1,".toList ++ showNat n) = some (['1'], showNat n) :=
    splitFirst_char (c := ',') (a := ['1']) (by decide) (showNat n)
  rw [parseRange, hsplit]
  simp only [hone, showNat, parseU32_toDigits]
  by_cases hn : n < 2 ^ 32
  · simp only [if_pos hn]
  · simp only [if_neg hn]

theorem parseHunkHeader_synthesized (n : ℕ) :
    parseHunkHeader (hunkPrefix ++ "-0,0 +1,".toList ++ showNat n ++ " @@".toList) =
      if n < 2 ^ 32 then some (0, 0, 1, UInt32.ofNat n) else none := by
  have hat : '@' ∉ "-0,0 +1,".toList ++ showNat n := by
    simp [notMem_showNat (c := '@') (by decide) n]
  have hend : splitFirst " @@".toList
      (("-0,0 +1,".toList ++ showNat n) ++ (" @@".toList ++ [])) =
        some ("-0,0 +1,".toList ++ showNat n, []) :=
    splitFirst_second (by decide) hat _
  have hspace : splitFirst [' '] ("-0,0 +1,".toList ++ showNat n) =
      some ("-0,0".toList, "+1,".toList ++ showNat n) :=
    splitFirst_char (c := ' ') (a := "-0,0".toList) (by decide) _
  have hminus : afterPrefix ['-'] "-0,0".toList = some "0,0".toList := afterPrefix_append ['-'] _
  have hplus : afterPrefix ['+'] ("+1,".toList ++ showNat n) = some ("1,".toList ++ showNat n) :=
    afterPrefix_append ['+'] _
  rw [List.append_nil] at hend
  rw [parseHunkHeader, List.append_assoc, List.append_assoc, afterPrefix_append,
    ← List.append_assoc]
  simp only [hend, hspace, hminus, hplus, parseRange_zero, parseRange_one_count]
  by_cases hn : n < 2 ^ 32
  · simp only [if_pos hn]
  · simp only [if_neg hn]

theorem readBody_plus (ls : List Text) {tail : List Text} (htail : eolOf tail = ['\n'])
    (hend : readBody tail 0 0 = some ([], [])) :
    readBody (ls.map ('+' :: ·) ++ tail) 0 ls.length = some ([], ls.map endLine) := by
  induction ls with
  | nil => exact hend
  | cons l ls ih =>
    have heol : eolOf (ls.map ('+' :: ·) ++ tail) = ['\n'] := by
      cases ls with
      | nil => exact htail
      | cons l' ls => rfl
    rw [List.map_cons, List.cons_append, List.length_cons, readBody]
    simp only [Nat.add_sub_cancel, ih, heol]
    simp [endLine]

def addedHeader (content : Text) : Text :=
  hunkPrefix ++ "-0,0 +1,".toList ++ showNat (lines content).length ++ " @@".toList

theorem isHunkHeader_addedHeader (content : Text) : isHunkHeader (addedHeader content) = true := by
  apply decide_eq_true
  rw [addedHeader, List.append_assoc, List.append_assoc]
  exact List.prefix_append _ _

theorem parseSectionLines_no_hunk {ls : List Text} (h : ∀ l ∈ ls, isHunkHeader l = false)
    (st : SectionState) : (parseSectionLines ls st).hunks = st.hunks := by
  induction ls generalizing st with
  | nil => rw [parseSectionLines]
  | cons l ls ih =>
    rw [parseSectionLines, if_neg (by simp [h l List.mem_cons_self]),
      ih fun l' hl' => h l' (List.mem_cons_of_mem l hl')]
    unfold metadataLine
    split_ifs <;> first | rfl | (split <;> rfl)

theorem applyHunks_of_not_headersRead {fc : FileChange} (h : ¬ HeadersRead fc) (content : Text) :
    applyHunks fc content = none := if_neg h

theorem applyChange_of_not_headersRead {fc : FileChange} (h : ¬ HeadersRead fc) (files : Files) :
    applyChange fc files = none := by
  unfold applyChange
  split
  · split
    · rfl
    · rw [applyHunks_of_not_headersRead h]
      rfl
  · rw [applyHunks_of_not_headersRead h]
    rfl
  · split
    · rfl
    · rw [applyHunks_of_not_headersRead h]
      rfl
  · split
    · rw [applyHunks_of_not_headersRead h]
      rfl
    · rfl

end Mowis.Review
