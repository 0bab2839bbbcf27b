import Mowis.Lib.Text

/-!
# Unified diffs

The diff analysis types and the diff parser of
`agentd/src/orchestration/merge_reviewer.rs`.
-/

namespace Mowis.Review

open Mowis.Lib

inductive ChangeType where
  | added
  | modified
  | deleted
  | renamed (from_ : Text)
  deriving DecidableEq, Repr

structure DiffHunk where
  oldStart : UInt32
  oldCount : UInt32
  newStart : UInt32
  newCount : UInt32
  content : Text
  deriving DecidableEq, Repr

structure FileChange where
  filePath : Text
  changeType : ChangeType
  hunks : List DiffHunk
  rawDiff : Text
  deriving DecidableEq, Repr

structure AgentContribution where
  agentId : Text
  taskId : Text
  taskDescription : Text
  fileChanges : List FileChange
  rawDiff : Text
  deriving DecidableEq, Repr

def headerPrefix : Text := "diff --git ".toList

def headerPathPrefix : Text := "diff --git a/".toList

def bPrefix : Text := [' ', 'b', '/']

def hunkPrefix : Text := "@@ ".toList

def newFileMode : Text := "new file mode".toList

def deletedFileMode : Text := "deleted file mode".toList

def renameFromPrefix : Text := "rename from ".toList

def renameToPrefix : Text := "rename to ".toList

def oldLabelPrefix : Text := "--- ".toList

def newLabelPrefix : Text := "+++ ".toList

def keywords : List Text :=
  [newFileMode, deletedFileMode, renameFromPrefix, renameToPrefix, oldLabelPrefix, newLabelPrefix]

def devNull : Text := "/dev/null".toList

def isHeader (line : Text) : Bool := headerPrefix <+: line

def isHunkHeader (line : Text) : Bool := hunkPrefix <+: line

theorem isHeader_cons_ne {c : Char} (hc : c ≠ 'd') (t : Text) : isHeader (c :: t) = false := by
  apply decide_eq_false
  intro h
  exact hc (List.cons_prefix_cons.mp h).1.symm

theorem isHunkHeader_cons_ne {c : Char} (hc : c ≠ '@') (t : Text) :
    isHunkHeader (c :: t) = false := by
  apply decide_eq_false
  intro h
  exact hc (List.cons_prefix_cons.mp h).1.symm

theorem headerPathPrefix_eq : headerPathPrefix = headerPrefix ++ ['a', '/'] := by
  decide

theorem splitLast_bPrefix {v : Text} (h : splitLast bPrefix v = none) (u : Text) :
    splitLast bPrefix (u ++ (bPrefix ++ v)) = some (u, v) := by
  have htail : splitLast bPrefix ('b' :: '/' :: v) = none :=
    splitLast_cons_ne (by decide) (splitLast_cons_ne (by decide) h)
  have hpat : splitLast bPrefix (bPrefix ++ v) = some ([], v) :=
    splitLast_pattern rfl htail
  simpa using splitLast_append_some hpat u

def extractPathFromDiffHeader (header : Text) : Option Text :=
  match afterPrefix headerPathPrefix header with
  | none => none
  | some rest =>
    match splitLast bPrefix rest with
    | some (_, path) => some path
    | none => some rest

/-- `start,count`, or `start` for a count of one. -/
def parseRange (s : Text) : Option (UInt32 × UInt32) :=
  match splitFirst [','] s with
  | some (start, count) =>
    match parseU32 start, parseU32 count with
    | some start, some count => some (start, count)
    | _, _ => none
  | none =>
    match parseU32 s with
    | some start => some (start, 1)
    | none => none

/-- `@@ -old_start,old_count +new_start,new_count @@`. -/
def parseHunkHeader (line : Text) : Option (UInt32 × UInt32 × UInt32 × UInt32) :=
  match afterPrefix hunkPrefix line with
  | none => none
  | some rest =>
    match splitFirst " @@".toList rest with
    | none => none
    | some (ranges, _) =>
      match splitFirst [' '] ranges with
      | none => none
      | some (old, new) =>
        match afterPrefix ['-'] old, afterPrefix ['+'] new with
        | some old, some new =>
          match parseRange old, parseRange new with
          | some (oldStart, oldCount), some (newStart, newCount) =>
            some (oldStart, oldCount, newStart, newCount)
          | _, _ => none
        | _, _ => none

/-- What is known of a section while its lines are read. -/
structure SectionState where
  changeType : ChangeType
  renameFrom : Option Text
  hunks : List DiffHunk

def metadataLine (line : Text) (st : SectionState) : SectionState :=
  if newFileMode <+: line then { st with changeType := .added }
  else if deletedFileMode <+: line then { st with changeType := .deleted }
  else if renameFromPrefix <+: line then
    { st with renameFrom := some (line.drop renameFromPrefix.length) }
  else if renameToPrefix <+: line then
    match st.renameFrom with
    | some from_ => { st with changeType := .renamed from_, renameFrom := none }
    | none => st
  else if oldLabelPrefix <+: line then
    if trimEnd line = oldLabelPrefix ++ devNull then { st with changeType := .added } else st
  else if newLabelPrefix <+: line then
    if trimEnd line = newLabelPrefix ++ devNull then { st with changeType := .deleted } else st
  else st

/-- The loop over the lines of a section.  A line that starts like a hunk header but cannot
be parsed is skipped. -/
def parseSectionLines : List Text → SectionState → SectionState
  | [], st => st
  | line :: rest, st =>
    if isHunkHeader line then
      match parseHunkHeader line with
      | some (oldStart, oldCount, newStart, newCount) =>
        let body := rest.takeWhile (!isHunkHeader ·)
        parseSectionLines (rest.dropWhile (!isHunkHeader ·))
          { st with
            hunks := st.hunks ++
              [{ oldStart, oldCount, newStart, newCount, content := joinLines (line :: body) }] }
      | none => parseSectionLines rest st
    else parseSectionLines rest (metadataLine line st)
termination_by ls => ls.length
decreasing_by
  · exact Nat.lt_succ_of_le (List.length_dropWhile_le _ _)
  · exact Nat.lt_succ_self _
  · exact Nat.lt_succ_self _

def parseSingleFileDiff (fileLines : List Text) (rawDiff : Text) : Option FileChange :=
  match fileLines with
  | [] => none
  | header :: rest =>
    match extractPathFromDiffHeader header with
    | none => none
    | some filePath =>
      let st := parseSectionLines rest { changeType := .modified, renameFrom := none, hunks := [] }
      some { filePath, changeType := st.changeType, hunks := st.hunks, rawDiff }

/-- The loop over the lines of a diff: a section goes from a header to the next one. -/
def parseSections : List Text → List FileChange
  | [] => []
  | line :: rest =>
    if isHeader line then
      let fileLines := line :: rest.takeWhile (!isHeader ·)
      (parseSingleFileDiff fileLines (joinLines fileLines)).toList ++
        parseSections (rest.dropWhile (!isHeader ·))
    else parseSections rest
termination_by ls => ls.length
decreasing_by
  · exact Nat.lt_succ_of_le (List.length_dropWhile_le _ _)
  · exact Nat.lt_succ_self _

def parseUnifiedDiff (rawDiff : Text) : List FileChange := parseSections (lines rawDiff)

end Mowis.Review
