import Mowis.Review.Apply

/-!
# The diff of captured files

The second strategy of `capture_agent_diff` in
`agentd/src/orchestration/sandbox_topology.rs`: the files of a container have been copied into
the project base, and the diff is written from the copies.
-/

namespace Mowis.Topology

open Mowis.Lib Mowis.Review

/-- What `find` has printed, without blank lines. -/
def fileList (filesRaw : Text) : List Text := (lines filesRaw).filter fun l => trim l ≠ []

def relativePath (filePath : Text) : Option Text :=
  let cleanPath := trim filePath
  if cleanPath = [] ∨ ".git".toList <+: cleanPath then none
  else some (trimStartMatches ['.', '/'] cleanPath)

def fileHeader (relative : Text) (lineCount : ℕ) : List Text :=
  [headerPathPrefix ++ relative ++ bPrefix ++ relative,
    newFileMode ++ " 100644".toList,
    "index 0000000..0000001".toList,
    oldLabelPrefix ++ devNull,
    newLabelPrefix ++ ['b', '/'] ++ relative,
    hunkPrefix ++ "-0,0 +1,".toList ++ showNat lineCount ++ " @@".toList]

def fileDiff (relative content : Text) : Text :=
  (fileHeader relative (lines content).length ++ (lines content).map ('+' :: ·)).flatMap endLine

/-- The loop over the files; `host` is what can be read in the project base. -/
def generateDiff (host : Text → Option Text) (files : List Text) : Text :=
  files.flatMap fun filePath =>
    match relativePath filePath with
    | none => []
    | some relative =>
      match host relative with
      | none => []
      | some content => fileDiff relative content

/-- The end of `capture_agent_diff`. -/
def fallbackDiff (host : Text → Option Text) (filesRaw : Text) : Text :=
  if fileList filesRaw = [] then []
  else
    let diffOutput := generateDiff host (fileList filesRaw)
    if trim diffOutput = [] then [] else diffOutput

def captured (host : Text → Option Text) (filesRaw : Text) : List (Text × Text) :=
  (fileList filesRaw).filterMap fun filePath =>
    (relativePath filePath).bind fun relative => (host relative).map (relative, ·)

/-- The captured files are made, and nothing else. -/
structure Makes (files : List (Text × Text)) (tree tree' : Files) : Prop where
  made : ∀ f ∈ files, tree' f.1 = some f.2
  others : ∀ path, path ∉ files.map Prod.fst → tree' path = tree path

/-- Names and contents that the lines of the diff can hold. -/
structure Held (files : List (Text × Text)) : Prop where
  nodup : (files.map Prod.fst).Nodup
  path : ∀ f ∈ files, ¬ bPrefix <:+: f.1
  content : ∀ f ∈ files, f.2 ≠ [] ∧ UnixLines f.2 ∧ (lines f.2).length < 2 ^ 32

theorem notMem_trimStartMatches {c : Char} {pat t : Text} (h : c ∉ t) :
    c ∉ trimStartMatches pat t := by
  induction t using trimStartMatches.induct pat with
  | case1 t hpat ih =>
    rw [trimStartMatches, dif_pos hpat]
    exact ih fun hmem => h (List.mem_of_mem_drop hmem)
  | case2 t hpat =>
    rw [trimStartMatches, dif_neg hpat]
    exact h

theorem getLast?_trimStartMatches {c : Char} {pat t : Text}
    (h : (trimStartMatches pat t).getLast? = some c) : t.getLast? = some c := by
  induction t using trimStartMatches.induct pat with
  | case1 t hpat ih =>
    rw [trimStartMatches, dif_pos hpat] at h
    have hdrop := ih h
    rw [List.getLast?_drop] at hdrop
    split at hdrop
    · cases hdrop
    · exact hdrop
  | case2 t hpat => rwa [trimStartMatches, dif_neg hpat] at h

theorem relativePath_spec {filesRaw filePath relative : Text} (hmem : filePath ∈ fileList filesRaw)
    (h : relativePath filePath = some relative) :
    '\n' ∉ relative ∧ relative.getLast? ≠ some '\r' := by
  have hline : '\n' ∉ filePath := notMem_lines (List.mem_of_mem_filter hmem)
  have htrim : '\n' ∉ trim filePath := fun hin =>
    hline ((List.dropWhile_sublist _).subset ((List.rdropWhile_prefix _ _).subset hin))
  unfold relativePath at h
  simp only at h
  split at h
  · cases h
  · cases h
    refine ⟨notMem_trimStartMatches htrim, fun hlast => ?_⟩
    have hend := getLast?_trimStartMatches hlast
    rw [trim, trimEnd] at hend
    have hne : (filePath.dropWhile isWhitespace).rdropWhile isWhitespace ≠ [] := by
      intro hnil
      rw [hnil] at hend
      cases hend
    rw [List.getLast?_eq_some_getLast hne] at hend
    have hno := List.rdropWhile_last_not isWhitespace _ hne
    rw [Option.some.inj hend] at hno
    exact hno (by decide)

/-- What the parser takes for the path: what follows the last ` b/`. -/
def readPath (relative : Text) : Text :=
  match splitLast bPrefix relative with
  | some (_, path) => path
  | none => relative

theorem extractPath_fileHeader (relative : Text) :
    extractPathFromDiffHeader (headerPathPrefix ++ relative ++ bPrefix ++ relative) =
      some (readPath relative) := by
  rw [extractPathFromDiffHeader, List.append_assoc, List.append_assoc, afterPrefix_append]
  unfold readPath
  cases h : splitLast bPrefix relative with
  | none => simp only [splitLast_bPrefix h]
  | some p =>
    have hlater := splitLast_append_some h (relative ++ bPrefix)
    rw [List.append_assoc] at hlater
    simp only [hlater]

theorem not_infix_readPath (relative : Text) : ¬ bPrefix <:+: readPath relative := by
  unfold readPath
  split
  · next path h => exact not_infix_of_splitLast (by decide) h
  · next h => exact (splitLast_eq_none_iff (by decide)).mp h

theorem readPath_eq_self {relative : Text} (h : ¬ bPrefix <:+: relative) :
    readPath relative = relative := by
  rw [readPath, (splitLast_eq_none_iff (by decide)).mpr h]

/-- The lines of a section as they are read: a carriage return at the end of a line is dropped. -/
def readBodyLines (content : Text) : List Text := (lines content).map fun l => '+' :: dropCR l

def readSectionLines (f : Text × Text) : List Text :=
  fileHeader f.1 (lines f.2).length ++ readBodyLines f.2

def addedChange (f : Text × Text) : FileChange :=
  let st := parseSectionLines (readSectionLines f).tail .initial
  { filePath := readPath f.1, changeType := st.changeType, hunks := st.hunks,
    rawDiff := joinLines (readSectionLines f) }

theorem parse_readSectionLines (f : Text × Text) :
    parseSingleFileDiff (readSectionLines f) (joinLines (readSectionLines f)) =
      some (addedChange f) := by
  show parseSingleFileDiff ((headerPathPrefix ++ f.1 ++ bPrefix ++ f.1) :: _) _ = _
  rw [parseSingleFileDiff, extractPath_fileHeader]
  rfl

theorem generateDiff_eq (host : Text → Option Text) (files : List Text) :
    generateDiff host files = (files.filterMap fun filePath =>
      (relativePath filePath).bind fun relative => (host relative).map (relative, ·)).flatMap
        fun f => fileDiff f.1 f.2 := by
  induction files with
  | nil => rfl
  | cons filePath files ih =>
    rw [generateDiff, List.flatMap_cons, ← generateDiff, ih]
    cases hpath : relativePath filePath with
    | none => rw [List.filterMap_cons_none (by rw [hpath]; rfl), List.nil_append]
    | some relative =>
      cases hread : host relative with
      | none =>
        simp only [hread]
        rw [List.filterMap_cons_none (by rw [hpath, Option.bind_some, hread]; rfl),
          List.nil_append]
      | some content =>
        simp only [hread]
        rw [List.filterMap_cons_some (by rw [hpath, Option.bind_some, hread]; rfl),
          List.flatMap_cons]

theorem trim_ne_nil {t : Text} {c : Char} (hc : t.head? = some c) (hp : isWhitespace c = false) :
    trim t ≠ [] := by
  intro h
  obtain ⟨t, rfl⟩ := List.head?_eq_some_iff.mp hc
  rw [trim, List.dropWhile_cons_of_neg (by simp [hp])] at h
  have hall := List.rdropWhile_eq_nil_iff.mp h c List.mem_cons_self
  rw [hp] at hall
  cases hall

theorem head?_fileDiff (relative content rest : Text) :
    (fileDiff relative content ++ rest).head? = some 'd' := rfl

theorem fallbackDiff_eq (host : Text → Option Text) (filesRaw : Text) :
    fallbackDiff host filesRaw =
      (captured host filesRaw).flatMap fun f => fileDiff f.1 f.2 := by
  unfold fallbackDiff
  rw [generateDiff_eq]
  show _ = (captured host filesRaw).flatMap _
  split
  · next hnil =>
    rw [captured, hnil]
    rfl
  · show (if trim ((captured host filesRaw).flatMap fun f => fileDiff f.1 f.2) = [] then _ else _) =
      _
    split
    · next hblank =>
      cases hfiles : captured host filesRaw with
      | nil => rfl
      | cons f fs =>
        rw [hfiles, List.flatMap_cons] at hblank
        exact absurd hblank (trim_ne_nil (head?_fileDiff f.1 f.2 _) (by decide))
    · rfl

theorem captured_spec {host : Text → Option Text} {filesRaw : Text} {f : Text × Text}
    (hf : f ∈ captured host filesRaw) : '\n' ∉ f.1 ∧ f.1.getLast? ≠ some '\r' := by
  obtain ⟨filePath, hmem, hf⟩ := List.mem_filterMap.mp hf
  obtain ⟨relative, hpath, hf⟩ := Option.bind_eq_some_iff.mp hf
  obtain ⟨content, -, rfl⟩ := Option.map_eq_some_iff.mp hf
  exact relativePath_spec hmem hpath

theorem notMem_fileHeader {relative : Text} (h : '\n' ∉ relative) (n : ℕ) :
    ∀ l ∈ fileHeader relative n, '\n' ∉ l := by
  have hdigits : '\n' ∉ showNat n := notMem_showNat (by decide) n
  simp only [fileHeader, List.forall_mem_cons, List.mem_append, not_or]
  refine ⟨⟨⟨⟨by decide, h⟩, by decide⟩, h⟩, ⟨by decide, by decide⟩, by decide,
    ⟨by decide, by decide⟩, ⟨⟨by decide, by decide⟩, h⟩, ⟨⟨⟨by decide, by decide⟩, hdigits⟩,
    by decide⟩, ?_⟩
  exact fun l hl => absurd hl List.not_mem_nil

theorem getLast?_append_path {pre relative : Text} (hpre : pre.getLast? ≠ some '\r')
    (h : relative.getLast? ≠ some '\r') : (pre ++ relative).getLast? ≠ some '\r' := by
  rw [List.getLast?_append]
  cases hlast : relative.getLast? with
  | none => exact hpre
  | some c =>
    rw [Option.some_or, ← hlast]
    exact h

theorem dropCR_fileHeader {relative : Text} (h : relative.getLast? ≠ some '\r') (n : ℕ) :
    (fileHeader relative n).map dropCR = fileHeader relative n := by
  have hb : ∀ pre : Text, (pre ++ bPrefix).getLast? ≠ some '\r' := by
    intro pre
    rw [List.getLast?_append_of_ne_nil _ (by decide)]
    decide
  have hend : (hunkPrefix ++ "-0,0 +1,".toList ++ showNat n ++ " @@".toList).getLast? ≠
      some '\r' := by
    rw [List.getLast?_append_of_ne_nil _ (by decide)]
    decide
  refine (List.map_congr_left ?_).trans (List.map_id _)
  simp only [fileHeader, List.forall_mem_cons, id_eq]
  refine ⟨dropCR_eq_self (getLast?_append_path (hb _) h), dropCR_eq_self (by decide),
    dropCR_eq_self (by decide), dropCR_eq_self (by decide),
    dropCR_eq_self (getLast?_append_path (by decide) h), dropCR_eq_self hend, ?_⟩
  exact fun l hl => absurd hl List.not_mem_nil

theorem lines_generated {files : List (Text × Text)}
    (h : ∀ f ∈ files, '\n' ∉ f.1 ∧ f.1.getLast? ≠ some '\r') :
    lines (files.flatMap fun f => fileDiff f.1 f.2) = files.flatMap readSectionLines := by
  have hjoined : (files.flatMap fun f => fileDiff f.1 f.2) =
      (files.flatMap fun f =>
        fileHeader f.1 (lines f.2).length ++ (lines f.2).map ('+' :: ·)).flatMap endLine := by
    rw [List.flatMap_assoc]
    rfl
  rw [hjoined, lines_flatMap_endLine, List.map_flatMap]
  · refine List.flatMap_congr fun f hf => ?_
    rw [List.map_append, dropCR_fileHeader (h f hf).2, readSectionLines, readBodyLines,
      List.map_map]
    refine congrArg _ (List.map_congr_left fun l _ => ?_)
    exact dropCR_cons (by decide) l
  · intro l hl
    obtain ⟨f, hf, hl⟩ := List.mem_flatMap.mp hl
    rcases List.mem_append.mp hl with hl | hl
    · exact notMem_fileHeader (h f hf).1 _ l hl
    · obtain ⟨l', hl', rfl⟩ := List.mem_map.mp hl
      simp [notMem_lines hl']

theorem readBodyLines_spec {content l : Text} (hl : l ∈ readBodyLines content) :
    isHeader l = false ∧ isHunkHeader l = false ∧ '\n' ∉ l := by
  obtain ⟨l', hl', rfl⟩ := List.mem_map.mp hl
  refine ⟨isHeader_cons_ne (by decide) _, isHunkHeader_cons_ne (by decide) _, ?_⟩
  simpa using fun hmem => notMem_lines hl' ((dropCR_isPrefix l').subset hmem)

theorem readSectionLines_cons (f : Text × Text) :
    readSectionLines f =
      (headerPathPrefix ++ f.1 ++ bPrefix ++ f.1) :: (readSectionLines f).tail := rfl

theorem isHeader_first (relative : Text) :
    isHeader (headerPathPrefix ++ relative ++ bPrefix ++ relative) = true := by
  apply decide_eq_true
  rw [headerPathPrefix_eq, List.append_assoc, List.append_assoc, List.append_assoc]
  exact List.prefix_append _ _

theorem not_header_of_mem_tail {f : Text × Text} {l : Text} (hl : l ∈ (readSectionLines f).tail) :
    isHeader l = false := by
  have hl : l ∈ (fileHeader f.1 (lines f.2).length).tail ++ readBodyLines f.2 := hl
  rcases List.mem_append.mp hl with hl | hl
  · simp only [fileHeader, List.tail_cons, List.mem_cons, List.not_mem_nil, or_false] at hl
    obtain rfl | rfl | rfl | rfl | rfl := hl
    · decide
    · decide
    · decide
    · exact isHeader_cons_ne (c := '+') (by decide) _
    · exact isHeader_cons_ne (c := '@') (by decide) _
  · exact (readBodyLines_spec hl).1

theorem parseSections_generated (files : List (Text × Text)) :
    parseSections (files.flatMap readSectionLines) = files.map addedChange := by
  induction files with
  | nil => rw [List.flatMap_nil, parseSections, List.map_nil]
  | cons f fs ih =>
    have hnext : ∀ l, (fs.flatMap readSectionLines).head? = some l → isHeader l = true := by
      intro l hl
      cases fs with
      | nil => cases hl
      | cons g gs =>
        cases hl
        exact isHeader_first g.1
    rw [List.flatMap_cons, readSectionLines_cons f, parseSections_block (isHeader_first f.1)
      (fun l hl => not_header_of_mem_tail hl) hnext, ← readSectionLines_cons f,
      parse_readSectionLines, ih]
    rfl

theorem parse_fallbackDiff (host : Text → Option Text) (filesRaw : Text) :
    parseUnifiedDiff (fallbackDiff host filesRaw) =
      (captured host filesRaw).map addedChange := by
  rw [parseUnifiedDiff, fallbackDiff_eq, lines_generated fun f hf => captured_spec hf,
    parseSections_generated]

def rewritten (content : Text) : Text := ((lines content).map dropCR).flatMap endLine

def fileHunk (content : Text) : DiffHunk where
  oldStart := 0
  oldCount := 0
  newStart := 1
  newCount := UInt32.ofNat (lines content).length
  content := joinLines (addedHeader content :: readBodyLines content)

theorem parseSectionLines_file (f : Text × Text) :
    parseSectionLines (readSectionLines f).tail .initial =
      parseSectionLines (addedHeader f.2 :: readBodyLines f.2)
        { SectionState.initial with changeType := .added } := by
  have hindex : metadataLine "index 0000000..0000001".toList
      { SectionState.initial with changeType := .added } =
        { SectionState.initial with changeType := .added } := by
    have hother := metadataLine_other (b := "index 0000000..0000001".toList)
      (by decide) [] { SectionState.initial with changeType := .added }
    rwa [List.append_nil] at hother
  have hmodeLine : Metadata (newFileMode ++ " 100644".toList) :=
    Metadata.of_ne (c := 'n') (by decide) (by decide) (by decide) _
  have hindexLine : Metadata "index 0000000..0000001".toList :=
    Metadata.of_ne (c := 'i') (by decide) (by decide) (by decide) _
  have holdLine : Metadata (oldLabelPrefix ++ devNull) :=
    Metadata.of_ne (c := '-') (by decide) (by decide) (by decide) _
  have hnewLine : Metadata (newLabelPrefix ++ 'b' :: '/' :: f.1) :=
    Metadata.of_ne (c := '+') (by decide) (by decide) (by decide) _
  have htail : (readSectionLines f).tail =
      (newFileMode ++ " 100644".toList) :: "index 0000000..0000001".toList ::
        (oldLabelPrefix ++ devNull) :: (newLabelPrefix ++ 'b' :: '/' :: f.1) ::
          addedHeader f.2 :: readBodyLines f.2 := by
    simp [readSectionLines, fileHeader, addedHeader]
  rw [htail, parseSectionLines_metadata hmodeLine, metadataLine_newFile,
    parseSectionLines_metadata hindexLine, hindex, parseSectionLines_metadata holdLine,
    metadataLine_oldLabel, if_pos (by decide), parseSectionLines_metadata hnewLine,
    metadataLine_newLabel, if_neg (label_ne_devNull (by simp) _)]

theorem addedChange_spec (f : Text × Text) :
    if (lines f.2).length < 2 ^ 32 then
      (addedChange f).changeType = .added ∧ (addedChange f).hunks = [fileHunk f.2]
    else (addedChange f).hunks = [] := by
  have hbody : ∀ l ∈ readBodyLines f.2, (!isHunkHeader l) = true :=
    fun l hl => by simp [(readBodyLines_spec hl).2.1]
  have htake := List.takeWhile_eq_self_iff.mpr hbody
  have hdrop := List.dropWhile_eq_nil_iff.mpr hbody
  have hstate : parseSectionLines (addedHeader f.2 :: readBodyLines f.2)
      { SectionState.initial with changeType := .added } =
        if (lines f.2).length < 2 ^ 32 then
          { SectionState.initial with changeType := .added, hunks := [fileHunk f.2] }
        else parseSectionLines (readBodyLines f.2)
          { SectionState.initial with changeType := .added } := by
    rw [parseSectionLines, if_pos (isHunkHeader_addedHeader f.2), htake, hdrop, addedHeader,
      parseHunkHeader_synthesized]
    by_cases hcount : (lines f.2).length < 2 ^ 32
    · simp only [if_pos hcount, parseSectionLines]
      rfl
    · simp only [if_neg hcount]
  unfold addedChange
  simp only [parseSectionLines_file, hstate]
  by_cases hcount : (lines f.2).length < 2 ^ 32
  · simp only [if_pos hcount, and_self]
  · simp only [if_neg hcount]
    exact parseSectionLines_no_hunk (fun l hl => (readBodyLines_spec hl).2.1) _

theorem splitOn_rawDiff {f : Text × Text} (h : '\n' ∉ f.1) :
    (addedChange f).rawDiff.splitOn '\n' = readSectionLines f := by
  refine List.splitOn_intercalate '\n' (fun l hl => ?_) (List.cons_ne_nil _ _)
  rcases List.mem_append.mp hl with hl | hl
  · exact notMem_fileHeader h _ l hl
  · exact (readBodyLines_spec hl).2.2

theorem countP_readSectionLines (f : Text × Text) :
    (readSectionLines f).countP isHunkHeader = 1 := by
  have hbody : (readBodyLines f.2).countP isHunkHeader = 0 :=
    List.countP_eq_zero.mpr fun l hl => by simp [(readBodyLines_spec hl).2.1]
  have h1 : isHunkHeader (headerPathPrefix ++ f.1 ++ bPrefix ++ f.1) = false :=
    isHunkHeader_cons_ne (c := 'd') (by decide) _
  have h2 : isHunkHeader (newFileMode ++ " 100644".toList) = false := by decide
  have h3 : isHunkHeader "index 0000000..0000001".toList = false := by decide
  have h4 : isHunkHeader (oldLabelPrefix ++ devNull) = false := by decide
  have h5 : isHunkHeader (newLabelPrefix ++ ['b', '/'] ++ f.1) = false :=
    isHunkHeader_cons_ne (c := '+') (by decide) _
  have h6 := isHunkHeader_addedHeader f.2
  rw [addedHeader] at h6
  rw [readSectionLines, List.countP_append, hbody, fileHeader, List.countP_cons, List.countP_cons,
    List.countP_cons, List.countP_cons, List.countP_cons, List.countP_cons, h1, h2, h3, h4, h5, h6]
  rfl

theorem splitOn_fileHunk (content : Text) :
    (fileHunk content).content.splitOn '\n' = addedHeader content :: readBodyLines content := by
  refine List.splitOn_intercalate '\n' (fun l hl => ?_) (List.cons_ne_nil _ _)
  rcases List.mem_cons.mp hl with rfl | hl
  · have hhunk : '\n' ∉ hunkPrefix := by decide
    simp [addedHeader, hhunk, notMem_showNat (c := '\n') (by decide)]
  · exact (readBodyLines_spec hl).2.2

theorem hunkEdit_fileHunk {content : Text} (hcount : (lines content).length < 2 ^ 32) :
    hunkEdit (fileHunk content) =
      if content = [] then none
      else some { pos := 0, old := [], new := ((lines content).map dropCR).map endLine } := by
  have hnat : (UInt32.ofNat (lines content).length).toNat = (lines content).length :=
    UInt32.toNat_ofNat_of_lt hcount
  split
  · next hnil =>
    rw [hunkEdit, if_neg]
    intro hwf
    refine hwf.2 rfl ?_
    rw [hnil]
    rfl
  · next hcontent =>
    have hpos := List.length_pos_iff.mpr (lines_ne_nil hcontent)
    have hwf : (fileHunk content).header.WellFormed := by
      refine ⟨fun h => absurd rfl h, fun _ hzero => ?_⟩
      have hlen := congrArg UInt32.toNat hzero
      rw [show (fileHunk content).header.newCount = UInt32.ofNat (lines content).length from rfl,
        hnat] at hlen
      have hz : (0 : UInt32).toNat = 0 := rfl
      omega
    have hbody : readBody (readBodyLines content) (fileHunk content).oldCount.toNat
        (fileHunk content).newCount.toNat =
          some ([], ((lines content).map dropCR).map endLine) := by
      show readBody (readBodyLines content) 0 (UInt32.ofNat (lines content).length).toNat = _
      have hread := @readBody_plus ((lines content).map dropCR) [] rfl rfl
      rw [List.append_nil, List.map_map, List.length_map] at hread
      rw [hnat]
      exact hread
    rw [hunkEdit, if_pos hwf, splitOn_fileHunk, List.tail_cons, hbody]
    rfl

theorem applyChange_addedChange {f : Text × Text} (h : '\n' ∉ f.1) (tree : Files) :
    applyChange (addedChange f) tree =
      if tree (readPath f.1) = none ∧ f.2 ≠ [] ∧ (lines f.2).length < 2 ^ 32 then
        some (Function.update tree (readPath f.1) (some (rewritten f.2)))
      else none := by
  have hspec := addedChange_spec f
  have hcount : ((addedChange f).rawDiff.splitOn '\n').countP isHunkHeader = 1 := by
    rw [splitOn_rawDiff h, countP_readSectionLines]
  by_cases hsmall : (lines f.2).length < 2 ^ 32
  · rw [if_pos hsmall] at hspec
    obtain ⟨hkind, hhunks⟩ := hspec
    have hread : HeadersRead (addedChange f) := by
      rw [HeadersRead, hcount, hhunks]
      rfl
    have hedits : hunkEdits (addedChange f).hunks = if f.2 = [] then none
        else some [{ pos := 0, old := [], new := ((lines f.2).map dropCR).map endLine }] := by
      rw [hhunks, hunkEdits, hunkEdit_fileHunk hsmall]
      by_cases hnil : f.2 = []
      · simp only [if_pos hnil]
      · simp only [if_neg hnil, hunkEdits]
    have happly : applyHunks (addedChange f) [] =
        if f.2 = [] then none else some (rewritten f.2) := by
      rw [applyHunks, if_pos hread, hedits]
      by_cases hnil : f.2 = []
      · simp only [if_pos hnil]
      · simp [hnil, applyPatch, Ordered, applyEdits, Edit.apply, Edit.stop, splitInclusive,
          rewritten, List.flatMap]
    rw [applyChange, hkind]
    simp only [happly, show (addedChange f).filePath = readPath f.1 from rfl]
    cases htree : tree (readPath f.1) with
    | some old => simp
    | none =>
      by_cases hnil : f.2 = []
      · simp [hnil]
      · simpa [hnil] using hsmall
  · rw [if_neg hsmall] at hspec
    rw [if_neg fun hall => hsmall hall.2.2]
    refine applyChange_of_not_headersRead ?_ tree
    rw [HeadersRead, hcount, hspec]
    exact Nat.one_ne_zero

theorem rewritten_eq_self_iff (content : Text) : rewritten content = content ↔ UnixLines content := by
  constructor
  · intro h
    have hno : ∀ l ∈ (lines content).map dropCR, '\n' ∉ l := by
      intro l hl
      obtain ⟨l', hl', rfl⟩ := List.mem_map.mp hl
      exact fun hmem => notMem_lines hl' ((dropCR_isPrefix l').subset hmem)
    have hsplit : splitInclusive content = ((lines content).map dropCR).map endLine := by
      rw [← splitInclusive_flatMap_endLine hno, ← rewritten, h]
    have hlines : lines content = ((lines content).map dropCR).map dropCR := by
      rw [← lines_flatMap_endLine hno, ← rewritten, h]
    intro p hp
    rw [hsplit] at hp
    obtain ⟨l, hl, rfl⟩ := List.mem_map.mp hp
    have hfixed : ((lines content).map dropCR).map (dropCR ∘ dropCR) =
        ((lines content).map dropCR).map id := by
      rw [← List.map_map, ← hlines, List.map_id]
    have hl' : dropCR (dropCR l) = l := List.map_inj_left.mp hfixed l hl
    rw [endLine, List.getLast?_concat, List.dropLast_concat]
    refine ⟨rfl, fun hcr => ?_⟩
    have hlt := length_dropCR_lt hcr
    have hle := (dropCR_isPrefix (dropCR l)).length_le
    rw [hl'] at hle
    omega
  · intro h
    have hkept : (lines content).map dropCR = lines content := by
      refine (List.map_congr_left fun l hl => ?_).trans (List.map_id _)
      obtain ⟨p, hp, rfl⟩ := List.mem_map.mp hl
      obtain ⟨hlast, hcr⟩ := h p hp
      have hchomp : chomp p = p.dropLast := by rw [chomp, if_pos hlast, dropCR_eq_self hcr]
      rw [hchomp]
      exact dropCR_eq_self hcr
    have hsame := (endLines_append_eq_iff content []).mpr ⟨rfl, h⟩
    rwa [List.append_nil, ← hkept] at hsame

theorem applyChanges_spec {files : List (Text × Text)} (hpath : ∀ f ∈ files, '\n' ∉ f.1)
    {tree tree' : Files} (h : applyChanges (files.map addedChange) tree = some tree') :
    (files.map fun f => readPath f.1).Nodup ∧
      (∀ f ∈ files, tree (readPath f.1) = none ∧ f.2 ≠ [] ∧ (lines f.2).length < 2 ^ 32 ∧
        tree' (readPath f.1) = some (rewritten f.2)) ∧
      ∀ path, path ∉ files.map (fun f => readPath f.1) → tree' path = tree path := by
  induction files generalizing tree with
  | nil =>
    cases h
    exact ⟨List.nodup_nil, fun f hf => absurd hf List.not_mem_nil, fun _ _ => rfl⟩
  | cons f fs ih =>
    rw [List.map_cons, applyChanges, runAll,
      applyChange_addedChange (hpath f List.mem_cons_self)] at h
    split at h
    · cases h
    · next tree₁ hstep =>
      split at hstep
      · next hfits =>
        obtain ⟨habsent, hcontent, hcount⟩ := hfits
        cases hstep
        obtain ⟨hnodup, hmade, hothers⟩ := ih (fun g hg => hpath g (List.mem_cons_of_mem f hg)) h
        have hnew : readPath f.1 ∉ fs.map fun g => readPath g.1 := by
          intro hmem
          obtain ⟨g, hg, heq⟩ := List.mem_map.mp hmem
          have hnone := (hmade g hg).1
          rw [heq, Function.update_self] at hnone
          cases hnone
        refine ⟨List.nodup_cons.mpr ⟨hnew, hnodup⟩, ?_, ?_⟩
        · intro g hg
          rcases List.mem_cons.mp hg with rfl | hg
          · refine ⟨habsent, hcontent, hcount, ?_⟩
            rw [hothers _ hnew, Function.update_self]
          · obtain ⟨hnone, hrest⟩ := hmade g hg
            have hne : readPath g.1 ≠ readPath f.1 :=
              fun heq => hnew (heq ▸ List.mem_map_of_mem hg)
            rw [Function.update_of_ne hne] at hnone
            exact ⟨hnone, hrest⟩
        · intro path hpath
          rw [List.map_cons, List.mem_cons, not_or] at hpath
          rw [hothers path hpath.2, Function.update_of_ne hpath.1]
      · cases hstep

theorem applyChanges_of_held {files : List (Text × Text)} (hpath : ∀ f ∈ files, '\n' ∉ f.1)
    (hheld : Held files) {tree : Files} (habsent : ∀ f ∈ files, tree f.1 = none) :
    ∃ tree', applyChanges (files.map addedChange) tree = some tree' ∧ Makes files tree tree' := by
  induction files generalizing tree with
  | nil => exact ⟨tree, rfl, fun f hf => absurd hf List.not_mem_nil, fun _ _ => rfl⟩
  | cons f fs ih =>
    obtain ⟨hnodup, hnames, hcontents⟩ := hheld
    rw [List.map_cons, List.nodup_cons] at hnodup
    obtain ⟨hnonempty, hunix, hcount⟩ := hcontents f List.mem_cons_self
    have hself := readPath_eq_self (hnames f List.mem_cons_self)
    have hstep : applyChange (addedChange f) tree =
        some (Function.update tree f.1 (some f.2)) := by
      rw [applyChange_addedChange (hpath f List.mem_cons_self), hself,
        if_pos ⟨habsent f List.mem_cons_self, hnonempty, hcount⟩,
        (rewritten_eq_self_iff f.2).mpr hunix]
    have habsent' : ∀ g ∈ fs, Function.update tree f.1 (some f.2) g.1 = none := by
      intro g hg
      have hne : g.1 ≠ f.1 := fun heq => hnodup.1 (heq ▸ List.mem_map_of_mem hg)
      rw [Function.update_of_ne hne]
      exact habsent g (List.mem_cons_of_mem f hg)
    obtain ⟨tree', hrun, hmade, hothers⟩ := ih (fun g hg => hpath g (List.mem_cons_of_mem f hg))
      ⟨hnodup.2, fun g hg => hnames g (List.mem_cons_of_mem f hg),
        fun g hg => hcontents g (List.mem_cons_of_mem f hg)⟩ habsent'
    refine ⟨tree', ?_, ?_, ?_⟩
    · rw [List.map_cons, applyChanges, runAll, hstep]
      exact hrun
    · intro g hg
      rcases List.mem_cons.mp hg with rfl | hg
      · rw [hothers _ hnodup.1, Function.update_self]
      · exact hmade g hg
    · intro path hpath
      rw [List.map_cons, List.mem_cons, not_or] at hpath
      rw [hothers path hpath.2, Function.update_of_ne hpath.1]

/-- **The diff of captured files.**  Whatever `find` prints and whatever can be read: read by the
reviewer's parser and applied to a tree without these files, the diff makes each of them with its
content, and nothing else, exactly if the paths are pairwise different and have no ` b/`, and every
content has lines, less than 2^32 of them, that all end in a line feed without a carriage return
before it. -/
theorem fallbackDiff_iff {host : Text → Option Text} {filesRaw : Text} {tree : Files}
    (habsent : ∀ f ∈ captured host filesRaw, tree f.1 = none) :
    (∃ tree', applyChanges (parseUnifiedDiff (fallbackDiff host filesRaw)) tree = some tree' ∧
      Makes (captured host filesRaw) tree tree') ↔ Held (captured host filesRaw) := by
  have hpath : ∀ f ∈ captured host filesRaw, '\n' ∉ f.1 := fun f hf => (captured_spec hf).1
  rw [parse_fallbackDiff]
  constructor
  · intro h
    obtain ⟨tree', hrun, hmade, -⟩ := h
    obtain ⟨hnodup, hsections, hothers⟩ := applyChanges_spec hpath hrun
    have hnames : ∀ f ∈ captured host filesRaw, ¬ bPrefix <:+: f.1 := by
      intro f hf
      have hmem : f.1 ∈ (captured host filesRaw).map fun g => readPath g.1 := by
        by_contra hno
        have hsame := hothers f.1 hno
        rw [hmade f hf, habsent f hf] at hsame
        cases hsame
      obtain ⟨g, -, heq⟩ := List.mem_map.mp hmem
      rw [← heq]
      exact not_infix_readPath g.1
    have hself : ∀ f ∈ captured host filesRaw, readPath f.1 = f.1 :=
      fun f hf => readPath_eq_self (hnames f hf)
    refine ⟨?_, hnames, fun f hf => ?_⟩
    · rwa [List.map_congr_left hself] at hnodup
    · obtain ⟨-, hnonempty, hcount, hcontent⟩ := hsections f hf
      rw [hself f hf, hmade f hf] at hcontent
      exact ⟨hnonempty, (rewritten_eq_self_iff f.2).mp (Option.some.inj hcontent).symm, hcount⟩
  · exact fun hheld => applyChanges_of_held hpath hheld habsent

/-- One file with one line. -/
theorem fallbackDiff_one_line :
    ∃ tree', applyChanges (parseUnifiedDiff (fallbackDiff (fun _ => some "x\n".toList)
        "./a\n".toList)) (fun _ => none) = some tree' ∧
      Makes (captured (fun _ => some "x\n".toList) "./a\n".toList) (fun _ => none) tree' := by
  have hfiles : captured (fun _ => some "x\n".toList) "./a\n".toList =
      [(['a'], "x\n".toList)] := by decide +kernel
  refine (fallbackDiff_iff fun _ _ => rfl).mpr ?_
  rw [hfiles]
  refine ⟨List.nodup_singleton _, ?_, ?_⟩
  · simp only [List.forall_mem_singleton]
    decide
  · simp only [List.forall_mem_singleton]
    exact ⟨by decide, by decide +kernel, by decide +kernel⟩

/-- An empty file: its hunk has no lines, and does not apply. -/
theorem empty_file_not_made :
    ¬ ∃ tree', applyChanges (parseUnifiedDiff (fallbackDiff (fun _ => some []) "./a\n".toList))
        (fun _ => none) = some tree' ∧
      Makes (captured (fun _ => some []) "./a\n".toList) (fun _ => none) tree' := by
  intro h
  obtain ⟨tree', hrun, -⟩ := h
  have hnone : applyChanges (parseUnifiedDiff (fallbackDiff (fun _ => some []) "./a\n".toList))
      (fun _ => none) = none := by
    rw [parse_fallbackDiff, show captured (fun _ => some []) "./a\n".toList = [(['a'], [])] by
      decide +kernel, List.map_singleton, applyChanges, runAll,
      applyChange_addedChange (by decide), if_neg fun hall => hall.2.1 rfl]
  rw [hnone] at hrun
  cases hrun

end Mowis.Topology
