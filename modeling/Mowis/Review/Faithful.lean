import Mowis.Review.RoundTrip

/-!
# What survives parsing

The kind, the ranges and the text of a printed section, and when nothing of a diff is lost.
-/

namespace Mowis.Review

open Mowis.Lib

theorem parseRange_printRange (start count : UInt32) :
    parseRange (printRange start count) = some (start, count) := by
  have hcomma : ',' ∉ decimal start := notMem_decimal (by decide) start
  unfold printRange
  split
  · next hone =>
    rw [parseRange, splitFirst_char_none hcomma]
    simp only [parseU32_decimal, hone]
  · rw [parseRange, splitFirst_char hcomma]
    simp only [parseU32_decimal]

theorem parseHunkHeader_headerLine (h : PrintedHunk) :
    parseHunkHeader h.headerLine =
      some (h.header.oldStart, h.header.oldCount, h.header.newStart, h.header.newCount) := by
  have hline : h.headerLine = hunkPrefix ++
      (('-' :: printRange h.header.oldStart h.header.oldCount ++
        ' ' :: '+' :: printRange h.header.newStart h.header.newCount) ++
          ([' ', '@', '@'] ++ printHeading h.heading)) := by
    simp [PrintedHunk.headerLine, hunkPrefix]
  have hat := notMem_printRange (c := '@') (by decide) (by decide) h.header.oldStart
    h.header.oldCount
  have hat' := notMem_printRange (c := '@') (by decide) (by decide) h.header.newStart
    h.header.newCount
  have hspace := notMem_printRange (c := ' ') (by decide) (by decide) h.header.oldStart
    h.header.oldCount
  have hranges : '@' ∉ '-' :: printRange h.header.oldStart h.header.oldCount ++
      ' ' :: '+' :: printRange h.header.newStart h.header.newCount := by
    simp [hat, hat']
  have hold : ' ' ∉ '-' :: printRange h.header.oldStart h.header.oldCount := by
    simp [hspace]
  have hend : splitFirst " @@".toList
      (('-' :: printRange h.header.oldStart h.header.oldCount ++
        ' ' :: '+' :: printRange h.header.newStart h.header.newCount) ++
          ([' ', '@', '@'] ++ printHeading h.heading)) = some (_, _) :=
    splitFirst_second (by decide) hranges _
  have hplus : ∀ t : Text, afterPrefix ['+'] ('+' :: t) = some t :=
    fun t => afterPrefix_append ['+'] t
  have hminus : ∀ t : Text, afterPrefix ['-'] ('-' :: t) = some t :=
    fun t => afterPrefix_append ['-'] t
  rw [parseHunkHeader, hline, afterPrefix_append]
  simp only [hend, splitFirst_char hold, hplus, hminus, parseRange_printRange]

theorem parseSectionLines_metadata {l : Text} (h : Metadata l) (rest : List Text)
    (st : SectionState) :
    parseSectionLines (l :: rest) st = parseSectionLines rest (metadataLine l st) := by
  rw [parseSectionLines, h.not_hunk]
  simp

theorem parseSectionLines_append {ls : List Text} (h : ∀ l ∈ ls, Metadata l) (rest : List Text)
    (st : SectionState) :
    parseSectionLines (ls ++ rest) st =
      parseSectionLines rest (ls.foldl (fun st l => metadataLine l st) st) := by
  induction ls generalizing st with
  | nil => rfl
  | cons l ls ih =>
    rw [List.cons_append, parseSectionLines_metadata (h l List.mem_cons_self),
      ih fun l' hl' => h l' (List.mem_cons_of_mem l hl')]
    rfl

/-! ### Metadata -/

theorem not_prefix_append {a b : Text} (h : ¬ a.take b.length <+: b) (t : Text) :
    ¬ a <+: b ++ t := by
  intro hpre
  have htake := hpre.take b.length
  rw [List.take_left] at htake
  exact h htake

theorem metadataLine_other {b : Text} (h : ∀ k ∈ keywords, ¬ k.take b.length <+: b) (t : Text)
    (st : SectionState) : metadataLine (b ++ t) st = st := by
  have hno : ∀ k ∈ keywords, ¬ k <+: b ++ t := fun k hk => not_prefix_append (h k hk) t
  simp only [keywords, List.mem_cons, List.not_mem_nil, or_false, forall_eq_or_imp, forall_eq]
    at hno
  obtain ⟨h1, h2, h3, h4, h5, h6⟩ := hno
  rw [metadataLine, if_neg h1, if_neg h2, if_neg h3, if_neg h4, if_neg h5, if_neg h6]

theorem metadataLine_newFile (t : Text) (st : SectionState) :
    metadataLine (newFileMode ++ t) st = { st with changeType := .added } := by
  rw [metadataLine, if_pos (List.prefix_append _ _)]

theorem metadataLine_deletedFile (t : Text) (st : SectionState) :
    metadataLine (deletedFileMode ++ t) st = { st with changeType := .deleted } := by
  rw [metadataLine, if_neg (not_prefix_append (by decide) t),
    if_pos (List.prefix_append _ _)]

theorem metadataLine_renameFrom (t : Text) (st : SectionState) :
    metadataLine (renameFromPrefix ++ t) st = { st with renameFrom := some t } := by
  rw [metadataLine, if_neg (not_prefix_append (by decide) t),
    if_neg (not_prefix_append (by decide) t), if_pos (List.prefix_append _ _),
    List.drop_left]

theorem metadataLine_renameTo {from_ : Text} {st : SectionState} (h : st.renameFrom = some from_)
    (t : Text) :
    metadataLine (renameToPrefix ++ t) st =
      { st with changeType := .renamed from_, renameFrom := none } := by
  rw [metadataLine, if_neg (not_prefix_append (by decide) t),
    if_neg (not_prefix_append (by decide) t),
    if_neg (not_prefix_append (by decide) t), if_pos (List.prefix_append _ _), h]

theorem metadataLine_oldLabel (t : Text) (st : SectionState) :
    metadataLine (oldLabelPrefix ++ t) st =
      if trimEnd (oldLabelPrefix ++ t) = oldLabelPrefix ++ devNull then
        { st with changeType := .added }
      else st := by
  rw [metadataLine, if_neg (not_prefix_append (by decide) t),
    if_neg (not_prefix_append (by decide) t),
    if_neg (not_prefix_append (by decide) t),
    if_neg (not_prefix_append (by decide) t), if_pos (List.prefix_append _ _)]

theorem metadataLine_newLabel (t : Text) (st : SectionState) :
    metadataLine (newLabelPrefix ++ t) st =
      if trimEnd (newLabelPrefix ++ t) = newLabelPrefix ++ devNull then
        { st with changeType := .deleted }
      else st := by
  rw [metadataLine, if_neg (not_prefix_append (by decide) t),
    if_neg (not_prefix_append (by decide) t),
    if_neg (not_prefix_append (by decide) t),
    if_neg (not_prefix_append (by decide) t),
    if_neg (not_prefix_append (by decide) t), if_pos (List.prefix_append _ _)]

theorem label_ne_devNull {name : Text} (h : name.head? ≠ some '/') (label : Text) :
    trimEnd (label ++ name) ≠ label ++ devNull := by
  intro heq
  have hpre : label ++ devNull <+: label ++ name := by
    rw [← heq]
    exact List.rdropWhile_prefix _ _
  rw [List.prefix_append_right_inj] at hpre
  obtain ⟨rest, rfl⟩ := hpre
  exact h rfl

theorem head_printName_append {d : Char} (hd : d ≠ '/') (name tab : Text) :
    (printName [d, '/'] name ++ tab).head? ≠ some '/' := by
  unfold printName
  split
  · simp
  · simpa using hd

def readMetadata (ls : List Text) (st : SectionState) : SectionState :=
  ls.foldl (fun st l => metadataLine l st) st

@[simp] theorem readMetadata_nil (st : SectionState) : readMetadata [] st = st := rfl

@[simp] theorem readMetadata_cons (l : Text) (ls : List Text) (st : SectionState) :
    readMetadata (l :: ls) st = readMetadata ls (metadataLine l st) := rfl

theorem readMetadata_append (ls ls' : List Text) (st : SectionState) :
    readMetadata (ls ++ ls') st = readMetadata ls' (readMetadata ls st) :=
  List.foldl_append

theorem readMetadata_modeLines (modes : Option (Token × Token)) (st : SectionState) :
    readMetadata (GitChange.modeLines modes) st = st := by
  cases modes with
  | none => rfl
  | some m =>
    rw [GitChange.modeLines, readMetadata_cons, metadataLine_other (by decide),
      readMetadata_cons, metadataLine_other (by decide), readMetadata_nil]

def SectionState.initial : SectionState where
  changeType := .modified
  renameFrom := none
  hunks := []

theorem readMetadata_extendedLines {c : GitChange} (h : quoted c.source.1 = false) :
    readMetadata c.extendedLines .initial = { SectionState.initial with changeType := c.changeType } := by
  unfold GitChange.extendedLines GitChange.changeType
  split
  · rw [readMetadata_cons, metadataLine_newFile, readMetadata_nil]
  · rw [readMetadata_cons, metadataLine_deletedFile, readMetadata_nil]
  · next modes _ => exact readMetadata_modeLines modes _
  · next source similarity modes hkind =>
    have hsource : printName [] source.1 = source.1 := by
      rw [GitChange.source, hkind] at h
      rw [printName, if_neg (by simp [h])]
      rfl
    rw [readMetadata_append, readMetadata_modeLines, readMetadata_cons, List.append_assoc,
      metadataLine_other (by decide), readMetadata_cons, metadataLine_renameFrom,
      readMetadata_cons, metadataLine_renameTo rfl, readMetadata_nil, hsource]
    rfl

theorem readMetadata_indexLines (c : GitChange) (st : SectionState) :
    readMetadata c.indexLines st = st := by
  unfold GitChange.indexLines
  split
  · rfl
  · rw [readMetadata_cons, List.append_assoc, List.append_assoc, List.append_assoc,
      metadataLine_other (by decide), readMetadata_nil]

theorem readMetadata_labelLines (c : GitChange) {st : SectionState}
    (h : st.changeType = c.changeType) : readMetadata c.labelLines st = st := by
  have hold : metadataLine (oldLabelPrefix ++ c.oldLabel) st = st := by
    rw [metadataLine_oldLabel]
    unfold GitChange.oldLabel
    split
    · next hkind =>
      have hadded : st.changeType = .added := by rw [h, GitChange.changeType, hkind]
      split
      · rw [← hadded]
      · rfl
    · exact if_neg (label_ne_devNull (head_printName_append (by decide) _ _) _)
  have hnew : metadataLine (newLabelPrefix ++ c.newLabel) st = st := by
    rw [metadataLine_newLabel]
    unfold GitChange.newLabel
    split
    · next hkind =>
      have hdeleted : st.changeType = .deleted := by rw [h, GitChange.changeType, hkind]
      split
      · rw [← hdeleted]
      · rfl
    · exact if_neg (label_ne_devNull (head_printName_append (by decide) _ _) _)
  unfold GitChange.labelLines
  split
  · rfl
  · rw [readMetadata_cons, hold, readMetadata_cons, hnew, readMetadata_nil]

theorem metadata_kind {c : GitChange} (h : quoted c.source.1 = false) :
    readMetadata (metadataLines c) .initial =
      { SectionState.initial with changeType := c.changeType } := by
  rw [metadataLines, readMetadata_append, readMetadata_append, readMetadata_extendedLines h,
    readMetadata_indexLines, readMetadata_labelLines c rfl]

def PrintedHunk.parsed (h : PrintedHunk) : DiffHunk where
  oldStart := h.header.oldStart
  oldCount := h.header.oldCount
  newStart := h.header.newStart
  newCount := h.header.newCount
  content := joinLines h.lines

theorem parseSectionLines_hunks (hs : List PrintedHunk) (st : SectionState) :
    parseSectionLines (hs.flatMap PrintedHunk.lines) st =
      { st with hunks := st.hunks ++ hs.map PrintedHunk.parsed } := by
  induction hs generalizing st with
  | nil => simp [parseSectionLines]
  | cons h hs ih =>
    have hbody : ∀ l ∈ h.body.map BodyLine.text, (!isHunkHeader l) = true := by
      intro l hl
      obtain ⟨b, -, rfl⟩ := List.mem_map.mp hl
      rw [(metadata_bodyLine b).not_hunk]
      rfl
    have hnext : ∀ l, (hs.flatMap PrintedHunk.lines).head? = some l → (!isHunkHeader l) = false := by
      intro l hl
      cases hs with
      | nil => cases hl
      | cons h' hs =>
        cases hl
        rw [isHunkHeader_headerLine]
        rfl
    obtain ⟨htake, hdrop⟩ := takeWhile_block hbody hnext
    rw [List.flatMap_cons, PrintedHunk.lines, List.cons_append, parseSectionLines,
      if_pos (isHunkHeader_headerLine h), parseHunkHeader_headerLine]
    simp only [htake, hdrop]
    rw [ih]
    simp [PrintedHunk.parsed, PrintedHunk.lines]

theorem parsedSection_eq {c : GitChange} (hnames : PlainNames c) (hsep : ¬ bPrefix <:+: c.path.1)
    (hcr : ∀ l ∈ c.sectionLines, l.getLast? ≠ some '\r') :
    parsedSection c =
      some { filePath := c.path.1, changeType := c.changeType,
             hunks := c.hunks.map PrintedHunk.parsed, rawDiff := joinLines c.sectionLines } := by
  have hlines : c.sectionLines.map dropCR = c.sectionLines := by
    conv_rhs => rw [← List.map_id c.sectionLines]
    exact List.map_congr_left fun l hl => dropCR_eq_self (hcr l hl)
  have hpath := (path_iff c).mpr ⟨hnames, hsep⟩
  have hbody : parseSectionLines c.bodyLines .initial =
      { SectionState.initial with
        changeType := c.changeType, hunks := c.hunks.map PrintedHunk.parsed } := by
    show parseSectionLines (metadataLines c ++ c.hunks.flatMap PrintedHunk.lines) _ = _
    rw [parseSectionLines_append (metadata_metadataLines c)]
    show parseSectionLines _ (readMetadata (metadataLines c) .initial) = _
    rw [metadata_kind hnames.1, parseSectionLines_hunks]
    rfl
  rw [parsedSection, hlines, GitChange.sectionLines, parseSingleFileDiff, hpath]
  show some _ = some _
  rw [show parseSectionLines c.bodyLines { changeType := .modified, renameFrom := none, hunks := [] }
    = _ from hbody]

theorem parsedSection_none {c : GitChange} (h : extractPathFromDiffHeader c.headerLine = none) :
    parsedSection c = none := by
  rw [parsedSection, GitChange.sectionLines, List.map_cons, dropCR_headerLine, parseSingleFileDiff,
    h]

theorem parsedSection_some {c : GitChange} {path : Text}
    (h : extractPathFromDiffHeader c.headerLine = some path) :
    ∃ fc, parsedSection c = some fc ∧ fc.filePath = path ∧
      fc.rawDiff = joinLines (c.sectionLines.map dropCR) := by
  rw [parsedSection, GitChange.sectionLines, List.map_cons, dropCR_headerLine, parseSingleFileDiff,
    h]
  exact ⟨_, rfl, rfl, rfl⟩

/-- The changes read are the changes printed: one for each section, in order, with its path,
its kind, its ranges and its text. -/
structure Faithful (changes : List GitChange) (parsed : List FileChange) : Prop where
  paths : parsed.map (·.filePath) = changes.map (·.path.1)
  kinds : parsed.map (·.changeType) = changes.map (·.changeType)
  ranges : parsed.map (·.hunks.map DiffHunk.header) = changes.map (·.hunks.map (·.header))
  text : (parsed.map (·.rawDiff)).flatMap endLine = printDiff changes

theorem length_sections_le (changes : List GitChange) :
    (changes.flatMap fun c => (parsedSection c).toList).length ≤ changes.length := by
  induction changes with
  | nil => exact le_refl _
  | cons c cs ih =>
    have hone : (parsedSection c).toList.length ≤ 1 := by
      cases parsedSection c with
      | none => exact Nat.zero_le 1
      | some fc => exact le_refl 1
    rw [List.flatMap_cons, List.length_append, List.length_cons]
    omega

theorem paths_of_faithful {changes : List GitChange}
    (h : (changes.flatMap fun c => (parsedSection c).toList).map (·.filePath) =
      changes.map (·.path.1)) :
    ∀ c ∈ changes, extractPathFromDiffHeader c.headerLine = some c.path.1 := by
  induction changes with
  | nil => exact fun c hc => absurd hc List.not_mem_nil
  | cons c cs ih =>
    rw [List.flatMap_cons] at h
    cases hpath : extractPathFromDiffHeader c.headerLine with
    | none =>
      -- one section is missing
      have hlen := congrArg List.length h
      have hle := length_sections_le cs
      rw [parsedSection_none hpath] at hlen
      simp only [Option.toList_none, List.nil_append, List.length_map, List.length_cons] at hlen
      omega
    | some path =>
      obtain ⟨fc, hfc, hfile, -⟩ := parsedSection_some hpath
      rw [hfc, Option.toList_some, List.singleton_append, List.map_cons, List.map_cons,
        List.cons.injEq] at h
      intro d hd
      rcases List.mem_cons.mp hd with rfl | hd
      · rw [hpath, ← h.1, hfile]
      · exact ih h.2 d hd

theorem raw_of_paths {changes : List GitChange}
    (h : ∀ c ∈ changes, extractPathFromDiffHeader c.headerLine = some c.path.1) :
    ((changes.flatMap fun c => (parsedSection c).toList).map (·.rawDiff)).flatMap endLine =
      ((changes.flatMap GitChange.sectionLines).map dropCR).flatMap endLine := by
  induction changes with
  | nil => rfl
  | cons c cs ih =>
    obtain ⟨fc, hfc, -, hraw⟩ := parsedSection_some (h c List.mem_cons_self)
    have htext : endLine fc.rawDiff = (c.sectionLines.map dropCR).flatMap endLine := by
      rw [hraw]
      exact endLine_joinLines (List.cons_ne_nil _ _)
    rw [List.flatMap_cons, hfc, Option.toList_some, List.singleton_append, List.map_cons,
      List.flatMap_cons, htext, ih fun d hd => h d (List.mem_cons_of_mem c hd), List.flatMap_cons,
      List.map_append, List.flatMap_append]

theorem notMem_dropCR {l : Text} {x : Char} (h : x ∉ l) : x ∉ dropCR l :=
  fun hx => h ((dropCR_isPrefix l).subset hx)

/-- What the printed diffs of a list of changes must be like to be read whole. -/
def Parseable (c : GitChange) : Prop :=
  PlainNames c ∧ ¬ bPrefix <:+: c.path.1 ∧ ∀ l ∈ c.sectionLines, l.getLast? ≠ some '\r'

/-- **What parsing loses.**  The diff printed for a list of changes is read back whole, with one
file change for each section in order, its path, its kind, its ranges and its text, exactly when
no name is printed in quotes, no path has a ` b/` in it, and no line of the diff ends in a
carriage return. -/
theorem parse_faithful_iff (changes : List GitChange) :
    Faithful changes (parseUnifiedDiff (printDiff changes)) ↔ ∀ c ∈ changes, Parseable c := by
  rw [parse_printDiff]
  constructor
  · intro h c hc
    have hpaths := paths_of_faithful h.paths
    have hplain := (path_iff c).mp (hpaths c hc)
    have hlines : ∀ l ∈ changes.flatMap GitChange.sectionLines, '\n' ∉ l := by
      intro l hl
      obtain ⟨d, -, hl⟩ := List.mem_flatMap.mp hl
      exact notMem_sectionLines d l hl
    have hdropped : ∀ l ∈ (changes.flatMap GitChange.sectionLines).map dropCR, '\n' ∉ l := by
      intro l hl
      obtain ⟨l', hl', rfl⟩ := List.mem_map.mp hl
      exact notMem_dropCR (hlines l' hl')
    have hsame := flatMap_endLine_inj hdropped hlines ((raw_of_paths hpaths).symm.trans h.text)
    refine ⟨hplain.1, hplain.2, fun l hl hcr => ?_⟩
    have hmem : l ∈ changes.flatMap GitChange.sectionLines := List.mem_flatMap.mpr ⟨c, hc, hl⟩
    have hfix : dropCR l = l :=
      List.map_inj_left.mp (hsame.trans (List.map_id _).symm) l hmem
    have hlt := length_dropCR_lt hcr
    rw [hfix] at hlt
    exact lt_irrefl _ hlt
  · intro h
    have hsections : (changes.flatMap fun c => (parsedSection c).toList) =
        changes.map fun c =>
          { filePath := c.path.1, changeType := c.changeType,
            hunks := c.hunks.map PrintedHunk.parsed, rawDiff := joinLines c.sectionLines } := by
      rw [← List.flatMap_pure_eq_map]
      refine List.flatMap_congr fun c hc => ?_
      obtain ⟨hnames, hsep, hcr⟩ := h c hc
      rw [parsedSection_eq hnames hsep hcr]
      rfl
    rw [hsections]
    constructor
    · simp
    · simp
    · simp [PrintedHunk.parsed, DiffHunk.header, Function.comp_def]
    · rw [List.map_map, printDiff, List.flatMap_map, List.flatMap_assoc]
      refine List.flatMap_congr fun c _ => ?_
      exact endLine_joinLines (List.cons_ne_nil _ _)

/-- One line of the file `x b/y` is replaced. -/
def separatorChange : GitChange where
  path := ⟨"x b/y".toList, by decide⟩
  kind := .modified none
  index := none
  hunks := [{ header := { oldStart := 1, oldCount := 1, newStart := 1, newCount := 1 },
              heading := none,
              body := [.removed ⟨['p'], by decide⟩, .added ⟨['q'], by decide⟩] }]

/-- The path `x b/y` is cut to `y`. -/
theorem path_with_separator_cut :
    ¬ Faithful [separatorChange] (parseUnifiedDiff (printDiff [separatorChange])) := by
  intro h
  have hpaths := h.paths
  rw [parse_printDiff] at hpaths
  have hheader := paths_of_faithful hpaths separatorChange List.mem_cons_self
  have hcut : extractPathFromDiffHeader separatorChange.headerLine = some ['y'] := by
    decide
  rw [hcut] at hheader
  exact absurd hheader (by decide)

end Mowis.Review
