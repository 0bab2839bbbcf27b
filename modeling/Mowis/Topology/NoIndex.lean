import Mowis.Lib.Replace
import Mowis.Review.RoundTrip
import Mowis.Review.Sections

/-!
# Diffs of two directories

What `git diff --no-index --binary` prints for a project base and the workspace of a container,
and `filter_git_internals` of `agentd/src/orchestration/sandbox_topology.rs`.  The printed text is
the format's definition, not code of the repository: a file that is only in one of the directories
has its path there on both sides, and of a path that starts with a slash the slash is left out
after `a/` and `b/`.
-/

namespace Mowis.Topology

open Mowis.Lib Mowis.Review

def filePath (dir file : Text) : Text :=
  if dir.getLast? = some '/' then dir ++ file else dir ++ '/' :: file

/-- The path as it stands after `a/` or `b/`. -/
def withoutSlash : Text → Text
  | '/' :: path => path
  | path => path

def oldFile (base workspace : Text) (c : GitChange) : Text :=
  match c.kind with
  | .added _ => filePath workspace c.path.1
  | _ => filePath base c.source.1

def newFile (base workspace : Text) (c : GitChange) : Text :=
  match c.kind with
  | .deleted _ => filePath base c.path.1
  | _ => filePath workspace c.path.1

/-- The names in a section, without quotes. -/
structure Names where
  old : Text
  new : Text
  renameFrom : Text
  renameTo : Text

def printedNames (base workspace : Text) (c : GitChange) : Names where
  old := 'a' :: '/' :: withoutSlash (oldFile base workspace c)
  new := 'b' :: '/' :: withoutSlash (newFile base workspace c)
  renameFrom := filePath base c.source.1
  renameTo := filePath workspace c.path.1

/-- The names with `a/` and `b/` for the two directories. -/
def promisedNames (c : GitChange) : Names where
  old := 'a' :: '/' :: c.source.1
  new := 'b' :: '/' :: c.path.1
  renameFrom := 'a' :: '/' :: c.source.1
  renameTo := 'b' :: '/' :: c.path.1

def shown (quotes : Bool) (name : Text) : Text :=
  if quotes then '"' :: (name.flatMap escapeChar ++ ['"']) else name

def isBase85 (c : Char) : Bool :=
  c.isAlphanum || "!#$%&()*+-;<=>?@^_`\x7b|\x7d~".toList.contains c

abbrev Base85Line := { t : Text // ∀ c ∈ t, isBase85 c }

structure BinaryPatch where
  delta : Bool
  size : ℕ
  data : List Base85Line

structure NoIndexChange where
  change : GitChange
  binary : List BinaryPatch

def BinaryPatch.lines (b : BinaryPatch) : List Text :=
  ((if b.delta then "delta ".toList else "literal ".toList) ++ showNat b.size) ::
    (b.data.map Subtype.val ++ [[]])

def binaryLines : List BinaryPatch → List Text
  | [] => []
  | bs => "GIT binary patch".toList :: bs.flatMap BinaryPatch.lines

namespace NoIndexChange

/-- The lines of a section up to its hunks.  Quotes, and tabs after names, are those of `printed`. -/
def headLines (printed names : Names) (c : NoIndexChange) : List Text :=
  let extended := match c.change.kind with
    | .added mode => [newFileMode ++ ' ' :: mode.1]
    | .deleted mode => [deletedFileMode ++ ' ' :: mode.1]
    | .modified modes => GitChange.modeLines modes
    | .renamed _ similarity modes =>
      GitChange.modeLines modes ++
        ["similarity index ".toList ++ similarity.1 ++ "%".toList,
          renameFromPrefix ++ shown (quoted printed.renameFrom) names.renameFrom,
          renameToPrefix ++ shown (quoted printed.renameTo) names.renameTo]
  let oldLabel := match c.change.kind with
    | .added _ => devNull
    | _ => shown (quoted printed.old) names.old ++ tabAfter printed.old
  let newLabel := match c.change.kind with
    | .deleted _ => devNull
    | _ => shown (quoted printed.new) names.new ++ tabAfter printed.new
  let labels := match c.change.hunks with
    | [] => []
    | _ :: _ => [oldLabelPrefix ++ oldLabel, newLabelPrefix ++ newLabel]
  (headerPrefix ++ shown (quoted printed.old) names.old ++
    ' ' :: shown (quoted printed.new) names.new) :: (extended ++ c.change.indexLines ++ labels)

def hunkLines (c : NoIndexChange) : List Text := c.change.hunks.flatMap PrintedHunk.lines

def sectionLines (printed names : Names) (c : NoIndexChange) : List Text :=
  c.headLines printed names ++ c.hunkLines ++ binaryLines c.binary

end NoIndexChange

def noIndexLines (base workspace : Text) (c : NoIndexChange) : List Text :=
  c.sectionLines (printedNames base workspace c.change) (printedNames base workspace c.change)

def printNoIndex (base workspace : Text) (diff : List NoIndexChange) : Text :=
  (diff.flatMap (noIndexLines base workspace)).flatMap endLine

def promisedLines (base workspace : Text) (c : NoIndexChange) : List Text :=
  c.sectionLines (printedNames base workspace c.change) (promisedNames c.change)

def promised (base workspace : Text) (diff : List NoIndexChange) : Text :=
  (diff.flatMap (promisedLines base workspace)).flatMap endLine

def gitDir : Text := "/.git/".toList

def internalHeader (line : Text) : Bool :=
  gitDir <:+: line || " b/.git/".toList <:+: line || " a/.git/".toList <:+: line

/-- The loop of `filter_git_internals`. -/
def filterLines : Bool → List Text → List Text
  | _, [] => []
  | skipSection, line :: rest =>
    let skipSection := if isHeader line then internalHeader line else skipSection
    if skipSection then filterLines skipSection rest else line :: filterLines skipSection rest

def filterGitInternals (diff : Text) : Text := (filterLines false (lines diff)).flatMap endLine

/-- A file below a directory with the name `.git`. -/
def BelowGit (path : Text) : Prop := gitDir <:+: '/' :: path

instance (path : Text) : Decidable (BelowGit path) := inferInstanceAs (Decidable (gitDir <:+: _))

def Internal (base workspace : Text) (c : NoIndexChange) : Prop :=
  BelowGit (oldFile base workspace c.change) ∨ BelowGit (newFile base workspace c.change)

instance (base workspace : Text) : DecidablePred (Internal base workspace) :=
  fun _ => inferInstanceAs (Decidable (_ ∨ _))

def Filtered (base workspace : Text) (diff : List NoIndexChange) : Prop :=
  filterGitInternals (printNoIndex base workspace diff) =
    printNoIndex base workspace (diff.filter fun c => ¬ Internal base workspace c)

/-- Names that can stand on a line. -/
structure OnLine (printed names : Names) : Prop where
  old : quoted printed.old = false → '\n' ∉ names.old
  new : quoted printed.new = false → '\n' ∉ names.new
  renameFrom : quoted printed.renameFrom = false → '\n' ∉ names.renameFrom
  renameTo : quoted printed.renameTo = false → '\n' ∉ names.renameTo

theorem notMem_of_not_quoted {c : Char} (hc : needsQuote c) {name : Text}
    (h : quoted name = false) : c ∉ name :=
  fun hmem => Bool.false_ne_true (h.symm.trans (List.any_eq_true.mpr ⟨c, hmem, hc⟩))

theorem onLine_printed (names : Names) : OnLine names names where
  old := notMem_of_not_quoted (by decide)
  new := notMem_of_not_quoted (by decide)
  renameFrom := notMem_of_not_quoted (by decide)
  renameTo := notMem_of_not_quoted (by decide)

theorem onLine_promised (printed : Names) (c : GitChange) : OnLine printed (promisedNames c) := by
  have hold : '\n' ∉ 'a' :: '/' :: c.source.1 := by
    simp [c.source.2]
  have hnew : '\n' ∉ 'b' :: '/' :: c.path.1 := by
    simp [c.path.2]
  exact ⟨fun _ => hold, fun _ => hnew, fun _ => hold, fun _ => hnew⟩

theorem notMem_shown {quotes : Bool} {name : Text} (h : quotes = false → '\n' ∉ name) :
    '\n' ∉ shown quotes name := by
  cases quotes with
  | false => exact h rfl
  | true =>
    intro hmem
    simp only [shown, if_true, List.mem_cons, List.mem_append, List.mem_flatMap, List.not_mem_nil,
      or_false] at hmem
    obtain hmem | ⟨c, -, hmem⟩ | hmem := hmem
    · exact absurd hmem (by decide)
    · exact (escapeChar_spec c).1 hmem
    · exact absurd hmem (by decide)

/-- A line that is no header, with or without a carriage return, and has no line feed. -/
def Plain (l : Text) : Prop := '\n' ∉ l ∧ isHeader (dropCR l) = false

theorem plain_of_metadata {l : Text} (h : Metadata l) (hl : '\n' ∉ l) : Plain l :=
  ⟨hl, h.dropCR.not_header⟩

theorem plain_of_no_space {l : Text} (h : ' ' ∉ l) (hl : '\n' ∉ l) : Plain l := by
  refine ⟨hl, decide_eq_false fun hpre => h ?_⟩
  have hspace : ' ' ∈ headerPrefix := by decide
  exact (dropCR_isPrefix l).subset (hpre.subset hspace)

theorem plain_hunkLines (c : NoIndexChange) : ∀ l ∈ c.hunkLines, Plain l := by
  intro l hl
  obtain ⟨h, -, hl⟩ := List.mem_flatMap.mp hl
  exact ⟨notMem_hunkLines h l hl, not_header_of_mem_hunk hl⟩

theorem plain_binaryLines (bs : List BinaryPatch) : ∀ l ∈ binaryLines bs, Plain l := by
  intro l hl
  cases bs with
  | nil => exact absurd hl List.not_mem_nil
  | cons b bs =>
    obtain rfl | hl := List.mem_cons.mp hl
    · refine plain_of_metadata ?_ (by decide)
      exact Metadata.of_ne (by decide) (by decide) (by decide) "IT binary patch".toList
    · obtain ⟨b, -, hl⟩ := List.mem_flatMap.mp hl
      have hsize : '\n' ∉ showNat b.size := notMem_showNat (by decide) b.size
      obtain rfl | hl := List.mem_cons.mp hl
      · cases b.delta with
        | true =>
          refine plain_of_metadata ⟨'d', "elta ".toList ++ _, rfl, by decide, by decide, fun _ => rfl⟩
            ?_
          simp [hsize]
        | false =>
          refine plain_of_metadata (Metadata.of_ne (by decide) (by decide) (by decide)
            ("iteral ".toList ++ _)) ?_
          simp [hsize]
      · obtain hl | hl := List.mem_append.mp hl
        · obtain ⟨t, -, rfl⟩ := List.mem_map.mp hl
          exact plain_of_no_space (fun h => absurd (t.2 _ h) (by decide))
            fun h => absurd (t.2 _ h) (by decide)
        · rw [List.mem_singleton.mp hl]
          exact plain_of_no_space List.not_mem_nil List.not_mem_nil

theorem plain_headLines {printed names : Names} (hnames : OnLine printed names)
    (c : NoIndexChange) : ∀ l ∈ (c.headLines printed names).tail, Plain l := by
  intro l hl
  have hmodes : ∀ modes, ∀ l ∈ GitChange.modeLines modes, Plain l :=
    fun modes l hl => plain_of_metadata (metadata_modeLines modes l hl) (notMem_modeLines modes l hl)
  simp only [NoIndexChange.headLines, List.tail_cons, List.mem_append, or_assoc] at hl
  obtain hl | hl | hl := hl
  · split at hl
    · next mode _ =>
      rw [List.mem_singleton.mp hl]
      refine plain_of_metadata (Metadata.of_ne (by decide) (by decide) (by decide)
        ("ew file mode".toList ++ _)) ?_
      have hpre : '\n' ∉ newFileMode := by decide
      simp [hpre, notMem_token (c := '\n') (by decide) mode]
    · next mode _ =>
      rw [List.mem_singleton.mp hl]
      refine plain_of_metadata ⟨'d', "eleted file mode".toList ++ _, rfl, by decide, by decide,
        fun _ => rfl⟩ ?_
      have hpre : '\n' ∉ deletedFileMode := by decide
      simp [hpre, notMem_token (c := '\n') (by decide) mode]
    · next modes _ => exact hmodes modes l hl
    · next source similarity modes _ =>
      obtain hl | hl := List.mem_append.mp hl
      · exact hmodes modes l hl
      · simp only [List.mem_cons, List.not_mem_nil, or_false] at hl
        obtain rfl | rfl | rfl := hl
        · refine plain_of_metadata (Metadata.of_ne (by decide) (by decide) (by decide)
            ("imilarity index ".toList ++ _ ++ _)) ?_
          simp [notMem_token (c := '\n') (by decide) similarity]
        · have hpre : '\n' ∉ renameFromPrefix := by decide
          refine plain_of_metadata (Metadata.of_ne (by decide) (by decide) (by decide)
            ("ename from ".toList ++ _)) ?_
          simp [hpre, notMem_shown hnames.renameFrom]
        · have hpre : '\n' ∉ renameToPrefix := by decide
          refine plain_of_metadata (Metadata.of_ne (by decide) (by decide) (by decide)
            ("ename to ".toList ++ _)) ?_
          simp [hpre, notMem_shown hnames.renameTo]
  · refine plain_of_metadata (metadata_metadataLines c.change l ?_) (notMem_indexLines c.change l hl)
    exact List.mem_append_left _ (List.mem_append_right _ hl)
  · have hnull : '\n' ∉ devNull := by decide
    split at hl
    · exact absurd hl List.not_mem_nil
    · simp only [List.mem_cons, List.not_mem_nil, or_false] at hl
      obtain rfl | rfl := hl
      · have hpre : '\n' ∉ oldLabelPrefix := by decide
        refine plain_of_metadata (Metadata.of_ne (by decide) (by decide) (by decide)
          ("-- ".toList ++ _)) ?_
        split
        · simp [hpre, hnull]
        · simp [hpre, notMem_shown hnames.old, notMem_tabAfter]
      · have hpre : '\n' ∉ newLabelPrefix := by decide
        refine plain_of_metadata (Metadata.of_ne (by decide) (by decide) (by decide)
          ("++ ".toList ++ _)) ?_
        split
        · simp [hpre, hnull]
        · simp [hpre, notMem_shown hnames.new, notMem_tabAfter]

theorem shown_ne_nil {quotes : Bool} {name : Text} (h : name ≠ []) : shown quotes name ≠ [] := by
  cases quotes with
  | false => exact h
  | true => exact List.cons_ne_nil _ _

theorem getLast?_shown (name : Text) : (shown (quoted name) name).getLast? ≠ some '\r' := by
  intro h
  cases hq : quoted name with
  | false =>
    rw [hq] at h
    have hmem : '\r' ∈ name := List.mem_of_getLast? h
    exact notMem_of_not_quoted (by decide) hq hmem
  | true =>
    rw [hq] at h
    simp [shown, List.getLast?_cons, List.getLast?_append] at h

def headerOf (names : Names) : Text :=
  headerPrefix ++ shown (quoted names.old) names.old ++ ' ' :: shown (quoted names.new) names.new

theorem noIndexLines_eq (base workspace : Text) (c : NoIndexChange) :
    noIndexLines base workspace c = headerOf (printedNames base workspace c.change) ::
      (noIndexLines base workspace c).tail := rfl

theorem dropCR_headerOf (base workspace : Text) (c : GitChange) :
    dropCR (headerOf (printedNames base workspace c)) =
      headerOf (printedNames base workspace c) := by
  have hne : shown (quoted (printedNames base workspace c).new) (printedNames base workspace c).new ≠
      [] := shown_ne_nil (List.cons_ne_nil 'b' _)
  refine dropCR_eq_self ?_
  rw [headerOf, List.append_cons, List.getLast?_append_of_ne_nil _ hne]
  exact getLast?_shown _

theorem isHeader_headerOf (names : Names) : isHeader (headerOf names) = true := by
  rw [isHeader, headerOf, List.append_assoc]
  exact decide_eq_true (List.prefix_append _ _)

theorem notMem_headerOf (names : Names) : '\n' ∉ headerOf names := by
  have hpre : '\n' ∉ headerPrefix := by decide
  have hnames := onLine_printed names
  simp [headerOf, hpre, notMem_shown hnames.old, notMem_shown hnames.new]

theorem plain_tail (base workspace : Text) (c : NoIndexChange) :
    ∀ l ∈ (noIndexLines base workspace c).tail, Plain l := by
  intro l hl
  have hnames := onLine_printed (printedNames base workspace c.change)
  have hl : l ∈ (c.headLines (printedNames base workspace c.change)
      (printedNames base workspace c.change)).tail ++ c.hunkLines ++ binaryLines c.binary := hl
  rw [List.mem_append, List.mem_append, or_assoc] at hl
  obtain hl | hl | hl := hl
  · exact plain_headLines hnames c l hl
  · exact plain_hunkLines c l hl
  · exact plain_binaryLines c.binary l hl

theorem notMem_noIndexLines (base workspace : Text) (c : NoIndexChange) :
    ∀ l ∈ noIndexLines base workspace c, '\n' ∉ l := by
  intro l hl
  rw [noIndexLines_eq] at hl
  obtain rfl | hl := List.mem_cons.mp hl
  · exact notMem_headerOf _
  · exact (plain_tail base workspace c l hl).1

theorem notMem_flatMap_octal_slash (bs : List UInt8) : '/' ∉ bs.flatMap octal := by
  have hdigit : ∀ k < 8, '/' ≠ Char.ofNat (0x30 + k) := by decide
  intro h
  obtain ⟨b, -, hb⟩ := List.mem_flatMap.mp h
  simp only [octal, List.mem_cons, List.not_mem_nil, or_false] at hb
  obtain hb | hb | hb | hb := hb
  · exact absurd hb (by decide)
  · exact hdigit _ (Nat.mod_lt _ (by decide)) hb
  · exact hdigit _ (Nat.mod_lt _ (by decide)) hb
  · exact hdigit _ (Nat.mod_lt _ (by decide)) hb

theorem escapeChar_of_not_quoted {c : Char} (h : needsQuote c = false) : escapeChar c = [c] := by
  unfold escapeChar
  split_ifs with h1 h2 h3 h4 h5 hnl h7 h8 h9 hquote
  -- the named escapes
  iterate 9
    · subst_vars
      exact absurd h (by decide)
  · rw [h] at hquote
    cases hquote
  · rfl

theorem escapeChar_of_quoted {c : Char} (h : needsQuote c = true) :
    '/' ∉ escapeChar c ∧ ∃ t, escapeChar c = '\\' :: t := by
  rw [← List.head?_eq_some_iff]
  unfold escapeChar
  split_ifs with h1 h2 h3 h4 h5 hnl h7 h8 h9
  iterate 9
    · exact ⟨by decide, rfl⟩
  · refine ⟨notMem_flatMap_octal_slash _, ?_⟩
    obtain ⟨b, bs, hbytes⟩ := List.exists_cons_of_ne_nil (String.utf8EncodeChar_ne_nil (c := c))
    rw [hbytes, List.flatMap_cons, octal]
    rfl

theorem prefix_escape {pat : Text} (hpat : ∀ c ∈ pat, needsQuote c = false) (name : Text) :
    pat <+: name.flatMap escapeChar ↔ pat <+: name := by
  induction pat generalizing name with
  | nil => simp
  | cons p pat ih =>
    have hrest : ∀ c ∈ pat, needsQuote c = false := fun c hc => hpat c (List.mem_cons_of_mem p hc)
    have hp := hpat p List.mem_cons_self
    cases name with
    | nil => simp
    | cons c name =>
      rw [List.flatMap_cons, List.cons_prefix_cons]
      cases hquote : needsQuote c with
      | false =>
        rw [escapeChar_of_not_quoted hquote, List.singleton_append, List.cons_prefix_cons, ih hrest]
      | true =>
        obtain ⟨-, t, hc⟩ := escapeChar_of_quoted hquote
        rw [hc, List.cons_append, List.cons_prefix_cons]
        refine iff_of_false (fun h => ?_) (fun h => ?_)
        · rw [h.1] at hp
          exact absurd hp (by decide)
        · rw [h.1, hquote] at hp
          cases hp

theorem infix_escape {pat : Text} (hpat : ∀ c ∈ '/' :: pat, needsQuote c = false) (name : Text) :
    '/' :: pat <:+: name.flatMap escapeChar ↔ '/' :: pat <:+: name := by
  induction name with
  | nil => simp
  | cons c name ih =>
    have hpre := prefix_escape hpat (c :: name)
    rw [List.flatMap_cons] at hpre ⊢
    rw [List.infix_cons_iff, ← ih, ← hpre]
    cases hquote : needsQuote c with
    | false => rw [escapeChar_of_not_quoted hquote, List.singleton_append, List.infix_cons_iff]
    | true =>
      obtain ⟨hslash, t, hc⟩ := escapeChar_of_quoted hquote
      rw [infix_append_of_notMem hslash]
      refine (or_iff_right fun h => ?_).symm
      rw [hc, List.cons_append] at h
      exact absurd (List.cons_prefix_cons.mp h).1 (by decide)

theorem gitDir_shown (name : Text) : gitDir <:+: shown (quoted name) name ↔ gitDir <:+: name := by
  have hplain : ∀ c ∈ gitDir, needsQuote c = false := by simp [gitDir, needsQuote]
  cases quoted name with
  | false => rfl
  | true =>
    have hquote : '"' ∉ gitDir := by decide
    have hnil : ¬ gitDir <:+: [] := by decide
    show gitDir <:+: [] ++ '"' :: (name.flatMap escapeChar ++ '"' :: []) ↔ _
    rw [infix_append_cons hquote, infix_append_cons hquote, or_iff_right hnil, or_iff_left hnil]
    exact infix_escape hplain name

theorem belowGit_withoutSlash (c : Char) (hc : c ≠ '/') (path : Text) :
    gitDir <:+: c :: '/' :: withoutSlash path ↔ BelowGit path := by
  have hdrop : gitDir <:+: c :: '/' :: withoutSlash path ↔
      gitDir <:+: '/' :: withoutSlash path := by
    refine infix_append_of_notMem (x := [c]) ?_ _
    rw [List.mem_singleton]
    exact Ne.symm hc
  rw [hdrop, BelowGit]
  unfold withoutSlash
  split
  · next path =>
    have hsplit : gitDir <:+: '/' :: '/' :: path ↔
        gitDir <+: '/' :: '/' :: path ∨ gitDir <:+: '/' :: path := List.infix_cons_iff
    rw [hsplit]
    refine (or_iff_right fun h => ?_).symm
    exact absurd (List.cons_prefix_cons.mp (List.cons_prefix_cons.mp h).2).1 (by decide)
  · rfl

theorem internalHeader_iff (base workspace : Text) (c : NoIndexChange) :
    internalHeader (headerOf (printedNames base workspace c.change)) = true ↔
      Internal base workspace c := by
  have hspace : ' ' ∉ gitDir := by decide
  have hgit : gitDir <:+: headerOf (printedNames base workspace c.change) ↔
      Internal base workspace c := by
    have hpre : ¬ gitDir <:+: "diff --git".toList := by decide
    rw [headerOf, List.append_assoc]
    show gitDir <:+: "diff --git".toList ++ ' ' :: (_ ++ ' ' :: _) ↔ _
    rw [infix_append_cons hspace, infix_append_cons hspace, or_iff_right hpre, gitDir_shown,
      gitDir_shown]
    exact or_congr (belowGit_withoutSlash 'a' (by decide) _) (belowGit_withoutSlash 'b' (by decide) _)
  rw [internalHeader, ← hgit]
  have hb : gitDir <:+: " b/.git/".toList := by decide
  have ha : gitDir <:+: " a/.git/".toList := by decide
  simp only [Bool.or_eq_true, decide_eq_true_eq]
  constructor
  · intro h
    obtain (h | h) | h := h
    · exact h
    · exact hb.trans h
    · exact ha.trans h
  · intro h
    exact .inl (.inl h)

theorem filterLines_body {body : List Text} (h : ∀ l ∈ body, isHeader l = false) (skip : Bool)
    (rest : List Text) :
    filterLines skip (body ++ rest) = (if skip then [] else body) ++ filterLines skip rest := by
  induction body with
  | nil => cases skip <;> rfl
  | cons l body ih =>
    have hskip : (if isHeader l then internalHeader l else skip) = skip :=
      if_neg (Bool.eq_false_iff.mp (h l List.mem_cons_self))
    rw [List.cons_append, filterLines]
    simp only [hskip]
    rw [ih fun l hl => h l (List.mem_cons_of_mem _ hl)]
    cases skip <;> rfl

theorem filterLines_section {header : Text} {body : List Text} (hheader : isHeader header = true)
    (hbody : ∀ l ∈ body, isHeader l = false) (skip : Bool) (rest : List Text) :
    filterLines skip (header :: body ++ rest) =
      (if internalHeader header then [] else header :: body) ++
        filterLines (internalHeader header) rest := by
  rw [List.cons_append, filterLines, if_pos hheader, filterLines_body hbody]
  cases internalHeader header <;> rfl

variable (base workspace : Text)

def readLines (c : NoIndexChange) : List Text := (noIndexLines base workspace c).map dropCR

theorem filterLines_printed (diff : List NoIndexChange) (skip : Bool) :
    filterLines skip (diff.flatMap (readLines base workspace)) =
      (diff.filter fun c => ¬ Internal base workspace c).flatMap (readLines base workspace) := by
  induction diff generalizing skip with
  | nil => rfl
  | cons c diff ih =>
    have hbody : ∀ l ∈ (noIndexLines base workspace c).tail.map dropCR, isHeader l = false := by
      intro l hl
      obtain ⟨l', hl', rfl⟩ := List.mem_map.mp hl
      exact (plain_tail base workspace c l' hl').2
    have hlines : readLines base workspace c = headerOf (printedNames base workspace c.change) ::
        (noIndexLines base workspace c).tail.map dropCR := by
      rw [readLines, noIndexLines_eq, List.map_cons, dropCR_headerOf, List.tail_cons]
    rw [List.flatMap_cons, hlines, filterLines_section (isHeader_headerOf _) hbody, ih]
    have hiff := internalHeader_iff base workspace c
    by_cases hc : Internal base workspace c
    · rw [if_pos (hiff.mpr hc), List.filter_cons_of_neg (by simpa using hc), List.nil_append]
    · rw [if_neg fun h => hc (hiff.mp h), List.filter_cons_of_pos (by simpa using hc),
        List.flatMap_cons, hlines]

theorem notMem_readLines {diff : List NoIndexChange} :
    ∀ l ∈ diff.flatMap (readLines base workspace), '\n' ∉ l := by
  intro l hl hmem
  obtain ⟨c, -, hl⟩ := List.mem_flatMap.mp hl
  obtain ⟨l', hl', rfl⟩ := List.mem_map.mp hl
  exact notMem_noIndexLines base workspace c l' hl' ((dropCR_isPrefix l').subset hmem)

theorem lines_printNoIndex (diff : List NoIndexChange) :
    lines (printNoIndex base workspace diff) = diff.flatMap (readLines base workspace) := by
  have hlines : ∀ l ∈ diff.flatMap (noIndexLines base workspace), '\n' ∉ l := by
    intro l hl
    obtain ⟨c, -, hl⟩ := List.mem_flatMap.mp hl
    exact notMem_noIndexLines base workspace c l hl
  rw [printNoIndex, lines_flatMap_endLine hlines, List.map_flatMap]
  rfl

theorem dropCR_eq_self_iff {l : Text} : dropCR l = l ↔ l.getLast? ≠ some '\r' := by
  refine ⟨fun h hcr => ?_, dropCR_eq_self⟩
  have hlt := length_dropCR_lt hcr
  rw [h] at hlt
  exact Nat.lt_irrefl _ hlt

/-- **The filter.**  It takes out the sections of files below `.git`, and nothing else, exactly
when no line that is kept ends with a carriage return. -/
theorem filtered_iff (diff : List NoIndexChange) :
    Filtered base workspace diff ↔
      ∀ c ∈ diff, ¬ Internal base workspace c → ∀ l ∈ noIndexLines base workspace c,
        l.getLast? ≠ some '\r' := by
  have hkept : ∀ l ∈ (diff.filter fun c => ¬ Internal base workspace c).flatMap
      (noIndexLines base workspace), '\n' ∉ l := by
    intro l hl
    obtain ⟨c, -, hl⟩ := List.mem_flatMap.mp hl
    exact notMem_noIndexLines base workspace c l hl
  have heq : Filtered base workspace diff ↔
      ((diff.filter fun c => ¬ Internal base workspace c).flatMap
        (noIndexLines base workspace)).map dropCR =
      (diff.filter fun c => ¬ Internal base workspace c).flatMap (noIndexLines base workspace) := by
    rw [Filtered, filterGitInternals, lines_printNoIndex, filterLines_printed, printNoIndex,
      List.map_flatMap]
    exact ⟨fun h => flatMap_endLine_inj (notMem_readLines base workspace) hkept h,
      fun h => congrArg (List.flatMap endLine) h⟩
  rw [heq]
  constructor
  · intro h c hc hinternal l hl
    have hmem : l ∈ (diff.filter fun c => ¬ Internal base workspace c).flatMap
        (noIndexLines base workspace) :=
      List.mem_flatMap.mpr ⟨c, List.mem_filter.mpr ⟨hc, by simpa using hinternal⟩, hl⟩
    exact dropCR_eq_self_iff.mp (List.map_inj_left.mp (h.trans (List.map_id _).symm) l hmem)
  · intro h
    refine (List.map_congr_left fun l hl => ?_).trans (List.map_id _)
    obtain ⟨c, hc, hl⟩ := List.mem_flatMap.mp hl
    have hinternal := (List.mem_filter.mp hc).2
    exact dropCR_eq_self (h c (List.mem_of_mem_filter hc) (by simpa using hinternal) l hl)

end Mowis.Topology
