import Mowis.Review.Hunk

/-!
# Printing a git diff

The text git prints for a list of file changes.  This is the format's definition, not code of
the repository.  Paths are any texts without a line feed; a path with a control character, a
quote, a backslash or a character that is not ASCII is printed in quotes with escapes.
-/

namespace Mowis.Review

open Mowis.Lib

/-- A text without a line feed. -/
abbrev Line := { t : Text // '\n' ∉ t }

/-- An identifier or a mode: letters and digits. -/
abbrev Token := { t : Text // ∀ c ∈ t, c.isAlphanum }

def needsQuote (c : Char) : Bool := c.toNat < 0x20 || 0x7F ≤ c.toNat || c = '"' || c = '\\'

def octalDigit (n : ℕ) : Char := Char.ofNat (0x30 + n % 8)

def octal (b : UInt8) : Text :=
  ['\\', octalDigit (b.toNat / 64), octalDigit (b.toNat / 8), octalDigit b.toNat]

def escapeChar (c : Char) : Text :=
  if c = '"' then ['\\', '"']
  else if c = '\\' then ['\\', '\\']
  else if c = '\x07' then ['\\', 'a']
  else if c = '\x08' then ['\\', 'b']
  else if c = '\t' then ['\\', 't']
  else if c = '\n' then ['\\', 'n']
  else if c = '\x0B' then ['\\', 'v']
  else if c = '\x0C' then ['\\', 'f']
  else if c = '\r' then ['\\', 'r']
  else if needsQuote c then (String.utf8EncodeChar c).flatMap octal
  else [c]

def quoted (name : Text) : Bool := name.any needsQuote

/-- A path with a prefix such as `a/`. -/
def printName (pre name : Text) : Text :=
  if quoted name then '"' :: (pre ++ name.flatMap escapeChar ++ ['"']) else pre ++ name

/-- The tab after a name with a space, in the lines `---` and `+++`. -/
def tabAfter (label : Text) : Text := if ' ' ∈ label then ['\t'] else []

def noNewlineMarker : Text := '\\' :: " No newline at end of file".toList

inductive BodyLine where
  | context (t : Line)
  | removed (t : Line)
  | added (t : Line)
  | noNewline

def BodyLine.text : BodyLine → Text
  | context t => ' ' :: t.1
  | removed t => '-' :: t.1
  | added t => '+' :: t.1
  | noNewline => noNewlineMarker

structure PrintedHunk where
  header : HunkHeader
  heading : Option Line
  body : List BodyLine

def printRange (start count : UInt32) : Text :=
  if count = 1 then decimal start else decimal start ++ ',' :: decimal count

def printHeading : Option Line → Text
  | none => []
  | some t => ' ' :: t.1

def PrintedHunk.headerLine (h : PrintedHunk) : Text :=
  "@@ -".toList ++ printRange h.header.oldStart h.header.oldCount ++ " +".toList ++
    printRange h.header.newStart h.header.newCount ++ " @@".toList ++ printHeading h.heading

def PrintedHunk.lines (h : PrintedHunk) : List Text := h.headerLine :: h.body.map BodyLine.text

inductive GitKind where
  | added (mode : Token)
  | deleted (mode : Token)
  | modified (modes : Option (Token × Token))
  | renamed (source : Line) (similarity : Token) (modes : Option (Token × Token))

structure IndexLine where
  oldId : Token
  newId : Token
  mode : Option Token

structure GitChange where
  path : Line
  kind : GitKind
  index : Option IndexLine
  hunks : List PrintedHunk

namespace GitChange

def source (c : GitChange) : Line :=
  match c.kind with
  | .renamed source _ _ => source
  | _ => c.path

def changeType (c : GitChange) : ChangeType :=
  match c.kind with
  | .added _ => .added
  | .deleted _ => .deleted
  | .modified _ => .modified
  | .renamed source _ _ => .renamed source.1

def headerLine (c : GitChange) : Text :=
  headerPrefix ++ printName ['a', '/'] c.source.1 ++ [' '] ++ printName ['b', '/'] c.path.1

def modeLines : Option (Token × Token) → List Text
  | none => []
  | some (old, new) => ["old mode ".toList ++ old.1, "new mode ".toList ++ new.1]

def extendedLines (c : GitChange) : List Text :=
  match c.kind with
  | .added mode => [newFileMode ++ ' ' :: mode.1]
  | .deleted mode => [deletedFileMode ++ ' ' :: mode.1]
  | .modified modes => modeLines modes
  | .renamed source similarity modes =>
    modeLines modes ++
      ["similarity index ".toList ++ similarity.1 ++ "%".toList,
        renameFromPrefix ++ printName [] source.1,
        renameToPrefix ++ printName [] c.path.1]

def indexLines (c : GitChange) : List Text :=
  match c.index with
  | none => []
  | some i =>
    ["index ".toList ++ i.oldId.1 ++ "..".toList ++ i.newId.1 ++
      (match i.mode with
        | none => []
        | some mode => ' ' :: mode.1)]

def oldLabel (c : GitChange) : Text :=
  match c.kind with
  | .added _ => devNull
  | _ => printName ['a', '/'] c.source.1 ++ tabAfter c.source.1

def newLabel (c : GitChange) : Text :=
  match c.kind with
  | .deleted _ => devNull
  | _ => printName ['b', '/'] c.path.1 ++ tabAfter c.path.1

def labelLines (c : GitChange) : List Text :=
  match c.hunks with
  | [] => []
  | _ :: _ => [oldLabelPrefix ++ c.oldLabel, newLabelPrefix ++ c.newLabel]

def bodyLines (c : GitChange) : List Text :=
  c.extendedLines ++ c.indexLines ++ c.labelLines ++ c.hunks.flatMap PrintedHunk.lines

def sectionLines (c : GitChange) : List Text := c.headerLine :: c.bodyLines

end GitChange

def printDiff (changes : List GitChange) : Text :=
  (changes.flatMap GitChange.sectionLines).flatMap endLine

theorem octalDigit_spec (n : ℕ) : octalDigit n ≠ '\n' ∧ octalDigit n ≠ ' ' := by
  have hall : ∀ k < 8, Char.ofNat (0x30 + k) ≠ '\n' ∧ Char.ofNat (0x30 + k) ≠ ' ' := by decide
  exact hall (n % 8) (Nat.mod_lt _ (by decide))

theorem notMem_octal {c : Char} (hc : c = '\n' ∨ c = ' ') (b : UInt8) : c ∉ octal b := by
  have hdigit : ∀ n, c ≠ octalDigit n := by
    intro n h
    rcases hc with rfl | rfl
    · exact (octalDigit_spec n).1 h.symm
    · exact (octalDigit_spec n).2 h.symm
  have hslash : c ≠ '\\' := by
    rcases hc with rfl | rfl <;> decide
  simp [octal, hdigit, hslash]

theorem notMem_flatMap_octal {c : Char} (hc : c = '\n' ∨ c = ' ') (bs : List UInt8) :
    c ∉ bs.flatMap octal := by
  intro h
  obtain ⟨b, -, hb⟩ := List.mem_flatMap.mp h
  exact notMem_octal hc b hb

theorem escapeChar_spec (c : Char) :
    '\n' ∉ escapeChar c ∧ escapeChar c ≠ [] ∧ (escapeChar c).count ' ' = [c].count ' ' := by
  unfold escapeChar
  split_ifs with h1 h2 h3 h4 h5 hnl h7 h8 h9 hquote
  -- the named escapes
  iterate 9
    · subst_vars
      decide
  · have hspace : c ≠ ' ' := by
      rintro rfl
      exact absurd hquote (by decide)
    refine ⟨notMem_flatMap_octal (.inl rfl) _, ?_, ?_⟩
    · intro h
      have hbytes := List.flatMap_eq_nil_iff.mp h
      obtain ⟨b, hb⟩ := List.exists_mem_of_ne_nil _ (String.utf8EncodeChar_ne_nil (c := c))
      exact absurd (hbytes b hb) (List.cons_ne_nil _ _)
    · rw [List.count_eq_zero.mpr (notMem_flatMap_octal (.inr rfl) _), List.count_singleton,
        if_neg (by simpa using hspace)]
  · exact ⟨by simpa using Ne.symm hnl, List.cons_ne_nil _ _, rfl⟩

theorem notMem_printName (pre : Text) {name : Text} (hpre : '\n' ∉ pre) (hname : '\n' ∉ name) :
    '\n' ∉ printName pre name := by
  have hescape : '\n' ∉ name.flatMap escapeChar := by
    intro h
    obtain ⟨c, -, hc⟩ := List.mem_flatMap.mp h
    exact (escapeChar_spec c).1 hc
  unfold printName
  split
  · simp [hpre, hescape]
  · simp [hpre, hname]

theorem notMem_token {c : Char} (hc : ¬ c.isAlphanum) (t : Token) : c ∉ t.1 :=
  fun h => hc (t.2 c h)

theorem notMem_decimal {c : Char} (hc : ¬ c.isDigit) (n : UInt32) : c ∉ decimal n :=
  fun h => hc (isDigit_of_mem_decimal h)

theorem notMem_printRange {c : Char} (hc : ¬ c.isDigit) (hcomma : c ≠ ',') (start count : UInt32) :
    c ∉ printRange start count := by
  have hs := notMem_decimal hc start
  have hn := notMem_decimal hc count
  unfold printRange
  split
  · exact hs
  · simp [hs, hn, hcomma]

theorem notMem_hunkLines (h : PrintedHunk) : ∀ l ∈ h.lines, '\n' ∉ l := by
  intro l hl
  rcases List.mem_cons.mp hl with hl | hl
  · have hold := notMem_printRange (c := '\n') (by decide) (by decide) h.header.oldStart
      h.header.oldCount
    have hnew := notMem_printRange (c := '\n') (by decide) (by decide) h.header.newStart
      h.header.newCount
    have hheading : '\n' ∉ printHeading h.heading := by
      cases h.heading with
      | none => exact List.not_mem_nil
      | some t => simp [printHeading, t.2]
    rw [hl]
    simp [PrintedHunk.headerLine, hold, hnew, hheading]
  · obtain ⟨b, -, rfl⟩ := List.mem_map.mp hl
    cases b with
    | context t => simp [BodyLine.text, t.2]
    | removed t => simp [BodyLine.text, t.2]
    | added t => simp [BodyLine.text, t.2]
    | noNewline => decide

theorem notMem_keyword {k : Text} (hk : k ∈ keywords) : '\n' ∉ k := by
  have hall : ∀ k ∈ keywords, '\n' ∉ k := by decide
  exact hall k hk

theorem notMem_modeLines (modes : Option (Token × Token)) :
    ∀ l ∈ GitChange.modeLines modes, '\n' ∉ l := by
  intro l hl
  cases modes with
  | none => exact absurd hl List.not_mem_nil
  | some m =>
    have h1 := notMem_token (c := '\n') (by decide) m.1
    have h2 := notMem_token (c := '\n') (by decide) m.2
    simp only [GitChange.modeLines, List.mem_cons, List.not_mem_nil, or_false] at hl
    obtain rfl | rfl := hl
    · simp [h1]
    · simp [h2]

theorem notMem_extendedLines (c : GitChange) : ∀ l ∈ c.extendedLines, '\n' ∉ l := by
  intro l hl
  unfold GitChange.extendedLines at hl
  split at hl
  · next mode _ =>
    rw [List.mem_singleton.mp hl]
    simp [notMem_keyword (k := newFileMode) (by simp [keywords]),
      notMem_token (c := '\n') (by decide) mode]
  · next mode _ =>
    rw [List.mem_singleton.mp hl]
    simp [notMem_keyword (k := deletedFileMode) (by simp [keywords]),
      notMem_token (c := '\n') (by decide) mode]
  · next modes _ => exact notMem_modeLines modes l hl
  · next source similarity modes _ =>
    rcases List.mem_append.mp hl with hl | hl
    · exact notMem_modeLines modes l hl
    · have h1 := notMem_token (c := '\n') (by decide) similarity
      have h2 := notMem_printName [] (by simp) source.2
      have h3 := notMem_printName [] (by simp) c.path.2
      simp only [List.mem_cons, List.not_mem_nil, or_false] at hl
      obtain rfl | rfl | rfl := hl
      · simp [h1]
      · simp [notMem_keyword (k := renameFromPrefix) (by simp [keywords]), h2]
      · simp [notMem_keyword (k := renameToPrefix) (by simp [keywords]), h3]

theorem notMem_indexLines (c : GitChange) : ∀ l ∈ c.indexLines, '\n' ∉ l := by
  intro l hl
  unfold GitChange.indexLines at hl
  split at hl
  · exact absurd hl List.not_mem_nil
  · next i _ =>
    have h1 := notMem_token (c := '\n') (by decide) i.oldId
    have h2 := notMem_token (c := '\n') (by decide) i.newId
    rw [List.mem_singleton.mp hl]
    cases i.mode with
    | none => simp [h1, h2]
    | some mode => simp [h1, h2, notMem_token (c := '\n') (by decide) mode]

theorem notMem_tabAfter (label : Text) : '\n' ∉ tabAfter label := by
  unfold tabAfter
  split <;> simp

theorem notMem_labelLines (c : GitChange) : ∀ l ∈ c.labelLines, '\n' ∉ l := by
  intro l hl
  have hold : '\n' ∉ c.oldLabel := by
    unfold GitChange.oldLabel
    split
    · decide
    · simp [notMem_printName ['a', '/'] (by decide) c.source.2, notMem_tabAfter]
  have hnew : '\n' ∉ c.newLabel := by
    unfold GitChange.newLabel
    split
    · decide
    · simp [notMem_printName ['b', '/'] (by decide) c.path.2, notMem_tabAfter]
  unfold GitChange.labelLines at hl
  split at hl
  · exact absurd hl List.not_mem_nil
  · simp only [List.mem_cons, List.not_mem_nil, or_false] at hl
    obtain rfl | rfl := hl
    · simp [notMem_keyword (k := oldLabelPrefix) (by simp [keywords]), hold]
    · simp [notMem_keyword (k := newLabelPrefix) (by simp [keywords]), hnew]

theorem notMem_sectionLines (c : GitChange) : ∀ l ∈ c.sectionLines, '\n' ∉ l := by
  intro l hl
  rcases List.mem_cons.mp hl with rfl | hl
  · have hs := notMem_printName ['a', '/'] (by decide) c.source.2
    have hp := notMem_printName ['b', '/'] (by decide) c.path.2
    have hpre : '\n' ∉ headerPrefix := by decide
    simp only [GitChange.headerLine, List.mem_append, hpre, hs, hp, List.mem_singleton, false_or,
      or_false]
    decide
  · simp only [GitChange.bodyLines, List.mem_append, or_assoc] at hl
    obtain hl | hl | hl | hl := hl
    · exact notMem_extendedLines c l hl
    · exact notMem_indexLines c l hl
    · exact notMem_labelLines c l hl
    · obtain ⟨h, -, hl⟩ := List.mem_flatMap.mp hl
      exact notMem_hunkLines h l hl

end Mowis.Review
