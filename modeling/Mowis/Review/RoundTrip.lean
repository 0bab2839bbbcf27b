import Mowis.Review.Print

/-!
# Parsing a printed diff

What `parse_unified_diff` makes of the text git prints for a list of file changes.
-/

namespace Mowis.Review

open Mowis.Lib

theorem dropCR_append {x : Text} (hx : x.getLast? ≠ some '\r') (t : Text) :
    dropCR (x ++ t) = x ++ dropCR t := by
  cases t with
  | nil =>
    rw [List.append_nil, dropCR_eq_self hx]
    exact (List.append_nil x).symm
  | cons d t =>
    rw [dropCR, dropCR, List.getLast?_append_of_ne_nil _ (List.cons_ne_nil d t),
      List.dropLast_append_of_ne_nil (List.cons_ne_nil d t)]
    split <;> rfl

theorem dropCR_cons {c : Char} (hc : c ≠ '\r') (t : Text) : dropCR (c :: t) = c :: dropCR t :=
  dropCR_append (x := [c]) (by simpa using hc) t

theorem isHeader_headerLine (c : GitChange) : isHeader c.headerLine = true := by
  rw [isHeader, GitChange.headerLine]
  simp only [List.append_assoc]
  exact decide_eq_true (List.prefix_append _ _)

/-- A line that is no header of a section, and starts no hunk. -/
def Metadata (l : Text) : Prop :=
  ∃ c t, l = c :: t ∧ c ≠ '@' ∧ c ≠ '\r' ∧ (c = 'd' → t.head? = some 'e')

theorem Metadata.of_ne {c : Char} (hat : c ≠ '@') (hcr : c ≠ '\r') (hd : c ≠ 'd') (t : Text) :
    Metadata (c :: t) := ⟨c, t, rfl, hat, hcr, fun h => absurd h hd⟩

theorem Metadata.not_hunk {l : Text} (h : Metadata l) : isHunkHeader l = false := by
  obtain ⟨c, t, rfl, hc, -, -⟩ := h
  exact isHunkHeader_cons_ne hc t

theorem Metadata.not_header {l : Text} (h : Metadata l) : isHeader l = false := by
  obtain ⟨c, t, rfl, -, -, hd⟩ := h
  by_cases hc : c = 'd'
  · subst hc
    apply decide_eq_false
    intro hpre
    obtain ⟨t', rfl⟩ := List.head?_eq_some_iff.mp (hd rfl)
    have hnext := (List.cons_prefix_cons.mp hpre).2
    exact absurd (List.cons_prefix_cons.mp hnext).1 (by decide)
  · exact isHeader_cons_ne hc t

theorem metadata_modeLines (modes : Option (Token × Token)) :
    ∀ l ∈ GitChange.modeLines modes, Metadata l := by
  intro l hl
  cases modes with
  | none => exact absurd hl List.not_mem_nil
  | some m =>
    simp only [GitChange.modeLines, List.mem_cons, List.not_mem_nil, or_false] at hl
    obtain rfl | rfl := hl
    · exact Metadata.of_ne (c := 'o') (by decide) (by decide) (by decide) _
    · exact Metadata.of_ne (c := 'n') (by decide) (by decide) (by decide) _

def metadataLines (c : GitChange) : List Text := c.extendedLines ++ c.indexLines ++ c.labelLines

theorem metadata_metadataLines (c : GitChange) : ∀ l ∈ metadataLines c, Metadata l := by
  intro l hl
  simp only [metadataLines, List.mem_append, or_assoc] at hl
  obtain hl | hl | hl := hl
  · unfold GitChange.extendedLines at hl
    split at hl
    · rw [List.mem_singleton.mp hl]
      exact Metadata.of_ne (c := 'n') (by decide) (by decide) (by decide) _
    · rw [List.mem_singleton.mp hl]
      exact ⟨'d', "eleted file mode".toList ++ _, rfl, by decide, by decide, fun _ => rfl⟩
    · next modes _ => exact metadata_modeLines modes l hl
    · next modes _ =>
      rcases List.mem_append.mp hl with hl | hl
      · exact metadata_modeLines modes l hl
      · simp only [List.mem_cons, List.not_mem_nil, or_false] at hl
        obtain rfl | rfl | rfl := hl
        · exact Metadata.of_ne (c := 's') (by decide) (by decide) (by decide) _
        · exact Metadata.of_ne (c := 'r') (by decide) (by decide) (by decide) _
        · exact Metadata.of_ne (c := 'r') (by decide) (by decide) (by decide) _
  · unfold GitChange.indexLines at hl
    split at hl
    · exact absurd hl List.not_mem_nil
    · rw [List.mem_singleton.mp hl]
      exact Metadata.of_ne (c := 'i') (by decide) (by decide) (by decide) _
  · unfold GitChange.labelLines at hl
    split at hl
    · exact absurd hl List.not_mem_nil
    · simp only [List.mem_cons, List.not_mem_nil, or_false] at hl
      obtain rfl | rfl := hl
      · exact Metadata.of_ne (c := '-') (by decide) (by decide) (by decide) _
      · exact Metadata.of_ne (c := '+') (by decide) (by decide) (by decide) _

theorem metadata_bodyLine (b : BodyLine) : Metadata b.text := by
  cases b with
  | context t => exact Metadata.of_ne (c := ' ') (by decide) (by decide) (by decide) _
  | removed t => exact Metadata.of_ne (c := '-') (by decide) (by decide) (by decide) _
  | added t => exact Metadata.of_ne (c := '+') (by decide) (by decide) (by decide) _
  | noNewline => exact Metadata.of_ne (c := '\\') (by decide) (by decide) (by decide) _

theorem Metadata.dropCR {l : Text} (h : Metadata l) : Metadata (dropCR l) := by
  obtain ⟨c, t, rfl, hat, hcr, hd⟩ := h
  rw [dropCR_cons hcr]
  refine ⟨c, _, rfl, hat, hcr, fun hc => ?_⟩
  obtain ⟨t', rfl⟩ := List.head?_eq_some_iff.mp (hd hc)
  rw [dropCR_cons (by decide)]
  rfl

theorem hunkHeaderLine_eq (h : PrintedHunk) :
    ∃ t, h.headerLine = hunkPrefix ++ '-' :: t :=
  ⟨printRange h.header.oldStart h.header.oldCount ++ (" +".toList ++
    (printRange h.header.newStart h.header.newCount ++ (" @@".toList ++ printHeading h.heading))),
    by simp [PrintedHunk.headerLine, hunkPrefix]⟩

theorem isHunkHeader_headerLine (h : PrintedHunk) : isHunkHeader h.headerLine = true := by
  obtain ⟨t, ht⟩ := hunkHeaderLine_eq h
  rw [ht]
  exact decide_eq_true (List.prefix_append _ _)

theorem not_header_of_mem_hunk {h : PrintedHunk} {l : Text} (hl : l ∈ h.lines) :
    isHeader (dropCR l) = false := by
  rcases List.mem_cons.mp hl with rfl | hl
  · obtain ⟨t, ht⟩ := hunkHeaderLine_eq h
    have hat : h.headerLine = '@' :: ("@ -".toList ++ t) := ht
    rw [hat, dropCR_cons (by decide)]
    exact isHeader_cons_ne (by decide) _
  · obtain ⟨b, -, rfl⟩ := List.mem_map.mp hl
    exact (metadata_bodyLine b).dropCR.not_header

theorem not_header_of_mem_body {c : GitChange} {l : Text} (hl : l ∈ c.bodyLines.map dropCR) :
    isHeader l = false := by
  obtain ⟨l', hl', rfl⟩ := List.mem_map.mp hl
  clear hl
  have hl : l' ∈ metadataLines c ++ c.hunks.flatMap PrintedHunk.lines := hl'
  rcases List.mem_append.mp hl with hl | hl
  · exact (metadata_metadataLines c l' hl).dropCR.not_header
  · obtain ⟨h, -, hl⟩ := List.mem_flatMap.mp hl
    exact not_header_of_mem_hunk hl

theorem takeWhile_block {p : Text → Bool} {xs ys : List Text} (hxs : ∀ x ∈ xs, p x = true)
    (hys : ∀ y, ys.head? = some y → p y = false) :
    (xs ++ ys).takeWhile p = xs ∧ (xs ++ ys).dropWhile p = ys := by
  rw [List.takeWhile_append_of_pos hxs, List.dropWhile_append_of_pos hxs]
  cases ys with
  | nil => simp
  | cons y ys => simp [hys y rfl]

theorem parseSections_block {h : Text} {body rest : List Text} (hh : isHeader h = true)
    (hbody : ∀ l ∈ body, isHeader l = false)
    (hrest : ∀ l, rest.head? = some l → isHeader l = true) :
    parseSections (h :: body ++ rest) =
      (parseSingleFileDiff (h :: body) (joinLines (h :: body))).toList ++ parseSections rest := by
  have hbody' : ∀ l ∈ body, (!isHeader l) = true := fun l hl => by simp [hbody l hl]
  have hrest' : ∀ l, rest.head? = some l → (!isHeader l) = false := fun l hl => by
    simp [hrest l hl]
  obtain ⟨htake, hdrop⟩ := takeWhile_block hbody' hrest'
  rw [List.cons_append, parseSections, if_pos hh]
  simp only [htake, hdrop]

def parsedSection (c : GitChange) : Option FileChange :=
  parseSingleFileDiff (c.sectionLines.map dropCR) (joinLines (c.sectionLines.map dropCR))

theorem getLast?_printName {pre : Text} (hcr : '\r' ∉ pre) (name : Text) :
    (printName pre name).getLast? ≠ some '\r' := by
  intro h
  unfold printName at h
  split at h
  · rw [← List.cons_append, List.getLast?_append_of_ne_nil _ (by simp)] at h
    exact absurd h (by decide)
  · next hplain =>
    have hmem := List.mem_of_getLast? h
    rcases List.mem_append.mp hmem with hmem | hmem
    · exact hcr hmem
    · apply hplain
      exact List.any_eq_true.mpr ⟨'\r', hmem, by decide⟩

theorem printName_ne_nil {pre : Text} (hpre : pre ≠ []) (name : Text) :
    printName pre name ≠ [] := by
  unfold printName
  split
  · exact List.cons_ne_nil _ _
  · simp [hpre]

theorem dropCR_headerLine (c : GitChange) : dropCR c.headerLine = c.headerLine := by
  apply dropCR_eq_self
  rw [GitChange.headerLine, List.getLast?_append_of_ne_nil _ (printName_ne_nil (by simp) _)]
  exact getLast?_printName (by simp) c.path.1

theorem parseSections_printed (changes : List GitChange) :
    parseSections (changes.flatMap fun c => c.sectionLines.map dropCR) =
      changes.flatMap fun c => (parsedSection c).toList := by
  induction changes with
  | nil => simp [parseSections]
  | cons c cs ih =>
    have hhead : isHeader (dropCR c.headerLine) = true := by
      rw [dropCR_headerLine]
      exact isHeader_headerLine c
    have hnext : ∀ l, (cs.flatMap fun c => c.sectionLines.map dropCR).head? = some l →
        isHeader l = true := by
      intro l hl
      cases cs with
      | nil => cases hl
      | cons d ds =>
        cases hl
        rw [dropCR_headerLine]
        exact isHeader_headerLine d
    rw [List.flatMap_cons, List.flatMap_cons, ← ih]
    exact parseSections_block hhead (fun l hl => not_header_of_mem_body hl) hnext

/-- **The sections of a printed diff.**  The parser reads one section for each change, or
nothing where it finds no path. -/
theorem parse_printDiff (changes : List GitChange) :
    parseUnifiedDiff (printDiff changes) =
      changes.flatMap fun c => (parsedSection c).toList := by
  rw [parseUnifiedDiff, printDiff, lines_flatMap_endLine, List.map_flatMap, parseSections_printed]
  intro l hl
  obtain ⟨c, -, hl⟩ := List.mem_flatMap.mp hl
  exact notMem_sectionLines c l hl

def PlainNames (c : GitChange) : Prop := quoted c.source.1 = false ∧ quoted c.path.1 = false

theorem headerLine_plain_source {c : GitChange} (h : quoted c.source.1 = false) :
    extractPathFromDiffHeader c.headerLine =
      some (match splitLast bPrefix (c.source.1 ++ ' ' :: printName ['b', '/'] c.path.1) with
        | some (_, path) => path
        | none => c.source.1 ++ ' ' :: printName ['b', '/'] c.path.1) := by
  have hline : c.headerLine =
      headerPathPrefix ++ (c.source.1 ++ ' ' :: printName ['b', '/'] c.path.1) := by
    rw [GitChange.headerLine, headerPathPrefix_eq, printName, if_neg (by simp [h])]
    simp only [List.append_assoc, List.cons_append, List.nil_append]
  rw [extractPathFromDiffHeader, hline, afterPrefix_append]
  simp only
  cases splitLast bPrefix (c.source.1 ++ ' ' :: printName ['b', '/'] c.path.1) with
  | none => rfl
  | some p => rfl

theorem headerLine_quoted_source {c : GitChange} (h : quoted c.source.1 = true) :
    extractPathFromDiffHeader c.headerLine = none := by
  have hline : c.headerLine = headerPrefix ++ '"' :: (['a', '/'] ++
      c.source.1.flatMap escapeChar ++ ['"'] ++ ' ' :: printName ['b', '/'] c.path.1) := by
    rw [GitChange.headerLine, printName, if_pos h]
    simp only [List.append_assoc, List.cons_append, List.nil_append]
  have hnone : afterPrefix headerPathPrefix c.headerLine = none := by
    rw [afterPrefix, if_neg]
    intro hpre
    rw [hline, headerPathPrefix_eq, List.prefix_append_right_inj] at hpre
    exact absurd (List.cons_prefix_cons.mp hpre).1 (by decide)
  rw [extractPathFromDiffHeader, hnone]

theorem count_escape (name : Text) : (name.flatMap escapeChar).count ' ' = name.count ' ' := by
  induction name with
  | nil => rfl
  | cons c name ih =>
    rw [List.flatMap_cons, List.count_append, ih, (escapeChar_spec c).2.2, ← List.count_append]
    rfl

theorem length_le_escape (name : Text) : name.length ≤ (name.flatMap escapeChar).length := by
  induction name with
  | nil => exact le_refl _
  | cons c name ih =>
    have hpos := List.length_pos_iff.mpr (escapeChar_spec c).2.1
    rw [List.flatMap_cons, List.length_append, List.length_cons]
    omega

theorem count_after_bPrefix {t u v : Text} (h : splitLast bPrefix t = some (u, v)) :
    v.count ' ' < t.count ' ' := by
  rw [splitLast_eq_some h, List.count_append, List.count_append]
  have hone : bPrefix.count ' ' = 1 := by decide
  omega

/-- The header gives the path exactly when no name is quoted and the path has no ` b/`. -/
theorem path_iff (c : GitChange) :
    extractPathFromDiffHeader c.headerLine = some c.path.1 ↔
      PlainNames c ∧ ¬ bPrefix <:+: c.path.1 := by
  rw [← splitLast_eq_none_iff (by decide), PlainNames]
  cases hs : quoted c.source.1 with
  | true => simp [headerLine_quoted_source hs]
  | false =>
    rw [headerLine_plain_source hs]
    cases hp : quoted c.path.1 with
    | false =>
      have hname : c.source.1 ++ ' ' :: printName ['b', '/'] c.path.1 =
          c.source.1 ++ (bPrefix ++ c.path.1) := by
        rw [printName, if_neg (by simp [hp])]
        rfl
      rw [hname]
      cases hsplit : splitLast bPrefix c.path.1 with
      | none => simp [splitLast_bPrefix hsplit]
      | some p =>
        obtain ⟨u, v⟩ := p
        have hlast := splitLast_append_some hsplit (c.source.1 ++ bPrefix)
        rw [List.append_assoc] at hlast
        have hcount := count_after_bPrefix hsplit
        simp only [hlast, Option.some.injEq, reduceCtorEq, and_false, iff_false]
        intro hv
        rw [hv] at hcount
        exact lt_irrefl _ hcount
    | true =>
      -- the quoted name is longer than the path, or has as many spaces
      simp only [Option.some.injEq, reduceCtorEq, and_false, false_and, iff_false]
      intro hpath
      have hname : printName ['b', '/'] c.path.1 =
          '"' :: 'b' :: '/' :: (c.path.1.flatMap escapeChar ++ ['"']) := by
        rw [printName, if_pos hp]
        rfl
      have hlen := length_le_escape c.path.1
      rw [hname] at hpath
      cases hsplit : splitLast bPrefix (c.path.1.flatMap escapeChar ++ ['"']) with
      | some p =>
        obtain ⟨u, v⟩ := p
        have hlast := splitLast_append_some hsplit (c.source.1 ++ [' ', '"', 'b', '/'])
        rw [List.append_assoc] at hlast
        have hcount := count_after_bPrefix hsplit
        simp only [List.cons_append, List.nil_append] at hlast
        simp only [hlast] at hpath
        rw [List.count_append, count_escape, hpath] at hcount
        simp at hcount
      | none =>
        have hnone : splitLast bPrefix
            (' ' :: '"' :: 'b' :: '/' :: (c.path.1.flatMap escapeChar ++ ['"'])) = none := by
          have htail : splitLast bPrefix
              ('"' :: 'b' :: '/' :: (c.path.1.flatMap escapeChar ++ ['"'])) = none :=
            splitLast_cons_ne (by decide)
              (splitLast_cons_ne (by decide) (splitLast_cons_ne (by decide) hsplit))
          rw [splitLast, htail]
          rfl
        split at hpath
        · next u v hsome =>
          have hbefore := splitLast_append_none hnone hsome
          have htotal := congrArg List.length (splitLast_eq_some hsome)
          have hb : bPrefix.length = 3 := rfl
          rw [hpath] at htotal
          simp only [List.length_append, List.length_cons, List.length_nil, hb] at htotal
          omega
        · have htotal := congrArg List.length hpath
          simp only [List.length_append, List.length_cons, List.length_nil] at htotal
          omega

end Mowis.Review
