import Mowis.Topology.NoIndex

/-!
# Normalised diffs

`normalize_no_index_diff` of `agentd/src/orchestration/sandbox_topology.rs`: in each line of a
printed diff the path of the project base and that of the workspace are replaced, and `./` is taken
out of paths.
-/

namespace Mowis.Topology

open Mowis.Lib Mowis.Review

def clean (p : Text) : Text :=
  trimEndMatches ['/'] (trimEndMatches ['.'] (replaceAll ['\\'] ['/'] p))

def replacements (baseStr workspaceStr : Text) : List (Text × Text) :=
  [(baseStr ++ ['/'], ['a', '/']), (workspaceStr ++ ['/'], ['b', '/']),
    (baseStr, ['a']), (workspaceStr, ['b']),
    -- `./` that git may have included
    ("a/./".toList, ['a', '/']), ("b/./".toList, ['b', '/']), ("/./".toList, ['/'])]

/-- `parts.next()` of a text that is split at white space, and what is left. -/
def nextWord (t : Text) : Option (Text × Text) :=
  let t := t.dropWhile isWhitespace
  if t = [] then none
  else some (t.takeWhile fun c => !isWhitespace c, t.dropWhile fun c => !isWhitespace c)

def tidyHeader (updated : Text) : Text :=
  match afterPrefix headerPrefix updated with
  | none => updated
  | some rest =>
    match nextWord rest with
    | none => updated
    | some (lhs, rest) =>
      match nextWord rest with
      | none => updated
      | some (rhs, _) => headerPrefix ++ lhs ++ ' ' :: rhs

def normalizeLine (projectBase workspaceRoot line : Text) : Text :=
  tidyHeader (replaceEach (replacements (clean projectBase) (clean workspaceRoot)) line)

def normalizeNoIndexDiff (rawDiff projectBase workspaceRoot : Text) : Text :=
  (lines rawDiff).flatMap fun line => endLine (normalizeLine projectBase workspaceRoot line)

def containerPrefix : Text := "/tmp/container-".toList

def workspaceSuffix : Text := "/root/workspace".toList

def workspaceRoot (id : ℕ) : Text := containerPrefix ++ showNat id ++ workspaceSuffix

def Normalized (base workspace : Text) (diff : List NoIndexChange) : Prop :=
  normalizeNoIndexDiff (printNoIndex base workspace diff) base workspace =
    promised base workspace diff

def HunksKept (base workspace : Text) (diff : List NoIndexChange) : Prop :=
  ∃ heads binaries : NoIndexChange → List Text,
    (∀ c ∈ diff, (heads c).length = (c.headLines (printedNames base workspace c.change)
        (printedNames base workspace c.change)).length ∧ ∀ l ∈ heads c, '\n' ∉ l) ∧
    (∀ c ∈ diff, (binaries c).length = (binaryLines c.binary).length ∧
      ∀ l ∈ binaries c, '\n' ∉ l) ∧
    normalizeNoIndexDiff (printNoIndex base workspace diff) base workspace =
      (diff.flatMap fun c => heads c ++ c.hunkLines ++ binaries c).flatMap endLine

def HeadersOnly (base : Text) (id : ℕ) (diff : List NoIndexChange) : Prop :=
  Normalized base (workspaceRoot id) diff ∧ Filtered base (workspaceRoot id) diff

/-- A line that is kept. -/
structure Kept (base : Text) (id : ℕ) (l : Text) : Prop where
  newline : l.getLast? ≠ some '\r'
  named : clean base ≠ []
  base : clean base = ['a'] ∨ ¬ clean base <:+: l
  workspace : ¬ workspaceRoot id <:+: l
  dot : ¬ "/./".toList <:+: l

/-- The path of a directory from the root, as it is printed and as it is looked for. -/
structure PlainDir (dir : Text) : Prop where
  root : dir.head? = some '/'
  clean : clean dir = dir
  unquoted : quoted dir = false

/-- A base that is looked for as the empty text, or a plain one whose path does not start again
further on in the path of the workspace. -/
def Ordinary (base : Text) (id : ℕ) : Prop :=
  clean base = [] ∨ PlainDir base ∧ Clear base (workspaceRoot id).tail

theorem getLast?_trimEndMatches (c : Char) (t : Text) :
    (trimEndMatches [c] t).getLast? ≠ some c := by
  have hstart : ∀ t : Text, (trimStartMatches [c] t).head? ≠ some c := by
    intro t
    induction t using trimStartMatches.induct [c] with
    | case1 t hpat ih => rwa [trimStartMatches, dif_pos hpat]
    | case2 t hpat =>
      rw [trimStartMatches, dif_neg hpat]
      intro h
      obtain ⟨t, rfl⟩ := List.head?_eq_some_iff.mp h
      exact hpat ⟨List.cons_ne_nil c [], List.prefix_append [c] t⟩
  rw [trimEndMatches, List.reverse_singleton, List.getLast?_reverse]
  exact hstart t.reverse

theorem trimEndMatches_eq_self {c : Char} {t : Text} (h : t.getLast? ≠ some c) :
    trimEndMatches [c] t = t := by
  have hno : ¬ ([c] ≠ [] ∧ [c] <+: t.reverse) := by
    intro hpre
    refine h ?_
    obtain ⟨u, hu⟩ := hpre.2
    rw [← List.head?_reverse, ← hu]
    rfl
  rw [trimEndMatches, List.reverse_singleton, trimStartMatches, dif_neg hno, List.reverse_reverse]

theorem clean_eq_self {p : Text} (hslash : '\\' ∉ p) (hdot : p.getLast? ≠ some '.')
    (hend : p.getLast? ≠ some '/') : clean p = p := by
  have hno : ¬ ['\\'] <:+: p := fun h => hslash (h.subset List.mem_cons_self)
  rw [clean, replaceAll_eq_self (List.cons_ne_nil _ _) hno, trimEndMatches_eq_self hdot,
    trimEndMatches_eq_self hend]

theorem getLast?_workspaceRoot (id : ℕ) : (workspaceRoot id).getLast? = some 'e' := by
  rw [workspaceRoot, List.getLast?_append_of_ne_nil]
  · decide
  · decide

theorem quoted_append (s t : Text) : quoted (s ++ t) = (quoted s || quoted t) := List.any_append

theorem quoted_showNat (n : ℕ) : quoted (showNat n) = false := by
  refine List.any_eq_false.mpr fun c hc => ?_
  have hd := Nat.isDigit_of_mem_toDigits (b := 10) (by decide) (by decide) hc
  have hbounds : 48 ≤ c.toNat ∧ c.toNat ≤ 57 := by
    simpa [Char.isDigit, UInt32.le_iff_toNat_le] using hd
  have hne : ∀ d : Char, ¬ (48 ≤ d.toNat ∧ d.toNat ≤ 57) → c ≠ d := by
    intro d hd heq
    rw [heq] at hbounds
    exact hd hbounds
  have h1 := hne '"' (by decide)
  have h2 := hne '\\' (by decide)
  have h3 : ¬ c.toNat < 0x20 := by omega
  have h4 : ¬ 0x7F ≤ c.toNat := by omega
  simp [needsQuote, h1, h2, h3, h4]

theorem plainDir_workspaceRoot (id : ℕ) : PlainDir (workspaceRoot id) where
  root := rfl
  clean := by
    have hlast := getLast?_workspaceRoot id
    have hpre : '\\' ∉ containerPrefix := by decide
    have hsuf : '\\' ∉ workspaceSuffix := by decide
    have hdigits : '\\' ∉ showNat id := notMem_showNat (by decide) id
    refine clean_eq_self ?_ ?_ ?_
    · simp [workspaceRoot, hpre, hdigits, hsuf]
    · rw [hlast]
      decide
    · rw [hlast]
      decide
  unquoted := by
    have hpre : quoted containerPrefix = false := by
      show quoted "/tmp/container-".toList = false
      simp [quoted, needsQuote]
    have hsuf : quoted workspaceSuffix = false := by
      show quoted "/root/workspace".toList = false
      simp [quoted, needsQuote]
    rw [workspaceRoot, quoted_append, quoted_append, hpre, quoted_showNat, hsuf]
    rfl

theorem clear_tail_workspaceRoot {q : Char} (hc : q ≠ 'c') (hr : q ≠ 'r') (hw : q ≠ 'w')
    (path : Text) (id : ℕ) : Clear ('/' :: q :: path) (workspaceRoot id).tail := by
  have htail : (workspaceRoot id).tail = "tmp".toList ++ '/' :: 'c' :: ("ontainer-".toList ++
      (showNat id ++ '/' :: 'r' :: ("oot".toList ++ '/' :: 'w' :: "orkspace".toList))) := by
    rw [workspaceRoot, List.append_assoc]
    rfl
  have hdigits : '/' ∉ showNat id := notMem_showNat (by decide) id
  have hworkspace : Clear ('/' :: q :: path) ('/' :: 'w' :: "orkspace".toList) :=
    clear_cons_cons_ne hw (clear_of_notMem (by decide))
  have hroot : Clear ('/' :: q :: path)
      ('/' :: 'r' :: ("oot".toList ++ '/' :: 'w' :: "orkspace".toList)) :=
    clear_cons_cons_ne hr (clear_cons_ne (by decide) (clear_append_of_notMem (by decide) hworkspace))
  rw [htail]
  exact clear_append_of_notMem (by decide) (clear_cons_cons_ne hc (clear_cons_ne (by decide)
    (clear_append_of_notMem (by decide) (clear_append_of_notMem hdigits hroot))))

theorem clear_workspaceRoot (id : ℕ) : Clear (workspaceRoot id) (workspaceRoot id).tail :=
  clear_tail_workspaceRoot (by decide) (by decide) (by decide) _ id

theorem getLast?_clean (p : Text) : (clean p).getLast? ≠ some '/' := getLast?_trimEndMatches '/' _

/-- The letter `a` weighs less than any other character. -/
def charWeight (c : Char) : ℕ := if c = 'a' then 1 else 2

theorem one_le_charWeight (c : Char) : 1 ≤ charWeight c := by
  unfold charWeight
  split <;> omega

theorem length_le_weight (t : Text) : t.length ≤ weight charWeight t := by
  induction t with
  | nil => exact Nat.zero_le _
  | cons c t ih =>
    have hc := one_le_charWeight c
    rw [weight_cons, List.length_cons]
    omega

theorem weight_path {t : Text} (hne : t ≠ []) : t = ['a'] ∨ 1 < weight charWeight t := by
  obtain ⟨c, t, rfl⟩ := List.exists_cons_of_ne_nil hne
  have hc := one_le_charWeight c
  have ht := length_le_weight t
  rw [weight_cons]
  cases t with
  | nil =>
    by_cases ha : c = 'a'
    · exact .inl (by rw [ha])
    · rw [charWeight, if_neg ha]
      exact .inr (by omega)
  | cons d t =>
    rw [List.length_cons] at ht
    exact .inr (by omega)

theorem lighter_replacements {base : Text} (hbase : base ≠ []) (id : ℕ) :
    Lighter charWeight (replacements base (workspaceRoot id)) := by
  have hone : weight charWeight ['a'] = 1 := rfl
  have hslash : weight charWeight ['/'] = 2 := rfl
  have hb : weight charWeight ['b'] = 2 := rfl
  have hroot : 3 ≤ weight charWeight (workspaceRoot id) := by
    have hlen := length_le_weight (workspaceRoot id)
    have hge : 3 ≤ (workspaceRoot id).length := Nat.le_add_left 3 _
    omega
  have hne : workspaceRoot id ≠ [] := List.cons_ne_nil _ _
  simp only [Lighter, replacements, List.forall_mem_cons]
  refine ⟨⟨?_, ?_⟩, ⟨?_, .inr ?_⟩, ⟨hbase, ?_⟩, ⟨hne, .inr ?_⟩, by decide, by decide, by decide, ?_⟩
  · exact List.append_ne_nil_of_left_ne_nil hbase _
  · obtain ha | hlt := weight_path hbase
    · exact .inl (by rw [ha]; rfl)
    · refine .inr ?_
      show weight charWeight (['a'] ++ ['/']) < _
      rw [weight_append, weight_append]
      omega
  · exact List.append_ne_nil_of_left_ne_nil hne _
  · show weight charWeight (['b'] ++ ['/']) < _
    rw [weight_append, weight_append]
    omega
  · exact weight_path hbase
  · omega
  · exact fun r hr => absurd hr List.not_mem_nil

theorem tidyHeader_spec (t : Text) :
    tidyHeader t = t ∨ (headerPrefix <+: t ∧ headerPrefix <+: tidyHeader t) := by
  unfold tidyHeader
  split
  · exact .inl rfl
  · next rest hrest =>
    have hpre : headerPrefix <+: t := by
      by_contra hno
      rw [afterPrefix, if_neg hno] at hrest
      cases hrest
    split
    · exact .inl rfl
    · split
      · exact .inl rfl
      · refine .inr ⟨hpre, ?_⟩
        rw [List.append_assoc]
        exact List.prefix_append _ _

theorem head?_of_header {t : Text} (h : headerPrefix <+: t) : t.head? = some 'd' := by
  obtain ⟨u, rfl⟩ := h
  rfl

theorem head?_replaceEach_nil (id : ℕ) (t : Text) :
    (replaceEach (replacements [] (workspaceRoot id)) t).head? = some 'a' := by
  obtain ⟨root, hroot⟩ := List.head?_eq_some_iff.mp (plainDir_workspaceRoot id).root
  have hstart : ∀ u, ['a'] <+: replaceAll [] ['a'] u := fun u => List.prefix_append ['a'] _
  have hkeep : ∀ r ∈ ([(workspaceRoot id, ['b']), ("a/./".toList, ['a', '/']),
      ("b/./".toList, ['b', '/']), ("/./".toList, ['/'])] : List (Text × Text)),
      (∃ ps, r.1 = '/' :: ps) ∨ ∃ k ps ns, r.1 = k :: '/' :: ps ∧ r.2 = k :: ns := by
    simp only [List.forall_mem_cons]
    refine ⟨.inl ⟨root, hroot⟩, .inr ⟨'a', ['.', '/'], ['/'], rfl, rfl⟩,
      .inr ⟨'b', ['.', '/'], ['/'], rfl, rfl⟩, .inl ⟨['.', '/'], rfl⟩, ?_⟩
    exact fun r hr => absurd hr List.not_mem_nil
  have hall := prefix_replaceEach (by decide) hkeep (hstart
    (replaceAll (workspaceRoot id ++ ['/']) ['b', '/'] (replaceAll ([] ++ ['/']) ['a', '/'] t)))
  obtain ⟨u, hu⟩ := hall
  have hsame : replaceEach (replacements [] (workspaceRoot id)) t = ['a'] ++ u := hu.symm
  rw [hsame]
  rfl

/-- **The lines of a hunk.**  A line that is no header is kept exactly when it has none of the texts
that are replaced, and no carriage return at its end. -/
theorem normalizeLine_hunk_iff (base : Text) (id : ℕ) {l : Text} (ha : l.head? ≠ some 'a')
    (hd : l.head? ≠ some 'd') :
    normalizeLine base (workspaceRoot id) (dropCR l) = l ↔ Kept base id l := by
  have hroot := (plainDir_workspaceRoot id).clean
  rw [normalizeLine, hroot]
  constructor
  · intro h
    have hrewrite : replaceEach (replacements (clean base) (workspaceRoot id)) (dropCR l) = l := by
      obtain hsame | ⟨-, hheader⟩ := tidyHeader_spec
        (replaceEach (replacements (clean base) (workspaceRoot id)) (dropCR l))
      · rwa [hsame] at h
      · rw [h] at hheader
        exact absurd (head?_of_header hheader) hd
    have hne : clean base ≠ [] := by
      intro hnil
      rw [hnil] at hrewrite
      have hhead := head?_replaceEach_nil id (dropCR l)
      rw [hrewrite] at hhead
      exact ha hhead
    have hlight := lighter_replacements hne id
    have hle := weight_replaceEach_le hlight (dropCR l)
    rw [hrewrite] at hle
    have hcr : l.getLast? ≠ some '\r' := by
      intro hlast
      obtain ⟨u, rfl⟩ := List.getLast?_eq_some_iff.mp hlast
      rw [dropCR, if_pos hlast, List.dropLast_concat, weight_append] at hle
      have hone : weight charWeight ['\r'] = 2 := rfl
      omega
    rw [dropCR_eq_self hcr] at hrewrite
    have hno := not_infix_of_weight hlight (t := l) (by rw [hrewrite])
    simp only [replacements, List.forall_mem_cons] at hno
    obtain ⟨-, -, hbase, hworkspace, -, -, hdot, -⟩ := hno
    refine ⟨hcr, hne, hbase, hworkspace.resolve_left fun heq => ?_, hdot.resolve_left (by decide)⟩
    have hhead := (plainDir_workspaceRoot id).root
    rw [heq] at hhead
    cases hhead
  · intro h
    have hne : workspaceRoot id ≠ [] := List.cons_ne_nil _ _
    have hsame : replaceEach (replacements (clean base) (workspaceRoot id)) l = l := by
      have hlonger : ∀ {p t : Text}, ¬ p <:+: l → ¬ p ++ t <:+: l := fun hno hocc =>
        hno ((List.prefix_append _ _).isInfix.trans hocc)
      have hdots : ∀ c : Char, ¬ c :: "/./".toList <:+: l := fun c hocc =>
        h.dot ((List.suffix_cons c _).isInfix.trans hocc)
      refine replaceEach_eq_self ?_
      simp only [replacements, List.forall_mem_cons]
      refine ⟨⟨List.append_ne_nil_of_left_ne_nil h.named _, ?_⟩,
        ⟨List.append_ne_nil_of_left_ne_nil hne _, .inr (hlonger h.workspace)⟩, ⟨h.named, h.base⟩,
        ⟨hne, .inr h.workspace⟩, ⟨by decide, .inr (hdots 'a')⟩, ⟨by decide, .inr (hdots 'b')⟩,
        ⟨by decide, .inr h.dot⟩, fun r hr => absurd hr List.not_mem_nil⟩
      obtain heq | hno := h.base
      · exact .inl (by rw [heq]; rfl)
      · exact .inr (hlonger hno)
    rw [dropCR_eq_self h.newline, hsame]
    obtain htidy | ⟨hheader, -⟩ := tidyHeader_spec l
    · exact htidy
    · exact absurd (head?_of_header hheader) hd

/-! ### All lines -/

theorem notMem_nextWord {c : Char} {t word rest : Text} (h : c ∉ t)
    (hword : nextWord t = some (word, rest)) : c ∉ word ∧ c ∉ rest := by
  have hdrop : c ∉ t.dropWhile isWhitespace := fun hc => h ((List.dropWhile_sublist _).subset hc)
  unfold nextWord at hword
  simp only at hword
  split at hword
  · cases hword
  · cases hword
    exact ⟨fun hc => hdrop ((List.takeWhile_sublist _).subset hc),
      fun hc => hdrop ((List.dropWhile_sublist _).subset hc)⟩

theorem notMem_tidyHeader {t : Text} (h : '\n' ∉ t) : '\n' ∉ tidyHeader t := by
  unfold tidyHeader
  split
  · exact h
  · next rest hrest =>
    have hdrop : '\n' ∉ rest := by
      rw [afterPrefix] at hrest
      split at hrest
      · cases hrest
        exact fun hc => h (List.mem_of_mem_drop hc)
      · cases hrest
    split
    · exact h
    · next lhs rest' hlhs =>
      obtain ⟨hl, hrest'⟩ := notMem_nextWord hdrop hlhs
      split
      · exact h
      · next rhs _ hrhs =>
        have hr := (notMem_nextWord hrest' hrhs).1
        have hpre : '\n' ∉ headerPrefix := by decide
        simp [hpre, hl, hr]

theorem notMem_normalizeLine (base workspace : Text) {l : Text} (h : '\n' ∉ l) :
    '\n' ∉ normalizeLine base workspace l := by
  refine notMem_tidyHeader fun hmem => ?_
  obtain hmem | ⟨r, hr, hmem⟩ := mem_replaceEach hmem
  · exact h hmem
  · have hall : ∀ r ∈ replacements (clean base) (clean workspace), '\n' ∉ r.2 := by
      simp [replacements]
    exact hall r hr hmem

theorem flatMap_eq_flatMap_iff {α β : Type*} {f g : α → List β} {l : List α}
    (hlen : ∀ a ∈ l, (f a).length = (g a).length) :
    l.flatMap f = l.flatMap g ↔ ∀ a ∈ l, f a = g a := by
  refine ⟨fun h => ?_, fun h => List.flatMap_congr h⟩
  induction l with
  | nil => exact fun a ha => absurd ha List.not_mem_nil
  | cons a l ih =>
    rw [List.flatMap_cons, List.flatMap_cons] at h
    obtain ⟨hhead, htail⟩ := List.append_inj h (hlen a List.mem_cons_self)
    exact List.forall_mem_cons.mpr
      ⟨hhead, ih (fun b hb => hlen b (List.mem_cons_of_mem a hb)) htail⟩

variable (base workspace : Text)

def rewriteLine (l : Text) : Text := normalizeLine base workspace (dropCR l)

theorem normalize_eq_iff {diff : List NoIndexChange} {sectionOf : NoIndexChange → List Text}
    (hlen : ∀ c ∈ diff, (sectionOf c).length = (noIndexLines base workspace c).length)
    (hline : ∀ c ∈ diff, ∀ l ∈ sectionOf c, '\n' ∉ l) :
    normalizeNoIndexDiff (printNoIndex base workspace diff) base workspace =
        (diff.flatMap sectionOf).flatMap endLine ↔
      ∀ c ∈ diff, (noIndexLines base workspace c).map (rewriteLine base workspace) =
        sectionOf c := by
  have hread : normalizeNoIndexDiff (printNoIndex base workspace diff) base workspace =
      (diff.flatMap fun c => (noIndexLines base workspace c).map
        (rewriteLine base workspace)).flatMap endLine := by
    have hmap : (diff.flatMap (readLines base workspace)).map (normalizeLine base workspace) =
        diff.flatMap fun c => (noIndexLines base workspace c).map (rewriteLine base workspace) := by
      rw [List.map_flatMap]
      refine List.flatMap_congr fun c _ => ?_
      rw [readLines, List.map_map]
      rfl
    rw [normalizeNoIndexDiff, lines_printNoIndex, ← hmap, List.flatMap_map]
  have hleft : ∀ l ∈ diff.flatMap fun c => (noIndexLines base workspace c).map
      (rewriteLine base workspace), '\n' ∉ l := by
    intro l hl
    obtain ⟨c, -, hl⟩ := List.mem_flatMap.mp hl
    obtain ⟨l', hl', rfl⟩ := List.mem_map.mp hl
    refine notMem_normalizeLine base workspace fun hmem => ?_
    exact notMem_noIndexLines base workspace c l' hl' ((dropCR_isPrefix l').subset hmem)
  have hright : ∀ l ∈ diff.flatMap sectionOf, '\n' ∉ l := by
    intro l hl
    obtain ⟨c, hc, hl⟩ := List.mem_flatMap.mp hl
    exact hline c hc l hl
  rw [hread, ← flatMap_eq_flatMap_iff fun c hc => by rw [List.length_map, hlen c hc]]
  exact ⟨fun h => flatMap_endLine_inj hleft hright h, fun h => congrArg (List.flatMap endLine) h⟩

theorem length_headLines (printed names names' : Names) (c : NoIndexChange) :
    (c.headLines printed names).length = (c.headLines printed names').length := by
  unfold NoIndexChange.headLines
  simp only [List.length_cons, List.length_append]
  cases c.change.kind <;> cases c.change.hunks <;> simp

theorem length_promisedLines (c : NoIndexChange) :
    (promisedLines base workspace c).length = (noIndexLines base workspace c).length := by
  unfold promisedLines noIndexLines NoIndexChange.sectionLines
  rw [List.length_append, List.length_append, List.length_append, List.length_append,
    length_headLines _ _ (printedNames base workspace c.change)]

theorem notMem_headLines {printed names : Names} (hnames : OnLine printed names)
    (c : NoIndexChange) : ∀ l ∈ c.headLines printed names, '\n' ∉ l := by
  have hcons : c.headLines printed names = (headerPrefix ++ shown (quoted printed.old) names.old ++
      ' ' :: shown (quoted printed.new) names.new) :: (c.headLines printed names).tail := rfl
  intro l hl
  rw [hcons] at hl
  obtain rfl | hl := List.mem_cons.mp hl
  · have hpre : '\n' ∉ headerPrefix := by decide
    simp [hpre, notMem_shown hnames.old, notMem_shown hnames.new]
  · exact (plain_headLines hnames c l hl).1

theorem normalized_iff_lines (diff : List NoIndexChange) :
    Normalized base workspace diff ↔
      ∀ c ∈ diff, (noIndexLines base workspace c).map (rewriteLine base workspace) =
        promisedLines base workspace c := by
  refine normalize_eq_iff base workspace (fun c _ => length_promisedLines base workspace c)
    fun c _ l hl => ?_
  have hl : l ∈ c.headLines (printedNames base workspace c.change) (promisedNames c.change) ++
      c.hunkLines ++ binaryLines c.binary := hl
  rw [List.mem_append, List.mem_append] at hl
  obtain (hl | hl) | hl := hl
  · exact notMem_headLines (onLine_promised _ _) c l hl
  · exact (plain_hunkLines c l hl).1
  · exact (plain_binaryLines c.binary l hl).1

theorem hunksKept_iff_lines (diff : List NoIndexChange) :
    HunksKept base workspace diff ↔
      ∀ c ∈ diff, ∀ l ∈ c.hunkLines, rewriteLine base workspace l = l := by
  have hsplit : ∀ c : NoIndexChange, noIndexLines base workspace c =
      c.headLines (printedNames base workspace c.change) (printedNames base workspace c.change) ++
        c.hunkLines ++ binaryLines c.binary := fun c => rfl
  constructor
  · intro h c hc
    obtain ⟨heads, binaries, hheads, hbinaries, h⟩ := h
    have hlen : ∀ c ∈ diff, (heads c ++ c.hunkLines ++ binaries c).length =
        (noIndexLines base workspace c).length := by
      intro c hc
      rw [hsplit, List.length_append, List.length_append, List.length_append, List.length_append,
        (hheads c hc).1, (hbinaries c hc).1]
    have hline : ∀ c ∈ diff, ∀ l ∈ heads c ++ c.hunkLines ++ binaries c, '\n' ∉ l := by
      intro c hc l hl
      rw [List.mem_append, List.mem_append] at hl
      obtain (hl | hl) | hl := hl
      · exact (hheads c hc).2 l hl
      · exact (plain_hunkLines c l hl).1
      · exact (hbinaries c hc).2 l hl
    have hall := (normalize_eq_iff base workspace hlen hline).mp h c hc
    rw [hsplit, List.map_append, List.map_append] at hall
    obtain ⟨hfront, -⟩ := List.append_inj hall (by
      rw [List.length_append, List.length_append, List.length_map, List.length_map,
        (hheads c hc).1])
    obtain ⟨-, hmid⟩ := List.append_inj hfront (by rw [List.length_map, (hheads c hc).1])
    exact List.map_inj_left.mp (hmid.trans (List.map_id _).symm)
  · intro h
    let rewriteAll := List.map (rewriteLine base workspace)
    have hnl : ∀ {ls : List Text}, (∀ l ∈ ls, '\n' ∉ l) → ∀ l ∈ rewriteAll ls, '\n' ∉ l := by
      intro ls hls l hl
      obtain ⟨l', hl', rfl⟩ := List.mem_map.mp hl
      exact notMem_normalizeLine base workspace fun hmem =>
        hls l' hl' ((dropCR_isPrefix l').subset hmem)
    refine ⟨fun c => rewriteAll (c.headLines (printedNames base workspace c.change)
      (printedNames base workspace c.change)), fun c => rewriteAll (binaryLines c.binary),
      fun c _ => ⟨List.length_map _, hnl (notMem_headLines (onLine_printed _) c)⟩,
      fun c _ => ⟨List.length_map _, hnl fun l hl => (plain_binaryLines c.binary l hl).1⟩, ?_⟩
    have hsame : ∀ c ∈ diff, (noIndexLines base workspace c).map (rewriteLine base workspace) =
        rewriteAll (c.headLines (printedNames base workspace c.change)
          (printedNames base workspace c.change)) ++ c.hunkLines ++
            rewriteAll (binaryLines c.binary) := by
      intro c hc
      have hmid : c.hunkLines.map (rewriteLine base workspace) = c.hunkLines :=
        (List.map_congr_left (h c hc)).trans (List.map_id _)
      rw [hsplit, List.map_append, List.map_append, hmid]
    refine (normalize_eq_iff base workspace (fun c hc => ?_) fun c hc l hl => ?_).mpr hsame
    · rw [← hsame c hc, List.length_map]
    · rw [← hsame c hc] at hl
      exact hnl (notMem_noIndexLines base workspace c) l hl

theorem Normalized.hunksKept {diff : List NoIndexChange} (h : Normalized base workspace diff) :
    HunksKept base workspace diff := by
  refine ⟨fun c => c.headLines (printedNames base workspace c.change) (promisedNames c.change),
    fun c => binaryLines c.binary, fun c _ => ⟨length_headLines _ _ _ c,
      notMem_headLines (onLine_promised _ _) c⟩,
    fun c _ => ⟨rfl, fun l hl => (plain_binaryLines c.binary l hl).1⟩, h⟩

theorem head?_hunkLines (c : NoIndexChange) :
    ∀ l ∈ c.hunkLines, l.head? ≠ some 'a' ∧ l.head? ≠ some 'd' := by
  intro l hl
  obtain ⟨h, -, hl⟩ := List.mem_flatMap.mp hl
  obtain rfl | hl := List.mem_cons.mp hl
  · have hhead : h.headerLine.head? = some '@' := by
      obtain ⟨t, ht⟩ := hunkHeaderLine_eq h
      rw [ht]
      rfl
    rw [hhead]
    decide
  · obtain ⟨b, -, rfl⟩ := List.mem_map.mp hl
    have hhead : b.text.head? = some ' ' ∨ b.text.head? = some '-' ∨ b.text.head? = some '+' ∨
        b.text.head? = some '\\' := by
      cases b with
      | context t => exact .inl rfl
      | removed t => exact .inr (.inl rfl)
      | added t => exact .inr (.inr (.inl rfl))
      | noNewline => exact .inr (.inr (.inr rfl))
    obtain hhead | hhead | hhead | hhead := hhead
    all_goals
      rw [hhead]
      decide

/-- **The hunks.**  Their lines are kept exactly when none of them has a text that is replaced, or
a carriage return at its end. -/
theorem hunksKept_iff (id : ℕ) (diff : List NoIndexChange) :
    HunksKept base (workspaceRoot id) diff ↔ ∀ c ∈ diff, ∀ l ∈ c.hunkLines, Kept base id l := by
  rw [hunksKept_iff_lines]
  refine forall₂_congr fun c _ => forall₂_congr fun l hl => ?_
  have hhead := head?_hunkLines c l hl
  exact normalizeLine_hunk_iff base id hhead.1 hhead.2

/-! ### Headers -/

theorem prefix_tidyHeader {v t : Text} (hne : v ≠ []) (hv : ∀ c ∈ v, isWhitespace c = false)
    (h : headerPrefix ++ v <+: t) : headerPrefix ++ v <+: tidyHeader t := by
  obtain ⟨x, rfl⟩ := h
  obtain ⟨c, v, rfl⟩ := List.exists_cons_of_ne_nil hne
  have hc := hv c List.mem_cons_self
  have hword : nextWord (c :: v ++ x) = some (c :: v ++ x.takeWhile fun c => !isWhitespace c,
      x.dropWhile fun c => !isWhitespace c) := by
    have hall : ∀ d ∈ c :: v, (!isWhitespace d) = true := fun d hd => by rw [hv d hd]; rfl
    have hstart : (c :: v ++ x).dropWhile isWhitespace = c :: v ++ x :=
      List.dropWhile_cons_of_neg (by rw [hc]; exact Bool.false_ne_true)
    unfold nextWord
    simp only [hstart]
    have hne' : c :: v ++ x ≠ [] := List.cons_ne_nil c (v ++ x)
    rw [if_neg hne', List.takeWhile_append_of_pos hall, List.dropWhile_append_of_pos hall]
  rw [tidyHeader, List.append_assoc, afterPrefix_append]
  simp only [hword]
  split
  · rw [← List.append_assoc]
    exact List.prefix_append _ x
  · next rhs _ _ =>
    refine ⟨(x.takeWhile fun c => !isWhitespace c) ++ ' ' :: rhs, ?_⟩
    simp only [List.append_assoc]

def sideOf (quotes : Bool) : Text := if quotes then ['"', 'a'] else ['a']

theorem shown_promised (quotes : Bool) (x : Text) :
    ∃ y, shown quotes ('a' :: '/' :: x) = sideOf quotes ++ '/' :: y := by
  cases quotes with
  | false => exact ⟨x, rfl⟩
  | true => exact ⟨x.flatMap escapeChar ++ ['"'], rfl⟩

theorem flatMap_escapeChar {t : Text} (h : quoted t = false) : t.flatMap escapeChar = t := by
  induction t with
  | nil => rfl
  | cons c t ih =>
    have hall : (needsQuote c || quoted t) = false := h
    rw [Bool.or_eq_false_iff] at hall
    rw [List.flatMap_cons, escapeChar_of_not_quoted hall.1, ih hall.2]
    rfl

theorem filePath_plain {dir : Text} (h : PlainDir dir) (file : Text) :
    filePath dir file = dir ++ '/' :: file := by
  have hend := getLast?_clean dir
  rw [h.clean] at hend
  exact if_neg hend

theorem shown_dir {dir : Text} (h : PlainDir dir) (quotes : Bool) (file : Text) :
    ∃ y, shown quotes ('a' :: '/' :: withoutSlash (filePath dir file)) =
      sideOf quotes ++ (dir ++ '/' :: y) := by
  have hname : 'a' :: '/' :: withoutSlash (filePath dir file) = 'a' :: (dir ++ '/' :: file) := by
    rw [filePath_plain h]
    obtain ⟨rest, rfl⟩ := List.head?_eq_some_iff.mp h.root
    rfl
  rw [hname]
  cases quotes with
  | false => exact ⟨file, rfl⟩
  | true =>
    refine ⟨file.flatMap escapeChar ++ ['"'], ?_⟩
    show '"' :: 'a' :: ((dir ++ '/' :: file).flatMap escapeChar ++ ['"']) = _
    rw [List.flatMap_append, flatMap_escapeChar h.unquoted, List.append_assoc]
    rfl

/-- Patterns that keep what stands before the first slash, and the letter before it. -/
def Keeping (rs : List (Text × Text)) : Prop :=
  ∀ r ∈ rs, (∃ ps, r.1 = '/' :: ps) ∨ ∃ k ps ns, r.1 = k :: '/' :: ps ∧ r.2 = k :: ns

theorem keeping_replacements {base : Text} (hbase : base.head? = some '/') (id : ℕ) :
    Keeping (replacements base (workspaceRoot id)) := by
  obtain ⟨b, rfl⟩ := List.head?_eq_some_iff.mp hbase
  obtain ⟨root, hroot⟩ := List.head?_eq_some_iff.mp (plainDir_workspaceRoot id).root
  rw [hroot]
  simp only [Keeping, replacements, List.forall_mem_cons]
  refine ⟨.inl ⟨b ++ ['/'], rfl⟩, .inl ⟨root ++ ['/'], rfl⟩, .inl ⟨b, rfl⟩, .inl ⟨root, rfl⟩,
    .inr ⟨'a', ['.', '/'], ['/'], rfl, rfl⟩, .inr ⟨'b', ['.', '/'], ['/'], rfl, rfl⟩,
    .inl ⟨['.', '/'], rfl⟩, fun r hr => absurd hr List.not_mem_nil⟩

theorem replaceAll_dir {pre dir pat : Text} (new : Text) (hpre : '/' ∉ pre) (hdir : dir.head? = some '/')
    (hpat : pat.head? = some '/') (hclear : Clear pat dir.tail) (y : Text) :
    (∃ y', replaceAll pat new (pre ++ (dir ++ y)) = pre ++ (new ++ y')) ∨
      ∃ y', replaceAll pat new (pre ++ (dir ++ y)) = pre ++ (dir ++ y') := by
  obtain ⟨ps, rfl⟩ := List.head?_eq_some_iff.mp hpat
  obtain ⟨d, rfl⟩ := List.head?_eq_some_iff.mp hdir
  have hne : '/' :: ps ≠ [] := List.cons_ne_nil _ _
  rw [replaceAll_of_notMem hpre]
  by_cases hocc : '/' :: ps <+: '/' :: d ++ y
  · obtain ⟨u, hu⟩ := hocc
    rw [← hu, replaceAll_append_pattern hne]
    exact .inl ⟨_, rfl⟩
  · have hd : Clear ('/' :: ps) d := hclear
    rw [List.cons_append] at hocc ⊢
    rw [replaceAll_cons hne hocc, replaceAll_clear hne hd]
    exact .inr ⟨_, rfl⟩

/-- What a line begins with after the replacements: a letter where a slash is promised. -/
def Marked (pre t : Text) : Prop := ∃ c, (c = 'a' ∨ c = 'b') ∧ pre ++ [c] <+: t

theorem marked_replaceEach {pre t : Text} (hpre : '/' ∉ pre) {rs : List (Text × Text)}
    (hrs : Keeping rs) (h : Marked pre t) : Marked pre (replaceEach rs t) := by
  obtain ⟨c, hc, h⟩ := h
  refine ⟨c, hc, prefix_replaceEach ?_ hrs h⟩
  rw [List.mem_append, List.mem_singleton, not_or]
  refine ⟨hpre, fun hslash => ?_⟩
  obtain rfl | rfl := hc
  · exact absurd hslash (by decide)
  · exact absurd hslash (by decide)

theorem marked_base {base pre : Text} (hbase : base.head? = some '/') (hpre : '/' ∉ pre) (id : ℕ)
    (y : Text) :
    Marked pre (replaceEach (replacements base (workspaceRoot id)) (pre ++ (base ++ '/' :: y))) := by
  have hkeep := keeping_replacements hbase id
  obtain ⟨b, rfl⟩ := List.head?_eq_some_iff.mp hbase
  have hfirst : replaceAll ('/' :: b ++ ['/']) ['a', '/'] (pre ++ ('/' :: b ++ '/' :: y)) =
      pre ++ (['a', '/'] ++ replaceAll ('/' :: b ++ ['/']) ['a', '/'] y) := by
    have hsplit : '/' :: b ++ '/' :: y = ('/' :: b ++ ['/']) ++ y := List.append_cons _ '/' y
    rw [hsplit, List.cons_append, replaceAll_of_notMem hpre,
      replaceAll_append_pattern (List.cons_ne_nil _ _)]
  show Marked pre (replaceEach ((replacements ('/' :: b) (workspaceRoot id)).tail)
    (replaceAll ('/' :: b ++ ['/']) ['a', '/'] _))
  refine marked_replaceEach hpre (fun r hr => hkeep r (List.mem_of_mem_tail hr)) ?_
  rw [hfirst]
  exact ⟨'a', .inl rfl, '/' :: _, by simp only [List.append_assoc]; rfl⟩

theorem marked_append (pre : Text) (c : Char) (hc : c = 'a' ∨ c = 'b') (x y : Text) :
    Marked pre (pre ++ (c :: x ++ y)) :=
  ⟨c, hc, x ++ y, by rw [List.append_assoc]; rfl⟩

theorem marked_workspace {base pre : Text} (hbase : base.head? = some '/') (hpre : '/' ∉ pre)
    {id : ℕ} (hclear : Clear base (workspaceRoot id).tail) (y : Text) :
    Marked pre (replaceEach (replacements base (workspaceRoot id))
      (pre ++ (workspaceRoot id ++ y))) := by
  have hkeep := keeping_replacements hbase id
  have hroot := (plainDir_workspaceRoot id).root
  have hself := clear_workspaceRoot id
  have hdrop : ∀ n, Keeping ((replacements base (workspaceRoot id)).drop n) :=
    fun n r hr => hkeep r (List.mem_of_mem_drop hr)
  have hslash : ∀ {t : Text}, t.head? = some '/' → (t ++ ['/']).head? = some '/' := by
    intro t ht
    obtain ⟨u, rfl⟩ := List.head?_eq_some_iff.mp ht
    rfl
  show Marked pre (replaceEach ((replacements base (workspaceRoot id)).drop 1)
    (replaceAll (base ++ ['/']) ['a', '/'] _))
  obtain ⟨y₁, h₁⟩ | ⟨y₁, h₁⟩ := replaceAll_dir ['a', '/'] hpre hroot (hslash hbase)
    (hclear.append ['/']) y
  · rw [h₁]
    exact marked_replaceEach hpre (hdrop 1) (marked_append pre 'a' (.inl rfl) ['/'] y₁)
  rw [h₁]
  show Marked pre (replaceEach ((replacements base (workspaceRoot id)).drop 2)
    (replaceAll (workspaceRoot id ++ ['/']) ['b', '/'] _))
  obtain ⟨y₂, h₂⟩ | ⟨y₂, h₂⟩ := replaceAll_dir ['b', '/'] hpre hroot (hslash hroot)
    (hself.append ['/']) y₁
  · rw [h₂]
    exact marked_replaceEach hpre (hdrop 2) (marked_append pre 'b' (.inr rfl) ['/'] y₂)
  rw [h₂]
  show Marked pre (replaceEach ((replacements base (workspaceRoot id)).drop 3)
    (replaceAll base ['a'] _))
  obtain ⟨y₃, h₃⟩ | ⟨y₃, h₃⟩ := replaceAll_dir ['a'] hpre hroot hbase hclear y₂
  · rw [h₃]
    exact marked_replaceEach hpre (hdrop 3) (marked_append pre 'a' (.inl rfl) [] y₃)
  rw [h₃]
  show Marked pre (replaceEach ((replacements base (workspaceRoot id)).drop 4)
    (replaceAll (workspaceRoot id) ['b'] _))
  have hlast : replaceAll (workspaceRoot id) ['b'] (pre ++ (workspaceRoot id ++ y₃)) =
      pre ++ (['b'] ++ replaceAll (workspaceRoot id) ['b'] y₃) := by
    obtain ⟨d, hd⟩ := List.head?_eq_some_iff.mp hroot
    rw [hd, replaceAll_of_notMem hpre, replaceAll_append_pattern (List.cons_ne_nil _ _)]
  rw [hlast]
  exact marked_replaceEach hpre (hdrop 4) (marked_append pre 'b' (.inr rfl) [] _)

theorem notMem_side (quotes : Bool) : '/' ∉ headerPrefix ++ sideOf quotes := by
  cases quotes <;> decide

theorem not_promised_of_marked {quotes : Bool} {t x : Text}
    (h : Marked (headerPrefix ++ sideOf quotes) t) :
    tidyHeader t ≠ headerPrefix ++ (sideOf quotes ++ '/' :: x) := by
  intro heq
  obtain ⟨c, hc, hpre⟩ := h
  have hquote : isWhitespace '"' = false := by decide
  have ha : isWhitespace 'a' = false := by decide
  have hb : isWhitespace 'b' = false := by decide
  have hword : ∀ d ∈ sideOf quotes ++ [c], isWhitespace d = false := by
    obtain rfl | rfl := hc <;> cases quotes <;> simp [sideOf, hquote, ha, hb]
  have hne : sideOf quotes ++ [c] ≠ [] :=
    List.append_ne_nil_of_right_ne_nil _ (List.cons_ne_nil c [])
  rw [List.append_assoc] at hpre
  have htidy := prefix_tidyHeader hne hword hpre
  rw [heq, ← List.append_assoc, ← List.append_assoc, List.prefix_append_right_inj] at htidy
  have hslash := (List.cons_prefix_cons.mp htidy).1
  obtain rfl | rfl := hc
  · exact absurd hslash (by decide)
  · exact absurd hslash (by decide)

theorem head?_promisedLines (base workspace : Text) (c : NoIndexChange) : ∃ y z,
    promisedLines base workspace c = (headerPrefix ++
      (sideOf (quoted (printedNames base workspace c.change).old) ++ '/' :: y)) :: z := by
  obtain ⟨y, hy⟩ := shown_promised (quoted (printedNames base workspace c.change).old)
    c.change.source.1
  refine ⟨y ++ ' ' :: shown (quoted (printedNames base workspace c.change).new)
    (promisedNames c.change).new, (promisedLines base workspace c).tail, ?_⟩
  show (headerPrefix ++ shown _ ('a' :: '/' :: c.change.source.1) ++ ' ' :: shown _ _) :: _ = _
  rw [hy, List.append_assoc, List.append_assoc, List.cons_append]
  rfl

theorem headerOf_plain {base workspace dir : Text} {c : NoIndexChange} (hdir : PlainDir dir)
    {file : Text} (hold : oldFile base workspace c.change = filePath dir file) :
    ∃ y, headerOf (printedNames base workspace c.change) =
      headerPrefix ++ sideOf (quoted (printedNames base workspace c.change).old) ++
        (dir ++ '/' :: y) := by
  obtain ⟨y, hy⟩ := shown_dir hdir (quoted (printedNames base workspace c.change).old) file
  refine ⟨y ++ ' ' :: shown (quoted (printedNames base workspace c.change).new)
    (printedNames base workspace c.change).new, ?_⟩
  have hname : (printedNames base workspace c.change).old =
      'a' :: '/' :: withoutSlash (filePath dir file) := by rw [← hold]; rfl
  rw [← hname] at hy
  rw [headerOf, hy]
  simp only [List.append_assoc, List.cons_append]

theorem Normalized.header {base workspace : Text} {diff : List NoIndexChange}
    (h : Normalized base workspace diff) {c : NoIndexChange} (hc : c ∈ diff) : ∃ y,
    tidyHeader (replaceEach (replacements (clean base) (clean workspace))
      (headerOf (printedNames base workspace c.change))) =
        headerPrefix ++ (sideOf (quoted (printedNames base workspace c.change).old) ++ '/' :: y) := by
  have hlines := (normalized_iff_lines base workspace diff).mp h c hc
  obtain ⟨y, z, hpromised⟩ := head?_promisedLines base workspace c
  rw [hpromised, noIndexLines_eq, List.map_cons, rewriteLine, dropCR_headerOf] at hlines
  exact ⟨y, (List.cons.inj hlines).1⟩

section results

variable {base : Text} {id : ℕ} {diff : List NoIndexChange}

theorem Normalized.added (hbase : PlainDir base)
    (h : Normalized base (workspaceRoot id) diff) {c : NoIndexChange} (hc : c ∈ diff) :
    ∃ mode, c.change.kind = .added mode := by
  by_contra hno
  have hold : oldFile base (workspaceRoot id) c.change = filePath base c.change.source.1 := by
    unfold oldFile
    split
    · next mode hkind => exact absurd ⟨mode, hkind⟩ hno
    · rfl
  obtain ⟨y, hy⟩ := h.header hc
  obtain ⟨x, hx⟩ := headerOf_plain hbase hold
  rw [hx, hbase.clean, (plainDir_workspaceRoot id).clean] at hy
  exact not_promised_of_marked (marked_base hbase.root (notMem_side _) id x) hy

theorem Normalized.eq_nil (hbase : Ordinary base id)
    (h : Normalized base (workspaceRoot id) diff) : diff = [] := by
  cases diff with
  | nil => rfl
  | cons c diff =>
    obtain ⟨y, hy⟩ := h.header List.mem_cons_self
    rw [(plainDir_workspaceRoot id).clean] at hy
    obtain hnil | ⟨hplain, hclear⟩ := hbase
    · -- every line begins with a letter that was put there
      rw [hnil] at hy
      have hhead := head?_replaceEach_nil id
        (headerOf (printedNames base (workspaceRoot id) c.change))
      obtain hsame | ⟨hheader, -⟩ := tidyHeader_spec (replaceEach (replacements [] (workspaceRoot id))
        (headerOf (printedNames base (workspaceRoot id) c.change)))
      · rw [← hsame, hy] at hhead
        rw [head?_of_header (List.prefix_append headerPrefix _)] at hhead
        exact absurd hhead (by decide)
      · rw [head?_of_header hheader] at hhead
        exact absurd hhead (by decide)
    · obtain ⟨mode, hkind⟩ := h.added hplain List.mem_cons_self
      have hold : oldFile base (workspaceRoot id) c.change =
          filePath (workspaceRoot id) c.change.path.1 := by
        unfold oldFile
        rw [hkind]
      obtain ⟨x, hx⟩ := headerOf_plain (plainDir_workspaceRoot id) hold
      rw [hx, hplain.clean] at hy
      exact absurd hy
        (not_promised_of_marked (marked_workspace hplain.root (notMem_side _) hclear _))

def dotted : NoIndexChange where
  change := {
    path := ⟨"f".toList, by decide⟩
    kind := .modified none
    index := none
    hunks := [{
      header := ⟨1, 0, 1, 1⟩
      heading := none
      body := [.added ⟨"/./".toList, by decide⟩] }] }
  binary := []

theorem not_forall_headersOnly (base : Text) (id : ℕ) : ¬ ∀ diff, HeadersOnly base id diff := by
  intro h
  have hkept := (hunksKept_iff base id [dotted]).mp (h [dotted]).1.hunksKept
  have hline : "+/./".toList ∈ dotted.hunkLines := by decide
  exact (hkept dotted (List.mem_singleton_self _) _ hline).dot ⟨['+'], [], rfl⟩

/-- **Normalising a diff.**  For no base all diffs come out as promised; a diff that does has no
section of a file of a plain base, and is empty when the base is ordinary.  The lines of the hunks
are kept exactly when none of them has a text that is replaced, and the filter is right exactly when
no line that is kept ends with a carriage return. -/
theorem headersOnly_iff (base : Text) (id : ℕ) :
    (¬ ∀ diff, HeadersOnly base id diff) ∧
    (PlainDir base → ∀ diff, HeadersOnly base id diff →
      ∀ c ∈ diff, ∃ mode, c.change.kind = .added mode) ∧
    (Ordinary base id → ∀ diff, HeadersOnly base id diff ↔ diff = []) ∧
    (∀ diff, HunksKept base (workspaceRoot id) diff ↔
      ∀ c ∈ diff, ∀ l ∈ c.hunkLines, Kept base id l) ∧
    ∀ diff, Filtered base (workspaceRoot id) diff ↔
      ∀ c ∈ diff, ¬ Internal base (workspaceRoot id) c →
        ∀ l ∈ noIndexLines base (workspaceRoot id) c, l.getLast? ≠ some '\r' := by
  refine ⟨not_forall_headersOnly base id, fun hbase diff h c hc => h.1.added hbase hc,
    fun hbase diff => ⟨fun h => h.1.eq_nil hbase, fun h => ?_⟩, hunksKept_iff base id,
    filtered_iff base (workspaceRoot id)⟩
  rw [h]
  exact ⟨rfl, rfl⟩

def homeProject : Text := "/home/dev/project".toList

theorem plainDir_homeProject : PlainDir homeProject where
  root := rfl
  clean := clean_eq_self (by decide) (by decide) (by decide)
  unquoted := by
    show quoted "/home/dev/project".toList = false
    simp [quoted, needsQuote]

theorem ordinary_homeProject (id : ℕ) : Ordinary homeProject id :=
  .inr ⟨plainDir_homeProject, clear_tail_workspaceRoot (by decide) (by decide) (by decide) _ id⟩

def editedHome : NoIndexChange where
  change := {
    path := ⟨"src/main.rs".toList, by decide⟩
    kind := .modified none
    index := none
    hunks := [{
      header := ⟨1, 1, 1, 1⟩
      heading := none
      body := [.removed ⟨"old".toList, by decide⟩, .added ⟨"new".toList, by decide⟩] }] }
  binary := []

theorem headersOnly_homeProject : ¬ HeadersOnly homeProject 7 [dotted] := fun h =>
  List.cons_ne_nil _ _
    (((headersOnly_iff homeProject 7).2.2.1 (ordinary_homeProject 7) [dotted]).mp h)

theorem not_headersOnly : ¬ HeadersOnly homeProject 7 [editedHome] := fun h =>
  List.cons_ne_nil _ _ (h.1.eq_nil (ordinary_homeProject 7))

end results

end Mowis.Topology
