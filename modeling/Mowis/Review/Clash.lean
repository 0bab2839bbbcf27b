import Mowis.Review.Commute

/-!
# Clashing hunks do not commute

For headers that clash there are hunks with these headers, and a file of equal lines to which
both lists apply, that do not give the same file in either order.
-/

namespace Mowis.Review

open Mowis.Lib

/-- The line `0` of a file. -/
def zeroLine : Text := ['0', '\n']

/-- A hunk with a header that removes lines `0` and adds lines of one character. -/
def writeHunk (x : Char × HunkHeader) : DiffHunk where
  oldStart := x.2.oldStart
  oldCount := x.2.oldCount
  newStart := x.2.newStart
  newCount := x.2.newCount
  content := joinLines (hunkPrefix :: (List.replicate x.2.oldCount.toNat ['-', '0'] ++
    List.replicate x.2.newCount.toNat ['+', x.1]))

def writtenEdit (x : Char × HunkHeader) : Edit Text where
  pos := x.2.pos
  old := List.replicate x.2.oldCount.toNat zeroLine
  new := List.replicate x.2.newCount.toNat [x.1, '\n']

theorem eolOf_replicate {c d : Char} (hc : c ≠ '\\') (n : ℕ) {rest : List Text}
    (hrest : eolOf rest = ['\n']) : eolOf (List.replicate n [c, d] ++ rest) = ['\n'] := by
  cases n with
  | zero => exact hrest
  | succ n =>
    rw [List.replicate_succ, List.cons_append]
    unfold eolOf
    split
    · next heq =>
      simp only [List.cons.injEq] at heq
      exact absurd heq.1.1 hc
    · rfl

theorem readBody_added (c : Char) (n : ℕ) :
    readBody (List.replicate n ['+', c]) 0 n = some ([], List.replicate n [c, '\n']) := by
  induction n with
  | zero => rfl
  | succ n ih =>
    have heol : eolOf (List.replicate n ['+', c] ++ []) = ['\n'] :=
      eolOf_replicate (by decide) n rfl
    rw [List.append_nil] at heol
    rw [List.replicate_succ, readBody]
    simp only [Nat.add_sub_cancel, ih, heol]
    simp [List.replicate_succ]

theorem readBody_removed (c : Char) (o n : ℕ) :
    readBody (List.replicate o ['-', '0'] ++ List.replicate n ['+', c]) o n =
      some (List.replicate o zeroLine, List.replicate n [c, '\n']) := by
  induction o with
  | zero => simpa using readBody_added c n
  | succ o ih =>
    have hplus : eolOf (List.replicate n ['+', c] ++ []) = ['\n'] :=
      eolOf_replicate (by decide) n rfl
    rw [List.append_nil] at hplus
    have heol := eolOf_replicate (c := '-') (d := '0') (by decide) o hplus
    rw [List.replicate_succ, List.cons_append, readBody]
    simp only [Nat.add_sub_cancel, ih, heol]
    simp [List.replicate_succ, zeroLine]

theorem splitOn_writeHunk {x : Char × HunkHeader} (hc : x.1 ≠ '\n') :
    (writeHunk x).content.splitOn '\n' = hunkPrefix ::
      (List.replicate x.2.oldCount.toNat ['-', '0'] ++
        List.replicate x.2.newCount.toNat ['+', x.1]) := by
  apply List.splitOn_intercalate
  · intro l hl
    rcases List.mem_cons.mp hl with rfl | hl
    · decide
    · rcases List.mem_append.mp hl with hl | hl
      · rw [(List.mem_replicate.mp hl).2]
        decide
      · rw [(List.mem_replicate.mp hl).2]
        simp [Ne.symm hc]
  · exact List.cons_ne_nil _ _

theorem hunkEdit_writeHunk {x : Char × HunkHeader} (hc : x.1 ≠ '\n') (hwf : x.2.WellFormed) :
    hunkEdit (writeHunk x) = some (writtenEdit x) := by
  have hwf' : (writeHunk x).header.WellFormed := hwf
  have hbody := readBody_removed x.1 x.2.oldCount.toNat x.2.newCount.toNat
  rw [hunkEdit, if_pos hwf', splitOn_writeHunk hc, List.tail_cons]
  simp only [writeHunk, hbody]
  rfl

theorem hunkEdits_writeHunk (xs : List (Char × HunkHeader)) (hc : ∀ x ∈ xs, x.1 ≠ '\n')
    (hwf : ∀ x ∈ xs, x.2.WellFormed) :
    hunkEdits (xs.map writeHunk) = some (xs.map writtenEdit) := by
  induction xs with
  | nil => rfl
  | cons x xs ih =>
    have hx := hunkEdit_writeHunk (hc x List.mem_cons_self) (hwf x List.mem_cons_self)
    have hxs := ih (fun y hy => hc y (List.mem_cons_of_mem x hy))
      fun y hy => hwf y (List.mem_cons_of_mem x hy)
    rw [List.map_cons, hunkEdits, hx, hxs]
    rfl

theorem header_writeHunk (xs : List (Char × HunkHeader)) :
    (xs.map writeHunk).map DiffHunk.header = xs.map Prod.snd := by
  rw [List.map_map]
  rfl

theorem stop_writtenEdit (x : Char × HunkHeader) : (writtenEdit x).stop = x.2.stop := by
  simp [Edit.stop, writtenEdit, HunkHeader.stop]

theorem ordered_writtenEdit {xs : List (Char × HunkHeader)} (h : CanApply (xs.map Prod.snd)) :
    Ordered (xs.map writtenEdit) := by
  have hord := h.ordered
  rw [List.pairwise_map] at hord
  rw [Ordered, List.pairwise_map]
  refine hord.imp fun {x y} hxy => ?_
  rw [stop_writtenEdit]
  exact hxy

theorem blank_writtenEdit (h : HunkHeader) : (writtenEdit ('0', h)).Blank zeroLine := by
  simp [Edit.Blank, writtenEdit, zeroLine]

theorem old_writtenEdit (x : Char × HunkHeader) :
    (writtenEdit x).old = List.replicate (writtenEdit x).old.length zeroLine := by
  simp [writtenEdit]

theorem zeroLine_notMem {c : Char} (hc : c ≠ '0') (h : HunkHeader) :
    zeroLine ∉ (writtenEdit (c, h)).new := by
  intro hmem
  have heq := (List.mem_replicate.mp hmem).2
  simp only [zeroLine, List.cons.injEq] at heq
  exact hc heq.1.symm

/-- All headers write `0`, one of them another character. -/
def marked (c : Char) (H₁ : List HunkHeader) (h : HunkHeader) (H₂ : List HunkHeader) :
    List (Char × HunkHeader) :=
  H₁.map (fun h => ('0', h)) ++ (c, h) :: H₂.map (fun h => ('0', h))

theorem marked_map_snd (c : Char) (H₁ H₂ : List HunkHeader) (h : HunkHeader) :
    (marked c H₁ h H₂).map Prod.snd = H₁ ++ h :: H₂ := by
  simp [marked]

theorem marked_map_writtenEdit (c : Char) (H₁ H₂ : List HunkHeader) (h : HunkHeader) :
    (marked c H₁ h H₂).map writtenEdit =
      H₁.map (fun h => writtenEdit ('0', h)) ++
        writtenEdit (c, h) :: H₂.map (fun h => writtenEdit ('0', h)) := by
  rw [marked, List.map_append, List.map_cons, List.map_map, List.map_map]
  rfl

theorem hunkEdits_marked {c : Char} (hc : c ≠ '\n') {H₁ H₂ : List HunkHeader} {h : HunkHeader}
    (hH : CanApply (H₁ ++ h :: H₂)) :
    hunkEdits ((marked c H₁ h H₂).map writeHunk) =
      some (H₁.map (fun h => writtenEdit ('0', h)) ++
        writtenEdit (c, h) :: H₂.map (fun h => writtenEdit ('0', h))) := by
  rw [← marked_map_writtenEdit]
  apply hunkEdits_writeHunk
  · intro x hx
    simp only [marked, List.mem_append, List.mem_map, List.mem_cons] at hx
    have hzero : '0' ≠ '\n' := by decide
    obtain ⟨y, -, rfl⟩ | rfl | ⟨y, -, rfl⟩ := hx
    · exact hzero
    · exact hc
    · exact hzero
  · intro x hx
    apply hH.wellFormed
    rw [← marked_map_snd c]
    exact List.mem_map_of_mem hx

theorem ordered_marked (c : Char) {H₁ H₂ : List HunkHeader} {h : HunkHeader}
    (hH : CanApply (H₁ ++ h :: H₂)) :
    Ordered (H₁.map (fun h => writtenEdit ('0', h)) ++
      writtenEdit (c, h) :: H₂.map (fun h => writtenEdit ('0', h))) := by
  rw [← marked_map_writtenEdit]
  apply ordered_writtenEdit
  rw [marked_map_snd]
  exact hH

theorem blank_map {H : List HunkHeader} :
    ∀ e ∈ H.map (fun h => writtenEdit ('0', h)), e.Blank zeroLine := by
  intro e he
  obtain ⟨h, -, rfl⟩ := List.mem_map.mp he
  exact blank_writtenEdit h

/-- The file of `n` lines `0`. -/
def zeroFile (n : ℕ) : Text := (List.replicate n ['0']).flatMap endLine

theorem fileLines_zeroFile (n : ℕ) : fileLines (zeroFile n) = List.replicate n zeroLine := by
  induction n with
  | zero => rfl
  | succ n ih =>
    rw [zeroFile, List.replicate_succ, List.flatMap_cons, fileLines, splitInclusive_line (by decide)]
    rw [zeroFile, fileLines] at ih
    rw [ih]
    rfl

theorem exists_bound (es : List (Edit Text)) : ∃ n, ∀ e ∈ es, e.stop ≤ n := by
  induction es with
  | nil => exact ⟨0, by simp⟩
  | cons e es ih =>
    obtain ⟨n, hn⟩ := ih
    refine ⟨max e.stop n, ?_⟩
    intro e' he'
    rcases List.mem_cons.mp he' with rfl | he'
    · exact le_max_left _ _
    · exact le_trans (hn e' he') (le_max_right _ _)

/-! ### The clash -/

def Breaks (HA HB : List HunkHeader) : Prop :=
  ∃ (fa fb : List DiffHunk) (as bs : List (Edit Text)) (base : Text),
    fa.map DiffHunk.header = HA ∧ fb.map DiffHunk.header = HB ∧
    hunkEdits fa = some as ∧ hunkEdits fb = some bs ∧
    (applyPatch as (fileLines base)).isSome ∧ (applyPatch bs (fileLines base)).isSome ∧
    ¬ ∃ r, applyBoth as bs (fileLines base) = some r ∧ applyBoth bs as (fileLines base) = some r

theorem Breaks.symm {HA HB : List HunkHeader} (h : Breaks HA HB) : Breaks HB HA := by
  obtain ⟨fa, fb, as, bs, base, hA, hB, has, hbs, hokA, hokB, hno⟩ := h
  refine ⟨fb, fa, bs, as, base, hB, hA, hbs, has, hokB, hokA, ?_⟩
  rintro ⟨r, hr, hr'⟩
  exact hno ⟨r, hr', hr⟩

theorem breaks_of_marked {A₁ A₂ B₁ B₂ : List HunkHeader} {a b : HunkHeader} {c d : Char}
    (hc : c ≠ '\n') (hd : d ≠ '\n')
    (hA : CanApply (A₁ ++ a :: A₂)) (hB : CanApply (B₁ ++ b :: B₂))
    (hno : ∀ n, (∀ e ∈ A₁.map (fun h => writtenEdit ('0', h)) ++ writtenEdit (c, a) ::
          A₂.map (fun h => writtenEdit ('0', h)), e.stop ≤ n) →
      (∀ e ∈ B₁.map (fun h => writtenEdit ('0', h)) ++ writtenEdit (d, b) ::
          B₂.map (fun h => writtenEdit ('0', h)), e.stop ≤ n) →
      ¬ ∃ r,
        applyBoth (A₁.map (fun h => writtenEdit ('0', h)) ++ writtenEdit (c, a) ::
            A₂.map (fun h => writtenEdit ('0', h)))
          (B₁.map (fun h => writtenEdit ('0', h)) ++ writtenEdit (d, b) ::
            B₂.map (fun h => writtenEdit ('0', h))) (List.replicate n zeroLine) = some r ∧
        applyBoth (B₁.map (fun h => writtenEdit ('0', h)) ++ writtenEdit (d, b) ::
            B₂.map (fun h => writtenEdit ('0', h)))
          (A₁.map (fun h => writtenEdit ('0', h)) ++ writtenEdit (c, a) ::
            A₂.map (fun h => writtenEdit ('0', h))) (List.replicate n zeroLine) = some r) :
    Breaks (A₁ ++ a :: A₂) (B₁ ++ b :: B₂) := by
  have hordA := ordered_marked c hA
  have hordB := ordered_marked d hB
  have heditsA := hunkEdits_marked hc hA
  have heditsB := hunkEdits_marked hd hB
  generalize hasdef : A₁.map (fun h => writtenEdit ('0', h)) ++ writtenEdit (c, a) ::
    A₂.map (fun h => writtenEdit ('0', h)) = as at *
  generalize hbsdef : B₁.map (fun h => writtenEdit ('0', h)) ++ writtenEdit (d, b) ::
    B₂.map (fun h => writtenEdit ('0', h)) = bs at *
  obtain ⟨n, hn⟩ := exists_bound (as ++ bs)
  have hnA : ∀ e ∈ as, e.stop ≤ n := fun e he => hn e (List.mem_append_left _ he)
  have hnB : ∀ e ∈ bs, e.stop ≤ n := fun e he => hn e (List.mem_append_right _ he)
  refine ⟨(marked c A₁ a A₂).map writeHunk, (marked d B₁ b B₂).map writeHunk, as, bs, zeroFile n,
    ?_, ?_, heditsA, heditsB, ?_, ?_, ?_⟩
  · rw [header_writeHunk, marked_map_snd]
  · rw [header_writeHunk, marked_map_snd]
  · rw [applyPatch_isSome, fileLines_zeroFile]
    refine ⟨hordA, ?_⟩
    subst hasdef
    obtain ⟨m, hm⟩ := applyEdits_around hordA blank_map blank_map (old_writtenEdit _) hnA
    rw [hm]
    rfl
  · rw [applyPatch_isSome, fileLines_zeroFile]
    refine ⟨hordB, ?_⟩
    subst hbsdef
    obtain ⟨m, hm⟩ := applyEdits_around hordB blank_map blank_map (old_writtenEdit _) hnB
    rw [hm]
    rfl
  · rw [fileLines_zeroFile]
    exact hno n hnA hnB

theorem exists_first {α : Type} {P : α → Prop} {xs : List α} (h : ∃ x ∈ xs, P x) :
    ∃ ys x zs, xs = ys ++ x :: zs ∧ P x ∧ ∀ y ∈ ys, ¬ P y := by
  induction xs with
  | nil =>
    obtain ⟨x, hx, -⟩ := h
    exact absurd hx List.not_mem_nil
  | cons x xs ih =>
    by_cases hx : P x
    · exact ⟨[], x, xs, rfl, hx, by simp⟩
    · have hrest : ∃ y ∈ xs, P y := by
        obtain ⟨y, hy, hPy⟩ := h
        rcases List.mem_cons.mp hy with rfl | hy
        · exact absurd hPy hx
        · exact ⟨y, hy, hPy⟩
      obtain ⟨ys, y, zs, rfl, hy, hbefore⟩ := ih hrest
      refine ⟨x :: ys, y, zs, rfl, hy, ?_⟩
      intro w hw
      rcases List.mem_cons.mp hw with rfl | hw
      · exact hx
      · exact hbefore w hw

theorem insertion_breaks {HA HB : List HunkHeader} (hA : CanApply HA) (hB : CanApply HB)
    (hover : ∀ a ∈ HA, ∀ b ∈ HB, ¬ a.Overlaps b) {a : HunkHeader} (ha : a ∈ HA)
    (haone : a.oldCount.toNat ≠ 1)
    (hb : ∃ b ∈ HB, a.oldStart.toNat = b.oldStart.toNat ∧ b.oldCount.toNat = 0) :
    Breaks HA HB := by
  obtain ⟨A₁, A₂, rfl⟩ := List.append_of_mem ha
  obtain ⟨B₁, b, B₂, rfl, ⟨hstart, hbzero⟩, hfirst⟩ := exists_first hb
  have hwfa := hA.wellFormed a ha
  have hwfb := hB.wellFormed b (by simp)
  have hbnew : b.newCount.toNat ≠ 0 := by
    intro h0
    exact hwfb.2 (toNat_eq_zero.mpr hbzero) (toNat_eq_zero.mpr h0)
  have hbpos : b.pos = b.oldStart.toNat := by rw [pos_eq, if_pos hbzero]
  by_cases hazero : a.oldCount.toNat = 0
  · -- two insertions at one position
    have hanew : a.newCount.toNat ≠ 0 := by
      intro h0
      exact hwfa.2 (toNat_eq_zero.mpr hazero) (toNat_eq_zero.mpr h0)
    have hapos : a.pos = b.pos := by rw [pos_eq, if_pos hazero, hbpos, hstart]
    refine breaks_of_marked (c := '1') (d := '2') (by decide) (by decide) hA hB ?_
    rintro n hnA hnB ⟨r, hr, hr'⟩
    have hordA := ordered_marked '1' hA
    have hordB := ordered_marked '2' hB
    have haold : (writtenEdit ('1', a)).old = [] := by simp [writtenEdit, hazero]
    have hbold : (writtenEdit ('2', b)).old = [] := by simp [writtenEdit, hbzero]
    have h1 := applyBoth_insertions hordA hordB blank_map blank_map blank_map blank_map haold hbold
      (zeroLine_notMem (by decide) _) (zeroLine_notMem (by decide) _) hapos hnA hr
    have h2 := applyBoth_insertions hordB hordA blank_map blank_map blank_map blank_map hbold haold
      (zeroLine_notMem (by decide) _) (zeroLine_notMem (by decide) _) hapos.symm hnB hr'
    rw [h1] at h2
    obtain ⟨k, hk⟩ := Nat.exists_eq_succ_of_ne_zero hanew
    obtain ⟨l, hl⟩ := Nat.exists_eq_succ_of_ne_zero hbnew
    simp [writtenEdit, hk, hl, List.replicate_succ] at h2
  · -- an insertion within a block of two lines or more
    have hastart := wellFormed_start hwfa hazero
    have hapos : a.pos = a.oldStart.toNat - 1 := by rw [pos_eq, if_neg hazero]
    have hbefore : ∀ x ∈ B₁, x.stop ≤ a.pos := by
      intro x hx
      have hxb : x.stop ≤ b.pos := (List.pairwise_append.mp hB.ordered).2.2 x hx b (by simp)
      have hnot := hover a (by simp) x (by simp [hx])
      have hxfirst := hfirst x hx
      have hwfx := wellFormed_start (hB.wellFormed x (by simp [hx]))
      rw [HunkHeader.Overlaps] at hnot
      rw [HunkHeader.stop, pos_eq] at hxb ⊢
      split_ifs at hxb ⊢ <;> omega
    refine breaks_of_marked (c := '0') (d := '1') (by decide) (by decide) hA hB ?_
    rintro n hnA hnB ⟨r, -, hr'⟩
    have hbold : (writtenEdit ('1', b)).old = [] := by simp [writtenEdit, hbzero]
    have hnew : (writtenEdit ('1', b)).new ≠ [] := by simp [writtenEdit, hbnew]
    have hblock : 2 ≤ (writtenEdit ('0', a)).old.length := by
      simp only [writtenEdit, List.length_replicate]
      omega
    have hpos : (writtenEdit ('1', b)).pos = (writtenEdit ('0', a)).pos + 1 := by
      show b.pos = a.pos + 1
      omega
    have hstops : ∀ x ∈ B₁.map (fun h => writtenEdit ('0', h)),
        x.stop ≤ (writtenEdit ('0', a)).pos := by
      intro x hx
      obtain ⟨y, hy, rfl⟩ := List.mem_map.mp hx
      rw [stop_writtenEdit]
      exact hbefore y hy
    rw [applyBoth_within_block (ordered_marked '0' hA) (ordered_marked '1' hB) blank_map blank_map
      (old_writtenEdit _) hblock hbold hnew (zeroLine_notMem (by decide) _) hpos hstops hnB] at hr'
    cases hr'

theorem clash_breaks {HA HB : List HunkHeader} (hA : CanApply HA) (hB : CanApply HB)
    (hover : ∀ a ∈ HA, ∀ b ∈ HB, ¬ a.Overlaps b) {a b : HunkHeader} (ha : a ∈ HA) (hb : b ∈ HB)
    (hclash : a.Clashes b) : Breaks HA HB := by
  rw [clashes_iff] at hclash
  obtain ⟨hstart, ⟨hazero, hbone⟩ | ⟨hbzero, haone⟩⟩ := hclash
  · have hover' : ∀ b ∈ HB, ∀ a ∈ HA, ¬ b.Overlaps a :=
      fun b hb a ha h => hover a ha b hb (And.symm h)
    exact (insertion_breaks hB hA hover' hb hbone ⟨a, ha, hstart.symm, hazero⟩).symm
  · exact insertion_breaks hA hB hover ha haone ⟨b, hb, hstart, hbzero⟩

/-- **Low severity is safe, without overflow, exactly when** the sums the test reads fit 32
bits, and no two hunks clash where both lists can apply and no hunks overlap. -/
theorem low_is_safe_iff (HA HB : List HunkHeader) :
    LowIsSafe HA HB ∧ NoOverflow HA HB ↔
      TestFits HB HA ∧ (CanApply HA → CanApply HB → (∀ a ∈ HA, ∀ b ∈ HB, ¬ a.Overlaps b) →
        ∀ a ∈ HA, ∀ b ∈ HB, ¬ a.Clashes b) := by
  rw [noOverflow_iff]
  constructor
  · rintro ⟨hsafe, hfits⟩
    refine ⟨hfits, ?_⟩
    intro hA hB hover a ha b hb hclash
    obtain ⟨fa, fb, as, bs, base, rfl, rfl, has, hbs, hokA, hokB, hno⟩ :=
      clash_breaks hA hB hover ha hb hclash
    apply hno
    refine hsafe .wraps 0 1 ⟨[], .modified, fa, []⟩ ⟨[], .modified, fb, []⟩ (by decide) rfl rfl ?_
      base as bs has hbs hokA hokB
    rw [hunksOverlapBetweenAgents_pair _ (by decide), hunksOverlap_of_testFits _ hfits]
    congr 1
    apply decide_eq_false
    rintro ⟨x, hx, y, hy, hxy⟩
    exact hover _ (List.mem_map_of_mem hx) _ (List.mem_map_of_mem hy) hxy
  · rintro ⟨hfits, hcond⟩
    refine ⟨?_, hfits⟩
    intro mode i j fa fb hij hA hB hlow base as bs has hbs hokA hokB
    subst hA hB
    rw [hunksOverlapBetweenAgents_pair _ hij, hunksOverlap_of_testFits _ hfits] at hlow
    have hnone := of_decide_eq_false (Option.some.inj hlow)
    have hover : ∀ x ∈ fa.hunks, ∀ y ∈ fb.hunks, ¬ x.header.Overlaps y.header :=
      fun x hx y hy hxy => hnone ⟨x, hx, y, hy, hxy⟩
    have hclash := hcond (canApply_of_edits has (applyPatch_isSome.mp hokA).1)
      (canApply_of_edits hbs (applyPatch_isSome.mp hokB).1) (by
        intro a ha b hb
        obtain ⟨x, hx, rfl⟩ := List.mem_map.mp ha
        obtain ⟨y, hy, rfl⟩ := List.mem_map.mp hb
        exact hover x hx y hy)
    exact commute_of_no_clash has hbs hover
      (fun x hx y hy => hclash _ (List.mem_map_of_mem hx) _ (List.mem_map_of_mem hy)) hokA hokB

/-- `@@ -1,0 +2,1 @@` -/
def insertAfterOne : HunkHeader := ⟨1, 0, 2, 1⟩

/-- Two agents add a line after line one, and the conflict is of low severity. -/
theorem insertions_at_one_line_differ :
    ¬ ∀ HA HB : List HunkHeader, LowIsSafe HA HB ∧ NoOverflow HA HB := by
  intro h
  have hwf : insertAfterOne.WellFormed := by decide
  have hA := hunkEdits_writeHunk [('1', insertAfterOne)] (by simp) (by simp [hwf])
  have hB := hunkEdits_writeHunk [('2', insertAfterOne)] (by simp) (by simp [hwf])
  obtain ⟨r, hr, hr'⟩ := (h [insertAfterOne] [insertAfterOne]).1 .panics 0 1
    ⟨[], .modified, [writeHunk ('1', insertAfterOne)], []⟩
    ⟨[], .modified, [writeHunk ('2', insertAfterOne)], []⟩ (by decide) rfl rfl (by decide)
    zeroLine _ _ hA hB (by decide) (by decide)
  have h1 : applyBoth [writtenEdit ('1', insertAfterOne)] [writtenEdit ('2', insertAfterOne)]
      (fileLines zeroLine) = some [zeroLine, ['1', '\n'], ['2', '\n']] := by decide
  have h2 : applyBoth [writtenEdit ('2', insertAfterOne)] [writtenEdit ('1', insertAfterOne)]
      (fileLines zeroLine) = some [zeroLine, ['2', '\n'], ['1', '\n']] := by decide
  exact absurd (h1.symm.trans (hr.trans (hr'.symm.trans h2))) (by decide)

end Mowis.Review
