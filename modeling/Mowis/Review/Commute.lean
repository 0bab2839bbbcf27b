import Mowis.Review.Conflict
import Mowis.Review.Hunk

/-!
# When low severity means auto-mergeable

A conflict is of low severity when no hunks of different agents overlap.  The test compares
old ranges as half-open intervals of lines, which is not what an empty range is: it stands
between two lines.
-/

namespace Mowis.Review

open Mowis.Lib

/-- For all hunks of two agents with these headers: if the test finds no overlap, then on all
files both lists apply to, they give the same file in either order. -/
def LowIsSafe (HA HB : List HunkHeader) : Prop :=
  ∀ (mode : Overflow) (i j : ℕ) (fa fb : FileChange), i ≠ j →
    fa.hunks.map DiffHunk.header = HA → fb.hunks.map DiffHunk.header = HB →
    hunksOverlapBetweenAgents mode [(i, fa), (j, fb)] = some false →
    ∀ (base : Text) (as bs : List (Edit Text)),
      hunkEdits fa.hunks = some as → hunkEdits fb.hunks = some bs →
      (applyPatch as (fileLines base)).isSome → (applyPatch bs (fileLines base)).isSome →
      ∃ r, applyBoth as bs (fileLines base) = some r ∧ applyBoth bs as (fileLines base) = some r

def NoOverflow (HA HB : List HunkHeader) : Prop :=
  ∀ (i j : ℕ) (fa fb : FileChange), i ≠ j →
    fa.hunks.map DiffHunk.header = HA → fb.hunks.map DiffHunk.header = HB →
    hunksOverlapBetweenAgents .panics [(i, fa), (j, fb)] ≠ none

namespace HunkHeader

def Overlaps (a b : HunkHeader) : Prop :=
  a.oldStart.toNat < b.oldStart.toNat + b.oldCount.toNat ∧
    b.oldStart.toNat < a.oldStart.toNat + a.oldCount.toNat

instance (a b : HunkHeader) : Decidable (a.Overlaps b) := inferInstanceAs (Decidable (_ ∧ _))

/-- Both start at one line, one of them inserts, and the other is not of exactly one line. -/
def Clashes (a b : HunkHeader) : Prop :=
  a.oldStart = b.oldStart ∧
    ((a.oldCount = 0 ∧ b.oldCount ≠ 1) ∨ (b.oldCount = 0 ∧ a.oldCount ≠ 1))

def Fits (a : HunkHeader) : Prop := a.oldStart.toNat + a.oldCount.toNat < 2 ^ 32

end HunkHeader

def RowFits (a : HunkHeader) : List HunkHeader → Prop
  | [] => True
  | b :: HB => b.Fits ∧ (¬ a.Overlaps b → RowFits a HB)

/-- The sums the test reads fit: those of the rows up to the first overlap. -/
def TestFits (HB : List HunkHeader) : List HunkHeader → Prop
  | [] => True
  | a :: HA => a.Fits ∧ RowFits a HB ∧ ((∀ b ∈ HB, ¬ a.Overlaps b) → TestFits HB HA)

/-- The headers of a list of hunks that applies to some file. -/
structure CanApply (H : List HunkHeader) : Prop where
  wellFormed : ∀ h ∈ H, h.WellFormed
  ordered : H.Pairwise fun a b => a.stop ≤ b.pos

theorem addU32_of_fits (mode : Overflow) {h : DiffHunk} (hfit : h.header.Fits) :
    addU32 mode h.oldStart h.oldCount = some (h.oldStart + h.oldCount) := by
  cases mode with
  | panics => exact if_pos hfit
  | wraps => rfl

theorem addU32_panics {h : DiffHunk} (hfit : ¬ h.header.Fits) :
    addU32 .panics h.oldStart h.oldCount = none := if_neg hfit

theorem toNat_add_of_fits {h : DiffHunk} (hfit : h.header.Fits) :
    (h.oldStart + h.oldCount).toNat = h.oldStart.toNat + h.oldCount.toNat := by
  rw [UInt32.toNat_add]
  exact Nat.mod_eq_of_lt hfit

theorem overlap_test_iff {hi hj : DiffHunk} (hi' : hi.header.Fits) (hj' : hj.header.Fits) :
    (hi.oldStart < hj.oldStart + hj.oldCount ∧ hj.oldStart < hi.oldStart + hi.oldCount) ↔
      hi.header.Overlaps hj.header := by
  rw [UInt32.lt_iff_toNat_lt, UInt32.lt_iff_toNat_lt, toNat_add_of_fits hj', toNat_add_of_fits hi']
  rfl

theorem overlapsSome_of_rowFits (mode : Overflow) {hi : DiffHunk} (hfit : hi.header.Fits)
    {hjs : List DiffHunk} (hrow : RowFits hi.header (hjs.map DiffHunk.header)) :
    overlapsSome mode hi (hi.oldStart + hi.oldCount) hjs =
      some (decide (∃ hj ∈ hjs, hi.header.Overlaps hj.header)) := by
  induction hjs with
  | nil => simp [overlapsSome]
  | cons hj hjs ih =>
    obtain ⟨hjfit, hrest⟩ := hrow
    rw [overlapsSome, addU32_of_fits mode hjfit]
    simp only [overlap_test_iff hfit hjfit]
    by_cases hover : hi.header.Overlaps hj.header
    · simp [hover]
    · rw [if_neg hover, ih (hrest hover)]
      simp [hover]

theorem overlapsSome_panics {hi : DiffHunk} (hfit : hi.header.Fits) {hjs : List DiffHunk}
    (hrow : ¬ RowFits hi.header (hjs.map DiffHunk.header)) :
    overlapsSome .panics hi (hi.oldStart + hi.oldCount) hjs = none := by
  induction hjs with
  | nil => exact absurd trivial hrow
  | cons hj hjs ih =>
    rw [overlapsSome]
    by_cases hjfit : hj.header.Fits
    · have hrest : ¬ (¬ hi.header.Overlaps hj.header →
          RowFits hi.header (hjs.map DiffHunk.header)) := fun h => hrow ⟨hjfit, h⟩
      push Not at hrest
      rw [addU32_of_fits _ hjfit]
      simp only [overlap_test_iff hfit hjfit, if_neg hrest.1]
      exact ih hrest.2
    · rw [addU32_panics hjfit]

theorem hunksOverlap_of_testFits (mode : Overflow) {hjs his : List DiffHunk}
    (h : TestFits (hjs.map DiffHunk.header) (his.map DiffHunk.header)) :
    hunksOverlap mode hjs his =
      some (decide (∃ hi ∈ his, ∃ hj ∈ hjs, hi.header.Overlaps hj.header)) := by
  induction his with
  | nil => simp [hunksOverlap]
  | cons hi his ih =>
    obtain ⟨hfit, hrow, hrest⟩ := h
    rw [hunksOverlap, addU32_of_fits mode hfit]
    simp only [overlapsSome_of_rowFits mode hfit hrow]
    by_cases hover : ∃ hj ∈ hjs, hi.header.Overlaps hj.header
    · simp [hover]
    · have hnone : ∀ b ∈ hjs.map DiffHunk.header, ¬ hi.header.Overlaps b := by
        intro b hb hab
        obtain ⟨hj, hj', rfl⟩ := List.mem_map.mp hb
        exact hover ⟨hj, hj', hab⟩
      simp only [hover, decide_false]
      rw [ih (hrest hnone)]
      congr 2
      simp only [List.mem_cons, exists_eq_or_imp, hover, false_or]

theorem hunksOverlap_panics {hjs his : List DiffHunk}
    (h : ¬ TestFits (hjs.map DiffHunk.header) (his.map DiffHunk.header)) :
    hunksOverlap .panics hjs his = none := by
  induction his with
  | nil => exact absurd trivial h
  | cons hi his ih =>
    rw [hunksOverlap]
    by_cases hfit : hi.header.Fits
    · rw [addU32_of_fits _ hfit]
      by_cases hrow : RowFits hi.header (hjs.map DiffHunk.header)
      · have hrest : ¬ ((∀ b ∈ hjs.map DiffHunk.header, ¬ hi.header.Overlaps b) →
            TestFits (hjs.map DiffHunk.header) (his.map DiffHunk.header)) :=
          fun h' => h ⟨hfit, hrow, h'⟩
        push Not at hrest
        have hnone : ¬ ∃ hj ∈ hjs, hi.header.Overlaps hj.header := by
          rintro ⟨hj, hj', hover⟩
          exact hrest.1 hj.header (List.mem_map_of_mem hj') hover
        simp only [overlapsSome_of_rowFits _ hfit hrow, hnone, decide_false]
        exact ih hrest.2
      · simp only [overlapsSome_panics hfit hrow]
    · rw [addU32_panics hfit]

theorem hunksOverlapBetweenAgents_pair (mode : Overflow) {i j : ℕ} (hij : i ≠ j)
    (fa fb : FileChange) :
    hunksOverlapBetweenAgents mode [(i, fa), (j, fb)] = hunksOverlap mode fb.hunks fa.hunks := by
  rw [hunksOverlapBetweenAgents, overlapsLater, if_neg hij]
  cases hunksOverlap mode fb.hunks fa.hunks with
  | none => rfl
  | some b =>
    cases b with
    | true => rfl
    | false => rfl

theorem noOverflow_iff (HA HB : List HunkHeader) : NoOverflow HA HB ↔ TestFits HB HA := by
  constructor
  · intro h
    by_contra hfits
    let hunksOf (H : List HunkHeader) : List DiffHunk :=
      H.map fun h => ⟨h.oldStart, h.oldCount, h.newStart, h.newCount, []⟩
    have hheaders : ∀ H, (hunksOf H).map DiffHunk.header = H := by
      intro H
      rw [List.map_map]
      exact List.map_id H
    have hno := h 0 1 ⟨[], .modified, hunksOf HA, []⟩ ⟨[], .modified, hunksOf HB, []⟩ (by decide)
      (hheaders HA) (hheaders HB)
    rw [hunksOverlapBetweenAgents_pair _ (by decide)] at hno
    apply hno
    apply hunksOverlap_panics
    rw [hheaders, hheaders]
    exact hfits
  · intro h i j fa fb hij hA hB
    subst hA hB
    rw [hunksOverlapBetweenAgents_pair _ hij, hunksOverlap_of_testFits _ h]
    simp

theorem toNat_eq_zero {n : UInt32} : n = 0 ↔ n.toNat = 0 := UInt32.toNat_inj.symm

theorem toNat_eq_one {n : UInt32} : n = 1 ↔ n.toNat = 1 := UInt32.toNat_inj.symm

theorem clashes_iff {a b : HunkHeader} :
    a.Clashes b ↔ a.oldStart.toNat = b.oldStart.toNat ∧
      ((a.oldCount.toNat = 0 ∧ b.oldCount.toNat ≠ 1) ∨
        (b.oldCount.toNat = 0 ∧ a.oldCount.toNat ≠ 1)) := by
  rw [HunkHeader.Clashes, toNat_eq_zero, toNat_eq_zero, Ne, Ne, toNat_eq_one, toNat_eq_one,
    ← UInt32.toNat_inj]

theorem pos_eq (h : HunkHeader) :
    h.pos = if h.oldCount.toNat = 0 then h.oldStart.toNat else h.oldStart.toNat - 1 := by
  rw [HunkHeader.pos]
  simp only [toNat_eq_zero]

theorem wellFormed_start {h : HunkHeader} (hwf : h.WellFormed) :
    h.oldCount.toNat ≠ 0 → h.oldStart.toNat ≠ 0 := by
  intro hcount hstart
  exact hwf.1 (fun h0 => hcount (toNat_eq_zero.mp h0)) (toNat_eq_zero.mpr hstart)

theorem apart_of_headers {a b : HunkHeader} (ha : a.WellFormed) (hb : b.WellFormed)
    (hover : ¬ a.Overlaps b) (hclash : ¬ a.Clashes b) {ea eb : Edit Text}
    (hea : ea.pos = a.pos ∧ ea.old.length = a.oldCount.toNat)
    (heb : eb.pos = b.pos ∧ eb.old.length = b.oldCount.toNat) : ea.Apart eb := by
  have hastart := wellFormed_start ha
  have hbstart := wellFormed_start hb
  rw [clashes_iff] at hclash
  rw [HunkHeader.Overlaps] at hover
  rw [Edit.Apart, Edit.stop, Edit.stop, hea.1, hea.2, heb.1, heb.2, pos_eq, pos_eq]
  split_ifs <;> omega

theorem exists_mem_of_forall₂ {α β : Type} {R : α → β → Prop} {xs : List α} {ys : List β}
    (h : List.Forall₂ R xs ys) {x : α} (hx : x ∈ xs) : ∃ y ∈ ys, R x y := by
  induction h with
  | nil => exact absurd hx List.not_mem_nil
  | cons hxy _ ih =>
    rcases List.mem_cons.mp hx with rfl | hx
    · exact ⟨_, List.mem_cons_self, hxy⟩
    · obtain ⟨y, hy, hxy⟩ := ih hx
      exact ⟨y, List.mem_cons_of_mem _ hy, hxy⟩

theorem mem_hunkEdits {hs : List DiffHunk} {es : List (Edit Text)} (h : hunkEdits hs = some es)
    {e : Edit Text} (he : e ∈ es) : ∃ x ∈ hs, hunkEdit x = some e :=
  exists_mem_of_forall₂ (hunkEdits_some h).flip he

theorem mem_hunks {hs : List DiffHunk} {es : List (Edit Text)} (h : hunkEdits hs = some es)
    {x : DiffHunk} (hx : x ∈ hs) : ∃ e ∈ es, hunkEdit x = some e :=
  exists_mem_of_forall₂ (hunkEdits_some h) hx

theorem canApply_of_edits {hs : List DiffHunk} {es : List (Edit Text)}
    (h : hunkEdits hs = some es) (hord : Ordered es) : CanApply (hs.map DiffHunk.header) := by
  constructor
  · intro x hx
    obtain ⟨d, hd, rfl⟩ := List.mem_map.mp hx
    obtain ⟨e, -, he⟩ := mem_hunks h hd
    exact (hunkEdit_some he).1
  · have hforall := hunkEdits_some h
    clear h
    induction hforall with
    | nil => exact List.Pairwise.nil
    | @cons d e ds es hde hrest ih =>
      obtain ⟨hle, hord⟩ := List.pairwise_cons.mp hord
      refine List.pairwise_cons.mpr ⟨?_, ih hord⟩
      intro x hx
      obtain ⟨d', hd', rfl⟩ := List.mem_map.mp hx
      obtain ⟨e', he', hde'⟩ := exists_mem_of_forall₂ hrest hd'
      obtain ⟨-, hpos, hold, -⟩ := hunkEdit_some hde
      obtain ⟨-, hpos', -, -⟩ := hunkEdit_some hde'
      have hstep := hle e' he'
      rw [Edit.stop, hpos, hold, hpos'] at hstep
      exact hstep

theorem applyPatch_isSome {es : List (Edit Text)} {file : List Text} :
    (applyPatch es file).isSome ↔ Ordered es ∧ (applyEdits es file).isSome := by
  rw [applyPatch]
  split
  · next h => simp [h]
  · next h => simp [h]

theorem commute_of_no_clash {fa fb : List DiffHunk} {as bs : List (Edit Text)} {file : List Text}
    (ha : hunkEdits fa = some as) (hb : hunkEdits fb = some bs)
    (hover : ∀ x ∈ fa, ∀ y ∈ fb, ¬ x.header.Overlaps y.header)
    (hclash : ∀ x ∈ fa, ∀ y ∈ fb, ¬ x.header.Clashes y.header)
    (hA : (applyPatch as file).isSome) (hB : (applyPatch bs file).isSome) :
    ∃ r, applyBoth as bs file = some r ∧ applyBoth bs as file = some r := by
  obtain ⟨hordA, hA⟩ := applyPatch_isSome.mp hA
  obtain ⟨hordB, hB⟩ := applyPatch_isSome.mp hB
  refine applyBoth_comm hordA hordB (fun a haa b hbb => ?_) hA hB
  obtain ⟨x, hx, hxa⟩ := mem_hunkEdits ha haa
  obtain ⟨y, hy, hyb⟩ := mem_hunkEdits hb hbb
  obtain ⟨hwfx, hposx, holdx, -⟩ := hunkEdit_some hxa
  obtain ⟨hwfy, hposy, holdy, -⟩ := hunkEdit_some hyb
  exact apart_of_headers hwfx hwfy (hover x hx y hy) (hclash x hx y hy) ⟨hposx, holdx⟩
    ⟨hposy, holdy⟩

end Mowis.Review
