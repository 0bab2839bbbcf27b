import Mowis.Routing.Agreement

/-!
# Projects that grow

What `classify_complexity` makes of a listing to which files or directories are added.
-/

namespace Mowis.Routing

open Mowis.Lib

def ComplexityMode.rank : ComplexityMode → ℕ
  | .simple => 0
  | .standard => 1
  | .full => 2

/-- Simple, Standard and Full. -/
instance : LinearOrder ComplexityMode :=
  LinearOrder.lift' ComplexityMode.rank fun m m' h => by cases m <;> cases m' <;> cases h <;> rfl

instance : LE Counts where
  le n n' := n.files ≤ n'.files ∧ n.domains ≤ n'.domains

section Numbers

variable {n n' : Counts}

theorem Counts.Big.mono (h : n ≤ n') (hbig : n.Big) : n'.Big := by
  obtain ⟨hfiles, hdomains⟩ := h
  unfold Counts.Big at *
  omega

theorem Counts.Medium.mono (h : n ≤ n') (hmedium : n.Medium) : n'.Medium := by
  obtain ⟨hfiles, hdomains⟩ := h
  unfold Counts.Medium at *
  omega

theorem Counts.Small.anti (h : n ≤ n') (hsmall : n'.Small) : n.Small := by
  obtain ⟨hfiles, hdomains⟩ := h
  unfold Counts.Small at *
  omega

theorem score_mono (s : Signals) (h : n ≤ n') : score s n ≤ score s n' := by
  cases hcross : s.crossService with
  | true =>
    rw [score, score, if_pos hcross, if_pos hcross]
  | false =>
    obtain ⟨hfull, hsimple⟩ := score_iff hcross n
    obtain ⟨hfull', hsimple'⟩ := score_iff hcross n'
    have hup : score s n = 2 → score s n' = 2 := by
      rw [hfull, hfull']
      rintro ⟨hg, hs, hbig⟩
      exact ⟨hg, hs, hbig.mono h⟩
    have hdown : score s n' = 0 → score s n = 0 := by
      rw [hsimple, hsimple']
      rintro (⟨hs, hsmall⟩ | ⟨hb, hg | hmedium⟩)
      · exact .inl ⟨hs, hsmall.anti h⟩
      · exact .inr ⟨hb, .inl hg⟩
      · exact .inr ⟨hb, .inr fun hm => hmedium (hm.mono h)⟩
    have hle := score_le s n
    omega

theorem rank_modeOf (s : Signals) (n : Counts) : (modeOf s n).rank = score s n := by
  have hle := score_le s n
  unfold modeOf
  interval_cases score s n <;> rfl

theorem modeOf_mono (s : Signals) (h : n ≤ n') : modeOf s n ≤ modeOf s n' := by
  show (modeOf s n).rank ≤ (modeOf s n').rank
  rw [rank_modeOf, rank_modeOf]
  exact score_mono s h

theorem modeOf_eq_full_iff (s : Signals) (n : Counts) : modeOf s n = .full ↔ score s n = 2 := by
  rw [← rank_modeOf]
  cases modeOf s n <;> decide

end Numbers

def shown (line : Text) : Text := (trim line).dropWhile isDecoration

/-- Each entry of the first listing is shown in the second one, as often and wherever. -/
def Grows (dirTree dirTree' : Text) : Prop :=
  List.Subperm ((lines dirTree).map shown) ((lines dirTree').map shown)

section Listings

variable (lc : Lowercase)

theorem lawfulBEq_entry : LawfulBEq Text := inferInstance

attribute [local instance] lawfulBEq_entry

def domainOfEntry (entry : Text) : Option Text :=
  if cleaned (lc.lower entry) ∈ domainDirs.map String.toList then some (cleaned (lc.lower entry))
  else none

theorem domainOf_eq_shown (line : Text) : domainOf lc line = domainOfEntry lc (shown line) := by
  have hfront : ∀ c ∈ (trim line).takeWhile isDecoration, isDecoration c = true :=
    fun c hc => List.mem_takeWhile_imp hc
  have hsplit := List.takeWhile_append_dropWhile (p := isDecoration) (l := trim line)
  have hclean : cleaned (lc.lower (trim line)) = cleaned (lc.lower (shown line)) := by
    rw [← hsplit, lc.lower_decorated hfront, cleaned, List.dropWhile_append_of_pos hfront]
    rfl
  rw [domainOf_eq, hclean]
  rfl

theorem dedup_length_mono {l l' : List Text} (h : l.Subperm l') :
    l.dedup.length ≤ l'.dedup.length := by
  refine (List.subperm_of_subset (List.nodup_dedup l) fun x hx => ?_).length_le
  exact List.mem_dedup.mpr (h.subset (List.mem_dedup.mp hx))

theorem filterMap_subperm {α β : Type} (f : α → Option β) {l l' : List α}
    (h : l.Subperm l') : (l.filterMap f).Subperm (l'.filterMap f) := by
  obtain ⟨k, hperm, hsub⟩ := h
  exact ⟨k.filterMap f, hperm.filterMap f, hsub.filterMap f⟩

theorem Grows.countsOf_le {dirTree dirTree' : Text} (h : Grows dirTree dirTree') :
    countsOf lc dirTree ≤ countsOf lc dirTree' := by
  constructor
  · show countFiles dirTree ≤ countFiles dirTree'
    have hcount := h.countP_le fun entry => !entry.isEmpty && entry.getLast? != some '/'
    rwa [List.countP_map, List.countP_map] at hcount
  · show countDomains lc dirTree ≤ countDomains lc dirTree'
    have hdomains := dedup_length_mono (filterMap_subperm (domainOfEntry lc) h)
    rw [List.filterMap_map, List.filterMap_map] at hdomains
    have hshown : domainOfEntry lc ∘ shown = domainOf lc :=
      funext fun line => (domainOf_eq_shown lc line).symm
    rwa [hshown] at hdomains

/-- **Adding entries to the listing never lowers the mode.  A prompt with a cross-service signal
leads to Full, and one for a single artifact does not without it.** -/
theorem classifyComplexity_monotone (prompt : Text) :
    (∀ dirTree dirTree', Grows dirTree dirTree' →
      (classifyComplexity lc prompt dirTree).mode ≤ (classifyComplexity lc prompt dirTree').mode) ∧
    ((signals lc prompt).crossService = true →
      ∀ dirTree, (classifyComplexity lc prompt dirTree).mode = .full) ∧
    ((signals lc prompt).isSingleArtifact = true → (signals lc prompt).crossService = false →
      ∀ dirTree, (classifyComplexity lc prompt dirTree).mode ≠ .full) := by
  refine ⟨fun dirTree dirTree' h => modeOf_mono _ (h.countsOf_le lc), fun hcross dirTree => ?_,
    fun hsingle hcross dirTree => ?_⟩
  · show modeOf _ _ = .full
    rw [modeOf_eq_full_iff, score, if_pos hcross]
  · show modeOf _ _ ≠ .full
    rw [Ne, modeOf_eq_full_iff, (score_iff hcross _).1, hsingle]
    simp

/-- A directory of the application is added, and drawn with other lines moved. -/
theorem classifyComplexity_monotone_frontend :
    (classifyComplexity asciiLower "rename it".toList "└── main.rs".toList).mode ≤
        (classifyComplexity asciiLower "rename it".toList
          "├── frontend/\n│   └── app.ts\n└── main.rs".toList).mode ∧
      (classifyComplexity asciiLower "the fullstack app".toList []).mode = .full ∧
      (classifyComplexity asciiLower "a blog".toList []).mode ≠ .full := by
  refine ⟨(classifyComplexity_monotone asciiLower _).1 _ _ ?_,
    (classifyComplexity_monotone asciiLower _).2.1 ?_ _,
    (classifyComplexity_monotone asciiLower _).2.2 ?_ ?_ _⟩
  · exact List.Sublist.subperm (by decide +kernel)
  · decide +kernel
  · decide +kernel
  · decide +kernel

end Listings

end Mowis.Routing
