import Mowis.Routing.Lines

/-!
# Whether the three listings lead to one mode

* `treeCounts`, `findCounts`, `walkCounts` — what the classifier counts in each listing, told from
  the entries of the project; `trueCounts` — its files and its domain directories.
* `countsOf_treeOutput`, `countsOf_findOutput`, `countsOf_walkOutput` — it does count that.
* `scan_agrees_iff` — the mode that a listing leads to is the one that the true numbers give
  exactly when the numbers lie on the same sides of the bounds that matter for the prompt.
-/

namespace Mowis.Routing

open Mowis.Lib

variable {C : Type}

def treeCounts (lc : Lowercase) (root : Text) (es : Entries Text C) : Counts where
  files := (if isFileLine root then 1 else 0) +
    ((visit [] es).countP fun p => isFileLine ('├' :: nameOf p)) + 1
  domains := ((domainOf lc root).toList ++
    (visit [] es).filterMap fun p => domainOf lc ('├' :: nameOf p)).dedup.length

/-- Every entry counts as a file, and so does the root; only the root may be a domain. -/
def findCounts (lc : Lowercase) (root : Text) (es : Entries Text C) : Counts where
  files := (if isFileLine root then 1 else 0) +
    (visit [] es).countP fun p => isFileLine ('/' :: nameOf p)
  domains := if (domainOf lc root).isSome then 1 else 0

def walkCounts (lc : Lowercase) (es : Entries Text C) : Counts where
  files := (visit [] es).countP fun p => !p.2 && isFileLine (nameOf p)
  domains := ((visit [] es).filterMap fun p =>
    domainOf lc (nameOf p ++ if p.2 then ['/'] else [])).dedup.length

def trueCounts (lc : Lowercase) (es : Entries Text C) : Counts where
  files := (visit [] es).countP fun p => !p.2
  domains := ((visit [] es).filterMap fun p =>
    if p.2 && (domainDirs.map String.toList).contains (lc.lower (nameOf p)) then
      some (lc.lower (nameOf p))
    else none).dedup.length

theorem isFileLine_dropCR (l : Text) : isFileLine (dropCR l) = isFileLine l := by
  rw [isFileLine, isFileLine, trim_dropCR]

theorem domainOf_dropCR (lc : Lowercase) (l : Text) : domainOf lc (dropCR l) = domainOf lc l := by
  rw [domainOf_eq, domainOf_eq, trim_dropCR]

theorem countsOf_lines (lc : Lowercase) {ls : List Text} (h : ∀ l ∈ ls, '\n' ∉ l) :
    countsOf lc (ls.flatMap endLine) =
      ⟨ls.countP isFileLine, (ls.filterMap (domainOf lc)).dedup.length⟩ := by
  have hfiles : isFileLine ∘ dropCR = isFileLine := funext isFileLine_dropCR
  have hdomains : domainOf lc ∘ dropCR = domainOf lc := funext (domainOf_dropCR lc)
  rw [countsOf, countFiles, countDomains, lines_flatMap_endLine h, List.countP_map,
    List.filterMap_map, hfiles, hdomains]

section Related

variable {α β γ : Type} {R : α → β → Prop} {ls : List α} {ps : List β}

theorem forall_of_forall₂ (h : List.Forall₂ R ls ps) {Q : α → Prop}
    (hQ : ∀ p ∈ ps, ∀ l, R l p → Q l) : ∀ l ∈ ls, Q l := by
  induction h with
  | nil => exact List.forall_mem_nil _
  | cons hR _ ih =>
    obtain ⟨hhead, htail⟩ := List.forall_mem_cons.mp hQ
    exact List.forall_mem_cons.mpr ⟨hhead _ hR, ih htail⟩

theorem countP_of_forall₂ (h : List.Forall₂ R ls ps) {f : α → Bool} {g : β → Bool}
    (hfg : ∀ p ∈ ps, ∀ l, R l p → f l = g p) : ls.countP f = ps.countP g := by
  induction h with
  | nil => rfl
  | cons hR _ ih =>
    obtain ⟨hhead, htail⟩ := List.forall_mem_cons.mp hfg
    rw [List.countP_cons, List.countP_cons, hhead _ hR, ih htail]

theorem filterMap_of_forall₂ (h : List.Forall₂ R ls ps) {f : α → Option γ} {g : β → Option γ}
    (hfg : ∀ p ∈ ps, ∀ l, R l p → f l = g p) : ls.filterMap f = ps.filterMap g := by
  induction h with
  | nil => rfl
  | cons hR _ ih =>
    obtain ⟨hhead, htail⟩ := List.forall_mem_cons.mp hfg
    rw [List.filterMap_cons, List.filterMap_cons, hhead _ hR, ih htail]

end Related

theorem not_mem_of_drawn {front : Text} (h : Drawn front) : '\n' ∉ front := fun hin => by
  have hdec := h.1 _ hin
  revert hdec
  decide

theorem not_mem_child {parent name : Text} (hparent : '\n' ∉ parent) (hname : '\n' ∉ name) :
    '\n' ∉ child parent name := by
  unfold child
  split <;> simp [hparent, hname]

theorem not_mem_path {path : List Text} (hpath : ∀ name ∈ path, PlainName name) :
    ∀ {root : Text}, '\n' ∉ root → '\n' ∉ path.foldl child root := by
  induction path with
  | nil => exact id
  | cons name path ih =>
    intro root hroot
    obtain ⟨hname, hpath⟩ := List.forall_mem_cons.mp hpath
    exact ih hpath (not_mem_child hroot hname.line)

theorem not_mem_summary (dirs files : ℕ) : '\n' ∉ summary dirs files := by
  have hdigits : ∀ n, '\n' ∉ Nat.toDigits 10 n := fun n hin => by
    have h := isSeparator_of_isDigit (Nat.isDigit_of_mem_toDigits (by decide) (by decide) hin)
    cases h
  unfold summary
  simp only [List.mem_append, hdigits, false_or]
  split <;> split <;> decide

section Listings

variable (lc : Lowercase) {root : Text} {es : Entries Text C}

theorem countsOf_treeOutput (hroot : '\n' ∉ root) (hes : Plain [] es) (d : Drawing)
    (dirs files : ℕ) : countsOf lc (treeOutput d root es dirs files) = treeCounts lc root es := by
  have hdrawn := @drawn_below C d 1 [] [] rfl (List.forall_mem_nil _) es hes
  have hreading : ∀ p ∈ visit [] es, ∀ l, DrawnAs l p →
      reading lc l = reading lc ('├' :: nameOf p) := by
    rintro p - l ⟨front, hfront, rfl⟩
    exact reading_drawn lc hfront _
  have hlines : ∀ l ∈ drawBelow d 1 [] es, '\n' ∉ l := by
    refine forall_of_forall₂ hdrawn ?_
    rintro p hp l ⟨front, hfront, rfl⟩
    rw [List.mem_append, not_or]
    exact ⟨not_mem_of_drawn hfront, (hes p hp).2.line⟩
  have hfiles := countP_of_forall₂ hdrawn (f := isFileLine)
    (g := fun p => isFileLine ('├' :: nameOf p)) fun p hp l hl =>
      congrArg Prod.fst (hreading p hp l hl)
  have hdomains := filterMap_of_forall₂ hdrawn (f := domainOf lc)
    (g := fun p => domainOf lc ('├' :: nameOf p)) fun p hp l hl =>
      congrArg Prod.snd (hreading p hp l hl)
  have hblank := reading_blank lc
  have hsummary := reading_summary lc dirs files
  rw [reading, Prod.mk.injEq] at hblank hsummary
  rw [treeOutput, countsOf_lines lc, treeCounts, List.countP_cons, List.countP_append, hfiles,
    List.filterMap_cons, List.filterMap_append, hdomains]
  · congr 1
    · simp only [List.countP_cons, List.countP_nil, hblank.1, hsummary.1, Bool.false_eq_true,
        if_false, if_true]
      omega
    · simp only [List.filterMap_cons, List.filterMap_nil, hblank.2, hsummary.2, List.append_nil]
      cases domainOf lc root <;> rfl
  · refine List.forall_mem_cons.mpr ⟨hroot, List.forall_mem_append.mpr ⟨hlines, ?_⟩⟩
    exact List.forall_mem_cons.mpr ⟨List.not_mem_nil,
      List.forall_mem_singleton.mpr (not_mem_summary dirs files)⟩

theorem dedup_length_of_all_eq {l : List Text} {d : Text} (hd : d ∈ l) (h : ∀ x ∈ l, x = d) :
    l.dedup.length = 1 := by
  have hne : l.length ≠ 0 := (List.length_pos_of_mem hd).ne'
  rw [List.eq_replicate_of_mem h, List.replicate_dedup hne]
  rfl

theorem countsOf_findOutput (hroot : '\n' ∉ root) (hes : Plain [] es) :
    countsOf lc (findOutput root es) = findCounts lc root es := by
  have hfound := @found_below C 1 root root [] rfl rfl (List.forall_mem_nil _) es hes
  have hlines : ∀ l ∈ findBelow 1 root es, '\n' ∉ l :=
    forall_of_forall₂ hfound fun p _ l hl => hl.path ▸ not_mem_path hl.plain hroot
  have hfiles : (findBelow 1 root es).countP isFileLine =
      (visit [] es).countP fun p => isFileLine ('/' :: nameOf p) := by
    refine countP_of_forall₂ hfound fun p hp l hl => ?_
    obtain ⟨path, isDir⟩ := p
    obtain ⟨above, name, rfl⟩ := (List.eq_nil_or_concat path).resolve_left hl.full
    rw [hl.path, List.concat_eq_append, nameOf_snoc, List.foldl_append]
    exact isFileLine_child _ name
  have hdomains : ∀ d ∈ (findBelow 1 root es).filterMap (domainOf lc),
      domainOf lc root = some d := by
    intro d hd
    obtain ⟨l, hl, hdomain⟩ := List.mem_filterMap.mp hd
    revert l
    refine forall_of_forall₂ hfound fun p _ l hl hdomain => ?_
    rw [hl.path] at hdomain
    exact domainOf_path (fun name hname => (hl.plain name hname).slash) hdomain
  rw [findOutput, countsOf_lines lc (List.forall_mem_cons.mpr ⟨hroot, hlines⟩), findCounts,
    List.countP_cons, hfiles, List.filterMap_cons]
  congr 1
  · omega
  · cases hdomain : domainOf lc root with
    | none =>
      have hnil : (findBelow 1 root es).filterMap (domainOf lc) = [] :=
        List.eq_nil_iff_forall_not_mem.mpr fun d hd => by
          have h := hdomains d hd
          rw [hdomain] at h
          cases h
      simp only [hnil]
      rfl
    | some d =>
      refine dedup_length_of_all_eq List.mem_cons_self (List.forall_mem_cons.mpr ⟨rfl, ?_⟩)
      intro x hx
      have h := hdomains x hx
      rw [hdomain] at h
      exact (Option.some.inj h).symm

theorem countsOf_walkOutput (hes : Plain [] es) :
    countsOf lc (walkOutput es) = walkCounts lc es := by
  have hwalked := @walked_below C 0 [] rfl es hes
  have hreading : ∀ p ∈ visit [] es, ∀ l, WalkedAs l p →
      reading lc l = reading lc (nameOf p ++ if p.2 then ['/'] else []) := by
    rintro p - l ⟨n, rfl⟩
    exact reading_walked lc n _
  have hlines : ∀ l ∈ walkDirRecursive 0 es, '\n' ∉ l := by
    refine forall_of_forall₂ hwalked ?_
    rintro p hp l ⟨n, rfl⟩
    have hname := (hes p hp).2.line
    split <;> simp [hname, List.mem_replicate]
  have hfiles : (walkDirRecursive 0 es).countP isFileLine =
      (visit [] es).countP fun p => !p.2 && isFileLine (nameOf p) := by
    refine countP_of_forall₂ hwalked fun p hp l hl => ?_
    refine (congrArg Prod.fst (hreading p hp l hl)).trans ?_
    cases p.2 with
    | false => exact congrArg isFileLine (List.append_nil _)
    | true => exact isFileLine_slash _
  have hdomains := filterMap_of_forall₂ hwalked (f := domainOf lc)
    (g := fun p => domainOf lc (nameOf p ++ if p.2 then ['/'] else [])) fun p hp l hl =>
      congrArg Prod.snd (hreading p hp l hl)
  rw [walkOutput, countsOf_lines lc hlines, walkCounts, hfiles, hdomains]

theorem Plain.of_perm {es es' : Entries Text C} (h : Plain [] es)
    (hperm : (visit [] es').Perm (visit [] es)) : Plain [] es' := fun p hp => h p (hperm.subset hp)

variable {es' : Entries Text C} (hperm : (visit [] es').Perm (visit [] es))

include hperm

theorem treeCounts_perm (root : Text) : treeCounts lc root es' = treeCounts lc root es := by
  rw [treeCounts, treeCounts, hperm.countP_eq,
    ((hperm.filterMap _).append_left _).dedup.length_eq]

theorem findCounts_perm (root : Text) : findCounts lc root es' = findCounts lc root es := by
  rw [findCounts, findCounts, hperm.countP_eq]

theorem walkCounts_perm : walkCounts lc es' = walkCounts lc es := by
  rw [walkCounts, walkCounts, hperm.countP_eq, (hperm.filterMap _).dedup.length_eq]

end Listings

section Modes

variable (lc : Lowercase) (prompt : Text) {root : Text} {t t' : Entries Text C}

theorem selectMode_none (scan : Except String Text) : selectMode none lc prompt scan =
    modeOf (signals lc prompt) (countsOf lc (dirTree scan)) := rfl

theorem mode_tree (hroot : '\n' ∉ root) (ht : Plain [] t)
    (hperm : (visit [] t').Perm (visit [] t)) (d : Drawing) (dirs files : ℕ) (stderr : Text)
    (find : Option Output) :
    selectMode none lc prompt
        (scanLinux (some ⟨true, treeOutput d root t' dirs files, stderr⟩) find) =
      modeOf (signals lc prompt) (treeCounts lc root t) := by
  have hfull : treeOutput d root t' dirs files ≠ [] := by simp [treeOutput, endLine]
  rw [selectMode_none, dirTree_tree _ _ _ hfull,
    countsOf_treeOutput lc hroot (ht.of_perm hperm), treeCounts_perm lc hperm]

theorem mode_find (hroot : '\n' ∉ root) (ht : Plain [] t)
    (hperm : (visit [] t').Perm (visit [] t)) {tree : Option Output} (htree : Unusable tree)
    (stderr : Text) :
    selectMode none lc prompt (scanLinux tree (some ⟨true, findOutput root t', stderr⟩)) =
      modeOf (signals lc prompt) (findCounts lc root t) := by
  have hfull : findOutput root t' ≠ [] := by simp [findOutput, endLine]
  rw [selectMode_none, dirTree_find htree _ _ hfull,
    countsOf_findOutput lc hroot (ht.of_perm hperm), findCounts_perm lc hperm]

theorem mode_walk (ht : Plain [] t) (hperm : (visit [] t').Perm (visit [] t)) :
    selectMode none lc prompt (scanElsewhere t') =
      modeOf (signals lc prompt) (walkCounts lc t) := by
  rw [selectMode_none, dirTree_walk, countsOf_walkOutput lc (ht.of_perm hperm),
    walkCounts_perm lc hperm]

end Modes

/-- **Whether the listings agree.**  Each listing leads to the mode that the files and the domain
directories of the project give exactly when the numbers that are counted in it are like the true
ones for the prompt. -/
theorem scan_agrees_iff (lc : Lowercase) (prompt : Text) {root : Text} (hroot : '\n' ∉ root)
    {t t₁ t₂ t₃ : Entries Text C} (ht : Plain [] t) (h₁ : (visit [] t₁).Perm (visit [] t))
    (h₂ : (visit [] t₂).Perm (visit [] t)) (h₃ : (visit [] t₃).Perm (visit [] t)) (d : Drawing)
    (dirs files : ℕ) (stderr : Text) (find : Option Output) {tree : Option Output}
    (htree : Unusable tree) :
    (selectMode none lc prompt
          (scanLinux (some ⟨true, treeOutput d root t₁ dirs files, stderr⟩) find) =
        modeOf (signals lc prompt) (trueCounts lc t) ∧
      selectMode none lc prompt (scanLinux tree (some ⟨true, findOutput root t₂, stderr⟩)) =
        modeOf (signals lc prompt) (trueCounts lc t) ∧
      selectMode none lc prompt (scanElsewhere t₃) =
        modeOf (signals lc prompt) (trueCounts lc t)) ↔
    ((signals lc prompt).crossService = false →
      Alike (signals lc prompt) (treeCounts lc root t) (trueCounts lc t) ∧
        Alike (signals lc prompt) (findCounts lc root t) (trueCounts lc t) ∧
        Alike (signals lc prompt) (walkCounts lc t) (trueCounts lc t)) := by
  rw [mode_tree lc prompt hroot ht h₁, mode_find lc prompt hroot ht h₂ htree,
    mode_walk lc prompt ht h₃, modeOf_eq_iff, modeOf_eq_iff, modeOf_eq_iff]
  constructor
  · rintro ⟨htree, hfind, hwalk⟩ hcross
    exact ⟨htree hcross, hfind hcross, hwalk hcross⟩
  · intro h
    exact ⟨fun hcross => (h hcross).1, fun hcross => (h hcross).2.1, fun hcross => (h hcross).2.2⟩

theorem isAlpha_of_isSeparator {c : Char} (h : isSeparator c = true) : c.isAlpha = false := by
  have hfar : c.toNat ≤ 47 ∨ 133 ≤ c.toNat := by
    simp only [isSeparator, isDecoration, isWhitespace, Bool.or_eq_true, beq_iff_eq,
      decide_eq_true_eq] at h
    rcases h with (((((rfl | rfl) | rfl) | rfl) | rfl) | hwhite) | rfl
    · decide
    · decide
    · decide
    · decide
    · decide
    · omega
    · decide
  simp only [Char.isAlpha, Char.isUpper, Char.isLower, Bool.or_eq_false_iff,
    decide_eq_false_iff_not, Bool.and_eq_false_iff, UInt32.le_iff_toNat_le, ge_iff_le]
  change c.val.toNat ≤ 47 ∨ 133 ≤ c.val.toNat at hfar
  simp only [Char.reduceVal, UInt32.reduceToNat]
  omega

/-- `to_lowercase` on texts of ASCII letters. -/
def asciiLower : Lowercase where
  lower := List.map Char.toLower
  nil := rfl
  nonempty _ h := List.map_eq_nil_iff.mp h
  separate c hc t u := by
    have hupper : ¬ c.isUpper = true := fun hup => by
      have halpha := isAlpha_of_isSeparator hc
      rw [Char.isAlpha, hup] at halpha
      cases halpha
    rw [List.map_append, List.map_cons, Char.toLower_eq_of_not_isUpper hupper]
  separator c hc t hin := by
    obtain ⟨x, hx, rfl⟩ := List.mem_map.mp hin
    have halpha := isAlpha_of_isSeparator hc
    rw [Char.isAlpha_toLower_eq_isAlpha, Char.isAlpha, Bool.or_eq_false_iff] at halpha
    rwa [Char.toLower_eq_of_not_isUpper (by rw [halpha.1]; exact Bool.false_ne_true)]

def library : Entries Text Unit :=
  [("Cargo.toml".toList, .file ()), ("src".toList, .dir [("lib.rs".toList, .file ())])]

example : walkOutput library = "Cargo.toml\nsrc/\n  lib.rs\n".toList := by decide +kernel

theorem plain_library : Plain [] library := by decide +kernel

theorem scan_agrees_library :
    selectMode none asciiLower "fix the typo".toList (scanLinux
        (some ⟨true, treeOutput boxes "/p".toList library 1 2, []⟩) none) = .simple ∧
      selectMode none asciiLower "fix the typo".toList (scanLinux none
        (some ⟨true, findOutput "/p".toList library, []⟩)) = .simple ∧
      selectMode none asciiLower "fix the typo".toList (scanElsewhere library) = .simple := by
  have htrue : modeOf (signals asciiLower "fix the typo".toList) (trueCounts asciiLower library) =
      .simple := by decide +kernel
  rw [← htrue]
  refine (scan_agrees_iff asciiLower _ (by decide) plain_library (.refl _) (.refl _) (.refl _)
    boxes 1 2 [] none unusable_none).mpr fun hcross => ⟨?_, ?_, ?_⟩
  · exact (modeOf_eq_iff _ _ _).mp (by decide +kernel) hcross
  · exact (modeOf_eq_iff _ _ _).mp (by decide +kernel) hcross
  · exact (modeOf_eq_iff _ _ _).mp (by decide +kernel) hcross

def threeDomains : Entries Text Unit :=
  ["frontend", "backend", "mobile"].map fun domain =>
    (domain.toList, .dir [("main.rs".toList, .file ())])

theorem plain_threeDomains : Plain [] threeDomains := by decide +kernel

/-- `find` names no domain: the request is taken for a simple one. -/
theorem not_scan_agrees : ¬ ∀ (lc : Lowercase) (prompt root : Text), '\n' ∉ root →
    ∀ t : Entries Text Unit, Plain [] t → ∀ (d : Drawing) (dirs files : ℕ),
    selectMode none lc prompt (scanLinux (some ⟨true, treeOutput d root t dirs files, []⟩) none) =
        modeOf (signals lc prompt) (trueCounts lc t) ∧
      selectMode none lc prompt (scanLinux none (some ⟨true, findOutput root t, []⟩)) =
        modeOf (signals lc prompt) (trueCounts lc t) ∧
      selectMode none lc prompt (scanElsewhere t) =
        modeOf (signals lc prompt) (trueCounts lc t) := by
  intro h
  obtain ⟨-, hfind, -⟩ := h asciiLower "update the endpoint".toList "/p".toList (by decide)
    threeDomains plain_threeDomains boxes 3 3
  rw [mode_find asciiLower _ (by decide) plain_threeDomains (.refl _) unusable_none]
    at hfind
  revert hfind
  decide +kernel

end Mowis.Routing
