import Mowis.Routing.Scan

/-!
# What the classifier reads in a line

The classifier tells files, directories and domains by the shape of a line.
-/

namespace Mowis.Routing

open Mowis.Lib

theorem trimEnd_append_of_blank (a : Text) {b : Text} (h : trimEnd b = []) :
    trimEnd (a ++ b) = trimEnd a := by
  rw [← trimEnd_append_trimEnd, h, List.append_nil]

theorem trimEnd_append_of_not_blank (a : Text) {b : Text} (h : trimEnd b ≠ []) :
    trimEnd (a ++ b) = a ++ trimEnd b := by
  have hlast := List.rdropWhile_last_not isWhitespace b h
  have hget : (a ++ trimEnd b).getLast? = some ((trimEnd b).getLast h) := by
    rw [List.getLast?_append, List.getLast?_eq_some_getLast h]
    rfl
  have hkeep := trimEnd_append_of_last [] hget (Bool.eq_false_iff.mpr hlast)
  rw [List.append_nil] at hkeep
  rw [← trimEnd_append_trimEnd, hkeep]
  exact List.append_nil _

theorem trim_dropCR (l : Text) : trim (dropCR l) = trim l := by
  unfold dropCR
  split
  · next h =>
    obtain ⟨l', rfl⟩ := List.getLast?_eq_some_iff.mp h
    have hcr : trimEnd ['\r'] = [] := by decide
    rw [List.dropLast_concat, trim, trim, ← dropWhile_trimEnd, ← dropWhile_trimEnd,
      trimEnd_append_of_blank l' hcr]
  · rfl

theorem isWhitespace_of_isDecoration {c : Char} (h : isDecoration c = true) (hne : c ≠ ' ') :
    isWhitespace c = false := by
  simp only [isDecoration, Bool.or_eq_true, beq_iff_eq] at h
  rcases h with (((rfl | rfl) | rfl) | rfl) | rfl
  · rfl
  · rfl
  · rfl
  · rfl
  · exact absurd rfl hne

theorem isSeparator_of_isDecoration {c : Char} (h : isDecoration c = true) :
    isSeparator c = true := by
  rw [isSeparator, h]
  rfl

theorem of_not_isSeparator {c : Char} (h : isSeparator c = false) :
    isDecoration c = false ∧ isWhitespace c = false := by
  rw [isSeparator, Bool.or_eq_false_iff, Bool.or_eq_false_iff] at h
  exact h.1

theorem dropWhile_isDecoration_of_head {t : Text} {c : Char} (ht : t.head? = some c)
    (hc : isDecoration c = false) : t.dropWhile isDecoration = t := by
  have h := dropWhile_append_of_head [] ht hc
  rwa [List.nil_append, List.dropWhile_nil, List.nil_append] at h

theorem trim_drawn {front : Text} (h : Drawn front) (name : Text) :
    ∃ a, (∀ c ∈ a, isDecoration c = true) ∧ trim (front ++ name) = a ++ trimEnd name := by
  obtain ⟨hall, c, hc, hne⟩ := h
  have hsuffix : ∀ c ∈ front.dropWhile isWhitespace, isDecoration c = true := fun c hc =>
    hall c ((List.dropWhile_suffix _).subset hc)
  have hfull : (front.dropWhile isWhitespace).isEmpty = false := by
    rw [List.isEmpty_eq_false_iff, Ne, List.dropWhile_eq_nil_iff]
    intro hwhite
    have hno := isWhitespace_of_isDecoration (hall c hc) hne
    rw [hwhite c hc] at hno
    cases hno
  have htrim : trim (front ++ name) = trimEnd (front.dropWhile isWhitespace ++ name) := by
    rw [trim, List.dropWhile_append, hfull, if_neg Bool.false_ne_true]
  by_cases hname : trimEnd name = []
  · refine ⟨trimEnd (front.dropWhile isWhitespace), fun c hc => ?_, ?_⟩
    · exact hsuffix c ((List.rdropWhile_prefix _ _).subset hc)
    · rw [htrim, trimEnd_append_of_blank _ hname, hname, List.append_nil]
  · exact ⟨_, hsuffix, by rw [htrim, trimEnd_append_of_not_blank _ hname]⟩

namespace Lowercase

variable (lc : Lowercase)

theorem lower_cons {c : Char} (hc : isSeparator c = true) (t : Text) :
    lc.lower (c :: t) = c :: lc.lower t := by
  have h := lc.separate c hc [] t
  rwa [List.nil_append, lc.nil, List.nil_append] at h

theorem lower_decorated {a : Text} (h : ∀ c ∈ a, isDecoration c = true) (t : Text) :
    lc.lower (a ++ t) = a ++ lc.lower t := by
  induction a with
  | nil => rfl
  | cons c a ih =>
    obtain ⟨hc, ha⟩ := List.forall_mem_cons.mp h
    rw [List.cons_append, lc.lower_cons (isSeparator_of_isDecoration hc), ih ha, List.cons_append]

end Lowercase

/-- What is left of a line when a domain is looked up. -/
def cleaned (t : Text) : Text := (t.dropWhile isDecoration).rdropWhile (· == '/')

theorem mem_cleaned {t : Text} {c : Char} (hc : c ≠ '/') (h : c ∈ t.dropWhile isDecoration) :
    c ∈ cleaned t := by
  have hsplit := List.rdropWhile_append_rtakeWhile (p := (· == '/')) (l := t.dropWhile isDecoration)
  rw [← hsplit, List.mem_append] at h
  refine h.resolve_right fun hin => ?_
  have hslash := List.mem_rtakeWhile_imp (p := (· == '/')) hin
  exact hc (beq_iff_eq.mp hslash)

theorem cleaned_white (t : Text) {w : Char} (hw : isWhitespace w = true) :
    cleaned (t ++ [w]) = [] ∨ w ∈ cleaned (t ++ [w]) := by
  have hslash : w ≠ '/' := by
    rintro rfl
    cases hw
  by_cases hnil : (t ++ [w]).dropWhile isDecoration = []
  · left
    rw [cleaned, hnil]
    rfl
  · right
    refine mem_cleaned hslash ?_
    rw [List.dropWhile_append] at hnil ⊢
    split
    · next hempty =>
      rw [if_pos hempty] at hnil
      by_cases hdec : isDecoration w = true
      · rw [List.dropWhile_cons_of_pos hdec] at hnil
        exact absurd rfl hnil
      · rw [List.dropWhile_cons_of_neg hdec]
        exact List.mem_cons_self
    · exact List.mem_append_right _ List.mem_cons_self

theorem domainOf_eq (lc : Lowercase) (line : Text) : domainOf lc line =
    if cleaned (lc.lower (trim line)) ∈ domainDirs.map String.toList then
      some (cleaned (lc.lower (trim line))) else none := by
  simp only [← List.contains_iff_mem]
  rfl

theorem domainDirs_plain : ∀ w ∈ domainDirs.map String.toList,
    w ≠ [] ∧ ∀ c ∈ w, isSeparator c = false := by
  have hall : (domainDirs.map String.toList).all
      (fun w => !w.isEmpty && w.all fun c => !isSeparator c) = true := by
    decide +kernel
  intro w hw
  have h := List.all_eq_true.mp hall w hw
  simpa [List.isEmpty_eq_false_iff] using h

theorem domainOf_eq_none {lc : Lowercase} {line : Text} {c : Char} (hc : isSeparator c = true)
    (h : c ∈ cleaned (lc.lower (trim line))) : domainOf lc line = none := by
  rw [domainOf_eq, if_neg]
  intro hmem
  have hno := (domainDirs_plain _ hmem).2 c h
  rw [hc] at hno
  cases hno

def reading (lc : Lowercase) (line : Text) : Bool × Option Text :=
  (isFileLine line, domainOf lc line)

theorem reading_congr (lc : Lowercase) {l l' : Text} (h : trim l = trim l') :
    reading lc l = reading lc l' := by
  rw [reading, reading, isFileLine, isFileLine, domainOf_eq, domainOf_eq, h]

theorem reading_blank (lc : Lowercase) : reading lc [] = (false, none) := by
  have hclean : cleaned (lc.lower (trim [])) = [] := congrArg cleaned lc.nil
  have hdomain : domainOf lc [] = none := by
    rw [domainOf_eq, hclean, if_neg fun hmem => (domainDirs_plain _ hmem).1 rfl]
  rw [reading, hdomain]
  rfl

theorem reading_drawn (lc : Lowercase) {front : Text} (h : Drawn front) (name : Text) :
    reading lc (front ++ name) = reading lc ('├' :: name) := by
  have htee : Drawn ['├'] := ⟨by simp [isDecoration], '├', by simp, by simp⟩
  obtain ⟨a, ha, htrim⟩ := trim_drawn h name
  obtain ⟨b, hb, htrim'⟩ := trim_drawn htee name
  have htrim' : trim ('├' :: name) = b ++ trimEnd name := htrim'
  have hdrop : ∀ x : Text, (∀ c ∈ x, isDecoration c = true) → ∀ t : Text,
      (x ++ t).dropWhile isDecoration = t.dropWhile isDecoration := fun x hx t =>
    List.dropWhile_append_of_pos hx
  rw [reading, reading, isFileLine, isFileLine, domainOf_eq, domainOf_eq, htrim, htrim',
    lc.lower_decorated ha, lc.lower_decorated hb, cleaned, cleaned, hdrop a ha, hdrop b hb,
    hdrop a ha, hdrop b hb]

theorem reading_walked (lc : Lowercase) (n : ℕ) (t : Text) :
    reading lc (List.replicate n ' ' ++ t) = reading lc t := by
  refine reading_congr lc ?_
  have hblank : isWhitespace ' ' = true := rfl
  rw [trim, trim, List.dropWhile_append_of_pos fun c hc => ?_]
  rwa [List.eq_of_mem_replicate hc]

theorem isFileLine_slash (t : Text) : isFileLine (t ++ ['/']) = false := by
  have htrim : trim (t ++ ['/']) = t.dropWhile isWhitespace ++ ['/'] :=
    trim_around t [] (m := ['/']) rfl rfl rfl rfl
  rw [isFileLine, htrim, dropWhile_append_of_head _ (c := '/') rfl rfl]
  simp

theorem child_eq (parent name : Text) : ∃ q, child parent name = q ++ '/' :: name ∧
    (q = parent ∨ parent = q ++ ['/']) := by
  unfold child
  split
  · next h =>
    obtain ⟨q, rfl⟩ := List.getLast?_eq_some_iff.mp h
    exact ⟨q, by rw [List.append_assoc]; rfl, .inr rfl⟩
  · exact ⟨parent, rfl, .inl rfl⟩

theorem trim_slash (q name : Text) :
    trim (q ++ '/' :: name) = q.dropWhile isWhitespace ++ '/' :: trimEnd name :=
  trim_around q name (m := ['/']) rfl rfl rfl rfl

theorem isFileLine_child (parent name : Text) :
    isFileLine (child parent name) = isFileLine ('/' :: name) := by
  obtain ⟨q, hq, -⟩ := child_eq parent name
  have hslash : ∀ q : Text, isFileLine (q ++ '/' :: name) =
      (('/' :: trimEnd name).getLast? != some '/') := by
    intro q
    rw [isFileLine, trim_slash, dropWhile_append_of_head _ (c := '/') rfl rfl]
    have hfull : ∀ a : Text, (a ++ '/' :: trimEnd name).isEmpty = false := fun a => by simp
    rw [hfull, Bool.not_false, Bool.true_and, List.getLast?_append, List.getLast?_cons,
      Option.some_or]
  have hroot := hslash []
  rw [List.nil_append] at hroot
  rw [hq, hslash, hroot]

theorem domainOf_of_slash {lc : Lowercase} {q d : Text}
    (h : domainOf lc (q ++ ['/']) = some d) : domainOf lc q = some d := by
  have hlower : cleaned (lc.lower (trim (q ++ ['/']))) =
      cleaned (lc.lower (q.dropWhile isWhitespace)) := by
    have htrim : trim (q ++ ['/']) = q.dropWhile isWhitespace ++ ['/'] := trim_slash q []
    rw [htrim, lc.separate '/' rfl, lc.nil, cleaned, cleaned,
      dropWhile_append_of_head _ (c := '/') rfl rfl]
    exact List.rdropWhile_concat_pos _ _ _ rfl
  rw [domainOf_eq, hlower] at h
  split at h
  · next hmem =>
    cases h
    suffices htrim : trim q = q.dropWhile isWhitespace by rw [domainOf_eq, htrim, if_pos hmem]
    rw [trim]
    rcases List.eq_nil_or_concat (q.dropWhile isWhitespace) with hnil | ⟨u, w, hu⟩
    · rw [hnil]
      rfl
    · rw [List.concat_eq_append] at hu
      rw [hu] at hmem ⊢
      by_cases hw : isWhitespace w = true
      · -- the name would end in white space
        have hsep : isSeparator w = true := by
          rw [isSeparator, hw, Bool.or_true, Bool.true_or]
        obtain ⟨hne, hplain⟩ := domainDirs_plain _ hmem
        rw [lc.separate w hsep, lc.nil] at hne hplain
        have hno := hplain w ((cleaned_white (lc.lower u) hw).resolve_left hne)
        rw [hsep] at hno
        cases hno
      · exact List.rdropWhile_concat_neg _ _ _ hw
  · cases h

theorem domainOf_child {lc : Lowercase} {parent name d : Text} (hname : '/' ∉ name)
    (h : domainOf lc (child parent name) = some d) : domainOf lc parent = some d := by
  obtain ⟨q, hq, hparent⟩ := child_eq parent name
  rw [hq] at h
  have hblank : trimEnd name = [] := by
    by_contra hne
    have hfull : lc.lower (trimEnd name) ≠ [] := fun hnil => hne (lc.nonempty _ hnil)
    have hno : '/' ∉ lc.lower (trimEnd name) := fun hin =>
      hname ((List.rdropWhile_prefix _ _).subset (lc.separator '/' rfl _ hin))
    have hin : '/' ∈ cleaned (lc.lower (trim (q ++ '/' :: name))) := by
      rw [trim_slash, lc.separate '/' rfl, cleaned,
        dropWhile_append_of_head _ (c := '/') rfl rfl, List.rdropWhile_eq_self_iff.mpr]
      · simp
      · intro hl hlast
        rw [List.getLast_append_of_ne_nil _ (List.cons_ne_nil _ _),
          List.getLast_cons hfull] at hlast
        rw [← beq_iff_eq.mp hlast] at hno
        exact hno (List.getLast_mem hfull)
    rw [domainOf_eq_none rfl hin] at h
    cases h
  have hslash : domainOf lc (q ++ ['/']) = some d := by
    rw [← h]
    refine congrArg Prod.snd (reading_congr lc (l := q ++ ['/']) ?_)
    rw [trim_slash, trim_slash, hblank]
    rfl
  rcases hparent with rfl | rfl
  · exact domainOf_of_slash hslash
  · exact hslash

theorem domainOf_path {lc : Lowercase} {d : Text} {path : List Text}
    (hpath : ∀ name ∈ path, '/' ∉ name) : ∀ {root : Text},
    domainOf lc (path.foldl child root) = some d → domainOf lc root = some d := by
  induction path with
  | nil => exact id
  | cons name path ih =>
    intro root h
    obtain ⟨hname, hpath⟩ := List.forall_mem_cons.mp hpath
    exact domainOf_child hname (ih hpath h)

theorem isSeparator_of_isDigit {c : Char} (h : c.isDigit = true) : isSeparator c = false := by
  have hval : 48 ≤ c.toNat ∧ c.toNat ≤ 57 := by
    simpa [Char.isDigit, UInt32.le_iff_toNat_le] using h
  have hwhite : isWhitespace c = false := by
    simp only [isWhitespace, decide_eq_false_iff_not]
    omega
  have hne : ∀ b : Char, 57 < b.toNat ∨ b.toNat < 48 → (c == b) = false := fun b hb => by
    rw [beq_eq_false_iff_ne]
    rintro rfl
    omega
  rw [isSeparator, isDecoration, hwhite, hne _ (by decide), hne _ (by decide), hne _ (by decide),
    hne _ (by decide), hne _ (by decide), hne _ (by decide)]
  rfl

theorem reading_summary (lc : Lowercase) (dirs files : ℕ) :
    reading lc (summary dirs files) = (true, none) := by
  obtain ⟨c, cs, hdigits⟩ := List.exists_cons_of_ne_nil (Nat.toDigits_ne_nil (n := dirs) (b := 10))
  have hplain : ∀ c ∈ Nat.toDigits 10 dirs, isSeparator c = false := fun c hc =>
    isSeparator_of_isDigit (Nat.isDigit_of_mem_toDigits (by decide) (by decide) hc)
  have hc : isSeparator c = false := hplain c (hdigits ▸ List.mem_cons_self)
  obtain ⟨rest, hrest⟩ : ∃ rest, summary dirs files = Nat.toDigits 10 dirs ++ ' ' :: rest := by
    unfold summary
    split
    · exact ⟨_, rfl⟩
    · exact ⟨_, rfl⟩
  obtain ⟨e, hlast, he⟩ : ∃ e, (summary dirs files).getLast? = some e ∧
      (isWhitespace e = false ∧ e ≠ '/') := by
    unfold summary
    rw [List.getLast?_append, List.getLast?_append, List.getLast?_append]
    split
    · exact ⟨'e', rfl, rfl, by decide⟩
    · exact ⟨'s', rfl, rfl, by decide⟩
  have hhead : (summary dirs files).head? = some c := by
    rw [hrest, hdigits]
    rfl
  have htrim : trim (summary dirs files) = summary dirs files := by
    have h := trim_around [] [] hhead hlast (of_not_isSeparator hc).2 he.1
    rw [List.append_nil, List.nil_append, List.dropWhile_nil, List.nil_append] at h
    exact h.trans (List.append_nil _)
  have hfile : isFileLine (summary dirs files) = true := by
    have hne : summary dirs files ≠ [] := by
      rw [hrest, hdigits]
      exact List.cons_ne_nil _ _
    rw [isFileLine, htrim, dropWhile_isDecoration_of_head hhead (of_not_isSeparator hc).1, hlast,
      List.isEmpty_eq_false_iff.mpr hne]
    simpa using he.2
  have hblank : ' ' ∈ cleaned (lc.lower (trim (summary dirs files))) := by
    rw [htrim, hrest, lc.separate ' ' rfl]
    have hnum : lc.lower (Nat.toDigits 10 dirs) ≠ [] := fun hnil =>
      Nat.toDigits_ne_nil (lc.nonempty _ hnil)
    obtain ⟨x, xs, hx⟩ := List.exists_cons_of_ne_nil hnum
    have hxdec : isDecoration x = false := by
      by_contra hdec
      have hsep := isSeparator_of_isDecoration (Bool.of_not_eq_false hdec)
      have hin := lc.separator x hsep _ (hx ▸ List.mem_cons_self)
      rw [hplain x hin] at hsep
      cases hsep
    refine mem_cleaned (by decide) ?_
    rw [dropWhile_isDecoration_of_head (c := x) (by rw [hx]; rfl) hxdec]
    exact List.mem_append_right _ List.mem_cons_self
  rw [reading, hfile, domainOf_eq_none rfl hblank]

end Mowis.Routing
