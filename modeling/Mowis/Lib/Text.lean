import Mathlib

/-!
# Texts

Texts are lists of characters.  The operations are those of a string library that works
on lines and on the first or last occurrence of a pattern.
-/

namespace Mowis.Lib

abbrev Text := List Char

/-! ### Lines -/

def splitInclusive : Text → List Text
  | [] => []
  | c :: cs =>
    if c = '\n' then ['\n'] :: splitInclusive cs
    else
      match splitInclusive cs with
      | [] => [[c]]
      | l :: ls => (c :: l) :: ls

def dropCR (l : Text) : Text := if l.getLast? = some '\r' then l.dropLast else l

/-- A piece without its line ending.  A carriage return without a line feed stays. -/
def chomp (l : Text) : Text := if l.getLast? = some '\n' then dropCR l.dropLast else l

def lines (t : Text) : List Text := (splitInclusive t).map chomp

def joinLines (ls : List Text) : Text := ['\n'].intercalate ls

def endLine (l : Text) : Text := l ++ ['\n']

theorem dropCR_isPrefix (l : Text) : dropCR l <+: l := by
  unfold dropCR
  split
  · exact List.dropLast_prefix l
  · exact List.prefix_refl l

theorem dropCR_eq_self {l : Text} (h : l.getLast? ≠ some '\r') : dropCR l = l := if_neg h

theorem length_dropCR_lt {l : Text} (h : l.getLast? = some '\r') :
    (dropCR l).length < l.length := by
  have hne : l ≠ [] := by
    rintro rfl
    cases h
  rw [dropCR, if_pos h, List.length_dropLast]
  have hpos := List.length_pos_iff.mpr hne
  omega

theorem splitInclusive_line {l : Text} (hl : '\n' ∉ l) (t : Text) :
    splitInclusive (endLine l ++ t) = endLine l :: splitInclusive t := by
  induction l with
  | nil => rfl
  | cons c l ih =>
    have hc : c ≠ '\n' := fun h => hl (h ▸ List.mem_cons_self)
    have hl' : '\n' ∉ l := fun h => hl (List.mem_cons_of_mem c h)
    show splitInclusive (c :: (endLine l ++ t)) = _
    rw [splitInclusive, if_neg hc, ih hl']
    rfl

theorem chomp_endLine (l : Text) : chomp (endLine l) = dropCR l := by
  simp [chomp, endLine]

theorem splitInclusive_flatMap_endLine_append {ls : List Text} (h : ∀ l ∈ ls, '\n' ∉ l)
    (t : Text) :
    splitInclusive (ls.flatMap endLine ++ t) = ls.map endLine ++ splitInclusive t := by
  induction ls with
  | nil => rfl
  | cons l ls ih =>
    rw [List.flatMap_cons, List.append_assoc, splitInclusive_line (h l List.mem_cons_self),
      List.map_cons, List.cons_append, ih fun l' hl' => h l' (List.mem_cons_of_mem l hl')]

theorem splitInclusive_flatMap_endLine {ls : List Text} (h : ∀ l ∈ ls, '\n' ∉ l) :
    splitInclusive (ls.flatMap endLine) = ls.map endLine := by
  have hall := splitInclusive_flatMap_endLine_append h []
  rwa [List.append_nil, splitInclusive, List.append_nil] at hall

theorem lines_flatMap_endLine_append {ls : List Text} (h : ∀ l ∈ ls, '\n' ∉ l) (t : Text) :
    lines (ls.flatMap endLine ++ t) = ls.map dropCR ++ lines t := by
  rw [lines, splitInclusive_flatMap_endLine_append h, List.map_append, List.map_map, lines]
  exact congrArg (· ++ _) (List.map_congr_left fun l _ => chomp_endLine l)

theorem lines_flatMap_endLine {ls : List Text} (h : ∀ l ∈ ls, '\n' ∉ l) :
    lines (ls.flatMap endLine) = ls.map dropCR := by
  rw [lines, splitInclusive_flatMap_endLine h, List.map_map]
  exact List.map_congr_left fun l _ => chomp_endLine l

theorem flatMap_endLine_inj {ls ls' : List Text} (h : ∀ l ∈ ls, '\n' ∉ l)
    (h' : ∀ l ∈ ls', '\n' ∉ l) (heq : ls.flatMap endLine = ls'.flatMap endLine) : ls = ls' := by
  have hmap := congrArg splitInclusive heq
  rw [splitInclusive_flatMap_endLine h, splitInclusive_flatMap_endLine h'] at hmap
  exact List.map_injective_iff.mpr (fun _ _ hl => List.append_cancel_right hl) hmap

theorem endLine_joinLines {ls : List Text} (h : ls ≠ []) :
    endLine (joinLines ls) = ls.flatMap endLine := by
  induction ls with
  | nil => exact absurd rfl h
  | cons l ls ih =>
    cases ls with
    | nil => simp [joinLines, List.intercalate]
    | cons l' ls =>
      rw [List.flatMap_cons, ← ih (List.cons_ne_nil l' ls)]
      simp [joinLines, List.intercalate, List.intersperse, endLine]

theorem notMem_dropLast_of_mem_splitInclusive {t p : Text} (h : p ∈ splitInclusive t) :
    '\n' ∉ p.dropLast := by
  induction t generalizing p with
  | nil => exact absurd h List.not_mem_nil
  | cons c t ih =>
    rw [splitInclusive] at h
    split at h
    · rcases List.mem_cons.mp h with rfl | h
      · simp
      · exact ih h
    · next hc =>
      cases hsplit : splitInclusive t with
      | nil =>
        rw [hsplit, List.mem_singleton] at h
        rw [h]
        simp
      | cons l ls =>
        rw [hsplit] at h ih
        rcases List.mem_cons.mp h with rfl | h
        · have hl := ih List.mem_cons_self
          cases l with
          | nil => simp
          | cons d l =>
            rw [List.dropLast_cons_cons, List.mem_cons, not_or]
            exact ⟨Ne.symm hc, hl⟩
        · exact ih (List.mem_cons_of_mem l h)

theorem splitInclusive_last {l : Text} (hne : l ≠ []) (hl : '\n' ∉ l) : splitInclusive l = [l] := by
  induction l with
  | nil => exact absurd rfl hne
  | cons c l ih =>
    have hc : c ≠ '\n' := fun h => hl (h ▸ List.mem_cons_self)
    have hl' : '\n' ∉ l := fun h => hl (List.mem_cons_of_mem c h)
    rw [splitInclusive, if_neg hc]
    by_cases hnil : l = []
    · rw [hnil]
      rfl
    · rw [ih hnil hl']

theorem lines_last {l : Text} (hne : l ≠ []) (hl : '\n' ∉ l) : lines l = [l] := by
  rw [lines, splitInclusive_last hne hl, List.map_singleton, chomp,
    if_neg fun hlast => hl (List.mem_of_getLast? hlast)]

theorem lines_endLine {l : Text} (hl : '\n' ∉ l) : lines (endLine l) = [dropCR l] := by
  have hsplit := splitInclusive_line hl []
  rw [List.append_nil, splitInclusive] at hsplit
  rw [lines, hsplit, List.map_singleton, chomp_endLine]

theorem text_induction {P : Text → Prop} (nil : P [])
    (last : ∀ l, l ≠ [] → '\n' ∉ l → P l) (line : ∀ l t, '\n' ∉ l → P t → P (endLine l ++ t))
    (t : Text) : P t := by
  induction h : t.length using Nat.strong_induction_on generalizing t with
  | _ n ih =>
    by_cases hmem : '\n' ∈ t
    · obtain ⟨l, rest, ht, hl⟩ := List.eq_append_cons_of_mem hmem
      have hrest : P rest := by
        refine ih rest.length ?_ rest rfl
        rw [← h, ht, List.length_append, List.length_cons]
        omega
      have hall := line l rest hl hrest
      rwa [endLine, List.append_assoc, List.singleton_append, ← ht] at hall
    · by_cases hnil : t = []
      · rw [hnil]
        exact nil
      · exact last t hnil hmem

def UnixLines (t : Text) : Prop :=
  ∀ p ∈ splitInclusive t, p.getLast? = some '\n' ∧ p.dropLast.getLast? ≠ some '\r'

instance (t : Text) : Decidable (UnixLines t) :=
  inferInstanceAs (Decidable (∀ p ∈ splitInclusive t, _))

theorem endLines_append_eq_iff (t other : Text) :
    (lines t).flatMap endLine ++ other = t ↔ other = [] ∧ UnixLines t := by
  induction t using text_induction with
  | nil => simp [lines, splitInclusive, UnixLines]
  | last l hne hl =>
    have hlast : l.getLast? ≠ some '\n' := fun h => hl (List.mem_of_getLast? h)
    have hlines := lines_last hne hl
    have hno : ¬ UnixLines l := by
      intro h
      refine hlast (h l ?_).1
      rw [splitInclusive_last hne hl]
      exact List.mem_singleton_self l
    simp only [hno, and_false, iff_false]
    intro h
    have hlen := congrArg List.length h
    rw [hlines] at hlen
    simp [endLine] at hlen
  | line l t hl ih =>
    have hlines : lines (endLine l ++ t) = dropCR l :: lines t := by
      rw [lines, splitInclusive_line hl, List.map_cons, chomp_endLine]
      rfl
    have hunix : UnixLines (endLine l ++ t) ↔ l.getLast? ≠ some '\r' ∧ UnixLines t := by
      rw [UnixLines, splitInclusive_line hl]
      simp only [List.mem_cons, forall_eq_or_imp, UnixLines]
      simp [endLine]
    rw [hlines, hunix, List.flatMap_cons]
    by_cases hcr : l.getLast? = some '\r'
    · simp only [hcr, ne_eq, not_true_eq_false, false_and, and_false, iff_false]
      intro h
      -- where the text has its carriage return, the lines have a line feed
      have hl' : l = dropCR l ++ ['\r'] := by
        rw [dropCR, if_pos hcr]
        exact (List.dropLast_append_getLast? '\r' hcr).symm
      rw [hl'] at h
      have hend : dropCR l ++ '\r' :: ('\n' :: t) = endLine (dropCR l ++ ['\r']) ++ t := by
        simp [endLine]
      rw [← hend, ← hl', endLine, List.append_assoc, List.append_assoc,
        List.append_cancel_left_eq] at h
      simp at h
    · rw [dropCR_eq_self hcr, List.append_assoc, List.append_cancel_left_eq, ih]
      tauto

theorem notMem_lines {t l : Text} (h : l ∈ lines t) : '\n' ∉ l := by
  obtain ⟨p, hp, rfl⟩ := List.mem_map.mp h
  have hp := notMem_dropLast_of_mem_splitInclusive hp
  unfold chomp
  split
  · exact fun hmem => hp ((dropCR_isPrefix _).subset hmem)
  · next hlast =>
    intro hmem
    have hne : p ≠ [] := List.ne_nil_of_mem hmem
    rw [← List.dropLast_append_getLast hne, List.mem_append, List.mem_singleton] at hmem
    rcases hmem with hmem | hmem
    · exact hp hmem
    · exact hlast (by rw [List.getLast?_eq_some_getLast hne, ← hmem])

theorem splitOn_joinLines {parts : List Text} (h : parts ≠ []) :
    (joinLines parts).splitOn '\n' = parts.flatMap (·.splitOn '\n') := by
  induction parts with
  | nil => exact absurd rfl h
  | cons p ps ih =>
    cases ps with
    | nil => simp [joinLines, List.intercalate]
    | cons q qs =>
      have hjoin : joinLines (p :: q :: qs) = p ++ '\n' :: joinLines (q :: qs) := by
        simp [joinLines, List.intercalate, List.intersperse]
      rw [hjoin, List.splitOn_append_cons_self, ih (List.cons_ne_nil q qs)]
      rfl

/-! ### Occurrences -/

def splitFirst (pat : Text) : Text → Option (Text × Text)
  | [] => if pat = [] then some ([], []) else none
  | c :: cs =>
    if pat <+: c :: cs then some ([], (c :: cs).drop pat.length)
    else (splitFirst pat cs).map fun p => (c :: p.1, p.2)

def splitLast (pat : Text) : Text → Option (Text × Text)
  | [] => if pat = [] then some ([], []) else none
  | c :: cs =>
    match splitLast pat cs with
    | some p => some (c :: p.1, p.2)
    | none => if pat <+: c :: cs then some ([], (c :: cs).drop pat.length) else none

theorem splitFirst_eq_some {pat t u v : Text} (h : splitFirst pat t = some (u, v)) :
    t = u ++ pat ++ v := by
  induction t generalizing u v with
  | nil =>
    rw [splitFirst] at h
    split at h
    · next hpat =>
      cases h
      rw [hpat]
      rfl
    · cases h
  | cons c cs ih =>
    rw [splitFirst] at h
    split at h
    · next hpre =>
      cases h
      obtain ⟨rest, hrest⟩ := hpre
      rw [← hrest, List.drop_left]
      rfl
    · obtain ⟨p, hp, he⟩ := Option.map_eq_some_iff.mp h
      cases he
      rw [ih (u := p.1) (v := p.2) hp]
      rfl

theorem splitFirst_eq_none_iff {pat t : Text} (hpat : pat ≠ []) :
    splitFirst pat t = none ↔ ¬ pat <:+: t := by
  induction t with
  | nil => simp [splitFirst, hpat]
  | cons c t ih =>
    rw [splitFirst, List.infix_cons_iff]
    by_cases hpre : pat <+: c :: t
    · simp [hpre]
    · simp [hpre, ih]

theorem not_infix_of_splitFirst {pat t u v : Text} (hpat : pat ≠ [])
    (h : splitFirst pat t = some (u, v)) : ¬ pat <:+: u := by
  induction t generalizing u v with
  | nil =>
    rw [splitFirst, if_neg hpat] at h
    cases h
  | cons c t ih =>
    rw [splitFirst] at h
    split at h
    · cases h
      intro hfound
      exact hpat (List.infix_nil.mp hfound)
    · next hpre =>
      obtain ⟨p, hp, he⟩ := Option.map_eq_some_iff.mp h
      cases he
      rw [List.infix_cons_iff]
      rintro (hstart | hfound)
      · refine hpre (hstart.trans ?_)
        rw [splitFirst_eq_some (u := p.1) (v := p.2) hp, List.append_assoc]
        exact List.cons_prefix_cons.mpr ⟨rfl, List.prefix_append _ _⟩
      · exact ih (u := p.1) (v := p.2) hp hfound

theorem splitFirst_append {pat p : Text} {c : Char} {cs : Text} (hpat : pat = c :: cs) (hc : c ∉ cs)
    (hp : ¬ pat <:+: p) (rest : Text) : splitFirst pat (p ++ (pat ++ rest)) = some (p, rest) := by
  induction p with
  | nil =>
    subst hpat
    rw [List.nil_append, List.cons_append, splitFirst, if_pos]
    · rw [← List.cons_append, List.drop_left]
    · rw [← List.cons_append]
      exact List.prefix_append _ _
  | cons x p ih =>
    rw [List.infix_cons_iff, not_or] at hp
    have hno : ¬ pat <+: x :: (p ++ (pat ++ rest)) := by
      intro hpre
      rw [← List.cons_append] at hpre
      rcases List.prefix_or_prefix_of_prefix hpre (List.prefix_append _ _) with hin | ⟨s, hs⟩
      · exact hp.1 hin
      · -- what is left of the pattern would begin as the pattern does
        obtain ⟨t, ht⟩ := hpre
        have hrest : s ++ t = pat ++ rest := by
          rw [← hs, List.append_assoc] at ht
          exact List.append_cancel_left (hs ▸ ht)
        cases s with
        | nil =>
          rw [List.append_nil] at hs
          exact hp.1 (hs ▸ List.prefix_rfl)
        | cons d s =>
          have hd : d = c := by
            rw [hpat] at hrest
            exact (List.cons.inj hrest).1
          have htail : cs = p ++ d :: s := by
            rw [hpat] at hs
            exact (List.cons.inj hs).2.symm
          have hmem : d ∈ cs := by
            rw [htail]
            exact List.mem_append_right _ List.mem_cons_self
          exact hc (hd ▸ hmem)
    rw [List.cons_append, splitFirst, if_neg hno, ih hp.2]
    rfl

theorem splitFirst_length {pat t u v : Text} (hpat : pat ≠ []) (h : splitFirst pat t = some (u, v)) :
    v.length < t.length := by
  have hpos := List.length_pos_iff.mpr hpat
  rw [splitFirst_eq_some h, List.length_append, List.length_append]
  omega

theorem splitLast_eq_some {pat t u v : Text} (h : splitLast pat t = some (u, v)) :
    t = u ++ pat ++ v := by
  induction t generalizing u v with
  | nil =>
    rw [splitLast] at h
    split at h
    · next hpat =>
      cases h
      rw [hpat]
      rfl
    · cases h
  | cons c cs ih =>
    rw [splitLast] at h
    split at h
    · next p hp =>
      cases h
      rw [ih (u := p.1) (v := p.2) hp]
      rfl
    · split at h
      · next hpre =>
        cases h
        obtain ⟨rest, hrest⟩ := hpre
        rw [← hrest, List.drop_left]
        rfl
      · cases h

theorem splitLast_append_some {pat t u v : Text} (h : splitLast pat t = some (u, v)) (x : Text) :
    splitLast pat (x ++ t) = some (x ++ u, v) := by
  induction x with
  | nil => exact h
  | cons c x ih => rw [List.cons_append, splitLast, ih, List.cons_append]

theorem splitLast_append_none {pat t u v x : Text}
    (h : splitLast pat t = none) (hx : splitLast pat (x ++ t) = some (u, v)) :
    u.length < x.length := by
  induction x generalizing u with
  | nil =>
    rw [List.nil_append, h] at hx
    cases hx
  | cons c x ih =>
    rw [List.cons_append, splitLast] at hx
    split at hx
    · next p hp =>
      cases hx
      have hlt := ih (u := p.1) (by rw [hp])
      simp only [List.length_cons]
      omega
    · split at hx
      · cases hx
        simp
      · cases hx

theorem splitLast_eq_none_iff {pat t : Text} (hpat : pat ≠ []) :
    splitLast pat t = none ↔ ¬ pat <:+: t := by
  induction t with
  | nil => simp [splitLast, hpat]
  | cons c t ih =>
    rw [splitLast, List.infix_cons_iff]
    cases h : splitLast pat t with
    | some p =>
      have hfound : pat <:+: t := by
        by_contra hno
        rw [ih.mpr hno] at h
        cases h
      simp [hfound]
    | none =>
      have hno := ih.mp h
      by_cases hpre : pat <+: c :: t
      · simp [hpre]
      · simp [hpre, hno]

theorem not_infix_of_splitLast {pat t u v : Text} (hpat : pat ≠ [])
    (h : splitLast pat t = some (u, v)) : ¬ pat <:+: v := by
  induction t generalizing u v with
  | nil =>
    rw [splitLast, if_neg hpat] at h
    cases h
  | cons c t ih =>
    rw [splitLast] at h
    split at h
    · next p hp =>
      cases h
      exact ih (u := p.1) (v := p.2) hp
    · next hnone =>
      split at h
      · cases h
        -- what follows the occurrence is a part of the tail, which has none
        intro hfound
        obtain ⟨d, ps, rfl⟩ := List.exists_cons_of_ne_nil hpat
        have hsuffix : (c :: t).drop (d :: ps).length <:+: t := (List.drop_suffix _ t).isInfix
        exact (splitLast_eq_none_iff hpat).mp hnone (hfound.trans hsuffix)
      · cases h

theorem splitLast_pattern {pat v : Text} {c : Char} {cs : Text} (hpat : pat = c :: cs)
    (hcs : splitLast pat (cs ++ v) = none) : splitLast pat (pat ++ v) = some ([], v) := by
  subst hpat
  rw [List.cons_append, splitLast, hcs]
  simp only
  rw [if_pos (by rw [← List.cons_append]; exact List.prefix_append _ _), ← List.cons_append,
    List.drop_left]

theorem splitLast_cons_ne {p c : Char} {ps t : Text} (hc : c ≠ p)
    (h : splitLast (p :: ps) t = none) : splitLast (p :: ps) (c :: t) = none := by
  rw [splitLast, h]
  simp only
  rw [if_neg]
  intro hpre
  exact hc (List.cons_prefix_cons.mp hpre).1.symm

theorem splitFirst_char {c : Char} {a : Text} (ha : c ∉ a) (b : Text) :
    splitFirst [c] (a ++ c :: b) = some (a, b) := by
  induction a with
  | nil =>
    rw [List.nil_append, splitFirst, if_pos (List.cons_prefix_cons.mpr ⟨rfl, List.nil_prefix⟩)]
    rfl
  | cons d a ih =>
    have hd : c ≠ d := fun h => ha (h ▸ List.mem_cons_self)
    have ha' : c ∉ a := fun h => ha (List.mem_cons_of_mem d h)
    rw [List.cons_append, splitFirst, if_neg, ih ha']
    · rfl
    · intro hpre
      exact hd (List.cons_prefix_cons.mp hpre).1

theorem splitFirst_char_none {c : Char} {a : Text} (ha : c ∉ a) : splitFirst [c] a = none := by
  induction a with
  | nil => rfl
  | cons d a ih =>
    have hd : c ≠ d := fun h => ha (h ▸ List.mem_cons_self)
    have ha' : c ∉ a := fun h => ha (List.mem_cons_of_mem d h)
    rw [splitFirst, if_neg, ih ha']
    · rfl
    · intro hpre
      exact hd (List.cons_prefix_cons.mp hpre).1

theorem splitFirst_second {c d : Char} {ps a : Text} (hcd : c ≠ d) (ha : d ∉ a) (b : Text) :
    splitFirst (c :: d :: ps) (a ++ (c :: d :: ps ++ b)) = some (a, b) := by
  induction a with
  | nil =>
    rw [List.nil_append, List.cons_append, splitFirst, ← List.cons_append,
      if_pos (List.prefix_append _ _), List.drop_left]
  | cons x a ih =>
    have ha' : d ∉ a := fun h => ha (List.mem_cons_of_mem x h)
    rw [List.cons_append, splitFirst, if_neg, ih ha']
    · rfl
    · intro hpre
      -- the second character would have to be the next one
      have hnext := (List.cons_prefix_cons.mp hpre).2
      cases a with
      | nil => exact hcd (List.cons_prefix_cons.mp hnext).1.symm
      | cons y a => exact ha' ((List.cons_prefix_cons.mp hnext).1 ▸ List.mem_cons_self)

def afterPrefix (pre t : Text) : Option Text :=
  if pre <+: t then some (t.drop pre.length) else none

theorem afterPrefix_append (pre t : Text) : afterPrefix pre (pre ++ t) = some t := by
  simp [afterPrefix]

/-- The characters with the Unicode property `White_Space`. -/
def isWhitespace (c : Char) : Bool :=
  let n := c.toNat
  (0x9 ≤ n ∧ n ≤ 0xD) ∨ n = 0x20 ∨ n = 0x85 ∨ n = 0xA0 ∨ n = 0x1680 ∨ (0x2000 ≤ n ∧ n ≤ 0x200A) ∨
    n = 0x2028 ∨ n = 0x2029 ∨ n = 0x202F ∨ n = 0x205F ∨ n = 0x3000

def trimEnd (t : Text) : Text := t.rdropWhile isWhitespace

def trim (t : Text) : Text := trimEnd (t.dropWhile isWhitespace)

def trimStartMatches (pat t : Text) : Text :=
  if _h : pat ≠ [] ∧ pat <+: t then trimStartMatches pat (t.drop pat.length) else t
termination_by t.length
decreasing_by
  have hpat := List.length_pos_iff.mpr _h.1
  have hle := _h.2.length_le
  rw [List.length_drop]
  omega

def trimEndMatches (pat t : Text) : Text := (trimStartMatches pat.reverse t.reverse).reverse

def dropPlus : Text → Text
  | '+' :: rest => rest
  | s => s

/-- A decimal number of 32 bits; one plus sign may stand before it. -/
def parseU32 (s : Text) : Option UInt32 :=
  let digits := dropPlus s
  if digits ≠ [] ∧ digits.all Char.isDigit ∧ Nat.ofDigitChars 10 digits 0 < 2 ^ 32 then
    some (UInt32.ofNat (Nat.ofDigitChars 10 digits 0))
  else none

def decimal (n : UInt32) : Text := Nat.toDigits 10 n.toNat

theorem isDigit_of_mem_decimal {n : UInt32} {c : Char} (h : c ∈ decimal n) : c.isDigit :=
  Nat.isDigit_of_mem_toDigits (by decide) (by decide) h

theorem parseU32_toDigits (n : ℕ) :
    parseU32 (Nat.toDigits 10 n) = if n < 2 ^ 32 then some (UInt32.ofNat n) else none := by
  have hdigit : ∀ c ∈ Nat.toDigits 10 n, c.isDigit :=
    fun c hc => Nat.isDigit_of_mem_toDigits (by decide) (by decide) hc
  have hdigits : (Nat.toDigits 10 n).all Char.isDigit = true := List.all_eq_true.mpr hdigit
  have hne : Nat.toDigits 10 n ≠ [] := Nat.toDigits_ne_nil
  have hvalue : Nat.ofDigitChars 10 (Nat.toDigits 10 n) 0 = n := Nat.ofDigitChars_ten_toDigits
  have hplus : dropPlus (Nat.toDigits 10 n) = Nat.toDigits 10 n := by
    unfold dropPlus
    split
    · next rest h =>
      have hplus : ('+' : Char).isDigit := hdigit '+' (by rw [h]; exact List.mem_cons_self)
      exact absurd hplus (by decide)
    · rfl
  rw [parseU32, hplus, hvalue]
  simp [hne, hdigits]

theorem parseU32_decimal (n : UInt32) : parseU32 (decimal n) = some n := by
  rw [decimal, parseU32_toDigits, if_pos n.toNat_lt]
  exact congrArg some UInt32.ofNat_toNat

end Mowis.Lib
