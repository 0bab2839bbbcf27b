import Mowis.Lib.TomlText
import Mowis.Planning.PlanText

/-!
# Values read from a line

What `extract_tasks_from_text` makes of a TOML value: it trims quotes, brackets and white space,
splits lists at commas and reads decimal digits.  Between `= ` and the value there may be more
blanks, and a comment may follow the value.
-/

namespace Mowis.Planning

open Mowis.Lib Mowis.Lib.TomlText
open Mowis.Orchestration (ModelTier)

section trimming

variable {p : Char → Bool}

theorem forall_of_eq_some {o : Option Char} {d : Char} (ho : o = some d) (hd : p d = false) :
    ∀ c, o = some c → p c = false := by
  intro c hc
  rw [ho] at hc
  rwa [← Option.some.inj hc]

theorem trimBoth_append {x y z : Text} (hx : ∀ c ∈ x, p c = true) (hz : ∀ c ∈ z, p c = true)
    (hhead : ∀ c, y.head? = some c → p c = false)
    (hlast : ∀ c, y.getLast? = some c → p c = false) : trimBoth p (x ++ (y ++ z)) = y := by
  cases y with
  | nil =>
    have hall : ∀ c ∈ x ++ z, p c = true := by
      intro c hc
      obtain hc | hc := List.mem_append.mp hc
      · exact hx c hc
      · exact hz c hc
    rw [trimBoth, List.nil_append, List.dropWhile_eq_nil_iff.mpr hall]
    rfl
  | cons d y =>
    have hd : ¬ p d = true := by
      rw [hhead d rfl]
      exact Bool.false_ne_true
    rw [trimBoth, List.dropWhile_append_of_pos hx, List.cons_append, List.dropWhile_cons_of_neg hd,
      ← List.cons_append]
    unfold List.rdropWhile
    have hz' : ∀ c ∈ z.reverse, p c = true := fun c hc => hz c (List.mem_reverse.mp hc)
    rw [List.reverse_append, List.dropWhile_append_of_pos hz']
    have hkeep : (d :: y).reverse.dropWhile p = (d :: y).reverse := by
      cases hrev : (d :: y).reverse with
      | nil => rfl
      | cons e u =>
        have he : (d :: y).getLast? = some e := by
          rw [← List.head?_reverse, hrev]
          rfl
        refine List.dropWhile_cons_of_neg ?_
        rw [hlast e he]
        exact Bool.false_ne_true
    rw [hkeep, List.reverse_reverse]

theorem head?_trimBoth {t : Text} {c : Char} (h : (trimBoth p t).head? = some c) : p c = false := by
  obtain ⟨u, hu⟩ : trimBoth p t <+: t.dropWhile p := List.rdropWhile_prefix p _
  obtain ⟨r, hr⟩ := List.head?_eq_some_iff.mp h
  have hdrop : (t.dropWhile p).head? = some c := by
    rw [← hu, hr]
    rfl
  have hno := List.head?_dropWhile_not p t
  rw [hdrop] at hno
  simpa using hno

theorem getLast?_rdropWhile {t : Text} {c : Char} (h : (t.rdropWhile p).getLast? = some c) :
    p c = false := by
  have hne : t.rdropWhile p ≠ [] := by
    intro hnil
    rw [hnil] at h
    cases h
  have hno := List.rdropWhile_last_not p _ hne
  rw [List.getLast?_eq_some_getLast hne] at h
  rw [← Option.some.inj h]
  exact Bool.eq_false_of_not_eq_true hno

theorem getLast?_trimBoth {t : Text} {c : Char} (h : (trimBoth p t).getLast? = some c) :
    p c = false := getLast?_rdropWhile h

theorem trimBoth_sublist (t : Text) : (trimBoth p t).Sublist t :=
  (List.rdropWhile_prefix p _).sublist.trans (List.dropWhile_sublist p)

theorem trimBoth_around {y : Text} (hne : y ≠ []) (hhead : ∀ c, y.head? = some c → p c = false)
    (hlast : ∀ c, y.getLast? = some c → p c = false) (a b : Text) :
    trimBoth p (a ++ (y ++ b)) = a.dropWhile p ++ (y ++ b.rdropWhile p) := by
  have hsplit : a ++ (y ++ b) = a.takeWhile p ++ ((a.dropWhile p ++ (y ++ b.rdropWhile p)) ++
      b.rtakeWhile p) := by
    simp only [List.append_assoc, List.rdropWhile_append_rtakeWhile]
    rw [← List.append_assoc (a.takeWhile p), List.takeWhile_append_dropWhile]
  rw [hsplit]
  refine trimBoth_append (fun c hc => List.mem_takeWhile_imp hc)
    (fun c hc => List.mem_rtakeWhile_imp hc) (fun c hc => ?_) fun c hc => ?_
  · cases hdrop : a.dropWhile p with
    | nil =>
      rw [hdrop, List.nil_append, List.head?_append_of_ne_nil _ hne] at hc
      exact hhead c hc
    | cons d u =>
      have hno := List.head?_dropWhile_not p a
      rw [hdrop] at hno hc
      cases hc
      simpa using hno
  · by_cases hnil : b.rdropWhile p = []
    · rw [hnil, List.append_nil, List.getLast?_append_of_ne_nil _ hne] at hc
      exact hlast c hc
    · rw [List.getLast?_append_of_ne_nil _ (List.append_ne_nil_of_right_ne_nil _ hnil),
        List.getLast?_append_of_ne_nil _ hnil] at hc
      exact getLast?_rdropWhile hc

theorem mem_trimBoth {t : Text} {c : Char} (hc : c ∈ t) (hp : p c = false) : c ∈ trimBoth p t := by
  obtain ⟨a, b, rfl⟩ := List.append_of_mem hc
  have hone : ∀ d, [c].head? = some d → p d = false := forall_of_eq_some rfl hp
  show c ∈ trimBoth p (a ++ ([c] ++ b))
  rw [trimBoth_around (List.cons_ne_nil c []) hone hone]
  simp

end trimming

def isQuote (c : Char) : Bool := c = '"'

def unquoteText (t : Text) : Text := trimBoth isQuote t

theorem unquote_eq (t : Text) : unquote t = String.ofList (unquoteText t) := rfl

/-- A string that is read right: written as it reads, without a quote at its ends. -/
structure Exact (lit : StringLit) : Prop where
  verbatim : lit.Verbatim
  first : lit.value.head? ≠ some '"'
  last : lit.value.getLast? ≠ some '"'

theorem isQuote_eq_false {c : Char} (h : c ≠ '"') : isQuote c = false := decide_eq_false h

theorem forall_head?_isQuote {t : Text} (h : t.head? ≠ some '"') :
    ∀ c, t.head? = some c → isQuote c = false := by
  intro c hc
  refine isQuote_eq_false fun heq => h ?_
  rw [hc, heq]

theorem forall_getLast?_isQuote {t : Text} (h : t.getLast? ≠ some '"') :
    ∀ c, t.getLast? = some c → isQuote c = false := by
  intro c hc
  refine isQuote_eq_false fun heq => h ?_
  rw [hc, heq]

theorem head?_unquoteText (t : Text) : (unquoteText t).head? ≠ some '"' := fun h =>
  absurd (head?_trimBoth h) (by decide)

theorem getLast?_unquoteText (t : Text) : (unquoteText t).getLast? ≠ some '"' := fun h =>
  absurd (getLast?_trimBoth h) (by decide)

theorem isQuote_delimiter {long : Bool} : ∀ c ∈ delimiter '"' long, isQuote c = true := by
  intro c hc
  rw [mem_delimiter hc]
  rfl

theorem rdropWhile_of_mem {p : Char → Bool} {t : Text} {c : Char} (hc : c ∈ t) (hp : p c = false) :
    t.rdropWhile p ≠ [] := by
  intro hnil
  have hall := List.rdropWhile_eq_nil_iff.mp hnil c hc
  rw [hp] at hall
  cases hall

theorem rdropWhile_append {p : Char → Bool} {t : Text} (h : t.rdropWhile p ≠ []) (u : Text) :
    (u ++ t).rdropWhile p = u ++ t.rdropWhile p := by
  have hrev : (t.reverse.dropWhile p).isEmpty = false := by
    refine Bool.eq_false_iff.mpr fun hnil => h ?_
    rw [List.rdropWhile, List.isEmpty_iff.mp hnil]
    rfl
  rw [List.rdropWhile, List.reverse_append, List.dropWhile_append, hrev]
  show (t.reverse.dropWhile p ++ u.reverse).reverse = _
  rw [List.reverse_append, List.reverse_reverse]
  rfl

theorem length_unquote_literal (s : LiteralString) (w tl : Text) :
    s.chars.length < (unquoteText (w ++ (s.text ++ tl))).length := by
  have hne : s.text ≠ [] := List.append_ne_nil_of_right_ne_nil _ (delimiter_ne_nil _ _)
  have hhead : s.text.head? = some '\'' := (StringLit.literal s).head?_text
  have hlast : s.text.getLast? = some '\'' := (StringLit.literal s).getLast?_text
  have hlen : s.chars.length < s.text.length := by
    have hpos := List.length_pos_iff.mpr (delimiter_ne_nil '\'' s.long)
    rw [LiteralString.text, List.length_append, List.length_append]
    omega
  rw [unquoteText, trimBoth_around hne]
  · rw [List.length_append, List.length_append]
    omega
  · exact forall_head?_isQuote (by rw [hhead]; decide)
  · exact forall_getLast?_isQuote (by rw [hlast]; decide)

theorem unquote_basic {s : BasicString} (hhead : s.raw.head? ≠ some '"')
    (hlast : s.raw.getLast? ≠ some '"') : unquoteText s.text = s.raw := by
  rw [unquoteText, BasicString.text, List.append_assoc]
  exact trimBoth_append isQuote_delimiter isQuote_delimiter (forall_head?_isQuote hhead)
    (forall_getLast?_isQuote hlast)

theorem length_value_lt {lit : StringLit} (hfirst : lit.value.head? ≠ some '"')
    (hend : lit.value.getLast? ≠ some '"') (w tl : Text)
    (h : (∃ c ∈ w, isQuote c = false) ∨ ∃ c ∈ tl, isQuote c = false) :
    lit.value.length < (unquoteText (w ++ (lit.text ++ tl))).length := by
  cases lit with
  | literal s => exact length_unquote_literal s w tl
  | basic s =>
    have hhead : s.raw.head? ≠ some '"' := fun hq => hfirst (s.head?_raw hq)
    have hlast : s.raw.getLast? ≠ some '"' := fun hq => hend (s.getLast?_raw hq)
    refine s.length_value_le.trans_lt ?_
    show s.raw.length < (unquoteText (w ++ (s.text ++ tl))).length
    by_cases hraw : s.raw = []
    · rw [hraw]
      obtain ⟨c, hc, hq⟩ | ⟨c, hc, hq⟩ := h
      · exact List.length_pos_of_mem (mem_trimBoth (List.mem_append_left _ hc) hq)
      · exact List.length_pos_of_mem
          (mem_trimBoth (List.mem_append_right w (List.mem_append_right s.text hc)) hq)
    · have hsplit : w ++ (s.text ++ tl) = (w ++ delimiter '"' s.long) ++
          (s.raw ++ (delimiter '"' s.long ++ tl)) := by
        rw [BasicString.text]
        simp only [List.append_assoc]
      rw [unquoteText, hsplit, trimBoth_around hraw (forall_head?_isQuote hhead)
        (forall_getLast?_isQuote hlast), List.length_append, List.length_append]
      obtain ⟨c, hc, hq⟩ | ⟨c, hc, hq⟩ := h
      · have hne : (w ++ delimiter '"' s.long).dropWhile isQuote ≠ [] := fun hnil => by
          have hall := List.dropWhile_eq_nil_iff.mp hnil c (List.mem_append_left _ hc)
          rw [hq] at hall
          cases hall
        have hpos := List.length_pos_iff.mpr hne
        omega
      · have hpos := List.length_pos_iff.mpr
          (rdropWhile_of_mem (List.mem_append_right (delimiter '"' s.long) hc) hq)
        omega

theorem unquote_eq_value_iff (lit : StringLit) : unquoteText lit.text = lit.value ↔ Exact lit := by
  cases lit with
  | literal s =>
    refine iff_of_false (fun h => ?_) fun h => h.verbatim
    have hlt := length_unquote_literal s [] []
    rw [List.nil_append, List.append_nil, show unquoteText s.text = s.chars from h] at hlt
    exact Nat.lt_irrefl _ hlt
  | basic s =>
    show unquoteText s.text = s.value ↔ _
    constructor
    · intro h
      have hfirst : s.value.head? ≠ some '"' := by
        rw [← h]
        exact head?_unquoteText _
      have hend : s.value.getLast? ≠ some '"' := by
        rw [← h]
        exact getLast?_unquoteText _
      rw [unquote_basic (fun hq => hfirst (s.head?_raw hq)) fun hq => hend (s.getLast?_raw hq)] at h
      exact ⟨s.raw_eq_value_iff.mp h, hfirst, hend⟩
    · intro h
      have hraw : s.raw = s.value := s.raw_eq_value_iff.mpr h.verbatim
      rw [unquote_basic, hraw]
      · rw [hraw]
        exact h.first
      · rw [hraw]
        exact h.last

/-- **A string.**  It is read right exactly when it is exact and stands alone. -/
theorem unquote_eq_iff (lit : StringLit) {w tl : Text} (hw : ∀ c ∈ w, isBlank c)
    (htl : tl = [] ∨ '#' ∈ tl) :
    unquoteText (w ++ (lit.text ++ tl)) = lit.value ↔ w = [] ∧ tl = [] ∧ Exact lit := by
  constructor
  · intro h
    have halone : ¬ (w ≠ [] ∨ tl ≠ []) := by
      intro hne
      have hfirst : lit.value.head? ≠ some '"' := by
        rw [← h]
        exact head?_unquoteText _
      have hend : lit.value.getLast? ≠ some '"' := by
        rw [← h]
        exact getLast?_unquoteText _
      have hother : (∃ c ∈ w, isQuote c = false) ∨ ∃ c ∈ tl, isQuote c = false := by
        obtain hne | hne := hne
        · obtain ⟨c, hc⟩ := List.exists_mem_of_ne_nil w hne
          refine .inl ⟨c, hc, isQuote_eq_false fun heq => ?_⟩
          have hblank := hw c hc
          rw [heq] at hblank
          exact absurd hblank (by decide)
        · exact .inr ⟨'#', htl.resolve_left hne, by decide⟩
      have hlt := length_value_lt hfirst hend w tl hother
      rw [h] at hlt
      exact Nat.lt_irrefl _ hlt
    rw [not_or, not_not, not_not] at halone
    rw [halone.1, halone.2, List.nil_append, List.append_nil] at h
    exact ⟨halone.1, halone.2, (unquote_eq_value_iff lit).mp h⟩
  · intro h
    obtain ⟨rfl, rfl, hexact⟩ := h
    rw [List.nil_append, List.append_nil]
    exact (unquote_eq_value_iff lit).mpr hexact

def tierName : ModelTier → Text
  | .fast => "Fast".toList
  | .mid => "Mid".toList
  | .flagship => "Flagship".toList

theorem parseTier_fast {lit : StringLit} {tier : ModelTier} (h : lit.value = tierName tier)
    (w tl : Text) : parseTier (unquote (w ++ (lit.text ++ tl))) = .fast := by
  have hkept : ∃ c, c ∈ unquoteText (w ++ (lit.text ++ tl)) ∧
      (c = 'F' ∨ c = 'M' ∨ c = '\\' ∨ c = '\'') := by
    have hmem : ∃ c, c ∈ lit.text ∧ isQuote c = false ∧
        (c = 'F' ∨ c = 'M' ∨ c = '\\' ∨ c = '\'') := by
      cases lit with
      | literal s =>
        exact ⟨'\'', List.mem_of_mem_head? (StringLit.literal s).head?_text, by decide, by decide⟩
      | basic s =>
        have hraw : ∀ {c}, c ∈ s.raw → c ∈ s.text := fun hc =>
          List.mem_append_left _ (List.mem_append_right _ hc)
        have hfirst : s.value.head? = some 'F' ∨ s.value.head? = some 'M' := by
          rw [show s.value = tierName tier from h]
          cases tier <;> decide
        obtain hfirst | hfirst := hfirst
        · obtain hc | hc := s.head?_value hfirst
          · exact ⟨_, hraw hc, by decide, by decide⟩
          · exact ⟨_, hraw hc, by decide, by decide⟩
        · obtain hc | hc := s.head?_value hfirst
          · exact ⟨_, hraw hc, by decide, by decide⟩
          · exact ⟨_, hraw hc, by decide, by decide⟩
    obtain ⟨c, hc, hq, hcase⟩ := hmem
    exact ⟨c, mem_trimBoth (List.mem_append_right w (List.mem_append_left tl hc)) hq, hcase⟩
  obtain ⟨c, hc, hcase⟩ := hkept
  have hno : ∀ name : String, c ∉ name.toList → unquote (w ++ (lit.text ++ tl)) ≠ name := by
    intro name hname heq
    rw [← heq, unquote_eq, String.toList_ofList] at hname
    exact hname hc
  have hmid : c ∉ "mid".toList := by
    obtain rfl | rfl | rfl | rfl := hcase <;> decide
  have hflagship : c ∉ "flagship".toList := by
    obtain rfl | rfl | rfl | rfl := hcase <;> decide
  rw [parseTier, if_neg (hno "mid" hmid), if_neg (hno "flagship" hflagship)]

theorem parseU32_eq_none {t : Text} {c : Char} (hc : c ∈ t) (hdigit : c.isDigit = false)
    (hplus : c ≠ '+') : parseU32 t = none := by
  have hdrop : c ∈ dropPlus t := by
    unfold dropPlus
    split
    · exact (List.mem_cons.mp hc).resolve_left hplus
    · exact hc
  refine if_neg fun h => ?_
  have hall := List.all_eq_true.mp h.2.1 c hdrop
  rw [hdigit] at hall
  cases hall

theorem ofDigitChars_eq {t : Text} (h : ∀ c ∈ t, c.isDigit) (n : ℕ) :
    Nat.ofDigitChars 10 t n = t.foldl (fun n c => 10 * n + hexDigit c) n := by
  induction t generalizing n with
  | nil => rfl
  | cons c t ih =>
    have hc : hexDigit c = c.toNat - '0'.toNat := if_pos (h c List.mem_cons_self)
    rw [Nat.ofDigitChars_cons, ih fun d hd => h d (List.mem_cons_of_mem c hd), List.foldl_cons, hc]

theorem parseU32_digits (d : DigitRun Char.isDigit) (hrun : '_' ∉ d.text)
    (hsmall : d.value 10 < 2 ^ 32) :
    parseU32 d.text = some (UInt32.ofNat (d.value 10)) ∧
      parseU32 ('+' :: d.text) = some (UInt32.ofNat (d.value 10)) := by
  have hall : ∀ c ∈ d.text, c.isDigit := fun c hc =>
    (d.digit c hc).resolve_right fun heq => hrun (heq ▸ hc)
  have hne : d.text ≠ [] := by
    intro hnil
    obtain ⟨c, hc, -⟩ := d.first
    rw [hnil] at hc
    cases hc
  have hfilter : d.text.filter (· ≠ '_') = d.text := by
    refine List.filter_eq_self.mpr fun c hc => ?_
    exact decide_eq_true fun heq => hrun (heq ▸ hc)
  have hvalue : Nat.ofDigitChars 10 d.text 0 = d.value 10 := by
    rw [ofDigitChars_eq hall, DigitRun.value, hfilter]
    rfl
  have hplus : dropPlus d.text = d.text := by
    unfold dropPlus
    split
    · next rest heq =>
      have hdigit := hall '+' (by rw [heq]; exact List.mem_cons_self)
      exact absurd hdigit (by decide)
    · rfl
  have hread : ∀ t, dropPlus t = d.text → parseU32 t = some (UInt32.ofNat (d.value 10)) := by
    intro t ht
    rw [parseU32, ht, hvalue, if_pos ⟨hne, List.all_eq_true.mpr hall, hsmall⟩]
  exact ⟨hread d.text hplus, hread ('+' :: d.text) rfl⟩

theorem parseU32_bare {i : IntLit} (h : i.Bare) {n : ℕ} (hn : n < 2 ^ 32) (hvalue : i.value = n) :
    parseU32 i.text = some (UInt32.ofNat n) := by
  cases i with
  | decimal sign d zero =>
    cases sign with
    | none =>
      have hd : d.value 10 = n := Int.ofNat.inj hvalue
      rw [← hd] at hn ⊢
      exact (parseU32_digits d h.2 hn).1
    | some sign =>
      cases sign with
      | plus =>
        have hd : d.value 10 = n := Int.ofNat.inj hvalue
        rw [← hd] at hn ⊢
        exact (parseU32_digits d h.2 hn).2
      | minus => exact absurd rfl h.1
  | hex d => exact h.elim
  | octal d => exact h.elim
  | binary d => exact h.elim

theorem parseU32_not_bare {i : IntLit} {w tl : Text} (hw : ∀ c ∈ w, isBlank c)
    (htl : tl = [] ∨ '#' ∈ tl) (h : ¬ (w = [] ∧ tl = [] ∧ i.Bare)) :
    parseU32 (w ++ (i.text ++ tl)) = none := by
  have htext : ∀ {c}, c ∈ i.text → c ∈ w ++ (i.text ++ tl) := fun hc =>
    List.mem_append_right w (List.mem_append_left tl hc)
  by_cases hnil : w = []
  · by_cases halone : tl = []
    · have hbare : ¬ i.Bare := fun hb => h ⟨hnil, halone, hb⟩
      cases i with
      | decimal sign d zero =>
        by_cases hminus : sign = some .minus
        · have hmem : '-' ∈ (IntLit.decimal sign d zero).text := by
            rw [hminus]
            exact List.mem_cons_self
          exact parseU32_eq_none (htext hmem) (by decide) (by decide)
        · have hunder : '_' ∈ d.text := by
            by_contra hno
            exact hbare ⟨hminus, hno⟩
          have hmem : '_' ∈ (IntLit.decimal sign d zero).text := by
            cases sign with
            | none => exact hunder
            | some sign => cases sign <;> exact List.mem_cons_of_mem _ hunder
          exact parseU32_eq_none (htext hmem) (by decide) (by decide)
      | hex d =>
        have hmem : 'x' ∈ (IntLit.hex d).text := List.mem_cons_of_mem _ List.mem_cons_self
        exact parseU32_eq_none (htext hmem) (by decide) (by decide)
      | octal d =>
        have hmem : 'o' ∈ (IntLit.octal d).text := List.mem_cons_of_mem _ List.mem_cons_self
        exact parseU32_eq_none (htext hmem) (by decide) (by decide)
      | binary d =>
        have hmem : 'b' ∈ (IntLit.binary d).text := List.mem_cons_of_mem _ List.mem_cons_self
        exact parseU32_eq_none (htext hmem) (by decide) (by decide)
    · have hmem : '#' ∈ w ++ (i.text ++ tl) :=
        List.mem_append_right w (List.mem_append_right i.text (htl.resolve_left halone))
      exact parseU32_eq_none hmem (by decide) (by decide)
  · obtain ⟨c, w, rfl⟩ := List.exists_cons_of_ne_nil hnil
    have hblank : c = ' ' ∨ c = '\t' := by
      have hc := hw c List.mem_cons_self
      simpa [isBlank] using hc
    have hmem : c ∈ c :: w ++ (i.text ++ tl) := List.mem_cons_self
    obtain rfl | rfl := hblank
    · exact parseU32_eq_none hmem (by decide) (by decide)
    · exact parseU32_eq_none hmem (by decide) (by decide)

/-! ### Lists -/

def isBracket (c : Char) : Bool := c = '[' || c = ']'

def itemText (s : Text) : Text := unquoteText (trim s)

def listTexts (t : Text) : List Text :=
  (((trimBoth isBracket t).splitOn ',').map itemText).filter (· ≠ [])

theorem ofList_eq_empty_iff (t : Text) : String.ofList t = "" ↔ t = [] := by
  constructor
  · intro h
    have hlist := congrArg String.toList h
    rwa [String.toList_ofList] at hlist
  · intro h
    rw [h]

theorem listItems_eq (t : Text) : listItems t = (listTexts t).map String.ofList := by
  show ((((trimBoth isBracket t).splitOn ',').map fun s => String.ofList (itemText s)).filter
    fun s => decide (s ≠ "")) = _
  rw [listTexts, List.filter_map, List.filter_map, List.map_map]
  refine congrArg (List.map _) (List.filter_congr fun s _ => ?_)
  exact decide_eq_decide.mpr (not_congr (ofList_eq_empty_iff (itemText s)))

def ListRead (w : Text) (a : ArrayLit) (tl : Text) : Prop :=
  tl = [] ∧ ((a.all = [] ∧ (w = [] ∨ a.last.1 = [])) ∨
    (w = [] ∧ ∀ i ∈ a.all, Exact i.lit ∧ i.lit.value ≠ [] ∧ ',' ∉ i.lit.value))

theorem notMem_splitOn {t s : Text} (h : s ∈ t.splitOn ',') : ',' ∉ s := by
  induction hlen : t.length using Nat.strong_induction_on generalizing t with
  | _ n ih =>
    by_cases hmem : ',' ∈ t
    · obtain ⟨x, y, rfl, hx⟩ := List.eq_append_cons_of_mem hmem
      rw [List.splitOn_append_cons_self_of_not_mem hx, List.mem_cons] at h
      obtain rfl | h := h
      · exact hx
      · refine ih y.length ?_ h rfl
        rw [← hlen, List.length_append, List.length_cons]
        omega
    · rw [List.splitOn_eq_singleton hmem, List.mem_singleton] at h
      rwa [h]

theorem mem_listTexts_spec {t x : Text} (h : x ∈ listTexts t) :
    x ≠ [] ∧ ',' ∉ x ∧ x.head? ≠ some '"' ∧ x.getLast? ≠ some '"' := by
  obtain ⟨hmem, hne⟩ := List.mem_filter.mp h
  obtain ⟨s, hs, rfl⟩ := List.mem_map.mp hmem
  refine ⟨by simpa using hne, fun hc => ?_, head?_unquoteText _, getLast?_unquoteText _⟩
  have hsub : (itemText s).Sublist s :=
    (trimBoth_sublist (trim s)).trans (trimBoth_sublist (p := isWhitespace) s)
  exact notMem_splitOn hs (hsub.subset hc)

theorem isBlank_cases {c : Char} (h : isBlank c) : c = ' ' ∨ c = '\t' := by
  simpa [isBlank] using h

theorem isBlank_spec {c : Char} (h : isBlank c) :
    isWhitespace c = true ∧ isBracket c = false ∧ isQuote c = false ∧ c ≠ ',' := by
  obtain rfl | rfl := isBlank_cases h <;> decide

theorem mark_spec (lit : StringLit) :
    isWhitespace lit.mark = false ∧ isBracket lit.mark = false ∧ lit.mark ≠ ',' := by
  cases lit with
  | basic s =>
    show isWhitespace '"' = false ∧ isBracket '"' = false ∧ '"' ≠ ','
    decide
  | literal s =>
    show isWhitespace '\'' = false ∧ isBracket '\'' = false ∧ '\'' ≠ ','
    decide

theorem item_ends (i : ArrayItem) : i.text ≠ [] ∧
    (∀ c, i.text.head? = some c → isBracket c = false) ∧
    ∀ c, i.text.getLast? = some c → isBracket c = false := by
  have hmark := (mark_spec i.lit).2.1
  have hne := i.lit.text_ne_nil
  refine ⟨fun hnil => hne ?_, fun c hc => ?_, fun c hc => ?_⟩
  · rw [ArrayItem.text, List.append_eq_nil_iff, List.append_eq_nil_iff] at hnil
    exact hnil.1.2
  · rw [ArrayItem.text, List.append_assoc] at hc
    by_cases hb : i.before.1 = []
    · rw [hb, List.nil_append, List.head?_append_of_ne_nil _ hne, i.lit.head?_text] at hc
      rwa [← Option.some.inj hc]
    · rw [List.head?_append_of_ne_nil _ hb] at hc
      exact (isBlank_spec (i.before.2 c (List.mem_of_mem_head? hc))).2.1
  · rw [ArrayItem.text] at hc
    by_cases hb : i.after.1 = []
    · rw [hb, List.append_nil, List.getLast?_append_of_ne_nil _ hne, i.lit.getLast?_text] at hc
      rwa [← Option.some.inj hc]
    · rw [List.getLast?_append_of_ne_nil _ hb] at hc
      exact (isBlank_spec (i.after.2 c (List.mem_of_getLast? hc))).2.1

theorem head?_inside (a : ArrayLit) : ∀ c, a.inside.head? = some c → isBracket c = false := by
  intro c hc
  rw [ArrayLit.inside] at hc
  cases hitems : a.items with
  | cons i is =>
    rw [hitems, List.flatMap_cons, List.append_assoc, List.append_assoc,
      List.head?_append_of_ne_nil _ (item_ends i).1] at hc
    exact (item_ends i).2.1 c hc
  | nil =>
    rw [hitems, List.flatMap_nil, List.nil_append] at hc
    cases hfinal : a.final with
    | some i =>
      rw [hfinal, Option.toList_some, List.flatMap_singleton,
        List.head?_append_of_ne_nil _ (item_ends i).1] at hc
      exact (item_ends i).2.1 c hc
    | none =>
      rw [hfinal, Option.toList_none, List.flatMap_nil, List.nil_append] at hc
      exact (isBlank_spec (a.last.2 c (List.mem_of_mem_head? hc))).2.1

theorem getLast?_inside (a : ArrayLit) : ∀ c, a.inside.getLast? = some c → isBracket c = false := by
  intro c hc
  rw [ArrayLit.inside, ← List.append_assoc] at hc
  by_cases hlast : a.last.1 = []
  · rw [hlast, List.append_nil] at hc
    cases hfinal : a.final with
    | some i =>
      rw [hfinal, Option.toList_some, List.flatMap_singleton,
        List.getLast?_append_of_ne_nil _ (item_ends i).1] at hc
      exact (item_ends i).2.2 c hc
    | none =>
      rw [hfinal, Option.toList_none, List.flatMap_nil, List.append_nil] at hc
      obtain hitems | ⟨is, i, hitems⟩ := List.eq_nil_or_concat a.items
      · rw [hitems] at hc
        cases hc
      · rw [hitems, List.concat_eq_append, List.flatMap_append, List.flatMap_singleton,
          ← List.append_assoc, List.getLast?_concat] at hc
        rw [← Option.some.inj hc]
        decide
  · rw [List.getLast?_append_of_ne_nil _ hlast] at hc
    exact (isBlank_spec (a.last.2 c (List.mem_of_getLast? hc))).2.1

theorem notMem_item {i : ArrayItem} (h : ',' ∉ i.lit.text) : ',' ∉ i.text := by
  intro hc
  rw [ArrayItem.text, List.mem_append, List.mem_append] at hc
  obtain (hc | hc) | hc := hc
  · exact (isBlank_spec (i.before.2 _ hc)).2.2.2 rfl
  · exact h hc
  · exact (isBlank_spec (i.after.2 _ hc)).2.2.2 rfl

theorem splitOn_items {is : List ArrayItem} (h : ∀ i ∈ is, ',' ∉ i.lit.text) (rest : Text) :
    (is.flatMap (fun i => i.text ++ [',']) ++ rest).splitOn ',' =
      is.map ArrayItem.text ++ rest.splitOn ',' := by
  induction is with
  | nil => rfl
  | cons i is ih =>
    have hi := notMem_item (h i List.mem_cons_self)
    rw [List.flatMap_cons, List.append_assoc, List.append_assoc, List.singleton_append,
      List.splitOn_append_cons_self_of_not_mem hi, ih fun j hj => h j (List.mem_cons_of_mem i hj)]
    rfl

theorem itemText_around (lit : StringLit) {x z : Text} (hx : ∀ c ∈ x, isBlank c)
    (hz : ∀ c ∈ z, isBlank c) : itemText (x ++ (lit.text ++ z)) = unquoteText lit.text := by
  have hmark := (mark_spec lit).1
  refine congrArg unquoteText ?_
  exact trimBoth_append (fun c hc => (isBlank_spec (hx c hc)).1)
    (fun c hc => (isBlank_spec (hz c hc)).1) (forall_of_eq_some lit.head?_text hmark)
    (forall_of_eq_some lit.getLast?_text hmark)

theorem itemText_item (i : ArrayItem) : itemText i.text = unquoteText i.lit.text := by
  rw [ArrayItem.text, List.append_assoc]
  exact itemText_around i.lit i.before.2 i.after.2

theorem map_itemText (is : List ArrayItem) :
    is.map (itemText ∘ ArrayItem.text) = is.map fun i => unquoteText i.lit.text :=
  List.map_congr_left fun i _ => itemText_item i

theorem itemText_blank {t : Text} (h : ∀ c ∈ t, isBlank c) : itemText t = [] := by
  have htrim := trimBoth_append (p := isWhitespace) (x := t) (y := []) (z := [])
    (fun c hc => (isBlank_spec (h c hc)).1) (fun c hc => absurd hc List.not_mem_nil)
    (fun c hc => absurd hc (by simp)) fun c hc => absurd hc (by simp)
  rw [List.append_nil, List.append_nil] at htrim
  show unquoteText (trimBoth isWhitespace t) = []
  rw [htrim]
  rfl

theorem listTexts_alone {a : ArrayLit} (h : ∀ i ∈ a.all, ',' ∉ i.lit.text) :
    listTexts a.text = (a.all.map fun i => unquoteText i.lit.text).filter (· ≠ []) := by
  have hinner : trimBoth isBracket a.text = a.inside := by
    show trimBoth isBracket (['['] ++ (a.inside ++ [']'])) = _
    exact trimBoth_append (by simp [isBracket]) (by simp [isBracket]) (head?_inside a)
      (getLast?_inside a)
  rw [listTexts, hinner, ArrayLit.inside,
    splitOn_items fun i hi => h i (List.mem_append_left _ hi), List.map_append, List.map_map,
    map_itemText, List.filter_append, ArrayLit.all, List.map_append, List.filter_append]
  refine congrArg₂ (· ++ ·) rfl ?_
  cases hfinal : a.final with
  | none =>
    rw [Option.toList_none, List.flatMap_nil, List.nil_append]
    have hblank : ',' ∉ a.last.1 := fun hc => (isBlank_spec (a.last.2 _ hc)).2.2.2 rfl
    rw [List.splitOn_eq_singleton hblank, List.map_singleton, itemText_blank a.last.2]
    rfl
  | some i =>
    have hi : ',' ∉ i.text := by
      refine notMem_item (h i (List.mem_append_right _ ?_))
      rw [hfinal]
      exact List.mem_singleton_self i
    have hno : ',' ∉ i.text ++ a.last.1 := by
      intro hc
      obtain hc | hc := List.mem_append.mp hc
      · exact hi hc
      · exact (isBlank_spec (a.last.2 _ hc)).2.2.2 rfl
    have hitem : itemText (i.text ++ a.last.1) = unquoteText i.lit.text := by
      rw [ArrayItem.text, List.append_assoc, List.append_assoc]
      refine itemText_around i.lit i.before.2 fun c hc => ?_
      obtain hc | hc := List.mem_append.mp hc
      · exact i.after.2 c hc
      · exact a.last.2 c hc
    rw [Option.toList_some, List.flatMap_singleton, List.splitOn_eq_singleton hno,
      List.map_singleton, hitem, List.map_singleton]

theorem splitOn_append_of_notMem {x : Text} (h : ',' ∉ x) (y : Text) :
    ∃ z rest, (x ++ y).splitOn ',' = (x ++ z) :: rest := by
  by_cases hy : ',' ∈ y
  · obtain ⟨u, v, rfl, hu⟩ := List.eq_append_cons_of_mem hy
    have hxu : ',' ∉ x ++ u := fun hc => (List.mem_append.mp hc).elim h hu
    refine ⟨u, v.splitOn ',', ?_⟩
    rw [← List.append_assoc, List.splitOn_append_cons_self_of_not_mem hxu]
  · exact ⟨y, [], List.splitOn_eq_singleton fun hc => (List.mem_append.mp hc).elim h hy⟩

theorem itemText_ne_nil {t : Text} {c : Char} (hc : c ∈ t) (hspace : isWhitespace c = false)
    (hquote : isQuote c = false) : itemText t ≠ [] :=
  List.ne_nil_of_mem (mem_trimBoth (mem_trimBoth hc hspace) hquote)

theorem unquote_ne_nil {lit : StringLit} (hne : lit.value ≠ []) (hfirst : lit.value.head? ≠ some '"')
    (hend : lit.value.getLast? ≠ some '"') : unquoteText lit.text ≠ [] := by
  have hpos := List.length_pos_iff.mpr hne
  cases lit with
  | literal s =>
    have hlt := length_unquote_literal s [] []
    rw [List.nil_append, List.append_nil] at hlt
    exact List.length_pos_iff.mp (Nat.zero_lt_of_lt hlt)
  | basic s =>
    have hlen : 0 < s.raw.length := hpos.trans_le s.length_value_le
    show unquoteText s.text ≠ []
    rw [unquote_basic (fun hq => hfirst (s.head?_raw hq)) fun hq => hend (s.getLast?_raw hq)]
    exact List.length_pos_iff.mp hlen

theorem filter_unquote {is : List ArrayItem} (h : ∀ i ∈ is, i.lit.value ≠ [] ∧
    i.lit.value.head? ≠ some '"' ∧ i.lit.value.getLast? ≠ some '"') :
    (is.map fun i => unquoteText i.lit.text).filter (· ≠ []) =
      is.map fun i => unquoteText i.lit.text := by
  refine List.filter_eq_self.mpr fun y hy => ?_
  obtain ⟨i, hi, rfl⟩ := List.mem_map.mp hy
  obtain ⟨hne, hfirst, hlast⟩ := h i hi
  simpa using unquote_ne_nil hne hfirst hlast

theorem length_lt_itemText {lit : StringLit} (hfirst : lit.value.head? ≠ some '"')
    (hend : lit.value.getLast? ≠ some '"') (u v : Text)
    (hhead : ∀ c, (u ++ (lit.text ++ v)).head? = some c → isWhitespace c = false)
    (hlast : ∀ c, (u ++ (lit.text ++ v)).getLast? = some c → isWhitespace c = false)
    (hmore : (∃ c ∈ u, isQuote c = false) ∨ ∃ c ∈ v, isQuote c = false) (x z : Text) :
    lit.value.length < (itemText (x ++ ((u ++ (lit.text ++ v)) ++ z))).length := by
  have hne : u ++ (lit.text ++ v) ≠ [] := List.append_ne_nil_of_right_ne_nil _
    (List.append_ne_nil_of_left_ne_nil lit.text_ne_nil _)
  have htrim : trim (x ++ ((u ++ (lit.text ++ v)) ++ z)) = x.dropWhile isWhitespace ++
      ((u ++ (lit.text ++ v)) ++ z.rdropWhile isWhitespace) := trimBoth_around hne hhead hlast x z
  have hlt := length_value_lt hfirst hend (x.dropWhile isWhitespace ++ u)
    (v ++ z.rdropWhile isWhitespace)
    (hmore.imp (fun ⟨c, hc, hq⟩ => ⟨c, List.mem_append_right _ hc, hq⟩)
      fun ⟨c, hc, hq⟩ => ⟨c, List.mem_append_left _ hc, hq⟩)
  rw [itemText, htrim]
  simpa only [List.append_assoc] using hlt

theorem inside_cons {a : ArrayLit} {i : ArrayItem} {is : List ArrayItem} (h : a.all = i :: is) :
    ∃ rest, a.inside = i.text ++ rest := by
  rw [ArrayLit.inside]
  rw [ArrayLit.all] at h
  cases hitems : a.items with
  | cons j js =>
    rw [hitems, List.cons_append, List.cons.injEq] at h
    rw [← h.1, List.flatMap_cons, List.append_assoc, List.append_assoc]
    exact ⟨_, rfl⟩
  | nil =>
    rw [hitems, List.nil_append] at h
    rw [h, List.flatMap_nil, List.nil_append, List.flatMap_cons, List.append_assoc]
    exact ⟨_, rfl⟩

theorem listTexts_blank {a : ArrayLit} {i : ArrayItem} {is : List ArrayItem} (h : a.all = i :: is)
    (hcomma : ',' ∉ i.lit.text) (hfirst : i.lit.value.head? ≠ some '"')
    (hend : i.lit.value.getLast? ≠ some '"') {w : Text} (hw : ∀ c ∈ w, isBlank c) (hne : w ≠ [])
    (tl : Text) : ∃ x rest, listTexts (w ++ (a.text ++ tl)) = x :: rest ∧
      i.lit.value.length < x.length := by
  obtain ⟨r, hr⟩ := inside_cons h
  obtain ⟨-, hbracket, hmark⟩ := mark_spec i.lit
  have hlit := i.lit.text_ne_nil
  let front := w ++ '[' :: (i.before.1 ++ i.lit.text)
  have hsplit : w ++ (a.text ++ tl) = [] ++ (front ++ (i.after.1 ++ (r ++ (']' :: tl)))) := by
    show w ++ ('[' :: (a.inside ++ [']']) ++ tl) = _
    rw [hr, ArrayItem.text]
    simp only [front, List.append_assoc, List.cons_append, List.nil_append]
  have hfront : front ≠ [] := List.append_ne_nil_of_left_ne_nil hne _
  have hhead : ∀ c, front.head? = some c → isBracket c = false := by
    intro c hc
    rw [List.head?_append_of_ne_nil _ hne] at hc
    exact (isBlank_spec (hw c (List.mem_of_mem_head? hc))).2.1
  have hlast : ∀ c, front.getLast? = some c → isBracket c = false := by
    intro c hc
    rw [List.getLast?_append_of_ne_nil _ (List.cons_ne_nil _ _), ← List.cons_append,
      List.getLast?_append_of_ne_nil _ hlit, i.lit.getLast?_text] at hc
    rwa [← Option.some.inj hc]
  have hno : ',' ∉ front := by
    intro hc
    simp only [front, List.mem_append, List.mem_cons] at hc
    obtain hc | hc | hc | hc := hc
    · exact (isBlank_spec (hw _ hc)).2.2.2 rfl
    · exact absurd hc (by decide)
    · exact (isBlank_spec (i.before.2 _ hc)).2.2.2 rfl
    · exact hcomma hc
  obtain ⟨z, rest, hpieces⟩ := splitOn_append_of_notMem hno
    ((i.after.1 ++ (r ++ (']' :: tl))).rdropWhile isBracket)
  have hspace : isWhitespace '[' = false := by decide
  have hlong : i.lit.value.length < (itemText (front ++ z)).length := by
    have hmark : (('[' :: i.before.1) ++ (i.lit.text ++ [])).getLast? = some i.lit.mark := by
      rw [List.append_nil, List.getLast?_append_of_ne_nil _ hlit, i.lit.getLast?_text]
    have hlt := length_lt_itemText hfirst hend ('[' :: i.before.1) []
      (forall_of_eq_some rfl hspace) (forall_of_eq_some hmark (mark_spec i.lit).1)
      (.inl ⟨'[', List.mem_cons_self, by decide⟩) w z
    simpa only [front, List.append_assoc, List.cons_append, List.nil_append] using hlt
  have hkeep : itemText (front ++ z) ≠ [] :=
    List.length_pos_iff.mp (Nat.zero_lt_of_lt hlong)
  refine ⟨itemText (front ++ z), (rest.map itemText).filter (· ≠ []), ?_, hlong⟩
  rw [listTexts, hsplit, trimBoth_around hfront hhead hlast, List.dropWhile_nil, List.nil_append,
    hpieces, List.map_cons, List.filter_cons_of_pos (by simpa using hkeep)]

theorem listTexts_comment {a : ArrayLit} (hall : a.all ≠ []) (hcomma : ∀ i ∈ a.all, ',' ∉ i.lit.text)
    (hvalue : ∀ i ∈ a.all, i.lit.value ≠ [] ∧ i.lit.value.head? ≠ some '"' ∧
      i.lit.value.getLast? ≠ some '"') {tl : Text} (htl : '#' ∈ tl) :
    ∃ x rest, listTexts (a.text ++ tl) =
        (a.items.map fun i => unquoteText i.lit.text) ++ x :: rest ∧
      ∀ i, a.final = some i → i.lit.value.length < x.length := by
  obtain ⟨i₀, is, hi₀⟩ := List.exists_cons_of_ne_nil hall
  obtain ⟨r, hr⟩ := inside_cons hi₀
  obtain ⟨hne₀, hhead₀, hlast₀⟩ := item_ends i₀
  have htl' : tl.rdropWhile isBracket ≠ [] := rdropWhile_of_mem htl (by decide)
  have hend : ∀ u : Text, (u ++ tl).rdropWhile isBracket = u ++ tl.rdropWhile isBracket :=
    fun u => rdropWhile_append htl' u
  have hinner : trimBoth isBracket (a.text ++ tl) =
      a.inside ++ (']' :: tl.rdropWhile isBracket) := by
    have hopen : List.dropWhile isBracket ['['] = [] := by simp [isBracket]
    show trimBoth isBracket ('[' :: (a.inside ++ [']']) ++ tl) = _
    rw [hr]
    have hsplit : '[' :: (i₀.text ++ r ++ [']']) ++ tl = ['['] ++ (i₀.text ++ (r ++ [']'] ++ tl)) := by
      simp only [List.append_assoc, List.cons_append, List.nil_append]
    rw [hsplit, trimBoth_around hne₀ hhead₀ hlast₀, hopen, hend]
    simp only [List.append_assoc, List.cons_append, List.nil_append]
  let fin := a.final.toList.flatMap ArrayItem.text ++ a.last.1 ++ [']']
  have hfin : ',' ∉ fin := by
    intro hc
    simp only [fin, List.mem_append, List.mem_singleton] at hc
    obtain (hc | hc) | hc := hc
    · obtain ⟨i, hi, hc⟩ := List.mem_flatMap.mp hc
      exact notMem_item (hcomma i (List.mem_append_right _ hi)) hc
    · exact (isBlank_spec (a.last.2 _ hc)).2.2.2 rfl
    · exact absurd hc (by decide)
  obtain ⟨z, rest, hpieces⟩ := splitOn_append_of_notMem hfin (tl.rdropWhile isBracket)
  have hbracket : ']' ∈ fin ++ z :=
    List.mem_append_left z (List.mem_append_right _ (List.mem_singleton_self _))
  have hx : itemText (fin ++ z) ≠ [] := itemText_ne_nil hbracket (by decide) (by decide)
  refine ⟨itemText (fin ++ z), (rest.map itemText).filter (· ≠ []), ?_, fun i hi => ?_⟩
  · have hrest : a.inside ++ (']' :: tl.rdropWhile isBracket) =
        a.items.flatMap (fun i => i.text ++ [',']) ++ (fin ++ tl.rdropWhile isBracket) := by
      simp only [ArrayLit.inside, fin, List.append_assoc, List.cons_append, List.nil_append]
    have hkept := filter_unquote fun i hi => hvalue i (List.mem_append_left a.final.toList hi)
    rw [listTexts, hinner, hrest, splitOn_items fun i hi => hcomma i (List.mem_append_left _ hi),
      hpieces, List.map_append, List.map_map, map_itemText, List.filter_append, hkept, List.map_cons,
      List.filter_cons_of_pos (by simpa using hx)]
  · obtain ⟨-, hfirst, hlast⟩ := hvalue i (List.mem_append_right _ (by
      rw [hi]
      exact List.mem_singleton_self i))
    have hspace : isWhitespace ']' = false := by decide
    have hmark : ([] ++ (i.lit.text ++ (i.after.1 ++ a.last.1 ++ [']']))).head? =
        some i.lit.mark := by
      rw [List.nil_append, List.head?_append_of_ne_nil _ i.lit.text_ne_nil, i.lit.head?_text]
    have hclose : ([] ++ (i.lit.text ++ (i.after.1 ++ a.last.1 ++ [']']))).getLast? =
        some ']' := by
      rw [List.nil_append, ← List.append_assoc, List.getLast?_concat]
    have hlt := length_lt_itemText hfirst hlast [] (i.after.1 ++ a.last.1 ++ [']'])
      (forall_of_eq_some hmark (mark_spec i.lit).1) (forall_of_eq_some hclose hspace)
      (.inr ⟨']', List.mem_append_right _ (List.mem_singleton_self _), by decide⟩) i.before.1 z
    simpa only [fin, hi, Option.toList_some, List.flatMap_singleton, ArrayItem.text,
      List.append_assoc, List.nil_append] using hlt

theorem exists_mem_splitOn {t : Text} {c : Char} (hc : c ∈ t) (hcomma : c ≠ ',') :
    ∃ s ∈ t.splitOn ',', c ∈ s := by
  induction hlen : t.length using Nat.strong_induction_on generalizing t with
  | _ n ih =>
    by_cases hmem : ',' ∈ t
    · obtain ⟨x, y, rfl, hx⟩ := List.eq_append_cons_of_mem hmem
      rw [List.splitOn_append_cons_self_of_not_mem hx]
      obtain hc | hc := List.mem_append.mp hc
      · exact ⟨x, List.mem_cons_self, hc⟩
      · have hshort : y.length < n := by
          rw [← hlen, List.length_append, List.length_cons]
          omega
        obtain ⟨s, hs, hcs⟩ := ih y.length hshort ((List.mem_cons.mp hc).resolve_left hcomma) rfl
        exact ⟨s, List.mem_cons_of_mem x hs, hcs⟩
    · exact ⟨t, by rw [List.splitOn_eq_singleton hmem]; exact List.mem_singleton_self t, hc⟩

theorem listTexts_ne_nil {t : Text} {c : Char} (hc : c ∈ trimBoth isBracket t) (hcomma : c ≠ ',')
    (hspace : isWhitespace c = false) (hquote : isQuote c = false) : listTexts t ≠ [] := by
  obtain ⟨s, hs, hcs⟩ := exists_mem_splitOn hc hcomma
  refine List.ne_nil_of_mem (List.mem_filter.mpr ⟨List.mem_map_of_mem hs, ?_⟩)
  simpa using itemText_ne_nil hcs hspace hquote

theorem listTexts_blanks {t w : Text} (ht : trimBoth isBracket t = w) (hw : ∀ c ∈ w, isBlank c) :
    listTexts t = [] := by
  have hcomma : ',' ∉ w := fun hc => (isBlank_spec (hw _ hc)).2.2.2 rfl
  rw [listTexts, ht, List.splitOn_eq_singleton hcomma, List.map_singleton, itemText_blank hw]
  rfl

theorem listTexts_empty_iff {a : ArrayLit} (hall : a.all = []) {w tl : Text}
    (hw : ∀ c ∈ w, isBlank c) (htl : tl = [] ∨ '#' ∈ tl) :
    listTexts (w ++ (a.text ++ tl)) = [] ↔ tl = [] ∧ (w = [] ∨ a.last.1 = []) := by
  have hinside : a.inside = a.last.1 := by
    obtain ⟨hitems, hfinal⟩ := List.append_eq_nil_iff.mp hall
    rw [ArrayLit.inside, hitems, hfinal]
    rfl
  have hblank : ∀ {t : Text}, (∀ c ∈ t, isBlank c) →
      (∀ c, t.head? = some c → isBracket c = false) ∧
        ∀ c, t.getLast? = some c → isBracket c = false := fun ht =>
    ⟨fun c hc => (isBlank_spec (ht c (List.mem_of_mem_head? hc))).2.1,
      fun c hc => (isBlank_spec (ht c (List.mem_of_getLast? hc))).2.1⟩
  constructor
  · intro h
    have hback : tl = [] := by
      by_contra hne
      have hmem : '#' ∈ w ++ (a.text ++ tl) :=
        List.mem_append_right w (List.mem_append_right a.text (htl.resolve_left hne))
      exact listTexts_ne_nil (mem_trimBoth hmem (by decide)) (by decide) (by decide) (by decide) h
    refine ⟨hback, ?_⟩
    by_contra hboth
    rw [not_or] at hboth
    -- the opening bracket stands between blanks and stays
    have hsplit : w ++ (a.text ++ tl) = [] ++ ((w ++ '[' :: a.last.1) ++ [']']) := by
      rw [hback, ArrayLit.text, hinside]
      simp only [List.append_assoc, List.cons_append, List.append_nil, List.nil_append]
    have hinner : trimBoth isBracket (w ++ (a.text ++ tl)) = w ++ '[' :: a.last.1 := by
      rw [hsplit]
      refine trimBoth_append (by simp) (by simp [isBracket]) (fun c hc => ?_) fun c hc => ?_
      · rw [List.head?_append_of_ne_nil _ hboth.1] at hc
        exact (hblank hw).1 c hc
      · rw [List.getLast?_append_of_ne_nil _ (List.cons_ne_nil _ _),
          List.getLast?_cons_of_ne_nil hboth.2] at hc
        exact (hblank a.last.2).2 c hc
    have hmem : '[' ∈ trimBoth isBracket (w ++ (a.text ++ tl)) := by
      rw [hinner]
      exact List.mem_append_right w List.mem_cons_self
    exact listTexts_ne_nil hmem (by decide) (by decide) (by decide) h
  · intro h
    obtain ⟨rfl, hplace⟩ := h
    have htext : w ++ (a.text ++ []) = w ++ ('[' :: (a.last.1 ++ [']'])) := by
      rw [List.append_nil, ArrayLit.text, hinside]
    rw [htext]
    obtain rfl | hlast := hplace
    · refine listTexts_blanks (w := a.last.1) ?_ a.last.2
      exact trimBoth_append (x := ['[']) (by simp [isBracket]) (by simp [isBracket])
        (hblank a.last.2).1 (hblank a.last.2).2
    · rw [hlast]
      refine listTexts_blanks (w := w) ?_ hw
      exact trimBoth_append (x := []) (z := ['[', ']']) (by simp) (by simp [isBracket])
        (hblank hw).1 (hblank hw).2

/-- **A list.**  It is read right exactly when its strings are exact, have a character and no comma,
and it stands alone; an empty one may have blanks in one place. -/
theorem listTexts_eq_iff (a : ArrayLit) {w tl : Text} (hw : ∀ c ∈ w, isBlank c)
    (htl : tl = [] ∨ '#' ∈ tl) :
    listTexts (w ++ (a.text ++ tl)) = a.values ↔ ListRead w a tl := by
  constructor
  · intro h
    have hspec : ∀ i ∈ a.all, i.lit.value ≠ [] ∧ ',' ∉ i.lit.value ∧
        i.lit.value.head? ≠ some '"' ∧ i.lit.value.getLast? ≠ some '"' := by
      intro i hi
      have hmem : i.lit.value ∈ a.values := List.mem_map_of_mem hi
      rw [← h] at hmem
      exact mem_listTexts_spec hmem
    have hcomma : ∀ i ∈ a.all, ',' ∉ i.lit.text :=
      fun i hi hc => (hspec i hi).2.1 (i.lit.comma_text hc)
    cases hall : a.all with
    | nil =>
      rw [ArrayLit.values, hall] at h
      obtain ⟨hback, hplace⟩ := (listTexts_empty_iff hall hw htl).mp h
      exact ⟨hback, .inl ⟨hall, hplace⟩⟩
    | cons i is =>
      have hi : i ∈ a.all := by
        rw [hall]
        exact List.mem_cons_self
      have hfront : w = [] := by
        by_contra hne
        obtain ⟨x, rest, hx, hlt⟩ := listTexts_blank hall (hcomma i hi) (hspec i hi).2.2.1
          (hspec i hi).2.2.2 hw hne tl
        rw [hx, ArrayLit.values, hall, List.map_cons, List.cons.injEq] at h
        rw [h.1] at hlt
        exact Nat.lt_irrefl _ hlt
      have hback : tl = [] := by
        by_contra hne
        obtain ⟨x, rest, hx, hlt⟩ := listTexts_comment (a := a) (by rw [hall]; exact List.cons_ne_nil i is)
          hcomma (fun j hj => ⟨(hspec j hj).1, (hspec j hj).2.2⟩) (htl.resolve_left hne)
        rw [hfront, List.nil_append, hx, ArrayLit.values, ArrayLit.all, List.map_append] at h
        obtain ⟨-, htail⟩ := List.append_inj h (by rw [List.length_map, List.length_map])
        cases hfinal : a.final with
        | none =>
          rw [hfinal] at htail
          cases htail
        | some j =>
          rw [hfinal, Option.toList_some, List.map_singleton, List.cons.injEq] at htail
          have hlong := hlt j hfinal
          rw [htail.1] at hlong
          exact Nat.lt_irrefl _ hlong
      refine ⟨hback, .inr ⟨hfront, fun j hj => ?_⟩⟩
      have hkept := filter_unquote fun j hj => ⟨(hspec j hj).1, (hspec j hj).2.2⟩
      rw [hfront, hback, List.nil_append, List.append_nil, listTexts_alone hcomma, hkept,
        ArrayLit.values] at h
      exact ⟨(unquote_eq_value_iff j.lit).mp (List.map_inj_left.mp h j hj), (hspec j hj).1,
        (hspec j hj).2.1⟩
  · intro h
    obtain ⟨rfl, ⟨hall, hplace⟩ | ⟨rfl, hread⟩⟩ := h
    · rw [(listTexts_empty_iff hall hw htl).mpr ⟨rfl, hplace⟩, ArrayLit.values, hall]
      rfl
    · have hcomma : ∀ i ∈ a.all, ',' ∉ i.lit.text :=
        fun i hi hc => (hread i hi).2.2 (i.lit.comma_text hc)
      have hmap : (a.all.map fun i => unquoteText i.lit.text) = a.values :=
        List.map_congr_left fun i hi => (unquote_eq_value_iff i.lit).mpr (hread i hi).1
      rw [List.nil_append, List.append_nil, listTexts_alone hcomma, hmap]
      refine List.filter_eq_self.mpr fun y hy => ?_
      obtain ⟨i, hi, rfl⟩ := List.mem_map.mp hy
      simpa using (hread i hi).2.1

end Mowis.Planning
