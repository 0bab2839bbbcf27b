import Mowis.Lib.Replace

/-!
# Patterns with wildcards

A pattern is a row of literals, of gaps, which stand for any row of characters, and of optional
characters.  `dot` says which characters the two wildcards stand for.
-/

namespace Mowis.Lib.Wildcard

inductive Token (α : Type*) where
  | literal (a : α)
  | gap
  | optional
  deriving DecidableEq

variable {α : Type*}

def Token.isGap : Token α → Bool
  | .gap => true
  | _ => false

inductive Matches (dot : α → Prop) : List (Token α) → List α → Prop
  | nil : Matches dot [] []
  | literal (a : α) {ts : List (Token α)} {w : List α} :
      Matches dot ts w → Matches dot (.literal a :: ts) (a :: w)
  | gapEnd {ts : List (Token α)} {w : List α} : Matches dot ts w → Matches dot (.gap :: ts) w
  | gapMore {a : α} {ts : List (Token α)} {w : List α} :
      dot a → Matches dot (.gap :: ts) w → Matches dot (.gap :: ts) (a :: w)
  | skip {ts : List (Token α)} {w : List α} : Matches dot ts w → Matches dot (.optional :: ts) w
  | take {a : α} {ts : List (Token α)} {w : List α} :
      dot a → Matches dot ts w → Matches dot (.optional :: ts) (a :: w)

def Occurs (dot : α → Prop) (ts : List (Token α)) (text : List α) : Prop :=
  ∃ u w v, text = u ++ (w ++ v) ∧ Matches dot ts w

def literals (ts : List (Token α)) : List α :=
  ts.filterMap fun
    | .literal a => some a
    | _ => none

def pieces (ts : List (Token α)) : List (List (Token α)) := ts.splitOnP Token.isGap

def InOrder : List (List α) → List α → Prop
  | [], _ => True
  | p :: ps, t => ∃ u v, t = u ++ (p ++ v) ∧ InOrder ps v

/-- No optional character stands between two literals. -/
def Tight (piece : List (Token α)) : Prop :=
  ∀ before after, piece = before ++ .optional :: after → literals before = [] ∨ literals after = []

def anyBut (excluded : Option α) (a : α) : Prop := excluded ≠ some a

def Loose (b : α) (p : List α) : Prop := p = [] ∨ p = [b]

/-- No piece has an optional character between two literals.  Where a character is excluded, all
pieces but one spell out nothing, or this character alone. -/
def Exact (excluded : Option α) (ts : List (Token α)) : Prop :=
  (∀ piece ∈ pieces ts, Tight piece) ∧
    ∀ b, excluded = some b → ((pieces ts).map literals).Pairwise fun p q => Loose b p ∨ Loose b q

section Pieces

variable {ts us piece : List (Token α)}

@[simp] theorem literals_nil : literals ([] : List (Token α)) = [] := rfl

@[simp] theorem literals_literal (a : α) (ts : List (Token α)) :
    literals (.literal a :: ts) = a :: literals ts := rfl

@[simp] theorem literals_gap (ts : List (Token α)) : literals (.gap :: ts) = literals ts := rfl

@[simp] theorem literals_optional (ts : List (Token α)) :
    literals (.optional :: ts) = literals ts := rfl

@[simp] theorem literals_append (ts us : List (Token α)) :
    literals (ts ++ us) = literals ts ++ literals us := List.filterMap_append

theorem isGap_eq_false (h : .gap ∉ ts) : ∀ t ∈ ts, t.isGap = false := by
  intro t ht
  cases t with
  | gap => exact absurd ht h
  | _ => rfl

theorem pieces_of_no_gap (h : .gap ∉ ts) : pieces ts = [ts] :=
  List.splitOnP_eq_singleton (isGap_eq_false h)

theorem pieces_gap (h : .gap ∉ ts) (us : List (Token α)) :
    pieces (ts ++ .gap :: us) = ts :: pieces us :=
  List.splitOnP_append_cons_of_forall_mem (isGap_eq_false h) .gap rfl us

theorem pieces_induction {P : List (Token α) → Prop} (last : ∀ ts, .gap ∉ ts → P ts)
    (gap : ∀ ts us, .gap ∉ ts → P us → P (ts ++ .gap :: us)) (ts : List (Token α)) : P ts := by
  induction h : ts.length using Nat.strong_induction_on generalizing ts with
  | _ n ih =>
    by_cases hmem : .gap ∈ ts
    · obtain ⟨before, after, rfl, hbefore⟩ := List.eq_append_cons_of_mem hmem
      refine gap before after hbefore (ih after.length ?_ after rfl)
      rw [← h, List.length_append, List.length_cons]
      omega
    · exact last ts hmem

theorem gap_notMem_pieces (h : piece ∈ pieces ts) : .gap ∉ piece := by
  induction ts using pieces_induction with
  | last ts hts =>
    rw [pieces_of_no_gap hts, List.mem_singleton] at h
    rwa [h]
  | gap ts us hts ih =>
    rw [pieces_gap hts] at h
    rcases List.mem_cons.mp h with rfl | h
    · exact hts
    · exact ih h

theorem flatten_pieces (ts : List (Token α)) :
    ((pieces ts).map literals).flatten = literals ts := by
  induction ts using pieces_induction with
  | last ts hts => simp [pieces_of_no_gap hts]
  | gap ts us hts ih => simp [pieces_gap hts, ih]

theorem exists_around (h : piece ∈ pieces ts) : ∃ before after us vs,
    pieces ts = before ++ piece :: after ∧ ts = us ++ (piece ++ vs) ∧
      literals us = (before.map literals).flatten ∧ literals vs = (after.map literals).flatten := by
  induction ts using pieces_induction with
  | last ts hts =>
    rw [pieces_of_no_gap hts, List.mem_singleton] at h
    subst h
    exact ⟨[], [], [], [], pieces_of_no_gap hts, (List.append_nil _).symm, rfl, rfl⟩
  | gap ts us hts ih =>
    rw [pieces_gap hts] at h ⊢
    rcases List.mem_cons.mp h with rfl | h
    · exact ⟨[], pieces us, [], .gap :: us, rfl, rfl, rfl, (flatten_pieces us).symm⟩
    · obtain ⟨before, after, us', vs, hpieces, rfl, hbefore, hafter⟩ := ih h
      refine ⟨ts :: before, after, ts ++ .gap :: us', vs, ?_, ?_, ?_, hafter⟩
      · rw [hpieces]
        rfl
      · simp
      · simp [hbefore]

end Pieces

section Matches

variable {dot : α → Prop} {ts us piece : List (Token α)} {w : List α}

theorem matches_gap : Matches dot (.gap :: ts) w ↔
    ∃ g v, w = g ++ v ∧ (∀ a ∈ g, dot a) ∧ Matches dot ts v := by
  constructor
  · intro h
    generalize hpattern : Token.gap :: ts = pattern at h
    induction h with
    | gapEnd h =>
      cases hpattern
      exact ⟨[], _, rfl, List.forall_mem_nil _, h⟩
    | gapMore ha _ ih =>
      cases hpattern
      obtain ⟨g, v, rfl, hg, hv⟩ := ih rfl
      exact ⟨_ :: g, v, rfl, List.forall_mem_cons.mpr ⟨ha, hg⟩, hv⟩
    | _ => cases hpattern
  · rintro ⟨g, v, rfl, hg, hv⟩
    induction g with
    | nil => exact .gapEnd hv
    | cons a g ih =>
      obtain ⟨ha, hg⟩ := List.forall_mem_cons.mp hg
      exact .gapMore ha (ih hg)

theorem matches_append : Matches dot (ts ++ us) w ↔
    ∃ w₁ w₂, w = w₁ ++ w₂ ∧ Matches dot ts w₁ ∧ Matches dot us w₂ := by
  constructor
  · intro h
    induction ts generalizing w with
    | nil => exact ⟨[], w, rfl, .nil, h⟩
    | cons t ts ih =>
      cases t with
      | literal a =>
        cases h with
        | literal _ h =>
          obtain ⟨w₁, w₂, rfl, h₁, h₂⟩ := ih h
          exact ⟨a :: w₁, w₂, rfl, .literal a h₁, h₂⟩
      | gap =>
        obtain ⟨g, v, rfl, hg, h⟩ := matches_gap.mp h
        obtain ⟨w₁, w₂, rfl, h₁, h₂⟩ := ih h
        exact ⟨g ++ w₁, w₂, (List.append_assoc ..).symm, matches_gap.mpr ⟨g, w₁, rfl, hg, h₁⟩, h₂⟩
      | optional =>
        cases h with
        | skip h =>
          obtain ⟨w₁, w₂, rfl, h₁, h₂⟩ := ih h
          exact ⟨w₁, w₂, rfl, .skip h₁, h₂⟩
        | take ha h =>
          obtain ⟨w₁, w₂, rfl, h₁, h₂⟩ := ih h
          exact ⟨_ :: w₁, w₂, rfl, .take ha h₁, h₂⟩
  · rintro ⟨w₁, w₂, rfl, h₁, h₂⟩
    induction h₁ with
    | nil => exact h₂
    | literal a _ ih => exact .literal a ih
    | gapEnd _ ih => exact .gapEnd ih
    | gapMore ha _ ih => exact .gapMore ha ih
    | skip _ ih => exact .skip ih
    | take ha _ ih => exact .take ha ih

theorem matches_literals (ts : List (Token α)) : Matches dot ts (literals ts) := by
  induction ts with
  | nil => exact .nil
  | cons t ts ih =>
    cases t with
    | literal a => exact .literal a ih
    | gap => exact .gapEnd ih
    | optional => exact .skip ih

theorem Matches.count_eq [DecidableEq α] (h : Matches dot ts w) {b : α} (hb : ¬ dot b) :
    w.count b = (literals ts).count b := by
  induction h with
  | nil => rfl
  | literal a _ ih => rw [literals_literal, List.count_cons, List.count_cons, ih]
  | gapEnd _ ih | skip _ ih => exact ih
  | @gapMore a _ _ ha _ ih | @take a _ _ ha _ ih =>
    have hne : a ≠ b := fun heq => hb (heq ▸ ha)
    simpa [List.count_cons_of_ne hne] using ih

theorem Tight.tail {t : Token α} (h : Tight (t :: piece)) : Tight piece := by
  intro before after hsplit
  rcases h (t :: before) after (by rw [hsplit]; rfl) with hnil | hnil
  · cases t <;> first | exact .inl hnil | cases hnil
  · exact .inr hnil

theorem prefix_of_literal {a : α} (h : Tight (.literal a :: piece)) (hgap : .gap ∉ piece)
    (hw : Matches dot piece w) : literals piece <+: w := by
  induction hw generalizing a with
  | nil => exact List.prefix_refl _
  | literal b _ ih =>
    exact List.cons_prefix_cons.mpr ⟨rfl, ih h.tail fun hmem => hgap (List.mem_cons_of_mem _ hmem)⟩
  | gapEnd | gapMore => exact absurd List.mem_cons_self hgap
  | @skip ts | @take _ ts =>
    rcases h [.literal a] ts rfl with hnil | hnil
    · cases hnil
    · rw [literals_optional, hnil]
      exact List.nil_prefix

theorem infix_of_tight (h : Tight piece) (hgap : .gap ∉ piece) (hw : Matches dot piece w) :
    literals piece <:+: w := by
  induction hw with
  | nil => exact List.infix_refl _
  | literal a hw =>
    have hpre := prefix_of_literal h (fun hmem => hgap (List.mem_cons_of_mem _ hmem)) hw
    exact (List.cons_prefix_cons.mpr ⟨rfl, hpre⟩).isInfix
  | gapEnd | gapMore => exact absurd List.mem_cons_self hgap
  | skip _ ih => exact ih h.tail fun hmem => hgap (List.mem_cons_of_mem _ hmem)
  | take _ _ ih =>
    exact (ih h.tail fun hmem => hgap (List.mem_cons_of_mem _ hmem)).trans
      (List.suffix_cons _ _).isInfix

end Matches

section InOrder

variable {ps qs : List (List α)} {t : List α}

theorem InOrder.append_left (h : InOrder ps t) (u : List α) : InOrder ps (u ++ t) := by
  cases ps with
  | nil => trivial
  | cons p ps =>
    obtain ⟨u', v, rfl, hv⟩ := h
    exact ⟨u ++ u', v, (List.append_assoc ..).symm, hv⟩

theorem inOrder_cons {p v : List α} (h : InOrder ps v) : InOrder (p :: ps) (p ++ v) :=
  ⟨[], v, rfl, h⟩

theorem InOrder.length_le (h : InOrder ps t) : ps.flatten.length ≤ t.length := by
  induction ps generalizing t with
  | nil => exact Nat.zero_le _
  | cons p ps ih =>
    obtain ⟨u, v, rfl, hv⟩ := h
    have := ih hv
    simp only [List.flatten_cons, List.length_append]
    omega

theorem InOrder.eq_flatten (h : InOrder ps t) (hlen : t.length = ps.flatten.length) :
    t = ps.flatten := by
  induction ps generalizing t with
  | nil => exact List.length_eq_zero_iff.mp hlen
  | cons p ps ih =>
    obtain ⟨u, v, rfl, hv⟩ := h
    have hle := hv.length_le
    simp only [List.flatten_cons, List.length_append] at hlen
    obtain rfl : u = [] := List.length_eq_zero_iff.mp (by omega)
    rw [ih hv (by rw [List.length_nil] at hlen; omega)]
    rfl

theorem InOrder.slack (h : InOrder ps t) (hlen : t.length = ps.flatten.length + 1) :
    ∃ before after c, ps = before ++ after ∧ t = before.flatten ++ c :: after.flatten := by
  induction ps generalizing t with
  | nil =>
    obtain ⟨c, rfl⟩ := List.length_eq_one_iff.mp hlen
    exact ⟨[], [], c, rfl, rfl⟩
  | cons p ps ih =>
    obtain ⟨u, v, rfl, hv⟩ := h
    have hle := hv.length_le
    simp only [List.flatten_cons, List.length_append] at hlen
    cases u with
    | nil =>
      obtain ⟨before, after, c, rfl, rfl⟩ := ih hv (by rw [List.length_nil] at hlen; omega)
      refine ⟨p :: before, after, c, rfl, ?_⟩
      rw [List.nil_append, List.flatten_cons, List.append_assoc]
    | cons c u =>
      rw [List.length_cons] at hlen
      obtain rfl : u = [] := List.length_eq_zero_iff.mp (by omega)
      rw [hv.eq_flatten (by rw [List.length_nil] at hlen; omega)]
      exact ⟨[], p :: ps, c, rfl, rfl⟩

theorem inOrder_append_separated (x : α) (h : InOrder qs t) :
    InOrder (ps ++ qs) (ps.flatMap (· ++ [x]) ++ t) := by
  induction ps with
  | nil => exact h
  | cons p ps ih =>
    show InOrder (p :: (ps ++ qs)) ((p ++ [x]) ++ ps.flatMap (· ++ [x]) ++ t)
    rw [List.append_assoc, List.append_assoc]
    exact inOrder_cons (ih.append_left [x])

theorem not_inOrder_inside {before after : List (List α)} {l r : List α} {a b x : α} (ha : x ≠ a)
    (hb : x ≠ b) : ¬ InOrder (before ++ ((l ++ [a]) ++ b :: r) :: after)
      (before.flatten ++ (((l ++ [a]) ++ x :: b :: r) ++ after.flatten)) := by
  intro h
  obtain ⟨left, right, c, hsplit, htext⟩ := h.slack (by simp; omega)
  -- the character too many stands in front of the part or behind it
  have hcases : (∃ m, before = left ++ m ∧ right = m ++ ((l ++ [a]) ++ b :: r) :: after) ∨
      ∃ m, left = before ++ ((l ++ [a]) ++ b :: r) :: m ∧ after = m ++ right := by
    rcases List.append_eq_append_iff.mp hsplit with ⟨m, rfl, hm⟩ | hm
    · rcases List.cons_eq_append_iff.mp hm with ⟨rfl, rfl⟩ | ⟨m, rfl, rfl⟩
      · exact .inl ⟨[], by simp, rfl⟩
      · exact .inr ⟨m, rfl, rfl⟩
    · exact .inl hm
  rcases hcases with ⟨m, rfl, rfl⟩ | ⟨m, rfl, rfl⟩
  · have hcut : (m.flatten ++ (l ++ [a]) ++ [x]) ++ (b :: r ++ after.flatten) =
        (c :: m.flatten ++ (l ++ [a])) ++ (b :: r ++ after.flatten) := by
      simpa using htext
    have hlast := List.append_cancel_right hcut
    rw [← List.append_assoc (c :: m.flatten)] at hlast
    obtain ⟨-, hx⟩ := List.append_inj' hlast rfl
    exact ha (List.cons.inj hx).1
  · have hcut : (before.flatten ++ (l ++ [a])) ++ x :: (b :: r ++ (m.flatten ++ right.flatten)) =
        (before.flatten ++ (l ++ [a])) ++ b :: (r ++ (m.flatten ++ c :: right.flatten)) := by
      simpa using htext
    exact hb (List.cons.inj (List.append_cancel_left hcut)).1

end InOrder

section Loose

variable {b : α} {p : List α} {ps : List (List α)} {t : List α}

theorem anyBut_of_notMem (h : b ∉ t) : ∀ a ∈ t, anyBut (some b) a := by
  intro a ha hab
  exact h (Option.some.inj hab ▸ ha)

theorem first_of_loose (hloose : Loose b p) (h : InOrder (p :: ps) t) :
    ∃ g v, t = g ++ (p ++ v) ∧ b ∉ g ∧ InOrder ps v := by
  obtain ⟨u, v, rfl, hv⟩ := h
  rcases hloose with rfl | rfl
  · exact ⟨[], u ++ v, rfl, List.not_mem_nil, hv.append_left u⟩
  · by_cases hb : b ∈ u
    · obtain ⟨g, u', rfl, hg⟩ := List.eq_append_cons_of_mem hb
      refine ⟨g, u' ++ ([b] ++ v), by simp, hg, ?_⟩
      exact (hv.append_left [b]).append_left u'
    · exact ⟨u, v, rfl, hb, hv⟩

theorem last_of_loose (hloose : Loose b p) (u v : List α) :
    ∃ l g, u ++ (p ++ v) = l ++ (p ++ g) ∧ b ∉ g := by
  rcases hloose with rfl | rfl
  · exact ⟨u ++ v, [], by simp, List.not_mem_nil⟩
  · by_cases hb : b ∈ v
    · obtain ⟨r, l, hl, hr⟩ := List.eq_append_cons_of_mem (List.mem_reverse.mpr hb)
      obtain rfl : v = l.reverse ++ b :: r.reverse := by
        rw [← List.reverse_reverse v, hl]
        simp
      exact ⟨u ++ (b :: l.reverse), r.reverse, by simp, fun h => hr (List.mem_reverse.mp h)⟩
    · exact ⟨u, v, rfl, hb⟩

end Loose

/-- A number of marks that `b` alone does not have, and that is not changed by separating with
`x`. -/
structure Marks (b x : α) (f : List α → ℕ) : Prop where
  nil : f [] = 0
  alone : f [b] = 0
  append_le (u v : List α) : f u + f v ≤ f (u ++ v)
  separated (u v : List α) : f (u ++ x :: v) = f u + f v

section Marks

variable {b x : α} {f : List α → ℕ} {ps : List (List α)} {t w : List α}

theorem Marks.infix_le (hf : Marks b x f) (h : w <:+: t) : f w ≤ f t := by
  obtain ⟨u, v, rfl⟩ := h
  have h₁ := hf.append_le u w
  have h₂ := hf.append_le (u ++ w) v
  omega

theorem Marks.inOrder_le (hf : Marks b x f) (h : InOrder ps t) : (ps.map f).sum ≤ f t := by
  induction ps generalizing t with
  | nil => exact Nat.zero_le _
  | cons p ps ih =>
    obtain ⟨u, v, rfl, hv⟩ := h
    have h₁ := hf.append_le u (p ++ v)
    have h₂ := hf.append_le p v
    have h₃ := ih hv
    rw [List.map_cons, List.sum_cons]
    omega

theorem Marks.flatMap_separated (hf : Marks b x f) (ps : List (List α)) :
    f (ps.flatMap (· ++ [x])) = (ps.map f).sum := by
  induction ps with
  | nil => exact hf.nil
  | cons p ps ih =>
    rw [List.flatMap_cons, List.append_assoc, List.singleton_append, hf.separated, ih]
    rfl

theorem Marks.before_many (hf : Marks b x f) (ps : List (List α)) (n : ℕ) :
    f (ps.flatMap (· ++ [x]) ++ (List.replicate n [b]).flatMap (· ++ [x])) = (ps.map f).sum := by
  rw [← List.flatMap_append, hf.flatMap_separated, List.map_append, List.sum_append,
    List.map_replicate, hf.alone, List.sum_replicate, smul_zero, add_zero]

theorem Marks.behind_many (hf : Marks b x f) (ps : List (List α)) (n : ℕ) :
    f ((List.replicate n [b]).flatMap (· ++ [x]) ++ ps.flatMap (· ++ [x])) = (ps.map f).sum := by
  rw [← List.flatMap_append, hf.flatMap_separated, List.map_append, List.sum_append,
    List.map_replicate, hf.alone, List.sum_replicate, smul_zero, zero_add]

variable [DecidableEq α]

theorem count_many (hx : x ≠ b) (n : ℕ) :
    ((List.replicate n [b]).flatMap (· ++ [x])).count b = n := by
  induction n with
  | zero => rfl
  | succ n ih =>
    rw [List.replicate_succ, List.flatMap_cons, List.count_append, ih]
    simp [hx]
    omega

theorem marks_count {a : α} (ha : b ≠ a) (hx : x ≠ a) : Marks b x (List.count a) where
  nil := rfl
  alone := by simp [ha]
  append_le u v := by rw [List.count_append]
  separated u v := by rw [List.count_append, List.count_cons_of_ne hx]

def doubles (b : α) : List α → ℕ
  | [] => 0
  | c :: t => (if c = b ∧ t.head? = some b then 1 else 0) + doubles b t

theorem marks_doubles (hx : x ≠ b) : Marks b x (doubles b) where
  nil := rfl
  alone := by simp [doubles]
  append_le u v := by
    induction u with
    | nil => simp [doubles]
    | cons c u ih =>
      have hhead : c = b ∧ u.head? = some b → c = b ∧ (u ++ v).head? = some b := by
        rintro ⟨hc, hu⟩
        exact ⟨hc, by rw [List.head?_append, hu, Option.some_or]⟩
      rw [List.cons_append, doubles, doubles]
      split_ifs with h₁ h₂
      · omega
      · exact absurd (hhead h₁) h₂
      · omega
      · omega
  separated u v := by
    induction u with
    | nil => simp [doubles, hx]
    | cons c u ih =>
      have hhead : (u ++ x :: v).head? = some b ↔ u.head? = some b := by
        cases u with
        | nil => simp [hx]
        | cons d u => simp
      rw [List.cons_append, doubles, doubles, ih]
      simp only [hhead]
      omega

theorem exists_marks {p : List α} (h : ¬ Loose b p) :
    ∃ a, ∀ x, x ≠ a → x ≠ b → ∃ f, Marks b x f ∧ 0 < f p := by
  obtain ⟨hnil, halone⟩ := not_or.mp h
  by_cases hp : ∀ c ∈ p, c = b
  · refine ⟨b, fun x hx _ => ⟨doubles b, marks_doubles hx, ?_⟩⟩
    match p with
    | [] => exact absurd rfl hnil
    | [c] => exact absurd (by rw [hp c List.mem_cons_self]) halone
    | c :: d :: t =>
      obtain ⟨rfl, hd⟩ := List.forall_mem_cons.mp hp
      obtain rfl : d = c := hd d List.mem_cons_self
      simp [doubles]
  · simp only [not_forall] at hp
    obtain ⟨a, ha, hab⟩ := hp
    exact ⟨a, fun x hx _ => ⟨List.count a, marks_count (Ne.symm hab) hx, List.count_pos_iff.mpr ha⟩⟩

end Marks

/-! ### When the search is as good -/

section Search

variable {dot : α → Prop} {ts : List (Token α)} {text : List α}

theorem occurs_of_inOrder_all (hdot : ∀ a, dot a)
    (h : InOrder ((pieces ts).map literals) text) : Occurs dot ts text := by
  induction ts using pieces_induction generalizing text with
  | last ts hts =>
    rw [pieces_of_no_gap hts] at h
    obtain ⟨u, v, rfl, -⟩ := h
    exact ⟨u, literals ts, v, rfl, matches_literals ts⟩
  | gap ts us hts ih =>
    rw [pieces_gap hts] at h
    obtain ⟨u, v, rfl, hv⟩ := h
    obtain ⟨u', w, v', rfl, hw⟩ := ih hv
    -- the gap stands for what was skipped
    refine ⟨u, literals ts ++ (u' ++ w), v', by simp, ?_⟩
    exact matches_append.mpr ⟨_, _, rfl, matches_literals ts,
      matches_gap.mpr ⟨u', w, rfl, fun a _ => hdot a, hw⟩⟩

theorem matches_of_loose {b : α} (hloose : ∀ p ∈ (pieces ts).map literals, Loose b p)
    (h : InOrder ((pieces ts).map literals) text) :
    ∃ g w v, text = g ++ (w ++ v) ∧ b ∉ g ∧ Matches (anyBut (some b)) ts w := by
  induction ts using pieces_induction generalizing text with
  | last ts hts =>
    rw [pieces_of_no_gap hts] at hloose h
    obtain ⟨g, v, rfl, hg⟩ := first_of_loose (hloose _ List.mem_cons_self) h
    exact ⟨g, _, v, rfl, hg.1, matches_literals ts⟩
  | gap ts us hts ih =>
    rw [pieces_gap hts] at hloose h
    obtain ⟨hfirst, hloose⟩ := List.forall_mem_cons.mp hloose
    obtain ⟨g, v, rfl, hg, hv⟩ := first_of_loose hfirst h
    obtain ⟨g', w, v', rfl, hg', hw⟩ := ih hloose hv
    refine ⟨g, literals ts ++ (g' ++ w), v', by simp, hg, ?_⟩
    exact matches_append.mpr ⟨_, _, rfl, matches_literals ts,
      matches_gap.mpr ⟨g', w, rfl, anyBut_of_notMem hg', hw⟩⟩

theorem occurs_of_inOrder_some {b : α}
    (hpair : ((pieces ts).map literals).Pairwise fun p q => Loose b p ∨ Loose b q)
    (h : InOrder ((pieces ts).map literals) text) : Occurs (anyBut (some b)) ts text := by
  induction ts using pieces_induction generalizing text with
  | last ts hts =>
    rw [pieces_of_no_gap hts] at h
    obtain ⟨u, v, rfl, -⟩ := h
    exact ⟨u, literals ts, v, rfl, matches_literals ts⟩
  | gap ts us hts ih =>
    rw [pieces_gap hts] at hpair h
    obtain ⟨hfirst, hpair⟩ := List.pairwise_cons.mp hpair
    obtain ⟨u, v, rfl, hv⟩ := h
    by_cases hloose : Loose b (literals ts)
    · -- the match of the rest is extended to the left, to the last character that is excluded
      obtain ⟨u', w, v', rfl, hw⟩ := ih hpair hv
      obtain ⟨l, g, hlast, hg⟩ := last_of_loose hloose u u'
      refine ⟨l, literals ts ++ (g ++ w), v', ?_, ?_⟩
      · rw [← List.append_assoc (literals ts), ← List.append_assoc u, hlast]
        simp
      · exact matches_append.mpr ⟨_, _, rfl, matches_literals ts,
          matches_gap.mpr ⟨g, w, rfl, anyBut_of_notMem hg, hw⟩⟩
    · have hrest : ∀ p ∈ (pieces us).map literals, Loose b p :=
        fun p hp => (hfirst p hp).resolve_left hloose
      obtain ⟨g, w, v', rfl, hg, hw⟩ := matches_of_loose hrest hv
      refine ⟨u, literals ts ++ (g ++ w), v', by simp, ?_⟩
      exact matches_append.mpr ⟨_, _, rfl, matches_literals ts,
        matches_gap.mpr ⟨g, w, rfl, anyBut_of_notMem hg, hw⟩⟩

theorem inOrder_of_matches {w : List α} (htight : ∀ piece ∈ pieces ts, Tight piece)
    (h : Matches dot ts w) (v : List α) : InOrder ((pieces ts).map literals) (w ++ v) := by
  induction ts using pieces_induction generalizing w with
  | last ts hts =>
    rw [pieces_of_no_gap hts] at htight ⊢
    obtain ⟨a, b, rfl⟩ := infix_of_tight (htight ts List.mem_cons_self) hts h
    exact ⟨a, b ++ v, by simp, trivial⟩
  | gap ts us hts ih =>
    rw [pieces_gap hts] at htight ⊢
    obtain ⟨htight_ts, htight⟩ := List.forall_mem_cons.mp htight
    obtain ⟨w₁, w₂, rfl, h₁, h₂⟩ := matches_append.mp h
    obtain ⟨g, w₃, rfl, -, h₃⟩ := matches_gap.mp h₂
    obtain ⟨a, b, rfl⟩ := infix_of_tight htight_ts hts h₁
    exact ⟨a, b ++ (g ++ (w₃ ++ v)), by simp, ((ih htight h₃).append_left g).append_left b⟩

theorem inOrder_of_occurs (htight : ∀ piece ∈ pieces ts, Tight piece) (h : Occurs dot ts text) :
    InOrder ((pieces ts).map literals) text := by
  obtain ⟨u, w, v, rfl, hw⟩ := h
  exact (inOrder_of_matches htight hw v).append_left u

theorem tight_of_search {dot : α → Prop} (hrich : ∀ a b, ∃ x, dot x ∧ x ≠ a ∧ x ≠ b)
    (h : ∀ text, Occurs dot ts text → InOrder ((pieces ts).map literals) text) :
    ∀ piece ∈ pieces ts, Tight piece := by
  rintro _ hpiece before after rfl
  by_contra hnot
  obtain ⟨hbefore, hafter⟩ := not_or.mp hnot
  obtain ⟨as, bs, us, vs, hpieces, hts, has, hbs⟩ := exists_around hpiece
  obtain ⟨l, a, hl⟩ := (List.eq_nil_or_concat (literals before)).resolve_left hbefore
  obtain ⟨b, r, hr⟩ := List.exists_cons_of_ne_nil hafter
  obtain ⟨x, hx, hxa, hxb⟩ := hrich a b
  have hmatch : Matches dot ts
      (literals us ++ ((literals before ++ x :: literals after) ++ literals vs)) := by
    rw [hts]
    refine matches_append.mpr ⟨_, _, rfl, matches_literals us, ?_⟩
    refine matches_append.mpr ⟨_, _, rfl, ?_, matches_literals vs⟩
    exact matches_append.mpr ⟨_, _, rfl, matches_literals before, .take hx (matches_literals after)⟩
  have horder := h _ ⟨[], _, [], by rw [List.append_nil, List.nil_append], hmatch⟩
  rw [hpieces, List.map_append, List.map_cons, literals_append, literals_optional, has, hbs, hl,
    List.concat_eq_append, hr] at horder
  exact not_inOrder_inside hxa hxb horder

theorem infix_outer {l m r w : List α} (h : w <:+: l ++ (m ++ r)) (hm : ¬ m <:+: w) :
    w <:+: l ++ m ∨ w <:+: m ++ r := by
  obtain ⟨u, v, heq⟩ := h
  rw [List.append_assoc] at heq
  rcases List.append_eq_append_iff.mp heq with ⟨k, rfl, hk⟩ | ⟨k, rfl, hk⟩
  · rw [← List.append_assoc] at hk
    rcases List.append_eq_append_iff.mp hk with ⟨j, hj, -⟩ | ⟨j, rfl, -⟩
    · refine .inl ⟨u, j, ?_⟩
      rw [List.append_assoc, List.append_assoc, ← hj]
    · exact absurd ⟨k, j, rfl⟩ hm
  · exact .inr ⟨k, v, by rw [hk, List.append_assoc]⟩

theorem exists_pair {R : List α → List α → Prop} {ps : List (List α)} (h : ¬ ps.Pairwise R) :
    ∃ before after p q, ps = before ++ after ∧ p ∈ before ∧ q ∈ after ∧ ¬ R p q := by
  induction ps with
  | nil => exact absurd List.Pairwise.nil h
  | cons p ps ih =>
    by_cases hp : ∀ q ∈ ps, R p q
    · obtain ⟨before, after, p', q, rfl, hp', hq, hR⟩ :=
        ih fun hps => h (List.pairwise_cons.mpr ⟨hp, hps⟩)
      exact ⟨p :: before, after, p', q, rfl, List.mem_cons_of_mem p hp', hq, hR⟩
    · simp only [not_forall] at hp
      obtain ⟨q, hq, hR⟩ := hp
      exact ⟨[p], ps, p, q, rfl, List.mem_cons_self, hq, hR⟩

theorem pairwise_of_search [DecidableEq α] {b : α} (hrich : ∀ a c, ∃ x, x ≠ a ∧ x ≠ c ∧ x ≠ b)
    (htight : ∀ piece ∈ pieces ts, Tight piece)
    (h : ∀ text, InOrder ((pieces ts).map literals) text → Occurs (anyBut (some b)) ts text) :
    ((pieces ts).map literals).Pairwise fun p q => Loose b p ∨ Loose b q := by
  by_contra hnot
  obtain ⟨before, after, p, q, hsplit, hp, hq, hpq⟩ := exists_pair hnot
  obtain ⟨hp', hq'⟩ := not_or.mp hpq
  obtain ⟨a, ha⟩ := exists_marks hp'
  obtain ⟨c, hc⟩ := exists_marks hq'
  obtain ⟨x, hxa, hxc, hxb⟩ := hrich a c
  obtain ⟨f, hf, hfp⟩ := ha x hxa hxb
  obtain ⟨g, hg, hgq⟩ := hc x hxc hxb
  let many := (List.replicate ((literals ts).count b + 1) [b]).flatMap (· ++ [x])
  have horder : InOrder ((pieces ts).map literals)
      (before.flatMap (· ++ [x]) ++ (many ++ after.flatMap (· ++ [x]))) := by
    rw [hsplit]
    have hafter : InOrder (after ++ []) (after.flatMap (· ++ [x]) ++ []) :=
      inOrder_append_separated x trivial
    rw [List.append_nil, List.append_nil] at hafter
    exact inOrder_append_separated x (hafter.append_left many)
  obtain ⟨u, w, v, htext, hw⟩ := h _ horder
  have hmany : ¬ many <:+: w := by
    intro hinfix
    have hle := hinfix.sublist.count_le b
    rw [hw.count_eq fun hb => hb rfl] at hle
    have hcount : many.count b = (literals ts).count b + 1 := count_many hxb _
    omega
  have hinfix : w <:+: before.flatMap (· ++ [x]) ++ (many ++ after.flatMap (· ++ [x])) :=
    ⟨u, v, by rw [htext, List.append_assoc]⟩
  have hwin := inOrder_of_matches htight hw []
  rw [List.append_nil, hsplit] at hwin
  rcases infix_outer hinfix hmany with hinfix | hinfix
  · have hin := hg.inOrder_le hwin
    have hle := hg.infix_le hinfix
    have hpos := List.le_sum_of_mem (List.mem_map_of_mem hq (f := g))
    rw [hg.before_many] at hle
    rw [List.map_append, List.sum_append] at hin
    omega
  · have hin := hf.inOrder_le hwin
    have hle := hf.infix_le hinfix
    have hpos := List.le_sum_of_mem (List.mem_map_of_mem hp (f := f))
    rw [hf.behind_many] at hle
    rw [List.map_append, List.sum_append] at hin
    omega

/-- **The search for the literals of each piece finds the occurrences of exactly these
patterns.** -/
theorem exact_iff [DecidableEq α] (hrich : ∀ a b c : α, ∃ x, x ≠ a ∧ x ≠ b ∧ x ≠ c)
    (excluded : Option α) (ts : List (Token α)) :
    (∀ text, InOrder ((pieces ts).map literals) text ↔ Occurs (anyBut excluded) ts text) ↔
      Exact excluded ts := by
  have hdot : ∀ a b, ∃ x, anyBut excluded x ∧ x ≠ a ∧ x ≠ b := by
    intro a b
    cases excluded with
    | none =>
      obtain ⟨x, hxa, hxb, -⟩ := hrich a b b
      exact ⟨x, Option.some_ne_none x |>.symm, hxa, hxb⟩
    | some c =>
      obtain ⟨x, hxa, hxb, hxc⟩ := hrich a b c
      exact ⟨x, fun h => hxc (Option.some.inj h).symm, hxa, hxb⟩
  constructor
  · intro h
    have htight := tight_of_search hdot fun text => (h text).mpr
    refine ⟨htight, ?_⟩
    rintro b rfl
    exact pairwise_of_search (fun a c => hrich a c b) htight fun text => (h text).mp
  · rintro ⟨htight, hpair⟩ text
    refine ⟨fun h => ?_, inOrder_of_occurs htight⟩
    cases excluded with
    | none => exact occurs_of_inOrder_all (fun a => (Option.some_ne_none a).symm) h
    | some b => exact occurs_of_inOrder_some (hpair b rfl) h

end Search

end Mowis.Lib.Wildcard
