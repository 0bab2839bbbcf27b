import Mowis.Lib.Text

/-!
# Replacing

`replaceAll pat new t` writes `new` for every occurrence of `pat` in a list, from left to right.
An empty pattern occurs before every element and at the end.
-/

namespace Mowis.Lib

variable {α : Type*}

theorem prefix_append_cons {c : α} {pat : List α} (hc : c ∉ pat) {x y : List α}
    (h : pat <+: x ++ c :: y) : pat <+: x := by
  have hx : x ++ [c] <+: x ++ c :: y := ⟨y, List.append_assoc x [c] y⟩
  obtain hle | hle := List.prefix_or_prefix_of_prefix h hx
  · obtain heq | hle := List.prefix_concat_iff.mp hle
    · exact absurd (heq ▸ List.mem_append_right x List.mem_cons_self) hc
    · exact hle
  · exact absurd (hle.subset (List.mem_append_right x List.mem_cons_self)) hc

theorem infix_append_cons {c : α} {pat : List α} (hc : c ∉ pat) (x y : List α) :
    pat <:+: x ++ c :: y ↔ pat <:+: x ∨ pat <:+: y := by
  constructor
  · intro h
    induction x with
    | nil =>
      obtain hpre | h := List.infix_cons_iff.mp h
      · have hnil : pat <+: [] := prefix_append_cons hc hpre
        exact .inl hnil.isInfix
      · exact .inr h
    | cons d x ih =>
      obtain hpre | h := List.infix_cons_iff.mp h
      · exact .inl (prefix_append_cons (x := d :: x) hc hpre).isInfix
      · exact (ih h).imp_left fun hx => List.infix_cons hx
  · intro h
    obtain h | h := h
    · exact h.trans (List.prefix_append x _).isInfix
    · exact h.trans ((List.suffix_cons c y).trans (List.suffix_append x _)).isInfix

theorem infix_append_of_notMem {p : α} {ps x : List α} (hp : p ∉ x) (y : List α) :
    p :: ps <:+: x ++ y ↔ p :: ps <:+: y := by
  induction x with
  | nil => rfl
  | cons d x ih =>
    rw [List.mem_cons, not_or] at hp
    rw [List.cons_append, List.infix_cons_iff, ih hp.2]
    exact or_iff_right fun hpre => hp.1 (List.cons_prefix_cons.mp hpre).1

section

variable {pat : List α}

variable (pat) in
def Clear : List α → Prop
  | [] => True
  | c :: t => ¬ pat <+: c :: t ∧ ¬ c :: t <+: pat ∧ Clear t

theorem Clear.not_prefix {c : α} {t : List α} (h : Clear pat (c :: t)) (x : List α) :
    ¬ pat <+: c :: t ++ x := by
  intro hpre
  obtain hle | hle := List.prefix_or_prefix_of_prefix hpre (List.prefix_append (c :: t) x)
  · exact h.1 hle
  · exact h.2.1 hle

theorem clear_cons_ne {p c : α} {ps t : List α} (hc : p ≠ c) (h : Clear (p :: ps) t) :
    Clear (p :: ps) (c :: t) :=
  ⟨fun hpre => hc (List.cons_prefix_cons.mp hpre).1,
    fun hpre => hc (List.cons_prefix_cons.mp hpre).1.symm, h⟩

theorem clear_cons_cons_ne {p q c : α} {ps t : List α} (hc : q ≠ c)
    (h : Clear (p :: q :: ps) (c :: t)) : Clear (p :: q :: ps) (p :: c :: t) :=
  ⟨fun hpre => hc (List.cons_prefix_cons.mp (List.cons_prefix_cons.mp hpre).2).1,
    fun hpre => hc (List.cons_prefix_cons.mp (List.cons_prefix_cons.mp hpre).2).1.symm, h⟩

theorem clear_append_of_notMem {p : α} {ps s t : List α} (hs : p ∉ s) (h : Clear (p :: ps) t) :
    Clear (p :: ps) (s ++ t) := by
  induction s with
  | nil => exact h
  | cons c s ih =>
    rw [List.mem_cons, not_or] at hs
    exact clear_cons_ne hs.1 (ih hs.2)

theorem clear_of_notMem {p : α} {ps t : List α} (h : p ∉ t) : Clear (p :: ps) t := by
  have hnil : Clear (p :: ps) [] := trivial
  have hall := clear_append_of_notMem h hnil
  rwa [List.append_nil] at hall

theorem Clear.append {t : List α} (h : Clear pat t) (x : List α) : Clear (pat ++ x) t := by
  induction t with
  | nil => trivial
  | cons c t ih =>
    refine ⟨fun hpre => h.1 ((List.prefix_append pat x).trans hpre), fun hpre => ?_, ih h.2.2⟩
    obtain hle | hle := List.prefix_or_prefix_of_prefix hpre (List.prefix_append pat x)
    · exact h.2.1 hle
    · exact h.1 hle

end

section

variable [DecidableEq α]

/-- The loop: `skip` elements of an occurrence are still to be passed over. -/
def replaceFrom (pat new : List α) : ℕ → List α → List α
  | _, [] => []
  | skip + 1, _ :: t => replaceFrom pat new skip t
  | 0, c :: t =>
    if pat <+: c :: t then new ++ replaceFrom pat new (pat.length - 1) t
    else c :: replaceFrom pat new 0 t

def replaceAll (pat new t : List α) : List α :=
  if pat = [] then new ++ t.flatMap (· :: new) else replaceFrom pat new 0 t

theorem replaceFrom_eq_drop (pat new : List α) (skip : ℕ) (t : List α) :
    replaceFrom pat new skip t = replaceFrom pat new 0 (t.drop skip) := by
  induction t generalizing skip with
  | nil =>
    rw [List.drop_nil]
    cases skip <;> rfl
  | cons c t ih =>
    cases skip with
    | zero => rfl
    | succ skip =>
      show replaceFrom pat new skip t = _
      rw [ih, List.drop_succ_cons]

variable {pat new : List α}

theorem replaceAll_nil (hpat : pat ≠ []) : replaceAll pat new [] = [] := if_neg hpat

theorem replaceAll_append_pattern (hpat : pat ≠ []) (t : List α) :
    replaceAll pat new (pat ++ t) = new ++ replaceAll pat new t := by
  obtain ⟨c, p, rfl⟩ := List.exists_cons_of_ne_nil hpat
  have hstep : replaceFrom (c :: p) new 0 (c :: (p ++ t)) =
      new ++ replaceFrom (c :: p) new ((c :: p).length - 1) (p ++ t) :=
    if_pos (List.prefix_append (c :: p) t)
  rw [replaceAll, replaceAll, if_neg hpat, if_neg hpat, List.cons_append, hstep,
    replaceFrom_eq_drop, List.length_cons, Nat.add_sub_cancel, List.drop_left]

theorem replaceAll_cons {c : α} {t : List α} (hpat : pat ≠ []) (h : ¬ pat <+: c :: t) :
    replaceAll pat new (c :: t) = c :: replaceAll pat new t := by
  rw [replaceAll, replaceAll, if_neg hpat, if_neg hpat]
  exact if_neg h

theorem replace_induction {P : List α → Prop} (hpat : pat ≠ []) (nil : P [])
    (pattern : ∀ t, P t → P (pat ++ t)) (cons : ∀ c t, ¬ pat <+: c :: t → P t → P (c :: t))
    (t : List α) : P t := by
  induction h : t.length using Nat.strong_induction_on generalizing t with
  | _ n ih =>
    cases t with
    | nil => exact nil
    | cons c t =>
      by_cases hpre : pat <+: c :: t
      · obtain ⟨u, hu⟩ := hpre
        have hpos := List.length_pos_iff.mpr hpat
        rw [← hu] at h ⊢
        refine pattern u (ih u.length ?_ u rfl)
        rw [List.length_append] at h
        omega
      · refine cons c t hpre (ih t.length ?_ t rfl)
        rw [List.length_cons] at h
        omega

theorem replaceAll_eq_self {t : List α} (hpat : pat ≠ []) (h : ¬ pat <:+: t) :
    replaceAll pat new t = t := by
  induction t with
  | nil => exact replaceAll_nil hpat
  | cons c t ih =>
    rw [List.infix_cons_iff, not_or] at h
    rw [replaceAll_cons hpat h.1, ih h.2]

theorem mem_replaceAll {c : α} {t : List α} (h : c ∈ replaceAll pat new t) : c ∈ new ∨ c ∈ t := by
  by_cases hpat : pat = []
  · rw [replaceAll, if_pos hpat, List.mem_append, List.mem_flatMap] at h
    obtain h | ⟨d, hd, h⟩ := h
    · exact .inl h
    · obtain h | h := List.mem_cons.mp h
      · exact .inr (h ▸ hd)
      · exact .inl h
  · induction t using replace_induction hpat with
    | nil =>
      rw [replaceAll_nil hpat] at h
      exact .inr h
    | pattern t ih =>
      rw [replaceAll_append_pattern hpat, List.mem_append] at h
      obtain h | h := h
      · exact .inl h
      · exact (ih h).imp_right (List.mem_append_right pat)
    | cons d t hno ih =>
      rw [replaceAll_cons hpat hno, List.mem_cons] at h
      obtain h | h := h
      · exact .inr (List.mem_cons.mpr (.inl h))
      · exact (ih h).imp_right (List.mem_cons_of_mem d)

theorem replaceAll_self (hpat : pat ≠ []) (t : List α) : replaceAll pat pat t = t := by
  induction t using replace_induction hpat with
  | nil => exact replaceAll_nil hpat
  | pattern t ih => rw [replaceAll_append_pattern hpat, ih]
  | cons c t hno ih => rw [replaceAll_cons hpat hno, ih]

def weight (w : α → ℕ) (t : List α) : ℕ := (t.map w).sum

omit [DecidableEq α] in
theorem weight_append (w : α → ℕ) (s t : List α) : weight w (s ++ t) = weight w s + weight w t := by
  rw [weight, List.map_append, List.sum_append]
  rfl

omit [DecidableEq α] in
theorem weight_cons (w : α → ℕ) (c : α) (t : List α) : weight w (c :: t) = w c + weight w t :=
  weight_append w [c] t

variable {w : α → ℕ}

theorem weight_replaceAll_le (hpat : pat ≠ []) (hw : weight w new ≤ weight w pat) (t : List α) :
    weight w (replaceAll pat new t) ≤ weight w t := by
  induction t using replace_induction hpat with
  | nil => rw [replaceAll_nil hpat]
  | pattern t ih =>
    rw [replaceAll_append_pattern hpat, weight_append, weight_append]
    omega
  | cons c t hno ih =>
    rw [replaceAll_cons hpat hno, weight_cons, weight_cons]
    omega

theorem weight_replaceAll_lt (hpat : pat ≠ []) (hw : weight w new < weight w pat) {t : List α}
    (h : pat <:+: t) : weight w (replaceAll pat new t) < weight w t := by
  induction t using replace_induction hpat with
  | nil => exact absurd (List.infix_nil.mp h) hpat
  | pattern t ih =>
    have hle := weight_replaceAll_le hpat hw.le t
    rw [replaceAll_append_pattern hpat, weight_append, weight_append]
    omega
  | cons c t hno ih =>
    have hlt := ih ((List.infix_cons_iff.mp h).resolve_left hno)
    rw [replaceAll_cons hpat hno, weight_cons, weight_cons]
    omega

theorem replaceAll_clear {t : List α} (hpat : pat ≠ []) (h : Clear pat t) (x : List α) :
    replaceAll pat new (t ++ x) = t ++ replaceAll pat new x := by
  induction t with
  | nil => rfl
  | cons c t ih =>
    have hno : ¬ pat <+: c :: (t ++ x) := h.not_prefix x
    rw [List.cons_append, replaceAll_cons hpat hno, ih h.2.2, List.cons_append]

theorem replaceAll_of_notMem {p : α} {ps t : List α} (h : p ∉ t) (x : List α) :
    replaceAll (p :: ps) new (t ++ x) = t ++ replaceAll (p :: ps) new x :=
  replaceAll_clear (List.cons_ne_nil p ps) (clear_of_notMem h) x

theorem prefix_replaceAll {sep : α} {pre t : List α} (hpre : sep ∉ pre)
    (hpat : (∃ ps, pat = sep :: ps) ∨ ∃ k ps ns, pat = k :: sep :: ps ∧ new = k :: ns)
    (h : pre <+: t) : pre <+: replaceAll pat new t := by
  obtain ⟨ps, rfl⟩ | ⟨k, ps, ns, rfl, rfl⟩ := hpat
  · obtain ⟨x, rfl⟩ := h
    rw [replaceAll_of_notMem hpre]
    exact List.prefix_append pre _
  · have hne : k :: sep :: ps ≠ [] := List.cons_ne_nil k _
    induction pre generalizing t with
    | nil => exact List.nil_prefix
    | cons c pre ih =>
      rw [List.mem_cons, not_or] at hpre
      obtain ⟨x, rfl⟩ := h
      by_cases hocc : k :: sep :: ps <+: c :: pre ++ x
      · -- the separator is next, so the prefix ends here
        obtain ⟨hk, hnext⟩ := List.cons_prefix_cons.mp hocc
        have hnil : pre = [] := by
          cases pre with
          | nil => rfl
          | cons d pre =>
            have hd := (List.cons_prefix_cons.mp hnext).1
            exact absurd (List.mem_cons.mpr (.inl hd)) hpre.2
        obtain ⟨u, hu⟩ := hocc
        rw [← hu, replaceAll_append_pattern hne, hnil, ← hk]
        exact List.prefix_append [k] _
      · rw [List.cons_append] at hocc ⊢
        rw [replaceAll_cons hne hocc]
        exact List.cons_prefix_cons.mpr ⟨rfl, ih hpre.2 (List.prefix_append pre x)⟩

def replaceEach (rs : List (List α × List α)) (t : List α) : List α :=
  rs.foldl (fun t r => replaceAll r.1 r.2 t) t

def Lighter (w : α → ℕ) (rs : List (List α × List α)) : Prop :=
  ∀ r ∈ rs, r.1 ≠ [] ∧ (r.1 = r.2 ∨ weight w r.2 < weight w r.1)

theorem weight_replaceEach_le {rs : List (List α × List α)} (hrs : Lighter w rs) (t : List α) :
    weight w (replaceEach rs t) ≤ weight w t := by
  induction rs generalizing t with
  | nil => exact le_rfl
  | cons r rs ih =>
    obtain ⟨hpat, hw⟩ := hrs r List.mem_cons_self
    have hle : weight w r.2 ≤ weight w r.1 := by
      obtain heq | hlt := hw
      · rw [heq]
      · exact hlt.le
    have hstep := weight_replaceAll_le hpat hle t
    have hrest := ih (fun r hr => hrs r (List.mem_cons_of_mem _ hr)) (replaceAll r.1 r.2 t)
    exact hrest.trans hstep

theorem not_infix_of_weight {rs : List (List α × List α)} (hrs : Lighter w rs) {t : List α}
    (h : weight w t ≤ weight w (replaceEach rs t)) : ∀ r ∈ rs, r.1 = r.2 ∨ ¬ r.1 <:+: t := by
  induction rs with
  | nil => exact fun r hr => absurd hr List.not_mem_nil
  | cons r rs ih =>
    have hrest : Lighter w rs := fun r hr => hrs r (List.mem_cons_of_mem _ hr)
    obtain ⟨hpat, hw⟩ := hrs r List.mem_cons_self
    have hle := weight_replaceEach_le hrest (replaceAll r.1 r.2 t)
    have hno : r.1 = r.2 ∨ ¬ r.1 <:+: t := by
      obtain heq | hlt := hw
      · exact .inl heq
      · refine .inr fun hocc => ?_
        have hlight := weight_replaceAll_lt hpat hlt hocc
        have h : weight w t ≤ weight w (replaceEach rs (replaceAll r.1 r.2 t)) := h
        omega
    have hsame : replaceAll r.1 r.2 t = t := by
      obtain heq | hocc := hno
      · rw [← heq, replaceAll_self hpat]
      · exact replaceAll_eq_self hpat hocc
    have h : weight w t ≤ weight w (replaceEach rs (replaceAll r.1 r.2 t)) := h
    rw [hsame] at h
    exact List.forall_mem_cons.mpr ⟨hno, ih hrest h⟩

theorem replaceEach_eq_self {rs : List (List α × List α)} {t : List α}
    (h : ∀ r ∈ rs, r.1 ≠ [] ∧ (r.1 = r.2 ∨ ¬ r.1 <:+: t)) : replaceEach rs t = t := by
  induction rs with
  | nil => rfl
  | cons r rs ih =>
    obtain ⟨hpat, hno⟩ := h r List.mem_cons_self
    have hsame : replaceAll r.1 r.2 t = t := by
      obtain heq | hocc := hno
      · rw [← heq, replaceAll_self hpat]
      · exact replaceAll_eq_self hpat hocc
    show replaceEach rs (replaceAll r.1 r.2 t) = t
    rw [hsame]
    exact ih fun r hr => h r (List.mem_cons_of_mem _ hr)

theorem mem_replaceEach {rs : List (List α × List α)} {c : α} {t : List α}
    (h : c ∈ replaceEach rs t) : c ∈ t ∨ ∃ r ∈ rs, c ∈ r.2 := by
  induction rs generalizing t with
  | nil => exact .inl h
  | cons r rs ih =>
    obtain h | ⟨r', hr', h⟩ := ih h
    · obtain h | h := mem_replaceAll h
      · exact .inr ⟨r, List.mem_cons_self, h⟩
      · exact .inl h
    · exact .inr ⟨r', List.mem_cons_of_mem r hr', h⟩

theorem prefix_replaceEach {sep : α} {pre : List α} (hpre : sep ∉ pre)
    {rs : List (List α × List α)}
    (hrs : ∀ r ∈ rs, (∃ ps, r.1 = sep :: ps) ∨ ∃ k ps ns, r.1 = k :: sep :: ps ∧ r.2 = k :: ns)
    {t : List α} (h : pre <+: t) : pre <+: replaceEach rs t := by
  induction rs generalizing t with
  | nil => exact h
  | cons r rs ih =>
    exact ih (fun r hr => hrs r (List.mem_cons_of_mem _ hr))
      (prefix_replaceAll hpre (hrs r List.mem_cons_self) h)

end

end Mowis.Lib
