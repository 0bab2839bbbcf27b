import Mowis.Lib.Text

/-!
# Markers in a text

* `splitFirst_put` — a marker is found where it was put, unless it begins before.
* `Unbordered` — no end of the marker is a beginning of it; such a marker does not begin in a text
  that is free of it.
* `trim_around`, `trim_trimmed` — white space is trimmed on either side of what is none.
-/

namespace Mowis.Lib

theorem splitFirst_put {pat p : Text} (hpat : pat ≠ []) (hp : ¬ pat <:+: p ++ pat.dropLast)
    (rest : Text) : splitFirst pat (p ++ (pat ++ rest)) = some (p, rest) := by
  induction p with
  | nil =>
    obtain ⟨c, cs, rfl⟩ := List.exists_cons_of_ne_nil hpat
    rw [List.nil_append, List.cons_append, splitFirst, if_pos]
    · rw [← List.cons_append, List.drop_left]
    · rw [← List.cons_append]
      exact List.prefix_append _ _
  | cons x p ih =>
    rw [List.cons_append, List.infix_cons_iff, not_or] at hp
    have hno : ¬ pat <+: x :: (p ++ (pat ++ rest)) := by
      intro hpre
      -- the occurrence ends before the marker that was put there does
      have hlong : x :: (p ++ pat.dropLast) <+: x :: (p ++ (pat ++ rest)) :=
        List.cons_prefix_cons.mpr ⟨rfl, (List.prefix_append_right_inj p).mpr
          ((List.dropLast_prefix pat).trans (List.prefix_append _ _))⟩
      refine hp.1 (List.prefix_of_prefix_length_le hpre hlong ?_)
      have hpos := List.length_pos_iff.mpr hpat
      simp only [List.length_cons, List.length_append, List.length_dropLast]
      omega
    rw [List.cons_append, splitFirst, if_neg hno, ih hp.2]
    rfl

/-- No end of the marker, short of the whole, is a beginning of it. -/
def Unbordered (pat : Text) : Prop := ∀ s ∈ pat.tail.tails, s = [] ∨ ¬ s <+: pat

instance (pat : Text) : Decidable (Unbordered pat) :=
  inferInstanceAs (Decidable (∀ s ∈ pat.tail.tails, s = [] ∨ ¬ s <+: pat))

theorem Unbordered.not_infix {pat p : Text} (hpat : Unbordered pat) (hp : ¬ pat <:+: p) :
    ¬ pat <:+: p ++ pat.dropLast := by
  intro h
  rcases List.infix_append_iff_ne_nil.mp h with h | h | ⟨s, t, hs, ht, hst, -, htp⟩
  · exact hp h
  · have hlen := h.length_le
    rw [List.length_dropLast] at hlen
    have hnil : pat = [] := List.eq_nil_of_length_eq_zero (by omega)
    rw [hnil] at hp
    exact hp (List.nil_infix)
  · obtain ⟨c, s, rfl⟩ := List.exists_cons_of_ne_nil hs
    have hend : t ∈ pat.tail.tails := by
      rw [List.mem_tails, hst]
      exact List.suffix_append s t
    rcases hpat t hend with hnil | hno
    · exact ht hnil
    · exact hno (htp.trans (List.dropLast_prefix pat))

theorem splitFirst_unbordered {pat p : Text} (hne : pat ≠ []) (hpat : Unbordered pat)
    (hp : ¬ pat <:+: p) (rest : Text) : splitFirst pat (p ++ (pat ++ rest)) = some (p, rest) :=
  splitFirst_put hne (hpat.not_infix hp) rest

theorem dropWhile_append_of_head {p : Char → Bool} (a : Text) {m : Text} {c : Char}
    (hc : m.head? = some c) (hp : p c = false) :
    (a ++ m).dropWhile p = a.dropWhile p ++ m := by
  induction a with
  | nil =>
    obtain ⟨m', rfl⟩ := List.head?_eq_some_iff.mp hc
    rw [List.nil_append, List.dropWhile_cons_of_neg (by simp [hp])]
    rfl
  | cons x a ih =>
    rw [List.cons_append]
    by_cases hx : p x = true
    · rw [List.dropWhile_cons_of_pos hx, List.dropWhile_cons_of_pos hx, ih]
    · rw [List.dropWhile_cons_of_neg hx, List.dropWhile_cons_of_neg hx, List.cons_append]

theorem trimEnd_append_of_last {m : Text} (b : Text) {c : Char} (hc : m.getLast? = some c)
    (hp : isWhitespace c = false) : trimEnd (m ++ b) = m ++ trimEnd b := by
  rw [trimEnd, trimEnd, List.rdropWhile, List.reverse_append,
    dropWhile_append_of_head _ (c := c) (by rw [List.head?_reverse, hc]) hp, List.reverse_append,
    List.reverse_reverse]
  rfl

theorem trim_around (a b : Text) {m : Text} {c d : Char} (hc : m.head? = some c)
    (hd : m.getLast? = some d) (hc' : isWhitespace c = false) (hd' : isWhitespace d = false) :
    trim (a ++ (m ++ b)) = a.dropWhile isWhitespace ++ (m ++ trimEnd b) := by
  have hhead : (m ++ b).head? = some c := by
    rw [List.head?_append, hc]
    rfl
  have hlast : (a.dropWhile isWhitespace ++ m).getLast? = some d := by
    rw [List.getLast?_append, hd]
    rfl
  rw [trim, dropWhile_append_of_head a hhead hc', ← List.append_assoc,
    trimEnd_append_of_last b hlast hd', List.append_assoc]

theorem trimEnd_trimEnd (t : Text) : trimEnd (trimEnd t) = trimEnd t :=
  List.rdropWhile_idempotent isWhitespace t

theorem trimEnd_append_trimEnd (a b : Text) : trimEnd (a ++ trimEnd b) = trimEnd (a ++ b) := by
  induction b using List.reverseRecOn with
  | nil => rfl
  | append_singleton b c ih =>
    by_cases hc : isWhitespace c = true
    · have hdrop : ∀ t, trimEnd (t ++ [c]) = trimEnd t := fun t =>
        List.rdropWhile_concat_pos isWhitespace t c hc
      rw [hdrop, ih, ← List.append_assoc, hdrop]
    · have hkeep : ∀ t, trimEnd (t ++ [c]) = t ++ [c] := fun t =>
        List.rdropWhile_concat_neg isWhitespace t c hc
      rw [hkeep, ← List.append_assoc, hkeep]

theorem dropWhile_trimEnd (t : Text) :
    (trimEnd t).dropWhile isWhitespace = trimEnd (t.dropWhile isWhitespace) := by
  induction t using List.reverseRecOn with
  | nil => rfl
  | append_singleton t c ih =>
    by_cases hc : isWhitespace c = true
    · have hdrop : ∀ t, trimEnd (t ++ [c]) = trimEnd t := fun t =>
        List.rdropWhile_concat_pos isWhitespace t c hc
      rw [hdrop, ih, List.dropWhile_append]
      split
      · next hnil =>
        rw [List.isEmpty_iff.mp hnil, List.dropWhile_cons_of_pos hc]
        rfl
      · rw [hdrop]
    · have hkeep : ∀ t, trimEnd (t ++ [c]) = t ++ [c] := fun t =>
        List.rdropWhile_concat_neg isWhitespace t c hc
      rw [hkeep, dropWhile_append_of_head t (c := c) rfl (by simpa using hc), hkeep]

theorem trim_trim (t : Text) : trim (trim t) = trim t := by
  rw [trim, trim, dropWhile_trimEnd, trimEnd_trimEnd, List.dropWhile_idempotent]

theorem trim_trimmed (a b : Text) :
    trim (a.dropWhile isWhitespace ++ trimEnd b) = trim (a ++ b) := by
  induction a with
  | nil =>
    rw [List.dropWhile_nil, List.nil_append, List.nil_append, trim, dropWhile_trimEnd,
      trimEnd_trimEnd, trim]
  | cons x a ih =>
    by_cases hx : isWhitespace x = true
    · rw [List.dropWhile_cons_of_pos hx, ih, trim, trim, List.cons_append,
        List.dropWhile_cons_of_pos hx]
    · rw [List.dropWhile_cons_of_neg hx, trim, trim, List.cons_append, List.cons_append,
        List.dropWhile_cons_of_neg hx, List.dropWhile_cons_of_neg hx, ← List.cons_append,
        ← List.cons_append, trimEnd_append_trimEnd]

theorem trim_isInfix (t : Text) : trim t <:+: t :=
  (List.rdropWhile_prefix isWhitespace _).isInfix.trans (List.dropWhile_suffix _).isInfix

end Mowis.Lib
