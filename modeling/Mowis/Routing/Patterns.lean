import Mowis.Lib.Wildcard
import Mowis.Routing.Classify

/-!
# The patterns of the complexity classifier

`regex_contains` of `agentd/src/orchestration/complexity_classifier.rs` stands in for a regular
expression: it takes a pattern apart at every `.*`, drops every `.?`, and searches for what is left.
-/

namespace Mowis.Routing

open Mowis.Lib Mowis.Lib.Wildcard

/-- A pattern without other operators. -/
structure Pattern where
  tokens : List (Token Char)
  plain : '.' ∉ literals tokens

def renderToken : Token Char → Text
  | .literal c => [c]
  | .gap => ".*".toList
  | .optional => ".?".toList

def render (ts : List (Token Char)) : Text := ts.flatMap renderToken

theorem contains_iff (text pat : Text) : contains text pat = true ↔ pat <:+: text := by
  rw [contains, Option.isSome_iff_ne_none]
  by_cases hpat : pat = []
  · subst hpat
    cases text <;> simp [splitFirst]
  · rw [Ne, splitFirst_eq_none_iff hpat, not_not]

theorem suffix_of_splitFirst {pat t u v u' v' : Text} (h : splitFirst pat t = some (u, v))
    (h' : t = u' ++ (pat ++ v')) : v' <:+ v := by
  induction t generalizing u u' with
  | nil =>
    obtain ⟨-, hnil⟩ := List.append_eq_nil_iff.mp h'.symm
    rw [(List.append_eq_nil_iff.mp hnil).2]
    exact List.nil_suffix
  | cons c t ih =>
    rw [splitFirst] at h
    split at h
    · cases h
      rw [h', ← List.append_assoc]
      refine List.suffix_of_suffix_length_le (List.suffix_append _ _) (List.drop_suffix _ _) ?_
      simp only [List.length_drop, List.length_append]
      omega
    · next hpre =>
      obtain ⟨p, hp, he⟩ := Option.map_eq_some_iff.mp h
      cases he
      cases u' with
      | nil => exact absurd ⟨v', h'.symm⟩ hpre
      | cons d u' => exact ih (u := p.1) hp (List.cons.inj h').2

theorem partsInOrder_iff (parts : List Text) (text : Text) :
    partsInOrder parts text = true ↔ InOrder (parts.map (removeAll ".?".toList)) text := by
  induction parts generalizing text with
  | nil => simp [partsInOrder, InOrder]
  | cons part parts ih =>
    rw [partsInOrder, List.map_cons]
    split_ifs with hsub
    · rw [ih, hsub]
      constructor
      · intro h
        exact ⟨[], text, rfl, h⟩
      · rintro ⟨u, v, rfl, h⟩
        exact h.append_left u
    · cases hfirst : splitFirst (removeAll ".?".toList part) text with
      | none =>
        rw [splitFirst_eq_none_iff hsub] at hfirst
        refine iff_of_false Bool.false_ne_true ?_
        rintro ⟨u, v, rfl, -⟩
        exact hfirst ⟨u, v, List.append_assoc ..⟩
      | some uv =>
        obtain ⟨u, v⟩ := uv
        show partsInOrder parts v = true ↔ _
        rw [ih]
        constructor
        · intro h
          exact ⟨u, v, by rw [splitFirst_eq_some hfirst, List.append_assoc], h⟩
        · rintro ⟨u', v', h', h⟩
          obtain ⟨k, rfl⟩ := suffix_of_splitFirst hfirst h'
          exact h.append_left k

section Render

variable {ts us : List (Token Char)}

@[simp] theorem render_append (ts us : List (Token Char)) :
    render (ts ++ us) = render ts ++ render us := List.flatMap_append

@[simp] theorem render_cons (t : Token Char) (ts : List (Token Char)) :
    render (t :: ts) = renderToken t ++ render ts := List.flatMap_cons

theorem plain_append (h : '.' ∉ literals (ts ++ us)) : '.' ∉ literals ts ∧ '.' ∉ literals us := by
  rw [literals_append, List.mem_append] at h
  exact not_or.mp h

theorem infix_render_iff (h : '.' ∉ literals ts) (op : Char) :
    ['.', op] <:+: render ts ↔ op = '*' ∧ .gap ∈ ts ∨ op = '?' ∧ .optional ∈ ts := by
  induction ts with
  | nil => simp [render]
  | cons t ts ih =>
    cases t with
    | literal c =>
      obtain ⟨hc, hts⟩ := not_or.mp (List.mem_cons.not.mp h)
      simp [renderToken, List.infix_cons_iff, hc, ih hts]
    | gap =>
      simp only [render_cons, renderToken, List.mem_cons]
      simp [List.infix_cons_iff, ih h, List.cons_prefix_cons]
      tauto
    | optional =>
      simp only [render_cons, renderToken, List.mem_cons]
      simp [List.infix_cons_iff, ih h, List.cons_prefix_cons]
      tauto

theorem gap_infix_iff (h : '.' ∉ literals ts) : ".*".toList <:+: render ts ↔ .gap ∈ ts := by
  show ['.', '*'] <:+: render ts ↔ .gap ∈ ts
  rw [infix_render_iff h]
  simp

theorem optional_infix_iff (h : '.' ∉ literals ts) :
    ".?".toList <:+: render ts ↔ .optional ∈ ts := by
  show ['.', '?'] <:+: render ts ↔ .optional ∈ ts
  rw [infix_render_iff h]
  simp

theorem splitAll_of_not_infix {pat t : Text} (hpat : pat ≠ []) (h : ¬ pat <:+: t) :
    splitAll pat t = [t] := by
  rw [splitAll]
  split
  · rfl
  · next hsome =>
    rw [(splitFirst_eq_none_iff hpat).mpr h] at hsome
    cases hsome

theorem splitAll_operator {op : Char} (hop : '.' ≠ op) {p : Text} (hp : ¬ ['.', op] <:+: p)
    (rest : Text) :
    splitAll ['.', op] (p ++ (['.', op] ++ rest)) = p :: splitAll ['.', op] rest := by
  have hfirst := splitFirst_append rfl (List.mem_singleton.not.mpr hop) hp rest
  rw [splitAll]
  split
  · next hnone =>
    rw [hfirst] at hnone
    cases hnone
  · next hsome =>
    rw [hfirst] at hsome
    cases hsome
    rw [dif_neg (List.cons_ne_nil '.' [op])]

theorem splitAll_render (h : '.' ∉ literals ts) :
    splitAll ".*".toList (render ts) = (pieces ts).map render := by
  induction ts using pieces_induction with
  | last ts hts =>
    rw [pieces_of_no_gap hts]
    exact splitAll_of_not_infix (by decide) ((gap_infix_iff h).not.mpr hts)
  | gap ts us hts ih =>
    obtain ⟨hleft, hright⟩ := plain_append h
    rw [pieces_gap hts, render_append, render_cons, List.map_cons]
    exact (splitAll_operator (by decide) ((gap_infix_iff hleft).not.mpr hts) _).trans
      (congrArg _ (ih hright))

theorem render_of_plain (hgap : .gap ∉ ts) (hoptional : .optional ∉ ts) :
    render ts = literals ts := by
  induction ts with
  | nil => rfl
  | cons t ts ih =>
    obtain ⟨hg, hrest⟩ := not_or.mp (List.mem_cons.not.mp hgap)
    obtain ⟨ho, htail⟩ := not_or.mp (List.mem_cons.not.mp hoptional)
    cases t with
    | literal c =>
      rw [render_cons, ih hrest htail]
      rfl
    | gap => exact absurd rfl hg
    | optional => exact absurd rfl ho

theorem removeAll_render (h : '.' ∉ literals ts) (hgap : .gap ∉ ts) :
    removeAll ".?".toList (render ts) = literals ts := by
  induction hn : ts.length using Nat.strong_induction_on generalizing ts with
  | _ n ih =>
    by_cases hmem : .optional ∈ ts
    · obtain ⟨before, after, rfl, hbefore⟩ := List.eq_append_cons_of_mem hmem
      obtain ⟨hleft, hright⟩ := plain_append h
      have hafter : .gap ∉ after := fun hin =>
        hgap (List.mem_append_right before (List.mem_cons_of_mem _ hin))
      have hshort : after.length < n := by
        rw [← hn, List.length_append, List.length_cons]
        omega
      have hrest : removeAll ".?".toList (render after) = literals after :=
        ih after.length hshort hright hafter rfl
      have hsplit : splitAll ".?".toList (render (before ++ .optional :: after)) =
          render before :: splitAll ".?".toList (render after) := by
        rw [render_append, render_cons]
        exact splitAll_operator (by decide) ((optional_infix_iff hleft).not.mpr hbefore) _
      rw [removeAll, hsplit, List.flatten_cons, literals_append, literals_optional,
        render_of_plain (fun hin => hgap (List.mem_append_left _ hin)) hbefore]
      exact congrArg _ hrest
    · have hsplit : splitAll ".?".toList (render ts) = [render ts] :=
        splitAll_of_not_infix (by decide) ((optional_infix_iff h).not.mpr hmem)
      rw [removeAll, hsplit, List.flatten_singleton, render_of_plain hgap hmem]

end Render

theorem plain_pieces {ts piece : List (Token Char)} (h : '.' ∉ literals ts)
    (hpiece : piece ∈ pieces ts) : '.' ∉ literals piece := by
  rw [← flatten_pieces, List.mem_flatten] at h
  exact fun hmem => h ⟨_, List.mem_map_of_mem hpiece, hmem⟩

theorem removeAll_pieces {ts : List (Token Char)} (h : '.' ∉ literals ts) :
    ((pieces ts).map render).map (removeAll ".?".toList) = (pieces ts).map literals := by
  rw [List.map_map]
  refine List.map_congr_left fun piece hpiece => ?_
  exact removeAll_render (plain_pieces h hpiece) (gap_notMem_pieces hpiece)

theorem infix_iff_inOrder (p text : Text) : p <:+: text ↔ InOrder [p] text := by
  constructor
  · rintro ⟨u, v, rfl⟩
    exact ⟨u, v, List.append_assoc .., trivial⟩
  · rintro ⟨u, v, rfl, -⟩
    exact ⟨u, v, List.append_assoc ..⟩

/-- **The search finds the literals of the pieces in their order.** -/
theorem regexContains_iff (p : Pattern) (text : Text) :
    regexContains text (render p.tokens) = true ↔
      InOrder ((pieces p.tokens).map literals) text := by
  obtain ⟨ts, h⟩ := p
  have hgap : contains (render ts) ".*".toList = true ↔ .gap ∈ ts := by
    rw [contains_iff, gap_infix_iff h]
  have hoptional : contains (render ts) ".?".toList = true ↔ .optional ∈ ts := by
    rw [contains_iff, optional_infix_iff h]
  rw [regexContains]
  split_ifs with hplain
  · rw [Bool.and_eq_true, Bool.not_eq_true', Bool.not_eq_true', ← Bool.not_eq_true,
      ← Bool.not_eq_true, hgap, hoptional] at hplain
    rw [contains_iff, pieces_of_no_gap hplain.1, render_of_plain hplain.1 hplain.2]
    exact infix_iff_inOrder _ _
  · rw [splitAll_render h]
    split
    · next part hpart =>
      have hno : .gap ∉ ts := by
        intro hmem
        obtain ⟨before, after, rfl, hbefore⟩ := List.eq_append_cons_of_mem hmem
        rw [pieces_gap hbefore] at hpart
        rw [List.map_cons] at hpart
        exact List.splitOnP_ne_nil _ _ (List.map_eq_nil_iff.mp (List.cons.inj hpart).2)
      rw [contains_iff, removeAll_render h hno, pieces_of_no_gap hno]
      exact infix_iff_inOrder _ _
    · rw [partsInOrder_iff, removeAll_pieces h]

theorem exists_other_char (a b c : Char) : ∃ x, x ≠ a ∧ x ≠ b ∧ x ≠ c := by
  by_contra hnone
  have hone : ∀ x ∈ ['0', '1', '2', '3'], x ∈ [a, b, c] := by
    intro x _
    by_contra hx
    simp only [List.mem_cons, List.not_mem_nil, or_false, not_or] at hx
    exact hnone ⟨x, hx⟩
  have hle : 4 ≤ 3 := (List.subperm_of_subset (by decide) hone).length_le
  omega

/-- **The search is the regular expression's exactly for the patterns in which no optional character
stands between two literals of a piece, and, where the dot leaves a character out, all pieces but
one spell out nothing or this character alone.** -/
theorem regexContains_exact (excluded : Option Char) (p : Pattern) :
    (∀ text, regexContains text (render p.tokens) = true ↔
      Occurs (anyBut excluded) p.tokens text) ↔ Exact excluded p.tokens := by
  rw [← exact_iff exists_other_char]
  simp only [regexContains_iff]

def fullStack : Pattern where
  tokens := "full".toList.map .literal ++ .optional :: "stack".toList.map .literal
  plain := by decide

/-- It does not find what is written with a hyphen. -/
theorem not_regexContains_exact : ¬ ∀ (p : Pattern) (text : Text),
    regexContains text (render p.tokens) = true ↔ Occurs (anyBut (some '\n')) p.tokens text := by
  intro h
  have hmatch : Matches (anyBut (some '\n')) fullStack.tokens "full-stack".toList :=
    matches_append.mpr ⟨"full".toList, "-stack".toList, rfl, matches_literals _,
      .take (fun h => absurd h (by decide)) (matches_literals _)⟩
  have hfound := (h fullStack "full-stack".toList).mpr ⟨[], _, [], rfl, hmatch⟩
  rw [regexContains_iff, pieces_of_no_gap (by decide)] at hfound
  exact absurd ((infix_iff_inOrder _ _).mpr hfound) (by decide)

end Mowis.Routing
