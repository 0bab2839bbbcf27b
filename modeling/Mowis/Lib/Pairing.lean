import Mathlib

/-!
# Merging a list in pairs, level by level

A list is merged by merging its entries in pairs, then the results in pairs, and so on.  An entry
that is left over on a level goes to the front of the next one.
-/

namespace Mowis.Lib

variable {α β : Type*}

def inPairs : List α → List (α × α)
  | [] => []
  | [_] => []
  | a :: b :: rest => (a, b) :: inPairs rest

def oddOne : List α → List α
  | [] => []
  | [a] => [a]
  | _ :: _ :: rest => oddOne rest

def nextLevel (op : α → α → α) (l : List α) : List α :=
  oddOne l ++ (inPairs l).map fun p => op p.1 p.2

theorem length_oddOne : ∀ l : List α, (oddOne l).length = l.length % 2
  | [] => rfl
  | [_] => rfl
  | _ :: _ :: rest => by
    rw [oddOne, length_oddOne rest, List.length_cons, List.length_cons]
    omega

theorem length_inPairs : ∀ l : List α, (inPairs l).length = l.length / 2
  | [] => by simp [inPairs]
  | [_] => by simp [inPairs]
  | _ :: _ :: rest => by
    rw [inPairs, List.length_cons, length_inPairs rest, List.length_cons, List.length_cons]
    omega

theorem length_nextLevel (op : α → α → α) (l : List α) :
    (nextLevel op l).length = (l.length + 1) / 2 := by
  rw [nextLevel, List.length_append, List.length_map, length_oddOne, length_inPairs]
  omega

theorem flatten_inPairs_append : ∀ l : List (List α),
    ((inPairs l).map fun p => p.1 ++ p.2).flatten ++ (oddOne l).flatten = l.flatten
  | [] => rfl
  | [_] => rfl
  | a :: b :: rest => by
    have hrest := flatten_inPairs_append rest
    rw [inPairs, oddOne, List.map_cons, List.flatten_cons, List.append_assoc, hrest,
      List.flatten_cons, List.flatten_cons, List.append_assoc]

theorem mem_oddOne {a : α} : ∀ {l : List α}, a ∈ oddOne l → l.getLast? = some a
  | [], h => absurd h List.not_mem_nil
  | [_], h => by
    rw [List.mem_singleton.mp h]
    rfl
  | b :: c :: rest, h => by
    have hrest := mem_oddOne (l := rest) h
    rw [List.getLast?_cons_cons, List.getLast?_cons, hrest]
    rfl

theorem mem_inPairs {p : α × α} : ∀ {l : List α}, p ∈ inPairs l → p.1 ∈ l ∧ p.2 ∈ l
  | [], h => absurd h List.not_mem_nil
  | [_], h => absurd h List.not_mem_nil
  | a :: b :: rest, h => by
    rcases List.mem_cons.mp h with rfl | h
    · simp
    · obtain ⟨h1, h2⟩ := mem_inPairs h
      simp [h1, h2]

theorem inPairs_tail (l : List α) : (inPairs l).tail = inPairs (l.drop 2) := by
  match l with
  | [] => rfl
  | [_] => rfl
  | _ :: _ :: _ => rfl

def lastLevel (op : α → α → α) (l : List α) : List α :=
  if 1 < l.length then lastLevel op (nextLevel op l) else l
termination_by l.length
decreasing_by
  rw [length_nextLevel]
  omega

theorem lastLevel_of_lt {op : α → α → α} {l : List α} (h : 1 < l.length) :
    lastLevel op l = lastLevel op (nextLevel op l) := by
  rw [lastLevel, if_pos h]

theorem lastLevel_of_not_lt {op : α → α → α} {l : List α} (h : ¬ 1 < l.length) :
    lastLevel op l = l := by
  rw [lastLevel, if_neg h]

def folded (op : α → α → α) : List α → Option α
  | [] => none
  | a :: l => some (l.foldl op a)

def emitted (l : List α) : List α := (lastLevel (· ++ ·) (l.map ([·]))).flatten

theorem length_lastLevel {op : α → α → α} {l : List α} (h : l ≠ []) :
    (lastLevel op l).length = 1 := by
  induction l using lastLevel.induct op with
  | case1 l hlen ih =>
    have hnext : nextLevel op l ≠ [] := by
      rw [← List.length_pos_iff, length_nextLevel]
      omega
    rw [lastLevel_of_lt hlen, ih hnext]
  | case2 l hlen =>
    rw [lastLevel_of_not_lt hlen]
    have hpos := List.length_pos_iff.mpr h
    omega

section assoc

variable {op : α → α → α} (hop : ∀ a b c, op (op a b) c = op a (op b c))

include hop

theorem foldl_op (l : List α) (a b : α) : l.foldl op (op a b) = op a (l.foldl op b) := by
  induction l generalizing b with
  | nil => rfl
  | cons c l ih => rw [List.foldl_cons, List.foldl_cons, hop, ih]

theorem folded_append {xs ys : List α} {a b : α} (hx : folded op xs = some a)
    (hy : folded op ys = some b) : folded op (xs ++ ys) = some (op a b) := by
  cases xs with
  | nil => cases hx
  | cons x xs =>
    cases ys with
    | nil => cases hy
    | cons y ys =>
      cases hx
      cases hy
      rw [List.cons_append, folded, List.foldl_append, List.foldl_cons, foldl_op hop]

theorem folded_nextLevel : ∀ {l : List α} {blocks : List (List α)},
    List.Forall₂ (fun a block => folded op block = some a) l blocks →
      List.Forall₂ (fun a block => folded op block = some a) (nextLevel op l)
        (nextLevel (· ++ ·) blocks) := by
  intro l blocks h
  have hodd : List.Forall₂ (fun a block => folded op block = some a) (oddOne l) (oddOne blocks) ∧
      List.Forall₂ (fun a block => folded op block = some a)
        ((inPairs l).map fun p => op p.1 p.2) ((inPairs blocks).map fun p => p.1 ++ p.2) := by
    induction l using inPairs.induct generalizing blocks with
    | case1 =>
      cases h
      exact ⟨.nil, .nil⟩
    | case2 a =>
      cases h with
      | cons ha h =>
        cases h
        exact ⟨.cons ha .nil, .nil⟩
    | case3 a b rest ih =>
      cases h with
      | cons ha h =>
        cases h with
        | cons hb h =>
          obtain ⟨hodd, hpairs⟩ := ih h
          exact ⟨hodd, .cons (folded_append hop ha hb) hpairs⟩
  exact List.rel_append hodd.1 hodd.2

theorem folded_lastLevel_blocks {l : List α} {blocks : List (List α)}
    (h : List.Forall₂ (fun a block => folded op block = some a) l blocks) :
    List.Forall₂ (fun a block => folded op block = some a) (lastLevel op l)
      (lastLevel (· ++ ·) blocks) := by
  induction l using lastLevel.induct op generalizing blocks with
  | case1 l hlen ih =>
    have hlen' : 1 < blocks.length := by rwa [← h.length_eq]
    rw [lastLevel_of_lt hlen, lastLevel_of_lt hlen']
    exact ih (folded_nextLevel hop h)
  | case2 l hlen =>
    have hlen' : ¬ 1 < blocks.length := by rwa [← h.length_eq]
    rw [lastLevel_of_not_lt hlen, lastLevel_of_not_lt hlen']
    exact h

theorem folded_lastLevel (l : List α) : folded op (emitted l) = (lastLevel op l).head? := by
  have hstart : List.Forall₂ (fun a block => folded op block = some a) l (l.map ([·])) := by
    rw [List.forall₂_map_right_iff]
    exact List.forall₂_same.mpr fun a _ => rfl
  have hlast := folded_lastLevel_blocks hop hstart
  rw [emitted]
  by_cases hnil : l = []
  · rw [hnil, List.map_nil, lastLevel_of_not_lt (by simp), lastLevel_of_not_lt (by simp)]
    rfl
  · obtain ⟨a, ha⟩ := List.length_eq_one_iff.mp (@length_lastLevel α op l hnil)
    rw [ha] at hlast ⊢
    obtain ⟨block, rest, hblock, hrest, heq⟩ := List.forall₂_cons_left_iff.mp hlast
    rw [heq, List.forall₂_nil_left_iff.mp hrest, List.flatten_singleton, hblock]
    rfl

end assoc

theorem flatten_nextLevel (blocks : List (List α)) :
    (nextLevel (· ++ ·) blocks).flatten.rotate (oddOne blocks).flatten.length =
      blocks.flatten := by
  rw [nextLevel, List.flatten_append, List.rotate_append_length_eq, flatten_inPairs_append]

theorem regular_nextLevel {blocks : List (List α)} {k : ℕ}
    (h : ∀ b ∈ blocks.drop 2, b.length = k) :
    ∀ b ∈ (nextLevel (· ++ ·) blocks).drop 2, b.length = 2 * k := by
  intro b hb
  have hpair : b ∈ (inPairs (blocks.drop 2)).map fun p => p.1 ++ p.2 := by
    rw [← inPairs_tail, ← List.drop_one, List.map_drop]
    rw [nextLevel] at hb
    have hodd := length_oddOne blocks
    rcases Nat.mod_two_eq_zero_or_one blocks.length with heven | hodd'
    · rw [List.eq_nil_of_length_eq_zero (hodd.trans heven), List.nil_append] at hb
      exact (List.drop_sublist_drop_left _ (by decide : 1 ≤ 2)).subset hb
    · obtain ⟨a, ha⟩ := List.length_eq_one_iff.mp (hodd.trans hodd')
      rwa [ha] at hb
  obtain ⟨p, hp, rfl⟩ := List.mem_map.mp hpair
  obtain ⟨h1, h2⟩ := mem_inPairs hp
  rw [List.length_append, h _ h1, h _ h2]
  omega

theorem length_flatten_oddOne {blocks : List (List α)} {k : ℕ} (hlen : 1 < blocks.length)
    (h : ∀ b ∈ blocks.drop 2, b.length = k) :
    (oddOne blocks).flatten.length = blocks.length % 2 * k := by
  have hodd := length_oddOne blocks
  rcases Nat.mod_two_eq_zero_or_one blocks.length with heven | hodd'
  · rw [List.eq_nil_of_length_eq_zero (hodd.trans heven), heven, Nat.zero_mul]
    rfl
  · obtain ⟨a, ha⟩ := List.length_eq_one_iff.mp (hodd.trans hodd')
    have hlast := mem_oddOne (l := blocks) (a := a) (by rw [ha]; exact List.mem_singleton_self a)
    have hdrop : a ∈ blocks.drop 2 := by
      refine List.mem_of_getLast? ?_
      rw [List.getLast?_drop, if_neg (by omega), hlast]
    rw [ha, hodd', Nat.one_mul, List.flatten_singleton, h a hdrop]

theorem rotate_lastLevel {n : ℕ} {blocks : List (List α)} {j : ℕ} (hne : blocks ≠ [])
    (hreg : ∀ b ∈ blocks.drop 2, b.length = 2 ^ j) (hn : (blocks.length - 1) * 2 ^ j < n)
    (hj : 2 ^ j < 2 * n) :
    ∃ i r, (lastLevel (· ++ ·) blocks).flatten.rotate r = blocks.flatten ∧
      r + blocks.length * 2 ^ j = 2 ^ i ∧ 2 ^ i < 2 * n := by
  induction blocks using lastLevel.induct (fun a b : List α => a ++ b) generalizing j with
  | case1 blocks hlen ih =>
    have hlen' := length_nextLevel (· ++ ·) blocks
    have hnext : nextLevel (· ++ ·) blocks ≠ [] := by
      rw [← List.length_pos_iff, hlen']
      omega
    have hpow : 2 ^ (j + 1) = 2 * 2 ^ j := Nat.pow_succ'
    have hle : ((nextLevel (· ++ ·) blocks).length - 1) * 2 ^ (j + 1) ≤
        (blocks.length - 1) * 2 ^ j := by
      rw [hpow, ← Nat.mul_assoc, hlen']
      exact Nat.mul_le_mul_right _ (by omega)
    have hone : 1 * 2 ^ j ≤ (blocks.length - 1) * 2 ^ j := Nat.mul_le_mul_right _ (by omega)
    have hreg' := regular_nextLevel hreg
    rw [← hpow] at hreg'
    obtain ⟨i, r, hrot, hsum, hi⟩ := ih hnext hreg' (hle.trans_lt hn) (by omega)
    refine ⟨i, r + blocks.length % 2 * 2 ^ j, ?_, ?_, hi⟩
    · rw [lastLevel_of_lt hlen, ← List.rotate_rotate, hrot,
        ← length_flatten_oddOne hlen hreg, flatten_nextLevel]
    · have hmod : (nextLevel (· ++ ·) blocks).length * 2 ^ (j + 1) =
          blocks.length % 2 * 2 ^ j + blocks.length * 2 ^ j := by
        rw [hpow, ← Nat.mul_assoc, ← Nat.add_mul, hlen']
        congr 1
        omega
      omega
  | case2 blocks hlen =>
    have hone : blocks.length = 1 := by
      have hpos := List.length_pos_iff.mpr hne
      omega
    refine ⟨j, 0, ?_, ?_, hj⟩
    · rw [lastLevel_of_not_lt hlen, List.rotate_zero]
    · rw [hone]
      omega

theorem rotate_emitted (l : List α) :
    (emitted l).rotate (2 ^ Nat.clog 2 l.length - l.length) = l := by
  by_cases hnil : l = []
  · rw [hnil, emitted, List.map_nil, lastLevel_of_not_lt (by simp)]
    rfl
  · have hpos := List.length_pos_iff.mpr hnil
    have hreg : ∀ b ∈ (l.map ([·])).drop 2, b.length = 2 ^ 0 := by
      intro b hb
      obtain ⟨a, -, rfl⟩ := List.mem_map.mp (List.mem_of_mem_drop hb)
      rfl
    obtain ⟨i, r, hrot, hsum, hi⟩ := @rotate_lastLevel α l.length (l.map ([·])) 0
      (by simpa using hnil) hreg (by rw [List.length_map]; omega) (by omega)
    rw [List.length_map, Nat.pow_zero, Nat.mul_one] at hsum
    have hclog : Nat.clog 2 l.length = i := by
      refine le_antisymm (Nat.clog_le_of_le_pow (by omega)) ?_
      by_contra hlt
      have hle := (Nat.le_pow_clog Nat.one_lt_two l.length).trans
        (Nat.pow_le_pow_right two_pos (Nat.le_pred_of_lt (not_le.mp hlt)))
      have hpow : 2 ^ i = 2 * 2 ^ (i - 1) := by
        rw [← Nat.pow_succ', Nat.succ_eq_add_one]
        congr 1
        omega
      rw [Nat.pred_eq_sub_one] at hle
      omega
    have hr : 2 ^ i - l.length = r := by omega
    rw [hclog, hr, emitted, hrot, ← List.flatMap_def, List.flatMap_singleton']

theorem emitted_eq_self_iff (l : List α) :
    emitted l = l ↔ l.rotate (2 ^ Nat.clog 2 l.length - l.length) = l := by
  have hrot := rotate_emitted l
  constructor
  · intro h
    rwa [h] at hrot
  · intro h
    exact List.rotate_injective _ (hrot.trans h.symm)

theorem exists_separating (l : List (List Char)) :
    ∃ op : List Char → List Char → List Char, (∀ a b c, op (op a b) c = op a (op b c)) ∧
      ∀ l', l'.Perm l → folded op l' = folded op l → l' = l := by
  classical
  have : Countable Char := ⟨Char.toNat, fun _ _ h => Char.ext (UInt32.toNat_inj.mp h)⟩
  obtain ⟨code, hcode⟩ := exists_injective_nat (List (List Char))
  -- a merge is a text that is too long for an entry, and its length says what was merged
  let enc : List (List Char) → List Char :=
    fun xs => List.replicate ((l.map List.length).sum + 1 + code xs) ' '
  have henc : enc.Injective := by
    intro xs ys h
    have hlen := congrArg List.length h
    rw [List.length_replicate, List.length_replicate] at hlen
    exact hcode (Nat.add_left_cancel hlen)
  have hlong : ∀ xs, enc xs ∉ l := by
    intro xs hmem
    have hle := List.le_sum_of_mem (List.mem_map_of_mem (f := List.length) hmem)
    rw [List.length_replicate] at hle
    omega
  let dec : List Char → List (List Char) :=
    fun t => if t ∈ l then [t] else Function.invFun enc t
  have hdec : ∀ xs, dec (enc xs) = xs := by
    intro xs
    exact (if_neg (hlong xs)).trans (Function.leftInverse_invFun henc xs)
  have hentries : ∀ l' : List (List Char), (∀ t ∈ l', t ∈ l) → l'.flatMap dec = l' := by
    intro l' hl'
    have hentry : ∀ t ∈ l', dec t = [t] := fun t ht => if_pos (hl' t ht)
    rw [List.flatMap_congr hentry, List.flatMap_singleton']
  have hfold : ∀ rest xs : List (List Char), rest.foldl (fun a b => enc (dec a ++ dec b)) (enc xs) =
      enc (xs ++ rest.flatMap dec) := by
    intro rest
    induction rest with
    | nil =>
      intro xs
      rw [List.flatMap_nil, List.append_nil]
      rfl
    | cons b rest ih =>
      intro xs
      rw [List.foldl_cons, hdec, ih, List.flatMap_cons, List.append_assoc]
  have hfolded : ∀ a b rest, (∀ t ∈ a :: b :: rest, t ∈ l) →
      folded (fun a b => enc (dec a ++ dec b)) (a :: b :: rest) = some (enc (a :: b :: rest)) := by
    intro a b rest hall
    have hsame := hentries _ hall
    rw [List.flatMap_cons, List.flatMap_cons, ← List.append_assoc] at hsame
    rw [folded, List.foldl_cons, hfold, hsame]
  refine ⟨fun a b => enc (dec a ++ dec b), ?_, ?_⟩
  · intro a b c
    show enc (dec (enc (dec a ++ dec b)) ++ dec c) = enc (dec a ++ dec (enc (dec b ++ dec c)))
    rw [hdec, hdec, List.append_assoc]
  · intro l' hperm heq
    have hall : ∀ t ∈ l', t ∈ l := fun t ht => hperm.subset ht
    match l' with
    | [] => exact hperm.nil_eq
    | [a] => exact List.singleton_perm.mp hperm
    | a :: b :: rest =>
      obtain ⟨c, d, rest', hl⟩ : ∃ c d rest', l = c :: d :: rest' := by
        have hlen := hperm.length_eq
        match l with
        | [] => cases hlen
        | [_] => cases hlen
        | c :: d :: rest' => exact ⟨c, d, rest', rfl⟩
      have hself := hfolded c d rest' fun t ht => hl ▸ ht
      rw [← hl] at hself
      rw [hfolded a b rest hall, hself] at heq
      exact henc (Option.some.inj heq)

end Mowis.Lib
