import Mathlib

/-!
# Finite maps with multi-valued entries and unspecified iteration order

A hash map is an association list with distinct keys.  Two things the standard
list library does not have are provided here:
-/

namespace Mowis.Lib

universe u v

/-- A finite map from `K` to `V`. -/
abbrev HashMap (K : Type u) (V : Type v) := AList (fun _ : K => V)

namespace HashMap

variable {K : Type u} {V : Type v} [DecidableEq K]

theorem lookup_insert_eq_ite (m : HashMap K V) (k k' : K) (x : V) :
    (m.insert k x).lookup k' = if k' = k then some x else m.lookup k' := by
  split
  · rename_i h
    rw [h, AList.lookup_insert]
  · rename_i h
    exact AList.lookup_insert_ne h

theorem lookup_erase_eq_ite (m : HashMap K V) (k k' : K) :
    (m.erase k).lookup k' = if k' = k then none else m.lookup k' := by
  split
  · rename_i h
    rw [h, AList.lookup_erase]
  · rename_i h
    exact AList.lookup_erase_ne h

theorem lookup_foldl_insert {α : Type*} (key : α → K) (val : α → V) (xs : List α)
    (m : HashMap K V) (k : K) :
    (xs.foldl (fun m x => m.insert (key x) (val x)) m).lookup k =
      ((xs.reverse.find? (fun x => decide (key x = k))).map val).or (m.lookup k) := by
  induction xs generalizing m with
  | nil => simp
  | cons x xs ih =>
    rw [List.foldl_cons, ih, lookup_insert_eq_ite, List.reverse_cons, List.find?_append]
    cases h : xs.reverse.find? (fun x => decide (key x = k)) with
    | some y => simp
    | none =>
      by_cases hk : key x = k
      · simp [hk]
      · simp [hk, Ne.symm hk]

theorem lookup_foldl_insert_of_mem {α : Type*} (key : α → K) (val : α → V) {xs : List α}
    (hu : (xs.map key).Nodup) (m : HashMap K V) {x : α} (hx : x ∈ xs) :
    (xs.foldl (fun m x => m.insert (key x) (val x)) m).lookup (key x) = some (val x) := by
  have hsome : (xs.reverse.find? fun y => decide (key y = key x)).isSome := by
    rw [List.find?_isSome]
    exact ⟨x, List.mem_reverse.mpr hx, decide_eq_true rfl⟩
  obtain ⟨y, hy⟩ := Option.isSome_iff_exists.mp hsome
  have hmem := List.mem_reverse.mp (List.mem_of_find?_eq_some hy)
  have hkey : key y = key x := by simpa using List.find?_some hy
  rw [lookup_foldl_insert, hy, List.inj_on_of_nodup_map hu hmem hx hkey]
  rfl

/-- Apply `f` to every value. -/
def mapValues {W : Type*} (f : V → W) (m : HashMap K V) : HashMap K W :=
  ⟨m.entries.map (fun e => ⟨e.1, f e.2⟩), by
    have h := m.nodupKeys
    rw [List.NodupKeys, List.keys] at h ⊢
    rwa [List.map_map]⟩

theorem lookup_mapValues {W : Type*} (f : V → W) (m : HashMap K V) (k : K) :
    (mapValues f m).lookup k = (m.lookup k).map f := by
  obtain ⟨entries, nodup⟩ := m
  show List.dlookup k (entries.map fun e => (⟨e.1, f e.2⟩ : Sigma fun _ : K => W)) =
    (List.dlookup k entries).map f
  clear nodup
  induction entries with
  | nil => rfl
  | cons e es ih =>
    obtain ⟨k', x⟩ := e
    by_cases h : k = k'
    · subst h
      simp [List.dlookup_cons_eq]
    · rw [List.map_cons, List.dlookup_cons_ne _ _ h, List.dlookup_cons_ne _ _ h, ih]

def weight (m : HashMap K ℕ) : ℕ := (m.entries.map Sigma.snd).sum

theorem sum_kerase (entries : List (Sigma fun _ : K => ℕ)) (k : K) :
    ((entries.kerase k).map Sigma.snd).sum + (entries.dlookup k).getD 0 =
      (entries.map Sigma.snd).sum := by
  induction entries with
  | nil => rfl
  | cons e es ih =>
    obtain ⟨k', n⟩ := e
    by_cases h : k = k'
    · subst h
      have hhead : (⟨k, n⟩ :: es : List (Sigma fun _ : K => ℕ)).kerase k = es :=
        List.kerase_cons_eq rfl
      rw [hhead, List.dlookup_cons_eq, List.map_cons, List.sum_cons]
      exact Nat.add_comm _ _
    · rw [List.kerase_cons_ne h, List.dlookup_cons_ne _ _ h, List.map_cons, List.map_cons,
        List.sum_cons, List.sum_cons, Nat.add_assoc, ih]

theorem weight_insert (m : HashMap K ℕ) (k : K) (n : ℕ) :
    weight (m.insert k n) + (m.lookup k).getD 0 = weight m + n := by
  have hsum := sum_kerase m.entries k
  rw [weight, weight, AList.entries_insert, List.map_cons, List.sum_cons,
    ← hsum]
  show n + _ + _ = _ + (m.lookup k).getD 0 + n
  omega

variable {α : Type*}

/-- The list stored under `k`; a missing entry is the empty list. -/
def bucket (m : HashMap K (List α)) (k : K) : List α := (m.lookup k).getD []

/-- Push `x` at the end of the entry of `k`, which is created when missing. -/
def entryPush (m : HashMap K (List α)) (k : K) (x : α) : HashMap K (List α) :=
  m.insert k (bucket m k ++ [x])

@[simp] theorem bucket_empty (k : K) : bucket (∅ : HashMap K (List α)) k = [] := rfl

theorem bucket_insert (m : HashMap K (List α)) (k k' : K) (xs : List α) :
    bucket (m.insert k xs) k' = if k' = k then xs else bucket m k' := by
  rw [bucket, lookup_insert_eq_ite]
  split <;> rfl

theorem bucket_entryPush (m : HashMap K (List α)) (k k' : K) (x : α) :
    bucket (entryPush m k x) k' = bucket m k' ++ if k' = k then [x] else [] := by
  rw [entryPush, bucket_insert]
  split
  · rename_i h
    rw [h]
  · rw [List.append_nil]

theorem bucket_mapValues (f : List α → List α) (hf : f [] = []) (m : HashMap K (List α)) (k : K) :
    bucket (mapValues f m) k = f (bucket m k) := by
  rw [bucket, bucket, lookup_mapValues]
  cases m.lookup k with
  | none => exact hf.symm
  | some xs => rfl

/-- What a loop of pushes leaves under `k`: the old entry, then the values pushed
for `k` in order. -/
theorem bucket_foldl_entryPush {β : Type*} (key : β → K) (val : β → α) (xs : List β)
    (m : HashMap K (List α)) (k : K) :
    bucket (xs.foldl (fun m x => entryPush m (key x) (val x)) m) k =
      bucket m k ++ (xs.filter (fun x => decide (key x = k))).map val := by
  induction xs generalizing m with
  | nil => simp
  | cons x xs ih =>
    rw [List.foldl_cons, ih, bucket_entryPush, List.append_assoc]
    by_cases h : key x = k
    · simp [h]
    · simp [h, Ne.symm h]

variable {β : Type*}

theorem mem_entryPush (m : HashMap K (List α)) (k k' : K) (x : α) :
    k' ∈ entryPush m k x ↔ k' = k ∨ k' ∈ m := AList.mem_insert m

def groupBy (key : β → K) (val : β → α) (xs : List β) : HashMap K (List α) :=
  xs.foldl (fun m x => entryPush m (key x) (val x)) ∅

theorem bucket_groupBy (key : β → K) (val : β → α) (xs : List β) (k : K) :
    bucket (groupBy key val xs) k = (xs.filter (fun x => decide (key x = k))).map val := by
  rw [groupBy, bucket_foldl_entryPush, bucket_empty, List.nil_append]

theorem mem_groupBy {key : β → K} {val : β → α} {xs : List β} {k : K} :
    k ∈ groupBy key val xs ↔ ∃ x ∈ xs, key x = k := by
  have hfold : ∀ m : HashMap K (List α),
      k ∈ xs.foldl (fun m x => entryPush m (key x) (val x)) m ↔
        k ∈ m ∨ ∃ x ∈ xs, key x = k := by
    induction xs with
    | nil => simp
    | cons x xs ih =>
      intro m
      rw [List.foldl_cons, ih, mem_entryPush, eq_comm]
      simp only [List.mem_cons, exists_eq_or_imp]
      tauto
  rw [groupBy, hfold]
  simp

theorem sum_ite_key (key : β → K) (f : β → ℕ) {xs : List β} (hu : (xs.map key).Nodup) {x : β}
    (h : x ∈ xs) : (xs.map (fun y => if key y = key x then f y else 0)).sum = f x := by
  induction xs with
  | nil => cases h
  | cons y ys ih =>
    obtain ⟨hy, hys⟩ := List.nodup_cons.mp hu
    rw [List.map_cons, List.sum_cons]
    rcases List.mem_cons.mp h with rfl | hmem
    · have hrest : (ys.map (fun z => if key z = key x then f z else 0)).sum = 0 := by
        refine List.sum_eq_zero fun n hn => ?_
        obtain ⟨z, hz, rfl⟩ := List.mem_map.mp hn
        rw [if_neg]
        intro hid
        exact hy (hid ▸ List.mem_map.mpr ⟨z, hz, rfl⟩)
      rw [if_pos rfl, hrest, Nat.add_zero]
    · have hne : key y ≠ key x := by
        intro hid
        exact hy (hid ▸ List.mem_map.mpr ⟨x, hmem, rfl⟩)
      rw [if_neg hne, Nat.zero_add, ih hys hmem]

def reverseIndex (key : β → K) (refs : β → List K) (xs : List β) : HashMap K (List K) :=
  xs.foldl (fun m x => (refs x).foldl (fun m d => entryPush m d (key x)) m) ∅

theorem bucket_reverseIndex (key : β → K) (refs : β → List K) (xs : List β) (d : K) :
    bucket (reverseIndex key refs xs) d =
      xs.flatMap (fun x => List.replicate ((refs x).count d) (key x)) := by
  have hpairs : reverseIndex key refs xs =
      (xs.flatMap (fun x => (refs x).map (fun dep => (dep, key x)))).foldl
        (fun m p => entryPush m p.1 p.2) ∅ := by
    rw [List.foldl_flatMap]
    simp only [List.foldl_map]
    rfl
  rw [hpairs, bucket_foldl_entryPush (fun p : K × K => p.1) (fun p => p.2),
    bucket_empty, List.nil_append, List.filter_flatMap, List.map_flatMap]
  congr 1
  funext x
  rw [List.filter_map, List.map_map]
  have hlen : ((refs x).filter (fun dep => decide (dep = d))).length = (refs x).count d := by
    rw [List.count, List.countP_eq_length_filter]
    rfl
  rw [← hlen, ← List.map_const']
  rfl

theorem count_bucket_reverseIndex (key : β → K) (refs : β → List K) (xs : List β) (d t : K) :
    (bucket (reverseIndex key refs xs) d).count t =
      (xs.map (fun x => if key x = t then (refs x).count d else 0)).sum := by
  rw [bucket_reverseIndex, List.count_flatMap]
  congr 2
  funext x
  simp [List.count_replicate]

theorem mem_bucket_reverseIndex {key : β → K} {refs : β → List K} {xs : List β} {d t : K} :
    t ∈ bucket (reverseIndex key refs xs) d ↔ ∃ x ∈ xs, key x = t ∧ d ∈ refs x := by
  rw [bucket_reverseIndex, List.mem_flatMap]
  refine exists_congr fun x => and_congr_right fun _ => ?_
  rw [List.mem_replicate, ← Nat.pos_iff_ne_zero, List.count_pos_iff, and_comm, eq_comm]

theorem count_refs_le_reverseIndex (key : β → K) (refs : β → List K) {xs : List β} {x : β}
    (h : x ∈ xs) (d : K) :
    (refs x).count d ≤ (bucket (reverseIndex key refs xs) d).count (key x) := by
  rw [count_bucket_reverseIndex]
  have hle := List.single_le_sum (fun _ _ => Nat.zero_le _) _ (List.mem_map.mpr ⟨x, h, rfl⟩ :
    (if key x = key x then (refs x).count d else 0) ∈
      xs.map (fun y => if key y = key x then (refs y).count d else 0))
  rwa [if_pos rfl] at hle

theorem count_reverseIndex (key : β → K) (refs : β → List K) {xs : List β}
    (hu : (xs.map key).Nodup) {x : β} (h : x ∈ xs) (d : K) :
    (bucket (reverseIndex key refs xs) d).count (key x) = (refs x).count d := by
  rw [count_bucket_reverseIndex]
  exact sum_ite_key key (fun y => (refs y).count d) hu h

end HashMap

theorem sum_filter_add {α : Type u} [DecidableEq α] (ks : List α) (hks : ks.Nodup) (f : α → ℕ)
    (p q : α → Bool) (t : α) (hp : p t = false) (hq : q t = true)
    (hpq : ∀ k, k ≠ t → p k = q k) :
    ((ks.filter p).map f).sum + (if t ∈ ks then f t else 0) = ((ks.filter q).map f).sum := by
  induction ks with
  | nil => rfl
  | cons k ks ih =>
    obtain ⟨hk, hks⟩ := List.nodup_cons.mp hks
    have hrest := ih hks
    by_cases hkt : k = t
    · subst hkt
      rw [if_neg hk, Nat.add_zero] at hrest
      rw [List.filter_cons_of_neg (by simp [hp]), List.filter_cons_of_pos hq, List.map_cons,
        List.sum_cons, if_pos List.mem_cons_self, hrest, Nat.add_comm]
    · have hmem : (t ∈ k :: ks) = (t ∈ ks) := by simp [Ne.symm hkt]
      simp only [hmem, List.filter_cons, hpq k hkt]
      split
      · rw [List.map_cons, List.map_cons, List.sum_cons, List.sum_cons]
        omega
      · exact hrest

/-- One order in which a hash map or hash set may be walked: it rearranges the
entries and neither drops nor repeats one. -/
structure IterOrder (α : Type u) where
  arrange : List α → List α
  perm : ∀ xs, (arrange xs).Perm xs

namespace IterOrder

variable {α : Type u}

def stored : IterOrder α := ⟨id, fun _ => List.Perm.refl _⟩

def reversed : IterOrder α := ⟨List.reverse, List.reverse_perm⟩

@[simp] theorem mem_arrange (o : IterOrder α) (xs : List α) (x : α) :
    x ∈ o.arrange xs ↔ x ∈ xs := (o.perm xs).mem_iff

theorem nodup_arrange (o : IterOrder α) {xs : List α} (h : xs.Nodup) : (o.arrange xs).Nodup :=
  (o.perm xs).nodup_iff.mpr h

@[simp] theorem arrange_eq_nil (o : IterOrder α) (xs : List α) : o.arrange xs = [] ↔ xs = [] := by
  constructor
  · intro h
    exact List.perm_nil.mp (h ▸ (o.perm xs).symm)
  · intro h
    exact List.perm_nil.mp (h ▸ o.perm xs)

end IterOrder

end Mowis.Lib
