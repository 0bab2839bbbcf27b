import Mathlib

/-!
# Operations on parts of a store

A store is a function from keys to values, and an operation on it may fail.  An operation is
local to a set of keys when it reads and writes these keys only.
-/

namespace Mowis.Lib

variable {K V A : Type}

def AgreeOn (keys : Set K) (s t : K → V) : Prop := ∀ k ∈ keys, s k = t k

theorem AgreeOn.symm {keys : Set K} {s t : K → V} (h : AgreeOn keys s t) : AgreeOn keys t s :=
  fun k hk => (h k hk).symm

theorem AgreeOn.trans {keys : Set K} {s t u : K → V} (h : AgreeOn keys s t)
    (h' : AgreeOn keys t u) : AgreeOn keys s u :=
  fun k hk => (h k hk).trans (h' k hk)

/-- The operation writes no other keys, and does the same in stores that agree on these. -/
structure LocalTo (keys : Set K) (op : (K → V) → Option (K → V)) : Prop where
  frame : ∀ s s', op s = some s' → ∀ k ∉ keys, s' k = s k
  reads : ∀ s t s', AgreeOn keys s t → op s = some s' → ∃ t', op t = some t' ∧ AgreeOn keys s' t'

def runAll (run : A → (K → V) → Option (K → V)) : List A → (K → V) → Option (K → V)
  | [], s => some s
  | a :: as, s =>
    match run a s with
    | none => none
    | some s' => runAll run as s'

section Apart

variable {run : A → (K → V) → Option (K → V)} {keys : A → Set K}

/-- Operations that are local to pairwise disjoint sets of keys. -/
structure Apart (run : A → (K → V) → Option (K → V)) (keys : A → Set K) (as : List A) :
    Prop where
  localTo : ∀ a ∈ as, LocalTo (keys a) (run a)
  disjoint : as.Pairwise fun a b => Disjoint (keys a) (keys b)

theorem Apart.tail {a : A} {as : List A} (h : Apart run keys (a :: as)) : Apart run keys as where
  localTo b hb := h.localTo b (List.mem_cons_of_mem a hb)
  disjoint := h.disjoint.of_cons

end Apart

end Mowis.Lib
