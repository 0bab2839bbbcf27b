import Mathlib

/-!
# Editing a list at a cursor

A list is edited where it is split in two; an index into it says where that is.
-/

namespace Mowis.Lib

variable {α : Type*}

structure Zipper (α : Type*) where
  before : List α
  after : List α
  deriving DecidableEq, Repr

namespace Zipper

variable (z : Zipper α)

def empty : Zipper α := ⟨[], []⟩

def toList : List α := z.before ++ z.after

def paste (xs : List α) : Zipper α := ⟨z.before ++ xs, z.after⟩

def insert (a : α) : Zipper α := z.paste [a]

def backspace : Zipper α := ⟨z.before.dropLast, z.after⟩

def delete : Zipper α := ⟨z.before, z.after.tail⟩

def left : Zipper α := ⟨z.before.dropLast, z.before.getLast?.toList ++ z.after⟩

def right : Zipper α := ⟨z.before ++ z.after.head?.toList, z.after.tail⟩

def home : Zipper α := ⟨[], z.toList⟩

def toEnd : Zipper α := ⟨z.toList, []⟩

def killBefore : Zipper α := ⟨[], z.after⟩

def killAfter : Zipper α := ⟨z.before, []⟩

def splitAt (xs : List α) (i : ℕ) : Zipper α := ⟨xs.take i, xs.drop i⟩

variable {xs : List α} {i : ℕ}

@[simp] theorem toList_splitAt : (splitAt xs i).toList = xs := List.take_append_drop i xs

theorem splitAt_zero : splitAt xs 0 = (splitAt xs i).home := by
  rw [home, toList_splitAt, splitAt, List.take_zero, List.drop_zero]

theorem splitAt_length : splitAt xs xs.length = (splitAt xs i).toEnd := by
  rw [toEnd, toList_splitAt, splitAt, List.take_length, List.drop_length]

theorem splitAt_append {ys zs : List α} : splitAt (ys ++ zs) ys.length = ⟨ys, zs⟩ := by
  rw [splitAt, List.take_left, List.drop_left]

theorem splitAt_paste {ys : List α} (h : i ≤ xs.length) :
    splitAt (xs.take i ++ ys ++ xs.drop i) (i + ys.length) = (splitAt xs i).paste ys := by
  have hlength : (xs.take i ++ ys).length = i + ys.length := by
    rw [List.length_append, List.length_take_of_le h]
  rw [← hlength, splitAt_append]
  rfl

theorem insertIdx_eq_append {a : α} (h : i ≤ xs.length) :
    xs.insertIdx i a = xs.take i ++ [a] ++ xs.drop i := by
  induction xs generalizing i with
  | nil =>
    cases Nat.le_zero.mp h
    rfl
  | cons x xs ih =>
    cases i with
    | zero => rfl
    | succ i => 
      rw [List.insertIdx_succ_cons, ih (Nat.le_of_succ_le_succ h)]
      rfl

theorem splitAt_insertIdx {a : α} (h : i ≤ xs.length) :
    splitAt (xs.insertIdx i a) (i + 1) = (splitAt xs i).insert a := by
  rw [insertIdx_eq_append h]
  exact splitAt_paste h

theorem splitAt_eraseIdx (h : i < xs.length) :
    splitAt (xs.eraseIdx i) i = (splitAt xs (i + 1)).backspace := by
  have hlength : (xs.take i).length = i := List.length_take_of_le h.le
  have hbefore : (xs.take (i + 1)).dropLast = xs.take i := by
    rw [List.take_add_one, List.getElem?_eq_getElem h]
    exact List.dropLast_concat
  have hsplit : splitAt (xs.take i ++ xs.drop (i + 1)) i = ⟨xs.take i, xs.drop (i + 1)⟩ := by
    have happend := @splitAt_append _ (xs.take i) (xs.drop (i + 1))
    rwa [hlength] at happend
  rw [List.eraseIdx_eq_take_drop_succ, hsplit, ← hbefore]
  rfl

theorem splitAt_pred (h : i < xs.length) : splitAt xs i = (splitAt xs (i + 1)).left := by
  have hbefore : xs.take (i + 1) = xs.take i ++ [xs[i]] := by
    rw [List.take_add_one, List.getElem?_eq_getElem h]
    rfl
  rw [left, splitAt, splitAt, hbefore, List.dropLast_concat, List.getLast?_concat,
    List.drop_eq_getElem_cons h]
  rfl

theorem splitAt_succ : splitAt xs (i + 1) = (splitAt xs i).right := by
  rw [right, splitAt, splitAt, List.take_add_one, List.head?_drop, List.tail_drop]

theorem left_of_start : (splitAt xs 0).left = splitAt xs 0 := by
  simp [left, splitAt]

theorem right_of_end : (splitAt xs xs.length).right = splitAt xs xs.length := by
  simp [right, splitAt]

theorem backspace_of_start : (splitAt xs 0).backspace = splitAt xs 0 := by
  simp [backspace, splitAt]

theorem splitAt_take (h : i ≤ xs.length) : splitAt (xs.take i) i = (splitAt xs i).killAfter := by
  have hlength : (xs.take i).length = i := List.length_take_of_le h
  rw [splitAt, List.take_take, Nat.min_self, List.drop_eq_nil_of_le hlength.le]
  rfl

theorem splitAt_drop : splitAt (xs.drop i) 0 = (splitAt xs i).killBefore := rfl

end Zipper

end Mowis.Lib
