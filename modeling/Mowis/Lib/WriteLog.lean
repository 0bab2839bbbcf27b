import Mathlib

/-!
# Logs of writes

A log lists what was written where, the last write at its end.
-/

namespace Mowis.Lib

variable {K V α : Type*} [DecidableEq K]

def lastWrite (log : List (K × V)) (k : K) : Option V :=
  (log.reverse.find? fun e => e.1 = k).map Prod.snd

@[simp] theorem lastWrite_nil (k : K) : lastWrite ([] : List (K × V)) k = none := rfl

theorem lastWrite_append (log log' : List (K × V)) (k : K) :
    lastWrite (log ++ log') k = (lastWrite log' k).or (lastWrite log k) := by
  rw [lastWrite, lastWrite, lastWrite, List.reverse_append, List.find?_append]
  cases log'.reverse.find? fun e => e.1 = k <;> rfl

theorem lastWrite_eq_none_iff {log : List (K × V)} {k : K} :
    lastWrite log k = none ↔ ∀ v, (k, v) ∉ log := by
  rw [lastWrite, Option.map_eq_none_iff, List.find?_eq_none]
  constructor
  · intro h v hv
    exact h (k, v) (List.mem_reverse.mpr hv) (decide_eq_true rfl)
  · intro h e he heq
    obtain rfl : e.1 = k := of_decide_eq_true heq
    exact h e.2 (List.mem_reverse.mp he)

theorem mem_of_lastWrite {log : List (K × V)} {k : K} {v : V} (h : lastWrite log k = some v) :
    (k, v) ∈ log := by
  obtain ⟨e, he, rfl⟩ := Option.map_eq_some_iff.mp h
  have hkey : e.1 = k := by simpa using List.find?_some he
  subst hkey
  exact List.mem_reverse.mp (List.mem_of_find?_eq_some he)

theorem lastWrite_eq_some_iff {log : List (K × V)} {k : K} {v : V}
    (hagree : ∀ v v', (k, v) ∈ log → (k, v') ∈ log → v = v') :
    lastWrite log k = some v ↔ (k, v) ∈ log := by
  constructor
  · exact mem_of_lastWrite
  · intro hv
    cases hlast : lastWrite log k with
    | none => exact absurd hv (lastWrite_eq_none_iff.mp hlast v)
    | some v' => rw [hagree v' v (mem_of_lastWrite hlast) hv]

theorem lastWrite_eq_of_mem_iff {log : List (K × V)} {m : K → Option V}
    (h : ∀ k v, (k, v) ∈ log ↔ m k = some v) (k : K) : lastWrite log k = m k := by
  have hagree : ∀ v v', (k, v) ∈ log → (k, v') ∈ log → v = v' := by
    intro v v' hv hv'
    rw [h] at hv hv'
    exact Option.some.inj (hv.symm.trans hv')
  refine Option.ext ?_
  intro v
  rw [lastWrite_eq_some_iff hagree, h]

end Mowis.Lib
