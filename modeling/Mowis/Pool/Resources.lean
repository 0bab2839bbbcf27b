import Mowis.Review.Conflict

/-!
# How many agents a machine can take

`max_recommended_agents` of `agentd/src/orchestration/health.rs`: what is left of the memory, of the
file descriptors and of the disk, divided by what an agent takes.  The quotients are cut to 32 bits,
and only the second of the two subtractions saturates.
-/

namespace Mowis.Pool

open Mowis.Review (Overflow)

structure SystemResources where
  availableMemoryBytes : UInt64
  diskAvailableBytes : UInt64
  openFds : UInt32
  maxFds : UInt32
  deriving DecidableEq, Repr

/-- `u32` subtraction. -/
def subU32 (mode : Overflow) (a b : UInt32) : Option UInt32 :=
  match mode with
  | .wraps => some (a - b)
  | .panics => if b ≤ a then some (a - b) else none

def saturatingSub (a b : UInt32) : UInt32 := if b ≤ a then a - b else 0

def memoryUnit : UInt64 := 50 * 1024 * 1024

def diskUnit : UInt64 := 100 * 1024 * 1024

namespace SystemResources

variable (mode : Overflow) (r : SystemResources)

def memLimit : UInt32 := (r.availableMemoryBytes / memoryUnit).toUInt32

def fdLimit : Option UInt32 := (subU32 mode r.maxFds r.openFds).map (saturatingSub · 100)

def diskLimit : UInt32 := (r.diskAvailableBytes / diskUnit).toUInt32

def maxRecommendedAgents : Option UInt32 :=
  (r.fdLimit mode).map fun fdLimit => max (min (min r.memLimit fdLimit) r.diskLimit) 1

def memory : ℕ := r.availableMemoryBytes.toNat / memoryUnit.toNat

def disk : ℕ := r.diskAvailableBytes.toNat / diskUnit.toNat

def free : ℕ := r.maxFds.toNat - r.openFds.toNat

/-- No underflow and no truncation, and a number between one and the limits. -/
structure Exact : Prop where
  fds : ∃ d, subU32 mode r.maxFds r.openFds = some d ∧ d.toNat + r.openFds.toNat = r.maxFds.toNat
  memLimit : r.memLimit.toNat = r.memory
  diskLimit : r.diskLimit.toNat = r.disk
  bounded : ∃ n, r.maxRecommendedAgents mode = some n ∧ 1 ≤ n.toNat ∧
    (1 ≤ r.memory → n.toNat ≤ r.memory) ∧ (1 ≤ r.disk → n.toNat ≤ r.disk) ∧
    (1 ≤ r.free - 100 → n.toNat ≤ r.free - 100)

/-- Not more descriptors are open than there may be, and the quotients are below `2 ^ 32`. -/
def Fits : Prop :=
  r.openFds.toNat ≤ r.maxFds.toNat ∧ r.availableMemoryBytes.toNat < 2 ^ 32 * memoryUnit.toNat ∧
    r.diskAvailableBytes.toNat < 2 ^ 32 * diskUnit.toNat

variable {mode} {r}

theorem toNat_quotient_iff (bytes unit : UInt64) (hunit : 0 < unit.toNat) :
    (bytes / unit).toUInt32.toNat = bytes.toNat / unit.toNat ↔
      bytes.toNat < 2 ^ 32 * unit.toNat := by
  rw [UInt64.toNat_toUInt32, UInt64.toNat_div, Nat.mod_eq_iff_lt (by norm_num),
    Nat.div_lt_iff_lt_mul hunit]

theorem subU32_exact_iff (a b : UInt32) :
    (∃ d, subU32 mode a b = some d ∧ d.toNat + b.toNat = a.toNat) ↔ b.toNat ≤ a.toNat := by
  constructor
  · rintro ⟨d, -, hd⟩
    omega
  · intro hle
    refine ⟨a - b, ?_, ?_⟩
    · cases mode with
      | wraps => rfl
      | panics => exact if_pos hle
    · rw [UInt32.toNat_sub_of_le _ _ hle]
      omega

theorem toNat_saturatingSub (a b : UInt32) :
    (saturatingSub a b).toNat = a.toNat - b.toNat := by
  rw [saturatingSub]
  split_ifs with hle
  · exact UInt32.toNat_sub_of_le _ _ hle
  · have hlt : ¬ b.toNat ≤ a.toNat := hle
    show 0 = _
    omega

theorem toNat_min (a b : UInt32) : (min a b).toNat = min a.toNat b.toNat := by
  rw [show min a b = if a ≤ b then a else b from rfl, min_def]
  exact apply_ite UInt32.toNat (a ≤ b) a b

theorem toNat_max (a b : UInt32) : (max a b).toNat = max a.toNat b.toNat := by
  rw [show max a b = if a ≤ b then b else a from rfl, max_def]
  exact apply_ite UInt32.toNat (a ≤ b) b a

theorem recommended_of_fits (mode : Overflow) (h : r.Fits) :
    ∃ n, r.maxRecommendedAgents mode = some n ∧
      n.toNat = max (min (min r.memory (r.free - 100)) r.disk) 1 := by
  obtain ⟨hfds, hmemory, hdisk⟩ := h
  obtain ⟨d, hd, hopen⟩ : ∃ d, subU32 mode r.maxFds r.openFds = some d ∧ _ :=
    (subU32_exact_iff _ _).mpr hfds
  refine ⟨max (min (min r.memLimit (saturatingSub d 100)) r.diskLimit) 1, ?_, ?_⟩
  · rw [maxRecommendedAgents, fdLimit, hd]
    rfl
  · have hfree : d.toNat = r.free := by
      rw [free]
      omega
    have hmem : r.memLimit.toNat = r.memory := (toNat_quotient_iff _ _ (by decide)).mpr hmemory
    have hdsk : r.diskLimit.toNat = r.disk := (toNat_quotient_iff _ _ (by decide)).mpr hdisk
    rw [toNat_max, toNat_min, toNat_min, hmem, hdsk, toNat_saturatingSub, hfree]
    rfl

theorem exact_iff_fits : r.Exact mode ↔ r.Fits := by
  constructor
  · intro h
    exact ⟨(subU32_exact_iff _ _).mp h.fds, (toNat_quotient_iff _ _ (by decide)).mp h.memLimit,
      (toNat_quotient_iff _ _ (by decide)).mp h.diskLimit⟩
  · intro h
    obtain ⟨n, hn, hvalue⟩ := recommended_of_fits mode h
    refine ⟨(subU32_exact_iff _ _).mpr h.1, (toNat_quotient_iff _ _ (by decide)).mpr h.2.1,
      (toNat_quotient_iff _ _ (by decide)).mpr h.2.2, n, hn, ?_⟩
    omega

end SystemResources

open SystemResources

/-- **When the recommendation is exact**, and between such machines it is monotone. -/
theorem recommendation_exact_iff (mode : Overflow) :
    (∀ r : SystemResources, r.Exact mode ↔ r.Fits) ∧
    ∀ r r' : SystemResources, r.Fits → r'.Fits →
      r.availableMemoryBytes.toNat ≤ r'.availableMemoryBytes.toNat →
      r.diskAvailableBytes.toNat ≤ r'.diskAvailableBytes.toNat → r.free ≤ r'.free →
      ∃ n n', r.maxRecommendedAgents mode = some n ∧ r'.maxRecommendedAgents mode = some n' ∧
        n.toNat ≤ n'.toNat := by
  refine ⟨fun r => exact_iff_fits, fun r r' h h' hmemory hdisk hfree => ?_⟩
  obtain ⟨n, hn, hvalue⟩ := recommended_of_fits mode h
  obtain ⟨n', hn', hvalue'⟩ := recommended_of_fits mode h'
  have hmem : r.memory ≤ r'.memory := Nat.div_le_div_right hmemory
  have hdsk : r.disk ≤ r'.disk := Nat.div_le_div_right hdisk
  refine ⟨n, n', hn, hn', ?_⟩
  omega

/-- Eleven descriptors are open where there may be ten. -/
theorem not_exact : ¬ ∀ mode (r : SystemResources), r.Exact mode := by
  intro h
  have hfits := exact_iff_fits.mp (h .wraps ⟨2 ^ 33, 2 ^ 33, 11, 10⟩)
  exact absurd hfits.1 (by decide)

end Mowis.Pool
