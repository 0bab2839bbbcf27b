import Mowis.Lib.Execution

/-!
# The ids of sandboxes and containers

What `Sandbox::new`, `create_container` and `Sandbox::restore` of `agentd/src/sandbox.rs` do to the
two counters.  A counter starts from the shifted clock when it is first used, and an id is the
counter shifted by sixteen bits with random bits below.  The steps come in the order of the atomic
operations on the counters.
-/

namespace Mowis.Sandboxes.Ids

open Mowis.Lib (Execution)

inductive Kind
  | sandbox
  | container
  deriving DecidableEq, Repr

/-- An id that was issued, with the counter it was made of, or restored. -/
inductive Entry
  | issued (kind : Kind) (base id : UInt64)
  | restored (id : UInt64)
  deriving DecidableEq, Repr

def Entry.kind : Entry → Kind
  | .issued kind _ _ => kind
  | .restored _ => .sandbox

def Entry.id : Entry → UInt64
  | .issued _ _ id => id
  | .restored id => id

/-- `SANDBOX_COUNTER` and `CONTAINER_COUNTER`, and the ids so far, the last one first. -/
structure State where
  counter : Kind → Option UInt64
  log : List Entry

inductive Action
  | new (now rand : UInt64)
  | createContainer (now rand : UInt64)
  | restore (now id : UInt64)

def randomBits : UInt64 := 16

def randomMask : UInt64 := (1 <<< randomBits) - 1

def initCounter (now : UInt64) : UInt64 := now <<< 16

def makeId (base rand : UInt64) : UInt64 := base <<< randomBits ||| (rand &&& randomMask)

namespace State

variable (s : State)

def counterAt (kind : Kind) (now : UInt64) : UInt64 := (s.counter kind).getD (initCounter now)

def issue (kind : Kind) (now rand : UInt64) : State :=
  let base := s.counterAt kind now
  { counter := Function.update s.counter kind (some (base + 1))
    log := .issued kind base (makeId base rand) :: s.log }

def restore (now id : UInt64) : State :=
  let old := s.counterAt .sandbox now
  let prev := id >>> randomBits
  { counter := Function.update s.counter .sandbox (some (if old ≤ prev then prev + 1 else old))
    log := .restored id :: s.log }

end State

def start : State := ⟨fun _ => none, []⟩

def step (s : State) : Action → Option State
  | .new now rand => some (s.issue .sandbox now rand)
  | .createContainer now rand => some (s.issue .container now rand)
  | .restore now id => some (s.restore now id)

def Action.now : Action → UInt64
  | .new now _ => now
  | .createContainer now _ => now
  | .restore now _ => now

def year2106 : ℕ := 4291747200

def Unique : List Entry → Prop
  | [] => True
  | .restored _ :: past => Unique past
  | .issued _ _ id :: past => (∀ e ∈ past, e.id ≠ id) ∧ Unique past

/-- An id holds its counter whole, and is above all ids of its kind before it. -/
def Ordered : List Entry → Prop
  | [] => True
  | .restored _ :: past => Ordered past
  | .issued kind base id :: past =>
    (id >>> randomBits = base ∧ ∀ e ∈ past, e.kind = kind → e.id < id) ∧ Ordered past

/-- A counter that issues is below `2 ^ 48`. -/
def Room (s : State) : Action → Prop
  | .new now _ => (s.counterAt .sandbox now).toNat < 2 ^ 48
  | .createContainer now _ => (s.counterAt .container now).toNat < 2 ^ 48
  | .restore _ _ => True

/-- The ids of a kind are below its counter. -/
structure Inv (s : State) : Prop where
  ordered : Ordered s.log
  below : ∀ e ∈ s.log, ∃ c, s.counter e.kind = some c ∧ e.id.toNat < c.toNat * 2 ^ 16

theorem toNat_makeId {base : UInt64} (rand : UInt64) (h : base.toNat < 2 ^ 48) :
    (makeId base rand).toNat = base.toNat * 2 ^ 16 + rand.toNat % 2 ^ 16 := by
  have hmask : randomMask.toNat = 2 ^ 16 - 1 := by decide
  have hfits : base.toNat <<< 16 < 2 ^ 64 := by
    rw [Nat.shiftLeft_eq]
    omega
  have hshift : (base <<< randomBits).toNat = base.toNat <<< 16 := by
    rw [UInt64.toNat_shiftLeft]
    exact Nat.mod_eq_of_lt hfits
  rw [makeId, UInt64.toNat_or, UInt64.toNat_and, hshift, hmask, Nat.and_two_pow_sub_one_eq_mod,
    ← Nat.shiftLeft_add_eq_or_of_lt (Nat.mod_lt _ (by norm_num)), Nat.shiftLeft_eq]

theorem toNat_shiftRight (id : UInt64) : (id >>> randomBits).toNat = id.toNat / 2 ^ 16 := by
  rw [UInt64.toNat_shiftRight, Nat.shiftRight_eq_div_pow]
  rfl

theorem Inv.below_at {s : State} (h : Inv s) (now : UInt64) {e : Entry} (he : e ∈ s.log) :
    e.id.toNat < (s.counterAt e.kind now).toNat * 2 ^ 16 := by
  obtain ⟨c, hc, hlt⟩ := h.below e he
  rw [State.counterAt, hc]
  exact hlt

theorem below_update {s : State} (h : Inv s) (kind : Kind) (now : UInt64) {c : UInt64}
    (hc : s.counterAt kind now ≤ c) {entry : Entry} (hkind : entry.kind = kind)
    (hentry : entry.id.toNat < c.toNat * 2 ^ 16) :
    ∀ e ∈ entry :: s.log, ∃ c', Function.update s.counter kind (some c) e.kind = some c' ∧
      e.id.toNat < c'.toNat * 2 ^ 16 := by
  intro e he
  rcases List.mem_cons.mp he with rfl | he
  · exact ⟨c, by rw [hkind, Function.update_self], hentry⟩
  · by_cases hk : e.kind = kind
    · have hlt := h.below_at now he
      have hle : (s.counterAt kind now).toNat ≤ c.toNat := hc
      refine ⟨c, by rw [hk, Function.update_self], ?_⟩
      rw [hk] at hlt
      exact lt_of_lt_of_le hlt (Nat.mul_le_mul_right _ hle)
    · obtain ⟨c', hc', hlt⟩ := h.below e he
      exact ⟨c', by rw [Function.update_of_ne hk, hc'], hlt⟩

theorem issue_inv {s : State} (h : Inv s) (kind : Kind) (now rand : UInt64)
    (hroom : (s.counterAt kind now).toNat < 2 ^ 48) : Inv (s.issue kind now rand) := by
  have hid := toNat_makeId rand hroom
  have hnext : (s.counterAt kind now + 1).toNat = (s.counterAt kind now).toNat + 1 := by
    rw [UInt64.toNat_add]
    exact Nat.mod_eq_of_lt (show (s.counterAt kind now).toNat + 1 < 2 ^ 64 by omega)
  have hrand : rand.toNat % 2 ^ 16 < 2 ^ 16 := Nat.mod_lt _ (by norm_num)
  refine ⟨⟨⟨?_, ?_⟩, h.ordered⟩, below_update h kind now ?_ rfl ?_⟩
  · apply UInt64.toNat_inj.mp
    rw [toNat_shiftRight]
    omega
  · intro e he hkind
    have hlt := h.below_at now he
    rw [hkind] at hlt
    show e.id.toNat < (makeId _ rand).toNat
    omega
  · show (s.counterAt kind now).toNat ≤ (s.counterAt kind now + 1).toNat
    omega
  · show (makeId _ rand).toNat < _
    omega

theorem restore_inv {s : State} (h : Inv s) (now id : UInt64) : Inv (s.restore now id) := by
  have hprev := toNat_shiftRight id
  have hid : id.toNat < 2 ^ 64 := id.toNat_lt
  have hnext : (id >>> randomBits + 1).toNat = id.toNat / 2 ^ 16 + 1 := by
    rw [UInt64.toNat_add, hprev]
    exact Nat.mod_eq_of_lt (show id.toNat / 2 ^ 16 + 1 < 2 ^ 64 by omega)
  refine ⟨h.ordered, below_update h .sandbox now ?_ rfl ?_⟩
  · split_ifs with hle
    · have hle' : (s.counterAt .sandbox now).toNat ≤ (id >>> randomBits).toNat := hle
      show (s.counterAt .sandbox now).toNat ≤ (id >>> randomBits + 1).toNat
      omega
    · exact Nat.le_refl (s.counterAt .sandbox now).toNat
  · show id.toNat < _
    split_ifs with hle
    · omega
    · have hlt : ¬ (s.counterAt .sandbox now).toNat ≤ (id >>> randomBits).toNat := hle
      omega

theorem step_inv {s s' : State} {a : Action} (h : Inv s) (hroom : Room s a)
    (hs : step s a = some s') : Inv s' := by
  cases a with
  | new now rand =>
    cases hs
    exact issue_inv h .sandbox now rand hroom
  | createContainer now rand =>
    cases hs
    exact issue_inv h .container now rand hroom
  | restore now id =>
    cases hs
    exact restore_inv h now id

theorem clock_zero : (Action.new 0 0).now.toNat < year2106 := by
  decide

theorem exists_run (n : ℕ) (hn : n < 2 ^ 63) : ∃ past s, Execution step start past s ∧
    (∀ e ∈ past, e.2.now.toNat < year2106) ∧ (s.counterAt .sandbox 0).toNat = n := by
  induction n with
  | zero => exact ⟨[], start, .start, by simp, rfl⟩
  | succ n ih =>
    obtain ⟨past, s, hrun, hclock, hcounter⟩ := ih (by omega)
    refine ⟨(s, .new 0 0) :: past, s.issue .sandbox 0 0, hrun.next rfl, ?_, ?_⟩
    · exact List.forall_mem_cons.mpr ⟨clock_zero, hclock⟩
    · show (s.counterAt .sandbox 0 + 1).toNat = n + 1
      rw [UInt64.toNat_add, hcounter]
      exact Nat.mod_eq_of_lt (show n + 1 < 2 ^ 64 by omega)

/-- **The ids of each kind grow**: in every run an id holds its counter whole and is above every id
of its kind that was issued or restored before. -/
theorem ids_ordered {past : List (State × Action)} {s : State} (h : Execution step start past s)
    (hroom : ∀ e ∈ past, Room e.1 e.2) : Ordered s.log := by
  have hinit : Inv start := by
    constructor
    · trivial
    · simp [start]
  exact (h.invariant_of hinit (fun _ _ _ hc hok hs => step_inv hc hok hs) hroom).ordered

/-- After an earlier process a sandbox is restored, and the clock is back at its start. -/
theorem ids_ordered_restored :
    Ordered [.issued .sandbox 6 (6 * 65536 + 9), .restored (5 * 65536 + 7)] := by
  have hrun : Execution step start _ _ :=
    (Execution.start.next (a := .restore 0 (5 * 65536 + 7)) rfl).next (a := .new 0 9) rfl
  exact ids_ordered hrun (by simp [Room, State.restore, State.counterAt, start]; decide)

/-- A sandbox and a container of the same second get one id, and a counter at `2 ^ 48` loses its
highest bit. -/
theorem not_unique :
    (∃ past s, Execution step start past s ∧ (∀ e ∈ past, e.2.now.toNat < year2106) ∧
      ¬ Unique s.log) ∧
    ∃ past s, Execution step start past s ∧ (∀ e ∈ past, e.2.now.toNat < year2106) ∧
      ¬ Ordered s.log := by
  constructor
  · have hrun : Execution step start _ _ :=
      (Execution.start.next (a := .new 0 0) rfl).next (a := .createContainer 0 0) rfl
    refine ⟨_, _, hrun, by decide, fun h => ?_⟩
    exact h.1 (.issued .sandbox 0 0) (List.mem_singleton.mpr rfl) rfl
  · obtain ⟨past, s, hrun, hclock, hcounter⟩ := exists_run (2 ^ 48) (by norm_num)
    refine ⟨_, _, hrun.next (a := .new 0 0) rfl, List.forall_mem_cons.mpr ⟨clock_zero, hclock⟩, ?_⟩
    intro h
    have hbase : s.counterAt .sandbox 0 = 2 ^ 48 := UInt64.toNat_inj.mp hcounter
    have hwhole : makeId (s.counterAt .sandbox 0) 0 >>> randomBits = s.counterAt .sandbox 0 := h.1.1
    rw [hbase] at hwhole
    exact absurd hwhole (by decide)

end Mowis.Sandboxes.Ids
