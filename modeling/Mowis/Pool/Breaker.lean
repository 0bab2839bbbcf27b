import Mowis.Lib.Execution
import Mowis.Pool.Health

/-!
# Circuit breakers under concurrent workers

Workers record failures and successes of sandboxes and ask whether a sandbox is healthy.  The
read-locked and the write-locked section of `is_sandbox_healthy` are steps of their own, with the
time that was read before the first one.
-/

namespace Mowis.Pool

open Mowis.Lib

namespace HealthMonitor

variable (h : HealthMonitor)

theorem breaker_recordFailure (now : ℕ) (sandbox other : String) :
    (h.recordFailure now sandbox).breaker other =
      if other = sandbox then
        ⟨if h.failureThreshold ≤ (h.breaker sandbox).consecutiveFailures + 1 then .open_
          else (h.breaker sandbox).state,
          (h.breaker sandbox).consecutiveFailures + 1, now, (h.breaker sandbox).totalFailures + 1⟩
      else h.breaker other := by
  unfold HealthMonitor.recordFailure HealthMonitor.breaker
  simp only
  rw [HashMap.lookup_insert_eq_ite]
  by_cases ho : other = sandbox
  · rw [if_pos ho, if_pos ho, Option.getD_some]
    split <;> rfl
  · rw [if_neg ho, if_neg ho]

theorem breaker_recordSuccess (sandbox other : String) :
    (h.recordSuccess sandbox).breaker other =
      if other = sandbox then { h.breaker sandbox with consecutiveFailures := 0, state := .closed }
      else h.breaker other := by
  unfold HealthMonitor.recordSuccess HealthMonitor.breaker
  simp only
  rw [HashMap.lookup_insert_eq_ite]
  by_cases ho : other = sandbox
  · rw [if_pos ho, if_pos ho, Option.getD_some]
  · rw [if_neg ho, if_neg ho]

theorem admitProbe_cases (now : ℕ) (sandbox : String) :
    ((h.breaker sandbox).state = .open_ ∧ h.probeDue now (h.breaker sandbox) = true ∧
      ∀ other, (h.admitProbe now sandbox).breaker other =
        if other = sandbox then { h.breaker sandbox with state := .halfOpen }
        else h.breaker other) ∨
    (¬ ((h.breaker sandbox).state = .open_ ∧ h.probeDue now (h.breaker sandbox) = true) ∧
      h.admitProbe now sandbox = h) := by
  cases hl : h.circuitBreakers.lookup sandbox with
  | none =>
    have hnew : h.breaker sandbox = .new := by
      rw [HealthMonitor.breaker, hl]
      rfl
    refine .inr ⟨fun hopen => ?_, ?_⟩
    · rw [hnew] at hopen
      cases hopen.1
    · rw [HealthMonitor.admitProbe, hl]
  | some cb =>
    have hcb : h.breaker sandbox = cb := by
      rw [HealthMonitor.breaker, hl]
      rfl
    rw [HealthMonitor.admitProbe, hl, hcb]
    by_cases hopen : cb.state = .open_ ∧ h.probeDue now cb = true
    · refine .inl ⟨hopen.1, hopen.2, fun other => ?_⟩
      simp only [if_pos hopen]
      rw [HealthMonitor.breaker, HashMap.lookup_insert_eq_ite]
      by_cases ho : other = sandbox
      · rw [if_pos ho, if_pos ho, Option.getD_some]
      · rw [if_neg ho, if_neg ho]
        rfl
    · exact .inr ⟨hopen, if_neg hopen⟩

theorem admitProbe_threshold (now : ℕ) (sandbox : String) :
    (h.admitProbe now sandbox).failureThreshold = h.failureThreshold := by
  unfold HealthMonitor.admitProbe
  split
  · rfl
  · split <;> rfl

theorem checkCircuit_eq (now : ℕ) (sandbox : String) :
    h.checkCircuit now sandbox =
      match (h.breaker sandbox).state with
      | .closed => some true
      | .halfOpen => some true
      | .open_ => if h.probeDue now (h.breaker sandbox) then none else some false := by
  unfold HealthMonitor.checkCircuit HealthMonitor.breaker
  cases h.circuitBreakers.lookup sandbox <;> rfl

end HealthMonitor

namespace Breaker

/-- The monitor with its callers, and what has happened.  `checks` are the callers between the two
sections, `failures` those recorded since the last success, `probes` the calls that were answered
with `true` since the circuit is half-open, and `early` the sandboxes of which a call was answered
with `true` too soon. -/
structure State where
  monitor : HealthMonitor
  clock : ℕ
  checks : ℕ → Option (String × ℕ)
  failures : String → ℕ
  probes : String → ℕ
  early : Finset String

inductive Action where
  | tick (clock : ℕ)
  | recordFailure (sandbox : String)
  | recordSuccess (sandbox : String)
  | check (i : ℕ) (sandbox : String)
  | enter (i : ℕ)

namespace State

variable (s : State)

def start (heartbeatTimeoutSecs failureThreshold : ℕ) : State where
  monitor := .new heartbeatTimeoutSecs failureThreshold
  clock := 0
  checks _ := none
  failures _ := 0
  probes _ := 0
  early := ∅

def circuit (sandbox : String) : CircuitState := (s.monitor.breaker sandbox).state

/-- The circuit is open, and the recovery timeout since the last failure has not elapsed. -/
def tooSoon (sandbox : String) : Prop :=
  s.circuit sandbox = .open_ ∧
    s.monitor.probeDue s.clock (s.monitor.breaker sandbox) = false

instance (sandbox : String) : Decidable (s.tooSoon sandbox) :=
  inferInstanceAs (Decidable (_ ∧ _))

/-- A call of `is_sandbox_healthy` is answered, and leaves the monitor as given. -/
def answer (monitor : HealthMonitor) (sandbox : String) (healthy : Bool) : State :=
  { s with
    monitor
    probes :=
      if (monitor.breaker sandbox).state = .halfOpen ∧ healthy = true then
        Function.update s.probes sandbox (s.probes sandbox + 1)
      else s.probes
    early := if healthy = true ∧ s.tooSoon sandbox then insert sandbox s.early else s.early }

def outcome (monitor : HealthMonitor) (sandbox : String) (failures : ℕ) : State :=
  { s with
    monitor
    failures := Function.update s.failures sandbox failures
    probes := Function.update s.probes sandbox 0 }

end State

def step (s : State) : Action → Option State
  | .tick clock => if s.clock ≤ clock then some { s with clock } else none
  | .recordFailure sandbox =>
    some (s.outcome (s.monitor.recordFailure s.clock sandbox) sandbox (s.failures sandbox + 1))
  | .recordSuccess sandbox => some (s.outcome (s.monitor.recordSuccess sandbox) sandbox 0)
  | .check i sandbox =>
    if s.checks i = none then
      match s.monitor.checkCircuit s.clock sandbox with
      | some healthy => some (s.answer s.monitor sandbox healthy)
      | none => some { s with checks := Function.update s.checks i (some (sandbox, s.clock)) }
    else none
  | .enter i =>
    match s.checks i with
    | none => none
    | some (sandbox, now) =>
      some { s.answer (s.monitor.admitProbe now sandbox) sandbox true with
        checks := Function.update s.checks i none }

structure Protocol (s : State) (sandbox : String) : Prop where
  closed : s.circuit sandbox = .closed → s.failures sandbox < s.monitor.failureThreshold
  onTime : sandbox ∉ s.early
  oneProbe : s.circuit sandbox = .halfOpen → s.probes sandbox ≤ 1

/-- No call reads that the circuit is half-open, and none enters its write-locked section when it
is half-open already or is open for less than the recovery timeout. -/
def StepOk (s : State) : Action → Prop
  | .check _ sandbox => s.circuit sandbox ≠ .halfOpen
  | .enter i => ∀ sandbox now, s.checks i = some (sandbox, now) →
    s.circuit sandbox ≠ .halfOpen ∧ ¬ s.tooSoon sandbox
  | _ => True

/-! ### What every step preserves -/

structure Inv (threshold : ℕ) (s : State) : Prop where
  positive : 1 ≤ threshold
  threshold_eq : s.monitor.failureThreshold = threshold
  counted : ∀ sandbox, (s.monitor.breaker sandbox).consecutiveFailures = s.failures sandbox
  closed : ∀ sandbox, s.circuit sandbox = .closed → s.failures sandbox < threshold
  tripped : ∀ sandbox, s.circuit sandbox ≠ .closed → threshold ≤ s.failures sandbox
  probing : ∀ sandbox, s.circuit sandbox = .halfOpen → 1 ≤ s.probes sandbox
  settled : ∀ sandbox, s.circuit sandbox ≠ .halfOpen → s.probes sandbox = 0
  stamped : ∀ i sandbox now, s.checks i = some (sandbox, now) → now ≤ s.clock

section Step

variable {threshold : ℕ} {s s' : State}

theorem inv_start (timeout : ℕ) (h : 1 ≤ threshold) : Inv threshold (.start timeout threshold) where
  positive := h
  threshold_eq := rfl
  counted _ := rfl
  closed _ _ := h
  tripped _ hne := absurd rfl hne
  probing _ hhalf := nomatch hhalf
  settled _ _ := rfl
  stamped _ _ _ hi := nomatch hi

theorem Inv.keep (h : Inv threshold s) (hmonitor : s'.monitor = s.monitor)
    (hfailures : s'.failures = s.failures)
    (hprobes : ∀ sandbox, (s.circuit sandbox = .halfOpen → s.probes sandbox ≤ s'.probes sandbox) ∧
      (s.circuit sandbox ≠ .halfOpen → s'.probes sandbox = s.probes sandbox))
    (hstamped : ∀ i sandbox now, s'.checks i = some (sandbox, now) → now ≤ s'.clock) :
    Inv threshold s' := by
  have hcircuit : ∀ sandbox, s'.circuit sandbox = s.circuit sandbox := by
    intro sandbox
    rw [State.circuit, hmonitor]
    rfl
  constructor
  case positive => exact h.positive
  case threshold_eq => rw [hmonitor, h.threshold_eq]
  case counted => rw [hmonitor, hfailures]; exact h.counted
  case closed =>
    intro sandbox hclosed
    rw [hcircuit] at hclosed
    rw [hfailures]
    exact h.closed sandbox hclosed
  case tripped =>
    intro sandbox hne
    rw [hcircuit] at hne
    rw [hfailures]
    exact h.tripped sandbox hne
  case probing =>
    intro sandbox hhalf
    rw [hcircuit] at hhalf
    exact (h.probing sandbox hhalf).trans ((hprobes sandbox).1 hhalf)
  case settled =>
    intro sandbox hne
    rw [hcircuit] at hne
    rw [(hprobes sandbox).2 hne]
    exact h.settled sandbox hne
  case stamped => exact hstamped

theorem Inv.change (h : Inv threshold s) (sandbox : String) (cb : CircuitBreaker)
    (hthreshold : s'.monitor.failureThreshold = s.monitor.failureThreshold)
    (hbreaker : ∀ other, s'.monitor.breaker other =
      if other = sandbox then cb else s.monitor.breaker other)
    (hfailures : ∀ other ≠ sandbox, s'.failures other = s.failures other)
    (hprobes : ∀ other ≠ sandbox, s'.probes other = s.probes other)
    (hcounted : cb.consecutiveFailures = s'.failures sandbox)
    (hclosed : cb.state = .closed → s'.failures sandbox < threshold)
    (htripped : cb.state ≠ .closed → threshold ≤ s'.failures sandbox)
    (hprobing : cb.state = .halfOpen → 1 ≤ s'.probes sandbox)
    (hsettled : cb.state ≠ .halfOpen → s'.probes sandbox = 0)
    (hstamped : ∀ i sandbox now, s'.checks i = some (sandbox, now) → now ≤ s'.clock) :
    Inv threshold s' := by
  have hself : s'.monitor.breaker sandbox = cb := (hbreaker sandbox).trans (if_pos rfl)
  have hcircuit : ∀ other ≠ sandbox, s'.circuit other = s.circuit other := by
    intro other ho
    rw [State.circuit, hbreaker, if_neg ho]
    rfl
  have hone : s'.circuit sandbox = cb.state := congrArg CircuitBreaker.state hself
  constructor
  case positive => exact h.positive
  case threshold_eq => rw [hthreshold, h.threshold_eq]
  case counted =>
    intro other
    by_cases ho : other = sandbox
    · rw [ho, hself]
      exact hcounted
    · rw [hbreaker, if_neg ho, hfailures other ho]
      exact h.counted other
  case closed =>
    intro other hstate
    by_cases ho : other = sandbox
    · rw [ho] at hstate ⊢
      exact hclosed (hone ▸ hstate)
    · rw [hfailures other ho]
      exact h.closed other (hcircuit other ho ▸ hstate)
  case tripped =>
    intro other hstate
    by_cases ho : other = sandbox
    · rw [ho] at hstate ⊢
      exact htripped (hone ▸ hstate)
    · rw [hfailures other ho]
      exact h.tripped other (hcircuit other ho ▸ hstate)
  case probing =>
    intro other hstate
    by_cases ho : other = sandbox
    · rw [ho] at hstate ⊢
      exact hprobing (hone ▸ hstate)
    · rw [hprobes other ho]
      exact h.probing other (hcircuit other ho ▸ hstate)
  case settled =>
    intro other hstate
    by_cases ho : other = sandbox
    · rw [ho] at hstate ⊢
      exact hsettled (hone ▸ hstate)
    · rw [hprobes other ho]
      exact h.settled other (hcircuit other ho ▸ hstate)
  case stamped => exact hstamped

theorem Inv.answer (h : Inv threshold s) (sandbox : String) (healthy : Bool) :
    Inv threshold (s.answer s.monitor sandbox healthy) := by
  refine h.keep rfl rfl (fun other => ⟨fun _ => ?_, fun hne => ?_⟩) h.stamped
  · show _ ≤ (if _ then _ else _ : String → ℕ) other
    split
    · by_cases ho : other = sandbox
      · rw [ho, Function.update_self]
        exact Nat.le_succ _
      · rw [Function.update_of_ne ho]
    · exact le_refl _
  · show (if _ then _ else _ : String → ℕ) other = _
    split
    · next hprobe =>
      have ho : other ≠ sandbox := fun heq => hne (heq ▸ hprobe.1)
      rw [Function.update_of_ne ho]
    · rfl

theorem Inv.stamped_erase (h : Inv threshold s) (i : ℕ) :
    ∀ j sandbox now, Function.update s.checks i none j = some (sandbox, now) → now ≤ s.clock := by
  intro j sandbox now hj
  by_cases hij : j = i
  · rw [hij, Function.update_self] at hj
    cases hj
  · rw [Function.update_of_ne hij] at hj
    exact h.stamped j sandbox now hj

theorem Inv.recordFailure (h : Inv threshold s) (sandbox : String) :
    Inv threshold (s.outcome (s.monitor.recordFailure s.clock sandbox) sandbox
      (s.failures sandbox + 1)) := by
  have hfailures : Function.update s.failures sandbox (s.failures sandbox + 1) sandbox =
      s.failures sandbox + 1 := Function.update_self ..
  -- the circuit is open from as many failures on, and before that it is what it was
  have hstate : (if s.monitor.failureThreshold ≤ (s.monitor.breaker sandbox).consecutiveFailures + 1
      then CircuitState.open_ else (s.monitor.breaker sandbox).state) =
        if threshold ≤ s.failures sandbox + 1 then .open_ else s.circuit sandbox := by
    rw [h.threshold_eq, h.counted]
    rfl
  refine h.change sandbox _ rfl (HealthMonitor.breaker_recordFailure s.monitor s.clock sandbox)
    (fun other ho => Function.update_of_ne ho ..) (fun other ho => Function.update_of_ne ho ..)
    ?_ (fun hclosed => ?_) (fun hne => ?_) (fun hhalf => ?_) (fun _ => Function.update_self ..)
    h.stamped
  · show _ = Function.update s.failures sandbox _ sandbox
    rw [hfailures, h.counted]
  · show Function.update s.failures sandbox _ sandbox < threshold
    replace hclosed := hstate.symm.trans hclosed
    rw [hfailures]
    split at hclosed
    · cases hclosed
    · next hlt => exact Nat.lt_of_not_le hlt
  · show threshold ≤ Function.update s.failures sandbox _ sandbox
    rw [hfailures]
    by_cases hle : threshold ≤ s.failures sandbox + 1
    · exact hle
    · replace hne : (if threshold ≤ s.failures sandbox + 1 then .open_ else s.circuit sandbox) ≠
          CircuitState.closed := fun heq => hne (hstate.trans heq)
      rw [if_neg hle] at hne
      exact (h.tripped sandbox hne).trans (Nat.le_succ _)
  · replace hhalf := hstate.symm.trans hhalf
    split at hhalf
    · cases hhalf
    · next hlt =>
      -- a circuit that is half-open has more failures than this
      have hle := h.tripped sandbox (fun heq => nomatch heq.symm.trans hhalf)
      exact absurd (hle.trans (Nat.le_succ _)) hlt

theorem Inv.recordSuccess (h : Inv threshold s) (sandbox : String) :
    Inv threshold (s.outcome (s.monitor.recordSuccess sandbox) sandbox 0) := by
  have hfailures : Function.update s.failures sandbox 0 sandbox = 0 := Function.update_self ..
  refine h.change sandbox _ rfl (HealthMonitor.breaker_recordSuccess s.monitor sandbox)
    (fun other ho => Function.update_of_ne ho ..) (fun other ho => Function.update_of_ne ho ..)
    hfailures.symm (fun _ => ?_) (fun hne => absurd rfl hne) (fun hhalf => nomatch hhalf)
    (fun _ => Function.update_self ..) h.stamped
  show Function.update s.failures sandbox 0 sandbox < threshold
  rw [hfailures]
  exact h.positive

theorem probes_admitProbe {now : ℕ} {sandbox : String}
    (hbreaker : ∀ other, (s.monitor.admitProbe now sandbox).breaker other =
      if other = sandbox then { s.monitor.breaker sandbox with state := .halfOpen }
      else s.monitor.breaker other) :
    (s.answer (s.monitor.admitProbe now sandbox) sandbox true).probes =
      Function.update s.probes sandbox (s.probes sandbox + 1) := by
  have hself : ((s.monitor.admitProbe now sandbox).breaker sandbox).state = .halfOpen := by
    rw [hbreaker, if_pos rfl]
  exact if_pos ⟨hself, rfl⟩

theorem Inv.step {a : Action} (h : Inv threshold s) (hstep : step s a = some s') :
    Inv threshold s' := by
  cases a with
  | tick clock =>
    simp only [Breaker.step] at hstep
    split at hstep
    · next hle =>
      cases hstep
      exact h.keep rfl rfl (fun _ => ⟨fun _ => le_refl _, fun _ => rfl⟩)
        fun i sandbox now hi => (h.stamped i sandbox now hi).trans hle
    · cases hstep
  | recordFailure sandbox =>
    cases hstep
    exact h.recordFailure sandbox
  | recordSuccess sandbox =>
    cases hstep
    exact h.recordSuccess sandbox
  | check i sandbox =>
    simp only [Breaker.step] at hstep
    split at hstep
    · split at hstep
      · cases hstep
        exact h.answer sandbox _
      · cases hstep
        refine h.keep rfl rfl (fun _ => ⟨fun _ => le_refl _, fun _ => rfl⟩) fun j other now hj => ?_
        by_cases hij : j = i
        · rw [hij] at hj
          replace hj : Function.update s.checks i (some (sandbox, s.clock)) i = _ := hj
          rw [Function.update_self] at hj
          cases hj
          exact le_refl _
        · replace hj : Function.update s.checks i (some (sandbox, s.clock)) j = _ := hj
          rw [Function.update_of_ne hij] at hj
          exact h.stamped j other now hj
    · cases hstep
  | enter i =>
    simp only [Breaker.step] at hstep
    split at hstep
    · cases hstep
    · next sandbox now hi =>
      cases hstep
      rcases HealthMonitor.admitProbe_cases s.monitor now sandbox with
        ⟨hopen, -, hbreaker⟩ | ⟨-, hsame⟩
      · have hprobes := probes_admitProbe hbreaker
        have htripped := h.tripped sandbox fun heq => nomatch hopen.symm.trans heq
        refine h.change sandbox _ (HealthMonitor.admitProbe_threshold ..) hbreaker (fun _ _ => rfl)
          (fun other ho => ?_) (h.counted sandbox) (fun hclosed => nomatch hclosed)
          (fun _ => htripped) (fun _ => ?_) (fun hne => absurd rfl hne) (h.stamped_erase i)
        · exact (congrFun hprobes other).trans (Function.update_of_ne ho ..)
        · show 1 ≤ (s.answer (s.monitor.admitProbe now sandbox) sandbox true).probes sandbox
          rw [hprobes, Function.update_self]
          exact Nat.le_add_left 1 _
      · rw [hsame]
        exact { h.answer sandbox true with stamped := h.stamped_erase i }

theorem Inv.forall_protocol_iff (h : Inv threshold s) : (∀ sandbox, Protocol s sandbox) ↔
    ∀ sandbox, sandbox ∉ s.early ∧ (s.circuit sandbox = .halfOpen → s.probes sandbox ≤ 1) := by
  constructor
  · exact fun hall sandbox => ⟨(hall sandbox).onTime, (hall sandbox).oneProbe⟩
  · refine fun hall sandbox => ⟨fun hclosed => ?_, (hall sandbox).1, (hall sandbox).2⟩
    rw [h.threshold_eq]
    exact h.closed sandbox hclosed

theorem Inv.answer_iff (h : Inv threshold s) (hgood : ∀ sandbox, Protocol s sandbox)
    (sandbox : String) : (∀ other, other ∉ (s.answer s.monitor sandbox true).early ∧
      ((s.answer s.monitor sandbox true).circuit other = .halfOpen →
        (s.answer s.monitor sandbox true).probes other ≤ 1)) ↔
      s.circuit sandbox ≠ .halfOpen ∧ ¬ s.tooSoon sandbox := by
  have hcircuit : ∀ other, (s.answer s.monitor sandbox true).circuit other = s.circuit other :=
    fun _ => rfl
  constructor
  · intro hall
    obtain ⟨hearly, hprobes⟩ := hall sandbox
    refine ⟨fun hhalf => ?_, fun hsoon => hearly ?_⟩
    · have hcount : (s.answer s.monitor sandbox true).probes sandbox = s.probes sandbox + 1 := by
        show (if _ then _ else _ : String → ℕ) sandbox = _
        rw [if_pos ⟨hhalf, rfl⟩, Function.update_self]
      have hle := hprobes hhalf
      have hone := h.probing sandbox hhalf
      omega
    · show sandbox ∈ (if _ then _ else _ : Finset String)
      rw [if_pos ⟨rfl, hsoon⟩]
      exact Finset.mem_insert_self _ _
  · rintro ⟨hne, hsoon⟩ other
    have hearly : (s.answer s.monitor sandbox true).early = s.early :=
      if_neg fun hboth => hsoon hboth.2
    have hcount : (s.answer s.monitor sandbox true).probes = s.probes :=
      if_neg fun hboth => hne hboth.1
    rw [hearly, hcount]
    exact ⟨(hgood other).onTime, (hgood other).oneProbe⟩

theorem Inv.step_iff {a : Action} (h : Inv threshold s) (hgood : ∀ sandbox, Protocol s sandbox)
    (hstep : Breaker.step s a = some s') :
    (∀ sandbox, Protocol s' sandbox) ↔ StepOk s a := by
  have h' := h.step hstep
  rw [h'.forall_protocol_iff]
  have hkeep : ∀ {sandbox}, sandbox ∉ s.early ∧
      (s.circuit sandbox = .halfOpen → s.probes sandbox ≤ 1) :=
    fun {sandbox} => ⟨(hgood sandbox).onTime, (hgood sandbox).oneProbe⟩
  -- after an outcome there is no probe
  have houtcome : ∀ monitor sandbox failures, (∀ other ≠ sandbox,
      monitor.breaker other = s.monitor.breaker other) → ∀ other,
      other ∉ (s.outcome monitor sandbox failures).early ∧
        ((s.outcome monitor sandbox failures).circuit other = .halfOpen →
          (s.outcome monitor sandbox failures).probes other ≤ 1) := by
    intro monitor sandbox failures hother other
    refine ⟨(hgood other).onTime, fun hhalf => ?_⟩
    show Function.update s.probes sandbox 0 other ≤ 1
    by_cases ho : other = sandbox
    · rw [ho, Function.update_self]
      exact Nat.zero_le 1
    · rw [Function.update_of_ne ho]
      refine (hgood other).oneProbe ?_
      replace hhalf : (monitor.breaker other).state = .halfOpen := hhalf
      rw [hother other ho] at hhalf
      exact hhalf
  cases a with
  | tick clock =>
    simp only [Breaker.step] at hstep
    split at hstep
    · cases hstep
      exact iff_of_true (fun _ => hkeep) trivial
    · cases hstep
  | recordFailure sandbox =>
    cases hstep
    refine iff_of_true (houtcome _ sandbox _ fun other ho => ?_) trivial
    rw [HealthMonitor.breaker_recordFailure, if_neg ho]
  | recordSuccess sandbox =>
    cases hstep
    refine iff_of_true (houtcome _ sandbox _ fun other ho => ?_) trivial
    rw [HealthMonitor.breaker_recordSuccess, if_neg ho]
  | check i sandbox =>
    simp only [Breaker.step] at hstep
    split at hstep
    · rw [HealthMonitor.checkCircuit_eq] at hstep
      show _ ↔ s.circuit sandbox ≠ .halfOpen
      have hsoon : s.circuit sandbox ≠ .open_ → ¬ s.tooSoon sandbox := fun hne hsoon =>
        hne hsoon.1
      cases hcircuit : (s.monitor.breaker sandbox).state with
      | closed =>
        rw [hcircuit] at hstep
        cases hstep
        have hne : s.circuit sandbox ≠ .open_ := fun heq => nomatch hcircuit.symm.trans heq
        rw [h.answer_iff hgood sandbox]
        exact and_iff_left (hsoon hne)
      | halfOpen =>
        rw [hcircuit] at hstep
        cases hstep
        have hne : s.circuit sandbox ≠ .open_ := fun heq => nomatch hcircuit.symm.trans heq
        rw [h.answer_iff hgood sandbox]
        exact and_iff_left (hsoon hne)
      | open_ =>
        have hne : s.circuit sandbox ≠ .halfOpen := fun heq => nomatch hcircuit.symm.trans heq
        rw [hcircuit] at hstep
        cases hdue : s.monitor.probeDue s.clock (s.monitor.breaker sandbox) with
        | true =>
          rw [hdue] at hstep
          cases hstep
          exact iff_of_true (fun _ => hkeep) hne
        | false =>
          rw [hdue] at hstep
          cases hstep
          have hearly : (s.answer s.monitor sandbox false).early = s.early := by
            show (if false = true ∧ s.tooSoon sandbox then insert sandbox s.early else s.early) = _
            exact if_neg fun hboth => Bool.false_ne_true hboth.1
          have hprobes : (s.answer s.monitor sandbox false).probes = s.probes :=
            if_neg fun hboth => Bool.false_ne_true hboth.2
          refine iff_of_true (fun other => ?_) hne
          rw [hearly, hprobes]
          exact hkeep
    · cases hstep
  | enter i =>
    simp only [Breaker.step] at hstep
    split at hstep
    · cases hstep
    · next sandbox now hi =>
      cases hstep
      have hok : StepOk s (.enter i) ↔ s.circuit sandbox ≠ .halfOpen ∧ ¬ s.tooSoon sandbox := by
        constructor
        · exact fun hok => hok sandbox now hi
        · intro hok sandbox' now' hi'
          cases hi.symm.trans hi'
          exact hok
      rw [hok]
      rcases HealthMonitor.admitProbe_cases s.monitor now sandbox with
        ⟨hopen, hdue, hbreaker⟩ | ⟨-, hsame⟩
      · -- the time has only moved on since the call was made
        have hdueNow : s.monitor.probeDue s.clock (s.monitor.breaker sandbox) = true := by
          have hle := h.stamped i sandbox now hi
          have hdue := of_decide_eq_true hdue
          exact decide_eq_true (hdue.trans (Nat.sub_le_sub_right hle _))
        have hsoon : ¬ s.tooSoon sandbox := fun hsoon => nomatch hdueNow.symm.trans hsoon.2
        have hhalf : s.circuit sandbox ≠ .halfOpen := fun heq => nomatch hopen.symm.trans heq
        have hprobes := probes_admitProbe hbreaker
        have hearly : (s.answer (s.monitor.admitProbe now sandbox) sandbox true).early = s.early :=
          if_neg fun hboth => hsoon hboth.2
        refine iff_of_true (fun other => ⟨?_, fun hother => ?_⟩) ⟨hhalf, hsoon⟩
        · show other ∉ (s.answer (s.monitor.admitProbe now sandbox) sandbox true).early
          rw [hearly]
          exact (hgood other).onTime
        · show (s.answer (s.monitor.admitProbe now sandbox) sandbox true).probes other ≤ 1
          rw [hprobes]
          by_cases ho : other = sandbox
          · rw [ho, Function.update_self, h.settled sandbox hhalf]
          · rw [Function.update_of_ne ho]
            refine (hgood other).oneProbe ?_
            replace hother : ((s.monitor.admitProbe now sandbox).breaker other).state =
              .halfOpen := hother
            rw [hbreaker, if_neg ho] at hother
            exact hother
      · rw [hsame]
        exact h.answer_iff hgood sandbox

end Step

/-- **The promise is kept in a run if and only if no call of it reads a half-open circuit, and none
comes to its write-locked section when the circuit is half-open, or is open too short a time.** -/
theorem protocol_iff {timeout threshold : ℕ} {past : List (State × Action)} {s : State}
    (hthreshold : 1 ≤ threshold)
    (hrun : Execution step (.start timeout threshold) past s) :
    ((∀ e ∈ past, ∀ sandbox, Protocol e.1 sandbox) ∧ ∀ sandbox, Protocol s sandbox) ↔
      ∀ e ∈ past, StepOk e.1 e.2 := by
  refine hrun.good_iff (I := Inv threshold) (inv_start timeout hthreshold)
    (fun _ _ _ h hstep => h.step hstep) (fun sandbox => ⟨fun _ => hthreshold, ?_, fun h => ?_⟩)
    fun _ _ _ h hgood hstep => h.step_iff hgood hstep
  · exact Finset.notMem_empty sandbox
  · cases h

def ran (as : List Action) : List (State × Action) × State :=
  (Execution.runActions step as [] (.start 30 1)).getD ([], .start 30 1)

theorem execution_ran (as : List Action)
    (h : (Execution.runActions step as [] (.start 30 1)).isSome = true) :
    Execution step (.start 30 1) (ran as).1 (ran as).2 := by
  obtain ⟨r, hr⟩ := Option.isSome_iff_exists.mp h
  refine Execution.start.ofRun (hr.trans ?_)
  rw [ran, hr]
  rfl

instance (s : State) (a : Action) : Decidable (StepOk s a) :=
  match a with
  | .tick _ | .recordFailure _ | .recordSuccess _ => isTrue trivial
  | .check _ sandbox => inferInstanceAs (Decidable (s.circuit sandbox ≠ .halfOpen))
  | .enter i =>
    match h : s.checks i with
    | none => isTrue fun _ _ hi => nomatch h.symm.trans hi
    | some (sandbox, now) =>
      decidable_of_iff (s.circuit sandbox ≠ .halfOpen ∧ ¬ s.tooSoon sandbox)
        ⟨fun hok _ _ hi => by cases h.symm.trans hi; exact hok, fun hok => hok sandbox now h⟩

/-- A failure, and a probe a minute later that succeeds. -/
def recovery : List Action :=
  [.recordFailure "app", .tick 60, .check 0 "app", .enter 0, .recordSuccess "app", .check 1 "app"]

theorem protocol_of_recovery : (∀ e ∈ (ran recovery).1, ∀ sandbox, Protocol e.1 sandbox) ∧
    ∀ sandbox, Protocol (ran recovery).2 sandbox :=
  (protocol_iff (by decide) (execution_ran recovery (by decide))).mpr (by decide)

def twoProbes : List Action :=
  [.recordFailure "app", .tick 60, .check 0 "app", .enter 0, .check 1 "app"]

/-- A worker fails while another one is between its two sections, and that one is answered with
`true` all the same. -/
def lateFailure : List Action :=
  [.recordFailure "app", .tick 60, .check 0 "app", .recordFailure "app", .enter 0]

theorem not_protocol :
    (Execution step (.start 30 1) (ran twoProbes).1 (ran twoProbes).2 ∧
      ¬ Protocol (ran twoProbes).2 "app") ∧
    (Execution step (.start 30 1) (ran lateFailure).1 (ran lateFailure).2 ∧
      ¬ Protocol (ran lateFailure).2 "app") := by
  constructor
  · refine ⟨execution_ran twoProbes (by decide), fun h => ?_⟩
    have htwo : (ran twoProbes).2.probes "app" = 2 := by decide
    have hle := h.oneProbe (by decide)
    omega
  · refine ⟨execution_ran lateFailure (by decide), fun h => h.onTime ?_⟩
    decide

end Breaker

end Mowis.Pool
