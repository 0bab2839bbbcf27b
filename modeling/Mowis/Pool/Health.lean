import Mowis.Lib.HashMap

/-!
# Health monitor and circuit breakers

`agentd/src/orchestration/health.rs`: heartbeats per agent and one circuit
breaker per sandbox.  Times are seconds, read from the clock by the caller and
passed in as `now`.  `is_sandbox_healthy` takes a read lock and, only when an
open circuit is due for a probe, a write lock; the two sections are separate
definitions and `isSandboxHealthy` runs them one after the other.
-/

namespace Mowis.Pool

open Mowis.Lib

inductive CircuitState where
  /-- Normal operation, work is dispatched. -/
  | closed
  /-- Too many failures, no work is sent. -/
  | open_
  /-- Probe state, one request tests recovery. -/
  | halfOpen
  deriving DecidableEq, Repr

structure CircuitBreaker where
  state : CircuitState
  consecutiveFailures : ℕ
  lastFailureTime : ℕ
  totalFailures : ℕ
  deriving DecidableEq, Repr

def CircuitBreaker.new : CircuitBreaker := ⟨.closed, 0, 0, 0⟩

structure HealthMonitor where
  heartbeats : HashMap String ℕ
  circuitBreakers : HashMap String CircuitBreaker
  heartbeatTimeoutSecs : ℕ
  failureThreshold : ℕ
  recoveryTimeoutSecs : ℕ

namespace HealthMonitor

def new (heartbeatTimeoutSecs failureThreshold : ℕ) : HealthMonitor where
  heartbeats := ∅
  circuitBreakers := ∅
  heartbeatTimeoutSecs := heartbeatTimeoutSecs
  failureThreshold := failureThreshold
  recoveryTimeoutSecs := 60

variable (h : HealthMonitor)

def heartbeat (now : ℕ) (agentId : String) : HealthMonitor :=
  { h with heartbeats := h.heartbeats.insert agentId now }

def removeAgent (agentId : String) : HealthMonitor :=
  { h with heartbeats := h.heartbeats.erase agentId }

def breaker (sandbox : String) : CircuitBreaker :=
  (h.circuitBreakers.lookup sandbox).getD CircuitBreaker.new

def recordFailure (now : ℕ) (sandbox : String) : HealthMonitor :=
  let cb := h.breaker sandbox
  let cb := { cb with
    consecutiveFailures := cb.consecutiveFailures + 1
    totalFailures := cb.totalFailures + 1
    lastFailureTime := now }
  let cb := if h.failureThreshold ≤ cb.consecutiveFailures then { cb with state := .open_ } else cb
  { h with circuitBreakers := h.circuitBreakers.insert sandbox cb }

def recordSuccess (sandbox : String) : HealthMonitor :=
  let cb := { h.breaker sandbox with consecutiveFailures := 0, state := .closed }
  { h with circuitBreakers := h.circuitBreakers.insert sandbox cb }

/-- The recovery timeout has passed since the last failure; `saturating_sub`. -/
def probeDue (now : ℕ) (cb : CircuitBreaker) : Bool :=
  decide (h.recoveryTimeoutSecs ≤ now - cb.lastFailureTime)

/-- The read-locked section: an answer, or `none` when the write lock is needed. -/
def checkCircuit (now : ℕ) (sandbox : String) : Option Bool :=
  match h.circuitBreakers.lookup sandbox with
  | none => some true
  | some cb =>
    match cb.state with
    | .closed => some true
    | .halfOpen => some true
    | .open_ => if h.probeDue now cb then none else some false

/-- The write-locked section: an open circuit still due for a probe becomes half-open. -/
def admitProbe (now : ℕ) (sandbox : String) : HealthMonitor :=
  match h.circuitBreakers.lookup sandbox with
  | none => h
  | some cb =>
    if cb.state = .open_ ∧ h.probeDue now cb then
      { h with circuitBreakers := h.circuitBreakers.insert sandbox { cb with state := .halfOpen } }
    else h

def isSandboxHealthy (now : ℕ) (sandbox : String) : HealthMonitor × Bool :=
  match h.checkCircuit now sandbox with
  | some answer => (h, answer)
  | none => (h.admitProbe now sandbox, true)

theorem exists_healthy (sandbox : String) : ∃ now, (h.isSandboxHealthy now sandbox).2 = true := by
  cases hl : h.circuitBreakers.lookup sandbox with
  | none => exact ⟨0, by simp [isSandboxHealthy, checkCircuit, hl]⟩
  | some cb =>
    refine ⟨cb.lastFailureTime + h.recoveryTimeoutSecs, ?_⟩
    cases hs : cb.state <;> simp [isSandboxHealthy, checkCircuit, hl, hs, probeDue]

end HealthMonitor

end Mowis.Pool
