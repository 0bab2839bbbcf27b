import Mowis.Executor.Protocol
import Mowis.Lib.Execution

/-!
# Calls over one connection of the host

`TcpConnection` and `VsockConnection` of `mowis-host/src/transport/mod.rs`, whose code for
calls is the same: callers put a sender under the number of their call and write the request;
one loop reads the replies, looks the sender up, and takes it out after a reply that ends the
answer.
-/

namespace Mowis.Transport

open Mowis.Executor (Payload Envelope Decoder)
open Mowis.Lib

/-- Where a call is in `call_streaming`: it has its number; its sender is in the table; the
request is written, or the write has failed. -/
inductive Phase where
  | unused
  | numbered
  | registered
  | waiting
  | failed
  deriving DecidableEq, Repr

def Phase.isRegistered : Phase → Bool
  | registered | waiting | failed => true
  | _ => false

/-- A call: what its receiver yields.  The replies to its number that the loop has looked up
since it was registered are recorded beside it. -/
structure Call where
  phase : Phase
  received : List Payload
  arrived : List Payload

def Call.unused : Call := ⟨.unused, [], []⟩

def Call.setPhase (call : Call) (phase : Phase) : Call := { call with phase }

/-- A reply has been looked up; `found` says whether the sender was in the table. -/
def Call.reply (call : Call) (p : Payload) (found : Bool) : Call where
  phase := call.phase
  received := if found then call.received ++ [p] else call.received
  arrived := if call.phase.isRegistered then call.arrived ++ [p] else call.arrived

/-- The read loop: between two lines, about to remove a number, or ended. -/
inductive Reader where
  | reading
  | removing (id : ℕ) (found : Bool)
  | ended
  deriving DecidableEq, Repr

structure Conn where
  nextId : ℕ
  calls : ℕ → Call
  inflight : Finset ℕ
  reader : Reader

def Conn.start : Conn := ⟨1, fun _ => .unused, ∅, .reading⟩

inductive Action where
  | number
  | register (id : ℕ)
  | written (id : ℕ)
  | writeFailed (id : ℕ)
  | line (line : String)
  | remove
  /-- The end of the stream, or an error of `read_line`. -/
  | close
  deriving DecidableEq, Repr

namespace Conn

def setPhase (c : Conn) (id : ℕ) (phase : Phase) : Conn :=
  { c with calls := Function.update c.calls id ((c.calls id).setPhase phase) }

/-- The lookup of a reply; the removal is a step of its own. -/
def deliver (c : Conn) (env : Envelope) : Conn :=
  let found := decide (env.id ∈ c.inflight)
  { c with
    calls := Function.update c.calls env.id ((c.calls env.id).reply env.payload found)
    reader := if env.payload.isTerminal then .removing env.id found else .reading }

end Conn

def step (decode : Decoder) (c : Conn) : Action → Option Conn
  | .number => some { c.setPhase c.nextId .numbered with nextId := c.nextId + 1 }
  | .register id =>
    if (c.calls id).phase = .numbered then
      some { c.setPhase id .registered with inflight := insert id c.inflight }
    else none
  | .written id => if (c.calls id).phase = .registered then some (c.setPhase id .waiting) else none
  | .writeFailed id =>
    if (c.calls id).phase = .registered then some (c.setPhase id .failed) else none
  | .line line =>
    if c.reader = .reading then
      match decode line with
      | .ok env => some (c.deliver env)
      | .error _ => some c
    else none
  | .remove =>
    match c.reader with
    | .removing id _ => some { c with inflight := c.inflight.erase id, reader := .reading }
    | _ => none
  | .close => if c.reader = .reading then some { c with reader := .ended } else none

def upToTerminal : List Payload → List Payload
  | [] => []
  | p :: ps => if p.isTerminal then [p] else p :: upToTerminal ps

def HasTerminal (ps : List Payload) : Prop := ∃ p ∈ ps, p.isTerminal = true

/-- Every receiver yields the payloads for its own number up to the first terminal one, and
its sender is not dropped before. -/
structure Routed (c : Conn) : Prop where
  received : ∀ id, (c.calls id).received = upToTerminal (c.calls id).arrived
  kept : ∀ id, (c.calls id).phase.isRegistered = true → id ∉ c.inflight →
    HasTerminal (c.calls id).received

/-- When the loop has ended, only calls that are still being written are registered: no other
call waits for a reply, or is left in the table. -/
def Settled (c : Conn) : Prop :=
  c.reader = .ended → ∀ id ∈ c.inflight, (c.calls id).phase = .registered

structure Multiplexed (c : Conn) : Prop where
  routed : Routed c
  settled : Settled c

/-- The steps that keep the promise: the loop does not end while a call waits, no write of a
registered call ends after the loop, and no call is registered between the lookup and the
removal of its number. -/
def StepOk (c : Conn) : Action → Prop
  | .written id | .writeFailed id => c.reader = .ended → id ∉ c.inflight
  | .remove => ∀ id, c.reader = .removing id false → id ∉ c.inflight
  | .close => ∀ id ∈ c.inflight, (c.calls id).phase = .registered
  | _ => True

theorem upToTerminal_append_of_not {ps : List Payload} (h : ¬ HasTerminal ps) (p : Payload) :
    upToTerminal (ps ++ [p]) = ps ++ [p] := by
  induction ps with
  | nil => cases hp : p.isTerminal <;> simp [upToTerminal, hp]
  | cons q ps ih =>
    have hq : q.isTerminal = false :=
      Bool.eq_false_of_not_eq_true fun hq => h ⟨q, List.mem_cons_self, hq⟩
    have hps : ¬ HasTerminal ps := fun ⟨r, hr, ht⟩ => h ⟨r, List.mem_cons_of_mem _ hr, ht⟩
    rw [List.cons_append, upToTerminal, hq, ih hps]
    rfl

theorem upToTerminal_append_of_has {ps : List Payload} (h : HasTerminal ps) (p : Payload) :
    upToTerminal (ps ++ [p]) = upToTerminal ps := by
  induction ps with
  | nil =>
    obtain ⟨q, hq, -⟩ := h
    cases hq
  | cons q ps ih =>
    rw [List.cons_append, upToTerminal, upToTerminal]
    cases hq : q.isTerminal with
    | true => rfl
    | false =>
      obtain ⟨r, hr, ht⟩ := h
      rcases List.mem_cons.mp hr with rfl | hr
      · rw [hq] at ht
        cases ht
      · rw [ih ⟨r, hr, ht⟩]

theorem hasTerminal_upToTerminal {ps : List Payload} (h : HasTerminal (upToTerminal ps)) :
    HasTerminal ps := by
  induction ps with
  | nil => exact h
  | cons p ps ih =>
    cases hp : p.isTerminal with
    | true => exact ⟨p, List.mem_cons_self, hp⟩
    | false =>
      rw [upToTerminal, hp] at h
      obtain ⟨q, hq, ht⟩ := h
      rcases List.mem_cons.mp hq with rfl | hq
      · rw [hp] at ht
        cases ht
      · obtain ⟨r, hr, hrt⟩ := ih ⟨q, hq, ht⟩
        exact ⟨r, List.mem_cons_of_mem _ hr, hrt⟩

/-! ### One step -/

/-- What every step keeps, whether the promise holds or not. -/
structure Inv (c : Conn) : Prop where
  next : ∀ id, c.nextId ≤ id → (c.calls id).phase = .unused
  inflight : ∀ id ∈ c.inflight, (c.calls id).phase.isRegistered = true
  fresh : ∀ id, (c.calls id).phase.isRegistered = false →
    (c.calls id).received = [] ∧ (c.calls id).arrived = []
  waiting : ∀ id ∈ c.inflight, c.reader ≠ .removing id true →
    (c.calls id).received = (c.calls id).arrived ∧ ¬ HasTerminal (c.calls id).arrived
  removing : ∀ id, c.reader = .removing id true → HasTerminal (c.calls id).received

theorem inv_start : Inv .start where
  next _ _ := rfl
  inflight id hid := absurd hid (Finset.notMem_empty id)
  fresh _ _ := ⟨rfl, rfl⟩
  waiting id hid := absurd hid (Finset.notMem_empty id)
  removing _ h := nomatch h

theorem multiplexed_start : Multiplexed .start where
  routed := ⟨fun _ => rfl, fun _ h => nomatch h⟩
  settled h := nomatch h

theorem setPhase_calls (c : Conn) (id id' : ℕ) (phase : Phase) :
    (c.setPhase id phase).calls id' =
      if id' = id then (c.calls id).setPhase phase else c.calls id' :=
  Function.update_apply _ _ _ _

theorem deliver_calls (c : Conn) (env : Envelope) (id : ℕ) :
    (c.deliver env).calls id =
      if id = env.id then (c.calls env.id).reply env.payload (decide (env.id ∈ c.inflight))
      else c.calls id :=
  Function.update_apply _ _ _ _

theorem deliver_reader (c : Conn) (env : Envelope) (id : ℕ) (found : Bool) :
    (c.deliver env).reader = .removing id found ↔
      env.payload.isTerminal = true ∧ env.id = id ∧ decide (env.id ∈ c.inflight) = found := by
  show (if env.payload.isTerminal then _ else _) = _ ↔ _
  cases env.payload.isTerminal <;> simp

theorem Inv.setPhase {c : Conn} (h : Inv c) {id : ℕ} {phase : Phase} (hused : id < c.nextId)
    (hreg : (c.calls id).phase.isRegistered = true → phase.isRegistered = true)
    (hfresh : phase.isRegistered = false → (c.calls id).phase.isRegistered = false) :
    Inv (c.setPhase id phase) where
  next id' hid' := by
    have hne : id' ≠ id := by
      rintro rfl
      exact absurd hused (Nat.not_lt.mpr hid')
    rw [setPhase_calls, if_neg hne]
    exact h.next id' hid'
  inflight id' hid' := by
    rw [setPhase_calls]
    split
    · next heq =>
      subst heq
      exact hreg (h.inflight _ hid')
    · exact h.inflight id' hid'
  fresh id' := by
    rw [setPhase_calls]
    split
    · next heq =>
      subst heq
      exact fun hp => h.fresh _ (hfresh hp)
    · exact h.fresh id'
  waiting id' hid' hr := by
    rw [setPhase_calls]
    split
    · next heq =>
      subst heq
      exact h.waiting _ hid' hr
    · exact h.waiting id' hid' hr
  removing id' hr := by
    rw [setPhase_calls]
    split
    · next heq =>
      subst heq
      exact h.removing _ hr
    · exact h.removing id' hr

theorem Inv.lt_nextId {c : Conn} (h : Inv c) {id : ℕ} (hused : (c.calls id).phase ≠ .unused) :
    id < c.nextId := Nat.lt_of_not_le fun hle => hused (h.next id hle)

theorem not_hasTerminal_nil : ¬ HasTerminal [] := fun ⟨_, hp, _⟩ => by cases hp

theorem Inv.register {c : Conn} (h : Inv c) {id : ℕ} (hphase : (c.calls id).phase = .numbered) :
    Inv { c.setPhase id .registered with inflight := insert id c.inflight } := by
  have hused : id < c.nextId := h.lt_nextId (by rw [hphase]; decide)
  have hset : Inv (c.setPhase id .registered) :=
    h.setPhase hused (fun _ => rfl) (fun hp => nomatch hp)
  have hempty := h.fresh id (by rw [hphase]; rfl)
  refine ⟨hset.next, fun id' hid' => ?_, hset.fresh, fun id' hid' hr => ?_, hset.removing⟩
  · rcases Finset.mem_insert.mp hid' with rfl | hid'
    · show ((c.setPhase id' .registered).calls id').phase.isRegistered = true
      rw [setPhase_calls, if_pos rfl]
      rfl
    · exact hset.inflight id' hid'
  · rcases Finset.mem_insert.mp hid' with rfl | hid'
    · show ((c.setPhase id' .registered).calls id').received = _ ∧ _
      rw [setPhase_calls, if_pos rfl]
      show (c.calls id').received = (c.calls id').arrived ∧ ¬ HasTerminal (c.calls id').arrived
      rw [hempty.1, hempty.2]
      exact ⟨rfl, not_hasTerminal_nil⟩
    · exact hset.waiting id' hid' hr

theorem hasTerminal_append {ps : List Payload} {p : Payload} :
    HasTerminal (ps ++ [p]) ↔ HasTerminal ps ∨ p.isTerminal = true := by
  simp [HasTerminal, or_and_right, exists_or]

theorem Inv.deliver {c : Conn} (h : Inv c) (hreading : c.reader = .reading) (env : Envelope) :
    Inv (c.deliver env) := by
  have hne : ∀ id, c.reader ≠ .removing id true := fun id hr => by
    rw [hreading] at hr
    cases hr
  refine ⟨fun id hid => ?_, fun id hid => ?_, fun id hp => ?_, fun id hid hr => ?_, fun id hr => ?_⟩
  · rw [deliver_calls]
    split
    · next heq => exact h.next env.id (heq ▸ hid)
    · exact h.next id hid
  · rw [deliver_calls]
    split
    · next heq => exact h.inflight env.id (heq ▸ hid)
    · exact h.inflight id hid
  · rw [deliver_calls] at hp ⊢
    split at hp
    · next heq =>
      rw [if_pos heq]
      have hreg : (c.calls env.id).phase.isRegistered = false := hp
      have hout : env.id ∉ c.inflight := fun hin =>
        Bool.noConfusion (hreg.symm.trans (h.inflight _ hin))
      simpa [Call.reply, hreg, hout] using h.fresh env.id hreg
    · next heq =>
      rw [if_neg heq]
      exact h.fresh id hp
  · rw [deliver_calls]
    split
    · next heq =>
      subst heq
      have hin : env.id ∈ c.inflight := hid
      obtain ⟨hsame, hopen⟩ := h.waiting env.id hin (hne _)
      have hp : ¬ env.payload.isTerminal = true := fun hp =>
        hr ((deliver_reader c env env.id true).mpr ⟨hp, rfl, decide_eq_true hin⟩)
      simp [Call.reply, h.inflight _ hin, hin, hsame, hasTerminal_append, hopen, hp]
    · exact h.waiting id hid (hne _)
  · obtain ⟨hp, rfl, hin⟩ := (deliver_reader c env id true).mp hr
    rw [deliver_calls, if_pos rfl]
    simp only [Call.reply, hin, if_true, hasTerminal_append, hp, or_true]

theorem Inv.remove {c : Conn} (h : Inv c) {id : ℕ} {found : Bool}
    (hr : c.reader = .removing id found) :
    Inv { c with inflight := c.inflight.erase id, reader := .reading } where
  next := h.next
  inflight id' hid' := h.inflight id' (Finset.mem_of_mem_erase hid')
  fresh := h.fresh
  waiting id' hid' _ := by
    refine h.waiting id' (Finset.mem_of_mem_erase hid') fun hr' => ?_
    rw [hr] at hr'
    cases hr'
    exact Finset.notMem_erase id _ hid'
  removing _ hr' := nomatch hr'

theorem step_cases {decode : Decoder} {c c' : Conn} {a : Action} (h : step decode c a = some c') :
    (a = .number ∧ c' = { c.setPhase c.nextId .numbered with nextId := c.nextId + 1 }) ∨
    (∃ id, a = .register id ∧ (c.calls id).phase = .numbered ∧
      c' = { c.setPhase id .registered with inflight := insert id c.inflight }) ∨
    (∃ id phase, (a = .written id ∧ phase = .waiting ∨ a = .writeFailed id ∧ phase = .failed) ∧
      (c.calls id).phase = .registered ∧ c' = c.setPhase id phase) ∨
    (∃ line, a = .line line ∧ c.reader = .reading ∧
      (c' = c ∨ ∃ env, decode line = .ok env ∧ c' = c.deliver env)) ∨
    (∃ id found, a = .remove ∧ c.reader = .removing id found ∧
      c' = { c with inflight := c.inflight.erase id, reader := .reading }) ∨
    (a = .close ∧ c.reader = .reading ∧ c' = { c with reader := .ended }) := by
  cases a with
  | number => exact .inl ⟨rfl, (Option.some.inj h).symm⟩
  | register id =>
    rw [step] at h
    split at h
    · next hp => exact .inr (.inl ⟨id, rfl, hp, (Option.some.inj h).symm⟩)
    · cases h
  | written id =>
    rw [step] at h
    split at h
    · next hp =>
      exact .inr (.inr (.inl ⟨id, _, .inl ⟨rfl, rfl⟩, hp, (Option.some.inj h).symm⟩))
    · cases h
  | writeFailed id =>
    rw [step] at h
    split at h
    · next hp =>
      exact .inr (.inr (.inl ⟨id, _, .inr ⟨rfl, rfl⟩, hp, (Option.some.inj h).symm⟩))
    · cases h
  | line line =>
    rw [step] at h
    split at h
    · next hr =>
      refine .inr (.inr (.inr (.inl ⟨line, rfl, hr, ?_⟩)))
      split at h
      · next env hline => exact .inr ⟨env, hline, (Option.some.inj h).symm⟩
      · exact .inl (Option.some.inj h).symm
    · cases h
  | remove =>
    rw [step] at h
    split at h
    · next id found hr =>
      exact .inr (.inr (.inr (.inr (.inl ⟨id, found, rfl, hr, (Option.some.inj h).symm⟩))))
    · cases h
  | close =>
    rw [step] at h
    split at h
    · next hr => exact .inr (.inr (.inr (.inr (.inr ⟨rfl, hr, (Option.some.inj h).symm⟩))))
    · cases h

theorem Inv.step {decode : Decoder} {c c' : Conn} {a : Action} (h : Inv c)
    (hs : step decode c a = some c') : Inv c' := by
  obtain ⟨-, rfl⟩ | ⟨id, -, hp, rfl⟩ | ⟨id, phase, ha, hp, rfl⟩ | ⟨line, -, hr, rfl | ⟨env, -, rfl⟩⟩ |
    ⟨id, found, -, hr, rfl⟩ | ⟨-, hr, rfl⟩ := step_cases hs
  · have hunused := h.next _ le_rfl
    have hbump : Inv { c with nextId := c.nextId + 1 } :=
      ⟨fun id hid => h.next id (Nat.le_of_succ_le hid), h.inflight, h.fresh, h.waiting, h.removing⟩
    refine hbump.setPhase (Nat.lt_succ_self _) (fun hreg => ?_) (fun _ => ?_)
    · rw [show (c.calls c.nextId).phase = .unused from hunused] at hreg
      cases hreg
    · rw [show (c.calls c.nextId).phase = .unused from hunused]
      rfl
  · exact h.register hp
  · have hused : id < c.nextId := h.lt_nextId (by rw [hp]; decide)
    have hreg : phase.isRegistered = true := by
      obtain ⟨-, rfl⟩ | ⟨-, rfl⟩ := ha <;> rfl
    exact h.setPhase hused (fun _ => hreg) fun hfresh => Bool.noConfusion (hreg.symm.trans hfresh)
  · exact h
  · exact h.deliver hr env
  · exact h.remove hr
  · have hne : ∀ id, c.reader ≠ .removing id true := fun id hr' => by
      rw [hr] at hr'
      cases hr'
    exact ⟨h.next, h.inflight, h.fresh, fun id hid _ => h.waiting id hid (hne id),
      fun _ hr' => nomatch hr'⟩

theorem Routed.setPhase {c : Conn} (h : Routed c) {id : ℕ} {phase : Phase}
    (hreg : phase.isRegistered = true → (c.calls id).phase.isRegistered = true) :
    Routed (c.setPhase id phase) where
  received id' := by
    rw [setPhase_calls]
    split
    · exact h.received id
    · exact h.received id'
  kept id' hp hout := by
    rw [setPhase_calls] at hp ⊢
    split at hp
    · next heq =>
      subst heq
      rw [if_pos rfl]
      exact h.kept _ (hreg hp) hout
    · next heq =>
      rw [if_neg heq]
      exact h.kept id' hp hout

theorem Routed.register {c : Conn} (h : Routed c) (id : ℕ) :
    Routed { c.setPhase id .registered with inflight := insert id c.inflight } where
  received id' := by
    show ((c.setPhase id .registered).calls id').received = _
    rw [setPhase_calls]
    split
    · exact h.received id
    · exact h.received id'
  kept id' hp hout := by
    rw [Finset.mem_insert, not_or] at hout
    have hcalls : (c.setPhase id .registered).calls id' = c.calls id' := by
      rw [setPhase_calls, if_neg hout.1]
    show HasTerminal ((c.setPhase id .registered).calls id').received
    rw [hcalls]
    refine h.kept id' ?_ hout.2
    have hp' : ((c.setPhase id .registered).calls id').phase.isRegistered = true := hp
    rwa [hcalls] at hp'

theorem Routed.deliver {c : Conn} (h : Routed c) (hinv : Inv c) (hreading : c.reader = .reading)
    (env : Envelope) : Routed (c.deliver env) where
  received id := by
    rw [deliver_calls]
    split
    · by_cases hin : env.id ∈ c.inflight
      · -- nothing terminal came before
        obtain ⟨hsame, hopen⟩ := hinv.waiting env.id hin (by rw [hreading]; exact nofun)
        simp only [Call.reply, hin, hinv.inflight _ hin, decide_true, if_true, hsame]
        rw [upToTerminal_append_of_not hopen]
      · cases hreg : (c.calls env.id).phase.isRegistered with
        | false => simpa [Call.reply, hin, hreg] using h.received env.id
        | true =>
          have hhas : HasTerminal (c.calls env.id).arrived := by
            have hkept := h.kept env.id hreg hin
            rw [h.received env.id] at hkept
            exact hasTerminal_upToTerminal hkept
          simpa [Call.reply, hin, hreg, upToTerminal_append_of_has hhas] using h.received env.id
    · exact h.received id
  kept id hp hout := by
    rw [deliver_calls] at hp ⊢
    split at hp
    · next heq =>
      subst heq
      rw [if_pos rfl]
      have hout' : env.id ∉ c.inflight := hout
      simpa [Call.reply, hout'] using h.kept env.id hp hout'
    · next heq =>
      rw [if_neg heq]
      exact h.kept id hp hout

theorem Multiplexed.step {decode : Decoder} {c c' : Conn} {a : Action} (h : Multiplexed c)
    (hinv : Inv c) (hs : step decode c a = some c') (hok : StepOk c a) : Multiplexed c' := by
  obtain ⟨hrouted, hsettled⟩ := h
  obtain ⟨rfl, rfl⟩ | ⟨id, rfl, hp, rfl⟩ | ⟨id, phase, ha, hp, rfl⟩ |
    ⟨line, rfl, hr, rfl | ⟨env, -, rfl⟩⟩ | ⟨id, found, rfl, hr, rfl⟩ | ⟨rfl, hr, rfl⟩ :=
      step_cases hs
  · refine ⟨?_, fun hended id hid => ?_⟩
    · have hset : Routed (c.setPhase c.nextId .numbered) :=
        hrouted.setPhase fun hreg => nomatch hreg
      exact ⟨hset.received, hset.kept⟩
    · have hne : id ≠ c.nextId := by
        rintro rfl
        have hreg := hinv.inflight _ hid
        rw [hinv.next _ le_rfl] at hreg
        cases hreg
      show ((c.setPhase c.nextId .numbered).calls id).phase = _
      rw [setPhase_calls, if_neg hne]
      exact hsettled hended id hid
  · refine ⟨hrouted.register id, fun hended id' hid' => ?_⟩
    show ((c.setPhase id .registered).calls id').phase = _
    rw [setPhase_calls]
    split
    · rfl
    · next hne =>
      rcases Finset.mem_insert.mp hid' with heq | hid'
      · exact absurd heq hne
      · exact hsettled hended id' hid'
  · refine ⟨hrouted.setPhase fun _ => by rw [hp]; rfl, fun hended id' hid' => ?_⟩
    have hout : id ∉ c.inflight := by
      obtain ⟨rfl, -⟩ | ⟨rfl, -⟩ := ha <;> exact hok hended
    have hne : id' ≠ id := by
      rintro rfl
      exact hout hid'
    rw [setPhase_calls, if_neg hne]
    exact hsettled hended id' hid'
  · exact ⟨hrouted, hsettled⟩
  · refine ⟨hrouted.deliver hinv hr env, fun hended => ?_⟩
    have hended' : (if env.payload.isTerminal then _ else _) = Reader.ended := hended
    split at hended' <;> cases hended'
  · refine ⟨⟨hrouted.received, fun id' hp hout => ?_⟩, fun hended => nomatch hended⟩
    by_cases heq : id' = id
    · subst heq
      cases found with
      | true => exact hinv.removing _ hr
      | false => exact hrouted.kept id' hp (hok id' hr)
    · exact hrouted.kept id' hp fun hin => hout (Finset.mem_erase.mpr ⟨heq, hin⟩)
  · exact ⟨⟨hrouted.received, hrouted.kept⟩, fun _ => hok⟩

theorem StepOk.of_multiplexed {decode : Decoder} {c c' : Conn} {a : Action} (hinv : Inv c)
    (hs : step decode c a = some c') (h : Multiplexed c') : StepOk c a := by
  obtain ⟨hrouted, hsettled⟩ := h
  obtain ⟨rfl, rfl⟩ | ⟨id, rfl, hp, rfl⟩ | ⟨id, phase, ha, hp, rfl⟩ | ⟨line, rfl, -, -⟩ |
    ⟨id, found, rfl, hr, rfl⟩ | ⟨rfl, hr, rfl⟩ := step_cases hs
  · trivial
  · trivial
  · have hout : c.reader = .ended → id ∉ c.inflight := by
      intro hended hin
      have hphase := hsettled hended id hin
      rw [setPhase_calls, if_pos rfl] at hphase
      obtain ⟨-, rfl⟩ | ⟨-, rfl⟩ := ha <;> cases hphase
    obtain ⟨rfl, -⟩ | ⟨rfl, -⟩ := ha <;> exact hout
  · trivial
  · intro id' hr' hin
    have hr'' := hr.symm.trans hr'
    cases hr''
    -- the sender is dropped although nothing terminal was received
    obtain ⟨hsame, hopen⟩ := hinv.waiting id hin (by rw [hr]; exact nofun)
    have hkept := hrouted.kept id (hinv.inflight id hin) (Finset.notMem_erase id _)
    exact hopen (hsame ▸ hkept)
  · exact hsettled rfl

/-- **Calls over one connection.**  Throughout a run every receiver yields what arrives for
its call up to the first terminal payload, and nobody is left waiting when the loop has ended,
if and only if every step of the run is one that keeps the promise. -/
theorem multiplexed_iff {decode : Decoder} {past : List (Conn × Action)} {c : Conn}
    (h : Execution (step decode) .start past c) :
    ((∀ e ∈ past, Multiplexed e.1) ∧ Multiplexed c) ↔ ∀ e ∈ past, StepOk e.1 e.2 := by
  induction h with
  | start => simpa using multiplexed_start
  | @next past c c' a hrest hs ih =>
    have hinv : Inv c := hrest.invariant inv_start fun _ _ _ hI hstep => hI.step hstep
    simp only [List.forall_mem_cons]
    constructor
    · rintro ⟨⟨hc, hpast⟩, hc'⟩
      exact ⟨.of_multiplexed hinv hs hc', ih.mp ⟨hpast, hc⟩⟩
    · rintro ⟨hok, hpast⟩
      obtain ⟨hpast, hc⟩ := ih.mpr hpast
      exact ⟨⟨hc, hpast⟩, hc.step hinv hs hok⟩

/-- A call that waits when the loop has ended. -/
structure Orphan (id : ℕ) (c : Conn) : Prop where
  inv : Inv c
  ended : c.reader = .ended
  inflight : id ∈ c.inflight
  phase : (c.calls id).phase = .waiting
  received : (c.calls id).received = []

theorem Orphan.step {decode : Decoder} {id : ℕ} {c c' : Conn} {a : Action} (h : Orphan id c)
    (hs : step decode c a = some c') : Orphan id c' := by
  have hinv := h.inv.step hs
  obtain ⟨hinvc, hended, hin, hphase, hreceived⟩ := h
  have hother : ∀ {id' : ℕ} {phase : Phase}, (c.calls id').phase ≠ .waiting →
      (c.setPhase id' phase).calls id = c.calls id := by
    intro id' phase hne
    have hid : id ≠ id' := by
      rintro rfl
      exact hne hphase
    rw [setPhase_calls, if_neg hid]
  obtain ⟨-, rfl⟩ | ⟨id', -, hp, rfl⟩ | ⟨id', phase, -, hp, rfl⟩ | ⟨line, -, hr, -⟩ |
    ⟨id', found, -, hr, -⟩ | ⟨-, hr, -⟩ := step_cases hs
  · have hcalls := @hother c.nextId .numbered (by rw [hinvc.next _ le_rfl]; decide)
    exact ⟨hinv, hended, hin, by rw [← hphase]; exact congrArg Call.phase hcalls,
      by rw [← hreceived]; exact congrArg Call.received hcalls⟩
  · have hcalls := @hother id' .registered (by rw [hp]; decide)
    exact ⟨hinv, hended, Finset.mem_insert_of_mem hin,
      by rw [← hphase]; exact congrArg Call.phase hcalls,
      by rw [← hreceived]; exact congrArg Call.received hcalls⟩
  · have hcalls := @hother id' phase (by rw [hp]; decide)
    exact ⟨hinv, hended, hin, by rw [hcalls, hphase], by rw [hcalls, hreceived]⟩
  all_goals
    rw [hended] at hr
    cases hr

def pongLine : Decoder := fun line =>
  if line = "pong" then .ok ⟨1, .pong "0.1.0" 2⟩ else .error "decode: expected value"

/-- A call that is answered before the connection ends. -/
theorem answered_multiplexed : ∃ past c, Execution (step pongLine) .start past c ∧
    c.reader = .ended ∧ (c.calls 1).received = [.pong "0.1.0" 2] ∧ Multiplexed c := by
  have hstart : Execution (step pongLine) .start [] .start := .start
  have hnumber := hstart.next (a := .number) rfl
  have hregister := hnumber.next (a := .register 1) rfl
  have hwritten := hregister.next (a := .written 1) rfl
  have hline := hwritten.next (a := .line "pong") rfl
  have hremove := hline.next (a := .remove) rfl
  have hclose := hremove.next (a := .close) rfl
  refine ⟨_, _, hclose, rfl, rfl, ((multiplexed_iff hclose).mpr ?_).2⟩
  have hreader : ∀ id, Reader.removing 1 true ≠ .removing id false := fun id h => by cases h
  have herase : (insert 1 (∅ : Finset ℕ)).erase 1 = ∅ := rfl
  simp only [List.forall_mem_cons]
  refine ⟨fun id hid => ?_, fun id hr => absurd hr (hreader id), trivial, ?_, trivial, trivial,
    fun e he => absurd he List.not_mem_nil⟩
  · exact absurd (herase ▸ hid : id ∈ (∅ : Finset ℕ)) (Finset.notMem_empty id)
  · exact fun hended => by cases hended

/-- The connection ends while a call waits: its sender stays in the table, and the call waits
for ever. -/
theorem call_waits_forever : ∃ past c, Execution (step pongLine) .start past c ∧ ¬ Multiplexed c ∧
    ∀ past' c', Execution (step pongLine) c past' c' →
      1 ∈ c'.inflight ∧ (c'.calls 1).phase = .waiting ∧ (c'.calls 1).received = [] := by
  have hstart : Execution (step pongLine) .start [] .start := .start
  have hnumber := hstart.next (a := .number) rfl
  have hregister := hnumber.next (a := .register 1) rfl
  have hwritten := hregister.next (a := .written 1) rfl
  have hclose := hwritten.next (a := .close) rfl
  refine ⟨_, _, hclose, fun h => ?_, fun past' c' hrun => ?_⟩
  · exact absurd (h.settled rfl 1 (Finset.mem_insert_self 1 ∅)) (by decide)
  · have horphan : Orphan 1 c' := by
      refine hrun.invariant ⟨?_, rfl, Finset.mem_insert_self 1 ∅, rfl, rfl⟩ fun _ _ _ h hs => h.step hs
      exact hclose.invariant inv_start fun _ _ _ h hs => h.step hs
    exact ⟨horphan.inflight, horphan.phase, horphan.received⟩

end Mowis.Transport
