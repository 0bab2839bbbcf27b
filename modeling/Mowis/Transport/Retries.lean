import Mowis.Lib.Execution
import Mowis.Lib.Text

/-!
# Requests to agentd that are sent again

`execute_request` of `agentd/src/orchestration/socket_client.rs`, `socket_roundtrip` of
`agentd/src/orchestration/mod.rs` and `execute_tool_with_retry` of `agent_execution.rs`, against
`read_connection_request` and `process_job` of `agentd/src/socket_server.rs`.

Each attempt has a connection of its own.  The server reads one line from a connection, or what
is there when the client closes it; a request that can be decoded is queued, and executed when a
worker takes it, whether or not the client still waits.
-/

namespace Mowis.Transport.Retries

open Mowis.Lib

inductive ErrorKind where
  | wouldBlock
  | timedOut
  | connectionReset
  | brokenPipe
  | interrupted
  | other
  deriving DecidableEq, Repr

/-- An error of the operating system and its text. -/
structure IoError where
  kind : ErrorKind
  text : Text

/-- A write takes no byte, or fails. -/
inductive WriteError where
  | zero
  | io (e : IoError)

/-- The retries of a caller: how many rounds and attempts there are after the first, and which
failures lead to the next attempt. -/
structure Caller where
  rounds : ℕ
  retries : ℕ
  connect : Bool
  write : WriteError → Bool
  flush : IoError → Bool
  read : IoError → Bool

/-- `is_retryable_write`. -/
def isRetryableWrite : ErrorKind → Bool
  | .connectionReset | .brokenPipe | .wouldBlock | .interrupted => true
  | _ => false

def isRetryableRead : ErrorKind → Bool
  | .other => false
  | _ => true

/-- The texts that `socket_roundtrip` looks for. -/
def mentionsReset (msg : Text) : Bool :=
  "connection reset".toList <:+: msg ∨ "socket closed".toList <:+: msg ∨
    "broken pipe".toList <:+: msg

def writeText : WriteError → Text
  | .zero => "write socket: socket closed by server".toList
  | .io e => "write socket: ".toList ++ e.text

def executeRequest : Caller where
  rounds := 0
  retries := 3
  connect := true
  write
    | .zero => false
    | .io e => isRetryableWrite e.kind
  flush _ := false
  read e := isRetryableRead e.kind

def socketRoundtrip : Caller where
  rounds := 0
  retries := 3
  connect := false
  write e := mentionsReset (writeText e)
  flush e := mentionsReset ("flush socket: ".toList ++ e.text)
  read e := isRetryableRead e.kind

/-- `execute_tool_with_retry`: every error of a round trip leads to another one. -/
def executeToolWithRetry : Caller := { socketRoundtrip with rounds := 3 }

/-- What the server has done with a connection. -/
inductive Served where
  | unread
  | queued
  | executed
  | dropped
  deriving DecidableEq, Repr

/-- The connection of an attempt: how many bytes of the request were taken, and whether the
client has closed its end. -/
structure Conn where
  received : ℕ
  closed : Bool
  served : Served
  deriving DecidableEq, Repr

/-- The server reads the line of a connection, or gives the connection up, or a worker executes
its request. -/
inductive Event where
  | read
  | drop
  | execute
  deriving DecidableEq, Repr

inductive Phase where
  | connecting
  | writing
  | flushing
  | reading
  | returned (ok : Bool)
  deriving DecidableEq, Repr

/-- A call; its connections are listed newest first. -/
structure State where
  round : ℕ
  attempt : ℕ
  phase : Phase
  conns : List Conn
  executions : ℕ

def State.start : State := ⟨0, 0, .connecting, [], 0⟩

inductive Action where
  | connectFailed
  | connected
  | timeoutsFailed
  | wrote (n : ℕ)
  | writeFailed (e : WriteError)
  | flushed
  | flushFailed (e : IoError)
  | answered (valid : Bool)
  | readClosed
  | readFailed (e : IoError)
  | server (i : ℕ) (event : Event)

section Steps

variable (caller : Caller) (text : List UInt8) (accepts : List UInt8 → Bool)

def payload : List UInt8 := text ++ [10]

/-- `read_connection_request`, the queue, and `process_job`; a number tells whether the request
is executed. -/
def Conn.handle (conn : Conn) (event : Event) : Option (Conn × ℕ) :=
  match event, conn.served with
  | .read, .unread =>
    if conn.received = (payload text).length ∨ conn.closed then
      if accepts ((payload text).take conn.received) then some ({ conn with served := .queued }, 0)
      else some ({ conn with served := .dropped }, 0)
    else none
  | .drop, .unread => some ({ conn with served := .dropped }, 0)
  | .drop, .queued => some ({ conn with served := .dropped }, 0)
  | .execute, .queued => some ({ conn with served := .executed }, 1)
  | _, _ => none

def State.current (s : State) : Option Conn :=
  match s.phase with
  | .connecting => none
  | .returned _ => none
  | _ => s.conns.head?

def State.given (s : State) : List Conn :=
  match s.phase with
  | .connecting => s.conns
  | _ => s.conns.tail

def State.close (s : State) : State :=
  { s with conns := s.conns.modifyHead fun conn => { conn with closed := true } }

def State.goesOn (s : State) (retryable : Bool) : Bool :=
  retryable && s.attempt < caller.retries || s.round < caller.rounds

/-- An attempt has failed: the next one, the next round, or the error is returned. -/
def State.giveUp (s : State) (retryable : Bool) : State :=
  if retryable && s.attempt < caller.retries then
    { s.close with attempt := s.attempt + 1, phase := .connecting }
  else if s.round < caller.rounds then
    { s.close with round := s.round + 1, attempt := 0, phase := .connecting }
  else { s.close with phase := .returned false }

/-- The failure of an attempt, and whether the caller takes it for a passing one. -/
def Action.failure : Action → Option (Phase × Bool)
  | .connectFailed => some (.connecting, caller.connect)
  | .timeoutsFailed => some (.writing, false)
  | .writeFailed e => some (.writing, caller.write e)
  | .flushFailed e => some (.flushing, caller.flush e)
  | .answered false => some (.reading, false)
  | .readClosed => some (.reading, true)
  | .readFailed e => some (.reading, caller.read e)
  | _ => none

def step (s : State) (a : Action) : Option State :=
  match a.failure caller with
  | some (phase, retryable) => if s.phase = phase then some (s.giveUp caller retryable) else none
  | none =>
    match a, s.phase, s.conns with
    | .connected, .connecting, conns =>
      some { s with phase := .writing, conns := ⟨0, false, .unread⟩ :: conns }
    | .wrote n, .writing, conn :: conns =>
      if 0 < n ∧ conn.received + n ≤ (payload text).length then
        some { s with
          phase := if conn.received + n = (payload text).length then .flushing else .writing
          conns := { conn with received := conn.received + n } :: conns }
      else none
    | .flushed, .flushing, _ => some { s with phase := .reading }
    | .answered true, .reading, conn :: _ =>
      if conn.served = .executed then some { s.close with phase := .returned true } else none
    | .server i event, _, conns =>
      match conns[i]? with
      | some conn =>
        match conn.handle text accepts event with
        | some (conn', n) =>
          some { s with conns := conns.set i conn', executions := s.executions + n }
        | none => none
      | none => none
    | _, _, _ => none

def Harmless (conn : Conn) : Prop := conn.served = .dropped ∨ conn.received < text.length

/-- An attempt is given up for another one only when the server cannot execute it. -/
def StepOk (s : State) (a : Action) : Prop :=
  ∀ phase retryable, a.failure caller = some (phase, retryable) →
    s.goesOn caller retryable = true → ∀ conn, s.current = some conn → Harmless text conn

/-- The request is executed at most once, unless an attempt is given up too early later. -/
def Once (s : State) : Prop :=
  ∀ past c, Execution (step caller text accepts) s past c →
    (∀ e ∈ past, StepOk caller text e.1 e.2) → c.executions ≤ 1

end Steps

/-- How the server decodes the text of a request: with or without its newline, and not when a
part is missing. -/
structure Decodes (accepts : List UInt8 → Bool) (text : List UInt8) : Prop where
  bare : accepts text = true
  line : accepts (payload text) = true
  cut : ∀ n < text.length, accepts (text.take n) = false

/-! ### What is preserved -/

section Invariant

variable {caller : Caller} {text : List UInt8} {accepts : List UInt8 → Bool}

/-- What the server has of a connection. -/
structure Conn.Ok (text : List UInt8) (conn : Conn) : Prop where
  fits : conn.received ≤ (payload text).length
  taken : conn.served = .queued ∨ conn.served = .executed → text.length ≤ conn.received

structure Inv (text : List UInt8) (s : State) : Prop where
  conns : ∀ conn ∈ s.conns, conn.Ok text
  counted : s.executions = s.conns.countP fun conn => conn.served = .executed
  given : ∀ conn ∈ s.given, Harmless text conn ∧ conn.closed = true

theorem inv_start : Inv text .start where
  conns _ hconn := nomatch hconn
  counted := rfl
  given _ hconn := nomatch hconn

theorem take_payload {n : ℕ} (h : n ≤ text.length) : (payload text).take n = text.take n := by
  rw [payload, List.take_append_of_le_length h]

theorem length_payload : (payload text).length = text.length + 1 := by
  rw [payload, List.length_append, List.length_singleton]

theorem Decodes.accepts_of_le (h : Decodes accepts text) {n : ℕ} (hn : text.length ≤ n)
    (hfits : n ≤ (payload text).length) : accepts ((payload text).take n) = true := by
  rw [length_payload] at hfits
  obtain rfl | rfl : n = text.length ∨ n = text.length + 1 := by omega
  · rw [take_payload le_rfl, List.take_length]
    exact h.bare
  · rw [← length_payload, List.take_length]
    exact h.line

theorem Decodes.accepts_iff (h : Decodes accepts text) {n : ℕ} (hfits : n ≤ (payload text).length) :
    accepts ((payload text).take n) = true ↔ text.length ≤ n := by
  refine ⟨fun haccepts => ?_, fun hn => h.accepts_of_le hn hfits⟩
  by_contra hn
  rw [take_payload (by omega), h.cut n (by omega)] at haccepts
  cases haccepts

theorem Conn.handle_cases {conn conn' : Conn} {event : Event} {n : ℕ}
    (h : conn.handle text accepts event = some (conn', n)) :
    (event = .read ∧ conn.served = .unread ∧ accepts ((payload text).take conn.received) = true ∧
        conn' = { conn with served := .queued } ∧ n = 0) ∨
      (conn.served ≠ .executed ∧ conn' = { conn with served := .dropped } ∧ n = 0) ∨
      (event = .execute ∧ conn.served = .queued ∧ conn' = { conn with served := .executed } ∧
        n = 1) := by
  unfold Conn.handle at h
  split at h
  · next hserved =>
    split at h
    · split at h
      · next haccepts =>
        cases h
        exact .inl ⟨rfl, hserved, haccepts, rfl, rfl⟩
      · cases h
        exact .inr (.inl ⟨by rw [hserved]; decide, rfl, rfl⟩)
    · cases h
  · next hserved =>
    cases h
    exact .inr (.inl ⟨by rw [hserved]; decide, rfl, rfl⟩)
  · next hserved =>
    cases h
    exact .inr (.inl ⟨by rw [hserved]; decide, rfl, rfl⟩)
  · next hserved =>
    cases h
    exact .inr (.inr ⟨rfl, hserved, rfl, rfl⟩)
  · cases h

theorem Conn.Ok.handle (hdecodes : Decodes accepts text) {conn conn' : Conn} {event : Event} {n : ℕ}
    (hok : conn.Ok text) (h : conn.handle text accepts event = some (conn', n)) :
    conn'.Ok text ∧ conn'.closed = conn.closed ∧ (Harmless text conn → Harmless text conn') ∧
      (if conn'.served = .executed then 1 else 0) =
        (if conn.served = .executed then 1 else 0) + n := by
  rcases Conn.handle_cases h with ⟨-, hserved, haccepts, rfl, rfl⟩ | ⟨hserved, rfl, rfl⟩ |
    ⟨-, hserved, rfl, rfl⟩
  · have hlen := (hdecodes.accepts_iff hok.fits).mp haccepts
    refine ⟨⟨hok.fits, fun _ => hlen⟩, rfl, fun hharmless => ?_, by rw [hserved]; rfl⟩
    rcases hharmless with hdropped | hlt
    · rw [hserved] at hdropped
      cases hdropped
    · exact absurd hlen (Nat.not_le.mpr hlt)
  · refine ⟨⟨hok.fits, ?_⟩, rfl, fun _ => .inl rfl, by rw [if_neg hserved]; rfl⟩
    rintro (hqueued | hexecuted)
    · cases hqueued
    · cases hexecuted
  · have hlen := hok.taken (.inl hserved)
    refine ⟨⟨hok.fits, fun _ => hlen⟩, rfl, fun hharmless => ?_, by rw [hserved]; rfl⟩
    rcases hharmless with hdropped | hlt
    · rw [hserved] at hdropped
      cases hdropped
    · exact absurd hlen (Nat.not_le.mpr hlt)

theorem step_cases {s s' : State} {a : Action} (h : step caller text accepts s a = some s') :
    (∃ phase retryable, a.failure caller = some (phase, retryable) ∧ s.phase = phase ∧
        s' = s.giveUp caller retryable) ∨
      (a = .connected ∧ s.phase = .connecting ∧
        s' = { s with phase := .writing, conns := ⟨0, false, .unread⟩ :: s.conns }) ∨
      (∃ n conn conns, a = .wrote n ∧ s.phase = .writing ∧ s.conns = conn :: conns ∧
        conn.received + n ≤ (payload text).length ∧
        s' = { s with
          phase := if conn.received + n = (payload text).length then .flushing else .writing
          conns := { conn with received := conn.received + n } :: conns }) ∨
      (a = .flushed ∧ s.phase = .flushing ∧ s' = { s with phase := .reading }) ∨
      (a = .answered true ∧ s.phase = .reading ∧ s' = { s.close with phase := .returned true }) ∨
      ∃ i event conn conn' n, a = .server i event ∧ s.conns[i]? = some conn ∧
        conn.handle text accepts event = some (conn', n) ∧
        s' = { s with conns := s.conns.set i conn', executions := s.executions + n } := by
  unfold step at h
  split at h
  · next phase retryable hfailure =>
    split at h
    · next hphase =>
      cases h
      exact .inl ⟨phase, retryable, hfailure, hphase, rfl⟩
    · cases h
  · right
    split at h
    · next hphase _ =>
      cases h
      exact .inl ⟨rfl, hphase, rfl⟩
    · next n conn conns hphase hconns _ =>
      split at h
      · next hn =>
        cases h
        exact .inr (.inl ⟨n, conn, conns, rfl, hphase, hconns, hn.2, rfl⟩)
      · cases h
    · next hphase _ =>
      cases h
      exact .inr (.inr (.inl ⟨rfl, hphase, rfl⟩))
    · next hphase _ _ =>
      split at h
      · cases h
        exact .inr (.inr (.inr (.inl ⟨rfl, hphase, rfl⟩)))
      · cases h
    · next i event _ =>
      split at h
      · next conn hconn =>
        split at h
        · next conn' n hhandle =>
          cases h
          exact .inr (.inr (.inr (.inr ⟨i, event, conn, conn', n, rfl, hconn, hhandle, rfl⟩)))
        · cases h
      · cases h
    · cases h

theorem exists_set {α : Type*} {l : List α} {i : ℕ} {x : α} (h : l[i]? = some x) (y : α) :
    ∃ before after, l = before ++ x :: after ∧ l.set i y = before ++ y :: after := by
  induction l generalizing i with
  | nil => cases h
  | cons z l ih =>
    cases i with
    | zero =>
      cases h
      exact ⟨[], l, rfl, rfl⟩
    | succ i =>
      obtain ⟨before, after, hl, hset⟩ := ih h
      refine ⟨z :: before, after, by rw [hl]; rfl, ?_⟩
      show z :: l.set i y = _
      rw [hset]
      rfl

theorem mem_close {s : State} {conn : Conn} (h : conn ∈ s.close.conns) :
    ∃ conn₀ ∈ s.conns, conn = conn₀ ∨ conn = { conn₀ with closed := true } := by
  revert h
  show conn ∈ s.conns.modifyHead _ → _
  cases s.conns with
  | nil => exact fun h => nomatch h
  | cons conn₁ conns =>
    intro h
    rcases List.mem_cons.mp h with rfl | h
    · exact ⟨conn₁, List.mem_cons_self, .inr rfl⟩
    · exact ⟨conn, List.mem_cons_of_mem _ h, .inl rfl⟩

theorem ok_close {s : State} (h : ∀ conn ∈ s.conns, conn.Ok text) :
    ∀ conn ∈ s.close.conns, conn.Ok text := by
  intro conn hconn
  obtain ⟨conn₀, hmem, rfl | rfl⟩ := mem_close hconn
  · exact h conn hmem
  · exact ⟨(h conn₀ hmem).fits, (h conn₀ hmem).taken⟩

theorem countP_close (s : State) :
    (s.close.conns.countP fun conn => conn.served = .executed) =
      s.conns.countP fun conn => conn.served = .executed := by
  show (s.conns.modifyHead _).countP _ = _
  cases s.conns with
  | nil => rfl
  | cons conn conns =>
    show List.countP _ (_ :: conns) = _
    rw [List.countP_cons, List.countP_cons]

theorem tail_close (s : State) : s.close.conns.tail = s.conns.tail := by
  show (s.conns.modifyHead _).tail = _
  cases s.conns <;> rfl

theorem Inv.given_close {s : State} (h : Inv text s) {phase : Phase} (hphase : s.phase = phase)
    (hreturned : ∀ ok, phase ≠ .returned ok)
    (hcurrent : ∀ conn, s.current = some conn → Harmless text conn) :
    ∀ conn ∈ s.close.conns, Harmless text conn ∧ conn.closed = true := by
  have hgiven := h.given
  unfold State.given at hgiven
  unfold State.current at hcurrent
  intro conn hconn
  change conn ∈ s.conns.modifyHead _ at hconn
  cases hconns : s.conns with
  | nil =>
    rw [hconns] at hconn
    cases hconn
  | cons conn₁ conns =>
    rw [hconns] at hconn hgiven hcurrent
    have hharmless : Harmless text conn₁ := by
      cases hp : s.phase with
      | connecting =>
        rw [hp] at hgiven
        exact (hgiven conn₁ List.mem_cons_self).1
      | returned ok => exact absurd (hphase.symm.trans hp) (hreturned ok)
      | writing | flushing | reading =>
        rw [hp] at hcurrent
        exact hcurrent conn₁ rfl
    rcases List.mem_cons.mp hconn with rfl | hconn
    · exact ⟨hharmless, rfl⟩
    · cases hp : s.phase with
      | connecting =>
        rw [hp] at hgiven
        exact hgiven conn (List.mem_cons_of_mem _ hconn)
      | writing | flushing | reading | returned =>
        rw [hp] at hgiven
        exact hgiven conn hconn

theorem Inv.given_tail {s : State} (h : Inv text s) :
    ∀ conn ∈ s.conns.tail, Harmless text conn ∧ conn.closed = true := by
  have hgiven := h.given
  unfold State.given at hgiven
  intro conn hconn
  split at hgiven
  · exact hgiven conn (List.mem_of_mem_tail hconn)
  · exact hgiven conn hconn

theorem failure_ne_returned {a : Action} {phase : Phase} {retryable : Bool}
    (h : a.failure caller = some (phase, retryable)) (ok : Bool) : phase ≠ .returned ok := by
  rintro rfl
  unfold Action.failure at h
  split at h <;> cases h

theorem Inv.giveUp {s : State} {a : Action} {phase : Phase} {retryable : Bool} (h : Inv text s)
    (hfailure : a.failure caller = some (phase, retryable)) (hphase : s.phase = phase)
    (hok : StepOk caller text s a) : Inv text (s.giveUp caller retryable) := by
  have hgoesOn : s.goesOn caller retryable = true →
      ∀ conn ∈ s.close.conns, Harmless text conn ∧ conn.closed = true := fun hgoes =>
    h.given_close hphase (failure_ne_returned hfailure) (hok phase retryable hfailure hgoes)
  have hcounted := h.counted
  rw [← countP_close] at hcounted
  unfold State.giveUp
  unfold State.goesOn at hgoesOn
  split
  · next hretry => exact ⟨ok_close h.conns, hcounted, hgoesOn (by simp [hretry])⟩
  · split
    · next hround => exact ⟨ok_close h.conns, hcounted, hgoesOn (by simp [hround])⟩
    · refine ⟨ok_close h.conns, hcounted, fun conn hconn => h.given_tail conn ?_⟩
      rwa [← tail_close]

theorem Inv.server {s : State} (hdecodes : Decodes accepts text) (h : Inv text s) {i n : ℕ}
    {event : Event} {conn conn' : Conn} (hconn : s.conns[i]? = some conn)
    (hhandle : conn.handle text accepts event = some (conn', n)) :
    Inv text { s with conns := s.conns.set i conn', executions := s.executions + n } := by
  obtain ⟨before, after, hconns, hset⟩ := exists_set hconn conn'
  have hmem : conn ∈ s.conns := List.mem_of_getElem? hconn
  obtain ⟨hok, hclosed, hharmless, hcount⟩ := (h.conns conn hmem).handle hdecodes hhandle
  refine ⟨?_, ?_, ?_⟩
  · show ∀ c ∈ s.conns.set i conn', c.Ok text
    rw [hset]
    exact forall_mem_replace (hconns ▸ h.conns) (fun _ hc => hc) hok
  · show s.executions + n = (s.conns.set i conn').countP _
    rw [hset, h.counted, hconns, List.countP_append, List.countP_append, List.countP_cons,
      List.countP_cons]
    simp only [decide_eq_true_eq]
    omega
  · have hreplace : ∀ before' : List Conn,
        (∀ c ∈ before' ++ conn :: after, Harmless text c ∧ c.closed = true) →
        ∀ c ∈ before' ++ conn' :: after, Harmless text c ∧ c.closed = true := by
      intro before' hall
      have hold := hall conn (List.mem_append_right _ List.mem_cons_self)
      exact forall_mem_replace hall (fun _ hc => hc) ⟨hharmless hold.1, hclosed.trans hold.2⟩
    have hgiven := h.given
    unfold State.given at hgiven ⊢
    dsimp only
    rw [hset]
    rw [hconns] at hgiven
    split
    · next hphase =>
      rw [hphase] at hgiven
      exact hreplace before hgiven
    · next hphase =>
      have htail : ∀ c ∈ (before ++ conn :: after).tail, Harmless text c ∧ c.closed = true := by
        intro c hc
        exact h.given_tail c (hconns ▸ hc)
      cases before with
      | nil => exact htail
      | cons c₀ before => exact hreplace before htail

theorem Inv.step (hdecodes : Decodes accepts text) {s s' : State} {a : Action} (h : Inv text s)
    (hs : step caller text accepts s a = some s') (hok : StepOk caller text s a) : Inv text s' := by
  obtain ⟨phase, retryable, hfailure, hphase, rfl⟩ | ⟨rfl, hphase, rfl⟩ |
    ⟨n, conn, conns, rfl, hphase, hconns, hfits, rfl⟩ | ⟨rfl, hphase, rfl⟩ | ⟨rfl, hphase, rfl⟩ |
    ⟨i, event, conn, conn', n, rfl, hconn, hhandle, rfl⟩ := step_cases hs
  · exact h.giveUp hfailure hphase hok
  · refine ⟨?_, ?_, ?_⟩
    · exact List.forall_mem_cons.mpr
        ⟨⟨Nat.zero_le _, fun hserved => by rcases hserved with hq | hq <;> cases hq⟩, h.conns⟩
    · show s.executions = List.countP _ (_ :: s.conns)
      rw [List.countP_cons, h.counted]
      rfl
    · have hgiven := h.given
      unfold State.given at hgiven
      rwa [hphase] at hgiven
  · have hconn := h.conns conn (hconns ▸ List.mem_cons_self)
    refine ⟨?_, ?_, ?_⟩
    · refine List.forall_mem_cons.mpr ⟨⟨hfits, fun hserved => ?_⟩, fun c hc => ?_⟩
      · exact (hconn.taken hserved).trans (Nat.le_add_right _ _)
      · exact h.conns c (hconns ▸ List.mem_cons_of_mem _ hc)
    · show s.executions = List.countP _ (_ :: conns)
      rw [h.counted, hconns, List.countP_cons, List.countP_cons]
    · have htail : ∀ c ∈ conns, Harmless text c ∧ c.closed = true := by
        intro c hc
        exact h.given_tail c (by rw [hconns]; exact hc)
      unfold State.given
      dsimp only
      split
      · next hp =>
        split at hp <;> cases hp
      · exact htail
  · exact ⟨h.conns, h.counted, h.given_tail⟩
  · refine ⟨ok_close h.conns, h.counted.trans (countP_close s).symm, fun conn hconn => ?_⟩
    refine h.given_tail conn ?_
    rwa [← tail_close]
  · exact h.server hdecodes hconn hhandle

theorem Inv.executions_le {s : State} (h : Inv text s) : s.executions ≤ 1 := by
  have htail : s.conns.tail.countP (fun conn => conn.served = .executed) = 0 := by
    refine List.countP_eq_zero.mpr fun conn hconn hserved => ?_
    have hexecuted : conn.served = .executed := of_decide_eq_true hserved
    rcases (h.given_tail conn hconn).1 with hdropped | hlt
    · rw [hexecuted] at hdropped
      cases hdropped
    · exact absurd ((h.conns conn (List.mem_of_mem_tail hconn)).taken (.inr hexecuted))
        (Nat.not_le.mpr hlt)
  rw [h.counted]
  cases hconns : s.conns with
  | nil => exact Nat.zero_le _
  | cons conn conns =>
    rw [hconns, List.tail_cons] at htail
    rw [List.countP_cons, htail]
    split <;> omega

def OkRun (caller : Caller) (text : List UInt8) (accepts : List UInt8 → Bool) (s c : State) : Prop :=
  ∃ past, Execution (step caller text accepts) s past c ∧ ∀ e ∈ past, StepOk caller text e.1 e.2

theorem OkRun.refl (s : State) : OkRun caller text accepts s s :=
  ⟨[], .start, fun _ he => nomatch he⟩

theorem OkRun.next {s c c' : State} {a : Action} (h : OkRun caller text accepts s c)
    (hs : step caller text accepts c a = some c') (hok : StepOk caller text c a) :
    OkRun caller text accepts s c' := by
  obtain ⟨past, hrun, hpast⟩ := h
  exact ⟨_, hrun.next hs, List.forall_mem_cons.mpr ⟨hok, hpast⟩⟩

theorem stepOk_of_none {s : State} {a : Action} (h : a.failure caller = none) :
    StepOk caller text s a := by
  intro phase retryable hfailure
  rw [h] at hfailure
  cases hfailure

theorem OkRun.inv (hdecodes : Decodes accepts text) {s c : State} (h : OkRun caller text accepts s c)
    (hinv : Inv text s) : Inv text c := by
  obtain ⟨past, hrun, hok⟩ := h
  induction hrun with
  | start => exact hinv
  | next _ hs ih =>
    have hall := List.forall_mem_cons.mp hok
    exact (ih hall.2).step hdecodes hs hall.1

theorem once_of_inv (hdecodes : Decodes accepts text) {s : State} (h : Inv text s) :
    Once caller text accepts s := fun past _ hrun hok =>
  (OkRun.inv hdecodes ⟨past, hrun, hok⟩ h).executions_le

theorem OkRun.attempt (hdecodes : Decodes accepts text) {s c : State}
    (h : OkRun caller text accepts s c) (hphase : c.phase = .connecting) :
    ∃ c', OkRun caller text accepts s c' ∧ c'.executions = c.executions + 1 := by
  have hconnected : step caller text accepts c .connected =
      some { c with phase := .writing, conns := ⟨0, false, .unread⟩ :: c.conns } := by
    unfold step
    rw [hphase]
    rfl
  have hwrote : step caller text accepts
      { c with phase := .writing, conns := ⟨0, false, .unread⟩ :: c.conns }
      (.wrote (payload text).length) = some { c with
        phase := .flushing
        conns := ⟨(payload text).length, false, .unread⟩ :: c.conns } := by
    have hpos : 0 < (payload text).length := by
      rw [length_payload]
      omega
    simp only [step, Action.failure, Nat.zero_add, le_refl, hpos, and_self, if_true]
  have hread : step caller text accepts
      { c with
        phase := .flushing
        conns := ⟨(payload text).length, false, .unread⟩ :: c.conns } (.server 0 .read) =
      some { c with
        phase := .flushing
        conns := ⟨(payload text).length, false, .queued⟩ :: c.conns
        executions := c.executions + 0 } := by
    have haccepts : accepts ((payload text).take (payload text).length) = true := by
      rw [List.take_length]
      exact hdecodes.line
    simp only [step, Action.failure, List.getElem?_cons_zero, Conn.handle, true_or, if_true,
      haccepts, List.set_cons_zero]
  have hqueued := ((h.next hconnected (stepOk_of_none rfl)).next hwrote
    (stepOk_of_none rfl)).next hread (stepOk_of_none rfl)
  exact ⟨_, hqueued.next (a := .server 0 .execute) rfl (stepOk_of_none rfl), rfl⟩

theorem OkRun.execute (hdecodes : Decodes accepts text) {s c : State} {conn : Conn}
    {conns : List Conn} (h : OkRun caller text accepts s c) (hconns : c.conns = conn :: conns)
    (hcounted : c.executions = c.conns.countP fun conn => conn.served = .executed)
    (hok : conn.Ok text) (hclosed : conn.closed = true) (hharmful : ¬ Harmless text conn) :
    ∃ c', OkRun caller text accepts s c' ∧ c'.phase = c.phase ∧ 1 ≤ c'.executions := by
  obtain ⟨round, attempt, phase, conns', executions⟩ := c
  obtain ⟨received, closed, served⟩ := conn
  dsimp only at hconns hcounted hclosed
  subst hconns hclosed
  obtain ⟨hdropped, hlen⟩ := not_or.mp hharmful
  have hexecute : ∀ {n : ℕ}, OkRun caller text accepts s
      ⟨round, attempt, phase, ⟨received, true, .queued⟩ :: conns, n⟩ →
      ∃ c', OkRun caller text accepts s c' ∧ c'.phase = phase ∧ 1 ≤ c'.executions :=
    fun hqueued => ⟨_, hqueued.next (a := .server 0 .execute) rfl (stepOk_of_none rfl), rfl,
      Nat.le_add_left _ _⟩
  cases served with
  | dropped => exact absurd rfl hdropped
  | executed =>
    refine ⟨_, h, rfl, ?_⟩
    show 1 ≤ executions
    rw [hcounted, List.countP_cons]
    exact Nat.le_add_left _ _
  | queued => exact hexecute h
  | unread =>
    have haccepts := hdecodes.accepts_of_le (Nat.le_of_not_lt hlen) hok.fits
    refine hexecute (n := executions + 0) (h.next (a := .server 0 .read) ?_ (stepOk_of_none rfl))
    simp only [step, Action.failure, List.getElem?_cons_zero, Conn.handle, or_true, if_true,
      haccepts, List.set_cons_zero]

theorem not_once_of_giveUp (hdecodes : Decodes accepts text) {s s' : State} {a : Action}
    (h : Inv text s) (hs : step caller text accepts s a = some s')
    (hbad : ¬ StepOk caller text s a) : ¬ Once caller text accepts s' := by
  simp only [StepOk, not_forall] at hbad
  obtain ⟨phase, retryable, hfailure, hgoes, conn, hcurrent, hharmful⟩ := hbad
  obtain ⟨phase', retryable', hfailure', -, rfl⟩ | ⟨rfl, -, -⟩ | ⟨n, conn', conns, rfl, -⟩ |
    ⟨rfl, -, -⟩ | ⟨rfl, -, -⟩ | ⟨i, event, conn', conn'', n, rfl, -⟩ := step_cases hs
  · rw [hfailure] at hfailure'
    cases hfailure'
    have hhead : s.conns.head? = some conn := by
      unfold State.current at hcurrent
      split at hcurrent
      · cases hcurrent
      · cases hcurrent
      · exact hcurrent
    obtain ⟨conns, hconns⟩ := List.head?_eq_some_iff.mp hhead
    have hclose : s.close.conns = { conn with closed := true } :: conns := by
      show s.conns.modifyHead _ = _
      rw [hconns]
      rfl
    have hconnecting : (s.giveUp caller retryable).phase = .connecting ∧
        (s.giveUp caller retryable).conns = s.close.conns ∧
        (s.giveUp caller retryable).executions = s.executions := by
      unfold State.giveUp
      split
      · exact ⟨rfl, rfl, rfl⟩
      · next hretry =>
        have hround : s.round < caller.rounds := by
          unfold State.goesOn at hgoes
          rw [Bool.or_eq_true] at hgoes
          exact of_decide_eq_true (hgoes.resolve_left hretry)
        rw [if_pos hround]
        exact ⟨rfl, rfl, rfl⟩
    obtain ⟨hphase, hgiveUp, hexecutions⟩ := hconnecting
    have hok : ({ conn with closed := true } : Conn).Ok text :=
      ok_close h.conns _ (hclose ▸ List.mem_cons_self)
    obtain ⟨c, hc, hcphase, hcexec⟩ := OkRun.execute hdecodes (OkRun.refl _)
      (hgiveUp.trans hclose) (by rw [hexecutions, hgiveUp, countP_close, h.counted]) hok rfl hharmful
    obtain ⟨c', ⟨past, hrun, hpast⟩, hexec⟩ := hc.attempt hdecodes (hcphase.trans hphase)
    intro honce
    have hle := honce past c' hrun hpast
    omega
  all_goals cases hfailure

/-- **The request is executed at most once** in a run, and in whatever may follow without giving
an attempt up too early, exactly when the run gives no attempt up too early. -/
theorem once_iff {past : List (State × Action)} {c : State} (hdecodes : Decodes accepts text)
    (hrun : Execution (step caller text accepts) .start past c) :
    (∀ e ∈ past, StepOk caller text e.1 e.2) ↔
      ∀ s ∈ c :: past.map Prod.fst, Once caller text accepts s := by
  induction hrun with
  | start =>
    refine ⟨fun _ => ?_, fun _ _ he => nomatch he⟩
    exact List.forall_mem_singleton.mpr (once_of_inv hdecodes inv_start)
  | @next past c c' a hrest hs ih =>
    rw [List.map_cons, List.forall_mem_cons, List.forall_mem_cons, ← ih]
    have hinv : (∀ e ∈ past, StepOk caller text e.1 e.2) → Inv text c := fun hpast =>
      OkRun.inv hdecodes ⟨past, hrest, hpast⟩ inv_start
    constructor
    · rintro ⟨hok, hpast⟩
      exact ⟨once_of_inv hdecodes ((hinv hpast).step hdecodes hs hok), hpast⟩
    · rintro ⟨honce, hpast⟩
      refine ⟨?_, hpast⟩
      by_contra hbad
      exact not_once_of_giveUp hdecodes (hinv hpast) hs hbad honce

end Invariant

def createContainer : List UInt8 :=
  "\x7b\"request_type\":\"create_container\",\"sandbox\":\"1\"\x7d".toUTF8.data.toList

def readsCreate (bytes : List UInt8) : Bool :=
  bytes = createContainer ∨ bytes = payload createContainer

theorem decodes_create : Decodes readsCreate createContainer where
  bare := by simp [readsCreate]
  line := by simp [readsCreate]
  cut n hn := by
    have hlen : (createContainer.take n).length = n := by
      rw [List.length_take]
      omega
    have hne : createContainer.take n ≠ createContainer ∧
        createContainer.take n ≠ payload createContainer := by
      constructor
      · intro h
        rw [h] at hlen
        omega
      · intro h
        rw [h, length_payload] at hlen
        omega
    simp [readsCreate, hne]

/-- The first connection fails, and the request is sent on the second one. -/
theorem container_once : ∃ past c, Execution (step executeRequest createContainer readsCreate)
      .start past c ∧ c.phase = .returned true ∧ c.executions = 1 ∧
      ∀ s ∈ c :: past.map Prod.fst, Once executeRequest createContainer readsCreate s := by
  have hstart : Execution (step executeRequest createContainer readsCreate) .start [] .start :=
    .start
  have hsent := (((hstart.next (a := .connectFailed) rfl).next (a := .connected) rfl).next
    (a := .wrote (payload createContainer).length) rfl).next (a := .flushed) rfl
  have hrun := ((hsent.next (a := .server 0 .read) rfl).next (a := .server 0 .execute) rfl).next
    (a := .answered true) rfl
  refine ⟨_, _, hrun, rfl, rfl, (once_iff decodes_create hrun).mp ?_⟩
  simp only [List.forall_mem_cons]
  exact ⟨stepOk_of_none rfl, stepOk_of_none rfl, stepOk_of_none rfl, stepOk_of_none rfl,
    stepOk_of_none rfl, stepOk_of_none rfl, fun _ _ _ _ _ h => (nomatch h),
    fun _ h => nomatch h⟩

def timedOut : IoError := ⟨.timedOut, "timed out".toList⟩

/-- The answer takes longer than the client waits: both requests are executed. -/
theorem container_twice :
    (∃ past c, Execution (step executeRequest createContainer readsCreate) .start past c ∧
      c.phase = .returned true ∧ c.executions = 2) ∧
    (∃ past c, Execution (step socketRoundtrip createContainer readsCreate) .start past c ∧
      c.phase = .returned true ∧ c.executions = 2) ∧
    ∃ past c, Execution (step executeToolWithRetry createContainer readsCreate) .start past c ∧
      c.phase = .returned true ∧ c.executions = 2 := by
  have hrun : ∀ caller : Caller, caller.retries = 3 → caller.read timedOut = true →
      ∃ past c, Execution (step caller createContainer readsCreate) .start past c ∧
        c.phase = .returned true ∧ c.executions = 2 := by
    intro caller hretries hread
    have hstart : Execution (step caller createContainer readsCreate) .start [] .start := .start
    have hwaits := (((hstart.next (a := .connected) rfl).next
      (a := .wrote (payload createContainer).length) rfl).next (a := .flushed) rfl).next
      (a := .server 0 .read) rfl
    have hretry : step caller createContainer readsCreate
        ⟨0, 0, .reading, [⟨(payload createContainer).length, false, .queued⟩], 0⟩
        (.readFailed timedOut) =
        some ⟨0, 1, .connecting, [⟨(payload createContainer).length, true, .queued⟩], 0⟩ := by
      simp only [step, Action.failure, hread, State.giveUp, hretries]
      rfl
    have hsent := ((((hwaits.next hretry).next (a := .server 0 .execute) rfl).next
      (a := .connected) rfl).next (a := .wrote (payload createContainer).length) rfl).next
      (a := .flushed) rfl
    exact ⟨_, _, ((hsent.next (a := .server 0 .read) rfl).next (a := .server 0 .execute) rfl).next
      (a := .answered true) rfl, rfl, rfl⟩
  exact ⟨hrun _ rfl rfl, hrun _ rfl rfl, hrun _ rfl rfl⟩

end Mowis.Transport.Retries
