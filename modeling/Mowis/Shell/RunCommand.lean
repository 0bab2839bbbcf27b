import Mowis.Lib.Execution
import Mowis.Lib.Text
import Mowis.Lib.Utf8

/-!
# Commands with an interactive standard input

An invocation of `run_command` spawns a child, stores the sender of its channel in
`INTERACTIVE_STDIN`, and starts the threads that write to the child and read its output.  The
sender, the flag `INTERACTIVE_WAITING` and the text `INTERACTIVE_PROMPT` are those of the process:
all invocations store and clear the same three, and the requests `send_input` and
`interactive_status` read them.
-/

namespace Mowis.Shell

open Mowis.Lib

def interactivePatterns : List Text :=
  ["Ok to proceed?".toList, "proceed? (y)".toList, "(Y/n)".toList, "(y/N)".toList,
    "(yes/no)".toList, "Proceed (y/n)?".toList, "Continue (y/n)?".toList,
    "Do you want to continue?".toList, "Are you sure?".toList, "? Select".toList,
    "? Choose".toList, "Is this OK?".toList]

/-- The lines of a chunk that contain a pattern.  A chunk that is not UTF-8 is not searched. -/
def promptsIn (chunk : List UInt8) : List Text :=
  match decodeUtf8 chunk with
  | none => []
  | some text => (lines text).filter fun line => interactivePatterns.any fun p => p <:+: line

/-- How far an invocation has got. -/
inductive Phase where
  | idle
  | spawned
  | registered
  | running
  | unregistered
  | ended
  /-- `try_wait` has failed: the invocation has returned, and has cleared nothing. -/
  | abandoned
  deriving DecidableEq, Repr

/-- An invocation: its child, the channel to the writer thread with what the writer has written to
the child and what it has dropped, and the prompts that the reader thread has found in the chunk at
hand, the first of them flagged or not.  `asking` says that a prompt was flagged, and that nothing
was sent to the command since. -/
structure Command where
  phase : Phase := .idle
  alive : Bool := false
  stdinOpen : Bool := false
  channel : List (List UInt8) := []
  stdin : List (List UInt8) := []
  lost : List (List UInt8) := []
  found : List Text := []
  flagged : Option Text := none
  asking : Bool := false

def Command.Threads (cmd : Command) : Prop :=
  cmd.phase = .running ∨ cmd.phase = .unregistered ∨ cmd.phase = .ended ∨ cmd.phase = .abandoned

def Command.Scanned (cmd : Command) : Prop := cmd.found = [] ∧ cmd.flagged = none

instance (cmd : Command) : Decidable cmd.Threads := inferInstanceAs (Decidable (_ ∨ _ ∨ _ ∨ _))

instance (cmd : Command) : Decidable cmd.Scanned := inferInstanceAs (Decidable (_ ∧ _))

/-- An input that was answered as sent: the command it went to, and the command whose prompt was
reported as pending, if there was one. -/
structure Sent where
  target : ℕ
  reported : Option ℕ
  bytes : List UInt8
  deriving DecidableEq

/-- The globals, the invocations, the inputs answered as sent, and the invocation that stored the
prompt. -/
structure State where
  stdin : Option ℕ
  waiting : Bool
  prompt : Text
  prompter : Option ℕ
  cmd : ℕ → Command
  sent : List Sent

namespace State

def start : State := ⟨none, false, [], none, fun _ => {}, []⟩

variable (s : State)

def put (i : ℕ) (cmd : Command) : State := { s with cmd := Function.update s.cmd i cmd }

def reported : Option ℕ := if s.waiting then s.prompter else none

/-- The bytes of a request `send_input`. -/
def bytesOf (data : Option String) : List UInt8 := utf8 (data.getD "").toList

/-- The command that an input is sent to: a send fails when the writer has dropped the receiver. -/
def receiver : Option ℕ := s.stdin.filter fun i => (s.cmd i).stdinOpen

/-- The answer to `send_input`. -/
def sendInput (data : Option String) : Except String ℕ :=
  match s.stdin with
  | some i =>
    if (s.cmd i).stdinOpen then .ok (bytesOf data).length
    else .error "failed to send input — channel closed"
  | none => .error "no running command with open stdin"

/-- The answer to `interactive_status`: the flag, the prompt, and whether a sender is stored. -/
def interactiveStatus : Bool × Text × Bool := (s.waiting, s.prompt, s.stdin.isSome)

def send (i : ℕ) (bytes : List UInt8) : State :=
  { s.put i { s.cmd i with channel := (s.cmd i).channel ++ [bytes], asking := false } with
    sent := s.sent ++ [⟨i, s.reported, bytes⟩] }

end State

/-- What happens next: a step of invocation `i`, of one of its threads or of its child, or a request
to the socket. -/
inductive Action where
  | spawn (i : ℕ)
  | register (i : ℕ)
  | clear (i : ℕ)
  | output (i : ℕ) (chunk : List UInt8)
  | flag (i : ℕ)
  | report (i : ℕ)
  | write (i : ℕ)
  | writeFails (i : ℕ)
  | disconnect (i : ℕ)
  | exit (i : ℕ)
  | waitFails (i : ℕ)
  | unregister (i : ℕ)
  | finish (i : ℕ)
  | sendInput (data : Option String)

def Enabled (s : State) : Action → Prop
  | .spawn i => (s.cmd i).phase = .idle
  | .register i => (s.cmd i).phase = .spawned
  | .clear i => (s.cmd i).phase = .registered
  | .output i _ =>
    ((s.cmd i).phase = .running ∨ (s.cmd i).phase = .abandoned) ∧ (s.cmd i).Scanned
  | .flag i => (s.cmd i).found ≠ [] ∧ (s.cmd i).flagged = none
  | .report i => (s.cmd i).flagged.isSome = true
  | .write i =>
    (s.cmd i).Threads ∧ (s.cmd i).stdinOpen = true ∧ (s.cmd i).alive = true ∧
      (s.cmd i).channel ≠ []
  | .writeFails i => (s.cmd i).Threads ∧ (s.cmd i).stdinOpen = true ∧ (s.cmd i).channel ≠ []
  | .disconnect i =>
    (s.cmd i).Threads ∧ (s.cmd i).stdinOpen = true ∧ (s.cmd i).channel = [] ∧ s.stdin ≠ some i
  | .exit i => (s.cmd i).alive = true
  | .waitFails i => (s.cmd i).phase = .running
  | .unregister i =>
    (s.cmd i).phase = .running ∧ (s.cmd i).alive = false ∧ (s.cmd i).Scanned
  | .finish i => (s.cmd i).phase = .unregistered
  | .sendInput _ => True

instance (s : State) : (a : Action) → Decidable (Enabled s a)
  | .spawn _ | .register _ | .clear _ | .waitFails _ | .finish _ =>
    inferInstanceAs (Decidable (_ = _))
  | .output _ _ => inferInstanceAs (Decidable (_ ∧ _))
  | .flag _ => inferInstanceAs (Decidable (_ ∧ _))
  | .report _ | .exit _ => inferInstanceAs (Decidable (_ = _))
  | .write _ | .writeFails _ | .disconnect _ | .unregister _ => inferInstanceAs (Decidable (_ ∧ _))
  | .sendInput _ => .isTrue trivial

def next (s : State) : Action → State
  | .spawn i => s.put i { phase := .spawned, alive := true, stdinOpen := true }
  | .register i =>
    { s.put i { s.cmd i with phase := .registered } with stdin := some i }
  | .clear i => { s.put i { s.cmd i with phase := .running } with waiting := false }
  | .output i chunk => s.put i { s.cmd i with found := promptsIn chunk }
  | .flag i =>
    { s.put i { s.cmd i with
        found := (s.cmd i).found.tail, flagged := (s.cmd i).found.head?, asking := true } with
      waiting := true }
  | .report i =>
    { s.put i { s.cmd i with flagged := none } with
      prompt := (s.cmd i).flagged.getD s.prompt, prompter := some i }
  | .write i =>
    s.put i { s.cmd i with
      stdin := (s.cmd i).stdin ++ (s.cmd i).channel.take 1, channel := (s.cmd i).channel.tail }
  -- the writer breaks off its loop, and with it go the receiver and the child's standard input
  | .writeFails i =>
    s.put i { s.cmd i with
      lost := (s.cmd i).lost ++ (s.cmd i).channel, channel := [], stdinOpen := false }
  | .disconnect i => s.put i { s.cmd i with stdinOpen := false }
  | .exit i => s.put i { s.cmd i with alive := false }
  | .waitFails i => s.put i { s.cmd i with phase := .abandoned }
  | .unregister i => { s.put i { s.cmd i with phase := .unregistered } with stdin := none }
  | .finish i => { s.put i { s.cmd i with phase := .ended } with waiting := false }
  | .sendInput data =>
    match s.receiver with
    | some i => s.send i (State.bytesOf data)
    | none => s

def step (s : State) (a : Action) : Option State := if Enabled s a then some (next s a) else none

variable {s s' : State} {a : Action} {i j : ℕ} {cmd : Command}

theorem step_eq_some : step s a = some s' ↔ Enabled s a ∧ s' = next s a := by
  unfold step
  split <;> simp_all [eq_comm]

@[simp] theorem State.put_cmd_self : (s.put i cmd).cmd i = cmd := Function.update_self _ _ _

@[simp] theorem State.put_cmd_of_ne (h : j ≠ i) : (s.put i cmd).cmd j = s.cmd j :=
  Function.update_of_ne h _ _

/-- What was sent to command `i`, in the order in which it was answered. -/
def inputsTo (sent : List Sent) (i : ℕ) : List (List UInt8) :=
  (sent.filter fun e => e.target = i).map Sent.bytes

end Mowis.Shell
