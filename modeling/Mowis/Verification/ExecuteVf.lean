import Mowis.Streaming.Sse
import Mowis.Verification.Loop

/-!
# One verification function

`execute_vf` of `agentd/src/orchestration/verification.rs`, the response to `run_command` it
reads (`agentd/src/socket_server.rs`, `agentd/src/tools/shell.rs`), and `invoke_tool_via_socket`
of `agentd/src/orchestration/mod.rs`, which reads the same responses.  A response goes over the
socket as one line of JSON; the model hands over the value.
-/

namespace Mowis.Verification

open Mowis.Lib Mowis.Review Mowis.Streaming
open Mowis.Executor (int nat)

structure SocketResponse where
  status : Text
  result : Option Json
  error : Option Text

namespace SocketResponse

def ok (result : Option Json) : SocketResponse := ⟨"ok".toList, result, none⟩

def err (e : Text) : SocketResponse := ⟨"error".toList, none, some e⟩

def toJson (r : SocketResponse) : Json :=
  .object [("status".toList, .string r.status), ("result".toList, r.result.getD .null),
    ("error".toList, (r.error.map Json.string).getD .null)]

end SocketResponse

/-- The result object of `run_command`. -/
structure RanCommand where
  exitCode : Int32
  stdout : Text
  stderr : Text
  success : Bool
  timedOut : Bool

def RanCommand.toJson (r : RanCommand) : Json :=
  .object [("exit_code".toList, int r.exitCode.toInt),
    ("stdout".toList, .string r.stdout), ("stderr".toList, .string r.stderr),
    ("success".toList, .bool r.success), ("timed_out".toList, .bool r.timedOut)]

/-- What agentd makes of a request to run a command: the tool gives a result, or an error. -/
inductive Answer where
  | ran (r : RanCommand)
  | failed (e : Text)

namespace Answer

def response : Answer → SocketResponse
  | ran r => .ok (some r.toJson)
  | failed e => .err e

/-- The command exited with code 0 and did not time out. -/
def succeeded : Answer → Bool
  | ran r => r.exitCode.toInt = 0 && !r.timedOut
  | failed _ => false

end Answer

def asBool : Json → Option Bool
  | .bool b => some b
  | _ => none

/-- How the request of `execute_vf` ends: with a response, with an error of the socket or of the
task that waits for it, or not in time. -/
inductive Requested where
  | response (resp : Json)
  | socketError (e : String)
  | taskError (e : String)
  | timeout

def allowedSecs (timeoutSecs : ℕ) : ℕ := max timeoutSecs 10

/-- The input of the `run_command` request. -/
def runInput (vf : VerificationFunction) (timeoutSecs : ℕ) : Json :=
  .object [("cmd".toList, .string vf.command.toList), ("cwd".toList, .string "/workspace".toList),
    ("timeout".toList, nat (allowedSecs timeoutSecs))]

def runRequest (vf : VerificationFunction) (timeoutSecs : ℕ) (containerId : Text) : Json :=
  .object [("request_type".toList, .string "invoke_tool".toList),
    ("sandbox".toList, .string containerId), ("container".toList, .string containerId),
    ("name".toList, .string "run_command".toList), ("input".toList, runInput vf timeoutSecs)]

def showText (t : Text) : String := String.ofList t

/-- What `execute_vf` reads off a response. -/
def readResponse (resp : Json) (durationMs : ℕ) : VfResult :=
  let exitCode := ((resp.get "exit_code".toList).bind asI64).getD (-1)
  let stdout := ((resp.get "stdout".toList).bind Json.asStr).getD []
  let stderr := ((resp.get "stderr".toList).bind Json.asStr).getD []
  let timedOut := ((resp.get "timed_out".toList).bind asBool).getD false
  let passed := exitCode = 0 && !timedOut
  let output :=
    if passed then showText stdout
    else
      s!"Exit code: {exitCode}\nStdout: {showText stdout}\nStderr: {showText stderr}\n" ++
        s!"Timed out: {timedOut}\nDuration: {durationMs}ms"
  ⟨passed, output⟩

/-- The verdict on a function: a container is made for it, and the command runs there. -/
def executeVf (vf : VerificationFunction) (timeoutSecs : ℕ) (created : Except String Text)
    (request : Json → Requested) (durationMs : ℕ) : Verdict :=
  match created with
  | .error e => .error e
  | .ok containerId =>
    match request (runRequest vf timeoutSecs containerId) with
    | .response resp => .ok (readResponse resp durationMs)
    | .socketError e => .ok ⟨false, s!"Socket error: {e}"⟩
    | .taskError e => .ok ⟨false, s!"Task spawn error: {e}"⟩
    | .timeout => .ok ⟨false, s!"Timeout after {allowedSecs timeoutSecs}s"⟩

theorem readResponse_passed (a : Answer) (durationMs : ℕ) :
    (readResponse a.response.toJson durationMs).passed = false := by
  cases a <;> rfl

def Truthful (vf : VerificationFunction) (timeoutSecs : ℕ) (a : Answer) : Prop :=
  ∀ containerId durationMs, ∃ output,
    executeVf vf timeoutSecs (.ok containerId) (fun _ => .response a.response.toJson) durationMs =
      .ok ⟨a.succeeded, output⟩

/-- **Passing.** A verification function passes when its command succeeded, and only then,
exactly as long as the command does not succeed. -/
theorem executeVf_truthful_iff (vf : VerificationFunction) (timeoutSecs : ℕ) (a : Answer) :
    Truthful vf timeoutSecs a ↔ a.succeeded = false := by
  constructor
  · intro h
    obtain ⟨output, hverdict⟩ := h [] 0
    have hresult : readResponse a.response.toJson 0 = ⟨a.succeeded, output⟩ :=
      Except.ok.inj hverdict
    rw [← readResponse_passed a 0, hresult]
  · intro h containerId durationMs
    refine ⟨(readResponse a.response.toJson durationMs).output, ?_⟩
    rw [h, ← readResponse_passed a durationMs]
    rfl

/-- A command that prints something and exits with code 0 fails. -/
theorem succeeded_not_passed :
    let a := Answer.ran ⟨0, "ok".toList, [], true, false⟩
    a.succeeded = true ∧ ¬ Truthful ⟨"t1", "true", []⟩ 30 a := by
  refine ⟨by decide, fun h => ?_⟩
  have hfalse := (executeVf_truthful_iff _ _ _).mp h
  exact absurd hfalse (by decide)

end Mowis.Verification
