import Mowis.Transport.Link

/-!
# What callers make of the replies

The callers of a connection (`ping` of `mowis-host/src/transport/mod.rs`, `exec` and
`upload_project` of `mowis-host/src/main.rs`, `ToolGateway::invoke` of
`mowis-orchestration/src/tools.rs`), each of which expects some replies and gives up at any other.

* `Reply` — what the executor answers a request with.
* `only_dispatch` — the task of a request sends nothing else.
* `replies_expected` — no caller ever comes across a reply that it does not expect.
-/

namespace Mowis.Transport

open Mowis.Executor (Payload Envelope Decoder Served Prog CommandResult)
open Mowis.Review (Json)
open Mowis.Lib

/-! ### The callers -/

/-- Why a caller gives up. -/
inductive Refusal where
  | message (text : String)
  | unexpected (other : Payload)

def ping : Payload → Except Refusal (String × ℕ)
  | .pong version protocol => .ok (version, protocol)
  | other => .error (.unexpected other)

/-- What `exec` and `upload_project` make of their first reply. -/
def createSandbox : Payload → Except Refusal String
  | .sandboxCreated sandboxId => .ok sandboxId
  | .error message => .error (.message s!"create_sandbox: {message}")
  | other => .error (.unexpected other)

def uploadCodebase : Payload → Except Refusal ℕ
  | .codebaseUploaded _ fileCount => .ok fileCount
  | .error message => .error (.message s!"upload failed: {message}")
  | other => .error (.unexpected other)

/-- The end of `ToolGateway::invoke`; an error is a result too. -/
def toolOutput : Payload → Except Refusal Json
  | .toolResult output => .ok output
  | .error message => .ok (.object [("error".toList, .string message.toList)])
  | other => .error (.unexpected other)

/-- What `exec` has printed, and with what it exits. -/
structure Shown where
  stdout : String
  stderr : String
  warned : List Payload
  exit : ℤ

def Shown.start : Shown := ⟨"", "", [], 0⟩

/-- The loop of `exec`.  When the connection ends before the answer does, it exits with 0. -/
def exec (shown : Shown) : List Payload → Shown
  | [] => shown
  | .stdout data :: rest => exec { shown with stdout := shown.stdout ++ data } rest
  | .stderr data :: rest => exec { shown with stderr := shown.stderr ++ data } rest
  | .exitCode code :: _ => { shown with exit := code }
  | .error message :: _ =>
    { shown with stderr := shown.stderr ++ s!"error: {message}\n", exit := 1 }
  | other :: rest => exec { shown with warned := shown.warned ++ [other] } rest

/-! ### What a task sends -/

/-- The requests that may be answered with an error. -/
def mayFail : Payload → Bool
  | .ping | .version | .shutdown | .listSandboxes | .healthCheck => false
  | request => request.isRequest

/-- The payloads that a request is answered with. -/
inductive Reply : Payload → Payload → Prop
  | ping : Reply .ping (.pong "0.1.0" Executor.protocolVersion)
  | version : Reply .version (.pong "0.1.0" Executor.protocolVersion)
  | shutdown : Reply .shutdown (.exitCode 0)
  | createSandbox {spec sandboxId} : Reply (.createSandbox spec) (.sandboxCreated sandboxId)
  | destroySandbox {sandboxId} : Reply (.destroySandbox sandboxId) (.sandboxDestroyed sandboxId)
  | listSandboxes {sandboxes} : Reply .listSandboxes (.sandboxList sandboxes)
  | stdout {req data} : Reply (.exec req) (.stdout data)
  | stderr {req data} : Reply (.exec req) (.stderr data)
  | exitCode {req code} : Reply (.exec req) (.exitCode code)
  | invokeTool {sandboxId tool input output} :
      Reply (.invokeTool sandboxId tool input) (.toolResult output)
  | invokeToolAsAgent {parentId agentId tool input callerTier output} :
      Reply (.invokeToolAsAgent parentId agentId tool input callerTier) (.toolResult output)
  | createAgentOverlay {parentId agentId limits} :
      Reply (.createAgentOverlay parentId agentId limits) (.agentOverlayCreated agentId)
  | mergeAgentOverlay {parentId agentId changedPaths} :
      Reply (.mergeAgentOverlay parentId agentId) (.agentOverlayMerged agentId changedPaths)
  | discardAgentOverlay {parentId agentId} :
      Reply (.discardAgentOverlay parentId agentId) (.agentOverlayDiscarded agentId)
  | uploadCodebase {sandboxId archiveB64 fileCount count} :
      Reply (.uploadCodebase sandboxId archiveB64 fileCount) (.codebaseUploaded sandboxId count)
  | healthCheck {count} : Reply .healthCheck (.healthOk 0 count)
  | sendInput {sandboxId agentId input} :
      Reply (.sendInput sandboxId agentId input) (.toolResult Executor.inputSent)
  | interactiveStatus {sandboxId agentId prompt waiting} :
      Reply (.interactiveStatus sandboxId agentId) (.interactivePrompt agentId prompt waiting)
  | error {request message} (h : mayFail request = true) : Reply request (.error message)

/-- All that is left for a task to send. -/
inductive Only (ok : Payload → Prop) : Prog → Prop
  | done : Only ok .done
  | exit : Only ok .exit
  | send {env : Envelope} {next : Prog} (henv : ok env.payload) (hnext : Only ok next) :
      Only ok (.send env next)
  | op {o : Executor.Op} {next : o.Ret → Prog} (hnext : ∀ r, Only ok (next r)) : Only ok (.op o next)

namespace Only

variable {ok : Payload → Prop} {id : ℕ}

theorem last {env : Envelope} (h : ok env.payload) : Only ok (.send env .done) := .send h .done

theorem withSandbox {key message : String} {next : Executor.Sandbox → Prog}
    (herror : ∀ message, ok (.error message)) (h : ∀ sandbox, Only ok (next sandbox)) :
    Only ok (Executor.withSandbox id key message next) := by
  refine .op fun r => ?_
  cases r with
  | none => exact .last (herror message)
  | some sandbox => exact h sandbox

theorem removeEntry {key message : String} {p : Payload} (herror : ∀ message, ok (.error message))
    (hp : ok p) : Only ok (Executor.removeEntry id key message p) := by
  refine .op fun r => ?_
  cases r with
  | true => exact .last hp
  | false => exact .last (herror message)

theorem sendOutput {data : List UInt8} {p : String → Payload} {next : Prog} (hp : ∀ s, ok (p s))
    (h : Only ok next) : Only ok (Executor.sendOutput data (fun s => ⟨id, p s⟩) next) := by
  unfold Executor.sendOutput
  split
  · exact h
  · exact .send (hp _) h

theorem execReply {req : Executor.ExecRequest} (result : CommandResult) :
    Only (Reply (.exec req)) (Executor.execReply id result) := by
  cases result with
  | error e => exact .last (.error rfl)
  | ok result => exact .sendOutput (fun _ => .stdout) (.sendOutput (fun _ => .stderr) (.last .exitCode))

theorem invokeTool {request : Payload} (herror : ∀ message, Reply request (.error message))
    (houtput : ∀ output, Reply request (.toolResult output)) (sb : Executor.Sandbox) (tool : String)
    (input : Json) : Only (Reply request) (Executor.invokeTool id sb tool input) := by
  refine .op fun r => ?_
  cases r with
  | error e => exact .last (herror e)
  | ok output => exact .last (houtput output)

end Only

/-- **The task of a request sends only what the request is answered with.** -/
theorem only_dispatch (env : Envelope) : Only (Reply env.payload) (Executor.dispatch env) := by
  obtain ⟨id, request⟩ := env
  cases request with
  | ping => exact .last .ping
  | version => exact .last .version
  | shutdown => exact .send .shutdown .exit
  | createSandbox spec =>
    refine .op fun r => ?_
    cases r with
    | error e => exact .last (.error rfl)
    | ok sb => exact .op fun _ => .last .createSandbox
  | destroySandbox sandboxId => exact .removeEntry (fun _ => .error rfl) .destroySandbox
  | listSandboxes => exact .op fun listing => .last .listSandboxes
  | exec req =>
    show Only _ (Executor.exec id req)
    unfold Executor.exec
    split
    · exact .withSandbox (fun _ => .error rfl) fun sb => .op .execReply
    · exact .op .execReply
  | invokeTool sandboxId tool input =>
    exact .withSandbox (fun _ => .error rfl) fun sb =>
      .invokeTool (fun _ => .error rfl) (fun _ => .invokeTool) sb tool input
  | createAgentOverlay parentId agentId limits =>
    refine .withSandbox (fun _ => .error rfl) fun parent => .op fun r => ?_
    cases r with
    | error e => exact .last (.error rfl)
    | ok overlay => exact .op fun _ => .last .createAgentOverlay
  | mergeAgentOverlay parentId agentId =>
    refine .withSandbox (fun _ => .error rfl) fun parent =>
      .withSandbox (fun _ => .error rfl) fun overlay => .op fun r => ?_
    cases r with
    | error e => exact .last (.error rfl)
    | ok changedPaths => exact .op fun _ => .last .mergeAgentOverlay
  | discardAgentOverlay parentId agentId =>
    exact .removeEntry (fun _ => .error rfl) .discardAgentOverlay
  | invokeToolAsAgent parentId agentId tool input callerTier =>
    exact .withSandbox (fun _ => .error rfl) fun sb =>
      .invokeTool (fun _ => .error rfl) (fun _ => .invokeToolAsAgent) sb tool input
  | uploadCodebase sandboxId archiveB64 fileCount =>
    refine .withSandbox (fun _ => .error rfl) fun sb => .op fun r => ?_
    cases r with
    | error e => exact .last (.error rfl)
    | ok count => exact .last .uploadCodebase
  | healthCheck => exact .op fun count => .last .healthCheck
  | sendInput sandboxId agentId input =>
    refine .op fun there => ?_
    cases there with
    | false => exact .last (.error rfl)
    | true =>
      refine .op fun running => ?_
      cases running with
      | false => exact .last (.error rfl)
      | true => exact .last .sendInput
  | interactiveStatus sandboxId agentId =>
    refine .op fun there => ?_
    cases there with
    | false => exact .last (.error rfl)
    | true => exact .op fun waiting => .op fun prompt => .last .interactiveStatus
  | _ => exact .done

/-! ### One step -/

/-- What was sent for a line, and what is left to send, answers its request. -/
structure Fits (decode : Decoder) (v : Served) : Prop where
  sent : ∀ env, decode v.line = .ok env → ∀ e ∈ v.sent, Reply env.payload e.payload
  left : ∀ env, decode v.line = .ok env → Only (Reply env.payload) v.left

namespace Fits

variable {decode : Decoder} {line : String} {sent : List Envelope}

theorem read {env : Envelope} (h : decode line = .ok env) :
    Fits decode ⟨line, [], Executor.dispatch env⟩ where
  sent _ _ _ he := absurd he List.not_mem_nil
  left env' henv := by
    cases h.symm.trans henv
    exact only_dispatch env

theorem refused {e : String} (h : decode line = .error e) (sent : List Envelope) :
    Fits decode ⟨line, sent, .done⟩ where
  sent _ henv := nomatch h.symm.trans henv
  left _ henv := nomatch h.symm.trans henv

theorem stop {left : Prog} (h : Fits decode ⟨line, sent, left⟩) : Fits decode ⟨line, sent, .done⟩ where
  sent := h.sent
  left _ _ := .done

theorem op {o : Executor.Op} {next : o.Ret → Prog} (h : Fits decode ⟨line, sent, .op o next⟩)
    (ret : o.Ret) : Fits decode ⟨line, sent, next ret⟩ where
  sent := h.sent
  left env henv := by
    cases h.left env henv with
    | op hnext => exact hnext ret

theorem send {e : Envelope} {next : Prog} (h : Fits decode ⟨line, sent, .send e next⟩) :
    Fits decode ⟨line, sent ++ [e], next⟩ := by
  refine ⟨fun env henv e' he' => ?_, fun env henv => ?_⟩ <;> cases h.left env henv with
  | send he hnext => ?_
  · rcases List.mem_append.mp he' with he' | he'
    · exact h.sent env henv e' he'
    · rw [List.mem_singleton.mp he']
      exact he
  · exact hnext

theorem turn {c c' : Executor.Connection} (h : ∀ v ∈ c.served, Fits decode v)
    (hturn : Executor.Turn decode c c') : ∀ v ∈ c'.served, Fits decode v := by
  obtain ⟨-, registry, hturn⟩ := hturn
  obtain ⟨unread, served, _, lost, exited⟩ := c
  have hpush : ∀ v, Fits decode v → ∀ w ∈ served ++ [v], Fits decode w := by
    intro v hv w hw
    rcases List.mem_append.mp hw with hw | hw
    · exact h w hw
    · rw [List.mem_singleton.mp hw]
      exact hv
  have hmid : ∀ {before after : List Served} {v : Served}, v ∈ before ++ v :: after := by simp
  cases hturn with
  | read hline => exact hpush _ (.read hline)
  | malformed hline => exact hpush _ (.refused hline _)
  | malformedLost hline => exact hpush _ (.refused hline _)
  | broken => exact h
  | op => exact forall_mem_replace h (fun _ => id) ((h _ hmid).op _)
  | send => exact forall_mem_replace h (fun _ => id) (h _ hmid).send
  | sendLost => exact forall_mem_replace h (fun _ => id) (h _ hmid).stop
  | exit => exact forall_mem_replace h (fun _ => id) (h _ hmid).stop

end Fits

/-! ### Every run -/

section Run

variable {decode : Decoder} {ask : ℕ → Payload} {registry : Executor.Registry} {s : Link} {id : ℕ}

theorem fits_run (h : Relation.ReflTransGen (Link.Step decode ask) (.start registry) s) :
    ∀ v ∈ s.guest.served, Fits decode v := by
  induction h with
  | refl => exact fun v hv => absurd hv List.not_mem_nil
  | tail _ hstep ih =>
    cases hstep with
    | guest hturn _ => exact Fits.turn ih hturn
    | host | request | noise | reply => exact ih

theorem reply_of_received (h : Relation.ReflTransGen (Link.Step decode ask) (.start registry) s)
    (hid : id ≠ 0) {p : Payload} (hp : p ∈ (s.host.calls id).received) : Reply (ask id) p := by
  have hinv := Link.Inv.of_run h
  have hwritten : p ∈ payloads id (written s.guest) :=
    hinv.carried id hid ▸ List.mem_append_left _ hp
  obtain ⟨v, hv, hnum⟩ := hinv.exists_served hid (List.ne_nil_of_mem hwritten)
  rw [payloads_served hv hinv.soFar hinv.once hid hnum] at hwritten
  obtain ⟨e, he, rfl⟩ := List.mem_map.mp hwritten
  exact (fits_run h v hv).sent _ (hinv.decode_served hv hnum) e he

theorem exec_warned {req : Executor.ExecRequest} {ps : List Payload}
    (h : ∀ p ∈ ps, Reply (.exec req) p) (shown : Shown) : (exec shown ps).warned = shown.warned := by
  induction ps generalizing shown with
  | nil => rfl
  | cons p ps ih =>
    have hrest := ih fun q hq => h q (List.mem_cons_of_mem _ hq)
    cases h p List.mem_cons_self with
    | stdout | stderr => exact hrest _
    | exitCode | error => rfl

/-- **No caller comes across a reply that it does not expect.**  In every run of both ends, whatever
a call receives is what its request is answered with: a ping gets the version, the callers that
create a sandbox, upload a project or invoke a tool never give up at an unexpected reply, and the
loop that prints a command's output never warns of one. -/
theorem replies_expected (h : Relation.ReflTransGen (Link.Step decode ask) (.start registry) s)
    (hid : id ≠ 0) :
    (∀ p ∈ (s.host.calls id).received, Reply (ask id) p ∧
      (ask id = .ping → ping p = .ok ("0.1.0", Executor.protocolVersion)) ∧ ∀ other,
      (∀ spec, ask id = .createSandbox spec → createSandbox p ≠ .error (.unexpected other)) ∧
      (∀ sandboxId archiveB64 fileCount, ask id = .uploadCodebase sandboxId archiveB64 fileCount →
        uploadCodebase p ≠ .error (.unexpected other)) ∧
      ∀ parentId agentId tool input callerTier,
        ask id = .invokeToolAsAgent parentId agentId tool input callerTier →
        toolOutput p ≠ .error (.unexpected other)) ∧
    ∀ req, ask id = .exec req → (exec .start (s.host.calls id).received).warned = [] := by
  have hreply := fun p => reply_of_received h hid (p := p)
  refine ⟨fun p hp => ⟨hreply p hp, fun hask => ?_, fun other => ⟨fun spec hask => ?_,
    fun _ _ _ hask => ?_, fun _ _ _ _ _ hask => ?_⟩⟩, fun req hask => ?_⟩
  · cases hask ▸ hreply p hp with
    | ping => rfl
    | error h => cases h
  · cases hask ▸ hreply p hp <;> nofun
  · cases hask ▸ hreply p hp <;> nofun
  · cases hask ▸ hreply p hp <;> nofun
  · exact exec_warned (hask ▸ hreply) .start

theorem replies_expected_ping : ping (.pong "0.1.0" 2) = .ok ("0.1.0", Executor.protocolVersion) :=
  ((replies_expected run_ponged one_ne_zero).1 _ List.mem_cons_self).2.1 rfl

end Run

end Mowis.Transport
