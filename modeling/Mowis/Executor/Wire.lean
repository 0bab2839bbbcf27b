import Mowis.Executor.Protocol
import Mowis.Lib.LineBuffer

/-!
# Envelopes as lines

`to_line` and `from_line` of `mowis-protocol/src/lib.rs`, and what is derived for its types: an
envelope is an object, and a payload is an object with its kind and its fields side by side.
-/

namespace Mowis.Executor

open Mowis.Lib
open Mowis.Review (Json)

abbrev Fields := List (Text × Json)

def fields (fs : List (String × Json)) : Fields := fs.map fun f => (f.1.toList, f.2)

/-- The values under a name.  More than one is an error to every reader below. -/
def found (fs : Fields) (name : String) : List Json :=
  (fs.filter fun f => f.1 = name.toList).map Prod.snd

def required {α : Type} (read : Json → Option α) (fs : Fields) (name : String) : Option α :=
  match found fs name with
  | [v] => read v
  | _ => none

def defaulted {α : Type} (read : Json → Option α) (default : α) (fs : Fields) (name : String) :
    Option α :=
  match found fs name with
  | [] => some default
  | [v] => read v
  | _ => none

def readNullable {α : Type} (read : Json → Option α) : Json → Option (Option α)
  | .null => some none
  | v => (read v).map some

def readString : Json → Option String
  | .string s => some (String.ofList s)
  | _ => none

def readBool : Json → Option Bool
  | .bool b => some b
  | _ => none

def readValue : Json → Option Json := some

def readDigits (digits : Text) : Option ℕ :=
  if digits ≠ [] ∧ digits.all Char.isDigit then some (Nat.ofDigitChars 10 digits 0) else none

/-- A number of an unsigned type with `bound` values. -/
def readNat (bound : ℕ) : Json → Option ℕ
  | .number n => (readDigits n).filter fun k => k < bound
  | _ => none

/-- A number of 32 bits with a sign.  A zero with a sign is no integer. -/
def readI32 : Json → Option ℤ
  | .number ('-' :: n) =>
    ((readDigits n).filter fun k => 0 < k ∧ k ≤ 2 ^ 31).map fun k => -Int.ofNat k
  | .number n => ((readDigits n).filter fun k => k < 2 ^ 31).map Int.ofNat
  | _ => none

def readAll {α : Type} (read : Json → Option α) : Json → Option (List α)
  | .array items => items.mapM read
  | _ => none

def readPair : Json → Option (String × String)
  | .array [a, b] => (readString a).bind fun a => (readString b).map (a, ·)
  | _ => none

def string (s : String) : Json := .string s.toList

def nat (n : ℕ) : Json := .number (Nat.toDigits 10 n)

def int : ℤ → Json
  | .ofNat n => nat n
  | .negSucc n => .number ('-' :: Nat.toDigits 10 (n + 1))

def optionalField (name : String) (v : Option Json) : List (String × Json) :=
  (v.map (name, ·)).toList

/-- How JSON texts are written and read, and what is read of a value that stands where the object
of an envelope, of a payload, of limits or of a sandbox is expected, and is none. -/
structure Serde where
  print : Json → Text
  parse : Text → Option Json
  otherEnvelope : Json → Option Envelope
  otherPayload : Json → Option Payload
  otherLimits : Json → Option ResourceLimits
  otherInfo : Json → Option SandboxInfo

def readObject {α : Type} (other : Json → Option α) (read : Fields → Option α) : Json → Option α
  | .object fs => read fs
  | v => other v

namespace ResourceLimits

def toJson (limits : ResourceLimits) : Json :=
  .object (fields (optionalField "ram_bytes" (limits.ramBytes.map nat) ++
    optionalField "cpu_millis" (limits.cpuMillis.map nat)))

def ofFields (fs : Fields) : Option ResourceLimits := do
  let ramBytes ← defaulted (readNullable (readNat (2 ^ 64))) none fs "ram_bytes"
  let cpuMillis ← defaulted (readNullable (readNat (2 ^ 64))) none fs "cpu_millis"
  return ⟨ramBytes, cpuMillis⟩

def Fits (limits : ResourceLimits) : Prop :=
  (∀ n ∈ limits.ramBytes, n < 2 ^ 64) ∧ ∀ n ∈ limits.cpuMillis, n < 2 ^ 64

end ResourceLimits

namespace SandboxInfo

def toJson (info : SandboxInfo) : Json :=
  .object (fields [("sandbox_id", string info.sandboxId), ("root_path", string info.rootPath)])

def ofFields (fs : Fields) : Option SandboxInfo := do
  let sandboxId ← required readString fs "sandbox_id"
  let rootPath ← required readString fs "root_path"
  return ⟨sandboxId, rootPath⟩

end SandboxInfo

variable (serde : Serde)

def readLimits : Json → Option ResourceLimits :=
  readObject serde.otherLimits ResourceLimits.ofFields

namespace SandboxSpec

def fields (spec : SandboxSpec) : List (String × Json) :=
  optionalField "sandbox_id" (spec.sandboxId.map string) ++
    optionalField "image_rootfs" (spec.imageRootfs.map string) ++
    [("limits", spec.limits.toJson)]

def ofFields (fs : Fields) : Option SandboxSpec := do
  let sandboxId ← defaulted (readNullable readString) none fs "sandbox_id"
  let imageRootfs ← defaulted (readNullable readString) none fs "image_rootfs"
  let limits ← defaulted (readLimits serde) ⟨none, none⟩ fs "limits"
  return ⟨sandboxId, imageRootfs, limits⟩

end SandboxSpec

namespace ExecRequest

def fields (req : ExecRequest) : List (String × Json) :=
  optionalField "sandbox_id" (req.sandboxId.map string) ++
    [("cmd", string req.cmd), ("args", .array (req.args.map string)),
      ("env", .array (req.env.map fun e => .array [string e.1, string e.2]))]

def ofFields (fs : Fields) : Option ExecRequest := do
  let sandboxId ← defaulted (readNullable readString) none fs "sandbox_id"
  let cmd ← required readString fs "cmd"
  let args ← defaulted (readAll readString) [] fs "args"
  let env ← defaulted (readAll readPair) [] fs "env"
  return ⟨sandboxId, cmd, args, env⟩

end ExecRequest

/-! ### Kinds -/

/-- The variants of a payload. -/
inductive Kind where
  | ping | version | shutdown | createSandbox | destroySandbox | listSandboxes | exec | invokeTool
  | createAgentOverlay | mergeAgentOverlay | discardAgentOverlay | invokeToolAsAgent
  | uploadCodebase | healthCheck | sendInput | interactiveStatus | agentOverlayCreated
  | agentOverlayMerged | agentOverlayDiscarded | codebaseUploaded | healthOk | interactivePrompt
  | pong | sandboxCreated | sandboxDestroyed | sandboxList | stdout | stderr | exitCode
  | toolResult | error
  deriving DecidableEq

namespace Kind

def name : Kind → String
  | ping => "ping"
  | version => "version"
  | shutdown => "shutdown"
  | createSandbox => "create_sandbox"
  | destroySandbox => "destroy_sandbox"
  | listSandboxes => "list_sandboxes"
  | exec => "exec"
  | invokeTool => "invoke_tool"
  | createAgentOverlay => "create_agent_overlay"
  | mergeAgentOverlay => "merge_agent_overlay"
  | discardAgentOverlay => "discard_agent_overlay"
  | invokeToolAsAgent => "invoke_tool_as_agent"
  | uploadCodebase => "upload_codebase"
  | healthCheck => "health_check"
  | sendInput => "send_input"
  | interactiveStatus => "interactive_status"
  | agentOverlayCreated => "agent_overlay_created"
  | agentOverlayMerged => "agent_overlay_merged"
  | agentOverlayDiscarded => "agent_overlay_discarded"
  | codebaseUploaded => "codebase_uploaded"
  | healthOk => "health_ok"
  | interactivePrompt => "interactive_prompt"
  | pong => "pong"
  | sandboxCreated => "sandbox_created"
  | sandboxDestroyed => "sandbox_destroyed"
  | sandboxList => "sandbox_list"
  | stdout => "stdout"
  | stderr => "stderr"
  | exitCode => "exit_code"
  | toolResult => "tool_result"
  | error => "error"

def all : List Kind :=
  [ping, version, shutdown, createSandbox, destroySandbox, listSandboxes, exec, invokeTool,
    createAgentOverlay, mergeAgentOverlay, discardAgentOverlay, invokeToolAsAgent, uploadCodebase,
    healthCheck, sendInput, interactiveStatus, agentOverlayCreated, agentOverlayMerged,
    agentOverlayDiscarded, codebaseUploaded, healthOk, interactivePrompt, pong, sandboxCreated,
    sandboxDestroyed, sandboxList, stdout, stderr, exitCode, toolResult, error]

def ofName (name : String) : Option Kind := all.find? fun k => k.name = name

theorem ofName_name (k : Kind) : ofName k.name = some k := by
  cases k <;> decide

end Kind

namespace Payload

def kind : Payload → Kind
  | ping => .ping
  | version => .version
  | shutdown => .shutdown
  | createSandbox _ => .createSandbox
  | destroySandbox _ => .destroySandbox
  | listSandboxes => .listSandboxes
  | exec _ => .exec
  | invokeTool .. => .invokeTool
  | createAgentOverlay .. => .createAgentOverlay
  | mergeAgentOverlay .. => .mergeAgentOverlay
  | discardAgentOverlay .. => .discardAgentOverlay
  | invokeToolAsAgent .. => .invokeToolAsAgent
  | uploadCodebase .. => .uploadCodebase
  | healthCheck => .healthCheck
  | sendInput .. => .sendInput
  | interactiveStatus .. => .interactiveStatus
  | agentOverlayCreated _ => .agentOverlayCreated
  | agentOverlayMerged .. => .agentOverlayMerged
  | agentOverlayDiscarded _ => .agentOverlayDiscarded
  | codebaseUploaded .. => .codebaseUploaded
  | healthOk .. => .healthOk
  | interactivePrompt .. => .interactivePrompt
  | pong .. => .pong
  | sandboxCreated _ => .sandboxCreated
  | sandboxDestroyed _ => .sandboxDestroyed
  | sandboxList _ => .sandboxList
  | stdout _ => .stdout
  | stderr _ => .stderr
  | exitCode _ => .exitCode
  | toolResult _ => .toolResult
  | error _ => .error

def fields : Payload → List (String × Json)
  | ping | version | shutdown | listSandboxes | healthCheck => []
  | createSandbox spec => spec.fields
  | destroySandbox sandboxId | sandboxCreated sandboxId | sandboxDestroyed sandboxId =>
    [("sandbox_id", string sandboxId)]
  | exec req => req.fields
  | invokeTool sandboxId tool input =>
    [("sandbox_id", string sandboxId), ("tool", string tool), ("input", input)]
  | createAgentOverlay parentSandboxId agentId limits =>
    [("parent_sandbox_id", string parentSandboxId), ("agent_id", string agentId),
      ("limits", limits.toJson)]
  | mergeAgentOverlay parentSandboxId agentId | discardAgentOverlay parentSandboxId agentId =>
    [("parent_sandbox_id", string parentSandboxId), ("agent_id", string agentId)]
  | invokeToolAsAgent parentSandboxId agentId tool input callerTier =>
    [("parent_sandbox_id", string parentSandboxId), ("agent_id", string agentId),
      ("tool", string tool), ("input", input), ("caller_tier", string callerTier)]
  | uploadCodebase sandboxId archiveB64 fileCount =>
    [("sandbox_id", string sandboxId), ("archive_b64", string archiveB64),
      ("file_count", nat fileCount)]
  | sendInput sandboxId agentId input =>
    [("sandbox_id", string sandboxId), ("agent_id", string agentId), ("input", string input)]
  | interactiveStatus sandboxId agentId =>
    [("sandbox_id", string sandboxId), ("agent_id", string agentId)]
  | agentOverlayCreated agentId | agentOverlayDiscarded agentId => [("agent_id", string agentId)]
  | agentOverlayMerged agentId changedPaths =>
    [("agent_id", string agentId), ("changed_paths", .array (changedPaths.map string))]
  | codebaseUploaded sandboxId fileCount =>
    [("sandbox_id", string sandboxId), ("file_count", nat fileCount)]
  | healthOk uptimeSecs sandboxCount =>
    [("uptime_secs", nat uptimeSecs), ("sandbox_count", nat sandboxCount)]
  | interactivePrompt agentId prompt waiting =>
    [("agent_id", string agentId), ("prompt", string prompt), ("waiting", .bool waiting)]
  | pong running protocol => [("version", string running), ("protocol", nat protocol)]
  | sandboxList sandboxes => [("sandboxes", .array (sandboxes.map SandboxInfo.toJson))]
  | stdout data | stderr data => [("data", string data)]
  | exitCode code => [("code", int code)]
  | toolResult output => [("output", output)]
  | error message => [("message", string message)]

def toJson (payload : Payload) : Json :=
  .object (Executor.fields (("kind", string payload.kind.name) :: payload.fields))

def ofKind (fs : Fields) : Kind → Option Payload
  | .ping => some ping
  | .version => some version
  | .shutdown => some shutdown
  | .createSandbox => (SandboxSpec.ofFields serde fs).map createSandbox
  | .destroySandbox => (required readString fs "sandbox_id").map destroySandbox
  | .listSandboxes => some listSandboxes
  | .exec => (ExecRequest.ofFields fs).map exec
  | .invokeTool => do
    let sandboxId ← required readString fs "sandbox_id"
    let tool ← required readString fs "tool"
    let input ← required readValue fs "input"
    return invokeTool sandboxId tool input
  | .createAgentOverlay => do
    let parentSandboxId ← required readString fs "parent_sandbox_id"
    let agentId ← required readString fs "agent_id"
    let limits ← required (readLimits serde) fs "limits"
    return createAgentOverlay parentSandboxId agentId limits
  | .mergeAgentOverlay => do
    let parentSandboxId ← required readString fs "parent_sandbox_id"
    let agentId ← required readString fs "agent_id"
    return mergeAgentOverlay parentSandboxId agentId
  | .discardAgentOverlay => do
    let parentSandboxId ← required readString fs "parent_sandbox_id"
    let agentId ← required readString fs "agent_id"
    return discardAgentOverlay parentSandboxId agentId
  | .invokeToolAsAgent => do
    let parentSandboxId ← required readString fs "parent_sandbox_id"
    let agentId ← required readString fs "agent_id"
    let tool ← required readString fs "tool"
    let input ← required readValue fs "input"
    let callerTier ← required readString fs "caller_tier"
    return invokeToolAsAgent parentSandboxId agentId tool input callerTier
  | .uploadCodebase => do
    let sandboxId ← required readString fs "sandbox_id"
    let archiveB64 ← required readString fs "archive_b64"
    let fileCount ← required (readNat (2 ^ 32)) fs "file_count"
    return uploadCodebase sandboxId archiveB64 fileCount
  | .healthCheck => some healthCheck
  | .sendInput => do
    let sandboxId ← required readString fs "sandbox_id"
    let agentId ← required readString fs "agent_id"
    let input ← required readString fs "input"
    return sendInput sandboxId agentId input
  | .interactiveStatus => do
    let sandboxId ← required readString fs "sandbox_id"
    let agentId ← required readString fs "agent_id"
    return interactiveStatus sandboxId agentId
  | .agentOverlayCreated => (required readString fs "agent_id").map agentOverlayCreated
  | .agentOverlayMerged => do
    let agentId ← required readString fs "agent_id"
    let changedPaths ← required (readAll readString) fs "changed_paths"
    return agentOverlayMerged agentId changedPaths
  | .agentOverlayDiscarded => (required readString fs "agent_id").map agentOverlayDiscarded
  | .codebaseUploaded => do
    let sandboxId ← required readString fs "sandbox_id"
    let fileCount ← required (readNat (2 ^ 32)) fs "file_count"
    return codebaseUploaded sandboxId fileCount
  | .healthOk => do
    let uptimeSecs ← required (readNat (2 ^ 64)) fs "uptime_secs"
    let sandboxCount ← required (readNat (2 ^ 64)) fs "sandbox_count"
    return healthOk uptimeSecs sandboxCount
  | .interactivePrompt => do
    let agentId ← required readString fs "agent_id"
    let prompt ← required readString fs "prompt"
    let waiting ← required readBool fs "waiting"
    return interactivePrompt agentId prompt waiting
  | .pong => do
    let version ← required readString fs "version"
    let protocol ← required (readNat (2 ^ 32)) fs "protocol"
    return pong version protocol
  | .sandboxCreated => (required readString fs "sandbox_id").map sandboxCreated
  | .sandboxDestroyed => (required readString fs "sandbox_id").map sandboxDestroyed
  | .sandboxList =>
    (required (readAll (readObject serde.otherInfo SandboxInfo.ofFields)) fs "sandboxes").map
      sandboxList
  | .stdout => (required readString fs "data").map stdout
  | .stderr => (required readString fs "data").map stderr
  | .exitCode => (required readI32 fs "code").map exitCode
  | .toolResult => (required readValue fs "output").map toolResult
  | .error => (required readString fs "message").map error

def ofFields (fs : Fields) : Option Payload := do
  let name ← required readString fs "kind"
  let kind ← Kind.ofName name
  ofKind serde fs kind

def Fits : Payload → Prop
  | createSandbox spec => spec.limits.Fits
  | createAgentOverlay _ _ limits => limits.Fits
  | uploadCodebase _ _ fileCount | codebaseUploaded _ fileCount => fileCount < 2 ^ 32
  | healthOk uptimeSecs sandboxCount => uptimeSecs < 2 ^ 64 ∧ sandboxCount < 2 ^ 64
  | pong _ protocol => protocol < 2 ^ 32
  | exitCode code => -(2 ^ 31) ≤ code ∧ code < 2 ^ 31
  | _ => True

end Payload

namespace Envelope

def toJson (e : Envelope) : Json :=
  .object (Executor.fields [("id", nat e.id), ("payload", e.payload.toJson)])

def ofFields (fs : Fields) : Option Envelope := do
  let id ← required (readNat (2 ^ 64)) fs "id"
  let payload ← required (readObject serde.otherPayload (Payload.ofFields serde)) fs "payload"
  return ⟨id, payload⟩

def toLine (e : Envelope) : Text := serde.print e.toJson ++ ['\n']

def fromLine (line : Text) : Option Envelope :=
  (serde.parse (trimEndMatches ['\n'] line)).bind
    (readObject serde.otherEnvelope (Envelope.ofFields serde))

def Fits (e : Envelope) : Prop := e.id < 2 ^ 64 ∧ e.payload.Fits

end Envelope

theorem found_fields (fs : List (String × Json)) (name : String) :
    found (fields fs) name = (fs.filter fun f => f.1 = name).map Prod.snd := by
  induction fs with
  | nil => rfl
  | cons f fs ih =>
    have hname : f.1.toList = name.toList ↔ f.1 = name := String.toList_inj
    show ((((f.1.toList, f.2) :: fields fs).filter fun f => f.1 = name.toList).map Prod.snd) = _
    rw [List.filter_cons, List.filter_cons]
    by_cases h : f.1 = name
    · rw [if_pos (decide_eq_true (hname.mpr h)), if_pos (decide_eq_true h), List.map_cons,
        List.map_cons, ← ih]
      rfl
    · rw [if_neg (by simpa [hname] using h), if_neg (by simpa using h), ← ih]
      rfl

@[simp] theorem readString_string (s : String) : readString (string s) = some s :=
  congrArg some String.ofList_toList

theorem readDigits_toDigits (n : ℕ) : readDigits (Nat.toDigits 10 n) = some n := by
  have hdigits : (Nat.toDigits 10 n).all Char.isDigit = true :=
    List.all_eq_true.mpr fun c hc => Nat.isDigit_of_mem_toDigits (by decide) (by decide) hc
  rw [readDigits, if_pos ⟨Nat.toDigits_ne_nil, hdigits⟩, Nat.ofDigitChars_ten_toDigits]

theorem readNat_nat {bound n : ℕ} (h : n < bound) : readNat bound (nat n) = some n := by
  rw [nat, readNat, readDigits_toDigits]
  exact Option.filter_some_pos (decide_eq_true h)

theorem readI32_int {code : ℤ} (h : -(2 ^ 31) ≤ code ∧ code < 2 ^ 31) :
    readI32 (int code) = some code := by
  cases code with
  | ofNat n =>
    have hne : ∀ rest, Nat.toDigits 10 n ≠ '-' :: rest := by
      intro rest heq
      have hminus : ('-' : Char).isDigit :=
        Nat.isDigit_of_mem_toDigits (by decide) (by decide) (heq ▸ List.mem_cons_self)
      exact absurd hminus (by decide)
    have hlt : n < 2 ^ 31 := by
      have hcode : (n : ℤ) < 2 ^ 31 := h.2
      omega
    have hread : readI32 (.number (Nat.toDigits 10 n)) =
        ((readDigits (Nat.toDigits 10 n)).filter fun k => k < 2 ^ 31).map Int.ofNat := by
      unfold readI32
      split
      · next heq => exact absurd (Json.number.inj heq) (hne _)
      · next heq => rw [Json.number.inj heq]
      · next hno => exact absurd rfl (hno _)
    show readI32 (.number (Nat.toDigits 10 n)) = _
    rw [hread, readDigits_toDigits, Option.filter_some, if_pos (decide_eq_true hlt)]
    rfl
  | negSucc n =>
    have hle : 0 < n + 1 ∧ n + 1 ≤ 2 ^ 31 := by
      have hcode : -(2 ^ 31) ≤ -((n : ℤ) + 1) := by
        rw [← Int.negSucc_eq]
        exact h.1
      omega
    show ((readDigits (Nat.toDigits 10 (n + 1))).filter fun k => 0 < k ∧ k ≤ 2 ^ 31).map _ = _
    rw [readDigits_toDigits, Option.filter_some, if_pos (decide_eq_true hle)]
    rfl

theorem readAll_map {α : Type} {read : Json → Option α} {write : α → Json}
    (h : ∀ a, read (write a) = some a) (as : List α) :
    readAll read (.array (as.map write)) = some as := by
  show (as.map write).mapM read = some as
  induction as with
  | nil => rfl
  | cons a as ih =>
    rw [List.map_cons, List.mapM_cons, h, ih]
    rfl

theorem readNullable_string (s : String) :
    readNullable readString (string s) = some (some s) :=
  congrArg (Option.map some) (readString_string s)

theorem readNullable_nat {bound n : ℕ} (h : n < bound) :
    readNullable (readNat bound) (nat n) = some (some n) :=
  congrArg (Option.map some) (readNat_nat h)

theorem ResourceLimits.ofFields_fields {limits : ResourceLimits} (h : limits.Fits) :
    readLimits serde limits.toJson = some limits := by
  obtain ⟨ramBytes, cpuMillis⟩ := limits
  obtain ⟨hram, hcpu⟩ := h
  show ResourceLimits.ofFields (fields _) = _
  unfold ResourceLimits.ofFields
  cases ramBytes with
  | none =>
    cases cpuMillis with
    | none => simp [defaulted, found_fields, optionalField]
    | some c => simp [-Nat.reducePow, defaulted, found_fields, optionalField, readNullable_nat (hcpu c rfl)]
  | some r =>
    cases cpuMillis with
    | none => simp [-Nat.reducePow, defaulted, found_fields, optionalField, readNullable_nat (hram r rfl)]
    | some c =>
      simp [-Nat.reducePow, defaulted, found_fields, optionalField, readNullable_nat (hram r rfl),
        readNullable_nat (hcpu c rfl)]

theorem SandboxInfo.ofFields_fields (info : SandboxInfo) :
    readObject serde.otherInfo SandboxInfo.ofFields info.toJson = some info := by
  show SandboxInfo.ofFields (fields _) = _
  simp [SandboxInfo.ofFields, required, found_fields]

theorem readPair_pair (e : String × String) :
    readPair (.array [string e.1, string e.2]) = some e := by
  simp [readPair]

theorem Payload.filter_kind (payload : Payload) :
    payload.fields.filter (fun f => f.1 = "kind") = [] := by
  cases payload with
  | createSandbox spec =>
    obtain ⟨sandboxId, imageRootfs, limits⟩ := spec
    cases sandboxId <;> cases imageRootfs <;> rfl
  | exec req =>
    obtain ⟨sandboxId, cmd, args, env⟩ := req
    cases sandboxId <;> rfl
  | _ => rfl

theorem SandboxSpec.ofFields_fields {spec : SandboxSpec} (h : spec.limits.Fits) (kind : Json) :
    SandboxSpec.ofFields serde (Executor.fields (("kind", kind) :: spec.fields)) = some spec := by
  obtain ⟨sandboxId, imageRootfs, limits⟩ := spec
  have hlimits := ResourceLimits.ofFields_fields serde h
  unfold SandboxSpec.ofFields SandboxSpec.fields
  cases sandboxId <;> cases imageRootfs <;>
    simp [defaulted, found_fields, optionalField, readNullable_string, hlimits]

theorem ExecRequest.ofFields_fields (req : ExecRequest) (kind : Json) :
    ExecRequest.ofFields (Executor.fields (("kind", kind) :: req.fields)) = some req := by
  obtain ⟨sandboxId, cmd, args, env⟩ := req
  have hargs := readAll_map readString_string args
  have henv := readAll_map readPair_pair env
  unfold ExecRequest.ofFields ExecRequest.fields
  cases sandboxId <;>
    simp [required, defaulted, found_fields, optionalField, readNullable_string, hargs, henv]

theorem Payload.ofKind_fields {payload : Payload} (h : payload.Fits) (kind : Json) :
    Payload.ofKind serde (Executor.fields (("kind", kind) :: payload.fields)) payload.kind =
      some payload := by
  cases payload with
  | createSandbox spec => exact congrArg (Option.map _) (SandboxSpec.ofFields_fields serde h kind)
  | exec req => exact congrArg (Option.map _) (ExecRequest.ofFields_fields req kind)
  | createAgentOverlay parentSandboxId agentId limits =>
    have hlimits := ResourceLimits.ofFields_fields serde h
    simp [Payload.kind, Payload.fields, Payload.ofKind, required, found_fields, hlimits]
  | sandboxList sandboxes =>
    have hinfos := readAll_map (SandboxInfo.ofFields_fields serde) sandboxes
    simp [Payload.kind, Payload.fields, Payload.ofKind, required, found_fields, hinfos]
  | agentOverlayMerged agentId changedPaths =>
    have hpaths := readAll_map readString_string changedPaths
    simp [Payload.kind, Payload.fields, Payload.ofKind, required, found_fields, hpaths]
  | uploadCodebase | codebaseUploaded | pong =>
    have hnat := readNat_nat h
    simp [-Nat.reducePow, Payload.kind, Payload.fields, Payload.ofKind, required, found_fields, hnat]
  | healthOk uptimeSecs sandboxCount =>
    have huptime := readNat_nat h.1
    have hcount := readNat_nat h.2
    simp [-Nat.reducePow, Payload.kind, Payload.fields, Payload.ofKind, required, found_fields,
      huptime, hcount]
  | exitCode code =>
    have hcode := readI32_int h
    simp [Payload.kind, Payload.fields, Payload.ofKind, required, found_fields, hcode]
  | interactivePrompt | invokeTool | invokeToolAsAgent | toolResult =>
    simp [Payload.kind, Payload.fields, Payload.ofKind, required, found_fields, readBool, readValue]
  | _ => simp [Payload.kind, Payload.fields, Payload.ofKind, required, found_fields]

theorem Payload.ofFields_fields {payload : Payload} (h : payload.Fits) :
    readObject serde.otherPayload (Payload.ofFields serde) payload.toJson = some payload := by
  show Payload.ofFields serde (Executor.fields (("kind", _) :: payload.fields)) = _
  have hkind : required readString
      (Executor.fields (("kind", string payload.kind.name) :: payload.fields)) "kind" =
      some payload.kind.name := by
    have hfilter : (("kind", string payload.kind.name) :: payload.fields).filter
        (fun f => f.1 = "kind") = [("kind", string payload.kind.name)] := by
      rw [List.filter_cons, if_pos (decide_eq_true rfl), payload.filter_kind]
    rw [required, found_fields, hfilter]
    exact readString_string _
  unfold Payload.ofFields
  rw [hkind]
  show (Kind.ofName payload.kind.name).bind _ = _
  rw [Kind.ofName_name]
  exact Payload.ofKind_fields serde h _

/-- **An envelope is read back from its object.** -/
theorem Envelope.ofJson_toJson {e : Envelope} (h : e.Fits) :
    readObject serde.otherEnvelope (Envelope.ofFields serde) e.toJson = some e := by
  have hid := readNat_nat h.1
  have hpayload := Payload.ofFields_fields serde h.2
  show Envelope.ofFields serde (Executor.fields _) = _
  simp [-Nat.reducePow, Envelope.ofFields, required, found_fields, hid, hpayload]

/-- What is relied on of the reading and writing of JSON: a text that was written is read back, and
has no line feed. -/
structure Serde.Codes (v : Json) : Prop where
  parse_print : serde.parse (serde.print v) = some v
  oneLine : '\n' ∉ serde.print v

theorem trimStartMatches_self {t : Text} (h : t.head? ≠ some '\n') :
    trimStartMatches ['\n'] t = t := by
  rw [trimStartMatches, dif_neg]
  rintro ⟨-, rest, rfl⟩
  exact h rfl

theorem trimEndMatches_line {l : Text} (h : '\n' ∉ l) : trimEndMatches ['\n'] (endLine l) = l := by
  have hhead : l.reverse.head? ≠ some '\n' := fun heq =>
    h (List.mem_reverse.mp (List.mem_of_head? heq))
  have hstep : trimStartMatches ['\n'] ('\n' :: l.reverse) = l.reverse := by
    rw [trimStartMatches, dif_pos ⟨List.cons_ne_nil _ _, l.reverse, rfl⟩]
    exact trimStartMatches_self hhead
  rw [trimEndMatches, endLine, List.reverse_append]
  show (trimStartMatches ['\n'] ('\n' :: l.reverse)).reverse = l
  rw [hstep, List.reverse_reverse]

theorem trimEndMatches_self {l : Text} (h : '\n' ∉ l) : trimEndMatches ['\n'] l = l := by
  rw [trimEndMatches]
  show (trimStartMatches ['\n'] l.reverse).reverse = l
  rw [trimStartMatches_self fun heq => h (List.mem_reverse.mp (List.mem_of_head? heq)),
    List.reverse_reverse]

theorem Envelope.fromLine_toLine {e : Envelope} (hfits : e.Fits) (hcodes : serde.Codes e.toJson) :
    Envelope.fromLine serde (Envelope.toLine serde e) = some e ∧
      Envelope.fromLine serde (serde.print e.toJson) = some e := by
  have hread := Envelope.ofJson_toJson serde hfits
  constructor
  · show (serde.parse (trimEndMatches ['\n'] (endLine (serde.print e.toJson)))).bind _ = _
    rw [trimEndMatches_line hcodes.oneLine, hcodes.parse_print]
    exact hread
  · rw [Envelope.fromLine, trimEndMatches_self hcodes.oneLine, hcodes.parse_print]
    exact hread

/-- **Envelopes are lines, and are read back from them**, one by one or from all lines in a row. -/
theorem lines_read_back (envelopes : List Envelope) (hfits : ∀ e ∈ envelopes, e.Fits)
    (hcodes : ∀ e ∈ envelopes, serde.Codes e.toJson) :
    (∀ e ∈ envelopes, (Envelope.toLine serde e).count '\n' = 1 ∧
      (Envelope.toLine serde e).getLast? = some '\n' ∧
      Envelope.fromLine serde (Envelope.toLine serde e) = some e) ∧
    openLine (envelopes.flatMap (Envelope.toLine serde)) = [] ∧
    (completeLines (envelopes.flatMap (Envelope.toLine serde))).map (Envelope.fromLine serde) =
      envelopes.map some := by
  refine ⟨fun e he => ⟨?_, ?_, (Envelope.fromLine_toLine serde (hfits e he) (hcodes e he)).1⟩, ?_⟩
  · rw [Envelope.toLine, List.count_append, List.count_eq_zero.mpr (hcodes e he).oneLine]
    rfl
  · exact List.getLast?_concat
  · induction envelopes with
    | nil => exact ⟨rfl, rfl⟩
    | cons e es ih =>
      obtain ⟨he, hes⟩ := List.forall_mem_cons.mp hfits
      obtain ⟨hc, hcs⟩ := List.forall_mem_cons.mp hcodes
      obtain ⟨hopen, hlines⟩ := ih hes hcs
      have hcons : (e :: es).flatMap (Envelope.toLine serde) =
          endLine (serde.print e.toJson) ++ es.flatMap (Envelope.toLine serde) := rfl
      rw [hcons, openLine_line hc.oneLine, completeLines_line hc.oneLine, List.map_cons,
        List.map_cons, hlines, (Envelope.fromLine_toLine serde he hc).2]
      exact ⟨hopen, rfl⟩

def escape (c : Char) : Text :=
  if c = '"' then ['\\', '"']
  else if c = '\\' then ['\\', '\\']
  else if c = '\n' then ['\\', 'n']
  else if c = '\t' then ['\\', 't']
  else [c]

def quote (s : Text) : Text := '"' :: s.flatMap escape ++ ['"']

mutual

/-- A value without blanks; the only control characters in it are line feeds and tabs. -/
def compact : Json → Text
  | .null => "null".toList
  | .bool b => (if b then "true" else "false").toList
  | .number n => n
  | .string s => quote s
  | .array items => '[' :: [','].intercalate (compactItems items) ++ [']']
  | .object fs => '\x7b' :: [','].intercalate (compactFields fs) ++ ['\x7d']

def compactItems : List Json → List Text
  | [] => []
  | v :: vs => compact v :: compactItems vs

def compactFields : List (Text × Json) → List Text
  | [] => []
  | (name, v) :: fs => (quote name ++ ':' :: compact v) :: compactFields fs

end

def chunk : Envelope := ⟨7, .stdout "say \"hello\"\n"⟩

def request : Envelope := ⟨8, .exec ⟨some "sb1", "/bin/ls", ["-la"], [("LANG", "C")]⟩⟩

def readTwo (t : Text) : Option Json :=
  if t = compact chunk.toJson then some chunk.toJson
  else if t = compact request.toJson then some request.toJson
  else none

def twoLines : Serde where
  print := compact
  parse := readTwo
  otherEnvelope _ := none
  otherPayload _ := none
  otherLimits _ := none
  otherInfo _ := none

theorem lines_of_chunk_and_request :
    (completeLines ([chunk, request].flatMap (Envelope.toLine twoLines))).map
      (Envelope.fromLine twoLines) = [some chunk, some request] := by
  have hchunk : twoLines.Codes chunk.toJson := by
    refine ⟨?_, by decide⟩
    show readTwo (compact chunk.toJson) = _
    rw [readTwo, if_pos rfl]
  have hrequest : twoLines.Codes request.toJson := by
    refine ⟨?_, by decide⟩
    have hne : compact request.toJson ≠ compact chunk.toJson := by decide
    show readTwo (compact request.toJson) = _
    rw [readTwo, if_neg hne, if_pos rfl]
  exact (lines_read_back twoLines [chunk, request]
    (List.forall_mem_cons.mpr ⟨⟨by decide, trivial⟩,
      List.forall_mem_singleton.mpr ⟨by decide, trivial⟩⟩)
    (List.forall_mem_cons.mpr ⟨hchunk, List.forall_mem_singleton.mpr hrequest⟩)).2.2

end Mowis.Executor
