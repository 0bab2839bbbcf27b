import Mowis.Review.Reviewer

/-!
# Security policies

The checks of `SecurityPolicy` in `security.rs`, and `prepare_tool_invocation` of `sandbox.rs`.
What no check reads is left out of a policy.
-/

namespace Mowis.Sandboxes

open Mowis.Lib
open Mowis.Review (Json showNat)

inductive FileAccessType where
  | read
  | write
  | execute
  deriving DecidableEq, Repr

structure FileAccessRule where
  path : Text
  allowRead : Bool
  allowWrite : Bool
  allowExecute : Bool
  deriving DecidableEq, Repr

structure NetworkRule where
  allowOutbound : Bool
  allowInbound : Bool
  deriving DecidableEq, Repr

structure SecurityPolicy where
  fileAccessRules : List FileAccessRule
  networkRules : List NetworkRule
  allowShellExecution : Bool
  deriving DecidableEq, Repr

namespace SecurityPolicy

def defaultRestrictive : SecurityPolicy where
  fileAccessRules :=
    [⟨"/tmp".toList, true, true, false⟩, ⟨"/etc".toList, true, false, false⟩,
      ⟨"/home".toList, false, false, false⟩]
  networkRules := [⟨false, false⟩]
  allowShellExecution := false

def defaultPermissive : SecurityPolicy where
  fileAccessRules := [⟨"/".toList, true, true, true⟩]
  networkRules := [⟨true, true⟩]
  allowShellExecution := true

variable (policy : SecurityPolicy)

def FileAccessRule.allows (rule : FileAccessRule) : FileAccessType → Bool
  | .read => rule.allowRead
  | .write => rule.allowWrite
  | .execute => rule.allowExecute

def checkFileAccess (path : Text) (accessType : FileAccessType) : Bool :=
  match policy.fileAccessRules.find? fun rule => decide (rule.path <+: path) with
  | some rule => FileAccessRule.allows rule accessType
  | none => false

def checkNetworkAccess (outbound : Bool) : Bool :=
  policy.networkRules.any fun rule =>
    (outbound && rule.allowOutbound) || (!outbound && rule.allowInbound)

def checkShellExecution : Bool := policy.allowShellExecution

end SecurityPolicy

inductive Access where
  | file (path : Text) (accessType : FileAccessType)
  | outbound
  | shell
  deriving DecidableEq, Repr

def readTools : List String := ["read_file", "get_file_info"]

def writeTools : List String := ["write_file", "delete_file", "create_directory", "copy_file"]

def networkTools : List String :=
  ["http_get", "http_post", "http_put", "http_delete", "http_patch", "download_file",
    "websocket_send"]

def shellTools : List String := ["run_command", "run_script"]

/-- The access that is checked before a tool runs; for most tools there is none. -/
def accessOf (name : String) (input : Json) : Option Access :=
  if name ∈ readTools then some (.file ((input.getStr "path".toList).getD []) .read)
  else if name ∈ writeTools then
    some (.file (((input.getStr "path".toList).or (input.getStr "dst".toList)).getD []) .write)
  else if name ∈ networkTools then some .outbound
  else if name ∈ shellTools then some .shell
  else none

def SecurityPolicy.permits (policy : SecurityPolicy) : Access → Bool
  | .file path accessType => policy.checkFileAccess path accessType
  | .outbound => policy.checkNetworkAccess true
  | .shell => policy.checkShellExecution

def denied : Access → Text
  | .file path .read => "security policy denied read access to ".toList ++ path
  | .file path _ => "security policy denied write access to ".toList ++ path
  | .outbound => "security policy denied outbound network access".toList
  | .shell => "security policy denied shell command execution".toList

structure ResourceLimits where
  ramBytes : Option ℕ
  cpuMillis : Option ℕ
  deriving DecidableEq, Repr

/-- The registered tools are given by their names. -/
structure Sandbox where
  limits : ResourceLimits
  tools : List String
  policy : Option SecurityPolicy

structure ToolInvocationPrep where
  tool : String
  containerRoot : Text
  policy : Option SecurityPolicy

def toolNotRegistered (name : String) : Text := "tool not registered: ".toList ++ name.toList

def containerNotFound (containerId : ℕ) : Text :=
  "container ".toList ++ showNat containerId ++ " not found".toList

namespace Sandbox

variable (sb : Sandbox)

def checkPolicy (name : String) (input : Json) : Except Text Unit :=
  match sb.policy with
  | none => .ok ()
  | some policy =>
    match accessOf name input with
    | none => .ok ()
    | some access => if policy.permits access then .ok () else .error (denied access)

/-- `containerRoot` is `get_container_root` of the containers of the sandbox. -/
def prepareToolInvocation (containerRoot : ℕ → Option Text) (containerId : ℕ) (name : String)
    (input : Json) : Except Text ToolInvocationPrep := do
  sb.checkPolicy name input
  let tool ← if name ∈ sb.tools then .ok name else .error (toolNotRegistered name)
  match containerRoot containerId with
  | none => .error (containerNotFound containerId)
  | some containerRoot => return { tool, containerRoot, policy := sb.policy }

def Permits (access : Access) : Prop := ∀ policy, sb.policy = some policy → policy.permits access

def Asks (access : Access) : Prop := ∃ name ∈ sb.tools, ∃ input, accessOf name input = some access

def Grants (name : String) (input : Json) : Prop :=
  ∃ containerRoot containerId prep,
    sb.prepareToolInvocation containerRoot containerId name input = .ok prep

variable {sb} {name : String} {input : Json}

theorem checkPolicy_eq_ok_iff :
    sb.checkPolicy name input = .ok () ↔
      ∀ access, accessOf name input = some access → sb.Permits access := by
  unfold checkPolicy Permits
  cases sb.policy with
  | none => simp
  | some policy =>
    cases accessOf name input with
    | none => simp
    | some access => by_cases h : policy.permits access = true <;> simp [h]

theorem prepare_eq_ok_iff {containerRoot : ℕ → Option Text} {containerId : ℕ} :
    (∃ prep, sb.prepareToolInvocation containerRoot containerId name input = .ok prep) ↔
      sb.checkPolicy name input = .ok () ∧ name ∈ sb.tools ∧
        ∃ root, containerRoot containerId = some root := by
  unfold prepareToolInvocation
  cases hcheck : sb.checkPolicy name input with
  | error e => simp [bind, Except.bind]
  | ok u =>
    by_cases hname : name ∈ sb.tools
    · cases hroot : containerRoot containerId <;>
        simp [bind, Except.bind, hname, pure, Except.pure]
    · simp [bind, Except.bind, hname]

theorem grants_iff : sb.Grants name input ↔
    name ∈ sb.tools ∧ ∀ access, accessOf name input = some access → sb.Permits access := by
  unfold Grants
  rw [← checkPolicy_eq_ok_iff]
  constructor
  · rintro ⟨containerRoot, containerId, hprep⟩
    obtain ⟨hcheck, hname, -⟩ := prepare_eq_ok_iff.mp hprep
    exact ⟨hname, hcheck⟩
  · rintro ⟨hname, hcheck⟩
    exact ⟨fun _ => some [], 0, prepare_eq_ok_iff.mpr ⟨hcheck, hname, [], rfl⟩⟩

theorem grants_le_iff {other : Sandbox} (htools : sb.tools = other.tools) :
    (∀ name input, sb.Grants name input → other.Grants name input) ↔
      ∀ access, sb.Asks access → sb.Permits access → other.Permits access := by
  constructor
  · rintro h access ⟨name, hname, input, haccess⟩ hpermits
    have hgrants : sb.Grants name input := by
      refine grants_iff.mpr ⟨hname, fun access' haccess' => ?_⟩
      rwa [← Option.some.inj (haccess.symm.trans haccess')]
    exact (grants_iff.mp (h name input hgrants)).2 access haccess
  · intro h name input hgrants
    obtain ⟨hname, hpermits⟩ := grants_iff.mp hgrants
    exact grants_iff.mpr ⟨htools ▸ hname, fun access haccess =>
      h access ⟨name, hname, input, haccess⟩ (hpermits access haccess)⟩

end Sandbox

end Mowis.Sandboxes
