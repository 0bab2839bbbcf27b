import Mowis.Executor.Wire
import Mowis.Lib.Locking

/-!
# The hub agent of a team

`LocalHubAgent` of `agentd/src/hub_agent.rs`, whose methods are called by any number of threads,
and the thread that answers the peers.  A method is a program that takes the mutexes of the
agent, reads and changes what they protect, and releases them where its guards are dropped.
-/

namespace Mowis.Hub

open Mowis.Lib
open Mowis.Review (Json)
open Mowis.Executor (fields string nat)

inductive HubAgentError where
  | taskBreakdownFailed (e : String)
  | workerAssignmentFailed (e : String)
  | workerNotFound (e : String)
  | integrationTestFailed (e : String)
  | peerCommunicationFailed (e : String)

structure TeamTask where
  taskId : String
  description : String
  timeoutSecs : ℕ
  context : Json

structure WorkerAssignment where
  assignmentId : String
  workerName : String
  taskDescription : String
  systemPrompt : String
  toolsAvailable : List String
  timeoutSecs : ℕ
  context : Json

structure WorkerCompletion where
  assignmentId : String
  workerName : String
  success : Bool
  output : Json
  errors : List String
  timestamp : ℕ

structure TaskCompletion where
  taskId : String
  teamId : String
  success : Bool
  output : Json
  errors : List String
  timestamp : ℕ

structure ApiContract where
  contractId : String
  providingTeamId : String
  consumingTeamIds : List String
  endpointSpec : Json
  schema : Json
  createdAt : ℕ

def ApiContract.toJson (c : ApiContract) : Json :=
  .object (fields [("contract_id", string c.contractId),
    ("providing_team_id", string c.providingTeamId),
    ("consuming_team_ids", .array (c.consumingTeamIds.map string)),
    ("endpoint_spec", c.endpointSpec), ("schema", c.schema), ("created_at", nat c.createdAt)])

structure InterTeamRpc where
  callId : String
  method : String
  params : Json

structure InterTeamRpcResponse where
  callId : String
  success : Bool
  result : Json
  error : Option String

inductive WorkerStatus where
  | idle
  | assigned
  | running
  | completed
  | failed
  deriving DecidableEq

structure WorkerEntry where
  name : String
  containerId : String
  assignment : Option WorkerAssignment
  completion : Option WorkerCompletion
  status : WorkerStatus

structure HubData where
  workers : HashMap String WorkerEntry
  teamTask : Option TeamTask
  apiContracts : HashMap String ApiContract

/-- The mutexes of an agent; no method takes that of `completion`. -/
inductive Mutex where
  | workers
  | teamTask
  | completion
  | apiContracts
  deriving DecidableEq

/-- What a method returns. -/
inductive Answer where
  | unit
  | error (e : HubAgentError)
  | assignments (l : List WorkerAssignment)
  | outputs (l : List Json)
  | passed
  | report (c : TaskCompletion)
  | response (r : InterTeamRpcResponse)
  | status (s : Option WorkerStatus)
  | names (l : List String)

abbrev Method := Program Mutex HubData Answer

/-- `description.split(". ")` -/
def sentences (description : Text) : List Text :=
  match _h : splitFirst ". ".toList description with
  | none => [description]
  | some (sentence, rest) => sentence :: sentences rest
termination_by description.length
decreasing_by exact splitFirst_length (by decide) _h

def splitTaskDescription (description : String) (n : ℕ) : List String :=
  if n ≤ 1 then [description]
  else
    let parts := sentences description.toList
    let itemsPerTask := max (parts.length / n) 1
    let subtasks := (List.range n).filterMap fun i =>
      let first := i * itemsPerTask
      let last := if i = n - 1 then parts.length else (i + 1) * itemsPerTask
      if first < parts.length then
        some (String.ofList (List.intercalate ". ".toList ((parts.take last).drop first)))
      else none
    if subtasks = [] then [description] else subtasks

def workerNames : List String :=
  ["Jake", "Mike", "Sarah", "Alex", "Chris", "Jordan", "Morgan", "Casey", "Devon", "Riley"]

def generateWorkerName (index : ℕ) : String :=
  (workerNames[index % workerNames.length]?).getD "Worker" ++ "-" ++ toString index

def generateSystemPrompt (workerName : String) : String :=
  "You are " ++ workerName ++ ", a software development specialist. " ++
    "Your task is to complete assigned work with high quality. " ++
    "Use available tools to read files, execute code, and test your work. " ++
    "Report all results clearly."

def toolsAvailable : List String := ["shell", "filesystem", "git", "http"]

section methods

-- the team of the agent, and the order in which the map of its workers is walked
variable (teamId : String) (order : IterOrder WorkerEntry)

def workerValues (d : HubData) : List WorkerEntry := order.arrange (d.workers.entries.map (·.2))

def outputsOf (d : HubData) : List Json :=
  (workerValues order d).filterMap fun w => w.completion.map WorkerCompletion.output

def guarded (m : Mutex) (f : HubData → HubData) (answer : HubData → Answer) : Method :=
  .lock m (.act f fun d => .unlock m (.done (answer d)))

def initWorkerPool (containerIds : List String) : Method :=
  guarded .workers (fun d => { d with
    workers := containerIds.zipIdx.foldl (fun workers p =>
      workers.insert (generateWorkerName p.2) ⟨generateWorkerName p.2, p.1, none, none, .idle⟩)
      d.workers }) fun _ => .unit

def receiveTeamTask (task : TeamTask) : Method :=
  guarded .teamTask (fun d => { d with teamTask := some task }) fun _ => .unit

def assignToWorker (assignment : WorkerAssignment) : Method :=
  guarded .workers
    (fun d =>
      match d.workers.lookup assignment.workerName with
      | none => d
      | some worker =>
        if worker.status = .idle then
          let worker := { worker with assignment := some assignment, status := .assigned }
          { d with workers := d.workers.insert assignment.workerName worker }
        else d)
    fun d =>
      match d.workers.lookup assignment.workerName with
      | none => .error (.workerNotFound assignment.workerName)
      | some worker =>
        if worker.status = .idle then .unit
        else .error (.workerAssignmentFailed ("Worker " ++ assignment.workerName ++ " not idle"))

def recordWorkerCompletion (completion : WorkerCompletion) : Method :=
  guarded .workers
    (fun d =>
      match d.workers.lookup completion.workerName with
      | none => d
      | some worker =>
        let status : WorkerStatus := if completion.success then .completed else .failed
        let worker := { worker with completion := some completion, status := status }
        { d with workers := d.workers.insert completion.workerName worker })
    fun d =>
      match d.workers.lookup completion.workerName with
      | none => .error (.workerNotFound completion.workerName)
      | some _ => .unit

def collectOutputs : Method := guarded .workers id fun d => .outputs (outputsOf order d)

def runIntegrationTests : Method :=
  guarded .workers id fun d =>
    if (outputsOf order d).all fun o => !(o matches .null) then .passed
    else .error (.integrationTestFailed "Some worker outputs are empty")

def getWorkerStatus (workerName : String) : Method :=
  guarded .workers id fun d => .status ((d.workers.lookup workerName).map WorkerEntry.status)

def listWorkers (names : IterOrder String) : Method :=
  guarded .workers id fun d => .names (names.arrange d.workers.keys)

def registerApiContract (contract : ApiContract) : Method :=
  guarded .apiContracts
    (fun d => { d with apiContracts := d.apiContracts.insert contract.contractId contract })
    fun _ => .unit

def contractId (rpc : InterTeamRpc) : Option String :=
  (rpc.params.getStr "contract_id".toList).map String.ofList

def handlePeerRpc (rpc : InterTeamRpc) : Method :=
  if rpc.method = "get_api_contract" then
    guarded .apiContracts id fun d =>
      match contractId rpc with
      | none => .error (.peerCommunicationFailed "Missing contract_id")
      | some id =>
        match d.apiContracts.lookup id with
        | some contract => .response ⟨rpc.callId, true, contract.toJson, none⟩
        | none => .response ⟨rpc.callId, false, .null, some "Contract not found"⟩
  else .done (.error (.peerCommunicationFailed ("Unknown RPC method: " ++ rpc.method)))

/-- What the thread of `start_socket_server` answers to a request it could parse. -/
def serveRpc (rpc : InterTeamRpc) : Method :=
  if rpc.method = "get_api_contract" then
    guarded .apiContracts id fun d =>
      match (contractId rpc).bind fun id => d.apiContracts.lookup id with
      | some contract => .response ⟨rpc.callId, true, contract.toJson, none⟩
      | none => .response ⟨rpc.callId, false, .null, some "Contract not found"⟩
  else if rpc.method = "get_team_status" then
    guarded .workers id fun d =>
      let idle := (workerValues order d).countP fun w => w.status = .idle
      .response ⟨rpc.callId, true, .object (fields [("team_id", string teamId),
        ("total_workers", nat d.workers.entries.length), ("idle_workers", nat idle)]), none⟩
  else .done (.response ⟨rpc.callId, false, .null, some ("Unknown method: " ++ rpc.method)⟩)

def assignmentsOf (d : HubData) (task : TeamTask) : List WorkerAssignment :=
  let workers := workerValues order d
  let descriptions := splitTaskDescription task.description workers.length
  workers.zipIdx.map fun p =>
    { assignmentId := task.taskId ++ "-" ++ toString p.2
      workerName := p.1.name
      taskDescription := (descriptions[p.2]?).getD task.description
      systemPrompt := generateSystemPrompt p.1.name
      toolsAvailable := toolsAvailable
      timeoutSecs := task.timeoutSecs
      context := task.context }

/-- The workers are looked at while the task is held; the guards go in the opposite order. -/
def breakDownTask : Method :=
  .lock .teamTask <| .act id fun d =>
    match d.teamTask with
    | none => .unlock .teamTask (.done (.error (.taskBreakdownFailed "No task assigned")))
    | some task =>
      .lock .workers <| .act id fun d =>
        .unlock .workers <| .unlock .teamTask <| .done <|
          if d.workers.entries.length = 0 then
            .error (.taskBreakdownFailed "No workers available")
          else .assignments (assignmentsOf order d task)

def combinedOutput (d : HubData) (outputs : List Json) (timestamp : ℕ) : Json :=
  .object (fields [("workers", .array outputs), ("metadata", .object (fields
    [("team_id", string teamId), ("worker_count", nat d.workers.entries.length),
      ("timestamp", nat timestamp)]))])

def failedErrors (d : HubData) : List String :=
  (workerValues order d).flatMap fun w =>
    if w.status = .failed then ((w.completion.map WorkerCompletion.errors).getD []) else []

/-- The part of `create_completion_report` behind the guard of the task: the workers are held
when `collect_outputs` is called, which takes them again. -/
def readReportTask (timestamps : ℕ × ℕ) : Method :=
  .act id fun d =>
    match d.teamTask with
    | none => .unlock .teamTask (.done (.error (.taskBreakdownFailed "No task to report")))
    | some task =>
      .lock .workers <| .act id fun d =>
        .lock .workers <| .act id fun d' =>
          .unlock .workers <| .unlock .workers <| .unlock .teamTask <| .done <| .report
            { taskId := task.taskId
              teamId := teamId
              success := (workerValues order d).all fun w => w.status = .completed
              output := combinedOutput teamId d (outputsOf order d') timestamps.1
              errors := failedErrors order d
              timestamp := timestamps.2 }

def createCompletionReport (timestamps : ℕ × ℕ) : Method :=
  .lock .teamTask (readReportTask teamId order timestamps)

inductive HubCall where
  | initWorkerPool (containerIds : List String)
  | receiveTeamTask (task : TeamTask)
  | breakDownTask
  | assignToWorker (assignment : WorkerAssignment)
  | recordWorkerCompletion (completion : WorkerCompletion)
  | collectOutputs
  | runIntegrationTests
  | createCompletionReport (timestamps : ℕ × ℕ)
  | handlePeerRpc (rpc : InterTeamRpc)
  | serveRpc (rpc : InterTeamRpc)
  | registerApiContract (contract : ApiContract)
  | getWorkerStatus (workerName : String)
  | listWorkers (names : IterOrder String)

def HubCall.body : HubCall → Method
  | .initWorkerPool containerIds => Hub.initWorkerPool containerIds
  | .receiveTeamTask task => Hub.receiveTeamTask task
  | .breakDownTask => Hub.breakDownTask order
  | .assignToWorker assignment => Hub.assignToWorker assignment
  | .recordWorkerCompletion completion => Hub.recordWorkerCompletion completion
  | .collectOutputs => Hub.collectOutputs order
  | .runIntegrationTests => Hub.runIntegrationTests order
  | .createCompletionReport timestamps => Hub.createCompletionReport teamId order timestamps
  | .handlePeerRpc rpc => Hub.handlePeerRpc rpc
  | .serveRpc rpc => Hub.serveRpc teamId order rpc
  | .registerApiContract contract => Hub.registerApiContract contract
  | .getWorkerStatus workerName => Hub.getWorkerStatus workerName
  | .listWorkers names => Hub.listWorkers names

end methods

def HubData.new : HubData := ⟨∅, none, ∅⟩

end Mowis.Hub
