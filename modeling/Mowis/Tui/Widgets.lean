import Mowis.Lib.Text

/-!
# The widgets of the terminal interface

The state of the widgets in `mowis-host/src/tui/widgets.rs` and what changes it; colours and the
rendering are left out.  `max_scroll` comes from the last rendering.
-/

namespace Mowis.Tui

open Mowis.Lib

structure LogLine where
  mark : String
  text : String
  italic : Bool
  dim : Bool
  deriving DecidableEq, Repr

structure MessageLog where
  lines : List LogLine
  scrollOffset : ℕ
  thinking : Bool
  streaming : Bool
  hadStreaming : Bool
  streamingText : Text
  autoScroll : Bool
  maxScroll : ℕ
  deriving DecidableEq, Repr

/-- The text around the plan block; the rest of it is hidden when the block is still open. -/
def stripPlanBlock (text : Text) : Text :=
  match splitFirst "<plan>".toList text with
  | none => text
  | some (before, after) =>
    match splitFirst "</plan>".toList after with
    | some (_, rest) => trimEnd before ++ rest
    | none => trimEnd before

namespace MessageLog

variable (log : MessageLog)

def new : MessageLog := ⟨[], 0, false, false, false, [], true, 0⟩

def push (mark text : String) (dim : Bool) : MessageLog :=
  { log with lines := log.lines ++ [⟨mark, text, false, dim⟩] }

def space : MessageLog := if log.lines = [] then log else log.push "" "" false

def scrollUp : MessageLog :=
  let log := if log.autoScroll then { log with scrollOffset := log.maxScroll, autoScroll := false }
    else log
  { log with scrollOffset := log.scrollOffset - 1 }

def scrollDown : MessageLog :=
  if log.autoScroll then log
  else
    let offset := min (log.scrollOffset + 1) log.maxScroll
    { log with
      scrollOffset := offset
      autoScroll := decide (log.maxScroll ≤ offset) }

def pushStreamToken (token : Text) : MessageLog :=
  let log := if log.streaming then log
    else { log with
      streaming := true
      hadStreaming := true
      thinking := false
      streamingText := [] }.space
  { log with streamingText := log.streamingText ++ token }

def finishStreaming : MessageLog :=
  if log.streaming then
    let visible := trim (stripPlanBlock log.streamingText)
    let log := { log with streaming := false, streamingText := [] }
    if visible = [] then log else log.push "◈ " (String.ofList visible) false
  else log

def addUser (text : String) : MessageLog :=
  (({ log with thinking := false, hadStreaming := false }.finishStreaming).space).push "▸ " text false

def addConductor (text : String) : MessageLog :=
  let log := { log with thinking := false }
  let visible := trim (stripPlanBlock text.toList)
  if visible = [] then log else log.space.push "◈ " (String.ofList visible) false

def addSystem (text : String) : MessageLog := log.push "" text true

def stopThinking : MessageLog := { log with thinking := false }

def addPlanLink (planId : String) (version : ℕ) : MessageLog :=
  log.push "◆ " ("Plan drafted: " ++ planId ++ " v" ++ toString version ++
    " — type 'tab' to view details") false

def addCriticVerdict (verdict : String) : MessageLog :=
  log.push "◇ " ("Critic Verdict: " ++ verdict.toUpper) false

def addAgentEvent (mark text : String) : MessageLog :=
  { log.push (mark ++ " ") text false with autoScroll := true }

def addAwaitingApproval (planId : String) : MessageLog :=
  log.push "◆ " ("Awaiting approval for " ++ planId ++ " — type 'approve' or 'cancel'") false

def clear : MessageLog := { log with lines := [] }

end MessageLog

/-- The entries of a menu, without their descriptions. -/
structure Menu where
  visible : Bool
  selected : ℕ
  filtered : List Text
  deriving DecidableEq, Repr

def slashCommands : List Text :=
  ["/help".toList, "/clear".toList, "/quit".toList, "/about".toList]

def atTargets : List Text :=
  ["@conductor".toList, "@captain".toList, "@critic".toList, "@crew".toList]

namespace Menu

variable (m : Menu) (all : List Text)

def new : Menu := ⟨false, 0, all⟩

def shown : Menu := ⟨true, 0, all⟩

def hide : Menu := { m with visible := false }

def filter (text : Text) : Menu :=
  let filtered := all.filter fun entry => text <+: entry
  ⟨!filtered.isEmpty, 0, filtered⟩

def moveUp : Menu := if 0 < m.selected then { m with selected := m.selected - 1 } else m

def moveDown : Menu :=
  if m.selected + 1 < m.filtered.length then { m with selected := m.selected + 1 } else m

def current : Option Text := m.filtered[m.selected]?

end Menu

inductive CaptainEvent where
  | captainStarted (sandboxId : String)
  | crewStarted (agentId taskTitle : String)
  | crewToolSummary (agentId text : String) (success : Bool)
  | crewDone (agentId summary : String)
  | crewFailed (agentId reason : String)
  | mergeCompleted (agentId : String)
  deriving DecidableEq, Repr

structure CaptainPanel where
  events : List CaptainEvent
  status : String
  deriving DecidableEq, Repr

namespace CaptainPanel

variable (panel : CaptainPanel)

def new : CaptainPanel := ⟨[], "idle"⟩

def setStatus (status : String) : CaptainPanel := { panel with status := status }

def add (event : CaptainEvent) : CaptainPanel := { panel with events := panel.events ++ [event] }

end CaptainPanel

/-- A plan is shown with the same overview, image and memory always, and with no tasks. -/
inductive PlanPreview where
  | empty
  | drafted (planId : String) (version : ℕ)
  | awaitingApproval (planId : String) (version : ℕ)
  deriving DecidableEq, Repr

def PlanPreview.setAwaiting : PlanPreview → PlanPreview
  | .drafted planId version => .awaitingApproval planId version
  | preview => preview

structure CriticIssue where
  severity : String
  section_ : String
  message : String
  suggestedFix : Option String
  deriving DecidableEq, Repr

inductive CriticPanel where
  | idle
  | reviewing (planId : String) (version : ℕ)
  | done (verdict : String) (issues : List CriticIssue)
  deriving DecidableEq, Repr

structure TokenMeter where
  totalInput : ℕ
  totalOutput : ℕ
  apiCalls : ℕ
  toolCalls : ℕ
  deriving DecidableEq, Repr

namespace TokenMeter

variable (meter : TokenMeter)

def new : TokenMeter := ⟨0, 0, 0, 0⟩

def recordTokens (input output : ℕ) : TokenMeter :=
  { meter with
    totalInput := meter.totalInput + input
    totalOutput := meter.totalOutput + output
    apiCalls := meter.apiCalls + 1 }

def recordToolCall : TokenMeter := { meter with toolCalls := meter.toolCalls + 1 }

end TokenMeter

end Mowis.Tui
