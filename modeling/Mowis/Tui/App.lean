import Mowis.Orchestration.Plan
import Mowis.Tui.Widgets

/-!
# The main screen of the terminal interface

`TuiApp` of `mowis-host/src/tui/app.rs` on its main screen: keys, pastes, the events of the
orchestration and the replies of the Conductor.  A handler that would panic gives no state.
-/

namespace Mowis.Tui

open Mowis.Lib
open Mowis.Orchestration (PlanId TaskId)

inductive AnsiMode where
  | text
  | control
  | command
  deriving DecidableEq, Repr

def stripAnsiFrom : AnsiMode → Text → Text
  | _, [] => []
  | .text, '\x1b' :: '[' :: rest => stripAnsiFrom .control rest
  | .text, '\x1b' :: ']' :: rest => stripAnsiFrom .command rest
  | .text, '\x1b' :: _ :: rest => stripAnsiFrom .text rest
  | .text, ['\x1b'] => []
  | .text, c :: rest => c :: stripAnsiFrom .text rest
  | .control, c :: rest => stripAnsiFrom (if c.isAlpha then .text else .control) rest
  | .command, '\x07' :: rest => stripAnsiFrom .text rest
  | .command, '\x1b' :: '\\' :: rest => stripAnsiFrom .text rest
  | .command, '\x1b' :: rest => stripAnsiFrom .text rest
  | .command, _ :: rest => stripAnsiFrom .command rest

def stripAnsi (text : Text) : Text := stripAnsiFrom .text text

def sanitize (text : Text) : Text :=
  ((stripAnsi text).filter (· ≠ '\r')).map fun c => if c = '\n' then ' ' else c

section Updates

variable (t : Text)

def byteOffset (i : ℕ) : ℕ := ((t.take i).map Char.utf8Size).sum

def splitAtByte : Text → ℕ → Option (Text × Text)
  | t, 0 => some ([], t)
  | [], _ + 1 => none
  | c :: cs, n + 1 =>
    if c.utf8Size ≤ n + 1 then (splitAtByte cs (n + 1 - c.utf8Size)).map fun p => (c :: p.1, p.2)
    else none

def insertStr (bytePos : ℕ) (s : Text) : Option Text :=
  (splitAtByte t bytePos).map fun p => p.1 ++ s ++ p.2

def vecInsert (i : ℕ) (c : Char) : Option Text :=
  if i ≤ t.length then some (t.insertIdx i c) else none

def vecRemove (i : ℕ) : Option Text := if i < t.length then some (t.eraseIdx i) else none

def sliceTo (i : ℕ) : Option Text := if i ≤ t.length then some (t.take i) else none

def sliceFrom (i : ℕ) : Option Text := if i ≤ t.length then some (t.drop i) else none

end Updates

inductive SidebarPanel where
  | plan
  | critic
  | captain
  deriving DecidableEq, Repr

structure App where
  messageLog : MessageLog
  planPreview : PlanPreview
  criticPanel : CriticPanel
  captainPanel : CaptainPanel
  sidebar : Option SidebarPanel
  isBuilding : Bool
  planDrafted : Bool
  input : Text
  slashMenu : Menu
  atMenu : Menu
  tokenMeter : TokenMeter
  cursorPos : ℕ
  shouldQuit : Bool
  /-- There is a Conductor; the messages that were put in its queue. -/
  conductorTx : Bool
  sent : List String
  deriving DecidableEq, Repr

inductive KeyCode where
  | char (c : Char)
  | backspace
  | delete
  | left
  | right
  | home
  | toEnd
  | up
  | down
  | pageUp
  | pageDown
  | tab
  | enter
  | esc
  | other
  deriving DecidableEq, Repr

inductive Verdict where
  | approve
  | revise (issues : List CriticIssue)
  | block (reason : String) (issues : List CriticIssue)
  deriving DecidableEq, Repr

inductive OrchEvent where
  | captain (event : Orchestration.Event)
  | planDrafted (planId : PlanId) (version : ℕ)
  | planRevised (planId : PlanId) (version : ℕ)
  | planSuperseded (oldPlanId newPlanId : PlanId)
  | criticReviewing (planId : PlanId) (version : ℕ)
  | criticVerdict (planId : PlanId) (version : ℕ) (verdict : Verdict)
  | crewStarted (planId : PlanId) (taskId : TaskId) (agentId : String)
  | crewToolSummary (agentId text : String) (success : Bool)
  | crewDone (planId : PlanId) (agentId summary : String)
  | captainShutdown (sandboxId : String)
  | tokensUsed (inputTokens outputTokens : ℕ)
  | streamToken (text : Text)
  | streamDone
  | conversationEnded
  /-- An event that no arm of the handler is for. -/
  | other
  deriving DecidableEq, Repr

inductive ConductorReply where
  | chat (reply : String)
  | buildDispatched (planId : PlanId) (reply : String)
  | planDrafted (planId : PlanId) (version : ℕ)
  | planRevised (planId : PlanId) (version : ℕ)
  | error (message : String)
  | other
  deriving DecidableEq, Repr

namespace App

def new (conductorTx : Bool) : App where
  messageLog := .new
  planPreview := .empty
  criticPanel := .idle
  captainPanel := .new
  sidebar := none
  isBuilding := false
  planDrafted := false
  input := []
  slashMenu := .new slashCommands
  atMenu := .new atTargets
  tokenMeter := .new
  cursorPos := 0
  shouldQuit := false
  conductorTx := conductorTx
  sent := []

variable (app : App)

def completedText : String :=
  "[System: The build completed successfully. All tasks finished. The output is staged in the " ++
    "session sandbox — it has NOT been saved to the user's machine yet. Briefly acknowledge this " ++
    "and offer to: save it, iterate on it, or add features.]"

def clip (summary : String) : String :=
  if 80 < summary.length then String.ofList (summary.toList.take 77) ++ "…" else summary

def verdictStr : Verdict → String
  | .approve => "approve"
  | .revise _ => "revise"
  | .block _ _ => "block"

def verdictIssues : Verdict → List CriticIssue
  | .approve => []
  | .revise issues => issues
  | .block _ issues => issues

/-- `queued` says whether a message to the Conductor still fits in its queue. -/
def handleCaptainEvent (queued : Bool) : Orchestration.Event → App
  | .captainStarted _ sandboxId =>
    { app with
      captainPanel := (app.captainPanel.setStatus "running").add (.captainStarted sandboxId)
      isBuilding := true
      sidebar := some .captain }
  | .mergeCompleted _ agentId =>
    { app with captainPanel := app.captainPanel.add (.mergeCompleted agentId) }
  | .crewFailed _ agentId reason =>
    { app with
      captainPanel := app.captainPanel.add (.crewFailed agentId reason)
      messageLog := app.messageLog.addAgentEvent "✗" ("[" ++ agentId ++ "]  " ++ reason) }
  | .planCompleted _ =>
    { app with
      captainPanel := app.captainPanel.setStatus "completed"
      messageLog := { app.messageLog.addSystem "Build complete." with hadStreaming := false }
      isBuilding := false
      sent := if app.conductorTx && queued then app.sent ++ [completedText] else app.sent }
  | .planFailed _ reason =>
    { app with
      captainPanel := app.captainPanel.setStatus "failed"
      messageLog := app.messageLog.addSystem ("Plan failed: " ++ reason) }
  | .taskInjected _ _ _ => app

def handleOrchEvent (queued : Bool) : OrchEvent → App
  | .captain event => app.handleCaptainEvent queued event
  | .tokensUsed input output => { app with tokenMeter := app.tokenMeter.recordTokens input output }
  | .crewToolSummary agentId text success =>
    { app with
      captainPanel := app.captainPanel.add (.crewToolSummary agentId text success)
      tokenMeter := app.tokenMeter.recordToolCall }
  | .crewStarted _ taskId agentId =>
    { app with
      captainPanel := app.captainPanel.add (.crewStarted agentId taskId)
      messageLog := app.messageLog.addAgentEvent "▶" ("[" ++ agentId ++ "]  " ++ taskId) }
  | .crewDone _ agentId summary =>
    { app with
      captainPanel := app.captainPanel.add (.crewDone agentId summary)
      messageLog := app.messageLog.addAgentEvent "■" ("[" ++ agentId ++ "]  " ++ clip summary) }
  | .planDrafted planId version =>
    { app with
      planPreview := .drafted planId version
      planDrafted := true
      sidebar := some .plan }
  | .planRevised planId version =>
    { app with
      messageLog := app.messageLog.addSystem
        ("Plan " ++ planId ++ " revised to v" ++ toString version)
      sidebar := if app.isBuilding then app.sidebar else some .plan }
  | .criticReviewing planId version => { app with criticPanel := .reviewing planId version }
  | .criticVerdict _ _ verdict =>
    { app with
      criticPanel := .done (verdictStr verdict) (verdictIssues verdict)
      messageLog := app.messageLog.addCriticVerdict (verdictStr verdict)
      sidebar := if app.isBuilding then app.sidebar else some .critic }
  | .streamToken text => { app with messageLog := app.messageLog.pushStreamToken text }
  | .streamDone => { app with messageLog := app.messageLog.finishStreaming }
  | .conversationEnded => { app with messageLog := app.messageLog.addSystem "Conversation ended." }
  | .planSuperseded _ _ | .captainShutdown _ | .other => app

def handleConductorReply (reply : ConductorReply) : App :=
  let wasStreaming := app.messageLog.streaming || app.messageLog.hadStreaming
  let log := app.messageLog.finishStreaming.stopThinking
  match reply with
  | .chat reply =>
    { app with messageLog := if reply ≠ "" ∧ wasStreaming = false then log.addConductor reply else log }
  | .buildDispatched _ reply =>
    { app with messageLog := if reply = "" then log else log.addConductor reply }
  | .planDrafted planId version =>
    { app with
      messageLog := (log.addPlanLink planId version).addAwaitingApproval planId
      planPreview := app.planPreview.setAwaiting }
  | .planRevised planId version =>
    { app with
      messageLog := log.addSystem ("Plan revised: " ++ planId ++ " v" ++ toString version) }
  | .error message => { app with messageLog := log.addSystem ("Error: " ++ message) }
  | .other => { app with messageLog := log }

def replaceInput (text : Text) : App := { app with input := text, cursorPos := text.length }

def clearInput : App := { app with input := [], cursorPos := 0 }

def filterMenus : App :=
  if app.input.head? = some '/' then
    { app with slashMenu := .filter slashCommands app.input }
  else if app.input.head? = some '@' then { app with atMenu := .filter atTargets app.input }
  else app

def typeChar (c : Char) : Option App :=
  (vecInsert app.input app.cursorPos c).map fun input =>
    { app with input := input, cursorPos := app.cursorPos + 1 }.filterMenus

def backspace : Option App :=
  let edited := if 0 < app.cursorPos then
      (vecRemove app.input (app.cursorPos - 1)).map fun input =>
        { app with input := input, cursorPos := app.cursorPos - 1 }
    else some app
  edited.map fun app =>
    if app.input = [] then
      { app with slashMenu := app.slashMenu.hide, atMenu := app.atMenu.hide }
    else app.filterMenus

def cycleSidebar : App :=
  if app.isBuilding then
    { app with sidebar := if app.sidebar = some .captain then none else some .captain }
  else if app.planDrafted then
    { app with sidebar := match app.sidebar with
        | none => some .plan
        | some .plan => some .critic
        | some .critic | some .captain => none }
  else app

/-- A slash command is not sent; `delivered` is the answer of the channel to the Conductor. -/
def sendMessage (msg : String) (delivered : Except String Unit) : App :=
  let log := app.messageLog.addUser msg
  if app.conductorTx then
    let log := { log with thinking := true }
    match delivered with
    | .ok () => { app with messageLog := log, sent := app.sent ++ [msg] }
    | .error e => { app with messageLog := log.addSystem ("Failed to send to conductor: " ++ e) }
  else { app with messageLog := log.addSystem "Orchestrator not started. Run setup first." }

def submit (msg : String) (delivered : Except String Unit) : App :=
  if msg = "" then app
  else if msg = "/help" then
    { app with messageLog := app.messageLog.addSystem "Commands: /help /clear /quit /about" }
  else if msg = "/clear" then { app with messageLog := app.messageLog.clear }
  else if msg = "/quit" then { app with shouldQuit := true }
  else if msg = "/about" then
    { app with messageLog := app.messageLog.addSystem "MowisAI v1.0 — multi-agent conductor" }
  else app.sendMessage msg delivered

def takeSlashCommand : App :=
  if app.slashMenu.visible then
    let chosen := match app.slashMenu.current with
      | some command => app.replaceInput command
      | none => app
    { chosen with slashMenu := app.slashMenu.hide }
  else app

def takeAtTarget : App :=
  let chosen := match app.atMenu.current with
    | some target => app.replaceInput (target ++ [' '])
    | none => app
  { chosen with atMenu := app.atMenu.hide }

def pressEnter (delivered : Except String Unit) : App :=
  let app := app.takeSlashCommand
  if app.atMenu.visible then app.takeAtTarget
  else
    let app := (app.submit (String.ofList (trim app.input)) delivered).clearInput
    { app with slashMenu := app.slashMenu.hide, atMenu := app.atMenu.hide }

def pressTab : App :=
  if app.slashMenu.visible then
    match app.slashMenu.current with
    | some command => { app.replaceInput command with slashMenu := app.slashMenu.hide }
    | none => app
  else if app.atMenu.visible then
    match app.atMenu.current with
    | some target => { app.replaceInput (target ++ [' ']) with atMenu := app.atMenu.hide }
    | none => app
  else app.cycleSidebar

def pressEsc : App :=
  if app.slashMenu.visible then { app with slashMenu := app.slashMenu.hide }
  else if app.atMenu.visible then { app with atMenu := app.atMenu.hide }
  else app.clearInput

def scroll (n : ℕ) (move : MessageLog → MessageLog) : App :=
  { app with messageLog := move^[n] app.messageLog }

/-- The arrow keys: a menu that is visible comes first, then the log when the input is empty. -/
def pressVertical (select : Menu → Menu) (move : MessageLog → MessageLog) : App :=
  if app.slashMenu.visible then { app with slashMenu := select app.slashMenu }
  else if app.atMenu.visible then { app with atMenu := select app.atMenu }
  else if app.input = [] then app.scroll 1 move
  else app

def noMenu : Bool := !app.slashMenu.visible && !app.atMenu.visible

def pressChar (c : Char) (control : Bool) : Option App :=
  if c = 'c' ∧ control then some { app with shouldQuit := true }
  else if c = 'a' ∧ control then some { app with cursorPos := 0 }
  else if c = 'e' ∧ control then some { app with cursorPos := app.input.length }
  else if c = 'k' ∧ control then
    (sliceTo app.input app.cursorPos).map fun input => { app with input := input }
  else if c = 'u' ∧ control then
    (sliceFrom app.input app.cursorPos).map fun input => { app with input := input, cursorPos := 0 }
  else if c = '/' ∧ app.input = [] then
    some { app with
      input := app.input ++ ['/']
      cursorPos := 1
      slashMenu := .shown slashCommands }
  else if c = '@' ∧ app.input = [] then
    some { app with
      input := app.input ++ ['@']
      cursorPos := 1
      atMenu := .shown atTargets }
  else app.typeChar c

/-- `handle_key` on the main screen. -/
def handleKey (code : KeyCode) (control : Bool) (delivered : Except String Unit) : Option App :=
  match code with
  | .char c => app.pressChar c control
  | .left =>
    some (if app.noMenu ∧ 0 < app.cursorPos then { app with cursorPos := app.cursorPos - 1 } else app)
  | .right =>
    some (if app.noMenu ∧ app.cursorPos < app.input.length then
      { app with cursorPos := app.cursorPos + 1 } else app)
  | .home => some { app with cursorPos := 0 }
  | .toEnd => some { app with cursorPos := app.input.length }
  | .up => some (app.pressVertical Menu.moveUp MessageLog.scrollUp)
  | .down => some (app.pressVertical Menu.moveDown MessageLog.scrollDown)
  | .tab => some app.pressTab
  | .pageUp => some (app.scroll 10 MessageLog.scrollUp)
  | .pageDown => some (app.scroll 10 MessageLog.scrollDown)
  | .backspace => app.backspace
  | .enter => some (app.pressEnter delivered)
  | .esc => some app.pressEsc
  | .delete | .other => some app

def paste (text : Text) : Option App :=
  let sanitized := sanitize text
  (insertStr app.input (byteOffset app.input app.cursorPos) sanitized).map fun input =>
    let app := { app with input := input, cursorPos := app.cursorPos + sanitized.length }
    if app.input.head? = some '/' then
      { app with slashMenu := .filter slashCommands app.input }
    else app

end App

inductive AppEvent where
  | key (code : KeyCode) (control : Bool) (delivered : Except String Unit)
  | paste (text : Text)
  | wheel (up : Bool)
  | orch (event : OrchEvent) (queued : Bool)
  | reply (reply : ConductorReply)
  /-- The screen was drawn, and the log has this last scroll position. -/
  | drawn (maxScroll : ℕ)

def App.step (app : App) : AppEvent → Option App
  | .key code control delivered => app.handleKey code control delivered
  | .paste text => app.paste text
  | .wheel up => some (app.scroll 1 (if up then MessageLog.scrollUp else MessageLog.scrollDown))
  | .orch event queued => some (app.handleOrchEvent queued event)
  | .reply reply => some (app.handleConductorReply reply)
  | .drawn maxScroll =>
    some { app with messageLog := { app.messageLog with maxScroll := maxScroll } }

end Mowis.Tui
