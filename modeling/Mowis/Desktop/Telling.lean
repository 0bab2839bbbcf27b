import Mowis.Desktop.Bridge
import Mowis.Planning.Conductor

/-!
# What the Conductor tells

The events that `Conductor::handle_user_message` and what it calls in
`mowis-orchestration/src/conductor.rs` emit, and the captains they spawn, in order.  They follow the
functions of `Planning.Conductor` call by call.
-/

namespace Mowis.Desktop

open Mowis.Review (Json)
open Mowis.Orchestration (PlanId ToolCall ConvMessage TokenUsage)
open Mowis.Planning

/-- An event on the bus, or a captain spawned. -/
inductive Deed where
  | tells (event : OrchEvent)
  | dispatches (planId : PlanId)

/-- What is streamed before reply `i`, and what a draft has used. -/
structure Voice where
  tokens : ℕ → List String
  draftUsage : TokenUsage

def usageEvent (usage : TokenUsage) : OrchEvent :=
  .tokensUsed "conductor" (UInt32.ofNat usage.inputTokens) (UInt32.ofNat usage.outputTokens)

def streamed (voice : Voice) (i : ℕ) : List Deed :=
  (voice.tokens i).map fun text => .tells (.streamToken text)

/-- `execute_save_to_host` speaks where it has saved. -/
def savedText (result : Json) : Option String :=
  match result.get "saved".toList, result.get "files".toList, result.get "destination".toList with
  | some (.bool true), some (.number count), some (.string dest) =>
    some ("Saved " ++ String.ofList count ++ " files to " ++ String.ofList dest)
  | _, _, _ => none

/-- The tool calls of reply `i`. -/
def toolDeeds (script : TurnScript) (i : ℕ) (c : Conductor) : ℕ → List ToolCall → List Deed
  | _, [] => []
  | index, tc :: rest =>
    (if tc.name = "start_build" then c.currentPlan.toList.map .dispatches
      else if tc.name = "save_to_host" then
        (savedText (script.saved i index)).toList.map fun text => .tells (.conductorReply .chat text)
      else []) ++ toolDeeds script i c (index + 1) rest

def drafted (result : Conductor × Except String PlanId) : List Deed :=
  match result.2 with
  | .ok planId => [.tells (.planDrafted planId 1)]
  | .error _ => []

variable (setup : Setup)

def inlineDeeds (c : Conductor) (finalText : String) (calls : List ToolCall) (draft : Draft) :
    List Deed :=
  if Setup.draftsInline c finalText calls then
    drafted (setup.draftPlanFromResponse c finalText (Setup.lastText c) draft)
  else []

/-- The tool loop, as `turnLoop`. -/
def turnDeeds (script : TurnScript) (voice : Voice) :
    ℕ → ℕ → Conductor → List ConvMessage → String → List Deed
  | 0, _, _, _, _ => [.tells .streamDone]
  | n + 1, i, c, later, finalText =>
    streamed voice i ++
      match script.round i with
      | .error _ => []
      | .ok round =>
        let c₁ := (c.request later).hear round.text
        let finalText := Setup.keepText finalText round.text
        .tells (usageEvent round.usage) ::
          if round.toolCalls.isEmpty then [.tells .streamDone]
          else
            let c₂ := setup.draftInline c₁ finalText round.toolCalls (script.draft i)
            let (c₃, results) := Setup.executeTools script i 0 round.toolCalls c₂
            inlineDeeds setup c₁ finalText round.toolCalls (script.draft i) ++
              toolDeeds script i c₂ 0 round.toolCalls ++
              if Setup.dispatchedIn results then [.tells .streamDone]
              else
                turnDeeds script voice n (i + 1) c₃
                  (later ++ [.assistantToolCalls round.toolCalls,
                    .toolResults (results.map fun r => (r.1.id, r.1.name, r.2))]) finalText

def conversationalDeeds (c : Conductor) (script : TurnScript) (voice : Voice) : List Deed :=
  match setup.conductorModel with
  | .error _ => []
  | .ok _ => turnDeeds setup script voice Setup.turnRounds 0 c [] ""

def draftDeeds (c : Conductor) (userMsg : String) (reply : Except String String) (draft : Draft)
    (voice : Voice) : List Deed :=
  match setup.conductorModel, reply with
  | .ok _, .ok _ =>
    .tells (usageEvent voice.draftUsage) :: drafted (setup.draftPlan c userMsg reply draft)
  | _, _ => []

def normalDeeds (c : Conductor) (msg : String) (script : MessageScript) (voice : Voice) :
    List Deed :=
  conversationalDeeds setup c script.turn voice ++
    match setup.conversationalTurn c script.turn with
    | (c, .ok (reply, false)) =>
      if hasPlanTag reply then drafted (setup.draftPlanFromResponse c reply msg script.draft) else []
    | _ => []

def superseded (oldPlan : PlanId) (result : Conductor × Except String PlanId) : List Deed :=
  match result.2 with
  | .ok planId => [.tells (.planSuperseded oldPlan planId)]
  | .error _ => []

/-- One user message, as `handleUserMessage`. -/
def messageDeeds (c : Conductor) (msg : String) (script : MessageScript) (voice : Voice) :
    List Deed :=
  .tells (.userMessageReceived msg) ::
    let c := Setup.receive c msg script.digest
    match c.currentPlan with
    | none => normalDeeds setup c msg script voice
    | some oldPlan =>
      match setup.classifyMessage script.classifier with
      | .error _ => normalDeeds setup c msg script voice
      | .ok output =>
        match output.decision with
        | .informational => conversationalDeeds setup c script.turn voice
        | .hotPatch =>
          match output.task with
          | some _ => []
          | none => normalDeeds setup c msg script voice
        | .scopeChange =>
          draftDeeds setup c msg script.draftReply script.draft voice ++
            superseded oldPlan (setup.draftPlan c msg script.draftReply script.draft)
        | .newPlan => draftDeeds setup c msg script.draftReply script.draft voice

end Mowis.Desktop
