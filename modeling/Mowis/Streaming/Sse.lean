import Mowis.Executor.Wire
import Mowis.Orchestration.Crew

/-!
# Streamed replies

The three loops of `mowis-orchestration/src/providers.rs` that read a reply of the model as it
arrives: `call_agent_round_openai_compat_streaming`, `generate_chat_openai_streaming` and
`generate_chat_anthropic_streaming`.

They share how chunks become lines and lines become events (`Reader.read`), and differ in what
they take from an event and what they return.  The parser for JSON is a parameter.
-/

namespace Mowis.Streaming

open Mowis.Lib
open Mowis.Review (Json)
open Mowis.Orchestration (ToolCall TokenUsage AgentRoundResult)
open Mowis.Executor (int readDigits readDigits_toDigits)

/-- `serde_json::from_str` -/
abbrev Parser := Text → Option Json

/-- `event[key]` -/
def index (v : Json) (key : String) : Json := (v.get key.toList).getD .null

/-- `c.get(0)` -/
def first : Json → Option Json
  | .array (item :: _) => some item
  | _ => none

def asArray : Json → Option (List Json)
  | .array items => some items
  | _ => none

def natOf (digits : Text) : Option ℕ :=
  if digits ≠ [] ∧ digits.all Char.isDigit then
    some (digits.foldl (fun n c => n * 10 + (c.toNat - '0'.toNat)) 0)
  else none

def asU64 : Json → Option ℕ
  | .number n => (natOf n).filter (· < 2 ^ 64)
  | _ => none

def asI64 : Json → Option ℤ
  | .number ('-' :: n) => ((natOf n).filter fun v => 0 < v ∧ v ≤ 2 ^ 63).map fun v => -(v : ℤ)
  | .number n => ((natOf n).filter (· < 2 ^ 63)).map fun v => (v : ℤ)
  | _ => none

theorem natOf_eq_readDigits (digits : Text) : natOf digits = readDigits digits := by
  have hstep : (fun (n : ℕ) (c : Char) => n * 10 + (c.toNat - '0'.toNat)) =
      fun n c => 10 * n + (c.toNat - '0'.toNat) := by
    funext n c
    rw [Nat.mul_comm]
  rw [natOf, readDigits, Nat.ofDigitChars_eq_foldl, hstep]

theorem asI64_int {n : ℤ} (h : -(2 ^ 63) ≤ n ∧ n < 2 ^ 63) : asI64 (int n) = some n := by
  cases n with
  | ofNat n =>
    have hne : ∀ rest, Nat.toDigits 10 n ≠ '-' :: rest := by
      intro rest heq
      have hminus : ('-' : Char).isDigit :=
        Nat.isDigit_of_mem_toDigits (by decide) (by decide) (heq ▸ List.mem_cons_self)
      exact absurd hminus (by decide)
    have hlt : n < 2 ^ 63 := by
      have hn : (n : ℤ) < 2 ^ 63 := h.2
      omega
    have hread : asI64 (.number (Nat.toDigits 10 n)) =
        ((natOf (Nat.toDigits 10 n)).filter (· < 2 ^ 63)).map fun v => (v : ℤ) := by
      unfold asI64
      split
      · next heq => exact absurd (Json.number.inj heq) (hne _)
      · next heq => rw [Json.number.inj heq]
      · next hno => exact absurd rfl (hno _)
    show asI64 (.number (Nat.toDigits 10 n)) = _
    rw [hread, natOf_eq_readDigits, readDigits_toDigits, Option.filter_some,
      if_pos (decide_eq_true hlt)]
    rfl
  | negSucc n =>
    have hle : 0 < n + 1 ∧ n + 1 ≤ 2 ^ 63 := by
      have hn : -(2 ^ 63) ≤ -((n : ℤ) + 1) := by
        rw [← Int.negSucc_eq]
        exact h.1
      omega
    show ((natOf (Nat.toDigits 10 (n + 1))).filter fun v => 0 < v ∧ v ≤ 2 ^ 63).map
      (fun v => -(v : ℤ)) = _
    rw [natOf_eq_readDigits, readDigits_toDigits, Option.filter_some,
      if_pos (decide_eq_true hle)]
    rfl

/-- `v.as_u64().unwrap_or(0) as u32` -/
def tokenCount (v : Json) : ℕ := (asU64 v).getD 0 % 2 ^ 32

/-- What is kept while a reply arrives, what an event does to it, and what is returned. -/
structure Reader (σ ρ : Type) where
  start : σ
  onEvent : σ → Json → σ
  finish : Parser → σ → ρ

def dataPrefix : Text := "data: ".toList
def doneMark : Text := "[DONE]".toList

namespace Reader

variable {σ ρ : Type} (r : Reader σ ρ)

def onData (parse : Parser) (s : σ) (data : Text) : σ :=
  match parse data with
  | some event => r.onEvent s event
  | none => s

def onLine (parse : Parser) (s : σ) (line : Text) : σ :=
  match afterPrefix dataPrefix (trim line) with
  | none => s
  | some data => if data = doneMark then s else r.onData parse s data

/-- The loop over the chunks, with the buffer and what was kept so far. -/
def readFrom (parse : Parser) : List (Except String (List UInt8)) → Text × σ → Except String ρ
  | [], (_, s) => .ok (r.finish parse s)
  | .error _ :: _, _ => .error "reading stream chunk"
  | .ok chunk :: chunks, (buffer, s) =>
    readFrom parse chunks (drain (r.onLine parse) (buffer ++ lossyChars chunk) s)

def read (parse : Parser) (chunks : List (Except String (List UInt8))) : Except String ρ :=
  r.readFrom parse chunks ([], r.start)

end Reader

/-- The text and the usage so far, and the tokens sent to the listener. -/
structure ChatState where
  fullText : Text
  streamUsage : TokenUsage
  tokens : List Text

def ChatState.start : ChatState := ⟨[], ⟨0, 0⟩, []⟩

def ChatState.pushText (s : ChatState) (text : Option Text) : ChatState :=
  match text with
  | none => s
  | some text =>
    if text = [] then s else { s with fullText := s.fullText ++ text, tokens := s.tokens ++ [text] }

def ChatState.takeUsage (s : ChatState) (event : Json) : ChatState :=
  match event.get "usage".toList with
  | some u => { s with
      streamUsage := ⟨tokenCount (index u "prompt_tokens"), tokenCount (index u "completion_tokens")⟩ }
  | none => s

def choiceDelta (event : Json) : Option Json :=
  ((event.get "choices".toList).bind first).bind fun choice => choice.get "delta".toList

structure ChatReply where
  text : String
  usage : TokenUsage
  tokens : List Text

def ChatState.reply (s : ChatState) : ChatReply := ⟨String.ofList s.fullText, s.streamUsage, s.tokens⟩

def generateChatOpenaiStreaming : Reader ChatState ChatReply where
  start := .start
  onEvent s event :=
    (s.takeUsage event).pushText ((choiceDelta event).bind fun delta => delta.getStr "content".toList)
  finish _ s := s.reply

def anthropicEvent (s : ChatState) (event : Json) : ChatState :=
  let eventType := (event.getStr "type".toList).getD []
  let s := if eventType = "message_start".toList then
    { s with streamUsage := { s.streamUsage with
        inputTokens := tokenCount (index (index (index event "message") "usage") "input_tokens") } }
    else s
  let s := if eventType = "message_delta".toList then
    { s with streamUsage := { s.streamUsage with
        outputTokens := tokenCount (index (index event "usage") "output_tokens") } }
    else s
  s.pushText ((event.get "delta".toList).bind fun delta => delta.getStr "text".toList)

def generateChatAnthropicStreaming : Reader ChatState ChatReply where
  start := .start
  onEvent := anthropicEvent
  finish _ s := s.reply

/-- The id, the name and the arguments of a call so far. -/
structure ToolAccum where
  id : Text
  name : Text
  args : Text

structure RoundState where
  chat : ChatState
  toolAccum : List (ℤ × ToolAccum)

/-- `tool_accum.entry(idx).or_default()`, with what is done to the entry; the keys are in order. -/
def updateEntry (idx : ℤ) (f : ToolAccum → ToolAccum) : List (ℤ × ToolAccum) → List (ℤ × ToolAccum)
  | [] => [(idx, f ⟨[], [], []⟩)]
  | (k, entry) :: rest =>
    if idx < k then (idx, f ⟨[], [], []⟩) :: (k, entry) :: rest
    else if idx = k then (k, f entry) :: rest
    else (k, entry) :: updateEntry idx f rest

def orKeep (new : Option Text) (old : Text) : Text :=
  match new with
  | some t => if t = [] then old else t
  | none => old

def addToolCall (accum : List (ℤ × ToolAccum)) (tc : Json) : List (ℤ × ToolAccum) :=
  let idx := ((tc.get "index".toList).bind asI64).getD 0
  let function := tc.get "function".toList
  updateEntry idx (fun entry =>
    { id := orKeep (tc.getStr "id".toList) entry.id
      name := orKeep (function.bind fun f => f.getStr "name".toList) entry.name
      args := entry.args ++ (function.bind fun f => f.getStr "arguments".toList).getD [] }) accum

def roundEvent (s : RoundState) (event : Json) : RoundState :=
  let chat := s.chat.takeUsage event
  match choiceDelta event with
  | none => { s with chat := chat }
  | some delta =>
    { chat := chat.pushText (delta.getStr "content".toList)
      toolAccum := (((delta.get "tool_calls".toList).bind asArray).getD []).foldl addToolCall
        s.toolAccum }

/-- The calls that have got a name; arguments that are no JSON are replaced by none. -/
def collectCalls (parse : Parser) (accum : List (ℤ × ToolAccum)) : List ToolCall :=
  (accum.map fun entry =>
    { id := String.ofList entry.2.id
      name := String.ofList entry.2.name
      args := (parse entry.2.args).getD (.object []) }).filter fun tc : ToolCall => tc.name ≠ ""

/-- The round, and the tokens sent to the listener. -/
structure RoundReply where
  round : AgentRoundResult
  tokens : List Text

def callAgentRoundOpenaiCompatStreaming : Reader RoundState RoundReply where
  start := ⟨.start, []⟩
  onEvent := roundEvent
  finish parse s :=
    { round :=
        { text := if s.chat.fullText = [] then none else some (String.ofList s.chat.fullText)
          toolCalls := collectCalls parse s.toolAccum
          usage := s.chat.streamUsage }
      tokens := s.chat.tokens }

end Mowis.Streaming
