import Mathlib.Data.List.Infix
import Mowis.Lib.Text

/-!
# Retrying a provider call

`with_retry` of `agentd/src/orchestration/provider_client.rs`, and the errors of the calls that it
makes.  Whether a failure is transient is read from the text of its outermost error.
-/

namespace Mowis.Streaming.Retry

open Mowis.Lib (Text)

inductive Provider
  | gemini
  | openAiCompat
  | anthropic
  deriving DecidableEq, Repr

def Provider.name : Provider → Text
  | .gemini => "Gemini".toList
  | .openAiCompat => "OpenAI-compat".toList
  | .anthropic => "Anthropic".toList

inductive Operation
  | chat
  | generateText
  deriving DecidableEq, Repr

def Operation.name : Operation → Text
  | .chat => "chat".toList
  | .generateText => "generate_text".toList

/-- The contexts of `send` and of `json`. -/
inductive Stage
  | request
  | response
  deriving DecidableEq, Repr

structure Context where
  provider : Provider
  operation : Operation
  stage : Stage
  deriving DecidableEq, Repr

def Context.text (c : Context) : Text :=
  match c.stage with
  | .request => c.provider.name ++ ' ' :: c.operation.name ++ " request failed".toList
  | .response => "parse ".toList ++ c.provider.name ++ ' ' :: c.operation.name ++ " response".toList

/-- How a call fails: with a status of a server and a body, in the network, or with another text (no
key, a response that has not the expected form). -/
inductive Failure
  | status (server : Text) (code : ℕ) (body : Text)
  | network (context : Context) (source : Text)
  | other (text : Text)

/-- What the model takes from outside: the text of a status, and lower case. -/
structure Texts where
  status : ℕ → Text
  lower : Text → Text

structure Texts.Lawful (texts : Texts) : Prop where
  lower_ascii : ∀ t : Text, (∀ c ∈ t, c.toNat < 128) → texts.lower t = t.map Char.toLower

variable (texts : Texts)

def Failure.chain : Failure → Text × List Text
  | .status server code body =>
    (server ++ " API error (".toList ++ texts.status code ++ "): ".toList ++ body, [])
  | .network context source => (context.text, [source])
  | .other text => (text, [])

def markers : List String :=
  ["timeout", "connection reset", "connection refused", "broken pipe", "eof", "dns"]

def Marked (msg : Text) : Prop := ∃ marker ∈ markers, marker.toList <:+: msg

instance (msg : Text) : Decidable (Marked msg) := by
  unfold Marked
  infer_instance

/-- `err.to_string()` is the text of the outermost error. -/
def isRetryableError (e : Failure) : Bool := decide (Marked (texts.lower (e.chain texts).1))

variable {T : Type*} (operationName : Text) (maxRetries : ℕ) (f : ℕ → Except Failure T)

/-- The attempts from `attempt` on: how many were made in the end, and what is returned. -/
def attemptsFrom : (rounds attempt : ℕ) → (lastErr : Option Failure) → ℕ × Except Failure T
  | 0, attempt, lastErr =>
    (attempt, .error (lastErr.getD (.other (operationName ++ ": all retries exhausted".toList))))
  | rounds + 1, attempt, _ =>
    match f attempt with
    | .ok value => (attempt + 1, .ok value)
    | .error e =>
      if !isRetryableError texts e || maxRetries ≤ attempt then (attempt + 1, .error e)
      else attemptsFrom rounds (attempt + 1) (some e)

def withRetry : ℕ × Except Failure T :=
  attemptsFrom texts operationName maxRetries f (maxRetries + 1) 0 none

def Transient : Except Failure T → Prop
  | .error (.status _ code _) => code = 429 ∨ 500 ≤ code ∧ code < 600
  | .error (.network _ _) => True
  | _ => False

/-- Another attempt follows an outcome just where it is transient and attempts remain, and else it
is what is returned. -/
def RetriesTransient (made : ℕ × Except Failure T) : Prop :=
  ∀ i < made.1, (i + 1 < made.1 ↔ Transient (f i) ∧ i < maxRetries) ∧
    (i + 1 = made.1 → made.2 = f i)

/-- Where the text tells whether an outcome is transient. -/
def Told : Except Failure T → Prop
  | .ok _ => True
  | .error (.status server code body) =>
    Transient (.error (.status server code body) : Except Failure T) ↔
      Marked (texts.lower ((Failure.status server code body).chain texts).1)
  | .error (.network _ _) => False
  | .error (.other text) => ¬ Marked (texts.lower text)

/-- An outcome after which the code makes another attempt, if there is one. -/
def Retried : Except Failure T → Prop
  | .ok _ => False
  | .error e => isRetryableError texts e = true

variable {texts} {operationName} {maxRetries} {f}

theorem not_marked_context (htexts : texts.Lawful) (c : Context) :
    ¬ Marked (texts.lower c.text) := by
  have hascii : c.text.all (fun x => x.toNat < 128) = true := by
    obtain ⟨provider, operation, stage⟩ := c
    cases provider <;> cases operation <;> cases stage <;> rfl
  rw [htexts.lower_ascii _ fun x hx => of_decide_eq_true (List.all_eq_true.mp hascii x hx)]
  obtain ⟨provider, operation, stage⟩ := c
  cases provider <;> cases operation <;> cases stage <;> decide

theorem told_iff (htexts : texts.Lawful) (o : Except Failure T) :
    Told texts o ↔ (Retried texts o ↔ Transient o) := by
  cases o with
  | ok value => simp [Told, Retried, Transient]
  | error e =>
    cases e with
    | status server code body =>
      simp only [Told, Retried, isRetryableError, decide_eq_true_eq]
      exact Iff.comm
    | network context source =>
      have hnot := not_marked_context htexts context
      simp [Told, Retried, isRetryableError, Transient, Failure.chain, hnot]
    | other text =>
      simp only [Told, Retried, isRetryableError, decide_eq_true_eq, Transient, iff_false]
      exact Iff.rfl

theorem attemptsFrom_spec (texts : Texts) (operationName : Text) (f : ℕ → Except Failure T)
    (rounds attempt : ℕ) (lastErr : Option Failure)
    (h : attempt + rounds = maxRetries) :
    ∃ last, attempt ≤ last ∧ last ≤ maxRetries ∧
      attemptsFrom texts operationName maxRetries f (rounds + 1) attempt lastErr =
        (last + 1, f last) ∧
      (∀ i, attempt ≤ i → i < last → Retried texts (f i)) ∧
      (last < maxRetries → ¬ Retried texts (f last)) := by
  induction rounds generalizing attempt lastErr with
  | zero =>
    refine ⟨attempt, le_rfl, by omega, ?_, fun i _ _ => by omega, fun _ => by omega⟩
    rw [attemptsFrom]
    cases hf : f attempt with
    | ok value => rfl
    | error e => exact if_pos (by simp; omega)
  | succ rounds ih =>
    rw [attemptsFrom]
    cases hf : f attempt with
    | ok value =>
      exact ⟨attempt, le_rfl, by omega, by rw [hf], fun i _ _ => by omega,
        fun _ => by rw [hf]; exact id⟩
    | error e =>
      dsimp only
      split_ifs with hstop
      · refine ⟨attempt, le_rfl, by omega, by rw [hf], fun i _ _ => by omega, fun hlt => ?_⟩
        rw [hf]
        simp only [Bool.or_eq_true, Bool.not_eq_true', decide_eq_true_eq] at hstop
        rcases hstop with hnot | hge
        · exact ne_true_of_eq_false hnot
        · omega
      · obtain ⟨last, hle, hmax, heq, hbefore, hlast⟩ := ih (attempt + 1) (some e) (by omega)
        refine ⟨last, by omega, hmax, heq, fun i hi hilast => ?_, hlast⟩
        rcases Nat.eq_or_lt_of_le hi with rfl | hlt
        · rw [hf]
          simp only [Bool.or_eq_true, Bool.not_eq_true', not_or, Bool.not_eq_false] at hstop
          exact hstop.1
        · exact hbefore i hlt hilast

/-- **When just the transient failures are retried**: as long as all outcomes were transient and
attempts remain, the text of the next one tells whether it is. -/
theorem retries_transient_iff (htexts : texts.Lawful) (operationName : Text) (maxRetries : ℕ)
    (f : ℕ → Except Failure T) :
    RetriesTransient maxRetries f (withRetry texts operationName maxRetries f) ↔
      ∀ i < maxRetries, (∀ j < i, Transient (f j)) → Told texts (f i) := by
  obtain ⟨last, -, hmax, heq, hbefore, hlast⟩ :=
    attemptsFrom_spec texts operationName f maxRetries 0 none (Nat.zero_add maxRetries)
  rw [withRetry, heq]
  constructor
  · intro h i hi hall
    have hile : i ≤ last := by
      by_contra hnot
      have hstop := (h last (Nat.lt_succ_self last)).1.mpr ⟨hall last (by omega), by omega⟩
      exact absurd hstop (lt_irrefl _)
    obtain ⟨hnext, -⟩ := h i (Nat.lt_succ_of_le hile)
    rw [told_iff htexts]
    rcases Nat.eq_or_lt_of_le hile with rfl | hlt
    · refine iff_of_false (hlast hi) fun htransient => ?_
      exact absurd (hnext.mpr ⟨htransient, hi⟩) (lt_irrefl _)
    · exact iff_of_true (hbefore i (Nat.zero_le i) hlt) (hnext.mp (Nat.succ_lt_succ hlt)).1
  · intro h
    have hall : ∀ i, i < last → Transient (f i) := by
      intro i
      induction i using Nat.strong_induction_on with
      | _ i ih =>
        intro hi
        have htold := h i (by omega) fun j hj => ih j hj (by omega)
        exact ((told_iff htexts _).mp htold).mp (hbefore i (Nat.zero_le i) hi)
    intro i hi
    refine ⟨⟨fun hlt => ⟨hall i (by omega), by omega⟩, fun ⟨htransient, hlt⟩ => ?_⟩, fun hi => ?_⟩
    · rcases Nat.eq_or_lt_of_le (Nat.le_of_lt_succ hi) with rfl | hlt'
      · have htold := (told_iff htexts _).mp (h i hlt hall)
        exact absurd (htold.mpr htransient) (hlast hlt)
      · exact Nat.succ_lt_succ hlt'
    · rw [Nat.succ.inj hi]

def someTexts : Texts where
  status code := if code = 504 then "504 Gateway Timeout".toList else "429 Too Many Requests".toList
  lower t := t.map Char.toLower

theorem someTexts_lawful : someTexts.Lawful where
  lower_ascii _ _ := rfl

/-- A gateway that times out is asked again, and answers. -/
theorem retries_gateway :
    RetriesTransient 3 (fun i => if i = 0 then .error (.status "Gemini".toList 504 []) else .ok i)
      (withRetry someTexts "generate_chat/Gemini".toList 3
        fun i => if i = 0 then .error (.status "Gemini".toList 504 []) else .ok i) := by
  refine (retries_transient_iff someTexts_lawful _ 3 _).mpr ?_
  rintro (_ | i) - -
  · exact iff_of_true (Or.inr (by decide)) (by decide)
  · trivial

/-- A rate limit is not found in the text of its status. -/
theorem not_retries_transient : ¬ ∀ (texts : Texts), texts.Lawful →
    ∀ operationName maxRetries (f : ℕ → Except Failure ℕ),
      RetriesTransient maxRetries f (withRetry texts operationName maxRetries f) := by
  intro h
  have htold := (retries_transient_iff someTexts_lawful [] 3
    (fun _ => .error (.status "Gemini".toList 429 []))).mp (h _ someTexts_lawful [] 3 _)
  exact absurd ((htold 0 (by decide) fun _ hj => nomatch hj).mp (Or.inl rfl)) (by decide)

end Mowis.Streaming.Retry
