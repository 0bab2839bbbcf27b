import Mowis.Lib.HashMap

/-!
# The channel store

A channel and its messages live in two maps, each behind a lock of its own.  Every definition here
is what a call does while it holds one lock; ids are `u64` and the counter wraps.
-/

namespace Mowis.Channels

open Mowis.Lib

structure Message where
  from_ : UInt64
  to_ : UInt64
  payload : String
  deriving DecidableEq, Repr

structure Channel where
  id : UInt64
  from_ : UInt64
  to_ : UInt64
  deriving DecidableEq, Repr

structure Store where
  channels : HashMap UInt64 Channel
  messages : HashMap UInt64 (List Message)
  counter : UInt64

def notFound (channelId : UInt64) : String := s!"channel {channelId} not found"

def senderMismatch : String := "sender mismatch"

namespace Store

variable (s : Store)

def initial : Store := ⟨∅, ∅, 1⟩

/-- `fetch_add`, with the id it returns. -/
def nextId : UInt64 × Store := (s.counter, { s with counter := s.counter + 1 })

def insertChannel (id from_ to_ : UInt64) : Store :=
  { s with channels := s.channels.insert id ⟨id, from_, to_⟩ }

def insertList (id : UInt64) : Store := { s with messages := s.messages.insert id [] }

def checkSender (channelId : UInt64) (msg : Message) : Except String Unit :=
  match s.channels.lookup channelId with
  | none => .error (notFound channelId)
  | some chan => if chan.from_ ≠ msg.from_ then .error senderMismatch else .ok ()

def push (channelId : UInt64) (msg : Message) : Store :=
  { s with messages := s.messages.entryPush channelId msg }

def readMessages (channelId : UInt64) : Except String (List Message) :=
  match s.messages.lookup channelId with
  | none => .error (notFound channelId)
  | some v => .ok v

/-- The channel goes; the flag is what `delete_channel` returns in the end. -/
def removeChannel (channelId : UInt64) : Bool × Store :=
  ((s.channels.lookup channelId).isSome, { s with channels := s.channels.erase channelId })

def removeList (channelId : UInt64) : Store :=
  { s with messages := s.messages.erase channelId }

variable {s} {id : UInt64}

theorem readMessages_eq_ok {v : List Message} :
    s.readMessages id = .ok v ↔ s.messages.lookup id = some v := by
  unfold readMessages
  cases s.messages.lookup id <;> simp

theorem readMessages_fails :
    (∃ e, s.readMessages id = .error e) ↔ s.messages.lookup id = none := by
  unfold readMessages
  cases s.messages.lookup id <;> simp

theorem checkSender_fails :
    (∀ msg, ∃ e, s.checkSender id msg = .error e) ↔ s.channels.lookup id = none := by
  unfold checkSender
  constructor
  · intro hall
    cases hl : s.channels.lookup id with
    | none => rfl
    | some chan =>
      obtain ⟨e, he⟩ := hall ⟨chan.from_, chan.to_, ""⟩
      simp [hl] at he
  · intro hl msg
    exact ⟨notFound id, by rw [hl]⟩

theorem lookup_push (other : UInt64) (msg : Message) :
    (s.push id msg).messages.lookup other =
      if other = id then some (s.messages.bucket id ++ [msg]) else s.messages.lookup other :=
  HashMap.lookup_insert_eq_ite _ _ _ _

end Store

end Mowis.Channels
