import Mowis.Channels.Store
import Mowis.Lib.Execution

/-!
# Concurrent calls on the channel store

Clients call `create_channel`, `send_message`, `read_messages` and `delete_channel`; a section that
holds a lock is one step, and between two sections of a call anything may happen.
-/

namespace Mowis.Channels

open Mowis.Lib

/-- What is left to do of a call. -/
inductive Call where
  | insertChannel (id from_ to_ : UInt64)
  | insertList (id : UInt64)
  | push (id : UInt64) (msg : Message)
  | removeList (id : UInt64) (existed : Bool)
  deriving DecidableEq, Repr

def Call.id : Call → UInt64
  | .insertChannel id _ _ => id
  | .insertList id => id
  | .push id _ => id
  | .removeList id _ => id

/-- What has become of an id since it was handed out: the messages accepted on it, in the order
they were stored, whether its creation has returned, and whether a deletion has begun and returned.
-/
structure Track where
  accepted : List Message := []
  created : Bool := false
  deleting : Bool := false
  deleted : Bool := false

namespace Track

variable (t : Track)

def accept (msg : Message) : Track := { t with accepted := t.accepted ++ [msg] }

def createReturned : Track := { t with created := true }

def deleteBegun : Track := { t with deleting := true }

def deleteReturned : Track := { t with deleting := true, deleted := true }

end Track

structure State (Client : Type*) where
  store : Store
  calls : Client → Option Call
  tracks : UInt64 → Track

inductive Action (Client : Type*) where
  | create (c : Client) (from_ to_ : UInt64)
  | send (c : Client) (channelId : UInt64) (msg : Message)
  | read (c : Client) (channelId : UInt64)
  | delete (c : Client) (channelId : UInt64)
  | resume (c : Client)

variable {Client : Type*}

def State.start : State Client := ⟨.initial, fun _ => none, fun _ => {}⟩

namespace State

variable [DecidableEq Client] (s : State Client)

def enter (c : Client) (call : Option Call) (store : Store) (id : UInt64) (track : Track) :
    State Client :=
  ⟨store, Function.update s.calls c call, Function.update s.tracks id track⟩

@[simp] theorem enter_calls_self {s : State Client} {c : Client} {call : Option Call}
    {store : Store} {id : UInt64} {track : Track} :
    (s.enter c call store id track).calls c = call := Function.update_self _ _ _

@[simp] theorem enter_calls_of_ne {s : State Client} {c d : Client} {call : Option Call}
    {store : Store} {id : UInt64} {track : Track} (hne : d ≠ c) :
    (s.enter c call store id track).calls d = s.calls d := Function.update_of_ne hne _ _

@[simp] theorem enter_tracks_self {s : State Client} {c : Client} {call : Option Call}
    {store : Store} {id : UInt64} {track : Track} :
    (s.enter c call store id track).tracks id = track := Function.update_self _ _ _

@[simp] theorem enter_store {s : State Client} {c : Client} {call : Option Call}
    {store : Store} {id : UInt64} {track : Track} :
    (s.enter c call store id track).store = store := rfl

def resume (c : Client) : Call → State Client
  | .insertChannel id from_ to_ =>
    s.enter c (some (.insertList id)) (s.store.insertChannel id from_ to_) id (s.tracks id)
  | .insertList id =>
    s.enter c none (s.store.insertList id) id (s.tracks id).createReturned
  | .push id msg =>
    s.enter c none (s.store.push id msg) id ((s.tracks id).accept msg)
  | .removeList id _ =>
    s.enter c none (s.store.removeList id) id (s.tracks id).deleteReturned

end State

/-- The first section of a call, or a later one.  What a read answers is
`s.store.readMessages channelId`. -/
def step [DecidableEq Client] (s : State Client) : Action Client → Option (State Client)
  | .create c from_ to_ =>
    match s.calls c with
    | some _ => none
    | none =>
      let (id, store) := s.store.nextId
      some (s.enter c (some (.insertChannel id from_ to_)) store id {})
  | .send c channelId msg =>
    match s.calls c with
    | some _ => none
    | none =>
      match s.store.checkSender channelId msg with
      | .error _ => some s
      | .ok () => some (s.enter c (some (.push channelId msg)) s.store channelId (s.tracks channelId))
  | .read c _ =>
    match s.calls c with
    | some _ => none
    | none => some s
  | .delete c channelId =>
    match s.calls c with
    | some _ => none
    | none =>
      let (existed, store) := s.store.removeChannel channelId
      some (s.enter c (some (.removeList channelId existed)) store channelId
        (s.tracks channelId).deleteBegun)
  | .resume c =>
    match s.calls c with
    | none => none
    | some call => some (s.resume c call)

namespace State

variable (s : State Client)

def sending (id : UInt64) : Prop := ∃ c msg, s.calls c = some (.push id msg)

def deletionStarted (id : UInt64) : Prop :=
  (s.tracks id).deleting = true ∨ ∃ c existed, s.calls c = some (.removeList id existed)

end State

structure Kept (s : State Client) (id : UInt64) : Prop where
  reads : (s.tracks id).created = true → ¬ s.deletionStarted id →
    s.store.readMessages id = .ok (s.tracks id).accepted
  gone : (s.tracks id).deleted = true → ¬ s.sending id →
    s.store.messages.lookup id = none ∧ (∃ e, s.store.readMessages id = .error e) ∧
      ∀ msg, ∃ e, s.store.checkSender id msg = .error e

/-- The rest of a creation does not bring a deleted channel back and loses no message, a send does
not come after a deletion, and a deletion removes the list of a channel that is not there. -/
def CallOk (s : State Client) (c : Client) : Call → Prop
  | .insertChannel id _ _ => (s.tracks id).deleted = true → s.sending id
  | .insertList id =>
    ((s.tracks id).deleted = true → s.sending id) ∧
      (s.deletionStarted id ∨ (s.tracks id).accepted = [])
  | .push id _ =>
    (s.tracks id).deleted = true → ∃ other, other ≠ c ∧ ∃ msg, s.calls other = some (.push id msg)
  | .removeList id _ => s.sending id ∨ s.store.channels.lookup id = none

def StepOk (s : State Client) : Action Client → Prop
  | .resume c => ∀ call, s.calls c = some call → CallOk s c call
  | _ => True

theorem kept_iff {s : State Client} {id : UInt64} : Kept s id ↔
    ((s.tracks id).created = true → ¬ s.deletionStarted id →
      s.store.messages.lookup id = some (s.tracks id).accepted) ∧
    ((s.tracks id).deleted = true → ¬ s.sending id →
      s.store.messages.lookup id = none ∧ s.store.channels.lookup id = none) := by
  constructor
  · intro h
    refine ⟨fun hc hd => Store.readMessages_eq_ok.mp (h.reads hc hd), fun hd hs => ?_⟩
    obtain ⟨hlist, -, hsend⟩ := h.gone hd hs
    exact ⟨hlist, Store.checkSender_fails.mp hsend⟩
  · rintro ⟨hreads, hgone⟩
    refine ⟨fun hc hd => Store.readMessages_eq_ok.mpr (hreads hc hd), fun hd hs => ?_⟩
    obtain ⟨hlist, hchan⟩ := hgone hd hs
    exact ⟨hlist, Store.readMessages_fails.mpr hlist, Store.checkSender_fails.mpr hchan⟩

section Step

variable [DecidableEq Client] {s s' : State Client} {c : Client} {id other : UInt64}

/-- A step of `c` that is about `id` only. -/
structure Touches (s s' : State Client) (c : Client) (id : UInt64) : Prop where
  messages : ∀ other ≠ id, s'.store.messages.lookup other = s.store.messages.lookup other
  channels : ∀ other ≠ id, s'.store.channels.lookup other = s.store.channels.lookup other
  tracks : ∀ other ≠ id, s'.tracks other = s.tracks other
  calls : ∀ d ≠ c, s'.calls d = s.calls d
  before : ∀ call, s.calls c = some call → call.id = id
  after : ∀ call, s'.calls c = some call → call.id = id

theorem Touches.calls_iff (h : Touches s s' c id) (hne : other ≠ id) (d : Client) {call : Call}
    (hcall : call.id = other) : s'.calls d = some call ↔ s.calls d = some call := by
  by_cases hd : d = c
  · subst hd
    constructor
    · intro ha
      exact absurd (hcall.symm.trans (h.after _ ha)) hne
    · intro hb
      exact absurd (hcall.symm.trans (h.before _ hb)) hne
  · rw [h.calls d hd]

theorem Touches.kept_iff (h : Touches s s' c id) (hne : other ≠ id) :
    Kept s' other ↔ Kept s other := by
  have hsending : s'.sending other ↔ s.sending other :=
    exists_congr fun d => exists_congr fun msg => h.calls_iff hne d rfl
  have hdeletion : s'.deletionStarted other ↔ s.deletionStarted other := by
    unfold State.deletionStarted
    rw [h.tracks other hne]
    exact or_congr_right (exists_congr fun d => exists_congr fun ex => h.calls_iff hne d rfl)
  rw [Channels.kept_iff, Channels.kept_iff, h.messages other hne, h.channels other hne,
    h.tracks other hne, hsending, hdeletion]

theorem Touches.good_iff (h : Touches s s' c id) (hgood : ∀ other, Kept s other) :
    (∀ other, Kept s' other) ↔ Kept s' id := by
  constructor
  · intro hall
    exact hall id
  · intro hid other
    by_cases hne : other = id
    · exact hne ▸ hid
    · exact (h.kept_iff hne).mpr (hgood other)

theorem touches_enter {call : Option Call} {store : Store} {track : Track}
    (hmessages : ∀ other ≠ id, store.messages.lookup other = s.store.messages.lookup other)
    (hchannels : ∀ other ≠ id, store.channels.lookup other = s.store.channels.lookup other)
    (hbefore : ∀ call, s.calls c = some call → call.id = id)
    (hafter : ∀ x, call = some x → x.id = id) :
    Touches s (s.enter c call store id track) c id where
  messages := hmessages
  channels := hchannels
  tracks _ hne := Function.update_of_ne hne _ _
  calls _ hd := Function.update_of_ne hd _ _
  before := hbefore
  after x hx := hafter x (by rwa [State.enter_calls_self] at hx)

variable {call : Option Call} {store : Store} {track : Track}

theorem enter_calls_iff {x : Call} (hbefore : s.calls c ≠ some x) (hafter : call ≠ some x)
    (d : Client) : (s.enter c call store id track).calls d = some x ↔ s.calls d = some x := by
  by_cases hd : d = c
  · rw [hd, State.enter_calls_self]
    exact iff_of_false hafter hbefore
  · rw [State.enter_calls_of_ne hd]

theorem enter_sending_iff (hbefore : ∀ msg, s.calls c ≠ some (.push id msg))
    (hafter : ∀ msg, call ≠ some (.push id msg)) :
    (s.enter c call store id track).sending id ↔ s.sending id :=
  exists_congr fun d => exists_congr fun msg => enter_calls_iff (hbefore msg) (hafter msg) d

theorem enter_deletionStarted_iff (htrack : track.deleting = (s.tracks id).deleting)
    (hbefore : ∀ existed, s.calls c ≠ some (.removeList id existed))
    (hafter : ∀ existed, call ≠ some (.removeList id existed)) :
    (s.enter c call store id track).deletionStarted id ↔ s.deletionStarted id := by
  unfold State.deletionStarted
  rw [State.enter_tracks_self, htrack]
  exact or_congr_right (exists_congr fun d => exists_congr fun existed =>
    enter_calls_iff (hbefore existed) (hafter existed) d)

theorem kept_create (from_ to_ : UInt64) :
    Kept (s.enter c (some (.insertChannel id from_ to_)) store id {}) id := by
  rw [kept_iff, State.enter_tracks_self]
  exact ⟨nofun, nofun⟩

theorem kept_send (h : Kept s id) (hidle : s.calls c = none) (msg : Message) :
    Kept (s.enter c (some (.push id msg)) s.store id (s.tracks id)) id := by
  rw [kept_iff] at h ⊢
  rw [State.enter_tracks_self, enter_deletionStarted_iff rfl (by simp [hidle]) (by simp)]
  exact ⟨h.1, fun _ hsending => absurd ⟨c, msg, State.enter_calls_self⟩ hsending⟩

theorem kept_delete (h : Kept s id) (hidle : s.calls c = none) (existed : Bool) :
    Kept (s.enter c (some (.removeList id existed)) (s.store.removeChannel id).2 id
      (s.tracks id).deleteBegun) id := by
  rw [kept_iff] at h ⊢
  rw [State.enter_tracks_self, enter_sending_iff (by simp [hidle]) (by simp)]
  have hbegun : (s.enter c (some (.removeList id existed)) (s.store.removeChannel id).2 id
      (s.tracks id).deleteBegun).deletionStarted id := by
    left
    rw [State.enter_tracks_self]
    rfl
  exact ⟨fun _ hnot => absurd hbegun hnot, fun hd hs => ⟨(h.2 hd hs).1, AList.lookup_erase _ _⟩⟩

theorem kept_insertChannel {from_ to_ : UInt64} (h : Kept s id)
    (hcall : s.calls c = some (.insertChannel id from_ to_)) :
    Kept (s.resume c (.insertChannel id from_ to_)) id ↔
      CallOk s c (.insertChannel id from_ to_) := by
  rw [kept_iff] at h ⊢
  rw [State.resume, State.enter_tracks_self, enter_sending_iff (by simp [hcall]) (by simp),
    enter_deletionStarted_iff rfl (by simp [hcall]) (by simp)]
  have hthere : (s.store.insertChannel id from_ to_).channels.lookup id ≠ none := by
    rw [Store.insertChannel, AList.lookup_insert]
    nofun
  constructor
  · rintro ⟨-, hgone⟩ hd
    by_contra hs
    exact hthere (hgone hd hs).2
  · intro hok
    exact ⟨h.1, fun hd hs => absurd (hok hd) hs⟩

theorem kept_insertList (hcall : s.calls c = some (.insertList id)) :
    Kept (s.resume c (.insertList id)) id ↔ CallOk s c (.insertList id) := by
  rw [kept_iff]
  have hdeletion : (s.resume c (.insertList id)).deletionStarted id ↔ s.deletionStarted id :=
    enter_deletionStarted_iff rfl (by simp [hcall]) (by simp)
  rw [hdeletion, State.resume, State.enter_tracks_self,
    enter_sending_iff (by simp [hcall]) (by simp)]
  have hlist : (s.store.insertList id).messages.lookup id = some [] := AList.lookup_insert _
  rw [State.enter_store, hlist]
  constructor
  · rintro ⟨hreads, hgone⟩
    refine ⟨fun hd => ?_, or_iff_not_imp_left.mpr fun hdel => ?_⟩
    · by_contra hs
      exact nomatch (hgone hd hs).1
    · exact (Option.some.inj (hreads rfl hdel)).symm
  · rintro ⟨hgone, hempty⟩
    refine ⟨fun _ hdel => congrArg some (hempty.resolve_left hdel).symm, fun hd hs => ?_⟩
    exact absurd (hgone hd) hs

theorem kept_push {msg : Message} (h : Kept s id) (hcall : s.calls c = some (.push id msg)) :
    Kept (s.resume c (.push id msg)) id ↔ CallOk s c (.push id msg) := by
  rw [kept_iff] at h ⊢
  have hdeletion : (s.resume c (.push id msg)).deletionStarted id ↔ s.deletionStarted id :=
    enter_deletionStarted_iff rfl (by simp [hcall]) (by simp)
  rw [hdeletion, State.resume, State.enter_tracks_self]
  have hlist : (s.store.push id msg).messages.lookup id =
      some (s.store.messages.bucket id ++ [msg]) := by
    rw [Store.lookup_push, if_pos rfl]
  rw [State.enter_store, hlist]
  constructor
  · rintro ⟨-, hgone⟩ hd
    obtain ⟨d, m, hother⟩ := not_not.mp fun hs => nomatch (hgone hd hs).1
    have hne : d ≠ c := by
      intro heq
      rw [heq, State.enter_calls_self] at hother
      cases hother
    rw [State.enter_calls_of_ne hne] at hother
    exact ⟨d, hne, m, hother⟩
  · intro hok
    refine ⟨fun hc hdel => ?_, fun hd hs => ?_⟩
    · rw [HashMap.bucket, h.1 hc hdel, Option.getD_some]
      rfl
    · obtain ⟨d, hne, m, hother⟩ := hok hd
      refine absurd ⟨d, m, ?_⟩ hs
      rw [State.enter_calls_of_ne hne, hother]

theorem kept_removeList {existed : Bool} (hcall : s.calls c = some (.removeList id existed)) :
    Kept (s.resume c (.removeList id existed)) id ↔ CallOk s c (.removeList id existed) := by
  rw [kept_iff]
  rw [State.resume, State.enter_tracks_self, enter_sending_iff (by simp [hcall]) (by simp)]
  have hlist : (s.store.removeList id).messages.lookup id = none := AList.lookup_erase _ _
  rw [State.enter_store, hlist]
  constructor
  · rintro ⟨-, hgone⟩
    exact or_iff_not_imp_left.mpr fun hs => (hgone rfl hs).2
  · intro hok
    refine ⟨fun _ hnot => absurd (.inl ?_) hnot, fun _ hs => ⟨rfl, hok.resolve_left hs⟩⟩
    rw [State.enter_tracks_self]
    rfl

theorem touches_resume {call : Call} (hcall : s.calls c = some call) :
    Touches s (s.resume c call) c call.id := by
  have hbefore : ∀ x, s.calls c = some x → x.id = call.id := by
    intro x hx
    rw [Option.some.inj (hx.symm.trans hcall)]
  cases call with
  | insertChannel id from_ to_ =>
    exact touches_enter (fun _ _ => rfl) (fun _ hne => AList.lookup_insert_ne hne) hbefore
      (fun x hx => by rw [← Option.some.inj hx]; rfl)
  | insertList id =>
    exact touches_enter (fun _ hne => AList.lookup_insert_ne hne) (fun _ _ => rfl) hbefore nofun
  | push id msg =>
    exact touches_enter (fun _ hne => AList.lookup_insert_ne hne) (fun _ _ => rfl) hbefore nofun
  | removeList id existed =>
    exact touches_enter (fun _ hne => AList.lookup_erase_ne hne) (fun _ _ => rfl) hbefore nofun

theorem kept_resume {call : Call} (h : Kept s call.id) (hcall : s.calls c = some call) :
    Kept (s.resume c call) call.id ↔ CallOk s c call := by
  cases call with
  | insertChannel => exact kept_insertChannel h hcall
  | insertList => exact kept_insertList hcall
  | push => exact kept_push h hcall
  | removeList => exact kept_removeList hcall

/-- **One step.** -/
theorem step_kept_iff {a : Action Client} (hgood : ∀ id, Kept s id) (hstep : step s a = some s') :
    (∀ id, Kept s' id) ↔ StepOk s a := by
  cases a with
  | resume c =>
    rw [step] at hstep
    cases hcall : s.calls c with
    | none => simp [hcall] at hstep
    | some call =>
      simp only [hcall, Option.some.injEq] at hstep
      subst hstep
      rw [(touches_resume hcall).good_iff hgood, kept_resume (hgood _) hcall]
      constructor
      · intro hok x hx
        rwa [← Option.some.inj (hcall.symm.trans hx)]
      · intro hok
        exact hok call hcall
  | create c from_ to_ =>
    refine iff_of_true ?_ trivial
    rw [step] at hstep
    cases hidle : s.calls c with
    | some call => simp [hidle] at hstep
    | none =>
      simp only [hidle, Option.some.injEq] at hstep
      subst hstep
      have htouch : Touches s (s.enter c (some (.insertChannel s.store.nextId.1 from_ to_))
          s.store.nextId.2 s.store.nextId.1 {}) c s.store.nextId.1 := by
        refine touches_enter (fun _ _ => rfl) (fun _ _ => rfl) (by simp [hidle]) ?_
        rintro x ⟨⟩
        rfl
      exact (htouch.good_iff hgood).mpr (kept_create from_ to_)
  | send c id msg =>
    refine iff_of_true ?_ trivial
    rw [step] at hstep
    cases hidle : s.calls c with
    | some call => simp [hidle] at hstep
    | none =>
      simp only [hidle] at hstep
      cases hcheck : s.store.checkSender id msg with
      | error e =>
        simp only [hcheck, Option.some.injEq] at hstep
        exact hstep ▸ hgood
      | ok u =>
        simp only [hcheck, Option.some.injEq] at hstep
        subst hstep
        have htouch : Touches s (s.enter c (some (.push id msg)) s.store id (s.tracks id)) c id := by
          refine touches_enter (fun _ _ => rfl) (fun _ _ => rfl) (by simp [hidle]) ?_
          rintro x ⟨⟩
          rfl
        exact (htouch.good_iff hgood).mpr (kept_send (hgood id) hidle msg)
  | read c id =>
    refine iff_of_true ?_ trivial
    rw [step] at hstep
    cases hidle : s.calls c with
    | some call => simp [hidle] at hstep
    | none =>
      simp only [hidle, Option.some.injEq] at hstep
      exact hstep ▸ hgood
  | delete c id =>
    refine iff_of_true ?_ trivial
    rw [step] at hstep
    cases hidle : s.calls c with
    | some call => simp [hidle] at hstep
    | none =>
      simp only [hidle, Option.some.injEq] at hstep
      subst hstep
      have htouch : Touches s (s.enter c (some (.removeList id (s.store.removeChannel id).1))
          (s.store.removeChannel id).2 id (s.tracks id).deleteBegun) c id := by
        refine touches_enter (fun _ _ => rfl) (fun _ hne => AList.lookup_erase_ne hne)
          (by simp [hidle]) ?_
        rintro x ⟨⟩
        rfl
      exact (htouch.good_iff hgood).mpr (kept_delete (hgood id) hidle _)

end Step

/-- **The channel store.**  In every interleaving of calls, a live channel shows exactly what was
accepted and a deleted one stays gone if and only if every section finds its id as `StepOk` says. -/
theorem kept_iff_stepOk [DecidableEq Client] {past : List (State Client × Action Client)}
    {s : State Client} (h : Execution step .start past s) :
    ((∀ e ∈ past, ∀ id, Kept e.1 id) ∧ ∀ id, Kept s id) ↔ ∀ e ∈ past, StepOk e.1 e.2 := by
  have hstart : ∀ id, Kept (State.start : State Client) id := fun id => kept_iff.mpr ⟨nofun, nofun⟩
  exact h.good_iff (I := fun _ => True) trivial (fun _ _ _ _ _ => trivial) hstart
    (fun _ _ _ _ hgood hstep => step_kept_iff hgood hstep)

def creatingRun : List (Action ℕ) := [.create 0 7 8, .resume 0, .resume 0]

theorem kept_created : (∀ e ∈ ((Execution.runActions step creatingRun [] .start).get rfl).1,
      ∀ id, Kept e.1 id) ∧
    ∀ id, Kept ((Execution.runActions step creatingRun [] .start).get rfl).2 id := by
  have hrun : (Execution.runActions step creatingRun [] .start).isSome = true := rfl
  refine (kept_iff_stepOk (Execution.start.ofRun (Option.some_get hrun).symm)).mpr ?_
  intro e he
  rcases List.mem_cons.mp he with rfl | he
  · rintro call ⟨⟩
    exact ⟨nofun, .inr rfl⟩
  rcases List.mem_cons.mp he with rfl | he
  · rintro call ⟨⟩
    exact nofun
  · rw [List.mem_singleton.mp he]
    trivial

/-- The sender guesses the id and sends while the list of the channel is still to be inserted. -/
def guessingRun : List (Action ℕ) :=
  [.create 0 7 8, .resume 0, .send 1 1 ⟨7, 8, "hello"⟩, .resume 1, .resume 0]

/-- The insertion of the empty list wipes the message that was accepted. -/
theorem not_kept : ¬ ∀ (past : List (State ℕ × Action ℕ)) (s : State ℕ),
    Execution step .start past s → (∀ e ∈ past, ∀ id, Kept e.1 id) ∧ ∀ id, Kept s id := by
  intro hall
  have hrun : (Execution.runActions step guessingRun [] .start).isSome = true := rfl
  have hkept := (hall _ _ (Execution.start.ofRun (Option.some_get hrun).symm)).2 1
  have hcalls : ∀ c, ((Execution.runActions step guessingRun [] .start).get hrun).2.calls c =
      none := by
    intro c
    show Function.update (Function.update (Function.update (Function.update (Function.update
      (fun _ => none) 0 _) 0 _) 1 _) 1 none) 0 none c = none
    simp only [Function.update_apply]
    split_ifs <;> rfl
  have hreads := hkept.reads rfl ?_
  · exact nomatch Store.readMessages_eq_ok.mp hreads
  · rintro (hdeleting | ⟨c, existed, hcall⟩)
    · exact absurd hdeleting (by decide)
    · exact nomatch (hcalls c).symm.trans hcall

end Mowis.Channels
