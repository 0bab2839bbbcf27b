import Mowis.Executor.Connection
import Mowis.Transport.Inflight

/-!
# Both ends of a connection

The calls of the host and the executor that serves them, with the lines that are on their way
between the two.  The steps of the host are those of `Inflight`, the steps of the guest those of
`Connection`; what one end writes is what the other one reads.

* `Link.Step` — one step of the host, of the guest, or of a line.
* `Link.Inv` / `Link.Inv.step` — what is on its way belongs to calls that are still in the table.
* `answers_carried` — a call receives what the task of its own request has written.
-/

namespace Mowis.Transport

open Mowis.Executor (Payload Envelope Decoder Served Incoming Answered AnsweredSoFar)
open Mowis.Lib

/-- `sent` are the calls whose request has gone out, `replies` what is on its way to the host. -/
structure Link where
  host : Conn
  guest : Executor.Connection
  sent : Finset ℕ
  replies : List Envelope

def Link.start (registry : Executor.Registry) : Link := ⟨.start, .start registry [], ∅, []⟩

/-- What the guest has written for the lines it has read. -/
def written (c : Executor.Connection) : List Envelope := c.served.flatMap Served.sent

/-- The envelopes that a step of the guest writes. -/
def Wrote (c c' : Executor.Connection) (out : List Envelope) : Prop :=
  (written c').Perm (written c ++ out)

/-- A line that is no envelope, or the end of the stream. -/
def Noise (decode : Decoder) (incoming : Incoming) : Prop :=
  ∀ line env, incoming = .ok line → decode line ≠ .ok env

/-- One step; `ask` is what the calls ask for.  What is left of a write that fails half way is
noise. -/
inductive Link.Step (decode : Decoder) (ask : ℕ → Payload) : Link → Link → Prop
  /-- The lines with replies are read below. -/
  | host {s : Link} {a : Action} {host : Conn} (h : Transport.step decode s.host a = some host)
      (hline : ∀ line, a = .line line → Noise decode (.ok line))
      (hwritten : ∀ id, a = .written id → id ∈ s.sent) : Step decode ask s { s with host }
  /-- A request goes out; it arrives, unless the guest has stopped reading. -/
  | request {s : Link} {id : ℕ} {line : String} {more : List Incoming}
      (hphase : (s.host.calls id).phase = .registered) (hsent : id ∉ s.sent)
      (hline : decode line = .ok ⟨id, ask id⟩) (harrives : more = [.ok line] ∨ more = []) :
      Step decode ask s { s with
        sent := insert id s.sent, guest := { s.guest with unread := s.guest.unread ++ more } }
  | noise {s : Link} {incoming : Incoming} (h : Noise decode incoming) :
      Step decode ask s { s with guest := { s.guest with unread := s.guest.unread ++ [incoming] } }
  | guest {s : Link} {guest : Executor.Connection} {out : List Envelope}
      (h : Executor.Turn decode s.guest guest) (hout : Wrote s.guest guest out) :
      Step decode ask s { s with guest, replies := s.replies ++ out }
  | reply {s : Link} {env : Envelope} {rest : List Envelope} {line : String} {host : Conn}
      (hreplies : s.replies = env :: rest) (hline : decode line = .ok env)
      (h : Transport.step decode s.host (.line line) = some host) :
      Step decode ask s { s with host, replies := rest }

/-- The payloads with a number. -/
def payloads (id : ℕ) (envs : List Envelope) : List Payload :=
  (envs.filter fun e => e.id = id).map Envelope.payload

/-- All that the task of a line has written for a call is received or on its way, in this order.
It is the beginning of an answer, and all of it when the task has ended undisturbed. -/
structure Link.Carries (decode : Decoder) (s : Link) (id : ℕ) (served : Served) : Prop where
  carried : (s.host.calls id).received ++ payloads id s.replies = served.sent.map Envelope.payload
  soFar : AnsweredSoFar decode served.line served.sent
  whole : served.left = .done → s.guest.lost = false → s.guest.exited = false →
    Answered decode served.line served.sent

/-! ### The guest -/

section Guest

variable {decode : Decoder} {c c' : Executor.Connection} {id : ℕ}

/-- The number of the request in a line. -/
def numberOf (decode : Decoder) : Incoming → Option ℕ
  | .ok line => (decode line).toOption.map Envelope.id
  | .error _ => none

/-- The lines that the guest has read, and those before it. -/
def lines (c : Executor.Connection) : List Incoming := c.served.map (.ok ·.line) ++ c.unread

/-- The numbers of the requests that have arrived. -/
def asked (decode : Decoder) (c : Executor.Connection) : List ℕ :=
  (lines c).filterMap (numberOf decode)

theorem numberOf_ok {line : String} {env : Envelope} (h : decode line = .ok env) :
    numberOf decode (.ok line) = some env.id := by
  rw [numberOf, h]
  rfl

theorem numberOf_error {line err : String} (h : decode line = .error err) :
    numberOf decode (.ok line) = none := by
  rw [numberOf, h]
  rfl

theorem numberOf_noise {incoming : Incoming} (h : Noise decode incoming) :
    numberOf decode incoming = none := by
  cases incoming with
  | error e => rfl
  | ok line =>
    cases hline : decode line with
    | error e => exact numberOf_error hline
    | ok env => exact absurd hline (h line env rfl)

@[simp] theorem payloads_append (id : ℕ) (envs envs' : List Envelope) :
    payloads id (envs ++ envs') = payloads id envs ++ payloads id envs' := by
  simp [payloads]

/-- What is written for a line with a number: parts of an answer, and at most one end of it. -/
theorem sent_of_number {v : Served} (hgood : AnsweredSoFar decode v.line v.sent)
    (hnum : numberOf decode (.ok v.line) = some id) :
    ∃ chunks rest, v.sent = chunks ++ rest ∧ (∀ e ∈ chunks, Executor.IsChunk id e) ∧
      (rest = [] ∨ ∃ last, rest = [last] ∧ last.id = id) := by
  cases hline : decode v.line with
  | error err => exact nomatch (numberOf_error hline).symm.trans hnum
  | ok env =>
    obtain rfl := Option.some.inj ((numberOf_ok hline).symm.trans hnum)
    cases hreq : env.payload.isRequest with
    | false => exact ⟨[], [], hgood.other env hline hreq, by simp, .inl rfl⟩
    | true =>
      rcases hgood.request env hline hreq with hchunks | ⟨chunks, last, hsent, hchunks, hlast, -⟩
      · exact ⟨v.sent, [], (List.append_nil _).symm, hchunks, .inl rfl⟩
      · exact ⟨chunks, [last], hsent, hchunks, .inr ⟨last, rfl, hlast⟩⟩

theorem id_of_sent {v : Served} (hgood : AnsweredSoFar decode v.line v.sent)
    (hnum : numberOf decode (.ok v.line) = some id) : ∀ e ∈ v.sent, e.id = id := by
  obtain ⟨chunks, rest, hsent, hchunks, hrest⟩ := sent_of_number hgood hnum
  intro e he
  rw [hsent, List.mem_append] at he
  rcases he with he | he
  · exact (hchunks e he).id
  · rcases hrest with rfl | ⟨last, rfl, hlast⟩
    · cases he
    · rw [List.mem_singleton.mp he, hlast]

theorem number_of_sent (hid : id ≠ 0) {v : Served} (hgood : AnsweredSoFar decode v.line v.sent)
    (h : payloads id v.sent ≠ []) : numberOf decode (.ok v.line) = some id := by
  obtain ⟨p, hp⟩ := List.exists_mem_of_ne_nil _ h
  obtain ⟨e, he, -⟩ := List.mem_map.mp hp
  obtain ⟨hmem, heid⟩ := List.mem_filter.mp he
  obtain rfl := of_decide_eq_true heid
  cases hline : decode v.line with
  | error err =>
    refine absurd ?_ hid
    rcases hgood.malformed err hline with hnil | hone
    · rw [hnil] at hmem
      cases hmem
    · rw [hone] at hmem
      exact congrArg Envelope.id (List.mem_singleton.mp hmem)
  | ok env =>
    have hnum := numberOf_ok hline
    rw [hnum, id_of_sent hgood hnum e hmem]

theorem payloads_of_number {v : Served} (hgood : AnsweredSoFar decode v.line v.sent)
    (hnum : numberOf decode (.ok v.line) = some id) :
    payloads id v.sent = v.sent.map Envelope.payload := by
  have hall := id_of_sent hgood hnum
  rw [payloads, List.filter_eq_self.mpr fun e he => decide_eq_true (hall e he)]

theorem payloads_other (hid : id ≠ 0) {vs : List Served}
    (hgood : ∀ v ∈ vs, AnsweredSoFar decode v.line v.sent)
    (h : id ∉ (vs.map (.ok ·.line)).filterMap (numberOf decode)) :
    payloads id (vs.flatMap Served.sent) = [] := by
  induction vs with
  | nil => rfl
  | cons v vs ih =>
    rw [List.flatMap_cons, payloads_append]
    have hv : payloads id v.sent = [] := by
      by_contra hne
      refine h (List.mem_filterMap.mpr ⟨.ok v.line, List.mem_cons_self, ?_⟩)
      exact number_of_sent hid (hgood v List.mem_cons_self) hne
    rw [hv, List.nil_append]
    refine ih (fun w hw => hgood w (List.mem_cons_of_mem _ hw)) fun hmem => h ?_
    obtain ⟨line, hline, hnum⟩ := List.mem_filterMap.mp hmem
    exact List.mem_filterMap.mpr ⟨line, List.mem_cons_of_mem _ hline, hnum⟩

/-- A step of the guest writes at most one envelope: at the end, or for a line it has read. -/
theorem turn_cases (h : Executor.Turn decode c c') :
    (∃ xs : List Envelope, xs.length ≤ 1 ∧ written c' = written c ++ xs) ∨
    ∃ before after v v' env, c.served = before ++ v :: after ∧ c'.served = before ++ v' :: after ∧
      v'.line = v.line ∧ v'.sent = v.sent ++ [env] := by
  obtain ⟨-, registry, h⟩ := h
  obtain ⟨unread, served, _, lost, exited⟩ := c
  cases h with
  | send => exact .inr ⟨_, _, _, _, _, rfl, rfl, rfl, rfl⟩
  | @malformed _ e => exact .inl ⟨[Executor.malformed e], le_rfl, by simp [written]⟩
  | _ => exact .inl ⟨[], Nat.zero_le _, by simp [written]⟩

theorem lines_sublist (h : Executor.Turn decode c c') : (lines c').Sublist (lines c) := by
  obtain ⟨-, registry, h⟩ := h
  obtain ⟨unread, served, _, lost, exited⟩ := c
  cases h <;> simp [lines]

theorem eq_of_wrote {out xs : List Envelope} (h : Wrote c c' out)
    (hxs : (written c').Perm (written c ++ xs)) (hlen : xs.length ≤ 1) : out = xs := by
  have hperm := (List.perm_append_left_iff (written c)).mp (h.symm.trans hxs)
  match xs, hlen with
  | [], _ => exact List.perm_nil.mp hperm
  | [_], _ => exact List.perm_singleton.mp hperm

theorem asked_once {before after : List Served} {v : Served} (hc : c.served = before ++ v :: after)
    (hnodup : (asked decode c).Nodup) (hnum : numberOf decode (.ok v.line) = some id) :
    id ∉ (before.map (.ok ·.line)).filterMap (numberOf decode) ∧
      id ∉ (after.map (.ok ·.line)).filterMap (numberOf decode) := by
  have hsplit : asked decode c = (before.map (.ok ·.line)).filterMap (numberOf decode) ++
      (id :: ((after.map (.ok ·.line)).filterMap (numberOf decode) ++
        c.unread.filterMap (numberOf decode))) := by
    simp [asked, lines, hc, hnum]
  rw [hsplit] at hnodup
  obtain ⟨-, hrest, hdisjoint⟩ := List.nodup_append.mp hnodup
  refine ⟨fun hmem => hdisjoint id hmem id List.mem_cons_self rfl, fun hmem => ?_⟩
  exact (List.nodup_cons.mp hrest).1 (List.mem_append_left _ hmem)

/-- **What has been written for a call grows at its end, by what a step writes.** -/
theorem payloads_turn {out : List Envelope} (h : Executor.Turn decode c c') (hout : Wrote c c' out)
    (hgood : ∀ v ∈ c'.served, AnsweredSoFar decode v.line v.sent)
    (hnodup : (asked decode c).Nodup) (hid : id ≠ 0) :
    payloads id (written c') = payloads id (written c) ++ payloads id out := by
  rcases turn_cases h with ⟨xs, hlen, hxs⟩ | ⟨before, after, v, v', env, hc, hc', hline, hsent⟩
  · rw [eq_of_wrote hout (List.Perm.of_eq hxs) hlen, hxs, payloads_append]
  · have hw : written c = before.flatMap Served.sent ++ (v.sent ++ after.flatMap Served.sent) := by
      rw [written, hc, List.flatMap_append, List.flatMap_cons]
    have hw' : written c' =
        before.flatMap Served.sent ++ (v.sent ++ ([env] ++ after.flatMap Served.sent)) := by
      rw [written, hc', List.flatMap_append, List.flatMap_cons, hsent, List.append_assoc]
    have hperm : (written c').Perm (written c ++ [env]) := by
      rw [hw, hw', List.append_assoc, List.append_assoc]
      exact ((List.perm_append_comm.append_left _).append_left _)
    rw [eq_of_wrote hout hperm le_rfl, hw, hw']
    by_cases henv : env.id = id
    · -- no later line asks for the same call
      have hnum : numberOf decode (.ok v.line) = some id := by
        rw [← hline]
        refine number_of_sent hid (hgood v' (by simp [hc'])) ?_
        rw [hsent, payloads_append]
        simp [payloads, henv]
      have hafter : payloads id (after.flatMap Served.sent) = [] :=
        payloads_other hid (fun w hw => hgood w (by simp [hc', hw])) (asked_once hc hnodup hnum).2
      simp only [payloads_append, hafter, List.append_nil, List.append_assoc]
    · have hnone : payloads id [env] = [] := by simp [payloads, henv]
      simp only [payloads_append, hnone, List.append_nil, List.nil_append]

theorem payloads_served {v : Served} (hv : v ∈ c.served)
    (hgood : ∀ v ∈ c.served, AnsweredSoFar decode v.line v.sent)
    (hnodup : (asked decode c).Nodup) (hid : id ≠ 0) (hnum : numberOf decode (.ok v.line) = some id) :
    payloads id (written c) = v.sent.map Envelope.payload := by
  obtain ⟨before, after, hc⟩ := List.append_of_mem hv
  rw [hc] at hgood
  obtain ⟨hnotBefore, hnotAfter⟩ := asked_once hc hnodup hnum
  have hbefore := payloads_other hid (fun w hw => hgood w (List.mem_append_left _ hw)) hnotBefore
  have hafter := payloads_other hid
    (fun w hw => hgood w (List.mem_append_right _ (List.mem_cons_of_mem _ hw))) hnotAfter
  have hown := payloads_of_number (hgood v (by simp)) hnum
  rw [written, hc, List.flatMap_append, List.flatMap_cons, payloads_append, payloads_append, hbefore,
    hafter, hown, List.nil_append, List.append_nil]

theorem nothing_after_terminal {v : Served} (hgood : AnsweredSoFar decode v.line v.sent)
    (hnum : numberOf decode (.ok v.line) = some id) {ps qs : List Payload}
    (h : ps ++ qs = v.sent.map Envelope.payload) (hps : HasTerminal ps) : qs = [] := by
  obtain ⟨p, hp, hterm⟩ := hps
  obtain ⟨chunks, rest, hsent, hchunks, hrest⟩ := sent_of_number hgood hnum
  have hopen : p ∉ chunks.map Envelope.payload := by
    intro hmem
    obtain ⟨e, he, rfl⟩ := List.mem_map.mp hmem
    exact Bool.noConfusion (hterm.symm.trans (hchunks e he).open_)
  rw [hsent, List.map_append] at h
  rcases List.eq_nil_or_concat qs with rfl | ⟨qs, q, rfl⟩
  · rfl
  · rcases hrest with rfl | ⟨last, rfl, -⟩
    · rw [List.map_nil, List.append_nil] at h
      exact absurd (h ▸ List.mem_append_left _ hp) hopen
    · rw [List.concat_eq_append, ← List.append_assoc] at h
      exact absurd ((List.append_inj' h rfl).1 ▸ List.mem_append_left _ hp) hopen

end Guest

/-! ### One step -/

/-- What every step keeps. -/
structure Link.Inv (decode : Decoder) (ask : ℕ → Payload) (s : Link) : Prop where
  host : Transport.Inv s.host
  first : s.host.nextId ≠ 0
  zero : (s.host.calls 0).phase = .unused
  kept : ∀ id, (s.host.calls id).phase.isRegistered = true → id ∉ s.host.inflight →
    HasTerminal (s.host.calls id).received
  /-- Only replies without a call find no sender. -/
  dropped : ∀ id, s.host.reader = .removing id false → id = 0
  guest : ∃ incoming, Executor.Inv decode incoming s.guest
  once : (asked decode s.guest).Nodup
  arrived : ∀ id ∈ asked decode s.guest, id ∈ s.sent
  own : ∀ line env, .ok line ∈ lines s.guest → decode line = .ok env → env.payload = ask env.id
  sent : ∀ id ∈ s.sent, (s.host.calls id).phase.isRegistered = true
  carried : ∀ id, id ≠ 0 →
    (s.host.calls id).received ++ payloads id s.replies = payloads id (written s.guest)

namespace Link.Inv

variable {decode : Decoder} {ask : ℕ → Payload} {s s' : Link} {id : ℕ}

theorem soFar (h : s.Inv decode ask) :
    ∀ v ∈ s.guest.served, AnsweredSoFar decode v.line v.sent := by
  obtain ⟨incoming, hinv⟩ := h.guest
  exact fun v hv => (hinv.good v hv).soFar

theorem exists_served (h : s.Inv decode ask) (hid : id ≠ 0)
    (hne : payloads id (written s.guest) ≠ []) :
    ∃ v ∈ s.guest.served, numberOf decode (.ok v.line) = some id := by
  by_contra hno
  refine hne (payloads_other hid h.soFar fun hmem => hno ?_)
  obtain ⟨line, hline, hnum⟩ := List.mem_filterMap.mp hmem
  obtain ⟨v, hv, rfl⟩ := List.mem_map.mp hline
  exact ⟨v, hv, hnum⟩

theorem asked_of_served {v : Served} (hv : v ∈ s.guest.served)
    (hnum : numberOf decode (.ok v.line) = some id) : id ∈ asked decode s.guest :=
  List.mem_filterMap.mpr ⟨_, List.mem_append_left _ (List.mem_map.mpr ⟨v, hv, rfl⟩), hnum⟩

/-- **A reply on its way finds the sender of its call in the table.** -/
theorem inflight_of_onTheWay (h : s.Inv decode ask) (hid : id ≠ 0)
    (hne : payloads id s.replies ≠ []) : id ∈ s.host.inflight := by
  have hsplit := h.carried id hid
  obtain ⟨v, hv, hnum⟩ := h.exists_served hid (hsplit ▸ List.append_ne_nil_of_right_ne_nil _ hne)
  have hreg := h.sent id (h.arrived id (asked_of_served hv hnum))
  by_contra hout
  rw [payloads_served hv h.soFar h.once hid hnum] at hsplit
  exact hne (nothing_after_terminal (h.soFar v hv) hnum hsplit (h.kept id hreg hout))

theorem received_setPhase (c : Conn) (id id' : ℕ) (phase : Phase) :
    ((c.setPhase id phase).calls id').received = (c.calls id').received := by
  rw [setPhase_calls]
  split
  · next heq => rw [heq]; rfl
  · rfl

theorem setPhase (h : s.Inv decode ask) {host : Conn} {phase : Phase}
    (hcalls : host.calls = (s.host.setPhase id phase).calls)
    (hreader : host.reader = s.host.reader) (hinv : Transport.Inv host) (hfirst : host.nextId ≠ 0)
    (hid : id ≠ 0) (hreg : (s.host.calls id).phase.isRegistered = true → phase.isRegistered = true)
    (hkept : ∀ id, (host.calls id).phase.isRegistered = true → id ∉ host.inflight →
      (s.host.calls id).phase.isRegistered = true ∧ id ∉ s.host.inflight) :
    Inv decode ask { s with host } := by
  have hreceived : ∀ id', (host.calls id').received = (s.host.calls id').received := fun id' => by
    rw [hcalls, received_setPhase]
  refine { h with
    host := hinv, first := hfirst, zero := ?_, kept := fun id' hreg' hout => ?_
    dropped := fun id' hr => h.dropped id' (hreader ▸ hr), sent := fun id' hsent => ?_
    carried := fun id' hid' => by rw [← h.carried id' hid', ← hreceived id'] }
  · show (host.calls 0).phase = _
    rw [hcalls, setPhase_calls, if_neg hid.symm]
    exact h.zero
  · show HasTerminal (host.calls id').received
    rw [hreceived]
    exact h.kept id' (hkept id' hreg' hout).1 (hkept id' hreg' hout).2
  · show (host.calls id').phase.isRegistered = true
    rw [hcalls, setPhase_calls]
    split
    · next heq =>
      subst heq
      exact hreg (h.sent _ hsent)
    · exact h.sent id' hsent

theorem hostStep (h : s.Inv decode ask) {a : Action} {host : Conn}
    (hs : Transport.step decode s.host a = some host)
    (hline : ∀ line, a = .line line → Noise decode (.ok line)) : Inv decode ask { s with host } := by
  have hinv := h.host.step hs
  obtain ⟨-, rfl⟩ | ⟨id, -, hp, rfl⟩ | ⟨id, phase, ha, hp, rfl⟩ |
    ⟨line, rfl, -, rfl | ⟨env, henv, -⟩⟩ | ⟨id, found, -, hr, rfl⟩ | ⟨-, -, rfl⟩ := step_cases hs
  · refine h.setPhase rfl rfl hinv (Nat.succ_ne_zero _) h.first (fun hreg => ?_)
      fun id hreg hout => ⟨?_, hout⟩
    · rw [h.host.next _ le_rfl] at hreg
      cases hreg
    · have hreg' : ((s.host.setPhase s.host.nextId .numbered).calls id).phase.isRegistered = true :=
        hreg
      rw [setPhase_calls] at hreg'
      split at hreg'
      · cases hreg'
      · exact hreg'
  · have hid : id ≠ 0 := by
      rintro rfl
      exact nomatch hp.symm.trans h.zero
    refine h.setPhase rfl rfl hinv h.first hid (fun _ => rfl) fun id' hreg hout => ?_
    obtain ⟨hne, hout⟩ := not_or.mp (Finset.mem_insert.not.mp hout)
    have hreg' : ((s.host.setPhase id .registered).calls id').phase.isRegistered = true := hreg
    rw [setPhase_calls, if_neg hne] at hreg'
    exact ⟨hreg', hout⟩
  · have hid : id ≠ 0 := by
      rintro rfl
      exact nomatch hp.symm.trans h.zero
    have hphase : phase.isRegistered = true := by
      obtain ⟨-, rfl⟩ | ⟨-, rfl⟩ := ha <;> rfl
    refine h.setPhase rfl rfl hinv h.first hid (fun _ => hphase) fun id' hreg hout => ⟨?_, hout⟩
    rw [setPhase_calls] at hreg
    split at hreg
    · next heq =>
      subst heq
      rw [hp]
      rfl
    · exact hreg
  · exact h
  · exact absurd henv (hline line rfl line env rfl)
  · refine { h with host := hinv, kept := fun id' hreg hout => ?_, dropped := nofun }
    by_cases heq : id' = id
    · subst heq
      cases found with
      | true => exact h.host.removing _ hr
      | false =>
        have hzero := h.dropped _ hr
        subst hzero
        have hreg' : (s.host.calls 0).phase.isRegistered = true := hreg
        rw [h.zero] at hreg'
        cases hreg'
    · exact h.kept id' hreg fun hin => hout (Finset.mem_erase.mpr ⟨heq, hin⟩)
  · exact { h with host := hinv, dropped := nofun }

theorem feed (h : s.Inv decode ask) {sent : Finset ℕ} {more : List Incoming} (hsub : s.sent ⊆ sent)
    (hsent : ∀ id ∈ sent, (s.host.calls id).phase.isRegistered = true)
    (hnodup : (more.filterMap (numberOf decode)).Nodup)
    (hnew : ∀ id ∈ more.filterMap (numberOf decode), id ∈ sent ∧ id ∉ s.sent)
    (hown : ∀ line env, .ok line ∈ more → decode line = .ok env → env.payload = ask env.id) :
    Inv decode ask { s with
      sent, guest := { s.guest with unread := s.guest.unread ++ more } } := by
  obtain ⟨incoming, hgood, -, hexited⟩ := h.guest
  have hlines : lines { s.guest with unread := s.guest.unread ++ more } = lines s.guest ++ more :=
    (List.append_assoc _ _ _).symm
  have hasked : asked decode { s.guest with unread := s.guest.unread ++ more } =
      asked decode s.guest ++ more.filterMap (numberOf decode) := by
    rw [asked, hlines, List.filterMap_append, asked]
  refine { h with
    guest := ⟨lines s.guest ++ more, hgood, fun _ => ?_, hexited⟩
    once := ?_
    arrived := fun id hid => ?_
    own := fun line env hline => ?_
    sent := hsent }
  · show Executor.readable (s.guest.served.map (.ok ·.line) ++ s.guest.unread ++ more) = _
    rw [List.append_assoc]
    induction s.guest.served with
    | nil => rfl
    | cons v vs ih => exact congrArg (v.line :: ·) ih
  · rw [hasked]
    exact h.once.append hnodup fun id hid hid' => (hnew id hid').2 (h.arrived id hid)
  · rw [hasked, List.mem_append] at hid
    exact hid.elim (fun hid => hsub (h.arrived id hid)) fun hid => (hnew id hid).1
  · rw [hlines, List.mem_append] at hline
    exact hline.elim (h.own line env) (hown line env)

theorem request (h : s.Inv decode ask) {line : String} {more : List Incoming}
    (hphase : (s.host.calls id).phase = .registered) (hsent : id ∉ s.sent)
    (hline : decode line = .ok ⟨id, ask id⟩) (harrives : more = [.ok line] ∨ more = []) :
    Inv decode ask { s with
      sent := insert id s.sent, guest := { s.guest with unread := s.guest.unread ++ more } } := by
  have hnumbers : more.filterMap (numberOf decode) ⊆ [id] := by
    rcases harrives with rfl | rfl
    · rw [List.filterMap_cons, numberOf_ok hline]
      exact List.Subset.refl _
    · exact List.nil_subset _
  have hreg : ∀ id' ∈ insert id s.sent, (s.host.calls id').phase.isRegistered = true := by
    intro id' hid'
    rcases Finset.mem_insert.mp hid' with rfl | hid'
    · rw [hphase]
      rfl
    · exact h.sent id' hid'
  refine h.feed (Finset.subset_insert _ _) hreg ?_ (fun id' hid' => ?_) fun line' env hmem henv => ?_
  · rcases harrives with rfl | rfl
    · rw [List.filterMap_cons, numberOf_ok hline]
      exact List.nodup_singleton _
    · exact List.nodup_nil
  · obtain rfl := List.mem_singleton.mp (hnumbers hid')
    exact ⟨Finset.mem_insert_self _ _, hsent⟩
  · rcases harrives with rfl | rfl
    · cases List.mem_singleton.mp hmem
      cases hline.symm.trans henv
      rfl
    · cases hmem

theorem noise (h : s.Inv decode ask) {incoming : Incoming} (hnoise : Noise decode incoming) :
    Inv decode ask { s with
      guest := { s.guest with unread := s.guest.unread ++ [incoming] } } := by
  have hnone : [incoming].filterMap (numberOf decode) = [] := by
    rw [List.filterMap_cons, numberOf_noise hnoise]
    rfl
  refine h.feed (Finset.Subset.refl _) h.sent ?_ (fun id hid => ?_) fun line env hmem henv => ?_
  · rw [hnone]
    exact List.nodup_nil
  · rw [hnone] at hid
    cases hid
  · exact absurd henv (hnoise line env (List.mem_singleton.mp hmem).symm)

theorem guestStep (h : s.Inv decode ask) {guest : Executor.Connection} {out : List Envelope}
    (hturn : Executor.Turn decode s.guest guest) (hout : Wrote s.guest guest out) :
    Inv decode ask { s with guest, replies := s.replies ++ out } := by
  obtain ⟨incoming, hinv⟩ := h.guest
  have hsub := lines_sublist hturn
  have hasked : (asked decode guest).Sublist (asked decode s.guest) := hsub.filterMap _
  refine { h with
    guest := ⟨incoming, hinv.turn hturn⟩
    once := h.once.sublist hasked
    arrived := fun id hid => h.arrived id (hasked.subset hid)
    own := fun line env hline => h.own line env (hsub.subset hline)
    carried := fun id hid => ?_ }
  show _ ++ payloads id (s.replies ++ out) = _
  rw [payloads_append, ← List.append_assoc, h.carried id hid]
  exact (payloads_turn hturn hout (fun v hv => ((hinv.turn hturn).good v hv).soFar) h.once hid).symm

theorem reply (h : s.Inv decode ask) {env : Envelope} {rest : List Envelope} {line : String}
    {host : Conn} (hreplies : s.replies = env :: rest) (hline : decode line = .ok env)
    (hs : Transport.step decode s.host (.line line) = some host) :
    Inv decode ask { s with host, replies := rest } := by
  have hinv := h.host.step hs
  obtain ⟨hreading, rfl⟩ : s.host.reader = .reading ∧ s.host.deliver env = host := by
    rw [Transport.step, hline] at hs
    split at hs
    · next hr => exact ⟨hr, Option.some.inj hs⟩
    · cases hs
  have hfound : env.id ≠ 0 → env.id ∈ s.host.inflight := fun hid =>
    h.inflight_of_onTheWay hid (by simp [hreplies, payloads])
  have hphase : ∀ id, ((s.host.deliver env).calls id).phase = (s.host.calls id).phase := by
    intro id
    rw [deliver_calls]
    split
    · next heq => rw [heq]; rfl
    · rfl
  refine { h with
    host := hinv
    zero := (hphase 0).trans h.zero
    kept := fun id hreg hout => ?_
    dropped := fun id hr => ?_
    sent := fun id hid => ?_
    carried := fun id hid => ?_ }
  · have hkept := h.kept id (by rw [← hphase]; exact hreg) hout
    rw [deliver_calls]
    split
    · next heq =>
      obtain ⟨p, hp, hterm⟩ := hkept
      subst heq
      refine ⟨p, ?_, hterm⟩
      unfold Call.reply
      split
      · exact List.mem_append_left _ hp
      · exact hp
    · exact hkept
  · obtain ⟨-, rfl, hin⟩ := (deliver_reader s.host env id false).mp hr
    by_contra hid
    exact of_decide_eq_false hin (hfound hid)
  · show ((s.host.deliver env).calls id).phase.isRegistered = true
    rw [hphase]
    exact h.sent id hid
  · have hcarried := h.carried id hid
    rw [hreplies] at hcarried
    rw [deliver_calls]
    split
    · next heq =>
      subst heq
      rw [← hcarried]
      simp [Call.reply, hfound hid, payloads]
    · next heq =>
      rw [← hcarried]
      simp [payloads, Ne.symm heq]

theorem step (h : s.Inv decode ask) (hstep : s.Step decode ask s') : s'.Inv decode ask := by
  cases hstep with
  | host hs hline _ => exact h.hostStep hs hline
  | request hphase hsent hline harrives => exact h.request hphase hsent hline harrives
  | noise hnoise => exact h.noise hnoise
  | guest hturn hout => exact h.guestStep hturn hout
  | reply hreplies hline hs => exact h.reply hreplies hline hs

theorem start (registry : Executor.Registry) : (Link.start registry).Inv decode ask where
  host := inv_start
  first := Nat.one_ne_zero
  zero := rfl
  kept _ h := nomatch h
  dropped _ h := nomatch h
  guest := ⟨[], Executor.inv_start registry []⟩
  once := List.nodup_nil
  arrived _ h := nomatch h
  own _ _ h := nomatch h
  sent _ h := absurd h (Finset.notMem_empty _)
  carried _ _ := rfl

theorem decode_served (h : s.Inv decode ask) {v : Served} (hv : v ∈ s.guest.served)
    (hnum : numberOf decode (.ok v.line) = some id) : decode v.line = .ok ⟨id, ask id⟩ := by
  have hmem : .ok v.line ∈ lines s.guest := List.mem_append_left _ (List.mem_map.mpr ⟨v, hv, rfl⟩)
  cases hline : decode v.line with
  | error err => exact nomatch (numberOf_error hline).symm.trans hnum
  | ok env =>
    obtain rfl := Option.some.inj ((numberOf_ok hline).symm.trans hnum)
    rw [← h.own v.line env hmem hline]

theorem of_run {registry : Executor.Registry}
    (h : Relation.ReflTransGen (Link.Step decode ask) (.start registry) s) : s.Inv decode ask := by
  induction h with
  | refl => exact start registry
  | tail _ hstep ih => exact ih.step hstep

end Link.Inv

/-- **A call receives the answer to its own request.**  In every run of both ends, whatever the
order of their steps and whatever fails, what a call has received, with what is on its way to it,
is what the task of its request has written, in this order; and before its request is read it has
received nothing. -/
theorem answers_carried {decode : Decoder} {ask : ℕ → Payload} {registry : Executor.Registry}
    {s : Link} (h : Relation.ReflTransGen (Link.Step decode ask) (.start registry) s) {id : ℕ}
    (hid : id ≠ 0) :
    (∀ served ∈ s.guest.served, numberOf decode (.ok served.line) = some id →
      decode served.line = .ok ⟨id, ask id⟩ ∧ s.Carries decode id served) ∧
    ((∀ served ∈ s.guest.served, numberOf decode (.ok served.line) ≠ some id) →
      (s.host.calls id).received = [] ∧ payloads id s.replies = []) := by
  have hinv := Link.Inv.of_run h
  have hcarried := hinv.carried id hid
  refine ⟨fun v hv hnum => ⟨hinv.decode_served hv hnum, ?_, hinv.soFar v hv,
    fun hdone hlost hexited => ?_⟩, fun hno => ?_⟩
  · rw [hcarried, payloads_served hv hinv.soFar hinv.once hid hnum]
  · obtain ⟨incoming, hgood⟩ := hinv.guest
    exact (hgood.good v hv).answered_of_done hlost hexited hdone
  · refine List.append_eq_nil_iff.mp (hcarried.trans ?_)
    by_contra hne
    obtain ⟨v, hv, hnum⟩ := hinv.exists_served hid hne
    exact hno v hv hnum

def pingPong : Decoder := fun line => if line = "ping" then .ok ⟨1, .ping⟩ else pongLine line

/-- The first call is registered. -/
def pinging : Conn :=
  { (Conn.start.setPhase 1 .numbered).setPhase 1 .registered with nextId := 2, inflight := {1} }

/-- The executor has read the ping. -/
def pinged (sent : List Envelope) (left : Executor.Prog) : Executor.Connection :=
  ⟨[], [⟨"ping", sent, left⟩], ∅, false, false⟩

/-- The ping has been answered. -/
def ponged : Link :=
  ⟨pinging.deliver ⟨1, .pong "0.1.0" 2⟩, pinged [⟨1, .pong "0.1.0" 2⟩] .done, {1}, []⟩

theorem run_ponged :
    Relation.ReflTransGen (Link.Step pingPong fun _ => .ping) (.start ∅) ponged := by
  have hnumber : Link.Step pingPong (fun _ => .ping) (.start ∅)
      ⟨{ Conn.start.setPhase 1 .numbered with nextId := 2 }, .start ∅ [], ∅, []⟩ :=
    .host (a := .number) rfl nofun nofun
  have hregister : Link.Step pingPong (fun _ => .ping)
      ⟨{ Conn.start.setPhase 1 .numbered with nextId := 2 }, .start ∅ [], ∅, []⟩
      ⟨pinging, .start ∅ [], ∅, []⟩ :=
    .host (a := .register 1) rfl nofun nofun
  have hrequest : Link.Step pingPong (fun _ => .ping) ⟨pinging, .start ∅ [], ∅, []⟩
      ⟨pinging, .start ∅ [.ok "ping"], {1}, []⟩ :=
    .request rfl (Finset.notMem_empty 1) rfl (.inl rfl)
  have hread : Link.Step pingPong (fun _ => .ping) ⟨pinging, .start ∅ [.ok "ping"], {1}, []⟩
      ⟨pinging, pinged [] (Executor.pong 1), {1}, []⟩ :=
    .guest ⟨rfl, ∅, @Executor.Next.read _ _ ⟨1, .ping⟩ _ _ _ _ _ rfl⟩ (.refl [])
  have hsend : Link.Step pingPong (fun _ => .ping) ⟨pinging, pinged [] (Executor.pong 1), {1}, []⟩
      ⟨pinging, pinged [⟨1, .pong "0.1.0" 2⟩] .done, {1}, [⟨1, .pong "0.1.0" 2⟩]⟩ :=
    .guest ⟨rfl, ∅, @Executor.Next.send _ _ _ _ _ _ [] [] _ _ _⟩ (.refl [_])
  have hreply : Link.Step pingPong (fun _ => .ping)
      ⟨pinging, pinged [⟨1, .pong "0.1.0" 2⟩] .done, {1}, [⟨1, .pong "0.1.0" 2⟩]⟩
      ponged :=
    .reply rfl (show pingPong "pong" = _ from rfl) rfl
  exact (Relation.ReflTransGen.single hnumber).tail hregister |>.tail hrequest |>.tail hread
    |>.tail hsend |>.tail hreply

theorem answers_carried_ping :
    ponged.Carries pingPong 1 ⟨"ping", [⟨1, .pong "0.1.0" 2⟩], .done⟩ :=
  ((answers_carried run_ponged one_ne_zero).1 _ List.mem_cons_self rfl).2

end Mowis.Transport
