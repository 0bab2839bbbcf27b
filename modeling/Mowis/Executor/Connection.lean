import Mowis.Executor.Dispatch
import Mowis.Lib.Execution

/-!
# A connection to the executor

`handle_connection` of `mowis-executor/src/server.rs`: the lines of a connection are read one
after another, and every request is served by a task of its own.  The tasks of a connection,
and those of other connections, run in any order between each other.
-/

namespace Mowis.Executor

open Mowis.Lib

/-- An operation on a registry: what it gives back, and the registry after it.  Blocking calls
do not touch the registry; the entries are listed in the order of the map. -/
inductive Ran (r : Registry) : (o : Op) → o.Ret → Registry → Prop
  | get (key : String) : Ran r (.get key) (r.lookup key) r
  | containsKey (key : String) : Ran r (.containsKey key) (r.lookup key).isSome r
  | insert (key : String) (sb : Sandbox) : Ran r (.insert key sb) () (r.insert key sb)
  | remove (key : String) : Ran r (.remove key) (r.lookup key).isSome (r.erase key)
  | entries {listing : List (String × Sandbox)}
      (h : listing.Perm (r.entries.map fun e => (e.1, e.2))) : Ran r .entries listing r
  | len : Ran r .len r.entries.length r
  | create (requestedId imageRootfs : Option String) (limits : ResourceLimits)
      (result : Except String Sandbox) : Ran r (.create requestedId imageRootfs limits) result r
  | createAgentOverlay (parent : Sandbox) (agentId : String) (limits : ResourceLimits)
      (result : Except String Sandbox) : Ran r (.createAgentOverlay parent agentId limits) result r
  | mergeOverlay (parent overlay : Sandbox) (result : Except String (List String)) :
      Ran r (.mergeOverlay parent overlay) result r
  | invoke (sb : Sandbox) (tool : String) (input : Review.Json)
      (result : Except String Review.Json) : Ran r (.invoke sb tool input) result r
  | uploadCodebase (sb : Sandbox) (archiveB64 : String) (result : Except String ℕ) :
      Ran r (.uploadCodebase sb archiveB64) result r
  | runCommand (sb : Sandbox) (cmd : String) (args : List String) (env : List (String × String))
      (result : CommandResult) : Ran r (.runCommand sb cmd args env) result r
  | output (cmd : String) (args : List String) (env : List (String × String))
      (result : CommandResult) : Ran r (.output cmd args env) result r
  | interactiveStdin (running : Bool) : Ran r .interactiveStdin running r
  | interactiveWaiting (waiting : Bool) : Ran r .interactiveWaiting waiting r
  | interactivePrompt (prompt : String) : Ran r .interactivePrompt prompt r

theorem exists_ran (r : Registry) (o : Op) : ∃ ret r', Ran r o ret r' := by
  cases o with
  | get key => exact ⟨_, _, .get key⟩
  | containsKey key => exact ⟨_, _, .containsKey key⟩
  | insert key sb => exact ⟨_, _, .insert key sb⟩
  | remove key => exact ⟨_, _, .remove key⟩
  | entries => exact ⟨_, _, .entries (.refl _)⟩
  | len => exact ⟨_, _, .len⟩
  | create requestedId imageRootfs limits => exact ⟨_, _, .create _ _ _ (.error "")⟩
  | createAgentOverlay parent agentId limits =>
    exact ⟨_, _, .createAgentOverlay _ _ _ (.error "")⟩
  | mergeOverlay parent overlay => exact ⟨_, _, .mergeOverlay _ _ (.error "")⟩
  | invoke sb tool input => exact ⟨_, _, .invoke _ _ _ (.error "")⟩
  | uploadCodebase sb archiveB64 => exact ⟨_, _, .uploadCodebase _ _ (.error "")⟩
  | runCommand sb cmd args env => exact ⟨_, _, .runCommand _ _ _ _ (.error "")⟩
  | output cmd args env => exact ⟨_, _, .output _ _ _ (.error "")⟩
  | interactiveStdin => exact ⟨_, _, .interactiveStdin false⟩
  | interactiveWaiting => exact ⟨_, _, .interactiveWaiting false⟩
  | interactivePrompt => exact ⟨_, _, .interactivePrompt ""⟩

/-- A line that was read, what has been sent for it, and what is left of its task. -/
structure Served where
  line : String
  sent : List Envelope
  left : Prog

/-- What `read_line` gives: a line, or an error when the stream breaks or is not UTF-8. -/
abbrev Incoming := Except String String

structure Connection where
  unread : List Incoming
  served : List Served
  registry : Registry
  /-- A write has failed. -/
  lost : Bool
  /-- The process has ended. -/
  exited : Bool

def Connection.start (registry : Registry) (lines : List Incoming) : Connection :=
  ⟨lines, [], registry, false, false⟩

def malformed (e : String) : Envelope := ⟨0, .error e⟩

/-- What the connection does next. -/
inductive Next (decode : Decoder) : Connection → Connection → Prop
  | read {line : String} {env : Envelope} {unread : List Incoming} {served : List Served}
      {registry : Registry} {lost exited : Bool} (h : decode line = .ok env) :
      Next decode ⟨.ok line :: unread, served, registry, lost, exited⟩
        ⟨unread, served ++ [⟨line, [], dispatch env⟩], registry, lost, exited⟩
  | malformed {line e : String} {unread : List Incoming} {served : List Served}
      {registry : Registry} {lost exited : Bool} (h : decode line = .error e) :
      Next decode ⟨.ok line :: unread, served, registry, lost, exited⟩
        ⟨unread, served ++ [⟨line, [malformed e], .done⟩], registry, lost, exited⟩
  /-- When the error cannot be sent, nothing more is read. -/
  | malformedLost {line e : String} {unread : List Incoming} {served : List Served}
      {registry : Registry} {lost exited : Bool} (h : decode line = .error e) :
      Next decode ⟨.ok line :: unread, served, registry, lost, exited⟩
        ⟨[], served ++ [⟨line, [], .done⟩], registry, true, exited⟩
  | broken {e : String} {unread : List Incoming} {served : List Served} {registry : Registry}
      {lost exited : Bool} :
      Next decode ⟨.error e :: unread, served, registry, lost, exited⟩
        ⟨[], served, registry, lost, exited⟩
  | op {line : String} {sent : List Envelope} {o : Op} {next : o.Ret → Prog} {ret : o.Ret}
      {unread : List Incoming} {before after : List Served} {registry registry' : Registry}
      {lost exited : Bool} (h : Ran registry o ret registry') :
      Next decode ⟨unread, before ++ ⟨line, sent, .op o next⟩ :: after, registry, lost, exited⟩
        ⟨unread, before ++ ⟨line, sent, next ret⟩ :: after, registry', lost, exited⟩
  | send {line : String} {sent : List Envelope} {env : Envelope} {next : Prog}
      {unread : List Incoming} {before after : List Served} {registry : Registry}
      {lost exited : Bool} :
      Next decode ⟨unread, before ++ ⟨line, sent, .send env next⟩ :: after, registry, lost, exited⟩
        ⟨unread, before ++ ⟨line, sent ++ [env], next⟩ :: after, registry, lost, exited⟩
  /-- A task that cannot send ends. -/
  | sendLost {line : String} {sent : List Envelope} {env : Envelope} {next : Prog}
      {unread : List Incoming} {before after : List Served} {registry : Registry}
      {lost exited : Bool} :
      Next decode ⟨unread, before ++ ⟨line, sent, .send env next⟩ :: after, registry, lost, exited⟩
        ⟨unread, before ++ ⟨line, sent, .done⟩ :: after, registry, true, exited⟩
  | exit {line : String} {sent : List Envelope}
      {unread : List Incoming} {before after : List Served} {registry : Registry}
      {lost exited : Bool} :
      Next decode ⟨unread, before ++ ⟨line, sent, .exit⟩ :: after, registry, lost, exited⟩
        ⟨unread, before ++ ⟨line, sent, .done⟩ :: after, registry, lost, true⟩

/-- The next step of a process that runs, after what other connections did to the registry. -/
def Turn (decode : Decoder) (c c' : Connection) : Prop :=
  c.exited = false ∧ ∃ registry, Next decode { c with registry } c'

abbrev Run (decode : Decoder) : Connection → Connection → Prop := Relation.ReflTransGen (Turn decode)

def Final (decode : Decoder) (c : Connection) : Prop := ∀ c', ¬ Turn decode c c'

/-- One step of a task. -/
inductive Shorter : Prog → Prog → Prop
  | op {o : Op} {next : o.Ret → Prog} (ret : o.Ret) : Shorter (next ret) (.op o next)
  | send {env : Envelope} {next : Prog} : Shorter next (.send env next)
  | sendLost {env : Envelope} {next : Prog} : Shorter .done (.send env next)
  | exit : Shorter .done .exit

theorem shorter_wf : WellFounded Shorter := by
  have hdone : Acc Shorter .done := ⟨_, fun p h => by cases h⟩
  refine ⟨fun p => ?_⟩
  induction p with
  | done => exact hdone
  | exit => exact ⟨_, fun p h => by cases h; exact hdone⟩
  | send env next ih =>
    refine ⟨_, fun p h => ?_⟩
    cases h with
    | send => exact ih
    | sendLost => exact hdone
  | op o next ih =>
    refine ⟨_, fun p h => ?_⟩
    cases h with
    | op ret => exact ih ret

def Connection.work (c : Connection) : ℕ × Multiset Prog :=
  (c.unread.length, (c.served.map Served.left : List Prog))

/-- Every step lowers the work: a line is read, or one task gets shorter. -/
def Less : ℕ × Multiset Prog → ℕ × Multiset Prog → Prop :=
  Prod.Lex (· < ·) (Relation.CutExpand Shorter)

theorem less_wf : WellFounded Less := wellFounded_lt.prod_lex shorter_wf.cutExpand

theorem cutExpand_replace {p p' : Prog} (h : Shorter p' p) (before after : List Served)
    (line : String) (sent sent' : List Envelope) :
    Relation.CutExpand Shorter
      ((before ++ ⟨line, sent', p'⟩ :: after).map Served.left : List Prog)
      ((before ++ ⟨line, sent, p⟩ :: after).map Served.left : List Prog) := by
  have hsplit : ∀ (q : Prog) (sent : List Envelope),
      ((before ++ ⟨line, sent, q⟩ :: after).map Served.left : Multiset Prog) =
        (before.map Served.left ++ after.map Served.left : List Prog) + {q} := by
    intro q sent
    rw [List.map_append, List.map_cons, ← Multiset.coe_singleton, Multiset.coe_add,
      Multiset.coe_eq_coe]
    refine List.perm_middle.trans ?_
    exact (List.perm_append_singleton _ _).symm
  rw [hsplit, hsplit]
  exact Relation.cutExpand_add_single _ h

variable {decode : Decoder}

theorem Turn.less {c c' : Connection} (h : Turn decode c c') : Less c'.work c.work := by
  obtain ⟨-, registry, h⟩ := h
  obtain ⟨unread, served, _, lost, exited⟩ := c
  cases h with
  | read h => exact .left _ _ (Nat.lt_succ_self _)
  | malformed h => exact .left _ _ (Nat.lt_succ_self _)
  | malformedLost h => exact .left _ _ (Nat.succ_pos _)
  | broken => exact .left _ _ (Nat.succ_pos _)
  | op h => exact .right _ (cutExpand_replace (.op _) _ _ _ _ _)
  | send => exact .right _ (cutExpand_replace .send _ _ _ _ _)
  | sendLost => exact .right _ (cutExpand_replace .sendLost _ _ _ _ _)
  | exit => exact .right _ (cutExpand_replace .exit _ _ _ _ _)

/-- **Every run comes to an end.** -/
theorem run_ends (c : Connection) : Acc (fun c' c => Turn decode c c') c := by
  have h : Acc (InvImage Less Connection.work) c := (InvImage.wf _ less_wf).apply c
  induction h with
  | intro c _ ih => exact ⟨c, fun c' hturn => ih c' hturn.less⟩

/-! ### Answers -/

/-- A part of an answer that is not its end. -/
structure IsChunk (id : ℕ) (e : Envelope) : Prop where
  id : e.id = id
  chunk : e.payload.isChunk = true
  open_ : e.payload.isTerminal = false

/-- A whole answer: chunks, and one payload that ends it, all with the id of the request. -/
def IsAnswer (id : ℕ) (sent : List Envelope) : Prop :=
  ∃ chunks last, sent = chunks ++ [last] ∧ (∀ e ∈ chunks, IsChunk id e) ∧
    last.id = id ∧ last.payload.isTerminal = true

/-- What is to be sent for a line. -/
structure Answered (decode : Decoder) (line : String) (sent : List Envelope) : Prop where
  malformed : ∀ e, decode line = .error e → sent = [malformed e]
  request : ∀ env, decode line = .ok env → env.payload.isRequest = true → IsAnswer env.id sent
  other : ∀ env, decode line = .ok env → env.payload.isRequest = false → sent = []

/-- What may have been sent for a line at any moment. -/
structure AnsweredSoFar (decode : Decoder) (line : String) (sent : List Envelope) : Prop where
  malformed : ∀ e, decode line = .error e → sent = [] ∨ sent = [malformed e]
  request : ∀ env, decode line = .ok env → env.payload.isRequest = true →
    (∀ e ∈ sent, IsChunk env.id e) ∨ IsAnswer env.id sent
  other : ∀ env, decode line = .ok env → env.payload.isRequest = false → sent = []

theorem Payload.isTerminal_of_isChunk {p : Payload} (h : p.isChunk = true) :
    p.isTerminal = false := by
  cases p <;> first | rfl | cases h

/-- What holds of a line that was read. -/
inductive Good (decode : Decoder) (lost exited : Bool) : Served → Prop
  | refused {line e : String} (h : decode line = .error e) :
      Good decode lost exited ⟨line, [malformed e], .done⟩
  | refusedLost {line e : String} (h : decode line = .error e) (hlost : lost = true) :
      Good decode lost exited ⟨line, [], .done⟩
  | ignored {line : String} {env : Envelope} (h : decode line = .ok env)
      (hreq : env.payload.isRequest = false) : Good decode lost exited ⟨line, [], .done⟩
  | begun {line : String} {env : Envelope} {sent : List Envelope} {left : Prog}
      (h : decode line = .ok env) (hreq : env.payload.isRequest = true)
      (hsent : ∀ e ∈ sent, IsChunk env.id e)
      (hleft : Answers env.id (afterAnswer env.payload) left) :
      Good decode lost exited ⟨line, sent, left⟩
  | answered {line : String} {env : Envelope} {sent : List Envelope} (h : decode line = .ok env)
      (hreq : env.payload.isRequest = true) (hsent : IsAnswer env.id sent) :
      Good decode lost exited ⟨line, sent, afterAnswer env.payload⟩
  | stopped {line : String} {env : Envelope} {sent : List Envelope} (h : decode line = .ok env)
      (hreq : env.payload.isRequest = true) (hsent : ∀ e ∈ sent, IsChunk env.id e)
      (hlost : lost = true) : Good decode lost exited ⟨line, sent, .done⟩
  | ended {line : String} {env : Envelope} {sent : List Envelope} (h : decode line = .ok env)
      (hreq : env.payload.isRequest = true) (hsent : IsAnswer env.id sent)
      (hexited : exited = true) : Good decode lost exited ⟨line, sent, .done⟩

namespace Good

variable {lost exited : Bool} {line : String} {sent : List Envelope}

theorem mono {lost' exited' : Bool} (hlost : lost = true → lost' = true)
    (hexited : exited = true → exited' = true) {s : Served} (h : Good decode lost exited s) :
    Good decode lost' exited' s := by
  cases h with
  | refused h => exact .refused h
  | refusedLost h hl => exact .refusedLost h (hlost hl)
  | ignored h hreq => exact .ignored h hreq
  | begun h hreq hsent hleft => exact .begun h hreq hsent hleft
  | answered h hreq hsent => exact .answered h hreq hsent
  | stopped h hreq hsent hl => exact .stopped h hreq hsent (hlost hl)
  | ended h hreq hsent he => exact .ended h hreq hsent (hexited he)

theorem read {env : Envelope} (h : decode line = .ok env) :
    Good decode lost exited ⟨line, [], dispatch env⟩ := by
  by_cases hreq : env.payload.isRequest = true
  · exact .begun h hreq (by simp) (answers_dispatch hreq)
  · rw [Bool.not_eq_true] at hreq
    rw [dispatch_of_not_request hreq]
    exact .ignored h hreq

theorem afterAnswer_cases (p : Payload) :
    afterAnswer p = .done ∨ afterAnswer p = .exit ∧ p = .shutdown := by
  cases p <;> first | exact .inl rfl | exact .inr ⟨rfl, rfl⟩

theorem open_of_left {left : Prog} (h : Good decode lost exited ⟨line, sent, left⟩)
    (hdone : left ≠ .done) (hexit : left ≠ .exit) :
    ∃ env, decode line = .ok env ∧ env.payload.isRequest = true ∧
      (∀ e ∈ sent, IsChunk env.id e) ∧ Answers env.id (afterAnswer env.payload) left := by
  cases h with
  | refused | refusedLost | ignored | stopped | ended => exact absurd rfl hdone
  | begun h hreq hsent hleft => exact ⟨_, h, hreq, hsent, hleft⟩
  | @answered _ env =>
    rcases afterAnswer_cases env.payload with hfin | ⟨hfin, -⟩
    · exact absurd hfin hdone
    · exact absurd hfin hexit

theorem op {o : Op} {next : o.Ret → Prog} (h : Good decode lost exited ⟨line, sent, .op o next⟩)
    (ret : o.Ret) : Good decode lost exited ⟨line, sent, next ret⟩ := by
  obtain ⟨env, hline, hreq, hsent, hleft⟩ := h.open_of_left (by simp) (by simp)
  cases hleft with
  | op hnext => exact .begun hline hreq hsent (hnext ret)

theorem send {e : Envelope} {next : Prog}
    (h : Good decode lost exited ⟨line, sent, .send e next⟩) :
    Good decode lost exited ⟨line, sent ++ [e], next⟩ := by
  obtain ⟨env, hline, hreq, hsent, hleft⟩ := h.open_of_left (by simp) (by simp)
  cases hleft with
  | last hp => exact .answered hline hreq ⟨sent, _, rfl, hsent, rfl, hp⟩
  | chunk hp hnext =>
    refine .begun hline hreq (fun e he => ?_) hnext
    rcases List.mem_append.mp he with he | he
    · exact hsent e he
    · obtain rfl := List.mem_singleton.mp he
      exact ⟨rfl, hp, Payload.isTerminal_of_isChunk hp⟩

theorem sendLost {e : Envelope} {next : Prog}
    (h : Good decode lost exited ⟨line, sent, .send e next⟩) :
    Good decode true exited ⟨line, sent, .done⟩ := by
  obtain ⟨env, hline, hreq, hsent, -⟩ := h.open_of_left (by simp) (by simp)
  exact .stopped hline hreq hsent rfl

theorem exit {left : Prog} (h : Good decode lost exited ⟨line, sent, left⟩) (hexit : left = .exit) :
    ∃ env, decode line = .ok env ∧ env.payload = .shutdown ∧ IsAnswer env.id sent := by
  cases h with
  | refused | refusedLost | ignored | stopped | ended => cases hexit
  | begun h hreq hsent hleft =>
    subst hexit
    cases hleft
  | @answered _ env _ h hreq hsent =>
    rcases afterAnswer_cases env.payload with hfin | ⟨-, hshutdown⟩
    · rw [hfin] at hexit
      cases hexit
    · exact ⟨env, h, hshutdown, hsent⟩

theorem soFar {s : Served} (h : Good decode lost exited s) :
    AnsweredSoFar decode s.line s.sent := by
  -- what the line decodes to is one thing only
  cases h with
  | refused h | refusedLost h _ =>
    refine ⟨fun e he => ?_, fun env henv => ?_, fun env henv => ?_⟩
    · rw [h] at he
      cases he
      simp
    all_goals
      rw [h] at henv
      cases henv
  | ignored h hreq =>
    refine ⟨fun e he => ?_, fun env henv hr => ?_, fun _ _ _ => rfl⟩
    · exact .inl rfl
    · rw [h] at henv
      cases henv
      rw [hreq] at hr
      cases hr
  | begun h hreq hsent _ | stopped h hreq hsent _ =>
    refine ⟨fun e he => ?_, fun env henv _ => ?_, fun env henv hr => ?_⟩
    · rw [h] at he
      cases he
    all_goals
      rw [h] at henv
      cases henv
    · exact .inl hsent
    · rw [hreq] at hr
      cases hr
  | answered h hreq hsent | ended h hreq hsent _ =>
    refine ⟨fun e he => ?_, fun env henv _ => ?_, fun env henv hr => ?_⟩
    · rw [h] at he
      cases he
    all_goals
      rw [h] at henv
      cases henv
    · exact .inr hsent
    · rw [hreq] at hr
      cases hr

theorem answered_of_done {left : Prog} (h : Good decode lost exited ⟨line, sent, left⟩)
    (hl : lost = false) (he : exited = false) (hleft : left = .done) :
    Answered decode line sent := by
  cases h with
  | refused h =>
    refine ⟨fun e he => ?_, fun env henv => ?_, fun env henv => ?_⟩
    · rw [h] at he
      cases he
      rfl
    all_goals
      rw [h] at henv
      cases henv
  | refusedLost _ hlost | stopped _ _ _ hlost => cases hl.symm.trans hlost
  | ended _ _ _ hexited => cases he.symm.trans hexited
  | begun _ _ _ hanswers =>
    subst hleft
    cases hanswers
  | ignored h hreq =>
    refine ⟨fun e he => ?_, fun env henv hr => ?_, fun _ _ _ => rfl⟩
    · rw [h] at he
      cases he
    · rw [h] at henv
      cases henv
      rw [hreq] at hr
      cases hr
  | answered h hreq hsent =>
    refine ⟨fun e he => ?_, fun env henv _ => ?_, fun env henv hr => ?_⟩
    · rw [h] at he
      cases he
    all_goals
      rw [h] at henv
      cases henv
    · exact hsent
    · rw [hreq] at hr
      cases hr

end Good

def readable : List Incoming → List String
  | .ok line :: rest => line :: readable rest
  | _ => []

/-- What every run keeps. -/
structure Inv (decode : Decoder) (lines : List Incoming) (c : Connection) : Prop where
  good : ∀ s ∈ c.served, Good decode c.lost c.exited s
  lines : c.lost = false → readable lines = c.served.map Served.line ++ readable c.unread
  exited : c.exited = true →
    ∃ line ∈ c.served.map Served.line, ∃ id, decode line = .ok ⟨id, .shutdown⟩

theorem inv_start (registry : Registry) (lines : List Incoming) :
    Inv decode lines (.start registry lines) where
  good := by simp [Connection.start]
  lines := fun _ => rfl
  exited := fun h => by cases h

theorem map_line_replace (before after : List Served) (line : String) (sent sent' : List Envelope)
    (left left' : Prog) :
    (before ++ ⟨line, sent', left'⟩ :: after).map Served.line =
      (before ++ ⟨line, sent, left⟩ :: after).map Served.line := by
  rw [List.map_append, List.map_append, List.map_cons, List.map_cons]

theorem good_replace {lost exited lost' exited' : Bool} {before after : List Served} {s s' : Served}
    (h : ∀ t ∈ before ++ s :: after, Good decode lost exited t)
    (hlost : lost = true → lost' = true) (hexited : exited = true → exited' = true)
    (hs : Good decode lost' exited' s') :
    ∀ t ∈ before ++ s' :: after, Good decode lost' exited' t :=
  forall_mem_replace h (fun _ hgood => hgood.mono hlost hexited) hs

theorem good_push {lost exited lost' : Bool} {served : List Served} {s : Served}
    (h : ∀ t ∈ served, Good decode lost exited t) (hlost : lost = true → lost' = true)
    (hs : Good decode lost' exited s) : ∀ t ∈ served ++ [s], Good decode lost' exited t := by
  intro t ht
  rcases List.mem_append.mp ht with ht | ht
  · exact (h t ht).mono hlost id
  · obtain rfl := List.mem_singleton.mp ht
    exact hs

theorem Inv.turn {lines : List Incoming} {c c' : Connection} (h : Inv decode lines c)
    (hturn : Turn decode c c') : Inv decode lines c' := by
  obtain ⟨hrunning, registry, hturn⟩ := hturn
  obtain ⟨unread, served, _, lost, exited⟩ := c
  obtain ⟨hgood, hlines, -⟩ := h
  subst hrunning
  have hmid : ∀ {before after : List Served} {s : Served},
      s ∈ before ++ s :: after := by simp
  have hlines_replace : ∀ {before after : List Served} {line : String} {sent sent' : List Envelope}
      {left left' : Prog} (rest : List String),
      (before ++ ⟨line, sent, left⟩ :: after).map Served.line ++ rest =
        (before ++ ⟨line, sent', left'⟩ :: after).map Served.line ++ rest := by
    intro before after line sent sent' left left' rest
    rw [map_line_replace]
  cases hturn with
  | read hline =>
    refine ⟨good_push hgood id (.read hline), fun hlost => ?_, fun he => nomatch he⟩
    rw [hlines hlost, List.map_append, List.append_assoc]
    rfl
  | malformed hline =>
    refine ⟨good_push hgood id (.refused hline), fun hlost => ?_, fun he => nomatch he⟩
    rw [hlines hlost, List.map_append, List.append_assoc]
    rfl
  | malformedLost hline =>
    exact ⟨good_push hgood (fun _ => rfl) (.refusedLost hline rfl), (fun hlost => nomatch hlost),
      fun he => nomatch he⟩
  | broken => exact ⟨hgood, hlines, fun he => nomatch he⟩
  | op hran =>
    exact ⟨good_replace hgood id id ((hgood _ hmid).op _),
      fun hlost => (hlines hlost).trans (hlines_replace _), fun he => nomatch he⟩
  | send =>
    exact ⟨good_replace hgood id id (hgood _ hmid).send,
      fun hlost => (hlines hlost).trans (hlines_replace _), fun he => nomatch he⟩
  | sendLost =>
    exact ⟨good_replace hgood (fun _ => rfl) id (hgood _ hmid).sendLost, (fun hlost => nomatch hlost),
      fun he => nomatch he⟩
  | @exit line sent unread before after =>
    obtain ⟨env, hline, hshutdown, hsent⟩ := (hgood _ hmid).exit rfl
    have hreq : env.payload.isRequest = true := by rw [hshutdown]; rfl
    refine ⟨good_replace hgood id (fun _ => rfl) (.ended hline hreq hsent rfl),
      fun hlost => (hlines hlost).trans (hlines_replace _), fun _ => ⟨line, ?_, env.id, ?_⟩⟩
    · simp
    · rw [hline, ← hshutdown]

theorem Inv.run {lines : List Incoming} {c c' : Connection} (h : Inv decode lines c)
    (hrun : Run decode c c') : Inv decode lines c' := by
  induction hrun with
  | refl => exact h
  | tail _ hturn ih => exact ih.turn hturn

theorem final_done {c : Connection} (h : Final decode c) (hrunning : c.exited = false) :
    c.unread = [] ∧ ∀ s ∈ c.served, s.left = .done := by
  obtain ⟨unread, served, registry, lost, exited⟩ := c
  subst hrunning
  constructor
  · cases unread with
    | nil => rfl
    | cons line unread =>
      cases line with
      | error e => exact absurd ⟨rfl, registry, .broken⟩ (h _)
      | ok line =>
        cases hline : decode line with
        | error e => exact absurd ⟨rfl, registry, .malformed hline⟩ (h _)
        | ok env => exact absurd ⟨rfl, registry, .read hline⟩ (h _)
  · intro s hs
    obtain ⟨before, after, rfl⟩ := List.append_of_mem hs
    obtain ⟨line, sent, left⟩ := s
    cases left with
    | done => rfl
    | exit => exact absurd ⟨rfl, registry, .exit⟩ (h _)
    | send env next => exact absurd ⟨rfl, registry, .send⟩ (h _)
    | op o next =>
      obtain ⟨ret, registry', hran⟩ := exists_ran registry o
      exact absurd ⟨rfl, registry, .op hran⟩ (h _)

/-- **Every line is answered.**  Every run comes to an end.  What has been sent for a line is
at every moment the beginning of its answer, or all of it.  At the end, unless a write failed
or a request has shut the process down, every line up to the first one that cannot be read has
got its whole answer. -/
theorem lines_answered (decode : Decoder) (registry : Registry) (lines : List Incoming) :
    Acc (fun c' c => Turn decode c c') (.start registry lines) ∧
      ∀ c, Run decode (.start registry lines) c →
        (∀ s ∈ c.served, AnsweredSoFar decode s.line s.sent) ∧
        (c.exited = true →
          ∃ line ∈ c.served.map Served.line, ∃ id, decode line = .ok ⟨id, .shutdown⟩) ∧
        (Final decode c → c.exited = false → c.lost = false →
          c.served.map Served.line = readable lines ∧
            ∀ s ∈ c.served, Answered decode s.line s.sent) := by
  refine ⟨run_ends _, fun c hrun => ?_⟩
  have hinv := (inv_start registry lines).run hrun
  refine ⟨fun s hs => (hinv.good s hs).soFar, hinv.exited, fun hfinal hrunning hkept => ?_⟩
  obtain ⟨hunread, hdone⟩ := final_done hfinal hrunning
  constructor
  · rw [hinv.lines hkept, hunread]
    exact (List.append_nil _).symm
  · intro s hs
    exact (hinv.good s hs).answered_of_done hkept hrunning (hdone s hs)

theorem final_of_exited {c : Connection} (h : c.exited = true) : Final decode c := by
  intro c' hturn
  exact Bool.noConfusion (h.symm.trans hturn.1)

theorem final_of_done {c : Connection} (hunread : c.unread = [])
    (hdone : ∀ s ∈ c.served, s.left = .done) : Final decode c := by
  intro c' hturn
  obtain ⟨-, registry, hturn⟩ := hturn
  obtain ⟨unread, served, _, lost, exited⟩ := c
  have hmid : ∀ {before after : List Served} {s : Served},
      s ∈ before ++ s :: after := by simp
  cases hturn with
  | read | malformed | malformedLost | broken => cases hunread
  | op | send | sendLost | exit => cases hdone _ hmid

def pingOrShutdown : Decoder := fun line =>
  if line = "ping" then .ok ⟨1, .ping⟩
  else if line = "shutdown" then .ok ⟨2, .shutdown⟩
  else .error "decode: expected value at line 1 column 1"

theorem ping_unanswered : ¬ Answered pingOrShutdown "ping" [] := by
  intro h
  obtain ⟨chunks, last, hsent, -⟩ := h.request ⟨1, .ping⟩ rfl rfl
  exact List.append_ne_nil_of_right_ne_nil chunks (List.cons_ne_nil last []) hsent.symm

/-- Not every line gets its answer: not when a request to shut down overtakes another one, not
when a write fails, and not when the stream has bytes that are no text. -/
theorem answers_missing :
    (∃ c, Run pingOrShutdown (.start ∅ [.ok "ping", .ok "shutdown"]) c ∧
      Final pingOrShutdown c ∧ c.lost = false ∧
        ∃ s ∈ c.served, ¬ Answered pingOrShutdown s.line s.sent) ∧
    (∃ c, Run pingOrShutdown (.start ∅ [.ok "ping"]) c ∧
      Final pingOrShutdown c ∧ c.exited = false ∧
        ∃ s ∈ c.served, ¬ Answered pingOrShutdown s.line s.sent) ∧
    ∃ c, Run pingOrShutdown (.start ∅ [.error "stream did not contain valid UTF-8", .ok "ping"]) c ∧
      Final pingOrShutdown c ∧ c.lost = false ∧ c.exited = false ∧ c.served = [] := by
  have hping : pingOrShutdown "ping" = .ok ⟨1, .ping⟩ := rfl
  have hshutdown : pingOrShutdown "shutdown" = .ok ⟨2, .shutdown⟩ := rfl
  refine ⟨⟨⟨[], [⟨"ping", [], pong 1⟩, ⟨"shutdown", [⟨2, .exitCode 0⟩], .done⟩], ∅, false, true⟩,
      ?_, final_of_exited rfl, rfl, _, List.mem_cons_self, ping_unanswered⟩,
    ⟨⟨[], [⟨"ping", [], .done⟩], ∅, true, false⟩, ?_, final_of_done rfl (by simp), rfl, _,
      List.mem_cons_self, ping_unanswered⟩,
    ⟨⟨[], [], ∅, false, false⟩, ?_, final_of_done rfl (by simp), rfl, rfl, rfl⟩⟩
  · have hread : Turn pingOrShutdown (.start ∅ [.ok "ping", .ok "shutdown"]) _ := ⟨rfl, ∅, .read hping⟩
    refine ((Relation.ReflTransGen.single hread).tail ⟨rfl, ∅, .read hshutdown⟩).trans ?_
    -- the answer to the second request is sent, and ends the process
    exact (Relation.ReflTransGen.single ⟨rfl, ∅, @Next.send _ _ _ _ _ _ [_] [] _ _ _⟩).tail
      ⟨rfl, ∅, @Next.exit _ _ _ _ [_] [] _ _ _⟩
  · have hread : Turn pingOrShutdown (.start ∅ [.ok "ping"]) _ := ⟨rfl, ∅, .read hping⟩
    exact (Relation.ReflTransGen.single hread).tail ⟨rfl, ∅, @Next.sendLost _ _ _ _ _ _ [] [] _ _ _⟩
  · exact .single ⟨rfl, ∅, .broken⟩

end Mowis.Executor
