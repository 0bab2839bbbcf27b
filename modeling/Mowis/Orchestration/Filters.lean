import Mowis.Lib.History
import Mowis.Orchestration.RoundBudget
import Mowis.Transport.Jail

/-!
# What a crew is told about its calls

`Crew::run` blocks a call without making it: a write or a read of a path that it entered as
written, and a call with the name and the argument hash of one that it made.
-/

namespace Mowis.Orchestration

open Mowis.Lib
open Mowis.Lib.UnixPath (RawPath ofString)
open Mowis.Transport (resolvePath)
open Mowis.Review (Json)

inductive Handling where
  | denied
  | alreadyWrote
  | readBack
  | repeated
  | invoked
  deriving DecidableEq

namespace Crew

variable (crew : Crew) (script : Script)

/-- The branch of `handleCall` that a call takes. -/
def handling (st : CrewState) (tc : ToolCall) : Handling :=
  if crew.allows tc.name = false then .denied
  else if (rejectedWrite st tc).isSome then .alreadyWrote
  else if (rejectedRead (recordWrite st tc) tc).isSome then .readBack
  else if ((recordWrite st tc).recentCalls.lookup (crew.callKey tc)).isSome then .repeated
  else .invoked

/-- A call of a reply with the answer of the tool, if it was asked. -/
structure Event where
  asked : Asked
  handling : Handling

/-- The loop over the tool calls of a reply, as `handleCalls`; newest first. -/
def logFrom : ℕ → List ToolCall → CrewState → List Event → List Event
  | _, [], _, log => log
  | index, tc :: rest, st, log =>
    logFrom (index + 1) rest (crew.handleCall script index tc st).1
      (⟨(tc, script.result st.turn index), crew.handling st tc⟩ :: log)

def turnLog (st : CrewState) (log : List Event) : List Event :=
  match crew.turn script st with
  | .returned _ _ => log
  | .running _ =>
    match script.reply st.turn with
    | .error _ => log
    | .ok round =>
      crew.logFrom script 0 round.toolCalls
        { st.act (.llm .round st.conversation) with
          totalInputTokens := st.totalInputTokens + round.usage.inputTokens } log

/-- The calls handled in the first `n` turns. -/
def log : ℕ → List Event
  | 0 => []
  | n + 1 =>
    match crew.run script n with
    | .running st => crew.turnLog script st (log n)
    | .returned _ _ => log n

end Crew

/-- `ToolOutcome::from` is `Ok`. -/
def succeeded (result : Except String Json) : Prop :=
  (resultJson result).getStr "error".toList = none

/-- Where the calls are carried out: the work directory; whether a call, made after others, changes
the state, with the input that is sent to it; and whether a file is altered from a call on up to
the next one, by the call or by anything else. -/
structure Workplace where
  workDir : RawPath
  changes : List Crew.Asked → Crew.Asked → Prop
  alters : RawPath → List Crew.Asked → Crew.Asked → Prop

def Workplace.resolve (w : Workplace) (path : Text) : RawPath :=
  resolvePath (ofString (String.ofList path)) w.workDir

def Workplace.Stores (w : Workplace) (file : RawPath) (a : Crew.Asked) : Prop :=
  a.1.name = "write_file" ∧ (∃ path, a.1.path = some path ∧ w.resolve path = file) ∧
    succeeded a.2

def ToolCall.Same (tc tc' : ToolCall) : Prop := tc.name = tc'.name ∧ tc.args = tc'.args

namespace Crew

section Promise

variable (w : Workplace)

def Stored (file : RawPath) (_ : List Event) (e : Event) : Prop :=
  e.handling = .invoked ∧ w.Stores file e.asked

def Altered (file : RawPath) (before : List Event) (e : Event) : Prop :=
  w.alters file (before.map Event.asked) e.asked

def Changed (before : List Event) (e : Event) : Prop :=
  e.handling = .invoked ∧ w.changes (before.map Event.asked) e.asked

/-- Blocked writes were written; blocked reads were written and have not been altered since;
repeated calls were made with the same arguments and nothing has changed since; and no file is
written twice. -/
def Truthful (before : List Event) (e : Event) : Prop :=
  match e.handling with
  | .denied => True
  | .alreadyWrote =>
    ∃ path, e.asked.1.path = some path ∧ Ever (Stored w (w.resolve path)) before
  | .readBack =>
    ∃ path, e.asked.1.path = some path ∧
      Since (Altered w (w.resolve path)) (Stored w (w.resolve path)) before
  | .repeated =>
    Since (Changed w) (fun _ e' => e'.handling = .invoked ∧ e'.asked.1.Same e.asked.1) before
  | .invoked => ∀ file, w.Stores file e.asked → ¬ Ever (Stored w file) before

end Promise

section Condition

variable (crew : Crew) (w : Workplace)

/-- A call that is allowed, does not write or read a path that an earlier call writes in the same
spelling, and was not asked for before. -/
def Fresh (earlier : List Asked) (tc : ToolCall) : Prop :=
  crew.allows tc.name = true ∧ crew.refused earlier tc = false ∧
    ∀ a ∈ earlier, ¬ a.1.Same tc

/-- A call of the replies, after the earlier ones.
* A path is written again in the same spelling only after a successful write to the file.
* It is read only if moreover the file was not altered since.
* A call with the name and hash of an earlier one has its arguments, and nothing changed since.
* A write in a new spelling to a file that was written does not succeed. -/
structure CallOk (earlier : List Asked) (a : Asked) : Prop where
  write : ∀ path, crew.allows a.1.name = true → a.1.name = "write_file" →
    a.1.path = some path → crew.wrote earlier path = true →
    Ever (fun before b => crew.Fresh before b.1 ∧ w.Stores (w.resolve path) b) earlier
  read : ∀ path, crew.allows a.1.name = true → a.1.name = "read_file" →
    a.1.path = some path → crew.wrote earlier path = true →
    Since (w.alters (w.resolve path))
      (fun before b => crew.Fresh before b.1 ∧ w.Stores (w.resolve path) b) earlier
  repetition : crew.allows a.1.name = true → crew.refused earlier a.1 = false →
    Ever (fun before b => crew.Fresh before b.1 ∧ crew.callKey b.1 = crew.callKey a.1) earlier →
    Since (fun before b => crew.Fresh before b.1 ∧ w.changes before b)
      (fun before b => crew.Fresh before b.1 ∧ b.1.Same a.1) earlier
  spelling : ∀ file, crew.Fresh earlier a.1 → w.Stores file a →
    ¬ Ever (fun before b => crew.Fresh before b.1 ∧ w.Stores file b) earlier

end Condition

section Replies

variable (crew : Crew) (script : Script)

def handlingOf (earlier : List Asked) (tc : ToolCall) : Handling :=
  if crew.allows tc.name = false then .denied
  else if crew.refused earlier tc then
    if tc.name = "write_file" then .alreadyWrote else .readBack
  else if crew.repeats (crew.callKey tc) earlier then .repeated
  else .invoked

def note (earlier : List Asked) (a : Asked) : Event := ⟨a, crew.handlingOf earlier a.1⟩

end Replies

variable {crew : Crew} {script : Script} {rounds : ℕ} {earlier : List Asked} {st : CrewState}

theorem Tracks.handling (h : Tracks crew rounds earlier st) (tc : ToolCall) :
    crew.handling st tc = crew.handlingOf earlier tc := by
  have hrefused : crew.refused earlier tc =
      ((rejectedWrite st tc).isSome || (rejectedRead (recordWrite st tc) tc).isSome) := h.refused
  have hrecent : (recordWrite st tc).recentCalls = st.recentCalls := by rw [recordWrite_eq]
  rw [Crew.handling, handlingOf, hrecent, h.recent, hrefused]
  by_cases hallowed : crew.allows tc.name = false
  · rw [if_pos hallowed, if_pos hallowed]
  · rw [if_neg hallowed, if_neg hallowed]
    by_cases hname : tc.name = "write_file"
    · have hread : rejectedRead (recordWrite st tc) tc = none := by
        simp [rejectedRead, hname]
      rw [hread, if_pos hname]
      simp
    · have hwrite : rejectedWrite st tc = none := by simp [rejectedWrite, hname]
      rw [hwrite, if_neg hname]
      simp

theorem Tracks.logFrom (calls : List ToolCall) (index : ℕ) (h : Tracks crew rounds earlier st) :
    crew.logFrom script index calls st (annotate crew.note earlier) =
      annotate crew.note (script.askedFrom st.turn index calls earlier) := by
  induction calls generalizing index earlier st with
  | nil => rfl
  | cons tc rest ih =>
    have hturn : (crew.handleCall script index tc st).1.turn = st.turn :=
      (handleCall_frame index tc st).1
    have hrest := ih (index + 1) (@Tracks.handleCall crew script _ _ _ h index tc)
    rw [hturn, annotate, note] at hrest
    rw [Crew.logFrom, h.handling, hrest]
    rfl

theorem Turn.turnLog {t : ℕ} (h : Turn crew script t st) :
    (crew.Stops script t → crew.turnLog script st (annotate crew.note (script.asked t)) =
      annotate crew.note (script.asked t)) ∧
    (¬ crew.Stops script t → crew.turnLog script st (annotate crew.note (script.asked t)) =
      annotate crew.note (script.asked (t + 1))) := by
  constructor
  · intro hstop
    obtain ⟨outcome, actions, hturn, -⟩ := h.step.1 hstop
    rw [Crew.turnLog, hturn]
  · intro hgo
    obtain ⟨st', hturn, -⟩ := h.step.2 hgo
    rw [Crew.turnLog, hturn, Script.asked, Script.toolCalls, h.turn]
    cases script.reply t with
    | error e => rfl
    | ok round =>
      have htracks := h.tracks.openRound (st.totalInputTokens + round.usage.inputTokens)
      have hlog := @Tracks.logFrom crew script _ _ _ round.toolCalls 0 htracks
      have hact : (st.act (.llm .round st.conversation)).turn = t := h.turn
      rwa [hact] at hlog

theorem log_eq (n : ℕ) (h : ∀ j < n, ¬ crew.Stops script j) :
    crew.log script n = annotate crew.note (script.asked n) := by
  induction n with
  | zero => rfl
  | succ n ih =>
    obtain ⟨st, hrun, hturn⟩ := run_running n fun j hj => h j (Nat.lt_succ_of_lt hj)
    rw [log, hrun, ih fun j hj => h j (Nat.lt_succ_of_lt hj)]
    exact hturn.turnLog.2 (h n (Nat.lt_succ_self n))

theorem log_stopped {t n : ℕ} (hstop : crew.Stops script t)
    (hfirst : ∀ j < t, ¬ crew.Stops script j) (hn : t ≤ n) :
    crew.log script n = annotate crew.note (script.asked t) := by
  induction n, hn using Nat.le_induction with
  | base => exact log_eq t hfirst
  | succ n hn ih =>
    rcases Nat.lt_or_eq_of_le hn with hlt | rfl
    · obtain ⟨outcome, actions, hrun, -⟩ := run_first_stop hstop hfirst
      rw [log, run_returned hlt hrun, ih]
    · obtain ⟨st, hrun, hturn⟩ := run_running t hfirst
      rw [log, hrun, ih]
      exact hturn.turnLog.1 hstop

/-! ### Calls that count are fresh -/

theorem refused_iff {tc : ToolCall} : crew.refused earlier tc = true ↔
    ∃ path, tc.path = some path ∧ (tc.name = "write_file" ∨ tc.name = "read_file") ∧
      crew.wrote earlier path = true := by
  rw [refused]
  cases tc.path with
  | none => simp
  | some path => simp

theorem refused_of_cons {a : Asked} {tc : ToolCall} (h : crew.refused (a :: earlier) tc = false) :
    crew.refused earlier tc = false := by
  rw [← Bool.not_eq_true, refused_iff] at h ⊢
  rintro ⟨path, hpath, hname, hwrote⟩
  exact h ⟨path, hpath, hname, by rw [wrote_cons, hwrote, Bool.or_true]⟩

theorem callKey_of_same {tc tc' : ToolCall} (h : tc.Same tc') :
    crew.callKey tc = crew.callKey tc' := by
  rw [callKey, callKey, h.1, h.2]

theorem refused_of_same {tc tc' : ToolCall} (h : tc.Same tc') :
    crew.refused earlier tc = crew.refused earlier tc' := by
  simp only [Crew.refused, ToolCall.path, h.1, h.2]

theorem repeats_iff {key : String × ℕ} : crew.repeats key earlier = true ↔
    Ever (fun before b => crew.counted before b.1 = true ∧ crew.callKey b.1 = key) earlier := by
  induction earlier with
  | nil => simp [repeats, Ever, Since]
  | cons b before ih =>
    rw [repeats_cons, Bool.or_eq_true, ih, Bool.and_eq_true, decide_eq_true_eq]
    simp only [Ever, Since, not_false_eq_true, true_and]
    exact or_congr_left and_comm

theorem repeats_of_same {tc : ToolCall} {a : Asked} (hallowed : crew.allows tc.name = true)
    (hfree : crew.refused earlier tc = false) (ha : a ∈ earlier) (hsame : a.1.Same tc) :
    crew.repeats (crew.callKey tc) earlier = true := by
  induction earlier with
  | nil => cases ha
  | cons b before ih =>
    have hfree' := refused_of_cons hfree
    rw [repeats_cons, Bool.or_eq_true]
    rcases List.mem_cons.mp ha with rfl | ha
    · cases hcounted : crew.counted before a.1 with
      | true => exact .inl (by rw [callKey_of_same hsame]; simp)
      | false =>
        rw [counted, hsame.1, hallowed, refused_of_same hsame, hfree',
          callKey_of_same hsame] at hcounted
        exact .inr (by simpa using hcounted)
    · exact .inr (ih hfree' ha)

theorem fresh_of_counted {tc : ToolCall} (h : crew.counted earlier tc = true) :
    crew.Fresh earlier tc := by
  rw [counted, Bool.and_eq_true, Bool.and_eq_true, Bool.not_eq_true', Bool.not_eq_true'] at h
  obtain ⟨⟨hallowed, hfree⟩, hnew⟩ := h
  refine ⟨hallowed, hfree, fun a ha hsame => ?_⟩
  rw [repeats_of_same hallowed hfree ha hsame] at hnew
  cases hnew

def CountsFresh (crew : Crew) (l : List Asked) : Prop :=
  ∀ before a, a :: before <:+ l → (crew.counted before a.1 = true ↔ crew.Fresh before a.1)

theorem ever_fresh (h : CountsFresh crew earlier) (good : Asked → Prop) :
    Ever (fun before b => crew.counted before b.1 = true ∧ good b) earlier ↔
      Ever (fun before b => crew.Fresh before b.1 ∧ good b) earlier := by
  rw [ever_iff_exists, ever_iff_exists]
  constructor
  · rintro ⟨a, before, hsuffix, hcounted, hgood⟩
    exact ⟨a, before, hsuffix, (h before a hsuffix).mp hcounted, hgood⟩
  · rintro ⟨a, before, hsuffix, hfresh, hgood⟩
    exact ⟨a, before, hsuffix, (h before a hsuffix).mpr hfresh, hgood⟩

section Equivalence

variable {w : Workplace}

theorem CallOk.counted_iff {a : Asked} (h : CallOk crew w earlier a)
    (hbefore : CountsFresh crew earlier) :
    crew.counted earlier a.1 = true ↔ crew.Fresh earlier a.1 := by
  refine ⟨fresh_of_counted, fun hfresh => ?_⟩
  obtain ⟨hallowed, hfree, hnew⟩ := hfresh
  rw [counted, hallowed, hfree, Bool.true_and, Bool.not_false, Bool.true_and, Bool.not_eq_true',
    ← Bool.not_eq_true]
  intro hrepeats
  rw [repeats_iff, ever_fresh hbefore fun b => crew.callKey b.1 = crew.callKey a.1] at hrepeats
  obtain ⟨b, before, hsuffix, -, hsame⟩ := ever_iff_exists.mp (h.repetition hallowed hfree hrepeats).ever
  exact hnew b (hsuffix.mem List.mem_cons_self) hsame

theorem countsFresh_of_always {l : List Asked} (h : Always (CallOk crew w) l) :
    CountsFresh crew l := by
  induction l with
  | nil =>
    intro before a hsuffix
    cases List.suffix_nil.mp hsuffix
  | cons b rest ih =>
    intro before a hsuffix
    rcases List.suffix_cons_iff.mp hsuffix with heq | hsuffix
    · cases heq
      exact h.1.counted_iff (ih h.2)
    · exact ih h.2 before a hsuffix

theorem handlingOf_invoked {tc : ToolCall} :
    crew.handlingOf earlier tc = .invoked ↔ crew.counted earlier tc = true := by
  rw [handlingOf, counted]
  cases crew.allows tc.name with
  | false => simp
  | true =>
    cases crew.refused earlier tc with
    | true => by_cases hname : tc.name = "write_file" <;> simp [hname]
    | false => cases crew.repeats (crew.callKey tc) earlier <;> simp

theorem invoked_iff (h : CountsFresh crew earlier) {before : List Asked} {a : Asked}
    (hsuffix : a :: before <:+ earlier) (p : Prop) :
    ((crew.note before a).handling = .invoked ∧ p ↔ crew.Fresh before a.1 ∧ p) := by
  rw [note, handlingOf_invoked, h before a hsuffix]

theorem map_note (l : List Asked) : (annotate crew.note l).map Event.asked = l :=
  map_annotate crew.note Event.asked (fun _ _ => rfl) l

theorem ever_stored (h : CountsFresh crew earlier) (file : RawPath) :
    Ever (Stored w file) (annotate crew.note earlier) ↔
      Ever (fun before b => crew.Fresh before b.1 ∧ w.Stores file b) earlier :=
  ever_annotate fun _ _ hsuffix => invoked_iff h hsuffix _

theorem since_stored (h : CountsFresh crew earlier) (file : RawPath) :
    Since (Altered w file) (Stored w file) (annotate crew.note earlier) ↔
      Since (w.alters file)
        (fun before b => crew.Fresh before b.1 ∧ w.Stores file b) earlier := by
  refine since_annotate (fun before a _ => ?_) fun _ _ hsuffix => invoked_iff h hsuffix _
  rw [Altered, map_note]
  exact Iff.rfl

theorem since_same (h : CountsFresh crew earlier) (tc : ToolCall) :
    Since (Changed w) (fun _ e => e.handling = .invoked ∧ e.asked.1.Same tc)
        (annotate crew.note earlier) ↔
      Since (fun before b => crew.Fresh before b.1 ∧ w.changes before b)
        (fun before b => crew.Fresh before b.1 ∧ b.1.Same tc) earlier := by
  refine since_annotate (fun before a hsuffix => ?_) fun _ _ hsuffix => invoked_iff h hsuffix _
  rw [Changed, map_note]
  exact invoked_iff h hsuffix _

theorem truthful_note_iff {a : Asked} (h : CountsFresh crew earlier) :
    Truthful w (annotate crew.note earlier) (crew.note earlier a) ↔
      CallOk crew w earlier a := by
  cases hallowed : crew.allows a.1.name with
  | false =>
    have hhandling : (crew.note earlier a).handling = .denied := by
      rw [note, handlingOf, if_pos hallowed]
    have hfresh : ¬ crew.Fresh earlier a.1 := by
      rintro ⟨hyes, -⟩
      rw [hallowed] at hyes
      cases hyes
    rw [Truthful, hhandling]
    refine iff_of_true trivial ⟨?_, ?_, ?_, fun _ hno => absurd hno hfresh⟩
    all_goals simp [hallowed]
  | true =>
    cases hrefused : crew.refused earlier a.1 with
    | true =>
      obtain ⟨path, hpath, hname, hwrote⟩ := refused_iff.mp hrefused
      have hfresh : ¬ crew.Fresh earlier a.1 := by
        rintro ⟨-, hno, -⟩
        rw [hrefused] at hno
        cases hno
      have hrepetition : ∀ p : Prop, crew.refused earlier a.1 = false → p := by
        intro p hno
        rw [hrefused] at hno
        cases hno
      rcases hname with hname | hname
      · have hhandling : (crew.note earlier a).handling = .alreadyWrote := by
          rw [note, handlingOf, if_neg (by simp [hallowed]), if_pos hrefused, if_pos hname]
        have hread : a.1.name ≠ "read_file" := by rw [hname]; decide
        rw [Truthful, hhandling]
        simp only [ever_stored h]
        constructor
        · rintro ⟨path', hpath', hever⟩
          refine ⟨fun path'' _ _ hpath'' _ => ?_, fun _ _ hno => absurd hno hread,
            fun _ hno => hrepetition _ hno, fun _ hno => absurd hno hfresh⟩
          obtain rfl := Option.some.inj (hpath'.symm.trans hpath'')
          exact hever
        · intro hok
          exact ⟨path, hpath, hok.write path hallowed hname hpath hwrote⟩
      · have hwrite : a.1.name ≠ "write_file" := by rw [hname]; decide
        have hhandling : (crew.note earlier a).handling = .readBack := by
          rw [note, handlingOf, if_neg (by simp [hallowed]), if_pos hrefused, if_neg hwrite]
        rw [Truthful, hhandling]
        simp only [since_stored h]
        constructor
        · rintro ⟨path', hpath', hsince⟩
          refine ⟨fun _ _ hno => absurd hno hwrite, fun path'' _ _ hpath'' _ => ?_,
            fun _ hno => hrepetition _ hno, fun _ hno => absurd hno hfresh⟩
          obtain rfl := Option.some.inj (hpath'.symm.trans hpath'')
          exact hsince
        · intro hok
          exact ⟨path, hpath, hok.read path hallowed hname hpath hwrote⟩
    | false =>
      have hno : ∀ path, (a.1.name = "write_file" ∨ a.1.name = "read_file") →
          a.1.path = some path → ¬ crew.wrote earlier path = true := by
        intro path hname hpath hwrote
        have hyes := refused_iff.mpr ⟨path, hpath, hname, hwrote⟩
        rw [hrefused] at hyes
        cases hyes
      have hever := ever_fresh h fun b => crew.callKey b.1 = crew.callKey a.1
      rw [← repeats_iff] at hever
      cases hrepeats : crew.repeats (crew.callKey a.1) earlier with
      | true =>
        have hhandling : (crew.note earlier a).handling = .repeated := by
          rw [note, handlingOf, if_neg (by simp [hallowed]), hrefused, if_neg (by simp),
            if_pos hrepeats]
        rw [Truthful, hhandling]
        simp only [since_same h]
        constructor
        · intro hsince
          refine ⟨fun path _ hname hpath hwrote => absurd hwrote (hno path (.inl hname) hpath),
            fun path _ hname hpath hwrote => absurd hwrote (hno path (.inr hname) hpath),
            fun _ _ _ => hsince, fun _ hfresh => ?_⟩
          obtain ⟨b, before, hsuffix, -, hsame⟩ := ever_iff_exists.mp hsince.ever
          exact absurd hsame (hfresh.2.2 b (hsuffix.mem List.mem_cons_self))
        · intro hok
          exact hok.repetition hallowed hrefused (hever.mp hrepeats)
      | false =>
        have hhandling : (crew.note earlier a).handling = .invoked := by
          rw [note, handlingOf, if_neg (by simp [hallowed]), hrefused, if_neg (by simp), hrepeats,
            if_neg (by simp)]
        have hfresh : crew.Fresh earlier a.1 :=
          fresh_of_counted (handlingOf_invoked.mp hhandling)
        rw [Truthful, hhandling]
        simp only [ever_stored h]
        constructor
        · intro hnew
          refine ⟨fun path _ hname hpath hwrote => absurd hwrote (hno path (.inl hname) hpath),
            fun path _ hname hpath hwrote => absurd hwrote (hno path (.inr hname) hpath),
            fun _ _ hagain => ?_, fun file _ => hnew file⟩
          rw [← hever, hrepeats] at hagain
          cases hagain
        · intro hok file
          exact hok.spelling file hfresh

theorem always_truthful_iff (l : List Asked) :
    Always (Truthful w) (annotate crew.note l) ↔ Always (CallOk crew w) l :=
  always_annotate fun _ _ _ hbefore => truthful_note_iff (countsFresh_of_always hbefore)

/-- **The filters are truthful exactly so far.**  In every run of a crew what it is told about
each call is true if and only if the calls of the replies that are handled are as `CallOk` says. -/
theorem filters_truthful_iff (crew : Crew) (script : Script) (w : Workplace) :
    (∀ n, Always (Truthful w) (crew.log script n)) ↔
      ∀ t, (∀ j < t, ¬ crew.Stops script j) → Always (CallOk crew w) (script.asked t) := by
  constructor
  · intro h t hgo
    have ht := h t
    rwa [log_eq t hgo, always_truthful_iff] at ht
  · intro h n
    by_cases hgo : ∀ j < n, ¬ crew.Stops script j
    · rw [log_eq n hgo, always_truthful_iff]
      exact h n hgo
    · push Not at hgo
      obtain ⟨j, hj, hstop⟩ := hgo
      obtain ⟨t, hstop, hfirst, ht⟩ : ∃ t, crew.Stops script t ∧
          (∀ i < t, ¬ crew.Stops script i) ∧ t ≤ n := by
        classical
        have hex : ∃ t, crew.Stops script t := ⟨j, hstop⟩
        exact ⟨Nat.find hex, Nat.find_spec hex, fun i hi => Nat.find_min hex hi,
          (Nat.find_min' hex hstop).trans hj.le⟩
      rw [log_stopped hstop hfirst ht, always_truthful_iff]
      exact h t hfirst

end Equivalence

/-- A crew with the allowlist of the captain; the lengths of the texts tell its calls apart. -/
def writer : Crew where
  agentId := "crew-1"
  title := "Write the notes"
  description := "Write a.txt"
  allowlist := crewAllowlist
  jsonHash args := ((args.getStr "path".toList).getD []).length +
    10 * ((args.getStr "contents".toList).getD []).length

def callOf (name path contents : String) : ToolCall where
  id := "call-1"
  name := name
  args := .object [("path".toList, .string path.toList),
    ("contents".toList, .string contents.toList)]

def replying (calls : List ToolCall) (result : Except String Json) : Script where
  reply
    | 0 => .ok ⟨none, calls, ⟨0, 0⟩⟩
    | _ => .ok ⟨some "Done", [], ⟨0, 0⟩⟩
  result _ _ := result
  input _ _ := .error "unused"
  final := .ok ⟨some "Done", [], ⟨0, 0⟩⟩

/-- Commands and writes change the state, and a command alters every file. -/
def workplace : Workplace where
  workDir := ofString "/work"
  changes _ a := a.1.name = "run_command" ∨ a.1.name = "write_file"
  alters _ _ a := a.1.name = "run_command"

theorem succeeded_empty : succeeded (.ok (.object [])) := rfl

theorem not_succeeded_error : ¬ succeeded (.error "disk full") := by
  intro h
  cases h

/-- **What the filters get wrong.** A write that failed is not made again; a file is written twice
under two spellings; a file is not read back after a command rewrote it; a listing is not made
again after a write. -/
theorem not_filters_truthful :
    ¬ Always (Truthful workplace) (writer.log (replying [callOf "write_file" "a" "x",
      callOf "write_file" "a" "xy"] (.error "disk full")) 1) ∧
    ¬ Always (Truthful workplace) (writer.log (replying [callOf "write_file" "a" "x",
      callOf "write_file" "./a" "x"] (.ok (.object []))) 1) ∧
    ¬ Always (Truthful workplace) (writer.log (replying [callOf "write_file" "a" "x",
      callOf "run_command" "" "sed", callOf "read_file" "a" ""] (.ok (.object []))) 1) ∧
    ¬ Always (Truthful workplace) (writer.log (replying [callOf "list_files" "." "",
      callOf "write_file" "a" "x", callOf "list_files" "." ""] (.ok (.object []))) 1) := by
  refine ⟨?_, ?_, ?_, ?_⟩
  · rintro ⟨⟨path, hpath, hever⟩, -⟩
    rcases hever with ⟨-, -, -, hok⟩ | ⟨-, hnone⟩
    · exact not_succeeded_error hok
    · exact hnone
  · rintro ⟨hnew, -⟩
    have hfile : workplace.resolve "./a".toList = workplace.resolve "a".toList := by decide +kernel
    have hsecond : workplace.Stores (workplace.resolve "a".toList)
        (callOf "write_file" "./a" "x", .ok (.object [])) :=
      ⟨rfl, ⟨"./a".toList, rfl, hfile⟩, succeeded_empty⟩
    have hfirst : workplace.Stores (workplace.resolve "a".toList)
        (callOf "write_file" "a" "x", .ok (.object [])) :=
      ⟨rfl, ⟨"a".toList, rfl, rfl⟩, succeeded_empty⟩
    exact hnew _ hsecond (.inl ⟨rfl, hfirst⟩)
  · rintro ⟨⟨path, hpath, hsince⟩, -⟩
    rcases hsince with ⟨-, hname, -⟩ | ⟨hunaltered, -⟩
    · exact absurd hname (by decide)
    · exact hunaltered rfl
  · rintro ⟨hsince, -⟩
    rcases hsince with ⟨-, hname, -⟩ | ⟨hunchanged, -⟩
    · exact absurd hname (by decide)
    · exact hunchanged ⟨rfl, .inr rfl⟩

end Crew

end Mowis.Orchestration
