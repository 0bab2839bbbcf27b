import Mowis.Lib.Execution

/-!
# Threads and mutexes

Threads run programs that take and release mutexes and act on shared data.  A mutex is held by
one thread at a time, and a thread that asks for a mutex it holds waits for itself.
-/

namespace Mowis.Lib

/-- A program over mutexes `L` and data `S` that returns an `R`.  It goes on from an action as
the data before it says. -/
inductive Program (L S R : Type*) where
  | done (r : R)
  | lock (l : L) (next : Program L S R)
  | unlock (l : L) (next : Program L S R)
  | act (f : S → S) (next : S → Program L S R)

/-- The threads at work, the mutexes with their holders, and the data. -/
structure System (ι L S R : Type*) where
  data : S
  owner : L → Option ι
  program : ι → Program L S R

/-- A thread makes a call, or goes on with the call it is in. -/
inductive Turn (ι Op : Type*) where
  | call (i : ι) (op : Op)
  | run (i : ι)

namespace System

variable {ι L S R Op : Type*} [DecidableEq ι] [DecidableEq L]

/-- One step of the program of a thread; `none` when it has returned or has to wait. -/
def runThread (c : System ι L S R) (i : ι) : Option (System ι L S R) :=
  match c.program i with
  | .done _ => none
  | .lock l next =>
    if c.owner l = none then
      some { c with
        owner := Function.update c.owner l (some i)
        program := Function.update c.program i next }
    else none
  | .unlock l next =>
    if c.owner l = some i then
      some { c with
        owner := Function.update c.owner l none
        program := Function.update c.program i next }
    else none
  | .act f next =>
    some { c with
      data := f c.data
      program := Function.update c.program i (next c.data) }

variable (body : Op → Program L S R)

def step (c : System ι L S R) : Turn ι Op → Option (System ι L S R)
  | .call i op =>
    match c.program i with
    | .done _ => some { c with program := Function.update c.program i (body op) }
    | _ => none
  | .run i => c.runThread i

def start (data : S) (r : R) : System ι L S R := ⟨data, fun _ => none, fun _ => .done r⟩

omit [DecidableEq ι] [DecidableEq L] in
/-- The thread asks for a mutex that the other one holds. -/
def WaitsFor (c : System ι L S R) (i j : ι) : Prop :=
  ∃ l next, c.program i = .lock l next ∧ c.owner l = some j

def DeadlockFree (c : System ι L S R) : Prop := ∀ i, ¬ Relation.TransGen c.WaitsFor i i

end System

variable {ι L S R Op : Type*} [DecidableEq L]

/-- A program that holds `held` takes every mutex above those it holds, releases what it holds,
and has released everything when it returns; after an action only the data that meets the
condition counts. -/
def Program.Ordered (rank : L → ℕ) (ok : S → Program L S R → Prop) :
    List L → Program L S R → Prop
  | held, .done _ => held = []
  | held, .lock l next => (∀ m ∈ held, rank m < rank l) ∧ next.Ordered rank ok (l :: held)
  | held, .unlock l next => l ∈ held ∧ next.Ordered rank ok (held.erase l)
  | held, .act f next => ∀ s, ok s (.act f next) → (next s).Ordered rank ok held

/-- A thread holds these mutexes, each once, and its program keeps to the ranks. -/
structure HoldsAs (rank : L → ℕ) (ok : S → Program L S R → Prop) (c : System ι L S R) (i : ι)
    (held : List L) : Prop where
  owner : ∀ l, c.owner l = some i ↔ l ∈ held
  nodup : held.Nodup
  ordered : (c.program i).Ordered rank ok held

def Ranked (rank : L → ℕ) (ok : S → Program L S R → Prop) (c : System ι L S R) : Prop :=
  ∀ i, ∃ held, HoldsAs rank ok c i held

def Turn.Meets (ok : S → Program L S R → Prop) (c : System ι L S R) : Turn ι Op → Prop
  | .call _ _ => True
  | .run i => ok c.data (c.program i)

variable {rank : L → ℕ} {ok : S → Program L S R → Prop} {c c' : System ι L S R}

theorem Ranked.lt_of_waitsFor (h : Ranked rank ok c) {i j : ι} (hw : c.WaitsFor i j) :
    ∃ l, c.owner l = some j ∧ ∀ m, c.owner m = some i → rank m < rank l := by
  obtain ⟨l, next, hprogram, howner⟩ := hw
  obtain ⟨held, hholds⟩ := h i
  have hordered := hholds.ordered
  rw [hprogram] at hordered
  exact ⟨l, howner, fun m hm => hordered.1 m ((hholds.owner m).mp hm)⟩

theorem Ranked.lt_of_chain (h : Ranked rank ok c) {i j : ι}
    (hw : Relation.TransGen c.WaitsFor i j) :
    ∃ l, c.owner l = some j ∧ ∀ m, c.owner m = some i → rank m < rank l := by
  induction hw with
  | single hw => exact h.lt_of_waitsFor hw
  | tail _ hw ih =>
    obtain ⟨l, hl, hbelow⟩ := ih
    obtain ⟨l', hl', hbelow'⟩ := h.lt_of_waitsFor hw
    exact ⟨l', hl', fun m hm => (hbelow m hm).trans (hbelow' l hl)⟩

theorem Ranked.deadlockFree (h : Ranked rank ok c) : c.DeadlockFree := by
  intro i hcycle
  obtain ⟨l, hl, hbelow⟩ := h.lt_of_chain hcycle
  exact lt_irrefl _ (hbelow l hl)

theorem ranked_start (data : S) (r : R) :
    Ranked rank ok (System.start data r : System ι L S R) := by
  intro i
  exact ⟨[], fun l => by simp [System.start], List.nodup_nil, rfl⟩

variable [DecidableEq ι]

theorem HoldsAs.other {i j : ι} {held : List L} (h : HoldsAs rank ok c j held) (hne : j ≠ i)
    {owner : L → Option ι} (howner : ∀ l, owner l = some j ↔ c.owner l = some j)
    (data : S) (p : Program L S R) :
    HoldsAs rank ok ⟨data, owner, Function.update c.program i p⟩ j held := by
  refine ⟨fun l => (howner l).trans (h.owner l), h.nodup, ?_⟩
  show ((Function.update c.program i p) j).Ordered rank ok held
  rw [Function.update_of_ne hne]
  exact h.ordered

theorem Ranked.move (h : Ranked rank ok c) {i : ι} {held : List L} {owner : L → Option ι}
    {p : Program L S R} (howner : ∀ l, owner l = some i ↔ l ∈ held) (hnodup : held.Nodup)
    (hordered : p.Ordered rank ok held)
    (hother : ∀ j ≠ i, ∀ l, owner l = some j ↔ c.owner l = some j) (data : S) :
    Ranked rank ok ⟨data, owner, Function.update c.program i p⟩ := by
  intro j
  by_cases hj : j = i
  · subst hj
    refine ⟨held, howner, hnodup, ?_⟩
    show ((Function.update c.program j p) j).Ordered rank ok held
    rw [Function.update_self]
    exact hordered
  · obtain ⟨held', hholds'⟩ := h j
    exact ⟨held', hholds'.other hj (hother j hj) data p⟩

theorem Ranked.run (h : Ranked rank ok c) {i : ι} (hok : ok c.data (c.program i))
    (hs : c.runThread i = some c') : Ranked rank ok c' := by
  obtain ⟨held, hholds⟩ := h i
  have hordered := hholds.ordered
  rw [System.runThread] at hs
  cases hprogram : c.program i with
  | done r =>
    rw [hprogram] at hs
    cases hs
  | lock l next =>
    rw [hprogram] at hs hordered
    dsimp only at hs
    split at hs
    · next hfree =>
      cases hs
      have hnew : l ∉ held := fun hmem => lt_irrefl _ (hordered.1 l hmem)
      refine h.move (fun m => ?_) (List.nodup_cons.mpr ⟨hnew, hholds.nodup⟩) hordered.2
        (fun j hj m => ?_) _
      · by_cases hm : m = l
        · simp [hm]
        · rw [Function.update_of_ne hm, hholds.owner m]
          simp [hm]
      · by_cases hm : m = l
        · subst hm
          rw [Function.update_self, hfree]
          simp [Ne.symm hj]
        · rw [Function.update_of_ne hm]
    · cases hs
  | unlock l next =>
    rw [hprogram] at hs hordered
    dsimp only at hs
    split at hs
    · next hown =>
      cases hs
      refine h.move (fun m => ?_) (hholds.nodup.erase l) hordered.2 (fun j hj m => ?_) _
      · rw [hholds.nodup.mem_erase_iff]
        by_cases hm : m = l
        · simp [hm]
        · rw [Function.update_of_ne hm, hholds.owner m]
          simp [hm]
      · by_cases hm : m = l
        · subst hm
          rw [Function.update_self, hown]
          simp [Ne.symm hj]
        · rw [Function.update_of_ne hm]
    · cases hs
  | act f next =>
    rw [hprogram] at hs hordered hok
    cases hs
    exact h.move hholds.owner hholds.nodup (hordered c.data hok) (fun _ _ _ => Iff.rfl) _

variable {body : Op → Program L S R}

theorem Ranked.step (hbody : ∀ op, (body op).Ordered rank ok []) (h : Ranked rank ok c)
    {a : Turn ι Op} (hok : a.Meets ok c) (hs : System.step body c a = some c') :
    Ranked rank ok c' := by
  cases a with
  | run i => exact h.run hok hs
  | call i op =>
    rw [System.step] at hs
    split at hs
    · next r hprogram =>
      cases hs
      obtain ⟨held, hholds⟩ := h i
      have hordered := hholds.ordered
      rw [hprogram] at hordered
      obtain rfl : held = [] := hordered
      exact h.move hholds.owner hholds.nodup (hbody op) (fun _ _ _ => Iff.rfl) _
    · cases hs

theorem deadlock_free (hbody : ∀ op, (body op).Ordered rank ok []) {data : S} {r : R}
    {past : List (System ι L S R × Turn ι Op)}
    (h : Execution (System.step body) (.start data r) past c)
    (hok : ∀ e ∈ past, e.2.Meets ok e.1) :
    (∀ e ∈ past, e.1.DeadlockFree) ∧ c.DeadlockFree := by
  have hstep : ∀ (c : System ι L S R) (a : Turn ι Op) (c' : System ι L S R), Ranked rank ok c →
      a.Meets ok c → System.step body c a = some c' → Ranked rank ok c' :=
    fun c a c' hranked hmeets hs => hranked.step hbody hmeets hs
  have hstart : Ranked rank ok (System.start data r : System ι L S R) := ranked_start data r
  induction h with
  | start => exact ⟨List.forall_mem_nil _, hstart.deadlockFree⟩
  | next hrest hs ih =>
    obtain ⟨hpast, hlast⟩ := ih fun e he => hok e (List.mem_cons_of_mem _ he)
    refine ⟨List.forall_mem_cons.mpr ⟨hlast, hpast⟩, ?_⟩
    exact ((hrest.next hs).invariant_of hstart hstep hok).deadlockFree

end Mowis.Lib
