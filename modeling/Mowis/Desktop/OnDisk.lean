import Mowis.Lib.Execution
import Mowis.Desktop.Saving

/-!
# What is on the disk when all is done

Operations on the state of the desktop application overlap in any way, step by step
(`Desktop.Saving`).  After all of them have finished the state file should decode to the state in
memory, the history should list every session record exactly once and nothing else, and a deleted
session should be gone.
-/

namespace Mowis.Desktop

open Mowis.Lib

namespace Storage

variable (s : Storage)

def ids : List SessionId := s.mem.sessionHistory.map SessionSummary.id

/-- When all is done: the file has the state in memory, every session record is listed exactly once
and every listed session has its record, and what was deleted is in neither. -/
def Settled : Prop :=
  s.Idle → s.decoded = s.mem.persisted ∧ s.ids.Nodup ∧ (∀ id, id ∈ s.ids ↔ id ∈ s.mem.sessions) ∧
    ∀ id ∈ s.deleted, id ∉ s.ids ∧ id ∉ s.mem.sessions

end Storage

def Instr.reads (f : Field) : Instr → Bool
  | .read g => g = f
  | .sync _ _ _ _ => true
  | _ => false

def Instr.installs : Instr → Bool
  | .rename | .renameAgain => true
  | _ => false

/-- The operation will still save the field with the value it has in memory. -/
def Worker.Owes (mem : PersistedState) (w : Worker) (f : Field) : Prop :=
  (∃ j ∈ w.program, j.reads f = true) ∨
    f.Agree w.snapshot mem ∧ ∃ j ∈ w.program, j.installs = true

namespace Storage

variable (s : Storage)

/-- No field that the state file has right is lost by installing the snapshot of `w`, unless another
operation, or `w` once more, will still save it. -/
def Harmless (i : ℕ) (w : Worker) (rest : List Instr) : Prop :=
  ∀ f : Field, f.Agree s.decoded s.mem.persisted → f.Agree w.snapshot s.mem.persisted ∨
    (∃ j ∈ rest, j.reads f = true) ∨
      ∃ k u, k ≠ i ∧ s.workers[k]? = some u ∧ u.Owes s.mem.persisted f

/-- The file that is renamed is the one that `w` has written. -/
def Owns (w : Worker) : Prop := s.tmp = some (some w.snapshot)

def InstrOk (i : ℕ) (w : Worker) (rest : List Instr) (ok : Bool) : Instr → Prop
  | .write => ok = true
  | .rename => if ok then s.Owns w ∧ s.Harmless i w rest else s.file.isSome = true
  | .remove => ok = true ∧ s.Harmless i w rest
  | .renameAgain => ok = true ∧ s.Owns w ∧ s.Harmless i w rest
  | .putSession id _ | .record id _ _ _ _ => id ∉ s.deleted
  | .list summary _ => summary.id ∈ s.mem.sessions
  | .delete id => id ∉ s.mem.sessions
  | .dropSession id => id ∉ s.ids
  | _ => True

def StepOk : StorageAction → Prop
  | .run i ok => ∀ w instr rest, s.workers[i]? = some w → w.program = instr :: rest →
    s.InstrOk i w rest ok instr
  | _ => True

end Storage

namespace Field

variable {f g : Field} {p q r : PersistedState}

theorem agree_refl (f : Field) (p : PersistedState) : f.Agree p p := by cases f <;> rfl

theorem Agree.trans (h : f.Agree p q) (h' : f.Agree q r) : f.Agree p r := by
  cases f <;> exact Eq.trans h h'

theorem agree_copy (f : Field) (p q : PersistedState) : f.Agree (f.copy p q) q := by
  cases f <;> rfl

theorem agree_copy_of_agree (h : f.Agree p q) (g : Field) : f.Agree (g.copy p q) q := by
  cases f <;> cases g <;> first
    | exact h
    | rfl

theorem eq_of_agree (h : ∀ f : Field, f.Agree p q) : p = q := by
  cases p
  cases q
  obtain rfl := h .config
  obtain rfl := h .current
  obtain rfl := h .sessions
  obtain rfl := h .history
  obtain rfl := h .usage
  rfl

end Field

def Saves (program : List Instr) : Prop := ∀ f : Field, ∃ j ∈ program, j.reads f = true

def Instr.Fits (rest : List Instr) : Instr → Prop
  | .setConfig _ | .setCurrent _ | .list _ _ | .delete _ | .dropSession _ | .record _ _ _ _ _
  | .usage _ _ | .usageOf _ _ _ | .putUsage _ => Saves rest
  | .putSession id summary => Saves rest ∧ summary.id = id ∧ ∃ sorted, .list summary sorted ∈ rest
  | .unlist id => Saves rest ∧ .dropSession id ∈ rest
  | .read _ | .remove => ∃ j ∈ rest, j.installs = true
  | .load _ => rest = []
  | .needCurrent => ∀ j ∈ rest, ∃ t, j = .touch t
  | .touch _ | .sync _ _ _ _ | .fetch _ | .write | .rename | .renameAgain | .caught => True

def Proper : List Instr → Prop
  | [] => True
  | instr :: rest => instr.Fits rest ∧ Proper rest

theorem saves_saveProgram (rest : List Instr) : Saves (saveProgram ++ rest) := by
  intro f
  refine ⟨.read f, List.mem_append_left _ ?_, by simp [Instr.reads]⟩
  cases f <;> simp [saveProgram]

theorem Saves.cons {rest : List Instr} (h : Saves rest) (instr : Instr) : Saves (instr :: rest) := by
  intro f
  obtain ⟨j, hj, hr⟩ := h f
  exact ⟨j, List.mem_cons_of_mem _ hj, hr⟩

theorem Proper.save {rest : List Instr} (h : Proper rest) : Proper (saveProgram ++ rest) := by
  have hinstalls : ∃ j ∈ Instr.write :: .rename :: rest, j.installs = true :=
    ⟨.rename, by simp, rfl⟩
  obtain ⟨j, hj, hr⟩ := hinstalls
  have hmem : ∀ instrs : List Instr, ∃ j ∈ instrs ++ (.write :: .rename :: rest),
      j.installs = true := fun instrs => ⟨j, List.mem_append_right _ hj, hr⟩
  exact ⟨hmem [.read .current, .read .sessions, .read .history, .read .usage],
    hmem [.read .sessions, .read .history, .read .usage], hmem [.read .history, .read .usage],
    hmem [.read .usage], hmem [], trivial, trivial, h⟩

theorem Proper.touches {rest : List Instr} (h : Proper rest) (ts : List Touch) :
    Proper (ts.map .touch ++ rest) := by
  induction ts with
  | nil => exact h
  | cons t ts ih => exact ⟨trivial, ih⟩

theorem Proper.sync {rest : List Instr} (h : Proper rest) (id : SessionId) (now : ℕ)
    (order : IterOrder Task) (status : Option String) (completedAt : Option (Option ℕ)) :
    Proper (syncProgram id now order status completedAt ++ rest) := by
  rw [syncProgram, List.append_assoc]
  exact ⟨trivial, trivial, trivial, trivial, saves_saveProgram rest, h.save⟩

theorem proper_loadProgram (id : SessionId) (r : SessionRecord) : Proper (loadProgram id r ++ []) := by
  rw [List.append_nil]
  have hsave : Proper saveProgram := @Proper.save [] trivial
  have hsaves : Saves saveProgram := saves_saveProgram []
  exact ⟨(((hsaves.cons _).cons _).cons _).cons _, trivial, trivial, trivial, trivial, hsave⟩

theorem Operation.proper (op : Operation) : Proper op.program := by
  have hsave : Proper saveProgram := @Proper.save [] trivial
  have hsaves : Saves saveProgram := saves_saveProgram []
  cases op with
  | saveConfig config => exact ⟨hsaves, hsave⟩
  | startSession now id prompt mode =>
    have hlist := hsaves.cons (.list (startSummary now id prompt mode) false)
    have hput := hlist.cons (.putSession id (startSummary now id prompt mode))
    exact ⟨((((hput.cons _).cons _).cons _).cons _).cons _, trivial, trivial, trivial, trivial,
      trivial, ⟨hlist, rfl, false, List.mem_cons_self⟩, hsaves, hsave⟩
  | sendMessage now message =>
    exact ⟨(fun j hj => ⟨_, List.mem_singleton.mp hj⟩), trivial, trivial⟩
  | stopSession now order => exact ⟨trivial, trivial, hsaves, hsave⟩
  | loadSession id => exact ⟨rfl, trivial⟩
  | clearCurrentSession =>
    exact ⟨(((hsaves.cons _).cons _).cons _).cons _, trivial, trivial, trivial, trivial, hsave⟩
  | deleteSession id => exact ⟨hsaves, hsave⟩
  | deleteSessionLocal id => exact ⟨⟨hsaves.cons _, List.mem_cons_self⟩, hsaves, hsave⟩
  | event now order e =>
    refine Proper.touches ?_ _
    cases e.status now with
    | none => trivial
    | some p =>
      cases e.usage with
      | none => exact ⟨trivial, trivial, trivial⟩
      | some status =>
        exact ⟨trivial, trivial, saves_saveProgram [.caught], Proper.save ⟨trivial, trivial⟩⟩

/-- The operation will list session `id`, or drop its record. -/
def Worker.Pending (w : Worker) (id : SessionId) : Prop :=
  (∃ summary sorted, Instr.list summary sorted ∈ w.program ∧ summary.id = id) ∨
    .dropSession id ∈ w.program

theorem Worker.Owes.congr {p q : PersistedState} {u : Worker} {f : Field}
    (h : u.Owes p f) (hpq : f.Agree p q) : u.Owes q f :=
  h.imp_right fun ⟨hagree, hinstalls⟩ => ⟨hagree.trans hpq, hinstalls⟩

namespace Storage

variable (s : Storage)

def Covered : Prop := ∀ f : Field, f.Agree s.decoded s.mem.persisted ∨
  ∃ w ∈ s.workers, w.Owes s.mem.persisted f

structure Sound : Prop where
  proper : ∀ w ∈ s.workers, Proper w.program
  covered : s.Covered
  keyed : ∀ id r, s.mem.sessions.lookup id = some r → r.summary.id = id
  nodup : s.ids.Nodup
  loadable : ∀ id ∈ s.ids, id ∈ s.mem.sessions
  listed : ∀ id ∈ s.mem.sessions, id ∈ s.ids ∨ ∃ w ∈ s.workers, w.Pending id
  gone : ∀ id ∈ s.deleted, id ∉ s.mem.sessions

variable {s} {w : Worker}

theorem sound_fresh : Sound fresh where
  proper := List.forall_mem_nil _
  covered := fun f => .inl (by cases f <;> rfl)
  keyed := fun id r h => by cases h
  nodup := List.nodup_nil
  loadable := List.forall_mem_nil _
  listed := fun id h => absurd h (AList.notMem_empty id)
  gone := List.forall_mem_nil _

theorem Sound.settled (h : s.Sound) : s.Settled := by
  intro hidle
  refine ⟨Field.eq_of_agree fun f => ?_, h.nodup, fun id => ⟨h.loadable id, fun hid => ?_⟩,
    fun id hid => ⟨fun hlisted => h.gone id hid (h.loadable id hlisted), h.gone id hid⟩⟩
  · rcases h.covered f with hagree | ⟨w, hw, ⟨j, hj, -⟩ | ⟨-, j, hj, -⟩⟩
    · exact hagree
    · rw [hidle w hw] at hj
      cases hj
    · rw [hidle w hw] at hj
      cases hj
  · rcases h.listed id hid with hlisted | ⟨w, hw, ⟨_, _, hj, -⟩ | hj⟩
    · exact hlisted
    · rw [hidle w hw] at hj
      cases hj
    · rw [hidle w hw] at hj
      cases hj

variable {v : Worker} {i : ℕ} {m : AppState}

theorem exists_set {P Q : Worker → Prop} (hi : s.workers[i]? = some w)
    (h : ∃ u ∈ s.workers, P u) (hother : ∀ u, P u → Q u) (hself : P w → Q v) :
    ∃ u ∈ s.workers.set i v, Q u := by
  obtain ⟨hlt, rfl⟩ := List.getElem?_eq_some_iff.mp hi
  obtain ⟨u, hu, hP⟩ := h
  obtain ⟨k, hk, rfl⟩ := List.mem_iff_getElem.mp hu
  by_cases hki : k = i
  · subst hki
    exact ⟨v, List.mem_set hlt v, hself hP⟩
  · refine ⟨s.workers[k], List.mem_iff_getElem.mpr ⟨k, by rw [List.length_set]; exact hk, ?_⟩,
      hother _ hP⟩
    rw [List.getElem_set_ne (Ne.symm hki)]

theorem Sound.proper_set (h : s.Sound) (hproper : Proper v.program) (i : ℕ) :
    ∀ u ∈ s.workers.set i v, Proper u.program := by
  intro u hu
  rcases List.mem_or_eq_of_mem_set hu with hu | rfl
  · exact h.proper u hu
  · exact hproper

theorem Sound.covered_set (h : s.Sound) (hi : s.workers[i]? = some w)
    (hstep : ∀ f : Field, v.Owes m.persisted f ∨
      f.Agree s.mem.persisted m.persisted ∧
        (w.Owes s.mem.persisted f → v.Owes m.persisted f)) (deleted : List SessionId) :
    Covered { s with mem := m, workers := s.workers.set i v, deleted := deleted } := by
  intro f
  obtain ⟨hlt, -⟩ := List.getElem?_eq_some_iff.mp hi
  rcases hstep f with howes | ⟨hmem, hkeep⟩
  · exact .inr ⟨v, List.mem_set hlt v, howes⟩
  · rcases h.covered f with hagree | hother
    · exact .inl (hagree.trans hmem)
    · exact .inr (exists_set hi hother (fun u hu => hu.congr hmem) hkeep)

theorem Sound.quiet (h : s.Sound) (hi : s.workers[i]? = some w)
    (hmem : m.persisted = s.mem.persisted) (hproper : Proper v.program)
    (howes : ∀ f, w.Owes s.mem.persisted f → v.Owes s.mem.persisted f)
    (hpending : ∀ id, w.Pending id → v.Pending id) :
    Sound { s with mem := m, workers := s.workers.set i v } := by
  have hsessions : m.sessions = s.mem.sessions := congrArg PersistedState.sessions hmem
  have hids : m.sessionHistory.map SessionSummary.id = s.ids :=
    congrArg (fun p => p.sessionHistory.map SessionSummary.id) hmem
  refine ⟨h.proper_set hproper i, h.covered_set hi (fun f => .inr ⟨?_, ?_⟩) s.deleted, ?_, ?_, ?_,
    ?_, ?_⟩
  · rw [hmem]
    exact f.agree_refl _
  · rw [hmem]
    exact howes f
  · show ∀ id r, m.sessions.lookup id = some r → _
    rw [hsessions]
    exact h.keyed
  · show (m.sessionHistory.map SessionSummary.id).Nodup
    rw [hids]
    exact h.nodup
  · show ∀ id ∈ m.sessionHistory.map SessionSummary.id, id ∈ m.sessions
    rw [hids, hsessions]
    exact h.loadable
  · show ∀ id ∈ m.sessions, id ∈ m.sessionHistory.map SessionSummary.id ∨ _
    rw [hids, hsessions]
    exact fun id hid => (h.listed id hid).imp_right fun hother =>
      exists_set hi hother (fun u hu => hu) (hpending id)
  · show ∀ id ∈ s.deleted, id ∉ m.sessions
    rw [hsessions]
    exact h.gone

theorem Sound.change (h : s.Sound) (hi : s.workers[i]? = some w) (hproper : Proper v.program)
    (hsaves : Saves v.program) {deleted : List SessionId}
    (hkeyed : ∀ id r, m.sessions.lookup id = some r → r.summary.id = id)
    (hnodup : (m.sessionHistory.map SessionSummary.id).Nodup)
    (hloadable : ∀ id ∈ m.sessionHistory.map SessionSummary.id, id ∈ m.sessions)
    (hlisted : ∀ id ∈ m.sessions, id ∈ m.sessionHistory.map SessionSummary.id ∨
      v.Pending id ∨ id ∈ s.mem.sessions ∧
        (id ∈ s.ids → id ∈ m.sessionHistory.map SessionSummary.id) ∧
        (w.Pending id → v.Pending id))
    (hgone : ∀ id ∈ deleted, id ∉ m.sessions) :
    Sound { s with mem := m, workers := s.workers.set i v, deleted := deleted } := by
  obtain ⟨hlt, -⟩ := List.getElem?_eq_some_iff.mp hi
  refine ⟨h.proper_set hproper i, h.covered_set hi (fun f => .inl (.inl (hsaves f))) deleted,
    hkeyed, hnodup, hloadable, fun id hid => ?_, hgone⟩
  rcases hlisted id hid with hin | hpending | ⟨hold, hids, hpending⟩
  · exact .inl hin
  · exact .inr ⟨v, List.mem_set hlt v, hpending⟩
  · exact (h.listed id hold).imp hids fun hother =>
      exists_set hi hother (fun u hu => hu) hpending

theorem Sound.beside (h : s.Sound) (tmp : Option FileText) : Sound { s with tmp := tmp } :=
  ⟨h.proper, h.covered, h.keyed, h.nodup, h.loadable, h.listed, h.gone⟩

theorem Sound.refile (h : s.Sound) (hi : s.workers[i]? = some w) {instr : Instr} {rest : List Instr}
    (hprog : w.program = instr :: rest) (hreads : ∀ f, instr.reads f = false)
    (hproper : Proper rest) (hpending : ∀ id, w.Pending id → Worker.Pending { w with program := rest } id)
    (hharmless : s.Harmless i w rest) {tmp file : Option FileText}
    (hright : ∀ f : Field, f.Agree w.snapshot s.mem.persisted →
      f.Agree ((file.bind id).getD .default) s.mem.persisted ∨
        Worker.Owes s.mem.persisted { w with program := rest } f) :
    Sound { s with
      tmp := tmp
      file := file
      workers := s.workers.set i { w with program := rest } } := by
  obtain ⟨hlt, -⟩ := List.getElem?_eq_some_iff.mp hi
  refine ⟨h.proper_set hproper i, fun f => ?_, h.keyed, h.nodup, h.loadable, fun id hid => ?_,
    h.gone⟩
  · by_cases hsnap : f.Agree w.snapshot s.mem.persisted
    · exact (hright f hsnap).imp_right fun howes => ⟨_, List.mem_set hlt _, howes⟩
    · refine .inr ?_
      rcases h.covered f with hagree | hother
      · rcases hharmless f hagree with hsnap' | hagain | ⟨k, u, hk, hu, howes⟩
        · exact absurd hsnap' hsnap
        · exact ⟨_, List.mem_set hlt _, .inl hagain⟩
        · refine ⟨u, List.mem_of_getElem? (i := k) ?_, howes⟩
          rw [List.getElem?_set_ne (Ne.symm hk)]
          exact hu
      · refine exists_set hi hother (fun u hu => hu) fun howes => ?_
        rcases howes with ⟨j, hj, hr⟩ | ⟨hagree, -⟩
        · rw [hprog] at hj
          rcases List.mem_cons.mp hj with rfl | hj
          · rw [hreads f] at hr
            cases hr
          · exact .inl ⟨j, hj, hr⟩
        · exact absurd hagree hsnap
  · exact (h.listed id hid).imp_right fun hother =>
      exists_set hi hother (fun u hu => hu) (hpending id)

end Storage

section

variable {w v : Worker} {instr : Instr} {rest : List Instr} {f : Field} {mem : PersistedState}
  {id : SessionId}

theorem Worker.Owes.pass (h : w.Owes mem f) (hprog : w.program = instr :: rest)
    (hreads : instr.reads f = false) (hinstalls : instr.installs = false)
    (hsub : ∀ j ∈ rest, j ∈ v.program) (hsnap : v.snapshot = w.snapshot) : v.Owes mem f := by
  unfold Worker.Owes at h
  rw [hprog] at h
  rcases h with ⟨j, hj, hr⟩ | ⟨hagree, j, hj, hr⟩
  · rcases List.mem_cons.mp hj with rfl | hj
    · rw [hreads] at hr
      cases hr
    · exact .inl ⟨j, hsub j hj, hr⟩
  · rcases List.mem_cons.mp hj with rfl | hj
    · rw [hinstalls] at hr
      cases hr
    · exact .inr ⟨hsnap ▸ hagree, j, hsub j hj, hr⟩

theorem Worker.Pending.next (h : w.Pending id) (hprog : w.program = instr :: rest)
    (hsub : ∀ j ∈ rest, j ∈ v.program) :
    (∃ summary sorted, instr = .list summary sorted ∧ summary.id = id) ∨ instr = .dropSession id ∨
      v.Pending id := by
  unfold Worker.Pending at h
  rw [hprog] at h
  rcases h with ⟨summary, sorted, hj, hid⟩ | hj
  · rcases List.mem_cons.mp hj with hj | hj
    · exact .inl ⟨summary, sorted, hj.symm, hid⟩
    · exact .inr (.inr (.inl ⟨summary, sorted, hsub _ hj, hid⟩))
  · rcases List.mem_cons.mp hj with hj | hj
    · exact .inr (.inl hj.symm)
    · exact .inr (.inr (.inr (hsub _ hj)))

def Instr.steady : Instr → Bool
  | .list _ _ | .dropSession _ => false
  | _ => true

theorem Worker.Pending.pass (h : w.Pending id) (hprog : w.program = instr :: rest)
    (hsteady : instr.steady = true) (hsub : ∀ j ∈ rest, j ∈ v.program) : v.Pending id := by
  rcases h.next hprog hsub with ⟨summary, sorted, rfl, -⟩ | rfl | h
  · cases hsteady
  · cases hsteady
  · exact h

end

theorem keys_upsert {α κ : Type} [DecidableEq κ] (key : α → κ) (x : α) (xs : List α) :
    (upsert key x xs).map key =
      if key x ∈ xs.map key then xs.map key else xs.map key ++ [key x] := by
  induction xs with
  | nil => rfl
  | cons y ys ih =>
    rw [upsert]
    by_cases hy : key y = key x
    · rw [if_pos hy, List.map_cons, List.map_cons, hy, if_pos List.mem_cons_self]
    · rw [if_neg hy, List.map_cons, ih, List.map_cons]
      have hmem : key x ∈ key y :: ys.map key ↔ key x ∈ ys.map key := by
        rw [List.mem_cons]
        exact or_iff_right (Ne.symm hy)
      by_cases hx : key x ∈ ys.map key
      · rw [if_pos hx, if_pos (hmem.mpr hx)]
      · rw [if_neg hx, if_neg (fun h => hx (hmem.mp h))]
        rfl

theorem ids_list (history : List SessionSummary) (summary : SessionSummary) (sorted : Bool) :
    ((if sorted then sortByKey SessionSummary.startedAt (upsertHistory history summary)
      else upsertHistory history summary).map SessionSummary.id).Perm
      (if summary.id ∈ history.map SessionSummary.id then history.map SessionSummary.id
        else history.map SessionSummary.id ++ [summary.id]) := by
  have hkeys := keys_upsert SessionSummary.id summary history
  rw [← hkeys]
  cases sorted with
  | false => exact List.Perm.refl _
  | true => exact (List.perm_insertionSort _ _).map SessionSummary.id

theorem mem_ids_list {history : List SessionSummary} {summary : SessionSummary} {sorted : Bool}
    {id : SessionId} :
    id ∈ (if sorted then sortByKey SessionSummary.startedAt (upsertHistory history summary)
      else upsertHistory history summary).map SessionSummary.id ↔
      id = summary.id ∨ id ∈ history.map SessionSummary.id := by
  rw [(ids_list history summary sorted).mem_iff]
  split
  · rename_i hmem
    refine ⟨.inr, fun h => h.elim (fun hid => ?_) fun hid => hid⟩
    rw [hid]
    exact hmem
  · rw [List.mem_append, List.mem_singleton]
    exact or_comm

theorem nodup_ids_list {history : List SessionSummary} (h : (history.map SessionSummary.id).Nodup)
    (summary : SessionSummary) (sorted : Bool) :
    ((if sorted then sortByKey SessionSummary.startedAt (upsertHistory history summary)
      else upsertHistory history summary).map SessionSummary.id).Nodup := by
  rw [(ids_list history summary sorted).nodup_iff]
  split
  · exact h
  · rename_i hmem
    exact h.append (List.nodup_singleton _) (List.disjoint_singleton.mpr hmem)

theorem mem_ids_deleteSession {s : AppState} {id id' : SessionId} :
    id' ∈ (s.deleteSession id).sessionHistory.map SessionSummary.id ↔
      id' ≠ id ∧ id' ∈ s.sessionHistory.map SessionSummary.id := by
  simp only [AppState.deleteSession, List.mem_map, List.mem_filter, decide_eq_true_eq]
  constructor
  · rintro ⟨x, ⟨hx, hne⟩, rfl⟩
    exact ⟨hne, x, hx, rfl⟩
  · rintro ⟨hne, x, hx, rfl⟩
    exact ⟨x, ⟨hx, hne⟩, rfl⟩

theorem nodup_ids_deleteSession {s : AppState} (h : (s.sessionHistory.map SessionSummary.id).Nodup)
    (id : SessionId) : ((s.deleteSession id).sessionHistory.map SessionSummary.id).Nodup :=
  h.sublist (List.filter_sublist.map _)

/-! ### Every step -/

namespace Storage

variable {s : Storage} {w : Worker} {i : ℕ} {rest : List Instr} {instr : Instr} {m : AppState}

theorem Sound.abandon (h : s.Sound) (hi : s.workers[i]? = some w)
    (hnothing : ∀ j ∈ w.program, (∀ f, j.reads f = false) ∧ j.installs = false ∧ j.steady = true)
    {program : List Instr} (hproper : Proper program) :
    Sound { s with workers := s.workers.set i { w with program := program } } := by
  refine h.quiet (m := s.mem) hi rfl hproper (fun f howes => ?_) fun id hpending => ?_
  · rcases howes with ⟨j, hj, hr⟩ | ⟨-, j, hj, hr⟩
    · rw [(hnothing j hj).1 f] at hr
      cases hr
    · rw [(hnothing j hj).2.1] at hr
      cases hr
  · rcases hpending with ⟨_, _, hj, -⟩ | hj
    · cases (hnothing _ hj).2.2
    · cases (hnothing _ hj).2.2

theorem Sound.goes (h : s.Sound) (hi : s.workers[i]? = some w) (hprog : w.program = instr :: rest)
    (hreads : ∀ f, instr.reads f = false) (hinstalls : instr.installs = false)
    (hsteady : instr.steady = true) (hmem : m.persisted = s.mem.persisted) {v : Worker}
    (hproper : Proper v.program) (hsub : ∀ j ∈ rest, j ∈ v.program)
    (hsnap : v.snapshot = w.snapshot) :
    Sound { s with mem := m, workers := s.workers.set i v } :=
  h.quiet hi hmem hproper (fun f howes => howes.pass hprog (hreads f) hinstalls hsub hsnap)
    fun _ hpending => hpending.pass hprog hsteady hsub

theorem Sound.aside (h : s.Sound) (hi : s.workers[i]? = some w) (hprog : w.program = instr :: rest)
    (hsteady : instr.steady = true) (hproper : Proper rest) (hsaves : Saves rest)
    (hsessions : m.sessions = s.mem.sessions)
    (hhistory : m.sessionHistory = s.mem.sessionHistory) :
    Sound { s with mem := m, workers := s.workers.set i { w with program := rest } } := by
  refine h.change hi hproper hsaves ?_ ?_ ?_ ?_ ?_
  · rw [hsessions]
    exact h.keyed
  · rw [hhistory]
    exact h.nodup
  · rw [hhistory, hsessions]
    exact h.loadable
  · rw [hhistory, hsessions]
    exact fun id hid => .inr (.inr ⟨hid, fun hin => hin, fun hpending =>
      hpending.pass hprog hsteady fun j hj => hj⟩)
  · rw [hsessions]
    exact h.gone

theorem Sound.put (h : s.Sound) (hi : s.workers[i]? = some w) (hprog : w.program = instr :: rest)
    (hsteady : instr.steady = true) {id : SessionId} {r : SessionRecord} (hid : r.summary.id = id)
    (hdeleted : id ∉ s.deleted) {v : Worker} (hproper : Proper v.program)
    (hsaves : Saves v.program) (hsub : ∀ j ∈ rest, j ∈ v.program)
    (hlist : ∃ sorted, .list r.summary sorted ∈ v.program) :
    Sound { s with
      mem := { s.mem with sessions := s.mem.sessions.insert id r }
      workers := s.workers.set i v } := by
  obtain ⟨sorted, hlist⟩ := hlist
  refine h.change hi hproper hsaves (fun id' r' hl => ?_) h.nodup
    (fun id' hid' => (AList.mem_insert _).mpr (.inr (h.loadable id' hid'))) (fun id' hid' => ?_)
    fun id' hid' hmem => ?_
  · rw [HashMap.lookup_insert_eq_ite] at hl
    split at hl
    · rename_i heq
      obtain rfl := Option.some.inj hl
      rw [hid, heq]
    · exact h.keyed id' r' hl
  · rcases (AList.mem_insert _).mp hid' with rfl | hold
    · exact .inr (.inl (.inl ⟨r.summary, sorted, hlist, hid⟩))
    · exact .inr (.inr ⟨hold, fun hin => hin, fun hpending => hpending.pass hprog hsteady hsub⟩)
  · rcases (AList.mem_insert _).mp hmem with rfl | hold
    · exact hdeleted hid'
    · exact h.gone id' hid' hold

theorem Sound.list (h : s.Sound) (hi : s.workers[i]? = some w) {summary : SessionSummary}
    {sorted : Bool} (hprog : w.program = .list summary sorted :: rest) (hproper : Proper rest)
    (hsaves : Saves rest) (hok : summary.id ∈ s.mem.sessions) (ok : Bool) :
    Sound { (s.exec w rest ok (.list summary sorted)).1 with
      workers := s.workers.set i (s.exec w rest ok (.list summary sorted)).2 } := by
  refine h.change hi hproper hsaves h.keyed (nodup_ids_list h.nodup summary sorted)
    (fun id hid => ?_) (fun id hid => ?_) h.gone
  · rcases mem_ids_list.mp hid with rfl | hold
    · exact hok
    · exact h.loadable id hold
  · by_cases heq : id = summary.id
    · exact .inl (mem_ids_list.mpr (.inl heq))
    · refine .inr (.inr ⟨hid, fun hin => mem_ids_list.mpr (.inr hin), fun hpending => ?_⟩)
      rcases hpending.next (v := { w with program := rest }) hprog (fun j hj => hj) with
        ⟨_, _, hinstr, hid'⟩ | hinstr | hpending
      · cases hinstr
        exact absurd hid'.symm heq
      · cases hinstr
      · exact hpending

theorem Sound.unlist (h : s.Sound) (hi : s.workers[i]? = some w) (hprog : w.program = instr :: rest)
    (hsteady : instr.steady = true) {id : SessionId} (hproper : Proper rest) (hsaves : Saves rest)
    (hrecord : id ∉ s.mem.sessions ∨ .dropSession id ∈ rest) {deleted : List SessionId}
    (hgone : ∀ id ∈ deleted, id ∉ s.mem.sessions) :
    Sound { s with
      mem := s.mem.deleteSession id
      workers := s.workers.set i { w with program := rest }
      deleted := deleted } := by
  refine h.change hi hproper hsaves h.keyed (nodup_ids_deleteSession h.nodup id)
    (fun id' hid' => h.loadable id' (mem_ids_deleteSession.mp hid').2) (fun id' hid' => ?_) hgone
  by_cases heq : id' = id
  · subst heq
    exact .inr (.inl (.inr (hrecord.resolve_left fun hno => hno hid')))
  · exact .inr (.inr ⟨hid', fun hin => mem_ids_deleteSession.mpr ⟨heq, hin⟩, fun hpending =>
      hpending.pass hprog hsteady fun j hj => hj⟩)

theorem Sound.drop (h : s.Sound) (hi : s.workers[i]? = some w) {id : SessionId}
    (hprog : w.program = .dropSession id :: rest) (hproper : Proper rest) (hsaves : Saves rest)
    (hok : id ∉ s.ids) :
    Sound { s with
      mem := { s.mem with sessions := s.mem.sessions.erase id }
      workers := s.workers.set i { w with program := rest } } := by
  refine h.change hi hproper hsaves (fun id' r hl => ?_) h.nodup (fun id' hid' => ?_)
    (fun id' hid' => ?_) fun id' hid' hmem => ?_
  · by_cases heq : id' = id
    · subst heq
      rw [AList.lookup_erase] at hl
      cases hl
    · rw [AList.lookup_erase_ne heq] at hl
      exact h.keyed id' r hl
  · have heq : id' ≠ id := by
      rintro rfl
      exact hok hid'
    exact AList.mem_erase.mpr ⟨heq, h.loadable id' hid'⟩
  · obtain ⟨heq, hold⟩ := AList.mem_erase.mp hid'
    refine .inr (.inr ⟨hold, fun hin => hin, fun hpending => ?_⟩)
    rcases hpending.next (v := { w with program := rest }) hprog (fun j hj => hj) with
      ⟨_, _, hinstr, -⟩ | hinstr | hpending
    · cases hinstr
    · cases hinstr
      exact absurd rfl heq
    · exact hpending
  · exact h.gone id' hid' (AList.mem_erase.mp hmem).2

theorem Sound.files (h : s.Sound) (hi : s.workers[i]? = some w) (hprog : w.program = instr :: rest)
    (hproper : Proper rest) (hfits : instr.Fits rest) {ok : Bool}
    (hinstr : instr = .write ∨ instr = .rename ∨ instr = .remove ∨ instr = .renameAgain)
    (hok : s.InstrOk i w rest ok instr) :
    Sound { (s.exec w rest ok instr).1 with
      workers := s.workers.set i (s.exec w rest ok instr).2 } := by
  have hpending : instr.steady = true → ∀ id, w.Pending id →
      Worker.Pending { w with program := rest } id :=
    fun hsteady _ hpending => hpending.pass hprog hsteady fun j hj => hj
  have hsame : ∀ j ∈ rest, j ∈ rest := fun j hj => hj
  rcases hinstr with rfl | rfl | rfl | rfl
  · obtain rfl : ok = true := hok
    exact (h.beside (some (some w.snapshot))).goes (m := s.mem) (v := { w with program := rest }) hi
      hprog (fun _ => rfl) rfl rfl rfl hproper hsame rfl
  · cases ok with
    | true =>
      obtain ⟨hown, hharmless⟩ : s.Owns w ∧ s.Harmless i w rest := hok
      have hexec : s.exec w rest true .rename =
          ({ s with file := s.tmp, tmp := none }, { w with program := rest }) := by
        rw [exec, hown]
        rfl
      rw [hexec]
      refine h.refile hi hprog (fun _ => rfl) hproper (hpending rfl) hharmless fun f hagree => .inl ?_
      rw [hown]
      exact hagree
    | false =>
      have hfile : s.file.isSome = true := hok
      have hexec : s.exec w rest false .rename =
          (s, { w with program := .remove :: .renameAgain :: rest }) := by
        rw [exec, hfile]
        rfl
      rw [hexec]
      have hlater : ∀ j ∈ rest, j ∈ Instr.remove :: .renameAgain :: rest := fun j hj =>
        List.mem_cons_of_mem _ (List.mem_cons_of_mem _ hj)
      refine h.quiet (m := s.mem) hi rfl ⟨⟨.renameAgain, List.mem_cons_self, rfl⟩, trivial, hproper⟩
        (fun f howes => ?_) fun id hp => hp.pass hprog rfl hlater
      unfold Worker.Owes at howes
      rw [hprog] at howes
      rcases howes with ⟨j, hj, hr⟩ | ⟨hagree, -⟩
      · rcases List.mem_cons.mp hj with rfl | hj
        · cases hr
        · exact .inl ⟨j, hlater j hj, hr⟩
      · exact .inr ⟨hagree, .renameAgain, List.mem_cons_of_mem _ List.mem_cons_self, rfl⟩
  · obtain ⟨rfl, hharmless⟩ : ok = true ∧ s.Harmless i w rest := hok
    exact h.refile hi hprog (fun _ => rfl) hproper (hpending rfl) hharmless
      fun f hagree => .inr (.inr ⟨hagree, hfits⟩)
  · obtain ⟨rfl, hown, hharmless⟩ : ok = true ∧ s.Owns w ∧ s.Harmless i w rest := hok
    have hexec : s.exec w rest true .renameAgain =
        ({ s with file := s.tmp, tmp := none }, { w with program := rest }) := by
      rw [exec, hown]
      rfl
    rw [hexec]
    refine h.refile hi hprog (fun _ => rfl) hproper (hpending rfl) hharmless fun f hagree => .inl ?_
    rw [hown]
    exact hagree

theorem Sound.run (h : s.Sound) (hi : s.workers[i]? = some w) (hprog : w.program = instr :: rest)
    {ok : Bool} (hok : s.InstrOk i w rest ok instr) :
    Sound { (s.exec w rest ok instr).1 with
      workers := s.workers.set i (s.exec w rest ok instr).2 } := by
  have hproper := h.proper w (List.mem_of_getElem? hi)
  rw [hprog] at hproper
  obtain ⟨hfits, hrest⟩ := hproper
  have hsame : ∀ j ∈ rest, j ∈ rest := fun j hj => hj
  have hlater : ∀ {j' : Instr}, ∀ j ∈ rest, j ∈ j' :: rest := fun j hj => List.mem_cons_of_mem _ hj
  cases instr with
  | touch t =>
    have hmem : (t.apply s.mem).persisted = s.mem.persisted := by cases t <;> rfl
    exact h.goes hi hprog (fun _ => rfl) rfl rfl hmem hrest hsame rfl
  | needCurrent =>
    have htouches : ∀ j ∈ w.program, (∀ f, j.reads f = false) ∧ j.installs = false ∧
        j.steady = true := by
      rw [hprog]
      refine List.forall_mem_cons.mpr ⟨⟨fun _ => rfl, rfl, rfl⟩, fun j hj => ?_⟩
      obtain ⟨t, rfl⟩ := hfits j hj
      exact ⟨fun _ => rfl, rfl, rfl⟩
    refine h.abandon hi htouches ?_
    split
    · exact hrest
    · trivial
  | setConfig config => exact h.aside hi hprog rfl hrest hfits rfl rfl
  | setCurrent id => exact h.aside hi hprog rfl hrest hfits rfl rfl
  | putUsage usage => exact h.aside hi hprog rfl hrest hfits rfl rfl
  | putSession id summary =>
    obtain ⟨hsaves, hid, hlist⟩ := hfits
    exact h.put (r := ⟨summary, s.mem.messages, [], 0, 0⟩) hi hprog rfl hid hok hrest hsaves hsame
      hlist
  | list summary sorted => exact h.list hi hprog hrest hfits hok ok
  | delete id =>
    exact h.unlist hi hprog rfl hrest hfits (.inl hok) (List.forall_mem_cons.mpr ⟨hok, h.gone⟩)
  | unlist id => exact h.unlist hi hprog rfl hrest hfits.1 (.inr hfits.2) h.gone
  | dropSession id => exact h.drop hi hprog hrest hfits hok
  | load id =>
    obtain rfl : rest = [] := hfits
    have honly : ∀ j ∈ w.program, (∀ f, j.reads f = false) ∧ j.installs = false ∧
        j.steady = true := by
      rw [hprog]
      exact List.forall_mem_singleton.mpr ⟨fun _ => rfl, rfl, rfl⟩
    unfold exec
    dsimp only
    split
    · exact h.abandon hi honly trivial
    · rename_i r _
      exact h.abandon hi honly (proper_loadProgram id r)
  | sync now order status completedAt =>
    unfold exec
    dsimp only
    split
    · exact h.quiet (m := s.mem) hi rfl hrest.save (fun f _ => .inl (saves_saveProgram rest f))
        fun id hp => hp.pass hprog rfl fun j hj => List.mem_append_right _ hj
    · rename_i id _
      refine h.quiet (m := s.mem) hi rfl (hrest.sync id now order status completedAt)
        (fun f _ => .inl ?_) fun id hp => hp.pass hprog rfl fun j hj => List.mem_append_right _ hj
      obtain ⟨j, hj, hr⟩ := saves_saveProgram rest f
      refine ⟨j, ?_, hr⟩
      rw [syncProgram, List.append_assoc]
      exact List.mem_append_right _ hj
  | fetch field => exact h.goes (m := s.mem) hi hprog (fun _ => rfl) rfl rfl rfl hrest hsame rfl
  | record id now order status completedAt =>
    refine h.put hi hprog rfl ?_ hok ⟨hfits, hrest⟩ (hfits.cons _) hlater ⟨true, List.mem_cons_self⟩
    show ((s.mem.sessions.lookup id).getD _).summary.id = id
    cases hl : s.mem.sessions.lookup id with
    | none => rfl
    | some r => exact h.keyed id r hl
  | usage now status =>
    unfold exec
    dsimp only
    split
    · exact h.goes (m := s.mem) hi hprog (fun _ => rfl) rfl rfl rfl hrest hsame rfl
    · exact h.goes (m := s.mem) hi hprog (fun _ => rfl) rfl rfl rfl ⟨hfits, hrest⟩ hlater rfl
  | usageOf id now status =>
    unfold exec
    dsimp only
    split
    · exact h.goes (m := s.mem) hi hprog (fun _ => rfl) rfl rfl rfl hrest hsame rfl
    · exact h.goes (m := s.mem) hi hprog (fun _ => rfl) rfl rfl rfl ⟨hfits, hrest⟩ hlater rfl
  | read g =>
    refine h.quiet (m := s.mem) hi rfl hrest (fun f howes => ?_) fun id hp => hp.pass hprog rfl hsame
    unfold Worker.Owes at howes
    rw [hprog] at howes
    rcases howes with ⟨j, hj, hr⟩ | ⟨hagree, j, hj, hr⟩
    · rcases List.mem_cons.mp hj with rfl | hj
      · obtain rfl : g = f := of_decide_eq_true hr
        exact .inr ⟨g.agree_copy _ _, hfits⟩
      · exact .inl ⟨j, hj, hr⟩
    · exact .inr ⟨Field.agree_copy_of_agree hagree g, hfits⟩
  | caught => exact h.goes (m := s.mem) hi hprog (fun _ => rfl) rfl rfl rfl hrest hsame rfl
  | write => exact h.files hi hprog hrest hfits (.inl rfl) hok
  | rename => exact h.files hi hprog hrest hfits (.inr (.inl rfl)) hok
  | remove => exact h.files hi hprog hrest hfits (.inr (.inr (.inl rfl))) hok
  | renameAgain => exact h.files hi hprog hrest hfits (.inr (.inr (.inr rfl))) hok

theorem sound_step {s' : Storage} {a : StorageAction} (h : s.Sound) (hok : s.StepOk a)
    (hs : s.step a = some s') : s'.Sound := by
  cases a with
  | «begin» op =>
    obtain rfl := Option.some.inj hs
    refine ⟨?_, fun f => ?_, h.keyed, h.nodup, h.loadable, fun id hid => ?_, h.gone⟩
    · intro w hw
      rcases List.mem_append.mp hw with hw | hw
      · exact h.proper w hw
      · obtain rfl := List.mem_singleton.mp hw
        exact op.proper
    · exact (h.covered f).imp_right fun ⟨w, hw, howes⟩ => ⟨w, List.mem_append_left _ hw, howes⟩
    · exact (h.listed id hid).imp_right fun ⟨w, hw, hp⟩ => ⟨w, List.mem_append_left _ hw, hp⟩
  | run i ok =>
    rw [step] at hs
    split at hs
    · rename_i w hi
      split at hs
      · rename_i instr rest hprog
        obtain rfl := Option.some.inj hs
        exact h.run hi hprog (hok w instr rest hi hprog)
      · cases hs
    · cases hs
  | restart =>
    rw [step] at hs
    split at hs
    · rename_i hidle
      obtain rfl := Option.some.inj hs
      obtain ⟨hdecoded, hnodup, hids, hgone⟩ := h.settled hidle
      have hsessions : s.decoded.sessions = s.mem.sessions := congrArg PersistedState.sessions hdecoded
      have hhistory : s.decoded.sessionHistory = s.mem.sessionHistory :=
        congrArg PersistedState.sessionHistory hdecoded
      refine ⟨List.forall_mem_nil _, fun f => .inl (f.agree_refl _), ?_, ?_, ?_, ?_, ?_⟩
      · show ∀ id r, s.decoded.sessions.lookup id = some r → _
        rw [hsessions]
        exact h.keyed
      · show (s.decoded.sessionHistory.map SessionSummary.id).Nodup
        rw [hhistory]
        exact hnodup
      · show ∀ id ∈ s.decoded.sessionHistory.map SessionSummary.id, id ∈ s.decoded.sessions
        rw [hhistory, hsessions]
        exact h.loadable
      · show ∀ id ∈ s.decoded.sessions, id ∈ s.decoded.sessionHistory.map SessionSummary.id ∨ _
        rw [hhistory, hsessions]
        exact fun id hid => .inl ((hids id).mpr hid)
      · show ∀ id ∈ s.deleted, id ∉ s.decoded.sessions
        rw [hsessions]
        exact h.gone
    · cases hs

end Storage

open Storage

/-- **The disk is right when all is done**, in every state of a run whose steps all meet the
condition. -/
theorem settled_of_stepOk {past : List (Storage × StorageAction)} {s : Storage}
    (h : Execution Storage.step fresh past s) (hok : ∀ e ∈ past, e.1.StepOk e.2) :
    (∀ e ∈ past, e.1.Settled) ∧ s.Settled := by
  have hsound : ∀ {past s}, Execution Storage.step fresh past s →
      (∀ e ∈ past, e.1.StepOk e.2) → s.Sound := fun hrun hall =>
    hrun.invariant_of sound_fresh (fun _ _ _ hs hstep hnext => sound_step hs hstep hnext) hall
  induction h with
  | start => exact ⟨List.forall_mem_nil _, sound_fresh.settled⟩
  | next hrest hs ih =>
    obtain ⟨-, htail⟩ := List.forall_mem_cons.mp hok
    obtain ⟨hall, hlast⟩ := ih htail
    exact ⟨List.forall_mem_cons.mpr ⟨hlast, hall⟩, (hsound (hrest.next hs) hok).settled⟩

theorem stepOk_run {s : Storage} {w : Worker} {i : ℕ} {rest : List Instr} {instr : Instr} {ok : Bool}
    (hi : s.workers[i]? = some w) (hprog : w.program = instr :: rest)
    (hok : s.InstrOk i w rest ok instr) : s.StepOk (.run i ok) := by
  intro w₁ instr₁ rest₁ hi₁ hprog₁
  obtain rfl := Option.some.inj (hi.symm.trans hi₁)
  obtain ⟨rfl, rfl⟩ := List.cons.inj (hprog.symm.trans hprog₁)
  exact hok

/-- A session is started, undisturbed. -/
theorem settled_started : ∃ past s, Execution Storage.step fresh past s ∧ s.Idle ∧
    s.mem.currentSessionId = some "A" ∧ s.Settled := by
  have hrun : Execution.runActions Storage.step
      (.begin (.startSession 1 "A" "write a parser" "auto") :: List.replicate 15 (.run 0 true)) []
      fresh = some (_, _) := rfl
  have hexec := Execution.ofRun .start hrun
  refine ⟨_, _, hexec, by decide, rfl, (settled_of_stepOk hexec ?_).2⟩
  -- newest first: the save, the list, the record, the live fields, the current session
  refine List.forall_mem_cons.mpr ⟨stepOk_run rfl rfl ⟨rfl, fun f _ => .inl ?_⟩, ?_⟩
  · cases f <;> rfl
  refine List.forall_mem_cons.mpr ⟨stepOk_run rfl rfl rfl, ?_⟩
  iterate 5 refine List.forall_mem_cons.mpr ⟨stepOk_run rfl rfl trivial, ?_⟩
  refine List.forall_mem_cons.mpr ⟨stepOk_run rfl rfl ((AList.mem_insert _).mpr (.inl rfl)), ?_⟩
  refine List.forall_mem_cons.mpr ⟨stepOk_run rfl rfl List.not_mem_nil, ?_⟩
  iterate 6 refine List.forall_mem_cons.mpr ⟨stepOk_run rfl rfl trivial, ?_⟩
  exact List.forall_mem_singleton.mpr trivial

def openaiConfig : Config := ⟨"auto", "openai", "", true, false⟩

/-- **The state file is lost**: two saves overlap; the first renames what the second has written, and
the second, which finds nothing to rename, removes the state file. -/
theorem not_settled : ¬ ∀ (past : List (Storage × StorageAction)) (s : Storage),
    Execution Storage.step fresh past s → s.Settled := by
  intro hclaim
  have hrun : Execution.runActions Storage.step
      ([.begin (.saveConfig .default), .begin (.saveConfig openaiConfig)] ++
        List.replicate 7 (.run 0 true) ++ List.replicate 7 (.run 1 true) ++
        [.run 0 true, .run 1 true, .run 1 true, .run 1 true]) [] fresh = some (_, _) := rfl
  have hsettled := hclaim _ _ (.ofRun .start hrun) (by decide)
  have hconfig := congrArg PersistedState.config hsettled.1
  revert hconfig
  decide

end Mowis.Desktop
