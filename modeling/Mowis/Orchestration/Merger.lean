import Mowis.Lib.HashMap
import Mowis.Lib.WriteLog

/-!
# Merging by recorded paths

`Merger::record_agent_completion` and `merge_all` of `mowis-orchestration/src/merger.rs`.  The
merger keeps the paths of the last completion of every agent, and counts how often a path stands
in them.
-/

namespace Mowis.Orchestration

open Mowis.Lib

structure MergeConflict where
  path : String
  agentA : String
  agentB : String
  resolution : Option String
  deriving DecidableEq, Repr

structure MergeResult where
  success : Bool
  mergedFiles : List String
  conflicts : List MergeConflict
  deriving DecidableEq, Repr

/-- What the merger keeps: the changed paths of every agent. -/
abbrev AgentChanges := HashMap String (List String)

def recordAgentCompletion (changes : AgentChanges) (agentId : String) (changedPaths : List String) :
    AgentChanges := changes.insert agentId changedPaths

def recordAll (history : List (String × List String)) : AgentChanges :=
  history.foldl (fun changes r => recordAgentCompletion changes r.1 r.2) ∅

abbrev Entries := List (Sigma fun _ : String => List String)

def fileAgents (changes : Entries) : HashMap String (List String) :=
  changes.foldl (fun files e =>
    e.2.foldl (fun files path => HashMap.entryPush files path e.1) files) ∅

def conflictOf (path : String) : List String → Option MergeConflict
  | agentA :: agentB :: _ => some ⟨path, agentA, agentB, none⟩
  | _ => none

/-- `merge_all`, with the orders in which its two maps are walked. -/
def mergeAll (order order' : IterOrder (Sigma fun _ : String => List String))
    (changes : AgentChanges) : MergeResult :=
  let files := order'.arrange (fileAgents (order.arrange changes.entries)).entries
  let conflicts := files.filterMap fun e => conflictOf e.1 e.2
  { success := conflicts.isEmpty
    mergedFiles := files.map Sigma.fst
    conflicts }

def Recorded (history : List (String × List String)) (agent path : String) : Prop :=
  ∃ paths, (agent, paths) ∈ history ∧ path ∈ paths

def Contended (history : List (String × List String)) (path : String) : Prop :=
  ∃ a b, a ≠ b ∧ Recorded history a path ∧ Recorded history b path

structure MergesWell (history : List (String × List String)) (r : MergeResult) : Prop where
  conflicts : ∀ path, (∃ c ∈ r.conflicts, c.path = path) ↔ Contended history path
  success : r.success = true ↔ r.conflicts = []
  files : ∀ path, path ∈ r.mergedFiles ↔ ∃ agent, Recorded history agent path
  nodup : r.mergedFiles.Nodup

def lastPaths (history : List (String × List String)) (agent : String) : List String :=
  (lastWrite history agent).getD []

def listed (history : List (String × List String)) (path : String) : ℕ :=
  ((history.map Prod.fst).dedup.map fun agent => (lastPaths history agent).count path).sum

/-- A path that one agent recorded stands once in the last completions, and one that several agents
recorded stands there twice or more often. -/
def ListedRight (history : List (String × List String)) : Prop :=
  ∀ path, (Contended history path → 2 ≤ listed history path) ∧
    (¬ Contended history path → (∃ agent, Recorded history agent path) → listed history path = 1)

theorem lookup_recordAll (history : List (String × List String)) (agent : String) :
    (recordAll history).lookup agent = lastWrite history agent := by
  refine (HashMap.lookup_foldl_insert Prod.fst Prod.snd history ∅ agent).trans ?_
  rw [lastWrite, AList.lookup_empty, Option.or_none]

theorem keys_recordAll (history : List (String × List String)) :
    (recordAll history).keys.Perm (history.map Prod.fst).dedup := by
  refine (List.perm_ext_iff_of_nodup (recordAll history).keys_nodup (List.nodup_dedup _)).mpr
    fun agent => ?_
  rw [List.mem_dedup, ← AList.mem_keys, ← AList.lookup_isSome, lookup_recordAll,
    ← Option.ne_none_iff_isSome, ne_eq, lastWrite_eq_none_iff]
  simp

theorem mem_lastPaths {history : List (String × List String)} {agent path : String}
    (h : path ∈ lastPaths history agent) : Recorded history agent path := by
  rw [lastPaths] at h
  cases hlast : lastWrite history agent with
  | none =>
    rw [hlast] at h
    cases h
  | some paths =>
    rw [hlast] at h
    exact ⟨paths, mem_of_lastWrite hlast, h⟩

def pathAgents (changes : Entries) : List (String × String) :=
  changes.flatMap fun e => e.2.map fun path => (path, e.1)

theorem fileAgents_eq (changes : Entries) :
    fileAgents changes = HashMap.groupBy Prod.fst Prod.snd (pathAgents changes) := by
  have hfold : ∀ m, changes.foldl (fun files e =>
      e.2.foldl (fun files path => HashMap.entryPush files path e.1) files) m =
        (pathAgents changes).foldl (fun m x => HashMap.entryPush m x.1 x.2) m := by
    induction changes with
    | nil => exact fun _ => rfl
    | cons e changes ih =>
      intro m
      rw [List.foldl_cons, ih, pathAgents, pathAgents, List.flatMap_cons, List.foldl_append,
        List.foldl_map]
  exact hfold ∅

theorem length_bucket_fileAgents (changes : Entries) (path : String) :
    (HashMap.bucket (fileAgents changes) path).length =
      (changes.map fun e => e.2.count path).sum := by
  rw [fileAgents_eq, HashMap.bucket_groupBy, List.length_map, ← List.countP_eq_length_filter,
    pathAgents, List.countP_flatMap]
  congr 1
  refine List.map_congr_left fun e _ => ?_
  rw [Function.comp_apply, List.countP_map, List.count]
  exact List.countP_congr fun p _ => by simp

theorem length_agents (order : IterOrder (Sigma fun _ : String => List String))
    (history : List (String × List String)) (path : String) :
    (HashMap.bucket (fileAgents (order.arrange (recordAll history).entries)) path).length =
      listed history path := by
  have hentries : (recordAll history).entries.map (fun e => e.2.count path) =
      (recordAll history).keys.map fun agent => (lastPaths history agent).count path := by
    rw [AList.keys, List.keys, List.map_map]
    refine List.map_congr_left fun e he => ?_
    have hlookup : (recordAll history).lookup e.1 = some e.2 := AList.mem_lookup_iff.mpr he
    rw [lookup_recordAll] at hlookup
    rw [Function.comp_apply, lastPaths, hlookup, Option.getD_some]
  rw [length_bucket_fileAgents, ((order.perm _).map _).sum_eq, hentries, listed]
  exact ((keys_recordAll history).map _).sum_eq

theorem mem_fileAgents {changes : Entries} {path : String} :
    path ∈ fileAgents changes ↔ 1 ≤ (HashMap.bucket (fileAgents changes) path).length := by
  rw [fileAgents_eq, HashMap.mem_groupBy, HashMap.bucket_groupBy, List.length_map,
    Nat.one_le_iff_ne_zero, ne_eq, List.length_eq_zero_iff, List.filter_eq_nil_iff]
  simp

theorem conflictOf_path {path : String} {agents : List String} {c : MergeConflict}
    (h : conflictOf path agents = some c) : c.path = path ∧ 2 ≤ agents.length := by
  match agents, h with
  | a :: b :: rest, h =>
    cases h
    exact ⟨rfl, by simp⟩

theorem exists_conflictOf {path : String} {agents : List String} (h : 2 ≤ agents.length) :
    ∃ c, conflictOf path agents = some c ∧ c.path = path := by
  match agents, h with
  | a :: b :: rest, _ => exact ⟨_, rfl, rfl⟩

variable (order order' : IterOrder (Sigma fun _ : String => List String))
  (history : List (String × List String))

theorem mem_mergedFiles (path : String) :
    path ∈ (mergeAll order order' (recordAll history)).mergedFiles ↔ 1 ≤ listed history path := by
  rw [← length_agents order, ← mem_fileAgents, mergeAll, List.mem_map, AList.mem_keys,
    AList.keys, List.keys, List.mem_map]
  simp

theorem exists_conflict_iff (path : String) :
    (∃ c ∈ (mergeAll order order' (recordAll history)).conflicts, c.path = path) ↔
      2 ≤ listed history path := by
  have hlookup : ∀ e ∈ (fileAgents (order.arrange (recordAll history).entries)).entries,
      HashMap.bucket (fileAgents (order.arrange (recordAll history).entries)) e.1 = e.2 := by
    intro e he
    rw [HashMap.bucket, AList.mem_lookup_iff.mpr he, Option.getD_some]
  rw [← length_agents order, mergeAll]
  constructor
  · rintro ⟨c, hc, rfl⟩
    obtain ⟨e, he, hconflict⟩ := List.mem_filterMap.mp hc
    obtain ⟨hpath, hlen⟩ := conflictOf_path hconflict
    rwa [hpath, hlookup e ((order'.mem_arrange _ _).mp he)]
  · intro hlen
    have hmem := mem_fileAgents.mpr (one_le_two.trans hlen)
    obtain ⟨agents, hagents⟩ := Option.isSome_iff_exists.mp (AList.lookup_isSome.mpr hmem)
    have he := AList.mem_lookup_iff.mp hagents
    rw [hlookup _ he] at hlen
    obtain ⟨c, hc, hpath⟩ := @exists_conflictOf path agents hlen
    exact ⟨c, List.mem_filterMap.mpr ⟨⟨path, agents⟩, (order'.mem_arrange _ _).mpr he, hc⟩, hpath⟩

theorem recorded_of_listed {path : String} (h : 1 ≤ listed history path) :
    ∃ agent, Recorded history agent path := by
  by_contra hno
  refine absurd h (not_le.mpr (Nat.lt_one_iff.mpr (List.sum_eq_zero fun n hn => ?_)))
  obtain ⟨agent, -, rfl⟩ := List.mem_map.mp hn
  exact List.count_eq_zero.mpr fun hmem => hno ⟨agent, mem_lastPaths hmem⟩

/-- **When the merge tells what the agents changed.**  For every history of completions and any
order of the two maps: the conflicts are the paths that two agents recorded at any time and the
merged files are all recorded paths, exactly if a path that one agent recorded stands once in the
last completions and a path that several agents recorded stands there at least twice. -/
theorem mergesWell_iff :
    MergesWell history (mergeAll order order' (recordAll history)) ↔ ListedRight history := by
  constructor
  · intro h path
    refine ⟨fun hcontended => ?_, fun hno hrecorded => le_antisymm ?_ ?_⟩
    · rwa [← exists_conflict_iff order order', h.conflicts]
    · rw [← h.conflicts, exists_conflict_iff] at hno
      omega
    · rwa [← mem_mergedFiles order order', h.files]
  · intro h
    have hfiles : ∀ path, 1 ≤ listed history path ↔ ∃ agent, Recorded history agent path := by
      refine fun path => ⟨recorded_of_listed history, fun hrecorded => ?_⟩
      by_cases hcontended : Contended history path
      · exact one_le_two.trans ((h path).1 hcontended)
      · exact ((h path).2 hcontended hrecorded).ge
    refine ⟨fun path => ?_, List.isEmpty_iff, fun path => ?_, ?_⟩
    · rw [exists_conflict_iff]
      refine ⟨fun hlen => ?_, (h path).1⟩
      by_contra hno
      have hone := (h path).2 hno ((hfiles path).mp (one_le_two.trans hlen))
      omega
    · rw [mem_mergedFiles, hfiles]
    · exact ((order'.perm _).map Sigma.fst).nodup_iff.mpr (AList.keys_nodup _)

/-- The second completion of an agent replaces the first one. -/
theorem not_mergesWell : ¬ ∀ history,
    MergesWell history (mergeAll .stored .stored (recordAll history)) := by
  intro h
  have hmerge := (h [("ag-1", ["a.rs"]), ("ag-1", ["b.rs"])]).files "a.rs"
  have hlost : "a.rs" ∉ (mergeAll .stored .stored
      (recordAll [("ag-1", ["a.rs"]), ("ag-1", ["b.rs"])])).mergedFiles := by
    decide
  exact hlost (hmerge.mpr ⟨"ag-1", ["a.rs"], by simp, by simp⟩)

end Mowis.Orchestration
