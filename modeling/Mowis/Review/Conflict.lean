import Mowis.Lib.HashMap
import Mowis.Review.Diff

/-!
# Conflict detection

`ConflictDetector::detect` and `hunks_overlap_between_agents` of
`agentd/src/orchestration/merge_reviewer.rs`.
-/

namespace Mowis.Review

open Mowis.Lib

inductive ConflictType where
  | fileOverlap
  | deleteModify
  | semanticConflict
  deriving DecidableEq, Repr

inductive ConflictSeverity where
  | low
  | medium
  | high
  | critical
  deriving DecidableEq, Repr

def ConflictSeverity.rank : ConflictSeverity → ℕ
  | low => 0
  | medium => 1
  | high => 2
  | critical => 3

structure MergeConflict where
  conflictType : ConflictType
  filePath : Text
  agentsInvolved : List Text
  description : Text
  severity : ConflictSeverity
  deriving DecidableEq, Repr

/-- The build's behaviour on overflow. -/
inductive Overflow where
  | panics
  | wraps
  deriving DecidableEq, Repr

/-- `u32` addition. -/
def addU32 (mode : Overflow) (a b : UInt32) : Option UInt32 :=
  match mode with
  | .wraps => some (a + b)
  | .panics => if a.toNat + b.toNat < 2 ^ 32 then some (a + b) else none

def overlapsSome (mode : Overflow) (hi : DiffHunk) (iEnd : UInt32) : List DiffHunk → Option Bool
  | [] => some false
  | hj :: rest =>
    match addU32 mode hj.oldStart hj.oldCount with
    | none => none
    | some jEnd =>
      if hi.oldStart < jEnd ∧ hj.oldStart < iEnd then some true
      else overlapsSome mode hi iEnd rest

def hunksOverlap (mode : Overflow) (hjs : List DiffHunk) : List DiffHunk → Option Bool
  | [] => some false
  | hi :: rest =>
    match addU32 mode hi.oldStart hi.oldCount with
    | none => none
    | some iEnd =>
      match overlapsSome mode hi iEnd hjs with
      | none => none
      | some true => some true
      | some false => hunksOverlap mode hjs rest

/-- The inner loop over the entries after entry `i`. -/
def overlapsLater (mode : Overflow) (entry : ℕ × FileChange) : List (ℕ × FileChange) → Option Bool
  | [] => some false
  | later :: rest =>
    if entry.1 = later.1 then overlapsLater mode entry rest
    else
      match hunksOverlap mode later.2.hunks entry.2.hunks with
      | none => none
      | some true => some true
      | some false => overlapsLater mode entry rest

def hunksOverlapBetweenAgents (mode : Overflow) : List (ℕ × FileChange) → Option Bool
  | [] => some false
  | entry :: rest =>
    match overlapsLater mode entry rest with
    | none => none
    | some true => some true
    | some false => hunksOverlapBetweenAgents mode rest

def indexedChanges (contributions : List AgentContribution) : List (ℕ × FileChange) :=
  contributions.zipIdx.flatMap fun c => c.1.fileChanges.map fun fc => (c.2, fc)

def fileMap (contributions : List AgentContribution) : HashMap Text (List (ℕ × FileChange)) :=
  HashMap.groupBy (fun e : ℕ × FileChange => e.2.filePath) id (indexedChanges contributions)

def isDeleted (fc : FileChange) : Bool := fc.changeType = .deleted

def agentIdAt (contributions : List AgentContribution) (i : ℕ) : Text :=
  match contributions[i]? with
  | some c => c.agentId
  | none => []

def conflictAt (mode : Overflow) (contributions : List AgentContribution) (filePath : Text)
    (entries : List (ℕ × FileChange)) : Option (Option MergeConflict) :=
  if entries.length ≤ 1 then some none
  else
    let agentsInvolved := entries.map fun e => agentIdAt contributions e.1
    let hasDelete := entries.any fun e => isDeleted e.2
    let hasNonDelete := entries.any fun e => !isDeleted e.2
    if hasDelete ∧ hasNonDelete then
      some (some {
        conflictType := .deleteModify
        filePath
        agentsInvolved
        description :=
          "Agent wants to delete '".toList ++ filePath ++ "' while another modifies it".toList
        severity := .critical })
    else
      match hunksOverlapBetweenAgents mode entries with
      | none => none
      | some overlap =>
        some (some {
          conflictType := .fileOverlap
          filePath
          agentsInvolved
          description :=
            "Multiple agents modified '".toList ++ filePath ++ "' (".toList ++
              (if overlap then "overlapping line ranges — needs LLM review"
                else "non-overlapping hunks — likely auto-mergeable").toList ++ ")".toList
          severity := if overlap then .medium else .low })

def conflictsOf (mode : Overflow) (contributions : List AgentContribution)
    (m : HashMap Text (List (ℕ × FileChange))) : List Text → Option (List MergeConflict)
  | [] => some []
  | path :: paths =>
    match conflictAt mode contributions path (m.bucket path) with
    | none => none
    | some conflict => (conflictsOf mode contributions m paths).map (conflict.toList ++ ·)

/-- `ConflictDetector::detect`. -/
def detect (mode : Overflow) (order : IterOrder Text) (contributions : List AgentContribution) :
    Option (List MergeConflict) :=
  let m := fileMap contributions
  (conflictsOf mode contributions m (order.arrange m.keys)).map fun conflicts =>
    conflicts.mergeSort fun a b => b.severity.rank ≤ a.severity.rank

theorem conflictAt_some {mode : Overflow} {contributions : List AgentContribution}
    {path : Text} {entries : List (ℕ × FileChange)} {r : Option MergeConflict}
    (h : conflictAt mode contributions path entries = some r) :
    (r = none ↔ entries.length ≤ 1) ∧
      ∀ c, r = some c → c.filePath = path ∧
        (c.conflictType = .deleteModify ↔
          (∃ e ∈ entries, isDeleted e.2) ∧ ∃ e ∈ entries, ¬ isDeleted e.2) := by
  unfold conflictAt at h
  split at h
  · next hlen =>
    cases h
    exact ⟨by simp [hlen], by simp⟩
  · next hlen =>
    simp only at h
    split at h
    · next hboth =>
      cases h
      simp only [List.any_eq_true, Bool.not_eq_true'] at hboth
      simp [hlen, hboth]
    · next hboth =>
      simp only [List.any_eq_true, Bool.not_eq_true'] at hboth
      split at h
      · cases h
      · cases h
        simp only [reduceCtorEq, hlen, Option.some.injEq, forall_eq', true_and, false_iff,
          Bool.not_eq_true, iff_self]
        exact hboth

theorem mem_conflictsOf {mode : Overflow} {contributions : List AgentContribution}
    {m : HashMap Text (List (ℕ × FileChange))} {paths : List Text} {conflicts : List MergeConflict}
    (h : conflictsOf mode contributions m paths = some conflicts) (c : MergeConflict) :
    c ∈ conflicts ↔
      ∃ path ∈ paths, conflictAt mode contributions path (m.bucket path) = some (some c) := by
  induction paths generalizing conflicts with
  | nil =>
    cases h
    simp
  | cons path paths ih =>
    rw [conflictsOf] at h
    cases hat : conflictAt mode contributions path (m.bucket path) with
    | none => simp [hat] at h
    | some r =>
      simp only [hat] at h
      obtain ⟨rest, hrest, rfl⟩ := Option.map_eq_some_iff.mp h
      simp [List.mem_append, ih hrest, hat, eq_comm]

theorem conflictAt_of_mem_conflictsOf {mode : Overflow} {contributions : List AgentContribution}
    {m : HashMap Text (List (ℕ × FileChange))} {paths : List Text} {conflicts : List MergeConflict}
    (h : conflictsOf mode contributions m paths = some conflicts) {path : Text}
    (hpath : path ∈ paths) :
    ∃ r, conflictAt mode contributions path (m.bucket path) = some r := by
  induction paths generalizing conflicts with
  | nil => exact absurd hpath List.not_mem_nil
  | cons p paths ih =>
    rw [conflictsOf] at h
    cases hat : conflictAt mode contributions p (m.bucket p) with
    | none => simp [hat] at h
    | some r =>
      simp only [hat] at h
      obtain ⟨rest, hrest, -⟩ := Option.map_eq_some_iff.mp h
      rcases List.mem_cons.mp hpath with rfl | hpath
      · exact ⟨r, hat⟩
      · exact ih hrest hpath

def entriesAt (contributions : List AgentContribution) (path : Text) : List (ℕ × FileChange) :=
  (indexedChanges contributions).filter fun e => e.2.filePath = path

theorem bucket_fileMap (contributions : List AgentContribution) (path : Text) :
    (fileMap contributions).bucket path = entriesAt contributions path := by
  rw [fileMap, HashMap.bucket_groupBy, List.map_id]
  rfl

theorem mem_keys_fileMap {contributions : List AgentContribution} {path : Text} :
    path ∈ (fileMap contributions).keys ↔ entriesAt contributions path ≠ [] := by
  show path ∈ fileMap contributions ↔ _
  rw [fileMap, HashMap.mem_groupBy, Ne, entriesAt, List.filter_eq_nil_iff]
  simp

theorem mem_detect {mode : Overflow} {order : IterOrder Text}
    {contributions : List AgentContribution} {conflicts : List MergeConflict}
    (h : detect mode order contributions = some conflicts) (c : MergeConflict) :
    c ∈ conflicts ↔ ∃ path, entriesAt contributions path ≠ [] ∧
      conflictAt mode contributions path (entriesAt contributions path) = some (some c) := by
  obtain ⟨found, hfound, rfl⟩ := Option.map_eq_some_iff.mp h
  rw [List.mem_mergeSort, mem_conflictsOf hfound]
  simp only [IterOrder.mem_arrange, mem_keys_fileMap, bucket_fileMap]

theorem conflictAt_of_detect {mode : Overflow} {order : IterOrder Text}
    {contributions : List AgentContribution} {conflicts : List MergeConflict}
    (h : detect mode order contributions = some conflicts) {path : Text}
    (hpath : entriesAt contributions path ≠ []) :
    ∃ r, conflictAt mode contributions path (entriesAt contributions path) = some r := by
  obtain ⟨found, hfound, -⟩ := Option.map_eq_some_iff.mp h
  have hmem : path ∈ order.arrange (fileMap contributions).keys :=
    (order.mem_arrange _ _).mpr (mem_keys_fileMap.mpr hpath)
  have hat := conflictAt_of_mem_conflictsOf hfound hmem
  rwa [bucket_fileMap] at hat

theorem reported_iff {mode : Overflow} {order : IterOrder Text}
    {contributions : List AgentContribution} {conflicts : List MergeConflict}
    (h : detect mode order contributions = some conflicts) (path : Text) :
    (∃ c ∈ conflicts, c.filePath = path) ↔ 2 ≤ (entriesAt contributions path).length := by
  constructor
  · intro ⟨c, hc, hpath⟩
    obtain ⟨p, -, hat⟩ := (mem_detect h c).mp hc
    obtain ⟨hnone, hsome⟩ := conflictAt_some hat
    rw [← hpath, (hsome c rfl).1]
    by_contra hlen
    have hcontra := hnone.mpr (by omega)
    cases hcontra
  · intro hlen
    have hne : entriesAt contributions path ≠ [] := List.length_pos_iff.mp (by omega)
    obtain ⟨r, hat⟩ := conflictAt_of_detect h hne
    obtain ⟨hnone, hsome⟩ := conflictAt_some hat
    cases r with
    | none => exact absurd (hnone.mp rfl) (by omega)
    | some c => exact ⟨c, (mem_detect h c).mpr ⟨path, hne, hat⟩, (hsome c rfl).1⟩

theorem deleteModify_iff {mode : Overflow} {order : IterOrder Text}
    {contributions : List AgentContribution} {conflicts : List MergeConflict}
    (h : detect mode order contributions = some conflicts) (path : Text) :
    (∃ c ∈ conflicts, c.filePath = path ∧ c.conflictType = .deleteModify) ↔
      (∃ e ∈ entriesAt contributions path, isDeleted e.2) ∧
        ∃ e ∈ entriesAt contributions path, ¬ isDeleted e.2 := by
  constructor
  · intro ⟨c, hc, hpath, htype⟩
    obtain ⟨p, -, hat⟩ := (mem_detect h c).mp hc
    obtain ⟨hp, hiff⟩ := (conflictAt_some hat).2 c rfl
    rw [← hpath, hp]
    exact hiff.mp htype
  · intro hboth
    obtain ⟨⟨d, hd, hdel⟩, ⟨e, he, hkeep⟩⟩ := hboth
    have hne : entriesAt contributions path ≠ [] := List.ne_nil_of_mem hd
    obtain ⟨r, hat⟩ := conflictAt_of_detect h hne
    obtain ⟨hnone, hsome⟩ := conflictAt_some hat
    cases r with
    | none =>
      -- a single entry cannot both delete and keep the path
      have hlen := hnone.mp rfl
      match entriesAt contributions path, hlen, hd, he with
      | [x], _, hd, he =>
        rw [List.mem_singleton] at hd he
        exact absurd (he ▸ hd ▸ hdel) hkeep
    | some c =>
      obtain ⟨hp, hiff⟩ := hsome c rfl
      exact ⟨c, (mem_detect h c).mpr ⟨path, hne, hat⟩, hp, hiff.mpr ⟨⟨d, hd, hdel⟩, e, he, hkeep⟩⟩

theorem overlapsSome_wraps (hi : DiffHunk) (iEnd : UInt32) (hjs : List DiffHunk) :
    ∃ b, overlapsSome .wraps hi iEnd hjs = some b := by
  induction hjs with
  | nil => exact ⟨false, rfl⟩
  | cons hj hjs ih =>
    rw [overlapsSome, addU32]
    simp only
    split
    · exact ⟨true, rfl⟩
    · exact ih

theorem hunksOverlap_wraps (hjs his : List DiffHunk) :
    ∃ b, hunksOverlap .wraps hjs his = some b := by
  induction his with
  | nil => exact ⟨false, rfl⟩
  | cons hi his ih =>
    rw [hunksOverlap, addU32]
    simp only
    obtain ⟨b, hb⟩ := overlapsSome_wraps hi (hi.oldStart + hi.oldCount) hjs
    rw [hb]
    cases b with
    | true => exact ⟨true, rfl⟩
    | false => exact ih

theorem overlapsLater_wraps (entry : ℕ × FileChange) (later : List (ℕ × FileChange)) :
    ∃ b, overlapsLater .wraps entry later = some b := by
  induction later with
  | nil => exact ⟨false, rfl⟩
  | cons l later ih =>
    rw [overlapsLater]
    split
    · exact ih
    · obtain ⟨b, hb⟩ := hunksOverlap_wraps l.2.hunks entry.2.hunks
      rw [hb]
      cases b with
      | true => exact ⟨true, rfl⟩
      | false => exact ih

theorem hunksOverlapBetweenAgents_wraps (entries : List (ℕ × FileChange)) :
    ∃ b, hunksOverlapBetweenAgents .wraps entries = some b := by
  induction entries with
  | nil => exact ⟨false, rfl⟩
  | cons entry entries ih =>
    rw [hunksOverlapBetweenAgents]
    obtain ⟨b, hb⟩ := overlapsLater_wraps entry entries
    rw [hb]
    cases b with
    | true => exact ⟨true, rfl⟩
    | false => exact ih

theorem conflictAt_wraps (contributions : List AgentContribution) (path : Text)
    (entries : List (ℕ × FileChange)) :
    ∃ r, conflictAt .wraps contributions path entries = some r := by
  unfold conflictAt
  split
  · exact ⟨none, rfl⟩
  · simp only
    split
    · exact ⟨_, rfl⟩
    · obtain ⟨b, hb⟩ := hunksOverlapBetweenAgents_wraps entries
      rw [hb]
      exact ⟨_, rfl⟩

theorem detect_wraps (order : IterOrder Text) (contributions : List AgentContribution) :
    ∃ conflicts, detect .wraps order contributions = some conflicts := by
  have hloop : ∀ paths, ∃ found,
      conflictsOf .wraps contributions (fileMap contributions) paths = some found := by
    intro paths
    induction paths with
    | nil => exact ⟨[], rfl⟩
    | cons path paths ih =>
      obtain ⟨found, hfound⟩ := ih
      obtain ⟨r, hr⟩ :=
        conflictAt_wraps contributions path ((fileMap contributions).bucket path)
      exact ⟨r.toList ++ found, by rw [conflictsOf, hr, hfound]; rfl⟩
  obtain ⟨found, hfound⟩ := hloop (order.arrange (fileMap contributions).keys)
  exact ⟨_, by rw [detect, hfound]; rfl⟩

end Mowis.Review
