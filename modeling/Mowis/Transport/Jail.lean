import Mowis.Lib.UnixPath

/-!
# Paths below a root, on either transport

`resolve_path` of `mowis-orchestration/src/host_tools.rs`, which the local transport uses below
the work directory of a crew, and `resolved_path` of `mowis-executor/src/tools.rs`, which the
guest uses below the root of a sandbox.
-/

namespace Mowis.Transport

open Mowis.Lib.UnixPath

/-- `resolve_path`; the components of the path are kept in `rel`. -/
def resolvePath (path workDir : RawPath) : RawPath :=
  let rel := (components path).foldl (fun rel comp =>
    match comp with
    | .root | .cur => rel
    | .parent => rel.dropLast
    | .normal c => rel ++ [c]) []
  rel.foldl push workDir

/-- `resolved_path`. -/
def resolvedPath (rootPath rel : RawPath) : RawPath :=
  push rootPath (rel.dropWhile fun b => b = slash)

/-- Where a path leads: a `.` does not matter. -/
def located (p : RawPath) : List Component := (components p).filter fun c => c ≠ .cur

theorem resolvePath_eq (path workDir : RawPath) :
    resolvePath path workDir = (clamp (components path)).foldl push workDir := by
  have hclimb : (fun (rel : List Name) (comp : Component) =>
      match comp with
      | .root | .cur => rel
      | .parent => rel.dropLast
      | .normal c => rel ++ [c]) = climb := by
    funext rel comp
    cases comp <;> rfl
  show ((components path).foldl _ []).foldl push workDir = _
  rw [hclimb]
  rfl

theorem components_resolvePath (path workDir : RawPath) :
    components (resolvePath path workDir) =
      components workDir ++ (clamp (components path)).map .normal := by
  rw [resolvePath_eq]
  exact components_push_names (fun _ hname => isName_of_mem_clamp hname) workDir

theorem steps_dropWhile_slash (p : RawPath) : steps (p.dropWhile fun b => b = slash) = steps p := by
  induction p with
  | nil => rfl
  | cons b p ih =>
    by_cases hb : b = slash
    · subst hb
      rw [List.dropWhile_cons_of_pos (by decide), ih, steps_slash_cons]
    · rw [List.dropWhile_cons_of_neg (by simpa using hb)]

theorem head?_dropWhile_slash (p : RawPath) :
    (p.dropWhile fun b => b = slash).head? ≠ some slash := by
  intro h
  have hnot := List.head?_dropWhile_not (fun b => decide (b = slash)) p
  rw [h] at hnot
  simp at hnot

theorem filter_lead (p : RawPath) :
    (lead p).filter (fun c => c ≠ .cur) = if p.head? = some slash then [.root] else [] := by
  unfold lead
  split
  · rfl
  · split <;> rfl

theorem head?_push {q : RawPath} (hq : q.head? ≠ some slash) (p : RawPath) :
    (push p q).head? = some slash ↔ p.head? = some slash := by
  rw [push, if_neg hq]
  cases p with
  | nil => simpa using hq
  | cons b p => split <;> rfl

theorem located_push {q : RawPath} (hq : q.head? ≠ some slash) (p : RawPath) :
    located (push p q) = located p ++ (steps q).filter fun c => c ≠ .cur := by
  rw [located, located, components, components, List.filter_append, List.filter_append,
    filter_lead, filter_lead, steps_push hq, List.filter_append, List.append_assoc]
  simp only [head?_push hq]

theorem filter_components (path : RawPath) :
    (components path).filter (fun c => c ≠ .root ∧ c ≠ .cur) =
      (steps path).filter fun c => c ≠ .cur := by
  have hsteps : ∀ c ∈ steps path, c ≠ .root := by
    rintro c hc rfl
    obtain ⟨name, -, hpiece⟩ := List.mem_filterMap.mp hc
    unfold piece at hpiece
    split at hpiece
    · cases hpiece
    · split at hpiece <;> cases hpiece
  have hlead : (lead path).filter (fun c => c ≠ .root ∧ c ≠ .cur) = [] := by
    rcases lead_cases path with h | h | h <;> rw [h] <;> rfl
  rw [components, List.filter_append, hlead, List.nil_append]
  refine List.filter_congr fun c hc => ?_
  simp [hsteps c hc]

theorem located_resolvedPath {path : RawPath} (h : .parent ∉ components path) (root : RawPath) :
    located (resolvedPath root path) =
      located root ++ (clamp (components path)).map .normal := by
  rw [clamp_of_no_parent h, filter_components, resolvedPath, located_push (head?_dropWhile_slash path),
    steps_dropWhile_slash]

theorem resolved_again (path workDir : RawPath) :
    components (resolvePath (resolvePath path workDir) workDir) =
      components workDir ++
        (clamp (components workDir) ++ clamp (components path)).map .normal := by
  rw [components_resolvePath, components_resolvePath, clamp_append_names]

/-- **Both transports stay below the root.**  The work directory is followed by the names of the
path in which every `..` is cancelled or clamped.  What lies below it is resolved to itself, and
a whole path that was resolved is taken for one below the work directory.  The guest leads a path
without `..` to the corresponding place. -/
theorem resolved_below (path workDir root : RawPath) :
    ∃ rel : List Name, Clamps (components path) rel ∧ (∀ name ∈ rel, IsName name) ∧
      components (resolvePath path workDir) = components workDir ++ rel.map .normal ∧
      (∀ again, (components again).filter (fun c => c ≠ .root ∧ c ≠ .cur) = rel.map .normal →
        resolvePath again workDir = resolvePath path workDir) ∧
      (∃ above, Clamps (components workDir) above ∧
        components (resolvePath (resolvePath path workDir) workDir) =
          components workDir ++ (above ++ rel).map .normal) ∧
      (.parent ∉ components path →
        located (resolvedPath root path) = located root ++ rel.map .normal) := by
  refine ⟨clamp (components path), clamps_clamp _, fun _ hname => isName_of_mem_clamp hname,
    components_resolvePath path workDir, ?_,
    ⟨clamp (components workDir), clamps_clamp _, resolved_again path workDir⟩,
    fun h => located_resolvedPath h root⟩
  intro again hagain
  have hparent : .parent ∉ components again := by
    intro hmem
    have hfilter : Component.parent ∈
        (components again).filter (fun c => c ≠ .root ∧ c ≠ .cur) :=
      List.mem_filter.mpr ⟨hmem, by decide⟩
    rw [hagain] at hfilter
    obtain ⟨_, _, heq⟩ := List.mem_map.mp hfilter
    cases heq
  have hclamp : clamp (components again) = clamp (components path) := by
    have hinj : Function.Injective Component.normal := fun _ _ h => Component.normal.inj h
    apply List.map_injective_iff.mpr hinj
    rw [clamp_of_no_parent hparent, hagain]
  rw [resolvePath_eq, resolvePath_eq, hclamp]

/-- A resolved path changes when it is resolved again, and on the guest a `..` climbs out of the
sandbox. -/
theorem not_resolved_below :
    components (resolvePath (resolvePath (ofString "index.html") (ofString "/tmp/sandbox"))
        (ofString "/tmp/sandbox")) ≠
      components (resolvePath (ofString "index.html") (ofString "/tmp/sandbox")) ∧
    Clamps (components (resolvedPath (ofString "/tmp/sandbox") (ofString "../../etc/passwd")))
      [ofString "etc", ofString "passwd"] := by
  constructor
  · decide
  · rw [clamps_iff]
    decide

end Mowis.Transport
