import Mowis.Lib.FileTree
import Mowis.Routing.Classify

/-!
# The scan of the project

`scan_directory_tree` of `agentd/src/orchestration/planner.rs` lists the project with `tree`, with
`find` where that fails, and on other systems with a walk of its own.
-/

namespace Mowis.Routing

open Mowis.Lib

variable {C : Type}

mutual

/-- The path of an entry and those below it, each with whether it is a directory. -/
def visitTree (path : List Text) : Tree Text C → List (List Text × Bool)
  | .file _ => [(path, false)]
  | .dir es => (path, true) :: visit path es

def visit (above : List Text) : Entries Text C → List (List Text × Bool)
  | [] => []
  | (name, t) :: rest => visitTree (above ++ [name]) t ++ visit above rest

end

def nameOf (p : List Text × Bool) : Text := p.1.getLast?.getD []

@[simp] theorem nameOf_snoc (above : List Text) (name : Text) (isDir : Bool) :
    nameOf (above ++ [name], isDir) = name := by
  rw [nameOf, List.getLast?_concat]
  rfl

/-- What `walk_dir_recursive` skips. -/
def skipped (name : Text) : Bool :=
  name.head? == some '.' || name == "node_modules".toList || name == "target".toList

def maxDepth : ℕ := 3

def indentOf (depth : ℕ) : Text := List.replicate (2 * depth) ' '

mutual

def walkEntry (depth : ℕ) (name : Text) : Tree Text C → List Text
  | .file _ => [indentOf depth ++ name]
  | .dir es => (indentOf depth ++ (name ++ ['/'])) :: walkDirRecursive (depth + 1) es

def walkDirRecursive (depth : ℕ) : Entries Text C → List Text
  | [] => []
  | (name, t) :: rest =>
    (if depth > maxDepth || skipped name then [] else walkEntry depth name t) ++
      walkDirRecursive depth rest

end

def walkOutput (es : Entries Text C) : Text := (walkDirRecursive 0 es).flatMap endLine

/-- A path that `find` prints. -/
def child (parent name : Text) : Text :=
  if parent.getLast? = some '/' then parent ++ name else parent ++ '/' :: name

mutual

def findEntry (depth : ℕ) (path : Text) : Tree Text C → List Text
  | .file _ => [path]
  | .dir es => path :: findBelow (depth + 1) path es

/-- The entries below a directory, down to `-maxdepth 3`. -/
def findBelow (depth : ℕ) (parent : Text) : Entries Text C → List Text
  | [] => []
  | (name, t) :: rest =>
    (if depth > maxDepth then [] else findEntry depth (child parent name) t) ++
      findBelow depth parent rest

end

def findOutput (root : Text) (es : Entries Text C) : Text :=
  (root :: findBelow 1 root es).flatMap endLine

/-- What `tree` draws with: in front of an entry and of the last entry, and below them. -/
structure Drawing where
  tee : Text
  corner : Text
  bar : Text
  blank : Text
  decoration : ∀ piece ∈ [tee, corner, bar, blank], ∀ c ∈ piece, isDecoration c = true
  drawn : ∀ piece ∈ [tee, corner], ∃ c ∈ piece, c ≠ ' '

def boxes : Drawing where
  tee := ['├', '─', '─', ' ']
  corner := ['└', '─', '─', ' ']
  bar := ['│', ' ', ' ', ' ']
  blank := [' ', ' ', ' ', ' ']
  decoration := by simp [isDecoration]
  drawn := by simp

/-- What `tree` leaves out: hidden entries and those that `-I` names. -/
def unlisted (name : Text) : Bool :=
  name.head? == some '.' ||
    ["node_modules", "target", ".git", "dist", "build"].any fun n => name == n.toList

mutual

def drawEntry (d : Drawing) (level : ℕ) (indent : Text) (isLast : Bool) (name : Text) :
    Tree Text C → List Text
  | .file _ => [indent ++ (if isLast then d.corner else d.tee) ++ name]
  | .dir es => (indent ++ (if isLast then d.corner else d.tee) ++ name) ::
      drawBelow d (level + 1) (indent ++ if isLast then d.blank else d.bar) es

/-- The entries below a directory, down to `-L 3`. -/
def drawBelow (d : Drawing) (level : ℕ) (indent : Text) : Entries Text C → List Text
  | [] => []
  | (name, t) :: rest =>
    (if level > maxDepth || unlisted name then []
      else drawEntry d level indent (rest.all fun e => unlisted e.1) name t) ++
      drawBelow d level indent rest

end

/-- The last line, with the numbers that are reported. -/
def summary (dirs files : ℕ) : Text :=
  Nat.toDigits 10 dirs ++ ((if dirs = 1 then " directory, " else " directories, ").toList ++
    (Nat.toDigits 10 files ++ (if files = 1 then " file" else " files").toList))

def treeOutput (d : Drawing) (root : Text) (es : Entries Text C) (dirs files : ℕ) : Text :=
  (root :: (drawBelow d 1 [] es ++ [[], summary dirs files])).flatMap endLine

/-- What a command that could be started has left. -/
structure Output where
  success : Bool
  stdout : Text
  stderr : Text

def scanFind : Option Output → Except String Text
  | none => .error "Failed to run find command"
  | some out =>
    if !out.success then .error ("find command failed: " ++ String.ofList out.stderr)
    else if out.stdout.isEmpty then .error "Directory scan returned empty result"
    else .ok out.stdout

def scanLinux (tree find : Option Output) : Except String Text :=
  match tree with
  | some out => if out.success && !out.stdout.isEmpty then .ok out.stdout else scanFind find
  | none => scanFind find

def scanElsewhere (es : Entries Text C) : Except String Text :=
  if (walkOutput es).isEmpty then .error "Directory scan returned empty result"
  else .ok (walkOutput es)

/-- `unwrap_or_default` -/
def dirTree : Except String Text → Text
  | .ok listing => listing
  | .error _ => []

def selectMode (modeOverride : Option ComplexityMode) (lc : Lowercase) (prompt : Text)
    (scan : Except String Text) : ComplexityMode :=
  match modeOverride with
  | some forced => forced
  | none => (classifyComplexity lc prompt (dirTree scan)).mode

theorem dirTree_tree (out : Text) (stderr : Text) (find : Option Output) (h : out ≠ []) :
    dirTree (scanLinux (some ⟨true, out, stderr⟩) find) = out := by
  have hfull : out.isEmpty = false := by simpa using h
  simp [scanLinux, dirTree, hfull]

/-- A run of `tree` that is of no use. -/
def Unusable (tree : Option Output) : Prop :=
  ∀ out, tree = some out → (out.success && !out.stdout.isEmpty) = false

theorem unusable_none : Unusable none := fun _ h => by cases h

theorem dirTree_find {tree : Option Output} (htree : Unusable tree) (out : Text) (stderr : Text)
    (h : out ≠ []) : dirTree (scanLinux tree (some ⟨true, out, stderr⟩)) = out := by
  have hfull : out.isEmpty = false := by simpa using h
  have hfind : dirTree (scanFind (some ⟨true, out, stderr⟩)) = out := by
    simp [scanFind, dirTree, hfull]
  cases tree with
  | none => exact hfind
  | some done =>
    have hno := htree done rfl
    rw [scanLinux, hno, if_neg Bool.false_ne_true]
    exact hfind

theorem dirTree_walk (es : Entries Text C) : dirTree (scanElsewhere es) = walkOutput es := by
  unfold scanElsewhere
  split
  · next hempty => exact (List.isEmpty_iff.mp hempty).symm
  · rfl

structure PlainName (name : Text) : Prop where
  nonempty : name ≠ []
  slash : '/' ∉ name
  line : '\n' ∉ name
  skipped : Routing.skipped name = false
  unlisted : Routing.unlisted name = false

instance (name : Text) : Decidable (PlainName name) :=
  decidable_of_iff (name ≠ [] ∧ '/' ∉ name ∧ '\n' ∉ name ∧ Routing.skipped name = false ∧
      Routing.unlisted name = false)
    ⟨fun ⟨hne, hslash, hline, hskipped, hlisted⟩ => ⟨hne, hslash, hline, hskipped, hlisted⟩,
      fun h => ⟨h.nonempty, h.slash, h.line, h.skipped, h.unlisted⟩⟩

def Plain (above : List Text) (es : Entries Text C) : Prop :=
  ∀ p ∈ visit above es, p.1.length ≤ maxDepth ∧ PlainName (nameOf p)

instance (above : List Text) (es : Entries Text C) : Decidable (Plain above es) :=
  inferInstanceAs (Decidable (∀ p ∈ visit above es, p.1.length ≤ maxDepth ∧ PlainName (nameOf p)))

theorem mem_visit_head {above : List Text} {name : Text} {t : Tree Text C}
    {rest : Entries Text C} : (above ++ [name], t.isDir) ∈ visit above ((name, t) :: rest) := by
  rw [visit]
  cases t <;> simp [visitTree, Tree.isDir]

theorem Plain.head {above : List Text} {name : Text} {t : Tree Text C} {rest : Entries Text C}
    (h : Plain above ((name, t) :: rest)) : above.length + 1 ≤ maxDepth ∧ PlainName name := by
  have hhead := h _ mem_visit_head
  rwa [nameOf_snoc, List.length_append] at hhead

theorem Plain.rest {above : List Text} {name : Text} {t : Tree Text C} {rest : Entries Text C}
    (h : Plain above ((name, t) :: rest)) : Plain above rest := fun p hp =>
  h p (by rw [visit]; exact List.mem_append_right _ hp)

theorem Plain.below {above : List Text} {name : Text} {es rest : Entries Text C}
    (h : Plain above ((name, .dir es) :: rest)) : Plain (above ++ [name]) es := fun p hp =>
  h p (by rw [visit, visitTree]; exact List.mem_append_left _ (List.mem_cons_of_mem _ hp))

def Drawn (t : Text) : Prop := (∀ c ∈ t, isDecoration c = true) ∧ ∃ c ∈ t, c ≠ ' '

def DrawnAs (line : Text) (p : List Text × Bool) : Prop :=
  ∃ front, Drawn front ∧ line = front ++ nameOf p

structure FoundAs (root line : Text) (p : List Text × Bool) : Prop where
  full : p.1 ≠ []
  path : line = p.1.foldl child root
  plain : ∀ name ∈ p.1, PlainName name

def WalkedAs (line : Text) (p : List Text × Bool) : Prop :=
  ∃ n, line = List.replicate n ' ' ++ (nameOf p ++ if p.2 then ['/'] else [])

theorem Drawing.branch (d : Drawing) {indent : Text} (h : ∀ c ∈ indent, isDecoration c = true)
    (isLast : Bool) : Drawn (indent ++ if isLast then d.corner else d.tee) := by
  have hpiece : (if isLast then d.corner else d.tee) ∈ [d.tee, d.corner] := by
    cases isLast <;> simp
  obtain ⟨c, hc, hne⟩ := d.drawn _ hpiece
  refine ⟨List.forall_mem_append.mpr ⟨h, d.decoration _ ?_⟩, c, List.mem_append_right _ hc, hne⟩
  cases isLast <;> simp

theorem Drawing.indent (d : Drawing) {indent : Text} (h : ∀ c ∈ indent, isDecoration c = true)
    (isLast : Bool) :
    ∀ c ∈ indent ++ if isLast then d.blank else d.bar, isDecoration c = true := by
  refine List.forall_mem_append.mpr ⟨h, d.decoration _ ?_⟩
  cases isLast <;> simp

mutual

theorem drawn_entry (d : Drawing) {level : ℕ} {indent : Text} {above : List Text} {name : Text}
    (hlevel : level = above.length + 1) (hindent : ∀ c ∈ indent, isDecoration c = true)
    (isLast : Bool) : ∀ t : Tree Text C, (∀ es, t = .dir es → Plain (above ++ [name]) es) →
    List.Forall₂ DrawnAs (drawEntry d level indent isLast name t) (visitTree (above ++ [name]) t)
  | .file _, _ => .cons ⟨_, d.branch hindent isLast, by rw [nameOf_snoc]⟩ .nil
  | .dir es, h => .cons ⟨_, d.branch hindent isLast, by rw [nameOf_snoc]⟩
      (drawn_below d (by rw [hlevel, List.length_append]; rfl) (d.indent hindent isLast) es
        (h es rfl))

theorem drawn_below (d : Drawing) {level : ℕ} {indent : Text} {above : List Text}
    (hlevel : level = above.length + 1) (hindent : ∀ c ∈ indent, isDecoration c = true) :
    ∀ es : Entries Text C, Plain above es →
    List.Forall₂ DrawnAs (drawBelow d level indent es) (visit above es)
  | [], _ => .nil
  | (name, t) :: rest, h => by
    have hlisted : (decide (level > maxDepth) || unlisted name) = false := by
      rw [h.head.2.unlisted, Bool.or_false, hlevel, decide_eq_false_iff_not, not_lt]
      exact h.head.1
    rw [drawBelow, visit, hlisted, if_neg Bool.false_ne_true]
    refine List.rel_append (drawn_entry d hlevel hindent _ t fun es heq => ?_)
      (drawn_below d hlevel hindent rest h.rest)
    subst heq
    exact h.below

end

mutual

theorem found_entry {depth : ℕ} {root path : Text} {above : List Text} {name : Text}
    (hdepth : depth = above.length + 1) (hpath : path = (above ++ [name]).foldl child root)
    (hplain : ∀ n ∈ above ++ [name], PlainName n) :
    ∀ t : Tree Text C, (∀ es, t = .dir es → Plain (above ++ [name]) es) →
    List.Forall₂ (FoundAs root) (findEntry depth path t) (visitTree (above ++ [name]) t)
  | .file _, _ => .cons ⟨by simp, hpath, hplain⟩ .nil
  | .dir es, h => .cons ⟨by simp, hpath, hplain⟩
      (found_below (by rw [hdepth, List.length_append]; rfl) hpath hplain es (h es rfl))

theorem found_below {depth : ℕ} {root parent : Text} {above : List Text}
    (hdepth : depth = above.length + 1) (hparent : parent = above.foldl child root)
    (hplain : ∀ n ∈ above, PlainName n) : ∀ es : Entries Text C, Plain above es →
    List.Forall₂ (FoundAs root) (findBelow depth parent es) (visit above es)
  | [], _ => .nil
  | (name, t) :: rest, h => by
    have hlisted : ¬ depth > maxDepth := by
      have hhead := h.head.1
      omega
    rw [findBelow, visit, if_neg hlisted]
    refine List.rel_append (found_entry hdepth ?_ ?_ t fun es heq => ?_)
      (found_below hdepth hparent hplain rest h.rest)
    · rw [List.foldl_append, hparent]
      rfl
    · exact List.forall_mem_append.mpr ⟨hplain, List.forall_mem_singleton.mpr h.head.2⟩
    · subst heq
      exact h.below

end

mutual

theorem walked_entry {depth : ℕ} {above : List Text} {name : Text}
    (hdepth : depth = above.length) : ∀ t : Tree Text C,
    (∀ es, t = .dir es → Plain (above ++ [name]) es) →
    List.Forall₂ WalkedAs (walkEntry depth name t) (visitTree (above ++ [name]) t)
  | .file _, _ => .cons ⟨2 * depth, by rw [nameOf_snoc]; simp [indentOf]⟩ .nil
  | .dir es, h => .cons ⟨2 * depth, by rw [nameOf_snoc]; simp [indentOf]⟩
      (walked_below (by rw [hdepth, List.length_append]; rfl) es (h es rfl))

theorem walked_below {depth : ℕ} {above : List Text} (hdepth : depth = above.length) :
    ∀ es : Entries Text C, Plain above es →
    List.Forall₂ WalkedAs (walkDirRecursive depth es) (visit above es)
  | [], _ => .nil
  | (name, t) :: rest, h => by
    have hlisted : (decide (depth > maxDepth) || skipped name) = false := by
      have hhead := h.head.1
      simp [h.head.2.skipped, hdepth]
      omega
    rw [walkDirRecursive, visit, hlisted, if_neg Bool.false_ne_true]
    refine List.rel_append (walked_entry hdepth t fun es heq => ?_)
      (walked_below hdepth rest h.rest)
    subst heq
    exact h.below

end

end Mowis.Routing
