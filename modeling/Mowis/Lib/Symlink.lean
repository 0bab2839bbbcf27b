import Mowis.Lib.UnixPath

/-!
# Paths in a tree with symbolic links

A place is the list of names that leads from the top of the tree to it, through directories only.
A path is walked component by component, with as many links as the kernel allows.
-/

namespace Mowis.Lib.Symlink

open UnixPath

abbrev Place := List Name

inductive Node where
  | dir
  | file (content : List UInt8)
  | link (target : RawPath)
  deriving DecidableEq, Repr

structure Fs where
  node : Place → Option Node
  cwd : Place

/-- The entries of the tree are in directories. -/
structure Fs.WellFormed (fs : Fs) : Prop where
  top : fs.node [] = some .dir
  parent : ∀ place name, fs.node (place ++ [name]) ≠ none → fs.node place = some .dir
  cwd : fs.node fs.cwd = some .dir

def Fs.Physical (fs : Fs) (place : Place) : Prop :=
  ∀ before, before <+: place → ∀ target, fs.node before ≠ some (.link target)

inductive WalkError where
  | notFound
  | notADirectory
  | tooManyLinks
  deriving DecidableEq, Repr

inductive Outcome where
  | found (place : Place)
  | missing (place : Place)
  | error (e : WalkError)
  deriving DecidableEq, Repr

def Outcome.LeadsTo (o : Outcome) (place : Place) : Prop := o = .found place ∨ o = .missing place

/-- The last piece of a path is empty or a dot: what it names must be a directory. -/
def endsInDir (p : RawPath) : Bool :=
  let last := (p.splitOn slash).getLast?
  last == some [] || last == some [dot]

section Walk

variable (fs : Fs) (follow : Bool)

/-- Walk without links; at a link `onLink` goes on.  A link at the end stays if it is not to be
followed. -/
def walkFrom (onLink : Place → List Component → Bool → Outcome) :
    Place → List Component → Bool → Outcome
  | here, [], dirOnly =>
    if dirOnly = true ∧ fs.node here ≠ some .dir then .error .notADirectory else .found here
  | here, c :: rest, dirOnly =>
    if fs.node here ≠ some .dir then .error .notADirectory
    else match c with
      | .root => walkFrom onLink [] rest dirOnly
      | .cur => walkFrom onLink here rest dirOnly
      | .parent => walkFrom onLink here.dropLast rest dirOnly
      | .normal name =>
        match fs.node (here ++ [name]) with
        | none =>
          if rest = [] ∧ dirOnly = false then .missing (here ++ [name]) else .error .notFound
        | some (.link target) =>
          if rest = [] ∧ dirOnly = false ∧ follow = false then .found (here ++ [name])
          else onLink here (components target ++ rest)
            (dirOnly || (rest.isEmpty && endsInDir target))
        | some _ => walkFrom onLink (here ++ [name]) rest dirOnly

def walk : ℕ → Place → List Component → Bool → Outcome
  | 0 => walkFrom fs follow fun _ _ _ => .error .tooManyLinks
  | n + 1 => walkFrom fs follow (walk n)

end Walk

def maxLinks : ℕ := 40

def absolute (place : Place) : List Component := .root :: place.map .normal

def Fs.lookup (fs : Fs) (follow : Bool) (cs : List Component) (dirOnly : Bool) : Outcome :=
  if cs = [] then .error .notFound else walk fs follow maxLinks fs.cwd cs dirOnly

section Trees

variable {fs : Fs}

theorem Fs.WellFormed.dir_of_append (hfs : fs.WellFormed) (before : Place) {after : Place}
    (hne : after ≠ []) (h : fs.node (before ++ after) ≠ none) : fs.node before = some .dir := by
  induction after using List.reverseRecOn with
  | nil => exact absurd rfl hne
  | append_singleton after name ih =>
    rw [← List.append_assoc] at h
    have hdir := hfs.parent _ _ h
    by_cases hnil : after = []
    · rwa [hnil, List.append_nil] at hdir
    · exact ih hnil (by rw [hdir]; exact Option.some_ne_none _)

theorem Fs.WellFormed.dir_of_prefix (hfs : fs.WellFormed) {before place : Place}
    (hbefore : before <+: place) (hne : before ≠ place) (h : fs.node place ≠ none) :
    fs.node before = some .dir := by
  obtain ⟨after, rfl⟩ := hbefore
  refine hfs.dir_of_append before (fun hnil => hne ?_) h
  rw [hnil, List.append_nil]

theorem Fs.WellFormed.node_of_prefix (hfs : fs.WellFormed) {before place : Place}
    (hbefore : before <+: place) (h : fs.node place ≠ none) : fs.node before ≠ none := by
  by_cases heq : before = place
  · rwa [heq]
  · rw [hfs.dir_of_prefix hbefore heq h]
    exact Option.some_ne_none _

theorem Fs.WellFormed.dropLast (hfs : fs.WellFormed) {place : Place}
    (h : fs.node place = some .dir) : fs.node place.dropLast = some .dir := by
  by_cases heq : place.dropLast = place
  · rwa [heq]
  · exact hfs.dir_of_prefix (List.dropLast_prefix place) heq (by rw [h]; exact Option.some_ne_none _)

theorem Fs.WellFormed.physical (hfs : fs.WellFormed) {place : Place} (h : fs.node place ≠ none)
    (hlink : ∀ target, fs.node place ≠ some (.link target)) : fs.Physical place := by
  intro before hbefore target hnode
  by_cases heq : before = place
  · exact hlink target (heq ▸ hnode)
  · rw [hfs.dir_of_prefix hbefore heq h] at hnode
    cases hnode

theorem Fs.Physical.of_part {before place : Place} (h : fs.Physical place)
    (hbefore : before <+: place) : fs.Physical before :=
  fun first hfirst => h first (hfirst.trans hbefore)

theorem walkFrom_names {follow : Bool} {onLink : Place → List Component → Bool → Outcome}
    (names : List Name) {here : Place} (h : fs.Physical (here ++ names)) {place : Place}
    (hleads : (walkFrom fs follow onLink here (names.map .normal) false).LeadsTo place) :
    place = here ++ names := by
  induction names generalizing here with
  | nil =>
    rw [List.append_nil]
    rw [List.map_nil, walkFrom, if_neg fun hboth => Bool.false_ne_true hboth.1] at hleads
    rcases hleads with hfound | hmissing
    · exact (Outcome.found.inj hfound).symm
    · cases hmissing
  | cons name names ih =>
    rw [List.map_cons, walkFrom] at hleads
    split at hleads
    · rcases hleads with hleads | hleads <;> cases hleads
    · have hrest : here ++ name :: names = here ++ [name] ++ names := by
        rw [List.append_assoc, List.singleton_append]
      split at hleads
      · split at hleads
        · next hend =>
          rcases hleads with hfound | hmissing
          · cases hfound
          · rw [List.map_eq_nil_iff.mp hend.1]
            exact (Outcome.missing.inj hmissing).symm
        · rcases hleads with hleads | hleads <;> cases hleads
      · next target hlink =>
        refine absurd hlink (h _ ?_ target)
        rw [hrest]
        exact List.prefix_append _ _
      · rw [hrest] at h ⊢
        exact ih h hleads

theorem lookup_absolute (hfs : fs.WellFormed) {follow : Bool} {p place : Place}
    (h : fs.Physical p) (hleads : (fs.lookup follow (absolute p) false).LeadsTo place) :
    place = p := by
  have hstart : ∀ onLink, walkFrom fs follow onLink fs.cwd (absolute p) false =
      walkFrom fs follow onLink [] (p.map .normal) false := fun onLink =>
    if_neg fun hne => hne hfs.cwd
  have hne : absolute p ≠ [] := List.cons_ne_nil _ _
  rw [Fs.lookup, if_neg hne, maxLinks, walk, hstart] at hleads
  exact walkFrom_names p h hleads

/-- What is said to be there is there, and is a link only where links are not followed; what is said
to be free is free. -/
def Fs.Sound (fs : Fs) (follow : Bool) : Outcome → Prop
  | .found place => ∃ node, fs.node place = some node ∧
    ∀ target, node = .link target → follow = false
  | .missing place => fs.node place = none ∧ fs.node place.dropLast = some .dir
  | .error _ => True

theorem walkFrom_sound (hfs : fs.WellFormed) {follow : Bool}
    {onLink : Place → List Component → Bool → Outcome}
    (honLink : ∀ here cs dirOnly, fs.node here = some .dir →
      fs.Sound follow (onLink here cs dirOnly))
    (cs : List Component) {here : Place} {node : Node} (hhere : fs.node here = some node)
    (hnode : ∀ target, node ≠ .link target) (dirOnly : Bool) :
    fs.Sound follow (walkFrom fs follow onLink here cs dirOnly) := by
  induction cs generalizing here node with
  | nil =>
    rw [walkFrom]
    split
    · trivial
    · exact ⟨node, hhere, fun target htarget => absurd htarget (hnode target)⟩
  | cons c rest ih =>
    have hdirNode : ∀ target, Node.dir ≠ .link target := fun _ => (nomatch ·)
    cases c <;> rw [walkFrom] <;> split
    case root.isTrue | cur.isTrue | parent.isTrue | normal.isTrue => trivial
    case root.isFalse => exact ih hfs.top hdirNode
    case cur.isFalse hdir => exact ih (not_not.mp hdir) hdirNode
    case parent.isFalse hdir => exact ih (hfs.dropLast (not_not.mp hdir)) hdirNode
    case normal.isFalse name hdir =>
      split
      · next hfree =>
        split
        · refine ⟨hfree, ?_⟩
          rw [List.dropLast_concat]
          exact not_not.mp hdir
        · trivial
      · next target hlink =>
        split
        · next hend => exact ⟨_, hlink, fun _ _ => hend.2.2⟩
        · exact honLink here _ _ (not_not.mp hdir)
      · next node' hne hnode' => exact ih hnode' fun target heq => hne target heq

theorem walk_sound (hfs : fs.WellFormed) (follow : Bool) (n : ℕ) {here : Place}
    (hhere : fs.node here = some .dir) (cs : List Component) (dirOnly : Bool) :
    fs.Sound follow (walk fs follow n here cs dirOnly) := by
  have hdir : ∀ target, Node.dir ≠ .link target := fun _ => (nomatch ·)
  induction n generalizing here cs dirOnly with
  | zero =>
    rw [walk]
    refine walkFrom_sound hfs (fun _ _ _ _ => ?_) cs hhere hdir dirOnly
    trivial
  | succ n ih =>
    rw [walk]
    exact walkFrom_sound hfs (fun _ cs dirOnly hhere => ih hhere cs dirOnly) cs hhere hdir dirOnly

theorem lookup_sound (hfs : fs.WellFormed) (follow : Bool) (cs : List Component) (dirOnly : Bool) :
    fs.Sound follow (fs.lookup follow cs dirOnly) := by
  unfold Fs.lookup
  split
  · trivial
  · exact walk_sound hfs follow maxLinks hfs.cwd cs dirOnly

end Trees

def Fs.ofEntries (entries : List (Place × Node)) : Fs where
  node place :=
    if place = [] then some .dir else (entries.find? fun e => e.1 = place).map Prod.snd
  cwd := []

def Fs.put (fs : Fs) (place : Place) (node : Option Node) : Fs :=
  { fs with node := Function.update fs.node place node }

section Put

variable {fs : Fs} {place : Place}

theorem Fs.put_of_ne {other : Place} (h : other ≠ place) (node : Option Node) :
    (fs.put place node).node other = fs.node other := Function.update_of_ne h ..

theorem Fs.put_self (node : Option Node) : (fs.put place node).node place = node :=
  Function.update_self ..

theorem Fs.put_dir_of_some (hfree : fs.node place = none) {other : Place} {node : Node}
    (h : fs.node other = some node) : (fs.put place (some .dir)).node other = some node := by
  rw [Fs.put_of_ne, h]
  rintro rfl
  exact nomatch hfree.symm.trans h

theorem Fs.WellFormed.put_dir (hfs : fs.WellFormed) (hfree : fs.node place = none)
    (hparent : fs.node place.dropLast = some .dir) : (fs.put place (some .dir)).WellFormed where
  top := Fs.put_dir_of_some hfree hfs.top
  parent before name h := by
    refine Fs.put_dir_of_some hfree ?_
    by_cases heq : before ++ [name] = place
    · rwa [← heq, List.dropLast_concat] at hparent
    · rw [Fs.put_of_ne heq] at h
      exact hfs.parent before name h
  cwd := Fs.put_dir_of_some hfree hfs.cwd

theorem Fs.Physical.put_dir {p : Place} (h : fs.Physical p) :
    (fs.put place (some .dir)).Physical p := by
  intro before hbefore target hnode
  by_cases heq : before = place
  · rw [heq, Fs.put_self] at hnode
    cases hnode
  · rw [Fs.put_of_ne heq] at hnode
    exact h before hbefore target hnode

end Put

end Mowis.Lib.Symlink
