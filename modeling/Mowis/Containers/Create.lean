import Mowis.Lib.Overlay

/-!
# The files of sandboxes and containers

A sandbox with an image shows an overlay over it, or a copy of it where the overlay cannot be
mounted; one without an image starts empty.  A container has a root of its own, which is again an
overlay or a copy, and where there is a project an overlay or a copy of it in `workspace`.
-/

namespace Mowis.Containers

open Mowis.Lib.Overlay hiding Tree Layer Change

inductive Item where
  | file (content : List UInt8)
  | link (target : String)
  deriving DecidableEq

abbrev Path := List String

abbrev Tree := Lib.Overlay.Tree String Item

abbrev Layer := Lib.Overlay.Layer String Item

abbrev Change := Lib.Overlay.Change String Item

/-- What is found in a file system. -/
structure FileTree where
  tree : Tree
  top : tree [] = some .dir
  closed : Closed tree

def emptyTree : Tree := fun p => if p = [] then some .dir else none

def emptyLayer : Layer := fun _ => none

/-- How the calls end that may fail, what the host has of its own files, and where in a root a link
leads. -/
structure Kernel where
  mounts : Bool
  leadsTo : Path → Option Path
  copies : Path → Bool
  resolvConf : Option (List UInt8)
  hosts : Option (List UInt8)
  mountsWorkspace : Bool
  copiesWorkspace : Path → Bool

def copyDirRecursive (copies : Path → Bool) (src : Tree) : Tree := fun p =>
  match src p with
  | some (.file f) => if copies p then some (.file f) else none
  | node => node

/-- The root of a sandbox: an overlay over its image, a copy of the image, or a file system of its
own. -/
inductive Sandbox where
  | overlay (image : Tree) (upper : Layer)
  | copied (image root : Tree)
  | tmpfs (root : Tree)

namespace Sandbox

def root : Sandbox → Tree
  | .overlay image upper => view upper image
  | .copied _ root => root
  | .tmpfs root => root

def hasImage : Sandbox → Bool
  | .tmpfs _ => false
  | _ => true

def change (sb : Sandbox) (ch : Change) : Option Sandbox :=
  if sb.root.Admits ch then
    some (match sb with
      | .overlay image upper => .overlay image (upper.change image ch)
      | .copied image root => .copied image (root.change ch)
      | .tmpfs root => .tmpfs (root.change ch))
  else none

def run : List Change → Sandbox → Option Sandbox
  | [], sb => some sb
  | ch :: chs, sb =>
    match sb.change ch with
    | none => none
    | some sb => run chs sb

end Sandbox

/-- The project copied into `workspace` of an overlay, by its layer. -/
def copyLayer (copies : Path → Bool) (project : Tree) (upper : Layer) : Layer
  | "workspace" :: q =>
    match project q with
    | some .dir => (upper ("workspace" :: q)).or (some (.dir false))
    | some (.file f) => if copies q then some (.file f) else upper ("workspace" :: q)
    | none => upper ("workspace" :: q)
  | p => upper p

/-- The project copied into `workspace` of a tree. -/
def copyTree (copies : Path → Bool) (project : Tree) (t : Tree) : Tree
  | "workspace" :: q =>
    match project q with
    | some .dir => some .dir
    | some (.file f) => if copies q then some (.file f) else t ("workspace" :: q)
    | none => t ("workspace" :: q)
  | p => t p

/-- A container: the lower layers of its root where an overlay is mounted, the directory `upper`,
what the directory `root` holds itself, and the overlay mounted at `workspace`. -/
structure Container where
  lower : Option Tree
  upper : Layer
  plain : Tree
  workspace : Option (Layer × Tree)

namespace Container

variable (c : Container)

def root : Tree :=
  match c.lower with
  | some lower => view c.upper lower
  | none => c.plain

def visible : Tree := fun p =>
  match c.workspace with
  | some (upper, lower) =>
    if p.head? = some "workspace" then view upper lower (p.drop 1) else c.root p
  | none => c.root p

/-- A change of the root goes to `upper`, or to what `root` holds itself. -/
def changeRoot (ch : Change) : Container :=
  match c.lower with
  | some lower => { c with upper := c.upper.change lower ch }
  | none => { c with plain := c.plain.change ch }

/-- A directory of the root is made where it is missing.  That a link takes its place is not
modelled. -/
def mkdir (name : String) : Option Container :=
  match c.root [name] with
  | some .dir => some c
  | none => some (c.changeRoot (.mkdir [name]))
  | some (.file _) => none

/-- A file of the host is copied to a place, or to where a link leads that stands there; an error is
passed over. -/
def copyFile (k : Kernel) (p : Path) : Option (List UInt8) → Container
  | none => c
  | some content =>
    match c.root p with
    | some .dir => c
    | some (.file (.link _)) =>
      match k.leadsTo p with
      | none => c
      | some q =>
        if c.root.Admits (.write q (.file content)) then c.changeRoot (.write q (.file content))
        else c
    | _ => c.changeRoot (.write p (.file content))

/-- The project is copied into `workspace`. -/
def copyWorkspace (copies : Path → Bool) (project : Tree) : Container :=
  match c.lower with
  | some _ => { c with upper := copyLayer copies project c.upper }
  | none => { c with plain := copyTree copies project c.plain }

end Container

/-- The part of the project that a container gets: the directory of its scope, or all of it. -/
def workspaceLower (project : Tree) (scope : Option Path) : Tree :=
  match scope with
  | none => project
  | some path => if (project path).isSome then fun q => project (path ++ q) else project

def startRoot (sb : Sandbox) (k : Kernel) : Container :=
  match sb with
  | .tmpfs _ => ⟨none, emptyLayer, emptyTree, none⟩
  | .overlay image upper =>
    if k.mounts then ⟨some (view upper image), emptyLayer, emptyTree, none⟩
    else ⟨none, emptyLayer, copyDirRecursive k.copies sb.root, none⟩
  | .copied image _ =>
    if k.mounts then ⟨some image, emptyLayer, emptyTree, none⟩
    else ⟨none, emptyLayer, copyDirRecursive k.copies sb.root, none⟩

def addWorkspace (c : Container) (project : Tree) (k : Kernel) : Option Container :=
  match c.mkdir "workspace" with
  | none => none
  | some c =>
    if k.mountsWorkspace then some { c with workspace := some (emptyLayer, project) }
    else if project [] = some .dir then some (c.copyWorkspace k.copiesWorkspace project)
    else none

/-- What is mounted at `proc` and `dev` is not modelled. -/
def addMounts (c : Container) (hasImage : Bool) : Option Container :=
  if hasImage then
    match c.mkdir "proc" with
    | none => none
    | some c => c.mkdir "dev"
  else some c

def createContainer (sb : Sandbox) (project : Option Tree) (scope : Option Path) (k : Kernel) :
    Option Container :=
  match (startRoot sb k).mkdir "etc" with
  | none => none
  | some c =>
    let c := (c.copyFile k ["etc", "resolv.conf"] k.resolvConf).copyFile k ["etc", "hosts"] k.hosts
    match addMounts c sb.hasImage with
    | none => none
    | some c =>
      match project with
      | none => some c
      | some project => addWorkspace c (workspaceLower project scope) k

/-- A change below `workspace`, as one of the project. -/
def inProject : Change → Option Change
  | .write ("workspace" :: q) f => some (.write q f)
  | .mkdir ("workspace" :: q) => some (.mkdir q)
  | .remove ("workspace" :: q) => some (.remove q)
  | _ => none

namespace Container

def change (c : Container) (ch : Change) : Option Container :=
  match c.workspace, inProject ch with
  | some (upper, lower), some ch' =>
    if (view upper lower).Admits ch' then
      some { c with workspace := some (upper.change lower ch', lower) }
    else none
  | _, _ => if c.root.Admits ch then some (c.changeRoot ch) else none

def run : List Change → Container → Option Container
  | [], c => some c
  | ch :: chs, c =>
    match c.change ch with
    | none => none
    | some c => run chs c

end Container

/-- A root that is seen as a tree, and its lower layers. -/
structure Rooted (c : Container) : Prop where
  top : c.root [] = some .dir
  closed : Closed c.root
  lower : ∀ lower, c.lower = some lower → Closed lower

variable {c c' : Container} {ch : Change} {p q : Path}

/-- **The root of a container is changed as the tree that is seen**, in an overlay as in a copy. -/
theorem root_changeRoot (h : Rooted c) (hadmits : c.root.Admits ch) :
    (c.changeRoot ch).root = c.root.change ch := by
  have hclosed := h.closed
  unfold Container.root at hadmits hclosed ⊢
  unfold Container.changeRoot
  cases hlower : c.lower with
  | none => simp only
  | some lower =>
    simp only [hlower] at hadmits hclosed ⊢
    exact view_change hclosed (h.lower lower hlower) hadmits

theorem lower_changeRoot : (c.changeRoot ch).lower = c.lower := by
  unfold Container.changeRoot
  split <;> rfl

theorem top_change {t : Tree} (htop : t [] = some .dir) (hadmits : t.Admits ch) :
    t.change ch [] = some .dir := by
  cases ch with
  | write p f =>
    have hne : p ≠ [] := by
      rintro rfl
      exact hadmits.2 htop
    exact (Function.update_of_ne hne.symm _ _).trans htop
  | mkdir p =>
    have hne : p ≠ [] := by
      rintro rfl
      rw [hadmits.2] at htop
      cases htop
    exact (Function.update_of_ne hne.symm _ _).trans htop
  | remove p =>
    exact (if_neg fun hle => hadmits.2 (List.prefix_nil.mp hle)).trans htop

theorem Rooted.changeRoot (h : Rooted c) (hadmits : c.root.Admits ch) :
    Rooted (c.changeRoot ch) where
  top := by
    rw [root_changeRoot h hadmits]
    exact top_change h.top hadmits
  closed := by
    rw [root_changeRoot h hadmits]
    exact h.closed.change hadmits
  lower := by
    rw [lower_changeRoot]
    exact h.lower

end Mowis.Containers
