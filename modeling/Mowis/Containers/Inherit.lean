import Mowis.Containers.Create

/-!
# What containers inherit

A container is to show the files of its sandbox, the few excepted that it has of its own.
-/

namespace Mowis.Containers

open Mowis.Lib.Overlay hiding Tree Layer Change

def fileAt (t : Tree) (p : Path) : Option Item :=
  match t p with
  | some (.file f) => some f
  | _ => none

/-- A path where a container has nothing of its own. -/
structure Outside (p : Path) : Prop where
  resolvConf : ¬ ["etc", "resolv.conf"] <+: p
  hosts : ¬ ["etc", "hosts"] <+: p
  proc : ¬ ["proc"] <+: p
  dev : ¬ ["dev"] <+: p
  workspace : ¬ ["workspace"] <+: p

def SameFiles (t u : Tree) : Prop := ∀ p, Outside p → fileAt t p = fileAt u p

def Inherits (c : Container) (sb : Sandbox) : Prop := SameFiles c.visible sb.root

def Passes (k : Kernel) : Sandbox → Prop
  | .tmpfs root => SameFiles root emptyTree
  | .copied image root =>
    if k.mounts then SameFiles root image
    else ∀ p, Outside p → fileAt root p ≠ none → k.copies p = true
  | .overlay image upper =>
    if k.mounts then True
    else ∀ p, Outside p → fileAt (view upper image) p ≠ none → k.copies p = true

/-- The files that are copied from the host meet no link. -/
structure Unlinked (t : Tree) : Prop where
  resolvConf : ∀ target, t ["etc", "resolv.conf"] ≠ some (.file (.link target))
  hosts : ∀ target, t ["etc", "hosts"] ≠ some (.file (.link target))

def Sandbox.image : Sandbox → Option Tree
  | .overlay image _ => some image
  | .copied image _ => some image
  | .tmpfs _ => none

/-- What a sandbox has is seen as a tree, and so is its image. -/
structure Sandbox.Sound (sb : Sandbox) : Prop where
  top : sb.root [] = some .dir
  closed : Closed sb.root
  image : ∀ image, sb.image = some image → image [] = some .dir ∧ Closed image

variable {sb sb' : Sandbox} {k : Kernel} {c c' : Container} {p : Path}

theorem closed_emptyTree : Closed emptyTree := by
  intro p name h
  exact (h (if_neg (by simp))).elim

theorem Sandbox.root_change {ch : Change} (h : sb.Sound) (hchange : sb.change ch = some sb') :
    sb.root.Admits ch ∧ sb'.root = sb.root.change ch ∧ sb'.image = sb.image := by
  unfold Sandbox.change at hchange
  split at hchange
  · next hadmits =>
    cases hchange
    refine ⟨hadmits, ?_⟩
    cases sb with
    | overlay image upper => exact ⟨view_change h.closed (h.image image rfl).2 hadmits, rfl⟩
    | copied image root => exact ⟨rfl, rfl⟩
    | tmpfs root => exact ⟨rfl, rfl⟩
  · cases hchange

theorem Sandbox.Sound.change {ch : Change} (h : sb.Sound) (hchange : sb.change ch = some sb') :
    sb'.Sound := by
  obtain ⟨hadmits, hroot, himage⟩ := Sandbox.root_change h hchange
  refine ⟨?_, ?_, ?_⟩
  · rw [hroot]
    exact top_change h.top hadmits
  · rw [hroot]
    exact h.closed.change hadmits
  · rw [himage]
    exact h.image

theorem Sandbox.Sound.run {chs : List Change} (h : sb.Sound) (hrun : sb.run chs = some sb') :
    sb'.Sound := by
  induction chs generalizing sb with
  | nil =>
    cases hrun
    exact h
  | cons ch chs ih =>
    rw [Sandbox.run] at hrun
    split at hrun
    · cases hrun
    · next sb₁ hchange => exact ih (h.change hchange) hrun

theorem SameFiles.symm {t u : Tree} (h : SameFiles t u) : SameFiles u t :=
  fun p hp => (h p hp).symm

def shellImage : FileTree where
  tree := Lib.Overlay.Tree.change emptyTree (.write ["sh"] (.file [1]))
  top := top_change rfl (by decide)
  closed := closed_emptyTree.change (by decide)

def plainKernel (mounts : Bool) : Kernel :=
  ⟨mounts, fun _ => none, fun _ => true, some [2], some [3], true, fun _ => true⟩

end Mowis.Containers
