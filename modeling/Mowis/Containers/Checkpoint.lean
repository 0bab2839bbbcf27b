import Mowis.Containers.Inherit

/-!
# Checkpoints of containers

A checkpoint copies the directory `upper` of a container to a snapshot directory, and a restore puts
the copy in its place; an overlay is taken to show the directory that stands at its upper path.
-/

namespace Mowis.Containers

open Mowis.Lib.Overlay hiding Tree Layer Change

def Container.rootRegion (c : Container) : Set Path :=
  {p | c.workspace.isSome = true → p.head? ≠ some "workspace"}

/-- What the snapshot directory held before does not show through `upper`. -/
def Clean (c : Container) (old : Layer) : Prop :=
  ∀ lower, c.lower = some lower → Harmless c.upper old lower c.rootRegion

/-- A root that is no overlay, and the overlay at `workspace`, show what they showed. -/
structure Kept (before after : Container) : Prop where
  root : before.lower = none → ∀ p ∈ before.rootRegion, after.plain p = before.plain p
  workspace : ∀ upper upper' lower, before.workspace = some (upper, lower) →
    after.workspace = some (upper', lower) → view upper' lower = view upper lower

variable {c c' : Container} {old snapshot : Layer} {ch : Change} {chs : List Change} {p : Path}

end Mowis.Containers
