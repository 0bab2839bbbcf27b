import Mowis.Lib.Symlink

/-!
# The root of the file tools

`resolve_path` of `tools/common.rs`: a path of the model becomes a path below the root of the
container.
-/

namespace Mowis.Tools

open Mowis.Lib.UnixPath Mowis.Lib.Symlink

inductive IoError where
  | walk (e : WalkError)
  | alreadyExists
  | isADirectory
  | notADirectory
  | invalidInput
  | invalidData
  deriving DecidableEq, Repr

inductive ToolError where
  | nullByte
  | traversal
  | escapesRoot
  | fileTooLarge
  | contentTooLarge
  | throughSymlink
  | fileNotFound
  | containerRoot
  | io (e : IoError)
  deriving DecidableEq, Repr

section Queries

variable (fs : Fs)

def exists_ (cs : List Component) (dirOnly : Bool) : Bool :=
  match fs.lookup true cs dirOnly with
  | .found _ => true
  | _ => false

def canonicalize (cs : List Component) (dirOnly : Bool) : Except IoError Place :=
  match fs.lookup true cs dirOnly with
  | .found place => .ok place
  | .missing _ => .error (.walk .notFound)
  | .error e => .error (.walk e)

end Queries

def sanitizePathComponent (path : RawPath) : Except ToolError Unit :=
  if 0 ∈ path then .error .nullByte
  else if [dot, dot] <:+: path then .error .traversal
  else .ok ()

def candidate (base path : RawPath) : Except ToolError RawPath := do
  let stripped := if path.head? = some slash then path.dropWhile fun b => b = slash else path
  sanitizePathComponent stripped
  return push base stripped

/-- The loop over the ancestors, with the components of the path in reverse. -/
def deepestExisting (fs : Fs) :
    Bool → List Component → List Name → List Component × List Name
  | _, [], names => ([], names)
  | dirOnly, c :: above, names =>
    if exists_ fs (c :: above).reverse dirOnly then ((c :: above).reverse, names)
    else
      match c with
      | .root => ([.root], names)
      | .normal name => deepestExisting fs false above (name :: names)
      | .cur | .parent => deepestExisting fs false above names

def located (fs : Fs) (base path : RawPath) : Except ToolError (Place × List Name) := do
  let candidate ← candidate base path
  let cs := components candidate
  if exists_ fs cs (endsInDir candidate) then
    let resolved ← (canonicalize fs cs (endsInDir candidate)).mapError .io
    return (resolved, [])
  else
    let (ancestor, names) := deepestExisting fs (endsInDir candidate) cs.reverse []
    let canonicalAncestor ← (canonicalize fs ancestor false).mapError .io
    return (canonicalAncestor, names)

def contained (fs : Fs) (base : RawPath) (resolved : Place) : Bool :=
  match canonicalize fs (components base) (endsInDir base) with
  | .ok canonicalBase => canonicalBase <+: resolved
  | .error _ => components base <+: absolute resolved

def resolvePath (fs : Fs) (base path : RawPath) : Except ToolError Place := do
  let (canonical, names) ← located fs base path
  let resolved := canonical ++ names
  if contained fs base resolved then return resolved else throw .escapesRoot

/-- From the first component on that is not found, no component is a link. -/
def Unlinked (fs : Fs) (base path : RawPath) : Prop :=
  ∀ canonical names, located fs base path = .ok (canonical, names) →
    ∀ first, first <+: names → ∀ target, fs.node (canonical ++ first) ≠ some (.link target)

section Resolved

variable {fs : Fs} {base path : RawPath} {p : Place}

theorem bind_ok {ε α β : Type} {x : Except ε α} {f : α → Except ε β} {b : β}
    (h : x >>= f = .ok b) : ∃ a, x = .ok a ∧ f a = .ok b := by
  cases x with
  | ok a => exact ⟨a, rfl, h⟩
  | error e => cases h

end Resolved

end Mowis.Tools
