import Mowis.Lib.Patch
import Mowis.Review.Diff

/-!
# The meaning of hunks

What a hunk of a unified diff does to a file, with the full context matched.  This is the
format's meaning, not code of the repository.  The lines of a file keep their line feed, so
a last line without one is a line of its own kind, which a diff marks by
`\ No newline at end of file`.
-/

namespace Mowis.Review

open Mowis.Lib

/-- The ranges of a hunk. -/
structure HunkHeader where
  oldStart : UInt32
  oldCount : UInt32
  newStart : UInt32
  newCount : UInt32
  deriving DecidableEq, Repr

def DiffHunk.header (h : DiffHunk) : HunkHeader where
  oldStart := h.oldStart
  oldCount := h.oldCount
  newStart := h.newStart
  newCount := h.newCount

namespace HunkHeader

/-- The position of the old lines; an empty range stands after the line it names. -/
def pos (h : HunkHeader) : ℕ :=
  if h.oldCount = 0 then h.oldStart.toNat else h.oldStart.toNat - 1

def stop (h : HunkHeader) : ℕ := h.pos + h.oldCount.toNat

def WellFormed (h : HunkHeader) : Prop :=
  (h.oldCount ≠ 0 → h.oldStart ≠ 0) ∧ (h.oldCount = 0 → h.newCount ≠ 0)

instance (h : HunkHeader) : Decidable h.WellFormed := inferInstanceAs (Decidable (_ ∧ _))

end HunkHeader

/-- The lines of a file, each with the line feed that ends it. -/
abbrev fileLines (content : Text) : List Text := splitInclusive content

/-- The line feed that ends a line of a body, unless the marker follows. -/
def eolOf : List Text → Text
  | ('\\' :: _) :: _ => []
  | _ => ['\n']

def readBody : List Text → ℕ → ℕ → Option (List Text × List Text)
  | [], o, n => if o = 0 ∧ n = 0 then some ([], []) else none
  | line :: rest, o, n =>
    if o = 0 ∧ n = 0 then some ([], [])
    else
      match line with
      | ' ' :: t =>
        if o = 0 ∨ n = 0 then none
        else (readBody rest (o - 1) (n - 1)).map fun s =>
          ((t ++ eolOf rest) :: s.1, (t ++ eolOf rest) :: s.2)
      | '-' :: t =>
        if o = 0 then none
        else (readBody rest (o - 1) n).map fun s => ((t ++ eolOf rest) :: s.1, s.2)
      | '+' :: t =>
        if n = 0 then none
        else (readBody rest o (n - 1)).map fun s => (s.1, (t ++ eolOf rest) :: s.2)
      | '\\' :: _ => readBody rest o n
      | _ => none

theorem length_readBody {body : List Text} {o n : ℕ} {s : List Text × List Text}
    (h : readBody body o n = some s) : s.1.length = o ∧ s.2.length = n := by
  induction body generalizing o n s with
  | nil =>
    rw [readBody] at h
    split at h
    · next hzero =>
      cases h
      exact ⟨hzero.1.symm, hzero.2.symm⟩
    · cases h
  | cons line rest ih =>
    unfold readBody at h
    split at h
    · next hzero =>
      cases h
      exact ⟨hzero.1.symm, hzero.2.symm⟩
    · split at h
      -- in the first three cases one line is read, and the counts go down with it
      iterate 3
        · split at h
          · cases h
          · next hpos =>
            obtain ⟨s', hs', rfl⟩ := Option.map_eq_some_iff.mp h
            obtain ⟨h1, h2⟩ := ih hs'
            simp only [List.length_cons]
            omega
      · exact ih h
      · cases h

def hunkEdit (h : DiffHunk) : Option (Edit Text) :=
  if h.header.WellFormed then
    match readBody (h.content.splitOn '\n').tail h.oldCount.toNat h.newCount.toNat with
    | some (old, new) => some { pos := h.header.pos, old, new }
    | none => none
  else none

def hunkEdits : List DiffHunk → Option (List (Edit Text))
  | [] => some []
  | h :: hs =>
    match hunkEdit h, hunkEdits hs with
    | some e, some es => some (e :: es)
    | _, _ => none

instance (es : List (Edit Text)) : Decidable (Ordered es) :=
  inferInstanceAs (Decidable (es.Pairwise _))

def applyPatch (es : List (Edit Text)) (file : List Text) : Option (List Text) :=
  if Ordered es then applyEdits es file else none

theorem hunkEdit_some {h : DiffHunk} {e : Edit Text} (he : hunkEdit h = some e) :
    h.header.WellFormed ∧ e.pos = h.header.pos ∧ e.old.length = h.oldCount.toNat ∧
      e.new.length = h.newCount.toNat := by
  unfold hunkEdit at he
  split at he
  · next hwf =>
    split at he
    · next old new hbody =>
      cases he
      obtain ⟨h1, h2⟩ := length_readBody hbody
      exact ⟨hwf, rfl, h1, h2⟩
    · cases he
  · cases he

theorem hunkEdits_some {hs : List DiffHunk} {es : List (Edit Text)}
    (h : hunkEdits hs = some es) : List.Forall₂ (fun h e => hunkEdit h = some e) hs es := by
  induction hs generalizing es with
  | nil =>
    cases h
    exact .nil
  | cons x xs ih =>
    rw [hunkEdits] at h
    split at h
    · next e es' he hes =>
      cases h
      exact .cons he (ih hes)
    · cases h

end Mowis.Review
