import Mowis.Lib.Text

/-!
# Texts without escape sequences

`strip_ansi` of `mowis-host/src/tui/app.rs`, which goes over the characters and leaves out what
begins with an escape character.
-/

namespace Mowis.Tui.StripAnsi

open Mowis.Lib (Text)

def escape : Char := '\x1b'

def bell : Char := '\x07'

/-- `char::is_ascii_alphabetic` -/
def isAsciiAlphabetic (c : Char) : Bool := c.isAlpha

def skipCsi : Text → Text
  | [] => []
  | c :: cs => if isAsciiAlphabetic c then cs else skipCsi cs

def skipOsc : Text → Text
  | [] => []
  | c :: cs =>
    if c = bell then cs
    else if c = escape then if cs.head? = some '\\' then cs.tail else cs
    else skipOsc cs

theorem skipCsi_suffix (t : Text) : skipCsi t <:+ t := by
  induction t with
  | nil => exact List.suffix_refl _
  | cons c cs ih =>
    rw [skipCsi]
    split_ifs
    · exact List.suffix_cons c cs
    · exact ih.trans (List.suffix_cons c cs)

theorem skipOsc_suffix (t : Text) : skipOsc t <:+ t := by
  induction t with
  | nil => exact List.suffix_refl _
  | cons c cs ih =>
    rw [skipOsc]
    split_ifs
    · exact List.suffix_cons c cs
    · exact (List.tail_suffix cs).trans (List.suffix_cons c cs)
    · exact List.suffix_cons c cs
    · exact ih.trans (List.suffix_cons c cs)

def skipSequence : Text → Text
  | [] => []
  | c :: cs => if c = '[' then skipCsi cs else if c = ']' then skipOsc cs else cs

theorem skipSequence_suffix (t : Text) : skipSequence t <:+ t := by
  cases t with
  | nil => exact List.suffix_refl _
  | cons c cs =>
    rw [skipSequence]
    split_ifs
    · exact (skipCsi_suffix cs).trans (List.suffix_cons c cs)
    · exact (skipOsc_suffix cs).trans (List.suffix_cons c cs)
    · exact List.suffix_cons c cs

def stripAnsi : Text → Text
  | [] => []
  | c :: cs => if c = escape then stripAnsi (skipSequence cs) else c :: stripAnsi cs
termination_by t => t.length
decreasing_by
  · exact Nat.lt_succ_of_le (skipSequence_suffix cs).length_le
  · exact Nat.lt_succ_self _

/-- A part of a text: plain text, or a complete sequence.  The body of a CSI sequence has its
parameter and intermediate bytes. -/
inductive Piece
  | text (t : Text) (plain : escape ∉ t)
  | csi (body : Text) (final : Char) (body_range : ∀ c ∈ body, 0x20 ≤ c.toNat ∧ c.toNat ≤ 0x3f)
      (final_range : 0x40 ≤ final.toNat ∧ final.toNat ≤ 0x7e)
  | osc (body : Text) (bell_ends : Bool) (inside : bell ∉ body ∧ escape ∉ body)

namespace Piece

def render : Piece → Text
  | text t _ => t
  | csi body final _ _ => escape :: '[' :: (body ++ [final])
  | osc body bell_ends _ =>
    escape :: ']' :: (body ++ if bell_ends then [bell] else [escape, '\\'])

def kept : Piece → Text
  | text t _ => t
  | _ => []

def EndsInLetter : Piece → Prop
  | csi _ final _ _ => isAsciiAlphabetic final = true
  | _ => True

end Piece

def Kept (p : Piece) : Prop :=
  ∀ rest, stripAnsi (p.render ++ rest) = p.kept ++ stripAnsi rest

theorem stripAnsi_escape (t : Text) : stripAnsi (escape :: t) = stripAnsi (skipSequence t) := by
  rw [stripAnsi, if_pos rfl]

theorem stripAnsi_sublist (t : Text) : (stripAnsi t).Sublist t := by
  fun_induction stripAnsi t with
  | case1 => exact List.Sublist.refl _
  | case2 cs ih => exact (ih.trans (skipSequence_suffix cs).sublist).cons _
  | case3 c cs hc ih => exact ih.cons_cons c

theorem escape_notMem_stripAnsi (t : Text) : escape ∉ stripAnsi t := by
  fun_induction stripAnsi t with
  | case1 => exact List.not_mem_nil
  | case2 cs ih => exact ih
  | case3 c cs hc ih => exact List.not_mem_cons_of_ne_of_not_mem (Ne.symm hc) ih

theorem stripAnsi_append {t : Text} (h : escape ∉ t) (rest : Text) :
    stripAnsi (t ++ rest) = t ++ stripAnsi rest := by
  induction t with
  | nil => rfl
  | cons c cs ih =>
    obtain ⟨hc, hcs⟩ := List.ne_and_not_mem_of_not_mem_cons h
    rw [List.cons_append, stripAnsi, if_neg (Ne.symm hc), ih hcs, List.cons_append]

theorem stripAnsi_eq_self {t : Text} (h : escape ∉ t) : stripAnsi t = t := by
  have happend := stripAnsi_append h []
  rwa [List.append_nil, stripAnsi, List.append_nil] at happend

theorem not_alphabetic_of_range {c : Char} (h : 0x20 ≤ c.toNat ∧ c.toNat ≤ 0x3f) :
    ¬ isAsciiAlphabetic c = true := by
  have hnat : ∀ n ≤ 0x3f, ¬ (Char.ofNat n).isAlpha = true := by decide
  rw [isAsciiAlphabetic, ← Char.ofNat_toNat c]
  exact hnat c.toNat h.2

theorem skipCsi_append {body : Text} (h : ∀ c ∈ body, 0x20 ≤ c.toNat ∧ c.toNat ≤ 0x3f)
    (rest : Text) : skipCsi (body ++ rest) = skipCsi rest := by
  induction body with
  | nil => rfl
  | cons c cs ih =>
    obtain ⟨hc, hcs⟩ := List.forall_mem_cons.mp h
    rw [List.cons_append, skipCsi, if_neg (not_alphabetic_of_range hc), ih hcs]

theorem skipOsc_append {body : Text} (h : bell ∉ body ∧ escape ∉ body) (rest : Text) :
    skipOsc (body ++ rest) = skipOsc rest := by
  induction body with
  | nil => rfl
  | cons c cs ih =>
    obtain ⟨hbell, hbells⟩ := List.ne_and_not_mem_of_not_mem_cons h.1
    obtain ⟨hescape, hescapes⟩ := List.ne_and_not_mem_of_not_mem_cons h.2
    rw [List.cons_append, skipOsc, if_neg (Ne.symm hbell), if_neg (Ne.symm hescape),
      ih ⟨hbells, hescapes⟩]

theorem kept_iff (p : Piece) : Kept p ↔ p.EndsInLetter := by
  cases p with
  | text t plain => exact iff_of_true (fun rest => stripAnsi_append plain rest) trivial
  | csi body final body_range final_range =>
    have hskip : ∀ rest, stripAnsi ((Piece.csi body final body_range final_range).render ++ rest) =
        stripAnsi (skipCsi (final :: rest)) := by
      intro rest
      rw [Piece.render, List.cons_append, stripAnsi_escape, List.cons_append, skipSequence,
        if_pos rfl, List.append_assoc, skipCsi_append body_range]
      rfl
    constructor
    · intro h
      -- A letter that follows is taken for the end of the sequence.
      by_contra hletter
      have hlost := h ['a']
      have hfinal : ¬ isAsciiAlphabetic final = true := hletter
      rw [hskip, skipCsi, if_neg hfinal] at hlost
      simp [skipCsi, isAsciiAlphabetic, stripAnsi, Piece.kept, escape] at hlost
    · intro hletter rest
      have hfinal : isAsciiAlphabetic final = true := hletter
      rw [hskip, skipCsi, if_pos hfinal]
      rfl
  | osc body bell_ends inside =>
    refine iff_of_true (fun rest => ?_) trivial
    rw [Piece.render, List.cons_append, stripAnsi_escape, List.cons_append, skipSequence,
      if_neg (by decide), if_pos rfl, List.append_assoc, skipOsc_append inside]
    cases bell_ends <;> rfl

/-- **The text without its escape sequences**: no escape character is left, the rest is in order,
plain text stays and nothing changes the second time; and all text between complete sequences is
kept just where no CSI sequence ends in something else than a letter. -/
theorem stripAnsi_spec (t : Text) (pieces : List Piece) :
    (escape ∉ stripAnsi t ∧ (stripAnsi t).Sublist t ∧ (escape ∉ t → stripAnsi t = t) ∧
      stripAnsi (stripAnsi t) = stripAnsi t) ∧
    ((∀ p ∈ pieces, Kept p) ↔ ∀ p ∈ pieces, p.EndsInLetter) ∧
    ((∀ p ∈ pieces, p.EndsInLetter) →
      stripAnsi (pieces.flatMap Piece.render) = pieces.flatMap Piece.kept) := by
  refine ⟨⟨escape_notMem_stripAnsi t, stripAnsi_sublist t, stripAnsi_eq_self,
    stripAnsi_eq_self (escape_notMem_stripAnsi t)⟩, ?_, fun h => ?_⟩
  · exact forall₂_congr fun p _ => kept_iff p
  · induction pieces with
    | nil => rw [List.flatMap_nil, stripAnsi, List.flatMap_nil]
    | cons p ps ih =>
      obtain ⟨hp, hps⟩ := List.forall_mem_cons.mp h
      rw [List.flatMap_cons, (kept_iff p).mpr hp, ih hps, List.flatMap_cons]

/-- The sequence of a key ends in a tilde, and the letter after it is lost. -/
theorem text_not_kept : ¬ ∀ pieces : List Piece,
    stripAnsi (pieces.flatMap Piece.render) = pieces.flatMap Piece.kept := by
  intro h
  have hlost := h [.csi [] '~' (by simp) (by decide), .text ['a', 'b'] (by decide)]
  simp [Piece.render, Piece.kept, stripAnsi, skipSequence, skipCsi, isAsciiAlphabetic,
    escape] at hlost

end Mowis.Tui.StripAnsi
