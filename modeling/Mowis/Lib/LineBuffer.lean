import Mowis.Lib.Text
import Mowis.Lib.Utf8

/-!
# Lines that arrive in pieces

A reader appends what arrives to a buffer, and takes the complete lines from its start.
-/

namespace Mowis.Lib

def completeLines (t : Text) : List Text := (t.splitOn '\n').dropLast

def openLine (t : Text) : Text := (t.splitOn '\n').getLast (List.splitOn_ne_nil '\n' t)

theorem completeLines_line {l : Text} (hl : '\n' ∉ l) (t : Text) :
    completeLines (endLine l ++ t) = l :: completeLines t := by
  rw [completeLines, endLine, List.append_assoc, List.singleton_append,
    List.splitOn_append_cons_self_of_not_mem hl,
    List.dropLast_cons_of_ne_nil (List.splitOn_ne_nil '\n' t)]
  rfl

theorem completeLines_last {l : Text} (hl : '\n' ∉ l) : completeLines l = [] := by
  rw [completeLines, List.splitOn_eq_singleton hl]
  rfl

theorem openLine_line {l : Text} (hl : '\n' ∉ l) (t : Text) :
    openLine (endLine l ++ t) = openLine t := by
  have hsplit : (endLine l ++ t).splitOn '\n' = l :: t.splitOn '\n' := by
    rw [endLine, List.append_assoc, List.singleton_append,
      List.splitOn_append_cons_self_of_not_mem hl]
  simp only [openLine, hsplit]
  exact List.getLast_cons (List.splitOn_ne_nil '\n' t)

theorem openLine_last {l : Text} (hl : '\n' ∉ l) : openLine l = l := by
  simp only [openLine, List.splitOn_eq_singleton hl, List.getLast_singleton]

theorem splitOn_eq_completeLines (t : Text) : t.splitOn '\n' = completeLines t ++ [openLine t] :=
  (List.dropLast_append_getLast (List.splitOn_ne_nil '\n' t)).symm

section drain

variable {σ : Type*} (onLine : σ → Text → σ)

def drain (buffer : Text) (s : σ) : Text × σ :=
  match _h : splitFirst ['\n'] buffer with
  | none => (buffer, s)
  | some (line, rest) => drain rest (onLine s line)
termination_by buffer.length
decreasing_by exact splitFirst_length (by decide) _h

theorem drain_line {l : Text} (hl : '\n' ∉ l) (t : Text) (s : σ) :
    drain onLine (endLine l ++ t) s = drain onLine t (onLine s l) := by
  have hsplit : splitFirst ['\n'] (endLine l ++ t) = some (l, t) := by
    rw [endLine, List.append_assoc]
    exact splitFirst_char hl t
  rw [drain]
  split
  · next hnone =>
    rw [hsplit] at hnone
    cases hnone
  · next line rest hsome =>
    rw [hsplit] at hsome
    cases hsome
    rfl

theorem drain_last {l : Text} (hl : '\n' ∉ l) (s : σ) : drain onLine l s = (l, s) := by
  have hsplit : splitFirst ['\n'] l = none := splitFirst_char_none hl
  rw [drain]
  split
  · rfl
  · next line rest hsome =>
    rw [hsplit] at hsome
    cases hsome

theorem drain_eq (t : Text) (s : σ) :
    drain onLine t s = (openLine t, (completeLines t).foldl onLine s) := by
  induction t using text_induction generalizing s with
  | nil =>
    have hl : '\n' ∉ ([] : Text) := List.not_mem_nil
    rw [drain_last onLine hl, completeLines_last hl, openLine_last hl]
    rfl
  | last l hne hl =>
    rw [drain_last onLine hl, completeLines_last hl, openLine_last hl]
    rfl
  | line l t hl ih =>
    rw [drain_line onLine hl, ih, completeLines_line hl, openLine_line hl]
    rfl

theorem drain_append (t u : Text) (s : σ) :
    drain onLine (t ++ u) s =
      drain onLine ((drain onLine t s).1 ++ u) (drain onLine t s).2 := by
  induction t using text_induction generalizing s with
  | nil => rw [drain_last onLine List.not_mem_nil]
  | last l hne hl => rw [drain_last onLine hl]
  | line l t hl ih => rw [List.append_assoc, drain_line onLine hl, drain_line onLine hl, ih]

/-- **It does not matter in which pieces a text arrives.** -/
theorem foldl_drain (pieces : List Text) (s : σ) :
    pieces.foldl (fun bs piece => drain onLine (bs.1 ++ piece) bs.2) ([], s) =
      drain onLine pieces.flatten s := by
  have hgen : ∀ t, pieces.foldl (fun bs piece => drain onLine (bs.1 ++ piece) bs.2)
      (drain onLine t s) = drain onLine (t ++ pieces.flatten) s := by
    induction pieces with
    | nil => intro t; simp
    | cons piece pieces ih =>
      intro t
      rw [List.foldl_cons, ← drain_append, ih, List.flatten_cons, List.append_assoc]
  have hstart := hgen []
  rwa [drain_last onLine List.not_mem_nil] at hstart

end drain

theorem mangled_append_inv {t u r : Text} (h : Mangled (t ++ u) r) :
    ∃ r₁ r₂, r = r₁ ++ r₂ ∧ Mangled t r₁ ∧ Mangled u r₂ := by
  induction t generalizing r with
  | nil => exact ⟨[], r, rfl, .nil, h⟩
  | cons c t ih =>
    cases h with
    | keep _ h =>
      obtain ⟨r₁, r₂, rfl, h₁, h₂⟩ := ih h
      exact ⟨c :: r₁, r₂, rfl, .keep c h₁, h₂⟩
    | broken _ n hc hn h =>
      obtain ⟨r₁, r₂, rfl, h₁, h₂⟩ := ih h
      exact ⟨_, r₂, (List.append_assoc ..).symm, .broken c n hc hn h₁, h₂⟩

theorem Mangled.eq_of_ascii {t r : Text} (h : Mangled t r) (ht : ∀ c ∈ t, c.utf8Size = 1) : r = t := by
  induction h with
  | nil => rfl
  | keep c _ ih => rw [ih fun c hc => ht c (List.mem_cons_of_mem _ hc)]
  | broken c n hc _ _ _ => exact absurd (ht c List.mem_cons_self) (Nat.ne_of_gt hc)

theorem Mangled.mem {t r : Text} (h : Mangled t r) {c : Char} (hc : c ≠ replacement) (hmem : c ∈ r) :
    c ∈ t := by
  induction h with
  | nil => exact hmem
  | keep c' _ ih =>
    rcases List.mem_cons.mp hmem with rfl | hmem
    · exact List.mem_cons_self
    · exact List.mem_cons_of_mem _ (ih hmem)
  | broken c' n _ _ _ ih =>
    rcases List.mem_append.mp hmem with hmem | hmem
    · exact absurd (List.eq_of_mem_replicate hmem) hc
    · exact List.mem_cons_of_mem _ (ih hmem)

theorem mangled_completeLines {t r : Text} (h : Mangled t r) :
    List.Forall₂ Mangled (completeLines t) (completeLines r) := by
  have hfeed : '\n' ≠ replacement := ne_replacement (by decide)
  induction t using text_induction generalizing r with
  | nil =>
    cases h
    exact .nil
  | last l hne hl =>
    rw [completeLines_last hl, completeLines_last fun hmem => hl (h.mem hfeed hmem)]
    exact .nil
  | line l t hl ih =>
    obtain ⟨r₁, r₂, rfl, h₁, h₂⟩ := mangled_append_inv h
    obtain ⟨l', e, rfl, hl', he⟩ := mangled_append_inv h₁
    have hone : ∀ c ∈ ['\n'], c.utf8Size = 1 :=
      fun c hc => utf8Size_ascii.mpr (List.mem_singleton.mp hc ▸ by decide)
    rw [he.eq_of_ascii hone, ← endLine, completeLines_line hl,
      completeLines_line fun hmem => hl (hl'.mem hfeed hmem)]
    exact .cons hl' (ih h₂)

end Mowis.Lib
