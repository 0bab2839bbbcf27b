import Mowis.Planning.PlanText

/-!
# Prose and plan blocks of a reply

How the tags of a reply cut it into prose and plan blocks, told by a relation of its own, and
what the two scanners make of it: the loop that collects the blocks and the one that takes
them out of what the user reads.
-/

namespace Mowis.Planning

open Mowis.Lib

/-- A piece of a reply: text between the blocks, the body of a closed block, or the text behind
an opening tag that nothing closes. -/
inductive Piece where
  | prose (text : Text)
  | block (body : Text)
  | cut (body : Text)

namespace Piece

def shown : Piece → Text
  | prose t => t
  | block _ => []
  | cut _ => []

def body? : Piece → Option Text
  | prose _ => none
  | block body => some body
  | cut _ => none

/-- The part of a piece that `strip_plan_from_reply` lets through. -/
def passed : Piece → Text
  | prose t => t
  | block _ => []
  | cut body => body

end Piece

/-- The text is cut into these pieces: prose has no opening tag, and a block ends at the first
closing tag behind its opening tag. -/
inductive Reads : Text → List Piece → Prop where
  | prose {p : Text} (hp : ¬ openTag <:+: p) : Reads p [.prose p]
  | block {p body rest : Text} {pieces : List Piece} (hp : ¬ openTag <:+: p)
      (hbody : ¬ closeTag <:+: body) (hrest : Reads rest pieces) :
      Reads (p ++ (openTag ++ (body ++ (closeTag ++ rest)))) (.prose p :: .block body :: pieces)
  | cut {p body : Text} (hp : ¬ openTag <:+: p) (hbody : ¬ closeTag <:+: body) :
      Reads (p ++ (openTag ++ body)) [.prose p, .cut body]

theorem exists_reads (t : Text) : ∃ pieces, Reads t pieces := by
  induction hlen : t.length using Nat.strong_induction_on generalizing t with
  | _ n ih =>
    subst hlen
    cases hopen : splitFirst openTag t with
    | none => exact ⟨_, .prose ((splitFirst_eq_none_iff (by decide)).mp hopen)⟩
    | some parts =>
      obtain ⟨p, after⟩ := parts
      have hp := not_infix_of_splitFirst (by decide) hopen
      have ht := splitFirst_eq_some hopen
      rw [List.append_assoc] at ht
      cases hclose : splitFirst closeTag after with
      | none =>
        rw [ht]
        exact ⟨_, .cut hp ((splitFirst_eq_none_iff (by decide)).mp hclose)⟩
      | some parts' =>
        obtain ⟨body, rest⟩ := parts'
        have hshort : rest.length < t.length :=
          (splitFirst_length (by decide) hclose).trans (splitFirst_length (by decide) hopen)
        obtain ⟨pieces, hrest⟩ := ih rest.length hshort rest rfl
        have hafter := splitFirst_eq_some hclose
        rw [List.append_assoc] at hafter
        rw [ht, hafter]
        exact ⟨_, .block hp (not_infix_of_splitFirst (by decide) hclose) hrest⟩

theorem splitFirst_openTag {p : Text} (hp : ¬ openTag <:+: p) (rest : Text) :
    splitFirst openTag (p ++ (openTag ++ rest)) = some (p, rest) :=
  splitFirst_append (show openTag = '<' :: "plan>".toList from rfl) (by decide) hp rest

theorem splitFirst_closeTag {body : Text} (hbody : ¬ closeTag <:+: body) (rest : Text) :
    splitFirst closeTag (body ++ (closeTag ++ rest)) = some (body, rest) :=
  splitFirst_append (show closeTag = '<' :: "/plan>".toList from rfl) (by decide) hbody rest

theorem Reads.blocksOf_eq {t : Text} {pieces : List Piece} (h : Reads t pieces) :
    blocksOf t = pieces.filterMap Piece.body? := by
  induction h with
  | @prose p hp =>
    have hnone : nextBlock p = none := by
      rw [nextBlock, (splitFirst_eq_none_iff (by decide)).mpr hp]
      rfl
    rw [blocksOf]
    split
    · rfl
    · next hsome => simp [hnone] at hsome
  | @block p body rest pieces hp hbody hrest ih =>
    have hnext : nextBlock (p ++ (openTag ++ (body ++ (closeTag ++ rest)))) = some (body, rest) := by
      rw [nextBlock, splitFirst_openTag hp]
      exact splitFirst_closeTag hbody rest
    rw [blocksOf]
    split
    · next hnone => simp [hnext] at hnone
    · next block' rest' hsome =>
      rw [hnext] at hsome
      cases hsome
      rw [ih]
      rfl
  | @cut p body hp hbody =>
    have hnone : nextBlock (p ++ (openTag ++ body)) = none := by
      rw [nextBlock, splitFirst_openTag hp]
      exact (splitFirst_eq_none_iff (by decide)).mpr hbody
    rw [blocksOf]
    split
    · rfl
    · next hsome => simp [hnone] at hsome

theorem Reads.stripPlan_eq {t : Text} {pieces : List Piece} (h : Reads t pieces) :
    stripPlan t = pieces.flatMap Piece.passed := by
  induction h with
  | @prose p hp =>
    have hnone : splitFirst openTag p = none := (splitFirst_eq_none_iff (by decide)).mpr hp
    rw [stripPlan]
    split
    · simp [Piece.passed]
    · next hsome => simp [hnone] at hsome
  | @block p body rest pieces hp hbody hrest ih =>
    have hopen := splitFirst_openTag hp (body ++ (closeTag ++ rest))
    have hclose := splitFirst_closeTag hbody rest
    rw [stripPlan]
    split
    · next hnone => simp [hopen] at hnone
    · next hsome =>
      rw [hopen] at hsome
      cases hsome
      split
      · next hnone => simp [hclose] at hnone
      · next hsome =>
        rw [hclose] at hsome
        cases hsome
        rw [ih]
        simp [Piece.passed]
  | @cut p body hp hbody =>
    have hopen := splitFirst_openTag hp body
    have hclose : splitFirst closeTag body = none := (splitFirst_eq_none_iff (by decide)).mpr hbody
    rw [stripPlan]
    split
    · next hnone => simp [hopen] at hnone
    · next hsome =>
      rw [hopen] at hsome
      cases hsome
      split
      · simp [Piece.passed]
      · next hsome => simp [hclose] at hsome

/-- A reply is split without overlap: however its tags are read, the user is shown its prose
and nothing else, and the blocks of the plan are the bodies of its closed blocks. -/
structure Partitioned (reply : String) : Prop where
  reads : ∃ pieces, Reads reply.toList pieces
  shown : ∀ pieces, Reads reply.toList pieces →
    stripPlanFromReply reply = String.ofList (pieces.flatMap Piece.shown)
  blocks : ∀ pieces, Reads reply.toList pieces →
    planBlocks reply = (pieces.filterMap Piece.body?).map String.ofList

def CutOff (reply : String) : Prop :=
  ∃ pieces body, Reads reply.toList pieces ∧ Piece.cut body ∈ pieces ∧ body ≠ []

theorem passed_eq_shown_iff (pieces : List Piece) :
    pieces.flatMap Piece.passed = pieces.flatMap Piece.shown ↔
      ∀ body, Piece.cut body ∈ pieces → body = [] := by
  have hle : ∀ ps : List Piece,
      (ps.flatMap Piece.shown).length ≤ (ps.flatMap Piece.passed).length := by
    intro ps
    induction ps with
    | nil => exact le_rfl
    | cons piece ps ih =>
      have hpiece : piece.shown.length ≤ piece.passed.length := by
        cases piece <;> simp [Piece.shown, Piece.passed]
      simp only [List.flatMap_cons, List.length_append]
      omega
  induction pieces with
  | nil => simp
  | cons piece pieces ih =>
    rw [List.flatMap_cons, List.flatMap_cons]
    cases piece with
    | prose t =>
      simp only [Piece.passed, Piece.shown, List.append_cancel_left_eq, ih, List.mem_cons,
        reduceCtorEq, false_or]
    | block body =>
      simp only [Piece.passed, Piece.shown, List.nil_append, ih, List.mem_cons, reduceCtorEq,
        false_or]
    | cut body =>
      constructor
      · intro heq
        have hlen := congrArg List.length heq
        simp only [Piece.passed, Piece.shown, List.nil_append, List.length_append] at hlen
        have hrest := hle pieces
        have hbody : body = [] := List.length_eq_zero_iff.mp (by omega)
        rw [hbody] at heq
        simp only [List.mem_cons, Piece.cut.injEq, forall_eq_or_imp]
        exact ⟨hbody, ih.mp heq⟩
      · intro h
        simp only [List.mem_cons, Piece.cut.injEq, forall_eq_or_imp] at h
        rw [h.1]
        exact ih.mpr h.2

/-- **Plan blocks and visible prose.** A reply is split into the prose the user is shown and
the bodies of its plan blocks exactly when it does not end inside a plan block. -/
theorem partitioned_iff (reply : String) : Partitioned reply ↔ ¬ CutOff reply := by
  constructor
  · rintro h ⟨pieces, body, hreads, hcut, hbody⟩
    have hshown := h.shown pieces hreads
    rw [stripPlanFromReply, hreads.stripPlan_eq, String.ofList_inj] at hshown
    exact hbody ((passed_eq_shown_iff pieces).mp hshown body hcut)
  · intro h
    refine ⟨exists_reads _, fun pieces hreads => ?_, fun pieces hreads => ?_⟩
    · have hpassed : pieces.flatMap Piece.passed = pieces.flatMap Piece.shown := by
        rw [passed_eq_shown_iff]
        intro body hcut
        by_contra hbody
        exact h ⟨pieces, body, hreads, hcut, hbody⟩
      rw [stripPlanFromReply, hreads.stripPlan_eq, hpassed]
    · rw [planBlocks, hreads.blocksOf_eq]

/-- A reply that stops inside its plan shows the user the plan. -/
theorem not_partitioned_cut :
    stripPlanFromReply "Hi <plan>id = 1" = "Hi id = 1" ∧ ¬ Partitioned "Hi <plan>id = 1" := by
  have hreads : Reads "Hi <plan>id = 1".toList
      [.prose "Hi ".toList, .cut "id = 1".toList] :=
    @Reads.cut "Hi ".toList "id = 1".toList (by decide) (by decide)
  constructor
  · rw [stripPlanFromReply, hreads.stripPlan_eq]
    rfl
  · rw [partitioned_iff, not_not]
    exact ⟨_, "id = 1".toList, hreads, by simp, by decide⟩

end Mowis.Planning
