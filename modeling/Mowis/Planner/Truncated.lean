import Mowis.Lib.JsonText
import Mowis.Planner.Parse

/-!
# Closing a text that was cut off

`complete_truncated_json` against the grammar of JSON: the counts of the scan are those of the open
containers, but the brackets are put before the braces whatever was opened last.
-/

namespace Mowis.Planner

open Mowis.Lib Mowis.Lib.JsonText

/-- The scan counts the open containers and knows where strings are. -/
structure Tracks (s : State) (scan : Scan) : Prop where
  braces : scan.braceCount = s.stack.count .object
  brackets : scan.bracketCount = s.stack.count .array
  inString : scan.inString = s.inString
  escapeNext : scan.escapeNext = s.escaped

theorem tracks_start : Tracks start Scan.start := ⟨rfl, rfl, rfl, rfl⟩

theorem Tracks.eq {s : State} {scan : Scan} (h : Tracks s scan) :
    scan = ⟨s.stack.count .object, s.stack.count .array, s.inString, s.escaped⟩ := by
  obtain ⟨braces, brackets, inString, escapeNext⟩ := scan
  obtain ⟨rfl, rfl, rfl, rfl⟩ := h
  rfl

theorem not_syntax {c : Char} (h : isSyntax c = false) :
    c ≠ '"' ∧ c ≠ '{' ∧ c ≠ '}' ∧ c ≠ '[' ∧ c ≠ ']' := by
  refine ⟨?_, ?_, ?_, ?_, ?_⟩
  all_goals
    intro hc
    rw [hc] at h
    exact absurd h (by decide)

theorem Tracks.char {s s' : State} {scan : Scan} {c : Char} (h : Tracks s scan)
    (hmoves : Moves s c s') : Tracks s' (scan.char c) := by
  rw [h.eq]
  cases hmoves with
  | opens d hout hc hs' =>
    rw [hout, escaped_of_not_inString hout, hc, hs']
    cases d with
    | object =>
      refine ⟨?_, ?_, rfl, rfl⟩
      · rw [List.count_cons_self, Nat.cast_succ]
        rfl
      · rw [List.count_cons_of_ne (by decide)]
        rfl
    | array =>
      refine ⟨?_, ?_, rfl, rfl⟩
      · rw [List.count_cons_of_ne (by decide)]
        rfl
      · rw [List.count_cons_self, Nat.cast_succ]
        rfl
  | closes d hout hc hstack hmode =>
    have hout' : s'.inString = false := inString_of_ended (by rw [hmode]; rfl)
    rw [hout, escaped_of_not_inString hout, hc, hstack]
    cases d with
    | object =>
      refine ⟨?_, ?_, hout'.symm, (escaped_of_not_inString hout').symm⟩
      · show ((List.count Container.object (.object :: s'.stack) : ℕ) : ℤ) - 1 = _
        rw [List.count_cons_self, Nat.cast_succ, Int.add_sub_cancel]
      · show ((List.count Container.array (.object :: s'.stack) : ℕ) : ℤ) = _
        rw [List.count_cons_of_ne (by decide)]
    | array =>
      refine ⟨?_, ?_, hout'.symm, (escaped_of_not_inString hout').symm⟩
      · show ((List.count Container.object (.array :: s'.stack) : ℕ) : ℤ) = _
        rw [List.count_cons_of_ne (by decide)]
      · show ((List.count Container.array (.array :: s'.stack) : ℕ) : ℤ) - 1 = _
        rw [List.count_cons_self, Nat.cast_succ, Int.add_sub_cancel]
  | quote hc hesc hesc' htoggle hstack =>
    rw [hesc, hc, ← hstack]
    exact ⟨rfl, rfl, htoggle.symm, hesc'.symm⟩
  | escape hc hin hesc hin' hesc' hstack =>
    rw [hesc, hin, hc, ← hstack]
    exact ⟨rfl, rfl, hin'.symm, hesc'.symm⟩
  | inside hin hin' hesc' hc hstack =>
    rw [hin, ← hstack]
    cases hesc : s.escaped with
    | true => exact ⟨rfl, rfl, hin'.symm, hesc'.symm⟩
    | false =>
      obtain ⟨hquote, hback⟩ := hc.resolve_left (by rw [hesc]; exact Bool.false_ne_true)
      rw [Scan.char, if_neg Bool.false_ne_true, if_neg fun h => hback h.1, if_neg hquote,
        if_pos rfl]
      exact ⟨rfl, rfl, hin'.symm, hesc'.symm⟩
  | outside hout hout' hc hstack =>
    obtain ⟨hquote, hopen, hclose, hopen', hclose'⟩ := not_syntax hc
    rw [hout, escaped_of_not_inString hout, ← hstack, Scan.char, if_neg Bool.false_ne_true,
      if_neg fun h => Bool.false_ne_true h.2, if_neg hquote, if_neg Bool.false_ne_true,
      if_neg hopen, if_neg hclose, if_neg hopen', if_neg hclose']
    exact ⟨rfl, rfl, hout'.symm, (escaped_of_not_inString hout').symm⟩

theorem tracks_run {s s' : State} {scan : Scan} {t : Text} (hok : s.Ok) (h : Tracks s scan)
    (hrun : run s t = some s') : Tracks s' (t.foldl Scan.char scan) := by
  induction t generalizing s scan with
  | nil =>
    cases hrun
    exact h
  | cons c cs ih =>
    rw [run] at hrun
    split at hrun
    · cases hrun
    · next next hnext =>
      obtain ⟨hmoves, hok'⟩ := char_moves hok hnext
      exact ih hok' (h.char hmoves) hrun

theorem tracks_tally {t : Text} {s : State} (h : run start t = some s) : Tracks s (tally t) :=
  tracks_run ok_start tracks_start h

/-- What is kept of a text before it is closed: where a quotation mark follows the last brace, the
text up to this brace. -/
def keptText (jsonStr : Text) : Text :=
  match splitLast ['}'] jsonStr with
  | some (beforeBrace, afterBrace) =>
    if '"' ∈ afterBrace then beforeBrace ++ ['}'] else jsonStr
  | none => jsonStr

theorem keptText_isPrefix (t : Text) : keptText t <+: t := by
  unfold keptText
  split
  · next before after h =>
    split
    · have heq := splitLast_eq_some h
      rw [heq]
      exact List.prefix_append _ _
    · exact List.prefix_rfl
  · exact List.prefix_rfl

theorem keptText_ne_nil {t : Text} (h : t ≠ []) : keptText t ≠ [] := by
  unfold keptText
  split
  · split
    · exact List.append_ne_nil_of_right_ne_nil _ (List.cons_ne_nil _ _)
    · exact h
  · exact h

theorem completeTruncatedJson_eq (t : Text) :
    completeTruncatedJson t =
      if (tally t).braceCount > 0 ∨ (tally t).bracketCount > 0 then
        keptText t ++ completion (tally (keptText t))
      else t := by
  rw [completeTruncatedJson, keptText]
  cases h : splitLast ['}'] t with
  | none => rfl
  | some p =>
    obtain ⟨before, after⟩ := p
    have hno : '}' ∉ after := by
      intro hmem
      obtain ⟨a, b, rfl⟩ := List.append_of_mem hmem
      exact not_infix_of_splitLast (by decide) h ⟨a, b, by simp⟩
    by_cases hquote : '"' ∈ after
    · simp only [if_pos hquote, if_pos (And.intro hquote hno)]
    · simp only [if_neg hquote, if_neg fun hand : '"' ∈ after ∧ '}' ∉ after => hquote hand.1]

theorem completion_eq {s : State} {scan : Scan} (h : Tracks s scan) :
    completion scan = (arraysFirst s.stack).map Container.closing := by
  rw [completion, h.braces, h.brackets, arraysFirst, List.map_append, List.map_replicate,
    List.map_replicate]
  rfl

/-- The completed text is JSON, and what is JSON stays as it is. -/
structure Recovers (sj : SerdeJson) (p : Text) : Prop where
  parses : Valid (completeTruncatedJson p)
  fixed : Valid (fixCommonJsonIssues sj p)
  unchanged : ∀ t, Valid t → completeTruncatedJson t = t ∧ fixCommonJsonIssues sj t = t

theorem completeTruncatedJson_valid {t : Text} (h : Valid t) : completeTruncatedJson t = t := by
  obtain ⟨s, hrun, -, hstack⟩ := h
  have htracks := tracks_tally hrun
  rw [completeTruncatedJson_eq, if_neg]
  rw [htracks.braces, htracks.brackets, hstack]
  decide

/-- **Truncated JSON.**  A prefix of a JSON object is completed to JSON exactly if it is complete
itself, or if the part of it that is kept ends where the innermost container may be closed and has
no object open within an open array; and complete texts stay as they are. -/
theorem completeTruncatedJson_iff {t p : Text} (ht : Valid t) (hp : p <+: t)
    (hbrace : p.head? = some '{') (sj : SerdeJson) :
    Recovers sj p ↔ Valid p ∨ ∃ s, run start (keptText p) = some s ∧ s.Closable := by
  have hiff : Recovers sj p ↔ Valid (completeTruncatedJson p) := by
    constructor
    · exact fun h => h.parses
    · intro h
      refine ⟨h, (fixCommonJsonIssues_eq sj p).symm ▸ h, fun u hu => ?_⟩
      rw [fixCommonJsonIssues_eq, completeTruncatedJson_valid hu]
      exact ⟨rfl, rfl⟩
  rw [hiff]
  by_cases hvalid : Valid p
  · rw [completeTruncatedJson_valid hvalid]
    exact ⟨.inl, fun _ => hvalid⟩
  obtain ⟨sp, hsp⟩ := ht.run_prefix hp
  have hsp_ok := run_ok ok_start hsp
  have hopen : sp.stack.getLast? = some .object := by
    rcases run_object hbrace hsp with hopen | hdone
    · exact hopen
    · exact absurd ⟨sp, hsp, by rw [hdone]; rfl, by rw [hdone]⟩ hvalid
  have hcount : (tally p).braceCount > 0 := by
    rw [(tracks_tally hsp).braces]
    exact_mod_cast List.count_pos_iff.mpr (List.mem_of_getLast? hopen)
  rw [completeTruncatedJson_eq, if_pos (.inl hcount)]
  obtain ⟨s, hs⟩ := ht.run_prefix ((keptText_isPrefix p).trans hp)
  have hs_ok := run_ok ok_start hs
  have hs_open : s.stack ≠ [] := by
    intro hnil
    obtain ⟨u, hu⟩ := keptText_isPrefix p
    have hhead : (keptText p).head? = some '{' := by
      obtain ⟨c, rest, hcons⟩ := List.exists_cons_of_ne_nil
        (keptText_ne_nil (t := p) (by rintro rfl; cases hbrace))
      rw [← hu, hcons] at hbrace
      rw [hcons]
      exact hbrace
    rcases run_object hhead hs with hbottom | hdone
    · rw [hnil] at hbottom
      cases hbottom
    · -- what follows a complete object is white space
      rw [← hu, run_append, hs, Option.bind_some, hdone] at hsp
      rw [(run_done hsp).2] at hopen
      cases hopen
  rw [completion_eq (tracks_tally hs), Valid]
  have hclosed : (∃ s', run start (keptText p ++ (arraysFirst s.stack).map Container.closing) =
      some s' ∧ s'.mode.ended = true ∧ s'.stack = []) ↔ s.Closable := by
    rw [run_append, hs, Option.bind_some, closers_iff hs_ok hs_open]
  rw [hclosed]
  constructor
  · exact fun h => .inr ⟨s, hs, h⟩
  · intro h
    obtain ⟨s', hs', h⟩ := h.resolve_left hvalid
    rw [hs] at hs'
    cases hs'
    exact h

def noParser : SerdeJson := ⟨fun _ => none, fun _ => none, fun _ => none⟩

/-- An object that is cut off within an array. -/
theorem completeTruncatedJson_array : Recovers noParser "\x7b\"a\":[1".toList := by
  have hwhole : Valid "\x7b\"a\":[1]\x7d".toList := by decide
  exact (completeTruncatedJson_iff hwhole (by decide) rfl _).mpr
    (.inr ⟨⟨.number .int, [.array, .object]⟩, by decide, by decide⟩)

/-- An object that is cut off within an object in an array: the bracket is put first. -/
theorem not_recovered :
    ¬ ∀ t p sj, Valid t → p <+: t → p.head? = some '{' → Recovers sj p := by
  intro h
  have hwhole : Valid "\x7b\"a\":[\x7b\"b\":1\x7d]\x7d".toList := by decide
  have hparses := (h _ "\x7b\"a\":[\x7b\"b\":1".toList noParser hwhole (by decide) rfl).parses
  revert hparses
  decide +kernel

end Mowis.Planner
