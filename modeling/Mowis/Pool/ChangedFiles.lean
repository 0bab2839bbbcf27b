import Mowis.Agent.Shortening

/-!
# The files that were changed

`collect_changed_files` of `new_orchestrator.rs`: what is left of each line of
`git status --porcelain` after white space at its ends and three bytes.
-/

namespace Mowis.Pool.ChangedFiles

open Mowis.Lib
open Mowis.Agent.Shortening (byteLength byteLength_cons byteLength_pos)

/-- `&t[n..]`, where `none` is the panic. -/
def sliceFrom : Text → ℕ → Option Text
  | t, 0 => some t
  | [], _ + 1 => none
  | c :: cs, n + 1 => if c.utf8Size ≤ n + 1 then sliceFrom cs (n + 1 - c.utf8Size) else none

def pathOf (line : Text) : Option (Option Text) :=
  let line := trim line
  if 3 < byteLength line then (sliceFrom line 3).map some else some none

def pathsOf : List Text → Option (List Text)
  | [] => some []
  | line :: rest =>
    match pathOf line with
    | none => none
    | some path => (pathsOf rest).map (path.toList ++ ·)

/-- The paths from what `git` writes, if it could be run; `none` is a panic. -/
def collectChangedFiles (output : Option Text) : Option (List Text) :=
  match output with
  | none => some []
  | some out => pathsOf (lines out)

/-- A path as it is shown.  One with special characters, white space among them, is quoted. -/
inductive Name
  | bare (path : Text) (plain : path ≠ [] ∧ ∀ c ∈ path, isWhitespace c = false)
  | quoted (path inner : Text) (escaped : path.length ≤ inner.length ∧ '\n' ∉ inner)

namespace Name

def path : Name → Text
  | bare path _ => path
  | quoted path _ _ => path

def shown : Name → Text
  | bare path _ => path
  | quoted _ inner _ => '"' :: (inner ++ ['"'])

def IsBare : Name → Prop
  | bare _ _ => True
  | quoted _ _ _ => False

end Name

def statusLetters : Text := " MTADRCU?!".toList

/-- An entry of the status: the letters for index and work tree, the name, and for a rename or a
copy the name before. -/
structure Entry where
  x : Char
  y : Char
  name : Name
  renamed : Option Name
  x_letter : x ∈ statusLetters
  y_letter : y ∈ statusLetters
  changed : x ≠ ' ' ∨ y ≠ ' '

namespace Entry

def names (e : Entry) : Text :=
  match e.renamed with
  | none => e.name.shown
  | some old => old.shown ++ " -> ".toList ++ e.name.shown

def line (e : Entry) : Text := e.x :: e.y :: ' ' :: e.names

/-- The index has changed, and the line ends in the path itself. -/
def Plain (e : Entry) : Prop := e.x ≠ ' ' ∧ e.renamed = none ∧ e.name.IsBare

end Entry

def porcelain (entries : List Entry) : Text := entries.flatMap fun e => endLine e.line

/-! ### What comes of a line -/

def Tight (t : Text) : Prop :=
  ∃ h : t ≠ [], isWhitespace (t.head h) = false ∧ isWhitespace (t.getLast h) = false

theorem Tight.trim {t : Text} (h : Tight t) : trim t = t := by
  obtain ⟨hne, hhead, hlast⟩ := h
  have hdrop : t.dropWhile isWhitespace = t := by
    rw [List.dropWhile_eq_self_iff]
    intro hlen
    rw [← List.head_eq_getElem hne, hhead]
    exact Bool.false_ne_true
  rw [Lib.trim, hdrop, trimEnd, List.rdropWhile_eq_self_iff]
  intro _
  rw [hlast]
  exact Bool.false_ne_true

theorem Name.tight (n : Name) : Tight n.shown := by
  cases n with
  | bare path plain =>
    exact ⟨plain.1, plain.2 _ (List.head_mem plain.1), plain.2 _ (List.getLast_mem plain.1)⟩
  | quoted path inner escaped =>
    refine ⟨List.cons_ne_nil _ _, rfl, ?_⟩
    simp only [Name.shown]
    rw [List.getLast_cons (by simp), List.getLast_append_singleton]
    rfl

theorem Name.oneLine (n : Name) : '\n' ∉ n.shown := by
  cases n with
  | bare path plain => exact fun hmem => nomatch (plain.2 '\n' hmem).symm
  | quoted path inner escaped => simp [Name.shown, escaped.2]

theorem Name.length_path_le (n : Name) : n.path.length ≤ n.shown.length := by
  cases n with
  | bare path plain => exact le_rfl
  | quoted path inner escaped =>
    have hle := escaped.1
    simp only [Name.shown, Name.path, List.length_cons, List.length_append]
    omega

theorem Tight.append {t : Text} (h : Tight t) (pre : Text) (hpre : pre ≠ [])
    (hhead : isWhitespace (pre.head hpre) = false) : Tight (pre ++ t) := by
  obtain ⟨hne, -, hlast⟩ := h
  refine ⟨List.append_ne_nil_of_left_ne_nil hpre t, ?_, ?_⟩
  · rw [List.head_append_of_ne_nil hpre, hhead]
  · rw [List.getLast_append_of_ne_nil _ hne, hlast]

variable (e : Entry)

theorem Entry.tight_names : Tight e.names := by
  rw [Entry.names]
  cases e.renamed with
  | none => exact e.name.tight
  | some old =>
    obtain ⟨hne, hhead, -⟩ := old.tight
    refine e.name.tight.append _ (List.append_ne_nil_of_left_ne_nil hne _) ?_
    rw [List.head_append_of_ne_nil hne, hhead]

theorem letter {c : Char} (h : c ∈ statusLetters) :
    c.utf8Size = 1 ∧ c ≠ '\n' ∧ (c ≠ ' ' → isWhitespace c = false) := by
  have hall : statusLetters.all (fun c => c.utf8Size = 1 ∧ c ≠ '\n' ∧
      (c ≠ ' ' → isWhitespace c = false)) = true := by decide
  exact of_decide_eq_true (List.all_eq_true.mp hall c h)

theorem pathOf_of_index (hx : e.x ≠ ' ') : pathOf e.line = some (some e.names) := by
  obtain ⟨hxs, -, hxw⟩ := letter e.x_letter
  obtain ⟨hys, -, -⟩ := letter e.y_letter
  have htight : Tight e.line := e.tight_names.append [e.x, e.y, ' '] (List.cons_ne_nil _ _) (hxw hx)
  have hpos := byteLength_pos e.tight_names.1
  have hspace : ' '.utf8Size = 1 := rfl
  rw [pathOf, htight.trim, if_pos]
  · simp [Entry.line, sliceFrom, hxs, hys, hspace]
  · rw [Entry.line, byteLength_cons, byteLength_cons, byteLength_cons]
    omega

theorem pathOf_of_worktree (hx : e.x = ' ') {p : Text} (h : pathOf e.line = some (some p)) :
    p.length + 1 = e.names.length := by
  obtain ⟨hys, -, hyw⟩ := letter e.y_letter
  have hy : e.y ≠ ' ' := e.changed.resolve_left (not_not_intro hx)
  have htight : Tight (e.y :: ' ' :: e.names) :=
    e.tight_names.append [e.y, ' '] (List.cons_ne_nil _ _) (hyw hy)
  have htrim : trim e.line = e.y :: ' ' :: e.names := by
    rw [Entry.line, hx]
    exact htight.trim
  have hspace : ' '.utf8Size = 1 := rfl
  obtain ⟨c, cs, hnames⟩ := List.exists_cons_of_ne_nil e.tight_names.1
  rw [pathOf, htrim, hnames] at h
  split_ifs at h
  · obtain ⟨q, hq, hp⟩ := Option.map_eq_some_iff.mp h
    cases hp
    have hslice : sliceFrom (e.y :: ' ' :: c :: cs) 3 =
        if c.utf8Size = 1 then some cs else none := by
      have hpos := c.utf8Size_pos
      have hle : c.utf8Size ≤ 1 ↔ c.utf8Size = 1 := by omega
      simp +contextual [sliceFrom, hys, hspace, hle]
    rw [hslice] at hq
    split_ifs at hq
    cases hq
    rw [hnames, List.length_cons]
  · cases h

theorem Entry.length_names :
    e.renamed = none ∧ e.name.IsBare ∧ e.names.length = e.name.path.length ∨
    e.name.path.length + 2 ≤ e.names.length := by
  have hle := e.name.length_path_le
  rw [Entry.names]
  cases e.renamed with
  | none =>
    cases e.name with
    | bare path plain => exact .inl ⟨rfl, trivial, rfl⟩
    | quoted path inner escaped =>
      have hinner := escaped.1
      refine .inr ?_
      simp only [Name.shown, Name.path, List.length_cons, List.length_append]
      omega
  | some old =>
    refine .inr ?_
    have harrow : (" -> ".toList).length = 4 := rfl
    rw [List.length_append, List.length_append]
    omega

theorem pathOf_iff : pathOf e.line = some (some e.name.path) ↔ e.Plain := by
  constructor
  · intro h
    by_cases hx : e.x = ' '
    · have hlen := pathOf_of_worktree e hx h
      rcases e.length_names with ⟨-, -, hnames⟩ | hlong
      · omega
      · omega
    · rw [pathOf_of_index e hx] at h
      have hlen : e.names.length = e.name.path.length :=
        congrArg List.length (Option.some.inj (Option.some.inj h))
      rcases e.length_names with ⟨hrenamed, hbare, -⟩ | hlong
      · exact ⟨hx, hrenamed, hbare⟩
      · omega
  · rintro ⟨hx, hrenamed, hbare⟩
    rw [pathOf_of_index e hx, Entry.names, hrenamed]
    cases hname : e.name with
    | bare path plain => rfl
    | quoted path inner escaped =>
      rw [hname] at hbare
      cases hbare

theorem Entry.oneLine : '\n' ∉ e.line := by
  obtain ⟨-, hx, -⟩ := letter e.x_letter
  obtain ⟨-, hy, -⟩ := letter e.y_letter
  have hname := e.name.oneLine
  have hnames : '\n' ∉ e.names := by
    rw [Entry.names]
    cases e.renamed with
    | none => exact hname
    | some old => simp [old.oneLine, hname]
  simp [Entry.line, Ne.symm hx, Ne.symm hy, hnames]

theorem lines_porcelain (entries : List Entry) :
    lines (porcelain entries) = entries.map Entry.line := by
  have hlines : lines ((entries.map Entry.line).flatMap endLine) =
      (entries.map Entry.line).map dropCR := by
    refine lines_flatMap_endLine fun l hl => ?_
    obtain ⟨e, -, rfl⟩ := List.mem_map.mp hl
    exact e.oneLine
  rw [List.flatMap_map, List.map_map] at hlines
  rw [porcelain, hlines]
  refine List.map_congr_left fun e _ => dropCR_eq_self fun hlast => ?_
  obtain ⟨hne, -, hend⟩ := e.tight_names
  have hsame : e.line.getLast? = e.names.getLast? :=
    List.getLast?_append_of_ne_nil [e.x, e.y, ' '] hne
  rw [hsame, List.getLast?_eq_some_getLast hne] at hlast
  rw [Option.some.inj hlast] at hend
  cases hend

theorem length_pathsOf {ls : List Text} {paths : List Text} (h : pathsOf ls = some paths) :
    paths.length ≤ ls.length := by
  induction ls generalizing paths with
  | nil =>
    cases h
    exact le_rfl
  | cons line rest ih =>
    rw [pathsOf] at h
    split at h
    · cases h
    · next path hpath =>
      obtain ⟨others, hothers, rfl⟩ := Option.map_eq_some_iff.mp h
      have hle := ih hothers
      cases path with
      | none => exact hle.trans (Nat.le_succ _)
      | some p => exact Nat.succ_le_succ hle

theorem pathsOf_iff (entries : List Entry) :
    pathsOf (entries.map Entry.line) = some (entries.map fun e => e.name.path) ↔
      ∀ e ∈ entries, e.Plain := by
  induction entries with
  | nil => simp [pathsOf]
  | cons e es ih =>
    rw [List.forall_mem_cons, ← ih, ← pathOf_iff, List.map_cons, List.map_cons, pathsOf]
    cases hpath : pathOf e.line with
    | none => simp
    | some path =>
      cases path with
      | some p => simp [and_comm]
      | none =>
        -- A line without a path would leave too few of them.
        refine iff_of_false (fun h => ?_) (by simp)
        obtain ⟨others, hothers, heq⟩ := Option.map_eq_some_iff.mp h
        have hle := length_pathsOf hothers
        have hlen := congrArg List.length heq
        simp only [Option.toList_none, List.nil_append, List.length_cons,
          List.length_map] at hlen hle
        omega

/-- **When the changed files are listed**: just where each entry has a letter for the index, no name
before, and a path without quotes. -/
theorem changed_files_iff (entries : List Entry) :
    collectChangedFiles (some (porcelain entries)) = some (entries.map fun e => e.name.path) ↔
      ∀ e ∈ entries, e.Plain := by
  rw [collectChangedFiles, lines_porcelain]
  exact pathsOf_iff entries

/-- A file that is changed in the work tree only loses its first letter. -/
theorem not_changed_files : ¬ ∀ entries : List Entry,
    collectChangedFiles (some (porcelain entries)) = some (entries.map fun e => e.name.path) := by
  intro h
  have hplain := (changed_files_iff _).mp (h [⟨' ', 'M',
    .bare ['a', 'b'] ⟨by decide, by simp; decide⟩, none, by decide, by decide, by decide⟩]) _
    (List.mem_singleton.mpr rfl)
  exact hplain.1 rfl

end Mowis.Pool.ChangedFiles
