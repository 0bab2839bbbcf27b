import Mowis.Lib.CommandLists
import Mowis.Review.Reviewer

/-!
# The line that a command is run by

`run_command` of `agentd/src/tools/shell.rs` puts a directory and a command into one line for the
shell, `cd DIR 2>/dev/null && CMD`, both as they are.
-/

namespace Mowis.Shell.Composition

open Mowis.Lib Mowis.Lib.CommandLists
open Mowis.Review (Json)

/-- `validate_cwd` -/
def validateCwd (cwd : Text) : Bool :=
  !cwd.any fun c => c ∈ ['\x00', ';', '&', '|', '$', '\x60', '\n', '\r']

def cdPart (cwd : Text) : Text := "cd ".toList ++ (cwd ++ " 2>/dev/null".toList)

def shellLine (cwd cmd : Text) : Text := cdPart cwd ++ (" && ".toList ++ cmd)

inductive RunError where
  | missingCmd
  | noRoot
  | unsafeCwd
  deriving DecidableEq, Repr

def RunError.message : RunError → String
  | .missingCmd => "run_command: missing cmd"
  | .noRoot => "run_command: must execute within a container (no root_path)"
  | .unsafeCwd => "Working directory path contains unsafe characters"

def prepare (rootPath : Option Text) (input : Json) : Except RunError Text :=
  match input.getStr "cmd".toList with
  | none => .error .missingCmd
  | some cmd =>
    match rootPath with
    | none => .error .noRoot
    | some _ =>
      match input.getStr "cwd".toList with
      | none => .ok (shellLine "/".toList cmd)
      | some cwd => if validateCwd cwd then .ok (shellLine cwd cmd) else .error .unsafeCwd

theorem prepare_ok {rootPath : Option Text} {input : Json} {line : Text}
    (h : prepare rootPath input = .ok line) :
    ∃ cwd cmd, validateCwd cwd = true ∧ line = shellLine cwd cmd := by
  unfold prepare at h
  split at h
  · cases h
  · next cmd _ =>
    split at h
    · cases h
    · split at h
      · exact ⟨"/".toList, cmd, by decide, (Except.ok.inj h).symm⟩
      · next cwd _ =>
        split_ifs at h with hcwd
        exact ⟨cwd, cmd, hcwd, (Except.ok.inj h).symm⟩

/-- A shell: how it reads a text, what it does, and the directories there are.  `cd w` is the
command that changes to the directory `w`, with its errors to `/dev/null`. -/
structure Sh (P σ : Type) extends Machine P σ where
  parse : Text → Script P
  cd : Text → P
  /-- The state in the directory that a whole text names, as `cd` takes `..`, if it is there. -/
  enter : Text → σ → Option σ
  /-- The directory that the shell is in. -/
  place : σ → Text
  /-- Relative paths are looked for in the directories of `CDPATH`. -/
  cdpath : σ → Bool

def single {P : Type} (c : P) : Script P := ⟨[⟨⟨c, []⟩, false⟩], false⟩

/-- The characters of quoting, expansion and operators, but for `>`. -/
def special : List Char := ['\x00', '|', '&', ';', '<', '(', ')', '$', '\x60', '\\', '"', '\'', '\n']

/-- The text ends where a word or an operator does: nothing is quoted, no comment is begun, and
there is no other operator than `>`. -/
def quiet : Bool → Text → Bool
  | _, [] => true
  | start, c :: t =>
    !(c ∈ special) && !(start && c = '#') && quiet (c = ' ' || c = '\t' || c = '>') t

def plain (w : Text) : Bool :=
  !w.any fun c => c ∈ special ++ ['>', ' ', '\t', '*', '?', '[']

/-- A word that stands for itself, and is no option. -/
structure PlainWord (w : Text) : Prop where
  plain : plain w = true
  nonempty : w ≠ []
  first : ∀ c, w.head? = some c → c ∉ ['-', '~', '#']

def Direct (w : Text) (cdpath : Bool) : Prop :=
  w.head? = some '/' ∨ w.takeWhile (· ≠ '/') ∈ [".".toList, "..".toList] ∨ cdpath = false

/-- What is documented: `&&` joins a command to what stands behind it, `cd` with a plain word
changes to the directory of that name, or fails and changes nothing, and a job in the background
does not move the shell. -/
structure Posix {P σ : Type} (sh : Sh P σ) : Prop where
  and_list : ∀ a c, quiet true a = true → sh.parse a = single c →
    ∀ b, sh.parse (a ++ (" && ".toList ++ b)) = (sh.parse b).cons c
  cd_command : ∀ w, PlainWord w → sh.parse (cdPart w) = single (sh.cd w)
  cd_ok : ∀ w, PlainWord w → ∀ s s', Direct w (sh.cdpath s) → sh.enter w s = some s' →
    sh.exec false (sh.cd w) s = ⟨s', 0, false⟩
  cd_failed : ∀ w, PlainWord w → ∀ s, Direct w (sh.cdpath s) → sh.enter w s = none →
    ∃ n, n ≠ 0 ∧ sh.exec false (sh.cd w) s = ⟨s, n, false⟩
  beside_place : ∀ s t, sh.place (sh.beside s t) = sh.place s
  syntaxError : sh.syntaxError ≠ 0

section Composed

variable {P σ : Type} (sh : Sh P σ)

/-- `sh -c`; an argument with a zero cannot be given. -/
def invoke (t : Text) (s : σ) : Option (Run P σ) :=
  if '\x00' ∈ t then none else some (runScript sh.toMachine s (sh.parse t))

/-- The line does what the command does in the directory: what it starts, after `cd`, and how it
ends. -/
def Same (cwd : Text) (s : σ) (r r' : Run P σ) : Prop :=
  r.status = r'.status ∧
    (r.started = (sh.cd cwd, s) :: r'.started ∨ r.started = [] ∧ r'.started = [])

/-- The line does nothing, but for `cd`. -/
def Nothing (cwd : Text) (s : σ) (r : Run P σ) : Prop :=
  (r.started = [] ∨ r.started = [(sh.cd cwd, s)]) ∧ (r.state = s ∨ r.state = sh.beside s s)

/-- What is promised of the line. -/
structure Composed (cwd cmd : Text) (s : σ) : Prop where
  there : ∀ s', sh.enter cwd s = some s' →
    Option.Rel (Same sh cwd s) (invoke sh (shellLine cwd cmd) s) (invoke sh cmd s')
  missing : sh.enter cwd s = none → ∀ r, invoke sh (shellLine cwd cmd) s = some r →
    Nothing sh cwd s r

end Composed

/-- There is at most one list, all of `&&`. -/
def AtMostOne {P : Type} (script : Script P) : Prop :=
  script.items = [] ∨ ∃ item, script.items = [item] ∧ ∀ e ∈ item.list.rest, e.1 = .and

/-- There is a list, or an error; and no list follows one in the background. -/
def Whole {P : Type} (script : Script P) : Prop :=
  (script.items = [] → script.bad = true) ∧
    ∀ item items, script.items = item :: items → item.background = true → items = []

/-! ### The line is read -/

section Line

variable {w cmd : Text}

theorem quiet_plain (h : plain w = true) (t : Text) : quiet false (w ++ t) = quiet false t := by
  induction w with
  | nil => rfl
  | cons c w ih =>
    rw [plain, List.any_cons, Bool.not_or, Bool.and_eq_true] at h
    obtain ⟨hc, hw⟩ := h
    have hplain : c ∉ special ++ ['>', ' ', '\t', '*', '?', '['] := by simpa using hc
    have hspecial : c ∉ special := fun hmem => hplain (List.mem_append_left _ hmem)
    have hblank : c ∉ [' ', '\t', '>'] := fun hmem => hplain (List.subset_def.mp (by decide) hmem)
    have hstart : (decide (c = ' ') || decide (c = '\t') || decide (c = '>')) = false := by
      simpa [and_assoc] using hblank
    rw [List.cons_append, quiet, hstart, ih hw, decide_eq_false hspecial]
    rfl

theorem quiet_cdPart (hw : PlainWord w) : quiet true (cdPart w) = true := by
  obtain ⟨c, rest, rfl⟩ := List.exists_cons_of_ne_nil hw.nonempty
  have hhash : c ≠ '#' := fun heq => hw.first c rfl (by rw [heq]; decide)
  have hone : quiet true (c :: (rest ++ " 2>/dev/null".toList)) =
      quiet false (c :: (rest ++ " 2>/dev/null".toList)) := by
    rw [quiet, quiet, decide_eq_false hhash]
    rfl
  show quiet true (c :: (rest ++ " 2>/dev/null".toList)) = true
  rw [hone]
  exact quiet_plain hw.plain " 2>/dev/null".toList

theorem zero_mem_shellLine (hw : PlainWord w) : '\x00' ∈ shellLine w cmd ↔ '\x00' ∈ cmd := by
  have hplain : '\x00' ∉ w := by
    intro hmem
    have hall := hw.plain
    rw [plain, Bool.not_eq_true', List.any_eq_false] at hall
    exact hall _ hmem (by decide)
  rw [shellLine, cdPart]
  simp [hplain]

variable {P σ : Type} {sh : Sh P σ} {s : σ}

theorem parse_shellLine (hsh : Posix sh) (hw : PlainWord w) (cmd : Text) :
    sh.parse (shellLine w cmd) = (sh.parse cmd).cons (sh.cd w) :=
  hsh.and_list _ _ (quiet_cdPart hw) (hsh.cd_command w hw) cmd

theorem invoke_shellLine (hsh : Posix sh) (hw : PlainWord w) (hzero : '\x00' ∉ cmd) :
    invoke sh (shellLine w cmd) s =
      some (runScript sh.toMachine s ((sh.parse cmd).cons (sh.cd w))) := by
  rw [invoke, if_neg ((zero_mem_shellLine hw).not.mpr hzero), parse_shellLine hsh hw]

theorem composed_of_zero (hw : PlainWord w) (hzero : '\x00' ∈ cmd) : Composed sh w cmd s := by
  have hline : invoke sh (shellLine w cmd) s = none := if_pos ((zero_mem_shellLine hw).mpr hzero)
  refine ⟨fun s' _ => ?_, fun _ r hr => nomatch hline.symm.trans hr⟩
  rw [hline, invoke, if_pos hzero]
  exact .none

theorem composed_missing_iff (hsh : Posix sh) (hw : PlainWord w) (hzero : '\x00' ∉ cmd)
    (hdirect : Direct w (sh.cdpath s)) (hs : sh.enter w s = none) :
    Composed sh w cmd s ↔ AtMostOne (sh.parse cmd) := by
  obtain ⟨n, hn, hcd⟩ := hsh.cd_failed w hw s hdirect hs
  have hline := invoke_shellLine (s := s) hsh hw hzero
  have hnothing : Nothing sh w s (runScript sh.toMachine s ((sh.parse cmd).cons (sh.cd w))) ↔
      AtMostOne (sh.parse cmd) := by
    obtain ⟨items, bad⟩ := sh.parse cmd
    cases items with
    | nil => exact iff_of_true ⟨.inl rfl, .inl rfl⟩ (.inl rfl)
    | cons item items =>
      have hnot := (started_runScript_cons (m := sh.toMachine) (c := sh.cd w) (s := s) item items
        bad).ne_nil (List.cons_ne_nil _ _)
      rw [Nothing, or_iff_right hnot, runScript_cons_failed hcd hn]
      constructor
      · rintro ⟨⟨rfl, hall⟩, -⟩
        exact .inr ⟨item, rfl, hall⟩
      · rintro (hnil | ⟨item', heq, hall⟩)
        · cases hnil
        · obtain ⟨rfl, rfl⟩ := List.cons.inj heq
          exact ⟨⟨rfl, hall⟩, state_runScript_cons_failed hcd hn hall bad⟩
  rw [← hnothing]
  constructor
  · exact fun h => h.missing hs _ hline
  · intro h
    refine ⟨fun s' hs' => (nomatch hs.symm.trans hs'), fun _ r hr => ?_⟩
    obtain rfl := Option.some.inj (hline.symm.trans hr)
    exact h

theorem composed_of_whole (hsh : Posix sh) (hw : PlainWord w)
    (hdirect : Direct w (sh.cdpath s)) {s' : σ} (hs : sh.enter w s = some s')
    (hwhole : Whole (sh.parse cmd)) : Composed sh w cmd s := by
  by_cases hzero : '\x00' ∈ cmd
  · exact composed_of_zero hw hzero
  have hcd := hsh.cd_ok w hw s s' hdirect hs
  refine ⟨fun t ht => ?_, fun hnone => nomatch hnone.symm.trans hs⟩
  obtain rfl := Option.some.inj (hs.symm.trans ht)
  rw [invoke_shellLine hsh hw hzero, invoke, if_neg hzero]
  refine .some ?_
  obtain ⟨hempty, hbackground⟩ := hwhole
  generalize sh.parse cmd = script at hempty hbackground ⊢
  obtain ⟨items, bad⟩ := script
  cases items with
  | nil =>
    obtain rfl : bad = true := hempty rfl
    exact ⟨rfl, .inr ⟨rfl, rfl⟩⟩
  | cons item items =>
    obtain ⟨hstatus, hstarted⟩ :
        (runScript sh.toMachine s (Script.cons (sh.cd w) ⟨item :: items, bad⟩)).status = _ ∧ _ :=
      runScript_cons_ok hcd (hbackground item items rfl)
    exact ⟨hstatus, .inl hstarted⟩

theorem not_composed_of_empty (hsh : Posix sh) (hw : PlainWord w) (hzero : '\x00' ∉ cmd) {s' : σ}
    (hs : sh.enter w s = some s') (hcmd : sh.parse cmd = ⟨[], false⟩) : ¬ Composed sh w cmd s := by
  intro h
  have hrel := h.there s' hs
  rw [invoke_shellLine hsh hw hzero, invoke, if_neg hzero, hcmd] at hrel
  cases hrel with
  | some hsame => exact hsh.syntaxError hsame.1

theorem whole_of_composed (hsh : Posix sh) (hw : PlainWord w) (hzero : '\x00' ∉ cmd)
    (hdirect : Direct w (sh.cdpath s)) {s' : σ} (hs : sh.enter w s = some s')
    (hplace : sh.place s' ≠ sh.place s) (h : Composed sh w cmd s) : Whole (sh.parse cmd) := by
  refine ⟨fun hitems => ?_, fun item items hitems hbackground => ?_⟩
  · by_contra hbad
    refine not_composed_of_empty hsh hw hzero hs ?_ h
    generalize sh.parse cmd = script at hitems hbad
    obtain ⟨_, bad⟩ := script
    obtain rfl := hitems
    rw [show bad = false from Bool.eq_false_of_not_eq_true hbad]
  · by_contra hmore
    obtain ⟨next, items, rfl⟩ := List.exists_cons_of_ne_nil hmore
    have hrel := h.there s' hs
    rw [invoke_shellLine hsh hw hzero, invoke, if_neg hzero] at hrel
    generalize sh.parse cmd = script at hitems hrel
    obtain ⟨_, bad⟩ := script
    obtain rfl := hitems
    cases hrel with
    | some hsame =>
      have hstarted := hsame.2.resolve_right fun hnone =>
        (started_runScript_cons item (next :: items) bad).ne_nil (List.cons_ne_nil _ _) hnone.1
      obtain ⟨t, hbeside⟩ :=
        beside_of_started (hsh.cd_ok w hw s s' hdirect hs) hbackground hstarted
      apply hplace
      calc sh.place s' = sh.place (sh.beside s' t) := (hsh.beside_place s' t).symm
        _ = sh.place (sh.beside s t) := by rw [hbeside]
        _ = sh.place s := hsh.beside_place s t

theorem whole_of_atMostOne {script : Script P} (h : AtMostOne script) (hne : script ≠ ⟨[], false⟩) :
    Whole script := by
  obtain ⟨items, bad⟩ := script
  rcases h with rfl | ⟨item, rfl, -⟩
  · refine ⟨fun _ => ?_, fun item items heq => (nomatch heq)⟩
    cases bad with
    | false => exact absurd rfl hne
    | true => rfl
  · refine ⟨fun hnil => (nomatch hnil), fun item' items heq _ => ?_⟩
    exact (List.cons.inj heq).2.symm

end Line

/-- **When a command is composed with a plain directory.**  Where the directory is not there, if
nothing is left to start after a failure; where it is, and elsewhere, if there is a command, and
nothing follows a job in the background.  For a directory that may be there or not, if the command
is one list without `||`, or an error. -/
theorem composed_iff {P σ : Type} {sh : Sh P σ} (hsh : Posix sh) {w : Text} (hw : PlainWord w)
    (cmd : Text) :
    (∀ s, Direct w (sh.cdpath s) → sh.enter w s = none →
      (Composed sh w cmd s ↔ '\x00' ∈ cmd ∨ AtMostOne (sh.parse cmd))) ∧
    (∀ s s', Direct w (sh.cdpath s) → sh.enter w s = some s' →
      ('\x00' ∈ cmd ∨ Whole (sh.parse cmd) → Composed sh w cmd s) ∧
      (sh.place s' ≠ sh.place s → Composed sh w cmd s → '\x00' ∈ cmd ∨ Whole (sh.parse cmd))) ∧
    ((∃ s, Direct w (sh.cdpath s) ∧ sh.enter w s = none) →
      (∃ s, Direct w (sh.cdpath s) ∧ sh.enter w s ≠ none) →
      ((∀ s, Direct w (sh.cdpath s) → Composed sh w cmd s) ↔
        '\x00' ∈ cmd ∨ AtMostOne (sh.parse cmd) ∧ sh.parse cmd ≠ ⟨[], false⟩)) := by
  have hmissing : ∀ s, Direct w (sh.cdpath s) → sh.enter w s = none →
      (Composed sh w cmd s ↔ '\x00' ∈ cmd ∨ AtMostOne (sh.parse cmd)) := by
    intro s hdirect hs
    by_cases hzero : '\x00' ∈ cmd
    · exact iff_of_true (composed_of_zero hw hzero) (.inl hzero)
    · rw [composed_missing_iff hsh hw hzero hdirect hs, or_iff_right hzero]
  have hthere : ∀ s s', Direct w (sh.cdpath s) → sh.enter w s = some s' →
      '\x00' ∈ cmd ∨ Whole (sh.parse cmd) → Composed sh w cmd s := by
    rintro s s' hdirect hs (hzero | hwhole)
    · exact composed_of_zero hw hzero
    · exact composed_of_whole hsh hw hdirect hs hwhole
  refine ⟨hmissing, fun s s' hdirect hs => ⟨hthere s s' hdirect hs, fun hplace h => ?_⟩, ?_⟩
  · by_cases hzero : '\x00' ∈ cmd
    · exact .inl hzero
    · exact .inr (whole_of_composed hsh hw hzero hdirect hs hplace h)
  rintro ⟨s, hdirect, hs⟩ ⟨t, hdirect', ht⟩
  obtain ⟨t', ht'⟩ := Option.ne_none_iff_exists'.mp ht
  constructor
  · intro hall
    by_cases hzero : '\x00' ∈ cmd
    · exact .inl hzero
    refine .inr ⟨((hmissing s hdirect hs).mp (hall s hdirect)).resolve_left hzero, fun hcmd => ?_⟩
    exact not_composed_of_empty hsh hw hzero ht' hcmd (hall t hdirect')
  · intro hcmd u hdirect
    cases hu : sh.enter w u with
    | none => exact (hmissing u hdirect hu).mpr (hcmd.imp_right And.left)
    | some u' =>
      exact hthere u u' hdirect hu (hcmd.imp_right fun h => whole_of_atMostOne h.1 h.2)

/-! ### A small shell -/

section Small

/-- What stands between two commands. -/
inductive Sep where
  | and
  | or
  | semi
  | amp
  | done
  deriving DecidableEq, Repr

inductive Tok where
  | chr (c : Char)
  | sep (s : Sep)
  deriving DecidableEq, Repr

def toks : Text → List Tok
  | [] => []
  | c :: t =>
    if c = '&' then
      match toks t with
      | .sep .amp :: ts => .sep .and :: ts
      | ts => .sep .amp :: ts
    else if c = '|' then
      match toks t with
      | .chr '|' :: ts => .sep .or :: ts
      | ts => .chr '|' :: ts
    else if c = ';' ∨ c = '\n' then .sep .semi :: toks t
    else .chr c :: toks t

def trimmed (t : Text) : Text := (t.dropWhile (· = ' ')).rdropWhile (· = ' ')

def commands : Text → List Tok → List (Text × Sep)
  | cur, [] => [(trimmed cur, .done)]
  | cur, .chr c :: ts => commands (cur ++ [c]) ts
  | cur, .sep s :: ts => (trimmed cur, s) :: commands [] ts

def orCons (p : Text) : Script Text → Script Text
  | ⟨[], _⟩ => ⟨[], true⟩
  | ⟨item :: items, bad⟩ =>
    ⟨⟨⟨p, (.or, item.list.first) :: item.list.rest⟩, item.background⟩ :: items, bad⟩

def script : List (Text × Sep) → Script Text
  | [] => ⟨[], false⟩
  | (p, .done) :: _ => if p = [] then ⟨[], false⟩ else single p
  | (p, .and) :: rest => if p = [] then ⟨[], true⟩ else (script rest).cons p
  | (p, .or) :: rest => if p = [] then ⟨[], true⟩ else orCons p (script rest)
  | (p, .semi) :: rest =>
    if p = [] then script rest
    else ⟨⟨⟨p, []⟩, false⟩ :: (script rest).items, (script rest).bad⟩
  | (p, .amp) :: rest =>
    if p = [] then ⟨[], true⟩
    else ⟨⟨⟨p, []⟩, true⟩ :: (script rest).items, (script rest).bad⟩

/-- The directories there are, and where the shell is. -/
structure Dirs where
  dirs : List Text
  cwd : Text
  deriving DecidableEq

theorem lawfulBEq_word : LawfulBEq Text := inferInstance

attribute [local instance] lawfulBEq_word

def Dirs.enter (s : Dirs) (w : Text) : Option Dirs :=
  if w ∈ s.dirs then some { s with cwd := w } else none

/-- The directory of a `cd` command. -/
def cdWord (p : Text) : Option Text :=
  if "cd ".toList.isPrefixOf p then
    some ((p.drop 3).take ((p.drop 3).length - " 2>/dev/null".toList.length))
  else none

/-- Another command than `cd` succeeds, and does nothing. -/
def Dirs.run (s : Dirs) (p : Text) : Answer Dirs :=
  match cdWord p with
  | none => ⟨s, 0, false⟩
  | some w => match s.enter w with
    | some s' => ⟨s', 0, false⟩
    | none => ⟨s, 2, false⟩

def smallShell : Sh Text Dirs where
  exec _ p s := s.run p
  beside s _ := s
  syntaxError := 2
  parse t := script (commands [] (toks t))
  cd := cdPart
  enter w s := s.enter w
  place := Dirs.cwd
  cdpath _ := false

theorem not_sep_of_quiet {start : Bool} {a : Text} (h : quiet start a = true) :
    ∀ c ∈ a, c ∉ ['&', '|', ';', '\n'] := by
  induction a generalizing start with
  | nil => exact List.forall_mem_nil _
  | cons c a ih =>
    rw [quiet, Bool.and_eq_true, Bool.and_eq_true] at h
    obtain ⟨⟨hc, -⟩, ha⟩ := h
    refine List.forall_mem_cons.mpr ⟨fun hmem => ?_, ih ha⟩
    have hspecial : c ∉ special := by simpa using hc
    exact hspecial (List.subset_def.mp (by decide) hmem)

theorem toks_append {a : Text} (ha : ∀ c ∈ a, c ∉ ['&', '|', ';', '\n']) (b : Text) :
    toks (a ++ b) = a.map .chr ++ toks b := by
  induction a with
  | nil => rfl
  | cons c a ih =>
    obtain ⟨hc, hrest⟩ := List.forall_mem_cons.mp ha
    obtain ⟨hamp, hbar, hsemi, hline⟩ : c ≠ '&' ∧ c ≠ '|' ∧ c ≠ ';' ∧ c ≠ '\n' := by simpa using hc
    rw [List.cons_append, toks, if_neg hamp, if_neg hbar, if_neg (not_or.mpr ⟨hsemi, hline⟩),
      ih hrest]
    rfl

theorem toks_blank (b : Text) : toks (' ' :: b) = .chr ' ' :: toks b := rfl

theorem toks_and (b : Text) :
    toks (" && ".toList ++ b) = .chr ' ' :: .sep .and :: .chr ' ' :: toks b := by
  have hamp : toks ('&' :: ' ' :: b) = .sep .amp :: .chr ' ' :: toks b := by
    rw [toks, if_pos rfl, toks_blank]
  have hand : toks ('&' :: '&' :: ' ' :: b) = .sep .and :: .chr ' ' :: toks b := by
    rw [toks, if_pos rfl, hamp]
  show toks (' ' :: '&' :: '&' :: ' ' :: b) = _
  rw [toks_blank, hand]

theorem commands_chars (cur a : Text) (ts : List Tok) :
    commands cur (a.map .chr ++ ts) = commands (cur ++ a) ts := by
  induction a generalizing cur with
  | nil => rw [List.append_nil]; rfl
  | cons c a ih =>
    show commands (cur ++ [c]) (a.map .chr ++ ts) = _
    rw [ih, List.append_assoc, List.singleton_append]

theorem commands_blank (cur : Text) (ts : List Tok) :
    commands (' ' :: cur) ts = commands cur ts := by
  have htrimmed : trimmed (' ' :: cur) = trimmed cur := rfl
  induction ts generalizing cur with
  | nil => rw [commands, commands, htrimmed]
  | cons tok ts ih =>
    cases tok with
    | chr c => exact ih (cur ++ [c]) rfl
    | sep s => rw [commands, commands, htrimmed]

theorem trimmed_blank (a : Text) : trimmed (a ++ [' ']) = trimmed a := by
  rw [trimmed, trimmed, List.dropWhile_append]
  split_ifs with hempty
  · rw [List.isEmpty_iff.mp hempty]
    rfl
  · exact List.rdropWhile_concat_pos _ _ _ (by decide)

theorem parse_quiet {a : Text} (ha : quiet true a = true) :
    smallShell.parse a = if trimmed a = [] then ⟨[], false⟩ else single (trimmed a) := by
  have htoks : toks a = a.map .chr := by
    have happend := toks_append (not_sep_of_quiet ha) []
    rwa [List.append_nil, toks, List.append_nil] at happend
  have hcommands : commands [] (a.map .chr) = [(trimmed a, .done)] := by
    have hchars := commands_chars [] a []
    rwa [List.append_nil] at hchars
  show script (commands [] (toks a)) = _
  rw [htoks, hcommands]
  rfl

theorem parse_and {a : Text} {c : Text} (ha : quiet true a = true)
    (hc : smallShell.parse a = single c) (b : Text) :
    smallShell.parse (a ++ (" && ".toList ++ b)) = (smallShell.parse b).cons c := by
  rw [parse_quiet ha] at hc
  split_ifs at hc with hempty
  · cases hc
  obtain rfl : trimmed a = c := by cases hc; rfl
  have hcommands : commands [] (toks (a ++ (" && ".toList ++ b))) =
      (trimmed a, .and) :: commands [] (toks b) := by
    rw [toks_append (not_sep_of_quiet ha), toks_and, commands_chars]
    show (trimmed (a ++ [' ']), Sep.and) :: commands [' '] (toks b) = _
    rw [trimmed_blank, commands_blank]
  show script (commands [] (toks (a ++ (" && ".toList ++ b)))) = _
  rw [hcommands, script, if_neg hempty]
  rfl

theorem trimmed_cdPart (w : Text) : trimmed (cdPart w) = cdPart w := by
  have hlast : cdPart w = "cd ".toList ++ (w ++ " 2>/dev/nul".toList) ++ ['l'] := by
    rw [cdPart]
    simp
  show (cdPart w).rdropWhile _ = cdPart w
  rw [hlast]
  exact List.rdropWhile_concat_neg _ _ _ (by decide)

theorem cdWord_cdPart (w : Text) : cdWord (cdPart w) = some w := by
  have hcd : "cd ".toList.isPrefixOf (cdPart w) = true :=
    List.isPrefixOf_iff_prefix.mpr (List.prefix_append _ _)
  have hdrop : (cdPart w).drop 3 = w ++ " 2>/dev/null".toList := rfl
  rw [cdWord, if_pos hcd, hdrop, List.length_append, Nat.add_sub_cancel, List.take_left]

theorem Dirs.run_cdPart (s : Dirs) (w : Text) :
    s.run (cdPart w) = match s.enter w with
      | some s' => ⟨s', 0, false⟩
      | none => ⟨s, 2, false⟩ := by
  rw [Dirs.run, cdWord_cdPart]

theorem smallShell_posix : Posix smallShell where
  and_list _ _ ha hc b := parse_and ha hc b
  cd_command w hw := by
    have hcd : trimmed (cdPart w) ≠ [] := by
      rw [trimmed_cdPart]
      exact List.cons_ne_nil _ _
    rw [parse_quiet (quiet_cdPart hw), if_neg hcd, trimmed_cdPart]
    rfl
  cd_ok w _ s s' _ hs := by
    have henter : s.enter w = some s' := hs
    show s.run (cdPart w) = _
    rw [Dirs.run_cdPart, henter]
  cd_failed w _ s _ hs := by
    have henter : s.enter w = none := hs
    refine ⟨2, two_ne_zero, ?_⟩
    show s.run (cdPart w) = _
    rw [Dirs.run_cdPart, henter]
  beside_place _ _ := rfl
  syntaxError := two_ne_zero

theorem plainWord_workspace : PlainWord "/workspace".toList where
  plain := by decide
  nonempty := List.cons_ne_nil _ _
  first c hc := by
    obtain rfl : '/' = c := Option.some.inj hc
    decide

theorem composed_iff_make_test :
    Composed smallShell "/workspace".toList "make && make test".toList ⟨[], "/".toList⟩ ∧
      Composed smallShell "/workspace".toList "make && make test".toList
        ⟨["/workspace".toList], "/".toList⟩ := by
  obtain ⟨hmissing, hthere, -⟩ :=
    composed_iff smallShell_posix plainWord_workspace "make && make test".toList
  have hparse : smallShell.parse "make && make test".toList =
      ⟨[⟨⟨"make".toList, [(.and, "make test".toList)]⟩, false⟩], false⟩ := by decide
  refine ⟨(hmissing _ (.inl rfl) rfl).mpr (.inr ?_), (hthere _ _ (.inl rfl) rfl).1 (.inr ?_)⟩
  · rw [hparse]
    exact .inr ⟨_, rfl, by decide⟩
  · rw [hparse]
    refine ⟨fun hnil => (nomatch hnil), fun item items heq _ => ?_⟩
    exact (List.cons.inj heq).2.symm

/-- Behind a `;` the command is run, wherever the shell is. -/
theorem not_composed :
    ¬ ∀ {P σ : Type} (sh : Sh P σ), Posix sh → ∀ cwd cmd s, validateCwd cwd = true →
      Composed sh cwd cmd s := by
  intro h
  have hmissing := (h smallShell smallShell_posix "/missing".toList "make; rm -rf out".toList
    ⟨[], "/".toList⟩ rfl).missing rfl _ rfl |>.1
  revert hmissing
  decide

end Small

end Mowis.Shell.Composition
