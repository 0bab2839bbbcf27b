import Mowis.Lib.Execution
import Mowis.Lib.Zipper
import Mowis.Tui.App

/-!
# The input line is a zipper

The input is a text with a character index as its cursor.  What each event does to the two parts
of the text is said by edits of a zipper; some keys depend on the menus that are visible.
-/

namespace Mowis.Tui

open Mowis.Lib

inductive Edit where
  | insert (c : Char)
  | paste (text : Text)
  | backspace
  | delete
  | left
  | right
  | home
  | toEnd
  | killBefore
  | killAfter
  | replace (text : Text)
  deriving DecidableEq, Repr

def Edit.apply (z : Zipper Char) : Edit → Zipper Char
  | .insert c => z.insert c
  | .paste text => z.paste text
  | .backspace => z.backspace
  | .delete => z.delete
  | .left => z.left
  | .right => z.right
  | .home => z.home
  | .toEnd => z.toEnd
  | .killBefore => z.killBefore
  | .killAfter => z.killAfter
  | .replace text => ⟨text, []⟩

def referenceEdit : AppEvent → List Edit
  | .key (.char c) false _ => [.insert c]
  | .key .backspace _ _ => [.backspace]
  | .key .delete _ _ => [.delete]
  | .key .left _ _ => [.left]
  | .key .right _ _ => [.right]
  | .key .home _ _ => [.home]
  | .key .toEnd _ _ => [.toEnd]
  | .key .enter _ _ => [.replace []]
  | .paste text => [.paste (sanitize text)]
  | _ => []

namespace App

variable (app : App)

def charEdits (c : Char) (control : Bool) : List Edit :=
  if c = 'c' ∧ control then []
  else if c = 'a' ∧ control then [.home]
  else if c = 'e' ∧ control then [.toEnd]
  else if c = 'k' ∧ control then [.killAfter]
  else if c = 'u' ∧ control then [.killBefore]
  else [.insert c]

def slashEdits : List Edit :=
  if app.slashMenu.visible then (app.slashMenu.current.map Edit.replace).toList else []

def atEdits : List Edit :=
  (app.atMenu.current.map fun target => Edit.replace (target ++ [' '])).toList

def keyEdits (code : KeyCode) (control : Bool) : List Edit :=
  match code with
  | .char c => charEdits c control
  | .backspace => [.backspace]
  | .left => if app.noMenu then [.left] else []
  | .right => if app.noMenu then [.right] else []
  | .home => [.home]
  | .toEnd => [.toEnd]
  | .tab =>
    if app.slashMenu.visible then app.slashEdits
    else if app.atMenu.visible then app.atEdits else []
  | .enter => app.slashEdits ++ if app.atMenu.visible then app.atEdits else [.replace []]
  | .esc => if app.noMenu then [.replace []] else []
  | .delete | .up | .down | .pageUp | .pageDown | .other => []

/-- What an event does to the line: the delete key nothing, the arrows only without a menu. -/
def edits : AppEvent → List Edit
  | .key code control _ => app.keyEdits code control
  | .paste text => [.paste (sanitize text)]
  | .wheel _ | .orch _ _ | .reply _ | .drawn _ => []

def zipper : Zipper Char := .splitAt app.input app.cursorPos

def InRange : Prop := app.cursorPos ≤ app.input.length

end App

section Updates

variable {t : Text} {i : ℕ}

theorem splitAtByte_byteOffset (t : Text) (i : ℕ) :
    splitAtByte t (byteOffset t i) = some (t.take i, t.drop i) := by
  induction t generalizing i with
  | nil => rw [byteOffset, List.take_nil, List.drop_nil]; rfl
  | cons c cs ih =>
    cases i with
    | zero => rfl
    | succ i =>
      have hoffset : byteOffset (c :: cs) (i + 1) = c.utf8Size + byteOffset cs i := rfl
      obtain ⟨n, hn⟩ : ∃ n, c.utf8Size + byteOffset cs i = n + 1 :=
        ⟨_, (Nat.succ_pred_eq_of_pos (Nat.add_pos_left c.utf8Size_pos _)).symm⟩
      have hrest : n + 1 - c.utf8Size = byteOffset cs i := by omega
      rw [hoffset, hn, splitAtByte, if_pos (by omega), hrest, ih]
      rfl

theorem insertStr_byteOffset (s : Text) :
    insertStr t (byteOffset t i) s = some (t.take i ++ s ++ t.drop i) := by
  rw [insertStr, splitAtByte_byteOffset]
  rfl

end Updates

/-! ### One event -/

/-- The line was edited, and its cursor is in range. -/
structure Edited (app app' : App) (edits : List Edit) : Prop where
  inRange : app'.InRange
  zipper : app'.zipper = edits.foldl Edit.apply app.zipper

section Handlers

variable {app app' : App}

theorem Edited.of_same (h : app.InRange) (hinput : app'.input = app.input)
    (hcursor : app'.cursorPos = app.cursorPos) : Edited app app' [] where
  inRange := by rwa [App.InRange, hinput, hcursor]
  zipper := by rw [App.zipper, hinput, hcursor]; rfl

theorem Edited.congr {after : App} {edits : List Edit} (h : Edited app app' edits)
    (hinput : after.input = app'.input) (hcursor : after.cursorPos = app'.cursorPos) :
    Edited app after edits where
  inRange := by rw [App.InRange, hinput, hcursor]; exact h.inRange
  zipper := by rw [App.zipper, hinput, hcursor]; exact h.zipper

theorem Edited.trans {after : App} {first second : List Edit} (h : Edited app app' first)
    (h' : Edited app' after second) : Edited app after (first ++ second) where
  inRange := h'.inRange
  zipper := by rw [List.foldl_append, ← h.zipper, h'.zipper]

theorem edited_replaceInput (app : App) (text : Text) :
    Edited app (app.replaceInput text) [.replace text] where
  inRange := Nat.le_refl _
  zipper := by
    show Zipper.splitAt text text.length = ⟨text, []⟩
    rw [Zipper.splitAt, List.take_length, List.drop_length]

theorem edited_clearInput (app : App) : Edited app app.clearInput [.replace []] :=
  ⟨Nat.le_refl _, rfl⟩

theorem edited_home (app : App) : Edited app { app with cursorPos := 0 } [.home] :=
  ⟨Nat.zero_le _, Zipper.splitAt_zero⟩

theorem edited_toEnd (app : App) :
    Edited app { app with cursorPos := app.input.length } [.toEnd] :=
  ⟨Nat.le_refl _, Zipper.splitAt_length⟩

theorem filterMenus_input (app : App) : app.filterMenus.input = app.input := by
  unfold App.filterMenus
  split
  · rfl
  · split <;> rfl

theorem filterMenus_cursorPos (app : App) : app.filterMenus.cursorPos = app.cursorPos := by
  unfold App.filterMenus
  split
  · rfl
  · split <;> rfl

theorem edited_typeChar (h : app.InRange) (c : Char) :
    ∃ app', app.typeChar c = some app' ∧ Edited app app' [.insert c] := by
  have hinsert : vecInsert app.input app.cursorPos c =
      some (app.input.insertIdx app.cursorPos c) := if_pos h
  refine ⟨_, by rw [App.typeChar, hinsert]; rfl, ?_⟩
  have hedited : Edited app { app with
      input := app.input.insertIdx app.cursorPos c
      cursorPos := app.cursorPos + 1 } [.insert c] :=
    ⟨by
      show app.cursorPos + 1 ≤ (app.input.insertIdx app.cursorPos c).length
      rw [List.length_insertIdx_of_le_length h]
      exact Nat.succ_le_succ h, Zipper.splitAt_insertIdx h⟩
  exact hedited.congr (filterMenus_input _) (filterMenus_cursorPos _)

theorem edited_firstChar (h : app.InRange) (hempty : app.input = []) (c : Char) :
    Edited app { app with input := app.input ++ [c], cursorPos := 1 } [.insert c] := by
  have hcursor : app.cursorPos = 0 := by
    rw [App.InRange, hempty] at h
    exact Nat.le_zero.mp h
  constructor
  · show 1 ≤ (app.input ++ [c]).length
    rw [hempty]
    rfl
  · show Zipper.splitAt (app.input ++ [c]) 1 = (Zipper.splitAt app.input app.cursorPos).insert c
    rw [hempty, hcursor]
    rfl

theorem edited_pressChar (h : app.InRange) (c : Char) (control : Bool) :
    ∃ app', app.pressChar c control = some app' ∧ Edited app app' (App.charEdits c control) := by
  unfold App.pressChar App.charEdits
  split
  · exact ⟨_, rfl, .of_same h rfl rfl⟩
  split
  · exact ⟨_, rfl, edited_home app⟩
  split
  · exact ⟨_, rfl, edited_toEnd app⟩
  split
  · have hslice : sliceTo app.input app.cursorPos = some (app.input.take app.cursorPos) := if_pos h
    exact ⟨{ app with input := app.input.take app.cursorPos }, by rw [hslice]; rfl,
      (List.length_take_of_le h).ge, Zipper.splitAt_take h⟩
  split
  · have hslice : sliceFrom app.input app.cursorPos = some (app.input.drop app.cursorPos) :=
      if_pos h
    exact ⟨{ app with input := app.input.drop app.cursorPos, cursorPos := 0 },
      by rw [hslice]; rfl, Nat.zero_le _, Zipper.splitAt_drop⟩
  split
  · next hslash =>
    rw [hslash.1]
    exact ⟨_, rfl, (edited_firstChar h hslash.2 '/').congr rfl rfl⟩
  split
  · next hat =>
    rw [hat.1]
    exact ⟨_, rfl, (edited_firstChar h hat.2 '@').congr rfl rfl⟩
  · exact edited_typeChar h c

theorem edited_left (h : app.InRange) :
    Edited app (if app.noMenu ∧ 0 < app.cursorPos then { app with cursorPos := app.cursorPos - 1 }
      else app) (if app.noMenu then [.left] else []) := by
  by_cases hmenu : app.noMenu = true
  · rw [if_pos hmenu]
    by_cases hpos : 0 < app.cursorPos
    · rw [if_pos ⟨hmenu, hpos⟩]
      obtain ⟨i, hi⟩ : ∃ i, app.cursorPos = i + 1 := ⟨_, (Nat.succ_pred_eq_of_pos hpos).symm⟩
      rw [App.InRange, hi] at h
      refine ⟨?_, ?_⟩
      · show app.cursorPos - 1 ≤ app.input.length
        omega
      · show Zipper.splitAt app.input (app.cursorPos - 1) =
          (Zipper.splitAt app.input app.cursorPos).left
        rw [hi]
        exact Zipper.splitAt_pred h
    · rw [if_neg fun hboth => hpos hboth.2]
      have hzero : app.cursorPos = 0 := Nat.eq_zero_of_not_pos hpos
      refine ⟨h, ?_⟩
      show Zipper.splitAt app.input app.cursorPos = (Zipper.splitAt app.input app.cursorPos).left
      rw [hzero]
      exact Zipper.left_of_start.symm
  · rw [if_neg hmenu, if_neg fun hboth => hmenu hboth.1]
    exact .of_same h rfl rfl

theorem edited_right (h : app.InRange) :
    Edited app (if app.noMenu ∧ app.cursorPos < app.input.length then
      { app with cursorPos := app.cursorPos + 1 } else app)
      (if app.noMenu then [.right] else []) := by
  by_cases hmenu : app.noMenu = true
  · rw [if_pos hmenu]
    by_cases hlt : app.cursorPos < app.input.length
    · rw [if_pos ⟨hmenu, hlt⟩]
      exact ⟨hlt, Zipper.splitAt_succ⟩
    · rw [if_neg fun hboth => hlt hboth.2]
      have hend : app.cursorPos = app.input.length := Nat.le_antisymm h (Nat.le_of_not_lt hlt)
      refine ⟨h, ?_⟩
      show Zipper.splitAt app.input app.cursorPos = (Zipper.splitAt app.input app.cursorPos).right
      rw [hend]
      exact Zipper.right_of_end.symm
  · rw [if_neg hmenu, if_neg fun hboth => hmenu hboth.1]
    exact .of_same h rfl rfl

theorem edited_backspace (h : app.InRange) :
    ∃ app', app.backspace = some app' ∧ Edited app app' [.backspace] := by
  obtain ⟨edited, hsome, hedited⟩ : ∃ edited,
      (if 0 < app.cursorPos then
        (vecRemove app.input (app.cursorPos - 1)).map fun input =>
          { app with input := input, cursorPos := app.cursorPos - 1 }
      else some app) = some edited ∧ Edited app edited [.backspace] := by
    by_cases hpos : 0 < app.cursorPos
    · obtain ⟨i, hi⟩ : ∃ i, app.cursorPos = i + 1 := ⟨_, (Nat.succ_pred_eq_of_pos hpos).symm⟩
      have hlt : i < app.input.length := by
        rw [App.InRange, hi] at h
        exact h
      have hremove : vecRemove app.input (app.cursorPos - 1) = some (app.input.eraseIdx i) := by
        rw [hi]
        exact if_pos hlt
      refine ⟨_, by rw [if_pos hpos, hremove]; rfl, ?_, ?_⟩
      · show app.cursorPos - 1 ≤ (app.input.eraseIdx i).length
        rw [List.length_eraseIdx_of_lt hlt]
        omega
      · show Zipper.splitAt (app.input.eraseIdx i) (app.cursorPos - 1) =
          (Zipper.splitAt app.input app.cursorPos).backspace
        rw [hi]
        exact Zipper.splitAt_eraseIdx hlt
    · have hzero : app.cursorPos = 0 := Nat.eq_zero_of_not_pos hpos
      refine ⟨app, if_neg hpos, h, ?_⟩
      show Zipper.splitAt app.input app.cursorPos =
        (Zipper.splitAt app.input app.cursorPos).backspace
      rw [hzero]
      exact Zipper.backspace_of_start.symm
  refine ⟨_, by rw [App.backspace, hsome]; rfl, ?_⟩
  dsimp only
  split
  · exact hedited.congr rfl rfl
  · exact hedited.congr (filterMenus_input _) (filterMenus_cursorPos _)

theorem edited_chosen (h : app.InRange) (chosen : Option Text) :
    Edited app (match chosen with
      | some text => app.replaceInput text
      | none => app) (chosen.map Edit.replace).toList := by
  cases chosen with
  | none => exact .of_same h rfl rfl
  | some text => exact edited_replaceInput app text

theorem edited_takeSlashCommand (h : app.InRange) :
    Edited app app.takeSlashCommand app.slashEdits := by
  unfold App.takeSlashCommand App.slashEdits
  split
  · exact (edited_chosen h app.slashMenu.current).congr rfl rfl
  · exact .of_same h rfl rfl

theorem edited_takeAtTarget (h : app.InRange) : Edited app app.takeAtTarget app.atEdits := by
  have hchosen := edited_chosen h (app.atMenu.current.map fun target => target ++ [' '])
  unfold App.takeAtTarget App.atEdits
  cases hcurrent : app.atMenu.current with
  | none => exact .of_same h rfl rfl
  | some target =>
    rw [hcurrent] at hchosen
    exact hchosen.congr rfl rfl

theorem takeSlashCommand_atMenu (app : App) : app.takeSlashCommand.atMenu = app.atMenu := by
  unfold App.takeSlashCommand
  split
  · cases app.slashMenu.current <;> rfl
  · rfl

theorem edited_pressEnter (h : app.InRange) (control : Bool) (delivered : Except String Unit) :
    Edited app (app.pressEnter delivered) (app.keyEdits .enter control) := by
  have hslash := edited_takeSlashCommand h
  unfold App.pressEnter App.keyEdits
  rw [← takeSlashCommand_atMenu app]
  have hat : app.atEdits = app.takeSlashCommand.atEdits := by
    rw [App.atEdits, App.atEdits, takeSlashCommand_atMenu]
  dsimp only
  split
  · rw [hat]
    exact hslash.trans (edited_takeAtTarget hslash.inRange)
  · exact hslash.trans ((edited_clearInput app.takeSlashCommand).congr rfl rfl)

theorem edited_pressTab (h : app.InRange) (control : Bool) :
    Edited app app.pressTab (app.keyEdits .tab control) := by
  unfold App.pressTab App.keyEdits App.slashEdits App.atEdits
  dsimp only
  split
  · cases app.slashMenu.current with
    | none => exact .of_same h rfl rfl
    | some command => exact (edited_replaceInput app command).congr rfl rfl
  split
  · cases app.atMenu.current with
    | none => exact .of_same h rfl rfl
    | some target => exact (edited_replaceInput app (target ++ [' '])).congr rfl rfl
  · unfold App.cycleSidebar
    split
    · exact .of_same h rfl rfl
    · split <;> exact .of_same h rfl rfl

theorem edited_pressEsc (h : app.InRange) :
    Edited app app.pressEsc (if app.noMenu then [.replace []] else []) := by
  unfold App.pressEsc App.noMenu
  cases hslash : app.slashMenu.visible with
  | true => exact .of_same h rfl rfl
  | false =>
    cases hat : app.atMenu.visible with
    | true => exact .of_same h rfl rfl
    | false => exact edited_clearInput app

theorem edited_pressVertical (h : app.InRange) (select : Menu → Menu)
    (move : MessageLog → MessageLog) : Edited app (app.pressVertical select move) [] := by
  unfold App.pressVertical
  split
  · exact .of_same h rfl rfl
  split
  · exact .of_same h rfl rfl
  split <;> exact .of_same h rfl rfl

theorem edited_handleKey (h : app.InRange) (code : KeyCode) (control : Bool)
    (delivered : Except String Unit) :
    ∃ app', app.handleKey code control delivered = some app' ∧
      Edited app app' (app.keyEdits code control) := by
  cases code with
  | char c => exact edited_pressChar h c control
  | backspace => exact edited_backspace h
  | left => exact ⟨_, rfl, edited_left h⟩
  | right => exact ⟨_, rfl, edited_right h⟩
  | home => exact ⟨_, rfl, edited_home app⟩
  | toEnd => exact ⟨_, rfl, edited_toEnd app⟩
  | up => exact ⟨_, rfl, edited_pressVertical h _ _⟩
  | down => exact ⟨_, rfl, edited_pressVertical h _ _⟩
  | tab => exact ⟨_, rfl, edited_pressTab h control⟩
  | enter => exact ⟨_, rfl, edited_pressEnter h control delivered⟩
  | esc => exact ⟨_, rfl, edited_pressEsc h⟩
  | pageUp | pageDown | delete | other => exact ⟨_, rfl, .of_same h rfl rfl⟩

theorem edited_paste (h : app.InRange) (text : Text) :
    ∃ app', app.paste text = some app' ∧ Edited app app' [.paste (sanitize text)] := by
  refine ⟨_, by rw [App.paste, insertStr_byteOffset]; rfl, ?_⟩
  have hedited : Edited app { app with
      input := app.input.take app.cursorPos ++ sanitize text ++ app.input.drop app.cursorPos
      cursorPos := app.cursorPos + (sanitize text).length } [.paste (sanitize text)] := by
    refine ⟨?_, Zipper.splitAt_paste h⟩
    show app.cursorPos + (sanitize text).length ≤ (_ ++ _ ++ _ : List Char).length
    rw [List.length_append, List.length_append, List.length_take_of_le h]
    omega
  dsimp only
  split
  · exact hedited.congr rfl rfl
  · exact hedited

theorem handleCaptainEvent_line (app : App) (queued : Bool) (event : Orchestration.Event) :
    (app.handleCaptainEvent queued event).input = app.input ∧
      (app.handleCaptainEvent queued event).cursorPos = app.cursorPos := by
  cases event <;> exact ⟨rfl, rfl⟩

theorem handleOrchEvent_line (app : App) (queued : Bool) (event : OrchEvent) :
    (app.handleOrchEvent queued event).input = app.input ∧
      (app.handleOrchEvent queued event).cursorPos = app.cursorPos := by
  cases event with
  | captain event => exact handleCaptainEvent_line app queued event
  | _ => exact ⟨rfl, rfl⟩

theorem handleConductorReply_line (app : App) (reply : ConductorReply) :
    (app.handleConductorReply reply).input = app.input ∧
      (app.handleConductorReply reply).cursorPos = app.cursorPos := by
  cases reply <;> exact ⟨rfl, rfl⟩

theorem edited_step (h : app.InRange) (event : AppEvent) :
    ∃ app', app.step event = some app' ∧ Edited app app' (app.edits event) := by
  cases event with
  | key code control delivered => exact edited_handleKey h code control delivered
  | paste text => exact edited_paste h text
  | wheel up => exact ⟨_, rfl, .of_same h rfl rfl⟩
  | orch event queued =>
    obtain ⟨hinput, hcursor⟩ := handleOrchEvent_line app queued event
    exact ⟨_, rfl, .of_same h hinput hcursor⟩
  | reply reply =>
    obtain ⟨hinput, hcursor⟩ := handleConductorReply_line app reply
    exact ⟨_, rfl, .of_same h hinput hcursor⟩
  | drawn maxScroll => exact ⟨_, rfl, .of_same h rfl rfl⟩

end Handlers

def editsOf (past : List (App × AppEvent)) : List Edit :=
  past.reverse.flatMap fun e => e.1.edits e.2

theorem run_edited (events : List AppEvent) {past : List (App × AppEvent)} {start app : App}
    (h : Edited start app (editsOf past)) (hpast : ∀ e ∈ past, e.1.InRange) :
    ∃ past' app', Execution.runActions App.step events past app = some (past', app') ∧
      (∀ e ∈ past', e.1.InRange) ∧ Edited start app' (editsOf past') := by
  induction events generalizing past app with
  | nil => exact ⟨past, app, rfl, hpast, h⟩
  | cons event events ih =>
    obtain ⟨app₁, hstep, hedited⟩ := edited_step h.inRange event
    have hsnoc : editsOf ((app, event) :: past) = editsOf past ++ app.edits event := by
      rw [editsOf, List.reverse_cons, List.flatMap_append, List.flatMap_singleton]
      rfl
    have hrun := ih (hsnoc ▸ h.trans hedited) (List.forall_mem_cons.mpr ⟨h.inRange, hpast⟩)
    obtain ⟨past', app', hrun, hrange, hedits⟩ := hrun
    exact ⟨past', app', by rw [Execution.runActions, hstep]; exact hrun, hrange, hedits⟩

/-- **The input line is a zipper editor.**  No event panics, the cursor is in range at all
times, and the text before it and behind it are those of a zipper to which the edits were
applied. -/
theorem edits_as_zipper (conductorTx : Bool) (events : List AppEvent) :
    ∃ past app, Execution.runActions App.step events [] (App.new conductorTx) = some (past, app) ∧
      (∀ e ∈ past, e.1.cursorPos ≤ e.1.input.length) ∧ app.cursorPos ≤ app.input.length ∧
      app.zipper = (editsOf past).foldl Edit.apply .empty := by
  have hstart : Edited (.new conductorTx) (.new conductorTx) (editsOf []) :=
    .of_same (Nat.le_refl 0) rfl rfl
  obtain ⟨past, app, hrun, hrange, hedits⟩ := run_edited events hstart (List.forall_mem_nil _)
  exact ⟨past, app, hrun, hrange, hedits.inRange, hedits.zipper⟩

/-- The delete key leaves the line as it is. -/
theorem not_reference : ∃ events past app,
    Execution.runActions App.step events [] (App.new true) = some (past, app) ∧
      app.zipper ≠ (events.flatMap referenceEdit).foldl Edit.apply .empty :=
  ⟨[.key (.char 'a') false (.ok ()), .key .home false (.ok ()), .key .delete false (.ok ())],
    _, _, rfl, by decide⟩

end Mowis.Tui
