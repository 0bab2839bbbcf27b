import Mowis.Lib.Text

/-!
# JSON texts

A pushdown automaton that reads a JSON text character by character.  The stack has the open
containers, the innermost first; the mode says what may come next.
-/

namespace Mowis.Lib.JsonText

inductive Container where
  | object
  | array
  deriving DecidableEq, Repr

/-- How much of a number has been read. -/
inductive NumberMode where
  | minus
  | zero
  | int
  | point
  | frac
  | exp
  | expSign
  | expDigits
  deriving DecidableEq, Repr

inductive StringMode where
  | plain
  /-- After a backslash. -/
  | escape
  /-- One hexadecimal digit must come, and `left` after it. -/
  | hex (left : ℕ)
  deriving DecidableEq, Repr

inductive Mode where
  | value
  /-- After an opening bracket: a value, or the closing bracket. -/
  | firstItem
  /-- After an opening brace: a key, or the closing brace. -/
  | firstKey
  | key
  | colon
  /-- After a value. -/
  | done
  | string (isKey : Bool) (m : StringMode)
  | number (m : NumberMode)
  | literal (next : Char) (rest : Text)
  deriving DecidableEq, Repr

structure State where
  mode : Mode
  stack : List Container
  deriving DecidableEq, Repr

def start : State := ⟨.value, []⟩

def isSpace (c : Char) : Bool := c = ' ' ∨ c = '\t' ∨ c = '\n' ∨ c = '\r'

def isHexDigit (c : Char) : Bool :=
  c.isDigit ∨ ('a' ≤ c ∧ c ≤ 'f') ∨ ('A' ≤ c ∧ c ≤ 'F')

def NumberMode.complete : NumberMode → Bool
  | .zero => true
  | .int => true
  | .frac => true
  | .expDigits => true
  | _ => false

def NumberMode.char (m : NumberMode) (c : Char) : Option NumberMode :=
  match m with
  | .minus => if c = '0' then some .zero else if c.isDigit then some .int else none
  | .zero => if c = '.' then some .point else if c = 'e' ∨ c = 'E' then some .exp else none
  | .int =>
    if c.isDigit then some .int
    else if c = '.' then some .point
    else if c = 'e' ∨ c = 'E' then some .exp
    else none
  | .point => if c.isDigit then some .frac else none
  | .frac =>
    if c.isDigit then some .frac else if c = 'e' ∨ c = 'E' then some .exp else none
  | .exp =>
    if c.isDigit then some .expDigits else if c = '+' ∨ c = '-' then some .expSign else none
  | .expSign => if c.isDigit then some .expDigits else none
  | .expDigits => if c.isDigit then some .expDigits else none

def StringMode.char (isKey : Bool) (m : StringMode) (c : Char) : Option Mode :=
  match m with
  | .plain =>
    if c = '"' then some (if isKey then .colon else .done)
    else if c = '\\' then some (.string isKey .escape)
    else if c.toNat < 0x20 then none
    else some (.string isKey .plain)
  | .escape =>
    if c = 'u' then some (.string isKey (.hex 3))
    else if ['"', '\\', '/', 'b', 'f', 'n', 'r', 't'].contains c then some (.string isKey .plain)
    else none
  | .hex 0 => if isHexDigit c then some (.string isKey .plain) else none
  | .hex (left + 1) => if isHexDigit c then some (.string isKey (.hex left)) else none

def beginValue (stack : List Container) (c : Char) : Option State :=
  if c = '{' then some ⟨.firstKey, .object :: stack⟩
  else if c = '[' then some ⟨.firstItem, .array :: stack⟩
  else if c = '"' then some ⟨.string false .plain, stack⟩
  else if c = '-' then some ⟨.number .minus, stack⟩
  else if c = '0' then some ⟨.number .zero, stack⟩
  else if c.isDigit then some ⟨.number .int, stack⟩
  else if c = 't' then some ⟨.literal 'r' ['u', 'e'], stack⟩
  else if c = 'f' then some ⟨.literal 'a' ['l', 's', 'e'], stack⟩
  else if c = 'n' then some ⟨.literal 'u' ['l', 'l'], stack⟩
  else none

def afterValue (stack : List Container) (c : Char) : Option State :=
  if isSpace c then some ⟨.done, stack⟩
  else
    match stack with
    | [] => none
    | .object :: rest =>
      if c = ',' then some ⟨.key, stack⟩ else if c = '}' then some ⟨.done, rest⟩ else none
    | .array :: rest =>
      if c = ',' then some ⟨.value, stack⟩ else if c = ']' then some ⟨.done, rest⟩ else none

def State.char (s : State) (c : Char) : Option State :=
  match s.mode with
  | .value => if isSpace c then some s else beginValue s.stack c
  | .firstItem =>
    if isSpace c then some s
    else if c = ']' then some ⟨.done, s.stack.tail⟩
    else beginValue s.stack c
  | .firstKey =>
    if isSpace c then some s
    else if c = '}' then some ⟨.done, s.stack.tail⟩
    else if c = '"' then some ⟨.string true .plain, s.stack⟩
    else none
  | .key =>
    if isSpace c then some s else if c = '"' then some ⟨.string true .plain, s.stack⟩ else none
  | .colon => if isSpace c then some s else if c = ':' then some ⟨.value, s.stack⟩ else none
  | .done => afterValue s.stack c
  | .string isKey m => (m.char isKey c).map (⟨·, s.stack⟩)
  | .number m =>
    match m.char c with
    | some m' => some ⟨.number m', s.stack⟩
    | none => if m.complete then afterValue s.stack c else none
  | .literal next rest =>
    if c = next then
      match rest with
      | [] => some ⟨.done, s.stack⟩
      | next' :: rest' => some ⟨.literal next' rest', s.stack⟩
    else none

def run : State → Text → Option State
  | s, [] => some s
  | s, c :: cs =>
    match s.char c with
    | none => none
    | some next => run next cs

def Mode.ended : Mode → Bool
  | .done => true
  | .number m => m.complete
  | _ => false

def Valid (t : Text) : Prop := ∃ s, run start t = some s ∧ s.mode.ended = true ∧ s.stack = []

instance (t : Text) : Decidable (Valid t) :=
  match h : run start t with
  | none => .isFalse fun ⟨_, hs, _⟩ => Option.some_ne_none _ (hs.symm.trans h)
  | some s =>
    if hs : s.mode.ended = true ∧ s.stack = [] then .isTrue ⟨s, h, hs⟩
    else .isFalse fun ⟨_, hs', hend⟩ => hs (Option.some.inj (h.symm.trans hs') ▸ hend)

example : Valid "\x7b\"a\": [1.5e3, \"\\u00e9\", null]\x7d ".toList := by decide

theorem run_append (s : State) (t u : Text) :
    run s (t ++ u) = (run s t).bind fun s' => run s' u := by
  induction t generalizing s with
  | nil => rfl
  | cons c cs ih =>
    rw [List.cons_append, run, run]
    cases s.char c with
    | none => rfl
    | some s' => exact ih s'

theorem run_cons {s s' : State} {c : Char} (h : s.char c = some s') (t : Text) :
    run s (c :: t) = run s' t := by
  rw [run, h]

theorem run_prefix {s s' : State} {t u : Text} (h : run s t = some s') (hu : u <+: t) :
    ∃ s'', run s u = some s'' := by
  obtain ⟨v, rfl⟩ := hu
  rw [run_append] at h
  obtain ⟨s'', hs, -⟩ := Option.bind_eq_some_iff.mp h
  exact ⟨s'', hs⟩

theorem Valid.run_prefix {t u : Text} (h : Valid t) (hu : u <+: t) : ∃ s, run start u = some s := by
  obtain ⟨s, hs, -⟩ := h
  exact JsonText.run_prefix hs hu

/-! ### What one character does -/

def Container.opening : Container → Char
  | .object => '{'
  | .array => '['

def Container.closing : Container → Char
  | .object => '}'
  | .array => ']'

def Container.first : Container → Mode
  | .object => .firstKey
  | .array => .firstItem

def State.inString (s : State) : Bool :=
  match s.mode with
  | .string _ _ => true
  | _ => false

def State.escaped (s : State) : Bool :=
  match s.mode with
  | .string _ .escape => true
  | _ => false

def isSyntax (c : Char) : Bool := ['"', '{', '}', '[', ']'].contains c

def State.Ok (s : State) : Prop :=
  match s.mode with
  | .firstItem => s.stack.head? = some .array
  | .firstKey => s.stack.head? = some .object
  | .key => s.stack.head? = some .object
  | .colon => s.stack.head? = some .object
  | .string true _ => s.stack.head? = some .object
  | .literal next rest => ((next :: rest).all fun c => !isSyntax c) = true
  | _ => True

theorem ok_start : start.Ok := trivial

/-- What one character does to a state. -/
inductive Moves (s : State) (c : Char) (s' : State) : Prop where
  | opens (d : Container) (hout : s.inString = false) (hc : c = d.opening)
      (hs' : s' = ⟨d.first, d :: s.stack⟩)
  | closes (d : Container) (hout : s.inString = false) (hc : c = d.closing)
      (hstack : s.stack = d :: s'.stack) (hmode : s'.mode = .done)
  | quote (hc : c = '"') (hesc : s.escaped = false) (hesc' : s'.escaped = false)
      (htoggle : s'.inString = !s.inString) (hstack : s'.stack = s.stack)
  | escape (hc : c = '\\') (hin : s.inString = true) (hesc : s.escaped = false)
      (hin' : s'.inString = true) (hesc' : s'.escaped = true) (hstack : s'.stack = s.stack)
  | inside (hin : s.inString = true) (hin' : s'.inString = true) (hesc' : s'.escaped = false)
      (hc : s.escaped = true ∨ c ≠ '"' ∧ c ≠ '\\') (hstack : s'.stack = s.stack)
  | outside (hout : s.inString = false) (hout' : s'.inString = false) (hc : isSyntax c = false)
      (hstack : s'.stack = s.stack)

theorem escaped_of_not_inString {s : State} (h : s.inString = false) : s.escaped = false := by
  obtain ⟨mode, stack⟩ := s
  cases mode with
  | string isKey m => cases h
  | _ => rfl

theorem isSyntax_of_isSpace {c : Char} (h : isSpace c = true) : isSyntax c = false := by
  have hc : c = ' ' ∨ c = '\t' ∨ c = '\n' ∨ c = '\r' := of_decide_eq_true h
  obtain rfl | rfl | rfl | rfl := hc <;> decide

theorem isSyntax_of_isDigit {c : Char} (h : c.isDigit = true) : isSyntax c = false := by
  refine Bool.eq_false_iff.mpr fun hsyntax => ?_
  have hc : c ∈ ['"', '{', '}', '[', ']'] := List.contains_iff_mem.mp hsyntax
  simp only [List.mem_cons, List.not_mem_nil, or_false] at hc
  obtain rfl | rfl | rfl | rfl | rfl := hc <;> exact absurd h (by decide)

theorem NumberMode.char_spec {m m' : NumberMode} {c : Char} (h : m.char c = some m') :
    isSyntax c = false := by
  have hcases : c.isDigit = true ∨ c ∈ ['0', '.', 'e', 'E', '+', '-'] := by
    unfold NumberMode.char at h
    cases m <;> simp only at h <;> grind
  obtain hdigit | hmem := hcases
  · exact isSyntax_of_isDigit hdigit
  · simp only [List.mem_cons, List.not_mem_nil, or_false] at hmem
    obtain rfl | rfl | rfl | rfl | rfl | rfl := hmem <;> decide

theorem beginValue_moves {s s' : State} {c : Char} (hout : s.inString = false)
    (h : beginValue s.stack c = some s') : Moves s c s' ∧ s'.Ok := by
  unfold beginValue at h
  split at h
  · next hc =>
    cases h
    exact ⟨.opens .object hout hc rfl, rfl⟩
  split at h
  · next hc =>
    cases h
    exact ⟨.opens .array hout hc rfl, rfl⟩
  split at h
  · next hc =>
    cases h
    exact ⟨.quote hc (escaped_of_not_inString hout) rfl (by rw [hout]; rfl) rfl, trivial⟩
  split at h
  · next hc =>
    cases h
    exact ⟨.outside hout rfl (hc ▸ by decide) rfl, trivial⟩
  split at h
  · next hc =>
    cases h
    exact ⟨.outside hout rfl (hc ▸ by decide) rfl, trivial⟩
  split at h
  · next hc =>
    cases h
    exact ⟨.outside hout rfl (isSyntax_of_isDigit hc) rfl, trivial⟩
  split at h
  · next hc =>
    cases h
    exact ⟨.outside hout rfl (hc ▸ by decide) rfl, rfl⟩
  split at h
  · next hc =>
    cases h
    exact ⟨.outside hout rfl (hc ▸ by decide) rfl, rfl⟩
  split at h
  · next hc =>
    cases h
    exact ⟨.outside hout rfl (hc ▸ by decide) rfl, rfl⟩
  · cases h

theorem afterValue_moves {s s' : State} {c : Char} (hout : s.inString = false)
    (h : afterValue s.stack c = some s') : Moves s c s' ∧ s'.Ok := by
  unfold afterValue at h
  split at h
  · next hspace =>
    cases h
    exact ⟨.outside hout rfl (isSyntax_of_isSpace hspace) rfl, trivial⟩
  split at h
  · cases h
  · next rest hstack =>
    split at h
    · next hc =>
      cases h
      exact ⟨.outside hout rfl (hc ▸ by decide) rfl, by rw [State.Ok, hstack]; rfl⟩
    · split at h
      · next hc =>
        cases h
        exact ⟨.closes .object hout hc hstack rfl, trivial⟩
      · cases h
  · next rest hstack =>
    split at h
    · next hc =>
      cases h
      exact ⟨.outside hout rfl (hc ▸ by decide) rfl, trivial⟩
    · split at h
      · next hc =>
        cases h
        exact ⟨.closes .array hout hc hstack rfl, trivial⟩
      · cases h

theorem stringMode_moves {s s' : State} {isKey : Bool} {m : StringMode} {c : Char}
    (hmode : s.mode = .string isKey m) (hok : s.Ok)
    (h : (m.char isKey c).map (⟨·, s.stack⟩) = some s') : Moves s c s' ∧ s'.Ok := by
  have hin : s.inString = true := by rw [State.inString, hmode]
  have hkey : isKey = true → s.stack.head? = some .object := by
    intro hkey
    rw [State.Ok, hmode, hkey] at hok
    exact hok
  have hok' : ∀ m', (⟨.string isKey m', s.stack⟩ : State).Ok := by
    intro m'
    cases isKey with
    | false => trivial
    | true => exact hkey rfl
  obtain ⟨mode, hm, rfl⟩ := Option.map_eq_some_iff.mp h
  cases m with
  | plain =>
    have hesc : s.escaped = false := by rw [State.escaped, hmode]
    unfold StringMode.char at hm
    simp only at hm
    split at hm
    · next hc =>
      cases hm
      refine ⟨.quote hc hesc ?_ ?_ rfl, ?_⟩
      · cases isKey <;> rfl
      · rw [hin]
        cases isKey <;> rfl
      · cases isKey with
        | false => trivial
        | true => exact hkey rfl
    · next hquote =>
      split at hm
      · next hc =>
        cases hm
        exact ⟨.escape hc hin hesc rfl rfl rfl, hok' _⟩
      · next hback =>
        split at hm
        · cases hm
        · cases hm
          exact ⟨.inside hin rfl rfl (.inr ⟨hquote, hback⟩) rfl, hok' _⟩
  | escape =>
    have hesc : s.escaped = true := by rw [State.escaped, hmode]
    unfold StringMode.char at hm
    simp only at hm
    split at hm
    · cases hm
      exact ⟨.inside hin rfl rfl (.inl hesc) rfl, hok' _⟩
    · split at hm
      · cases hm
        exact ⟨.inside hin rfl rfl (.inl hesc) rfl, hok' _⟩
      · cases hm
  | hex left =>
    have hplain : ∀ {c : Char}, isHexDigit c = true → c ≠ '"' ∧ c ≠ '\\' := by
      intro c hc
      refine ⟨?_, ?_⟩ <;> rintro rfl <;> exact absurd hc (by decide)
    cases left with
    | zero =>
      unfold StringMode.char at hm
      simp only at hm
      split at hm
      · next hc =>
        cases hm
        exact ⟨.inside hin rfl rfl (.inr (hplain hc)) rfl, hok' _⟩
      · cases hm
    | succ left =>
      unfold StringMode.char at hm
      simp only at hm
      split at hm
      · next hc =>
        cases hm
        exact ⟨.inside hin rfl rfl (.inr (hplain hc)) rfl, hok' _⟩
      · cases hm

theorem eq_cons_tail {stack : List Container} {d : Container} (h : stack.head? = some d) :
    stack = d :: stack.tail := by
  obtain ⟨rest, rfl⟩ := List.head?_eq_some_iff.mp h
  rfl

theorem char_moves {s s' : State} {c : Char} (hok : s.Ok) (h : s.char c = some s') :
    Moves s c s' ∧ s'.Ok := by
  have hquote : s.inString = false → c = '"' → s.stack.head? = some .object →
      Moves s c ⟨.string true .plain, s.stack⟩ ∧ (⟨.string true .plain, s.stack⟩ : State).Ok :=
    fun hout hc htop =>
      ⟨.quote hc (escaped_of_not_inString hout) rfl (by rw [hout]; rfl) rfl, htop⟩
  have hspace : s.inString = false → isSpace c = true → Moves s c s ∧ s.Ok :=
    fun hout hc => ⟨.outside hout hout (isSyntax_of_isSpace hc) rfl, hok⟩
  obtain ⟨mode, stack⟩ := s
  cases mode with
  | value =>
    rw [State.char] at h
    simp only at h
    split at h
    · next hc =>
      cases h
      exact hspace rfl hc
    · exact beginValue_moves rfl h
  | firstItem =>
    rw [State.char] at h
    simp only at h
    split at h
    · next hc =>
      cases h
      exact hspace rfl hc
    split at h
    · next hc =>
      cases h
      exact ⟨.closes .array rfl hc (eq_cons_tail hok) rfl, trivial⟩
    · exact beginValue_moves rfl h
  | firstKey =>
    rw [State.char] at h
    simp only at h
    split at h
    · next hc =>
      cases h
      exact hspace rfl hc
    split at h
    · next hc =>
      cases h
      exact ⟨.closes .object rfl hc (eq_cons_tail hok) rfl, trivial⟩
    split at h
    · next hc =>
      cases h
      exact hquote rfl hc hok
    · cases h
  | key =>
    rw [State.char] at h
    simp only at h
    split at h
    · next hc =>
      cases h
      exact hspace rfl hc
    split at h
    · next hc =>
      cases h
      exact hquote rfl hc hok
    · cases h
  | colon =>
    rw [State.char] at h
    simp only at h
    split at h
    · next hc =>
      cases h
      exact hspace rfl hc
    split at h
    · next hc =>
      cases h
      exact ⟨.outside rfl rfl (hc ▸ by decide) rfl, trivial⟩
    · cases h
  | done => exact afterValue_moves rfl h
  | string isKey m => exact stringMode_moves rfl hok h
  | number m =>
    rw [State.char] at h
    simp only at h
    split at h
    · next m' hm =>
      cases h
      exact ⟨.outside rfl rfl (NumberMode.char_spec hm) rfl, trivial⟩
    · split at h
      · exact afterValue_moves rfl h
      · cases h
  | literal next rest =>
    have hletters : ((next :: rest).all fun c => !isSyntax c) = true := hok
    rw [List.all_cons, Bool.and_eq_true, Bool.not_eq_true'] at hletters
    obtain ⟨hnext, hrest⟩ := hletters
    rw [State.char] at h
    simp only at h
    split at h
    · next hc =>
      split at h
      · cases h
        exact ⟨.outside rfl rfl (hc ▸ hnext) rfl, trivial⟩
      · cases h
        exact ⟨.outside rfl rfl (hc ▸ hnext) rfl, hrest⟩
    · cases h

theorem run_ok {s s' : State} {t : Text} (hok : s.Ok) (h : run s t = some s') : s'.Ok := by
  induction t generalizing s with
  | nil =>
    cases h
    exact hok
  | cons c cs ih =>
    rw [run] at h
    split at h
    · cases h
    · next next hnext => exact ih (char_moves hok hnext).2 h

theorem Moves.bottom {s s' : State} {c : Char} {d : Container}
    (h : Moves s c s') (hd : s.stack.getLast? = some d) :
    s'.stack.getLast? = some d ∨
      s'.stack = [] ∧ s'.mode = .done ∧ c = d.closing ∧ s.inString = false := by
  cases h with
  | opens e hout hc hs' =>
    left
    rw [hs', List.getLast?_cons, hd]
    rfl
  | closes e hout hc hstack hmode =>
    cases hrest : s'.stack with
    | nil =>
      rw [hstack, hrest] at hd
      cases hd
      exact .inr ⟨rfl, hmode, hc, hout⟩
    | cons e' rest =>
      left
      rw [hstack, hrest, List.getLast?_cons_cons] at hd
      exact hd
  | quote hc hesc hesc' htoggle hstack => exact .inl (hstack ▸ hd)
  | escape hc hin hesc hin' hesc' hstack => exact .inl (hstack ▸ hd)
  | inside hin hin' hesc' hc hstack => exact .inl (hstack ▸ hd)
  | outside hout hout' hc hstack => exact .inl (hstack ▸ hd)

theorem run_done {t : Text} {s : State} (h : run ⟨.done, []⟩ t = some s) :
    (∀ c ∈ t, isSpace c = true) ∧ s = ⟨.done, []⟩ := by
  induction t with
  | nil =>
    cases h
    exact ⟨fun c hc => absurd hc List.not_mem_nil, rfl⟩
  | cons c cs ih =>
    rw [run, State.char, afterValue] at h
    by_cases hc : isSpace c = true
    · simp only [if_pos hc] at h
      obtain ⟨hcs, hs⟩ := ih h
      exact ⟨List.forall_mem_cons.mpr ⟨hc, hcs⟩, hs⟩
    · simp only [if_neg hc] at h
      cases h

theorem run_bottom {s s' : State} {d : Container} {t : Text} (hok : s.Ok)
    (hd : s.stack.getLast? = some d) (h : run s t = some s') :
    s'.stack.getLast? = some d ∨ s' = ⟨.done, []⟩ := by
  induction t generalizing s with
  | nil =>
    cases h
    exact .inl hd
  | cons c cs ih =>
    rw [run] at h
    split at h
    · cases h
    · next next hnext =>
      obtain ⟨hmoves, hok'⟩ := char_moves hok hnext
      rcases hmoves.bottom hd with hbottom | ⟨hstack, hmode, -, -⟩
      · exact ih hok' hbottom h
      · obtain ⟨mode, stack⟩ := next
        cases hstack
        cases hmode
        exact .inr (run_done h).2

theorem run_object {t : Text} {s : State} (hbrace : t.head? = some '{') (h : run start t = some s) :
    s.stack.getLast? = some .object ∨ s = ⟨.done, []⟩ := by
  obtain ⟨rest, rfl⟩ := List.head?_eq_some_iff.mp hbrace
  have hfirst : run start ('{' :: rest) = run ⟨.firstKey, [.object]⟩ rest := rfl
  rw [hfirst] at h
  refine run_bottom ?_ rfl h
  rfl

def Mode.closes : Mode → Bool
  | .firstItem => true
  | .firstKey => true
  | m => m.ended

theorem inString_of_ended {s : State} (h : s.mode.ended = true) : s.inString = false := by
  obtain ⟨mode, stack⟩ := s
  cases mode with
  | string isKey m => cases h
  | _ => rfl

theorem isSyntax_closing (d : Container) : isSyntax d.closing = true := by
  cases d <;> rfl

theorem closing_ne (d : Container) : d.closing ≠ '"' ∧ d.closing ≠ '\\' := by
  cases d <;> decide

theorem char_closing_inString {s s' : State} {d : Container} (hok : s.Ok) (hin : s.inString = true)
    (h : s.char d.closing = some s') : s'.inString = true := by
  obtain ⟨hmoves, -⟩ := char_moves hok h
  cases hmoves with
  | opens e hout hc hs' => exact absurd (hin.symm.trans hout) (by decide)
  | closes e hout hc hstack hmode => exact absurd (hin.symm.trans hout) (by decide)
  | quote hc => exact absurd hc (closing_ne d).1
  | escape hc hin' hesc hin'' => exact hin''
  | inside hin' hin'' => exact hin''
  | outside hout => exact absurd (hin.symm.trans hout) (by decide)

theorem char_closing {s s' : State} {d : Container} (hok : s.Ok) (hout : s.inString = false)
    (h : s.char d.closing = some s') :
    s.mode.closes = true ∧ s.stack = d :: s'.stack ∧ s' = ⟨.done, s'.stack⟩ := by
  have hstack : s.stack = d :: s'.stack ∧ s' = ⟨.done, s'.stack⟩ := by
    obtain ⟨hmoves, -⟩ := char_moves hok h
    cases hmoves with
    | opens e hout' hc hs' => cases d <;> cases e <;> exact absurd hc (by decide)
    | closes e hout' hc hstack hmode =>
      have hde : d = e := by cases d <;> cases e <;> first | rfl | exact absurd hc (by decide)
      rw [hde]
      refine ⟨hstack, ?_⟩
      rw [← hmode]
    | quote hc => exact absurd hc (closing_ne d).1
    | escape hc => exact absurd hc (closing_ne d).2
    | inside hin => exact absurd (hin.symm.trans hout) (by decide)
    | outside hout' hout'' hc => exact absurd ((isSyntax_closing d).symm.trans hc) (by decide)
  refine ⟨?_, hstack⟩
  obtain ⟨mode, stack⟩ := s
  cases mode with
  | value => cases d <;> cases h
  | firstItem => rfl
  | firstKey => rfl
  | key => cases d <;> cases h
  | colon => cases d <;> cases h
  | done => rfl
  | string isKey m => cases hout
  | number m =>
    rw [State.char] at h
    simp only at h
    split at h
    · next m' hm =>
      exact absurd ((isSyntax_closing d).symm.trans (NumberMode.char_spec hm)) (by decide)
    · split at h
      · next hcomplete => exact hcomplete
      · cases h
  | literal next rest =>
    have hletters : ((next :: rest).all fun c => !isSyntax c) = true := hok
    rw [List.all_cons, Bool.and_eq_true, Bool.not_eq_true'] at hletters
    rw [State.char] at h
    simp only at h
    split at h
    · next hc =>
      exact absurd ((isSyntax_closing d).symm.trans (hc ▸ hletters.1)) (by decide)
    · cases h

theorem char_closing_of_closes {s : State} {d : Container} {rest : List Container} (hok : s.Ok)
    (hcloses : s.mode.closes = true) (hstack : s.stack = d :: rest) :
    s.char d.closing = some ⟨.done, rest⟩ := by
  obtain ⟨mode, stack⟩ := s
  cases hstack
  have hafter : afterValue (d :: rest) d.closing = some ⟨.done, rest⟩ := by cases d <;> rfl
  cases mode with
  | value => cases hcloses
  | firstItem =>
    cases hok
    rfl
  | firstKey =>
    cases hok
    rfl
  | key => cases hcloses
  | colon => cases hcloses
  | done => exact hafter
  | string isKey m => cases hcloses
  | number m =>
    have hnone : m.char d.closing = none := by
      cases hm : m.char d.closing with
      | none => rfl
      | some m' =>
        exact absurd ((isSyntax_closing d).symm.trans (NumberMode.char_spec hm)) (by decide)
    rw [State.char]
    simp only [hnone]
    rw [if_pos (show m.complete = true from hcloses), hafter]
  | literal next rest => cases hcloses

theorem run_closing_done (ds rest : List Container) :
    run ⟨.done, ds ++ rest⟩ (ds.map Container.closing) = some ⟨.done, rest⟩ := by
  induction ds with
  | nil => rfl
  | cons d ds ih =>
    have hstep : (⟨.done, d :: ds ++ rest⟩ : State).char d.closing = some ⟨.done, ds ++ rest⟩ :=
      char_closing_of_closes trivial rfl rfl
    rw [List.map_cons, run_cons hstep, ih]

theorem run_closing {s s' : State} {ds : List Container} (hok : s.Ok) (hout : s.inString = false)
    (h : run s (ds.map Container.closing) = some s') : s.stack = ds ++ s'.stack := by
  induction ds generalizing s with
  | nil =>
    cases h
    rfl
  | cons d ds ih =>
    rw [List.map_cons, run] at h
    split at h
    · cases h
    · next next hnext =>
      obtain ⟨-, hstack, hdone⟩ := char_closing hok hout hnext
      have hrest := ih (char_moves hok hnext).2 (hdone ▸ rfl) h
      rw [hstack, hrest, List.cons_append]

theorem run_closing_inString {s s' : State} {ds : List Container} (hok : s.Ok)
    (hin : s.inString = true) (h : run s (ds.map Container.closing) = some s') :
    s'.inString = true := by
  induction ds generalizing s with
  | nil =>
    cases h
    exact hin
  | cons d ds ih =>
    rw [List.map_cons, run] at h
    split at h
    · cases h
    · next next hnext =>
      exact ih (char_moves hok hnext).2 (char_closing_inString hok hin hnext) h

def arraysFirst (stack : List Container) : List Container :=
  List.replicate (stack.count .array) .array ++ List.replicate (stack.count .object) .object

/-- The state can be completed by brackets, then braces: the innermost container may be closed
here, and no object is open in an open array. -/
structure State.Closable (s : State) : Prop where
  closes : s.mode.closes = true
  order : s.stack = arraysFirst s.stack

instance (s : State) : Decidable s.Closable :=
  decidable_of_iff (s.mode.closes = true ∧ s.stack = arraysFirst s.stack)
    ⟨fun h => ⟨h.1, h.2⟩, fun h => ⟨h.closes, h.order⟩⟩

theorem closers_iff {s : State} (hok : s.Ok) (hopen : s.stack ≠ []) :
    (∃ s', run s ((arraysFirst s.stack).map Container.closing) = some s' ∧
      s'.mode.ended = true ∧ s'.stack = []) ↔ s.Closable := by
  constructor
  · intro h
    obtain ⟨s', hrun, hended, hstack⟩ := h
    cases hin : s.inString with
    | true =>
      have hin' := run_closing_inString hok hin hrun
      rw [inString_of_ended hended] at hin'
      cases hin'
    | false =>
      have horder := run_closing hok hin hrun
      rw [hstack, List.append_nil] at horder
      obtain ⟨d, rest, hcons⟩ := List.exists_cons_of_ne_nil hopen
      rw [← horder, hcons, List.map_cons, run] at hrun
      split at hrun
      · cases hrun
      · next next hnext => exact ⟨(char_closing hok hin hnext).1, horder⟩
  · intro h
    obtain ⟨d, rest, hcons⟩ := List.exists_cons_of_ne_nil hopen
    have hdone := run_closing_done rest []
    rw [List.append_nil] at hdone
    refine ⟨⟨.done, []⟩, ?_, rfl, rfl⟩
    rw [← h.order, hcons, List.map_cons, run_cons (char_closing_of_closes hok h.closes hcons),
      hdone]

end Mowis.Lib.JsonText
