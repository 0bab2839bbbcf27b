import Mowis.Planning.LineValues

/-!
# Plans written line by line

A task graph as TOML with one `key = value` on each line, and what `extract_tasks_from_text` of
`mowis-orchestration/src/conductor.rs` reads of it.
-/

namespace Mowis.Planning

open Mowis.Lib Mowis.Lib.TomlText
open Mowis.Orchestration (TaskId TaskNode ModelTier)

inductive Field where
  | id
  | title
  | description
  | deps
  | modelTier
  | toolBudget
  | filesHint
  deriving DecidableEq

namespace Field

def key : Field → Text
  | id => "id".toList
  | title => "title".toList
  | description => "description".toList
  | deps => "deps".toList
  | modelTier => "model_tier".toList
  | toolBudget => "tool_budget".toList
  | filesHint => "files_hint".toList

def all : List Field := [id, title, description, deps, modelTier, toolBudget, filesHint]

end Field

/-- A line `key = value`. -/
structure KeyValue (α : Type) where
  indent : Blank
  left : Blank
  right : Blank
  value : α
  tail : Tail

/-- The line of a key whose value is written as `text`. -/
def KeyValue.line {α : Type} (e : KeyValue α) (key text : Text) : Text :=
  e.indent.1 ++ (key ++ (e.left.1 ++ '=' :: (e.right.1 ++ (text ++ e.tail.text))))

/-- A line `[[tasks]]`. -/
structure Header where
  indent : Blank
  left : Blank
  right : Blank
  tail : Tail

def Header.line (h : Header) : Text :=
  h.indent.1 ++ ('[' :: '[' :: (h.left.1 ++ ("tasks".toList ++ (h.right.1 ++
    (']' :: ']' :: h.tail.text)))))

structure WrittenTask where
  header : Header
  id : KeyValue StringLit
  title : KeyValue StringLit
  description : KeyValue StringLit
  deps : KeyValue ArrayLit
  modelTier : KeyValue StringLit
  toolBudget : KeyValue IntLit
  filesHint : KeyValue ArrayLit
  /-- The order of the lines, with empty lines and comments between them. -/
  layout : List (Tail ⊕ Field)
  complete : (layout.filterMap Sum.getRight?).Perm Field.all
  tier : ModelTier
  tier_value : modelTier.value.value = tierName tier
  budget : ℕ
  budget_value : toolBudget.value.value = budget
  budget_small : budget < 2 ^ 32

namespace WrittenTask

variable (t : WrittenTask)

def fieldLine : Field → Text
  | .id => t.id.line Field.id.key t.id.value.text
  | .title => t.title.line Field.title.key t.title.value.text
  | .description => t.description.line Field.description.key t.description.value.text
  | .deps => t.deps.line Field.deps.key t.deps.value.text
  | .modelTier => t.modelTier.line Field.modelTier.key t.modelTier.value.text
  | .toolBudget => t.toolBudget.line Field.toolBudget.key t.toolBudget.value.text
  | .filesHint => t.filesHint.line Field.filesHint.key t.filesHint.value.text

def layoutLine : Tail ⊕ Field → Text
  | .inl filler => filler.text
  | .inr f => t.fieldLine f

def lines : List Text := t.header.line :: t.layout.map t.layoutLine

def task : TaskNode where
  id := String.ofList t.id.value.value
  title := String.ofList t.title.value.value
  description := String.ofList t.description.value.value
  deps := t.deps.value.values.map String.ofList
  modelTier := t.tier
  toolBudget := t.budget
  filesHint := t.filesHint.value.values.map String.ofList

end WrittenTask

/-- A written plan: tasks under their headers, or `tasks = []`. -/
structure WrittenPlan where
  before : List Tail
  body : List WrittenTask ⊕ (KeyValue Blank × List Tail)
  tasks_ne_nil : ∀ tasks, body = .inl tasks → tasks ≠ []
  /-- Lines end with a carriage return and a line feed. -/
  crlf : Bool

namespace WrittenPlan

variable (p : WrittenPlan)

def bodyLines : List WrittenTask ⊕ (KeyValue Blank × List Tail) → List Text
  | .inl tasks => tasks.flatMap WrittenTask.lines
  | .inr (e, after) => e.line "tasks".toList ('[' :: (e.value.1 ++ [']'])) :: after.map Tail.text

def lines : List Text := p.before.map Tail.text ++ bodyLines p.body

def text : Text := p.lines.flatMap fun l => endLine (l ++ if p.crlf then ['\r'] else [])

def graph : TaskGraph :=
  match p.body with
  | .inl tasks => tasks.map WrittenTask.task
  | .inr _ => []

end WrittenPlan

namespace KeyValue

variable {α : Type} (e : KeyValue α)

/-- The key is seen: one blank before the equals sign and at least one behind it, and these are
spaces. -/
def Seen : Prop := e.left.1 = [' '] ∧ e.right.1.head? = some ' '

def Alone : Prop := e.left.1 = [' '] ∧ e.right.1 = [' '] ∧ e.tail.comment = none

end KeyValue

def TextRead (e : KeyValue StringLit) : Prop :=
  (e.Alone ∧ Exact e.value) ∨ (¬ e.Seen ∧ e.value.value = [])

def ItemsRead (e : KeyValue ArrayLit) : Prop :=
  (e.Alone ∧ ∀ i ∈ e.value.all, Exact i.lit ∧ i.lit.value ≠ [] ∧ ',' ∉ i.lit.value) ∨
    (e.value.all = [] ∧ (e.Seen → e.tail.comment = none ∧ (e.right.1 = [' '] ∨ e.value.last.1 = [])))

def BudgetRead (e : KeyValue IntLit) (budget : ℕ) : Prop :=
  (e.Alone ∧ e.value.Bare) ∨ (e.Seen ∧ budget = 20) ∨ (¬ e.Seen ∧ budget = 8)

def Header.Bare (h : Header) : Prop := h.left.1 = [] ∧ h.right.1 = [] ∧ h.tail.comment = none

/-- A task that is read as it is written. -/
structure WrittenTask.Read (t : WrittenTask) : Prop where
  header : t.header.Bare
  id : t.id.Alone ∧ Exact t.id.value ∧ t.id.value.value ≠ []
  title : TextRead t.title
  description : TextRead t.description
  deps : ItemsRead t.deps
  tier : t.tier = .fast
  budget : BudgetRead t.toolBudget t.budget
  filesHint : ItemsRead t.filesHint

def WrittenPlan.Read (p : WrittenPlan) : Prop :=
  ∀ tasks, p.body = .inl tasks → ∀ t ∈ tasks, t.Read

def tailRead (t : Tail) : Text :=
  match t.comment with
  | none => []
  | some c => t.blank.1 ++ trimEnd ('#' :: c.1)

theorem rdropWhile_hash (c : Text) : ('#' :: c).rdropWhile isWhitespace ≠ [] :=
  rdropWhile_of_mem List.mem_cons_self (by decide)

theorem tailRead_spec (t : Tail) : tailRead t = [] ∨ '#' ∈ tailRead t := by
  unfold tailRead
  cases t.comment with
  | none => exact .inl rfl
  | some c =>
    refine .inr (List.mem_append_right _ ?_)
    obtain ⟨u, hu⟩ := List.rdropWhile_prefix isWhitespace ('#' :: c.1)
    obtain ⟨d, v, hv⟩ := List.exists_cons_of_ne_nil (rdropWhile_hash c.1)
    rw [hv, List.cons_append, List.cons.injEq] at hu
    rw [trimEnd, hv, hu.1]
    exact List.mem_cons_self

theorem tailRead_eq_nil_iff (t : Tail) : tailRead t = [] ↔ t.comment = none := by
  unfold tailRead
  cases hc : t.comment with
  | none => exact iff_of_true rfl rfl
  | some c =>
    refine iff_of_false (fun h => ?_) fun h => Option.some_ne_none c h
    exact rdropWhile_hash c.1 (List.append_eq_nil_iff.mp h).2

theorem trim_line {x : Text} (hne : x ≠ []) (hhead : ∀ c, x.head? = some c → isWhitespace c = false)
    (hlast : ∀ c, x.getLast? = some c → isWhitespace c = false) (indent : Blank) (t : Tail) :
    trim (indent.1 ++ (x ++ t.text)) = x ++ tailRead t := by
  have hblank : ∀ {b : Blank}, ∀ c ∈ b.1, isWhitespace c = true :=
    fun {b} c hc => (isBlank_spec (b.2 c hc)).1
  have hindent : indent.1.dropWhile isWhitespace = [] := List.dropWhile_eq_nil_iff.mpr hblank
  have htail : t.text.rdropWhile isWhitespace = tailRead t := by
    unfold Tail.text tailRead
    cases t.comment with
    | none =>
      rw [List.append_nil]
      exact List.rdropWhile_eq_nil_iff.mpr hblank
    | some c => exact rdropWhile_append (rdropWhile_hash c.1) t.blank.1
  show trimBoth isWhitespace _ = _
  rw [trimBoth_around hne hhead hlast, hindent, htail, List.nil_append]

theorem trim_tail (t : Tail) : trim t.text = [] ∨ ∃ rest, trim t.text = '#' :: rest := by
  have hblank : t.blank.1.dropWhile isWhitespace = [] :=
    List.dropWhile_eq_nil_iff.mpr fun c hc => (isBlank_spec (t.blank.2 c hc)).1
  have hhash : isWhitespace '#' = false := by decide
  cases hc : t.comment with
  | none =>
    refine .inl ?_
    have htext : t.text = t.blank.1 := by
      rw [Tail.text, hc]
      exact List.append_nil _
    rw [htext, trim, hblank]
    rfl
  | some c =>
    refine .inr ⟨c.1.rdropWhile isWhitespace, ?_⟩
    have htext : t.text = t.blank.1 ++ (['#'] ++ c.1) := by
      rw [Tail.text, hc]
      rfl
    have hone : ∀ d, ['#'].head? = some d → isWhitespace d = false := forall_of_eq_some rfl hhash
    rw [htext]
    show trimBoth isWhitespace _ = _
    rw [trimBoth_around (List.cons_ne_nil '#' []) hone hone, hblank]
    rfl

theorem trim_dropCR (l : Text) : trim (dropCR l) = trim l := by
  by_cases hcr : l.getLast? = some '\r'
  · obtain ⟨u, rfl⟩ := List.getLast?_eq_some_iff.mp hcr
    have hspace : isWhitespace '\r' = true := by decide
    rw [dropCR, if_pos hcr, List.dropLast_concat]
    show (u.dropWhile isWhitespace).rdropWhile isWhitespace =
      ((u ++ ['\r']).dropWhile isWhitespace).rdropWhile isWhitespace
    rw [List.dropWhile_append]
    cases hempty : (u.dropWhile isWhitespace).isEmpty with
    | true =>
      rw [List.isEmpty_iff.mp hempty, if_pos rfl, List.dropWhile_cons_of_pos hspace]
      rfl
    | false =>
      rw [if_neg Bool.false_ne_true, List.rdropWhile_concat_pos _ _ _ hspace]
  · rw [dropCR_eq_self hcr]

theorem isWhitespace_of_range {c : Char} (h : 0x21 ≤ c.toNat ∧ c.toNat ≤ 0x7E) :
    isWhitespace c = false := by
  unfold isWhitespace
  simp only [decide_eq_false_iff_not]
  omega

theorem range_of_isHexDigit {c : Char} (h : isHexDigit c) : 0x21 ≤ c.toNat ∧ c.toNat ≤ 0x7E := by
  simp only [isHexDigit, Char.isDigit, Bool.or_eq_true, Bool.and_eq_true, decide_eq_true_eq,
    Char.le_def, UInt32.le_iff_toNat_le, ge_iff_le] at h
  have h0 : ('0' : Char).val.toNat = 48 := rfl
  have h9 : ('9' : Char).val.toNat = 57 := rfl
  have ha : ('a' : Char).val.toNat = 97 := rfl
  have hf : ('f' : Char).val.toNat = 102 := rfl
  have hA : ('A' : Char).val.toNat = 65 := rfl
  have hF : ('F' : Char).val.toNat = 70 := rfl
  show 0x21 ≤ c.val.toNat ∧ c.val.toNat ≤ 0x7E
  omega

theorem isHexDigit_of_isDigit {c : Char} (h : c.isDigit) : isHexDigit c := by
  simp [isHexDigit, h]

theorem isHexDigit_of_isOctalDigit {c : Char} (h : isOctalDigit c) : isHexDigit c := by
  refine isHexDigit_of_isDigit ?_
  simp only [isOctalDigit, Char.isDigit, Bool.and_eq_true, decide_eq_true_eq, Char.le_def,
    UInt32.le_iff_toNat_le, ge_iff_le] at h ⊢
  have h0 : ('0' : Char).val.toNat = 48 := rfl
  have h7 : ('7' : Char).val.toNat = 55 := rfl
  have h9 : ('9' : Char).val.toNat = 57 := rfl
  omega

theorem isHexDigit_of_isBinaryDigit {c : Char} (h : isBinaryDigit c) : isHexDigit c := by
  simp only [isBinaryDigit, Bool.or_eq_true, decide_eq_true_eq] at h
  obtain rfl | rfl := h <;> decide

theorem range_of_digitRun {isDigit : Char → Bool} (hdigit : ∀ c, isDigit c → isHexDigit c)
    (d : DigitRun isDigit) : ∀ c ∈ d.text, 0x21 ≤ c.toNat ∧ c.toNat ≤ 0x7E := by
  intro c hc
  obtain h | rfl := d.digit c hc
  · exact range_of_isHexDigit (hdigit c h)
  · decide

theorem range_of_intLit (i : IntLit) : ∀ c ∈ i.text, 0x21 ≤ c.toNat ∧ c.toNat ≤ 0x7E := by
  intro c hc
  cases i with
  | decimal sign d zero =>
    have hrun := range_of_digitRun (fun c => isHexDigit_of_isDigit) d c
    cases sign with
    | none => exact hrun hc
    | some sign =>
      cases sign with
      | plus =>
        obtain rfl | hc := List.mem_cons.mp hc
        · decide
        · exact hrun hc
      | minus =>
        obtain rfl | hc := List.mem_cons.mp hc
        · decide
        · exact hrun hc
  | hex d =>
    obtain rfl | hc := List.mem_cons.mp hc
    · decide
    obtain rfl | hc := List.mem_cons.mp hc
    · decide
    · exact range_of_digitRun (fun c h => h) d c hc
  | octal d =>
    obtain rfl | hc := List.mem_cons.mp hc
    · decide
    obtain rfl | hc := List.mem_cons.mp hc
    · decide
    · exact range_of_digitRun (fun c => isHexDigit_of_isOctalDigit) d c hc
  | binary d =>
    obtain rfl | hc := List.mem_cons.mp hc
    · decide
    obtain rfl | hc := List.mem_cons.mp hc
    · decide
    · exact range_of_digitRun (fun c => isHexDigit_of_isBinaryDigit) d c hc

theorem intLit_ne_nil (i : IntLit) : i.text ≠ [] := by
  cases i with
  | decimal sign d zero =>
    cases sign with
    | none =>
      intro hnil
      obtain ⟨c, hc, -⟩ := d.first
      rw [show d.text = [] from hnil] at hc
      cases hc
    | some sign => cases sign <;> exact List.cons_ne_nil _ _
  | hex d => exact List.cons_ne_nil _ _
  | octal d => exact List.cons_ne_nil _ _
  | binary d => exact List.cons_ne_nil _ _

/-- A text whose ends can be seen. -/
structure Visible (t : Text) : Prop where
  ne_nil : t ≠ []
  head : ∀ c, t.head? = some c → isWhitespace c = false
  last : ∀ c, t.getLast? = some c → isWhitespace c = false

theorem visible_string (lit : StringLit) : Visible lit.text where
  ne_nil := lit.text_ne_nil
  head := forall_of_eq_some lit.head?_text (mark_spec lit).1
  last := forall_of_eq_some lit.getLast?_text (mark_spec lit).1

theorem visible_brackets (t : Text) : Visible ('[' :: (t ++ [']'])) where
  ne_nil := List.cons_ne_nil _ _
  head := forall_of_eq_some rfl (by decide)
  last := by
    refine forall_of_eq_some ?_ (by decide : isWhitespace ']' = false)
    rw [← List.cons_append, List.getLast?_concat]

theorem visible_int (i : IntLit) : Visible i.text where
  ne_nil := intLit_ne_nil i
  head c hc := isWhitespace_of_range (range_of_intLit i c (List.mem_of_mem_head? hc))
  last c hc := isWhitespace_of_range (range_of_intLit i c (List.mem_of_getLast? hc))

def isKeyChar (c : Char) : Bool := c.isAlpha || c = '_'

theorem isKeyChar_key (f : Field) : ∀ c ∈ f.key, isKeyChar c = true := by
  refine List.all_eq_true.mp ?_
  cases f <;> rfl

theorem key_injective {f g : Field} (h : f.key = g.key) : f = g := by
  cases f <;> cases g <;> first | rfl | exact absurd h (by decide)

theorem afterPrefix_key (f g : Field) {x : Text} (hx : ∀ c, x.head? = some c → isKeyChar c = false) :
    afterPrefix (g.key ++ " = ".toList) (f.key ++ x) =
      if f = g then afterPrefix " = ".toList x else none := by
  have htake : ∀ (k : Field) {u : Text}, (∀ c, u.head? = some c → isKeyChar c = false) →
      (k.key ++ u).takeWhile isKeyChar = k.key := by
    intro k u hu
    rw [List.takeWhile_append_of_pos (isKeyChar_key k)]
    cases u with
    | nil => exact List.append_nil _
    | cons c u =>
      rw [List.takeWhile_cons_of_neg (by rw [hu c rfl]; exact Bool.false_ne_true), List.append_nil]
  split
  · next heq =>
    rw [← heq, afterPrefix, afterPrefix, List.length_append, ← List.drop_drop, List.drop_left]
    simp only [List.prefix_append_right_inj]
  · next hne =>
    refine if_neg fun hpre => hne ?_
    obtain ⟨u, hu⟩ := hpre
    have hspace : ∀ c, (" = ".toList ++ u).head? = some c → isKeyChar c = false := by
      intro c hc
      rw [← Option.some.inj hc]
      decide
    have hkeys := congrArg (List.takeWhile isKeyChar) hu
    rw [List.append_assoc, htake g hspace, htake f hx] at hkeys
    exact key_injective hkeys.symm

def Field.set (f : Field) (value : Text) (task : TaskNode) : TaskNode :=
  match f with
  | id => { task with id := unquote value }
  | title => { task with title := unquote value }
  | description => { task with description := unquote value }
  | deps => { task with deps := listItems value }
  | modelTier => { task with modelTier := parseTier (unquote value) }
  | toolBudget => { task with toolBudget := ((parseU32 value).map UInt32.toNat).getD 20 }
  | filesHint => { task with filesHint := listItems value }

theorem readField_key (f : Field) {x : Text} (hx : ∀ c, x.head? = some c → isKeyChar c = false)
    (task : TaskNode) :
    readField (f.key ++ x) task =
      match afterPrefix " = ".toList x with
      | none => task
      | some value => f.set value task := by
  have hkey := fun g => afterPrefix_key f g hx
  have h1 : afterPrefix "id = ".toList (f.key ++ x) = _ := hkey .id
  have h2 : afterPrefix "title = ".toList (f.key ++ x) = _ := hkey .title
  have h3 : afterPrefix "description = ".toList (f.key ++ x) = _ := hkey .description
  have h4 : afterPrefix "model_tier = ".toList (f.key ++ x) = _ := hkey .modelTier
  have h5 : afterPrefix "tool_budget = ".toList (f.key ++ x) = _ := hkey .toolBudget
  have h6 : afterPrefix "files_hint = ".toList (f.key ++ x) = _ := hkey .filesHint
  have h7 : afterPrefix "deps = ".toList (f.key ++ x) = _ := hkey .deps
  rw [readField, h1, h2, h3, h4, h5, h6, h7]
  cases f <;> cases afterPrefix " = ".toList x <;> rfl

theorem readField_other {x : Text} (hx : ∀ c, x.head? = some c → isKeyChar c = false)
    (task : TaskNode) : readField x task = task := by
  have hnone : ∀ f : Field, afterPrefix (f.key ++ " = ".toList) x = none := by
    intro f
    refine if_neg fun hpre => ?_
    obtain ⟨u, hu⟩ := hpre
    have hhead : ∃ c, f.key.head? = some c ∧ isKeyChar c = true := by
      cases f <;> exact ⟨_, rfl, by decide⟩
    obtain ⟨c, hc, hkey⟩ := hhead
    have hne : f.key ≠ [] := fun hnil => by
      rw [hnil] at hc
      cases hc
    have hxc : x.head? = some c := by
      rw [← hu, List.append_assoc, List.head?_append_of_ne_nil _ hne, hc]
    rw [hx c hxc] at hkey
    cases hkey
  have h1 : afterPrefix "id = ".toList x = none := hnone .id
  have h2 : afterPrefix "title = ".toList x = none := hnone .title
  have h3 : afterPrefix "description = ".toList x = none := hnone .description
  have h4 : afterPrefix "model_tier = ".toList x = none := hnone .modelTier
  have h5 : afterPrefix "tool_budget = ".toList x = none := hnone .toolBudget
  have h6 : afterPrefix "files_hint = ".toList x = none := hnone .filesHint
  have h7 : afterPrefix "deps = ".toList x = none := hnone .deps
  rw [readField, h1, h2, h3, h4, h5, h6, h7]

def KeyValue.rest {α : Type} (e : KeyValue α) (text : Text) : Text :=
  e.left.1 ++ '=' :: (e.right.1 ++ (text ++ tailRead e.tail))

namespace KeyValue

variable {α : Type} (e : KeyValue α)

theorem head?_rest (text : Text) : ∀ c, (e.rest text).head? = some c → isKeyChar c = false := by
  intro c hc
  rw [rest] at hc
  by_cases hleft : e.left.1 = []
  · rw [hleft] at hc
    rw [← Option.some.inj hc]
    decide
  · rw [List.head?_append_of_ne_nil _ hleft] at hc
    obtain rfl | rfl := isBlank_cases (e.left.2 c (List.mem_of_mem_head? hc)) <;> decide

theorem trim_line {key text : Text} (hkey : key ≠ [])
    (hhead : ∀ c, key.head? = some c → isWhitespace c = false) (htext : Visible text) :
    trim (e.line key text) = key ++ e.rest text := by
  have hne : key ++ (e.left.1 ++ '=' :: (e.right.1 ++ text)) ≠ [] :=
    List.append_ne_nil_of_left_ne_nil hkey _
  have htrim := Mowis.Planning.trim_line hne (fun c hc => ?_) (fun c hc => ?_) e.indent e.tail
  · rw [line, rest]
    simpa only [List.append_assoc, List.cons_append] using htrim
  · rw [List.head?_append_of_ne_nil _ hkey] at hc
    exact hhead c hc
  · have hright : e.right.1 ++ text ≠ [] := List.append_ne_nil_of_right_ne_nil _ htext.ne_nil
    rw [List.getLast?_append_of_ne_nil _ (List.append_ne_nil_of_right_ne_nil _ (List.cons_ne_nil _ _)),
      List.getLast?_append_of_ne_nil _ (List.cons_ne_nil _ _), List.getLast?_cons_of_ne_nil hright,
      List.getLast?_append_of_ne_nil _ htext.ne_nil] at hc
    exact htext.last c hc

theorem afterPrefix_rest {text : Text} (htext : Visible text) :
    (e.Seen ∧ afterPrefix " = ".toList (e.rest text) =
        some (e.right.1.tail ++ (text ++ tailRead e.tail))) ∨
      (¬ e.Seen ∧ afterPrefix " = ".toList (e.rest text) = none) := by
  have hno : ∀ {x : Text}, ¬ [' ', '=', ' '] <+: x → afterPrefix " = ".toList x = none :=
    fun h => if_neg h
  have hblank : ∀ {b : Blank} {c : Char} {r : Text}, b.1 = c :: r → c ≠ '=' := by
    intro b c r hb heq
    have hc := b.2 c (by rw [hb]; exact List.mem_cons_self)
    rw [heq] at hc
    exact absurd hc (by decide)
  rw [rest, Seen]
  cases hleft : e.left.1 with
  | nil =>
    refine .inr ⟨fun h => absurd h.1 (by simp), hno fun hpre => ?_⟩
    exact absurd (List.cons_prefix_cons.mp hpre).1 (by decide)
  | cons c l =>
    cases l with
    | cons d l =>
      refine .inr ⟨fun h => absurd h.1 (by simp), hno fun hpre => ?_⟩
      have hd := e.left.2 d (by rw [hleft]; simp)
      have heq := (List.cons_prefix_cons.mp (List.cons_prefix_cons.mp hpre).2).1
      rw [← heq] at hd
      exact absurd hd (by decide)
    | nil =>
      by_cases hc : c = ' '
      · cases hright : e.right.1 with
        | nil =>
          refine .inr ⟨fun h => absurd h.2 (by simp), hno fun hpre => ?_⟩
          have hpre' : [' '] <+: text ++ tailRead e.tail :=
            (List.cons_prefix_cons.mp (List.cons_prefix_cons.mp hpre).2).2
          obtain ⟨u, hu⟩ := hpre'
          have hhead : (text ++ tailRead e.tail).head? = text.head? :=
            List.head?_append_of_ne_nil text htext.ne_nil
          rw [← hu] at hhead
          have hhead : text.head? = some ' ' := hhead.symm
          exact absurd (htext.head ' ' hhead) (by decide)
        | cons d r =>
          by_cases hd : d = ' '
          · refine .inl ⟨⟨by rw [hc], by rw [hd]; rfl⟩, ?_⟩
            rw [hc, hd]
            exact afterPrefix_append " = ".toList _
          · refine .inr ⟨fun h => hd (Option.some.inj h.2), hno fun hpre => hd ?_⟩
            exact (List.cons_prefix_cons.mp (List.cons_prefix_cons.mp
              (List.cons_prefix_cons.mp hpre).2).2).1.symm
      · refine .inr ⟨fun h => hc (List.cons.inj h.1).1, hno fun hpre => hc ?_⟩
        exact (List.cons_prefix_cons.mp hpre).1.symm

end KeyValue

theorem key_visible (f : Field) : f.key ≠ [] ∧ ∀ c, f.key.head? = some c → isWhitespace c = false := by
  refine ⟨by cases f <;> exact List.cons_ne_nil _ _, fun c hc => ?_⟩
  cases f <;> (rw [← Option.some.inj hc]; decide)

namespace WrittenTask

variable (t : WrittenTask)

def rest : Field → Text
  | .id => t.id.rest t.id.value.text
  | .title => t.title.rest t.title.value.text
  | .description => t.description.rest t.description.value.text
  | .deps => t.deps.rest t.deps.value.text
  | .modelTier => t.modelTier.rest t.modelTier.value.text
  | .toolBudget => t.toolBudget.rest t.toolBudget.value.text
  | .filesHint => t.filesHint.rest t.filesHint.value.text

theorem trim_fieldLine (f : Field) : trim (t.fieldLine f) = f.key ++ t.rest f := by
  obtain ⟨hne, hhead⟩ := key_visible f
  cases f with
  | id => exact KeyValue.trim_line _ hne hhead (visible_string _)
  | title => exact KeyValue.trim_line _ hne hhead (visible_string _)
  | description => exact KeyValue.trim_line _ hne hhead (visible_string _)
  | deps => exact KeyValue.trim_line _ hne hhead (visible_brackets _)
  | modelTier => exact KeyValue.trim_line _ hne hhead (visible_string _)
  | toolBudget => exact KeyValue.trim_line _ hne hhead (visible_int _)
  | filesHint => exact KeyValue.trim_line _ hne hhead (visible_brackets _)

theorem head?_rest (f : Field) : ∀ c, (t.rest f).head? = some c → isKeyChar c = false := by
  cases f <;> exact KeyValue.head?_rest _ _

def update (x : Tail ⊕ Field) (task : TaskNode) : TaskNode :=
  match x with
  | .inl _ => task
  | .inr f =>
    match afterPrefix " = ".toList (t.rest f) with
    | none => task
    | some value => f.set value task

theorem readField_layoutLine (x : Tail ⊕ Field) (task : TaskNode) :
    readField (trim (t.layoutLine x)) task = t.update x task := by
  cases x with
  | inr f =>
    show readField (trim (t.fieldLine f)) task = _
    rw [trim_fieldLine, readField_key f (t.head?_rest f)]
    rfl
  | inl filler =>
    refine readField_other (fun c hc => ?_) task
    obtain hnil | ⟨r, hr⟩ := trim_tail filler
    · rw [show trim (t.layoutLine (.inl filler)) = [] from hnil] at hc
      cases hc
    · rw [show trim (t.layoutLine (.inl filler)) = '#' :: r from hr] at hc
      rw [← Option.some.inj hc]
      decide

theorem not_header (x : Tail ⊕ Field) : ¬ (trim (t.layoutLine x) = "[[task]]".toList ∨
    trim (t.layoutLine x) = "[[tasks]]".toList) := by
  have hhead : (trim (t.layoutLine x)).head? ≠ some '[' := by
    cases x with
    | inr f =>
      obtain ⟨hne, -⟩ := key_visible f
      show (trim (t.fieldLine f)).head? ≠ some '['
      rw [trim_fieldLine, List.head?_append_of_ne_nil _ hne]
      cases f <;> decide
    | inl filler =>
      obtain hnil | ⟨r, hr⟩ := trim_tail filler
      · rw [show trim (t.layoutLine (.inl filler)) = [] from hnil]
        exact fun h => absurd h (by simp)
      · rw [show trim (t.layoutLine (.inl filler)) = '#' :: r from hr]
        exact fun h => absurd (Option.some.inj h) (by decide)
  rintro (h | h)
  · exact hhead (by rw [h]; rfl)
  · exact hhead (by rw [h]; rfl)

def parsed : TaskNode := t.layout.foldl (fun task x => t.update x task) ⟨"", "", "", [], .fast, 8, []⟩

theorem foldl_layout (s : Extraction) (hin : s.inTask = true) (xs : List (Tail ⊕ Field)) :
    (xs.map t.layoutLine).foldl Extraction.line s =
      { s with current := xs.foldl (fun task x => t.update x task) s.current } := by
  induction xs generalizing s with
  | nil => rfl
  | cons x xs ih =>
    have hline : s.line (t.layoutLine x) = { s with current := t.update x s.current } := by
      rw [Extraction.line, if_neg (t.not_header x), if_pos hin, readField_layoutLine]
    rw [List.map_cons, List.foldl_cons, hline]
    exact ih { s with current := t.update x s.current } hin

section fields

variable {β : Type} {g : TaskNode → β} {f : Field} {read : Text → β}

theorem update_other (hset : ∀ f' v task, g (f'.set v task) = if f' = f then read v else g task)
    {x : Tail ⊕ Field} (hx : x ≠ .inr f) (task : TaskNode) : g (t.update x task) = g task := by
  cases x with
  | inl filler => rfl
  | inr f' =>
    have hne : f' ≠ f := fun heq => hx (by rw [heq])
    unfold update
    simp only
    cases afterPrefix " = ".toList (t.rest f') with
    | none => rfl
    | some v => exact (hset f' v task).trans (if_neg hne)

theorem foldl_update_other
    (hset : ∀ f' v task, g (f'.set v task) = if f' = f then read v else g task)
    {xs : List (Tail ⊕ Field)} (hxs : Sum.inr f ∉ xs) (task : TaskNode) :
    g (xs.foldl (fun task x => t.update x task) task) = g task := by
  induction xs generalizing task with
  | nil => rfl
  | cons x xs ih =>
    rw [List.mem_cons, not_or] at hxs
    rw [List.foldl_cons, ih hxs.2, t.update_other hset (Ne.symm hxs.1)]

theorem foldl_update (hset : ∀ f' v task, g (f'.set v task) = if f' = f then read v else g task)
    {xs : List (Tail ⊕ Field)} (hxs : Sum.inr f ∈ xs) (task : TaskNode) :
    g (xs.foldl (fun task x => t.update x task) task) =
      ((afterPrefix " = ".toList (t.rest f)).map read).getD (g task) := by
  have hown : ∀ task, g (t.update (.inr f) task) =
      ((afterPrefix " = ".toList (t.rest f)).map read).getD (g task) := by
    intro task
    unfold update
    simp only
    cases afterPrefix " = ".toList (t.rest f) with
    | none => rfl
    | some v => exact (hset f v task).trans (if_pos rfl)
  induction xs generalizing task with
  | nil => exact absurd hxs List.not_mem_nil
  | cons x xs ih =>
    rw [List.foldl_cons]
    by_cases hmem : Sum.inr f ∈ xs
    · rw [ih hmem]
      by_cases hx : x = .inr f
      · rw [hx, hown]
        cases afterPrefix " = ".toList (t.rest f) <;> rfl
      · rw [t.update_other hset hx]
    · have hx : x = .inr f := ((List.mem_cons.mp hxs).resolve_right hmem).symm
      rw [t.foldl_update_other hset hmem, hx, hown]

end fields

theorem mem_layout (f : Field) : Sum.inr f ∈ t.layout := by
  have hall : f ∈ Field.all := by cases f <;> decide
  obtain ⟨x, hx, hf⟩ := List.mem_filterMap.mp (t.complete.mem_iff.mpr hall)
  cases x with
  | inl filler => cases hf
  | inr f' =>
    rw [← Option.some.inj hf]
    exact hx

theorem parsed_eq : t.parsed =
    { id := ((afterPrefix " = ".toList (t.rest .id)).map unquote).getD ""
      title := ((afterPrefix " = ".toList (t.rest .title)).map unquote).getD ""
      description := ((afterPrefix " = ".toList (t.rest .description)).map unquote).getD ""
      deps := ((afterPrefix " = ".toList (t.rest .deps)).map listItems).getD []
      modelTier := ((afterPrefix " = ".toList (t.rest .modelTier)).map
        fun v => parseTier (unquote v)).getD .fast
      toolBudget := ((afterPrefix " = ".toList (t.rest .toolBudget)).map
        fun v => ((parseU32 v).map UInt32.toNat).getD 20).getD 8
      filesHint := ((afterPrefix " = ".toList (t.rest .filesHint)).map listItems).getD [] } := by
  have hfield : ∀ {β : Type} (g : TaskNode → β) (f : Field) (read : Text → β),
      (∀ f' v task, g (f'.set v task) = if f' = f then read v else g task) →
      g t.parsed = ((afterPrefix " = ".toList (t.rest f)).map read).getD
        (g ⟨"", "", "", [], .fast, 8, []⟩) :=
    fun g f read hset => t.foldl_update hset (t.mem_layout f) _
  have hid := hfield TaskNode.id .id unquote (by intro f' v task; cases f' <;> rfl)
  have htitle := hfield TaskNode.title .title unquote (by intro f' v task; cases f' <;> rfl)
  have hdescription := hfield TaskNode.description .description unquote
    (by intro f' v task; cases f' <;> rfl)
  have hdeps := hfield TaskNode.deps .deps listItems (by intro f' v task; cases f' <;> rfl)
  have htier := hfield TaskNode.modelTier .modelTier (fun v => parseTier (unquote v))
    (by intro f' v task; cases f' <;> rfl)
  have hbudget := hfield TaskNode.toolBudget .toolBudget
    (fun v => ((parseU32 v).map UInt32.toNat).getD 20) (by intro f' v task; cases f' <;> rfl)
  have hhint := hfield TaskNode.filesHint .filesHint listItems
    (by intro f' v task; cases f' <;> rfl)
  rw [← hid, ← htitle, ← hdescription, ← hdeps, ← htier, ← hbudget, ← hhint]

end WrittenTask

namespace KeyValue

variable {α : Type} {e : KeyValue α}

theorem Alone.seen (h : e.Alone) : e.Seen := ⟨h.1, by rw [h.2.1]; rfl⟩

theorem Seen.alone_iff_nil (h : e.Seen) : e.Alone ↔ e.right.1.tail = [] ∧ tailRead e.tail = [] := by
  rw [tailRead_eq_nil_iff]
  obtain ⟨r, hr⟩ := List.head?_eq_some_iff.mp h.2
  constructor
  · intro halone
    exact ⟨by rw [halone.2.1]; rfl, halone.2.2⟩
  · intro hnone
    rw [hr, List.tail_cons] at hnone
    exact ⟨h.1, by rw [hr, hnone.1], hnone.2⟩

end KeyValue

theorem ofList_injective {s t : Text} : String.ofList s = String.ofList t ↔ s = t := by
  constructor
  · intro h
    have hlist := congrArg String.toList h
    rwa [String.toList_ofList, String.toList_ofList] at hlist
  · intro h
    rw [h]

theorem tail_blank {α : Type} (e : KeyValue α) : ∀ c ∈ e.right.1.tail, isBlank c :=
  fun c hc => e.right.2 c (List.mem_of_mem_tail hc)

theorem textRead_iff (e : KeyValue StringLit) :
    ((afterPrefix " = ".toList (e.rest e.value.text)).map unquote).getD "" =
      String.ofList e.value.value ↔ TextRead e := by
  obtain ⟨hseen, hrest⟩ | ⟨hseen, hrest⟩ := e.afterPrefix_rest (visible_string e.value)
  · rw [hrest, Option.map_some, Option.getD_some, unquote_eq, ofList_injective,
      unquote_eq_iff e.value (tail_blank e) (tailRead_spec e.tail), ← and_assoc,
      ← hseen.alone_iff_nil, TextRead, or_iff_left fun h => h.1 hseen]
  · rw [hrest, Option.map_none, Option.getD_none, TextRead,
      or_iff_right fun h => hseen h.1.seen, and_iff_right hseen, eq_comm]
    exact ofList_eq_empty_iff e.value.value

theorem itemsRead_iff (e : KeyValue ArrayLit) :
    ((afterPrefix " = ".toList (e.rest e.value.text)).map listItems).getD [] =
      e.value.values.map String.ofList ↔ ItemsRead e := by
  have hinj : Function.Injective String.ofList := fun s t h => ofList_injective.mp h
  obtain ⟨hseen, hrest⟩ | ⟨hseen, hrest⟩ := e.afterPrefix_rest (visible_brackets e.value.inside)
  · have hright : e.right.1 = [' '] ↔ e.right.1.tail = [] := by
      obtain ⟨r, hr⟩ := List.head?_eq_some_iff.mp hseen.2
      rw [hr, List.tail_cons]
      simp
    rw [show e.rest e.value.text = e.rest ('[' :: (e.value.inside ++ [']'])) from rfl, hrest,
      Option.map_some, Option.getD_some, listItems_eq, (List.map_injective_iff.mpr hinj).eq_iff]
    have hlist := listTexts_eq_iff e.value (tail_blank e) (tailRead_spec e.tail)
    refine hlist.trans ?_
    rw [ListRead, ItemsRead, hseen.alone_iff_nil, hright, ← tailRead_eq_nil_iff]
    constructor
    · intro h
      obtain ⟨htail, ⟨hall, hplace⟩ | ⟨hfront, hitems⟩⟩ := h
      · exact .inr ⟨hall, fun _ => ⟨htail, hplace⟩⟩
      · exact .inl ⟨⟨hfront, htail⟩, hitems⟩
    · intro h
      obtain ⟨⟨hfront, htail⟩, hitems⟩ | ⟨hall, hplace⟩ := h
      · exact ⟨htail, .inr ⟨hfront, hitems⟩⟩
      · exact ⟨(hplace hseen).1, .inl ⟨hall, (hplace hseen).2⟩⟩
  · rw [show e.rest e.value.text = e.rest ('[' :: (e.value.inside ++ [']'])) from rfl, hrest,
      Option.map_none, Option.getD_none, ItemsRead, or_iff_right fun h => hseen h.1.seen,
      and_iff_left fun h => absurd h hseen, eq_comm, List.map_eq_nil_iff, ArrayLit.values,
      List.map_eq_nil_iff]

theorem budgetRead_iff (e : KeyValue IntLit) {budget : ℕ} (hvalue : e.value.value = budget)
    (hsmall : budget < 2 ^ 32) :
    ((afterPrefix " = ".toList (e.rest e.value.text)).map
      fun v => ((parseU32 v).map UInt32.toNat).getD 20).getD 8 = budget ↔ BudgetRead e budget := by
  obtain ⟨hseen, hrest⟩ | ⟨hseen, hrest⟩ := e.afterPrefix_rest (visible_int e.value)
  · rw [hrest, Option.map_some, Option.getD_some, BudgetRead, and_iff_right hseen,
      or_iff_left (b := ¬ e.Seen ∧ budget = 8) fun h => h.1 hseen]
    by_cases hbare : e.Alone ∧ e.value.Bare
    · obtain ⟨hfront, htail⟩ := hseen.alone_iff_nil.mp hbare.1
      have hnat : (UInt32.ofNat budget).toNat = budget := UInt32.toNat_ofNat_of_lt hsmall
      rw [hfront, htail, List.nil_append, List.append_nil, parseU32_bare hbare.2 hsmall hvalue]
      exact iff_of_true hnat (.inl hbare)
    · have hnot : ¬ (e.right.1.tail = [] ∧ tailRead e.tail = [] ∧ e.value.Bare) := by
        rw [← and_assoc, ← hseen.alone_iff_nil]
        exact hbare
      rw [parseU32_not_bare (tail_blank e) (tailRead_spec e.tail) hnot, or_iff_right hbare]
      exact eq_comm
  · rw [hrest, Option.map_none, Option.getD_none, BudgetRead, or_iff_right fun h => hseen h.1.seen,
      or_iff_right fun h => hseen h.1, and_iff_right hseen]
    exact eq_comm

namespace WrittenTask

variable (t : WrittenTask)

/-- **One task.**  It is read as it is written, and is kept, exactly under these conditions. -/
theorem parsed_iff : (t.parsed = t.task ∧ t.task.id ≠ "") ↔
    (t.id.Alone ∧ Exact t.id.value ∧ t.id.value.value ≠ []) ∧ TextRead t.title ∧
      TextRead t.description ∧ ItemsRead t.deps ∧ t.tier = .fast ∧
      BudgetRead t.toolBudget t.budget ∧ ItemsRead t.filesHint := by
  have htier : ((afterPrefix " = ".toList (t.rest .modelTier)).map
      fun v => parseTier (unquote v)).getD .fast = .fast := by
    obtain ⟨-, hrest⟩ | ⟨-, hrest⟩ := t.modelTier.afterPrefix_rest (visible_string t.modelTier.value)
    · rw [rest, hrest]
      exact parseTier_fast t.tier_value _ _
    · rw [rest, hrest]
      rfl
  have hid : TextRead t.id ∧ t.task.id ≠ "" ↔
      t.id.Alone ∧ Exact t.id.value ∧ t.id.value.value ≠ [] := by
    have hempty : t.task.id = "" ↔ t.id.value.value = [] := ofList_eq_empty_iff t.id.value.value
    rw [Ne, hempty, TextRead]
    constructor
    · intro h
      obtain ⟨h | h, hne⟩ := h
      · exact ⟨h.1, h.2, hne⟩
      · exact absurd h.2 hne
    · intro h
      exact ⟨.inl ⟨h.1, h.2.1⟩, h.2.2⟩
  have hparsed : t.parsed = t.task ↔ TextRead t.id ∧ TextRead t.title ∧ TextRead t.description ∧
      ItemsRead t.deps ∧ t.tier = .fast ∧ BudgetRead t.toolBudget t.budget ∧
        ItemsRead t.filesHint := by
    rw [parsed_eq, task, TaskNode.mk.injEq, htier]
    exact and_congr (textRead_iff t.id) (and_congr (textRead_iff t.title)
      (and_congr (textRead_iff t.description) (and_congr (itemsRead_iff t.deps)
        (and_congr eq_comm (and_congr (budgetRead_iff t.toolBudget t.budget_value t.budget_small)
          (itemsRead_iff t.filesHint))))))
  rw [hparsed, and_right_comm, hid]

end WrittenTask

namespace Header

variable (h : Header)

theorem trim_line : trim h.line = '[' :: '[' :: (h.left.1 ++ ("tasks".toList ++ (h.right.1 ++
    (']' :: ']' :: tailRead h.tail)))) := by
  have hbrackets := visible_brackets ('[' :: (h.left.1 ++ ("tasks".toList ++ (h.right.1 ++ [']']))))
  have htrim := Mowis.Planning.trim_line hbrackets.ne_nil hbrackets.head hbrackets.last h.indent h.tail
  rw [line]
  simpa only [List.append_assoc, List.cons_append, List.nil_append] using htrim

theorem trim_line_iff :
    trim h.line = "[[task]]".toList ∨ trim h.line = "[[tasks]]".toList ↔ h.Bare := by
  have hlen : (trim h.line).length =
      h.left.1.length + h.right.1.length + (tailRead h.tail).length + 9 := by
    rw [trim_line]
    simp only [List.length_cons, List.length_append, String.length_toList]
    show _ + (5 + _) + 1 + 1 = _
    omega
  rw [Bare, ← tailRead_eq_nil_iff]
  constructor
  · intro hline
    have hnine : (trim h.line).length ≤ 9 := by
      obtain hline | hline := hline
      · rw [hline]
        decide
      · rw [hline]
        decide
    have hnil : h.left.1.length = 0 ∧ h.right.1.length = 0 ∧ (tailRead h.tail).length = 0 := by
      omega
    exact ⟨List.length_eq_zero_iff.mp hnil.1, List.length_eq_zero_iff.mp hnil.2.1,
      List.length_eq_zero_iff.mp hnil.2.2⟩
  · intro hnil
    obtain ⟨hleft, hright, htail⟩ := hnil
    right
    rw [trim_line, hleft, hright, htail]
    rfl

theorem line_bare (hbare : h.Bare) (s : Extraction) :
    s.line h.line = ⟨s.closed, true, ⟨"", "", "", [], .fast, 8, []⟩⟩ :=
  if_pos (h.trim_line_iff.mpr hbare)

theorem line_other (hbare : ¬ h.Bare) (s : Extraction) : s.line h.line = s := by
  rw [Extraction.line, if_neg fun hline => hbare (h.trim_line_iff.mp hline), readField_other]
  · split <;> rfl
  · intro c hc
    rw [trim_line] at hc
    rw [← Option.some.inj hc]
    decide

end Header

theorem line_congr {l l' : Text} (h : trim l = trim l') (s : Extraction) : s.line l = s.line l' := by
  rw [Extraction.line, Extraction.line, h]

theorem foldl_line_map {g : Text → Text} (hg : ∀ l, trim (g l) = trim l) (ls : List Text)
    (s : Extraction) : (ls.map g).foldl Extraction.line s = ls.foldl Extraction.line s := by
  rw [List.foldl_map]
  congr 1
  funext s l
  exact line_congr (hg l) s

theorem foldl_outside {ls : List Text}
    (hls : ∀ l ∈ ls, ¬ (trim l = "[[task]]".toList ∨ trim l = "[[tasks]]".toList)) {s : Extraction}
    (hout : s.inTask = false) : ls.foldl Extraction.line s = s := by
  induction ls with
  | nil => rfl
  | cons l ls ih =>
    have hline : s.line l = s := by
      rw [Extraction.line, if_neg (hls l List.mem_cons_self), if_neg (by rw [hout]; decide)]
    rw [List.foldl_cons, hline]
    exact ih fun l' hl' => hls l' (List.mem_cons_of_mem l hl')

theorem tail_not_header (t : Tail) :
    ¬ (trim t.text = "[[task]]".toList ∨ trim t.text = "[[tasks]]".toList) := by
  obtain h | ⟨r, h⟩ := trim_tail t
  · rw [h]
    decide
  · rw [h]
    simp

namespace WrittenTask

theorem closed_foldl_bare {tasks : List WrittenTask} (hbare : ∀ t ∈ tasks, t.header.Bare)
    (s : Extraction) : ((tasks.flatMap lines).foldl Extraction.line s).closed =
      s.closed ++ (tasks.map parsed).filter fun task => task.id ≠ "" := by
  induction tasks generalizing s with
  | nil => exact (List.append_nil _).symm
  | cons t tasks ih =>
    have hrun : t.lines.foldl Extraction.line s = ⟨s.closed, true, t.parsed⟩ := by
      rw [lines, List.foldl_cons, t.header.line_bare (hbare t List.mem_cons_self),
        t.foldl_layout _ rfl]
      rfl
    have hclosed : (⟨s.closed, true, t.parsed⟩ : Extraction).closed =
        s.closed ++ [t.parsed].filter fun task => task.id ≠ "" := by
      unfold Extraction.closed
      by_cases hid : t.parsed.id = ""
      · simp [hid]
      · simp [hid]
    rw [List.flatMap_cons, List.foldl_append, hrun,
      ih (fun t' ht' => hbare t' (List.mem_cons_of_mem t ht')), hclosed, List.append_assoc,
      ← List.filter_append, List.singleton_append, List.map_cons]

def weight (s : Extraction) : ℕ := s.tasks.length + if s.inTask then 1 else 0

theorem length_closed_le (s : Extraction) : s.closed.length ≤ weight s := by
  unfold Extraction.closed weight
  cases s.inTask with
  | false => simp
  | true =>
    simp only [Bool.true_and]
    split <;> simp

theorem weight_layout (t : WrittenTask) (s : Extraction) :
    weight ((t.layout.map t.layoutLine).foldl Extraction.line s) = weight s := by
  cases hin : s.inTask with
  | true => rw [t.foldl_layout s hin, weight, weight]
  | false =>
    rw [foldl_outside (fun l hl => ?_) hin]
    obtain ⟨x, -, rfl⟩ := List.mem_map.mp hl
    exact t.not_header x

theorem weight_foldl (tasks : List WrittenTask) (s : Extraction) :
    weight ((tasks.flatMap lines).foldl Extraction.line s) ≤ weight s + tasks.length ∧
      ((∃ t ∈ tasks, ¬ t.header.Bare) →
        weight ((tasks.flatMap lines).foldl Extraction.line s) < weight s + tasks.length) := by
  induction tasks generalizing s with
  | nil => exact ⟨Nat.le_refl _, fun h => absurd h (by simp)⟩
  | cons t tasks ih =>
    have hrun : ((t :: tasks).flatMap lines).foldl Extraction.line s =
        (tasks.flatMap lines).foldl Extraction.line
          ((t.layout.map t.layoutLine).foldl Extraction.line (s.line t.header.line)) := by
      rw [List.flatMap_cons, List.foldl_append]
      rfl
    have hlayout := t.weight_layout (s.line t.header.line)
    obtain ⟨hle, hlt⟩ := ih ((t.layout.map t.layoutLine).foldl Extraction.line (s.line t.header.line))
    rw [hrun, List.length_cons]
    by_cases hbare : t.header.Bare
    · have hheader : weight (s.line t.header.line) ≤ weight s + 1 := by
        rw [t.header.line_bare hbare]
        exact Nat.add_le_add_right (length_closed_le s) 1
      refine ⟨by omega, fun hsome => ?_⟩
      obtain ⟨t', ht', hother⟩ := hsome
      have hne : t' ≠ t := fun heq => hother (heq ▸ hbare)
      have hrest := hlt ⟨t', (List.mem_cons.mp ht').resolve_left hne, hother⟩
      omega
    · have hheader : s.line t.header.line = s := t.header.line_other hbare s
      rw [hheader] at hlayout hle ⊢
      exact ⟨by omega, fun _ => by omega⟩

end WrittenTask

theorem notMem_of_range {t : Text} (h : ∀ c ∈ t, 0x21 ≤ c.toNat ∧ c.toNat ≤ 0x7E) : '\n' ∉ t :=
  fun hc => absurd (h _ hc).1 (by decide)

theorem notMem_blank (b : Blank) : '\n' ∉ b.1 := fun hc => absurd (b.2 _ hc) (by decide)

theorem notMem_tail (t : Tail) : '\n' ∉ t.text := by
  unfold Tail.text
  cases t.comment with
  | none => simp [notMem_blank]
  | some c =>
    have hc : '\n' ∉ c.1 := fun h => absurd (c.2 _ h) (by decide)
    simp [notMem_blank, hc]

theorem notMem_arrayItem (i : ArrayItem) : '\n' ∉ i.text := by
  simp [ArrayItem.text, notMem_blank, i.lit.notMem_text]

theorem notMem_array (a : ArrayLit) : '\n' ∉ a.text := by
  simp [ArrayLit.text, ArrayLit.inside, notMem_blank, notMem_arrayItem]

theorem notMem_entry {α : Type} (e : KeyValue α) {key text : Text} (hkey : '\n' ∉ key)
    (htext : '\n' ∉ text) : '\n' ∉ e.line key text := by
  simp [KeyValue.line, notMem_blank, notMem_tail, hkey, htext]

theorem notMem_header (h : Header) : '\n' ∉ h.line := by
  simp [Header.line, notMem_blank, notMem_tail]

theorem notMem_key (f : Field) : '\n' ∉ f.key := by cases f <;> decide

namespace WrittenTask

theorem notMem_fieldLine (t : WrittenTask) (f : Field) : '\n' ∉ t.fieldLine f := by
  have hkey := notMem_key f
  cases f with
  | id => exact notMem_entry _ hkey (StringLit.notMem_text _)
  | title => exact notMem_entry _ hkey (StringLit.notMem_text _)
  | description => exact notMem_entry _ hkey (StringLit.notMem_text _)
  | deps => exact notMem_entry _ hkey (notMem_array _)
  | modelTier => exact notMem_entry _ hkey (StringLit.notMem_text _)
  | toolBudget => exact notMem_entry _ hkey (notMem_of_range (range_of_intLit _))
  | filesHint => exact notMem_entry _ hkey (notMem_array _)

theorem notMem_lines (t : WrittenTask) : ∀ l ∈ t.lines, '\n' ∉ l := by
  intro l hl
  obtain rfl | hl := List.mem_cons.mp hl
  · exact notMem_header t.header
  · obtain ⟨x, -, rfl⟩ := List.mem_map.mp hl
    cases x with
    | inl filler => exact notMem_tail filler
    | inr f => exact t.notMem_fieldLine f

end WrittenTask

/-! ### Agreement -/

namespace WrittenPlan

variable (p : WrittenPlan)

theorem notMem_bodyLines (body : List WrittenTask ⊕ (KeyValue Blank × List Tail)) :
    ∀ l ∈ bodyLines body, '\n' ∉ l := by
  intro l hl
  cases body with
  | inl tasks =>
    obtain ⟨t, -, hl⟩ := List.mem_flatMap.mp hl
    exact t.notMem_lines l hl
  | inr empty =>
    obtain rfl | hl := List.mem_cons.mp hl
    · refine notMem_entry empty.1 (by decide) ?_
      simp [notMem_blank]
    · obtain ⟨filler, -, rfl⟩ := List.mem_map.mp hl
      exact notMem_tail filler

theorem notMem_lines : ∀ l ∈ p.lines, '\n' ∉ l := by
  intro l hl
  obtain hl | hl := List.mem_append.mp hl
  · obtain ⟨filler, -, rfl⟩ := List.mem_map.mp hl
    exact notMem_tail filler
  · exact notMem_bodyLines p.body l hl

theorem extract_eq : extractTasksFromText (String.ofList p.text) =
    ((bodyLines p.body).foldl Extraction.line .start).closed := by
  have hend : ∀ l : Text, trim (dropCR (l ++ if p.crlf then ['\r'] else [])) = trim l := by
    intro l
    cases p.crlf with
    | false =>
      rw [if_neg Bool.false_ne_true, List.append_nil]
      exact trim_dropCR l
    | true =>
      rw [if_pos rfl, dropCR, if_pos List.getLast?_concat, List.dropLast_concat]
  have hlines : Mowis.Lib.lines p.text =
      p.lines.map fun l => dropCR (l ++ if p.crlf then ['\r'] else []) := by
    have htext : p.text = (p.lines.map fun l => l ++ if p.crlf then ['\r'] else []).flatMap endLine := by
      rw [List.flatMap_map]
      rfl
    rw [htext, lines_flatMap_endLine, List.map_map]
    · rfl
    · intro l hl
      obtain ⟨l', hl', rfl⟩ := List.mem_map.mp hl
      have hno := p.notMem_lines l' hl'
      split <;> simp [hno]
  have hbefore : (p.before.map Tail.text).foldl Extraction.line .start = .start := by
    refine foldl_outside (fun l hl => ?_) rfl
    obtain ⟨filler, -, rfl⟩ := List.mem_map.mp hl
    exact tail_not_header filler
  rw [extractTasksFromText, String.toList_ofList, hlines, foldl_line_map hend, lines,
    List.foldl_append, hbefore]

theorem filter_parsed_iff (tasks : List WrittenTask) :
    ((tasks.map WrittenTask.parsed).filter fun task => task.id ≠ "") = tasks.map WrittenTask.task ↔
      ∀ t ∈ tasks, t.parsed = t.task ∧ t.task.id ≠ "" := by
  constructor
  · intro h
    have hlen := congrArg List.length h
    rw [List.length_map, ← List.length_map WrittenTask.parsed,
      List.length_filter_eq_length_iff] at hlen
    rw [List.filter_eq_self.mpr hlen, List.map_inj_left] at h
    intro t ht
    have hid := hlen t.parsed (List.mem_map_of_mem ht)
    rw [← h t ht]
    exact ⟨rfl, by simpa using hid⟩
  · intro h
    have heq : tasks.map WrittenTask.parsed = tasks.map WrittenTask.task :=
      List.map_inj_left.mpr fun t ht => (h t ht).1
    rw [heq, List.filter_eq_self]
    intro task htask
    obtain ⟨t, ht, rfl⟩ := List.mem_map.mp htask
    simpa using (h t ht).2

theorem closed_eq_iff (tasks : List WrittenTask) :
    ((tasks.flatMap WrittenTask.lines).foldl Extraction.line .start).closed =
      tasks.map WrittenTask.task ↔ ∀ t ∈ tasks, t.Read := by
  have hread : ∀ t : WrittenTask, t.Read ↔ t.header.Bare ∧ (t.parsed = t.task ∧ t.task.id ≠ "") := by
    intro t
    rw [t.parsed_iff]
    constructor
    · intro h
      exact ⟨h.header, h.id, h.title, h.description, h.deps, h.tier, h.budget, h.filesHint⟩
    · intro h
      obtain ⟨header, id, title, description, deps, tier, budget, filesHint⟩ := h
      exact ⟨header, id, title, description, deps, tier, budget, filesHint⟩
  by_cases hbare : ∀ t ∈ tasks, t.header.Bare
  · have hstart : Extraction.start.closed = [] := rfl
    rw [WrittenTask.closed_foldl_bare hbare, hstart, List.nil_append, filter_parsed_iff]
    refine forall₂_congr fun t ht => ?_
    rw [hread, and_iff_right (hbare t ht)]
  · refine iff_of_false (fun h => ?_) fun h => hbare fun t ht => (h t ht).header
    -- a header that is not seen leaves too few tasks
    have hsome : ∃ t ∈ tasks, ¬ t.header.Bare := by
      simpa using hbare
    have hlt := (WrittenTask.weight_foldl tasks .start).2 hsome
    have hle := WrittenTask.length_closed_le ((tasks.flatMap WrittenTask.lines).foldl
      Extraction.line .start)
    have hlen := congrArg List.length h
    rw [List.length_map] at hlen
    have hzero : WrittenTask.weight .start = 0 := rfl
    omega

end WrittenPlan

/-- **The line parser.**  It reads the tasks that TOML reads exactly when each of them is written
the way the parser looks for. -/
theorem extract_iff (p : WrittenPlan) :
    extractTasksFromText (String.ofList p.text) = p.graph ↔ p.Read := by
  rw [p.extract_eq, WrittenPlan.graph, WrittenPlan.Read]
  cases hbody : p.body with
  | inl tasks =>
    refine (WrittenPlan.closed_eq_iff tasks).trans ?_
    constructor
    · intro h tasks' heq
      rw [← Sum.inl.inj heq]
      exact h
    · intro h
      exact h tasks rfl
  | inr empty =>
    refine iff_of_true ?_ fun tasks heq => nomatch heq
    have hhead : ¬ (trim (empty.1.line "tasks".toList ('[' :: (empty.1.value.1 ++ [']']))) =
        "[[task]]".toList ∨ trim (empty.1.line "tasks".toList ('[' :: (empty.1.value.1 ++ [']']))) =
        "[[tasks]]".toList) := by
      rw [KeyValue.trim_line _ (by decide) (fun c hc => ?_) (visible_brackets _)]
      · simp
      · rw [← Option.some.inj hc]
        decide
    show ((WrittenPlan.bodyLines (.inr empty)).foldl Extraction.line .start).closed = []
    rw [foldl_outside (fun l hl => ?_) rfl]
    · rfl
    · obtain rfl | hl := List.mem_cons.mp hl
      · exact hhead
      · obtain ⟨filler, -, rfl⟩ := List.mem_map.mp hl
        exact tail_not_header filler

def noBlank : Blank := ⟨[], List.forall_mem_nil _⟩

def oneBlank : Blank := ⟨[' '], List.forall_mem_singleton.mpr rfl⟩

/-- `key = value`, with one space on each side of the equals sign. -/
def KeyValue.spaced {α : Type} (value : α) : KeyValue α :=
  ⟨noBlank, oneBlank, oneBlank, value, ⟨noBlank, none⟩⟩

def plainString (t : Text) (h : t.all isPlain = true) : StringLit :=
  .basic {
    long := false
    pieces := t.attach.map fun c => .plain c.1 (List.all_eq_true.mp h c.1 c.2)
    short_closed := by simp
    long_closed := nofun }

/-- `t1`, with a tier as serde writes it. -/
def tieredTask (tier : ModelTier) : WrittenTask where
  header := ⟨noBlank, noBlank, noBlank, noBlank, none⟩
  id := .spaced (plainString "t1".toList (by rfl))
  title := .spaced (plainString "Parser".toList (by rfl))
  description := .spaced (plainString "Write it".toList (by rfl))
  deps := .spaced ⟨[], none, noBlank⟩
  modelTier := .spaced (plainString (tierName tier) (by cases tier <;> rfl))
  toolBudget := .spaced (.decimal none
    ⟨"25".toList, by simp, ⟨'2', rfl, by decide⟩, by decide, by decide⟩ (by decide))
  filesHint := .spaced ⟨[], some ⟨noBlank, plainString "src/parser.rs".toList (by rfl), noBlank⟩, noBlank⟩
  layout := Field.all.map .inr
  complete := List.Perm.refl Field.all
  tier := tier
  tier_value := by cases tier <;> rfl
  budget := 25
  budget_value := by rfl
  budget_small := by omega

def tieredPlan (tier : ModelTier) : WrittenPlan where
  before := []
  body := .inl [tieredTask tier]
  tasks_ne_nil tasks h := by
    rw [← Sum.inl.inj h]
    exact List.cons_ne_nil _ _
  crlf := false

theorem KeyValue.alone_spaced {α : Type} (value : α) : (KeyValue.spaced value).Alone := ⟨rfl, rfl, rfl⟩

theorem value_plainString {t : Text} (h : t.all isPlain = true) : (plainString t h).value = t := by
  show (t.attach.map _).map Piece.value = t
  rw [List.map_map]
  exact List.attach_map_subtype_val t

theorem notMem_plainString {t : Text} (h : t.all isPlain = true) {c : Char} (hc : c ∉ t) :
    c ∉ (plainString t h).value := by rwa [value_plainString]

theorem exact_plainString {t : Text} (h : t.all isPlain = true) (hfirst : t.head? ≠ some '"')
    (hlast : t.getLast? ≠ some '"') : Exact (plainString t h) := by
  refine ⟨?_, by rwa [value_plainString], by rwa [value_plainString]⟩
  show (t.attach.map fun c => Piece.plain c.1 _).all (fun p => !p.isEscape) = true
  simp [Piece.isEscape]

theorem tieredTask_read_iff (tier : ModelTier) : (tieredTask tier).Read ↔ tier = .fast := by
  constructor
  · intro h
    exact h.tier
  · intro htier
    refine ⟨⟨rfl, rfl, rfl⟩, ⟨KeyValue.alone_spaced _, exact_plainString rfl (by decide) (by decide), ?_⟩,
      .inl ⟨KeyValue.alone_spaced _, exact_plainString rfl (by decide) (by decide)⟩,
      .inl ⟨KeyValue.alone_spaced _, exact_plainString rfl (by decide) (by decide)⟩,
      .inl ⟨KeyValue.alone_spaced _, nofun⟩, htier,
      .inl ⟨KeyValue.alone_spaced _, by decide, by decide⟩, .inl ⟨KeyValue.alone_spaced _, ?_⟩⟩
    · exact List.cons_ne_nil _ _
    · intro i hi
      rw [List.mem_singleton.mp hi]
      exact ⟨exact_plainString rfl (by decide) (by decide), List.cons_ne_nil _ _,
        notMem_plainString rfl (by decide)⟩

/-- A task of the middle tier is read as one of the fast tier. -/
theorem not_extract_mid :
    ¬ ∀ p : WrittenPlan, extractTasksFromText (String.ofList p.text) = p.graph := by
  intro h
  have hplan := h (tieredPlan .mid)
  rw [WrittenPlan.extract_eq] at hplan
  have hread := (WrittenPlan.closed_eq_iff [tieredTask .mid]).mp hplan _ (List.mem_singleton_self _)
  exact absurd ((tieredTask_read_iff .mid).mp hread) (by decide)

end Mowis.Planning
