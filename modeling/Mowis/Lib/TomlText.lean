import Mowis.Lib.Text

/-!
# TOML values on one line

The strings, integers and arrays of strings that can stand behind `key =` on one line of a TOML
document, as they are written and with what they mean.
-/

namespace Mowis.Lib.TomlText

def isBlank (c : Char) : Bool := c = ' ' || c = '\t'

abbrev Blank := { t : Text // ∀ c ∈ t, isBlank c }

def isAllowed (c : Char) : Bool := c = '\t' || (0x20 ≤ c.toNat && c.toNat ≠ 0x7F)

def isPlain (c : Char) : Bool := isAllowed c && c ≠ '"' && c ≠ '\\'

def isHexDigit (c : Char) : Bool :=
  c.isDigit || ('a' ≤ c && c ≤ 'f') || ('A' ≤ c && c ≤ 'F')

def hexDigit (c : Char) : ℕ :=
  if c.isDigit then c.toNat - '0'.toNat
  else if 'a' ≤ c then c.toNat - 'a'.toNat + 10
  else c.toNat - 'A'.toNat + 10

def digitsValue (base : ℕ) (t : Text) : ℕ := t.foldl (fun n c => base * n + hexDigit c) 0

inductive Escape where
  | backspace
  | tab
  | lineFeed
  | formFeed
  | carriageReturn
  | quote
  | backslash
  | unicode (digits : Text) (hex : ∀ c ∈ digits, isHexDigit c)
      (length : digits.length = 4 ∨ digits.length = 8) (valid : (digitsValue 16 digits).isValidChar)

def Escape.text : Escape → Text
  | .backspace => ['b']
  | .tab => ['t']
  | .lineFeed => ['n']
  | .formFeed => ['f']
  | .carriageReturn => ['r']
  | .quote => ['"']
  | .backslash => ['\\']
  | .unicode digits _ _ _ => (if digits.length = 4 then 'u' else 'U') :: digits

def Escape.value : Escape → Char
  | .backspace => '\x08'
  | .tab => '\t'
  | .lineFeed => '\n'
  | .formFeed => '\x0C'
  | .carriageReturn => '\r'
  | .quote => '"'
  | .backslash => '\\'
  | .unicode digits _ _ _ => Char.ofNat (digitsValue 16 digits)

inductive Piece where
  | plain (c : Char) (h : isPlain c)
  /-- A quote within three quotes. -/
  | quote
  | escape (e : Escape)

def Piece.text : Piece → Text
  | plain c _ => [c]
  | quote => ['"']
  | escape e => '\\' :: e.text

def Piece.value : Piece → Char
  | plain c _ => c
  | quote => '"'
  | escape e => e.value

def Piece.isEscape : Piece → Bool
  | escape _ => true
  | _ => false

structure BasicString where
  /-- Three quotes on each side. -/
  long : Bool
  pieces : List Piece
  short_closed : long = false → Piece.quote ∉ pieces
  long_closed : long = true → ¬ [Piece.quote, .quote, .quote] <:+: pieces

structure LiteralString where
  long : Bool
  chars : Text
  allowed : ∀ c ∈ chars, isAllowed c
  short_closed : long = false → '\'' ∉ chars
  long_closed : long = true → ¬ ['\'', '\'', '\''] <:+: chars

inductive StringLit where
  | basic (s : BasicString)
  | literal (s : LiteralString)

def delimiter (c : Char) (long : Bool) : Text := List.replicate (if long then 3 else 1) c

namespace BasicString

variable (s : BasicString)

def raw : Text := s.pieces.flatMap Piece.text

def value : Text := s.pieces.map Piece.value

def text : Text := delimiter '"' s.long ++ s.raw ++ delimiter '"' s.long

end BasicString

def LiteralString.text (s : LiteralString) : Text :=
  delimiter '\'' s.long ++ s.chars ++ delimiter '\'' s.long

namespace StringLit

def text : StringLit → Text
  | basic s => s.text
  | literal s => s.text

def value : StringLit → Text
  | basic s => s.value
  | literal s => s.chars

def Verbatim : StringLit → Prop
  | basic s => s.pieces.all (!·.isEscape)
  | literal _ => False

end StringLit

/-- Digits, with underscores between them. -/
structure DigitRun (isDigit : Char → Bool) where
  text : Text
  digit : ∀ c ∈ text, isDigit c ∨ c = '_'
  first : ∃ c, text.head? = some c ∧ c ≠ '_'
  last : text.getLast? ≠ some '_'
  single : ¬ ['_', '_'] <:+: text

def DigitRun.value {isDigit : Char → Bool} (base : ℕ) (d : DigitRun isDigit) : ℕ :=
  digitsValue base (d.text.filter (· ≠ '_'))

inductive Sign where
  | plus
  | minus
  deriving DecidableEq

def isOctalDigit (c : Char) : Bool := '0' ≤ c && c ≤ '7'

def isBinaryDigit (c : Char) : Bool := c = '0' || c = '1'

inductive IntLit where
  | decimal (sign : Option Sign) (digits : DigitRun Char.isDigit)
      (zero : digits.text.head? = some '0' → digits.text = ['0'])
  | hex (digits : DigitRun isHexDigit)
  | octal (digits : DigitRun isOctalDigit)
  | binary (digits : DigitRun isBinaryDigit)

namespace IntLit

def text : IntLit → Text
  | decimal none d _ => d.text
  | decimal (some .plus) d _ => '+' :: d.text
  | decimal (some .minus) d _ => '-' :: d.text
  | hex d => '0' :: 'x' :: d.text
  | octal d => '0' :: 'o' :: d.text
  | binary d => '0' :: 'b' :: d.text

def value : IntLit → ℤ
  | decimal (some .minus) d _ => -(d.value 10)
  | decimal _ d _ => d.value 10
  | hex d => d.value 16
  | octal d => d.value 8
  | binary d => d.value 2

def Bare : IntLit → Prop
  | decimal sign d _ => sign ≠ some .minus ∧ '_' ∉ d.text
  | _ => False

end IntLit

structure ArrayItem where
  before : Blank
  lit : StringLit
  after : Blank

def ArrayItem.text (i : ArrayItem) : Text := i.before.1 ++ i.lit.text ++ i.after.1

/-- The items that a comma follows, and perhaps one more. -/
structure ArrayLit where
  items : List ArrayItem
  final : Option ArrayItem
  last : Blank

namespace ArrayLit

variable (a : ArrayLit)

def all : List ArrayItem := a.items ++ a.final.toList

def inside : Text :=
  a.items.flatMap (fun i => i.text ++ [',']) ++ (a.final.toList.flatMap ArrayItem.text ++ a.last.1)

def text : Text := '[' :: (a.inside ++ [']'])

def values : List Text := a.all.map fun i => i.lit.value

end ArrayLit

abbrev Comment := { t : Text // ∀ c ∈ t, isAllowed c }

structure Tail where
  blank : Blank
  comment : Option Comment

def Tail.text (t : Tail) : Text :=
  t.blank.1 ++
    match t.comment with
    | none => []
    | some c => '#' :: c.1

theorem ne_of_isHexDigit {c d : Char} (h : isHexDigit c) (hd : isHexDigit d = false) : c ≠ d := by
  intro heq
  rw [heq, hd] at h
  cases h

theorem Escape.text_spec (e : Escape) :
    e.text ≠ [] ∧ ',' ∉ e.text ∧ '\n' ∉ e.text ∧ (e.text.getLast? = some '"' → e.value = '"') := by
  cases e with
  | unicode digits hex length valid =>
    have hnot : ∀ d, isHexDigit d = false → d ∉ digits := fun d hd hmem =>
      ne_of_isHexDigit (hex d hmem) hd rfl
    have hcomma := hnot ',' (by decide)
    have hline := hnot '\n' (by decide)
    refine ⟨List.cons_ne_nil _ _, ?_, ?_, fun hlast => ?_⟩
    · show ',' ∉ (if digits.length = 4 then 'u' else 'U') :: digits
      split <;> simp [hcomma]
    · show '\n' ∉ (if digits.length = 4 then 'u' else 'U') :: digits
      split <;> simp [hline]
    · have hne : digits ≠ [] := by
        intro hnil
        rw [hnil] at length
        simp at length
      rw [Escape.text, List.getLast?_cons_of_ne_nil hne] at hlast
      exact absurd (List.mem_of_getLast? hlast) (hnot '"' (by decide))
  | _ => exact ⟨by decide, by decide, by decide, by decide⟩

namespace Piece

variable (p : Piece)

theorem text_of_not_escape {p : Piece} (h : p.isEscape = false) : p.text = [p.value] := by
  cases p with
  | plain c _ => rfl
  | quote => rfl
  | escape e => cases h

theorem one_le_length : 1 ≤ p.text.length := by
  cases p <;> exact Nat.le_add_left 1 _

theorem two_le_length {p : Piece} (h : p.isEscape = true) : 2 ≤ p.text.length := by
  cases p with
  | plain c _ => cases h
  | quote => cases h
  | escape e =>
    have hpos := List.length_pos_iff.mpr e.text_spec.1
    rw [text, List.length_cons]
    omega

theorem head?_text (h : p.text.head? = some '"') : p.value = '"' := by
  cases p with
  | plain c _ => exact Option.some.inj h
  | quote => rfl
  | escape e => exact absurd (Option.some.inj h) (by decide)

theorem getLast?_text (h : p.text.getLast? = some '"') : p.value = '"' := by
  cases p with
  | plain c _ => exact Option.some.inj h
  | quote => rfl
  | escape e =>
    rw [text, List.getLast?_cons_of_ne_nil e.text_spec.1] at h
    exact e.text_spec.2.2.2 h

theorem comma_text (h : ',' ∈ p.text) : p.value = ',' := by
  cases p with
  | plain c _ => exact (List.mem_singleton.mp h).symm
  | quote => exact absurd h (by decide)
  | escape e =>
    obtain h | h := List.mem_cons.mp h
    · exact absurd h (by decide)
    · exact absurd h e.text_spec.2.1

theorem notMem_text : '\n' ∉ p.text := by
  cases p with
  | plain c hc =>
    intro h
    rw [← List.mem_singleton.mp h] at hc
    exact absurd hc (by decide)
  | quote => decide
  | escape e =>
    intro h
    obtain h | h := List.mem_cons.mp h
    · exact absurd h (by decide)
    · exact e.text_spec.2.2.1 h

theorem value_mem_text : p.value ∈ p.text ∨ '\\' ∈ p.text := by
  cases p with
  | plain c _ => exact .inl (List.mem_singleton_self c)
  | quote => exact .inl (List.mem_singleton_self _)
  | escape e => exact .inr List.mem_cons_self

end Piece

namespace BasicString

variable (s : BasicString)

theorem length_pieces_le (ps : List Piece) :
    (ps.map Piece.value).length ≤ (ps.flatMap Piece.text).length := by
  induction ps with
  | nil => exact Nat.zero_le _
  | cons p ps ih =>
    have hp := p.one_le_length
    rw [List.map_cons, List.length_cons, List.flatMap_cons, List.length_append]
    omega

theorem length_value_le : s.value.length ≤ s.raw.length := length_pieces_le s.pieces

theorem raw_eq_value_iff : s.raw = s.value ↔ s.pieces.all (!·.isEscape) = true := by
  rw [raw, value]
  induction s.pieces with
  | nil => simp
  | cons p ps ih =>
    rw [List.flatMap_cons, List.map_cons, List.all_cons, Bool.and_eq_true, ← ih, Bool.not_eq_true']
    cases hp : p.isEscape with
    | false =>
      rw [Piece.text_of_not_escape hp, List.singleton_append, List.cons.injEq]
      exact and_congr_left fun _ => ⟨fun _ => rfl, fun _ => rfl⟩
    | true =>
      have htwo := Piece.two_le_length hp
      have hle := length_pieces_le ps
      refine iff_of_false (fun h => ?_) fun h => Bool.false_ne_true h.1.symm
      have hlen := congrArg List.length h
      rw [List.length_append, List.length_cons] at hlen
      omega

theorem head?_raw (h : s.raw.head? = some '"') : s.value.head? = some '"' := by
  rw [raw] at h
  rw [value]
  cases hps : s.pieces with
  | nil =>
    rw [hps] at h
    cases h
  | cons p ps =>
    have hne : p.text ≠ [] := List.length_pos_iff.mp p.one_le_length
    rw [hps, List.flatMap_cons, List.head?_append_of_ne_nil _ hne] at h
    rw [List.map_cons, List.head?_cons, p.head?_text h]

theorem getLast?_raw (h : s.raw.getLast? = some '"') : s.value.getLast? = some '"' := by
  rw [raw] at h
  rw [value]
  obtain hps | ⟨ps, p, hps⟩ := List.eq_nil_or_concat s.pieces
  · rw [hps] at h
    cases h
  · have hne : p.text ≠ [] := List.length_pos_iff.mp p.one_le_length
    rw [hps, List.concat_eq_append, List.flatMap_append, List.flatMap_singleton,
      List.getLast?_append_of_ne_nil _ hne] at h
    rw [hps, List.concat_eq_append, List.map_append, List.map_singleton, List.getLast?_concat,
      p.getLast?_text h]

theorem comma_raw (h : ',' ∈ s.raw) : ',' ∈ s.value := by
  obtain ⟨p, hp, h⟩ := List.mem_flatMap.mp h
  exact List.mem_map.mpr ⟨p, hp, p.comma_text h⟩

theorem notMem_raw : '\n' ∉ s.raw := by
  intro h
  obtain ⟨p, -, h⟩ := List.mem_flatMap.mp h
  exact p.notMem_text h

theorem head?_value {c : Char} (h : s.value.head? = some c) : c ∈ s.raw ∨ '\\' ∈ s.raw := by
  obtain ⟨p, hp, rfl⟩ := List.mem_map.mp (List.mem_of_mem_head? h)
  exact p.value_mem_text.imp (fun hc => List.mem_flatMap.mpr ⟨p, hp, hc⟩)
    fun hc => List.mem_flatMap.mpr ⟨p, hp, hc⟩

end BasicString

theorem mem_delimiter {c d : Char} {long : Bool} (h : d ∈ delimiter c long) : d = c :=
  (List.mem_replicate.mp h).2

theorem delimiter_ne_nil (c : Char) (long : Bool) : delimiter c long ≠ [] := by
  cases long <;> exact List.cons_ne_nil _ _

theorem head?_delimiter (c : Char) (long : Bool) : (delimiter c long).head? = some c := by
  cases long <;> rfl

theorem getLast?_delimiter (c : Char) (long : Bool) : (delimiter c long).getLast? = some c := by
  cases long <;> rfl

namespace StringLit

def mark : StringLit → Char
  | basic _ => '"'
  | literal _ => '\''

variable (lit : StringLit)

theorem head?_text : lit.text.head? = some lit.mark := by
  cases lit with
  | basic s =>
    show (delimiter '"' s.long ++ s.raw ++ _).head? = _
    rw [List.append_assoc, List.head?_append_of_ne_nil _ (delimiter_ne_nil _ _)]
    exact head?_delimiter '"' s.long
  | literal s =>
    show (delimiter '\'' s.long ++ s.chars ++ _).head? = _
    rw [List.append_assoc, List.head?_append_of_ne_nil _ (delimiter_ne_nil _ _)]
    exact head?_delimiter '\'' s.long

theorem getLast?_text : lit.text.getLast? = some lit.mark := by
  cases lit with
  | basic s =>
    show (_ ++ delimiter '"' s.long).getLast? = _
    rw [List.getLast?_append_of_ne_nil _ (delimiter_ne_nil _ _)]
    exact getLast?_delimiter '"' s.long
  | literal s =>
    show (_ ++ delimiter '\'' s.long).getLast? = _
    rw [List.getLast?_append_of_ne_nil _ (delimiter_ne_nil _ _)]
    exact getLast?_delimiter '\'' s.long

theorem text_ne_nil : lit.text ≠ [] := by
  intro hnil
  have hhead := lit.head?_text
  rw [hnil] at hhead
  cases hhead

theorem comma_text (h : ',' ∈ lit.text) : ',' ∈ lit.value := by
  have hquote : ∀ long, ',' ∉ delimiter '"' long := fun _ hc =>
    absurd (mem_delimiter hc) (by decide)
  have happ : ∀ long, ',' ∉ delimiter '\'' long := fun _ hc =>
    absurd (mem_delimiter hc) (by decide)
  cases lit with
  | basic s =>
    have h : ',' ∈ delimiter '"' s.long ++ s.raw ++ delimiter '"' s.long := h
    rw [List.mem_append, List.mem_append] at h
    exact s.comma_raw ((h.resolve_right (hquote _)).resolve_left (hquote _))
  | literal s =>
    have h : ',' ∈ delimiter '\'' s.long ++ s.chars ++ delimiter '\'' s.long := h
    rw [List.mem_append, List.mem_append] at h
    exact (h.resolve_right (happ _)).resolve_left (happ _)

theorem notMem_text : '\n' ∉ lit.text := by
  have hquote : ∀ long, '\n' ∉ delimiter '"' long := fun _ hc =>
    absurd (mem_delimiter hc) (by decide)
  have happ : ∀ long, '\n' ∉ delimiter '\'' long := fun _ hc =>
    absurd (mem_delimiter hc) (by decide)
  cases lit with
  | basic s =>
    show '\n' ∉ delimiter '"' s.long ++ s.raw ++ delimiter '"' s.long
    simp [hquote, s.notMem_raw]
  | literal s =>
    have hchars : '\n' ∉ s.chars := fun hc => absurd (s.allowed _ hc) (by decide)
    show '\n' ∉ delimiter '\'' s.long ++ s.chars ++ delimiter '\'' s.long
    simp [happ, hchars]

end StringLit

end Mowis.Lib.TomlText
