import Mowis.Shell.Composition

/-!
# The lines for a shell in a machine

`map_tool_to_ssh` of `agentd/src/vm_backend.rs`, and the part of a POSIX shell that reads its lines:
words with single quotes and command substitutions, pipes and `>`.
-/

namespace Mowis.Shell.Mapping

open Mowis.Lib
open Mowis.Lib.CommandLists
open Mowis.Shell.Composition (AtMostOne Direct)

def shellEscape (s : Text) : Text := s.flatMap fun c => if c = '\'' then "'\\''".toList else [c]

def printed (s : Text) : Text := "printf '%s' '".toList ++ (shellEscape s ++ "'".toList)

def substituted (s : Text) : Text := "$(".toList ++ (printed s ++ ")".toList)

/-- Base64 as it is written here and read there. -/
structure Base64 where
  encode : Text → Text
  decode : Text → Option Text
  decode_encode : ∀ t, decode (encode t) = some t

/-- The line of `run_command`. -/
def cdLine (cwd cmd : Text) : Text :=
  "cd ".toList ++ (substituted cwd ++ (" && ".toList ++ cmd))

/-- A character of a word, or a substitution of a command of these words. -/
inductive Piece
  | char (c : Char)
  | subst (words : List Text)
  deriving DecidableEq

inductive Token
  | word (ps : List Piece)
  | pipe
  | redirect
  deriving DecidableEq

inductive Mode
  | plain
  | single
  | escaped
  | dollar
  deriving DecidableEq

/-- What was read: the tokens, the word that is begun, and within a substitution its words and
the one that is begun. -/
structure Lexer where
  tokens : List Token
  word : Option (List Piece)
  inner : Option (List Text × Option Text)
  mode : Mode
  deriving DecidableEq

namespace Lexer

variable (l : Lexer)

def touch : Lexer :=
  match l.inner with
  | some (ws, w) => { l with inner := some (ws, some (w.getD [])) }
  | none => { l with word := some (l.word.getD []) }

def put (c : Char) : Lexer :=
  match l.inner with
  | some (ws, w) => { l with inner := some (ws, some (w.getD [] ++ [c])) }
  | none => { l with word := some (l.word.getD [] ++ [.char c]) }

def blank : Lexer :=
  match l.inner with
  | some (ws, w) => { l with inner := some (ws ++ w.toList, none) }
  | none => { l with tokens := l.tokens ++ (l.word.map .word).toList, word := none }

def close : Option Lexer :=
  l.inner.map fun (ws, w) =>
    { l with inner := none, word := some (l.word.getD [] ++ [.subst (ws ++ w.toList)]) }

def operator (t : Token) : Option Lexer :=
  if l.inner = none then some { l.blank with tokens := l.blank.tokens ++ [t] } else none

def step (l : Lexer) (c : Char) : Option Lexer :=
  match l.mode with
  | .single => some (if c = '\'' then { l with mode := .plain } else l.put c)
  | .escaped => some { l.put c with mode := .plain }
  | .dollar =>
    if c = '(' ∧ l.inner = none then some { l with inner := some ([], none), mode := .plain }
    else none
  | .plain =>
    if c = '\'' then some { l.touch with mode := .single }
    else if c = '\\' then some { l with mode := .escaped }
    else if c = '$' then some { l with mode := .dollar }
    else if c = ' ' then some l.blank
    else if c = ')' then l.close
    else if c = '|' then l.operator .pipe
    else if c = '>' then l.operator .redirect
    else if c.isAlphanum ∨ c = '-' ∨ c = '%' then some (l.put c)
    else none

def init : Lexer := ⟨[], none, none, .plain⟩

end Lexer

def lex (line : Text) : Option (List Token) :=
  (line.foldlM Lexer.step .init).bind fun l =>
    if l.mode = .plain ∧ l.inner = none then some l.blank.tokens else none

def printfWords (s : Text) : List Text := ["printf".toList, "%s".toList, s]

/-- The output of `printf '%s'`. -/
def output (ws : List Text) : Option Text :=
  match ws with
  | [p, f, s] => if p = "printf".toList ∧ f = "%s".toList then some s else none
  | _ => none

def valueOf (ws : List Text) : Option Text := (output ws).map (·.rdropWhile (· = '\n'))

def isIfs (c : Char) : Bool := c = ' ' ∨ c = '\t' ∨ c = '\n'

def fields (t : Text) : List Text := (t.splitOnP isIfs).filter (· ≠ [])

def charOf : Piece → Option Char
  | .char c => some c
  | .subst _ => none

section Expansion

variable (glob : Text → List Text)

/-- A substitution is split into fields, which are patterns for the names there are. -/
def arguments : List Piece → Option (List Text)
  | [.subst ws] => (valueOf ws).map fun t => (fields t).flatMap glob
  | ps => (ps.mapM charOf).map ([·])

/-- The file behind `>` is neither split nor a pattern in a shell that is not interactive. -/
def target : List Piece → Option Text
  | [.subst ws] => valueOf ws
  | ps => ps.mapM charOf

/-- A command of a pipeline, and the file that its output goes to. -/
structure Simple where
  argv : List Text
  out : Option Text
  deriving DecidableEq

def simples : List Token → Simple → Option (List Simple)
  | [], cur => some [cur]
  | .pipe :: ts, cur => (simples ts ⟨[], none⟩).map (cur :: ·)
  | .redirect :: .word ps :: ts, cur =>
    (target ps).bind fun t => simples ts { cur with out := some t }
  | .redirect :: _, _ => none
  | .word ps :: ts, cur =>
    (arguments glob ps).bind fun as => simples ts { cur with argv := cur.argv ++ as }

end Expansion

def wordsOf (glob : Text → List Text) (path : Text) : List Text :=
  (fields (path.rdropWhile (· = '\n'))).flatMap glob

def OneWord (glob : Text → List Text) (path : Text) : Prop := wordsOf glob path = [path]

/-- `cat -` would read its standard input. -/
def Reads (p : Option (List Simple)) (path : Text) : Prop :=
  p = some [⟨["cat".toList, "--".toList, path], none⟩, ⟨["base64".toList], none⟩] ∧
    path ≠ "-".toList

def Writes (b : Base64) (p : Option (List Simple)) (path content : Text) : Prop :=
  ∃ e, p = some [⟨["printf".toList, "%s".toList, e], none⟩,
    ⟨["base64".toList, "-d".toList], some path⟩] ∧ b.decode e = some content

theorem mapM_charOf (w : Text) : (w.map Piece.char).mapM charOf = some w := by
  induction w with
  | nil => rfl
  | cons c w ih => rw [List.map_cons, List.mapM_cons, ih]; rfl

theorem arguments_chars (glob : Text → List Text) (w : Text) :
    arguments glob (w.map .char) = some [w] := by
  have hmap : arguments glob (w.map .char) = ((w.map Piece.char).mapM charOf).map ([·]) := by
    cases w <;> rfl
  rw [hmap, mapM_charOf]
  rfl

section Lines

variable {glob : Text → List Text} (path : Text)

theorem arguments_subst :
    arguments glob [.subst (printfWords path)] = some (wordsOf glob path) := rfl

end Lines

/-- A shell: how it reads a text, the directories there are, and its patterns. -/
structure Sh (P σ : Type) extends Machine P σ where
  parse : Text → Script P
  simple : List Token → P
  enter : Text → σ → Option σ
  place : σ → Text
  cdpath : σ → Bool
  glob : σ → Text → List Text

/-- `cd` takes the text for a directory, and looks for it nowhere else. -/
def Taken (d : Text) (cdpath : Bool) : Prop := d.head? ≠ some '-' ∧ Direct d cdpath

/-- The directory that `cd` is told. -/
def Told (glob : Text → List Text) (ts : List Token) (d : Text) : Prop :=
  simples glob ts ⟨[], none⟩ = some [⟨["cd".toList, d], none⟩]

/-- What is documented of `&&` behind a `cd`, of `cd`, and of jobs in the background. -/
structure Posix {P σ : Type} (sh : Sh P σ) : Prop where
  and_list : ∀ d ts, lex ("cd ".toList ++ substituted d) = some ts → ∀ b,
    sh.parse (cdLine d b) = (sh.parse b).cons (sh.simple ts)
  cd_ok : ∀ ts d s s', Told (sh.glob s) ts d → Taken d (sh.cdpath s) → sh.enter d s = some s' →
    sh.exec false (sh.simple ts) s = ⟨s', 0, false⟩
  cd_failed : ∀ ts d s, Told (sh.glob s) ts d → Taken d (sh.cdpath s) → sh.enter d s = none →
    ∃ n, n ≠ 0 ∧ sh.exec false (sh.simple ts) s = ⟨s, n, false⟩
  beside_place : ∀ s t, sh.place (sh.beside s t) = sh.place s

/-- The tokens of the `cd`. -/
def cdTokens (cwd : Text) : List Token :=
  [.word ("cd".toList.map .char), .word [.subst (printfWords cwd)]]

section Directory

variable {P σ : Type} (sh : Sh P σ) (line cwd cmd : Text) (s : σ)

def started : List (P × σ) := (runScript sh.toMachine s (sh.parse line)).started

variable {sh} {cwd} {cmd} {s}

theorem told_iff {glob : Text → List Text} :
    Told glob (cdTokens cwd) cwd ↔ OneWord glob cwd := by
  have hwords : simples glob (cdTokens cwd) ⟨[], none⟩ =
      some [⟨["cd".toList] ++ wordsOf glob cwd, none⟩] := by
    simp only [cdTokens, simples, arguments_chars, arguments_subst, Option.bind_some,
      List.nil_append]
  rw [Told, hwords, OneWord]
  simp

end Directory

def workspace : Text := "/workspace".toList

def answer (s : Text) : Option (List Simple) → Answer Text
  | some [⟨[_, d], _⟩] => if d = workspace then ⟨d, 0, false⟩ else ⟨s, 1, false⟩
  | _ => ⟨s, 1, false⟩

end Mowis.Shell.Mapping
