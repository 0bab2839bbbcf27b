import Mowis.Tools.Storage

/-!
# Queries of JSON values

`json_query` of `agentd/src/tools/data.rs`.  A path is cut at its dots, and a part of it at its
first bracket; what is between this bracket and the last byte of the part is taken for the index.
-/

namespace Mowis.Tools.Query

open Mowis.Lib
open Mowis.Review (Json)
open Storage (byteLength isNull)

def splitBytes : Text → ℕ → Option (Text × Text)
  | t, 0 => some ([], t)
  | [], _ + 1 => none
  | c :: t, n + 1 =>
    if c.utf8Size ≤ n + 1 then (splitBytes t (n + 1 - c.utf8Size)).map fun p => (c :: p.1, p.2)
    else none

/-- `&t[start..stop]`, which may panic. -/
def slice (t : Text) (start stop : ℕ) : Option Text :=
  if start ≤ stop then
    (splitBytes t stop).bind fun p => (splitBytes p.1 start).map Prod.snd
  else none

/-- A decimal number of 64 bits; one plus sign may stand before it. -/
def parseUsize (s : Text) : Option ℕ :=
  let digits := dropPlus s
  if digits ≠ [] ∧ digits.all Char.isDigit ∧ Nat.ofDigitChars 10 digits 0 < 2 ^ 64 then
    some (Nat.ofDigitChars 10 digits 0)
  else none

/-- `get` with an index. -/
def item : Json → ℕ → Option Json
  | .array items, i => items[i]?
  | _, _ => none

def step (current : Json) (part : Text) : Option Json :=
  if '[' ∈ part then
    let key := part.takeWhile (· ≠ '[')
    (slice part (byteLength key + 1) (byteLength part - 1)).map fun idxStr =>
      let idx := (parseUsize idxStr).getD 0
      if key ≠ [] then ((current.get key).bind fun v => item v idx).getD .null
      else (item current idx).getD .null
  else some ((current.get part).getD .null)

/-- The loop over the parts, which ends at the first null. -/
def run : Json → List Text → Option Json
  | current, [] => some current
  | current, part :: parts =>
    (step current part).bind fun next => if isNull next then some next else run next parts

def clean (path : Text) : Text :=
  trimStartMatches "$".toList (trimStartMatches "$.".toList path)

def query (obj : Json) (path : Text) : Option (Json × Bool) :=
  (run obj ((clean path).splitOn '.')).map fun current => (current, !isNull current)

inductive QueryError where
  | message (text : Text)
  | json
  deriving DecidableEq

def missing (field : String) : QueryError := .message ("json_query: missing " ++ field).toList

/-- `input["query"]`, or `input["path"]` where that is no text. -/
def pathOf (input : Json) : Option Text :=
  (input.getStr "query".toList).or (input.getStr "path".toList)

def jsonQuery (fromStr : Text → Option Json) (input : Json) :
    Option (Except QueryError (Json × Bool)) :=
  match input.getStr "data".toList with
  | none => some (.error (missing "data"))
  | some data =>
    match pathOf input with
    | none => some (.error (missing "query"))
    | some path =>
      match fromStr data with
      | none => some (.error .json)
      | some obj => (query obj path).map .ok

inductive Step where
  | key (k : Text)
  | index (i : ℕ)
  deriving DecidableEq

/-- Keys without dots and brackets. -/
structure Path where
  steps : List Step
  plain : ∀ k, .key k ∈ steps → '.' ∉ k ∧ '[' ∉ k ∧ ']' ∉ k

def indexText (i : ℕ) : Text := '[' :: (Nat.toDigits 10 i ++ [']'])

def Step.text : Step → Text
  | .key k => '.' :: k
  | .index i => indexText i

/-- `$.a.b[0][1].c` -/
def print (steps : List Step) : Text := '$' :: steps.flatMap Step.text

def Step.from (v : Json) : Step → Option Json
  | .key k => v.get k
  | .index i => item v i

def follow : Json → List Step → Option Json
  | v, [] => some v
  | v, s :: steps => (s.from v).bind fun next => follow next steps

/-- A call with a value and a path. -/
structure Calls (fromStr : Text → Option Json) (input : Json) (v : Json) (path : Text) : Prop where
  data : ∃ data, input.getStr "data".toList = some data ∧ fromStr data = some v
  path : pathOf input = some path

/-- The tool answers with the value that the path leads to, and has found it when there is one. -/
def Right (v : Json) (p : Path) : Prop :=
  ∀ fromStr input, Calls fromStr input v (print p.steps) →
    jsonQuery fromStr input =
      some (.ok (match follow v p.steps with
        | some x => (x, true)
        | none => (.null, false)))

/-- A key, and the indices behind it. -/
abbrev Group := Text × List ℕ

/-- The indices that a path starts with, and its keys with theirs. -/
def spread : List Step → List ℕ × List Group
  | [] => ([], [])
  | .index i :: steps => (i :: (spread steps).1, (spread steps).2)
  | .key k :: steps => ([], (k, (spread steps).1) :: (spread steps).2)

/-- At the start keys that are a dollar sign are lost, and the dollar signs of the next key. -/
def loseDollars : List Group → List Group
  | [] => []
  | [(k, is)] => [(k.dropWhile (· = '$'), is)]
  | (k, is) :: next :: rest =>
    if k = ['$'] ∧ is = [] then loseDollars (next :: rest)
    else (k.dropWhile (· = '$'), is) :: next :: rest

/-- Without a key at its start a path is taken to have an empty one there. -/
def groups (steps : List Step) : List Group :=
  match spread steps with
  | ([], next :: rest) => loseDollars (next :: rest)
  | (is, gs) => ([], is) :: gs

/-- One index is read, if it has 64 bits; several are read as zero.  An empty key is not looked up
in front of them. -/
def readGroup : Group → List Step
  | (k, []) => [.key k]
  | (k, [i]) => (if k = [] then [] else [.key k]) ++ [.index (if i < 2 ^ 64 then i else 0)]
  | (k, _ :: _ :: _) => (if k = [] then [] else [.key k]) ++ [.index 0]

def asRead (steps : List Step) : List Step := (groups steps).flatMap readGroup

/-- The paths that are read as they were meant. -/
structure Readable (steps : List Step) : Prop where
  nonempty : steps ≠ []
  behindKey : steps.IsChain fun a b => ∀ i, b = .index i → ∃ k, k ≠ [] ∧ a = .key k
  small : ∀ i, .index i ∈ steps → i < 2 ^ 64
  first : ∀ k, steps.head? = some (.key k) → k.head? ≠ some '$'

/-- The first bracket is the last character, or the part ends in a character of several bytes. -/
def Unsound (part : Text) : Prop :=
  ∃ key rest, part = key ++ '[' :: rest ∧ '[' ∉ key ∧
    ∀ c, rest.getLast? = some c → 1 < c.utf8Size

def readPart (part : Text) : List Step :=
  if '[' ∈ part then
    let key := part.takeWhile (· ≠ '[')
    let idx := (parseUsize ((part.drop (key.length + 1)).dropLast)).getD 0
    (if key = [] then [] else [.key key]) ++ [.index idx]
  else [.key part]

/-- Such a part is come to: it is the first one, or those before it lead to a value that is not
null. -/
def Stuck (v : Json) (path : Text) : Prop :=
  ∃ before part after, (clean path).splitOn '.' = before ++ part :: after ∧ Unsound part ∧
    (∀ p ∈ before, ¬ Unsound p) ∧
      (before = [] ∨ ∃ x, follow v (before.flatMap readPart) = some x ∧ x ≠ .null)

section Cutting

@[simp] theorem byteLength_nil : byteLength [] = 0 := rfl

@[simp] theorem byteLength_cons (c : Char) (t : Text) :
    byteLength (c :: t) = c.utf8Size + byteLength t := by
  rw [byteLength, utf8, List.flatMap_cons, List.length_append, String.length_utf8EncodeChar]
  rfl

@[simp] theorem byteLength_append (t u : Text) :
    byteLength (t ++ u) = byteLength t + byteLength u := by
  rw [byteLength, utf8, List.flatMap_append, List.length_append]
  rfl

theorem splitBytes_cons (c : Char) (t : Text) (m : ℕ) : splitBytes (c :: t) (c.utf8Size + m) =
    (splitBytes t m).map fun p => (c :: p.1, p.2) := by
  have hpos := c.utf8Size_pos
  obtain ⟨n, hn⟩ : ∃ n, c.utf8Size + m = n + 1 := ⟨c.utf8Size + m - 1, by omega⟩
  rw [hn, splitBytes, if_pos (by omega), ← hn, Nat.add_sub_cancel_left]

theorem splitBytes_append (a b : Text) : splitBytes (a ++ b) (byteLength a) = some (a, b) := by
  induction a with
  | nil => cases b <;> rfl
  | cons c a ih =>
    rw [List.cons_append, byteLength_cons, splitBytes_cons, ih]
    rfl

theorem splitBytes_inside (a : Text) {c : Char} {m : ℕ} (hpos : 0 < m) (hm : m < c.utf8Size) :
    splitBytes (a ++ [c]) (byteLength a + m) = none := by
  induction a with
  | nil =>
    obtain ⟨n, rfl⟩ : ∃ n, m = n + 1 := ⟨m - 1, by omega⟩
    rw [byteLength_nil, Nat.zero_add, List.nil_append, splitBytes, if_neg (by omega)]
  | cons d a ih =>
    rw [List.cons_append, byteLength_cons, Nat.add_assoc, splitBytes_cons, ih]
    rfl

theorem slice_mid (a b c : Text) :
    slice (a ++ (b ++ c)) (byteLength a) (byteLength a + byteLength b) = some b := by
  rw [slice, if_pos (Nat.le_add_right _ _), ← List.append_assoc, ← byteLength_append,
    splitBytes_append]
  show (splitBytes (a ++ b) (byteLength a)).map Prod.snd = some b
  rw [splitBytes_append]
  rfl

variable {key : Text}

theorem takeWhile_key (h : '[' ∉ key) (rest : Text) :
    (key ++ '[' :: rest).takeWhile (· ≠ '[') = key := by
  have hall : ∀ c ∈ key, decide (c ≠ '[') = true := fun c hc => by
    rw [decide_eq_true_eq]
    rintro rfl
    exact h hc
  rw [List.takeWhile_append_of_pos hall]
  simp

theorem drop_key (key rest : Text) : (key ++ '[' :: rest).drop (key.length + 1) = rest := by
  rw [← List.drop_drop, List.drop_left]
  rfl

theorem slice_rest (key rest : Text) :
    slice (key ++ '[' :: rest) (byteLength key + 1) (byteLength (key ++ '[' :: rest) - 1) =
      if ∀ c, rest.getLast? = some c → 1 < c.utf8Size then none else some rest.dropLast := by
  have hopen : ('[' : Char).utf8Size = 1 := rfl
  have hbracket : byteLength (key ++ ['[']) = byteLength key + 1 := by
    rw [byteLength_append, byteLength_cons, hopen, byteLength_nil]
  have hassoc : ∀ t, key ++ '[' :: t = (key ++ ['[']) ++ t := by simp
  rw [hassoc, ← hbracket]
  induction rest using List.reverseRecOn with
  | nil =>
    rw [if_pos (fun c hc => nomatch hc), slice, if_neg]
    rw [List.append_nil]
    omega
  | append_singleton init c _ =>
    have hlast : (∀ d, (init ++ [c]).getLast? = some d → 1 < d.utf8Size) ↔ 1 < c.utf8Size := by
      simp
    have hlen : byteLength (key ++ ['['] ++ (init ++ [c])) =
        byteLength (key ++ ['[']) + byteLength init + c.utf8Size := by
      rw [byteLength_append _ (init ++ [c]), byteLength_append init, byteLength_cons,
        byteLength_nil]
      omega
    rw [List.dropLast_concat, hlen]
    split_ifs with hwide
    · have hsize := hlast.mp hwide
      have hstop : byteLength (key ++ ['[']) + byteLength init + c.utf8Size - 1 =
          byteLength (key ++ ['['] ++ init) + (c.utf8Size - 1) := by
        rw [byteLength_append (key ++ ['['])]
        omega
      rw [slice, hstop, ← List.append_assoc, splitBytes_inside _ (by omega) (by omega)]
      split_ifs <;> rfl
    · have hsize := hlast.not.mp hwide
      have hpos := c.utf8Size_pos
      have hstop : byteLength (key ++ ['[']) + byteLength init + c.utf8Size - 1 =
          byteLength (key ++ ['[']) + byteLength init := by omega
      rw [hstop, slice_mid]

end Cutting

section Part

variable {v : Json} {part : Text}

theorem exists_key (h : '[' ∈ part) : ∃ key rest, part = key ++ '[' :: rest ∧ '[' ∉ key :=
  List.eq_append_cons_of_mem h

theorem follow_append (v : Json) (steps steps' : List Step) :
    follow v (steps ++ steps') = (follow v steps).bind fun next => follow next steps' := by
  induction steps generalizing v with
  | nil => rfl
  | cons s steps ih =>
    rw [List.cons_append, follow, follow, Option.bind_assoc]
    exact congrArg _ (funext fun next => ih next)

theorem unsound_iff {key rest : Text} (h : '[' ∉ key) :
    Unsound (key ++ '[' :: rest) ↔ ∀ c, rest.getLast? = some c → 1 < c.utf8Size := by
  constructor
  · rintro ⟨key', rest', heq, hkey', hlast⟩
    have hkey : key = key' := by
      rw [← takeWhile_key h rest, heq, takeWhile_key hkey']
    subst hkey
    obtain rfl := (List.cons.inj (List.append_cancel_left heq)).2
    exact hlast
  · intro hlast
    exact ⟨key, rest, rfl, h, hlast⟩

theorem step_unsound (h : Unsound part) : step v part = none := by
  obtain ⟨key, rest, rfl, hkey, hlast⟩ := h
  rw [step, if_pos (by simp)]
  simp only [takeWhile_key hkey, slice_rest, if_pos hlast]
  rfl

theorem step_sound (h : ¬ Unsound part) :
    step v part = some ((follow v (readPart part)).getD .null) := by
  by_cases hbracket : '[' ∈ part
  · obtain ⟨key, rest, rfl, hkey⟩ := exists_key hbracket
    rw [unsound_iff hkey] at h
    rw [step, if_pos hbracket, readPart, if_pos hbracket]
    simp only [takeWhile_key hkey, slice_rest, if_neg h, drop_key, Option.map_some,
      Option.some.injEq]
    by_cases hnil : key = []
    · simp [hnil, follow, Step.from]
    · simp [hnil, follow, Step.from]
  · rw [step, if_neg hbracket, readPart, if_neg hbracket]
    simp [follow, Step.from]

end Part

section Parts

variable {v : Json}

theorem isNull_iff {x : Json} : isNull x = true ↔ x = .null := by
  cases x <;> simp [isNull]

theorem follow_null (steps : List Step) : (follow .null steps).getD .null = .null := by
  cases steps with
  | nil => rfl
  | cons s steps => cases s <;> rfl

theorem run_sound {parts : List Text} (h : ∀ part ∈ parts, ¬ Unsound part) :
    run v parts = some ((follow v (parts.flatMap readPart)).getD .null) := by
  induction parts generalizing v with
  | nil => rfl
  | cons part parts ih =>
    obtain ⟨hpart, hparts⟩ := List.forall_mem_cons.mp h
    rw [run, step_sound hpart, Option.bind_some, List.flatMap_cons, follow_append]
    cases hnext : follow v (readPart part) with
    | none => rfl
    | some next =>
      show (if isNull next then some next else run next parts) = _
      split_ifs with hnull
      · rw [isNull_iff.mp hnull]
        show _ = some ((follow .null _).getD .null)
        rw [follow_null]
      · exact ih hparts

theorem run_eq_none_iff {parts : List Text} : run v parts = none ↔
    ∃ before part after, parts = before ++ part :: after ∧ Unsound part ∧
      (∀ p ∈ before, ¬ Unsound p) ∧
        (before = [] ∨ ∃ x, follow v (before.flatMap readPart) = some x ∧ x ≠ .null) := by
  induction parts generalizing v with
  | nil =>
    refine iff_of_false (Option.some_ne_none v) ?_
    rintro ⟨before, part, after, hparts, -⟩
    simp at hparts
  | cons part parts ih =>
    by_cases hpart : Unsound part
    · refine iff_of_true (by rw [run, step_unsound hpart]; rfl) ?_
      exact ⟨[], part, parts, rfl, hpart, List.forall_mem_nil _, .inl rfl⟩
    · rw [run, step_sound hpart, Option.bind_some]
      constructor
      · intro hnone
        split_ifs at hnone with hnull
        obtain ⟨before, part', after, rfl, hbad, hgood, hreach⟩ := ih.mp hnone
        refine ⟨part :: before, part', after, rfl, hbad, List.forall_mem_cons.mpr ⟨hpart, hgood⟩,
          .inr ?_⟩
        cases hnext : follow v (readPart part) with
        | none =>
          rw [hnext] at hnull
          exact absurd rfl hnull
        | some next =>
          rw [hnext] at hnull hreach
          rw [List.flatMap_cons, follow_append, hnext, Option.bind_some]
          rcases hreach with rfl | hreach
          · exact ⟨next, rfl, fun h => hnull (isNull_iff.mpr h)⟩
          · exact hreach
      · rintro ⟨before, part', after, hparts, hbad, hgood, hreach⟩
        cases before with
        | nil => exact absurd ((List.cons.inj hparts).1 ▸ hbad) hpart
        | cons first before =>
          obtain ⟨rfl, rfl⟩ := List.cons.inj hparts
          obtain ⟨x, hx, hne⟩ := hreach.resolve_left (List.cons_ne_nil _ _)
          rw [List.flatMap_cons, follow_append] at hx
          obtain ⟨next, hnext, hrest⟩ := Option.bind_eq_some_iff.mp hx
          have hnull : ¬ isNull next = true := by
            intro hnull
            have hlost := follow_null (before.flatMap readPart)
            rw [isNull_iff.mp hnull] at hrest
            rw [hrest] at hlost
            exact hne hlost
          rw [hnext, Option.getD_some, if_neg hnull]
          exact ih.mpr ⟨before, part', after, rfl, hbad, (List.forall_mem_cons.mp hgood).2,
            .inr ⟨x, hrest, hne⟩⟩

theorem query_eq_none_iff (path : Text) : query v path = none ↔ Stuck v path := by
  rw [query, Option.map_eq_none_iff, run_eq_none_iff]
  rfl

end Parts

/-! ### Printed paths -/

section Printed

def Group.text (g : Group) : Text := g.1 ++ g.2.flatMap indexText

def Group.Plain (g : Group) : Prop := '.' ∉ g.1 ∧ '[' ∉ g.1

theorem parseUsize_digits (i : ℕ) :
    (parseUsize (Nat.toDigits 10 i)).getD 0 = if i < 2 ^ 64 then i else 0 := by
  have hdigit : ∀ c ∈ Nat.toDigits 10 i, c.isDigit :=
    fun c hc => Nat.isDigit_of_mem_toDigits (by decide) (by decide) hc
  have hdigits : (Nat.toDigits 10 i).all Char.isDigit = true := List.all_eq_true.mpr hdigit
  have hne : Nat.toDigits 10 i ≠ [] := Nat.toDigits_ne_nil
  have hvalue : Nat.ofDigitChars 10 (Nat.toDigits 10 i) 0 = i := Nat.ofDigitChars_ten_toDigits
  have hplus : dropPlus (Nat.toDigits 10 i) = Nat.toDigits 10 i := by
    unfold dropPlus
    split
    · next rest h =>
      have hplus : ('+' : Char).isDigit := hdigit '+' (by rw [h]; exact List.mem_cons_self)
      exact absurd hplus (by decide)
    · rfl
  rw [parseUsize, hplus, hvalue]
  by_cases hi : i < 2 ^ 64
  · rw [if_pos ⟨hne, hdigits, hi⟩, if_pos hi]
    rfl
  · rw [if_neg fun hall => hi hall.2.2, if_neg hi]
    rfl

theorem parseUsize_bracket {t : Text} (h : ']' ∈ t) : parseUsize t = none := by
  have hmem : ']' ∈ dropPlus t := by
    unfold dropPlus
    split
    · simpa using h
    · exact h
  refine if_neg fun hall => ?_
  have hdigit := List.all_eq_true.mp hall.2.1 ']' hmem
  exact absurd hdigit (by decide)

theorem readPart_bracket {k : Text} (hk : '[' ∉ k) (rest : Text) : readPart (k ++ '[' :: rest) =
    (if k = [] then [] else [.key k]) ++ [.index ((parseUsize rest.dropLast).getD 0)] := by
  rw [readPart, if_pos (by simp)]
  simp only [takeWhile_key hk, drop_key]

theorem readPart_group {g : Group} (hg : g.Plain) :
    ¬ Unsound g.text ∧ readPart g.text = readGroup g := by
  obtain ⟨k, is⟩ := g
  obtain ⟨-, hk⟩ := hg
  have hclose : (']' : Char).utf8Size = 1 := rfl
  cases is with
  | nil =>
    have htext : Group.text (k, []) = k := List.append_nil k
    rw [htext]
    constructor
    · rintro ⟨key, rest, rfl, -⟩
      exact hk (by simp)
    · exact if_neg hk
  | cons i is =>
    -- the last character is a closing bracket
    obtain ⟨middle, htext, hmiddle⟩ : ∃ middle, Group.text (k, i :: is) =
        k ++ '[' :: (middle ++ [']']) ∧
          (is = [] ∧ middle = Nat.toDigits 10 i ∨ is ≠ [] ∧ ']' ∈ middle) := by
      induction is using List.reverseRecOn with
      | nil => exact ⟨Nat.toDigits 10 i, by simp [Group.text, indexText], .inl ⟨rfl, rfl⟩⟩
      | append_singleton is j _ =>
        refine ⟨Nat.toDigits 10 i ++ ']' :: (is.flatMap indexText ++ '[' :: Nat.toDigits 10 j), ?_,
          .inr ⟨by simp, by simp⟩⟩
        simp [Group.text, indexText]
    rw [htext, unsound_iff hk, readPart_bracket hk, List.dropLast_concat]
    constructor
    · intro hwide
      have hlast := hwide ']' (by simp)
      omega
    · rcases hmiddle with ⟨rfl, rfl⟩ | ⟨hne, hmem⟩
      · rw [parseUsize_digits]
        rfl
      · rw [parseUsize_bracket hmem]
        cases is with
        | nil => exact absurd rfl hne
        | cons j is => rfl

def joined (gs : List Group) : Text := ['.'].intercalate (gs.map Group.text)

def behind (gs : List Group) : Text := gs.flatMap fun g => '.' :: g.text

theorem joined_cons (g : Group) (gs : List Group) : joined (g :: gs) = g.text ++ behind gs := by
  induction gs generalizing g with
  | nil => simp [joined, behind]
  | cons next gs ih =>
    have hnext := ih next
    simp only [joined, behind, List.map_cons, List.flatMap_cons] at hnext ⊢
    rw [List.intercalate_cons_cons, hnext]
    simp

theorem dot_notMem_indexText (i : ℕ) : '.' ∉ indexText i := by
  intro h
  simp only [indexText, List.mem_cons, List.mem_append, List.not_mem_nil, or_false] at h
  rcases h with h | h | h
  · exact absurd h (by decide)
  · exact absurd (Nat.isDigit_of_mem_toDigits (by decide) (by decide) h) (by decide)
  · exact absurd h (by decide)

theorem Group.Plain.dot {g : Group} (h : g.Plain) : '.' ∉ g.text := by
  rw [Group.text, List.mem_append, List.mem_flatMap, not_or]
  refine ⟨h.1, ?_⟩
  rintro ⟨i, -, hi⟩
  exact dot_notMem_indexText i hi

theorem splitOn_joined {gs : List Group} (hne : gs ≠ []) (h : ∀ g ∈ gs, g.Plain) :
    (joined gs).splitOn '.' = gs.map Group.text := by
  refine List.splitOn_intercalate '.' ?_ fun hnil => hne (List.map_eq_nil_iff.mp hnil)
  intro t ht
  obtain ⟨g, hg, rfl⟩ := List.mem_map.mp ht
  exact (h g hg).dot

theorem print_eq (steps : List Step) : print steps =
    '$' :: ((spread steps).1.flatMap indexText ++ behind (spread steps).2) := by
  rw [print]
  congr 1
  induction steps with
  | nil => rfl
  | cons s steps ih =>
    cases s with
    | key k =>
      rw [List.flatMap_cons, ih]
      simp [spread, Step.text, behind, Group.text]
    | index i =>
      rw [List.flatMap_cons, ih]
      simp [spread, Step.text]

theorem trimStartMatches_of_none {pat t : Text} (h : ¬ pat <+: t) :
    trimStartMatches pat t = t := by
  rw [trimStartMatches, dif_neg fun hboth => h hboth.2]

theorem trimStartMatches_dollar (t : Text) :
    trimStartMatches "$".toList t = t.dropWhile (· = '$') := by
  show trimStartMatches ['$'] t = _
  induction t with
  | nil => exact trimStartMatches_of_none (by decide)
  | cons c t ih =>
    by_cases hc : c = '$'
    · subst hc
      rw [trimStartMatches, dif_pos ⟨by decide, by simp⟩]
      simpa using ih
    · rw [trimStartMatches_of_none (by simpa using Ne.symm hc)]
      simp [hc]

theorem trimStartMatches_dollarDot (t : Text) :
    trimStartMatches "$.".toList ('$' :: '.' :: t) = trimStartMatches "$.".toList t := by
  show trimStartMatches ['$', '.'] _ = trimStartMatches ['$', '.'] t
  rw [trimStartMatches, dif_pos ⟨by decide, by simp⟩]
  rfl

theorem behind_cases (is : List ℕ) (gs : List Group) :
    is.flatMap indexText ++ behind gs = [] ∨
      (∃ t, is.flatMap indexText ++ behind gs = '[' :: t) ∨
      is = [] ∧ gs ≠ [] ∧ ∃ t, behind gs = '.' :: t := by
  cases is with
  | cons i is => exact .inr (.inl ⟨_, rfl⟩)
  | nil =>
    cases gs with
    | nil => exact .inl rfl
    | cons g gs => exact .inr (.inr ⟨rfl, List.cons_ne_nil g gs, _, rfl⟩)

theorem dropWhile_key (k : Text) (is : List ℕ) (gs : List Group) :
    (k ++ (is.flatMap indexText ++ behind gs)).dropWhile (· = '$') =
      k.dropWhile (· = '$') ++ (is.flatMap indexText ++ behind gs) := by
  induction k with
  | nil =>
    rcases behind_cases is gs with hnil | ⟨t, ht⟩ | ⟨rfl, -, t, ht⟩
    · rw [hnil]
      rfl
    · rw [ht]
      rfl
    · rw [ht]
      rfl
  | cons c k ih =>
    rw [List.cons_append, List.dropWhile_cons, List.dropWhile_cons]
    split_ifs
    · exact ih
    · rfl

theorem not_dollarDot {k : Text} (is : List ℕ) (gs : List Group) (hk : '.' ∉ k)
    (h : ¬ (k = ['$'] ∧ is = [] ∧ gs ≠ [])) :
    ¬ "$.".toList <+: k ++ (is.flatMap indexText ++ behind gs) := by
  show ¬ ['$', '.'] <+: _
  intro hpre
  match k with
  | [] =>
    rcases behind_cases is gs with hnil | ⟨t, ht⟩ | ⟨rfl, -, t, ht⟩
    · simp [hnil] at hpre
    · simp [ht] at hpre
    · simp [ht] at hpre
  | [c] =>
    obtain ⟨rfl, hdot⟩ := List.cons_prefix_cons.mp hpre
    rcases behind_cases is gs with hnil | ⟨t, ht⟩ | ⟨rfl, hgs, -⟩
    · simp [hnil] at hdot
    · simp [ht] at hdot
    · exact h ⟨rfl, rfl, hgs⟩
  | c :: d :: k =>
    obtain ⟨-, hdot⟩ := List.cons_prefix_cons.mp hpre
    obtain ⟨rfl, -⟩ := List.cons_prefix_cons.mp hdot
    exact hk (by simp)

theorem trim_groups (g : Group) (gs : List Group) (hplain : ∀ g' ∈ g :: gs, g'.Plain) :
    trimStartMatches "$".toList (trimStartMatches "$.".toList (g.text ++ behind gs)) =
      joined (loseDollars (g :: gs)) := by
  induction gs generalizing g with
  | nil =>
    obtain ⟨k, is⟩ := g
    have hk := (hplain _ List.mem_cons_self).1
    have hstay := not_dollarDot is [] hk fun h => h.2.2 rfl
    rw [loseDollars, joined_cons, Group.text, List.append_assoc,
      trimStartMatches_of_none hstay, trimStartMatches_dollar, dropWhile_key, Group.text,
      List.append_assoc]
  | cons next gs ih =>
    obtain ⟨k, is⟩ := g
    obtain ⟨hg, hrest⟩ := List.forall_mem_cons.mp hplain
    rw [loseDollars]
    split_ifs with hlost
    · obtain ⟨rfl, rfl⟩ := hlost
      have htext : Group.text (['$'], []) ++ behind (next :: gs) =
          '$' :: '.' :: (next.text ++ behind gs) := rfl
      rw [htext, trimStartMatches_dollarDot]
      exact ih next hrest
    · have hstay := not_dollarDot is (next :: gs) hg.1 fun h => hlost ⟨h.1, h.2.1⟩
      rw [joined_cons, Group.text, List.append_assoc, trimStartMatches_of_none hstay,
        trimStartMatches_dollar, dropWhile_key, Group.text, List.append_assoc]

theorem spread_plain {steps : List Step} (h : ∀ k, .key k ∈ steps → '.' ∉ k ∧ '[' ∉ k ∧ ']' ∉ k) :
    ∀ g ∈ (spread steps).2, g.Plain := by
  induction steps with
  | nil => exact List.forall_mem_nil _
  | cons s steps ih =>
    have hrest := ih fun k hk => h k (List.mem_cons_of_mem s hk)
    cases s with
    | index i => exact hrest
    | key k =>
      obtain ⟨hdot, hopen, -⟩ := h k List.mem_cons_self
      exact List.forall_mem_cons.mpr ⟨⟨hdot, hopen⟩, hrest⟩

theorem loseDollars_plain (gs : List Group) (h : ∀ g ∈ gs, g.Plain) :
    ∀ g ∈ loseDollars gs, g.Plain := by
  have hdrop : ∀ k : Text, ∀ is : List ℕ, Group.Plain (k, is) →
      Group.Plain (k.dropWhile (· = '$'), is) := fun k is hk =>
    ⟨fun hmem => hk.1 ((List.dropWhile_suffix _).subset hmem),
      fun hmem => hk.2 ((List.dropWhile_suffix _).subset hmem)⟩
  match gs with
  | [] => exact h
  | [(k, is)] =>
    exact List.forall_mem_singleton.mpr (hdrop k is (h _ List.mem_cons_self))
  | (k, is) :: next :: rest =>
    obtain ⟨hg, hrest⟩ := List.forall_mem_cons.mp h
    rw [loseDollars]
    split_ifs
    · exact loseDollars_plain (next :: rest) hrest
    · exact List.forall_mem_cons.mpr ⟨hdrop k is hg, hrest⟩

theorem loseDollars_ne_nil (g : Group) (gs : List Group) : loseDollars (g :: gs) ≠ [] := by
  induction gs generalizing g with
  | nil => exact List.cons_ne_nil _ _
  | cons next gs ih =>
    obtain ⟨k, is⟩ := g
    rw [loseDollars]
    split_ifs
    · exact ih next
    · exact List.cons_ne_nil _ _

theorem clean_print (p : Path) : clean (print p.steps) = joined (groups p.steps) ∧
    groups p.steps ≠ [] ∧ ∀ g ∈ groups p.steps, g.Plain := by
  have hplain := spread_plain p.plain
  rw [clean, print_eq, groups]
  generalize spread p.steps = s at hplain
  obtain ⟨is, gs⟩ := s
  split
  · next next rest heq =>
    obtain ⟨rfl, rfl⟩ := Prod.mk.inj heq
    refine ⟨?_, loseDollars_ne_nil next rest, loseDollars_plain _ hplain⟩
    rw [← trim_groups next rest hplain]
    exact congrArg _ (trimStartMatches_dollarDot _)
  · next is' gs' hne heq =>
    obtain ⟨rfl, rfl⟩ := Prod.mk.inj heq
    have hopen : ∀ t, is.flatMap indexText ++ behind gs ≠ '.' :: t := by
      intro t ht
      rcases behind_cases is gs with hnil | ⟨u, hu⟩ | ⟨rfl, hgs, -⟩
      · rw [hnil] at ht
        cases ht
      · rw [hu] at ht
        cases ht
      · obtain ⟨next, rest, rfl⟩ := List.exists_cons_of_ne_nil hgs
        exact hne next rest rfl rfl
    have hstay : ¬ "$.".toList <+: '$' :: (is.flatMap indexText ++ behind gs) := by
      show ¬ ['$', '.'] <+: _
      rintro ⟨t, ht⟩
      exact hopen t (List.cons.inj ht).2.symm
    refine ⟨?_, List.cons_ne_nil _ _, List.forall_mem_cons.mpr ⟨⟨nofun, nofun⟩, hplain⟩⟩
    rw [trimStartMatches_of_none hstay, trimStartMatches_dollar, joined_cons]
    exact dropWhile_key [] is gs

theorem query_print (v : Json) (p : Path) : query v (print p.steps) =
    some ((follow v (asRead p.steps)).getD .null,
      !isNull ((follow v (asRead p.steps)).getD .null)) := by
  obtain ⟨hclean, hne, hplain⟩ := clean_print p
  have hsound : ∀ part ∈ (groups p.steps).map Group.text, ¬ Unsound part := by
    intro part hpart
    obtain ⟨g, hg, rfl⟩ := List.mem_map.mp hpart
    exact (readPart_group (hplain g hg)).1
  have hread : ((groups p.steps).map Group.text).flatMap readPart = asRead p.steps := by
    rw [asRead, List.flatMap_map]
    exact List.flatMap_congr fun g hg => (readPart_group (hplain g hg)).2
  rw [query, hclean, splitOn_joined hne hplain, run_sound hsound, hread]
  rfl

end Printed

section Answers

variable {fromStr : Text → Option Json} {input v : Json} {path : Text}

theorem jsonQuery_of_calls (h : Calls fromStr input v path) :
    jsonQuery fromStr input = (query v path).map .ok := by
  obtain ⟨⟨data, hdata, hobj⟩, hpath⟩ := h
  rw [jsonQuery, hdata]
  dsimp only
  rw [hpath]
  dsimp only
  rw [hobj]

theorem calls_object (v : Json) (path : Text) :
    Calls (fun _ => some v) (.object [("data".toList, .string []), ("query".toList, .string path)])
      v path := ⟨⟨[], rfl, rfl⟩, rfl⟩

theorem jsonQuery_eq_none_iff (fromStr : Text → Option Json) (input : Json) :
    jsonQuery fromStr input = none ↔ ∃ v path, Calls fromStr input v path ∧ Stuck v path := by
  constructor
  · intro hnone
    unfold jsonQuery at hnone
    split at hnone
    · cases hnone
    · next data hdata =>
      split at hnone
      · cases hnone
      · next path hpath =>
        split at hnone
        · cases hnone
        · next obj hobj =>
          refine ⟨obj, path, ⟨⟨data, hdata, hobj⟩, hpath⟩, ?_⟩
          exact (query_eq_none_iff path).mp (Option.map_eq_none_iff.mp hnone)
  · rintro ⟨v, path, hcalls, hstuck⟩
    rw [jsonQuery_of_calls hcalls, (query_eq_none_iff path).mpr hstuck]
    rfl

theorem right_iff (v : Json) (p : Path) : Right v p ↔ follow v p.steps ≠ some .null ∧
    (follow v (asRead p.steps)).getD .null = (follow v p.steps).getD .null := by
  have hcall : Right v p ↔ query v (print p.steps) = some (match follow v p.steps with
      | some x => (x, true)
      | none => (.null, false)) := by
    constructor
    · intro h
      have hanswer := h _ _ (calls_object v (print p.steps))
      rw [jsonQuery_of_calls (calls_object v _)] at hanswer
      obtain ⟨answer, hquery, hok⟩ := Option.map_eq_some_iff.mp hanswer
      rw [hquery, Except.ok.inj hok]
    · intro h fromStr input hcalls
      rw [jsonQuery_of_calls hcalls, h]
      rfl
  rw [hcall, query_print, Option.some.injEq]
  generalize (follow v (asRead p.steps)).getD .null = r
  cases follow v p.steps with
  | none =>
    show (r, !isNull r) = (.null, false) ↔ _
    constructor
    · intro h
      exact ⟨nofun, (Prod.mk.inj h).1⟩
    · rintro ⟨-, rfl⟩
      rfl
  | some x =>
    show (r, !isNull r) = (x, true) ↔ _
    constructor
    · intro h
      obtain ⟨rfl, hfound⟩ := Prod.mk.inj h
      refine ⟨fun hnull => ?_, rfl⟩
      rw [Option.some.inj hnull] at hfound
      cases hfound
    · rintro ⟨hne, rfl⟩
      have hfound : isNull r = false := by
        rw [← Bool.not_eq_true, isNull_iff]
        exact fun hnull => hne (congrArg some hnull)
      show (r, !isNull r) = (r, true)
      rw [hfound]
      rfl

end Answers

/-! ### Readable paths -/

section Readable

/-- A value in which there is only what a path leads to. -/
def spell : List Step → Json
  | [] => .bool true
  | .key k :: steps => .object [(k, spell steps)]
  | .index i :: steps => .array (List.replicate i .null ++ [spell steps])

theorem item_spell (i j : ℕ) (steps : List Step) :
    item (spell (.index i :: steps)) j =
      if j < i then some .null else if j = i then some (spell steps) else none := by
  show (List.replicate i Json.null ++ [spell steps])[j]? = _
  split_ifs with hlt heq
  · rw [List.getElem?_append_left (by simpa using hlt)]
    simp [hlt]
  · rw [heq, List.getElem?_append_right (by simp)]
    simp
  · rw [List.getElem?_eq_none]
    simp
    omega

theorem get_spell (k k' : Text) (steps : List Step) :
    (spell (.key k :: steps)).get k' = if k = k' then some (spell steps) else none := by
  by_cases hk : k = k' <;> simp [spell, Json.get, hk]

theorem follow_spell (steps : List Step) : follow (spell steps) steps = some (.bool true) := by
  induction steps with
  | nil => rfl
  | cons s steps ih =>
    cases s with
    | key k =>
      rw [follow, Step.from, get_spell, if_pos rfl]
      exact ih
    | index i =>
      rw [follow, Step.from, item_spell, if_neg (Nat.lt_irrefl i), if_pos rfl]
      exact ih

theorem eq_of_follow_spell {steps steps' : List Step}
    (h : follow (spell steps) steps' = some (.bool true)) : steps' = steps := by
  induction steps generalizing steps' with
  | nil =>
    cases steps' with
    | nil => rfl
    | cons s steps' => cases s <;> cases h
  | cons s steps ih =>
    cases steps' with
    | nil => cases s <;> cases h
    | cons s' steps' =>
      obtain ⟨next, hnext, hrest⟩ := Option.bind_eq_some_iff.mp h
      cases s with
      | key k =>
        cases s' with
        | index j => cases hnext
        | key k' =>
          rw [Step.from, get_spell] at hnext
          split_ifs at hnext with hk
          obtain rfl := Option.some.inj hnext
          rw [hk, ih hrest]
      | index i =>
        cases s' with
        | key k' => cases hnext
        | index j =>
          rw [Step.from, item_spell] at hnext
          split_ifs at hnext with hlt heq
          · obtain rfl := Option.some.inj hnext
            have hnull := follow_null steps'
            rw [hrest] at hnull
            cases hnull
          · obtain rfl := Option.some.inj hnext
            rw [heq, ih hrest]

theorem forall_right_iff (p : Path) :
    (∀ v, follow v p.steps ≠ some .null → Right v p) ↔ asRead p.steps = p.steps := by
  constructor
  · intro h
    have hspell := follow_spell p.steps
    have hright := h (spell p.steps) fun hnull => by
      rw [hspell] at hnull
      cases hnull
    have hsame := ((right_iff _ p).mp hright).2
    rw [hspell] at hsame
    refine eq_of_follow_spell ?_
    cases hread : follow (spell p.steps) (asRead p.steps) with
    | none =>
      rw [hread] at hsame
      cases hsame
    | some x =>
      rw [hread] at hsame
      exact congrArg some hsame
  · intro h v hne
    exact (right_iff v p).mpr ⟨hne, by rw [h]⟩

def Group.steps (g : Group) : List Step := .key g.1 :: g.2.map .index

theorem spread_steps (steps : List Step) :
    steps = (spread steps).1.map .index ++ (spread steps).2.flatMap Group.steps := by
  induction steps with
  | nil => rfl
  | cons s steps ih =>
    cases s with
    | index i => exact congrArg _ ih
    | key k => exact congrArg _ ih

theorem length_readGroup_le (k k' : Text) (is : List ℕ) :
    (readGroup (k, is)).length ≤ (Group.steps (k', is)).length := by
  match is with
  | [] => exact le_refl _
  | [i] =>
    simp only [readGroup, Group.steps]
    split_ifs <;> simp
  | i :: j :: is =>
    simp only [readGroup, Group.steps]
    split_ifs <;> simp

theorem readGroup_eq_iff (k : Text) (is : List ℕ) : readGroup (k, is) = Group.steps (k, is) ↔
    is.length ≤ 1 ∧ (k = [] → is = []) ∧ ∀ i ∈ is, i < 2 ^ 64 := by
  match is with
  | [] => simp [readGroup, Group.steps]
  | [i] =>
    by_cases hk : k = []
    · simp [readGroup, Group.steps, hk]
    · simp [readGroup, Group.steps, hk]
      omega
  | i :: j :: is =>
    refine iff_of_false (fun h => ?_) fun h => ?_
    · have hlen := congrArg List.length h
      simp only [readGroup, Group.steps] at hlen
      split_ifs at hlen <;> simp at hlen
    · simp at h

theorem readGroup_dropWhile_iff (k : Text) (is : List ℕ) :
    readGroup (k.dropWhile (· = '$'), is) = Group.steps (k, is) ↔
      k.head? ≠ some '$' ∧ readGroup (k, is) = Group.steps (k, is) := by
  cases k with
  | nil => simp
  | cons c k =>
    by_cases hc : c = '$'
    · subst hc
      refine iff_of_false (fun h => ?_) fun h => h.1 rfl
      have hshort : ('$' :: k).dropWhile (· = '$') ≠ '$' :: k := by
        intro heq
        have hlen := (List.dropWhile_suffix (l := k) (· = '$')).length_le
        rw [List.dropWhile_cons_of_pos (by simp)] at heq
        rw [heq, List.length_cons] at hlen
        omega
      generalize ('$' :: k).dropWhile (· = '$') = k' at h hshort
      have hhead : (readGroup (k', is)).head? = some (.key ('$' :: k)) := by
        rw [h]
        rfl
      match is with
      | [] => exact hshort (Step.key.inj (Option.some.inj hhead))
      | [i] =>
        by_cases hk : k' = []
        · simp [readGroup, hk] at hhead
        · simp [readGroup, hk] at hhead
          exact hshort hhead
      | i :: j :: is =>
        by_cases hk : k' = []
        · simp [readGroup, hk] at hhead
        · simp [readGroup, hk] at hhead
          exact hshort hhead
    · simp [hc]

theorem flatMap_eq_iff {α β : Type} {f g : α → List β} {l : List α}
    (h : ∀ a ∈ l, (f a).length ≤ (g a).length) :
    (l.flatMap f).length ≤ (l.flatMap g).length ∧
      (l.flatMap f = l.flatMap g ↔ ∀ a ∈ l, f a = g a) := by
  induction l with
  | nil => simp
  | cons a l ih =>
    obtain ⟨ha, hl⟩ := List.forall_mem_cons.mp h
    obtain ⟨hle, hiff⟩ := ih hl
    rw [List.flatMap_cons, List.flatMap_cons, List.forall_mem_cons, ← hiff, List.length_append,
      List.length_append]
    refine ⟨Nat.add_le_add ha hle, fun heq => ?_, fun ⟨h₁, h₂⟩ => by rw [h₁, h₂]⟩
    have hlen := congrArg List.length heq
    rw [List.length_append, List.length_append] at hlen
    exact List.append_inj heq (by omega)

theorem flatMap_readGroup (gs : List Group) :
    (gs.flatMap readGroup).length ≤ (gs.flatMap Group.steps).length ∧
      (gs.flatMap readGroup = gs.flatMap Group.steps ↔ ∀ g ∈ gs, readGroup g = g.steps) :=
  flatMap_eq_iff fun g _ => length_readGroup_le g.1 g.1 g.2

theorem length_loseDollars_le (gs : List Group) :
    ((loseDollars gs).flatMap readGroup).length ≤ (gs.flatMap Group.steps).length := by
  match gs with
  | [] => exact le_refl _
  | [(k, is)] =>
    simpa [loseDollars] using length_readGroup_le (k.dropWhile (· = '$')) k is
  | (k, is) :: next :: rest =>
    rw [loseDollars]
    split_ifs
    · have hle := length_loseDollars_le (next :: rest)
      rw [List.flatMap_cons, List.length_append]
      omega
    · have hle := (flatMap_readGroup (next :: rest)).1
      have hfirst := length_readGroup_le (k.dropWhile (· = '$')) k is
      simp only [List.flatMap_cons, List.length_append] at hle ⊢
      omega

theorem loseDollars_eq_iff (k : Text) (is : List ℕ) (gs : List Group) :
    (loseDollars ((k, is) :: gs)).flatMap readGroup = ((k, is) :: gs).flatMap Group.steps ↔
      k.head? ≠ some '$' ∧ ∀ g ∈ (k, is) :: gs, readGroup g = Group.steps g := by
  have hkept : ((k.dropWhile (· = '$'), is) :: gs).flatMap readGroup =
      ((k, is) :: gs).flatMap Group.steps ↔
      k.head? ≠ some '$' ∧ ∀ g ∈ (k, is) :: gs, readGroup g = Group.steps g := by
    obtain ⟨hle, hiff⟩ := flatMap_readGroup gs
    have hfirst := length_readGroup_le (k.dropWhile (· = '$')) k is
    rw [List.flatMap_cons, List.flatMap_cons, List.forall_mem_cons, ← and_assoc,
      ← readGroup_dropWhile_iff, ← hiff]
    refine ⟨fun heq => ?_, fun ⟨h₁, h₂⟩ => by rw [h₁, h₂]⟩
    have hlen := congrArg List.length heq
    rw [List.length_append, List.length_append] at hlen
    exact List.append_inj heq (by omega)
  cases gs with
  | nil => exact hkept
  | cons next rest =>
    rw [loseDollars]
    split_ifs with hlost
    · obtain ⟨rfl, rfl⟩ := hlost
      refine iff_of_false (fun heq => ?_) fun h => h.1 rfl
      have hle := length_loseDollars_le (next :: rest)
      rw [heq, List.flatMap_cons, List.length_append] at hle
      simp [Group.steps] at hle
    · exact hkept

theorem readGroup_start (i : ℕ) (is : List ℕ) : (readGroup ([], i :: is)).length = 1 ∧
    (readGroup ([], i :: is) = (i :: is).map Step.index ↔
      (i :: is).length ≤ 1 ∧ ∀ j ∈ i :: is, j < 2 ^ 64) := by
  cases is with
  | nil =>
    refine ⟨rfl, ?_⟩
    simp [readGroup]
    omega
  | cons j is => exact ⟨rfl, iff_of_false (fun h => nomatch h) fun h => absurd h.1 (by simp)⟩

theorem chain_iff (steps : List Step) :
    (steps.IsChain fun a b => ∀ i, b = .index i → ∃ k, k ≠ [] ∧ a = .key k) ↔
      (spread steps).1.length ≤ 1 ∧
        ∀ g ∈ (spread steps).2, g.2.length ≤ 1 ∧ (g.1 = [] → g.2 = []) := by
  induction steps with
  | nil => simp [spread]
  | cons s steps ih =>
    have hhead : ∀ i, steps.head? = some (.index i) ↔ (spread steps).1.head? = some i := by
      intro i
      cases steps with
      | nil => simp [spread]
      | cons t steps => cases t <;> simp [spread]
    rw [List.isChain_cons, ih]
    cases s with
    | index i =>
      have hnone :
          (∀ b ∈ steps.head?, ∀ j, b = Step.index j → ∃ k, k ≠ [] ∧ Step.index i = .key k) ↔
            (spread steps).1 = [] := by
        constructor
        · intro h
          cases hfirst : (spread steps).1 with
          | nil => rfl
          | cons j is =>
            obtain ⟨k, -, hk⟩ := h _ ((hhead j).mpr (by rw [hfirst]; rfl)) j rfl
            cases hk
        · rintro hnil b hb j rfl
          rw [Option.mem_def, hhead, hnil] at hb
          cases hb
      rw [hnone]
      show _ ↔ (i :: (spread steps).1).length ≤ 1 ∧ ∀ g ∈ (spread steps).2, _
      rw [List.length_cons]
      constructor
      · rintro ⟨hnil, -, hgs⟩
        exact ⟨by rw [hnil]; rfl, hgs⟩
      · rintro ⟨hlen, hgs⟩
        exact ⟨List.length_eq_zero_iff.mp (by omega), by omega, hgs⟩
    | key k =>
      have hkey :
          (∀ b ∈ steps.head?, ∀ j, b = Step.index j → ∃ k', k' ≠ [] ∧ Step.key k = .key k') ↔
            (k = [] → (spread steps).1 = []) := by
        constructor
        · rintro h rfl
          cases hfirst : (spread steps).1 with
          | nil => rfl
          | cons j is =>
            obtain ⟨k', hne, hk⟩ := h _ ((hhead j).mpr (by rw [hfirst]; rfl)) j rfl
            exact absurd (Step.key.inj hk).symm hne
        · rintro h b hb j rfl
          refine ⟨k, fun hnil => ?_, rfl⟩
          rw [Option.mem_def, hhead, h hnil] at hb
          cases hb
      rw [hkey]
      show _ ↔ 0 ≤ 1 ∧ ∀ g ∈ (k, (spread steps).1) :: (spread steps).2, _
      rw [List.forall_mem_cons]
      tauto

theorem small_iff (steps : List Step) : (∀ i, .index i ∈ steps → i < 2 ^ 64) ↔
    (∀ i ∈ (spread steps).1, i < 2 ^ 64) ∧
      ∀ g ∈ (spread steps).2, ∀ i ∈ g.2, i < 2 ^ 64 := by
  induction steps with
  | nil => simp [spread]
  | cons s steps ih =>
    cases s with
    | index i =>
      simp only [List.mem_cons, Step.index.injEq, spread, forall_eq_or_imp, ih, and_assoc]
    | key k =>
      have hrest : (∀ i, Step.index i ∈ Step.key k :: steps → i < 2 ^ 64) ↔
          ∀ i, .index i ∈ steps → i < 2 ^ 64 := by
        simp
      rw [hrest, ih]
      simp [spread]

/-- **The paths that are read as they were meant.** -/
theorem asRead_eq_iff (steps : List Step) : asRead steps = steps ↔ Readable steps := by
  have hreadable : Readable steps ↔ steps ≠ [] ∧
      ((spread steps).1.length ≤ 1 ∧ ∀ i ∈ (spread steps).1, i < 2 ^ 64) ∧
      (∀ g ∈ (spread steps).2, readGroup g = Group.steps g) ∧
      ∀ k, steps.head? = some (.key k) → k.head? ≠ some '$' := by
    have hgroups : (∀ g ∈ (spread steps).2, readGroup g = Group.steps g) ↔
        (∀ g ∈ (spread steps).2, g.2.length ≤ 1 ∧ (g.1 = [] → g.2 = [])) ∧
          ∀ g ∈ (spread steps).2, ∀ i ∈ g.2, i < 2 ^ 64 := by
      rw [← forall₂_and]
      refine forall₂_congr fun g _ => ?_
      rw [← and_assoc.symm]
      exact readGroup_eq_iff g.1 g.2
    rw [hgroups]
    constructor
    · rintro ⟨hne, hchain, hsmall, hfirst⟩
      obtain ⟨hone, hpairs⟩ := (chain_iff steps).mp hchain
      obtain ⟨hstart, hrest⟩ := (small_iff steps).mp hsmall
      exact ⟨hne, ⟨hone, hstart⟩, ⟨hpairs, hrest⟩, hfirst⟩
    · rintro ⟨hne, ⟨hone, hstart⟩, ⟨hpairs, hrest⟩, hfirst⟩
      exact ⟨hne, (chain_iff steps).mpr ⟨hone, hpairs⟩, (small_iff steps).mpr ⟨hstart, hrest⟩,
        hfirst⟩
  rw [hreadable]
  cases steps with
  | nil => exact iff_of_false (by decide) fun h => h.1 rfl
  | cons s steps =>
    cases s with
    | key k =>
      have hspell := spread_steps (.key k :: steps)
      have hread : asRead (.key k :: steps) =
          (loseDollars ((k, (spread steps).1) :: (spread steps).2)).flatMap readGroup := rfl
      rw [hread]
      conv_lhs => rw [hspell]
      show _ = ((k, (spread steps).1) :: (spread steps).2).flatMap Group.steps ↔ _
      rw [loseDollars_eq_iff]
      simpa [spread] using and_comm
    | index i =>
      have hspell := spread_steps (.index i :: steps)
      have hread : asRead (.index i :: steps) =
          readGroup ([], i :: (spread steps).1) ++ (spread steps).2.flatMap readGroup := rfl
      obtain ⟨hle, hiff⟩ := flatMap_readGroup (spread steps).2
      obtain ⟨hone, hstart⟩ := readGroup_start i (spread steps).1
      rw [hread]
      conv_lhs => rw [hspell]
      show _ = (i :: (spread steps).1).map Step.index ++ (spread steps).2.flatMap Group.steps ↔ _
      have hsame : readGroup ([], i :: (spread steps).1) ++ (spread steps).2.flatMap readGroup =
          (i :: (spread steps).1).map Step.index ++ (spread steps).2.flatMap Group.steps ↔
          readGroup ([], i :: (spread steps).1) = (i :: (spread steps).1).map Step.index ∧
            (spread steps).2.flatMap readGroup = (spread steps).2.flatMap Group.steps := by
        refine ⟨fun heq => ?_, fun ⟨h₁, h₂⟩ => by rw [h₁, h₂]⟩
        have hlen := congrArg List.length heq
        rw [List.length_append, List.length_append, hone, List.length_map, List.length_cons] at hlen
        exact List.append_inj heq (by rw [hone, List.length_map, List.length_cons]; omega)
      rw [hsame, hstart, hiff]
      simp [spread]

end Readable

/-- **When the tool does what is documented.**  It is right about a value and a path exactly when
the value is no null and reading the path otherwise makes no difference; it is right about all
values but nulls exactly for the readable paths; and it panics exactly where it is stuck. -/
theorem jsonQuery_iff (v : Json) (p : Path) (fromStr : Text → Option Json) (input : Json) :
    (Right v p ↔ follow v p.steps ≠ some .null ∧
      (follow v (asRead p.steps)).getD .null = (follow v p.steps).getD .null) ∧
    ((∀ v, follow v p.steps ≠ some .null → Right v p) ↔ Readable p.steps) ∧
    (jsonQuery fromStr input = none ↔ ∃ v path, Calls fromStr input v path ∧ Stuck v path) :=
  ⟨right_iff v p, (forall_right_iff p).trans (asRead_eq_iff p.steps),
    jsonQuery_eq_none_iff fromStr input⟩

/-- `$.b[0][1]` -/
def secondOfFirst : Path where
  steps := [.key "b".toList, .index 0, .index 1]
  plain k hk := by
    obtain rfl : k = "b".toList := by simpa using hk
    decide

/-- It is read as `$.b[0]`. -/
theorem not_right : ¬ ((∀ v (p : Path), Right v p) ∧
    ∀ fromStr input, jsonQuery fromStr input ≠ none) := by
  rintro ⟨hright, -⟩
  let matrix : Json := .object [("b".toList, .array [.array [.number ['1'], .number ['2']]])]
  have hsame := ((right_iff matrix secondOfFirst).mp (hright _ _)).2
  have hread : (follow matrix (asRead secondOfFirst.steps)).getD .null =
      .array [.number ['1'], .number ['2']] := rfl
  have hmeant : (follow matrix secondOfFirst.steps).getD .null = .number ['2'] := rfl
  rw [hread, hmeant] at hsame
  cases hsame

end Mowis.Tools.Query
