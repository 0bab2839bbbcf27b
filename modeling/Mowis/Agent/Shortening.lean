import Mowis.Lib.Text

/-!
# Texts that are cut to a length

`truncate` of `summaries.rs` with its calls in `summarize`, `truncate_str` of `conductor.rs`, the
previews of `execute_with_checkpoints` and the output of `run_command`.  All of them cut at a number
of bytes, and a cut inside a character is a panic.
-/

namespace Mowis.Agent.Shortening

open Mowis.Lib (Text)

def byteLength (t : Text) : ℕ := (t.map Char.utf8Size).sum

/-- `&t[..n]`, where `none` is the panic. -/
def sliceTo : Text → ℕ → Option Text
  | _, 0 => some []
  | [], _ + 1 => none
  | c :: cs, n + 1 =>
    if c.utf8Size ≤ n + 1 then (sliceTo cs (n + 1 - c.utf8Size)).map (c :: ·) else none

/-- The text, or its first `limit` bytes and what is put after them. -/
def shorten (limit : ℕ) (ellipsis : ℕ → Text) (t : Text) : Option Text :=
  if byteLength t ≤ limit then some t
  else (sliceTo t limit).map (· ++ ellipsis (byteLength t))

def dots (_ : ℕ) : Text := "...".toList

/-- `truncate` of `summaries.rs`. -/
def truncate (s : Text) (n : ℕ) : Option Text := shorten n dots s

/-- `truncate_str` of `conductor.rs`. -/
def truncateStr (s : Text) (max : ℕ) : Option Text := shorten max dots s

def maxOutputSize : ℕ := 5 * 1024 * 1024

def bytesTotal (total : ℕ) : Text :=
  "... [truncated, ".toList ++ Nat.toDigits 10 total ++ " bytes total]".toList

/-- What `run_command` returns of stdout, and of stderr. -/
def outputOf (out : Text) : Option Text := shorten maxOutputSize bytesTotal out

def preview (resultStr : Text) : Option Text := shorten 200 dots resultStr

def bytesOf (total : ℕ) : Text := "... (".toList ++ Nat.toDigits 10 total ++ " bytes)".toList

def verbosePreview (resultStr : Text) : Option Text := shorten 200 bytesOf resultStr

inductive ToolOutcome
  | ok
  | err (e : Text)
  | denied

/-- The name of a tool, and its arguments that are strings. -/
structure ToolCall where
  name : String
  str : String → Option Text

def ToolOutcome.isOk : ToolOutcome → Bool
  | ok => true
  | _ => false

/-- What `summarize` cuts besides the error. -/
def argumentCuts (call : ToolCall) (success : Bool) : List (Text × ℕ) :=
  let unknown := "<unknown>".toList
  match call.name with
  | "run_command" | "shell_exec" => [((call.str "cmd").getD unknown, 80)]
  | "grep" | "find_files" => if success then [((call.str "pattern").getD unknown, 40)] else []
  | "git_commit" => if success then [((call.str "message").getD [], 50)] else []
  | "http_get" | "http_post" | "http_put" | "http_delete" | "http_patch" =>
    if success then [((call.str "url").getD unknown, 60)] else []
  | "docker_run" => [((call.str "cmd").getD [], 40)]
  | _ => []

/-- The texts that `summarize` passes to `truncate`, with their limits. -/
def cuts (call : ToolCall) (outcome : ToolOutcome) : List (Text × ℕ) :=
  (match outcome with
    | .err e => [(e, 60)]
    | _ => []) ++ argumentCuts call outcome.isOk

/-- A beginning of the text of at most `limit` bytes, which is the text or has the ellipsis after
it. -/
def Shortened (limit : ℕ) (ellipsis : ℕ → Text) (t : Text) (result : Option Text) : Prop :=
  ∃ p, p <+: t ∧ byteLength p ≤ limit ∧
    (p = t ∧ result = some t ∨ result = some (p ++ ellipsis (byteLength t)))

def Fits (limit : ℕ) (t : Text) : Prop :=
  byteLength t ≤ limit ∨ ∃ p, p <+: t ∧ byteLength p = limit

theorem byteLength_cons (c : Char) (t : Text) :
    byteLength (c :: t) = c.utf8Size + byteLength t := by
  rw [byteLength, List.map_cons, List.sum_cons, byteLength]

theorem byteLength_pos {t : Text} (h : t ≠ []) : 0 < byteLength t := by
  obtain ⟨c, cs, rfl⟩ := List.exists_cons_of_ne_nil h
  rw [byteLength_cons]
  exact Nat.add_pos_left c.utf8Size_pos _

theorem sliceTo_eq_some {t p : Text} {n : ℕ} :
    sliceTo t n = some p ↔ p <+: t ∧ byteLength p = n := by
  induction t generalizing p n with
  | nil =>
    cases n with
    | zero => simp +contextual [sliceTo, byteLength, eq_comm]
    | succ n =>
      refine iff_of_false (by simp [sliceTo]) ?_
      rintro ⟨hp, hlen⟩
      rw [List.prefix_nil.mp hp] at hlen
      cases hlen
  | cons c cs ih =>
    cases n with
    | zero =>
      rw [sliceTo, Option.some_inj]
      constructor
      · rintro rfl
        exact ⟨List.nil_prefix, rfl⟩
      · rintro ⟨-, hlen⟩
        by_contra hne
        have hpos := byteLength_pos (Ne.symm hne)
        omega
    | succ n =>
      rw [sliceTo]
      split_ifs with hsize
      · rw [Option.map_eq_some_iff]
        constructor
        · rintro ⟨q, hq, rfl⟩
          obtain ⟨hpre, hlen⟩ := ih.mp hq
          refine ⟨List.cons_prefix_cons.mpr ⟨rfl, hpre⟩, ?_⟩
          rw [byteLength_cons]
          omega
        · rintro ⟨hp, hlen⟩
          cases p with
          | nil => cases hlen
          | cons d q =>
            obtain ⟨rfl, hpre⟩ := List.cons_prefix_cons.mp hp
            rw [byteLength_cons] at hlen
            exact ⟨q, ih.mpr ⟨hpre, by omega⟩, rfl⟩
      · refine iff_of_false (by simp) ?_
        rintro ⟨hp, hlen⟩
        cases p with
        | nil => cases hlen
        | cons d q =>
          obtain ⟨rfl, -⟩ := List.cons_prefix_cons.mp hp
          rw [byteLength_cons] at hlen
          omega

theorem shortened_iff (limit : ℕ) (ellipsis : ℕ → Text) (t : Text) :
    Shortened limit ellipsis t (shorten limit ellipsis t) ↔ Fits limit t := by
  rw [shorten]
  split_ifs with hlen
  · exact iff_of_true ⟨t, List.prefix_refl t, hlen, .inl ⟨rfl, rfl⟩⟩ (.inl hlen)
  · constructor
    · rintro ⟨p, hpre, hp, ⟨rfl, -⟩ | hresult⟩
      · exact absurd hp hlen
      · obtain ⟨q, hq, -⟩ := Option.map_eq_some_iff.mp hresult
        exact .inr ⟨q, sliceTo_eq_some.mp hq⟩
    · rintro (hle | ⟨p, hpre, hp⟩)
      · exact absurd hle hlen
      · refine ⟨p, hpre, hp.le, .inr ?_⟩
        rw [sliceTo_eq_some.mpr ⟨hpre, hp⟩]
        rfl

/-- **When texts are shortened without a panic**: just where a text is short enough or a character
ends at the limit. -/
theorem shortenings_iff (s : Text) (n : ℕ) (call : ToolCall) (outcome : ToolOutcome) :
    (Shortened n dots s (truncate s n) ↔ Fits n s) ∧
    ((∀ cut ∈ cuts call outcome, Shortened cut.2 dots cut.1 (truncate cut.1 cut.2)) ↔
      ∀ cut ∈ cuts call outcome, Fits cut.2 cut.1) ∧
    (Shortened n dots s (truncateStr s n) ↔ Fits n s) ∧
    (Shortened maxOutputSize bytesTotal s (outputOf s) ↔ Fits maxOutputSize s) ∧
    (Shortened 200 dots s (preview s) ↔ Fits 200 s) ∧
    (Shortened 200 bytesOf s (verbosePreview s) ↔ Fits 200 s) := by
  refine ⟨shortened_iff n dots s, ?_, shortened_iff n dots s, shortened_iff _ _ s,
    shortened_iff _ _ s, shortened_iff _ _ s⟩
  exact forall₂_congr fun cut _ => shortened_iff cut.2 dots cut.1

/-- A command of 27 characters of three bytes, whose bytes 79 to 81 are one character. -/
theorem not_shortened : ¬ ∀ call outcome, ∀ cut ∈ cuts call outcome,
    Shortened cut.2 dots cut.1 (truncate cut.1 cut.2) := by
  intro h
  have hcut := h ⟨"run_command", fun _ => some (List.replicate 27 '€')⟩ .ok
    (List.replicate 27 '€', 80) (List.mem_singleton.mpr rfl)
  obtain ⟨p, -, hlen, ⟨rfl, -⟩ | hresult⟩ := hcut
  · exact absurd hlen (by decide)
  · have hpanics : truncate (List.replicate 27 '€') 80 = none := by decide
    cases hpanics.symm.trans hresult

end Mowis.Agent.Shortening
