import Mowis.Lib.Markers

/-!
# The complexity classifier

`classify_complexity` of `agentd/src/orchestration/complexity_classifier.rs`: keywords of the
prompt, and two numbers that are read off a listing of the project, choose one of three pipelines.
-/

namespace Mowis.Routing

open Mowis.Lib

/-- The characters that `tree` draws with. -/
def isDecoration (c : Char) : Bool :=
  c == '├' || c == '└' || c == '─' || c == '│' || c == ' '

def isSeparator (c : Char) : Bool := isDecoration c || isWhitespace c || c == '/'

/-- `str::to_lowercase`.  It goes word by word, as the form of a sigma depends on the letters
next to it. -/
structure Lowercase where
  lower : Text → Text
  nil : lower [] = []
  nonempty : ∀ t, lower t = [] → t = []
  separate : ∀ c, isSeparator c = true → ∀ t u, lower (t ++ c :: u) = lower t ++ c :: lower u
  separator : ∀ c, isSeparator c = true → ∀ t, c ∈ lower t → c ∈ t

def contains (text pattern : Text) : Bool := (splitFirst pattern text).isSome

def greenfieldKeywords : List String :=
  ["for my ", "for our ", "a new ", "an new ", "brand new", "from scratch", "a website",
    "a web app", "a webapp", "a landing page", "a dashboard", "a portfolio", "a blog", "an app",
    "a mobile app", "a cli", "a script", "a tool", "a chatbot", "a bot", "a game", "an api",
    "a rest api", "a graphql api", "a plugin", "an extension", "a page", "a form", "a component",
    "a service", "a microservice"]

def singleArtifactKeywords : List String :=
  ["website", "landing page", "web page", "webpage", "portfolio", "blog", "dashboard",
    "admin panel", "mobile app", "ios app", "android app", "chrome extension",
    "browser extension", "vscode plugin", "cli tool", "command line tool", "a script", "a bot",
    "a chatbot", "a game", "a calculator"]

def domainDirs : List String :=
  ["frontend", "backend", "api", "server", "client", "web", "mobile", "ios", "android", "infra",
    "infrastructure", "terraform", "k8s", "kubernetes", "docker", "services", "microservices",
    "packages", "apps", "libs", "shared", "common", "core", "platform"]

def broadScopeKeywords : List String :=
  ["entire", "all", "whole", "full", "complete", "migrate", "migration", "refactor", "rewrite",
    "architecture", "redesign", "overhaul", "system", "platform", "rebuild", "from scratch"]

def crossServiceKeywords : List String :=
  ["integration", "end-to-end", "e2e", "cross-service", "cross service", "microservice",
    "service mesh", "api gateway", "inter-service", "frontend.*backend", "backend.*frontend",
    "full.?stack", "fullstack"]

def simpleActionKeywords : List String :=
  ["fix", "rename", "typo", "add a", "add an", "update a", "update an", "change a", "change an",
    "delete a", "delete an", "remove a", "remove an", "move a", "move an", "correct", "tweak",
    "adjust", "format", "comment", "uncomment", "patch"]

/-- `str::split` with a pattern that is not empty. -/
def splitAll (pattern t : Text) : List Text :=
  match _h : splitFirst pattern t with
  | none => [t]
  | some (before, after) => if _hp : pattern = [] then [t] else before :: splitAll pattern after
termination_by t.length
decreasing_by exact splitFirst_length _hp _h

/-- `replace` with nothing. -/
def removeAll (pattern t : Text) : Text := (splitAll pattern t).flatten

def partsInOrder : List Text → Text → Bool
  | [], _ => true
  | part :: parts, text =>
    let sub := removeAll ".?".toList part
    if sub = [] then partsInOrder parts text
    else
      match splitFirst sub text with
      | some (_, after) => partsInOrder parts after
      | none => false

def regexContains (text pattern : Text) : Bool :=
  if !contains pattern ".*".toList && !contains pattern ".?".toList then contains text pattern
  else
    match splitAll ".*".toList pattern with
    | [_] => contains text (removeAll ".?".toList pattern)
    | parts => partsInOrder parts text

/-- A line counts as a file unless it is empty or ends in a slash, but for what it is drawn with. -/
def isFileLine (line : Text) : Bool :=
  let name := (trim line).dropWhile isDecoration
  !name.isEmpty && name.getLast? != some '/'

def countFiles (dirTree : Text) : ℕ := (lines dirTree).countP isFileLine

def domainOf (lc : Lowercase) (line : Text) : Option Text :=
  let clean := ((lc.lower (trim line)).dropWhile isDecoration).rdropWhile (· == '/')
  if (domainDirs.map String.toList).contains clean then some clean else none

def countDomains (lc : Lowercase) (dirTree : Text) : ℕ :=
  ((lines dirTree).filterMap (domainOf lc)).dedup.length

inductive ComplexityMode where
  | simple
  | standard
  | full
  deriving DecidableEq

/-- What the prompt says. -/
structure Signals where
  broadScope : Bool
  crossService : Bool
  simpleAction : Bool
  isGreenfield : Bool
  isSingleArtifact : Bool

def signals (lc : Lowercase) (prompt : Text) : Signals :=
  let promptLower := lc.lower prompt
  let mentions := fun keywords : List String =>
    keywords.any fun kw => contains promptLower kw.toList
  { broadScope := mentions broadScopeKeywords
    crossService := crossServiceKeywords.any fun kw => regexContains promptLower kw.toList
    simpleAction := mentions simpleActionKeywords
    isGreenfield := mentions greenfieldKeywords
    isSingleArtifact := mentions singleArtifactKeywords }

/-- What is read off a listing. -/
structure Counts where
  files : ℕ
  domains : ℕ
  deriving DecidableEq

def bySize (n : Counts) : ℕ :=
  let byFiles := (if n.files > 10 then 1 else 0) + (if n.files > 50 then 1 else 0)
  if n.domains ≥ 3 then max byFiles 2
  else if n.domains = 2 then max byFiles 1
  else byFiles

def score (s : Signals) (n : Counts) : ℕ :=
  if s.crossService then 2
  else
    let a := if s.isGreenfield then 0 else bySize n
    let a := if s.broadScope && !s.isSingleArtifact then max a 1 else a
    let a := if s.isSingleArtifact && a > 1 then 1 else a
    let a := if s.simpleAction ∧ n.files ≤ 20 ∧ n.domains ≤ 1 then 0 else a
    min a 2

def modeOf (s : Signals) (n : Counts) : ComplexityMode :=
  match score s n with
  | 0 => .simple
  | 1 => .standard
  | _ => .full

structure ComplexityScore where
  domainCount : ℕ
  fileCount : ℕ
  broadScope : Bool
  crossService : Bool
  score : ℕ
  mode : ComplexityMode

def countsOf (lc : Lowercase) (dirTree : Text) : Counts :=
  ⟨countFiles dirTree, countDomains lc dirTree⟩

def classifyComplexity (lc : Lowercase) (prompt dirTree : Text) : ComplexityScore :=
  let s := signals lc prompt
  let n := countsOf lc dirTree
  { domainCount := n.domains, fileCount := n.files, broadScope := s.broadScope
    crossService := s.crossService, score := score s n, mode := modeOf s n }

namespace Counts

variable (n : Counts)

def Big : Prop := 50 < n.files ∨ 3 ≤ n.domains

def Medium : Prop := 10 < n.files ∨ 2 ≤ n.domains

def Small : Prop := n.files ≤ 20 ∧ n.domains ≤ 1

instance : Decidable n.Small := inferInstanceAs (Decidable (_ ∧ _))

end Counts

def Signals.Broad (s : Signals) : Prop := s.broadScope = true ∧ s.isSingleArtifact = false

/-- The numbers lie on the same sides of the bounds that matter for the prompt. -/
structure Alike (s : Signals) (n n' : Counts) : Prop where
  big : s.isGreenfield = false → s.isSingleArtifact = false → (n.Big ↔ n'.Big)
  medium : s.isGreenfield = false → ¬ s.Broad →
    ((n.Medium ∧ ¬ (s.simpleAction = true ∧ n.Small)) ↔
      (n'.Medium ∧ ¬ (s.simpleAction = true ∧ n'.Small)))
  small : s.Broad → s.simpleAction = true → (n.Small ↔ n'.Small)

theorem bySize_cases (n : Counts) : bySize n = 0 ∧ ¬ n.Medium ∧ ¬ n.Big ∨
    bySize n = 1 ∧ n.Medium ∧ ¬ n.Big ∨ bySize n = 2 ∧ n.Medium ∧ n.Big := by
  unfold bySize Counts.Medium Counts.Big
  dsimp only
  split_ifs <;> omega

theorem score_iff {s : Signals} (hcross : s.crossService = false) (n : Counts) :
    (score s n = 2 ↔ s.isGreenfield = false ∧ s.isSingleArtifact = false ∧ n.Big) ∧
    (score s n = 0 ↔ s.simpleAction = true ∧ n.Small ∨
      ¬ s.Broad ∧ (s.isGreenfield = true ∨ ¬ n.Medium)) := by
  obtain ⟨broad, cross, simple, greenfield, single⟩ := s
  obtain rfl : cross = false := hcross
  have hsmall : n.Small → ¬ n.Big := by
    unfold Counts.Small Counts.Big
    omega
  have hscore : score ⟨broad, false, simple, greenfield, single⟩ n =
      min (if simple = true ∧ n.Small then 0
        else if (single && (if broad && !single then max (if greenfield then 0 else bySize n) 1
          else if greenfield then 0 else bySize n) > 1) then 1
        else if broad && !single then max (if greenfield then 0 else bySize n) 1
          else if greenfield then 0 else bySize n) 2 := rfl
  rw [hscore]
  unfold Signals.Broad
  by_cases hs : n.Small
  · have hbig := hsmall hs
    rcases bySize_cases n with ⟨hsize, hmedium, -⟩ | ⟨hsize, hmedium, -⟩ | ⟨-, -, hno⟩
    · cases greenfield <;> cases single <;> cases broad <;> cases simple <;>
        simp [hs, hbig, hsize, hmedium]
    · cases greenfield <;> cases single <;> cases broad <;> cases simple <;>
        simp [hs, hbig, hsize, hmedium]
    · exact absurd hno hbig
  · rcases bySize_cases n with ⟨hsize, hmedium, hbig⟩ | ⟨hsize, hmedium, hbig⟩ |
      ⟨hsize, hmedium, hbig⟩
    all_goals
      cases greenfield <;> cases single <;> cases broad <;>
        simp [hs, hbig, hsize, hmedium]

theorem score_le (s : Signals) (n : Counts) : score s n ≤ 2 := by
  rw [score]
  split
  · exact le_refl 2
  · exact min_le_right _ 2

theorem modeOf_eq_iff_score (s : Signals) (n n' : Counts) : modeOf s n = modeOf s n' ↔
    (score s n = 2 ↔ score s n' = 2) ∧ (score s n = 0 ↔ score s n' = 0) := by
  have h := score_le s n
  have h' := score_le s n'
  unfold modeOf
  interval_cases score s n <;> interval_cases score s n' <;> simp

/-- **When two listings lead to the same mode.** -/
theorem modeOf_eq_iff (s : Signals) (n n' : Counts) :
    modeOf s n = modeOf s n' ↔ (s.crossService = false → Alike s n n') := by
  have hnot : ∀ p q : Prop, (q ∧ ¬ p) ↔ ¬ (p ∨ ¬ q) := fun p q => by
    rw [not_or, not_not, and_comm]
  cases hcross : s.crossService with
  | true =>
    have hfull : ∀ n, score s n = 2 := fun n => by rw [score, if_pos hcross]
    simp [modeOf_eq_iff_score, hfull]
  | false =>
    rw [modeOf_eq_iff_score, (score_iff hcross n).1, (score_iff hcross n').1,
      (score_iff hcross n).2, (score_iff hcross n').2]
    constructor
    · rintro ⟨hfull, hsimple⟩ -
      refine ⟨fun hg hs => ?_, fun hg hb => ?_, fun hb hs => ?_⟩
      · simpa [hg, hs] using hfull
      · rw [hg] at hsimple
        simp only [hb, not_false_eq_true, true_and, Bool.false_eq_true, false_or] at hsimple
        rw [hnot, hnot]
        exact not_congr hsimple
      · simpa [hb, hs] using hsimple
    · intro h
      obtain ⟨hbig, hmedium, hsmall⟩ := h rfl
      constructor
      · constructor
        · rintro ⟨hg, hs, hb⟩
          exact ⟨hg, hs, (hbig hg hs).mp hb⟩
        · rintro ⟨hg, hs, hb⟩
          exact ⟨hg, hs, (hbig hg hs).mpr hb⟩
      · by_cases hb : s.Broad
        · cases hs : s.simpleAction with
          | false => simp [hb]
          | true => simpa [hb] using hsmall hb hs
        · cases hg : s.isGreenfield with
          | true => simp [hb]
          | false =>
            have hm := hmedium hg hb
            rw [hnot, hnot, not_iff_not] at hm
            simpa [hb] using hm

end Mowis.Routing
