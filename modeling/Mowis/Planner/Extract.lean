import Mowis.Lib.Markers
import Mowis.Planner.Truncated

/-!
# The JSON that is found in a reply

What `extract_json` finds in a text, for any parser that accepts JSON texts only.
-/

namespace Mowis.Planner

open Mowis.Lib Mowis.Lib.JsonText

/-- `serde_json::from_str::<Value>` gives a value. -/
def Accepted (sj : SerdeJson) (t : Text) : Prop := (sj.value t).isSome = true

instance (sj : SerdeJson) (t : Text) : Decidable (Accepted sj t) :=
  inferInstanceAs (Decidable (_ = true))

/-- An object, from its opening brace to its closing brace. -/
structure ObjectText (sj : SerdeJson) (o : Text) : Prop where
  opens : o.head? = some '{'
  closes : o.getLast? = some '}'
  accepted : Accepted sj o

structure Extracts (sj : SerdeJson) (text : Text) : Prop where
  whole : Accepted sj (trim text) → extractJson sj text = trim text
  object : ¬ Accepted sj (trim text) → (∃ o, o <:+: text ∧ ObjectText sj o) →
    Accepted sj (extractJson sj text)
  occurs : extractJson sj text <:+: text

/-- The braces outside of strings balance at the end, and not before. -/
structure Group (g : Text) : Prop where
  opens : g.head? = some '{'
  balanced : (tally g).braceCount = 0
  first : ∀ u, u <+: g → u ≠ [] → u ≠ g → (tally u).braceCount ≠ 0

theorem braceCount_char {s : Scan} (hs : 0 < s.braceCount) (ch : Char) :
    0 ≤ (s.char ch).braceCount ∧ ((s.char ch).braceCount = 0 →
      ch = '}' ∧ s.inString = false ∧ s.escapeNext = false) := by
  obtain ⟨braces, brackets, inString, escapeNext⟩ := s
  have hpos : 0 < braces := hs
  cases escapeNext with
  | true => exact ⟨hs.le, fun h => absurd h hs.ne'⟩
  | false =>
    cases inString with
    | true =>
      have hsame : ((⟨braces, brackets, true, false⟩ : Scan).char ch).braceCount = braces := by
        simp only [Scan.char, Bool.false_eq_true, if_false, and_true, if_true]
        split_ifs <;> rfl
      rw [hsame]
      exact ⟨hs.le, fun h => absurd h hs.ne'⟩
    | false =>
      have hcount : ((⟨braces, brackets, false, false⟩ : Scan).char ch).braceCount =
          if ch = '{' then braces + 1 else if ch = '}' then braces - 1 else braces := by
        simp only [Scan.char, Bool.false_eq_true, if_false, and_false]
        split_ifs <;> first | rfl | simp_all
      rw [hcount]
      refine ⟨by split_ifs <;> omega, fun hzero => ⟨?_, rfl, rfl⟩⟩
      by_contra hne
      rw [if_neg hne] at hzero
      split_ifs at hzero <;> omega

theorem objectEnd_eq_some_iff {s : Scan} (hs : 0 < s.braceCount) {t g rest : Text} :
    objectEnd s t = some (g, rest) ↔
      t = g ++ rest ∧ (g.foldl Scan.char s).braceCount = 0 ∧
        ∀ u, u <+: g → u ≠ g → (u.foldl Scan.char s).braceCount ≠ 0 := by
  induction t generalizing s g with
  | nil =>
    constructor
    · intro h
      cases h
    · intro h
      obtain ⟨heq, hzero, -⟩ := h
      obtain ⟨rfl, rfl⟩ := List.append_eq_nil_iff.mp heq.symm
      exact absurd hzero hs.ne'
  | cons ch cs ih =>
    obtain ⟨hnonneg, hclosing⟩ := braceCount_char hs ch
    have hnil : ∀ u : Text, u <+: [ch] → u ≠ [ch] → u = [] := by
      intro u hu hne
      rcases List.prefix_cons_iff.mp hu with rfl | ⟨u', rfl, hu'⟩
      · rfl
      · rw [List.prefix_nil.mp hu'] at hne
        exact absurd rfl hne
    rw [objectEnd]
    cases g with
    | nil =>
      refine iff_of_false ?_ fun h => hs.ne' h.2.1
      by_cases hzero : (s.char ch).braceCount = 0
      · obtain ⟨hch, hin, hesc⟩ := hclosing hzero
        rw [if_pos ⟨hch, hin, hesc, hzero⟩]
        intro h
        cases h
      · rw [if_neg fun h => hzero h.2.2.2]
        intro h
        obtain ⟨p, -, hp⟩ := Option.map_eq_some_iff.mp h
        cases hp
    | cons c g =>
      by_cases hzero : (s.char ch).braceCount = 0
      · obtain ⟨hch, hin, hesc⟩ := hclosing hzero
        rw [if_pos ⟨hch, hin, hesc, hzero⟩]
        constructor
        · intro h
          cases h
          refine ⟨rfl, hzero, fun u hu hne => ?_⟩
          rw [hnil u hu hne]
          exact hs.ne'
        · intro h
          obtain ⟨heq, -, hfirst⟩ := h
          obtain ⟨rfl, rfl⟩ := List.cons.inj heq
          -- a longer group would reach zero before its end
          by_cases hg : g = []
          · rw [hg]
            rfl
          · refine absurd hzero (hfirst [ch] (List.prefix_append [ch] g) ?_)
            simpa using Ne.symm hg
      · have hs' : 0 < (s.char ch).braceCount := lt_of_le_of_ne hnonneg (Ne.symm hzero)
        rw [if_neg fun h => hzero h.2.2.2]
        constructor
        · intro h
          obtain ⟨p, hp, heq⟩ := Option.map_eq_some_iff.mp h
          cases heq
          obtain ⟨heq, hbalanced, hfirst⟩ := (ih hs').mp hp
          refine ⟨by rw [heq, List.cons_append], hbalanced, fun u hu hne => ?_⟩
          rcases List.prefix_cons_iff.mp hu with rfl | ⟨u', rfl, hu'⟩
          · exact hs.ne'
          · exact hfirst u' hu' fun h => hne (by rw [h])
        · intro h
          obtain ⟨heq, hbalanced, hfirst⟩ := h
          obtain ⟨rfl, rfl⟩ := List.cons.inj heq
          have hend : objectEnd (s.char ch) (g ++ rest) = some (g, rest) := by
            refine (ih hs').mpr ⟨rfl, hbalanced, fun u hu hne => ?_⟩
            exact hfirst (ch :: u) (List.cons_prefix_cons.mpr ⟨rfl, hu⟩)
              fun h => hne (List.cons.inj h).2
          rw [List.append_eq, hend]
          rfl

theorem objectEnd_iff {afterBrace g rest : Text} :
    objectEnd Scan.start ('{' :: afterBrace) = some (g, rest) ↔
      '{' :: afterBrace = g ++ rest ∧ Group g := by
  have hopen : (0 : ℤ) < (Scan.start.char '{').braceCount := by decide
  rw [objectEnd, if_neg (by decide)]
  constructor
  · intro h
    obtain ⟨p, hp, heq⟩ := Option.map_eq_some_iff.mp h
    cases heq
    obtain ⟨rfl, hbalanced, hfirst⟩ := (objectEnd_eq_some_iff hopen).mp hp
    refine ⟨rfl, rfl, hbalanced, fun u hu hne hne' => ?_⟩
    rcases List.prefix_cons_iff.mp hu with rfl | ⟨u', rfl, hu'⟩
    · exact absurd rfl hne
    · exact hfirst u' hu' fun h => hne' (by rw [h])
  · intro h
    obtain ⟨heq, hgroup⟩ := h
    obtain ⟨g, rfl⟩ := List.head?_eq_some_iff.mp hgroup.opens
    obtain ⟨-, rfl⟩ := List.cons.inj heq
    have hend : objectEnd (Scan.start.char '{') (g ++ rest) = some (g, rest) := by
      refine (objectEnd_eq_some_iff hopen).mpr ⟨rfl, hgroup.balanced, fun u hu hne => ?_⟩
      exact hgroup.first ('{' :: u) (List.cons_prefix_cons.mpr ⟨rfl, hu⟩) (List.cons_ne_nil _ _)
        fun h => hne (List.cons.inj h).2
    rw [List.append_eq, hend]
    rfl

theorem tally_append_singleton (u : Text) (c : Char) : tally (u ++ [c]) = (tally u).char c := by
  rw [tally, List.foldl_append]
  rfl

theorem Group.pos {g u : Text} (h : Group g) (hu : u <+: g) (hne : u ≠ []) (hne' : u ≠ g) :
    0 < (tally u).braceCount := by
  induction u using List.reverseRecOn with
  | nil => exact absurd rfl hne
  | append_singleton u c ih =>
    by_cases hnil : u = []
    · obtain ⟨rest, hrest⟩ := List.head?_eq_some_iff.mp h.opens
      rw [hnil, List.nil_append, hrest, List.cons_prefix_cons] at hu
      rw [hnil, hu.1]
      decide
    · have hu' : u <+: g := (List.prefix_append u [c]).trans hu
      have hlt : u ≠ g := by
        intro heq
        have hlen := hu.length_le
        rw [heq, List.length_append, List.length_singleton] at hlen
        omega
      obtain ⟨hnonneg, -⟩ := braceCount_char (ih hu' hnil hlt) c
      have hne0 := h.first _ hu hne hne'
      rw [tally_append_singleton] at hne0 ⊢
      omega

theorem Group.getLast? {g : Text} (h : Group g) : g.getLast? = some '}' := by
  rcases List.eq_nil_or_concat' g with rfl | ⟨u, c, rfl⟩
  · cases h.opens
  rw [List.getLast?_concat]
  have hzero := h.balanced
  rw [tally_append_singleton] at hzero
  by_cases hnil : u = []
  · have hc := h.opens
    rw [hnil] at hc hzero
    cases hc
    exact absurd hzero (by decide)
  · have hpos := h.pos (List.prefix_append u [c]) hnil (by simp)
    rw [((braceCount_char hpos c).2 hzero).1]

theorem trim_group {g : Text} (h : Group g) : trim g = g := by
  have htrim := trim_around [] [] h.opens h.getLast? (by decide) (by decide)
  simpa [trimEnd] using htrim

/-- Text without an opening brace, or groups with such text before each of them. -/
inductive Skipped : Text → Prop where
  | plain {p : Text} (hp : '{' ∉ p) : Skipped p
  | group {p g rest : Text} (hp : '{' ∉ p) (hg : Group g) (hrest : Skipped rest) :
      Skipped (p ++ (g ++ rest))

theorem splitFirst_brace {t p afterBrace : Text} (h : splitFirst ['{'] t = some (p, afterBrace)) :
    t = p ++ '{' :: afterBrace ∧ '{' ∉ p := by
  refine ⟨by simpa using splitFirst_eq_some h, fun hmem => ?_⟩
  obtain ⟨a, b, rfl⟩ := List.append_of_mem hmem
  exact not_infix_of_splitFirst (by decide) h ⟨a, b, by simp⟩

theorem braceScan_none {sj : SerdeJson} {t : Text} (h : '{' ∉ t) : braceScan sj t = none := by
  unfold braceScan
  split
  · rfl
  · next p afterBrace hsplit =>
    rw [splitFirst_char_none h] at hsplit
    cases hsplit

theorem braceScan_group {sj : SerdeJson} {p g rest : Text} (hp : '{' ∉ p) (hg : Group g) :
    braceScan sj (p ++ (g ++ rest)) =
      if Accepted sj g then some g else braceScan sj rest := by
  obtain ⟨g', hg'⟩ := List.head?_eq_some_iff.mp hg.opens
  have hsplit : splitFirst ['{'] (p ++ (g ++ rest)) = some (p, g' ++ rest) := by
    rw [hg', List.cons_append]
    exact splitFirst_char hp _
  have hend : objectEnd Scan.start ('{' :: (g' ++ rest)) = some (g, rest) :=
    objectEnd_iff.mpr ⟨by rw [hg', List.cons_append], hg⟩
  conv_lhs => unfold braceScan
  split
  · next hnone =>
    rw [hsplit] at hnone
    cases hnone
  · next p' afterBrace hsplit' =>
    rw [hsplit] at hsplit'
    cases hsplit'
    split
    · next hnone =>
      rw [hend] at hnone
      cases hnone
    · next object rest' hend' =>
      rw [hend] at hend'
      cases hend'
      rw [trim_group hg]
      rfl

theorem braceScan_open {sj : SerdeJson} {p afterBrace : Text} (hp : '{' ∉ p)
    (hend : objectEnd Scan.start ('{' :: afterBrace) = none) :
    braceScan sj (p ++ '{' :: afterBrace) = none := by
  have hsplit : splitFirst ['{'] (p ++ '{' :: afterBrace) = some (p, afterBrace) :=
    splitFirst_char hp _
  unfold braceScan
  split
  · rfl
  · next p' afterBrace' hsplit' =>
    rw [hsplit] at hsplit'
    cases hsplit'
    split
    · rfl
    · next object rest hend' =>
      rw [hend] at hend'
      cases hend'

theorem braceScan_eq_some {sj : SerdeJson} {t g : Text} (h : braceScan sj t = some g) :
    Group g ∧ Accepted sj g ∧ ∃ pre post, t = pre ++ (g ++ post) ∧ Skipped pre := by
  induction hn : t.length using Nat.strong_induction_on generalizing t with
  | _ n ih =>
    cases hsplit : splitFirst ['{'] t with
    | none =>
      have hno : '{' ∉ t := by
        intro hmem
        obtain ⟨a, b, rfl⟩ := List.append_of_mem hmem
        exact (splitFirst_eq_none_iff (by decide)).mp hsplit ⟨a, b, by simp⟩
      rw [braceScan_none hno] at h
      cases h
    | some q =>
      obtain ⟨p, afterBrace⟩ := q
      obtain ⟨rfl, hp⟩ := splitFirst_brace hsplit
      cases hend : objectEnd Scan.start ('{' :: afterBrace) with
      | none =>
        rw [braceScan_open hp hend] at h
        cases h
      | some q =>
        obtain ⟨object, rest⟩ := q
        obtain ⟨heq, hobject⟩ := objectEnd_iff.mp hend
        rw [heq] at h hn ⊢
        rw [braceScan_group hp hobject] at h
        split at h
        · next haccepted =>
          cases h
          exact ⟨hobject, haccepted, p, rest, rfl, .plain hp⟩
        · have hpos : object ≠ [] := by
            rintro rfl
            cases hobject.opens
          have hlt : rest.length < n := by
            have hlen := List.length_pos_iff.mpr hpos
            rw [← hn, List.length_append, List.length_append]
            omega
          obtain ⟨hg, haccepted, pre, post, rfl, hpre⟩ := ih _ hlt h rfl
          refine ⟨hg, haccepted, p ++ (object ++ pre), post, ?_, .group hp hobject hpre⟩
          simp only [List.append_assoc]

theorem braceScan_isSome {sj : SerdeJson} {pre o post : Text} (hpre : Skipped pre) (ho : Group o)
    (haccepted : Accepted sj o) : (braceScan sj (pre ++ (o ++ post))).isSome = true := by
  induction hpre with
  | plain hp =>
    rw [braceScan_group hp ho, if_pos haccepted]
    rfl
  | group hp hg hrest ih =>
    rw [List.append_assoc, List.append_assoc, braceScan_group hp hg]
    split
    · rfl
    · exact ih

theorem group_of_valid {o : Text} (hvalid : Valid o) (hopens : o.head? = some '{')
    (hcloses : o.getLast? = some '}') : Group o := by
  obtain ⟨s, hrun, -, hstack⟩ := hvalid
  have hzero : (tally o).braceCount = 0 := by
    rw [(tracks_tally hrun).braces, hstack]
    rfl
  refine ⟨hopens, hzero, fun u hu hne hne' => ?_⟩
  obtain ⟨v, rfl⟩ := hu
  obtain ⟨su, hsu⟩ := run_prefix hrun (List.prefix_append u v)
  have hhead : u.head? = some '{' := by
    obtain ⟨c, u', rfl⟩ := List.exists_cons_of_ne_nil hne
    exact hopens
  rcases run_object hhead hsu with hopen | hdone
  · rw [(tracks_tally hsu).braces]
    have hpos := List.count_pos_iff.mpr (List.mem_of_getLast? hopen)
    omega
  · -- after the object there is white space only, and no brace at the end
    rw [run_append, hsu, Option.bind_some, hdone] at hrun
    have hspaces := (run_done hrun).1
    have hv : v ≠ [] := by
      rintro rfl
      exact hne' (List.append_nil u).symm
    rw [List.getLast?_append_of_ne_nil _ hv] at hcloses
    exact absurd (hspaces '}' (List.mem_of_getLast? hcloses)) (by decide)

theorem trim_isInfix (t : Text) : trim t <:+: t :=
  (List.rdropWhile_prefix _ _).isInfix.trans (List.dropWhile_suffix _).isInfix

theorem afterFirstLine_isSuffix (t : Text) : afterFirstLine t <:+ t := by
  unfold afterFirstLine
  split
  · next line rest h =>
    exact ⟨line ++ ['\n'], by rw [splitFirst_eq_some h, List.append_assoc]⟩
  · exact List.suffix_rfl

theorem fenced_of_mem {t b : Text} (h : b ∈ fencedBlocks t) :
    ∃ x m y, t = x ++ ((fence ++ m ++ fence) ++ y) ∧ b <:+: m := by
  induction hn : t.length using Nat.strong_induction_on generalizing t with
  | _ n ih =>
    rw [fencedBlocks] at h
    split at h
    · cases h
    · next x afterFence hopen =>
      split at h
      · cases h
      · next content rest hclose =>
        obtain ⟨line, hline⟩ := afterFirstLine_isSuffix afterFence
        have heq : t = x ++ ((fence ++ (line ++ content) ++ fence) ++ rest) := by
          rw [splitFirst_eq_some hopen, ← hline, splitFirst_eq_some hclose]
          simp only [List.append_assoc]
        have hcontent : trim content <:+: line ++ content :=
          (trim_isInfix content).trans (List.suffix_append line content).isInfix
        have hrest : b ∈ fencedBlocks rest →
            ∃ x m y, t = x ++ ((fence ++ m ++ fence) ++ y) ∧ b <:+: m := by
          intro hmem
          have hlt : rest.length < n := by
            have hlen := congrArg List.length heq
            have hfence : fence.length = 3 := rfl
            simp only [List.length_append] at hlen
            omega
          obtain ⟨x', m, y, hrest, hb⟩ := ih _ hlt hmem rfl
          refine ⟨x ++ ((fence ++ (line ++ content) ++ fence) ++ x'), m, y, ?_, hb⟩
          rw [heq, hrest]
          simp only [List.append_assoc]
        split at h
        · exact hrest h
        · rcases List.mem_cons.mp h with rfl | h
          · exact ⟨x, line ++ content, rest, heq, hcontent⟩
          · exact hrest h

theorem fenced_isInfix {t b : Text} (h : b ∈ fencedBlocks t) : b <:+: t := by
  obtain ⟨x, m, y, rfl, hb⟩ := fenced_of_mem h
  refine hb.trans ⟨x ++ fence, fence ++ y, ?_⟩
  simp only [List.append_assoc]

theorem fenced_length {t b : Text} (h : b ∈ fencedBlocks t) : b.length < (trim t).length := by
  obtain ⟨x, m, y, rfl, hb⟩ := fenced_of_mem h
  have hhead : (fence ++ m ++ fence).head? = some '`' := rfl
  have hlast : (fence ++ m ++ fence).getLast? = some '`' := by
    rw [List.getLast?_append_of_ne_nil _ fence_ne_nil]
    rfl
  have hlen := hb.length_le
  have hfence : fence.length = 3 := rfl
  rw [trim_around x y hhead hlast (by decide) (by decide)]
  simp only [List.length_append]
  omega

def Exposed (sj : SerdeJson) (text : Text) : Prop :=
  ∃ pre o post, trim text = pre ++ (o ++ post) ∧ Skipped pre ∧ ObjectText sj o

theorem extractJson_of_fenced {sj : SerdeJson} {text : Text}
    (h : ∃ b ∈ fencedBlocks text, Accepted sj b) :
    extractJson sj text ∈ fencedBlocks text ∧ Accepted sj (extractJson sj text) := by
  cases hfind : (fencedBlocks text).find? fun candidate => (sj.value candidate).isSome with
  | none =>
    obtain ⟨b, hb, haccepted⟩ := h
    exact absurd haccepted (List.find?_eq_none.mp hfind b hb)
  | some b =>
    have haccepted : Accepted sj b :=
      List.find?_some (p := fun candidate => (sj.value candidate).isSome) hfind
    rw [extractJson, hfind]
    exact ⟨List.mem_of_find?_eq_some hfind, haccepted⟩

theorem extractJson_of_no_fenced {sj : SerdeJson} {text : Text}
    (h : ¬ ∃ b ∈ fencedBlocks text, Accepted sj b) :
    extractJson sj text =
      if Accepted sj (trim text) then trim text
      else (braceScan sj (trim text)).getD (trim text) := by
  have hfind : ((fencedBlocks text).find? fun candidate => (sj.value candidate).isSome) = none :=
    List.find?_eq_none.mpr fun b hb haccepted => h ⟨b, hb, haccepted⟩
  rw [extractJson, hfind]
  rfl

theorem extractJson_isInfix (sj : SerdeJson) (text : Text) : extractJson sj text <:+: text := by
  by_cases hfenced : ∃ b ∈ fencedBlocks text, Accepted sj b
  · exact fenced_isInfix (extractJson_of_fenced hfenced).1
  rw [extractJson_of_no_fenced hfenced]
  split
  · exact trim_isInfix text
  · cases hscan : braceScan sj (trim text) with
    | none => exact trim_isInfix text
    | some g =>
      obtain ⟨-, -, pre, post, heq, -⟩ := braceScan_eq_some hscan
      refine List.IsInfix.trans ⟨pre, post, ?_⟩ (trim_isInfix text)
      rw [heq, Option.getD_some, List.append_assoc]

theorem exposed_iff {sj : SerdeJson} (hsj : ∀ t, Accepted sj t → Valid t) (text : Text) :
    Exposed sj text ↔ ∃ g, braceScan sj (trim text) = some g := by
  constructor
  · intro h
    obtain ⟨pre, o, post, heq, hpre, ho⟩ := h
    have hgroup := group_of_valid (hsj o ho.accepted) ho.opens ho.closes
    rw [heq]
    exact Option.isSome_iff_exists.mp (braceScan_isSome hpre hgroup ho.accepted)
  · intro h
    obtain ⟨g, hg⟩ := h
    obtain ⟨hgroup, haccepted, pre, post, heq, hpre⟩ := braceScan_eq_some hg
    exact ⟨pre, g, post, heq, hpre, hgroup.opens, hgroup.getLast?, haccepted⟩

/-- **What is extracted from a reply.**  For a parser that accepts JSON texts only: a text that is
JSON is returned, and from a text with an object in it JSON is returned, exactly if no fenced block
of the first is JSON, and of the second one is, or it has an object with only closed groups of
braces before it. -/
theorem extractJson_iff {sj : SerdeJson} (hsj : ∀ t, Accepted sj t → Valid t) (text : Text) :
    Extracts sj text ↔
      (Accepted sj (trim text) → ∀ b ∈ fencedBlocks text, ¬ Accepted sj b) ∧
      (¬ Accepted sj (trim text) → (∃ o, o <:+: text ∧ ObjectText sj o) →
        (∃ b ∈ fencedBlocks text, Accepted sj b) ∨ Exposed sj text) := by
  constructor
  · intro h
    refine ⟨fun hwhole b hb haccepted => ?_, fun hnot hin => ?_⟩
    · have hmem := (extractJson_of_fenced ⟨b, hb, haccepted⟩).1
      have hlt := fenced_length hmem
      rw [h.whole hwhole] at hlt
      exact lt_irrefl _ hlt
    · by_cases hfenced : ∃ b ∈ fencedBlocks text, Accepted sj b
      · exact .inl hfenced
      · right
        rw [exposed_iff hsj]
        have haccepted := h.object hnot hin
        rw [extractJson_of_no_fenced hfenced, if_neg hnot] at haccepted
        cases hscan : braceScan sj (trim text) with
        | none =>
          rw [hscan] at haccepted
          exact absurd haccepted hnot
        | some g => exact ⟨g, rfl⟩
  · intro h
    obtain ⟨hwhole, hobject⟩ := h
    refine ⟨fun haccepted => ?_, fun hnot hin => ?_, extractJson_isInfix sj text⟩
    · rw [extractJson_of_no_fenced fun hfenced => ?_, if_pos haccepted]
      obtain ⟨b, hb, hb'⟩ := hfenced
      exact hwhole haccepted b hb hb'
    · by_cases hfenced : ∃ b ∈ fencedBlocks text, Accepted sj b
      · exact (extractJson_of_fenced hfenced).2
      · obtain ⟨g, hg⟩ := (exposed_iff hsj text).mp ((hobject hnot hin).resolve_left hfenced)
        rw [extractJson_of_no_fenced hfenced, if_neg hnot, hg]
        exact (braceScan_eq_some hg).2.1

def emptyObject : SerdeJson where
  value t := if t = "\x7b\x7d".toList then some (.object []) else none
  print _ := none
  plannerJson _ := none

theorem emptyObject_accepted {t : Text} (h : Accepted emptyObject t) : t = "\x7b\x7d".toList := by
  by_contra hne
  have hnone : emptyObject.value t = none := if_neg hne
  rw [Accepted, hnone] at h
  cases h

/-- An object with text around it. -/
theorem extractJson_prose : Extracts emptyObject "see \x7b\x7d".toList := by
  refine (extractJson_iff (fun t ht => ?_) _).mpr ⟨fun h => ?_, fun _ _ => .inr ?_⟩
  · rw [emptyObject_accepted ht]
    decide
  · exact absurd h (by decide +kernel)
  · exact ⟨"see ".toList, "\x7b\x7d".toList, [], by decide +kernel, .plain (by decide), rfl, rfl,
      by decide⟩

/-- A brace that is not closed hides the object after it. -/
theorem not_extracted :
    ¬ ∀ sj text, (∀ t, Accepted sj t → Valid t) → Extracts sj text := by
  intro h
  have hvalid : ∀ t, Accepted emptyObject t → Valid t := by
    intro t ht
    rw [emptyObject_accepted ht]
    decide
  have hfound := (h emptyObject "a \x7b b \x7b\x7d".toList hvalid).object (by decide +kernel)
    ⟨"\x7b\x7d".toList, by decide, rfl, rfl, by decide⟩
  revert hfound
  decide +kernel

end Mowis.Planner
