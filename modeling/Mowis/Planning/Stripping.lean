import Mowis.Lib.Markers
import Mowis.Planning.PlanText

/-!
# The tool calls in a reply

`strip_tool_calls` removes the tool calls that a model wrote into its reply: objects that begin
with a marker, up to the brace that closes the first one, and then the fenced blocks that look
like a call, up to the first one that does not.
-/

namespace Mowis.Planning

open Mowis.Lib

inductive Segment where
  /-- Text between calls and blocks. -/
  | prose (t : Text)
  /-- A tool call as an object. -/
  | call (t : Text)
  /-- A fenced block that is a tool call. -/
  | callBlock (body : Text)
  /-- Another fenced block. -/
  | block (body : Text)

namespace Segment

def fenced (body : Text) : Text := jsonFence ++ (body ++ fence)

def text : Segment → Text
  | .prose t => t
  | .call t => t
  | .callBlock body => fenced body
  | .block body => fenced body

def isCall : Segment → Bool
  | .call _ => true
  | _ => false

def isKept : Segment → Bool
  | .prose _ => true
  | .block _ => true
  | _ => false

end Segment

open Segment

def textOf (segments : List Segment) : Text := segments.flatMap Segment.text

def withoutCalls (segments : List Segment) : List Segment := segments.filter fun s => !s.isCall

def kept (segments : List Segment) : List Segment := segments.filter Segment.isKept

def proseBefore : List Segment → Text
  | [] => []
  | .prose t :: rest => t ++ proseBefore rest
  | .call _ :: rest => proseBefore rest
  | .callBlock _ :: rest => proseBefore rest
  | .block _ :: _ => []

/-- Prose is free of the markers, a call is what begins with the one and ends with a brace, and a
block goes up to the fence after it. -/
def Segment.Written : Segment → Prop
  | .prose t => ¬ toolCallStart <:+: t ∧ ¬ jsonFence <:+: t
  | .call t => ∃ inner, t = toolCallStart ++ (inner ++ ['\x7d'])
  | .callBlock body => ¬ fence <:+: body ++ fence.dropLast
  | .block body => ¬ fence <:+: body ++ fence.dropLast

def looksCalled (body : Text) : Bool :=
  holds (fenced body) "\"name\"".toList && holds (fenced body) "\"arguments\"".toList

/-- The blocks that are calls look like it, and come before the other ones, which do not. -/
def BlocksSorted : List Segment → Prop
  | [] => True
  | .prose _ :: rest => BlocksSorted rest
  | .call _ :: rest => BlocksSorted rest
  | .callBlock body :: rest => looksCalled body = true ∧ BlocksSorted rest
  | .block body :: rest => looksCalled body = false ∧ ∀ s ∈ rest, ∀ b, s ≠ .callBlock b

structure Separable (segments : List Segment) : Prop where
  /-- Counting every brace, the first one of a call is closed by the last one. -/
  braces : ∀ t, .call t ∈ segments → afterBraces 0 t = some []
  /-- The marker of a call stands in no block, nor does it come about when the calls are cut out. -/
  joined : ¬ toolCallStart <:+: textOf (withoutCalls segments)
  /-- Nor when the blocks are. -/
  joinedKept : ¬ toolCallStart <:+: textOf (kept segments)
  sorted : BlocksSorted segments
  /-- The marker of a block does not come about in what is left before the blocks that stay. -/
  joinedProse : ¬ jsonFence <:+: proseBefore segments

theorem afterBraces_append {depth : ℤ} {t r : Text} (h : afterBraces depth t = some r) (u : Text) :
    afterBraces depth (t ++ u) = some (r ++ u) := by
  induction t generalizing depth with
  | nil => cases h
  | cons c t ih =>
    rw [List.cons_append, afterBraces]
    rw [afterBraces] at h
    split at h
    · next hdepth =>
      cases h
      rw [if_pos hdepth]
    · next hdepth =>
      rw [if_neg hdepth]
      exact ih h

def UpToTrim (t u : Text) : Prop := t = u ∨ t = trim u

theorem UpToTrim.trim {t u : Text} (h : UpToTrim t u) : Lib.trim t = Lib.trim u := by
  rcases h with rfl | rfl
  · rfl
  · exact trim_trim u

theorem UpToTrim.not_infix {pat t u : Text} (h : UpToTrim t u) (hpat : ¬ pat <:+: u) :
    ¬ pat <:+: t := by
  rcases h with rfl | rfl
  · exact hpat
  · exact fun hin => hpat (hin.trans (trim_isInfix u))

theorem UpToTrim.around {t a m b : Text} {c d : Char} (h : UpToTrim t (a ++ (m ++ b)))
    (hc : m.head? = some c) (hd : m.getLast? = some d) (hc' : isWhitespace c = false)
    (hd' : isWhitespace d = false) :
    ∃ a' b', t = a' ++ (m ++ b') ∧ a' <:+: a ∧ Lib.trim (a' ++ b') = Lib.trim (a ++ b) := by
  rcases h with rfl | rfl
  · exact ⟨a, b, rfl, List.infix_rfl, rfl⟩
  · exact ⟨_, _, trim_around a b hc hd hc' hd', (List.dropWhile_suffix _).isInfix,
      trim_trimmed a b⟩

theorem stripJsonCalls_of_none {t : Text} (h : ¬ toolCallStart <:+: t) : stripJsonCalls t = t := by
  have hnone : aroundToolCall t = none := by
    rw [aroundToolCall, (splitFirst_eq_none_iff (by decide)).mpr h]
    rfl
  rw [stripJsonCalls]
  split
  · rfl
  · next hsome =>
    rw [hnone] at hsome
    cases hsome

theorem stripJsonCalls_of_some {t a b : Text} (h : aroundToolCall t = some (a, b)) :
    stripJsonCalls t = stripJsonCalls (trim (a ++ b)) := by
  rw [stripJsonCalls]
  split
  · next hnone =>
    rw [h] at hnone
    cases hnone
  · next hsome =>
    rw [h] at hsome
    cases hsome
    rfl

theorem stripJsonCalls_cut {a b t : Text} (ha : ¬ toolCallStart <:+: a)
    (hwritten : (Segment.call t).Written) (hbraces : afterBraces 0 t = some []) :
    stripJsonCalls (a ++ (t ++ b)) = stripJsonCalls (trim (a ++ b)) := by
  obtain ⟨inner, rfl⟩ := hwritten
  have haround : aroundToolCall (a ++ (toolCallStart ++ (inner ++ ['\x7d']) ++ b)) =
      some (a, b) := by
    have hstart : splitFirst toolCallStart
        (a ++ (toolCallStart ++ (inner ++ ['\x7d'] ++ b))) = some (a, inner ++ ['\x7d'] ++ b) :=
      splitFirst_unbordered (by decide) (by decide) ha _
    have hafter := afterBraces_append hbraces b
    rw [List.nil_append, List.append_assoc] at hafter
    rw [List.append_assoc, aroundToolCall, hstart, Option.bind_some, hafter]
    rfl
  exact stripJsonCalls_of_some haround

theorem append_textOf_cons (before : Text) (s : Segment) (rest : List Segment) :
    before ++ textOf (s :: rest) = before ++ s.text ++ textOf rest :=
  (List.append_assoc _ _ _).symm

theorem stripJsonCalls_eq {segments : List Segment} {before t : Text}
    (hwritten : ∀ s ∈ segments, s.Written)
    (hbraces : ∀ t, .call t ∈ segments → afterBraces 0 t = some [])
    (hjoined : ¬ toolCallStart <:+: before ++ textOf (withoutCalls segments))
    (ht : UpToTrim t (before ++ textOf segments)) :
    UpToTrim (stripJsonCalls t) (before ++ textOf (withoutCalls segments)) := by
  induction segments generalizing before t with
  | nil => rwa [stripJsonCalls_of_none (ht.not_infix hjoined)]
  | cons s rest ih =>
    obtain ⟨hs, hrest⟩ := List.forall_mem_cons.mp hwritten
    have hbracesrest : ∀ t, .call t ∈ rest → afterBraces 0 t = some [] :=
      fun t ht => hbraces t (List.mem_cons_of_mem _ ht)
    cases s with
    | call c =>
      have hfree : ¬ toolCallStart <:+: before :=
        fun hin => hjoined (List.infix_append_of_infix_left hin)
      have hbrace := hbraces c List.mem_cons_self
      obtain ⟨inner, hinner⟩ := hs
      have hhead : c.head? = some '\x7b' := by rw [hinner]; rfl
      have hlast : c.getLast? = some '\x7d' := by
        rw [hinner, ← List.append_assoc, List.getLast?_append]
        rfl
      have ht' : UpToTrim t (before ++ (c ++ textOf rest)) := ht
      obtain ⟨a, b, rfl, ha, htrim⟩ := ht'.around hhead hlast (by decide) (by decide)
      rw [stripJsonCalls_cut (fun hin => hfree (hin.trans ha)) ⟨inner, hinner⟩ hbrace]
      exact ih hrest hbracesrest hjoined (.inr htrim)
    | prose p =>
      rw [append_textOf_cons] at ht
      have hcons := append_textOf_cons before (.prose p) (withoutCalls rest)
      exact hcons ▸ ih hrest hbracesrest (hcons ▸ hjoined) ht
    | callBlock body =>
      rw [append_textOf_cons] at ht
      have hcons := append_textOf_cons before (.callBlock body) (withoutCalls rest)
      exact hcons ▸ ih hrest hbracesrest (hcons ▸ hjoined) ht
    | block body =>
      rw [append_textOf_cons] at ht
      have hcons := append_textOf_cons before (.block body) (withoutCalls rest)
      exact hcons ▸ ih hrest hbracesrest (hcons ▸ hjoined) ht

theorem stripFencedCalls_of_none {t : Text} (h : aroundFencedCall t = none) :
    stripFencedCalls t = t := by
  rw [stripFencedCalls]
  split
  · rfl
  · next hsome =>
    rw [h] at hsome
    cases hsome

theorem stripFencedCalls_of_some {t a b : Text} (h : aroundFencedCall t = some (a, b)) :
    stripFencedCalls t = stripFencedCalls (trim (a ++ b)) := by
  rw [stripFencedCalls]
  split
  · next hnone =>
    rw [h] at hnone
    cases hnone
  · next hsome =>
    rw [h] at hsome
    cases hsome
    rfl

theorem aroundFencedCall_of_free {t : Text} (h : ¬ jsonFence <:+: t) :
    aroundFencedCall t = none := by
  rw [aroundFencedCall, (splitFirst_eq_none_iff (by decide)).mpr h]
  rfl

theorem aroundFencedCall_block {a b body : Text} (ha : ¬ jsonFence <:+: a)
    (hbody : ¬ fence <:+: body ++ fence.dropLast) :
    aroundFencedCall (a ++ (fenced body ++ b)) =
      if looksCalled body then some (a, b) else none := by
  have hstart : splitFirst jsonFence (a ++ (jsonFence ++ (body ++ fence ++ b))) =
      some (a, body ++ fence ++ b) := splitFirst_unbordered (by decide) (by decide) ha _
  have hend : splitFirst fence (body ++ (fence ++ b)) = some (body, b) :=
    splitFirst_put (by decide) hbody b
  rw [fenced, List.append_assoc, aroundFencedCall, hstart, Option.bind_some, List.append_assoc,
    hend, Option.bind_some, looksCalled, fenced]
  simp only [List.append_assoc]

theorem head?_fenced (body : Text) : (fenced body).head? = some '`' := rfl

theorem getLast?_fenced (body : Text) : (fenced body).getLast? = some '`' := by
  rw [fenced, ← List.append_assoc, List.getLast?_append]
  rfl

theorem kept_of_no_calls {segments : List Segment} (hcalls : ∀ s ∈ segments, s.isCall = false)
    (hblocks : ∀ s ∈ segments, ∀ b, s ≠ .callBlock b) : kept segments = segments := by
  rw [kept, List.filter_eq_self]
  intro s hs
  cases s with
  | prose t => rfl
  | call t => exact absurd (hcalls _ hs) (by simp [isCall])
  | callBlock body => exact absurd rfl (hblocks _ hs body)
  | block body => rfl

theorem stripFencedCalls_eq {segments : List Segment} {before t : Text}
    (hwritten : ∀ s ∈ segments, s.Written) (hcalls : ∀ s ∈ segments, s.isCall = false)
    (hsorted : BlocksSorted segments) (hjoined : ¬ jsonFence <:+: before ++ proseBefore segments)
    (ht : UpToTrim t (before ++ textOf segments)) :
    UpToTrim (stripFencedCalls t) (before ++ textOf (kept segments)) := by
  induction segments generalizing before t with
  | nil => rwa [stripFencedCalls_of_none (aroundFencedCall_of_free (ht.not_infix hjoined))]
  | cons s rest ih =>
    obtain ⟨hs, hrest⟩ := List.forall_mem_cons.mp hwritten
    obtain ⟨hcall, hcallsrest⟩ := List.forall_mem_cons.mp hcalls
    cases s with
    | prose p =>
      rw [append_textOf_cons] at ht
      rw [proseBefore, ← List.append_assoc] at hjoined
      exact append_textOf_cons before (.prose p) (kept rest) ▸
        ih hrest hcallsrest hsorted hjoined ht
    | call c => cases hcall
    | callBlock body =>
      have hfree : ¬ jsonFence <:+: before :=
        fun hin => hjoined (List.infix_append_of_infix_left hin)
      have ht' : UpToTrim t (before ++ (fenced body ++ textOf rest)) := ht
      obtain ⟨a, b, rfl, ha, htrim⟩ :=
        ht'.around (head?_fenced body) (getLast?_fenced body) (by decide) (by decide)
      have haround : aroundFencedCall (a ++ (fenced body ++ b)) = some (a, b) := by
        rw [aroundFencedCall_block (fun hin => hfree (hin.trans ha)) hs, if_pos hsorted.1]
      rw [stripFencedCalls_of_some haround]
      exact ih hrest hcallsrest hsorted.2 hjoined (.inr htrim)
    | block body =>
      have hfree : ¬ jsonFence <:+: before :=
        fun hin => hjoined (List.infix_append_of_infix_left hin)
      have ht' : UpToTrim t (before ++ (fenced body ++ textOf rest)) := ht
      obtain ⟨a, b, heq, ha, -⟩ :=
        ht'.around (head?_fenced body) (getLast?_fenced body) (by decide) (by decide)
      have hnone : aroundFencedCall t = none := by
        rw [heq, aroundFencedCall_block (fun hin => hfree (hin.trans ha)) hs, hsorted.1]
        rfl
      have hblocks : ∀ s ∈ Segment.block body :: rest, ∀ b, s ≠ .callBlock b :=
        List.forall_mem_cons.mpr ⟨fun _ heq => Segment.noConfusion heq, hsorted.2⟩
      rw [stripFencedCalls_of_none hnone, kept_of_no_calls hcalls hblocks]
      exact ht

theorem textOf_withoutCalls_kept (segments : List Segment) :
    kept (withoutCalls segments) = kept segments := by
  rw [kept, kept, withoutCalls, List.filter_filter]
  refine List.filter_congr fun s _ => ?_
  cases s <;> rfl

theorem proseBefore_withoutCalls (segments : List Segment) :
    proseBefore (withoutCalls segments) = proseBefore segments := by
  induction segments with
  | nil => rfl
  | cons s rest ih =>
    cases s with
    | prose t => exact congrArg (t ++ ·) ih
    | call t => exact ih
    | callBlock body => exact ih
    | block body => rfl

theorem blocksSorted_withoutCalls {segments : List Segment} (h : BlocksSorted segments) :
    BlocksSorted (withoutCalls segments) := by
  induction segments with
  | nil => trivial
  | cons s rest ih =>
    cases s with
    | prose t => exact ih h
    | call t => exact ih h
    | callBlock body => exact ⟨h.1, ih h.2⟩
    | block body => exact ⟨h.1, fun s hs => h.2 s (List.mem_of_mem_filter hs)⟩

theorem strip_eq {segments : List Segment} (hwritten : ∀ s ∈ segments, s.Written)
    (h : Separable segments) {t : Text} (ht : UpToTrim t (textOf segments)) :
    trim (stripFencedCalls (stripJsonCalls t)) = trim (textOf (kept segments)) := by
  have hfirst : UpToTrim (stripJsonCalls t) ([] ++ textOf (withoutCalls segments)) :=
    stripJsonCalls_eq hwritten h.braces h.joined ht
  have hwritten' : ∀ s ∈ withoutCalls segments, s.Written :=
    fun s hs => hwritten s (List.mem_of_mem_filter hs)
  have hcalls : ∀ s ∈ withoutCalls segments, s.isCall = false := by
    intro s hs
    simpa using (List.mem_filter.mp hs).2
  have hjoined : ¬ jsonFence <:+: [] ++ proseBefore (withoutCalls segments) := by
    rw [proseBefore_withoutCalls]
    exact h.joinedProse
  have hsecond := stripFencedCalls_eq hwritten' hcalls (blocksSorted_withoutCalls h.sorted)
    hjoined hfirst
  rw [textOf_withoutCalls_kept] at hsecond
  exact hsecond.trim

theorem proseBefore_kept (segments : List Segment) :
    proseBefore (kept segments) = proseBefore segments := by
  induction segments with
  | nil => rfl
  | cons s rest ih =>
    cases s with
    | prose t => exact congrArg (t ++ ·) ih
    | call t => exact ih
    | callBlock body => exact ih
    | block body => rfl

theorem blocksSorted_kept {segments : List Segment} (h : BlocksSorted segments) :
    BlocksSorted (kept segments) := by
  induction segments with
  | nil => trivial
  | cons s rest ih =>
    cases s with
    | prose t => exact ih h
    | call t => exact ih h
    | callBlock body => exact ih h.2
    | block body => exact ⟨h.1, fun s hs => h.2 s (List.mem_of_mem_filter hs)⟩

theorem Separable.kept {segments : List Segment} (h : Separable segments) :
    Separable (kept segments) := by
  have hwithout : withoutCalls (Planning.kept segments) = Planning.kept segments := by
    rw [withoutCalls, List.filter_eq_self]
    intro s hs
    have hkept := (List.mem_filter.mp hs).2
    cases s with
    | call t => cases hkept
    | prose t => rfl
    | callBlock body => rfl
    | block body => rfl
  have hagain : Planning.kept (Planning.kept segments) = Planning.kept segments :=
    List.filter_eq_self.mpr fun s hs => (List.mem_filter.mp hs).2
  refine ⟨fun t ht => ?_, hwithout.symm ▸ h.joinedKept, hagain.symm ▸ h.joinedKept,
    blocksSorted_kept h.sorted, (proseBefore_kept segments).symm ▸ h.joinedProse⟩
  have hkept := (List.mem_filter.mp ht).2
  cases hkept

def reply (segments : List Segment) : String := String.ofList (textOf segments)

/-- **Stripping a reply.** If its calls can be told from the rest, the prose and the blocks that
are no tool calls are left in their order, no object that begins as a call is left, and there is
nothing to strip any more. -/
theorem stripToolCalls_separable {segments : List Segment} (hwritten : ∀ s ∈ segments, s.Written)
    (h : Separable segments) :
    stripToolCalls (reply segments) = String.ofList (trim (textOf (kept segments))) ∧
    ¬ toolCallStart <:+: (stripToolCalls (reply segments)).toList ∧
    stripToolCalls (stripToolCalls (reply segments)) = stripToolCalls (reply segments) := by
  have hstrip : stripToolCalls (reply segments) = String.ofList (trim (textOf (kept segments))) := by
    rw [stripToolCalls, reply, String.toList_ofList, strip_eq hwritten h (.inl rfl)]
  have hwritten' : ∀ s ∈ kept segments, s.Written :=
    fun s hs => hwritten s (List.mem_of_mem_filter hs)
  refine ⟨hstrip, ?_, ?_⟩
  · rw [hstrip, String.toList_ofList]
    exact fun hin => h.joinedKept (hin.trans (trim_isInfix _))
  · have hagain : kept (kept segments) = kept segments :=
      List.filter_eq_self.mpr fun s hs => (List.mem_filter.mp hs).2
    rw [hstrip, stripToolCalls, String.toList_ofList, strip_eq hwritten' h.kept (.inr rfl), hagain]

/-- Two calls, one of them with braces in a string, in prose with a block of code. -/
def mixedReply : List Segment :=
  [.prose "Look: ".toList,
    .call "\x7b\"name\":\"run\",\"arguments\":\x7b\"cmd\":\"\x7b\x7d\"\x7d\x7d".toList,
    .callBlock "\n\x7b \"name\": \"ls\", \"arguments\": \x7b\x7d \x7d\n".toList,
    .prose "the data ".toList, .block "\n[1]\n".toList]

theorem stripToolCalls_mixed :
    stripToolCalls (reply mixedReply) = "Look: the data ```json\n[1]\n```" := by
  have hwritten : ∀ s ∈ mixedReply, s.Written := by
    simp only [mixedReply, List.forall_mem_cons]
    exact ⟨⟨by decide +kernel, by decide +kernel⟩,
      ⟨"\"run\",\"arguments\":\x7b\"cmd\":\"\x7b\x7d\"\x7d".toList, by decide +kernel⟩,
      by unfold Segment.Written; decide +kernel, ⟨by decide +kernel, by decide +kernel⟩,
      by unfold Segment.Written; decide +kernel, List.forall_mem_nil _⟩
  refine (stripToolCalls_separable hwritten ⟨?_, by decide +kernel, by decide +kernel,
    ⟨by decide +kernel, by decide +kernel, List.forall_mem_nil _⟩, by decide +kernel⟩).1.trans
    (by decide +kernel)
  intro t ht
  simp only [mixedReply, List.mem_cons, reduceCtorEq, Segment.call.injEq, false_or,
    List.not_mem_nil, or_false] at ht
  rw [ht]
  decide +kernel

theorem stripToolCalls_of_none {t : Text} (hcall : ¬ toolCallStart <:+: t)
    (hblock : aroundFencedCall t = none) :
    trim (stripFencedCalls (stripJsonCalls t)) = trim t := by
  rw [stripJsonCalls_of_none hcall, stripFencedCalls_of_none hblock]

def braceCall : Segment :=
  .call "\x7b\"name\":\"run\",\"arguments\":\x7b\"cmd\":\"\x7d\"\x7d\x7d".toList

def shortBlock : Segment := .callBlock "\x7b\"name\":\"ls\",\"arguments\":\x7b\x7d\x7d".toList

def lateBlock : Segment := .callBlock "\x7b \"name\":\"ls\", \"arguments\":\x7b\x7d\x7d".toList

/-- **What is not stripped.** A brace in a string ends a call before its time; of a call in a fence
the fence is left; a call behind a block of code stays; and where a call is cut out, what is joined
may be taken for a call. -/
theorem not_stripped :
    (stripToolCalls (reply [braceCall]) = "\x7d" ∧ kept [braceCall] = []) ∧
    (stripToolCalls (reply [shortBlock]) = "```json```" ∧ kept [shortBlock] = []) ∧
    (stripToolCalls (reply [.block "[1]".toList, lateBlock]) =
      reply [.block "[1]".toList, lateBlock]) ∧
    (stripToolCalls (reply [.prose "\x7b\"na".toList, .call "\x7b\"name\":1\x7d".toList,
      .prose "me\":1\x7d".toList]) = "") := by
  refine ⟨⟨?_, rfl⟩, ⟨?_, rfl⟩, ?_, ?_⟩
  · have hcut : aroundToolCall (textOf [braceCall]) = some ([], ['\x7d']) := by decide +kernel
    rw [stripToolCalls, reply, String.toList_ofList, stripJsonCalls_of_some hcut,
      stripToolCalls_of_none (by decide +kernel) (by decide +kernel)]
    decide +kernel
  · have hcut : aroundToolCall (textOf [shortBlock]) = some (jsonFence, fence) := by
      decide +kernel
    rw [stripToolCalls, reply, String.toList_ofList, stripJsonCalls_of_some hcut,
      stripToolCalls_of_none (by decide +kernel) (by decide +kernel)]
    decide +kernel
  · rw [stripToolCalls, reply, String.toList_ofList,
      stripToolCalls_of_none (by decide +kernel) (by decide +kernel)]
    decide +kernel
  · have hcut : aroundToolCall (textOf [.prose "\x7b\"na".toList,
        .call "\x7b\"name\":1\x7d".toList, .prose "me\":1\x7d".toList]) =
        some ("\x7b\"na".toList, "me\":1\x7d".toList) := by decide +kernel
    have hjoined : aroundToolCall (trim ("\x7b\"na".toList ++ "me\":1\x7d".toList)) =
        some ([], []) := by decide +kernel
    rw [stripToolCalls, reply, String.toList_ofList, stripJsonCalls_of_some hcut,
      stripJsonCalls_of_some hjoined, stripToolCalls_of_none (by decide +kernel) (by decide +kernel)]
    decide +kernel

end Mowis.Planning
