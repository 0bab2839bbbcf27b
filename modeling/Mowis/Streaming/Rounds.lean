import Mowis.Lib.Ascending
import Mowis.Streaming.Split

/-!
# Streaming and plain rounds

`call_agent_round_openai_compat` of `mowis-orchestration/src/providers.rs`, which reads a whole
message, beside the loop that puts the message together from the pieces of a stream.
-/

namespace Mowis.Streaming

open Mowis.Lib
open Mowis.Review (Json)
open Mowis.Orchestration (ToolCall TokenUsage AgentRoundResult)
open Mowis.Executor (int nat fields)

def toolCallOf (parse : Parser) (tc : Json) : ToolCall :=
  let function := tc.get "function".toList
  { id := String.ofList ((tc.getStr "id".toList).getD [])
    name := String.ofList ((function.bind fun f => f.getStr "name".toList).getD [])
    args := ((function.bind fun f => f.getStr "arguments".toList).bind parse).getD (.object []) }

def callAgentRoundOpenaiCompat (parse : Parser) (respJson : Json) : AgentRoundResult :=
  let message := ((respJson.get "choices".toList).bind first).bind fun c => c.get "message".toList
  { text := (message.bind fun m => m.getStr "content".toList).map String.ofList
    toolCalls := (((message.bind fun m => m.get "tool_calls".toList).bind asArray).map
      fun calls => calls.map (toolCallOf parse)).getD []
    usage := ⟨tokenCount (index (index respJson "usage") "prompt_tokens"),
      tokenCount (index (index respJson "usage") "completion_tokens")⟩ }

def HasText (v : Json) (key : String) : Option Text → Prop
  | some t => v.get key.toList = some (.string t)
  | none => v.get key.toList = none ∨ v.get key.toList = some .null

/-- A call of a message: its id, its name, and its arguments as they were written. -/
structure Call where
  id : Text
  name : Text
  arguments : Text

structure Message where
  content : Option Text
  calls : List Call
  /-- No list in memory is longer. -/
  fits : calls.length < 2 ^ 63

/-- A call as it stands in a message, whatever else stands there. -/
structure Call.IsJson (c : Call) (v : Json) : Prop where
  id : v.get "id".toList = some (.string c.id)
  function : ∃ f, v.get "function".toList = some f ∧ f.get "name".toList = some (.string c.name) ∧
    f.get "arguments".toList = some (.string c.arguments)

/-- A response that is the whole message, whatever else stands there. -/
structure Message.IsJson (m : Message) (respJson : Json) : Prop where
  body : ∃ choice more message, respJson.get "choices".toList = some (.array (choice :: more)) ∧
    choice.get "message".toList = some message ∧ HasText message "content" m.content ∧
    ((m.calls = [] ∧ (message.get "tool_calls".toList = none ∨
        message.get "tool_calls".toList = some .null)) ∨
      ∃ items, message.get "tool_calls".toList = some (.array items) ∧
        List.Forall₂ Call.IsJson m.calls items)

/-- A piece of a call. -/
structure Fragment where
  index : ℕ
  id : Option Text
  name : Option Text
  arguments : Option Text

/-- What one event brings. -/
structure Delta where
  content : Option Text
  calls : List Fragment

structure Fragment.IsJson (f : Fragment) (v : Json) : Prop where
  index : v.get "index".toList = some (nat f.index)
  id : HasText v "id" f.id
  function :
    (f.name = none ∧ f.arguments = none ∧
      (v.get "function".toList = none ∨ v.get "function".toList = some .null)) ∨
    ∃ g, v.get "function".toList = some g ∧ HasText g "name" f.name ∧
      HasText g "arguments" f.arguments

def HasCalls (delta : Json) (calls : List Fragment) : Prop :=
  (calls = [] ∧ (delta.get "tool_calls".toList = none ∨
      delta.get "tool_calls".toList = some .null)) ∨
    ∃ items, delta.get "tool_calls".toList = some (.array items) ∧
      List.Forall₂ Fragment.IsJson calls items

def Delta.IsJson (d : Delta) (event : Json) : Prop :=
  (d.content = none ∧ d.calls = [] ∧ (event.get "choices".toList = none ∨
      event.get "choices".toList = some (.array []))) ∨
    ∃ choice more delta, event.get "choices".toList = some (.array (choice :: more)) ∧
      choice.get "delta".toList = some delta ∧ HasText delta "content" d.content ∧
      HasCalls delta d.calls

def fragmentsAt (deltas : List Delta) (i : ℕ) : List Fragment :=
  (deltas.flatMap Delta.calls).filter fun f => f.index = i

/-- The events are the message in pieces: the texts in their order are the text; each call has
its id and its name in one of its fragments, and its arguments in pieces. -/
structure Splits (m : Message) (deltas : List Delta) : Prop where
  content : (deltas.filterMap Delta.content).flatten = m.content.getD []
  index : ∀ f ∈ deltas.flatMap Delta.calls, f.index < m.calls.length
  id : ∀ i c, m.calls[i]? = some c → (fragmentsAt deltas i).filterMap Fragment.id = [c.id]
  name : ∀ i c, m.calls[i]? = some c → (fragmentsAt deltas i).filterMap Fragment.name = [c.name]
  arguments : ∀ i c, m.calls[i]? = some c →
    ((fragmentsAt deltas i).filterMap Fragment.arguments).flatten = c.arguments

def eventsOf (parse : Parser) (chunks : List (List UInt8)) : List Json :=
  (dataLines (completeLines (received chunks))).filterMap parse

/-! ### What the stream collects -/

def Fragment.merge (f : Fragment) (entry : ToolAccum) : ToolAccum :=
  ⟨orKeep f.id entry.id, orKeep f.name entry.name, entry.args ++ f.arguments.getD []⟩

def Fragment.add (accum : List (ℤ × ToolAccum)) (f : Fragment) : List (ℤ × ToolAccum) :=
  updateEntry f.index f.merge accum

theorem mem_updateEntry {idx : ℤ} {g : ToolAccum → ToolAccum} {l : List (ℤ × ToolAccum)}
    {p : ℤ × ToolAccum} (h : p ∈ updateEntry idx g l) : p.1 = idx ∨ p ∈ l := by
  induction l with
  | nil =>
    rw [updateEntry, List.mem_singleton] at h
    exact .inl (congrArg Prod.fst h)
  | cons q l ih =>
    obtain ⟨k, entry⟩ := q
    rw [updateEntry] at h
    split at h
    · rcases List.mem_cons.mp h with heq | hmem
      · exact .inl (congrArg Prod.fst heq)
      · exact .inr hmem
    · split at h
      · next hidx =>
        rcases List.mem_cons.mp h with heq | hmem
        · exact .inl (hidx ▸ congrArg Prod.fst heq)
        · exact .inr (List.mem_cons_of_mem _ hmem)
      · rcases List.mem_cons.mp h with heq | hmem
        · exact .inr (heq ▸ List.mem_cons_self)
        · exact (ih hmem).imp_right (List.mem_cons_of_mem _)

theorem ascending_updateEntry {idx : ℤ} {g : ToolAccum → ToolAccum} {l : List (ℤ × ToolAccum)}
    (hl : Ascending l) : Ascending (updateEntry idx g l) := by
  induction l with
  | nil => exact List.pairwise_singleton _ _
  | cons q l ih =>
    obtain ⟨k, entry⟩ := q
    obtain ⟨hk, htail⟩ := List.pairwise_cons.mp hl
    rw [updateEntry]
    split
    · next hlt =>
      exact List.pairwise_cons.mpr ⟨List.forall_mem_cons.mpr ⟨hlt, fun r hr => hlt.trans (hk r hr)⟩,
        hl⟩
    · next hlt =>
      split
      · exact List.pairwise_cons.mpr ⟨hk, htail⟩
      · next hne =>
        refine List.pairwise_cons.mpr ⟨fun r hr => ?_, ih htail⟩
        rcases mem_updateEntry hr with heq | hmem
        · show k < r.1
          omega
        · exact hk r hmem

theorem lookup_updateEntry {idx : ℤ} {g : ToolAccum → ToolAccum} {l : List (ℤ × ToolAccum)}
    (hl : Ascending l) (k : ℤ) : (updateEntry idx g l).lookup k =
      if k = idx then some (g ((l.lookup idx).getD ⟨[], [], []⟩)) else l.lookup k := by
  induction l with
  | nil =>
    rw [updateEntry]
    split
    · next hk => rw [hk, List.lookup_cons_self]; rfl
    · next hk => rw [lookup_cons_ne hk]
  | cons q l ih =>
    obtain ⟨j, entry⟩ := q
    obtain ⟨hj, htail⟩ := List.pairwise_cons.mp hl
    rw [updateEntry]
    split
    · next hlt =>
      have hnone : ((j, entry) :: l).lookup idx = none :=
        lookup_eq_none_of_lt (List.forall_mem_cons.mpr ⟨hlt, fun r hr => hlt.trans (hj r hr)⟩)
      rw [hnone]
      split
      · next hk => rw [hk, List.lookup_cons_self]; rfl
      · next hk => rw [lookup_cons_ne hk]
    · split
      · next hidx =>
        subst hidx
        rw [List.lookup_cons_self]
        split
        · next hk => rw [hk, List.lookup_cons_self]; rfl
        · next hk => rw [lookup_cons_ne hk, lookup_cons_ne hk]
      · next hne =>
        rw [lookup_cons_ne hne]
        by_cases hkj : k = j
        · rw [hkj, List.lookup_cons_self, List.lookup_cons_self, if_neg (Ne.symm hne)]
        · rw [lookup_cons_ne hkj, ih htail, lookup_cons_ne hkj]

/-- What has been collected for an index: the fragments of that index, one after the other. -/
def collected (fs : List Fragment) (k : ℤ) : Option ToolAccum :=
  let own := fs.filter fun f => (f.index : ℤ) = k
  if own = [] then none else some (own.foldl (fun entry f => f.merge entry) ⟨[], [], []⟩)

theorem collected_append (fs : List Fragment) (f : Fragment) (k : ℤ) :
    collected (fs ++ [f]) k =
      if k = f.index then some (f.merge ((collected fs f.index).getD ⟨[], [], []⟩))
      else collected fs k := by
  split
  · next hk =>
    have hown : (fs ++ [f]).filter (fun g => (g.index : ℤ) = k) =
        fs.filter (fun g => (g.index : ℤ) = f.index) ++ [f] := by
      rw [List.filter_append, hk]
      simp
    have hne : fs.filter (fun g => (g.index : ℤ) = f.index) ++ [f] ≠ [] := by simp
    rw [collected]
    simp only [hown]
    rw [if_neg hne, List.foldl_append, collected]
    simp only [List.foldl_cons, List.foldl_nil]
    split
    · next hnil => rw [hnil]; rfl
    · rfl
  · next hk =>
    have hown : (fs ++ [f]).filter (fun g => (g.index : ℤ) = k) =
        fs.filter (fun g => (g.index : ℤ) = k) := by
      simp [List.filter_append, Ne.symm hk]
    rw [collected, collected]
    simp only [hown]

theorem foldl_add (fs : List Fragment) :
    Ascending (fs.foldl Fragment.add []) ∧
      ∀ k, (fs.foldl Fragment.add []).lookup k = collected fs k := by
  induction fs using List.reverseRecOn with
  | nil => exact ⟨List.Pairwise.nil, fun k => rfl⟩
  | append_singleton fs f ih =>
    obtain ⟨hasc, hlookup⟩ := ih
    rw [List.foldl_append, List.foldl_cons, List.foldl_nil]
    refine ⟨ascending_updateEntry hasc, fun k => ?_⟩
    rw [Fragment.add, lookup_updateEntry hasc, collected_append, hlookup, hlookup]

theorem HasText.getStr {v : Json} {key : String} {t : Option Text} (h : HasText v key t) :
    v.getStr key.toList = t := by
  cases t with
  | some t =>
    have hget : v.get key.toList = some (.string t) := h
    rw [Json.getStr, hget]
    rfl
  | none =>
    rcases h with hget | hget <;>
    · rw [Json.getStr, hget]
      rfl

theorem Fragment.IsJson.add {f : Fragment} {v : Json} (h : f.IsJson v) (hindex : f.index < 2 ^ 63)
    (accum : List (ℤ × ToolAccum)) : addToolCall accum v = f.add accum := by
  have hidx : ((v.get "index".toList).bind asI64).getD 0 = f.index := by
    have hread : asI64 (nat f.index) = some (f.index : ℤ) := asI64_int (n := f.index) (by omega)
    rw [h.index, Option.bind_some, hread]
    rfl
  have hid := h.id.getStr
  have hname : ((v.get "function".toList).bind fun g => g.getStr "name".toList) = f.name := by
    rcases h.function with ⟨hname, -, hnone | hnull⟩ | ⟨g, hg, hname, -⟩
    · rw [hnone, hname]
      rfl
    · rw [hnull, hname]
      rfl
    · rw [hg]
      exact hname.getStr
  have hargs : ((v.get "function".toList).bind fun g => g.getStr "arguments".toList) =
      f.arguments := by
    rcases h.function with ⟨-, hargs, hnone | hnull⟩ | ⟨g, hg, -, hargs⟩
    · rw [hnone, hargs]
      rfl
    · rw [hnull, hargs]
      rfl
    · rw [hg]
      exact hargs.getStr
  rw [addToolCall, hidx, hid, hname, hargs]
  rfl

theorem HasCalls.foldl {delta : Json} {calls : List Fragment} (h : HasCalls delta calls)
    (hindex : ∀ f ∈ calls, f.index < 2 ^ 63) (accum : List (ℤ × ToolAccum)) :
    (((delta.get "tool_calls".toList).bind asArray).getD []).foldl addToolCall accum =
      calls.foldl Fragment.add accum := by
  rcases h with ⟨rfl, hnone | hnull⟩ | ⟨items, hitems, hall⟩
  · rw [hnone]
    rfl
  · rw [hnull]
    rfl
  · have harray : ((delta.get "tool_calls".toList).bind asArray).getD [] = items := by
      rw [hitems]
      rfl
    rw [harray]
    clear hitems harray
    induction hall generalizing accum with
    | nil => rfl
    | cons hf _ ih =>
      obtain ⟨hhead, htail⟩ := List.forall_mem_cons.mp hindex
      rw [List.foldl_cons, List.foldl_cons, hf.add hhead, ih htail]

theorem takeUsage_fullText (s : ChatState) (event : Json) :
    (s.takeUsage event).fullText = s.fullText := by
  rw [ChatState.takeUsage]
  split <;> rfl

theorem pushText_fullText (s : ChatState) (t : Option Text) :
    (s.pushText t).fullText = s.fullText ++ t.getD [] := by
  cases t with
  | none => simp [ChatState.pushText]
  | some t =>
    rw [ChatState.pushText]
    split
    · next hempty => simp [hempty]
    · rfl

theorem Delta.IsJson.roundEvent {d : Delta} {event : Json} (h : d.IsJson event)
    (hindex : ∀ f ∈ d.calls, f.index < 2 ^ 63) (s : RoundState) :
    (roundEvent s event).chat.fullText = s.chat.fullText ++ d.content.getD [] ∧
      (Streaming.roundEvent s event).toolAccum = d.calls.foldl Fragment.add s.toolAccum := by
  rcases h with ⟨hcontent, hcalls, hchoices⟩ | ⟨choice, more, delta, hchoices, hdelta, hcontent, hcalls⟩
  · have hnone : choiceDelta event = none := by
      rcases hchoices with hmissing | hempty
      · rw [choiceDelta, hmissing]
        rfl
      · rw [choiceDelta, hempty]
        rfl
    rw [Streaming.roundEvent, hnone, hcontent, hcalls]
    exact ⟨by simp [takeUsage_fullText], rfl⟩
  · have hsome : choiceDelta event = some delta := by
      rw [choiceDelta, hchoices]
      exact hdelta
    rw [Streaming.roundEvent, hsome]
    refine ⟨?_, hcalls.foldl hindex _⟩
    show ChatState.fullText _ = _
    rw [pushText_fullText, takeUsage_fullText, hcontent.getStr]

theorem foldl_roundEvent {deltas : List Delta} {events : List Json}
    (h : List.Forall₂ Delta.IsJson deltas events)
    (hindex : ∀ f ∈ deltas.flatMap Delta.calls, f.index < 2 ^ 63) (s : RoundState) :
    (events.foldl roundEvent s).chat.fullText =
        s.chat.fullText ++ (deltas.filterMap Delta.content).flatten ∧
      (events.foldl roundEvent s).toolAccum =
        (deltas.flatMap Delta.calls).foldl Fragment.add s.toolAccum := by
  induction h generalizing s with
  | nil => exact ⟨(List.append_nil _).symm, rfl⟩
  | @cons d event deltas events hd _ ih =>
    rw [List.flatMap_cons] at hindex
    obtain ⟨htext, haccum⟩ := hd.roundEvent
      (fun f hf => hindex f (List.mem_append_left _ hf)) s
    obtain ⟨htexts, haccums⟩ := ih (fun f hf => hindex f (List.mem_append_right _ hf))
      (roundEvent s event)
    rw [List.foldl_cons, htexts, haccums, htext, haccum]
    refine ⟨?_, ?_⟩
    · cases hcontent : d.content <;> simp [hcontent]
    · rw [List.flatMap_cons, List.foldl_append]

def Call.whole (c : Call) : ToolAccum := ⟨c.id, c.name, c.arguments⟩

def Message.entries (m : Message) : List (ℤ × ToolAccum) :=
  m.calls.zipIdx.map fun p => ((p.2 : ℤ), p.1.whole)

theorem lookup_zipIdx {α ν : Type*} (g : α → ν) (l : List α) (n : ℕ) (k : ℤ) :
    ((l.zipIdx n).map fun p => ((p.2 : ℤ), g p.1)).lookup k =
      if (n : ℤ) ≤ k then (l[(k - n).toNat]?).map g else none := by
  induction l generalizing n with
  | nil => simp
  | cons a l ih =>
    rw [List.zipIdx_cons, List.map_cons]
    by_cases hk : k = n
    · rw [hk, List.lookup_cons_self, if_pos le_rfl]
      simp
    · rw [lookup_cons_ne hk, ih]
      by_cases hle : (n : ℤ) ≤ k
      · have hpos : (k - n).toNat = (k - (n + 1 : ℕ)).toNat + 1 := by omega
        rw [if_pos hle, if_pos (by omega), hpos, List.getElem?_cons_succ]
      · rw [if_neg hle, if_neg (by omega)]

theorem ascending_entries (m : Message) : Ascending m.entries := by
  rw [Message.entries, Ascending, List.pairwise_map]
  have hindices : (m.calls.zipIdx.map Prod.snd).Pairwise (· < ·) := by
    rw [List.zipIdx_map_snd]
    exact List.pairwise_lt_range'
  exact (List.pairwise_map.mp hindices).imp fun hlt => Int.ofNat_lt.mpr hlt

theorem foldl_merge (fs : List Fragment) (entry : ToolAccum) :
    fs.foldl (fun entry f => f.merge entry) entry =
      ⟨(fs.filterMap Fragment.id).foldl (fun old t => orKeep (some t) old) entry.id,
        (fs.filterMap Fragment.name).foldl (fun old t => orKeep (some t) old) entry.name,
        entry.args ++ (fs.filterMap Fragment.arguments).flatten⟩ := by
  induction fs generalizing entry with
  | nil => simp
  | cons f fs ih =>
    rw [List.foldl_cons, ih]
    obtain ⟨i, id, name, arguments⟩ := f
    cases id <;> cases name <;> cases arguments <;> simp [Fragment.merge, orKeep]

theorem orKeep_nil (t : Text) : orKeep (some t) [] = t := by
  rw [orKeep]
  split
  · next h => exact h.symm
  · rfl

theorem Splits.collected {m : Message} {deltas : List Delta} (h : Splits m deltas) (k : ℤ) :
    collected (deltas.flatMap Delta.calls) k = m.entries.lookup k := by
  rw [Message.entries, lookup_zipIdx, Streaming.collected]
  by_cases hk : 0 ≤ k
  · obtain ⟨i, rfl⟩ := Int.eq_ofNat_of_zero_le hk
    have hown : (deltas.flatMap Delta.calls).filter (fun f => (f.index : ℤ) = i) =
        fragmentsAt deltas i := by
      rw [fragmentsAt]
      congr 1
      funext f
      simp
    simp only [hown, Nat.cast_zero, sub_zero, Int.toNat_natCast]
    rw [if_pos hk]
    cases hc : m.calls[i]? with
    | none =>
      have hlen := List.getElem?_eq_none_iff.mp hc
      have hempty : fragmentsAt deltas i = [] := by
        rw [fragmentsAt, List.filter_eq_nil_iff]
        intro f hf
        have hlt := h.index f hf
        rw [decide_eq_true_eq]
        omega
      rw [if_pos hempty]
      rfl
    | some c =>
      have hid := h.id i c hc
      have hne : fragmentsAt deltas i ≠ [] := by
        intro hnil
        rw [hnil] at hid
        cases hid
      rw [if_neg hne, foldl_merge, hid, h.name i c hc, h.arguments i c hc]
      simp only [List.foldl_cons, List.foldl_nil, orKeep_nil, List.nil_append]
      rfl
  · have hempty : (deltas.flatMap Delta.calls).filter (fun f => (f.index : ℤ) = k) = [] := by
      rw [List.filter_eq_nil_iff]
      intro f _
      rw [decide_eq_true_eq]
      omega
    have hneg : ¬ ((0 : ℕ) : ℤ) ≤ k := by simpa using hk
    simp only [hempty]
    rw [if_pos trivial, if_neg hneg]

/-! ### Agreement -/

theorem read_eventsOf (parse : Parser) (chunks : List (List UInt8)) :
    callAgentRoundOpenaiCompatStreaming.read parse (chunks.map .ok) =
      .ok (callAgentRoundOpenaiCompatStreaming.finish parse
        ((eventsOf parse chunks).foldl roundEvent ⟨.start, []⟩)) := by
  have hfold : ∀ (data : List Text) (s : RoundState),
      data.foldl (callAgentRoundOpenaiCompatStreaming.onData parse) s =
        (data.filterMap parse).foldl roundEvent s := by
    intro data
    induction data with
    | nil => exact fun _ => rfl
    | cons d data ih =>
      intro s
      rw [List.foldl_cons, ih, Reader.onData, List.filterMap_cons]
      cases parse d <;> rfl
  rw [read_chunks, Reader.outcome, hfold]
  rfl

theorem toolCallOf_isJson {parse : Parser} {c : Call} {v : Json} (h : c.IsJson v) :
    toolCallOf parse v =
      ⟨String.ofList c.id, String.ofList c.name, (parse c.arguments).getD (.object [])⟩ := by
  obtain ⟨f, hf, hname, hargs⟩ := h.function
  rw [toolCallOf, hf]
  simp only [Json.getStr, h.id, Option.bind_some, hname, hargs]
  rfl

theorem Message.IsJson.plain {m : Message} {body : Json} (h : m.IsJson body) (parse : Parser) :
    (callAgentRoundOpenaiCompat parse body).text = m.content.map String.ofList ∧
      (callAgentRoundOpenaiCompat parse body).toolCalls = m.calls.map fun c =>
        ⟨String.ofList c.id, String.ofList c.name, (parse c.arguments).getD (.object [])⟩ := by
  obtain ⟨choice, more, message, hchoices, hmessage, hcontent, hcalls⟩ := h.body
  have hfound : (((body.get "choices".toList).bind first).bind fun c => c.get "message".toList) =
      some message := by
    rw [hchoices]
    exact hmessage
  rw [callAgentRoundOpenaiCompat]
  simp only [hfound, Option.bind_some, hcontent.getStr]
  refine ⟨trivial, ?_⟩
  rcases hcalls with ⟨hnil, hnone | hnull⟩ | ⟨items, hitems, hall⟩
  · rw [hnone, hnil]
    rfl
  · rw [hnull, hnil]
    rfl
  · have hmap : items.map (toolCallOf parse) = m.calls.map fun c =>
        ⟨String.ofList c.id, String.ofList c.name, (parse c.arguments).getD (.object [])⟩ := by
      clear hitems
      generalize m.calls = calls at hall
      induction hall with
      | nil => rfl
      | cons hc _ ih => rw [List.map_cons, List.map_cons, toolCallOf_isJson hc, ih]
    rw [hitems]
    exact hmap

theorem filter_ofList (t : Text) : (if t = [] then none else some (String.ofList t)) =
    (some (String.ofList t)).filter fun text => text ≠ "" := by
  have hiff : String.ofList t ≠ "" ↔ t ≠ [] :=
    not_congr (by rw [← String.ofList_nil, String.ofList_inj])
  rw [Option.filter_some]
  by_cases ht : t = []
  · rw [if_pos ht, if_neg (by simpa [hiff] using ht)]
  · rw [if_neg ht, if_pos (decide_eq_true (hiff.mpr ht))]

/-- **Streaming and plain rounds.** However a server cuts a message into the events of a stream,
the loop returns the text of the whole message, or none where it is empty, and the calls of the
message in their order, but those without a name. -/
theorem rounds_agree {parse : Parser} {chunks : List (List UInt8)} {m : Message}
    {deltas : List Delta} {body : Json} (hbody : m.IsJson body) (hsplit : Splits m deltas)
    (hevents : List.Forall₂ Delta.IsJson deltas (eventsOf parse chunks)) :
    ∃ reply, callAgentRoundOpenaiCompatStreaming.read parse (chunks.map .ok) = .ok reply ∧
      reply.round.text =
        (callAgentRoundOpenaiCompat parse body).text.filter (fun text => text ≠ "") ∧
      reply.round.toolCalls =
        (callAgentRoundOpenaiCompat parse body).toolCalls.filter fun tc => tc.name ≠ "" := by
  have hindex : ∀ f ∈ deltas.flatMap Delta.calls, f.index < 2 ^ 63 :=
    fun f hf => (hsplit.index f hf).trans m.fits
  obtain ⟨htext, haccum⟩ := foldl_roundEvent hevents hindex ⟨.start, []⟩
  obtain ⟨hasc, hlookup⟩ := foldl_add (deltas.flatMap Delta.calls)
  have hentries : ((eventsOf parse chunks).foldl roundEvent ⟨.start, []⟩).toolAccum = m.entries := by
    rw [haccum]
    exact hasc.ext (ascending_entries m) fun k => (hlookup k).trans (hsplit.collected k)
  have hfull : ((eventsOf parse chunks).foldl roundEvent ⟨.start, []⟩).chat.fullText =
      m.content.getD [] := by
    rw [htext, hsplit.content]
    rfl
  obtain ⟨hplaintext, hplaincalls⟩ := hbody.plain parse
  refine ⟨_, read_eventsOf parse chunks, ?_, ?_⟩
  · rw [hplaintext]
    show (if _ = [] then none else some (String.ofList _)) = _
    rw [hfull]
    cases m.content with
    | none => rfl
    | some t => exact filter_ofList t
  · rw [hplaincalls]
    show collectCalls parse _ = _
    rw [hentries, collectCalls, Message.entries, List.map_map]
    congr 1
    conv_rhs => rw [← List.zipIdx_map_fst 0 m.calls]
    rw [List.map_map]
    rfl

/-! A message with an empty text and two calls, one without a name, cut into two events. -/

def quietMessage : Message :=
  ⟨some [], [⟨"c1".toList, "ls".toList, "\x7b\x7d".toList⟩,
    ⟨"c2".toList, [], "\x7b\x7d".toList⟩], by decide⟩

def quietDeltas : List Delta :=
  [⟨some [], [⟨0, some "c1".toList, some "ls".toList, some "\x7b".toList⟩,
      ⟨1, some "c2".toList, some [], some "\x7b\x7d".toList⟩]⟩,
    ⟨none, [⟨0, none, none, some "\x7d".toList⟩]⟩]

def quietBody : Json :=
  .object (fields [("choices", .array [.object (fields [("message", .object (fields
    [("content", .string []), ("tool_calls", .array [.object (fields
      [("id", .string "c1".toList), ("function", .object (fields
        [("name", .string "ls".toList), ("arguments", .string "\x7b\x7d".toList)]))]),
      .object (fields [("id", .string "c2".toList), ("function", .object (fields
        [("name", .string []), ("arguments", .string "\x7b\x7d".toList)]))])])]))])])])

def quietEvents : List Json :=
  [.object (fields [("choices", .array [.object (fields [("delta", .object (fields
    [("content", .string []), ("tool_calls", .array [.object (fields
      [("index", nat 0), ("id", .string "c1".toList), ("function", .object (fields
        [("name", .string "ls".toList), ("arguments", .string "\x7b".toList)]))]),
      .object (fields [("index", nat 1), ("id", .string "c2".toList), ("function", .object (fields
        [("name", .string []), ("arguments", .string "\x7b\x7d".toList)]))])])]))])])]),
    .object (fields [("choices", .array [.object (fields [("delta", .object (fields
      [("tool_calls", .array [.object (fields
        [("index", nat 0), ("function", .object (fields
          [("arguments", .string "\x7d".toList)]))])])]))])])])]

def quietTexts : List Text :=
  ["\x7b\"choices\":[\x7b\"delta\":\x7b\"content\":\"\",\"tool_calls\":[\x7b\"index\":0,".toList ++
      "\"id\":\"c1\",\"function\":\x7b\"name\":\"ls\",\"arguments\":\"\x7b\"\x7d\x7d,".toList ++
      "\x7b\"index\":1,\"id\":\"c2\",\"function\":\x7b\"name\":\"\",".toList ++
      "\"arguments\":\"\x7b\x7d\"\x7d\x7d]\x7d\x7d]\x7d".toList,
    "\x7b\"choices\":[\x7b\"delta\":\x7b\"tool_calls\":[\x7b\"index\":0,".toList ++
      "\"function\":\x7b\"arguments\":\"\x7d\"\x7d\x7d]\x7d\x7d]\x7d".toList]

def quietStream : Text := quietTexts.flatMap fun t => dataPrefix ++ t ++ ['\n']

def quietParse : Parser := fun t =>
  if t = "\x7b\x7d".toList then some (.object []) else (quietTexts.zip quietEvents).lookup t

theorem quietBody_isJson : quietMessage.IsJson quietBody :=
  ⟨⟨_, [], _, rfl, rfl, rfl, .inr ⟨_, rfl, .cons ⟨rfl, _, rfl, rfl, rfl⟩
    (.cons ⟨rfl, _, rfl, rfl, rfl⟩ .nil)⟩⟩⟩

theorem quietDeltas_splits : Splits quietMessage quietDeltas := by
  have hall : ∀ i c, quietMessage.calls[i]? = some c →
      (fragmentsAt quietDeltas i).filterMap Fragment.id = [c.id] ∧
        (fragmentsAt quietDeltas i).filterMap Fragment.name = [c.name] ∧
        ((fragmentsAt quietDeltas i).filterMap Fragment.arguments).flatten = c.arguments := by
    intro i c hc
    match i with
    | 0 => cases hc; exact ⟨rfl, rfl, rfl⟩
    | 1 => cases hc; exact ⟨rfl, rfl, rfl⟩
    | i + 2 => cases hc
  refine ⟨rfl, fun f hf => ?_, fun i c hc => (hall i c hc).1, fun i c hc => (hall i c hc).2.1,
    fun i c hc => (hall i c hc).2.2⟩
  have hindex : ∀ g ∈ quietDeltas.flatMap Delta.calls, g.index < 2 := by
    simp [quietDeltas]
  exact hindex f hf

theorem quietEvents_arrive : eventsOf quietParse [utf8 quietStream] = quietEvents := by
  have hlines : dataLines (completeLines quietStream) = quietTexts := by decide +kernel
  have hreceived : received [utf8 quietStream] = quietStream := by
    rw [received, List.flatMap_singleton, lossyChars_utf8]
  rw [eventsOf, hreceived, hlines]
  rfl

theorem quietEvents_isJson : List.Forall₂ Delta.IsJson quietDeltas quietEvents :=
  .cons (.inr ⟨_, [], _, rfl, rfl, rfl, .inr ⟨_, rfl, .cons
    ⟨rfl, rfl, .inr ⟨_, rfl, rfl, rfl⟩⟩ (.cons ⟨rfl, rfl, .inr ⟨_, rfl, rfl, rfl⟩⟩ .nil)⟩⟩)
  (.cons (.inr ⟨_, [], _, rfl, rfl, .inl rfl, .inr ⟨_, rfl, .cons
    ⟨rfl, .inl rfl, .inr ⟨_, rfl, .inl rfl, rfl⟩⟩ .nil⟩⟩) .nil)

theorem rounds_agree_quiet :
    ∃ reply, callAgentRoundOpenaiCompatStreaming.read quietParse ([utf8 quietStream].map .ok) =
        .ok reply ∧
      reply.round.text = (callAgentRoundOpenaiCompat quietParse quietBody).text.filter
        (fun text => text ≠ "") ∧
      reply.round.toolCalls = (callAgentRoundOpenaiCompat quietParse quietBody).toolCalls.filter
        fun tc => tc.name ≠ "" :=
  rounds_agree quietBody_isJson quietDeltas_splits
    (quietEvents_arrive ▸ quietEvents_isJson)

/-- The whole message has a text, the empty one, and two calls; the stream returns no text and
one call. -/
theorem quiet_text_and_call_lost :
    quietMessage.IsJson quietBody ∧ Splits quietMessage quietDeltas ∧
      List.Forall₂ Delta.IsJson quietDeltas (eventsOf quietParse [utf8 quietStream]) ∧
      ∀ reply, callAgentRoundOpenaiCompatStreaming.read quietParse ([utf8 quietStream].map .ok) =
          .ok reply →
        reply.round.text ≠ (callAgentRoundOpenaiCompat quietParse quietBody).text ∧
          reply.round.toolCalls ≠ (callAgentRoundOpenaiCompat quietParse quietBody).toolCalls := by
  refine ⟨quietBody_isJson, quietDeltas_splits, quietEvents_arrive ▸ quietEvents_isJson, ?_⟩
  intro reply hread
  rw [read_eventsOf, quietEvents_arrive] at hread
  cases hread
  have hstream : (callAgentRoundOpenaiCompatStreaming.finish quietParse
      (quietEvents.foldl roundEvent ⟨.start, []⟩)).round.text = none := rfl
  have hplain : (callAgentRoundOpenaiCompat quietParse quietBody).text = some "" := rfl
  have hone : (callAgentRoundOpenaiCompatStreaming.finish quietParse
      (quietEvents.foldl roundEvent ⟨.start, []⟩)).round.toolCalls.length = 1 := rfl
  have htwo : (callAgentRoundOpenaiCompat quietParse quietBody).toolCalls.length = 2 := rfl
  constructor
  · rw [hstream, hplain]
    exact (Option.some_ne_none _).symm
  · intro heq
    rw [heq, htwo] at hone
    cases hone

end Mowis.Streaming
