import Mowis.Lib.Execution
import Mowis.Lib.Text
import Mowis.Lib.Utf8

/-!
# The write-ahead log

`WriteAheadLog` of `persistence.rs`: a file with one entry on a line, which is written by appends
that may be cut short at any byte, and read as a whole.
-/

namespace Mowis.Persistence

open Mowis.Lib

abbrev Bytes := List UInt8

/-- The texts of entries; `parse` is `none` where no entry is read. -/
structure SerdeJson (V : Type*) where
  print : V → Text
  parse : Text → Option V

/-- An entry is written on one line. -/
structure SerdeJson.Compact {V : Type*} (serde : SerdeJson V) : Prop where
  nonempty : ∀ entry, serde.print entry ≠ []
  oneLine : ∀ entry, '\n' ∉ serde.print entry
  noReturn : ∀ entry, '\r' ∉ serde.print entry

variable {V : Type*} (serde : SerdeJson V)

/-- The file of the log, when there is one. -/
abbrev LogFile := Option Bytes

def parseLine (line : Text) : Option V := if line = [] then none else serde.parse line

namespace LogFile

def init (file : LogFile) : LogFile := some (file.getD [])

def lineBytes (entry : V) : Bytes := utf8 (endLine (serde.print entry))

/-- The file after the first `written` bytes of the line. -/
def appendPart (file : LogFile) (entry : V) (written : ℕ) : LogFile :=
  some (file.getD [] ++ (lineBytes serde entry).take written)

def append (file : LogFile) (entry : V) : LogFile :=
  some (file.getD [] ++ lineBytes serde entry)

/-- `none` where the file is no text. -/
def readAll : LogFile → Option (List V)
  | none => some []
  | some content => (decodeUtf8 content).map fun text => (lines text).filterMap (parseLine serde)

def clear (_ : LogFile) : LogFile := some []

end LogFile

/-- The log, the entries whose append returned `Ok` since the last `clear`, and all entries that were
ever passed to `append`. -/
structure State (V : Type*) where
  file : LogFile
  acknowledged : List V
  attempted : List V

/-- `breakOff` is an append that ends in a crash, or in an error, after some bytes of its line. -/
inductive Action (V : Type*) where
  | init
  | append (entry : V)
  | breakOff (entry : V) (written : ℕ)
  | clear

def State.start : State V := ⟨none, [], []⟩

def step (s : State V) : Action V → Option (State V)
  | .init => some { s with file := s.file.init }
  | .append entry => some {
      file := s.file.append serde entry
      acknowledged := s.acknowledged ++ [entry]
      attempted := s.attempted ++ [entry] }
  | .breakOff entry written => some { s with
      file := s.file.appendPart serde entry written
      attempted := s.attempted ++ [entry] }
  | .clear => some { s with file := s.file.clear, acknowledged := [] }

/-- Reading succeeds, with all acknowledged entries in their order, and with no other entry than
those that were passed to `append`. -/
def Durable (s : State V) : Prop :=
  ∃ entries, s.file.readAll serde = some entries ∧ s.acknowledged.Sublist entries ∧
    ∀ entry ∈ entries, entry ∈ s.attempted

/-- An append starts on a line of its own, and its entry is read back; one that is broken off leaves
a text whose last line is no entry, or one that was passed to `append`. -/
def StepOk (s : State V) : Action V → Prop
  | .append entry =>
    (∀ text, decodeUtf8 (s.file.getD []) = some text → text = [] ∨ text.getLast? = some '\n') ∧
      serde.parse (serde.print entry) = some entry
  | .breakOff entry written =>
    ∃ text, decodeUtf8 ((s.file.appendPart serde entry written).getD []) = some text ∧
      ∀ line ∈ (lines text).getLast?, ∀ other ∈ parseLine serde line,
        other ∈ s.attempted ++ [entry]
  | _ => True

/-! ### What is in the file -/

/-- `ended` are the lines with a line feed, and `tail` is what follows them. -/
structure Holds (s : State V) (ended : List Text) (tail : Text) : Prop where
  content : s.file.getD [] = utf8 (ended.flatMap endLine ++ tail)
  ended_oneLine : ∀ line ∈ ended, '\n' ∉ line
  tail_oneLine : '\n' ∉ tail
  acknowledged : s.acknowledged.Sublist ((ended.map dropCR).filterMap (parseLine serde))
  ended_attempted : ∀ line ∈ ended, ∀ entry ∈ parseLine serde (dropCR line), entry ∈ s.attempted
  tail_attempted : ∀ entry ∈ parseLine serde tail, entry ∈ s.attempted

section Step

variable {serde} {s s' : State V} {ended : List Text} {tail : Text}

theorem holds_start : Holds serde (.start : State V) [] [] where
  content := rfl
  ended_oneLine _ hline := nomatch hline
  tail_oneLine := List.not_mem_nil
  acknowledged := List.nil_sublist _
  ended_attempted _ hline := nomatch hline
  tail_attempted _ hentry := nomatch hentry

theorem lines_tail (htail : '\n' ∉ tail) : lines tail = if tail = [] then [] else [tail] := by
  split_ifs with hempty
  · rw [hempty]
    rfl
  · exact lines_last hempty htail

theorem Holds.durable (h : Holds serde s ended tail) : Durable serde s := by
  set text := ended.flatMap endLine ++ tail with htext
  have hlines : lines text = ended.map dropCR ++ if tail = [] then [] else [tail] := by
    rw [htext, lines_flatMap_endLine_append h.ended_oneLine, lines_tail h.tail_oneLine]
  have hread : s.file.readAll serde = some ((lines text).filterMap (parseLine serde)) := by
    have hcontent := h.content
    cases hfile : s.file with
    | none =>
      rw [hfile] at hcontent
      have hempty : text = [] := utf8_injective hcontent.symm
      rw [hempty]
      rfl
    | some content =>
      rw [hfile] at hcontent
      have hdecode : decodeUtf8 content = some text := decodeUtf8_eq_some.mpr hcontent
      rw [LogFile.readAll, hdecode]
      rfl
  refine ⟨_, hread, ?_, fun entry hentry => ?_⟩
  · rw [hlines, List.filterMap_append]
    exact h.acknowledged.trans (List.sublist_append_left _ _)
  · rw [hlines, List.filterMap_append, List.mem_append] at hentry
    rcases hentry with hentry | hentry
    · obtain ⟨line, hline, hparse⟩ := List.mem_filterMap.mp hentry
      obtain ⟨line, hmem, rfl⟩ := List.mem_map.mp hline
      exact h.ended_attempted line hmem entry hparse
    · obtain ⟨line, hline, hparse⟩ := List.mem_filterMap.mp hentry
      split_ifs at hline
      · cases hline
      · rw [List.mem_singleton.mp hline] at hparse
        exact h.tail_attempted entry hparse

theorem Holds.completed (h : Holds serde s ended tail) {line : Text} {acknowledged attempted : List V}
    {file : LogFile} (hfile : file.getD [] = utf8 (ended.flatMap endLine ++ endLine line))
    (hline : '\n' ∉ line)
    (hacknowledged : acknowledged.Sublist
      (((ended ++ [line]).map dropCR).filterMap (parseLine serde)))
    (hattempted : ∀ entry ∈ s.attempted, entry ∈ attempted)
    (hparse : ∀ entry ∈ parseLine serde (dropCR line), entry ∈ attempted) :
    Holds serde ⟨file, acknowledged, attempted⟩ (ended ++ [line]) [] where
  content := by
    rw [List.flatMap_append, List.append_nil, List.flatMap_singleton]
    exact hfile
  ended_oneLine := by
    intro line' hline'
    rcases List.mem_append.mp hline' with hline' | hline'
    · exact h.ended_oneLine line' hline'
    · rwa [List.mem_singleton.mp hline']
  tail_oneLine := List.not_mem_nil
  acknowledged := hacknowledged
  ended_attempted := by
    intro line' hline' entry hentry
    rcases List.mem_append.mp hline' with hline' | hline'
    · exact hattempted entry (h.ended_attempted line' hline' entry hentry)
    · rw [List.mem_singleton.mp hline'] at hentry
      exact hparse entry hentry
  tail_attempted _ hentry := nomatch hentry

theorem Holds.tail_eq_nil (h : Holds serde s ended tail)
    (hends : ∀ text, decodeUtf8 (s.file.getD []) = some text →
      text = [] ∨ text.getLast? = some '\n') : tail = [] := by
  by_contra hne
  rcases hends _ (decodeUtf8_eq_some.mpr h.content) with hempty | hlast
  · exact hne (List.append_eq_nil_iff.mp hempty).2
  · rw [List.getLast?_append_of_ne_nil _ hne] at hlast
    exact h.tail_oneLine (List.mem_of_getLast? hlast)

theorem dropCR_print (hserde : serde.Compact) (entry : V) :
    dropCR (serde.print entry) = serde.print entry :=
  dropCR_eq_self fun hlast => hserde.noReturn entry (List.mem_of_getLast? hlast)

theorem Holds.append (hserde : serde.Compact) (h : Holds serde s ended tail) (entry : V)
    (hends : ∀ text, decodeUtf8 (s.file.getD []) = some text →
      text = [] ∨ text.getLast? = some '\n')
    (hcodes : serde.parse (serde.print entry) = some entry) :
    Holds serde ⟨s.file.append serde entry, s.acknowledged ++ [entry], s.attempted ++ [entry]⟩
      (ended ++ [serde.print entry]) [] := by
  have hread : parseLine serde (dropCR (serde.print entry)) = some entry := by
    rw [dropCR_print hserde, parseLine, if_neg (hserde.nonempty entry), hcodes]
  have hcontent := h.content
  rw [h.tail_eq_nil hends, List.append_nil] at hcontent
  refine h.completed ?_ (hserde.oneLine entry) ?_ (fun _ hmem => List.mem_append_left _ hmem) ?_
  · show s.file.getD [] ++ utf8 _ = _
    rw [hcontent, ← utf8_append]
  · rw [List.map_append, List.filterMap_append, List.map_singleton]
    refine h.acknowledged.append ?_
    rw [List.filterMap_cons_some hread]
    exact List.Sublist.refl _
  · rw [hread]
    intro other hother
    cases hother
    exact List.mem_append_right _ (List.mem_singleton_self _)

theorem prefix_of_appendPart {entry : V} {written : ℕ} {old text : Text}
    (h : utf8 old ++ (LogFile.lineBytes serde entry).take written = utf8 text) :
    ∃ part, text = old ++ part ∧ part <+: endLine (serde.print entry) := by
  obtain ⟨part, rfl, hpart⟩ := utf8_append_inv h
  refine ⟨part, rfl, ?_⟩
  have hsplit := List.take_append_drop written (LogFile.lineBytes serde entry)
  rw [hpart] at hsplit
  obtain ⟨rest, hrest, -⟩ := utf8_append_inv hsplit
  exact ⟨rest, hrest.symm⟩

theorem Holds.breakOff (hserde : serde.Compact) (h : Holds serde s ended tail) (entry : V) (written : ℕ)
    (hok : StepOk serde s (.breakOff entry written)) :
    ∃ ended' tail', Holds serde
      ⟨s.file.appendPart serde entry written, s.acknowledged, s.attempted ++ [entry]⟩ ended' tail' := by
  obtain ⟨text, hdecode, hlast⟩ := hok
  have hfile := decodeUtf8_eq_some.mp hdecode
  have hwritten : utf8 (ended.flatMap endLine ++ tail) ++
      (LogFile.lineBytes serde entry).take written = utf8 text := by
    rw [← h.content]
    exact hfile
  obtain ⟨part, rfl, hpart⟩ := prefix_of_appendPart hwritten
  rw [List.append_assoc] at hfile hlast
  have hkeep : ∀ other ∈ s.attempted, other ∈ s.attempted ++ [entry] :=
    fun _ hmem => List.mem_append_left _ hmem
  by_cases hend : '\n' ∈ part
  · -- the whole line is there
    have hwhole : part = endLine (serde.print entry) := by
      refine (List.prefix_concat_iff.mp hpart).resolve_right fun hpart => ?_
      exact hserde.oneLine entry (hpart.subset hend)
    have hline : tail ++ part = endLine (tail ++ serde.print entry) := by
      rw [hwhole, endLine, endLine, List.append_assoc]
    have hnotMem : '\n' ∉ tail ++ serde.print entry := by
      rw [List.mem_append, not_or]
      exact ⟨h.tail_oneLine, hserde.oneLine entry⟩
    rw [hline] at hfile hlast
    refine ⟨_, _, h.completed hfile hnotMem ?_ hkeep (hlast _ ?_)⟩
    · rw [List.map_append, List.filterMap_append]
      exact h.acknowledged.trans (List.sublist_append_left _ _)
    · rw [lines_flatMap_endLine_append h.ended_oneLine, lines_endLine hnotMem,
        List.getLast?_concat]
      rfl
  · have hnotMem : '\n' ∉ tail ++ part := by
      rw [List.mem_append, not_or]
      exact ⟨h.tail_oneLine, hend⟩
    refine ⟨ended, tail ++ part, ⟨hfile, h.ended_oneLine, hnotMem, h.acknowledged, ?_, ?_⟩⟩
    · exact fun line hline other hother => hkeep other (h.ended_attempted line hline other hother)
    · intro other hother
      by_cases hempty : tail ++ part = []
      · rw [hempty] at hother
        cases hother
      · refine hlast _ ?_ other hother
        rw [lines_flatMap_endLine_append h.ended_oneLine, lines_last hempty hnotMem,
          List.getLast?_concat]
        rfl

theorem Holds.step (hserde : serde.Compact) {a : Action V} (h : Holds serde s ended tail)
    (hok : StepOk serde s a) (hstep : step serde s a = some s') :
    ∃ ended' tail', Holds serde s' ended' tail' := by
  cases a with
  | init =>
    cases hstep
    exact ⟨ended, tail, h.content, h.ended_oneLine, h.tail_oneLine, h.acknowledged,
      h.ended_attempted, h.tail_attempted⟩
  | append entry =>
    cases hstep
    exact ⟨_, _, h.append hserde entry hok.1 hok.2⟩
  | breakOff entry written =>
    cases hstep
    exact h.breakOff hserde entry written hok
  | clear =>
    cases hstep
    exact ⟨[], [], rfl, fun _ hline => (nomatch hline), List.not_mem_nil, List.nil_sublist _,
      fun _ hline => (nomatch hline), fun _ hentry => (nomatch hentry)⟩

end Step

/-- **The log is durable in every state of a run whose appends all find the file ended by a line
feed, and whose broken off appends leave no text that reads as an entry of its own.** -/
theorem durable_of_run (hserde : serde.Compact) {past : List (State V × Action V)} {s : State V}
    (hrun : Execution (step serde) .start past s) (hok : ∀ e ∈ past, StepOk serde e.1 e.2) :
    Durable serde s := by
  obtain ⟨ended, tail, h⟩ := hrun.invariant_of (I := fun s => ∃ ended tail, Holds serde s ended tail)
    ⟨[], [], holds_start⟩ (fun _ _ _ ⟨_, _, h⟩ hok hstep => h.step hserde hok hstep) hok
  exact h.durable

def naturals : SerdeJson ℕ where
  print n := Nat.toDigits 10 n
  parse line :=
    if line ≠ [] ∧ line.all Char.isDigit ∧ (line.head? = some '0' → line = ['0']) then
      some (line.foldl (fun n c => 10 * n + (c.toNat - 48)) 0)
    else none

theorem naturals_compact : naturals.Compact where
  nonempty n hempty := by
    have hlen : (Nat.toDigits 10 n).length = 0 := congrArg List.length hempty
    have hpos := Nat.length_toDigits_pos (b := 10) (n := n)
    omega
  oneLine n hmem := nomatch Nat.isDigit_of_mem_toDigits (by decide) (by decide) hmem
  noReturn n hmem := nomatch Nat.isDigit_of_mem_toDigits (by decide) (by decide) hmem

/-- Of `12` one byte is left, and the next entry `3` becomes a part of the same line. -/
theorem not_durable :
    ¬ ∀ (past : List (State ℕ × Action ℕ)) (s : State ℕ),
      Execution (step naturals) .start past s → Durable naturals s := by
  intro h
  obtain ⟨entries, hread, hacknowledged, -⟩ := h _ _ (Execution.ofRun .start
    (rfl : Execution.runActions _ [.breakOff 12 1, .append 3] [] _ = some (_, _)))
  have hdecode : decodeUtf8 [49, 51, 10] = some ['1', '3', '\n'] :=
    decodeUtf8_eq_some.mpr (by decide)
  have hentries : LogFile.readAll naturals (some [49, 51, 10]) = some [13] := by
    rw [LogFile.readAll, hdecode]
    decide
  cases hentries.symm.trans hread
  revert hacknowledged
  decide

/-- The broken off line of `34` lacks its line feed, and the log is cleared before the next entry. -/
theorem durable_of_cleared :
    ∃ (past : List (State ℕ × Action ℕ)) (s : State ℕ),
      Execution (step naturals) .start past s ∧ s.acknowledged = [7] ∧ Durable naturals s := by
  have hrun := Execution.ofRun Execution.start
    (rfl : Execution.runActions (step naturals)
      [.init, .append 12, .breakOff 34 2, .clear, .append 7] [] .start = some (_, _))
  refine ⟨_, _, hrun, rfl, durable_of_run naturals naturals_compact hrun ?_⟩
  simp only [List.forall_mem_cons]
  have hempty : ∀ text, decodeUtf8 [] = some text → text = [] ∨ text.getLast? = some '\n' :=
    fun text htext => .inl (utf8_injective (decodeUtf8_eq_some.mp htext).symm)
  have hdecode : decodeUtf8 [49, 50, 10, 51, 52] = some ['1', '2', '\n', '3', '4'] :=
    decodeUtf8_eq_some.mpr (by decide)
  exact ⟨⟨hempty, by decide⟩, trivial, ⟨_, hdecode, by decide⟩,
    ⟨hempty, by decide⟩, trivial, fun _ he => nomatch he⟩

end Mowis.Persistence
