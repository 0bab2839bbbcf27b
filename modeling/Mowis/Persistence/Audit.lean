import Mowis.Persistence.Wal

/-!
# The audit log

`AuditLogger` of `agentd/src/audit.rs`: events are kept in a buffer, which is drained line by line
into a file that is opened for every flush.  Opening may fail, and a line may be broken off after
any byte.
-/

namespace Mowis.Persistence.Audit

open Mowis.Lib

variable {V : Type*} (serde : SerdeJson V)

/-- The file, the buffer, and all events that were ever passed to `log`. -/
structure Logger (V : Type*) where
  file : LogFile
  buffer : List V
  logged : List V

/-- What fails in a flush: opening the file, or a line, by its place in the buffer, of which some
bytes are written. -/
structure Faults where
  openFails : Bool
  writeFails : Option (ℕ × ℕ)

/-- The content after `for event in buffer.drain(..)`, and whether no line failed. -/
def writeLines (content : Bytes) : List V → Option (ℕ × ℕ) → Bytes × Bool
  | [], _ => (content, true)
  | event :: _, some (0, written) =>
    (content ++ (LogFile.lineBytes serde event).take written, false)
  | event :: rest, some (n + 1, written) =>
    writeLines (content ++ LogFile.lineBytes serde event) rest (some (n, written))
  | event :: rest, none => writeLines (content ++ LogFile.lineBytes serde event) rest none

def collectEvents (count : ℕ) : List Text → List V → List V
  | [], events => events
  | line :: rest, events =>
    if count ≤ events.length then events
    else
      match serde.parse line with
      | some event => collectEvents count rest (events ++ [event])
      | none => collectEvents count rest events

def fileText (file : LogFile) : Text := (file.bind decodeUtf8).getD []

namespace Logger

/-- An empty log, or a file with the events of earlier processes. -/
def start (before : Option (List V)) : Logger V :=
  ⟨before.map (·.flatMap (LogFile.lineBytes serde)), [], before.getD []⟩

/-- The buffer is empty after the drain, also when a line failed. -/
def flush (s : Logger V) (faults : Faults) : Logger V × Bool :=
  if s.buffer.isEmpty then (s, true)
  else if faults.openFails then (s, false)
  else
    let (content, ok) := writeLines serde (s.file.getD []) s.buffer faults.writeFails
    ({ s with file := some content, buffer := [] }, ok)

def log (bufferSize : ℕ) (s : Logger V) (event : V) (faults : Faults) : Logger V × Bool :=
  let s := { s with buffer := s.buffer ++ [event], logged := s.logged ++ [event] }
  if bufferSize ≤ s.buffer.length then s.flush serde faults else (s, true)

def readEvents (s : Logger V) (count : ℕ) (faults : Faults) (readFails : Bool) :
    Logger V × Option (List V) :=
  match s.flush serde faults with
  | (s, false) => (s, none)
  | (s, true) =>
    let content := if readFails then [] else fileText s.file
    (s, some (collectEvents serde count (lines content).reverse []).reverse)

end Logger

inductive Action (V : Type*) where
  | log (event : V) (faults : Faults)
  | flush (faults : Faults)
  | readEvents (count : ℕ) (faults : Faults) (readFails : Bool)

def step (bufferSize : ℕ) (s : Logger V) : Action V → Option (Logger V)
  | .log event faults => some (s.log serde bufferSize event faults).1
  | .flush faults => some (s.flush serde faults).1
  | .readEvents count faults readFails => some (s.readEvents serde count faults readFails).1

/-- The events of the file and then those of the buffer are the events that were logged. -/
def Kept (s : Logger V) : Prop :=
  (lines (fileText s.file)).filterMap serde.parse ++ s.buffer = s.logged

def Answers (s : Logger V) : Action V → Prop
  | .readEvents count faults readFails => ∀ events,
    (s.readEvents serde count faults readFails).2 = some events →
      events = s.logged.drop (s.logged.length - count)
  | _ => True

/-- No line fails, and the file is read when it is opened for reading. -/
def Undisturbed : Action V → Prop
  | .log _ faults => faults.writeFails = none
  | .flush faults => faults.writeFails = none
  | .readEvents _ faults readFails => faults.writeFails = none ∧ readFails = false

def Holds (s : Logger V) : Prop :=
  ∃ written, s.file.getD [] = written.flatMap (LogFile.lineBytes serde) ∧
    written ++ s.buffer = s.logged

variable {serde} {s : Logger V} {faults : Faults}

theorem writeLines_none (content : Bytes) (events : List V) :
    writeLines serde content events none =
      (content ++ events.flatMap (LogFile.lineBytes serde), true) := by
  induction events generalizing content with
  | nil => simp [writeLines]
  | cons event rest ih => simp [writeLines, ih]

theorem collectEvents_eq (count : ℕ) (ls : List Text) (events : List V) :
    collectEvents serde count ls events =
      events ++ (ls.filterMap serde.parse).take (count - events.length) := by
  induction ls generalizing events with
  | nil => simp [collectEvents]
  | cons line rest ih =>
    rw [collectEvents]
    split_ifs with hcount
    · simp [Nat.sub_eq_zero_of_le hcount]
    · cases hparse : serde.parse line with
      | none => simp [ih, hparse]
      | some event =>
        have hlen : count - events.length = count - (events.length + 1) + 1 := by omega
        simp [ih, hparse, hlen]

theorem flush_holds (h : Holds serde s) (hwrite : faults.writeFails = none) :
    Holds serde (s.flush serde faults).1 ∧
      (s.flush serde faults).1.logged = s.logged ∧
      ((s.flush serde faults).2 = true → (s.flush serde faults).1.buffer = []) := by
  obtain ⟨written, hfile, hlogged⟩ := h
  rw [Logger.flush]
  split_ifs with hempty hopen
  · exact ⟨⟨written, hfile, hlogged⟩, rfl, fun _ => List.isEmpty_iff.mp hempty⟩
  · exact ⟨⟨written, hfile, hlogged⟩, rfl, fun hok => nomatch hok⟩
  · rw [hwrite, writeLines_none]
    refine ⟨⟨written ++ s.buffer, ?_, ?_⟩, rfl, fun _ => rfl⟩
    · simp [hfile]
    · simpa using hlogged

theorem step_holds {bufferSize : ℕ} {s' : Logger V} {a : Action V} (h : Holds serde s)
    (ha : Undisturbed a) (hs : step serde bufferSize s a = some s') : Holds serde s' := by
  cases a with
  | log event faults =>
    cases hs
    obtain ⟨written, hfile, hlogged⟩ := h
    have hpush : Holds serde
        { s with buffer := s.buffer ++ [event], logged := s.logged ++ [event] } :=
      ⟨written, hfile, by rw [← hlogged, List.append_assoc]⟩
    rw [Logger.log]
    split_ifs
    · exact (flush_holds hpush ha).1
    · exact hpush
  | flush faults =>
    cases hs
    exact (flush_holds h ha).1
  | readEvents count faults readFails =>
    cases hs
    have hflush := (flush_holds h ha.1).1
    rw [Logger.readEvents]
    split <;> simp_all

section Codes

variable (hserde : serde.Compact) (hcodes : ∀ event, serde.parse (serde.print event) = some event)
include hserde hcodes

theorem events_of_lines {file : LogFile} {written : List V}
    (hfile : file.getD [] = written.flatMap (LogFile.lineBytes serde)) :
    (lines (fileText file)).filterMap serde.parse = written := by
  have hbytes : file.getD [] = utf8 ((written.map serde.print).flatMap endLine) := by
    rw [hfile]
    clear hfile
    induction written with
    | nil => rfl
    | cons event rest ih => simp [LogFile.lineBytes, ih]
  have htext : fileText file = (written.map serde.print).flatMap endLine := by
    cases file with
    | none => exact utf8_injective hbytes
    | some content =>
      have hdecode : decodeUtf8 content = some _ := decodeUtf8_eq_some.mpr hbytes
      rw [fileText, Option.bind_some, hdecode, Option.getD_some]
  have honeLine : ∀ l ∈ written.map serde.print, '\n' ∉ l := by
    intro l hl
    obtain ⟨event, -, rfl⟩ := List.mem_map.mp hl
    exact hserde.oneLine event
  rw [htext, lines_flatMap_endLine honeLine, List.map_map, List.filterMap_map]
  refine (List.filterMap_congr fun event _ => ?_).trans List.filterMap_some
  show serde.parse (dropCR (serde.print event)) = some event
  rw [dropCR_print hserde, hcodes]

theorem Holds.kept (h : Holds serde s) : Kept serde s := by
  obtain ⟨written, hfile, hlogged⟩ := h
  rw [Kept, events_of_lines hserde hcodes hfile, hlogged]

theorem Holds.answers (h : Holds serde s) {a : Action V} (ha : Undisturbed a) :
    Answers serde s a := by
  cases a with
  | log event faults => trivial
  | flush faults => trivial
  | readEvents count faults readFails =>
    obtain ⟨hwrite, rfl⟩ := ha
    obtain ⟨hholds, hlogged, hbuffer⟩ := flush_holds h hwrite
    intro events hread
    rw [Logger.readEvents] at hread
    split at hread
    · cases hread
    · next s' hflush =>
      rw [hflush] at hholds hlogged hbuffer
      have hall := hholds.kept hserde hcodes
      rw [Kept, hbuffer rfl, List.append_nil] at hall
      dsimp only at hread
      rw [if_neg Bool.false_ne_true, collectEvents_eq, List.filterMap_reverse, hall,
        hlogged] at hread
      cases hread
      rw [List.nil_append, List.length_nil, Nat.sub_zero, List.take_reverse, List.reverse_reverse]

end Codes

/-- **No event is lost where no line fails**: in every such run the file and the buffer hold the
logged events in order, and the events that are read are the last ones. -/
theorem kept_of_run (hserde : serde.Compact)
    (hcodes : ∀ event, serde.parse (serde.print event) = some event) (bufferSize : ℕ)
    (before : Option (List V)) {past : List (Logger V × Action V)} {s : Logger V}
    (hrun : Execution (step serde bufferSize) (.start serde before) past s)
    (hok : ∀ e ∈ past, Undisturbed e.2) :
    Kept serde s ∧ ∀ e ∈ past, Answers serde e.1 e.2 := by
  have hall : Holds serde s ∧ ∀ e ∈ past, Answers serde e.1 e.2 := by
    induction hrun with
    | start =>
      refine ⟨⟨before.getD [], ?_, List.append_nil _⟩, fun _ he => nomatch he⟩
      cases before <;> rfl
    | next _ hs ih =>
      obtain ⟨ha, hpast⟩ := List.forall_mem_cons.mp hok
      obtain ⟨hholds, hanswers⟩ := ih hpast
      exact ⟨step_holds hholds ha hs,
        List.forall_mem_cons.mpr ⟨hholds.answers hserde hcodes ha, hanswers⟩⟩
  exact ⟨hall.1.kept hserde hcodes, hall.2⟩

def booleans : SerdeJson Bool where
  print b := if b then "true".toList else "false".toList
  parse line :=
    if line = "true".toList then some true
    else if line = "false".toList then some false else none

theorem booleans_compact : booleans.Compact where
  nonempty := by decide
  oneLine := by decide
  noReturn := by decide

/-- The file cannot be opened for the first flush, and the second one writes both events. -/
theorem kept_of_closed : ∃ past s,
    Execution (step booleans 1) (.start booleans none) past s ∧ Kept booleans s ∧
      ∀ e ∈ past, Answers booleans e.1 e.2 := by
  have hrun := Execution.ofRun Execution.start
    (rfl : Execution.runActions (step booleans 1)
      [.log true ⟨true, none⟩, .log false ⟨false, none⟩, .readEvents 1 ⟨false, none⟩ false] []
      (.start booleans none) = some (_, _))
  exact ⟨_, _, hrun, kept_of_run booleans_compact (by decide) 1 none hrun
    (by simp [Undisturbed])⟩

/-- The line of the first of two events fails, and neither event is left. -/
theorem events_not_kept : ¬ ∀ bufferSize past (s : Logger Bool),
    Execution (step booleans bufferSize) (.start booleans none) past s → Kept booleans s := by
  intro h
  have hkept := h 2 _ _ (Execution.ofRun .start
    (rfl : Execution.runActions _
      [.log true ⟨false, none⟩, .log false ⟨false, some (0, 0)⟩] [] _ =
        some (_, ⟨some [], [], [true, false]⟩)))
  have hdecode : decodeUtf8 [] = some [] := decodeUtf8_eq_some.mpr rfl
  have htext : fileText (some []) = [] := by
    rw [fileText, Option.bind_some, hdecode, Option.getD_some]
  rw [Kept, htext] at hkept
  exact absurd hkept (by decide)

end Mowis.Persistence.Audit
