import Mowis.Lib.UnixPath
import Mowis.Persistence.Wal

/-!
# The checkpoint store

`Checkpointer` of `persistence.rs`: a checkpoint is one file of the directory `checkpoints`, whose
name is what is left of the id without the characters that a name should not have.
-/

namespace Mowis.Persistence

open Mowis.Lib Mowis.Lib.UnixPath

/-- `char::is_alphanumeric`, of which it is used that a slash is not. -/
structure Alphanumeric where
  holds : Char → Bool
  slash : holds '/' = false

def sanitized (alnum : Alphanumeric) (checkpointId : Text) : Text :=
  checkpointId.filter fun c => alnum.holds c || c == '-' || c == '_'

def checkpointName (name : Text) : Name :=
  utf8 ("checkpoint_".toList ++ (name ++ ".json".toList))

/-- The part of a file name in front of its last dot, unless that is its first character. -/
def fileStem (name : Name) : Name :=
  let front := name.rdropWhile (· ≠ UnixPath.dot)
  if front.length ≤ 1 then name else front.dropLast

/-- `with_extension`, on the name of a file. -/
def withExtension (name : Name) (extension : Name) : Name :=
  fileStem name ++ UnixPath.dot :: extension

def checkpointsDir (basePath : RawPath) : RawPath := push basePath (utf8 "checkpoints".toList)

def checkpointPath (basePath : RawPath) (name : Text) : RawPath :=
  push (checkpointsDir basePath) (checkpointName name)

def tmpPath (basePath : RawPath) (name : Text) : RawPath :=
  push (checkpointsDir basePath) (withExtension (checkpointName name) (utf8 "tmp".toList))

/-- The files, by the components of their paths, and the paths that were written. -/
structure Disk where
  file : List Component → Option Bytes
  written : List RawPath

/-- How a save ends: `writeFails` leaves a part of the content behind. -/
inductive SaveFate where
  | done
  | createFails
  | writeFails (left : Bytes)
  | renameFails

namespace Disk

def empty : Disk := ⟨fun _ => none, []⟩

variable (d : Disk)

def put (path : RawPath) (content : Option Bytes) : Disk where
  file := Function.update d.file (components path) content
  written := d.written ++ [path]

def atomicWrite (tmp path : RawPath) (content : Bytes) : SaveFate → Disk × Bool
  | .createFails => (d, false)
  | .writeFails left => (d.put tmp (some left), false)
  | .renameFails => (d.put tmp (some content), false)
  | .done => (((d.put tmp (some content)).put path (some content)).put tmp none, true)

end Disk

variable {V : Type*} (serde : SerdeJson V) (alnum : Alphanumeric) (basePath : RawPath)

structure Save (V : Type*) where
  checkpointId : Text
  data : V
  fate : SaveFate

def saveCheckpoint (d : Disk) (s : Save V) : Disk × Bool :=
  let name := sanitized alnum s.checkpointId
  if name = [] then (d, false)
  else d.atomicWrite (tmpPath basePath name) (checkpointPath basePath name)
    (utf8 (serde.print s.data)) s.fate

/-- `none` is a failure. -/
def loadCheckpoint (d : Disk) (checkpointId : Text) : Option V :=
  (d.file (components (checkpointPath basePath (sanitized alnum checkpointId)))).bind fun content =>
    (decodeUtf8 content).bind serde.parse

def run (saves : List (Save V)) : Disk :=
  saves.foldl (fun d s => (saveCheckpoint serde alnum basePath d s).1) .empty

def Save.succeeds (s : Save V) : Bool :=
  match s.fate with
  | .done => !(sanitized alnum s.checkpointId).isEmpty
  | _ => false

def lastSave (saves : List (Save V)) (checkpointId : Text) : Option (Save V) :=
  saves.reverse.find? fun s => s.succeeds alnum && s.checkpointId == checkpointId

def lastNamed (saves : List (Save V)) (name : Text) : Option (Save V) :=
  saves.reverse.find? fun s => s.succeeds alnum && sanitized alnum s.checkpointId == name

/-- What is promised of an id: it is loaded as it was saved last, and all files are in the
directory of the checkpoints. -/
structure Isolated (saves : List (Save V)) (checkpointId : Text) : Prop where
  loaded : loadCheckpoint serde alnum basePath (run serde alnum basePath saves) checkpointId =
    (lastSave alnum saves checkpointId).map Save.data
  inside : ∀ path ∈ (run serde alnum basePath saves).written,
    ∃ name, components path = components (checkpointsDir basePath) ++ [.normal name]

def Save.readBack (s : Save V) : Option V := serde.parse (serde.print s.data)

/-- The last save of an id with the same name is one of this id, and is read back; or it is one of
another id, and is read back as what this id was saved with last, or not at all where it never
was. -/
def Undisturbed (saves : List (Save V)) (checkpointId : Text) : Prop :=
  ∀ s, lastNamed alnum saves (sanitized alnum checkpointId) = some s →
    s.checkpointId = checkpointId ∧ s.readBack serde = some s.data ∨
    s.checkpointId ≠ checkpointId ∧
      s.readBack serde = (lastSave alnum saves checkpointId).map Save.data

section Paths

variable {alnum basePath} {name name' : Text}

theorem exists_mem_of_mem_utf8 {b : UInt8} (hb : b.toNat < 0x80) {t : Text} (h : b ∈ utf8 t) :
    ∃ c ∈ t, c.toNat = b.toNat := by
  obtain ⟨c, hc, hmem⟩ := List.mem_flatMap.mp h
  refine ⟨c, hc, ?_⟩
  obtain ⟨first, conts, ranges, v, henc, hfirst, hranges, hconts, hval⟩ := utf8EncodeChar_eq c
  rw [henc] at hmem
  rcases List.mem_cons.mp hmem with rfl | hmem
  · have hread := decodeTail_append (v := v) hranges []
    rw [List.append_nil, hval, ← hfirst, decodeFirst, if_pos hb, Char.ofNat_toNat] at hread
    rw [← (Prod.mk.inj hread).1, Char.toNat_ofNat, if_pos (.inl (by omega))]
  · have hcont := (hconts b hmem).1
    omega

theorem slash_notMem_utf8 {t : Text} (h : '/' ∉ t) : UnixPath.slash ∉ utf8 t := by
  intro hmem
  obtain ⟨c, hc, hnat⟩ := exists_mem_of_mem_utf8 (by decide) hmem
  obtain rfl : c = '/' := Char.toNat_inj.mp hnat
  exact h hc

theorem slash_notMem_sanitized (alnum : Alphanumeric) (checkpointId : Text) :
    '/' ∉ sanitized alnum checkpointId := by
  intro h
  have hkept := List.of_mem_filter h
  simp [alnum.slash] at hkept

theorem utf8_checkpoint (rest : Text) :
    utf8 ("checkpoint_".toList ++ rest) = 0x63 :: utf8 ("heckpoint_".toList ++ rest) := by
  have hchars : "checkpoint_".toList ++ rest = 'c' :: ("heckpoint_".toList ++ rest) := rfl
  have hc : String.utf8EncodeChar 'c' = [0x63] := by decide +kernel
  rw [hchars, utf8_cons, hc]
  rfl

theorem withExtension_checkpointName (name : Text) :
    withExtension (checkpointName name) (utf8 "tmp".toList) =
      utf8 ("checkpoint_".toList ++ (name ++ ".tmp".toList)) := by
  have hjson : utf8 ".json".toList = [UnixPath.dot, 0x6A, 0x73, 0x6F, 0x6E] := by decide +kernel
  have htmp : utf8 ".tmp".toList = UnixPath.dot :: utf8 "tmp".toList := by decide +kernel
  have hfront : (checkpointName name).rdropWhile (· ≠ UnixPath.dot) =
      utf8 ("checkpoint_".toList ++ name) ++ [UnixPath.dot] := by
    rw [checkpointName, ← List.append_assoc, utf8_append _ ".json".toList, hjson, List.rdropWhile,
      List.reverse_append]
    have hdrop : ∀ back, ([UnixPath.dot, 0x6A, 0x73, 0x6F, 0x6E].reverse ++ back).dropWhile
        (fun b => decide (b ≠ UnixPath.dot)) = UnixPath.dot :: back := fun _ => rfl
    rw [hdrop, List.reverse_cons, List.reverse_reverse]
  have hlen : ¬ (utf8 ("checkpoint_".toList ++ name) ++ [UnixPath.dot]).length ≤ 1 := by
    rw [utf8_checkpoint, List.length_append, List.length_cons, List.length_singleton]
    omega
  have hstem : fileStem (checkpointName name) = utf8 ("checkpoint_".toList ++ name) := by
    unfold fileStem
    rw [hfront, if_neg hlen, List.dropLast_concat]
  rw [withExtension, hstem, ← List.append_assoc, utf8_append _ ".tmp".toList, htmp]

theorem isName_utf8 {rest : Text} (h : '/' ∉ rest) :
    IsName (utf8 ("checkpoint_".toList ++ rest)) := by
  refine ⟨?_, ?_, ?_, slash_notMem_utf8 ?_⟩
  · rw [utf8_checkpoint]
    exact List.cons_ne_nil _ _
  · rw [utf8_checkpoint]
    intro heq
    exact absurd (List.cons.inj heq).1 (by decide)
  · rw [utf8_checkpoint]
    intro heq
    exact absurd (List.cons.inj heq).1 (by decide)
  · simp [h]

theorem components_file (basePath : RawPath) {rest : Text} (h : '/' ∉ rest) :
    components (push (checkpointsDir basePath) (utf8 ("checkpoint_".toList ++ rest))) =
      components (checkpointsDir basePath) ++ [.normal (utf8 ("checkpoint_".toList ++ rest))] :=
  components_push_name (isName_utf8 h) _

theorem components_file_inj {rest rest' : Text} (h : '/' ∉ rest) (h' : '/' ∉ rest')
    (heq : components (push (checkpointsDir basePath) (utf8 ("checkpoint_".toList ++ rest))) =
      components (push (checkpointsDir basePath) (utf8 ("checkpoint_".toList ++ rest')))) :
    rest = rest' := by
  rw [components_file basePath h, components_file basePath h'] at heq
  have hlast := (List.cons.inj (List.append_cancel_left heq)).1
  exact List.append_cancel_left (utf8_injective (Component.normal.inj hlast))

end Paths

/-! ### Saves -/

section Saves

variable {serde alnum basePath} {d : Disk} {s : Save V} {saves : List (Save V)} {name : Text}

theorem Disk.file_put (d : Disk) (path : RawPath) (content : Option Bytes) (cs : List Component) :
    (d.put path content).file cs = if cs = components path then content else d.file cs :=
  Function.update_apply _ _ _ _

theorem Disk.file_atomicWrite {tmp path : RawPath} (content : Bytes) (fate : SaveFate)
    {cs : List Component} (hcs : cs ≠ components tmp) :
    (d.atomicWrite tmp path content fate).1.file cs =
      if (d.atomicWrite tmp path content fate).2 = true ∧ cs = components path then some content
      else d.file cs := by
  cases fate with
  | createFails => simp [Disk.atomicWrite]
  | writeFails left => simp [Disk.atomicWrite, Disk.file_put, hcs]
  | renameFails => simp [Disk.atomicWrite, Disk.file_put, hcs]
  | done => simp [Disk.atomicWrite, Disk.file_put, hcs]

theorem saveCheckpoint_succeeds (d : Disk) (s : Save V) :
    (saveCheckpoint serde alnum basePath d s).2 = s.succeeds alnum := by
  unfold saveCheckpoint Save.succeeds
  cases s.fate <;> by_cases hname : sanitized alnum s.checkpointId = [] <;>
    simp [hname, Disk.atomicWrite]

theorem file_saveCheckpoint (d : Disk) (s : Save V) (hname : '/' ∉ name) :
    (saveCheckpoint serde alnum basePath d s).1.file (components (checkpointPath basePath name)) =
      if s.succeeds alnum = true ∧ sanitized alnum s.checkpointId = name then
        some (utf8 (serde.print s.data))
      else d.file (components (checkpointPath basePath name)) := by
  have hown := slash_notMem_sanitized alnum s.checkpointId
  have hjson : ∀ n : Text, '/' ∉ n → '/' ∉ n ++ ".json".toList := fun n hn => by simp [hn]
  have hsame : components (checkpointPath basePath name) =
      components (checkpointPath basePath (sanitized alnum s.checkpointId)) ↔
      sanitized alnum s.checkpointId = name := by
    constructor
    · intro heq
      exact (List.append_cancel_right
        (components_file_inj (hjson _ hname) (hjson _ hown) heq)).symm
    · rintro rfl
      rfl
  have htmp : components (checkpointPath basePath name) ≠
      components (tmpPath basePath (sanitized alnum s.checkpointId)) := by
    rw [tmpPath, withExtension_checkpointName]
    intro heq
    have hrest := components_file_inj (hjson _ hname) (by simp [hown]) heq
    have hlast := congrArg List.getLast? hrest
    rw [List.getLast?_append, List.getLast?_append] at hlast
    exact absurd hlast (by simp)
  have hok : (saveCheckpoint serde alnum basePath d s).2 = s.succeeds alnum :=
    saveCheckpoint_succeeds d s
  rw [← hok]
  unfold saveCheckpoint
  dsimp only
  split
  · simp
  · rw [Disk.file_atomicWrite _ _ htmp]
    exact if_congr (and_congr_right fun _ => hsame) rfl rfl

theorem run_concat (saves : List (Save V)) (s : Save V) :
    run serde alnum basePath (saves ++ [s]) =
      (saveCheckpoint serde alnum basePath (run serde alnum basePath saves) s).1 := by
  rw [run, List.foldl_append]
  rfl

/-- **A file has what was saved last under an id with its name.** -/
theorem file_run (saves : List (Save V)) (hname : '/' ∉ name) :
    (run serde alnum basePath saves).file (components (checkpointPath basePath name)) =
      (lastNamed alnum saves name).map fun s => utf8 (serde.print s.data) := by
  induction saves using List.reverseRecOn with
  | nil => rfl
  | append_singleton saves s ih =>
    rw [run_concat, file_saveCheckpoint _ _ hname, ih, lastNamed, lastNamed, List.reverse_append,
      List.reverse_singleton, List.singleton_append, List.find?_cons]
    by_cases hs : s.succeeds alnum = true ∧ sanitized alnum s.checkpointId = name
    · simp [hs]
    · rw [if_neg hs]
      have hno : (s.succeeds alnum && sanitized alnum s.checkpointId == name) = false := by
        simpa using hs
      rw [hno]

theorem loadCheckpoint_run (saves : List (Save V)) (checkpointId : Text) :
    loadCheckpoint serde alnum basePath (run serde alnum basePath saves) checkpointId =
      (lastNamed alnum saves (sanitized alnum checkpointId)).bind (Save.readBack serde) := by
  rw [loadCheckpoint, file_run saves (slash_notMem_sanitized alnum checkpointId)]
  cases lastNamed alnum saves (sanitized alnum checkpointId) with
  | none => rfl
  | some s =>
    show (decodeUtf8 (utf8 (serde.print s.data))).bind serde.parse = s.readBack serde
    rw [decodeUtf8_eq_some.mpr rfl]
    rfl

theorem Disk.mem_written_atomicWrite {tmp path p : RawPath} {content : Bytes} {fate : SaveFate}
    (h : p ∈ (d.atomicWrite tmp path content fate).1.written) :
    p ∈ d.written ∨ p = tmp ∨ p = path := by
  cases fate with
  | createFails => exact .inl h
  | writeFails left | renameFails =>
    rcases List.mem_append.mp h with h | h
    · exact .inl h
    · exact .inr (.inl (List.mem_singleton.mp h))
  | done =>
    rcases List.mem_append.mp h with h | h
    · rcases List.mem_append.mp h with h | h
      · rcases List.mem_append.mp h with h | h
        · exact .inl h
        · exact .inr (.inl (List.mem_singleton.mp h))
      · exact .inr (.inr (List.mem_singleton.mp h))
    · exact .inr (.inl (List.mem_singleton.mp h))

theorem written_saveCheckpoint {path : RawPath}
    (h : path ∈ (saveCheckpoint serde alnum basePath d s).1.written) : path ∈ d.written ∨
      ∃ file, components path = components (checkpointsDir basePath) ++ [.normal file] := by
  have hown := slash_notMem_sanitized alnum s.checkpointId
  have hpath := components_file basePath
    (show '/' ∉ sanitized alnum s.checkpointId ++ ".json".toList by simp [hown])
  have htmp := components_file basePath
    (show '/' ∉ sanitized alnum s.checkpointId ++ ".tmp".toList by simp [hown])
  rw [← withExtension_checkpointName] at htmp
  unfold saveCheckpoint at h
  dsimp only at h
  split at h
  · exact .inl h
  · rcases Disk.mem_written_atomicWrite h with hold | rfl | rfl
    · exact .inl hold
    · exact .inr ⟨_, htmp⟩
    · exact .inr ⟨_, hpath⟩

/-- **All files that are written are in the directory of the checkpoints.** -/
theorem written_run (saves : List (Save V)) :
    ∀ path ∈ (run serde alnum basePath saves).written,
      ∃ file, components path = components (checkpointsDir basePath) ++ [.normal file] := by
  induction saves using List.reverseRecOn with
  | nil => exact List.forall_mem_nil _
  | append_singleton saves s ih =>
    intro path hpath
    rw [run_concat] at hpath
    rcases written_saveCheckpoint hpath with hold | hnew
    · exact ih path hold
    · exact hnew

theorem lastNamed_isSome {checkpointId : Text} {own : Save V}
    (h : lastSave alnum saves checkpointId = some own) :
    ∃ s, lastNamed alnum saves (sanitized alnum checkpointId) = some s := by
  have hfound := List.find?_some h
  have hmem := List.mem_of_find?_eq_some h
  rw [Bool.and_eq_true, beq_iff_eq] at hfound
  refine Option.isSome_iff_exists.mp (List.find?_isSome.mpr ⟨own, hmem, ?_⟩)
  rw [hfound.1, hfound.2]
  simp

theorem lastSave_of_lastNamed {checkpointId : Text}
    (h : lastNamed alnum saves (sanitized alnum checkpointId) = some s)
    (hid : s.checkpointId = checkpointId) : lastSave alnum saves checkpointId = some s := by
  unfold lastNamed at h
  unfold lastSave
  obtain ⟨hs, before, after, hsplit, hbefore⟩ := List.find?_eq_some_iff_append.mp h
  refine List.find?_eq_some_iff_append.mpr ⟨?_, before, after, hsplit, fun other hother => ?_⟩
  · rw [Bool.and_eq_true] at hs ⊢
    exact ⟨hs.1, by rw [hid, beq_self_eq_true]⟩
  · have hnot := hbefore other hother
    rw [Bool.not_eq_true', Bool.and_eq_false_iff] at hnot ⊢
    rcases hnot with hfailed | hother
    · exact .inl hfailed
    · right
      rw [beq_eq_false_iff_ne] at hother ⊢
      rintro rfl
      exact hother rfl

end Saves

/-- **When checkpoints are isolated.**  After every sequence of saves an id is loaded as it was
saved last, and all files are in their directory, if and only if no other id of the same name was
saved since, unless with data that is read back as that of the id. -/
theorem checkpoints_isolated_iff (saves : List (Save V)) (checkpointId : Text) :
    Isolated serde alnum basePath saves checkpointId ↔
      Undisturbed serde alnum saves checkpointId := by
  have hload : Isolated serde alnum basePath saves checkpointId ↔
      (lastNamed alnum saves (sanitized alnum checkpointId)).bind (Save.readBack serde) =
        (lastSave alnum saves checkpointId).map Save.data := by
    have hrun : loadCheckpoint serde alnum basePath (run serde alnum basePath saves) checkpointId =
        _ := loadCheckpoint_run saves checkpointId
    rw [← hrun]
    exact ⟨fun h => h.loaded, fun h => ⟨h, written_run saves⟩⟩
  rw [hload, Undisturbed]
  cases hnamed : lastNamed alnum saves (sanitized alnum checkpointId) with
  | none =>
    -- nothing has the name, so the id was never saved
    cases hown : lastSave alnum saves checkpointId with
    | none => simp
    | some own =>
      obtain ⟨s, hs⟩ := lastNamed_isSome hown
      exact nomatch hnamed.symm.trans hs
  | some s =>
    simp only [Option.bind_some, Option.some.injEq, forall_eq']
    by_cases hid : s.checkpointId = checkpointId
    · rw [lastSave_of_lastNamed hnamed hid]
      simp [hid]
    · simp [hid]

def asciiAlphanumeric : Alphanumeric := ⟨Char.isAlphanum, by decide⟩

def boolJson : SerdeJson Bool where
  print b := if b then "true".toList else "false".toList
  parse t :=
    if t = "true".toList then some true else if t = "false".toList then some false else none

def collidingSaves : List (Save Bool) :=
  [⟨"a/b".toList, true, .done⟩, ⟨"ab".toList, false, .done⟩]

/-- The checkpoint `a/b` is loaded with what was saved as `ab`. -/
theorem checkpoints_not_isolated : ¬ ∀ (serde : SerdeJson Bool) (alnum : Alphanumeric) (basePath : RawPath)
    (saves : List (Save Bool)) (checkpointId : Text),
    Isolated serde alnum basePath saves checkpointId := by
  intro h
  have hload := (h boolJson asciiAlphanumeric [UnixPath.slash] collidingSaves "a/b".toList).loaded
  rw [loadCheckpoint_run] at hload
  revert hload
  decide

end Mowis.Persistence
