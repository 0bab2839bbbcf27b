import Mowis.Lib.Newc

/-!
# The writer of the initial ramdisk

`CpioWriter` of `mowis-host/src/initrd.rs`.
-/

namespace Mowis.Host

open Mowis.Lib Mowis.Lib.Newc

structure CpioWriter where
  inner : Bytes
  ino : ℕ
  dirs : Finset String

/-- Whether assertions and overflows are checked. -/
inductive Profile where
  | debug
  | release
  deriving DecidableEq

/-- The zeros between the size of the data and that of the name, as the source has them. -/
def deviceZeros : Bytes := ascii "000000000000000000000000000000000"

def header (devices : Bytes) (ino mode nlink filesize namesize : ℕ) : Bytes :=
  ascii "070701" ++ hexField ino ++ hexField mode ++ ascii "0000000000000000" ++ hexField nlink ++
    ascii "00000000" ++ hexField filesize ++ devices ++ hexField namesize ++ ascii "00000000"

def nameBytes (name : String) : Bytes := name.toUTF8.data.toList

/-- What `write_entry` writes. -/
def entryBytes (devices : Bytes) (ino mode nlink : ℕ) (name data : Bytes) : Bytes :=
  let namesize := name.length + 1
  header devices ino mode nlink data.length namesize ++ name ++ [0] ++
    List.replicate ((4 - (110 + namesize) % 4) % 4) 0 ++
    if data.isEmpty then [] else data ++ List.replicate ((4 - data.length % 4) % 4) 0

namespace CpioWriter

def new : CpioWriter := ⟨[], 1, ∅⟩

/-- `none` where the program panics. -/
def writeEntry (profile : Profile) (devices : Bytes) (w : CpioWriter) (mode nlink : ℕ)
    (name : String) (data : Bytes) : Option CpioWriter :=
  if profile = .debug ∧ w.ino + 1 = 2 ^ 32 then none
  else if profile = .debug ∧ (header devices w.ino mode nlink data.length
      ((nameBytes name).length + 1)).length ≠ 110 then none
  else some { w with
    inner := w.inner ++ entryBytes devices w.ino mode nlink (nameBytes name) data
    ino := (w.ino + 1) % 2 ^ 32 }

end CpioWriter

inductive CpioCall where
  | addDir (name : String)
  | addFile (name : String) (data : Bytes) (perms : ℕ)
  | addSymlink (name target : String)

open CpioWriter (writeEntry)

namespace CpioCall

def perform (profile : Profile) (devices : Bytes) (w : CpioWriter) : CpioCall → Option CpioWriter
  | addDir name =>
    if name ∈ w.dirs then some w
    else writeEntry profile devices { w with dirs := insert name w.dirs } 0o040755 2 name []
  | addFile name data perms =>
    writeEntry profile devices w (0o100000 ||| (perms &&& 0o777)) 1 name data
  | addSymlink name target => writeEntry profile devices w 0o120777 1 name (nameBytes target)

def name : CpioCall → String
  | addDir name | addFile name _ _ | addSymlink name _ => name

def data : CpioCall → Bytes
  | addDir _ => []
  | addFile _ data _ => data
  | addSymlink _ target => nameBytes target

def mode : CpioCall → ℕ
  | addDir _ => 0o040755
  | addFile _ _ perms => 0o100000 ||| (perms &&& 0o777)
  | addSymlink _ _ => 0o120777

def nlink : CpioCall → ℕ
  | addDir _ => 2
  | _ => 1

def entry (call : CpioCall) : Entry := ⟨call.mode, nameBytes call.name, call.data⟩

end CpioCall

def archive (profile : Profile) (devices : Bytes) (calls : List CpioCall) : Option Bytes :=
  (calls.foldlM (CpioCall.perform profile devices) .new).bind fun w =>
    (writeEntry profile devices w 0 1 "TRAILER!!!" []).map CpioWriter.inner

def adding (dirs : Finset String) : List CpioCall → List CpioCall
  | [] => []
  | .addDir name :: calls =>
    if name ∈ dirs then adding dirs calls else .addDir name :: adding (insert name dirs) calls
  | call :: calls => call :: adding dirs calls

def ReadBack (profile : Profile) (devices : Bytes) (calls : List CpioCall) : Prop :=
  ∃ bytes fuel, archive profile devices calls = some bytes ∧
    readArchive fuel bytes = some ((adding ∅ calls).map CpioCall.entry)

section Writes

variable {profile : Profile} {devices : Bytes} {w w' : CpioWriter}

theorem inner_of_writeEntry {mode nlink : ℕ} {name : String} {data : Bytes}
    (h : writeEntry profile devices w mode nlink name data = some w') :
    w'.inner = w.inner ++ entryBytes devices w.ino mode nlink (nameBytes name) data := by
  unfold writeEntry at h
  split at h
  · cases h
  · split at h
    · cases h
    · cases h
      rfl

theorem prefix_of_perform {call : CpioCall} (h : call.perform profile devices w = some w') :
    w.inner <+: w'.inner := by
  cases call with
  | addDir name =>
    simp only [CpioCall.perform] at h
    split at h
    · cases h
      exact List.prefix_refl _
    · exact ⟨_, (inner_of_writeEntry h).symm⟩
  | addFile | addSymlink => exact ⟨_, (inner_of_writeEntry h).symm⟩

theorem prefix_of_foldlM {calls : List CpioCall}
    (h : calls.foldlM (CpioCall.perform profile devices) w = some w') : w.inner <+: w'.inner := by
  induction calls generalizing w with
  | nil =>
    cases h
    exact List.prefix_refl _
  | cons call calls ih =>
    obtain ⟨w₁, hw₁, hrest⟩ := Option.bind_eq_some_iff.mp h
    exact (prefix_of_perform hw₁).trans (ih hrest)

theorem perform_new (call : CpioCall) (h : call.perform profile devices .new = some w') :
    w'.inner = entryBytes devices 1 call.mode call.nlink (nameBytes call.name) call.data := by
  cases call with
  | addDir | addFile | addSymlink => exact inner_of_writeEntry h

theorem adding_cons (call : CpioCall) (calls : List CpioCall) :
    ∃ rest, adding ∅ (call :: calls) = call :: rest := by
  cases call with
  | addDir | addFile | addSymlink => exact ⟨_, rfl⟩

theorem archive_starts {calls : List CpioCall} {bytes : Bytes}
    (h : archive profile devices calls = some bytes) :
    (calls = [] ∧ bytes = entryBytes devices 1 0 1 trailer []) ∨
    ∃ call rest tail, calls = call :: rest ∧ bytes =
      entryBytes devices 1 call.mode call.nlink (nameBytes call.name) call.data ++ tail := by
  obtain ⟨w, hw, hfinish⟩ := Option.bind_eq_some_iff.mp h
  obtain ⟨w', hw', rfl⟩ := Option.map_eq_some_iff.mp hfinish
  have hinner := inner_of_writeEntry hw'
  cases calls with
  | nil =>
    cases hw
    exact .inl ⟨rfl, hinner⟩
  | cons call rest =>
    obtain ⟨w₁, hw₁, hrest⟩ := Option.bind_eq_some_iff.mp hw
    obtain ⟨tail, htail⟩ := prefix_of_foldlM hrest
    refine .inr ⟨call, rest,
      tail ++ entryBytes devices w.ino 0 1 (nameBytes "TRAILER!!!") [], rfl, ?_⟩
    rw [hinner, ← htail, perform_new call hw₁, List.append_assoc]

end Writes

theorem name_of_shifted {front rest rest' : Bytes} {namesize : ℕ} {e : Entry}
    (hfront : front.length = 94)
    (h : readEntry (front ++ 48 :: (hexField namesize ++ rest)) = some (e, rest')) :
    e.name.length + 1 < namesize := by
  obtain ⟨size, hfield, hsize, -, hname⟩ := readEntry_cases h
  have hlength := le_length_hexField namesize
  have hread : readHex ((hexField namesize).take 7) = some size := by
    rw [field, show 6 + 8 * 11 = 94 from rfl, List.drop_left' hfront] at hfield
    rw [← hfield]
    show _ = readHex (48 :: ((hexField namesize ++ rest).take 7))
    rw [List.take_append_of_le_length (by omega)]
    rfl
  have hle : 16 * size ≤ namesize := by
    refine readHex_take_le (List.take_append_drop 7 (hexField namesize)).symm ?_ hread
    refine List.length_pos_iff.mp ?_
    rw [List.length_drop]
    omega
  have hshort : e.name.length ≤ size - 1 := by
    rw [hname, List.length_take]
    exact Nat.min_le_left _ _
  omega

theorem name_ne_of_readEntry {ino mode nlink : ℕ} {name data rest rest' : Bytes} {e : Entry}
    (hino : ino < 16 ^ 8) (hmode : mode < 16 ^ 8) (hnlink : nlink < 16 ^ 8)
    (hdata : data.length < 16 ^ 8)
    (h : readEntry (entryBytes deviceZeros ino mode nlink name data ++ rest) = some (e, rest')) :
    e.name ≠ name := by
  intro heq
  have hzeros : deviceZeros = List.replicate 32 48 ++ [48] := by decide
  obtain ⟨tail, htail⟩ : ∃ tail, entryBytes deviceZeros ino mode nlink name data ++ rest =
      (ascii "070701" ++ hexField ino ++ hexField mode ++ ascii "0000000000000000" ++
        hexField nlink ++ ascii "00000000" ++ hexField data.length ++ List.replicate 32 48) ++
      48 :: (hexField (name.length + 1) ++ tail) := by
    refine ⟨ascii "00000000" ++ (name ++ ([0] ++
      (List.replicate ((4 - (110 + (name.length + 1)) % 4) % 4) 0 ++
        ((if data.isEmpty then [] else data ++ List.replicate ((4 - data.length % 4) % 4) 0) ++
          rest)))), ?_⟩
    rw [entryBytes, header, hzeros]
    simp only [List.append_assoc, List.cons_append, List.nil_append]
  rw [htail] at h
  have hlt := name_of_shifted ?_ h
  · rw [heq] at hlt
    exact absurd hlt (lt_irrefl _)
  · simp only [List.length_append, length_hexField hino, length_hexField hmode,
      length_hexField hnlink, length_hexField hdata, List.length_replicate]
    rfl

theorem mode_lt (call : CpioCall) : call.mode < 16 ^ 8 ∧ call.nlink < 16 ^ 8 := by
  cases call with
  | addDir name => exact ⟨show 0o040755 < 16 ^ 8 by decide, show 2 < 16 ^ 8 by decide⟩
  | addSymlink name target => exact ⟨show 0o120777 < 16 ^ 8 by decide, show 1 < 16 ^ 8 by decide⟩
  | addFile name data perms =>
    refine ⟨?_, show 1 < 16 ^ 8 by decide⟩
    have hperms : perms &&& 0o777 ≤ 0o777 := Nat.and_le_right
    exact Nat.or_lt_two_pow (n := 32) (by decide) (by omega)

/-- **With the zeros of the source no archive is read back**, be it of no entries at all. -/
theorem never_read_back (profile : Profile) (calls : List CpioCall)
    (hdata : ∀ call ∈ calls, call.data.length < 2 ^ 32) :
    ¬ ReadBack profile deviceZeros calls := by
  rintro ⟨bytes, fuel, harchive, hread⟩
  cases fuel with
  | zero => cases hread
  | succ fuel =>
    obtain ⟨⟨e, rest⟩, hentry, hrest⟩ := Option.bind_eq_some_iff.mp hread
    rcases archive_starts harchive with ⟨rfl, rfl⟩ | ⟨call, calls', tail, rfl, rfl⟩
    · have hne : e.name ≠ trailer := by
        rw [← List.append_nil (entryBytes deviceZeros 1 0 1 trailer [])] at hentry
        exact name_ne_of_readEntry (by decide) (by decide) (by decide) (by decide) hentry
      replace hrest : (if e.name = trailer then some [] else (readArchive fuel rest).map (e :: ·)) =
        some [] := hrest
      rw [if_neg hne] at hrest
      obtain ⟨es, -, hes⟩ := Option.map_eq_some_iff.mp hrest
      cases hes
    · have hne : e.name ≠ nameBytes call.name :=
        name_ne_of_readEntry (by decide) (mode_lt call).1 (mode_lt call).2
          (hdata call List.mem_cons_self) hentry
      obtain ⟨added, hadded⟩ := adding_cons call calls'
      replace hrest : (if e.name = trailer then some [] else (readArchive fuel rest).map (e :: ·)) =
        some ((adding ∅ (call :: calls')).map CpioCall.entry) := hrest
      rw [hadded] at hrest
      split at hrest
      · cases hrest
      · obtain ⟨es, -, hes⟩ := Option.map_eq_some_iff.mp hrest
        have hhead : e = call.entry := (List.cons.inj hes).1
        exact hne (congrArg Entry.name hhead)

theorem mount_points_not_read_back :
    ¬ ReadBack .release deviceZeros [.addDir "proc", .addDir "sys", .addDir "proc"] :=
  never_read_back .release _ (by decide)

/-- A file is added: for a reader its record is none. -/
theorem not_read_back :
    ¬ ReadBack .release deviceZeros [.addFile "init" (ascii "binary") 0o755] := by
  have hnone : (archive .release deviceZeros [.addFile "init" (ascii "binary") 0o755]).map
      readEntry = some none := by decide +kernel
  rintro ⟨bytes, fuel, harchive, hread⟩
  rw [harchive] at hnone
  have hentry : readEntry bytes = none := Option.some.inj hnone
  cases fuel with
  | zero => cases hread
  | succ fuel =>
    rw [readArchive, hentry] at hread
    cases hread

end Mowis.Host
