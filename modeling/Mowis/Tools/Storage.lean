import Mowis.Review.Reviewer
import Mowis.Tools.Files

/-!
# The storage tools

The memory and secret tools of `tools/storage.rs`.  All sandboxes share the two stores; a key is
put in front of by the id of the sandbox and a colon.
-/

namespace Mowis.Tools.Storage

open Mowis.Lib Mowis.Lib.UnixPath Mowis.Lib.Symlink
open Mowis.Review (Json showNat)

/-- What is not in the repository: `serde_json` on values, stores and files, and the cipher, which
draws a nonce. -/
structure Libraries where
  toString : Json → Text
  toStringPretty : HashMap Text Json → Text
  fromStr : Text → Option (HashMap Text Json)
  encrypt : ℕ → Text → Option Text
  decrypt : Text → Option Text

structure ToolContext where
  sandboxId : ℕ
  rootPath : Option RawPath

structure Store where
  memory : HashMap Text Json
  secrets : HashMap Text Text
  fs : Fs

inductive StorageError where
  | message (text : Text)
  | path (e : ToolError)
  | io (e : IoError)
  | json

/-- What a tool answers.  The order of the keys of a hash map is not specified. -/
inductive Output (ρ : Type*) where
  | set (key : Text)
  | value (value : Json) (found : Bool)
  | deleted (existed : Bool)
  | keys (keys : Multiset Text) (count : ℕ)
  | saved (keysSaved : ℕ)
  | loaded (keysLoaded totalKeys : ℕ)
  | encrypted
  | secret (value : Text)
  | file (result : ρ)

/-- A tool that reads and writes files only. -/
abbrev FileTool (ρ : Type*) := Option RawPath → Fs → Fs × ρ

inductive Call (ρ : Type*) where
  | memorySet (input : Json)
  | memoryGet (input : Json)
  | memoryDelete (input : Json)
  | memoryList
  | memorySave (input : Json)
  | memoryLoad (input : Json)
  | secretSet (input : Json) (nonce : ℕ)
  | secretGet (input : Json)
  | file (tool : FileTool ρ)

/-- The tools of `filesystem.rs` in their root. -/
def fileTool (call : Tools.Call) : FileTool (Except ToolError Tools.Output) := fun rootPath fs =>
  let answer := Tools.invoke rootPath fs call
  (answer.1.fs, answer.2)

def keyPrefix (sandboxId : ℕ) : Text := showNat sandboxId ++ [':']

def scopedKey (sandboxId : ℕ) (key : Text) : Text := showNat sandboxId ++ ':' :: key

def Owned (sandboxId : ℕ) (key : Text) : Prop := keyPrefix sandboxId <+: key

instance (sandboxId : ℕ) (key : Text) : Decidable (Owned sandboxId key) :=
  inferInstanceAs (Decidable (_ <+: _))

def len {V : Type*} (m : HashMap Text V) : ℕ := m.keys.length

def missing (tool field : String) : StorageError :=
  .message (tool ++ ": missing " ++ field).toList

def tooLarge (size : ℕ) : StorageError :=
  .message ("memory_set: value size ".toList ++ showNat size ++ " exceeds 1MB limit".toList)

def secretNotFound (name : Text) : StorageError := .message ("secret not found: ".toList ++ name)

def byteLength (t : Text) : ℕ := (utf8 t).length

section Tools

variable {ρ : Type*} (lib : Libraries) (ctx : ToolContext) (s : Store)

abbrev Result (ρ : Type*) := Except StorageError (Output ρ)

def withField (tool field : String) (value : Option Text) (rest : Text → Store × Result ρ) :
    Store × Result ρ :=
  match value with
  | some value => rest value
  | none => (s, .error (missing tool field))

def memorySet (input : Json) : Store × Result ρ :=
  withField s "memory_set" "key" (input.getStr "key".toList) fun key =>
    let value := (input.get "value".toList).getD .null
    let valueSize := byteLength (lib.toString value)
    if 1024 * 1024 < valueSize then (s, .error (tooLarge valueSize))
    else
      ({ s with memory := s.memory.insert (scopedKey ctx.sandboxId key) value }, .ok (.set key))

def isNull : Json → Bool
  | .null => true
  | _ => false

def memoryGet (input : Json) : Store × Result ρ :=
  withField s "memory_get" "key" (input.getStr "key".toList) fun key =>
    let value := (s.memory.lookup (scopedKey ctx.sandboxId key)).getD .null
    (s, .ok (.value value (!isNull value)))

def memoryDelete (input : Json) : Store × Result ρ :=
  withField s "memory_delete" "key" (input.getStr "key".toList) fun key =>
    let scopedKey := scopedKey ctx.sandboxId key
    ({ s with memory := s.memory.erase scopedKey },
      .ok (.deleted (s.memory.lookup scopedKey).isSome))

def memoryList : Store × Result ρ :=
  let owned := s.memory.keys.filter fun key => decide (Owned ctx.sandboxId key)
  (s, .ok (.keys (owned.map fun key => key.drop (keyPrefix ctx.sandboxId).length : List Text)
    owned.length))

def writeText (path : Text) (content : Text) : Fs × Except StorageError Unit :=
  match resolvePath s.fs (base ctx.rootPath) (utf8 path) with
  | .error e => (s.fs, .error (.path e))
  | .ok p =>
    match World.createParent ⟨s.fs, []⟩ p with
    | (w, .error e) => (w.fs, .error (.io e))
    | (w, .ok ()) =>
      match w.write p (utf8 content) false with
      | (w, .error e) => (w.fs, .error (.io e))
      | (w, .ok ()) => (w.fs, .ok ())

def memorySave (input : Json) : Store × Result ρ :=
  withField s "memory_save" "path" (input.getStr "path".toList) fun path =>
    match writeText ctx s path (lib.toStringPretty s.memory) with
    | (fs, .error e) => ({ s with fs }, .error e)
    | (fs, .ok ()) => ({ s with fs }, .ok (.saved (len s.memory)))

def readMap (path : Text) : Except StorageError (HashMap Text Json) := do
  let p ← (resolvePath s.fs (base ctx.rootPath) (utf8 path)).mapError .path
  let bytes ← (World.read ⟨s.fs, []⟩ p).2.mapError .io
  match decodeUtf8 bytes with
  | none => throw (.io .invalidData)
  | some content =>
    match lib.fromStr content with
    | none => throw .json
    | some data => return data

/-- `extend` with the entries of a map. -/
def extend (memory data : HashMap Text Json) : HashMap Text Json :=
  data.entries.foldl (fun m e => m.insert e.1 e.2) memory

def memoryLoad (input : Json) : Store × Result ρ :=
  withField s "memory_load" "path" (input.getStr "path".toList) fun path =>
    match readMap lib ctx s path with
    | .error e => (s, .error e)
    | .ok data =>
      let memory := extend s.memory data
      ({ s with memory }, .ok (.loaded (len data) (len memory)))

/-- `input["key"]`, or `input["name"]` when that is no text. -/
def keyOrName (input : Json) : Option Text :=
  (input.getStr "key".toList).or (input.getStr "name".toList)

def secretSet (input : Json) (nonce : ℕ) : Store × Result ρ :=
  withField s "secret_set" "key" (keyOrName input) fun name =>
    withField s "secret_set" "value" (input.getStr "value".toList) fun value =>
      -- a value that cannot be encrypted is stored as it is
      let encrypted := (lib.encrypt nonce value).getD value
      ({ s with secrets := s.secrets.insert (scopedKey ctx.sandboxId name) encrypted },
        .ok .encrypted)

def secretGet (input : Json) : Store × Result ρ :=
  withField s "secret_get" "key" (keyOrName input) fun name =>
    match s.secrets.lookup (scopedKey ctx.sandboxId name) with
    | some encrypted => (s, .ok (.secret ((lib.decrypt encrypted).getD encrypted)))
    | none => (s, .error (secretNotFound name))

def invoke : Call ρ → Store × Result ρ
  | .memorySet input => memorySet lib ctx s input
  | .memoryGet input => memoryGet ctx s input
  | .memoryDelete input => memoryDelete ctx s input
  | .memoryList => memoryList ctx s
  | .memorySave input => memorySave lib ctx s input
  | .memoryLoad input => memoryLoad lib ctx s input
  | .secretSet input nonce => secretSet lib ctx s input nonce
  | .secretGet input => secretGet lib ctx s input
  | .file tool =>
    let answer := tool ctx.rootPath s.fs
    ({ s with fs := answer.1 }, .ok (.file answer.2))

end Tools

end Mowis.Tools.Storage
