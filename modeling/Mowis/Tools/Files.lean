import Mowis.Lib.Utf8
import Mowis.Tools.Resolve

/-!
# The file tools in their root

The tools of `tools/filesystem.rs` that go through `resolve_path`, on a tree with symbolic links.
What a tool reads, creates, changes or removes is recorded; the metadata of a file are not.
-/

namespace Mowis.Tools

open Mowis.Lib Mowis.Lib.UnixPath Mowis.Lib.Symlink

def maxReadSize : ℕ := 10 * 1024 * 1024

def maxWriteSize : ℕ := 50 * 1024 * 1024

structure World where
  fs : Fs
  touched : List Place

namespace World

variable (w : World)

def touch (place : Place) (fs : Fs) : World := ⟨fs, w.touched ++ [place]⟩

def mkdir (p : Place) : World × Except IoError Unit :=
  match w.fs.lookup false (absolute p) false with
  | .found _ => (w, .error .alreadyExists)
  | .missing place => (w.touch place (w.fs.put place (some .dir)), .ok ())
  | .error e => (w, .error (.walk e))

def isDir (p : Place) : Bool :=
  match w.fs.lookup true (absolute p) false with
  | .found place => w.fs.node place == some .dir
  | _ => false

/-- The answer of a `mkdir` that may find its directory there. -/
def orIsDir (p : Place) : World × Except IoError Unit → World × Except IoError Unit
  | (w, .ok ()) => (w, .ok ())
  | (w, .error e) => if w.isDir p then (w, .ok ()) else (w, .error e)

/-- `create_dir_all`, with the names in reverse: only where a parent is missing it is made first. -/
def createDirAll : World → List Name → World × Except IoError Unit
  | w, [] => orIsDir [] (w.mkdir [])
  | w, name :: parents =>
    let p := (name :: parents).reverse
    match w.mkdir p with
    | (w, .error (.walk .notFound)) =>
      match createDirAll w parents with
      | (w, .ok ()) => orIsDir p (w.mkdir p)
      | (w, .error e) => (w, .error e)
    | answer => orIsDir p answer

def createParent (p : Place) : World × Except IoError Unit :=
  if p = [] then (w, .ok ()) else w.createDirAll p.dropLast.reverse

def write (p : Place) (content : List UInt8) (append : Bool) : World × Except IoError Unit :=
  match w.fs.lookup true (absolute p) false with
  | .found place =>
    match w.fs.node place with
    | some (.file old) =>
      let content := if append then old ++ content else content
      (w.touch place (w.fs.put place (some (.file content))), .ok ())
    | _ => (w, .error .isADirectory)
  | .missing place => (w.touch place (w.fs.put place (some (.file content))), .ok ())
  | .error e => (w, .error (.walk e))

def read (p : Place) : World × Except IoError (List UInt8) :=
  match w.fs.lookup true (absolute p) false with
  | .found place =>
    match w.fs.node place with
    | some (.file content) => (w.touch place w.fs, .ok content)
    | _ => (w, .error .isADirectory)
  | .missing _ => (w, .error (.walk .notFound))
  | .error e => (w, .error (.walk e))

def copy (source target : Place) : World × Except IoError Unit :=
  match w.read source with
  | (w, .ok content) => w.write target content false
  | (w, .error .isADirectory) => (w, .error .invalidInput)
  | (w, .error e) => (w, .error e)

def removeFile (p : Place) : World × Except IoError Unit :=
  match w.fs.lookup false (absolute p) false with
  | .found place =>
    if w.fs.node place = some .dir then (w, .error .isADirectory)
    else (w.touch place (w.fs.put place none), .ok ())
  | .missing _ => (w, .error (.walk .notFound))
  | .error e => (w, .error (.walk e))

def withoutTree (fs : Fs) (place : Place) : Fs :=
  { fs with node := fun other => if place <+: other then none else fs.node other }

def removeDirAll (p : Place) : World × Except IoError Unit :=
  match w.fs.lookup false (absolute p) false with
  | .found place =>
    match w.fs.node place with
    | some (.file _) => (w, .error .notADirectory)
    | _ => (w.touch place (withoutTree w.fs place), .ok ())
  | .missing _ => (w, .error (.walk .notFound))
  | .error e => (w, .error (.walk e))

def moved (fs : Fs) (source target : Place) : Fs :=
  { fs with node := fun other =>
      if target <+: other then fs.node (source ++ other.drop target.length)
      else if source <+: other then none else fs.node other }

/-- No link at an end of the two paths is followed.  A target that is a directory with entries is
refused as well, with nothing touched. -/
def rename (source target : Place) : World × Except IoError Unit :=
  match w.fs.lookup false (absolute source) false, w.fs.lookup false (absolute target) false with
  | .found a, .found b =>
    if a <+: b ∧ a ≠ b then (w, .error .invalidInput)
    else if w.fs.node a = some .dir ∧ w.fs.node b ≠ some .dir then (w, .error .notADirectory)
    else if w.fs.node a ≠ some .dir ∧ w.fs.node b = some .dir then (w, .error .isADirectory)
    else (⟨moved w.fs a b, w.touched ++ [a, b]⟩, .ok ())
  | .found a, .missing b =>
    if a <+: b then (w, .error .invalidInput)
    else (⟨moved w.fs a b, w.touched ++ [a, b]⟩, .ok ())
  | .found _, .error e => (w, .error (.walk e))
  | .missing _, _ => (w, .error (.walk .notFound))
  | .error e, _ => (w, .error (.walk e))

/-- `symlink_metadata`, as far as it says that there is a link. -/
def isSymlink (p : Place) : Bool :=
  match w.fs.lookup false (absolute p) false with
  | .found place => match w.fs.node place with
    | some (.link _) => true
    | _ => false
  | _ => false

/-- Whether there is anything at a path, the link at its end not followed. -/
def lexists (p : Place) : Bool :=
  match w.fs.lookup false (absolute p) false with
  | .found _ => true
  | _ => false

end World

inductive Output where
  | content (bytes : List UInt8)
  | isDirectory
  | symlink
  | written (size : ℕ) (path : Place)
  | done

inductive Call where
  | readFile (path : RawPath)
  | writeFile (path : RawPath) (content : List UInt8)
  | appendFile (path : RawPath) (content : List UInt8)
  | deleteFile (path : RawPath)
  | copyFile (source target : RawPath)
  | moveFile (source target : RawPath)
  | createDirectory (path : RawPath)
  | deleteDirectory (path : RawPath)

def Call.paths : Call → List RawPath
  | .readFile path | .writeFile path _ | .appendFile path _ | .deleteFile path => [path]
  | .copyFile source target | .moveFile source target => [source, target]
  | .createDirectory path | .deleteDirectory path => [path]

abbrev Answer := World × Except ToolError Output

def answer (output : Output) : World × Except IoError Unit → Answer
  | (w, .ok ()) => (w, .ok output)
  | (w, .error e) => (w, .error (.io e))

section Tools

variable (w : World)

def readFile (p : Place) : Answer :=
  match w.fs.lookup true (absolute p) false with
  | .found place =>
    match w.fs.node place with
    | some (.file content) =>
      if maxReadSize < content.length then (w, .error .fileTooLarge)
      else if w.isSymlink p then (w, .ok .symlink)
      else
        match w.read p with
        | (w, .ok bytes) =>
          if (decodeUtf8 bytes).isSome then (w, .ok (.content bytes))
          else (w, .error (.io .invalidData))
        | (w, .error e) => (w, .error (.io e))
    | _ => (w, .ok .isDirectory)
  | .missing _ => (w, .error (.io (.walk .notFound)))
  | .error e => (w, .error (.io (.walk e)))

def throughSymlink (p : Place) : Bool := exists_ w.fs (absolute p) false && w.isSymlink p

def writeFile (p : Place) (content : List UInt8) : Answer :=
  if throughSymlink w p then (w, .error .throughSymlink)
  else
    match w.createParent p with
    | (w, .ok ()) => answer (.written content.length p) (w.write p content false)
    | (w, .error e) => (w, .error (.io e))

def appendFile (p : Place) (content : List UInt8) : Answer :=
  if throughSymlink w p then (w, .error .throughSymlink)
  else answer .done (w.write p content true)

def deleteFile (p : Place) : Answer :=
  if exists_ w.fs (absolute p) false = false ∧ w.lexists p = false then (w, .error .fileNotFound)
  else answer .done (w.removeFile p)

def copyFile (source target : Place) : Answer :=
  if throughSymlink w source then (w, .error .throughSymlink)
  else
    match w.createParent target with
    | (w, .ok ()) => answer .done (w.copy source target)
    | (w, .error e) => (w, .error (.io e))

def moveFile (source target : Place) : Answer :=
  match w.createParent target with
  | (w, .ok ()) => answer .done (w.rename source target)
  | (w, .error e) => (w, .error (.io e))

def createDirectory (p : Place) : Answer := answer .done (w.createDirAll p.reverse)

def isContainerRoot (rootPath : Option RawPath) (p : Place) : Bool :=
  match rootPath with
  | none => false
  | some root =>
    let canonicalRoot := match canonicalize w.fs (components root) (endsInDir root) with
      | .ok place => absolute place
      | .error _ => components root
    let canonicalPath := match canonicalize w.fs (absolute p) false with
      | .ok place => place
      | .error _ => p
    absolute canonicalPath = canonicalRoot

def deleteDirectory (rootPath : Option RawPath) (p : Place) : Answer :=
  if isContainerRoot w rootPath p then (w, .error .containerRoot)
  else answer .done (w.removeDirAll p)

end Tools

def base (rootPath : Option RawPath) : RawPath := rootPath.getD (ofString "/tmp")

def resolving (rootPath : Option RawPath) (w : World) (path : RawPath) (tool : Place → Answer) :
    Answer :=
  match resolvePath w.fs (base rootPath) path with
  | .ok p => tool p
  | .error e => (w, .error e)

def invoke (rootPath : Option RawPath) (fs : Fs) (call : Call) : Answer :=
  let w : World := ⟨fs, []⟩
  match call with
  | .readFile path => resolving rootPath w path (readFile w)
  | .writeFile path content =>
    if maxWriteSize < content.length then (w, .error .contentTooLarge)
    else resolving rootPath w path fun p => writeFile w p content
  | .appendFile path content =>
    if maxWriteSize < content.length then (w, .error .contentTooLarge)
    else resolving rootPath w path fun p => appendFile w p content
  | .deleteFile path => resolving rootPath w path (deleteFile w)
  | .copyFile source target =>
    resolving rootPath w source fun a => resolving rootPath w target fun b => copyFile w a b
  | .moveFile source target =>
    resolving rootPath w source fun a => resolving rootPath w target fun b => moveFile w a b
  | .createDirectory path => resolving rootPath w path (createDirectory w)
  | .deleteDirectory path => resolving rootPath w path (deleteDirectory w rootPath)

/-! ### What stays below the root -/

/-- Below the root something was touched, and elsewhere the tree is as it was. -/
structure Safe (root : Place) (before : Fs) (w : World) : Prop where
  touched : ∀ place ∈ w.touched, root <+: place
  outside : ∀ place, ¬ root <+: place → w.fs.node place = before.node place

/-- So far all is safe, and no link stands on any of the paths below the root. -/
structure Confined (root : Place) (before : Fs) (paths : List Place) (w : World) : Prop
    extends Safe root before w where
  wellFormed : w.fs.WellFormed
  there : w.fs.node root ≠ none
  below : ∀ p ∈ paths, root <+: p
  physical : ∀ p ∈ paths, w.fs.Physical p

section Confined

variable {root : Place} {before : Fs} {paths : List Place} {w : World} {p : Place}

theorem Safe.touch (h : Safe root before w) {place : Place} (hbelow : root <+: place) {fs : Fs}
    (hfs : ∀ other, ¬ root <+: other → fs.node other = w.fs.node other) :
    Safe root before (w.touch place fs) where
  touched other hother := by
    rcases List.mem_append.mp hother with hother | hother
    · exact h.touched other hother
    · rwa [List.mem_singleton.mp hother]
  outside other hother := (hfs other hother).trans (h.outside other hother)

theorem Safe.put (h : Safe root before w) {place : Place} (hbelow : root <+: place)
    (node : Option Node) : Safe root before (w.touch place (w.fs.put place node)) := by
  refine h.touch hbelow fun other hother => Fs.put_of_ne ?_ node
  rintro rfl
  exact hother hbelow

namespace Confined

variable (h : Confined root before paths w)

include h

theorem leadsTo (hp : p ∈ paths) {part : Place} (hpart : part <+: p) {follow : Bool} {place : Place}
    (hleads : (w.fs.lookup follow (absolute part) false).LeadsTo place) : place = part :=
  lookup_absolute h.wellFormed ((h.physical p hp).of_part hpart) hleads

theorem found (hp : p ∈ paths) {follow : Bool} {place : Place}
    (hfound : w.fs.lookup follow (absolute p) false = .found place) : root <+: place := by
  rw [h.leadsTo hp (List.prefix_refl p) (.inl hfound)]
  exact h.below p hp

theorem missing (hp : p ∈ paths) {follow : Bool} {place : Place}
    (hmissing : w.fs.lookup follow (absolute p) false = .missing place) : root <+: place := by
  rw [h.leadsTo hp (List.prefix_refl p) (.inr hmissing)]
  exact h.below p hp

theorem mkdir (hp : p ∈ paths) {part : Place} (hpart : part <+: p) :
    Confined root before paths (w.mkdir part).1 := by
  unfold World.mkdir
  split
  · exact h
  · next place hmissing =>
    have hsound := lookup_sound h.wellFormed false (absolute part) false
    rw [hmissing] at hsound
    obtain ⟨hfree, hparent⟩ := hsound
    have hbelow : root <+: place := by
      rw [h.leadsTo hp hpart (.inr hmissing)] at hfree ⊢
      refine (List.prefix_or_prefix_of_prefix hpart (h.below p hp)).resolve_left fun hroot => ?_
      exact h.wellFormed.node_of_prefix hroot h.there hfree
    obtain ⟨node, hnode⟩ := Option.ne_none_iff_exists'.mp h.there
    constructor
    case toSafe => exact h.toSafe.put hbelow _
    case wellFormed => exact h.wellFormed.put_dir hfree hparent
    case there =>
      show (w.fs.put place (some .dir)).node root ≠ none
      rw [Fs.put_dir_of_some hfree hnode]
      exact Option.some_ne_none node
    case below => exact h.below
    case physical => exact fun p hp => (h.physical p hp).put_dir
  · exact h

end Confined

theorem orIsDir_fst (p : Place) (a : World × Except IoError Unit) :
    (World.orIsDir p a).1 = a.1 := by
  obtain ⟨w, r⟩ := a
  cases r with
  | ok => rfl
  | error e =>
    show (if w.isDir p then _ else _ : World × Except IoError Unit).1 = w
    split <;> rfl

theorem Confined.createDirAll (names : List Name) {w : World} (h : Confined root before paths w)
    (hp : p ∈ paths) (hnames : names.reverse <+: p) :
    Confined root before paths (World.createDirAll w names).1 := by
  induction names generalizing w with
  | nil =>
    rw [World.createDirAll, orIsDir_fst]
    exact h.mkdir hp hnames
  | cons name parents ih =>
    have hparents : parents.reverse <+: p := by
      rw [List.reverse_cons] at hnames
      exact (List.prefix_append _ _).trans hnames
    have hfirst := h.mkdir hp hnames
    rw [World.createDirAll]
    split
    · next w₁ hw₁ =>
      rw [hw₁] at hfirst
      have hrest := ih hfirst hparents
      split
      · next w₂ hw₂ =>
        rw [hw₂] at hrest
        rw [orIsDir_fst]
        exact hrest.mkdir hp hnames
      · next w₂ e hw₂ =>
        rw [hw₂] at hrest
        exact hrest
    · rw [orIsDir_fst]
      exact hfirst

namespace Confined

variable (h : Confined root before paths w)

include h

theorem createParent (hp : p ∈ paths) : Confined root before paths (w.createParent p).1 := by
  unfold World.createParent
  split
  · exact h
  · refine Confined.createDirAll _ h hp ?_
    rw [List.reverse_reverse]
    exact List.dropLast_prefix p

theorem read (hp : p ∈ paths) : Confined root before paths (w.read p).1 := by
  unfold World.read
  split
  · next place hfound =>
    split
    · exact { h with toSafe := h.toSafe.touch (h.found hp hfound) fun _ _ => rfl }
    · exact h
  · exact h
  · exact h

theorem write (hp : p ∈ paths) (content : List UInt8) (append : Bool) :
    Safe root before (w.write p content append).1 := by
  unfold World.write
  split
  · next place hfound =>
    split
    · exact h.toSafe.put (h.found hp hfound) _
    · exact h.toSafe
  · next place hmissing => exact h.toSafe.put (h.missing hp hmissing) _
  · exact h.toSafe

theorem copy {source target : Place} (hsource : source ∈ paths) (htarget : target ∈ paths) :
    Safe root before (w.copy source target).1 := by
  have hread := h.read hsource
  unfold World.copy
  split <;> next hw =>
    rw [hw] at hread
    first | exact hread.write htarget _ _ | exact hread.toSafe

theorem removeFile (hp : p ∈ paths) : Safe root before (w.removeFile p).1 := by
  unfold World.removeFile
  split
  · next place hfound =>
    split
    · exact h.toSafe
    · exact h.toSafe.put (h.found hp hfound) _
  · exact h.toSafe
  · exact h.toSafe

theorem removeDirAll (hp : p ∈ paths) : Safe root before (w.removeDirAll p).1 := by
  unfold World.removeDirAll
  split
  · next place hfound =>
    split
    · exact h.toSafe
    · have hbelow := h.found hp hfound
      exact h.toSafe.touch hbelow fun other hother =>
        if_neg fun hplace => hother (hbelow.trans hplace)
  · exact h.toSafe
  · exact h.toSafe

theorem moved {a b : Place} (ha : root <+: a) (hb : root <+: b) :
    Safe root before ⟨World.moved w.fs a b, w.touched ++ [a, b]⟩ where
  touched place hplace := by
    rcases List.mem_append.mp hplace with hplace | hplace
    · exact h.touched place hplace
    · rcases List.mem_pair.mp hplace with rfl | rfl
      · exact ha
      · exact hb
  outside place hplace := by
    rw [← h.outside place hplace]
    show (if _ then _ else if _ then _ else _ : Option Node) = _
    rw [if_neg fun hpart => hplace (hb.trans hpart),
      if_neg fun hpart => hplace (ha.trans hpart)]

theorem rename {source target : Place} (hsource : source ∈ paths) (htarget : target ∈ paths) :
    Safe root before (w.rename source target).1 := by
  unfold World.rename
  split
  · next a b ha hb =>
    split_ifs
    · exact h.toSafe
    · exact h.toSafe
    · exact h.toSafe
    · exact h.moved (h.found hsource ha) (h.found htarget hb)
  · next a b ha hb =>
    split_ifs
    · exact h.toSafe
    · exact h.moved (h.found hsource ha) (h.missing htarget hb)
  all_goals exact h.toSafe

end Confined

theorem answer_fst (output : Output) (a : World × Except IoError Unit) :
    (answer output a).1 = a.1 := by
  obtain ⟨w, r⟩ := a
  cases r <;> rfl

namespace Confined

variable (h : Confined root before paths w)

include h

theorem readFile (hp : p ∈ paths) : Safe root before (readFile w p).1 := by
  have hread := h.read hp
  unfold Tools.readFile
  split
  · split
    · split_ifs
      · exact h.toSafe
      · exact h.toSafe
      · split <;> next hw =>
          rw [hw] at hread
          first
            | exact hread.toSafe
            | split_ifs <;> exact hread.toSafe
    · exact h.toSafe
  · exact h.toSafe
  · exact h.toSafe

theorem writeFile (hp : p ∈ paths) (content : List UInt8) :
    Safe root before (writeFile w p content).1 := by
  have hparent := h.createParent hp
  unfold Tools.writeFile
  split
  · exact h.toSafe
  · split <;> next hw =>
      rw [hw] at hparent
      first
        | exact hparent.toSafe
        | rw [answer_fst]; exact hparent.write hp content false

theorem appendFile (hp : p ∈ paths) (content : List UInt8) :
    Safe root before (appendFile w p content).1 := by
  unfold Tools.appendFile
  split
  · exact h.toSafe
  · rw [answer_fst]
    exact h.write hp content true

theorem deleteFile (hp : p ∈ paths) : Safe root before (deleteFile w p).1 := by
  unfold Tools.deleteFile
  split
  · exact h.toSafe
  · rw [answer_fst]
    exact h.removeFile hp

theorem copyFile {source target : Place} (hsource : source ∈ paths) (htarget : target ∈ paths) :
    Safe root before (copyFile w source target).1 := by
  have hparent := h.createParent htarget
  unfold Tools.copyFile
  split
  · exact h.toSafe
  · split <;> next hw =>
      rw [hw] at hparent
      first
        | exact hparent.toSafe
        | rw [answer_fst]; exact hparent.copy hsource htarget

theorem moveFile {source target : Place} (hsource : source ∈ paths) (htarget : target ∈ paths) :
    Safe root before (moveFile w source target).1 := by
  have hparent := h.createParent htarget
  unfold Tools.moveFile
  split <;> next hw =>
    rw [hw] at hparent
    first
      | exact hparent.toSafe
      | rw [answer_fst]; exact hparent.rename hsource htarget

theorem createDirectory (hp : p ∈ paths) : Safe root before (createDirectory w p).1 := by
  rw [Tools.createDirectory, answer_fst]
  refine (Confined.createDirAll _ h hp ?_).toSafe
  rw [List.reverse_reverse]

theorem deleteDirectory (rootPath : Option RawPath) (hp : p ∈ paths) :
    Safe root before (deleteDirectory w rootPath p).1 := by
  unfold Tools.deleteDirectory
  split
  · exact h.toSafe
  · rw [answer_fst]
    exact h.removeDirAll hp

end Confined

end Confined

section Calls

variable {rootPath : Option RawPath} {fs : Fs} {root : Place}

end Calls

end Mowis.Tools
