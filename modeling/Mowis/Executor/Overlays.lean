import Mowis.Executor.Connection

/-!
# Tools, merges and discards of one overlay

The requests `InvokeToolAsAgent`, `SendInput`, `MergeAgentOverlay` and `DiscardAgentOverlay` for
one agent of one sandbox, in any interleaving.  Their tasks are those of `dispatch`; the two
blocking calls that touch files are taken apart: a tool writes one file after another, and
`merge_overlay` reads a directory, and copies one file after another.

Files are recorded by the path below the root of a sandbox, as far as they were written through
it.  Empty directories are left out, and so are the errors that the files imply: a merge may
fail at any moment.
-/

namespace Mowis.Executor

open Mowis.Lib
open Mowis.Review (Json)

/-! ### Tasks and their files -/

/-- The path of a file below the root of a sandbox. -/
abbrev RelPath := List String

abbrev Files := HashMap RelPath String

def childrenOf (files : Files) (dir : RelPath) : List RelPath :=
  ((files.keys.filter fun path => dir <+: path ∧ dir ≠ path).map
    fun path => path.take (dir.length + 1)).dedup

/-- What a blocking call has still to do. -/
inductive Job where
  | idle
  | tool
  /-- The paths that the walk has still to visit, and the names it has copied. -/
  | merge (todo : List RelPath) (changed : List String)
  deriving DecidableEq, Repr

/-- A task.  Beside it are recorded what it has sent, whether it has read the root of the
overlay for a merge, and whether a tool has since written a file that it had not to copy any
more. -/
structure Task where
  request : Payload
  left : Prog
  job : Job
  sent : List Payload
  listed : Bool
  missed : Bool

/-- A file that a tool has written, or removed. -/
structure Write where
  task : ℕ
  path : RelPath
  content : Option String
  deriving DecidableEq, Repr

/-- The registry, the files below the roots, the tasks, and the writes that no discard
follows. -/
structure World where
  registry : Registry
  files : PathBuf → Files
  tasks : List Task
  owed : List Write

/-- One agent's overlay, which is not its parent. -/
structure Setup where
  parentId : String
  agentId : String
  parent : Sandbox
  overlay : Sandbox
  roots : parent.root ≠ overlay.root

namespace Setup

def key (s : Setup) : String := overlayKey s.parentId s.agentId

/-- The requests for the overlay. -/
inductive Concerns (s : Setup) : Payload → Prop
  | invoke (tool : String) (input : Json) (callerTier : String) :
      Concerns s (.invokeToolAsAgent s.parentId s.agentId tool input callerTier)
  | sendInput (input : String) : Concerns s (.sendInput s.parentId s.agentId input)
  | merge : Concerns s (.mergeAgentOverlay s.parentId s.agentId)
  | discard : Concerns s (.discardAgentOverlay s.parentId s.agentId)

end Setup

def Op.isRead : Op → Bool
  | get _ | containsKey _ | entries | len | interactiveStdin | interactiveWaiting
  | interactivePrompt => true
  | _ => false

namespace World

def putFile (files : PathBuf → Files) (root : PathBuf) (path : RelPath) (content : Option String) :
    PathBuf → Files :=
  Function.update files root <|
    match content with
    | some content => (files root).insert path content
    | none => (files root).erase path

end World

def Task.todo (t : Task) : List RelPath :=
  match t.job with
  | .merge todo _ => todo
  | _ => []

def Task.note (path : RelPath) (t : Task) : Task :=
  { t with missed := t.missed || (t.listed && decide (path ∉ t.todo)) }

def Payload.isDiscard : Payload → Bool
  | discardAgentOverlay .. => true
  | _ => false

def Payload.isMerge : Payload → Bool
  | mergeAgentOverlay .. => true
  | _ => false

/-- The steps that the promise depends on. -/
inductive Event where
  | other
  | put (path : RelPath)
  | remove (key : String) (task : Task)

/-- A step of one of the tasks. -/
inductive Step (s : Setup) : World → Event → World → Prop
  | arrive {c : World} {id : ℕ} {p : Payload} (h : s.Concerns p) :
      Step s c .other { c with tasks := c.tasks ++ [⟨p, dispatch ⟨id, p⟩, .idle, [], false, false⟩] }
  | read {c : World} {before after : List Task} {t : Task} {o : Op} {next : o.Ret → Prog}
      {ret : o.Ret} (ht : c.tasks = before ++ t :: after) (hleft : t.left = .op o next)
      (hread : o.isRead = true) (hran : Ran c.registry o ret c.registry) :
      Step s c .other { c with tasks := before ++ { t with left := next ret } :: after }
  /-- Nothing that was written before a discard is owed any more. -/
  | remove {c : World} {before after : List Task} {t : Task} {key : String}
      {next : Bool → Prog} (ht : c.tasks = before ++ t :: after)
      (hleft : t.left = .op (.remove key) next) :
      Step s c (.remove key t)
        { c with
          registry := c.registry.erase key
          tasks := before ++ { t with left := next (c.registry.lookup key).isSome } :: after
          owed := if t.request.isDiscard && (c.registry.lookup key).isSome then [] else c.owed }
  | toolStart {c : World} {before after : List Task} {t : Task} {sb : Sandbox} {tool : String}
      {input : Json} {next : Except String Json → Prog} (ht : c.tasks = before ++ t :: after)
      (hleft : t.left = .op (.invoke sb tool input) next) (hjob : t.job = .idle) :
      Step s c .other { c with tasks := before ++ { t with job := .tool } :: after }
  | put {c : World} {before after : List Task} {t : Task} {sb : Sandbox} {tool : String}
      {input : Json} {next : Except String Json → Prog} {path : RelPath} {content : String}
      (ht : c.tasks = before ++ t :: after) (hleft : t.left = .op (.invoke sb tool input) next)
      (hjob : t.job = .tool) :
      Step s c (.put path)
        { c with
          files := World.putFile c.files sb.root path (some content)
          tasks := c.tasks.map (Task.note path)
          owed := c.owed ++ [⟨before.length, path, some content⟩] }
  | delete {c : World} {before after : List Task} {t : Task} {sb : Sandbox} {tool : String}
      {input : Json} {next : Except String Json → Prog} {path : RelPath}
      (ht : c.tasks = before ++ t :: after) (hleft : t.left = .op (.invoke sb tool input) next)
      (hjob : t.job = .tool) :
      Step s c .other
        { c with
          files := World.putFile c.files sb.root path none
          owed := c.owed ++ [⟨before.length, path, none⟩] }
  | toolEnd {c : World} {before after : List Task} {t : Task} {sb : Sandbox} {tool : String}
      {input : Json} {next : Except String Json → Prog} {result : Except String Json}
      (ht : c.tasks = before ++ t :: after) (hleft : t.left = .op (.invoke sb tool input) next)
      (hjob : t.job = .tool) :
      Step s c .other
        { c with tasks := before ++ { t with left := next result, job := .idle } :: after }
  /-- The root of the overlay is read, in any order. -/
  | mergeStart {c : World} {before after : List Task} {t : Task} {parent overlay : Sandbox}
      {next : Except String (List String) → Prog} {listing : List RelPath}
      (ht : c.tasks = before ++ t :: after)
      (hleft : t.left = .op (.mergeOverlay parent overlay) next) (hjob : t.job = .idle)
      (hdirs : overlay.overlayDirs.isSome = true)
      (hlisting : listing.Perm (childrenOf (c.files overlay.root) [])) :
      Step s c .other
        { c with tasks := before ++ { t with job := .merge listing [], listed := true } :: after }
  | mergeDir {c : World} {before after : List Task} {t : Task} {parent overlay : Sandbox}
      {next : Except String (List String) → Prog} {path : RelPath} {todo listing : List RelPath}
      {changed : List String} (ht : c.tasks = before ++ t :: after)
      (hleft : t.left = .op (.mergeOverlay parent overlay) next)
      (hjob : t.job = .merge (path :: todo) changed)
      (hpath : (c.files overlay.root).lookup path = none)
      (hlisting : listing.Perm (childrenOf (c.files overlay.root) path)) :
      Step s c .other
        { c with tasks := before ++ { t with job := .merge (listing ++ todo) changed } :: after }
  /-- What is joined to the root of the parent is what is left of the path below the directory
  that is being read: the last name. -/
  | mergeFile {c : World} {before after : List Task} {t : Task} {parent overlay : Sandbox}
      {next : Except String (List String) → Prog} {dir : RelPath} {name content : String}
      {todo : List RelPath} {changed : List String} (ht : c.tasks = before ++ t :: after)
      (hleft : t.left = .op (.mergeOverlay parent overlay) next)
      (hjob : t.job = .merge ((dir ++ [name]) :: todo) changed)
      (hpath : (c.files overlay.root).lookup (dir ++ [name]) = some content) :
      Step s c .other
        { c with
          files := World.putFile c.files parent.root [name] (some content)
          tasks := before ++ { t with job := .merge todo (changed ++ [name]) } :: after }
  | mergeEnd {c : World} {before after : List Task} {t : Task} {parent overlay : Sandbox}
      {next : Except String (List String) → Prog} {changed : List String}
      (ht : c.tasks = before ++ t :: after)
      (hleft : t.left = .op (.mergeOverlay parent overlay) next)
      (hjob : t.job = .merge [] changed) :
      Step s c .other
        { c with tasks := before ++ { t with left := next (.ok changed), job := .idle } :: after }
  | mergeFail {c : World} {before after : List Task} {t : Task} {parent overlay : Sandbox}
      {next : Except String (List String) → Prog} {e : String}
      (ht : c.tasks = before ++ t :: after)
      (hleft : t.left = .op (.mergeOverlay parent overlay) next) :
      Step s c .other
        { c with tasks := before ++ { t with left := next (.error e), job := .idle } :: after }
  | send {c : World} {before after : List Task} {t : Task} {env : Envelope} {next : Prog}
      (ht : c.tasks = before ++ t :: after) (hleft : t.left = .send env next) :
      Step s c .other
        { c with
          tasks := before ++ { t with left := next, sent := t.sent ++ [env.payload] } :: after }

def Registered (s : Setup) (c : World) : Prop := (c.registry.lookup s.key).isSome = true

def Payload.isToolResult : Payload → Bool
  | toolResult _ => true
  | _ => false

/-- The tool that wrote has been answered with its result. -/
def Acknowledged (c : World) (w : Write) : Prop :=
  ∃ t, c.tasks[w.task]? = some t ∧ ∃ p ∈ t.sent, p.isToolResult = true

/-- The write is in the parent, or a later one of the same file that replaces it, unless a
tool has removed the file since. -/
def InParent (s : Setup) (c : World) (w : Write) (later : List Write) : Prop :=
  ∃ e ∈ w :: later, e.path = w.path ∧
    (e.content = none ∨ (c.files s.parent.root).lookup w.path = e.content)

/-- Every acknowledged write that no discard follows is in the parent, or the overlay is
registered. -/
def NothingLost (s : Setup) (c : World) : Prop :=
  ∀ earlier w later, c.owed = earlier ++ w :: later → w.content.isSome = true → Acknowledged c w →
    Registered s c ∨ InParent s c w later

/-- The steps that keep the promise: tools write directly in the root, and while the overlay is
registered; a merge that takes the overlay out of the registry has missed no write. -/
def StepOk (s : Setup) (c : World) : Event → Prop
  | .other => True
  | .put path => Registered s c ∧ path.length = 1
  | .remove key t => (c.registry.lookup key).isSome = true → t.request.isMerge = true →
    t.missed = false

/-- A sandbox and an overlay that nothing has been written to. -/
structure Starts (s : Setup) (c : World) : Prop where
  parent : c.registry.lookup s.parentId = some s.parent
  overlay : c.registry.lookup s.key = some s.overlay
  files : c.files s.overlay.root = ∅
  tasks : c.tasks = []
  owed : c.owed = []

def GoodStep (s : Setup) (c c' : World) : Prop := ∃ e, Step s c e c' ∧ StepOk s c e

/-! ### Tasks on their way -/

/-- A task that only reads the registry and sends. -/
inductive Harmless : Prog → Prop
  | done : Harmless .done
  | send {env : Envelope} {next : Prog} (h : Harmless next) : Harmless (.send env next)
  | op {o : Op} {next : o.Ret → Prog} (hread : o.isRead = true) (h : ∀ r, Harmless (next r)) :
      Harmless (.op o next)

theorem Harmless.reply (env : Envelope) : Harmless (.send env .done) := .send .done

theorem harmless_sendInput (id : ℕ) (sandboxId agentId : String) :
    Harmless (sendInput id sandboxId agentId) := by
  refine .op rfl fun r => ?_
  cases r with
  | false => exact .reply _
  | true =>
    refine .op rfl fun r => ?_
    cases r with
    | false => exact .reply _
    | true => exact .reply _

theorem harmless_toolReply (id : ℕ) (result : Except String Json) :
    Harmless (toolReply id result) := by
  cases result with
  | error e => exact .reply _
  | ok output => exact .reply _

def Clean (s : Setup) (files : PathBuf → Files) (todo : List RelPath) : Prop :=
  ∀ path content, (files s.overlay.root).lookup path = some content →
    path ∈ todo ∨ (files s.parent.root).lookup path = some content

/-- Where a task can be. -/
inductive TaskOk (s : Setup) (files : PathBuf → Files) (t : Task) : Prop
  | quiet (h : Harmless t.left)
  | asking {id : ℕ} {tool : String} {input : Json}
      (h : t.left = withSandbox id s.key (noAgentOverlay s.agentId) fun sb =>
        invokeTool id sb tool input)
  | tool {id : ℕ} {tool : String} {input : Json} (h : t.left = invokeTool id s.overlay tool input)
  | mergeAsking {id : ℕ} (h : t.left = mergeAgentOverlay id s.parentId s.agentId)
      (hreq : t.request.isMerge = true) (hjob : t.job = .idle)
  | mergeFound {id : ℕ} (h : t.left = mergeOf id s.parentId s.agentId s.parent)
      (hreq : t.request.isMerge = true) (hjob : t.job = .idle)
  | mergeReady {id : ℕ}
      (h : t.left = .op (.mergeOverlay s.parent s.overlay) (mergeReply id s.parentId s.agentId))
      (hreq : t.request.isMerge = true) (hjob : t.job = .idle)
  | merging {id : ℕ} {todo : List RelPath} {changed : List String}
      (h : t.left = .op (.mergeOverlay s.parent s.overlay) (mergeReply id s.parentId s.agentId))
      (hreq : t.request.isMerge = true) (hjob : t.job = .merge todo changed)
      (hlisted : t.listed = true) (hclean : t.missed = false → Clean s files todo)
  | removing {id : ℕ} {changed : List String}
      (h : t.left = mergeReply id s.parentId s.agentId (.ok changed))
      (hreq : t.request.isMerge = true) (hjob : t.job = .idle) (hlisted : t.listed = true)
      (hclean : t.missed = false → Clean s files [])
  | discarding {id : ℕ} {message : String} {reply : Payload}
      (h : t.left = removeEntry id s.key message reply) (hreq : t.request.isDiscard = true)

namespace TaskOk

variable {s : Setup} {files : PathBuf → Files} {t : Task}

theorem arrive {id : ℕ} {p : Payload} (h : s.Concerns p) :
    TaskOk s files ⟨p, dispatch ⟨id, p⟩, .idle, [], false, false⟩ := by
  cases h with
  | invoke tool input callerTier => exact .asking rfl
  | sendInput input => exact .quiet (harmless_sendInput _ _ _)
  | merge => exact .mergeAsking rfl rfl rfl
  | discard => exact .discarding rfl rfl

theorem mono {files' : PathBuf → Files} (hclean : ∀ todo, Clean s files todo → Clean s files' todo)
    (h : TaskOk s files t) : TaskOk s files' t := by
  cases h with
  | quiet h => exact .quiet h
  | asking h => exact .asking h
  | tool h => exact .tool h
  | mergeAsking h hreq hjob => exact .mergeAsking h hreq hjob
  | mergeFound h hreq hjob => exact .mergeFound h hreq hjob
  | mergeReady h hreq hjob => exact .mergeReady h hreq hjob
  | merging h hreq hjob hlisted hc =>
    exact .merging h hreq hjob hlisted fun hm => hclean _ (hc hm)
  | removing h hreq hjob hlisted hc =>
    exact .removing h hreq hjob hlisted fun hm => hclean _ (hc hm)
  | discarding h hreq => exact .discarding h hreq

theorem note {files' : PathBuf → Files} {path : RelPath}
    (hclean : ∀ todo, path ∈ todo → Clean s files todo → Clean s files' todo)
    (h : TaskOk s files t) : TaskOk s files' (t.note path) := by
  cases h with
  | quiet h => exact .quiet h
  | asking h => exact .asking h
  | tool h => exact .tool h
  | mergeAsking h hreq hjob => exact .mergeAsking h hreq hjob
  | mergeFound h hreq hjob => exact .mergeFound h hreq hjob
  | mergeReady h hreq hjob => exact .mergeReady h hreq hjob
  | merging h hreq hjob hlisted hc =>
    refine .merging h hreq hjob hlisted fun hm => ?_
    simp only [Task.note, Task.todo, hjob, hlisted, Bool.true_and, Bool.or_eq_false_iff,
      decide_eq_false_iff_not, not_not] at hm
    exact hclean _ hm.2 (hc hm.1)
  | removing h hreq hjob hlisted hc =>
    refine .removing h hreq hjob hlisted fun hm => ?_
    simp [Task.note, Task.todo, hjob, hlisted] at hm
  | discarding h hreq => exact .discarding h hreq

theorem read {c : World} {o : Op} {next : o.Ret → Prog} {ret : o.Ret}
    (hparent : c.registry.lookup s.parentId = some s.parent)
    (hoverlay : c.registry.lookup s.key = some s.overlay ∨ c.registry.lookup s.key = none)
    (h : TaskOk s files t) (hleft : t.left = .op o next) (hread : o.isRead = true)
    (hran : Ran c.registry o ret c.registry) : TaskOk s files { t with left := next ret } := by
  cases h with
  | quiet h =>
    rw [hleft] at h
    cases h with
    | op _ h => exact .quiet (h ret)
  | asking h =>
    rw [hleft] at h
    cases h
    cases hran
    rcases hoverlay with hov | hov <;> rw [hov]
    · exact .tool rfl
    · exact .quiet (.reply _)
  | mergeAsking h hreq hjob =>
    rw [hleft] at h
    cases h
    cases hran
    rw [hparent]
    exact .mergeFound rfl hreq hjob
  | mergeFound h hreq hjob =>
    rw [hleft] at h
    cases h
    cases hran
    rw [Setup.key] at hoverlay
    rcases hoverlay with hov | hov <;> rw [hov]
    · exact .mergeReady rfl hreq hjob
    · exact .quiet (.reply _)
  | tool h | mergeReady h | merging h | removing h | discarding h =>
    rw [hleft] at h
    cases h
    cases hread

theorem send {env : Envelope} {next : Prog} (h : TaskOk s files t) (hleft : t.left = .send env next) :
    TaskOk s files { t with left := next, sent := t.sent ++ [env.payload] } := by
  cases h with
  | quiet h =>
    rw [hleft] at h
    cases h with
    | send h => exact .quiet h
  | asking h | tool h | mergeAsking h | mergeFound h | mergeReady h | merging h | removing h
  | discarding h =>
    rw [hleft] at h
    cases h

theorem of_invoke {sb : Sandbox} {tool : String} {input : Json}
    {next : Except String Json → Prog} (h : TaskOk s files t)
    (hleft : t.left = .op (.invoke sb tool input) next) :
    sb = s.overlay ∧ ∃ id, next = toolReply id := by
  cases h with
  | quiet h =>
    rw [hleft] at h
    cases h with
    | op hread _ => cases hread
  | tool h =>
    rw [hleft] at h
    cases h
    exact ⟨rfl, _, rfl⟩
  | asking h | mergeAsking h | mergeFound h | mergeReady h | merging h | removing h
  | discarding h =>
    rw [hleft] at h
    cases h

theorem of_merge {parent overlay : Sandbox} {next : Except String (List String) → Prog}
    (h : TaskOk s files t) (hleft : t.left = .op (.mergeOverlay parent overlay) next) :
    parent = s.parent ∧ overlay = s.overlay ∧ t.request.isMerge = true ∧
      (∃ id, next = mergeReply id s.parentId s.agentId) ∧
      (t.job = .idle ∨ ∃ todo changed, t.job = .merge todo changed ∧ t.listed = true ∧
        (t.missed = false → Clean s files todo)) := by
  cases h with
  | quiet h =>
    rw [hleft] at h
    cases h with
    | op hread _ => cases hread
  | mergeReady h hreq hjob =>
    rw [hleft] at h
    cases h
    exact ⟨rfl, rfl, hreq, ⟨_, rfl⟩, .inl hjob⟩
  | merging h hreq hjob hlisted hclean =>
    rw [hleft] at h
    cases h
    exact ⟨rfl, rfl, hreq, ⟨_, rfl⟩, .inr ⟨_, _, hjob, hlisted, hclean⟩⟩
  | asking h | mergeAsking h | mergeFound h | tool h | removing h | discarding h =>
    rw [hleft] at h
    cases h

theorem of_remove {key : String} {next : Bool → Prog} (h : TaskOk s files t)
    (hleft : t.left = .op (.remove key) next) :
    key = s.key ∧ (∀ r, Harmless (next r)) ∧
      (t.request.isDiscard = true ∨
        t.request.isMerge = true ∧ (t.missed = false → Clean s files [])) := by
  cases h with
  | quiet h =>
    rw [hleft] at h
    cases h with
    | op hread _ => cases hread
  | removing h hreq hjob hlisted hclean =>
    rw [hleft] at h
    cases h
    exact ⟨rfl, fun _ => .reply _, .inr ⟨hreq, hclean⟩⟩
  | discarding h hreq =>
    rw [hleft] at h
    cases h
    refine ⟨rfl, fun r => ?_, .inl hreq⟩
    cases r with
    | true => exact .reply _
    | false => exact .reply _
  | asking h | mergeAsking h | mergeFound h | tool h | mergeReady h | merging h =>
    rw [hleft] at h
    cases h

end TaskOk

theorem putFile_other {files : PathBuf → Files} {root root' : PathBuf} {path : RelPath}
    {content : Option String} (h : root' ≠ root) :
    World.putFile files root path content root' = files root' := Function.update_of_ne h _ _

theorem lookup_putFile (files : PathBuf → Files) (root : PathBuf) (path p : RelPath)
    (content : Option String) :
    (World.putFile files root path content root).lookup p =
      if p = path then content else (files root).lookup p := by
  unfold World.putFile
  rw [Function.update_self]
  cases content with
  | none => exact HashMap.lookup_erase_eq_ite _ _ _
  | some content => exact HashMap.lookup_insert_eq_ite _ _ _ _

namespace Clean

variable {s : Setup} {files : PathBuf → Files} {todo : List RelPath}

theorem put {path : RelPath} (h : Clean s files todo) (hpath : path ∈ todo) (content : String) :
    Clean s (World.putFile files s.overlay.root path (some content)) todo := by
  intro p content' hp
  rw [putFile_other s.roots]
  rw [lookup_putFile] at hp
  split at hp
  · next heq =>
    subst heq
    exact .inl hpath
  · exact h p content' hp

theorem delete (h : Clean s files todo) (path : RelPath) :
    Clean s (World.putFile files s.overlay.root path none) todo := by
  intro p content hp
  rw [putFile_other s.roots]
  rw [lookup_putFile] at hp
  split at hp
  · cases hp
  · exact h p content hp

theorem copy {name content : String} (h : Clean s files todo)
    (hname : (files s.overlay.root).lookup [name] = some content) :
    Clean s (World.putFile files s.parent.root [name] (some content)) todo := by
  intro p content' hp
  rw [putFile_other s.roots.symm] at hp
  rw [lookup_putFile]
  split
  · next heq =>
    subst heq
    rw [hname] at hp
    exact .inr hp
  · exact h p content' hp

theorem copied {name content : String} (h : Clean s files ([name] :: todo))
    (hname : (files s.overlay.root).lookup [name] = some content) :
    Clean s (World.putFile files s.parent.root [name] (some content)) todo := by
  intro p content' hp
  rcases h.copy hname p content' hp with hmem | hin
  · rcases List.mem_cons.mp hmem with rfl | hmem
    · rw [putFile_other s.roots.symm, hname] at hp
      refine .inr ?_
      rw [lookup_putFile, if_pos rfl]
      exact hp
    · exact .inl hmem
  · exact .inr hin

theorem skip {path : RelPath} (h : Clean s files (path :: todo))
    (hpath : (files s.overlay.root).lookup path = none) (listing : List RelPath) :
    Clean s files (listing ++ todo) := by
  intro p content hp
  rcases h p content hp with hmem | hin
  · rcases List.mem_cons.mp hmem with rfl | hmem
    · rw [hpath] at hp
      cases hp
    · exact .inl (List.mem_append_right _ hmem)
  · exact .inr hin

end Clean

/-! ### One step -/

/-- What the good steps keep. -/
structure Sound (s : Setup) (c : World) : Prop where
  parent : c.registry.lookup s.parentId = some s.parent
  overlay : c.registry.lookup s.key = some s.overlay ∨ c.registry.lookup s.key = none
  flat : ∀ path content, (c.files s.overlay.root).lookup path = some content → path.length = 1
  tasks : ∀ t ∈ c.tasks, TaskOk s c.files t
  /-- The last write of a file is what the overlay holds. -/
  owed : ∀ earlier w later, c.owed = earlier ++ w :: later → (∀ e ∈ later, e.path ≠ w.path) →
    (c.files s.overlay.root).lookup w.path = w.content
  gone : ¬ Registered s c → Clean s c.files [] ∨ ∀ w ∈ c.owed, w.content = none

variable {s : Setup} {c c' : World}

theorem Starts.sound (h : Starts s c) : Sound s c where
  parent := h.parent
  overlay := .inl h.overlay
  flat path content hp := by
    rw [h.files] at hp
    cases hp
  tasks := by simp [h.tasks]
  owed earlier w later hw := by
    rw [h.owed] at hw
    simp at hw
  gone hreg := absurd (by rw [Registered, h.overlay]; rfl) hreg

theorem Setup.key_ne (s : Setup) : s.parentId ≠ s.key := by
  intro h
  have hlen := congrArg String.length h
  rw [Setup.key, overlayKey, String.length_append, String.length_append] at hlen
  have hcolon : ":".length = 1 := rfl
  omega

namespace Sound

theorem replace {before after : List Task} {t t' : Task} (h : Sound s c)
    (ht : c.tasks = before ++ t :: after) (ht' : TaskOk s c.files t') :
    Sound s { c with tasks := before ++ t' :: after } :=
  ⟨h.parent, h.overlay, h.flat, forall_mem_replace (ht ▸ h.tasks) (fun _ hok => hok) ht', h.owed,
    h.gone⟩

theorem task {before after : List Task} {t : Task} (h : Sound s c)
    (ht : c.tasks = before ++ t :: after) : TaskOk s c.files t :=
  h.tasks t (by rw [ht]; exact List.mem_append_right _ List.mem_cons_self)

theorem owed_push {files : PathBuf → Files} {owed : List Write} {root : PathBuf} {w : Write}
    (h : ∀ earlier w later, owed = earlier ++ w :: later → (∀ e ∈ later, e.path ≠ w.path) →
      (files root).lookup w.path = w.content) :
    ∀ earlier w' later, owed ++ [w] = earlier ++ w' :: later →
      (∀ e ∈ later, e.path ≠ w'.path) →
      (World.putFile files root w.path w.content root).lookup w'.path = w'.content := by
  intro earlier w' later heq hlast
  rw [lookup_putFile]
  rcases List.eq_nil_or_concat later with rfl | ⟨later', last, rfl⟩
  · obtain ⟨-, hw⟩ := List.append_inj' heq rfl
    cases hw
    rw [if_pos rfl]
  · rw [List.concat_eq_append] at heq hlast
    have heq' : owed ++ [w] = (earlier ++ w' :: later') ++ [last] := by
      rw [heq, List.append_assoc, List.cons_append]
    obtain ⟨hrest, hw⟩ := List.append_inj' heq' rfl
    cases hw
    have hne : w'.path ≠ w.path := (hlast w (by simp)).symm
    rw [if_neg hne]
    exact h earlier w' later' hrest fun e he => hlast e (List.mem_append_left _ he)

theorem put {path : RelPath} (h : Sound s c) (task : ℕ) (content : String) (hreg : Registered s c)
    (hpath : path.length = 1) :
    Sound s { c with
      files := World.putFile c.files s.overlay.root path (some content)
      tasks := c.tasks.map (Task.note path)
      owed := c.owed ++ [⟨task, path, some content⟩] } where
  parent := h.parent
  overlay := h.overlay
  flat p content' hp := by
    rw [lookup_putFile] at hp
    split at hp
    · next heq => rw [heq, hpath]
    · exact h.flat p content' hp
  tasks t' ht' := by
    obtain ⟨t₀, ht₀, rfl⟩ := List.mem_map.mp ht'
    exact (h.tasks t₀ ht₀).note fun todo hin hclean => hclean.put hin content
  owed := owed_push h.owed
  gone hgone := absurd hreg hgone

theorem delete {path : RelPath} (h : Sound s c) (task : ℕ) :
    Sound s { c with
      files := World.putFile c.files s.overlay.root path none
      owed := c.owed ++ [⟨task, path, none⟩] } where
  parent := h.parent
  overlay := h.overlay
  flat p content hp := by
    rw [lookup_putFile] at hp
    split at hp
    · cases hp
    · exact h.flat p content hp
  tasks t ht := (h.tasks t ht).mono fun todo hclean => hclean.delete path
  owed := owed_push h.owed
  gone hgone := by
    rcases h.gone hgone with hclean | hnone
    · exact .inl (hclean.delete path)
    · refine .inr fun w hw => ?_
      rcases List.mem_append.mp hw with hw | hw
      · exact hnone w hw
      · obtain rfl := List.mem_singleton.mp hw
        rfl

theorem copy {before after : List Task} {t t' : Task} {name content : String} (h : Sound s c)
    (ht : c.tasks = before ++ t :: after)
    (hname : (c.files s.overlay.root).lookup [name] = some content)
    (ht' : TaskOk s (World.putFile c.files s.parent.root [name] (some content)) t') :
    Sound s { c with
      files := World.putFile c.files s.parent.root [name] (some content)
      tasks := before ++ t' :: after } := by
  have hov : World.putFile c.files s.parent.root [name] (some content) s.overlay.root =
      c.files s.overlay.root := putFile_other s.roots.symm
  refine ⟨h.parent, h.overlay, fun p content' hp => ?_, forall_mem_replace (ht ▸ h.tasks)
    (fun _ hok => hok.mono fun _ hclean => hclean.copy hname) ht',
    fun earlier w later heq hlast => ?_,
    fun hgone => (h.gone hgone).imp (fun hclean => hclean.copy hname) id⟩
  · exact h.flat p content' (hov ▸ hp)
  · exact (congrArg (AList.lookup w.path) hov).trans (h.owed earlier w later heq hlast)

theorem remove {before after : List Task} {t : Task} {key : String} {next : Bool → Prog}
    (h : Sound s c) (ht : c.tasks = before ++ t :: after) (hleft : t.left = .op (.remove key) next)
    (hok : StepOk s c (.remove key t)) :
    Sound s { c with
      registry := c.registry.erase key
      tasks := before ++ { t with left := next (c.registry.lookup key).isSome } :: after
      owed := if t.request.isDiscard && (c.registry.lookup key).isSome then [] else c.owed } := by
  obtain ⟨rfl, hnext, hwhy⟩ := (h.task ht).of_remove hleft
  refine ⟨?_, ?_, h.flat, forall_mem_replace (ht ▸ h.tasks) (fun _ hok => hok) (.quiet (hnext _)),
    fun earlier w later heq hlast => ?_, fun _ => ?_⟩
  · rw [HashMap.lookup_erase_eq_ite, if_neg s.key_ne]
    exact h.parent
  · rw [HashMap.lookup_erase_eq_ite, if_pos rfl]
    exact .inr rfl
  · dsimp only at heq
    split at heq
    · simp at heq
    · exact h.owed earlier w later heq hlast
  · by_cases hreg : Registered s c
    · rcases hwhy with hdiscard | ⟨hmerge, hclean⟩
      · have hboth : (t.request.isDiscard && (c.registry.lookup s.key).isSome) = true := by
          rw [hdiscard]
          exact hreg
        rw [if_pos hboth]
        exact .inr (by simp)
      · exact .inl (hclean (hok hreg hmerge))
    · have hnone : (c.registry.lookup s.key).isSome = false := by
        rw [← Bool.not_eq_true]
        exact hreg
      rw [hnone, Bool.and_false]
      exact h.gone hreg

end Sound

theorem clean_listing {files : PathBuf → Files} {listing : List RelPath}
    (hflat : ∀ path content, (files s.overlay.root).lookup path = some content → path.length = 1)
    (hlisting : listing.Perm (childrenOf (files s.overlay.root) [])) : Clean s files listing := by
  intro path content hp
  have hlen := hflat path content hp
  have hkey : path ∈ (files s.overlay.root).keys :=
    AList.mem_keys.mp (AList.lookup_isSome.mp (by rw [hp]; rfl))
  refine .inl (hlisting.mem_iff.mpr (List.mem_dedup.mpr (List.mem_map.mpr ⟨path, ?_, ?_⟩)))
  · refine List.mem_filter.mpr ⟨hkey, decide_eq_true ⟨List.nil_prefix, ?_⟩⟩
    rintro rfl
    cases hlen
  · exact List.take_of_length_le hlen.le

theorem Sound.step {e : Event} (h : Sound s c) (hs : Step s c e c') (hok : StepOk s c e) :
    Sound s c' := by
  cases hs with
  | arrive hconcerns =>
    refine ⟨h.parent, h.overlay, h.flat, fun t ht => ?_, h.owed, h.gone⟩
    rcases List.mem_append.mp ht with ht | ht
    · exact h.tasks t ht
    · obtain rfl := List.mem_singleton.mp ht
      exact .arrive hconcerns
  | read ht hleft hread hran =>
    exact h.replace ht ((h.task ht).read h.parent h.overlay hleft hread hran)
  | remove ht hleft => exact h.remove ht hleft hok
  | toolStart ht hleft hjob =>
    obtain ⟨rfl, id, rfl⟩ := (h.task ht).of_invoke hleft
    exact h.replace ht (.tool hleft)
  | put ht hleft hjob =>
    obtain ⟨rfl, -⟩ := (h.task ht).of_invoke hleft
    exact h.put _ _ hok.1 hok.2
  | delete ht hleft hjob =>
    obtain ⟨rfl, -⟩ := (h.task ht).of_invoke hleft
    exact h.delete _
  | toolEnd ht hleft hjob =>
    obtain ⟨rfl, id, rfl⟩ := (h.task ht).of_invoke hleft
    exact h.replace ht (.quiet (harmless_toolReply id _))
  | mergeStart ht hleft hjob hdirs hlisting =>
    obtain ⟨rfl, rfl, hreq, ⟨id, rfl⟩, -⟩ := (h.task ht).of_merge hleft
    exact h.replace ht (.merging hleft hreq rfl rfl fun _ => clean_listing h.flat hlisting)
  | mergeDir ht hleft hjob hpath hlisting =>
    obtain ⟨rfl, rfl, hreq, ⟨id, rfl⟩, hidle | ⟨todo, changed, hjob', hlisted, hclean⟩⟩ :=
      (h.task ht).of_merge hleft
    · rw [hjob] at hidle
      cases hidle
    · rw [hjob] at hjob'
      cases hjob'
      exact h.replace ht (.merging hleft hreq rfl hlisted fun hm => (hclean hm).skip hpath _)
  | @mergeFile before after t parent overlay next dir name content todo changed ht hleft hjob hpath =>
    obtain ⟨rfl, rfl, hreq, ⟨id, rfl⟩, hidle | ⟨todo', changed', hjob', hlisted, hclean⟩⟩ :=
      (h.task ht).of_merge hleft
    · rw [hjob] at hidle
      cases hidle
    · rw [hjob] at hjob'
      cases hjob'
      have hlen := h.flat _ _ hpath
      have hdir : dir = [] := by simpa using hlen
      subst hdir
      exact h.copy ht hpath (.merging hleft hreq rfl hlisted fun hm => (hclean hm).copied hpath)
  | mergeEnd ht hleft hjob =>
    obtain ⟨rfl, rfl, hreq, ⟨id, rfl⟩, hidle | ⟨todo, changed, hjob', hlisted, hclean⟩⟩ :=
      (h.task ht).of_merge hleft
    · rw [hjob] at hidle
      cases hidle
    · rw [hjob] at hjob'
      cases hjob'
      exact h.replace ht (.removing rfl hreq rfl hlisted hclean)
  | mergeFail ht hleft =>
    obtain ⟨rfl, rfl, hreq, ⟨id, rfl⟩, -⟩ := (h.task ht).of_merge hleft
    exact h.replace ht (.quiet (.reply _))
  | send ht hleft => exact h.replace ht ((h.task ht).send hleft)

theorem exists_last_write (w : Write) (later : List Write) :
    ∃ before e after, w :: later = before ++ e :: after ∧ e.path = w.path ∧
      ∀ e' ∈ after, e'.path ≠ w.path := by
  induction later using List.reverseRecOn with
  | nil => exact ⟨[], w, [], rfl, rfl, by simp⟩
  | append_singleton later x ih =>
    by_cases hx : x.path = w.path
    · exact ⟨w :: later, x, [], rfl, hx, by simp⟩
    · obtain ⟨before, e, after, heq, hpath, hafter⟩ := ih
      refine ⟨before, e, after ++ [x], ?_, hpath, fun e' he' => ?_⟩
      · rw [← List.cons_append, heq, List.append_assoc, List.cons_append]
      · rcases List.mem_append.mp he' with he' | he'
        · exact hafter e' he'
        · obtain rfl := List.mem_singleton.mp he'
          exact hx

theorem Sound.nothingLost (h : Sound s c) : NothingLost s c := by
  intro earlier w later heq hput _
  by_cases hreg : Registered s c
  · exact .inl hreg
  · refine .inr ?_
    obtain ⟨before, e, after, hsplit, hpath, hafter⟩ := exists_last_write w later
    have hmem : e ∈ w :: later := by
      rw [hsplit]
      exact List.mem_append_right _ List.mem_cons_self
    refine ⟨e, hmem, hpath, ?_⟩
    have howed : c.owed = (earlier ++ before) ++ e :: after := by
      rw [heq, hsplit, List.append_assoc]
    have hheld := h.owed _ e after howed fun e' he' => by
      rw [hpath]
      exact hafter e' he'
    rw [hpath] at hheld
    rcases h.gone hreg with hclean | hnone
    · cases hcontent : e.content with
      | none => exact .inl rfl
      | some content =>
        rw [hcontent] at hheld
        rcases hclean w.path content hheld with hin | hin
        · cases hin
        · exact .inr hin
    · exact .inl (hnone e (by rw [heq]; exact List.mem_append_right _ hmem))

/-- **No acknowledged write is lost.**  In every run of the requests for one overlay whose steps
all keep the promise, every acknowledged write that no discard follows is in the parent, or the
overlay is registered. -/
theorem nothing_lost {c₀ : World} (hstart : Starts s c₀)
    (hrun : Relation.ReflTransGen (GoodStep s) c₀ c) : NothingLost s c := by
  have hsound : Sound s c := by
    induction hrun with
    | refl => exact hstart.sound
    | tail _ hgood ih =>
      obtain ⟨e, hs, hok⟩ := hgood
      exact ih.step hs hok
  exact hsound.nothingLost

def demoSetup : Setup where
  parentId := "sb-1"
  agentId := "ag-001"
  parent := ⟨"sb-1", ["tmp", ".tmpA"], none, ⟨none, none⟩⟩
  overlay := ⟨"sb-1:ag-001", ["tmp", ".tmpB"], some ⟨["upper"], ["work"]⟩, ⟨none, none⟩⟩
  roots := by decide

def demoRegistry : Registry :=
  (AList.insert "sb-1" demoSetup.parent ∅).insert "sb-1:ag-001" demoSetup.overlay

def demoStart : World := ⟨demoRegistry, fun _ => ∅, [], []⟩

theorem demo_overlay : demoRegistry.lookup demoSetup.key = some demoSetup.overlay :=
  AList.lookup_insert _

theorem demo_parent : demoRegistry.lookup demoSetup.parentId = some demoSetup.parent := by
  rw [demoRegistry, AList.lookup_insert_ne (by decide)]
  exact AList.lookup_insert _

theorem demo_starts : Starts demoSetup demoStart := ⟨demo_parent, demo_overlay, rfl, rfl, rfl⟩

theorem Ran.get_some {r : Registry} {key : String} {sb : Sandbox} (h : r.lookup key = some sb) :
    Ran r (.get key) (some sb) r := h ▸ .get key

def AnyStep (s : Setup) (c c' : World) : Prop := ∃ e, Step s c e c'

/-- A tool writes a note, and then the overlay is merged. -/
theorem note_kept : ∃ c, Relation.ReflTransGen (GoodStep demoSetup) demoStart c ∧
    ¬ Registered demoSetup c ∧ NothingLost demoSetup c := by
  suffices hrun : ∃ c, Relation.ReflTransGen (GoodStep demoSetup) demoStart c ∧
      ¬ Registered demoSetup c by
    obtain ⟨c, hrun, hgone⟩ := hrun
    exact ⟨c, hrun, hgone, nothing_lost demo_starts hrun⟩
  refine ⟨_, .head ⟨_, @Step.arrive _ _ 1 _ (.invoke "write_file" .null "crew"), trivial⟩ <|
    .head ⟨_, @Step.read _ _ [] [] _ _ _ _ rfl rfl rfl (.get_some demo_overlay), trivial⟩ <|
    .head ⟨_, @Step.toolStart _ _ [] [] _ _ _ _ _ rfl rfl rfl, trivial⟩ <|
    .head ⟨_, @Step.put _ _ [] [] _ _ _ _ _ ["notes.txt"] "hello" rfl rfl rfl, ?_, rfl⟩ <|
    .head ⟨_, @Step.toolEnd _ _ [] [] _ _ _ _ _ (.ok .null) rfl rfl rfl, trivial⟩ <|
    .head ⟨_, @Step.send _ _ [] [] _ _ _ rfl rfl, trivial⟩ <|
    .head ⟨_, @Step.arrive _ _ 2 _ .merge, trivial⟩ <|
    .head ⟨_, @Step.read _ _ [_] [] _ _ _ _ rfl rfl rfl (.get_some demo_parent), trivial⟩ <|
    .head ⟨_, @Step.read _ _ [_] [] _ _ _ _ rfl rfl rfl (.get_some demo_overlay), trivial⟩ <|
    .head ⟨_, @Step.mergeStart _ _ [_] [] _ _ _ _ [["notes.txt"]] rfl rfl rfl rfl ?_, trivial⟩ <|
    .head ⟨_, @Step.mergeFile _ _ [_] [] _ _ _ _ [] "notes.txt" "hello" _ _ rfl rfl rfl ?_,
      trivial⟩ <|
    .head ⟨_, @Step.mergeEnd _ _ [_] [] _ _ _ _ _ rfl rfl rfl, trivial⟩ <|
    .head ⟨_, @Step.remove _ _ [_] [] _ _ _ rfl rfl, fun _ _ => rfl⟩ <|
    .head ⟨_, @Step.send _ _ [_] [] _ _ _ rfl rfl, trivial⟩ .refl, ?_⟩
  · show (demoRegistry.lookup demoSetup.key).isSome = true
    rw [demo_overlay]
    rfl
  · decide
  · exact (lookup_putFile _ _ _ _ _).trans (if_pos rfl)
  · show ¬ ((demoRegistry.erase demoSetup.key).lookup demoSetup.key).isSome = true
    rw [AList.lookup_erase]
    exact Bool.false_ne_true

theorem demo_lost {c : World} {w : Write} (h : Registered demoSetup c ∨ InParent demoSetup c w [])
    (hgone : c.registry.lookup demoSetup.key = none) (hput : w.content.isSome = true)
    (hmissing : (c.files demoSetup.parent.root).lookup w.path = none) : False := by
  rcases h with hreg | ⟨e, he, -, hcontent⟩
  · rw [Registered, hgone] at hreg
    cases hreg
  · obtain rfl := List.mem_singleton.mp he
    rw [hmissing] at hcontent
    have hnone : e.content = none := hcontent.elim id Eq.symm
    rw [hnone] at hput
    cases hput

/-- A file below a directory of the overlay is copied to the root of the parent, and a file
written after the merge has read the directory is not copied at all. -/
theorem writes_lost :
    (∃ c, Relation.ReflTransGen (AnyStep demoSetup) demoStart c ∧
      (∃ t ∈ c.tasks, ∃ changed, .agentOverlayMerged "ag-001" changed ∈ t.sent) ∧
        ¬ NothingLost demoSetup c) ∧
    ∃ c, Relation.ReflTransGen (AnyStep demoSetup) demoStart c ∧
      (∃ t ∈ c.tasks, ∃ changed, .agentOverlayMerged "ag-001" changed ∈ t.sent) ∧
        ¬ NothingLost demoSetup c := by
  have hparent : ∀ (path : RelPath) (content : Option String),
      (World.putFile (fun _ => ∅) demoSetup.overlay.root path content
        demoSetup.parent.root).lookup path = none := by
    intro path content
    rw [putFile_other demoSetup.roots]
    rfl
  constructor
  · refine ⟨_, .head ⟨_, @Step.arrive _ _ 1 _ (.invoke "write_file" .null "crew")⟩ <|
      .head ⟨_, @Step.read _ _ [] [] _ _ _ _ rfl rfl rfl (.get_some demo_overlay)⟩ <|
      .head ⟨_, @Step.toolStart _ _ [] [] _ _ _ _ _ rfl rfl rfl⟩ <|
      .head ⟨_, @Step.put _ _ [] [] _ _ _ _ _ ["src", "main.rs"] "fn main" rfl rfl rfl⟩ <|
      .head ⟨_, @Step.toolEnd _ _ [] [] _ _ _ _ _ (.ok .null) rfl rfl rfl⟩ <|
      .head ⟨_, @Step.send _ _ [] [] _ _ _ rfl rfl⟩ <|
      .head ⟨_, @Step.arrive _ _ 2 _ .merge⟩ <|
      .head ⟨_, @Step.read _ _ [_] [] _ _ _ _ rfl rfl rfl (.get_some demo_parent)⟩ <|
      .head ⟨_, @Step.read _ _ [_] [] _ _ _ _ rfl rfl rfl (.get_some demo_overlay)⟩ <|
      .head ⟨_, @Step.mergeStart _ _ [_] [] _ _ _ _ [["src"]] rfl rfl rfl rfl ?_⟩ <|
      .head ⟨_, @Step.mergeDir _ _ [_] [] _ _ _ _ ["src"] _ [["src", "main.rs"]] _ rfl rfl rfl
        ?_ ?_⟩ <|
      .head ⟨_, @Step.mergeFile _ _ [_] [] _ _ _ _ ["src"] "main.rs" "fn main" _ _ rfl rfl rfl ?_⟩ <|
      .head ⟨_, @Step.mergeEnd _ _ [_] [] _ _ _ _ _ rfl rfl rfl⟩ <|
      .head ⟨_, @Step.remove _ _ [_] [] _ _ _ rfl rfl⟩ <|
      .head ⟨_, @Step.send _ _ [_] [] _ _ _ rfl rfl⟩ .refl,
      ⟨_, List.mem_cons_of_mem _ List.mem_cons_self, ["main.rs"], List.mem_cons_self⟩, fun h => ?_⟩
    · decide
    · exact (lookup_putFile _ _ _ _ _).trans (if_neg (by decide))
    · decide
    · exact (lookup_putFile _ _ _ _ _).trans (if_pos rfl)
    · refine demo_lost (h [] ⟨0, ["src", "main.rs"], some "fn main"⟩ [] rfl rfl
        ⟨_, rfl, _, List.mem_cons_self, rfl⟩) (AList.lookup_erase _ _) rfl ?_
      exact (lookup_putFile _ _ _ _ _).trans ((if_neg (by decide)).trans
        (hparent ["src", "main.rs"] (some "fn main")))
  · refine ⟨_, .head ⟨_, @Step.arrive _ _ 1 _ (.invoke "write_file" .null "crew")⟩ <|
      .head ⟨_, @Step.read _ _ [] [] _ _ _ _ rfl rfl rfl (.get_some demo_overlay)⟩ <|
      .head ⟨_, @Step.arrive _ _ 2 _ .merge⟩ <|
      .head ⟨_, @Step.read _ _ [_] [] _ _ _ _ rfl rfl rfl (.get_some demo_parent)⟩ <|
      .head ⟨_, @Step.read _ _ [_] [] _ _ _ _ rfl rfl rfl (.get_some demo_overlay)⟩ <|
      .head ⟨_, @Step.mergeStart _ _ [_] [] _ _ _ _ [] rfl rfl rfl rfl ?_⟩ <|
      .head ⟨_, @Step.mergeEnd _ _ [_] [] _ _ _ _ _ rfl rfl rfl⟩ <|
      .head ⟨_, @Step.toolStart _ _ [] [_] _ _ _ _ _ rfl rfl rfl⟩ <|
      .head ⟨_, @Step.put _ _ [] [_] _ _ _ _ _ ["notes.txt"] "hello" rfl rfl rfl⟩ <|
      .head ⟨_, @Step.toolEnd _ _ [] [_] _ _ _ _ _ (.ok .null) rfl rfl rfl⟩ <|
      .head ⟨_, @Step.send _ _ [] [_] _ _ _ rfl rfl⟩ <|
      .head ⟨_, @Step.remove _ _ [_] [] _ _ _ rfl rfl⟩ <|
      .head ⟨_, @Step.send _ _ [_] [] _ _ _ rfl rfl⟩ .refl,
      ⟨_, List.mem_cons_of_mem _ List.mem_cons_self, [], List.mem_cons_self⟩, fun h => ?_⟩
    · decide
    · refine demo_lost (h [] ⟨0, ["notes.txt"], some "hello"⟩ [] rfl rfl
        ⟨_, rfl, _, List.mem_cons_self, rfl⟩) (AList.lookup_erase _ _) rfl
        (hparent ["notes.txt"] (some "hello"))

end Mowis.Executor
