import Mowis.Lib.Routes

/-!
# Uploaded archives

`upload_codebase` of `mowis-executor/src/server.rs`: the entries of an archive are unpacked below
the root of a sandbox, one after the other.  An entry is left out for its own name; what earlier
entries have made of the way to its place is not looked at.
-/

namespace Mowis.Executor.Upload

open Mowis.Lib.UnixPath Mowis.Lib.Symlink

inductive Kind where
  | file (content : List UInt8)
  | directory
  | symlink (target : RawPath)
  | hardLink (target : RawPath)
  deriving DecidableEq, Repr

def Kind.isFile : Kind → Bool
  | .file _ => true
  | _ => false

def Kind.isLink : Kind → Bool
  | .symlink _ | .hardLink _ => true
  | _ => false

structure Entry where
  path : RawPath
  kind : Kind
  deriving DecidableEq, Repr

/-- The tree, and which other names the file at a place has. -/
structure Disk where
  fs : Fs
  linked : Place → Place → Bool

/-- `Entry::unpack` of the tar library: an entry goes to a path, or there is an error. -/
abbrev Unpack := Disk → Entry → List Component → Disk × Bool

/-- Absolute paths are left out, and paths with `..`. -/
def rejected (path : RawPath) : Bool :=
  path.head? == some slash || (components path).any fun c => c = .parent

def destination (root : RawPath) (e : Entry) : List Component := components (push root e.path)

section Loop

variable (unpack : Unpack) (root : RawPath)

/-- The loop over the entries, some of which cannot be read; the count has 32 bits. -/
def unpackEntries : Disk → ℕ → List (Option Entry) → Disk × Option ℕ
  | d, count, [] => (d, some count)
  | d, _, none :: _ => (d, none)
  | d, count, some e :: rest =>
    if rejected e.path then unpackEntries d count rest
    else
      match unpack d e (destination root e) with
      | (d, false) => (d, none)
      | (d, true) => unpackEntries d ((count + 1) % 2 ^ 32) rest

def uploadCodebase (d : Disk) (entries : List (Option Entry)) : Disk × Option ℕ :=
  unpackEntries unpack root d 0 entries

def EveryStep (P : Disk → Entry → Prop) : Disk → List (Option Entry) → Prop
  | _, [] => True
  | _, none :: _ => True
  | d, some e :: rest =>
    if rejected e.path then EveryStep P d rest
    else P d e ∧ ((unpack d e (destination root e)).2 = true →
      EveryStep P (unpack d e (destination root e)).1 rest)

end Loop

/-- A path leads to a place, by a link at its end or to this link, or to another name of the file
there. -/
def Disk.Reached (d : Disk) (dest : List Component) (q : Place) : Prop :=
  ∃ follow p, (d.fs.lookup follow dest false).LeadsTo p ∧ (q = p ∨ d.linked p q = true)

/-- Only what the destination leads to is written; files and directories are not made links, nor
other names of files, and no directory is replaced. -/
structure WritesThere (unpack : Unpack) : Prop where
  only : ∀ d e dest q, ¬ d.Reached dest q → (unpack d e dest).1.fs.node q = d.fs.node q
  cwd : ∀ d e dest, (unpack d e dest).1.fs.cwd = d.fs.cwd
  dirs : ∀ d e dest q, d.fs.node q = some .dir → (unpack d e dest).1.fs.node q = some .dir
  links : ∀ d e dest q target, e.kind.isLink = false →
    (unpack d e dest).1.fs.node q = some (.link target) → d.fs.node q = some (.link target)
  names : ∀ d e dest p q, e.kind.isLink = false → (unpack d e dest).1.linked p q = true →
    p = q ∨ d.linked p q = true

def StaysBelow (root : RawPath) (before after : Disk) : Prop :=
  ∀ R, before.fs.lookup true (components root) false = .found R →
    ∀ q, ¬ R <+: q → after.fs.node q = before.fs.node q

def StepOk (root : RawPath) (start d : Disk) (e : Entry) : Prop :=
  ∀ R, start.fs.lookup true (components root) false = .found R →
    ∀ q, d.Reached (destination root e) q → R <+: q

def unpacked (kinds : Kind → Bool) (entries : List (Option Entry)) : ℕ :=
  entries.countP fun e => e.any fun e => !rejected e.path && kinds e.kind

section Runs

variable {unpack : Unpack} {root : RawPath} {start d : Disk} {entries : List (Option Entry)}

theorem unpackEntries_below (hunpack : WritesThere unpack) {count : ℕ}
    (hstart : StaysBelow root start d)
    (hsteps : EveryStep unpack root (StepOk root start) d entries) :
    StaysBelow root start (unpackEntries unpack root d count entries).1 := by
  induction entries generalizing d count with
  | nil => exact hstart
  | cons entry entries ih =>
    cases entry with
    | none => exact hstart
    | some e =>
      rw [EveryStep] at hsteps
      rw [unpackEntries]
      split_ifs at hsteps ⊢ with hrejected
      · exact ih hstart hsteps
      · obtain ⟨hstep, hrest⟩ := hsteps
        have hnext : StaysBelow root start (unpack d e (destination root e)).1 := by
          intro R hR q hq
          rw [hunpack.only d e _ q fun hreached => hq (hstep R hR q hreached), hstart R hR q hq]
        generalize unpack d e (destination root e) = answer at hrest hnext ⊢
        obtain ⟨d', - | -⟩ := answer
        · exact hnext
        · exact ih hnext (hrest rfl)

theorem unpackEntries_count {count n : ℕ} (hcount : count < 2 ^ 32)
    (h : (unpackEntries unpack root d count entries).2 = some n) :
    n = (count + unpacked (fun _ => true) entries) % 2 ^ 32 := by
  induction entries generalizing d count with
  | nil =>
    obtain rfl := Option.some.inj h
    exact (Nat.mod_eq_of_lt hcount).symm
  | cons entry entries ih =>
    cases entry with
    | none => cases h
    | some e =>
      rw [unpackEntries] at h
      rw [unpacked, List.countP_cons]
      split_ifs at h with hrejected
      · rw [ih hcount h, unpacked]
        simp [hrejected]
      · generalize unpack d e (destination root e) = answer at h
        obtain ⟨d', - | -⟩ := answer
        · cases h
        · rw [ih (Nat.mod_lt _ (by decide)) h, unpacked]
          simp [hrejected]
          omega

theorem unpacked_add (kinds : Kind → Bool) (entries : List (Option Entry)) :
    unpacked kinds entries + unpacked (fun k => !kinds k) entries =
      unpacked (fun _ => true) entries := by
  induction entries with
  | nil => rfl
  | cons entry entries ih =>
    unfold unpacked at ih ⊢
    rw [List.countP_cons, List.countP_cons, List.countP_cons, ← ih]
    cases entry with
    | none => simp
    | some e =>
      rcases Bool.eq_false_or_eq_true (rejected e.path) with hrejected | hrejected <;>
        rcases Bool.eq_false_or_eq_true (kinds e.kind) with hkind | hkind <;>
        simp [hrejected, hkind] <;> omega

theorem count_iff {n : ℕ} (h : (uploadCodebase unpack root d entries).2 = some n) :
    n = unpacked Kind.isFile entries ↔ unpacked Kind.isFile entries < 2 ^ 32 ∧
      2 ^ 32 ∣ unpacked (fun k => !k.isFile) entries := by
  have hn := unpackEntries_count (by decide) h
  have hadd := unpacked_add Kind.isFile entries
  rw [Nat.zero_add, ← hadd] at hn
  rw [hn]
  omega

end Runs

/-- No link stands in the sandbox nor on the path of its root, and its files have no names
elsewhere. -/
structure Calm (root : RawPath) (R : Place) (d : Disk) : Prop where
  root_ne : root ≠ []
  leads : Leads d.fs d.fs.cwd (components root)
  place : spelled d.fs.cwd (components root) = R
  links : ∀ q, R <+: q → ∀ target, d.fs.node q ≠ some (.link target)
  names : ∀ p q, R <+: p → d.linked p q = true → R <+: q

theorem steps_names (path : RawPath) (h : .parent ∉ steps path) :
    ∃ names : List Name, steps path = names.map .normal := by
  refine ⟨(steps path).filterMap fun c => match c with
    | .normal name => some name
    | _ => none, ?_⟩
  have hall : ∀ c ∈ steps path, ∃ name, c = .normal name := by
    intro c hc
    obtain ⟨name, -, hpiece⟩ := List.mem_filterMap.mp hc
    unfold piece at hpiece
    split_ifs at hpiece
    · obtain rfl := Option.some.inj hpiece
      exact absurd hc h
    · exact ⟨name, (Option.some.inj hpiece).symm⟩
  generalize steps path = cs at hall ⊢
  clear h
  induction cs with
  | nil => rfl
  | cons c cs ih =>
    obtain ⟨⟨name, rfl⟩, hrest⟩ := List.forall_mem_cons.mp hall
    rw [List.filterMap_cons]
    exact congrArg _ (ih hrest)

theorem destination_names {root : RawPath} (hroot : root ≠ []) {e : Entry}
    (he : rejected e.path = false) :
    ∃ names : List Name, destination root e = components root ++ names.map .normal := by
  rw [rejected, Bool.or_eq_false_iff, List.any_eq_false] at he
  obtain ⟨habsolute, hparent⟩ := he
  have hhead : e.path.head? ≠ some slash := beq_eq_false_iff_ne.mp habsolute
  obtain ⟨names, hnames⟩ := steps_names e.path fun hmem =>
    hparent .parent (List.mem_append_right _ hmem) (decide_eq_true rfl)
  refine ⟨names, ?_⟩
  rw [destination, components, lead_push hroot hhead, steps_push hhead, hnames, components,
    List.append_assoc]

section Calm

variable {unpack : Unpack} {root : RawPath} {R : Place} {d : Disk} {e : Entry}

theorem Calm.found (h : Calm root R d) {R' : Place}
    (hR : d.fs.lookup true (components root) false = .found R') : R' = R := by
  rw [(lookup_leadsTo h.leads.straight (.inl hR)).1, h.place]

theorem Calm.reached (h : Calm root R d) (he : rejected e.path = false) {q : Place}
    (hq : d.Reached (destination root e) q) : R <+: q := by
  obtain ⟨names, hnames⟩ := destination_names h.root_ne he
  obtain ⟨follow, p, hleads, hq⟩ := hq
  have hstraight : Straight d.fs d.fs.cwd (destination root e) := by
    intro q' hq'
    rw [hnames] at hq'
    rcases mem_trail_names.mp hq' with hq' | ⟨before, -, rfl⟩
    · exact h.leads.straight q' hq'
    · rw [h.place]
      exact h.links _ (List.prefix_append _ _)
  have hp : R <+: p := by
    rw [(lookup_leadsTo hstraight hleads).1, hnames, spelled_append, spelled_names, h.place]
    exact List.prefix_append _ _
  rcases hq with rfl | hlinked
  · exact hp
  · exact h.names p q hp hlinked

theorem Calm.next (hunpack : WritesThere unpack) (h : Calm root R d)
    (hlink : e.kind.isLink = false) (dest : List Component) : Calm root R (unpack d e dest).1 where
  root_ne := h.root_ne
  leads q hq := by
    rw [hunpack.cwd] at hq
    exact hunpack.dirs d e dest q (h.leads q hq)
  place := by rw [hunpack.cwd, h.place]
  links q hq target hnode := h.links q hq target (hunpack.links d e dest q target hlink hnode)
  names p q hp hlinked := by
    rcases hunpack.names d e dest p q hlink hlinked with rfl | hlinked
    · exact hp
    · exact h.names p q hp hlinked

theorem Calm.everyStep (hunpack : WritesThere unpack) {start : Disk} (hstart : Calm root R start)
    {entries : List (Option Entry)}
    (hentries : ∀ e, some e ∈ entries → rejected e.path = false → e.kind.isLink = false)
    (h : Calm root R d) : EveryStep unpack root (StepOk root start) d entries := by
  induction entries generalizing d with
  | nil => trivial
  | cons entry entries ih =>
    cases entry with
    | none => trivial
    | some e =>
      have hrest : ∀ e, some e ∈ entries → rejected e.path = false → e.kind.isLink = false :=
        fun e he => hentries e (List.mem_cons_of_mem _ he)
      rw [EveryStep]
      split_ifs with hrejected
      · exact ih hrest h
      · have he : rejected e.path = false := Bool.eq_false_iff.mpr hrejected
        refine ⟨fun R' hR' q hq => ?_, fun _ => ih hrest ?_⟩
        · rw [hstart.found hR']
          exact h.reached he hq
        · exact h.next hunpack (hentries e List.mem_cons_self he) _

end Calm

/-- **An upload stays below the root as long as each entry's path leads to what is below it**, which
it does in a sandbox without links while no entry is one; and the count is that of the files where
nothing else was unpacked. -/
theorem upload_below {unpack : Unpack} (hunpack : WritesThere unpack) (root : RawPath) (d : Disk)
    (entries : List (Option Entry)) :
    (EveryStep unpack root (StepOk root d) d entries →
      StaysBelow root d (uploadCodebase unpack root d entries).1) ∧
    (∀ R, Calm root R d →
      (∀ e, some e ∈ entries → rejected e.path = false → e.kind.isLink = false) →
      StaysBelow root d (uploadCodebase unpack root d entries).1) ∧
    ∀ n, (uploadCodebase unpack root d entries).2 = some n →
      (n = unpacked Kind.isFile entries ↔ unpacked Kind.isFile entries < 2 ^ 32 ∧
        2 ^ 32 ∣ unpacked (fun k => !k.isFile) entries) := by
  have hstart : StaysBelow root d d := fun _ _ _ _ => rfl
  exact ⟨unpackEntries_below hunpack hstart, fun R hcalm hentries =>
    unpackEntries_below hunpack hstart (hcalm.everyStep hunpack hentries hcalm),
    fun n => count_iff⟩

/-! ### A library that does so -/

section PlainUnpack

variable (d : Disk)

def Disk.create (p : Place) (node : Node) : Disk × Bool :=
  if d.fs.node p = none then
    (⟨d.fs.put p (some node), fun a b => a ≠ p && b ≠ p && d.linked a b⟩, true)
  else (d, false)

/-- What is at a place after the file at `p` was written. -/
def Disk.written (p : Place) (content : List UInt8) (q : Place) : Option Node :=
  match d.fs.node q with
  | some (.file old) => some (.file (if q = p ∨ d.linked p q = true then content else old))
  | node => node

def Disk.overwrite (p : Place) (content : List UInt8) : Disk × Bool :=
  (⟨⟨d.written p content, d.fs.cwd⟩, d.linked⟩, true)

/-- The file at `s` gets the name `p`. -/
def Disk.link (s p : Place) (content : List UInt8) : Disk × Bool :=
  if d.fs.node p = none then
    (⟨d.fs.put p (some (.file content)), fun a b =>
      if b = p then a = s || d.linked a s
      else if a = p then b = s || d.linked s b
      else d.linked a b⟩, true)
  else (d, false)

def plainUnpack : Unpack := fun d e dest =>
  match e.kind with
  | .file content =>
    match d.fs.lookup true dest false with
    | .found p => if d.fs.node p = some .dir then (d, false) else d.overwrite p content
    | .missing p => d.create p (.file content)
    | .error _ => (d, false)
  | .directory =>
    match d.fs.lookup false dest false with
    | .found p => (d, d.fs.node p == some .dir)
    | .missing p => d.create p .dir
    | .error _ => (d, false)
  | .symlink target =>
    match d.fs.lookup false dest false with
    | .missing p => d.create p (.link target)
    | _ => (d, false)
  | .hardLink target =>
    match d.fs.lookup false (components target) false, d.fs.lookup false dest false with
    | .found s, .missing p =>
      match d.fs.node s with
      | some (.file content) => d.link s p content
      | _ => (d, false)
    | _, _ => (d, false)

variable {d}

/-- What a step of the library has left as it was. -/
structure Wrote (d : Disk) (link : Bool) (reached : Place → Prop) (d' : Disk) : Prop where
  only : ∀ q, ¬ reached q → d'.fs.node q = d.fs.node q
  cwd : d'.fs.cwd = d.fs.cwd
  dirs : ∀ q, d.fs.node q = some .dir → d'.fs.node q = some .dir
  links : ∀ q target, link = false → d'.fs.node q = some (.link target) →
    d.fs.node q = some (.link target)
  names : ∀ p q, link = false → d'.linked p q = true → p = q ∨ d.linked p q = true

variable {link : Bool} {reached : Place → Prop} {p : Place}

theorem Wrote.refl : Wrote d link reached d :=
  ⟨fun _ _ => rfl, rfl, fun _ => id, fun _ _ _ => id, fun _ _ _ => .inr⟩

theorem wrote_put (hp : reached p) {node : Node} (hfree : d.fs.node p = none)
    (hnode : ∀ target, node = .link target → link = true) {linked : Place → Place → Bool}
    (hlinked : ∀ a b, link = false → linked a b = true → d.linked a b = true) :
    Wrote d link reached ⟨d.fs.put p (some node), linked⟩ where
  only q hq := Fs.put_of_ne (by rintro rfl; exact hq hp) _
  cwd := rfl
  dirs q hq := (Fs.put_of_ne (by rintro rfl; exact nomatch hfree.symm.trans hq) _).trans hq
  links q target hlink hq := by
    by_cases heq : q = p
    · rw [heq, Fs.put_self] at hq
      rw [hnode target (Option.some.inj hq)] at hlink
      cases hlink
    · exact (Fs.put_of_ne heq _).symm.trans hq
  names a b hlink hab := .inr (hlinked a b hlink hab)

theorem wrote_create (hp : reached p) {node : Node}
    (hnode : ∀ target, node = .link target → link = true) :
    Wrote d link reached (d.create p node).1 := by
  unfold Disk.create
  split_ifs with hfree
  · refine wrote_put hp hfree hnode fun a b _ hab => ?_
    exact (Bool.and_eq_true_iff.mp hab).2
  · exact .refl

theorem wrote_link (hp : reached p) (s : Place) (content : List UInt8) :
    Wrote d true reached (d.link s p content).1 := by
  unfold Disk.link
  split_ifs with hfree
  · exact wrote_put hp hfree (fun _ _ => rfl) fun _ _ hlink => nomatch hlink
  · exact .refl

theorem wrote_overwrite (content : List UInt8)
    (hp : ∀ q, q = p ∨ d.linked p q = true → reached q) :
    Wrote d link reached (d.overwrite p content).1 where
  only q hq := by
    show d.written p content q = d.fs.node q
    rw [Disk.written]
    split
    · next old hnode =>
      rw [if_neg fun h => hq (hp q h), hnode]
    · rfl
  cwd := rfl
  dirs q hq := by
    show d.written p content q = some .dir
    rw [Disk.written, hq]
  links q target _ hq := by
    change d.written p content q = some (.link target) at hq
    rw [Disk.written] at hq
    split at hq
    · cases hq
    · exact hq
  names a b _ hab := .inr hab

theorem plainUnpack_wrote (d : Disk) (e : Entry) (dest : List Component) :
    Wrote d e.kind.isLink (d.Reached dest) (plainUnpack d e dest).1 := by
  have hplace : ∀ {follow p}, (d.fs.lookup follow dest false).LeadsTo p → d.Reached dest p :=
    fun h => ⟨_, _, h, .inl rfl⟩
  obtain ⟨path, kind⟩ := e
  unfold plainUnpack
  cases kind with
  | file content =>
    dsimp only
    split
    · next p hfound =>
      split_ifs
      · exact .refl
      · exact wrote_overwrite content fun q hq => ⟨true, p, .inl hfound, hq⟩
    · next p hmissing => exact wrote_create (hplace (.inr hmissing)) nofun
    · exact .refl
  | directory =>
    dsimp only
    split
    · exact .refl
    · next p hmissing => exact wrote_create (hplace (.inr hmissing)) nofun
    · exact .refl
  | symlink target =>
    dsimp only
    split
    · next p hmissing => exact wrote_create (hplace (.inr hmissing)) fun _ _ => rfl
    · exact .refl
  | hardLink target =>
    dsimp only
    split
    · next s p _ hmissing =>
      split
      · exact wrote_link (hplace (.inr hmissing)) s _
      · exact .refl
    · exact .refl

theorem plainUnpack_writesThere : WritesThere plainUnpack where
  only d e dest := (plainUnpack_wrote d e dest).only
  cwd d e dest := (plainUnpack_wrote d e dest).cwd
  dirs d e dest := (plainUnpack_wrote d e dest).dirs
  links d e dest := (plainUnpack_wrote d e dest).links
  names d e dest := (plainUnpack_wrote d e dest).names

end PlainUnpack

def sandboxRoot : RawPath := ofString "/sandbox"

def passwd : Place := [ofString "etc", ofString "passwd"]

def newSandbox : Disk where
  fs := .ofEntries [([ofString "sandbox"], .dir), ([ofString "etc"], .dir), (passwd, .file [0])]
  linked _ _ := false

theorem newSandbox_calm : Calm sandboxRoot [ofString "sandbox"] newSandbox where
  root_ne := by decide
  leads := by
    show ∀ q ∈ trail newSandbox.fs.cwd (components sandboxRoot), newSandbox.fs.node q = some .dir
    decide
  place := by decide
  links q _ target hlink := by
    have hall : ∀ e ∈ [([ofString "sandbox"], Node.dir), ([ofString "etc"], .dir),
        (passwd, .file [0])], ∀ target, e.2 ≠ .link target := by
      simp
    change (if q = [] then some Node.dir else _) = some (Node.link target) at hlink
    split_ifs at hlink
    · cases hlink
    · obtain ⟨e, he, hnode⟩ := Option.map_eq_some_iff.mp hlink
      exact hall e (List.mem_of_find?_eq_some he) target hnode
  names _ _ _ hlinked := nomatch hlinked

def sources : List (Option Entry) :=
  [some ⟨ofString "src/", .directory⟩, some ⟨ofString "src/main.rs", .file [1]⟩]

theorem upload_below_sources :
    StaysBelow sandboxRoot newSandbox
      (uploadCodebase plainUnpack sandboxRoot newSandbox sources).1 :=
  (upload_below plainUnpack_writesThere sandboxRoot newSandbox sources).2.1 _ newSandbox_calm
    fun e he _ => by
      rcases List.mem_pair.mp he with h | h <;> cases h <;> rfl

/-- A link out of the sandbox, and a file below its name. -/
def escaping : List (Option Entry) :=
  [some ⟨ofString "out", .symlink (ofString "/etc")⟩, some ⟨ofString "out/passwd", .file []⟩]

/-- The file outside is overwritten. -/
theorem not_below : ¬ ∀ unpack, WritesThere unpack → ∀ root d entries,
    StaysBelow root d (uploadCodebase unpack root d entries).1 ∧
      ∀ n, (uploadCodebase unpack root d entries).2 = some n →
        n = unpacked Kind.isFile entries := by
  intro h
  have hbelow := (h plainUnpack plainUnpack_writesThere sandboxRoot newSandbox escaping).1
  have hkept := hbelow [ofString "sandbox"] (by decide) passwd (by decide)
  revert hkept
  decide

end Mowis.Executor.Upload
