import Mowis.Lib.Unwinding
import Mowis.Tools.Storage

/-!
# The stores of two sandboxes

What a run of the storage and file tools in one sandbox does to the entries of another one, and
what it can find out about them.
-/

namespace Mowis.Tools.Storage

open Mowis.Lib Mowis.Lib.UnixPath Mowis.Lib.Symlink
open Mowis.Review (Json showNat)

variable {ρ : Type*} {lib : Libraries} {ctx : ToolContext} {other : ℕ}

def SameEntries (sandboxId : ℕ) (s t : Store) : Prop :=
  ∀ key, Owned sandboxId key →
    t.memory.lookup key = s.memory.lookup key ∧ t.secrets.lookup key = s.secrets.lookup key

/-- Two stores differ in the entries of a sandbox only. -/
structure Alike (sandboxId : ℕ) (s t : Store) : Prop where
  fs : t.fs = s.fs
  memory : ∀ key, ¬ Owned sandboxId key → t.memory.lookup key = s.memory.lookup key
  secrets : ∀ key, ¬ Owned sandboxId key → t.secrets.lookup key = s.secrets.lookup key

def act (lib : Libraries) (ctx : ToolContext) (s : Store) (call : Call ρ) :
    Store × (Result ρ × Fs) :=
  let (s', result) := invoke lib ctx s call
  (s', (result, s'.fs))

/-- A run of the sandbox of `ctx` is isolated from another sandbox. -/
structure Isolated (lib : Libraries) (ctx : ToolContext) (other : ℕ) (s : Store)
    (calls : List (Call ρ)) : Prop where
  untouched : ∀ t ∈ visited (act lib ctx) s calls, SameEntries other s t
  unseen : ∀ t, Alike other s t →
    observations (act lib ctx) t calls = observations (act lib ctx) s calls

def Transfers (lib : Libraries) (ctx : ToolContext) (s : Store) : Call ρ → Prop
  | .memorySave input => ∃ path, input.getStr "path".toList = some path ∧
    (writeText ctx s path (lib.toStringPretty s.memory)).2 = .ok ()
  | .memoryLoad input => ∃ path, input.getStr "path".toList = some path ∧
    ∃ data, readMap lib ctx s path = .ok data
  | _ => False

theorem scopedKey_eq (sandboxId : ℕ) (key : Text) :
    scopedKey sandboxId key = keyPrefix sandboxId ++ key := by
  rw [scopedKey, keyPrefix, List.append_assoc]
  rfl

theorem owned_scopedKey (sandboxId : ℕ) (key : Text) : Owned sandboxId (scopedKey sandboxId key) :=
  ⟨key, (scopedKey_eq sandboxId key).symm⟩

theorem takeWhile_scopedKey (sandboxId : ℕ) (key : Text) :
    (scopedKey sandboxId key).takeWhile Char.isDigit = showNat sandboxId := by
  rw [scopedKey, List.takeWhile_append_of_pos, List.takeWhile_cons_of_neg (by decide),
    List.append_nil]
  exact fun c hc => Nat.isDigit_of_mem_toDigits (by decide) (by decide) hc

theorem Owned.eq {a b : ℕ} {key : Text} (ha : Owned a key) (hb : Owned b key) : a = b := by
  obtain ⟨x, hx⟩ := ha
  obtain ⟨y, hy⟩ := hb
  have hdigits : showNat a = showNat b := by
    rw [← takeWhile_scopedKey a x, ← takeWhile_scopedKey b y, scopedKey_eq, scopedKey_eq, hx, hy]
  have hnum := congrArg (fun ds => Nat.ofDigitChars 10 ds 0) hdigits
  simpa [showNat] using hnum

theorem exists_owned_notMem (sandboxId : ℕ) (bad : List Text) :
    ∃ key, Owned sandboxId key ∧ key ∉ bad := by
  have hinj : Function.Injective fun n => scopedKey sandboxId (List.replicate n 'x') := by
    intro m n h
    have hlength := congrArg List.length h
    simpa [scopedKey] using hlength
  obtain ⟨n, hn⟩ := Infinite.exists_notMem_finset
    (bad.toFinset.preimage _ hinj.injOn)
  refine ⟨_, owned_scopedKey sandboxId (List.replicate n 'x'), fun hmem => hn ?_⟩
  exact Finset.mem_preimage.mpr (List.mem_toFinset.mpr hmem)

/-! ### The one write of a call -/

/-- A write to an entry. -/
inductive Write where
  | none
  | setMemory (key : Text) (value : Json)
  | deleteMemory (key : Text)
  | setSecret (key value : Text)

def Write.key? : Write → Option Text
  | .none => Option.none
  | .setMemory key _ | .deleteMemory key | .setSecret key _ => some key

def Write.apply (s : Store) : Write → Store
  | .none => s
  | .setMemory key value => { s with memory := s.memory.insert key value }
  | .deleteMemory key => { s with memory := s.memory.erase key }
  | .setSecret key value => { s with secrets := s.secrets.insert key value }

section Step

variable {s t : Store} {call : Call ρ}

theorem Alike.refl (s : Store) : Alike other s s := ⟨rfl, fun _ _ => rfl, fun _ _ => rfl⟩

theorem not_owned_of_owned (hne : other ≠ ctx.sandboxId) {key : Text}
    (hkey : Owned ctx.sandboxId key) : ¬ Owned other key := fun hother => hne (hother.eq hkey)

theorem Write.sameEntries (hne : other ≠ ctx.sandboxId) {w : Write} (fs : Fs)
    (hw : ∀ key, w.key? = some key → Owned ctx.sandboxId key) :
    SameEntries other s (w.apply { s with fs }) := by
  intro key hkey
  have hother : ∀ key', w.key? = some key' → key ≠ key' := by
    rintro key' hkey' rfl
    exact not_owned_of_owned hne (hw key hkey') hkey
  cases w with
  | none => exact ⟨rfl, rfl⟩
  | setMemory key' value => exact ⟨AList.lookup_insert_ne (hother key' rfl), rfl⟩
  | deleteMemory key' => exact ⟨AList.lookup_erase_ne (hother key' rfl), rfl⟩
  | setSecret key' value => exact ⟨rfl, AList.lookup_insert_ne (hother key' rfl)⟩

theorem Write.alike (h : Alike other s t) (w : Write) (fs : Fs) :
    Alike other (w.apply { s with fs }) (w.apply { t with fs }) := by
  cases w with
  | none => exact ⟨rfl, h.memory, h.secrets⟩
  | setMemory key value =>
    refine ⟨rfl, fun key' hkey' => ?_, h.secrets⟩
    show (t.memory.insert key value).lookup key' = (s.memory.insert key value).lookup key'
    rw [HashMap.lookup_insert_eq_ite, HashMap.lookup_insert_eq_ite, h.memory key' hkey']
  | deleteMemory key =>
    refine ⟨rfl, fun key' hkey' => ?_, h.secrets⟩
    show (t.memory.erase key).lookup key' = (s.memory.erase key).lookup key'
    rw [HashMap.lookup_erase_eq_ite, HashMap.lookup_erase_eq_ite, h.memory key' hkey']
  | setSecret key value =>
    refine ⟨rfl, h.memory, fun key' hkey' => ?_⟩
    show (t.secrets.insert key value).lookup key' = (s.secrets.insert key value).lookup key'
    rw [HashMap.lookup_insert_eq_ite, HashMap.lookup_insert_eq_ite, h.secrets key' hkey']

def SameWrite (sandboxId : ℕ) (s t : Store) (x y : Store × Result ρ) : Prop :=
  ∃ (w : Write) (fs : Fs) (r : Result ρ), (∀ key, w.key? = some key → Owned sandboxId key) ∧
    x = (w.apply { s with fs }, r) ∧ y = (w.apply { t with fs }, r)

theorem sameWrite_none {sandboxId : ℕ} (hfs : t.fs = s.fs) (r : Result ρ) :
    SameWrite sandboxId s t (s, r) (t, r) := by
  refine ⟨.none, s.fs, r, nofun, rfl, ?_⟩
  rw [← hfs]
  rfl

theorem SameWrite.withField {sandboxId : ℕ} (hfs : t.fs = s.fs) {tool field : String}
    {value : Option Text} {f g : Text → Store × Result ρ}
    (h : ∀ x, value = some x → SameWrite sandboxId s t (f x) (g x)) :
    SameWrite sandboxId s t (withField s tool field value f) (withField t tool field value g) := by
  cases value with
  | none => exact sameWrite_none hfs _
  | some x => exact h x rfl

theorem write_of_not_ok {w : World} {p : Place} {content : List UInt8}
    (h : (w.write p content false).2 ≠ .ok ()) (content' : List UInt8) :
    w.write p content' false = w.write p content false := by
  unfold World.write at h ⊢
  split at h
  · split at h
    · exact absurd rfl h
    · rfl
  · exact absurd rfl h
  · rfl

theorem writeText_of_not_ok (hfs : t.fs = s.fs) {path content : Text}
    (h : (writeText ctx s path content).2 ≠ .ok ()) (content' : Text) :
    writeText ctx t path content' = writeText ctx s path content := by
  unfold writeText at h ⊢
  rw [hfs]
  split
  · rfl
  · next p hp =>
    rw [hp] at h
    dsimp only at h
    split
    · rfl
    · next w hw =>
      rw [hw] at h
      dsimp only at h
      have hwrite : (w.write p (utf8 content) false).2 ≠ .ok () := by
        intro hok
        apply h
        rcases hw' : w.write p (utf8 content) false with ⟨w', r⟩
        rw [hw'] at hok
        cases hok
        rfl
      rw [write_of_not_ok hwrite]

theorem readMap_congr (hfs : t.fs = s.fs) (path : Text) :
    readMap lib ctx t path = readMap lib ctx s path := by
  unfold readMap
  rw [hfs]

theorem keys_perm (hne : other ≠ ctx.sandboxId) (h : Alike other s t) :
    (t.memory.keys.filter fun key => decide (Owned ctx.sandboxId key)).Perm
      (s.memory.keys.filter fun key => decide (Owned ctx.sandboxId key)) := by
  refine (List.perm_ext_iff_of_nodup (t.memory.keys_nodup.filter _)
    (s.memory.keys_nodup.filter _)).mpr fun key => ?_
  simp only [List.mem_filter, decide_eq_true_eq]
  refine and_congr_left fun hkey => ?_
  show key ∈ t.memory ↔ key ∈ s.memory
  rw [← AList.lookup_isSome, ← AList.lookup_isSome, h.memory key (not_owned_of_owned hne hkey)]

/-- **A call that is no transfer** answers by the entries of its own sandbox and the files, and
writes to one entry of its own at most. -/
theorem sameWrite_invoke (hne : other ≠ ctx.sandboxId) (h : Alike other s t)
    (hcall : ¬ Transfers lib ctx s call) :
    SameWrite ctx.sandboxId s t (invoke lib ctx s call) (invoke lib ctx t call) := by
  have hmemory : ∀ key, t.memory.lookup (scopedKey ctx.sandboxId key) =
      s.memory.lookup (scopedKey ctx.sandboxId key) := fun key =>
    h.memory _ (not_owned_of_owned hne (owned_scopedKey _ key))
  have hsecrets : ∀ key, t.secrets.lookup (scopedKey ctx.sandboxId key) =
      s.secrets.lookup (scopedKey ctx.sandboxId key) := fun key =>
    h.secrets _ (not_owned_of_owned hne (owned_scopedKey _ key))
  have howned : ∀ {key x}, some (scopedKey ctx.sandboxId key) = some x → Owned ctx.sandboxId x := by
    rintro key x ⟨⟩
    exact owned_scopedKey _ key
  have hself : ({ t with fs := s.fs } : Store) = t := by rw [← h.fs]
  cases call with
  | memorySet input =>
    refine SameWrite.withField h.fs fun key _ => ?_
    dsimp only
    split
    · exact sameWrite_none h.fs _
    · exact ⟨.setMemory _ _, s.fs, _, fun _ hx => howned hx, rfl, by rw [hself]; rfl⟩
  | memoryGet input =>
    refine SameWrite.withField h.fs fun key _ => ?_
    rw [hmemory]
    exact sameWrite_none h.fs _
  | memoryDelete input =>
    refine SameWrite.withField h.fs fun key _ => ?_
    dsimp only
    rw [hmemory]
    exact ⟨.deleteMemory _, s.fs, _, fun _ hx => howned hx, rfl, by rw [hself]; rfl⟩
  | memoryList =>
    have hperm := keys_perm hne h
    have hkeys := Multiset.coe_eq_coe.mpr
      (hperm.map fun key => key.drop (keyPrefix ctx.sandboxId).length)
    show SameWrite _ s t (memoryList ctx s) (memoryList ctx t)
    rw [memoryList, memoryList, hkeys, hperm.length_eq]
    exact sameWrite_none h.fs _
  | memorySave input =>
    refine SameWrite.withField h.fs fun path hpath => ?_
    have hfails : (writeText ctx s path (lib.toStringPretty s.memory)).2 ≠ .ok () :=
      fun hok => hcall ⟨path, hpath, hok⟩
    rw [writeText_of_not_ok h.fs hfails]
    rcases hw : writeText ctx s path (lib.toStringPretty s.memory) with ⟨fs, r⟩
    rw [hw] at hfails
    cases r with
    | error e => exact ⟨.none, fs, .error e, nofun, rfl, rfl⟩
    | ok u => exact absurd rfl hfails
  | memoryLoad input =>
    refine SameWrite.withField h.fs fun path hpath => ?_
    rw [readMap_congr h.fs]
    cases hread : readMap lib ctx s path with
    | error e => exact sameWrite_none h.fs _
    | ok data => exact absurd ⟨path, hpath, data, hread⟩ hcall
  | secretSet input nonce =>
    refine SameWrite.withField h.fs fun name _ => SameWrite.withField h.fs fun value _ => ?_
    exact ⟨.setSecret _ _, s.fs, _, fun _ hx => howned hx, rfl, by rw [hself]; rfl⟩
  | secretGet input =>
    refine SameWrite.withField h.fs fun name _ => ?_
    rw [hsecrets]
    cases s.secrets.lookup (scopedKey ctx.sandboxId name) <;> exact sameWrite_none h.fs _
  | file tool =>
    refine ⟨.none, (tool ctx.rootPath s.fs).1, _, nofun, rfl, ?_⟩
    rw [invoke, h.fs]
    rfl

theorem act_eq (hne : other ≠ ctx.sandboxId) (h : Alike other s t)
    (hcall : ¬ Transfers lib ctx s call) :
    ∃ (w : Write) (fs : Fs) (r : Result ρ),
      (∀ key, w.key? = some key → Owned ctx.sandboxId key) ∧
      act lib ctx s call = (w.apply { s with fs }, r, fs) ∧
      act lib ctx t call = (w.apply { t with fs }, r, fs) := by
  obtain ⟨w, fs, r, hw, hs, ht⟩ := sameWrite_invoke hne h hcall
  have hfs : ∀ u : Store, (w.apply { u with fs }).fs = fs := by
    intro u
    cases w <;> rfl
  refine ⟨w, fs, r, hw, ?_, ?_⟩
  · rw [act, hs]
    exact congrArg (fun fs => (_, r, fs)) (hfs s)
  · rw [act, ht]
    exact congrArg (fun fs => (_, r, fs)) (hfs t)

end Step

section Transfer

variable {s t : Store} {call : Call ρ} {key : Text}

/-- The other sandbox has one entry more. -/
structure OneMore (other : ℕ) (key : Text) (s t : Store) : Prop where
  owned : Owned other key
  fresh : key ∉ s.memory
  keys : ∀ key', key' ∈ t.memory ↔ key' = key ∨ key' ∈ s.memory
  alike : Alike other s t

theorem len_oneMore {V W : Type*} {m : HashMap Text V} {m' : HashMap Text W} (hfresh : key ∉ m)
    (hkeys : ∀ key', key' ∈ m' ↔ key' = key ∨ key' ∈ m) : len m' = len m + 1 := by
  have hperm : m'.keys.Perm (key :: m.keys) := by
    refine (List.perm_ext_iff_of_nodup m'.keys_nodup
      (List.nodup_cons.mpr ⟨hfresh, m.keys_nodup⟩)).mpr fun key' => ?_
    rw [List.mem_cons]
    exact hkeys key'
  exact hperm.length_eq

theorem mem_extend (memory data : HashMap Text Json) (key : Text) :
    key ∈ extend memory data ↔ key ∈ data.keys ∨ key ∈ memory := by
  have hfold : ∀ (entries : List (Sigma fun _ : Text => Json)) (m : HashMap Text Json),
      key ∈ entries.foldl (fun m e => m.insert e.1 e.2) m ↔
        key ∈ entries.map Sigma.fst ∨ key ∈ m := by
    intro entries
    induction entries with
    | nil => simp
    | cons e entries ih =>
      intro m
      rw [List.foldl_cons, ih, AList.mem_insert, List.map_cons, List.mem_cons]
      tauto
  exact hfold data.entries memory

theorem OneMore.write (h : OneMore other key s t) (hne : other ≠ ctx.sandboxId) {w : Write}
    (fs : Fs) (hw : ∀ key, w.key? = some key → Owned ctx.sandboxId key) :
    OneMore other key (w.apply { s with fs }) (w.apply { t with fs }) := by
  have hother : ∀ key', w.key? = some key' → key ≠ key' := by
    rintro key' hkey' rfl
    exact not_owned_of_owned hne (hw key hkey') h.owned
  refine ⟨h.owned, ?_, ?_, Write.alike h.alike w fs⟩
  · cases w with
    | none => exact h.fresh
    | setMemory key' value =>
      intro hmem
      rcases (AList.mem_insert _).mp hmem with heq | hmem
      · exact hother key' rfl heq
      · exact h.fresh hmem
    | deleteMemory key' => exact fun hmem => h.fresh (AList.mem_erase.mp hmem).2
    | setSecret key' value => exact h.fresh
  · intro x
    cases w with
    | none => exact h.keys x
    | setMemory key' value =>
      refine (AList.mem_insert _).trans (Iff.trans ?_ (or_congr_right (AList.mem_insert _).symm))
      rw [h.keys]
      tauto
    | deleteMemory key' =>
      refine AList.mem_erase.trans (Iff.trans ?_ (or_congr_right AList.mem_erase.symm))
      rw [h.keys]
      constructor
      · tauto
      · rintro (rfl | hx)
        · exact ⟨hother key' rfl, .inl rfl⟩
        · exact ⟨hx.1, .inr hx.2⟩
    | setSecret key' value => exact h.keys x

theorem transfer_ne (hcall : Transfers lib ctx s call) :
    ∃ bad : List Text, ∀ key ∉ bad, ∀ t, OneMore other key s t →
      (act lib ctx t call).2 ≠ (act lib ctx s call).2 := by
  cases call with
  | memorySave input =>
    obtain ⟨path, hpath, hok⟩ := hcall
    refine ⟨[], fun key _ t hmore heq => ?_⟩
    have hlen := len_oneMore hmore.fresh hmore.keys
    have hok' : (writeText ctx t path (lib.toStringPretty t.memory)).2 = .ok () := by
      by_contra hfails
      rw [← writeText_of_not_ok hmore.alike.fs.symm hfails (lib.toStringPretty s.memory)] at hfails
      exact hfails hok
    have hanswer : ∀ u : Store, (writeText ctx u path (lib.toStringPretty u.memory)).2 = .ok () →
        (act lib ctx u (.memorySave input : Call ρ)).2.1 = .ok (.saved (len u.memory)) := by
      intro u hu
      rcases hw : writeText ctx u path (lib.toStringPretty u.memory) with ⟨fs, r⟩
      rw [hw] at hu
      cases hu
      simp only [act, invoke, memorySave, withField, hpath, hw]
    have hsaved := (hanswer t hok').symm.trans ((congrArg Prod.fst heq).trans (hanswer s hok))
    have hcount : len t.memory = len s.memory := Output.saved.inj (Except.ok.inj hsaved)
    omega
  | memoryLoad input =>
    obtain ⟨path, hpath, data, hread⟩ := hcall
    refine ⟨data.keys, fun key hkey t hmore heq => ?_⟩
    have hfresh : key ∉ extend s.memory data :=
      fun hmem => ((mem_extend _ _ _).mp hmem).elim hkey hmore.fresh
    have hlen : len (extend t.memory data) = len (extend s.memory data) + 1 := by
      refine len_oneMore hfresh fun key' => ?_
      rw [mem_extend, mem_extend, hmore.keys]
      tauto
    have hanswer : ∀ u : Store, u.fs = s.fs → (act lib ctx u (.memoryLoad input : Call ρ)).2.1 =
        .ok (.loaded (len data) (len (extend u.memory data))) := by
      intro u hu
      have hreads : readMap lib ctx u path = .ok data := (readMap_congr hu path).trans hread
      simp only [act, invoke, memoryLoad, withField, hpath, hreads]
    have hloaded := (hanswer t hmore.alike.fs).symm.trans
      ((congrArg Prod.fst heq).trans (hanswer s rfl))
    have hcount := (Output.loaded.inj (Except.ok.inj hloaded)).2
    omega
  | memorySet | memoryGet | memoryDelete | memoryList | secretSet | secretGet | file =>
    exact hcall.elim

end Transfer

/-- **The storage tools.**  A run of one sandbox leaves the entries of another one alone and cannot
tell what they are if and only if none of its calls saves the stores or loads into them. -/
theorem isolated_iff (hne : other ≠ ctx.sandboxId) (s : Store) (calls : List (Call ρ)) :
    Isolated lib ctx other s calls ↔
      Along (act lib ctx) (fun s call => ¬ Transfers lib ctx s call) s calls := by
  constructor
  · intro hisolated
    by_contra hnot
    have hkeep : ∀ key u t call, OneMore other key u t → ¬ Transfers lib ctx u call →
        OneMore other key (act lib ctx u call).1 (act lib ctx t (call : Call ρ)).1 := by
      intro key u t call hmore hcall
      obtain ⟨w, fs, r, hw, hu, ht⟩ := act_eq hne hmore.alike hcall
      rw [hu, ht]
      exact hmore.write hne fs hw
    obtain ⟨bad, hbad⟩ := observations_ne_of_not_along hkeep
      (fun u call hcall => transfer_ne (not_not.mp hcall)) calls hnot
    obtain ⟨key, howned, hkey⟩ := exists_owned_notMem other (bad ++ s.memory.keys)
    rw [List.mem_append, not_or] at hkey
    have hmore : OneMore other key s { s with memory := s.memory.insert key .null } := by
      refine ⟨howned, hkey.2, fun key' => AList.mem_insert _, rfl, fun key' hkey' => ?_,
        fun _ _ => rfl⟩
      refine AList.lookup_insert_ne ?_
      rintro rfl
      exact hkey' howned
    exact hbad key hkey.1 _ hmore (hisolated.unseen _ hmore.alike)
  · intro hok
    refine ⟨visited_of_along (fun u call hu hcall => ?_) calls (fun _ _ => ⟨rfl, rfl⟩) hok,
      fun t ht => observations_congr (fun u t call hu hcall => ?_) calls ht hok⟩
    · obtain ⟨w, fs, r, hw, hact, -⟩ := act_eq hne (Alike.refl u) hcall
      rw [hact]
      intro key hkey
      obtain ⟨hmemory, hsecrets⟩ := Write.sameEntries hne fs hw key hkey
      exact ⟨hmemory.trans (hu key hkey).1, hsecrets.trans (hu key hkey).2⟩
    · obtain ⟨w, fs, r, hw, hact, hact'⟩ := act_eq hne hu hcall
      rw [hact, hact']
      exact ⟨rfl, Write.alike hu w fs⟩

def forgedText : Text := "\x7b\"2:k\":1\x7d".toList

def forgedMap : HashMap Text Json := (∅ : HashMap Text Json).insert "2:k".toList (.number "1".toList)

/-- A JSON library that knows plain strings and one file, and a cipher without its key. -/
def plainLibraries : Libraries where
  toString
    | .string t => '"' :: t ++ ['"']
    | _ => []
  toStringPretty _ := []
  fromStr content := if content = forgedText then some forgedMap else none
  encrypt _ _ := none
  decrypt _ := none

/-- A container with a file in it that names a key of sandbox 2. -/
def forgedStore : Store :=
  ⟨∅, ∅, .ofEntries [([ofString "c"], .dir), ([ofString "c", ofString "m"], .file (utf8 forgedText))]⟩

def sandboxOne : ToolContext := ⟨1, some (ofString "/c")⟩

theorem isolated_memorySet : Isolated plainLibraries sandboxOne 2 forgedStore
    [(.memorySet (.object [("key".toList, .string "k".toList), ("value".toList, .string [])]) :
      Call Unit), .memoryList] :=
  (isolated_iff (by decide) _ _).mpr ⟨id, id, trivial⟩

/-- Sandbox 1 loads its file, and sandbox 2 has an entry. -/
theorem not_isolated : ¬ ∀ (lib : Libraries) (ctx : ToolContext) (other : ℕ) (s : Store)
    (calls : List (Call Unit)), other ≠ ctx.sandboxId → Isolated lib ctx other s calls := by
  intro hall
  let load : Call Unit := .memoryLoad (.object [("path".toList, .string "m".toList)])
  have hisolated := hall plainLibraries sandboxOne 2 forgedStore [load] (by decide)
  have hpath : resolvePath forgedStore.fs (base sandboxOne.rootPath) (utf8 "m".toList) =
      .ok [ofString "c", ofString "m"] := by decide
  have hbytes : (World.read ⟨forgedStore.fs, []⟩ [ofString "c", ofString "m"]).2 =
      .ok (utf8 forgedText) := by decide
  have hread : readMap plainLibraries sandboxOne forgedStore "m".toList = .ok forgedMap := by
    have hdecode : decodeUtf8 (utf8 forgedText) = some forgedText := decodeUtf8_eq_some.mpr rfl
    simp only [readMap, hpath, Except.mapError, bind, Except.bind, hbytes, hdecode]
    rfl
  have hload : (act plainLibraries sandboxOne forgedStore load).1.memory = extend ∅ forgedMap := by
    show (memoryLoad plainLibraries sandboxOne forgedStore
      (.object [("path".toList, .string "m".toList)]) : Store × Result Unit).1.memory = _
    have hpathField : (Json.object [("path".toList, Json.string "m".toList)]).getStr
        "path".toList = some "m".toList := rfl
    simp only [memoryLoad, hpathField, withField, hread]
    rfl
  have hsame := (hisolated.untouched _ (List.mem_cons_of_mem _ List.mem_cons_self) "2:k".toList
    (by decide)).1
  rw [hload] at hsame
  exact Option.some_ne_none _ hsame

end Mowis.Tools.Storage
