import Mathlib

/-!
# Trees of directories and regular files

Names and contents are arbitrary types.  A directory lists its entries in the order
in which they are read.
-/

namespace Mowis.Lib

variable {N C : Type}

inductive Tree (N C : Type) where
  | file (content : C)
  | dir (entries : List (N × Tree N C))

def Tree.isDir : Tree N C → Bool
  | .file _ => false
  | .dir _ => true

/-- The entries of a directory. -/
abbrev Entries (N C : Type) := List (N × Tree N C)

/-- Why an operation on a tree fails. -/
inductive TreeError where
  | notADirectory
  | isADirectory
  | alreadyExists
  | notFound
  deriving DecidableEq, Repr

section Lookup

variable [DecidableEq N]

def entry : Entries N C → N → Option (Tree N C)
  | [], _ => none
  | (m, t) :: rest, n => if m = n then some t else entry rest n

def setEntry : Entries N C → N → Tree N C → Entries N C
  | [], n, t => [(n, t)]
  | (m, u) :: rest, n, t => if m = n then (n, t) :: rest else (m, u) :: setEntry rest n t

@[simp] theorem entry_setEntry (es : Entries N C) (n m : N) (t : Tree N C) :
    entry (setEntry es n t) m = if m = n then some t else entry es m := by
  induction es with
  | nil => simp [setEntry, entry, eq_comm]
  | cons e es ih =>
    obtain ⟨k, u⟩ := e
    by_cases hkn : k = n
    · subst hkn
      by_cases hm : m = k
      · simp [setEntry, entry, hm]
      · simp [setEntry, entry, hm, Ne.symm hm]
    · by_cases hkm : k = m
      · subst hkm
        simp [setEntry, entry, hkn]
      · simp [setEntry, entry, hkn, hkm, ih]

def Tree.fileAt : Tree N C → List N → Option C
  | .file c, [] => some c
  | .file _, _ :: _ => none
  | .dir _, [] => none
  | .dir es, n :: p =>
    match entry es n with
    | some t => t.fileAt p
    | none => none

def Tree.dirAt : Tree N C → List N → Bool
  | .file _, _ => false
  | .dir _, [] => true
  | .dir es, n :: p =>
    match entry es n with
    | some t => t.dirAt p
    | none => false

def chain : List N → Tree N C
  | [] => .dir []
  | n :: p => .dir [(n, chain p)]

def createDirAll : List N → Tree N C → Except TreeError (Tree N C)
  | [], .dir es => .ok (.dir es)
  | [], .file _ => .error .alreadyExists
  | _ :: _, .file _ => .error .notADirectory
  | n :: p, .dir es =>
    match entry es n with
    | none => .ok (.dir (setEntry es n (chain p)))
    | some t =>
      match createDirAll p t with
      | .ok t' => .ok (.dir (setEntry es n t'))
      | .error e => .error e

def writeFile : List N → C → Tree N C → Except TreeError (Tree N C)
  | [], c, .file _ => .ok (.file c)
  | [], _, .dir _ => .error .isADirectory
  | _ :: _, _, .file _ => .error .notADirectory
  | n :: p, c, .dir es =>
    match entry es n with
    | none => if p = [] then .ok (.dir (setEntry es n (.file c))) else .error .notFound
    | some t =>
      match writeFile p c t with
      | .ok t' => .ok (.dir (setEntry es n t'))
      | .error e => .error e

theorem fileAt_chain (p q : List N) : (chain p : Tree N C).fileAt q = none := by
  induction p generalizing q with
  | nil =>
    cases q with
    | nil => rfl
    | cons n q => rfl
  | cons n p ih =>
    cases q with
    | nil => rfl
    | cons m q =>
      by_cases hnm : n = m
      · simp [chain, Tree.fileAt, entry, hnm, ih]
      · simp [chain, Tree.fileAt, entry, hnm]

theorem fileAt_createDirAll {p : List N} {t t' : Tree N C} (h : createDirAll p t = .ok t')
    (q : List N) : t'.fileAt q = t.fileAt q := by
  induction p generalizing t t' q with
  | nil =>
    cases t with
    | file c => cases h
    | dir es =>
      cases h
      rfl
  | cons n p ih =>
    cases t with
    | file c => cases h
    | dir es =>
      rw [createDirAll] at h
      cases he : entry es n with
      | none =>
        rw [he] at h
        cases h
        cases q with
        | nil => rfl
        | cons m q =>
          by_cases hmn : m = n
          · simp [Tree.fileAt, hmn, he, fileAt_chain]
          · simp [Tree.fileAt, hmn]
      | some u =>
        rw [he] at h
        cases hu : createDirAll p u with
        | error e => simp [hu] at h
        | ok u' =>
          simp only [hu] at h
          cases h
          cases q with
          | nil => rfl
          | cons m q =>
            by_cases hmn : m = n
            · simp [Tree.fileAt, hmn, he, ih hu]
            · simp [Tree.fileAt, hmn]

theorem fileAt_writeFile {p : List N} {c : C} {t t' : Tree N C} (h : writeFile p c t = .ok t')
    (q : List N) : t'.fileAt q = if q = p then some c else t.fileAt q := by
  induction p generalizing t t' q with
  | nil =>
    cases t with
    | dir es => cases h
    | file d =>
      cases h
      cases q with
      | nil => rfl
      | cons m q => rfl
  | cons n p ih =>
    cases t with
    | file d => cases h
    | dir es =>
      rw [writeFile] at h
      cases he : entry es n with
      | none =>
        rw [he] at h
        by_cases hp : p = []
        · simp only [if_pos hp] at h
          cases h
          subst hp
          cases q with
          | nil => rfl
          | cons m q =>
            by_cases hmn : m = n
            · subst hmn
              cases q with
              | nil => simp [Tree.fileAt]
              | cons k q => simp [Tree.fileAt, he]
            · simp [Tree.fileAt, hmn]
        · simp [hp] at h
      | some u =>
        rw [he] at h
        cases hu : writeFile p c u with
        | error e => simp [hu] at h
        | ok u' =>
          simp only [hu] at h
          cases h
          cases q with
          | nil => rfl
          | cons m q =>
            by_cases hmn : m = n
            · subst hmn
              simp [Tree.fileAt, he, ih hu]
            · simp [Tree.fileAt, hmn]

/-! Directories stay. -/

theorem dirAt_chain (p : List N) : (chain p : Tree N C).dirAt p = true := by
  induction p with
  | nil => rfl
  | cons n p ih => simp [chain, Tree.dirAt, entry, ih]

theorem dirAt_createDirAll {p : List N} {t t' : Tree N C} (h : createDirAll p t = .ok t') :
    t'.dirAt p = true := by
  induction p generalizing t t' with
  | nil =>
    cases t with
    | file c => cases h
    | dir es =>
      cases h
      rfl
  | cons n p ih =>
    cases t with
    | file c => cases h
    | dir es =>
      rw [createDirAll] at h
      cases he : entry es n with
      | none =>
        rw [he] at h
        cases h
        simp [Tree.dirAt, dirAt_chain]
      | some u =>
        rw [he] at h
        cases hu : createDirAll p u with
        | error e => simp [hu] at h
        | ok u' =>
          simp only [hu] at h
          cases h
          simp [Tree.dirAt, ih hu]

theorem dirAt_of_createDirAll {p q : List N} {t t' : Tree N C} (h : createDirAll p t = .ok t')
    (hq : t.dirAt q = true) : t'.dirAt q = true := by
  induction p generalizing t t' q with
  | nil =>
    cases t with
    | file c => cases h
    | dir es =>
      cases h
      exact hq
  | cons n p ih =>
    cases t with
    | file c => cases h
    | dir es =>
      rw [createDirAll] at h
      cases q with
      | nil =>
        split at h
        · cases h
          rfl
        · split at h
          · cases h
            rfl
          · cases h
      | cons m q =>
        cases he : entry es n with
        | none =>
          rw [he] at h
          cases h
          by_cases hmn : m = n
          · simp [Tree.dirAt, hmn, he] at hq
          · simpa [Tree.dirAt, hmn] using hq
        | some u =>
          rw [he] at h
          cases hu : createDirAll p u with
          | error e => simp [hu] at h
          | ok u' =>
            simp only [hu] at h
            cases h
            by_cases hmn : m = n
            · simp only [Tree.dirAt, hmn, he] at hq
              simp [Tree.dirAt, hmn, ih hu hq]
            · simpa [Tree.dirAt, hmn] using hq

theorem dirAt_of_writeFile {p q : List N} {c : C} {t t' : Tree N C}
    (h : writeFile p c t = .ok t') (hq : t.dirAt q = true) : t'.dirAt q = true := by
  induction p generalizing t t' q with
  | nil =>
    cases t with
    | dir es => cases h
    | file d => simp [Tree.dirAt] at hq
  | cons n p ih =>
    cases t with
    | file d => cases h
    | dir es =>
      rw [writeFile] at h
      cases q with
      | nil =>
        split at h
        · split at h
          · cases h
            rfl
          · cases h
        · split at h
          · cases h
            rfl
          · cases h
      | cons m q =>
        cases he : entry es n with
        | none =>
          rw [he] at h
          by_cases hp : p = []
          · simp only [if_pos hp] at h
            cases h
            by_cases hmn : m = n
            · simp [Tree.dirAt, hmn, he] at hq
            · simpa [Tree.dirAt, hmn] using hq
          · simp [hp] at h
        | some u =>
          rw [he] at h
          cases hu : writeFile p c u with
          | error e => simp [hu] at h
          | ok u' =>
            simp only [hu] at h
            cases h
            by_cases hmn : m = n
            · simp only [Tree.dirAt, hmn, he] at hq
              simp [Tree.dirAt, hmn, ih hu hq]
            · simpa [Tree.dirAt, hmn] using hq

end Lookup

/-! ### Listing the files -/

mutual

def Tree.files : Tree N C → List (List N × C)
  | .file c => [([], c)]
  | .dir es => entriesFiles es

def entriesFiles : Entries N C → List (List N × C)
  | [] => []
  | (n, t) :: rest => t.files.map (fun f => (n :: f.1, f.2)) ++ entriesFiles rest

end

mutual

def Tree.dirs : Tree N C → List (List N)
  | .file _ => []
  | .dir es => [] :: entriesDirs es

def entriesDirs : Entries N C → List (List N)
  | [] => []
  | (n, t) :: rest => t.dirs.map (n :: ·) ++ entriesDirs rest

end

mutual

def Tree.Distinct : Tree N C → Prop
  | .file _ => True
  | .dir es => (es.map Prod.fst).Nodup ∧ entriesDistinct es

def entriesDistinct : Entries N C → Prop
  | [] => True
  | (_, t) :: rest => t.Distinct ∧ entriesDistinct rest

end

theorem entriesFiles_ne_nil {es : Entries N C} {f : List N × C} (h : f ∈ entriesFiles es) :
    f.1 ≠ [] := by
  induction es with
  | nil => exact absurd h List.not_mem_nil
  | cons e es ih =>
    rcases List.mem_append.mp h with h | h
    · obtain ⟨g, _, rfl⟩ := List.mem_map.mp h
      exact List.cons_ne_nil _ _
    · exact ih h

theorem entriesDirs_ne_nil {es : Entries N C} {p : List N} (h : p ∈ entriesDirs es) :
    p ≠ [] := by
  induction es with
  | nil => exact absurd h List.not_mem_nil
  | cons e es ih =>
    rcases List.mem_append.mp h with h | h
    · obtain ⟨q, _, rfl⟩ := List.mem_map.mp h
      exact List.cons_ne_nil _ _
    · exact ih h

theorem head_mem_of_mem_entriesFiles {es : Entries N C} {f : List N × C}
    (h : f ∈ entriesFiles es) : ∃ n p, f.1 = n :: p ∧ n ∈ es.map Prod.fst := by
  induction es with
  | nil => exact absurd h List.not_mem_nil
  | cons e es ih =>
    rcases List.mem_append.mp h with h | h
    · obtain ⟨g, _, rfl⟩ := List.mem_map.mp h
      exact ⟨e.1, g.1, rfl, List.mem_cons_self⟩
    · obtain ⟨n, p, hp, hn⟩ := ih h
      exact ⟨n, p, hp, List.mem_cons_of_mem _ hn⟩

mutual

theorem Tree.files_nodup : ∀ t : Tree N C, t.Distinct → (t.files.map Prod.fst).Nodup
  | .file _, _ => List.nodup_singleton _
  | .dir es, h => entriesFiles_nodup es h.1 h.2

theorem entriesFiles_nodup : ∀ es : Entries N C, (es.map Prod.fst).Nodup →
    entriesDistinct es → ((entriesFiles es).map Prod.fst).Nodup
  | [], _, _ => List.nodup_nil
  | (n, t) :: es, hnames, hdistinct => by
    rw [List.map_cons, List.nodup_cons] at hnames
    rw [entriesFiles, List.map_append, List.map_map, List.nodup_append']
    refine ⟨?_, entriesFiles_nodup es hnames.2 hdistinct.2, ?_⟩
    · have ht : (t.files.map Prod.fst).Nodup := Tree.files_nodup t hdistinct.1
      have hcons : t.files.map (Prod.fst ∘ fun f => (n :: f.1, f.2)) =
          (t.files.map Prod.fst).map (n :: ·) := by simp
      rw [hcons]
      exact ht.map (fun p q hpq => (List.cons.inj hpq).2)
    · intro p hp hp'
      obtain ⟨f, _, rfl⟩ := List.mem_map.mp hp
      obtain ⟨g, hg, hgf⟩ := List.mem_map.mp hp'
      obtain ⟨m, q, hq, hm⟩ := head_mem_of_mem_entriesFiles hg
      have hnm : m = n := (List.cons.inj (hq.symm.trans hgf)).1
      exact hnames.1 (hnm ▸ hm)

end

theorem entriesDistinct_iff {es : Entries N C} : entriesDistinct es ↔ ∀ e ∈ es, e.2.Distinct := by
  induction es with
  | nil => simp [entriesDistinct]
  | cons e es ih =>
    obtain ⟨n, t⟩ := e
    rw [entriesDistinct, ih, List.forall_mem_cons]

theorem distinct_chain (p : List N) : (chain p : Tree N C).Distinct := by
  induction p with
  | nil => exact ⟨List.nodup_nil, trivial⟩
  | cons n p ih => exact ⟨List.nodup_singleton n, ih, trivial⟩

section Distinct

variable [DecidableEq N]

theorem mem_of_entry {es : Entries N C} {n : N} {t : Tree N C} (h : entry es n = some t) :
    (n, t) ∈ es := by
  induction es with
  | nil => cases h
  | cons e es ih =>
    obtain ⟨m, u⟩ := e
    rw [entry] at h
    split at h
    · next heq =>
      cases h
      rw [← heq]
      exact List.mem_cons_self
    · exact List.mem_cons_of_mem _ (ih h)

theorem entry_eq_some_iff {es : Entries N C} (h : (es.map Prod.fst).Nodup) {n : N} {t : Tree N C} :
    entry es n = some t ↔ (n, t) ∈ es := by
  refine ⟨mem_of_entry, ?_⟩
  intro hmem
  induction es with
  | nil => exact absurd hmem List.not_mem_nil
  | cons e es ih =>
    obtain ⟨m, u⟩ := e
    rw [List.map_cons, List.nodup_cons] at h
    rcases List.mem_cons.mp hmem with heq | hrest
    · cases heq
      rw [entry, if_pos rfl]
    · have hne : m ≠ n := by
        rintro rfl
        exact h.1 (List.mem_map.mpr ⟨(m, t), hrest, rfl⟩)
      rw [entry, if_neg hne]
      exact ih h.2 hrest

mutual

theorem Tree.mem_files_iff : ∀ (t : Tree N C), t.Distinct → ∀ (q : List N) (c : C),
    (q, c) ∈ t.files ↔ t.fileAt q = some c
  | .file d, _, q, c => by
    cases q with
    | nil => simp [Tree.files, Tree.fileAt, eq_comm]
    | cons n q => simp [Tree.files, Tree.fileAt]
  | .dir es, h, q, c => by
    cases q with
    | nil =>
      rw [Tree.files, Tree.fileAt]
      constructor
      · intro hmem
        exact absurd rfl (entriesFiles_ne_nil hmem)
      · intro hnone
        cases hnone
    | cons n q =>
      rw [Tree.files, mem_entriesFiles_iff es h.1 h.2 n q c, Tree.fileAt]
      cases entry es n with
      | none => simp
      | some t => simp

theorem mem_entriesFiles_iff : ∀ (es : Entries N C), (es.map Prod.fst).Nodup → entriesDistinct es →
    ∀ (n : N) (q : List N) (c : C),
      (n :: q, c) ∈ entriesFiles es ↔ ∃ t, entry es n = some t ∧ t.fileAt q = some c
  | [], _, _, n, q, c => by simp [entriesFiles, entry]
  | (m, u) :: es, hnames, hdistinct, n, q, c => by
    rw [List.map_cons, List.nodup_cons] at hnames
    have hrest := mem_entriesFiles_iff es hnames.2 hdistinct.2 n q c
    have hfirst : (n :: q, c) ∈ u.files.map (fun f => (m :: f.1, f.2)) ↔
        m = n ∧ u.fileAt q = some c := by
      rw [List.mem_map, ← Tree.mem_files_iff u hdistinct.1 q c]
      constructor
      · rintro ⟨f, hf, heq⟩
        cases heq
        exact ⟨rfl, hf⟩
      · rintro ⟨rfl, hf⟩
        exact ⟨(q, c), hf, rfl⟩
    rw [entriesFiles, List.mem_append, hfirst, hrest, entry]
    by_cases hmn : m = n
    · -- a name occurs once
      have hnone : ∀ t, entry es n ≠ some t := by
        intro t ht
        exact hnames.1 (hmn ▸ List.mem_map.mpr ⟨(n, t), mem_of_entry ht, rfl⟩)
      simp [hmn, hnone]
    · simp [hmn]

end

theorem mem_setEntry {es : Entries N C} {n : N} {t : Tree N C} {e : N × Tree N C}
    (h : e ∈ setEntry es n t) : e = (n, t) ∨ e ∈ es := by
  induction es with
  | nil => exact .inl (List.mem_singleton.mp h)
  | cons e' es ih =>
    obtain ⟨m, u⟩ := e'
    rw [setEntry] at h
    split at h
    · rcases List.mem_cons.mp h with heq | hrest
      · exact .inl heq
      · exact .inr (List.mem_cons_of_mem _ hrest)
    · rcases List.mem_cons.mp h with heq | hrest
      · exact .inr (heq ▸ List.mem_cons_self)
      · exact (ih hrest).imp_right (List.mem_cons_of_mem _)

theorem names_setEntry {es : Entries N C} (n : N) (t : Tree N C) (h : (es.map Prod.fst).Nodup) :
    ((setEntry es n t).map Prod.fst).Nodup := by
  induction es with
  | nil => exact List.nodup_singleton n
  | cons e es ih =>
    obtain ⟨m, u⟩ := e
    rw [setEntry]
    split
    · next heq =>
      rw [← heq]
      exact h
    · next hne =>
      rw [List.map_cons, List.nodup_cons] at h ⊢
      refine ⟨?_, ih h.2⟩
      intro hmem
      obtain ⟨e, he, heq⟩ := List.mem_map.mp hmem
      rcases mem_setEntry he with rfl | he
      · exact hne heq.symm
      · exact h.1 (heq ▸ List.mem_map.mpr ⟨e, he, rfl⟩)

theorem Tree.Distinct.setEntry {es : Entries N C} {n : N} {t : Tree N C}
    (h : (Tree.dir es).Distinct) (ht : t.Distinct) : (Tree.dir (setEntry es n t)).Distinct := by
  refine ⟨names_setEntry n t h.1, entriesDistinct_iff.mpr ?_⟩
  intro e he
  rcases mem_setEntry he with rfl | he
  · exact ht
  · exact entriesDistinct_iff.mp h.2 e he

theorem Tree.Distinct.of_entry {es : Entries N C} {n : N} {t : Tree N C}
    (h : (Tree.dir es).Distinct) (ht : entry es n = some t) : t.Distinct :=
  entriesDistinct_iff.mp h.2 _ (mem_of_entry ht)

theorem Tree.Distinct.createDirAll {p : List N} {t t' : Tree N C} (hdistinct : t.Distinct)
    (h : createDirAll p t = .ok t') : t'.Distinct := by
  induction p generalizing t t' with
  | nil =>
    cases t with
    | file c => cases h
    | dir es =>
      cases h
      exact hdistinct
  | cons n p ih =>
    cases t with
    | file c => cases h
    | dir es =>
      rw [Lib.createDirAll] at h
      cases he : entry es n with
      | none =>
        rw [he] at h
        cases h
        exact hdistinct.setEntry (distinct_chain p)
      | some u =>
        rw [he] at h
        cases hu : Lib.createDirAll p u with
        | error e => simp [hu] at h
        | ok u' =>
          simp only [hu] at h
          cases h
          exact hdistinct.setEntry (ih (hdistinct.of_entry he) hu)

theorem Tree.Distinct.writeFile {p : List N} {c : C} {t t' : Tree N C} (hdistinct : t.Distinct)
    (h : writeFile p c t = .ok t') : t'.Distinct := by
  induction p generalizing t t' with
  | nil =>
    cases t with
    | dir es => cases h
    | file d =>
      cases h
      trivial
  | cons n p ih =>
    cases t with
    | file d => cases h
    | dir es =>
      rw [Lib.writeFile] at h
      cases he : entry es n with
      | none =>
        rw [he] at h
        by_cases hp : p = []
        · simp only [if_pos hp] at h
          cases h
          exact hdistinct.setEntry trivial
        · simp [hp] at h
      | some u =>
        rw [he] at h
        cases hu : Lib.writeFile p c u with
        | error e => simp [hu] at h
        | ok u' =>
          simp only [hu] at h
          cases h
          exact hdistinct.setEntry (ih (hdistinct.of_entry he) hu)

end Distinct

/-- A directory whose names, and those of all directories below it, are distinct. -/
structure Directory (N C : Type) where
  entries : Entries N C
  distinct : (Tree.dir entries).Distinct

namespace Directory

def tree (d : Directory N C) : Tree N C := .dir d.entries

def files (d : Directory N C) : List (List N × C) := entriesFiles d.entries

def dirs (d : Directory N C) : List (List N) := entriesDirs d.entries

theorem files_nodup (d : Directory N C) : (d.files.map Prod.fst).Nodup :=
  entriesFiles_nodup d.entries d.distinct.1 d.distinct.2

def fileNames (d : Directory N C) : List N := d.files.filterMap (·.1.getLast?)

def dirNames (d : Directory N C) : List N := d.dirs.filterMap List.getLast?

end Directory

end Mowis.Lib
