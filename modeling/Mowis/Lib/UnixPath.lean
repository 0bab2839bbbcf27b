import Mathlib

/-!
# Unix paths as bytes

A path is a byte string; what a program sees of it are its components.
-/

namespace Mowis.Lib.UnixPath

abbrev Name := List UInt8
abbrev RawPath := List UInt8

def slash : UInt8 := 0x2F
def dot : UInt8 := 0x2E

def ofString (s : String) : RawPath := s.toUTF8.data.toList

inductive Component where
  | root
  | cur
  | parent
  | normal (name : Name)
  deriving DecidableEq, Repr

def piece (name : Name) : Option Component :=
  if name = [] ∨ name = [dot] then none
  else if name = [dot, dot] then some .parent
  else some (.normal name)

def steps (p : RawPath) : List Component := (p.splitOn slash).filterMap piece

def lead (p : RawPath) : List Component :=
  if p.head? = some slash then [.root]
  else if (p.splitOn slash).head? = some [dot] then [.cur]
  else []

def components (p : RawPath) : List Component := lead p ++ steps p

def push (p q : RawPath) : RawPath :=
  if q.head? = some slash then q
  else if p = [] ∨ p.getLast? = some slash then p ++ q
  else p ++ slash :: q

/-- What can name an entry of a directory. -/
structure IsName (name : Name) : Prop where
  nonempty : name ≠ []
  not_cur : name ≠ [dot]
  not_parent : name ≠ [dot, dot]
  no_slash : slash ∉ name

theorem piece_name {name : Name} (h : IsName name) : piece name = some (.normal name) := by
  rw [piece, if_neg (not_or.mpr ⟨h.nonempty, h.not_cur⟩), if_neg h.not_parent]

theorem steps_nil : steps [] = [] := rfl

theorem steps_name {name : Name} (h : IsName name) : steps name = [.normal name] := by
  rw [steps, List.splitOn_eq_singleton h.no_slash, List.filterMap_cons, piece_name h]
  rfl

theorem head?_name {name : Name} (h : IsName name) : name.head? ≠ some slash := fun hhead =>
  h.no_slash (List.mem_of_mem_head? hhead)

theorem lead_name {name : Name} (h : IsName name) : lead name = [] := by
  have hpiece : (name.splitOn slash).head? ≠ some [dot] := by
    rw [List.splitOn_eq_singleton h.no_slash]
    exact fun heq => h.not_cur (Option.some.inj heq)
  rw [lead, if_neg (head?_name h), if_neg hpiece]

theorem components_name {name : Name} (h : IsName name) : components name = [.normal name] := by
  rw [components, lead_name h, steps_name h]
  rfl

theorem steps_append_slash (p q : RawPath) : steps (p ++ slash :: q) = steps p ++ steps q := by
  rw [steps, List.splitOn_append_cons_self, List.filterMap_append]
  rfl

theorem head?_splitOn_append_slash (p q : RawPath) :
    ((p ++ slash :: q).splitOn slash).head? = (p.splitOn slash).head? := by
  rw [List.splitOn_append_cons_self, List.head?_append_of_ne_nil _ (List.splitOn_ne_nil slash p)]

theorem steps_slash_cons (p : RawPath) : steps (slash :: p) = steps p := by
  have h := steps_append_slash [] p
  rwa [steps_nil, List.nil_append, List.nil_append] at h

theorem steps_push {q : RawPath} (hq : q.head? ≠ some slash) (p : RawPath) :
    steps (push p q) = steps p ++ steps q := by
  rw [push, if_neg hq]
  split
  · next h =>
    rcases h with rfl | h
    · rfl
    · obtain ⟨p', rfl⟩ := List.getLast?_eq_some_iff.mp h
      rw [List.append_assoc, List.singleton_append, steps_append_slash, steps_append_slash,
        steps_nil, List.append_nil]
  · exact steps_append_slash p q

theorem lead_push {p : RawPath} (hp : p ≠ []) {q : RawPath} (hq : q.head? ≠ some slash) :
    lead (push p q) = lead p := by
  obtain ⟨b, p', rfl⟩ := List.exists_cons_of_ne_nil hp
  have hhead : ∃ r, push (b :: p') q = b :: p' ++ r ∧
      ((push (b :: p') q).splitOn slash).head? = ((b :: p').splitOn slash).head? := by
    rw [push, if_neg hq]
    split
    · next h =>
      obtain ⟨p'', hp''⟩ := List.getLast?_eq_some_iff.mp (h.resolve_left hp)
      refine ⟨q, rfl, ?_⟩
      rw [hp'', List.append_assoc, List.singleton_append, head?_splitOn_append_slash,
        head?_splitOn_append_slash]
    · exact ⟨slash :: q, rfl, head?_splitOn_append_slash _ _⟩
  obtain ⟨r, hr, hpieces⟩ := hhead
  rw [lead, lead, hpieces, hr]
  rfl

theorem components_push_name {name : Name} (h : IsName name) (p : RawPath) :
    components (push p name) = components p ++ [.normal name] := by
  by_cases hp : p = []
  · subst hp
    have hpush : push [] name = name := by
      rw [push, if_neg (head?_name h), if_pos (.inl rfl)]
      rfl
    rw [hpush, components_name h]
    rfl
  · rw [components, lead_push hp (head?_name h), steps_push (head?_name h), steps_name h,
      ← List.append_assoc]
    rfl

theorem components_push_names {names : List Name} (h : ∀ name ∈ names, IsName name) (p : RawPath) :
    components (names.foldl push p) = components p ++ names.map .normal := by
  induction names generalizing p with
  | nil => exact (List.append_nil _).symm
  | cons name names ih =>
    have hnames : ∀ name' ∈ names, IsName name' := fun _ hmem => h _ (List.mem_cons_of_mem _ hmem)
    rw [List.foldl_cons, ih hnames, components_push_name (h name List.mem_cons_self),
      List.append_assoc]
    rfl

theorem slash_notMem_splitOn {p : RawPath} {name : Name} (h : name ∈ p.splitOn slash) :
    slash ∉ name := by
  induction hn : p.length using Nat.strong_induction_on generalizing p with
  | _ n ih =>
    by_cases hslash : slash ∈ p
    · obtain ⟨p₁, p₂, rfl⟩ := List.append_of_mem hslash
      rw [List.length_append, List.length_cons] at hn
      rw [List.splitOn_append_cons_self, List.mem_append] at h
      rcases h with h | h
      · exact ih p₁.length (by omega) h rfl
      · exact ih p₂.length (by omega) h rfl
    · rw [List.splitOn_eq_singleton hslash, List.mem_singleton] at h
      rwa [h]

theorem lead_cases (p : RawPath) : lead p = [.root] ∨ lead p = [.cur] ∨ lead p = [] := by
  unfold lead
  split
  · exact .inl rfl
  · split
    · exact .inr (.inl rfl)
    · exact .inr (.inr rfl)

theorem normal_notMem_lead (p : RawPath) (name : Name) : .normal name ∉ lead p := by
  rcases lead_cases p with h | h | h <;> rw [h] <;> simp

theorem isName_of_mem_components {p : RawPath} {name : Name} (h : .normal name ∈ components p) :
    IsName name := by
  rcases List.mem_append.mp h with h | h
  · exact absurd h (normal_notMem_lead p name)
  · obtain ⟨name', hmem, hpiece⟩ := List.mem_filterMap.mp h
    unfold piece at hpiece
    split at hpiece
    · cases hpiece
    · next hne =>
      split at hpiece
      · cases hpiece
      · next hparent =>
        cases hpiece
        exact ⟨fun h => hne (.inl h), fun h => hne (.inr h), hparent, slash_notMem_splitOn hmem⟩

def climb (names : List Name) : Component → List Name
  | .root | .cur => names
  | .parent => names.dropLast
  | .normal name => names ++ [name]

def clamp (cs : List Component) : List Name := cs.foldl climb []

/-- Every `..` is cancelled with the name before it, or skipped at the top. -/
inductive Clamps : List Component → List Name → Prop
  | names (ns : List Name) : Clamps (ns.map .normal) ns
  | skip {xs ys : List Component} {c : Component} {ns : List Name} (hc : c = .root ∨ c = .cur) :
      Clamps (xs ++ ys) ns → Clamps (xs ++ c :: ys) ns
  | top {ys : List Component} {ns : List Name} : Clamps ys ns → Clamps (.parent :: ys) ns
  | cancel {xs ys : List Component} {name : Name} {ns : List Name} :
      Clamps (xs ++ ys) ns → Clamps (xs ++ .normal name :: .parent :: ys) ns

theorem foldl_climb_names (ns start : List Name) :
    (ns.map Component.normal).foldl climb start = start ++ ns := by
  induction ns generalizing start with
  | nil => exact (List.append_nil _).symm
  | cons name ns ih =>
    show (ns.map Component.normal).foldl climb (start ++ [name]) = _
    rw [ih, List.append_assoc]
    rfl

theorem clamp_names (ns : List Name) : clamp (ns.map .normal) = ns := foldl_climb_names ns []

theorem clamp_append_names (cs : List Component) (ns : List Name) :
    clamp (cs ++ ns.map .normal) = clamp cs ++ ns := by
  rw [clamp, List.foldl_append, foldl_climb_names]
  rfl

theorem Clamps.clamp_eq {cs : List Component} {ns : List Name} (h : Clamps cs ns) :
    clamp cs = ns := by
  induction h with
  | names ns => exact clamp_names ns
  | @skip xs ys c ns hc _ ih =>
    rw [← ih, clamp, clamp, List.foldl_append, List.foldl_append, List.foldl_cons]
    rcases hc with rfl | rfl <;> rfl
  | top _ ih => exact ih
  | @cancel xs ys name ns _ ih =>
    rw [← ih, clamp, clamp, List.foldl_append, List.foldl_append, List.foldl_cons, List.foldl_cons]
    show ys.foldl climb ((xs.foldl climb [] ++ [name]).dropLast) = _
    rw [List.dropLast_concat]

theorem clamps_foldl (cs : List Component) (start : List Name) :
    Clamps (start.map .normal ++ cs) (cs.foldl climb start) := by
  induction cs generalizing start with
  | nil =>
    rw [List.append_nil]
    exact .names start
  | cons c cs ih =>
    cases c with
    | root => exact .skip (.inl rfl) (ih start)
    | cur => exact .skip (.inr rfl) (ih start)
    | parent =>
      rcases List.eq_nil_or_concat start with rfl | ⟨start, name, rfl⟩
      · exact .top (ih [])
      · have h := ih start
        show Clamps _ (cs.foldl climb ((start.concat name).dropLast))
        rw [List.concat_eq_append, List.dropLast_concat, List.map_append, List.append_assoc]
        exact .cancel h
    | normal name =>
      have h := ih (start ++ [name])
      rwa [List.map_append, List.append_assoc] at h

theorem clamps_clamp (cs : List Component) : Clamps cs (clamp cs) := clamps_foldl cs []

theorem clamps_iff {cs : List Component} {ns : List Name} : Clamps cs ns ↔ clamp cs = ns :=
  ⟨Clamps.clamp_eq, fun h => h ▸ clamps_clamp cs⟩

theorem mem_foldl_climb {cs : List Component} {start : List Name} {name : Name}
    (h : name ∈ cs.foldl climb start) : name ∈ start ∨ .normal name ∈ cs := by
  induction cs generalizing start with
  | nil => exact .inl h
  | cons c cs ih =>
    rcases ih h with h | h
    · cases c with
      | root => exact .inl h
      | cur => exact .inl h
      | parent => exact .inl (List.dropLast_subset _ h)
      | normal name' =>
        rcases List.mem_append.mp h with h | h
        · exact .inl h
        · rw [List.mem_singleton.mp h]
          exact .inr List.mem_cons_self
    · exact .inr (List.mem_cons_of_mem _ h)

theorem isName_of_mem_clamp {p : RawPath} {name : Name} (h : name ∈ clamp (components p)) :
    IsName name :=
  isName_of_mem_components ((mem_foldl_climb h).resolve_left List.not_mem_nil)

theorem clamp_of_no_parent {cs : List Component} (h : .parent ∉ cs) :
    (clamp cs).map .normal = cs.filter fun c => c ≠ .root ∧ c ≠ .cur := by
  induction cs using List.reverseRecOn with
  | nil => rfl
  | append_singleton cs c ih =>
    rw [List.mem_append, not_or] at h
    have hstep : clamp (cs ++ [c]) = climb (clamp cs) c := by
      rw [clamp, List.foldl_append]
      rfl
    rw [hstep, List.filter_append, ← ih h.1]
    cases c with
    | root => exact (List.append_nil _).symm
    | cur => exact (List.append_nil _).symm
    | parent => exact absurd List.mem_cons_self h.2
    | normal name =>
      show ((clamp cs) ++ [name]).map Component.normal = _
      rw [List.map_append]
      rfl

end Mowis.Lib.UnixPath
