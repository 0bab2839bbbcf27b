import Mathlib

/-!
# Patches of files of lines

An edit replaces a block of lines, which must be there, by another; a patch is a list of
edits whose positions are those of the base.  It is applied from its last edit to its first,
so that no edit moves the block of one that is still to come.
-/

namespace Mowis.Lib

variable {L : Type}

/-- Replace the lines `old` at `pos` by `new`. -/
structure Edit (L : Type) where
  pos : ℕ
  old : List L
  new : List L

namespace Edit

/-- The first position after the block that is replaced. -/
def stop (e : Edit L) : ℕ := e.pos + e.old.length

theorem pos_le_stop (e : Edit L) : e.pos ≤ e.stop := Nat.le_add_right _ _

/-- One of two edits is before the other, and not the other way round: two insertions at one
position are not apart. -/
def Apart (a b : Edit L) : Prop :=
  (a.stop ≤ b.pos ∧ ¬ b.stop ≤ a.pos) ∨ (b.stop ≤ a.pos ∧ ¬ a.stop ≤ b.pos)

end Edit

def Ordered (es : List (Edit L)) : Prop := es.Pairwise fun a b => a.stop ≤ b.pos

/-! ### Growth -/

def oldLength (es : List (Edit L)) : ℕ := (es.map fun e => e.old.length).sum

def newLength (es : List (Edit L)) : ℕ := (es.map fun e => e.new.length).sum

def before (es : List (Edit L)) (p : ℕ) : List (Edit L) := es.filter fun e => e.stop ≤ p

/-- A position of the base in the file a patch has made. -/
def rebasePos (es : List (Edit L)) (p : ℕ) : ℕ :=
  p + newLength (before es p) - oldLength (before es p)

def Edit.rebase (es : List (Edit L)) (e : Edit L) : Edit L := { e with pos := rebasePos es e.pos }

@[simp] theorem oldLength_append (xs ys : List (Edit L)) :
    oldLength (xs ++ ys) = oldLength xs + oldLength ys := by
  simp [oldLength]

@[simp] theorem newLength_append (xs ys : List (Edit L)) :
    newLength (xs ++ ys) = newLength xs + newLength ys := by
  simp [newLength]

@[simp] theorem oldLength_cons (e : Edit L) (es : List (Edit L)) :
    oldLength (e :: es) = e.old.length + oldLength es := by
  simp [oldLength]

@[simp] theorem newLength_cons (e : Edit L) (es : List (Edit L)) :
    newLength (e :: es) = e.new.length + newLength es := by
  simp [newLength]

@[simp] theorem oldLength_nil : oldLength ([] : List (Edit L)) = 0 := rfl

@[simp] theorem newLength_nil : newLength ([] : List (Edit L)) = 0 := rfl

theorem before_append (xs ys : List (Edit L)) (p : ℕ) :
    before (xs ++ ys) p = before xs p ++ before ys p := List.filter_append xs ys

theorem before_eq_self {es : List (Edit L)} {p : ℕ} (h : ∀ e ∈ es, e.stop ≤ p) :
    before es p = es :=
  List.filter_eq_self.mpr fun e he => decide_eq_true (h e he)

theorem before_eq_nil {es : List (Edit L)} {p : ℕ} (h : ∀ e ∈ es, ¬ e.stop ≤ p) :
    before es p = [] :=
  List.filter_eq_nil_iff.mpr fun e he => by simpa using h e he

theorem rebase_nil (es : List (Edit L)) : es.map (Edit.rebase []) = es := by
  rw [List.map_congr_left (g := id), List.map_id]
  intro e _
  simp [Edit.rebase, rebasePos, before]

theorem Ordered.of_append_left {xs ys : List (Edit L)} (h : Ordered (xs ++ ys)) : Ordered xs :=
  (List.pairwise_append.mp h).1

theorem Ordered.of_append_right {xs ys : List (Edit L)} (h : Ordered (xs ++ ys)) : Ordered ys :=
  (List.pairwise_append.mp h).2.1

theorem Ordered.stop_le_pos {xs ys : List (Edit L)} (h : Ordered (xs ++ ys)) {x y : Edit L}
    (hx : x ∈ xs) (hy : y ∈ ys) : x.stop ≤ y.pos :=
  (List.pairwise_append.mp h).2.2 x hx y hy

theorem forall_before_of_last {es : List (Edit L)} {e x : Edit L} (hes : Ordered (es ++ [e]))
    (hx : e.stop ≤ x.pos ∧ ¬ x.stop ≤ e.pos) :
    ∀ y ∈ es ++ [e], y.stop ≤ x.pos ∧ ¬ x.stop ≤ y.pos := by
  intro y hy
  rcases List.mem_append.mp hy with hy | hy
  · have hle := hes.stop_le_pos hy (List.mem_singleton_self e)
    have hy' := y.pos_le_stop
    have he' := e.pos_le_stop
    exact ⟨by omega, by omega⟩
  · rw [List.mem_singleton.mp hy]
    exact hx

section Apply

variable [DecidableEq L]

def Edit.apply (e : Edit L) (f : List L) : Option (List L) :=
  if e.pos ≤ f.length ∧ e.old <+: f.drop e.pos then
    some (f.take e.pos ++ e.new ++ f.drop e.stop)
  else none

def applyEdits : List (Edit L) → List L → Option (List L)
  | [], f => some f
  | e :: es, f => (applyEdits es f).bind e.apply

def applyBoth (as bs : List (Edit L)) (f : List L) : Option (List L) :=
  (applyEdits as f).bind (applyEdits (bs.map (Edit.rebase as)))

theorem Edit.apply_eq_some {e : Edit L} {f g : List L} :
    e.apply f = some g ↔
      ∃ x y, x.length = e.pos ∧ f = x ++ e.old ++ y ∧ g = x ++ e.new ++ y := by
  constructor
  · intro h
    unfold Edit.apply at h
    split at h
    · next hmatch =>
      obtain ⟨y, hy⟩ := hmatch.2
      have hdrop : f.drop e.stop = y := by
        rw [Edit.stop, ← List.drop_drop, ← hy, List.drop_left]
      refine ⟨f.take e.pos, y, List.length_take_of_le hmatch.1, ?_, ?_⟩
      · rw [List.append_assoc, hy, List.take_append_drop]
      · rw [← hdrop]
        exact (Option.some.inj h).symm
    · cases h
  · rintro ⟨x, y, hx, rfl, rfl⟩
    have htake : (x ++ e.old ++ y).take e.pos = x := by
      rw [List.append_assoc, ← hx, List.take_left]
    have hdrop : (x ++ e.old ++ y).drop e.pos = e.old ++ y := by
      rw [List.append_assoc, ← hx, List.drop_left]
    have hstop : (x ++ e.old ++ y).drop e.stop = y := by
      rw [Edit.stop, ← List.drop_drop, hdrop, List.drop_left]
    rw [Edit.apply, htake, hdrop, hstop, if_pos]
    refine ⟨?_, List.prefix_append _ _⟩
    rw [← hx, List.append_assoc, List.length_append]
    exact Nat.le_add_right _ _

theorem applyEdits_append (xs ys : List (Edit L)) (f : List L) :
    applyEdits (xs ++ ys) f = (applyEdits ys f).bind (applyEdits xs) := by
  induction xs with
  | nil =>
    rw [List.nil_append]
    cases applyEdits ys f with
    | none => rfl
    | some g => rfl
  | cons x xs ih =>
    rw [List.cons_append, applyEdits, ih]
    cases applyEdits ys f with
    | none => rfl
    | some g => rfl

theorem applyEdits_concat (es : List (Edit L)) (e : Edit L) (f : List L) :
    applyEdits (es ++ [e]) f = (e.apply f).bind (applyEdits es) := by
  rw [applyEdits_append]
  rfl

theorem Edit.apply_append {e : Edit L} {f g : List L} (h : e.apply f = some g) (t : List L) :
    e.apply (f ++ t) = some (g ++ t) := by
  obtain ⟨x, y, hx, rfl, rfl⟩ := Edit.apply_eq_some.mp h
  exact Edit.apply_eq_some.mpr ⟨x, y ++ t, hx, by simp, by simp⟩

theorem applyEdits_append_file {es : List (Edit L)} {f g : List L}
    (h : applyEdits es f = some g) (t : List L) :
    applyEdits es (f ++ t) = some (g ++ t) := by
  induction es generalizing g with
  | nil =>
    cases h
    rfl
  | cons e es ih =>
    rw [applyEdits] at h ⊢
    obtain ⟨m, hm, hg⟩ := Option.bind_eq_some_iff.mp h
    rw [ih hm, Option.bind_some]
    exact Edit.apply_append hg t

theorem Edit.length_apply {e : Edit L} {f g : List L} (h : e.apply f = some g) :
    g.length + e.old.length = f.length + e.new.length := by
  obtain ⟨x, y, -, rfl, rfl⟩ := Edit.apply_eq_some.mp h
  simp only [List.length_append]
  omega

theorem length_applyEdits {es : List (Edit L)} {f g : List L} (h : applyEdits es f = some g) :
    g.length + oldLength es = f.length + newLength es := by
  induction es generalizing g with
  | nil =>
    cases h
    rfl
  | cons e es ih =>
    rw [applyEdits] at h
    obtain ⟨m, hm, hg⟩ := Option.bind_eq_some_iff.mp h
    have hlen := ih hm
    have hstep := Edit.length_apply hg
    rw [oldLength_cons, newLength_cons]
    omega

theorem Edit.apply_prefix {e : Edit L} {f g t : List L} (h : e.apply (f ++ t) = some g)
    (hstop : e.stop ≤ f.length) : ∃ m, e.apply f = some m ∧ g = m ++ t := by
  obtain ⟨x, y, hx, hf, rfl⟩ := Edit.apply_eq_some.mp h
  have hlen : (x ++ e.old).length ≤ f.length := by
    rw [List.length_append, hx]
    exact hstop
  obtain ⟨z, hz⟩ : x ++ e.old <+: f :=
    List.prefix_of_prefix_length_le ⟨y, hf.symm⟩ (List.prefix_append f t) hlen
  have hy : y = z ++ t := by
    rw [← hz, List.append_assoc] at hf
    exact (List.append_cancel_left hf).symm
  exact ⟨x ++ e.new ++ z, Edit.apply_eq_some.mpr ⟨x, z, hx, hz.symm, rfl⟩, by rw [hy]; simp⟩

theorem applyEdits_prefix {es : List (Edit L)} {f g t : List L}
    (h : applyEdits es (f ++ t) = some g) (hes : Ordered es) (hstop : ∀ e ∈ es, e.stop ≤ f.length) :
    ∃ m, applyEdits es f = some m ∧ g = m ++ t := by
  induction es using List.reverseRecOn generalizing f g with
  | nil =>
    cases h
    exact ⟨f, rfl, rfl⟩
  | append_singleton es e ih =>
    rw [applyEdits_concat] at h
    obtain ⟨m, hm, hg⟩ := Option.bind_eq_some_iff.mp h
    obtain ⟨m', hm', rfl⟩ := Edit.apply_prefix hm (hstop e (by simp))
    have hstop' : ∀ e' ∈ es, e'.stop ≤ m'.length := by
      intro e' he'
      have hle : e'.stop ≤ e.pos := hes.stop_le_pos he' (List.mem_singleton_self e)
      obtain ⟨x, y, hx, -, rfl⟩ := Edit.apply_eq_some.mp hm'
      simp only [List.length_append]
      omega
    obtain ⟨r, hr, rfl⟩ := ih hg hes.of_append_left hstop'
    exact ⟨r, by rw [applyEdits_concat, hm', Option.bind_some, hr], rfl⟩

theorem applyBoth_concat {as bs : List (Edit L)} {a : Edit L} {f : List L}
    (has : Ordered (as ++ [a])) (hbs : Ordered bs)
    (hlast : ∀ b ∈ bs, b.stop ≤ a.pos ∧ ¬ a.stop ≤ b.pos)
    (hA : (applyEdits (as ++ [a]) f).isSome) (hB : (applyEdits bs f).isSome) :
    ∃ g t t', f = g ++ t ∧ (applyEdits as g).isSome ∧ (applyEdits bs g).isSome ∧
      ∀ r, applyBoth as bs g = some r → applyBoth bs as g = some r →
        applyBoth (as ++ [a]) bs f = some (r ++ t') ∧ applyBoth bs (as ++ [a]) f = some (r ++ t') := by
  obtain ⟨fA, hfA⟩ := Option.isSome_iff_exists.mp hA
  obtain ⟨fB, hfB⟩ := Option.isSome_iff_exists.mp hB
  rw [applyEdits_concat] at hfA
  obtain ⟨m, hm, hfA⟩ := Option.bind_eq_some_iff.mp hfA
  obtain ⟨g, y, hg, rfl, rfl⟩ := Edit.apply_eq_some.mp hm
  rw [List.append_assoc] at hfA hfB hm ⊢
  have has' : Ordered as := has.of_append_left
  have hstopA : ∀ e ∈ as, e.stop ≤ g.length := by
    intro e he
    rw [hg]
    exact has.stop_le_pos he (List.mem_singleton_self a)
  have hstopB : ∀ b ∈ bs, b.stop ≤ g.length := by
    intro b hb
    rw [hg]
    exact (hlast b hb).1
  obtain ⟨gA, hgA, rfl⟩ := applyEdits_prefix hfA has' hstopA
  obtain ⟨gB, hgB, rfl⟩ := applyEdits_prefix hfB hbs hstopB
  refine ⟨g, a.old ++ y, a.new ++ y, by simp, by simp [hgA], by simp [hgB], ?_⟩
  intro r hAB hBA
  constructor
  · have hrebase : bs.map (Edit.rebase (as ++ [a])) = bs.map (Edit.rebase as) := by
      apply List.map_congr_left
      intro b hb
      have hnone : before [a] b.pos = [] :=
        before_eq_nil fun e he => by
          rw [List.mem_singleton.mp he]
          exact (hlast b hb).2
      simp [Edit.rebase, rebasePos, before_append, hnone]
    rw [applyBoth, hgA, Option.bind_some] at hAB
    rw [applyBoth, applyEdits_concat, hm, Option.bind_some, List.append_assoc, hfA,
      Option.bind_some, hrebase]
    exact applyEdits_append_file hAB _
  · -- the block of `a` starts where the other patch has ended
    have hpos : (a.rebase bs).pos = gB.length := by
      have hlen := length_applyEdits hgB
      show rebasePos bs a.pos = gB.length
      rw [rebasePos, before_eq_self fun b hb => (hlast b hb).1, ← hg]
      omega
    have happly : (a.rebase bs).apply (gB ++ (a.old ++ y)) = some (gB ++ (a.new ++ y)) :=
      Edit.apply_eq_some.mpr ⟨gB, y, hpos.symm, by simp [Edit.rebase], by simp [Edit.rebase]⟩
    rw [applyBoth, hgB, Option.bind_some] at hBA
    rw [applyBoth, hfB, Option.bind_some, List.map_append, List.map_singleton, applyEdits_concat,
      happly, Option.bind_some]
    exact applyEdits_append_file hBA _

/-- **Patches that lie apart commute.**  The induction takes the last edit of the two off. -/
theorem applyBoth_comm {as bs : List (Edit L)} {f : List L} (has : Ordered as) (hbs : Ordered bs)
    (hapart : ∀ a ∈ as, ∀ b ∈ bs, a.Apart b)
    (hA : (applyEdits as f).isSome) (hB : (applyEdits bs f).isSome) :
    ∃ r, applyBoth as bs f = some r ∧ applyBoth bs as f = some r := by
  induction hn : as.length + bs.length using Nat.strong_induction_on generalizing as bs f with
  | _ n ih =>
    rcases List.eq_nil_or_concat' as with rfl | ⟨as', a, rfl⟩
    · obtain ⟨r, hr⟩ := Option.isSome_iff_exists.mp hB
      refine ⟨r, ?_, ?_⟩
      · rw [applyBoth, rebase_nil]
        exact hr
      · rw [applyBoth, hr]
        rfl
    · rcases List.eq_nil_or_concat' bs with rfl | ⟨bs', b, rfl⟩
      · obtain ⟨r, hr⟩ := Option.isSome_iff_exists.mp hA
        refine ⟨r, ?_, ?_⟩
        · rw [applyBoth, hr]
          rfl
        · rw [applyBoth, rebase_nil]
          exact hr
      · rcases hapart a (by simp) b (by simp) with hab | hba
        · -- `b` is the last edit
          have hlast := forall_before_of_last has hab
          obtain ⟨g, t, t', -, hgB, hgA, hstep⟩ := applyBoth_concat hbs has hlast hB hA
          obtain ⟨r, hrA, hrB⟩ := ih ((as' ++ [a]).length + bs'.length)
            (by simp only [List.length_append, List.length_singleton] at hn ⊢; omega)
            has hbs.of_append_left
            (fun x hx y hy => hapart x hx y (List.mem_append_left _ hy)) hgA hgB rfl
          obtain ⟨h1, h2⟩ := hstep r hrB hrA
          exact ⟨r ++ t', h2, h1⟩
        · -- `a` is the last edit
          have hlast := forall_before_of_last hbs hba
          obtain ⟨g, t, t', -, hgA, hgB, hstep⟩ := applyBoth_concat has hbs hlast hA hB
          obtain ⟨r, hrA, hrB⟩ := ih (as'.length + (bs' ++ [b]).length)
            (by simp only [List.length_append, List.length_singleton] at hn ⊢; omega)
            has.of_append_left hbs
            (fun x hx y hy => hapart x (List.mem_append_left _ hx) y hy) hgA hgB rfl
          obtain ⟨h1, h2⟩ := hstep r hrA hrB
          exact ⟨r ++ t', h1, h2⟩

/-- The edit replaces lines `z` by lines `z`. -/
def Edit.Blank (z : L) (e : Edit L) : Prop :=
  e.old = List.replicate e.old.length z ∧ e.new = List.replicate e.new.length z

omit [DecidableEq L] in
theorem oldLength_le {es : List (Edit L)} {k n : ℕ} (hes : Ordered es)
    (h : ∀ e ∈ es, k ≤ e.pos ∧ e.stop ≤ n) : oldLength es ≤ n - k := by
  induction es generalizing k with
  | nil => exact Nat.zero_le _
  | cons e es ih =>
    obtain ⟨hle, hes⟩ := List.pairwise_cons.mp hes
    obtain ⟨hk, hn⟩ := h e List.mem_cons_self
    have hrest : oldLength es ≤ n - e.stop :=
      ih hes fun e' he' => ⟨hle e' he', (h e' (List.mem_cons_of_mem e he')).2⟩
    rw [oldLength_cons]
    rw [Edit.stop] at hrest hn
    omega

theorem Edit.apply_replicate {e : Edit L} {z : L} {n : ℕ}
    (hold : e.old = List.replicate e.old.length z) (hstop : e.stop ≤ n) :
    e.apply (List.replicate n z) =
      some (List.replicate e.pos z ++ e.new ++ List.replicate (n - e.stop) z) := by
  refine Edit.apply_eq_some.mpr
    ⟨List.replicate e.pos z, List.replicate (n - e.stop) z, List.length_replicate, ?_, rfl⟩
  rw [hold, List.replicate_append_replicate, List.replicate_append_replicate]
  congr 1
  rw [Edit.stop] at hstop ⊢
  omega

theorem applyEdits_blank {es : List (Edit L)} {z : L} {n : ℕ} (hes : Ordered es)
    (hblank : ∀ e ∈ es, e.Blank z) (hstop : ∀ e ∈ es, e.stop ≤ n) :
    applyEdits es (List.replicate n z) =
      some (List.replicate (n + newLength es - oldLength es) z) := by
  induction es using List.reverseRecOn generalizing n with
  | nil => rfl
  | append_singleton es e ih =>
    have he : e ∈ es ++ [e] := by simp
    have hstop' : ∀ e' ∈ es, e'.stop ≤ e.pos :=
      fun e' he' => hes.stop_le_pos he' (List.mem_singleton_self e)
    have hrest := ih hes.of_append_left
      (fun e' he' => hblank e' (List.mem_append_left _ he')) hstop'
    have hold : oldLength es ≤ e.pos := by
      have hle := oldLength_le (k := 0) hes.of_append_left
        fun e' he' => ⟨Nat.zero_le _, hstop' e' he'⟩
      omega
    have hn := hstop e he
    rw [applyEdits_concat, Edit.apply_replicate (hblank e he).1 hn, Option.bind_some,
      List.append_assoc, applyEdits_append_file hrest, (hblank e he).2,
      List.replicate_append_replicate, List.replicate_append_replicate]
    simp only [oldLength_append, newLength_append, oldLength_cons, newLength_cons, oldLength_nil,
      newLength_nil]
    rw [Edit.stop] at hn ⊢
    congr 2
    omega

theorem applyEdits_around {xs ys : List (Edit L)} {e : Edit L} {z : L} {n : ℕ}
    (hes : Ordered (xs ++ e :: ys)) (hxs : ∀ x ∈ xs, x.Blank z) (hys : ∀ y ∈ ys, y.Blank z)
    (hold : e.old = List.replicate e.old.length z) (hstop : ∀ x ∈ xs ++ e :: ys, x.stop ≤ n) :
    ∃ m, applyEdits (xs ++ e :: ys) (List.replicate n z) =
      some (List.replicate (e.pos + newLength xs - oldLength xs) z ++
        (e.new ++ List.replicate m z)) := by
  have hys' : Ordered ys := (List.pairwise_cons.mp hes.of_append_right).2
  have hlater : ∀ y ∈ ys, e.stop ≤ y.pos := (List.pairwise_cons.mp hes.of_append_right).1
  have hstopys : ∀ y ∈ ys, y.stop ≤ n := fun y hy => hstop y (by simp [hy])
  have hstope : e.stop ≤ n := hstop e (by simp)
  have hylen : oldLength ys ≤ n - e.stop :=
    oldLength_le hys' fun y hy => ⟨hlater y hy, hstopys y hy⟩
  have hxrun := applyEdits_blank (n := e.pos) hes.of_append_left hxs
    fun x hx => hes.stop_le_pos hx List.mem_cons_self
  refine ⟨n + newLength ys - oldLength ys - e.stop, ?_⟩
  rw [applyEdits_append, applyEdits, applyEdits_blank hys' hys hstopys, Option.bind_some,
    Edit.apply_replicate hold (by omega), Option.bind_some, List.append_assoc]
  exact applyEdits_append_file hxrun _

theorem applyEdits_take {es : List (Edit L)} {k : ℕ} (hpos : ∀ e ∈ es, k ≤ e.pos) {f g : List L}
    (h : applyEdits es f = some g) : g.take k = f.take k := by
  induction es generalizing g with
  | nil =>
    cases h
    rfl
  | cons e es ih =>
    rw [applyEdits] at h
    obtain ⟨m, hm, hg⟩ := Option.bind_eq_some_iff.mp h
    rw [← ih (fun e' he' => hpos e' (List.mem_cons_of_mem e he')) hm]
    obtain ⟨x, y, hx, rfl, rfl⟩ := Edit.apply_eq_some.mp hg
    have hk : k ≤ x.length := hx ▸ hpos e List.mem_cons_self
    rw [List.append_assoc, List.append_assoc, List.take_append_of_le_length hk,
      List.take_append_of_le_length hk]

theorem applyEdits_filter {es : List (Edit L)} {z : L} (hblank : ∀ e ∈ es, e.Blank z)
    {f g : List L} (h : applyEdits es f = some g) : g.filter (· ≠ z) = f.filter (· ≠ z) := by
  induction es generalizing g with
  | nil =>
    cases h
    rfl
  | cons e es ih =>
    rw [applyEdits] at h
    obtain ⟨m, hm, hg⟩ := Option.bind_eq_some_iff.mp h
    rw [← ih (fun e' he' => hblank e' (List.mem_cons_of_mem e he')) hm]
    obtain ⟨x, y, -, rfl, rfl⟩ := Edit.apply_eq_some.mp hg
    obtain ⟨hold, hnew⟩ := hblank e List.mem_cons_self
    have hzero : ∀ k, (List.replicate k z).filter (· ≠ z) = [] := by simp
    simp only [List.filter_append]
    rw [hold, hnew, hzero, hzero]

omit [DecidableEq L] in
theorem Edit.Blank.rebase {z : L} {e : Edit L} (h : e.Blank z) (es : List (Edit L)) :
    (e.rebase es).Blank z := h

section Around

omit [DecidableEq L]

variable {xs ys : List (Edit L)} {s : ℕ}

theorem rebasePos_append_of_not_stop {p : ℕ} (hxs : ∀ x ∈ xs, x.stop ≤ p)
    (hys : ∀ y ∈ ys, ¬ y.stop ≤ p) :
    rebasePos (xs ++ ys) p = p + newLength xs - oldLength xs := by
  rw [rebasePos, before_append, before_eq_self hxs, before_eq_nil hys, List.append_nil]

theorem newLength_before_mono (es : List (Edit L)) {p q : ℕ} (hpq : p ≤ q) :
    newLength (before es p) ≤ newLength (before es q) := by
  induction es with
  | nil => exact le_refl _
  | cons e es ih =>
    simp only [before, List.filter_cons] at ih ⊢
    by_cases hp : e.stop ≤ p
    · have hq : e.stop ≤ q := Nat.le_trans hp hpq
      simp only [hp, hq, decide_true, if_true, newLength_cons]
      omega
    · by_cases hq : e.stop ≤ q
      · simp only [hp, hq, decide_true, decide_false, if_true, Bool.false_eq_true, if_false,
          newLength_cons]
        omega
      · simpa [hp, hq] using ih

theorem le_rebasePos {p : ℕ} (hys : Ordered ys) (hxs : ∀ x ∈ xs, x.stop ≤ s)
    (hpos : ∀ y ∈ ys, s ≤ y.pos) (hsp : s ≤ p) :
    s + newLength xs + newLength (before ys s) ≤ rebasePos (xs ++ ys) p + oldLength xs := by
  have hold : oldLength (before ys p) ≤ p - s := by
    refine oldLength_le (List.Pairwise.filter _ hys) fun y hy => ?_
    obtain ⟨hy, hstop⟩ := List.mem_filter.mp hy
    exact ⟨hpos y hy, of_decide_eq_true hstop⟩
  have hnew := newLength_before_mono ys hsp
  rw [rebasePos, before_append, before_eq_self fun x hx => Nat.le_trans (hxs x hx) hsp,
    oldLength_append, newLength_append]
  omega

theorem rebasePos_at (hys : Ordered ys) (hxs : ∀ x ∈ xs, x.stop ≤ s)
    (hpos : ∀ y ∈ ys, s ≤ y.pos) :
    rebasePos (xs ++ ys) s = s + newLength xs + newLength (before ys s) - oldLength xs := by
  have hold : oldLength (before ys s) ≤ s - s := by
    refine oldLength_le (List.Pairwise.filter _ hys) fun y hy => ?_
    obtain ⟨hy, hstop⟩ := List.mem_filter.mp hy
    exact ⟨hpos y hy, of_decide_eq_true hstop⟩
  rw [rebasePos, before_append, before_eq_self hxs, oldLength_append, newLength_append]
  omega

end Around

theorem applyBoth_within_block {as₁ as₂ bs₁ bs₂ : List (Edit L)} {a b : Edit L} {z : L} {n : ℕ}
    (has : Ordered (as₁ ++ a :: as₂)) (hbs : Ordered (bs₁ ++ b :: bs₂))
    (hbs₁ : ∀ x ∈ bs₁, x.Blank z) (hbs₂ : ∀ x ∈ bs₂, x.Blank z)
    (ha : a.old = List.replicate a.old.length z) (hblock : 2 ≤ a.old.length)
    (hb : b.old = []) (hnew : b.new ≠ []) (hz : z ∉ b.new) (hpos : b.pos = a.pos + 1)
    (hbefore : ∀ x ∈ bs₁, x.stop ≤ a.pos) (hstop : ∀ x ∈ bs₁ ++ b :: bs₂, x.stop ≤ n) :
    applyBoth (bs₁ ++ b :: bs₂) (as₁ ++ a :: as₂) (List.replicate n z) = none := by
  obtain ⟨m, hm⟩ := applyEdits_around hbs hbs₁ hbs₂ (by rw [hb]; rfl) hstop
  obtain ⟨l, ls, hl⟩ := List.exists_cons_of_ne_nil hnew
  have hlz : l ≠ z := fun h => hz (by rw [hl, h]; exact List.mem_cons_self)
  have hbstop : b.stop = a.pos + 1 := by
    rw [Edit.stop, hb, hpos]
    rfl
  have hold₁ : oldLength bs₁ ≤ a.pos := by
    have hle := oldLength_le (k := 0) hbs.of_append_left
      fun x hx => ⟨Nat.zero_le _, hbefore x hx⟩
    omega
  have hlater : ∀ y ∈ b :: bs₂, a.pos + 1 ≤ y.pos := by
    intro y hy
    rcases List.mem_cons.mp hy with rfl | hy
    · exact hpos.ge
    · rw [← hbstop]
      exact (List.pairwise_cons.mp hbs.of_append_right).1 y hy
  -- the block starts one line before the inserted lines
  have hposa : rebasePos (bs₁ ++ b :: bs₂) a.pos = a.pos + newLength bs₁ - oldLength bs₁ :=
    rebasePos_append_of_not_stop hbefore fun y hy hle => by
      have hy' := hlater y hy
      have hy'' := y.pos_le_stop
      omega
  have hposlater : ∀ x ∈ as₂.map (Edit.rebase (bs₁ ++ b :: bs₂)),
      a.pos + 1 + newLength bs₁ - oldLength bs₁ + 1 ≤ x.pos := by
    intro x hx
    obtain ⟨x', hx', rfl⟩ := List.mem_map.mp hx
    have hle : a.stop ≤ x'.pos := (List.pairwise_cons.mp has.of_append_right).1 x' hx'
    rw [Edit.stop] at hle
    have hmove := le_rebasePos (s := a.pos + 1) (p := x'.pos) hbs.of_append_right
      (fun x hx => Nat.le_succ_of_le (hbefore x hx)) hlater (by omega)
    have hins : 1 ≤ newLength (before (b :: bs₂) (a.pos + 1)) := by
      rw [before, List.filter_cons, hbstop, if_pos (by simp), newLength_cons, hl]
      simp only [List.length_cons]
      omega
    show _ ≤ rebasePos (bs₁ ++ b :: bs₂) x'.pos
    omega
  rw [applyBoth, hm, Option.bind_some, List.map_append, List.map_cons, applyEdits_append,
    applyEdits]
  cases hlast : applyEdits (as₂.map (Edit.rebase (bs₁ ++ b :: bs₂)))
      (List.replicate (b.pos + newLength bs₁ - oldLength bs₁) z ++
        (b.new ++ List.replicate m z)) with
  | none => rfl
  | some g =>
    rw [Option.bind_some]
    cases happly : (a.rebase (bs₁ ++ b :: bs₂)).apply g with
    | none => rfl
    | some g' =>
      exfalso
      -- the line after the first one of the block is an inserted line
      have htake := applyEdits_take hposlater hlast
      obtain ⟨x, y, hx, hg, -⟩ := Edit.apply_eq_some.mp happly
      have hx' : x.length = a.pos + newLength bs₁ - oldLength bs₁ := hx.trans hposa
      have hline : g[a.pos + 1 + newLength bs₁ - oldLength bs₁]? = some l := by
        rw [← List.getElem?_take_of_lt (Nat.lt_succ_self _), htake,
          List.getElem?_take_of_lt (Nat.lt_succ_self _), hpos, hl]
        rw [List.getElem?_append_right (by simp)]
        simp
      have hblank : g[a.pos + 1 + newLength bs₁ - oldLength bs₁]? = some z := by
        have hidx : a.pos + 1 + newLength bs₁ - oldLength bs₁ = x.length + 1 := by omega
        rw [hg, List.append_assoc, hidx, List.getElem?_append_right (by omega)]
        show ((a.rebase _).old ++ y)[x.length + 1 - x.length]? = _
        rw [Nat.add_sub_cancel_left]
        show (a.old ++ y)[1]? = some z
        rw [List.getElem?_append_left (by omega), ha, List.getElem?_replicate, if_pos (by omega)]
      rw [hline] at hblank
      exact hlz (Option.some.inj hblank)

theorem applyBoth_insertions {as₁ as₂ bs₁ bs₂ : List (Edit L)} {a b : Edit L} {z : L} {n : ℕ}
    (has : Ordered (as₁ ++ a :: as₂)) (hbs : Ordered (bs₁ ++ b :: bs₂))
    (has₁ : ∀ x ∈ as₁, x.Blank z) (has₂ : ∀ x ∈ as₂, x.Blank z)
    (hbs₁ : ∀ x ∈ bs₁, x.Blank z) (hbs₂ : ∀ x ∈ bs₂, x.Blank z)
    (ha : a.old = []) (hb : b.old = []) (hza : z ∉ a.new) (hzb : z ∉ b.new)
    (hpos : a.pos = b.pos) (hstop : ∀ x ∈ as₁ ++ a :: as₂, x.stop ≤ n) {r : List L}
    (hr : applyBoth (as₁ ++ a :: as₂) (bs₁ ++ b :: bs₂) (List.replicate n z) = some r) :
    r.filter (· ≠ z) = a.new ++ b.new := by
  obtain ⟨m, hm⟩ := applyEdits_around has has₁ has₂ (by rw [ha]; rfl) hstop
  have hbstop : b.stop = b.pos := by simp [Edit.stop, hb]
  have hastop : a.stop = a.pos := by simp [Edit.stop, ha]
  have hbeforeA : ∀ x ∈ as₁, x.stop ≤ a.pos := fun x hx => has.stop_le_pos hx List.mem_cons_self
  have hlaterA : ∀ y ∈ a :: as₂, a.pos ≤ y.pos := by
    intro y hy
    rcases List.mem_cons.mp hy with rfl | hy
    · exact le_refl _
    · rw [← hastop]
      exact (List.pairwise_cons.mp has.of_append_right).1 y hy
  have hold₁ : oldLength as₁ ≤ a.pos := by
    have hle := oldLength_le (k := 0) has.of_append_left
      fun x hx => ⟨Nat.zero_le _, hbeforeA x hx⟩
    omega
  have hins : a.new.length ≤ newLength (before (a :: as₂) a.pos) := by
    rw [before, List.filter_cons, hastop, if_pos (by simp), newLength_cons]
    exact Nat.le_add_right _ _
  rw [applyBoth, hm, Option.bind_some, List.map_append, List.map_cons, applyEdits_append,
    applyEdits] at hr
  obtain ⟨g', hg', hr⟩ := Option.bind_eq_some_iff.mp hr
  obtain ⟨g, hg, happly⟩ := Option.bind_eq_some_iff.mp hg'
  -- the insertion of `b` is at or after the end of the lines that `a` has inserted
  have hposb : rebasePos (as₁ ++ a :: as₂) b.pos =
      a.pos + newLength as₁ + newLength (before (a :: as₂) a.pos) - oldLength as₁ := by
    rw [← hpos]
    exact rebasePos_at has.of_append_right hbeforeA hlaterA
  have hposlater : ∀ x ∈ bs₂.map (Edit.rebase (as₁ ++ a :: as₂)),
      rebasePos (as₁ ++ a :: as₂) b.pos ≤ x.pos := by
    intro x hx
    obtain ⟨x', hx', rfl⟩ := List.mem_map.mp hx
    have hle : b.stop ≤ x'.pos := (List.pairwise_cons.mp hbs.of_append_right).1 x' hx'
    have hmove := le_rebasePos (p := x'.pos) has.of_append_right hbeforeA hlaterA (by omega)
    show _ ≤ rebasePos (as₁ ++ a :: as₂) x'.pos
    omega
  have hnz : ∀ k, (List.replicate k z).filter (· ≠ z) = [] := by simp
  have hkeepA : a.new.filter (· ≠ z) = a.new :=
    List.filter_eq_self.mpr fun l hl => decide_eq_true fun h => hza (h ▸ hl)
  have hkeepB : b.new.filter (· ≠ z) = b.new :=
    List.filter_eq_self.mpr fun l hl => decide_eq_true fun h => hzb (h ▸ hl)
  have hblank₁ : ∀ x ∈ bs₁.map (Edit.rebase (as₁ ++ a :: as₂)), x.Blank z := by
    intro x hx
    obtain ⟨x', hx', rfl⟩ := List.mem_map.mp hx
    exact (hbs₁ x' hx').rebase _
  have hblank₂ : ∀ x ∈ bs₂.map (Edit.rebase (as₁ ++ a :: as₂)), x.Blank z := by
    intro x hx
    obtain ⟨x', hx', rfl⟩ := List.mem_map.mp hx
    exact (hbs₂ x' hx').rebase _
  obtain ⟨x, y, hx, hgxy, rfl⟩ := Edit.apply_eq_some.mp happly
  have htake := applyEdits_take hposlater hg
  have hx' : x = g.take (rebasePos (as₁ ++ a :: as₂) b.pos) := by
    have hxlen : x.length = rebasePos (as₁ ++ a :: as₂) b.pos := hx
    rw [hgxy, List.append_assoc, ← hxlen, List.take_left]
  -- what is before it has the lines of `a`, so what is after it has none
  have hfront : x.filter (· ≠ z) = a.new := by
    have hlong : (List.replicate (a.pos + newLength as₁ - oldLength as₁) z ++ a.new).length ≤
        rebasePos (as₁ ++ a :: as₂) b.pos := by
      rw [List.length_append, List.length_replicate, hposb]
      omega
    rw [hx', htake, ← List.append_assoc, List.take_append, List.take_of_length_le hlong,
      List.take_replicate, List.filter_append, List.filter_append, hnz, hnz, hkeepA]
    simp
  have htotal : g.filter (· ≠ z) = a.new := by
    rw [applyEdits_filter hblank₂ hg, List.filter_append, List.filter_append, hnz, hnz, hkeepA]
    simp
  have hback : y.filter (· ≠ z) = [] := by
    rw [hgxy] at htotal
    have hbold : (b.rebase (as₁ ++ a :: as₂)).old = [] := hb
    rw [hbold, List.append_nil, List.filter_append, hfront] at htotal
    exact List.append_right_eq_self.mp htotal
  rw [applyEdits_filter hblank₁ hr]
  show ((x ++ b.new) ++ y).filter (· ≠ z) = _
  rw [List.filter_append, List.filter_append, hfront, hback, hkeepB, List.append_nil]

end Apply

end Mowis.Lib
