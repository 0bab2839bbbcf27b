import Mathlib

/-!
# Overlays

A tree says what is at a path: a directory or something else.  An overlay shows a layer over a tree.
An entry of the layer stands for what it shows, and all but a directory that is merged hides what the
tree has below it; an overlay is changed by changing its layer only.
-/

namespace Mowis.Lib.Overlay

variable {Name F : Type*}

inductive Node (F : Type*) where
  | dir
  | file (f : F)
  deriving DecidableEq

/-- An entry of a layer; a directory may be cut off from what is below it. -/
inductive Entry (F : Type*) where
  | dir (cut : Bool)
  | file (f : F)
  | whiteout
  deriving DecidableEq

abbrev Tree (Name F : Type*) := List Name → Option (Node F)

abbrev Layer (Name F : Type*) := List Name → Option (Entry F)

namespace Entry

def shown : Entry F → Option (Node F)
  | .dir _ => some .dir
  | .file f => some (.file f)
  | .whiteout => none

def hides : Entry F → Bool
  | .dir cut => cut
  | .file _ => true
  | .whiteout => true

def isDir : Entry F → Bool
  | .dir _ => true
  | _ => false

end Entry

def Layer.hides (u : Layer Name F) (p : List Name) : Bool :=
  (List.range p.length).any fun n => (u (p.take n)).any Entry.hides

def view (u : Layer Name F) (t : Tree Name F) : Tree Name F := fun p =>
  match u p with
  | some e => e.shown
  | none => if u.hides p then none else t p

def Closed (t : Tree Name F) : Prop := ∀ p name, t (p ++ [name]) ≠ none → t p = some .dir

section Over

variable {u v : Layer Name F} {t : Tree Name F} {p q : List Name} {e : Entry F}

theorem view_of_some (h : u p = some e) : view u t p = e.shown := by
  rw [view, h]

theorem view_of_none (h : u p = none) : view u t p = if u.hides p then none else t p := by
  rw [view, h]

theorem hides_iff : u.hides p = true ↔
    ∃ q e, q <+: p ∧ q ≠ p ∧ u q = some e ∧ e.hides = true := by
  simp only [Layer.hides, List.any_eq_true, List.mem_range, Option.any_eq_true]
  constructor
  · rintro ⟨n, hn, e, he, hhides⟩
    refine ⟨p.take n, e, List.take_prefix n p, ?_, he, hhides⟩
    intro heq
    have hlength := congrArg List.length heq
    rw [List.length_take] at hlength
    omega
  · rintro ⟨q, e, hle, hne, he, hhides⟩
    have hlt : q.length < p.length := by
      refine lt_of_le_of_ne hle.length_le fun hlength => hne ?_
      exact hle.eq_of_length hlength
    refine ⟨q.length, hlt, e, ?_, hhides⟩
    rwa [← List.prefix_iff_eq_take.mp hle]

theorem hides_congr
    (h : ∀ r, r <+: p → r ≠ p → (u r).any Entry.hides = (v r).any Entry.hides) :
    u.hides p = v.hides p := by
  have hany : ∀ w : Layer Name F, w.hides p = true ↔
      ∃ r, r <+: p ∧ r ≠ p ∧ (w r).any Entry.hides = true := by
    intro w
    rw [hides_iff]
    constructor
    · rintro ⟨r, e, hle, hne, he, hhides⟩
      exact ⟨r, hle, hne, by rw [he]; exact hhides⟩
    · rintro ⟨r, hle, hne, hhides⟩
      obtain ⟨e, he, hhides⟩ := Option.any_eq_true .. |>.mp hhides
      exact ⟨r, e, hle, hne, he, hhides⟩
  rw [Bool.eq_iff_iff, hany, hany]
  constructor
  · rintro ⟨r, hle, hne, hhides⟩
    exact ⟨r, hle, hne, (h r hle hne).symm.trans hhides⟩
  · rintro ⟨r, hle, hne, hhides⟩
    exact ⟨r, hle, hne, (h r hle hne).trans hhides⟩

theorem not_prefix_of_append (hle : p <+: q) (hne : p ≠ q) : ¬ q <+: p := by
  intro h
  exact hne (hle.eq_of_length (le_antisymm hle.length_le h.length_le))

theorem view_below {v : Layer Name F} (hv : v p = some e) (hhides : e.hides = true)
    (hle : p <+: q) (hne : p ≠ q) (hq : v q = u q) (hnone : view u t q = none) :
    view v t q = none := by
  cases hu : u q with
  | some f =>
    rw [view_of_some hu] at hnone
    rw [view_of_some (hq.trans hu), hnone]
  | none =>
    have hhidden : v.hides q = true := hides_iff.mpr ⟨p, e, hle, hne, hv, hhides⟩
    rw [view_of_none (hq.trans hu), if_pos hhidden]

theorem hides_below (h : u.hides p = true) (hle : p <+: q) : u.hides q = true := by
  obtain ⟨r, e, hr, hne, he, hhides⟩ := hides_iff.mp h
  refine hides_iff.mpr ⟨r, e, hr.trans hle, ?_, he, hhides⟩
  rintro rfl
  exact hne (hr.eq_of_length (le_antisymm hr.length_le hle.length_le))

theorem Closed.below (h : Closed t) (hp : t p ≠ some .dir) (hle : p <+: q) (hne : p ≠ q) :
    t q = none := by
  obtain ⟨r, rfl⟩ := hle
  induction r using List.reverseRecOn with
  | nil => exact (hne (List.append_nil p).symm).elim
  | append_singleton r name ih =>
    by_contra hsome
    rw [← List.append_assoc] at hsome
    have hdir := h _ _ hsome
    by_cases hr : r = []
    · rw [hr, List.append_nil] at hdir
      exact hp hdir
    · have hnone := ih (by simpa using hr)
      rw [hdir] at hnone
      cases hnone

end Over

def merge (new old : Layer Name F) : Layer Name F := fun p => (new p).or (old p)

/-- A directory and something else cannot take each other's place. -/
def Clash (new old : Layer Name F) : Prop :=
  ∃ p e f, new p = some e ∧ old p = some f ∧ e.isDir ≠ f.isDir

/-- What was left in a layer shows what is shown anyway, and hides nothing that is shown. -/
def Harmless (new old : Layer Name F) (t : Tree Name F) (region : Set (List Name)) : Prop :=
  ∀ p ∈ region, ∀ e, new p = none → old p = some e →
    view new t p = e.shown ∧
      (e.hides = true → ∀ q ∈ region, p <+: q → p ≠ q → new q = none → old q = none →
        view new t q = none)

section Merge

variable {new old : Layer Name F} {t : Tree Name F} {p : List Name} {e : Entry F}

end Merge

/-! ### Changes -/

inductive Change (Name F : Type*) where
  | write (p : List Name) (f : F)
  | mkdir (p : List Name)
  | remove (p : List Name)

def Tree.Leads (t : Tree Name F) (p : List Name) : Prop :=
  ∀ n < p.length, t (p.take n) = some .dir

def Tree.Admits (t : Tree Name F) : Change Name F → Prop
  | .write p _ => t.Leads p ∧ t p ≠ some .dir
  | .mkdir p => t.Leads p ∧ t p = none
  | .remove p => t.Leads p ∧ p ≠ []

instance [DecidableEq F] (t : Tree Name F) (p : List Name) : Decidable (t.Leads p) :=
  inferInstanceAs (Decidable (∀ n < p.length, t (p.take n) = some .dir))

instance [DecidableEq Name] [DecidableEq F] (t : Tree Name F) :
    (c : Change Name F) → Decidable (t.Admits c)
  | .write _ _ => inferInstanceAs (Decidable (_ ∧ _))
  | .mkdir _ => inferInstanceAs (Decidable (_ ∧ _))
  | .remove _ => inferInstanceAs (Decidable (_ ∧ _))

theorem Tree.Leads.dir {t : Tree Name F} {p q : List Name} (h : t.Leads p) (hle : q <+: p)
    (hne : q ≠ p) : t q = some .dir := by
  have hlt : q.length < p.length :=
    lt_of_le_of_ne hle.length_le fun hlength => hne (hle.eq_of_length hlength)
  have htake := h q.length hlt
  rwa [← List.prefix_iff_eq_take.mp hle] at htake

section Changes

variable [DecidableEq Name]

def Tree.change (t : Tree Name F) : Change Name F → Tree Name F
  | .write p f => Function.update t p (some (.file f))
  | .mkdir p => Function.update t p (some .dir)
  | .remove p => fun q => if p <+: q then none else t q

def Layer.raise (u : Layer Name F) (p : List Name) : Layer Name F := fun q =>
  if q <+: p ∧ q ≠ p ∧ (u q).isNone then some (.dir false) else u q

/-- What becomes of the layer of an overlay.  A directory made over a whiteout is cut off, and what
is removed leaves a whiteout where the tree shows something. -/
def Layer.change (u : Layer Name F) (t : Tree Name F) : Change Name F → Layer Name F
  | .write p f => Function.update (u.raise p) p (some (.file f))
  | .mkdir p =>
    Function.update (u.raise p) p (some (.dir ((u p).any fun e => e.shown.isNone)))
  | .remove p => fun q =>
    if q = p then if u.hides p = false ∧ (t p).isSome then some .whiteout else none
    else if p <+: q then none
    else u.raise p q

variable {u : Layer Name F} {t : Tree Name F} {p q : List Name} {e : Entry F} {c : Change Name F}

theorem raise_of_some (h : u q = some e) : u.raise p q = some e := by
  unfold Layer.raise
  rw [if_neg (by rw [h]; simp), h]

theorem raise_beside (h : ¬ q <+: p) : u.raise p q = u q := by
  unfold Layer.raise
  rw [if_neg fun hq => h hq.1]

theorem any_hides_raise : (u.raise p q).any Entry.hides = (u q).any Entry.hides := by
  unfold Layer.raise
  split
  · next h =>
    rw [Option.isNone_iff_eq_none.mp h.2.2]
    rfl
  · rfl

theorem view_aside {v : Layer Name F} (hleads : (view u t).Leads p) (hpq : ¬ p <+: q)
    (hv : ∀ r, ¬ p <+: r → v r = u.raise p r) : view v t q = view u t q := by
  have hhides : v.hides q = u.hides q := by
    refine hides_congr fun r hr _ => ?_
    rw [hv r fun hpr => hpq (hpr.trans hr), any_hides_raise]
  have hq := hv q hpq
  cases hu : u q with
  | some e => rw [view_of_some (hq.trans (raise_of_some hu)), view_of_some hu]
  | none =>
    by_cases hqp : q <+: p
    · have hne : q ≠ p := by
        rintro rfl
        exact hpq List.prefix_rfl
      have hraise : u.raise p q = some (.dir false) := by
        unfold Layer.raise
        rw [if_pos ⟨hqp, hne, by rw [hu]; rfl⟩]
      rw [view_of_some (hq.trans hraise), hleads.dir hqp hne]
      rfl
    · rw [view_of_none (hq.trans ((raise_beside hqp).trans hu)), view_of_none hu, hhides]

theorem not_mem_below_update {v : Option (Entry F)} (hle : p <+: q) (hne : p ≠ q) :
    Function.update (u.raise p) p v q = u q := by
  rw [Function.update_of_ne hne.symm, raise_beside (not_prefix_of_append hle hne)]

theorem update_raise_aside {v : Option (Entry F)} (h : ¬ p <+: q) :
    Function.update (u.raise p) p v q = u.raise p q := by
  refine Function.update_of_ne ?_ _ _
  rintro rfl
  exact h List.prefix_rfl

theorem view_write {f : F} (hclosed : Closed (view u t)) (hleads : (view u t).Leads p)
    (hfile : view u t p ≠ some .dir) :
    view (u.change t (.write p f)) t = (view u t).change (.write p f) := by
  funext q
  rw [Layer.change, Tree.change]
  by_cases hqp : q = p
  · subst hqp
    rw [view_of_some (Function.update_self _ _ _), Function.update_self]
    rfl
  · rw [Function.update_of_ne hqp]
    by_cases hle : p <+: q
    · have hnone := hclosed.below hfile hle (Ne.symm hqp)
      rw [hnone]
      exact view_below (Function.update_self _ _ _) rfl hle (Ne.symm hqp)
        (not_mem_below_update hle (Ne.symm hqp)) hnone
    · exact view_aside hleads hle fun r hr => update_raise_aside hr

theorem view_mkdir (hclosed : Closed (view u t)) (hleads : (view u t).Leads p)
    (hfree : view u t p = none) :
    view (u.change t (.mkdir p)) t = (view u t).change (.mkdir p) := by
  have hnotdir : view u t p ≠ some .dir := by
    rw [hfree]
    exact fun h => by cases h
  funext q
  rw [Layer.change, Tree.change]
  by_cases hqp : q = p
  · subst hqp
    rw [view_of_some (Function.update_self _ _ _), Function.update_self]
    rfl
  · rw [Function.update_of_ne hqp]
    by_cases hle : p <+: q
    · have hnone := hclosed.below hnotdir hle (Ne.symm hqp)
      rw [hnone]
      cases hup : u p with
      | some e =>
        -- a whiteout: the new directory is cut off
        rw [view_of_some hup] at hfree
        refine view_below (e := .dir true) ?_ rfl hle (Ne.symm hqp)
          (not_mem_below_update hle (Ne.symm hqp)) hnone
        rw [Function.update_self]
        simp [hfree]
      | none =>
        -- the new directory is merged with what the tree has there, which is nothing
        have hhides : Layer.hides (Function.update (u.raise p) p (some (.dir false))) q =
            u.hides q := by
          refine hides_congr fun r _ _ => ?_
          by_cases hr : r = p
          · rw [hr, Function.update_self, hup]
            rfl
          · rw [Function.update_of_ne hr, any_hides_raise]
        have hbelow : Function.update (u.raise p) p (some (.dir false)) q = u q :=
          not_mem_below_update hle (Ne.symm hqp)
        show view (Function.update (u.raise p) p (some (.dir false))) t q = none
        cases huq : u q with
        | some e =>
          rw [view_of_some huq] at hnone
          rw [view_of_some (hbelow.trans huq), hnone]
        | none =>
          rw [view_of_none huq] at hnone
          rw [view_of_none (hbelow.trans huq), hhides, hnone]
    · exact view_aside hleads hle fun r hr => update_raise_aside hr

theorem Layer.remove_self : u.change t (.remove p) p =
    if u.hides p = false ∧ (t p).isSome then some .whiteout else none := if_pos rfl

theorem Layer.remove_below (hle : p <+: q) (hne : q ≠ p) :
    u.change t (.remove p) q = none := (if_neg hne).trans (if_pos hle)

theorem Layer.remove_aside (h : ¬ p <+: q) : u.change t (.remove p) q = u.raise p q := by
  have hne : q ≠ p := by
    rintro rfl
    exact h List.prefix_rfl
  exact (if_neg hne).trans (if_neg h)

theorem view_remove (ht : Closed t) (hleads : (view u t).Leads p) :
    view (u.change t (.remove p)) t = (view u t).change (.remove p) := by
  have hhides : (u.change t (.remove p)).hides p = u.hides p := by
    refine hides_congr fun r hr hne => ?_
    rw [Layer.remove_aside (not_prefix_of_append hr hne), any_hides_raise]
  funext q
  show view _ t q = if p <+: q then none else view u t q
  by_cases hle : p <+: q
  · rw [if_pos hle]
    by_cases hunder : u.hides p = false ∧ (t p).isSome
    · have hp : u.change t (.remove p) p = some .whiteout :=
        Layer.remove_self.trans (if_pos hunder)
      by_cases hqp : q = p
      · rw [hqp, view_of_some hp]
        rfl
      · rw [view_of_none (Layer.remove_below hle hqp),
          if_pos (hides_iff.mpr ⟨p, _, hle, Ne.symm hqp, hp, rfl⟩)]
    · have hq : u.change t (.remove p) q = none := by
        by_cases hqp : q = p
        · rw [hqp]
          exact Layer.remove_self.trans (if_neg hunder)
        · exact Layer.remove_below hle hqp
      rw [view_of_none hq]
      cases hhidden : u.hides p with
      | true => rw [if_pos (hides_below (hhides.trans hhidden) hle)]
      | false =>
        -- the tree shows nothing there, and nothing below it
        have htp : t p = none := by
          rw [← Option.not_isSome_iff_eq_none]
          exact fun hsome => hunder ⟨hhidden, hsome⟩
        have htq : t q = none := by
          by_cases hqp : q = p
          · rw [hqp, htp]
          · exact ht.below (by rw [htp]; exact fun h => by cases h) hle (Ne.symm hqp)
        rw [htq, ite_self]
  · rw [if_neg hle]
    exact view_aside hleads hle fun r hr => Layer.remove_aside hr

/-- **An overlay is changed as the tree that it shows.** -/
theorem view_change (hclosed : Closed (view u t)) (ht : Closed t) (hadmits : (view u t).Admits c) :
    view (u.change t c) t = (view u t).change c := by
  cases c with
  | write p f => exact view_write hclosed hadmits.1 hadmits.2
  | mkdir p => exact view_mkdir hclosed hadmits.1 hadmits.2
  | remove p => exact view_remove ht hadmits.1

theorem Closed.update {node : Node F} (h : Closed t) (hleads : t.Leads p)
    (hnode : node = .dir ∨ t p ≠ some .dir) : Closed (Function.update t p (some node)) := by
  intro q name hq
  have hnode' : q = p → node = .dir := by
    rintro rfl
    refine hnode.resolve_right fun hfile => hfile (h q name ?_)
    rwa [Function.update_of_ne (by simp)] at hq
  by_cases hqp : q = p
  · rw [hqp, Function.update_self, hnode' hqp]
  · rw [Function.update_of_ne hqp]
    by_cases hp : q ++ [name] = p
    · exact hleads.dir (hp ▸ List.prefix_append _ _) hqp
    · rw [Function.update_of_ne hp] at hq
      exact h q name hq

theorem Closed.change (h : Closed t) (hadmits : t.Admits c) : Closed (t.change c) := by
  cases c with
  | write p f => exact h.update hadmits.1 (.inr hadmits.2)
  | mkdir p => exact h.update hadmits.1 (.inl rfl)
  | remove p =>
    intro q name hq
    have hle : ¬ p <+: q ++ [name] := fun hle => hq (if_pos hle)
    have hle' : ¬ p <+: q := fun hpq => hle (hpq.trans (List.prefix_append _ _))
    have ht : t (q ++ [name]) ≠ none := fun hnone => hq ((if_neg hle).trans hnone)
    exact (if_neg hle').trans (h q name ht)

end Changes

end Mowis.Lib.Overlay
