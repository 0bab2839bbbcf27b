import Mowis.Lib.Symlink

/-!
# Routes without links

The places that a path comes through when no link stands on it, `..` and the working directory
included.
-/

namespace Mowis.Lib.Symlink

open UnixPath

def arrive (here : Place) : Component → Place
  | .root => []
  | .cur => here
  | .parent => here.dropLast
  | .normal name => here ++ [name]

def trail : Place → List Component → List Place
  | here, [] => [here]
  | here, c :: cs => here :: trail (arrive here c) cs

def spelled (here : Place) (cs : List Component) : Place := cs.foldl arrive here

def Straight (fs : Fs) (here : Place) (cs : List Component) : Prop :=
  ∀ q ∈ trail here cs, ∀ target, fs.node q ≠ some (.link target)

def Leads (fs : Fs) (here : Place) (cs : List Component) : Prop :=
  ∀ q ∈ trail here cs, fs.node q = some .dir

section Trail

variable {here q : Place} {cs rest : List Component} {c : Component}

theorem mem_trail_self (here : Place) (cs : List Component) : here ∈ trail here cs := by
  cases cs <;> exact List.mem_cons_self

theorem trail_ne_nil (here : Place) (cs : List Component) : trail here cs ≠ [] :=
  List.ne_nil_of_mem (mem_trail_self here cs)

@[simp] theorem spelled_nil (here : Place) : spelled here [] = here := rfl

@[simp] theorem spelled_cons (here : Place) (c : Component) (cs : List Component) :
    spelled here (c :: cs) = spelled (arrive here c) cs := rfl

theorem spelled_append (here : Place) (cs rest : List Component) :
    spelled here (cs ++ rest) = spelled (spelled here cs) rest := List.foldl_append

theorem spelled_names (here : Place) (names : List Name) :
    spelled here (names.map .normal) = here ++ names := by
  induction names generalizing here with
  | nil => exact (List.append_nil here).symm
  | cons name names ih =>
    rw [List.map_cons, spelled_cons, ih, arrive, List.append_assoc]
    rfl

theorem spelled_mem_trail (here : Place) (cs : List Component) :
    spelled here cs ∈ trail here cs := by
  induction cs generalizing here with
  | nil => exact List.mem_cons_self
  | cons c cs ih => exact List.mem_cons_of_mem _ (ih _)

theorem trail_concat (here : Place) (cs : List Component) (c : Component) :
    trail here (cs ++ [c]) = trail here cs ++ [arrive (spelled here cs) c] := by
  induction cs generalizing here with
  | nil => rfl
  | cons c' cs ih =>
    rw [List.cons_append, trail, trail, ih]
    rfl

theorem mem_trail_names {names : List Name} :
    q ∈ trail here (cs ++ names.map .normal) ↔
      q ∈ trail here cs ∨ ∃ before, before <+: names ∧ q = spelled here cs ++ before := by
  induction names using List.reverseRecOn with
  | nil =>
    rw [List.map_nil, List.append_nil]
    refine ⟨.inl, fun h => h.elim id ?_⟩
    rintro ⟨before, hbefore, rfl⟩
    rw [List.prefix_nil.mp hbefore, List.append_nil]
    exact spelled_mem_trail here cs
  | append_singleton names name ih =>
    have harrive : arrive (spelled here (cs ++ names.map .normal)) (.normal name) =
        spelled here cs ++ (names ++ [name]) := by
      rw [spelled_append, spelled_names, arrive, List.append_assoc]
    rw [List.map_append, ← List.append_assoc, List.map_singleton, trail_concat, List.mem_append, ih,
      List.mem_singleton, harrive, or_assoc]
    refine or_congr_right ⟨?_, ?_⟩
    · rintro (⟨before, hbefore, rfl⟩ | rfl)
      · exact ⟨before, hbefore.trans (List.prefix_append _ _), rfl⟩
      · exact ⟨_, List.prefix_refl _, rfl⟩
    · rintro ⟨before, hbefore, rfl⟩
      rcases List.prefix_concat_iff.mp hbefore with rfl | hbefore
      · exact .inr rfl
      · exact .inl ⟨before, hbefore, rfl⟩

theorem Leads.straight {fs : Fs} (h : Leads fs here cs) : Straight fs here cs := by
  intro q hq target hlink
  exact nomatch (h q hq).symm.trans hlink

end Trail

section Walks

variable {fs : Fs} {follow : Bool} {onLink : Place → List Component → Bool → Outcome}
  {here place : Place} {cs rest : List Component}

theorem walkFrom_straight (h : Straight fs here cs)
    (hleads : (walkFrom fs follow onLink here cs false).LeadsTo place) :
    place = spelled here cs ∧ ∀ q ∈ (trail here cs).dropLast, fs.node q = some .dir := by
  induction cs generalizing here with
  | nil =>
    rw [walkFrom, if_neg fun hboth => Bool.false_ne_true hboth.1] at hleads
    rcases hleads with hfound | hmissing
    · exact ⟨(Outcome.found.inj hfound).symm, List.forall_mem_nil _⟩
    · cases hmissing
  | cons c cs ih =>
    obtain ⟨-, hrest⟩ := List.forall_mem_cons.mp h
    have hnext := hrest _ (mem_trail_self _ cs)
    have hthrough : fs.node here = some .dir → place = spelled (arrive here c) cs ∧
        (∀ q ∈ (trail (arrive here c) cs).dropLast, fs.node q = some .dir) →
        place = spelled here (c :: cs) ∧
          ∀ q ∈ (trail here (c :: cs)).dropLast, fs.node q = some .dir := by
      rintro hhere ⟨hplace, hdirs⟩
      refine ⟨hplace, ?_⟩
      rw [trail, List.dropLast_cons_of_ne_nil (trail_ne_nil _ _)]
      exact List.forall_mem_cons.mpr ⟨hhere, hdirs⟩
    cases c <;> rw [walkFrom] at hleads <;> split at hleads
    case root.isTrue | cur.isTrue | parent.isTrue | normal.isTrue =>
      rcases hleads with hleads | hleads <;> cases hleads
    case root.isFalse hhere => exact hthrough (not_not.mp hhere) (ih hrest hleads)
    case cur.isFalse hhere => exact hthrough (not_not.mp hhere) (ih hrest hleads)
    case parent.isFalse hhere => exact hthrough (not_not.mp hhere) (ih hrest hleads)
    case normal.isFalse name hhere =>
      have hname : ∀ target, fs.node (here ++ [name]) ≠ some (.link target) := hnext
      apply hthrough (not_not.mp hhere)
      split at hleads
      · split at hleads
        · next hend =>
          rcases hleads with hfound | hmissing
          · cases hfound
          · rw [hend.1]
            exact ⟨(Outcome.missing.inj hmissing).symm, List.forall_mem_nil _⟩
        · rcases hleads with hleads | hleads <;> cases hleads
      · next target hlink => exact absurd hlink (hname target)
      · exact ih hrest hleads

theorem lookup_eq (hne : cs ≠ []) :
    ∃ onLink, fs.lookup follow cs false = walkFrom fs follow onLink fs.cwd cs false := by
  refine ⟨walk fs follow 39, ?_⟩
  rw [Fs.lookup, if_neg hne]
  rfl

theorem lookup_leadsTo (h : Straight fs fs.cwd cs)
    (hleads : (fs.lookup follow cs false).LeadsTo place) :
    place = spelled fs.cwd cs ∧ ∀ q ∈ (trail fs.cwd cs).dropLast, fs.node q = some .dir := by
  by_cases hne : cs = []
  · rw [Fs.lookup, if_pos hne] at hleads
    rcases hleads with hleads | hleads <;> cases hleads
  · obtain ⟨onLink, hlookup⟩ := @lookup_eq fs follow cs hne
    exact walkFrom_straight h (hlookup ▸ hleads)

end Walks

end Mowis.Lib.Symlink
