import Mowis.Lib.Execution
import Mowis.Lib.Forest
import Mowis.Sandboxes.Policy

/-!
# Trees of sandboxes

Sandboxes are made by `Sandbox::new`, or by `spawn_child` from another one; `set_policy` may come
at any time.
-/

namespace Mowis.Sandboxes

open Mowis.Lib

def clamp : Option ℕ → Option ℕ → Option ℕ
  | some p, some c => some (min p c)
  | some p, none => some p
  | none, c => c

def Bounded (child parent : Option ℕ) : Prop :=
  ∀ p, parent = some p → ∃ c, child = some c ∧ c ≤ p

theorem Bounded.trans {a b c : Option ℕ} (hab : Bounded a b) (hbc : Bounded b c) :
    Bounded a c := by
  intro p hp
  obtain ⟨q, hq, hqp⟩ := hbc p hp
  obtain ⟨r, hr, hrq⟩ := hab q hq
  exact ⟨r, hr, hrq.trans hqp⟩

theorem bounded_clamp (parent child : Option ℕ) : Bounded (clamp parent child) parent := by
  rintro p rfl
  cases child with
  | none => exact ⟨p, rfl, le_rfl⟩
  | some c => exact ⟨min p c, rfl, min_le_left p c⟩

structure LimitsBounded (child parent : Sandbox) : Prop where
  ram : Bounded child.limits.ramBytes parent.limits.ramBytes
  cpu : Bounded child.limits.cpuMillis parent.limits.cpuMillis

theorem LimitsBounded.trans {a b c : Sandbox} (hab : LimitsBounded a b) (hbc : LimitsBounded b c) :
    LimitsBounded a c :=
  ⟨hab.ram.trans hbc.ram, hab.cpu.trans hbc.cpu⟩

namespace Sandbox

def new (limits : ResourceLimits) (tools : List String) : Sandbox := ⟨limits, tools, none⟩

def spawnChild (sb : Sandbox) (limits : ResourceLimits) : Sandbox :=
  .new ⟨clamp sb.limits.ramBytes limits.ramBytes, clamp sb.limits.cpuMillis limits.cpuMillis⟩
    sb.tools

def setPolicy (sb : Sandbox) (policy : SecurityPolicy) : Sandbox := { sb with policy }

end Sandbox

/-- The tools of a new sandbox are those that its maker registers at once. -/
inductive Action where
  | new (limits : ResourceLimits) (tools : List String)
  | setPolicy (i : ℕ) (policy : SecurityPolicy)
  | spawnChild (i : ℕ) (limits : ResourceLimits)

abbrev Tree := Forest Sandbox

def step (f : Tree) : Action → Option Tree
  | .new limits tools => some (f.grow (.new limits tools) none nofun)
  | .setPolicy i policy =>
    match f.label i with
    | none => none
    | some sb => some (f.relabel i (sb.setPolicy policy))
  | .spawnChild i limits =>
    if hi : i < f.nodes.length then
      some (f.grow (f.nodes[i].1.spawnChild limits) (some i)
        (by rintro p ⟨⟩; exact hi))
    else none

/-- What is granted in a child is granted in its parent. -/
def Contained (f : Tree) : Prop :=
  f.Linked fun child parent => ∀ name input, child.Grants name input → parent.Grants name input

/-- A child is made by a sandbox that permits all its tools ask for.  A new policy permits no more
of that than the one above it, and no less than those below. -/
def StepOk (f : Tree) : Action → Prop
  | .new _ _ => True
  | .spawnChild i _ => ∀ sb, f.label i = some sb → ∀ access, sb.Asks access → sb.Permits access
  | .setPolicy i policy => ∀ sb, f.label i = some sb →
    (∀ p parent, (∃ child, f.Child i p child) → f.label p = some parent →
      ∀ access, sb.Asks access → policy.permits access → parent.Permits access) ∧
    ∀ j child, f.Child j i child →
      ∀ access, sb.Asks access → child.Permits access → policy.permits access

/-- What is inherited for good. -/
structure Inherits (child parent : Sandbox) : Prop where
  limits : LimitsBounded child parent
  tools : child.tools = parent.tools

section Step

variable {f f' : Tree} {i : ℕ} {sb : Sandbox}

theorem inherits_spawnChild (sb : Sandbox) (limits : ResourceLimits) :
    Inherits (sb.spawnChild limits) sb :=
  ⟨⟨bounded_clamp _ _, bounded_clamp _ _⟩, rfl⟩

theorem step_spawnChild {limits : ResourceLimits} (h : step f (.spawnChild i limits) = some f') :
    ∃ sb hparent, f.label i = some sb ∧ f' = f.grow (sb.spawnChild limits) (some i) hparent := by
  rw [step] at h
  split at h
  · next hi =>
    refine ⟨_, _, ?_, (Option.some.inj h).symm⟩
    rw [Forest.label, List.getElem?_eq_getElem hi]
    rfl
  · cases h

theorem step_setPolicy {policy : SecurityPolicy} (h : step f (.setPolicy i policy) = some f') :
    ∃ sb, f.label i = some sb ∧ f' = f.relabel i (sb.setPolicy policy) := by
  rw [step] at h
  split at h
  · cases h
  · next sb hsb => exact ⟨sb, hsb, (Option.some.inj h).symm⟩

theorem step_inherits {a : Action} (h : f.Linked Inherits) (hstep : step f a = some f') :
    f'.Linked Inherits := by
  cases a with
  | new limits tools =>
    cases hstep
    exact (Forest.linked_grow_iff h).mpr nofun
  | spawnChild i limits =>
    obtain ⟨sb, hparent, hsb, rfl⟩ := step_spawnChild hstep
    refine (Forest.linked_grow_iff h).mpr ?_
    rintro p parent ⟨⟩ hp
    cases hsb.symm.trans hp
    exact inherits_spawnChild sb limits
  | setPolicy i policy =>
    obtain ⟨sb, hsb, rfl⟩ := step_setPolicy hstep
    refine (Forest.linked_relabel_iff h hsb).mpr ⟨?_, fun j child hchild => ?_⟩
    · rintro p parent ⟨child, hchild⟩ hp
      cases hsb.symm.trans hchild.label
      obtain ⟨hlimits, htools⟩ := h i p sb parent hchild hp
      exact ⟨⟨hlimits.ram, hlimits.cpu⟩, htools⟩
    · obtain ⟨hlimits, htools⟩ := h j i child sb hchild hsb
      exact ⟨⟨hlimits.ram, hlimits.cpu⟩, htools⟩

theorem grants_spawnChild (sb : Sandbox) (limits : ResourceLimits) :
    (∀ name input, (sb.spawnChild limits).Grants name input → sb.Grants name input) ↔
      ∀ access, sb.Asks access → sb.Permits access := by
  have htools : (sb.spawnChild limits).tools = sb.tools := rfl
  rw [Sandbox.grants_le_iff htools]
  constructor
  · intro h access hasks
    exact h access hasks fun policy hpolicy => nomatch hpolicy
  · intro h access hasks _
    exact h access hasks

theorem permits_setPolicy {policy : SecurityPolicy} {access : Access} :
    (sb.setPolicy policy).Permits access ↔ policy.permits access = true := by
  constructor
  · intro h
    exact h policy rfl
  · rintro h p ⟨⟩
    exact h

theorem grants_setPolicy_left {policy : SecurityPolicy} {parent : Sandbox}
    (htools : sb.tools = parent.tools) :
    (∀ name input, (sb.setPolicy policy).Grants name input → parent.Grants name input) ↔
      ∀ access, sb.Asks access → policy.permits access → parent.Permits access := by
  have htools' : (sb.setPolicy policy).tools = parent.tools := htools
  rw [Sandbox.grants_le_iff htools']
  exact forall_congr' fun access => imp_congr_right fun _ => imp_congr_left permits_setPolicy

theorem grants_setPolicy_right {policy : SecurityPolicy} {child : Sandbox}
    (htools : child.tools = sb.tools) :
    (∀ name input, child.Grants name input → (sb.setPolicy policy).Grants name input) ↔
      ∀ access, sb.Asks access → child.Permits access → policy.permits access := by
  have htools' : child.tools = (sb.setPolicy policy).tools := htools
  rw [Sandbox.grants_le_iff htools']
  refine forall_congr' fun access => imp_congr ?_ (imp_congr_right fun _ => permits_setPolicy)
  rw [Sandbox.Asks, Sandbox.Asks, htools]

theorem step_contained_iff {a : Action} (hinherits : f.Linked Inherits) (h : Contained f)
    (hstep : step f a = some f') : Contained f' ↔ StepOk f a := by
  cases a with
  | new limits tools =>
    cases hstep
    exact iff_of_true ((Forest.linked_grow_iff h).mpr nofun) trivial
  | spawnChild i limits =>
    obtain ⟨sb, hparent, hsb, rfl⟩ := step_spawnChild hstep
    refine (Forest.linked_grow_iff h).trans ?_
    constructor
    · intro hall sb' hsb'
      cases hsb.symm.trans hsb'
      exact (grants_spawnChild sb limits).mp (hall i sb rfl hsb)
    · rintro hok p parent ⟨⟩ hp
      cases hsb.symm.trans hp
      exact (grants_spawnChild sb limits).mpr (hok sb hsb)
  | setPolicy i policy =>
    obtain ⟨sb, hsb, rfl⟩ := step_setPolicy hstep
    have habove : ∀ p parent, (∃ child, f.Child i p child) → f.label p = some parent →
        ((∀ name input, (sb.setPolicy policy).Grants name input → parent.Grants name input) ↔
          ∀ access, sb.Asks access → policy.permits access → parent.Permits access) := by
      rintro p parent ⟨child, hchild⟩ hp
      cases hsb.symm.trans hchild.label
      exact grants_setPolicy_left (hinherits i p sb parent hchild hp).tools
    have hbelow : ∀ j child, f.Child j i child →
        ((∀ name input, child.Grants name input → (sb.setPolicy policy).Grants name input) ↔
          ∀ access, sb.Asks access → child.Permits access → policy.permits access) :=
      fun j child hchild => grants_setPolicy_right (hinherits j i child sb hchild hsb).tools
    refine (Forest.linked_relabel_iff h hsb).trans ?_
    constructor
    · rintro ⟨hup, hdown⟩ sb' hsb'
      cases hsb.symm.trans hsb'
      exact ⟨fun p parent hchild hp => (habove p parent hchild hp).mp (hup p parent hchild hp),
        fun j child hchild => (hbelow j child hchild).mp (hdown j child hchild)⟩
    · intro hok
      obtain ⟨hup, hdown⟩ := hok sb hsb
      exact ⟨fun p parent hchild hp => (habove p parent hchild hp).mpr (hup p parent hchild hp),
        fun j child hchild => (hbelow j child hchild).mpr (hdown j child hchild)⟩

end Step

section Run

variable {past : List (Tree × Action)} {f : Tree}

theorem inherits_of_run (h : Execution step .empty past f) : f.Linked Inherits :=
  h.invariant nofun fun _ _ _ hinherits hstep => step_inherits hinherits hstep

theorem bounded_of_ancestor (h : Execution step .empty past f) {i j : ℕ} {sb ancestor : Sandbox}
    (hancestor : f.Ancestor i j) (hsb : f.label i = some sb) (ha : f.label j = some ancestor) :
    LimitsBounded sb ancestor := by
  have hlinked : f.Linked LimitsBounded := fun i p child parent hchild hparent =>
    (inherits_of_run h i p child parent hchild hparent).limits
  exact hlinked.of_ancestor (fun _ _ _ => LimitsBounded.trans) hancestor hsb ha

/-- **Spawn trees.**  In every run limits are bounded by those of every ancestor, and grants are
contained in the parent's throughout if and only if every step is as `StepOk` says. -/
theorem contained_iff (h : Execution step .empty past f) :
    (∀ i j sb ancestor, f.Ancestor i j → f.label i = some sb → f.label j = some ancestor →
      LimitsBounded sb ancestor) ∧
    (((∀ e ∈ past, Contained e.1) ∧ Contained f) ↔ ∀ e ∈ past, StepOk e.1 e.2) := by
  constructor
  · intro i j sb ancestor hancestor hsb ha
    exact bounded_of_ancestor h hancestor hsb ha
  · exact h.good_iff nofun (fun _ _ _ hinherits hstep => step_inherits hinherits hstep) nofun
      fun _ _ _ hinherits hcontained hstep => step_contained_iff hinherits hcontained hstep

end Run

/-- A child of a sandbox without a policy. -/
theorem contained_of_spawn : ∃ past f, Execution step .empty past f ∧ f.Child 1 0
    ⟨⟨some 512, some 500⟩, ["run_command"], none⟩ ∧ Contained f := by
  have hstart : Execution step .empty [] .empty := .start
  have hrun := hstart.next (a := .new ⟨some 512, none⟩ ["run_command"]) rfl
  have hspawn := hrun.next (a := .spawnChild 0 ⟨some 1024, some 500⟩) rfl
  refine ⟨_, _, hspawn, rfl, ((contained_iff hspawn).2.mpr ?_).2⟩
  intro e he
  rcases List.mem_cons.mp he with rfl | he
  · rintro sb hsb access - policy hpolicy
    cases hsb
    cases hpolicy
  · rw [List.mem_singleton.mp he]
    trivial

/-- The child of a sandbox that may not run commands may run them. -/
theorem not_contained : ¬ ∀ past f, Execution step .empty past f → Contained f := by
  intro hall
  have hstart : Execution step .empty [] .empty := .start
  have hrun := hstart.next (a := .new ⟨none, none⟩ ["run_command"]) rfl
  have hspawn := (hrun.next (a := .setPolicy 0 .defaultRestrictive) rfl).next
    (a := .spawnChild 0 ⟨none, none⟩) rfl
  have hgrants := hall _ _ hspawn 1 0 _ _ rfl rfl "run_command" .null
    (Sandbox.grants_iff.mpr ⟨by decide, fun _ _ _ hpolicy => nomatch hpolicy⟩)
  have hshell := (Sandbox.grants_iff.mp hgrants).2 .shell (by decide) .defaultRestrictive rfl
  exact absurd hshell (by decide)

end Mowis.Sandboxes
