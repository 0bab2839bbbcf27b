import Mowis.Review.Conflict

/-!
# When conflict detection is exact

What the detector is for, in terms of contributions: a contribution touches the paths of its
sections and the paths it renames away, and two contributions that touch one path are in
conflict.  The detector counts the sections with one destination path.
-/

namespace Mowis.Review

open Mowis.Lib

def RenamesAway (fc : FileChange) (path : Text) : Prop :=
  fc.changeType = .renamed path ∧ fc.filePath ≠ path

def Touches (c : AgentContribution) (path : Text) : Prop :=
  ∃ fc ∈ c.fileChanges, fc.filePath = path ∨ fc.changeType = .renamed path

def Removes (c : AgentContribution) (path : Text) : Prop :=
  ∃ fc ∈ c.fileChanges, (fc.filePath = path ∧ fc.changeType = .deleted) ∨ RenamesAway fc path

def Keeps (c : AgentContribution) (path : Text) : Prop :=
  ∃ fc ∈ c.fileChanges, fc.filePath = path ∧ fc.changeType ≠ .deleted

def TwoOf (contributions : List AgentContribution) (P Q : AgentContribution → Prop) : Prop :=
  ∃ (i j : ℕ) (a b : AgentContribution),
    i ≠ j ∧ contributions[i]? = some a ∧ contributions[j]? = some b ∧ P a ∧ Q b

/-- What the conflicts of a list of contributions should be. -/
structure Exact (contributions : List AgentContribution) (conflicts : List MergeConflict) :
    Prop where
  reported : ∀ path, (∃ c ∈ conflicts, c.filePath = path) ↔
    TwoOf contributions (Touches · path) (Touches · path)
  deleteModify : ∀ path,
    (∃ c ∈ conflicts, c.filePath = path ∧ c.conflictType = .deleteModify) ↔
      TwoOf contributions (Removes · path) (Keeps · path)

def sectionsAt (c : AgentContribution) (path : Text) : List FileChange :=
  c.fileChanges.filter fun fc => fc.filePath = path

def SoloRepeat (contributions : List AgentContribution) (path : Text) : Prop :=
  (∃ c ∈ contributions, 2 ≤ (sectionsAt c path).length) ∧
    ¬ TwoOf contributions (Touches · path) (Touches · path)

/-- One contribution renames the path away and another touches it, but at most one section
has it as its destination. -/
def MissedRename (contributions : List AgentContribution) (path : Text) : Prop :=
  TwoOf contributions (fun c => ∃ fc ∈ c.fileChanges, fc.changeType = .renamed path)
      (Touches · path) ∧
    (contributions.flatMap (sectionsAt · path)).length ≤ 1

/-- One contribution renames the path away and another keeps or changes it, but no section
deletes it. -/
def RenameModify (contributions : List AgentContribution) (path : Text) : Prop :=
  TwoOf contributions (fun c => ∃ fc ∈ c.fileChanges, RenamesAway fc path) (Keeps · path) ∧
    ∀ c ∈ contributions, ∀ fc ∈ c.fileChanges, fc.filePath = path → fc.changeType ≠ .deleted

theorem mem_entriesAt {contributions : List AgentContribution} {path : Text}
    {e : ℕ × FileChange} :
    e ∈ entriesAt contributions path ↔
      ∃ c, contributions[e.1]? = some c ∧ e.2 ∈ sectionsAt c path := by
  simp only [entriesAt, indexedChanges, sectionsAt, List.mem_filter, List.mem_flatMap,
    List.mem_map, decide_eq_true_eq]
  constructor
  · rintro ⟨⟨⟨c, i⟩, hc, fc, hfc, rfl⟩, hpath⟩
    exact ⟨c, List.mem_zipIdx_iff_getElem?.mp hc, hfc, hpath⟩
  · rintro ⟨c, hc, hfc, hpath⟩
    exact ⟨⟨⟨c, e.1⟩, List.mem_zipIdx_iff_getElem?.mpr hc, e.2, hfc, rfl⟩, hpath⟩

theorem entriesAt_map_snd (contributions : List AgentContribution) (path : Text) :
    (entriesAt contributions path).map Prod.snd = contributions.flatMap (sectionsAt · path) := by
  have hzip : ∀ n, (((contributions.zipIdx n).flatMap
      fun c => c.1.fileChanges.map fun fc => (c.2, fc)).filter
        (fun e => decide (e.2.filePath = path))).map Prod.snd =
      contributions.flatMap (sectionsAt · path) := by
    induction contributions with
    | nil => intro n; rfl
    | cons c cs ih =>
      intro n
      rw [List.zipIdx_cons, List.flatMap_cons, List.flatMap_cons, List.filter_append,
        List.map_append, ih, List.filter_map, List.map_map]
      congr 1
      exact List.map_id _
  exact hzip 0

theorem length_entriesAt (contributions : List AgentContribution) (path : Text) :
    (entriesAt contributions path).length =
      (contributions.flatMap (sectionsAt · path)).length := by
  rw [← entriesAt_map_snd, List.length_map]

theorem mem_sectionsAt {c : AgentContribution} {path : Text} {fc : FileChange} :
    fc ∈ sectionsAt c path ↔ fc ∈ c.fileChanges ∧ fc.filePath = path := by
  simp [sectionsAt]

theorem touches_of_mem_sectionsAt {c : AgentContribution} {path : Text} {fc : FileChange}
    (h : fc ∈ sectionsAt c path) : Touches c path :=
  ⟨fc, (mem_sectionsAt.mp h).1, .inl (mem_sectionsAt.mp h).2⟩

theorem sectionsAt_of_solo {contributions : List AgentContribution} {path : Text}
    (hlen : 2 ≤ (contributions.flatMap (sectionsAt · path)).length)
    (hsolo : ¬ TwoOf contributions (Touches · path) (Touches · path)) :
    ∃ c ∈ contributions, 2 ≤ (sectionsAt c path).length := by
  induction contributions with
  | nil => exact absurd hlen (by simp)
  | cons c cs ih =>
    by_cases hc : sectionsAt c path = []
    · have hlen' : 2 ≤ (cs.flatMap (sectionsAt · path)).length := by
        simpa [List.flatMap_cons, hc] using hlen
      have hsolo' : ¬ TwoOf cs (Touches · path) (Touches · path) := by
        rintro ⟨i, j, a, b, hij, ha, hb, hta, htb⟩
        exact hsolo ⟨i + 1, j + 1, a, b, by omega, ha, hb, hta, htb⟩
      obtain ⟨d, hd, hlen⟩ := ih hlen' hsolo'
      exact ⟨d, List.mem_cons_of_mem c hd, hlen⟩
    · -- the first contribution touches the path, so no later one has a section for it
      obtain ⟨fc, hfc⟩ := List.exists_mem_of_ne_nil _ hc
      have hrest : cs.flatMap (sectionsAt · path) = [] := by
        rw [List.flatMap_eq_nil_iff]
        intro d hd
        by_contra hne
        obtain ⟨gc, hgc⟩ := List.exists_mem_of_ne_nil _ hne
        obtain ⟨j, hj⟩ := List.getElem?_of_mem hd
        exact hsolo ⟨0, j + 1, c, d, by omega, rfl, hj, touches_of_mem_sectionsAt hfc,
          touches_of_mem_sectionsAt hgc⟩
      rw [List.flatMap_cons, hrest, List.append_nil] at hlen
      exact ⟨c, List.mem_cons_self, hlen⟩

theorem length_sectionsAt_le {contributions : List AgentContribution} {c : AgentContribution}
    (h : c ∈ contributions) (path : Text) :
    (sectionsAt c path).length ≤ (contributions.flatMap (sectionsAt · path)).length := by
  obtain ⟨xs, ys, rfl⟩ := List.append_of_mem h
  simp only [List.flatMap_append, List.flatMap_cons, List.length_append]
  omega

theorem two_le_of_sections {contributions : List AgentContribution} {path : Text} {i j : ℕ}
    {a b : AgentContribution} (hij : i ≠ j) (ha : contributions[i]? = some a)
    (hb : contributions[j]? = some b) (hsa : sectionsAt a path ≠ [])
    (hsb : sectionsAt b path ≠ []) :
    2 ≤ (contributions.flatMap (sectionsAt · path)).length := by
  obtain ⟨fa, hfa⟩ := List.exists_mem_of_ne_nil _ hsa
  obtain ⟨fb, hfb⟩ := List.exists_mem_of_ne_nil _ hsb
  have hea : (i, fa) ∈ entriesAt contributions path := mem_entriesAt.mpr ⟨a, ha, hfa⟩
  have heb : (j, fb) ∈ entriesAt contributions path := mem_entriesAt.mpr ⟨b, hb, hfb⟩
  rw [← length_entriesAt]
  by_contra hlen
  match entriesAt contributions path, hlen, hea, heb with
  | [], _, hea, _ => exact List.not_mem_nil hea
  | [x], _, hea, heb =>
    rw [List.mem_singleton] at hea heb
    exact hij (congrArg Prod.fst (hea.trans heb.symm))
  | _ :: _ :: _, hlen, _, _ =>
    simp only [List.length_cons] at hlen
    omega

/-! ### Exactness -/

theorem TwoOf.imp {contributions : List AgentContribution} {P Q P' Q' : AgentContribution → Prop}
    (h : TwoOf contributions P Q) (hP : ∀ c, P c → P' c) (hQ : ∀ c, Q c → Q' c) :
    TwoOf contributions P' Q' := by
  obtain ⟨i, j, a, b, hij, ha, hb, hpa, hqb⟩ := h
  exact ⟨i, j, a, b, hij, ha, hb, hP a hpa, hQ b hqb⟩

theorem renames_of_no_section {c : AgentContribution} {path : Text} (h : Touches c path)
    (hnone : sectionsAt c path = []) :
    ∃ fc ∈ c.fileChanges, fc.changeType = .renamed path := by
  obtain ⟨fc, hfc, hpath | hren⟩ := h
  · have hmem := mem_sectionsAt.mpr ⟨hfc, hpath⟩
    rw [hnone] at hmem
    exact absurd hmem List.not_mem_nil
  · exact ⟨fc, hfc, hren⟩

theorem two_sections_iff_touch (contributions : List AgentContribution) (path : Text) :
    (2 ≤ (contributions.flatMap (sectionsAt · path)).length ↔
      TwoOf contributions (Touches · path) (Touches · path)) ↔
    ¬ SoloRepeat contributions path ∧ ¬ MissedRename contributions path := by
  constructor
  · intro hiff
    constructor
    · rintro ⟨⟨c, hc, hlen⟩, hsolo⟩
      exact hsolo (hiff.mp (Nat.le_trans hlen (length_sectionsAt_le hc path)))
    · rintro ⟨htwo, hlen⟩
      have htouch := htwo.imp (fun c h => by
        obtain ⟨fc, hfc, hren⟩ := h
        exact (⟨fc, hfc, .inr hren⟩ : Touches c path)) (fun c h => h)
      have hcontra := hiff.mpr htouch
      omega
  · rintro ⟨hsolo, hmissed⟩
    constructor
    · intro hlen
      by_contra htwo
      exact hsolo ⟨sectionsAt_of_solo hlen htwo, htwo⟩
    · intro htwo
      by_contra hlen
      apply hmissed
      refine ⟨?_, by omega⟩
      obtain ⟨i, j, a, b, hij, ha, hb, hta, htb⟩ := htwo
      -- one of the two has no section, since there is at most one
      by_cases hsa : sectionsAt a path = []
      · exact ⟨i, j, a, b, hij, ha, hb, renames_of_no_section hta hsa, htb⟩
      · have hsb : sectionsAt b path = [] := by
          by_contra hne
          exact hlen (two_le_of_sections hij ha hb hsa hne)
        exact ⟨j, i, b, a, Ne.symm hij, hb, ha, renames_of_no_section htb hsb, hta⟩

theorem exists_deleted_entry_iff {contributions : List AgentContribution} {path : Text} :
    (∃ e ∈ entriesAt contributions path, isDeleted e.2) ↔
      ∃ (i : ℕ) (c : AgentContribution), contributions[i]? = some c ∧
        ∃ fc ∈ c.fileChanges, fc.filePath = path ∧ fc.changeType = .deleted := by
  constructor
  · rintro ⟨e, he, hdel⟩
    obtain ⟨c, hc, hfc⟩ := mem_entriesAt.mp he
    exact ⟨e.1, c, hc, e.2, (mem_sectionsAt.mp hfc).1, (mem_sectionsAt.mp hfc).2,
      of_decide_eq_true hdel⟩
  · rintro ⟨i, c, hc, fc, hfc, hpath, hdel⟩
    exact ⟨(i, fc), mem_entriesAt.mpr ⟨c, hc, mem_sectionsAt.mpr ⟨hfc, hpath⟩⟩,
      decide_eq_true hdel⟩

theorem exists_kept_entry_iff {contributions : List AgentContribution} {path : Text} :
    (∃ e ∈ entriesAt contributions path, ¬ isDeleted e.2) ↔
      ∃ (i : ℕ) (c : AgentContribution), contributions[i]? = some c ∧ Keeps c path := by
  constructor
  · rintro ⟨e, he, hkeep⟩
    obtain ⟨c, hc, hfc⟩ := mem_entriesAt.mp he
    exact ⟨e.1, c, hc, e.2, (mem_sectionsAt.mp hfc).1, (mem_sectionsAt.mp hfc).2,
      fun hdel => hkeep (decide_eq_true hdel)⟩
  · rintro ⟨i, c, hc, fc, hfc, hpath, hkeep⟩
    exact ⟨(i, fc), mem_entriesAt.mpr ⟨c, hc, mem_sectionsAt.mpr ⟨hfc, hpath⟩⟩,
      fun hdel => hkeep (of_decide_eq_true hdel)⟩

theorem removes_or_keeps {c : AgentContribution} {path : Text} (h : Touches c path) :
    Removes c path ∨ Keeps c path := by
  obtain ⟨fc, hfc, hpath | hren⟩ := h
  · by_cases hdel : fc.changeType = .deleted
    · exact .inl ⟨fc, hfc, .inl ⟨hpath, hdel⟩⟩
    · exact .inr ⟨fc, hfc, hpath, hdel⟩
  · by_cases hpath : fc.filePath = path
    · exact .inr ⟨fc, hfc, hpath, by rw [hren]; simp⟩
    · exact .inl ⟨fc, hfc, .inr ⟨hren, hpath⟩⟩

theorem two_le_sectionsAt {c : AgentContribution} {path : Text} {d k : FileChange}
    (hd : d ∈ sectionsAt c path) (hk : k ∈ sectionsAt c path) (hdk : d ≠ k) :
    2 ≤ (sectionsAt c path).length := by
  by_contra hlen
  match sectionsAt c path, hlen, hd, hk with
  | [], _, hd, _ => exact List.not_mem_nil hd
  | [x], _, hd, hk =>
    rw [List.mem_singleton] at hd hk
    exact hdk (hd.trans hk.symm)
  | _ :: _ :: _, hlen, _, _ =>
    simp only [List.length_cons] at hlen
    omega

theorem two_of_delete_and_keep {contributions : List AgentContribution} {path : Text}
    (hsolo : ¬ SoloRepeat contributions path)
    (hdel : ∃ e ∈ entriesAt contributions path, isDeleted e.2)
    (hkeep : ∃ e ∈ entriesAt contributions path, ¬ isDeleted e.2) :
    TwoOf contributions (Removes · path) (Keeps · path) := by
  obtain ⟨i, a, ha, d, hd, hdpath, hdtype⟩ := exists_deleted_entry_iff.mp hdel
  obtain ⟨j, b, hb, k, hk, hkpath, hktype⟩ := exists_kept_entry_iff.mp hkeep
  have hremoves : Removes a path := ⟨d, hd, .inl ⟨hdpath, hdtype⟩⟩
  have hkeeps : Keeps b path := ⟨k, hk, hkpath, hktype⟩
  by_cases hij : i = j
  · subst hij
    have hab : a = b := Option.some.inj (ha.symm.trans hb)
    subst hab
    have htwo : 2 ≤ (sectionsAt a path).length := by
      apply two_le_sectionsAt (mem_sectionsAt.mpr ⟨hd, hdpath⟩) (mem_sectionsAt.mpr ⟨hk, hkpath⟩)
      intro hdk
      exact hktype (hdk ▸ hdtype)
    have htouch : TwoOf contributions (Touches · path) (Touches · path) := by
      by_contra hone
      exact hsolo ⟨⟨a, List.mem_of_getElem? ha, htwo⟩, hone⟩
    -- some contribution other than `a` touches the path
    have hother : ∃ (m : ℕ) (c : AgentContribution), m ≠ i ∧ contributions[m]? = some c ∧
        Touches c path := by
      obtain ⟨m, n, c, e, hmn, hc, he, htc, hte⟩ := htouch
      by_cases hmi : m = i
      · exact ⟨n, e, fun hni => hmn (hmi.trans hni.symm), he, hte⟩
      · exact ⟨m, c, hmi, hc, htc⟩
    obtain ⟨m, c, hmi, hc, htc⟩ := hother
    rcases removes_or_keeps htc with hr | hk
    · exact ⟨m, i, c, a, hmi, hc, ha, hr, hkeeps⟩
    · exact ⟨i, m, a, c, Ne.symm hmi, ha, hc, hremoves, hk⟩
  · exact ⟨i, j, a, b, hij, ha, hb, hremoves, hkeeps⟩

/-- Unless one contribution does both alone, the paths with a deletion and a modification are
those that one contribution removes and another keeps, exactly when no removal is a rename
that the detector does not see. -/
theorem delete_and_keep_iff (contributions : List AgentContribution) (path : Text)
    (hsolo : ¬ SoloRepeat contributions path) :
    (((∃ e ∈ entriesAt contributions path, isDeleted e.2) ∧
        ∃ e ∈ entriesAt contributions path, ¬ isDeleted e.2) ↔
      TwoOf contributions (Removes · path) (Keeps · path)) ↔
    ¬ RenameModify contributions path := by
  constructor
  · rintro hiff ⟨htwo, hnodel⟩
    have hboth := hiff.mpr (htwo.imp
      (fun c ⟨fc, hfc, hren⟩ => ⟨fc, hfc, .inr hren⟩) (fun _ hkeep => hkeep))
    obtain ⟨i, c, hc, fc, hfc, hpath, hdel⟩ := exists_deleted_entry_iff.mp hboth.1
    exact hnodel c (List.mem_of_getElem? hc) fc hfc hpath hdel
  · intro hren
    constructor
    · rintro ⟨hdel, hkeep⟩
      exact two_of_delete_and_keep hsolo hdel hkeep
    · intro htwo
      obtain ⟨i, j, a, b, hij, ha, hb, hremoves, hkeeps⟩ := htwo
      refine ⟨?_, exists_kept_entry_iff.mpr ⟨j, b, hb, hkeeps⟩⟩
      by_contra hnodel
      rw [exists_deleted_entry_iff] at hnodel
      apply hren
      constructor
      · obtain ⟨fc, hfc, ⟨hpath, hdel⟩ | haway⟩ := hremoves
        · exact absurd ⟨i, a, ha, fc, hfc, hpath, hdel⟩ hnodel
        · exact ⟨i, j, a, b, hij, ha, hb, ⟨fc, hfc, haway⟩, hkeeps⟩
      · intro c hc fc hfc hpath hdel
        obtain ⟨m, hm⟩ := List.getElem?_of_mem hc
        exact hnodel ⟨m, c, hm, fc, hfc, hpath, hdel⟩

theorem exact_iff {mode : Overflow} {order : IterOrder Text}
    {contributions : List AgentContribution} {conflicts : List MergeConflict}
    (h : detect mode order contributions = some conflicts) :
    Exact contributions conflicts ↔
      ∀ path, ¬ SoloRepeat contributions path ∧ ¬ MissedRename contributions path ∧
        ¬ RenameModify contributions path := by
  constructor
  · intro hexact path
    have hreported := hexact.reported path
    rw [reported_iff h, length_entriesAt, two_sections_iff_touch] at hreported
    have hdm := hexact.deleteModify path
    rw [deleteModify_iff h, delete_and_keep_iff contributions path hreported.1] at hdm
    exact ⟨hreported.1, hreported.2, hdm⟩
  · intro hall
    constructor
    · intro path
      rw [reported_iff h, length_entriesAt, two_sections_iff_touch]
      exact ⟨(hall path).1, (hall path).2.1⟩
    · intro path
      rw [deleteModify_iff h, delete_and_keep_iff contributions path (hall path).1]
      exact (hall path).2.2

/-- **Detection is exact exactly when** no contribution repeats a path that no other touches,
and no path that one renames away and another touches is missed.  It holds of every build
and every order in which the map is walked. -/
theorem detect_exact_iff (contributions : List AgentContribution) :
    (∀ mode order conflicts, detect mode order contributions = some conflicts →
      Exact contributions conflicts) ↔
    ∀ path, ¬ SoloRepeat contributions path ∧ ¬ MissedRename contributions path ∧
      ¬ RenameModify contributions path := by
  constructor
  · intro h
    obtain ⟨conflicts, hconflicts⟩ := detect_wraps IterOrder.stored contributions
    exact (exact_iff hconflicts).mp (h _ _ _ hconflicts)
  · intro h mode order conflicts hconflicts
    exact (exact_iff hconflicts).mpr h

def oldPath : Text := "old".toList

/-- Renames `old` to `new`. -/
def renamer : AgentContribution where
  agentId := "a".toList
  taskId := []
  taskDescription := []
  fileChanges :=
    [{ filePath := "new".toList, changeType := .renamed oldPath, hunks := [], rawDiff := [] }]
  rawDiff := []

/-- Modifies `old`. -/
def modifier : AgentContribution where
  agentId := "b".toList
  taskId := []
  taskDescription := []
  fileChanges := [{ filePath := oldPath, changeType := .modified, hunks := [], rawDiff := [] }]
  rawDiff := []

/-- One agent renames the file that another modifies, and no conflict is reported. -/
theorem rename_of_modified_missed :
    ¬ ∀ (contributions : List AgentContribution) (mode : Overflow) (order : IterOrder Text)
        (conflicts : List MergeConflict),
      (contributions.map AgentContribution.agentId).Nodup →
      detect mode order contributions = some conflicts → Exact contributions conflicts := by
  intro h
  obtain ⟨conflicts, hconflicts⟩ := detect_wraps IterOrder.stored [renamer, modifier]
  have hexact := h [renamer, modifier] .wraps IterOrder.stored conflicts (by decide) hconflicts
  have htouch : TwoOf [renamer, modifier] (Touches · oldPath) (Touches · oldPath) :=
    ⟨0, 1, renamer, modifier, by decide, rfl, rfl,
      ⟨_, List.mem_singleton_self _, .inr rfl⟩, ⟨_, List.mem_singleton_self _, .inl rfl⟩⟩
  have hlen := (reported_iff hconflicts oldPath).mp ((hexact.reported oldPath).mpr htouch)
  rw [length_entriesAt] at hlen
  exact absurd hlen (by decide)

end Mowis.Review
