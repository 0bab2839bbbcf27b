import Mowis.Planner.Extract

/-!
# Documents in other shapes

A planner document may come with a map in the place of an array, or with a string in the place of
an array of one string.  The repairs of `fix_common_json_issues` are meant for these shapes.
-/

namespace Mowis.Planner

open Mowis.Lib Mowis.Lib.JsonText Mowis.Scheduling
open Mowis.Review (Json)

def decodeString : Json → Option String
  | .string s => some (String.ofList s)
  | _ => none

def decodeU32 : Json → Option ℕ
  | .number n =>
    if n ≠ [] ∧ n.all Char.isDigit ∧ Nat.ofDigitChars 10 n 0 < 2 ^ 32 then
      some (Nat.ofDigitChars 10 n 0)
    else none
  | _ => none

def decodeVec {α : Type} (decode : Json → Option α) : Json → Option (List α)
  | .array items => items.mapM decode
  | _ => none

/-- An optional value; `null` or nothing is no value. -/
def decodeOption {α : Type} (decode : Json → Option α) : Option Json → Option (Option α)
  | none => some none
  | some .null => some none
  | some v => (decode v).map some

/-- The field of a struct: by its name in an object, by its place in an array that has at least the
required fields.  A name that is repeated is an error. -/
def structField (names : List Text) (required : ℕ) (v : Json) (name : Text) :
    Option (Option Json) :=
  match v with
  | .object fields =>
    match fields.filter fun e => e.1 = name with
    | [] => some none
    | [e] => some (some e.2)
    | _ => none
  | .array items =>
    if required ≤ items.length ∧ items.length ≤ names.length then
      some items[names.idxOf name]?
    else none
  | _ => none

def needField (names : List Text) (required : ℕ) (v : Json) (name : Text) : Option Json :=
  (structField names required v name).join

def taskFields : List Text := ["id".toList, "description".toList, "deps".toList, "hint".toList]

def decodeTask (v : Json) : Option Task := do
  let id ← (needField taskFields 4 v "id".toList).bind decodeString
  let description ← (needField taskFields 4 v "description".toList).bind decodeString
  let deps ← (needField taskFields 4 v "deps".toList).bind (decodeVec decodeString)
  let hint ← (structField taskFields 4 v "hint".toList).bind (decodeOption decodeString)
  return { id, description, deps, hint }

def decodeTaskGraph (v : Json) : Option TaskGraph :=
  ((needField ["tasks".toList] 1 v "tasks".toList).bind (decodeVec decodeTask)).map TaskGraph.mk

def sandboxFields : List Text :=
  ["name".toList, "scope".toList, "tools".toList, "max_agents".toList, "image".toList]

def decodeSandboxConfig (v : Json) : Option SandboxConfig := do
  let name ← (needField sandboxFields 4 v "name".toList).bind decodeString
  let scope ← (needField sandboxFields 4 v "scope".toList).bind decodeString
  let tools ← (needField sandboxFields 4 v "tools".toList).bind (decodeVec decodeString)
  let maxAgents ← (needField sandboxFields 4 v "max_agents".toList).bind decodeU32
  let image ← (structField sandboxFields 4 v "image".toList).bind (decodeOption decodeString)
  return { name, scope, tools, maxAgents, image }

def decodeSandboxTopology (v : Json) : Option SandboxTopology :=
  ((needField ["sandboxes".toList] 1 v "sandboxes".toList).bind
    (decodeVec decodeSandboxConfig)).map SandboxTopology.mk

def plannerFields : List Text := ["task_graph".toList, "sandbox_topology".toList]

/-- `PlannerJson`. -/
def decodePlanner (v : Json) : Option (TaskGraph × SandboxTopology) := do
  let taskGraph ← (needField plannerFields 2 v "task_graph".toList).bind decodeTaskGraph
  let sandboxTopology ←
    (needField plannerFields 2 v "sandbox_topology".toList).bind decodeSandboxTopology
  return (taskGraph, sandboxTopology)

def OneString (v v' : Json) : Prop := v' = v ∨ ∃ s, v = .array [.string s] ∧ v' = .string s

def AtField (key : Text) (R : Json → Json → Prop) (v v' : Json) : Prop :=
  v' = v ∨ ∃ before after x x', v = .object (before ++ (key, x) :: after) ∧
    v' = .object (before ++ (key, x') :: after) ∧ R x x'

def keyOf (idKey : Text) (item : Json) : Text := (item.getStr idKey).getD []

def ArrayOrMap (idKey : Text) (R : Json → Json → Prop) (v v' : Json) : Prop :=
  v' = v ∨ ∃ items items', v = .array items ∧ List.Forall₂ R items items' ∧
    (v' = .array items' ∨ ∃ fields,
      fields.Perm (items'.map fun item => (keyOf idKey item, item)) ∧ v' = .object fields)

def TasksReshaped : Json → Json → Prop :=
  AtField "task_graph".toList
    (AtField "tasks".toList (ArrayOrMap "id".toList (AtField "deps".toList OneString)))

def SandboxesReshaped : Json → Json → Prop :=
  AtField "sandbox_topology".toList
    (AtField "sandboxes".toList (ArrayOrMap "name".toList (AtField "tools".toList OneString)))

def Reshaped (v v' : Json) : Prop := ∃ w, TasksReshaped v w ∧ SandboxesReshaped w v'

def Refuses {α : Type} (decode : Json → Option α) (R : Json → Json → Prop) : Prop :=
  ∀ v v', R v v' → decode v ≠ none → v' = v ∨ decode v' = none

theorem refuses_oneString : Refuses (decodeVec decodeString) OneString := by
  intro v v' h _
  obtain rfl | ⟨s, -, rfl⟩ := h
  · exact .inl rfl
  · exact .inr rfl

theorem filter_field {key : Text} {x : Json} {before after : List (Text × Json)}
    (h : ((before ++ (key, x) :: after).filter fun e => decide (e.1 = key)).length ≤ 1) :
    before.filter (fun e => decide (e.1 = key)) = [] ∧
      after.filter (fun e => decide (e.1 = key)) = [] := by
  rw [List.filter_append, List.filter_cons_of_pos (by simp), List.length_append,
    List.length_cons] at h
  exact ⟨List.eq_nil_of_length_eq_zero (by omega), List.eq_nil_of_length_eq_zero (by omega)⟩

theorem needField_replaced {names : List Text} {required : ℕ} {key : Text} {x : Json} (x' : Json)
    {before after : List (Text × Json)}
    (h : needField names required (.object (before ++ (key, x) :: after)) key ≠ none) :
    needField names required (.object (before ++ (key, x) :: after)) key = some x ∧
      needField names required (.object (before ++ (key, x') :: after)) key = some x' := by
  have hone : ((before ++ (key, x) :: after).filter fun e => decide (e.1 = key)).length ≤ 1 := by
    unfold needField structField at h
    simp only at h
    split at h
    · next heq => rw [heq]; exact Nat.zero_le _
    · next heq => rw [heq]; exact le_rfl
    · exact absurd rfl h
  obtain ⟨hbefore, hafter⟩ := filter_field hone
  have hread : ∀ y, needField names required (.object (before ++ (key, y) :: after)) key =
      some y := by
    intro y
    rw [needField, structField, List.filter_append, hbefore, List.filter_cons_of_pos (by simp),
      hafter]
    rfl
  exact ⟨hread x, hread x'⟩

theorem refuses_atField {α β : Type} {names : List Text} {required : ℕ} {key : Text}
    {decode : Json → Option α} {decodeField : Json → Option β} {R : Json → Json → Prop}
    (hR : Refuses decodeField R)
    (hneeds : ∀ v, (needField names required v key).bind decodeField = none → decode v = none) :
    Refuses decode (AtField key R) := by
  intro v v' h hread
  obtain rfl | ⟨before, after, x, x', rfl, rfl, hx⟩ := h
  · exact .inl rfl
  have hfield : (needField names required (.object (before ++ (key, x) :: after)) key).bind
      decodeField ≠ none := fun hnone => hread (hneeds _ hnone)
  have hsome : needField names required (.object (before ++ (key, x) :: after)) key ≠ none := by
    intro hnone
    rw [hnone] at hfield
    exact hfield rfl
  obtain ⟨hx', hreplaced⟩ := needField_replaced x' hsome
  rw [hx', Option.bind_some] at hfield
  rcases hR _ _ hx hfield with rfl | hnone
  · exact .inl rfl
  · exact .inr (hneeds _ (by rw [hreplaced, Option.bind_some, hnone]))

theorem mapM_cons_ne_none_iff {α : Type} {decode : Json → Option α} {x : Json} {xs : List Json} :
    (x :: xs).mapM decode ≠ none ↔ decode x ≠ none ∧ xs.mapM decode ≠ none := by
  rw [List.mapM_cons]
  cases decode x with
  | none => simp
  | some a =>
    cases xs.mapM decode with
    | none => simp
    | some as => simp

theorem refuses_items {α : Type} {decode : Json → Option α} {R : Json → Json → Prop}
    (hR : Refuses decode R) {items items' : List Json} (h : List.Forall₂ R items items')
    (hread : items.mapM decode ≠ none) : items' = items ∨ items'.mapM decode = none := by
  induction h with
  | nil => exact .inl rfl
  | @cons x x' xs xs' hx hxs ih =>
    obtain ⟨hxread, hxsread⟩ := mapM_cons_ne_none_iff.mp hread
    by_contra hcon
    obtain ⟨hne, hread'⟩ := not_or.mp hcon
    obtain ⟨hxread', hxsread'⟩ := mapM_cons_ne_none_iff.mp hread'
    have hsame := (hR _ _ hx hxread).resolve_right hxread'
    rw [hsame, (ih hxsread).resolve_right hxsread'] at hne
    exact hne rfl

theorem refuses_arrayOrMap {α : Type} {idKey : Text} {decode : Json → Option α}
    {R : Json → Json → Prop} (hR : Refuses decode R) :
    Refuses (decodeVec decode) (ArrayOrMap idKey R) := by
  intro v v' h hread
  obtain rfl | ⟨items, items', rfl, hitems, rfl | ⟨fields, -, rfl⟩⟩ := h
  · exact .inl rfl
  · rcases refuses_items hR hitems hread with rfl | hnone
    · exact .inl rfl
    · exact .inr hnone
  · exact .inr rfl

theorem decodePlanner_needs_graph {v : Json}
    (h : (needField plannerFields 2 v "task_graph".toList).bind decodeTaskGraph = none) :
    decodePlanner v = none := by
  rw [decodePlanner, h]
  rfl

theorem decodePlanner_needs_topology {v : Json}
    (h : (needField plannerFields 2 v "sandbox_topology".toList).bind decodeSandboxTopology =
      none) : decodePlanner v = none := by
  rw [decodePlanner, h]
  exact Option.bind_fun_none _

theorem decodeTask_needs_deps {v : Json}
    (h : (needField taskFields 4 v "deps".toList).bind (decodeVec decodeString) = none) :
    decodeTask v = none := by
  rw [decodeTask, h]
  refine (Option.bind_congr fun _ _ => ?_).trans (Option.bind_fun_none _)
  exact Option.bind_fun_none _

theorem decodeSandboxConfig_needs_tools {v : Json}
    (h : (needField sandboxFields 4 v "tools".toList).bind (decodeVec decodeString) = none) :
    decodeSandboxConfig v = none := by
  rw [decodeSandboxConfig, h]
  refine (Option.bind_congr fun _ _ => ?_).trans (Option.bind_fun_none _)
  exact Option.bind_fun_none _

def readGraph (v : Json) : Option TaskGraph :=
  (needField plannerFields 2 v "task_graph".toList).bind decodeTaskGraph

theorem refuses_tasks : Refuses readGraph TasksReshaped := by
  have hdeps : Refuses decodeTask (AtField "deps".toList OneString) :=
    refuses_atField refuses_oneString fun _ => decodeTask_needs_deps
  have htasks : Refuses decodeTaskGraph
      (AtField "tasks".toList (ArrayOrMap "id".toList (AtField "deps".toList OneString))) :=
    refuses_atField (refuses_arrayOrMap hdeps) fun v h => by rw [decodeTaskGraph, h]; rfl
  exact refuses_atField htasks fun _ h => h

theorem refuses_sandboxes : Refuses decodePlanner SandboxesReshaped := by
  have htools : Refuses decodeSandboxConfig (AtField "tools".toList OneString) :=
    refuses_atField refuses_oneString fun _ => decodeSandboxConfig_needs_tools
  have hsandboxes : Refuses decodeSandboxTopology
      (AtField "sandboxes".toList (ArrayOrMap "name".toList (AtField "tools".toList OneString))) :=
    refuses_atField (refuses_arrayOrMap htools)
      fun v h => by rw [decodeSandboxTopology, h]; rfl
  exact refuses_atField hsandboxes fun _ => decodePlanner_needs_topology

theorem needField_other {names : List Text} {required : ℕ} {key key' : Text}
    {R : Json → Json → Prop} {v v' : Json} (h : AtField key R v v') (hkey : key ≠ key') :
    needField names required v' key' = needField names required v key' := by
  obtain rfl | ⟨before, after, x, x', rfl, rfl, -⟩ := h
  · rfl
  · have hfilter : ∀ y, (before ++ (key, y) :: after).filter (fun e => decide (e.1 = key')) =
        before.filter (fun e => decide (e.1 = key')) ++
          after.filter fun e => decide (e.1 = key') := by
      intro y
      rw [List.filter_append, List.filter_cons_of_neg (by simpa using hkey)]
    rw [needField, structField, hfilter, needField, structField, hfilter]

theorem decodePlanner_reshaped {v v' : Json} (h : Reshaped v v') (hread : decodePlanner v ≠ none) :
    v' = v ∨ decodePlanner v' = none := by
  obtain ⟨w, htasks, hsandboxes⟩ := h
  rcases refuses_tasks _ _ htasks fun hnone => hread (decodePlanner_needs_graph hnone) with
    rfl | hnone
  · exact refuses_sandboxes _ _ hsandboxes hread
  · refine .inr (decodePlanner_needs_graph ?_)
    rw [needField_other hsandboxes (by decide)]
    exact hnone

/-- A reply with a document in it, which is read as a plan like its value. -/
structure Document (sj : SerdeJson) (response : Text) (v : Json) : Prop where
  value : sj.value (extractJson sj response) = some v
  typed : sj.plannerJson (extractJson sj response) = decodePlanner v

def IsArray : Json → Prop
  | .array _ => True
  | _ => False

def Straight (list entries lists : Text) (v : Json) : Prop :=
  ∀ x y, v.get list = some x → x.get entries = some y →
    ∃ items, y = .array items ∧ ∀ item ∈ items, ∀ z, item.get lists = some z → IsArray z

/-- The same tasks and sandboxes in some order, and the same hints where the order is the same. -/
structure SamePlan (o o' : PlannerOutput) : Prop where
  tasks : o'.taskGraph.tasks.Perm o.taskGraph.tasks
  sandboxes : o'.sandboxTopology.sandboxes.Perm o.sandboxTopology.sandboxes
  hints : o'.taskGraph.tasks = o.taskGraph.tasks →
    o'.sandboxTopology.sandboxes = o.sandboxTopology.sandboxes → o'.sandboxHints = o.sandboxHints

/-- A reshaped document gives the same plan, and is repaired to one with arrays and with all else
as it was. -/
structure Repairs (sj : SerdeJson) (response response' : Text) (v' : Json) : Prop where
  plan : ∃ o o', parsePlannerResponse sj response = .ok o ∧
    parsePlannerResponse sj response' = .ok o' ∧ SamePlan o o'
  repaired : ∃ w, sj.value (fixCommonJsonIssues sj (extractJson sj response')) = some w ∧
    Straight "task_graph".toList "tasks".toList "deps".toList w ∧
    Straight "sandbox_topology".toList "sandboxes".toList "tools".toList w ∧ Reshaped w v'

theorem field_read {α : Type} {names : List Text} {required : ℕ} {key : Text}
    {decodeField : Json → Option α} {v y : Json}
    (h : (needField names required v key).bind decodeField ≠ none) (hget : v.get key = some y) :
    decodeField y ≠ none := by
  cases v with
  | object fields =>
    have hhead : ((fields.filter fun e => decide (e.1 = key)).head?).map Prod.snd = some y := by
      rw [List.head?_filter]
      exact hget
    unfold needField structField at h
    simp only at h
    split at h
    · exact absurd rfl h
    · next e heq =>
      rw [heq] at hhead
      cases hhead
      exact h
    · exact absurd rfl h
  | _ => cases hget

theorem decodeVec_read {α : Type} {decode : Json → Option α} {v : Json}
    (h : decodeVec decode v ≠ none) :
    ∃ items, v = .array items ∧ ∀ item ∈ items, decode item ≠ none := by
  cases v with
  | array items =>
    refine ⟨items, rfl, ?_⟩
    induction items with
    | nil => exact fun item hitem => absurd hitem List.not_mem_nil
    | cons x xs ih =>
      obtain ⟨hx, hxs⟩ := mapM_cons_ne_none_iff.mp h
      exact List.forall_mem_cons.mpr ⟨hx, ih hxs⟩
  | _ => exact absurd rfl h

theorem isArray_of_read {v : Json} (h : decodeVec decodeString v ≠ none) : IsArray v := by
  obtain ⟨items, rfl, -⟩ := decodeVec_read h
  trivial

theorem straight_tasks {v : Json} (h : decodePlanner v ≠ none) :
    Straight "task_graph".toList "tasks".toList "deps".toList v := by
  intro x y hx hy
  have hgraph : decodeTaskGraph x ≠ none :=
    field_read (fun hnone => h (decodePlanner_needs_graph hnone)) hx
  have htasks : decodeVec decodeTask y ≠ none :=
    field_read (fun hnone => hgraph (by rw [decodeTaskGraph, hnone]; rfl)) hy
  obtain ⟨items, rfl, hitems⟩ := decodeVec_read htasks
  refine ⟨items, rfl, fun item hitem z hz => ?_⟩
  exact isArray_of_read
    (field_read (fun hnone => hitems item hitem (decodeTask_needs_deps hnone)) hz)

theorem straight_sandboxes {v : Json} (h : decodePlanner v ≠ none) :
    Straight "sandbox_topology".toList "sandboxes".toList "tools".toList v := by
  intro x y hx hy
  have htopology : decodeSandboxTopology x ≠ none :=
    field_read (fun hnone => h (decodePlanner_needs_topology hnone)) hx
  have hsandboxes : decodeVec decodeSandboxConfig y ≠ none :=
    field_read (fun hnone => htopology (by rw [decodeSandboxTopology, hnone]; rfl)) hy
  obtain ⟨items, rfl, hitems⟩ := decodeVec_read hsandboxes
  refine ⟨items, rfl, fun item hitem z hz => ?_⟩
  exact isArray_of_read
    (field_read (fun hnone => hitems item hitem (decodeSandboxConfig_needs_tools hnone)) hz)

section reply

variable {sj : SerdeJson} (hsj : ∀ t, Accepted sj t → Valid t)
include hsj

theorem fix_document {response : Text} {v : Json} (h : Document sj response v) :
    fixCommonJsonIssues sj (extractJson sj response) = extractJson sj response := by
  have haccepted : Accepted sj (extractJson sj response) := by
    rw [Accepted, h.value]
    rfl
  rw [fixCommonJsonIssues_eq, completeTruncatedJson_valid (hsj _ haccepted)]

theorem parse_document {response : Text} {v : Json} (h : Document sj response v) :
    parsePlannerResponse sj response =
      match decodePlanner v with
      | none => .error (parseFailedText (extractJson sj response))
      | some (taskGraph, sandboxTopology) =>
        if taskGraph.tasks = [] then .error emptyTaskGraphText
        else if sandboxTopology.sandboxes = [] then .error emptyTopologyText
        else .ok ⟨taskGraph, sandboxTopology, buildSandboxHints taskGraph sandboxTopology⟩ := by
  have haccepted : Accepted sj (extractJson sj response) := by
    rw [Accepted, h.value]
    rfl
  have hne : extractJson sj response ≠ [] := by
    intro hnil
    rw [hnil] at haccepted
    exact absurd (hsj _ haccepted) (by decide)
  have hresponse : response ≠ [] := by
    rintro rfl
    exact hne (List.eq_nil_of_infix_nil (extractJson_isInfix sj []))
  rw [parsePlannerResponse, if_neg hresponse]
  cases hplan : decodePlanner v with
  | none => simp only [if_neg hne, fix_document hsj h, h.typed, hplan]
  | some plan => simp only [if_neg hne, fix_document hsj h, h.typed, hplan]

/-- **Documents in other shapes.**  For a parser that accepts JSON texts only, and a document that
is a plan with tasks and sandboxes: with a map in the place of an array, or a string in the place of
an array of one string, in any combination, the promise is kept exactly if nothing is in another
shape. -/
theorem repairs_iff {response response' : Text} {v v' : Json} (hdoc : Document sj response v)
    (hdoc' : Document sj response' v') (hreshaped : Reshaped v v') {o : PlannerOutput}
    (hplan : parsePlannerResponse sj response = .ok o) :
    Repairs sj response response' v' ↔ v' = v := by
  have hread : decodePlanner v ≠ none := by
    intro hnone
    rw [parse_document hsj hdoc, hnone] at hplan
    cases hplan
  constructor
  · intro h
    obtain ⟨-, o', -, hplan', -⟩ := h.plan
    refine (decodePlanner_reshaped hreshaped hread).resolve_right fun hnone => ?_
    rw [parse_document hsj hdoc', hnone] at hplan'
    cases hplan'
  · rintro rfl
    have hplan' : parsePlannerResponse sj response' = .ok o := by
      rw [parse_document hsj hdoc] at hplan
      rw [parse_document hsj hdoc']
      cases hplanner : decodePlanner v' with
      | none => exact absurd hplanner hread
      | some plan =>
        rw [hplanner] at hplan
        exact hplan
    refine ⟨⟨o, o, hplan, hplan', .refl _, .refl _, fun _ _ => rfl⟩, v', ?_,
      straight_tasks hread, straight_sandboxes hread, v', .inl rfl, .inl rfl⟩
    rw [fix_document hsj hdoc', hdoc'.value]

end reply

def oneTask : Json :=
  .object [("id".toList, .string ['t']), ("description".toList, .string []),
    ("deps".toList, .array [])]

def oneTaskText : Text := "\x7b\"id\":\"t\",\"description\":\"\",\"deps\":[]\x7d".toList

def oneSandbox : Json :=
  .object [("name".toList, .string ['s']), ("scope".toList, .string []), ("tools".toList, .array []),
    ("max_agents".toList, .number ['1'])]

def oneSandboxText : Text :=
  "\x7b\"name\":\"s\",\"scope\":\"\",\"tools\":[],\"max_agents\":1\x7d".toList

def oneDocument (tasks : Json) : Json :=
  .object [("task_graph".toList, .object [("tasks".toList, tasks)]),
    ("sandbox_topology".toList, .object [("sandboxes".toList, .array [oneSandbox])])]

def oneDocumentText (tasks : Text) : Text :=
  "\x7b\"task_graph\":\x7b\"tasks\":".toList ++ tasks ++
    "\x7d,\"sandbox_topology\":\x7b\"sandboxes\":[".toList ++ oneSandboxText ++ "]\x7d\x7d".toList

def asArray : Text := oneDocumentText ("[".toList ++ oneTaskText ++ "]".toList)

def asMap : Text := oneDocumentText ("\x7b\"t\":".toList ++ oneTaskText ++ "\x7d".toList)

def twoShapes : SerdeJson where
  value t :=
    if t = asArray then some (oneDocument (.array [oneTask]))
    else if t = asMap then some (oneDocument (.object [(['t'], oneTask)]))
    else none
  print _ := none
  plannerJson t :=
    if t = asArray then decodePlanner (oneDocument (.array [oneTask])) else none

def onePlan : PlannerOutput where
  taskGraph := ⟨[⟨"t", "", [], none⟩]⟩
  sandboxTopology := ⟨[⟨"s", "", [], 1, none⟩]⟩
  sandboxHints := buildSandboxHints ⟨[⟨"t", "", [], none⟩]⟩ ⟨[⟨"s", "", [], 1, none⟩]⟩

theorem twoShapes_accepted {t : Text} (h : Accepted twoShapes t) : Valid t := by
  have hcases : t = asArray ∨ t = asMap := by
    by_contra hno
    obtain ⟨hno, hno'⟩ := not_or.mp hno
    have hnone : twoShapes.value t = none := (if_neg hno).trans (if_neg hno')
    rw [Accepted, hnone] at h
    cases h
  obtain rfl | rfl := hcases
  · decide +kernel
  · decide +kernel

theorem decode_oneDocument : decodePlanner (oneDocument (.array [oneTask])) =
    some (onePlan.taskGraph, onePlan.sandboxTopology) := by
  rfl

theorem document_asArray : Document twoShapes asArray (oneDocument (.array [oneTask])) := by
  have hextract : extractJson twoShapes asArray = asArray := by decide +kernel
  exact ⟨if_pos hextract, if_pos hextract⟩

theorem document_asMap : Document twoShapes asMap (oneDocument (.object [(['t'], oneTask)])) := by
  have hextract : extractJson twoShapes asMap = asMap := by decide +kernel
  have hne : extractJson twoShapes asMap ≠ asArray := by
    rw [hextract]
    decide +kernel
  exact ⟨(if_neg hne).trans (if_pos hextract), if_neg hne⟩

theorem plan_asArray : parsePlannerResponse twoShapes asArray = .ok onePlan := by
  rw [parse_document (fun _ => twoShapes_accepted) document_asArray, decode_oneDocument]
  rfl

theorem reshaped_asMap :
    Reshaped (oneDocument (.array [oneTask])) (oneDocument (.object [(['t'], oneTask)])) := by
  refine ⟨_, .inr ⟨[], _, _, _, rfl, rfl, .inr ⟨[], [], _, _, rfl, rfl, ?_⟩⟩, .inl rfl⟩
  exact .inr ⟨[oneTask], [oneTask], rfl, .cons (.inl rfl) .nil, .inr ⟨_, .refl _, rfl⟩⟩

/-- The document in its own shape. -/
theorem repairs_own_shape :
    Repairs twoShapes asArray asArray (oneDocument (.array [oneTask])) :=
  (repairs_iff (fun _ => twoShapes_accepted) document_asArray document_asArray
    ⟨_, .inl rfl, .inl rfl⟩ plan_asArray).mpr rfl

/-- The tasks as a map: the reply is refused. -/
theorem not_repairs : ¬ ∀ sj response response' v v' o, (∀ t, Accepted sj t → Valid t) →
    Document sj response v → Document sj response' v' → Reshaped v v' →
    parsePlannerResponse sj response = .ok o → Repairs sj response response' v' := by
  intro h
  obtain ⟨-, o', -, hplan, -⟩ := (h _ _ _ _ _ _ (fun _ => twoShapes_accepted) document_asArray
    document_asMap reshaped_asMap plan_asArray).plan
  rw [parse_document (fun _ => twoShapes_accepted) document_asMap] at hplan
  have hnone : decodePlanner (oneDocument (.object [(['t'], oneTask)])) = none := rfl
  rw [hnone] at hplan
  cases hplan

end Mowis.Planner
