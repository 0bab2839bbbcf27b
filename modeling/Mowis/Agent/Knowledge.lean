import Mowis.Lib.HashMap
import Mowis.Lib.Utf8
import Mowis.Routing.Agreement

/-!
# The knowledge of an agent

`LongTermMemory` of `agentd/src/memory.rs`, as far as it is about knowledge: a vector of entries
that only grows, and next to it the position of the entry that was stored last under each key.
-/

namespace Mowis.Agent.Knowledge

open Mowis.Lib
open Mowis.Routing (Lowercase asciiLower)

/-- What is used of `f32`. -/
structure Floats (F : Type*) where
  zero : F
  one : F
  /-- The quotient of two numbers that were converted. -/
  ratio : ℕ → ℕ → F
  ge : F → F → Bool

structure KnowledgeEntry (F : Type*) where
  key : Text
  value : Text
  confidence : F
  source : Text
  createdAt : UInt64
  accessedCount : UInt64
  keywords : List Text
  deriving DecidableEq

structure LongTermMemory (F : Type*) where
  knowledgeIndex : HashMap Text ℕ
  knowledgeBase : List (KnowledgeEntry F)
  deriving DecidableEq

/-- What is used of the characters of a text: `to_lowercase` and `is_alphanumeric`. -/
structure Letters where
  lowercase : Lowercase
  isAlphanumeric : Char → Bool

/-- The words of more than two bytes, each once, in the order in which the hash set is walked. -/
def extractKeywords (letters : Letters) (order : IterOrder Text) (text : Text) : List Text :=
  order.arrange <|
    ((letters.lowercase.lower text).splitOnP fun c => !letters.isAlphanumeric c).filter
      (fun w => 2 < (utf8 w).length) |>.dedup

theorem extractKeywords_nil (letters : Letters) (order : IterOrder Text) :
    extractKeywords letters order [] = [] := by
  rw [extractKeywords, letters.lowercase.nil, IterOrder.arrange_eq_nil]
  rfl

/-- `keyword_similarity`: the share of common words. -/
def keywordSimilarity {F : Type*} (floats : Floats F) (a b : List Text) : F :=
  if a = [] ∧ b = [] then floats.one
  else if a = [] ∨ b = [] then floats.zero
  else
    let union := (a.toFinset ∪ b.toFinset).card
    if union = 0 then floats.zero else floats.ratio (a.toFinset ∩ b.toFinset).card union

variable {F : Type*} (letters : Letters) (order : IterOrder Text)

def prepared (entry : KnowledgeEntry F) : KnowledgeEntry F :=
  if entry.keywords = [] then
    { entry with keywords := extractKeywords letters order (entry.key ++ ' ' :: entry.value) }
  else entry

@[simp] theorem key_prepared (entry : KnowledgeEntry F) :
    (prepared letters order entry).key = entry.key := by
  unfold prepared
  split <;> rfl

namespace LongTermMemory

variable (m : LongTermMemory F)

def new : LongTermMemory F := ⟨∅, []⟩

def storeKnowledge (entry : KnowledgeEntry F) : LongTermMemory F where
  knowledgeIndex := m.knowledgeIndex.insert entry.key m.knowledgeBase.length
  knowledgeBase := m.knowledgeBase ++ [prepared letters order entry]

def retrieveKnowledge (key : Text) : Option (KnowledgeEntry F) :=
  (m.knowledgeIndex.lookup key).bind fun idx => m.knowledgeBase[idx]?

def searchKnowledge (query : Text) : List (KnowledgeEntry F) :=
  let queryKeywords := extractKeywords letters order query
  if queryKeywords = [] then m.knowledgeBase
  else m.knowledgeBase.filter fun e =>
    queryKeywords.any (e.keywords.contains ·) || decide (query <:+: e.key) ||
      decide (query <:+: e.value)

def findSimilarKnowledge (floats : Floats F) (queryKeywords : List Text) (threshold : F) :
    List (KnowledgeEntry F) :=
  m.knowledgeBase.filter fun e =>
    floats.ge (keywordSimilarity floats e.keywords queryKeywords) threshold

end LongTermMemory

/-- How a memory becomes a JSON text, and a text a memory.  A confidence that is no number is
written as `null`, which is not read as one. -/
structure Serde (F : Type*) where
  serializeLtm : LongTermMemory F → Option Text
  deserializeLtm : Text → Option (LongTermMemory F)

/-- What is read of a text that was written is what was written. -/
def Serde.Faithful (serde : Serde F) : Prop :=
  ∀ m text m', serde.serializeLtm m = some text → serde.deserializeLtm text = some m' → m' = m

inductive Op (F : Type*) where
  | store (entry : KnowledgeEntry F) (order : IterOrder Text)
  | roundTrip

def Op.apply (serde : Serde F) (m : LongTermMemory F) : Op F → LongTermMemory F
  | .store entry order => m.storeKnowledge letters order entry
  | .roundTrip => ((serde.serializeLtm m).bind serde.deserializeLtm).getD m

def run (serde : Serde F) (ops : List (Op F)) : LongTermMemory F :=
  ops.foldl (Op.apply letters serde) .new

def storedBy : List (Op F) → List (KnowledgeEntry F)
  | [] => []
  | .store entry order :: ops => prepared letters order entry :: storedBy ops
  | .roundTrip :: ops => storedBy ops

def lastUnder (stored : List (KnowledgeEntry F)) (key : Text) : Option (KnowledgeEntry F) :=
  stored.reverse.find? fun e => e.key = key

def Current (m : LongTermMemory F) (results : List (KnowledgeEntry F)) : Prop :=
  (∀ e ∈ results, m.retrieveKnowledge e.key = some e) ∧ (results.map (·.key)).Nodup

/-- What is promised of a memory with these entries stored. -/
structure Consistent (m : LongTermMemory F) (stored : List (KnowledgeEntry F)) : Prop where
  retrieved : ∀ key, m.retrieveKnowledge key = lastUnder stored key
  searched : ∀ order query, Current m (m.searchKnowledge letters order query)
  similar : ∀ floats queryKeywords threshold,
    Current m (m.findSimilarKnowledge floats queryKeywords threshold)

section Index

variable {m : LongTermMemory F} {stored : List (KnowledgeEntry F)}

/-- The vector has all that was stored, and the index leads to what was stored last. -/
structure Indexed (m : LongTermMemory F) (stored : List (KnowledgeEntry F)) : Prop where
  base : m.knowledgeBase = stored
  inside : ∀ key idx, m.knowledgeIndex.lookup key = some idx → idx < m.knowledgeBase.length
  last : ∀ key, m.retrieveKnowledge key = lastUnder stored key

theorem indexed_new : Indexed (.new : LongTermMemory F) [] where
  base := rfl
  inside _ _ h := nomatch h
  last _ := rfl

theorem lastUnder_concat (stored : List (KnowledgeEntry F)) (e : KnowledgeEntry F) (key : Text) :
    lastUnder (stored ++ [e]) key = if e.key = key then some e else lastUnder stored key := by
  unfold lastUnder
  rw [List.reverse_append, List.reverse_singleton, List.singleton_append, List.find?_cons]
  by_cases h : e.key = key <;> simp [h]

theorem Indexed.store (h : Indexed m stored) (entry : KnowledgeEntry F) :
    Indexed (m.storeKnowledge letters order entry) (stored ++ [prepared letters order entry]) where
  base := congrArg (· ++ _) h.base
  inside key idx hlookup := by
    have hlen : (m.storeKnowledge letters order entry).knowledgeBase.length =
        m.knowledgeBase.length + 1 := List.length_append
    rw [LongTermMemory.storeKnowledge, HashMap.lookup_insert_eq_ite] at hlookup
    rw [hlen]
    split at hlookup
    · cases hlookup
      exact Nat.lt_succ_self _
    · exact Nat.lt_succ_of_lt (h.inside key idx hlookup)
  last key := by
    rw [lastUnder_concat, key_prepared, LongTermMemory.retrieveKnowledge,
      LongTermMemory.storeKnowledge, HashMap.lookup_insert_eq_ite]
    by_cases hkey : key = entry.key
    · rw [if_pos hkey, if_pos hkey.symm]
      exact List.getElem?_concat_length
    · rw [if_neg hkey, if_neg (Ne.symm hkey), ← h.last key, LongTermMemory.retrieveKnowledge]
      -- what the index had is still where it was
      cases hlookup : m.knowledgeIndex.lookup key with
      | none => rfl
      | some idx => exact List.getElem?_append_left (h.inside key idx hlookup)

theorem roundTrip_eq {serde : Serde F} (hserde : serde.Faithful) (m : LongTermMemory F) :
    Op.apply letters serde m .roundTrip = m := by
  unfold Op.apply
  cases htext : serde.serializeLtm m with
  | none => rfl
  | some text =>
    show (serde.deserializeLtm text).getD m = m
    cases hread : serde.deserializeLtm text with
    | none => rfl
    | some m' => exact hserde m text m' htext hread

theorem Indexed.foldl {serde : Serde F} (hserde : serde.Faithful) (ops : List (Op F))
    (h : Indexed m stored) :
    Indexed (ops.foldl (Op.apply letters serde) m) (stored ++ storedBy letters ops) := by
  induction ops generalizing m stored with
  | nil => rwa [storedBy, List.append_nil]
  | cons op ops ih =>
    cases op with
    | store entry order =>
      have hrest := ih (h.store letters order entry)
      rwa [List.append_assoc, List.singleton_append] at hrest
    | roundTrip =>
      rw [List.foldl_cons, roundTrip_eq letters hserde]
      exact ih h

theorem indexed_run {serde : Serde F} (hserde : serde.Faithful) (ops : List (Op F)) :
    Indexed (run letters serde ops) (storedBy letters ops) :=
  indexed_new.foldl letters hserde ops

theorem searchKnowledge_sublist (m : LongTermMemory F) (query : Text) :
    (m.searchKnowledge letters order query).Sublist m.knowledgeBase := by
  unfold LongTermMemory.searchKnowledge
  dsimp only
  split
  · exact List.Sublist.refl _
  · exact List.filter_sublist

theorem searchKnowledge_nil (m : LongTermMemory F) :
    m.searchKnowledge letters order [] = m.knowledgeBase :=
  if_pos (extractKeywords_nil letters order)

theorem lastUnder_of_nodup (hkeys : (stored.map (·.key)).Nodup) {e : KnowledgeEntry F}
    (he : e ∈ stored) : lastUnder stored e.key = some e := by
  have hsome : (lastUnder stored e.key).isSome := by
    rw [lastUnder, List.find?_isSome]
    exact ⟨e, List.mem_reverse.mpr he, decide_eq_true rfl⟩
  obtain ⟨e', he'⟩ := Option.isSome_iff_exists.mp hsome
  have hmem := List.mem_reverse.mp (List.mem_of_find?_eq_some he')
  have hkey : e'.key = e.key := by simpa using List.find?_some he'
  rw [he', List.inj_on_of_nodup_map hkeys hmem he hkey]

theorem Indexed.current (h : Indexed m stored) (hkeys : (stored.map (·.key)).Nodup)
    {results : List (KnowledgeEntry F)} (hresults : results.Sublist m.knowledgeBase) :
    Current m results := by
  rw [h.base] at hresults
  refine ⟨fun e he => ?_, hkeys.sublist (hresults.map _)⟩
  rw [h.last, lastUnder_of_nodup hkeys (hresults.subset he)]

theorem Consistent.nodup (h : Indexed m stored) (hconsistent : Consistent letters m stored) :
    (stored.map (·.key)).Nodup := by
  have hall := (hconsistent.searched .stored []).2
  rwa [searchKnowledge_nil, h.base] at hall

end Index

/-- **When knowledge is consistent.**  The searches show current entries only, and no key twice, if
and only if no key was stored twice. -/
theorem consistent_iff (serde : Serde F) (hserde : serde.Faithful) (ops : List (Op F)) :
    Consistent letters (run letters serde ops) (storedBy letters ops) ↔
      ((storedBy letters ops).map (·.key)).Nodup := by
  have hindexed := indexed_run letters hserde ops
  constructor
  · exact Consistent.nodup letters hindexed
  · intro hkeys
    exact ⟨hindexed.last,
      fun order query => hindexed.current hkeys (searchKnowledge_sublist letters order _ query),
      fun _ _ _ => hindexed.current hkeys List.filter_sublist⟩

def asciiLetters : Letters := ⟨asciiLower, Char.isAlphanum⟩

def fact (key value : String) : KnowledgeEntry ℚ where
  key := key.toList
  value := value.toList
  confidence := 1 / 2
  source := "user".toList
  createdAt := 0
  accessedCount := 0
  keywords := ["rust".toList]

def oneFact : LongTermMemory ℚ :=
  ⟨(∅ : HashMap Text ℕ).insert "lang".toList 0, [fact "lang" "rust"]⟩

def oneFactText : Text :=
  ("\x7b\"agent_id\":1,\"knowledge_index\":\x7b\"lang\":0\x7d," ++
    "\"knowledge_base\":[\x7b\"key\":\"lang\"," ++
    "\"value\":\"rust\",\"confidence\":0.5,\"source\":\"user\",\"created_at\":0," ++
    "\"accessed_count\":0,\"keywords\":[\"rust\"]\x7d]," ++
    "\"pattern_index\":\x7b\x7d,\"decision_log\":[]\x7d").toList

def oneFactSerde : Serde ℚ where
  serializeLtm m := if m = oneFact then some oneFactText else none
  deserializeLtm text := if text = oneFactText then some oneFact else none

theorem oneFactSerde_faithful : oneFactSerde.Faithful := by
  intro m text m' hwrite hread
  have hm : m = oneFact := by
    by_contra hne
    simp [oneFactSerde, hne] at hwrite
  have hm' : m' = oneFact := by
    by_contra hne
    by_cases htext : text = oneFactText
    · simp [oneFactSerde, htext, Ne.symm hne] at hread
    · simp [oneFactSerde, htext] at hread
  rw [hm, hm']

theorem consistent_oneFact :
    Consistent asciiLetters
      (run asciiLetters oneFactSerde [.store (fact "lang" "rust") .stored, .roundTrip])
      [fact "lang" "rust"] :=
  (consistent_iff asciiLetters oneFactSerde oneFactSerde_faithful
    [.store (fact "lang" "rust") .stored, .roundTrip]).mpr (by decide)

/-- A search for nothing shows the old entry next to the new one. -/
theorem not_consistent : ¬ ∀ (letters : Letters) (serde : Serde ℚ), serde.Faithful → ∀ ops,
    Consistent letters (run letters serde ops) (storedBy letters ops) := by
  intro h
  have hops := h asciiLetters oneFactSerde oneFactSerde_faithful
    [.store (fact "lang" "rust") .stored, .store (fact "lang" "rust 2024") .stored]
  have hkeys := hops.nodup asciiLetters (indexed_run asciiLetters oneFactSerde_faithful _)
  revert hkeys
  decide

end Mowis.Agent.Knowledge
