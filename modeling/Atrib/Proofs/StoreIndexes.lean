import Atrib.GraphNode.Persistence
import Atrib.Lib.Run
import Mathlib.Data.List.Induction

/-!
# The indexes of the record store

All that the store looks up is a function of two things: the list of its
records and the log index of each hash. This holds of the empty store and is
kept by the two operations that write to it, so it holds of every store the
service can have.
-/

namespace Atrib.GraphNode

open Lib (InsertionMap run)
open Verify (GapNode)

/-! ## Writes -/

section Writes

variable (store : RecordStore) (hash : String) (logIndex : Option ℕ)

@[simp] theorem withLogIndex_seen :
    (store.withLogIndex hash logIndex).seenRecordHashes = store.seenRecordHashes := by
  cases logIndex <;> rfl

@[simp] theorem withLogIndex_recordByHash :
    (store.withLogIndex hash logIndex).recordByHash = store.recordByHash := by
  cases logIndex <;> rfl

@[simp] theorem withLogIndex_allRecords :
    (store.withLogIndex hash logIndex).allRecords = store.allRecords := by
  cases logIndex <;> rfl

@[simp] theorem withLogIndex_byContext :
    (store.withLogIndex hash logIndex).byContext = store.byContext := by
  cases logIndex <;> rfl

@[simp] theorem withLogIndex_gapsByContext :
    (store.withLogIndex hash logIndex).gapsByContext = store.gapsByContext := by
  cases logIndex <;> rfl

@[simp] theorem withLogIndex_hashesByToken16 :
    (store.withLogIndex hash logIndex).hashesByToken16 = store.hashesByToken16 := by
  cases logIndex <;> rfl

theorem get?_withLogIndex (x : String) :
    (store.withLogIndex hash logIndex).logIndexByHash.get? x =
      if x = hash then logIndex.or (store.logIndexByHash.get? hash)
      else store.logIndexByHash.get? x := by
  cases logIndex with
  | none =>
      rw [Option.none_or]
      split
      · next h => rw [h]; rfl
      · rfl
  | some index => exact InsertionMap.get?_set _ _ _ _

variable (stored : StoredRecord)

@[simp] theorem insert_seen :
    (store.insert stored).seenRecordHashes = store.seenRecordHashes ++ [stored.recordHash] := rfl

@[simp] theorem insert_logIndexByHash :
    (store.insert stored).logIndexByHash = store.logIndexByHash := rfl

@[simp] theorem insert_allRecords :
    (store.insert stored).allRecords = store.allRecords ++ [stored] := rfl

theorem get?_insert (x : String) :
    (store.insert stored).recordByHash.get? x =
      if x = stored.recordHash then some stored else store.recordByHash.get? x :=
  InsertionMap.get?_set _ _ _ _

end Writes

/-! ## The indexes -/

/-- What is written to a store. -/
inductive StoreMove
  | addRecord (record : AtribRecord) (logIndex : Option ℕ)
  | addGapNode (gapNode : GapNode)

variable (H : Hash) (codec : RecordCodec)

def RecordStore.step (store : RecordStore) : StoreMove → RecordStore
  | .addRecord record logIndex => (store.addRecord H codec record logIndex).1
  | .addGapNode gapNode => store.addGapNode gapNode

/-- A record as the store keeps it. -/
def storedRecord (record : AtribRecord) : StoredRecord :=
  ⟨record, recordHash H codec record, base64urlEncode ((recordDigest H codec record).take 16)⟩

/-- The indexes of a store say what its list of records says. -/
structure Indexed (store : RecordStore) : Prop where
  stored : ∀ stored ∈ store.allRecords, stored = storedRecord H codec stored.record
  nodup : (store.allRecords.map (·.recordHash)).Nodup
  seen : store.seenRecordHashes = store.allRecords.map (·.recordHash)
  byHash : ∀ hash, store.recordByHash.get? hash =
    store.allRecords.find? fun stored => stored.recordHash = hash
  byToken16 : ∀ token, (store.hashesByToken16.get? token).getD [] =
    (store.allRecords.filter fun stored => stored.token16 = token).map (·.recordHash)
  byContext : ∀ contextId, store.getRecordsByContextId contextId =
    (store.allRecords.filter fun stored => stored.record.contextId = contextId).map (·.record)
  logIndex : ∀ hash, hash ∉ store.seenRecordHashes → store.getLogIndex hash = none

variable {H codec} {store : RecordStore}

theorem indexed_empty : Indexed H codec {} := by
  constructor <;> simp [RecordStore.getRecordsByContextId, RecordStore.getLogIndex] <;>
    intros <;> rfl

theorem Indexed.addGapNode (h : Indexed H codec store) (gapNode : GapNode) :
    Indexed H codec (store.addGapNode gapNode) :=
  ⟨h.stored, h.nodup, h.seen, h.byHash, h.byToken16, h.byContext, h.logIndex⟩

theorem Indexed.withLogIndex (h : Indexed H codec store) {hash : String}
    (hseen : hash ∈ store.seenRecordHashes) (logIndex : Option ℕ) :
    Indexed H codec (store.withLogIndex hash logIndex) where
  stored := by simpa using h.stored
  nodup := by simpa using h.nodup
  seen := by simpa using h.seen
  byHash := by simpa using h.byHash
  byToken16 := by simpa using h.byToken16
  byContext := by simpa [RecordStore.getRecordsByContextId] using h.byContext
  logIndex x hx := by
    rw [withLogIndex_seen] at hx
    have hne : x ≠ hash := fun heq => hx (heq ▸ hseen)
    rw [RecordStore.getLogIndex, get?_withLogIndex, if_neg hne]
    exact h.logIndex x hx

theorem Indexed.insert (h : Indexed H codec store) {record : AtribRecord}
    (hnew : recordHash H codec record ∉ store.seenRecordHashes) :
    Indexed H codec (store.insert (storedRecord H codec record)) where
  stored s hs := by
    rcases List.mem_append.1 hs with hs | hs
    · exact h.stored s hs
    · rw [List.mem_singleton.1 hs]
      rfl
  nodup := by
    rw [insert_allRecords, List.map_append, List.map_singleton, List.nodup_append]
    refine ⟨h.nodup, List.nodup_singleton _, fun a ha b hb hab => hnew ?_⟩
    rw [List.mem_singleton] at hb
    rw [h.seen]
    rwa [hab, hb] at ha
  seen := by
    rw [insert_seen, insert_allRecords, List.map_append, h.seen]
    rfl
  byHash x := by
    rw [get?_insert, insert_allRecords, List.find?_append]
    split
    · next heq =>
        have hnone : store.allRecords.find? (fun stored => stored.recordHash = x) = none := by
          rw [List.find?_eq_none]
          intro s hs hx
          rw [decide_eq_true_eq] at hx
          apply hnew
          rw [h.seen, ← show x = recordHash H codec record from heq, ← hx]
          exact List.mem_map_of_mem hs
        have hsome : [storedRecord H codec record].find?
            (fun stored => stored.recordHash = x) = some (storedRecord H codec record) := by
          rw [List.find?_singleton, if_pos (decide_eq_true heq.symm)]
        rw [hnone, hsome]
        rfl
    · next hne =>
        have hnone : [storedRecord H codec record].find?
            (fun stored => stored.recordHash = x) = none := by
          rw [List.find?_singleton, if_neg]
          exact fun heq => hne (of_decide_eq_true heq).symm
        rw [hnone, Option.or_none, h.byHash]
  byToken16 token := by
    rw [insert_allRecords, List.filter_append, List.map_append, ← h.byToken16]
    change ((store.hashesByToken16.set _ _).get? token).getD [] = _
    rw [InsertionMap.get?_set]
    split
    · next heq => simp [heq]
    · next hne => simp [Ne.symm hne]
  byContext contextId := by
    rw [insert_allRecords, List.filter_append, List.map_append, ← h.byContext]
    change ((store.byContext.set _ _).get? contextId).getD [] = _
    rw [InsertionMap.get?_set]
    split
    · next heq => simp [heq, storedRecord, RecordStore.getRecordsByContextId]
    · next hne =>
        have hne' : record.contextId ≠ contextId := Ne.symm hne
        simp [storedRecord, hne', RecordStore.getRecordsByContextId]
  logIndex x hx := by
    rw [insert_seen, List.mem_append, not_or] at hx
    exact h.logIndex x hx.1

section AddRecord

variable (record : AtribRecord) (logIndex : Option ℕ)

theorem addRecord_of_known (hknown : recordHash H codec record ∈ store.seenRecordHashes) :
    (store.addRecord H codec record logIndex).1 =
      if store.logIndexByHash.has (recordHash H codec record) then store
      else store.withLogIndex (recordHash H codec record) logIndex :=
  congrArg Prod.fst (if_pos hknown)

theorem addRecord_of_new (hnew : recordHash H codec record ∉ store.seenRecordHashes) :
    (store.addRecord H codec record logIndex).1 =
      (store.withLogIndex (recordHash H codec record) logIndex).insert
        (storedRecord H codec record) :=
  congrArg Prod.fst (if_neg hnew)

/-- A record that is there is not added. -/
theorem allRecords_addRecord :
    (store.addRecord H codec record logIndex).1.allRecords =
      if recordHash H codec record ∈ store.seenRecordHashes then store.allRecords
      else store.allRecords ++ [storedRecord H codec record] := by
  split
  · next hknown =>
      rw [addRecord_of_known record logIndex hknown]
      split
      · rfl
      · exact withLogIndex_allRecords _ _ _
  · next hnew =>
      rw [addRecord_of_new record logIndex hnew, insert_allRecords, withLogIndex_allRecords]

/-- A log index is noted where there is none. -/
theorem Indexed.getLogIndex_addRecord (h : Indexed H codec store) (x : String) :
    (store.addRecord H codec record logIndex).1.getLogIndex x =
      if x = recordHash H codec record then (store.getLogIndex x).or logIndex
      else store.getLogIndex x := by
  by_cases hknown : recordHash H codec record ∈ store.seenRecordHashes
  · rw [addRecord_of_known record logIndex hknown]
    cases hindex : store.getLogIndex (recordHash H codec record) with
    | some index =>
        have hhas : store.logIndexByHash.has (recordHash H codec record) = true := by
          rw [InsertionMap.has_eq_true, InsertionMap.mem_keys_iff_get?]
          exact Option.isSome_of_eq_some hindex
        rw [if_pos hhas]
        split
        · next heq => rw [heq, hindex, Option.some_or]
        · rfl
    | none =>
        have hhas : ¬ store.logIndexByHash.has (recordHash H codec record) = true := by
          rw [InsertionMap.has_eq_true, InsertionMap.mem_keys_iff_get?]
          exact Option.not_isSome_iff_eq_none.2 hindex
        rw [if_neg hhas, RecordStore.getLogIndex, get?_withLogIndex]
        split
        · next heq =>
            rw [heq, hindex, Option.none_or, show store.logIndexByHash.get? _ = none from hindex,
              Option.or_none]
        · rfl
  · rw [addRecord_of_new record logIndex hknown, RecordStore.getLogIndex, insert_logIndexByHash,
      get?_withLogIndex]
    have hnone := h.logIndex _ hknown
    split
    · next heq =>
        rw [heq, hnone, Option.none_or, show store.logIndexByHash.get? _ = none from hnone,
          Option.or_none]
    · rfl

theorem Indexed.addRecord (h : Indexed H codec store) :
    Indexed H codec (store.addRecord H codec record logIndex).1 := by
  by_cases hknown : recordHash H codec record ∈ store.seenRecordHashes
  · rw [addRecord_of_known record logIndex hknown]
    split
    · exact h
    · exact h.withLogIndex hknown logIndex
  · have hinsert := h.insert hknown
    rw [addRecord_of_new record logIndex hknown]
    exact {
      stored := by simpa using hinsert.stored
      nodup := by simpa using hinsert.nodup
      seen := by simpa using hinsert.seen
      byHash := by simpa [get?_insert] using hinsert.byHash
      byToken16 := fun token => by
        have hsame : ((store.withLogIndex (recordHash H codec record) logIndex).insert
            (storedRecord H codec record)).hashesByToken16 =
            (store.insert (storedRecord H codec record)).hashesByToken16 := by
          simp [RecordStore.insert]
        simpa [hsame] using hinsert.byToken16 token
      byContext := fun contextId => by
        have hsame : ((store.withLogIndex (recordHash H codec record) logIndex).insert
            (storedRecord H codec record)).byContext =
            (store.insert (storedRecord H codec record)).byContext := by
          simp [RecordStore.insert]
        simpa [RecordStore.getRecordsByContextId, hsame] using hinsert.byContext contextId
      logIndex := fun x hx => by
        rw [insert_seen, withLogIndex_seen, List.mem_append, not_or, List.mem_singleton] at hx
        have hne : x ≠ recordHash H codec record := hx.2
        rw [RecordStore.getLogIndex, insert_logIndexByHash, get?_withLogIndex, if_neg hne]
        exact h.logIndex x hx.1 }

end AddRecord

/-- Whatever is written to an empty store, its indexes are right. -/
theorem indexed_run (moves : List StoreMove) :
    Indexed H codec (run (RecordStore.step H codec) {} moves) := by
  induction moves using List.reverseRecOn with
  | nil => exact indexed_empty
  | append_singleton moves move ih =>
      rw [Lib.run_snoc]
      cases move with
      | addRecord record logIndex => exact ih.addRecord record logIndex
      | addGapNode gapNode => exact ih.addGapNode gapNode

/-! ## Lookups -/

/-- The log index of a record is kept under its hash. -/
theorem mem_getAllRecords {record : AtribRecord} {logIndex : Option ℕ}
    (h : Indexed H codec store) :
    (record, logIndex) ∈ store.getAllRecords ↔
      storedRecord H codec record ∈ store.allRecords ∧
        logIndex = store.getLogIndex (recordHash H codec record) := by
  rw [RecordStore.getAllRecords, List.mem_map]
  constructor
  · intro hmem
    obtain ⟨stored, hstored, heq⟩ := hmem
    obtain ⟨rfl, rfl⟩ := Prod.mk.inj heq
    have hrecord := h.stored stored hstored
    refine ⟨hrecord ▸ hstored, ?_⟩
    rw [show recordHash H codec stored.record = stored.recordHash by rw [hrecord]; rfl]
    rfl
  · intro hmem
    obtain ⟨hstored, rfl⟩ := hmem
    exact ⟨_, hstored, rfl⟩

/-- The records of a session are the stored records of its context. -/
theorem mem_getRecordsByContextId {record : AtribRecord} {contextId : String}
    (h : Indexed H codec store) :
    record ∈ store.getRecordsByContextId contextId ↔
      storedRecord H codec record ∈ store.allRecords ∧ record.contextId = contextId := by
  rw [h.byContext, List.mem_map]
  constructor
  · intro hmem
    obtain ⟨stored, hstored, rfl⟩ := hmem
    rw [List.mem_filter, decide_eq_true_eq] at hstored
    exact ⟨h.stored stored hstored.1 ▸ hstored.1, hstored.2⟩
  · intro hmem
    exact ⟨_, List.mem_filter.2 ⟨hmem.1, decide_eq_true hmem.2⟩, rfl⟩

/-- A record is found by its hash with its log index. -/
theorem Indexed.getRecordByHash_eq (h : Indexed H codec store) (hash : String) :
    store.getRecordByHash hash =
      (store.allRecords.find? fun stored => stored.recordHash = hash).map fun stored =>
        (stored, store.getLogIndex stored.recordHash) := by
  rw [RecordStore.getRecordByHash, h.byHash]
  rfl

/-- The first record with a token is found, but for those of one context. -/
theorem Indexed.getRecordByToken16_eq (h : Indexed H codec store) (token contextId : String) :
    store.getRecordByToken16 token contextId =
      (store.allRecords.find? fun stored => stored.token16 = token ∧
        ¬ (contextId ≠ "" ∧ stored.record.contextId = contextId)).map fun stored =>
          (stored, store.getLogIndex stored.recordHash) := by
  have hfound : ∀ stored ∈ store.allRecords.filter (fun stored => stored.token16 = token),
      store.getRecordByHash stored.recordHash =
        some (stored, store.getLogIndex stored.recordHash) := by
    intro stored hmem
    have hfirst : store.allRecords.find? (fun s => s.recordHash = stored.recordHash) =
        some stored := by
      cases hfind : store.allRecords.find? (fun s => s.recordHash = stored.recordHash) with
      | none =>
          have hnone := List.find?_eq_none.1 hfind stored (List.mem_filter.1 hmem).1
          exact absurd (decide_eq_true rfl) hnone
      | some other =>
          have hsame : other.recordHash = stored.recordHash := by
            simpa using List.find?_some hfind
          exact congrArg some (List.inj_on_of_nodup_map h.nodup (List.mem_of_find?_eq_some hfind)
            (List.mem_filter.1 hmem).1 hsame)
    rw [h.getRecordByHash_eq, hfirst]
    rfl
  have hlist : ((store.allRecords.filter fun stored => stored.token16 = token).map
      (·.recordHash)).filterMap store.getRecordByHash =
      (store.allRecords.filter fun stored => stored.token16 = token).map fun stored =>
        (stored, store.getLogIndex stored.recordHash) := by
    rw [List.filterMap_map, ← List.filterMap_eq_map]
    exact List.filterMap_congr hfound
  rw [RecordStore.getRecordByToken16, h.byToken16, hlist, List.find?_map, List.find?_filter]
  congr 2
  funext stored
  simp

/-- What was found first is found first when a record has been added. -/
theorem find?_addRecord {p : StoredRecord → Bool} {stored : StoredRecord} (record : AtribRecord)
    (logIndex : Option ℕ) (h : store.allRecords.find? p = some stored) :
    (store.addRecord H codec record logIndex).1.allRecords.find? p = some stored := by
  rw [allRecords_addRecord]
  split
  · exact h
  · rw [List.find?_append, h]
    rfl

end Atrib.GraphNode
