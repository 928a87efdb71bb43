import Atrib.GraphNode.GraphBuilder

/-!
# The record store of the graph service

`services/graph-node/src/store.ts`. A record is known by the hash of its
canonical form; ingesting it again changes nothing, but for a log index that
was missing and comes now. The index by creator serves other endpoints and is
left out.
-/

namespace Atrib.GraphNode

open Lib (InsertionMap)
open Verify

structure StoredRecord where
  record : AtribRecord
  recordHash : String
  token16 : String
deriving DecidableEq

structure RecordStore where
  byContext : InsertionMap String (List AtribRecord) := ∅
  gapsByContext : InsertionMap String (List GapNode) := ∅
  seenRecordHashes : List String := []
  logIndexByHash : InsertionMap String ℕ := ∅
  recordByHash : InsertionMap String StoredRecord := ∅
  hashesByToken16 : InsertionMap String (List String) := ∅
  allRecords : List StoredRecord := []
deriving DecidableEq

namespace RecordStore

/-- Note the log index of a record, if one was supplied. -/
def withLogIndex (store : RecordStore) (recordHash : String) (logIndex : Option ℕ) : RecordStore :=
  match logIndex with
  | none => store
  | some index => { store with logIndexByHash := store.logIndexByHash.set recordHash index }

/-- A record that was not known before. -/
def insert (store : RecordStore) (stored : StoredRecord) : RecordStore :=
  { store with
    seenRecordHashes := store.seenRecordHashes ++ [stored.recordHash]
    allRecords := store.allRecords ++ [stored]
    recordByHash := store.recordByHash.set stored.recordHash stored
    hashesByToken16 := store.hashesByToken16.set stored.token16
      ((store.hashesByToken16.get? stored.token16).getD [] ++ [stored.recordHash])
    byContext := store.byContext.set stored.record.contextId
      ((store.byContext.get? stored.record.contextId).getD [] ++ [stored.record]) }

def addRecord (H : Hash) (codec : RecordCodec) (store : RecordStore) (record : AtribRecord)
    (logIndex : Option ℕ) : RecordStore × Bool :=
  let digest := recordDigest H codec record
  let recordHash := hexEncode digest
  if recordHash ∈ store.seenRecordHashes then
    (if store.logIndexByHash.has recordHash then store
      else store.withLogIndex recordHash logIndex, false)
  else
    ((store.withLogIndex recordHash logIndex).insert
      ⟨record, recordHash, base64urlEncode (digest.take 16)⟩, true)

def addGapNode (store : RecordStore) (gapNode : GapNode) : RecordStore :=
  { store with
    gapsByContext := store.gapsByContext.set gapNode.contextId
      ((store.gapsByContext.get? gapNode.contextId).getD [] ++ [gapNode]) }

def getRecordsByContextId (store : RecordStore) (contextId : String) : List AtribRecord :=
  (store.byContext.get? contextId).getD []

def getGapNodesByContextId (store : RecordStore) (contextId : String) : List GapNode :=
  (store.gapsByContext.get? contextId).getD []

def hasContext (store : RecordStore) (contextId : String) : Bool :=
  store.byContext.has contextId || store.gapsByContext.has contextId

def getAllRecords (store : RecordStore) : List (AtribRecord × Option ℕ) :=
  store.allRecords.map fun stored => (stored.record, store.logIndexByHash.get? stored.recordHash)

def getRecordCount (store : RecordStore) : ℕ := store.allRecords.length

def getLogIndex (store : RecordStore) (recordHashHex : String) : Option ℕ :=
  store.logIndexByHash.get? recordHashHex

/-- What the two lookups by reference give: the record, and its log index. -/
def getRecordByHash (store : RecordStore) (recordHashHex : String) :
    Option (StoredRecord × Option ℕ) :=
  (store.recordByHash.get? recordHashHex).map fun stored =>
    (stored, store.logIndexByHash.get? stored.recordHash)

def getRecordByToken16 (store : RecordStore) (token16 excludeContextId : String) :
    Option (StoredRecord × Option ℕ) :=
  (((store.hashesByToken16.get? token16).getD []).filterMap store.getRecordByHash).find?
    fun found => !(excludeContextId ≠ "" ∧ found.1.record.contextId = excludeContextId)

end RecordStore

end Atrib.GraphNode
