import Atrib.GraphNode.Server

/-!
# Traces

`handleTrace` of `services/graph-node/src/server.ts`: from a record back along
the references that it and its ancestors carry, level by level. A hash is
marked when it is met, so a record is collected once; the walk ends at a number
of hops or of records, and says which. It makes no use of the event loop.
-/

namespace Atrib.GraphNode

open Verify

def TRACE_DEFAULT_DEPTH : ℤ := 5
def TRACE_MAX_DEPTH : ℤ := 20
def TRACE_MAX_NODES : ℕ := 500

structure TraceParams where
  /-- `parseInt(depth, 10)`, if it is a number; `5` for no parameter. -/
  rawDepth : Option ℤ := some TRACE_DEFAULT_DEPTH
  includeAnnotations : Bool := true
  includeRevisions : Bool := true

def TraceParams.depth (params : TraceParams) : ℕ :=
  (max 1 (min (params.rawDepth.getD TRACE_DEFAULT_DEPTH) TRACE_MAX_DEPTH)).toNat

/-- The hash of a reference, if it is one. -/
def hashOfRef (ref : String) : Option String :=
  if hasHashPrefix ref then some (afterHashPrefix ref) else none

def TraceParams.candidates (params : TraceParams) (record : AtribRecord) : List String :=
  (record.informedBy.getD []).filterMap hashOfRef ++
    (if params.includeAnnotations then record.annotates.toList.filterMap hashOfRef else []) ++
    (if params.includeRevisions then record.revises.toList.filterMap hashOfRef else [])

structure TraceWalk where
  visited : List String
  collected : List AtribRecord
  next : List String := []
  truncatedByDepth : Bool := false
  truncatedByCount : Bool := false
deriving DecidableEq

section

variable (recordByHash : String → Option AtribRecord) (candidates : AtribRecord → List String)
  (maxNodes : ℕ)

/-- A hash that has not been met: it is marked, found or not. -/
def TraceWalk.visit (walk : TraceWalk) (ancestorHash : String) : TraceWalk :=
  let walk := { walk with visited := walk.visited ++ [ancestorHash] }
  match recordByHash ancestorHash with
  | some ancestor =>
      { walk with collected := walk.collected ++ [ancestor], next := walk.next ++ [ancestorHash] }
  | none => walk

/-- The loop over the references of a record. -/
def visitAncestors : List String → TraceWalk → TraceWalk
  | [], walk => walk
  | ancestorHash :: hashes, walk =>
      if ancestorHash ∈ walk.visited then visitAncestors hashes walk
      else
        let walk := walk.visit recordByHash ancestorHash
        if maxNodes ≤ walk.collected.length then { walk with truncatedByCount := true }
        else visitAncestors hashes walk

/-- The loop over a level. -/
def visitFrontier : List String → TraceWalk → TraceWalk
  | [], walk => walk
  | hash :: frontier, walk =>
      match recordByHash hash with
      | none => visitFrontier frontier walk
      | some record =>
          let walk := visitAncestors recordByHash maxNodes (candidates record) walk
          if maxNodes ≤ walk.collected.length then walk else visitFrontier frontier walk

/-- The loop over the hops that are left. -/
def visitHops : ℕ → List String → TraceWalk → TraceWalk
  | 0, _, walk => walk
  | hops + 1, frontier, walk =>
      let walk := visitFrontier recordByHash candidates maxNodes frontier { walk with next := [] }
      if maxNodes ≤ walk.collected.length ∨ walk.next = [] then walk
      else
        visitHops hops walk.next (if hops = 0 then { walk with truncatedByDepth := true } else walk)

def traceFrom (depth : ℕ) (startHash : String) (startRecord : AtribRecord) : TraceWalk :=
  visitHops recordByHash candidates maxNodes depth [startHash]
    { visited := [startHash], collected := [startRecord] }

end

structure TraceResponse where
  startRecordHash : String
  depthRequested : ℕ
  depthWalked : ℕ
  recordCount : ℕ
  truncatedByDepth : Bool
  truncatedByCount : Bool
  graph : GraphResponse

/-- `store.getRecordByHash(hashHex)?.record` -/
def RecordStore.recordAt (store : RecordStore) (hash : String) : Option AtribRecord :=
  (store.getRecordByHash hash).map (·.1.record)

/-- The walk behind a trace, if there is a record to start from. -/
def trace (maxNodes : ℕ) (store : RecordStore) (recordHashHex : String) (params : TraceParams) :
    Option TraceWalk :=
  (store.recordAt recordHashHex).map
    (traceFrom store.recordAt params.candidates maxNodes params.depth recordHashHex)

/-- The revocations come from a cache. -/
def traceOptions (registry : RevocationRegistry) (store : RecordStore) : BuildGraphOptions where
  includeGapNodes := false
  includeCrossSession := true
  revocations := some registry
  logIndexLookup := some store.getLogIndex
  resolveRecordReference := some (recordReferenceLookup store)
  resolveProvenanceReference := some (provenanceReferenceLookup store)

/-- An error is the detail of the problem `record-not-found`. -/
def handleTrace (H : Hash) (codec : RecordCodec) (registry : RevocationRegistry)
    (store : RecordStore) (recordHashHex : String) (params : TraceParams) :
    Except String TraceResponse :=
  match trace TRACE_MAX_NODES store recordHashHex params with
  | none => .error ("No record with hash sha256:" ++ recordHashHex)
  | some walk =>
      .ok ⟨"sha256:" ++ recordHashHex, params.depth, params.depth, walk.collected.length,
        walk.truncatedByDepth, walk.truncatedByCount,
        buildGraph H codec walk.collected [] (traceOptions registry store)⟩

end Atrib.GraphNode
