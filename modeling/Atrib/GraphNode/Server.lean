import Atrib.GraphNode.Store
import Atrib.Lib.Run

/-!
# Graph requests and their caches

`handleGraph` and the two caches of `services/graph-node/src/server.ts`, on
one event loop. A build awaits the signature check of each record, and its
caller awaits the build, so a step of the system is a stretch between two
awaits: an ingest that has passed its checks, a graph request that arrives, or
a request in flight that goes on. Between the steps of one request any others
may run and change the store.

The fields `start` and `lookups` are not in the program. They record the store
a request has arrived at and the stores it has come back to.
-/

namespace Atrib.GraphNode

open Lib (InsertionMap)
open Verify

/-- `shape=compact` leaves four members of every node out. -/
inductive Shape
  | full
  | compact
deriving DecidableEq

/-- The parameters of a request, which are its cache key as well. -/
structure GraphRequest where
  contextId : String
  includeGapNodes : Bool := true
  includeCrossSession : Bool := true
  compactIntraSessionEdges : Bool := true
  shape : Shape := .full
deriving DecidableEq

structure CompactGraphNode where
  id : String
  eventType : EventType
  eventTypeUri : Option String
  creatorKey : Option String
  contextId : String
  timestamp : ℤ
  verificationState : VerificationState
  reference : Option Reference
deriving DecidableEq

structure CompactGraphResponse where
  contextId : String
  nodeCount : ℕ
  edgeCount : ℕ
  hasTransaction : Bool
  crossSessionCount : ℕ
  nodes : List CompactGraphNode
  edges : List GraphEdge
deriving DecidableEq

inductive GraphBody
  | full (graph : GraphResponse)
  | compact (graph : CompactGraphResponse)
deriving DecidableEq

def compactGraphForExplorer (graph : GraphResponse) : CompactGraphResponse where
  contextId := graph.contextId
  nodeCount := graph.nodeCount
  edgeCount := graph.edgeCount
  hasTransaction := graph.hasTransaction
  crossSessionCount := graph.crossSessionCount
  nodes := graph.nodes.map fun node =>
    ⟨node.id, node.eventType, node.eventTypeUri, node.creatorKey, node.contextId, node.timestamp,
      node.verificationState, node.reference⟩
  edges := graph.edges

def graphBody (request : GraphRequest) (graph : GraphResponse) : GraphBody :=
  match request.shape with
  | .full => .full graph
  | .compact => .compact (compactGraphForExplorer graph)

/-! ## What a build reads of the store -/

def buildRegistry (store : RecordStore) : RevocationRegistry :=
  buildRevocationRegistry <| store.getAllRecords.map fun (record, logIndex) =>
    { eventTypeUri := some record.eventType
      creatorKey := some record.creatorKey
      logIndex := logIndex
      revokedKey := record.revokedKey
      revocationReason := record.revocationReason
      successorKey := record.successorKey
      emergencySignedBy := record.emergencySignedBy }

def referenceTarget (found : StoredRecord × Option ℕ) : ReferenceTarget where
  recordHash := "sha256:" ++ found.1.recordHash
  eventType := graphLabelFromEventTypeUri found.1.record.eventType
  eventTypeUri := some found.1.record.eventType
  creatorKey := some found.1.record.creatorKey
  contextId := found.1.record.contextId
  timestamp := found.1.record.timestamp
  logIndex := found.2

def recordReferenceLookup (store : RecordStore) (hashHex : String) : Option ReferenceTarget :=
  (store.getRecordByHash hashHex).map referenceTarget

def provenanceReferenceLookup (store : RecordStore) (token16 sourceContextId : String) :
    Option ReferenceTarget :=
  (store.getRecordByToken16 token16 sourceContextId).map referenceTarget

/-- The options of a graph request; the lookups go to the store as it is when they are called. -/
def graphOptions (request : GraphRequest) (registry : RevocationRegistry) (store : RecordStore) :
    BuildGraphOptions where
  includeGapNodes := request.includeGapNodes
  includeCrossSession := request.includeCrossSession
  revocations := some registry
  logIndexLookup := some store.getLogIndex
  compactIntraSessionEdges := request.compactIntraSessionEdges
  resolveRecordReference := some (recordReferenceLookup store)
  resolveProvenanceReference := some (provenanceReferenceLookup store)

/-! ## The server -/

/-- Where a request in flight stands. -/
inductive Phase
  /-- It awaits the check of the first of the remaining records. -/
  | verifying (remaining : List RecordInfo) (nodes : List GraphNode)
  /-- The build has returned. -/
  | built (body : GraphBody)

structure Building where
  request : GraphRequest
  registry : RevocationRegistry
  infos : List RecordInfo
  gapNodes : List GapNode
  phase : Phase
  start : RecordStore
  lookups : List RecordStore

structure CachedGraph where
  recordCount : ℕ
  graph : GraphBody

structure CachedRegistry where
  recordCount : ℕ
  registry : RevocationRegistry

/-- A response, with the store its request arrived at and those it came back to. -/
structure GraphAnswer where
  request : GraphRequest
  body : GraphBody
  start : RecordStore
  lookups : List RecordStore

structure GraphServer where
  store : RecordStore
  revocationRegistryCache : Option CachedRegistry := none
  graphResponseCache : InsertionMap GraphRequest CachedGraph := ∅
  building : List Building := []
  answers : List GraphAnswer := []

inductive GraphMove
  /-- `POST /v1/ingest` of a record that has been validated and verified. -/
  | ingest (record : AtribRecord) (logIndex : Option ℕ)
  | get (request : GraphRequest)
  /-- The awaited promise of a request in flight is resolved. -/
  | resume (index : ℕ)

variable (H : Hash) (codec : RecordCodec)

/-- The last synchronous stretch of a build. -/
def complete (request : GraphRequest) (registry : RevocationRegistry) (store : RecordStore)
    (infos : List RecordInfo) (nodes : List GraphNode) (gapNodes : List GapNode) : GraphBody :=
  graphBody request (assembleGraph H (graphOptions request registry store) infos nodes gapNodes)

namespace GraphServer

def buildRegistryCached (s : GraphServer) : RevocationRegistry × GraphServer :=
  match s.revocationRegistryCache.filter (·.recordCount = s.store.getRecordCount) with
  | some cached => (cached.registry, s)
  | none =>
      (buildRegistry s.store, { s with
        revocationRegistryCache := some ⟨s.store.getRecordCount, buildRegistry s.store⟩ })

def getCachedGraph (s : GraphServer) (request : GraphRequest) : Option GraphBody :=
  ((s.graphResponseCache.get? request).filter (·.recordCount = s.store.getRecordCount)).map (·.graph)

def GRAPH_RESPONSE_CACHE_MAX : ℕ := 50

/-- The cache without its oldest key, if there is no room for a new one. -/
def makeRoom (cache : InsertionMap GraphRequest CachedGraph) (request : GraphRequest) :
    InsertionMap GraphRequest CachedGraph :=
  if !cache.has request ∧ GRAPH_RESPONSE_CACHE_MAX ≤ cache.size then cache.dropFirst else cache

def setCachedGraph (s : GraphServer) (request : GraphRequest) (graph : GraphBody) : GraphServer :=
  { s with
    graphResponseCache :=
      (makeRoom s.graphResponseCache request).set request ⟨s.store.getRecordCount, graph⟩ }

def answer (s : GraphServer) (a : GraphAnswer) : GraphServer :=
  { s with answers := s.answers ++ [a] }

/-- `handleGraph` up to its first `await`. -/
def handleGraph (s : GraphServer) (request : GraphRequest) : GraphServer :=
  if s.store.hasContext request.contextId then
    let infos := recordInfos H codec (s.store.getRecordsByContextId request.contextId)
    let gapNodes := s.store.getGapNodesByContextId request.contextId
    match s.getCachedGraph request with
    | some body =>
        s.answer ⟨request, body, s.store, List.replicate infos.length s.store⟩
    | none =>
        let (registry, s) := s.buildRegistryCached
        let phase := if infos = [] then .built (complete H request registry s.store [] [] gapNodes)
          else .verifying infos []
        { s with building := s.building ++ [⟨request, registry, infos, gapNodes, phase, s.store, []⟩] }
  else s

/-- A build goes on after an `await`, up to the next one or to its end. -/
def Building.verified (b : Building) (store : RecordStore) (info : RecordInfo)
    (remaining : List RecordInfo) (nodes : List GraphNode) : Building :=
  let nodes := nodes ++ [recordNode H codec (graphOptions b.request b.registry store) info]
  { b with
    phase :=
      if remaining = [] then
        .built (complete H b.request b.registry store b.infos nodes b.gapNodes)
      else .verifying remaining nodes
    lookups := b.lookups ++ [store] }

def resume (s : GraphServer) (index : ℕ) : GraphServer :=
  match s.building[index]? with
  | none => s
  | some b =>
      match b.phase with
      | .verifying [] _ => s
      | .verifying (info :: remaining) nodes =>
          { s with
            building := s.building.set index
              (Building.verified H codec b s.store info remaining nodes) }
      | .built body =>
          ({ s.setCachedGraph b.request body with building := s.building.eraseIdx index }).answer
            ⟨b.request, body, b.start, b.lookups⟩

def step (s : GraphServer) : GraphMove → GraphServer
  | .ingest record logIndex => { s with store := (s.store.addRecord H codec record logIndex).1 }
  | .get request => s.handleGraph H codec request
  | .resume index => s.resume H codec index

end GraphServer

end Atrib.GraphNode
