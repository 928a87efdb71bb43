import Atrib.GraphNode.GraphBuilder

/-!
# The graph builder of the integration test

`buildGraphFromRecords` of `packages/integration/src/graph-builder.ts`: the graph
of one session, with the tool calls of other sessions that its transaction is
linked to by a session token.

The source finds the id of a record by the record itself, in a `Map`; the id is
a function of the record here.
-/

namespace Atrib.Integration

open GraphNode (orderedPairs)
open Verify

def toolCallUri : String := "https://atrib.dev/v1/types/tool_call"

def transactionUri : String := "https://atrib.dev/v1/types/transaction"

/-! ## Records -/

section

variable (records : List AtribRecord) (contextId : String)

def sessionRecords : List AtribRecord := records.filter (·.contextId = contextId)

/-- `txInSession`: the first transaction of the session. -/
def txInSession : Option AtribRecord :=
  (sessionRecords records contextId).find? (·.eventType = transactionUri)

/-- The tool calls of other sessions with the token of the first transaction. -/
def crossSessionRecords : List AtribRecord :=
  match (txInSession records contextId).bind (·.sessionToken) with
  | none => []
  | some txToken =>
      if txToken = "" then []
      else records.filter fun r =>
        r.contextId ≠ contextId ∧ r.eventType = toolCallUri ∧ r.sessionToken = some txToken

def allRecords : List AtribRecord :=
  sessionRecords records contextId ++ crossSessionRecords records contextId

end

variable (H : Hash) (codec : RecordCodec)

def recordHashHex (record : AtribRecord) : String := hexEncode (recordDigest H codec record)

def recordId (record : AtribRecord) : String := "sha256:" ++ recordHashHex H codec record

def recordNode (record : AtribRecord) : GraphNode where
  id := recordId H codec record
  eventType := graphLabelFromEventTypeUri record.eventType
  eventTypeUri := some record.eventType
  contentId := record.contentId
  creatorKey := some record.creatorKey
  chainRoot := some record.chainRoot
  contextId := record.contextId
  timestamp := record.timestamp
  logIndex := none
  verificationState := if codec.verifyRecord record then .signatureValid else .unsigned
  isGenesis := record.chainRoot == genesisChainRoot H record.contextId

/-! ## Edges -/

def has (edges : List GraphEdge) (a b : String) (t : EdgeType) : Bool :=
  edges.any fun e => e.source = a ∧ e.target = b ∧ e.type = t

/-- `hashToId`, where the last record of a hash counts. -/
def nodeIdOfHash (all : List AtribRecord) (hash : String) : Option String :=
  (all.reverse.find? (recordHashHex H codec · = hash)).map (recordId H codec)

/-- `recordById`, where the last record of an id counts. -/
def recordOfId (all : List AtribRecord) (id : String) : Option AtribRecord :=
  all.reverse.find? (recordId H codec · = id)

/-- `text.replace(/^sha256:/, '')` -/
def withoutLeadingPrefix (text : String) : String :=
  if hasHashPrefix text then afterHashPrefix text else text

/-- Step 1 for one record. -/
def chainPrecedes (all : List AtribRecord) (edges : List GraphEdge) (r : AtribRecord) :
    List GraphEdge :=
  match nodeIdOfHash H codec all (withoutLeadingPrefix r.chainRoot) with
  | none => edges
  | some parentId =>
      if parentId ≠ recordId H codec r then
        edges ++ [⟨.chainPrecedes, parentId, recordId H codec r, true, none⟩]
      else edges

/-- The pairs of members at different places, in the order two nested loops meet them. -/
def placePairs {α : Type*} (xs : List α) : List (α × α) :=
  xs.zipIdx.flatMap fun a => (xs.zipIdx.filter fun b => a.2 ≠ b.2).map fun b => (a.1, b.1)

/-- Step 2 for one pair. -/
def sessionPrecedes (edges : List GraphEdge) (pair : AtribRecord × AtribRecord) :
    List GraphEdge :=
  let (a, b) := pair
  let aId := recordId H codec a
  let bId := recordId H codec b
  if has edges aId bId .chainPrecedes || has edges bId aId .chainPrecedes then edges
  else if a.timestamp < b.timestamp then edges ++ [⟨.sessionPrecedes, aId, bId, true, none⟩]
  else edges

/-- Step 3 for one pair. -/
def sessionParallel (edges : List GraphEdge) (pair : AtribRecord × AtribRecord) :
    List GraphEdge :=
  let (a, b) := pair
  let aId := recordId H codec a
  let bId := recordId H codec b
  if has edges aId bId .chainPrecedes || has edges bId aId .chainPrecedes ||
      has edges aId bId .sessionPrecedes || has edges bId aId .sessionPrecedes then edges
  else edges ++ [⟨.sessionParallel, aId, bId, false, none⟩]

def sessionTxNodes (nodes : List GraphNode) (contextId : String) : List GraphNode :=
  nodes.filter fun n => n.eventType = .transaction ∧ n.contextId = contextId

/-- Step 4. -/
def convergesOn (nodes : List GraphNode) (contextId : String) : List GraphEdge :=
  (sessionTxNodes nodes contextId).flatMap fun tx =>
    (nodes.filter fun n => ¬n.eventType = .transaction ∧ n.contextId = contextId).map fun n =>
      ⟨.convergesOn, n.id, tx.id, true, none⟩

/-- Step 5. -/
def crossSession (all : List AtribRecord) (nodes : List GraphNode) (contextId : String) :
    List GraphEdge :=
  (sessionTxNodes nodes contextId).flatMap fun tx =>
    match (recordOfId H codec all tx.id).bind (·.sessionToken) with
    | none => []
    | some txToken =>
        if txToken = "" then []
        else
          (all.filter fun r => r.eventType = toolCallUri ∧ r.contextId ≠ tx.contextId ∧
            r.sessionToken = some txToken).map
              fun r => ⟨.crossSession, recordId H codec r, tx.id, true, none⟩

def deriveEdges (records : List AtribRecord) (contextId : String) : List GraphEdge :=
  let session := sessionRecords records contextId
  let all := allRecords records contextId
  let nodes := all.map (recordNode H codec)
  let edges := all.foldl (chainPrecedes H codec all) []
  let edges := (placePairs session).foldl (sessionPrecedes H codec) edges
  let edges := (orderedPairs session).foldl (sessionParallel H codec) edges
  edges ++ convergesOn nodes contextId ++ crossSession H codec all nodes contextId

def buildGraphFromRecords (records : List AtribRecord) (contextId : String) : GraphResponse :=
  let nodes := (allRecords records contextId).map (recordNode H codec)
  let edges := deriveEdges H codec records contextId
  { contextId
    nodeCount := nodes.length
    edgeCount := edges.length
    hasTransaction := (sessionTxNodes nodes contextId).length > 0
    crossSessionCount := (crossSessionRecords records contextId).length
    nodes
    edges }

end Atrib.Integration
