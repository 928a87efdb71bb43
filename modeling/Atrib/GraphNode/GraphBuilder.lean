import Atrib.Mcp.Record
import Atrib.Verify.Revocations
import Mathlib.Data.String.Basic

/-!
# The graph builder

`buildGraph` of `services/graph-node/src/graph-builder.ts` (§3.2.4): the nodes
of a set of records and gap calls, and the nine steps that derive the edges
between them. The loop over the records is apart from the rest, since it is
where the source awaits; what follows it runs without interruption.

Sets of `source->target` texts are lists of pairs here.
-/

namespace Atrib.GraphNode

open Lib (InsertionMap)
open Verify

structure ReferenceTarget where
  recordHash : String
  eventType : EventType
  eventTypeUri : Option String
  creatorKey : Option String
  contextId : String
  timestamp : ℤ
  logIndex : Option ℕ

structure BuildGraphOptions where
  includeGapNodes : Bool := true
  includeCrossSession : Bool := true
  revocations : Option RevocationRegistry := none
  logIndexLookup : Option (String → Option ℕ) := none
  compactIntraSessionEdges : Bool := false
  resolveRecordReference : Option (String → Option ReferenceTarget) := none
  resolveProvenanceReference : Option (String → String → Option ReferenceTarget) := none

/-! ## Nodes -/

structure RecordInfo where
  record : AtribRecord
  hash : String
  nodeId : String
  token16 : String

def recordInfo (H : Hash) (codec : RecordCodec) (record : AtribRecord) : RecordInfo :=
  let digest := recordDigest H codec record
  ⟨record, hexEncode digest, "sha256:" ++ hexEncode digest, base64urlEncode (digest.take 16)⟩

def RecordInfo.sortKey (info : RecordInfo) : String :=
  info.record.contextId ++ ":" ++ info.record.contentId.getD info.nodeId

/-- The comparator of the sort: not after. -/
def RecordInfo.le (a b : RecordInfo) : Bool :=
  if a.record.timestamp ≠ b.record.timestamp then decide (a.record.timestamp ≤ b.record.timestamp)
  else decide (a.sortKey ≤ b.sortKey)

def recordInfos (H : Hash) (codec : RecordCodec) (records : List AtribRecord) : List RecordInfo :=
  (records.map (recordInfo H codec)).mergeSort RecordInfo.le

/-- One round of the loop over the records. -/
def recordNode (H : Hash) (codec : RecordCodec) (options : BuildGraphOptions)
    (info : RecordInfo) : GraphNode :=
  let record := info.record
  let node : GraphNode :=
    { id := info.nodeId
      eventType := graphLabelFromEventTypeUri record.eventType
      eventTypeUri := some record.eventType
      contentId := record.contentId
      creatorKey := some record.creatorKey
      chainRoot := some record.chainRoot
      contextId := record.contextId
      timestamp := record.timestamp
      logIndex := options.logIndexLookup.bind (· info.hash)
      verificationState := if codec.verifyRecord record then .signatureValid else .unsigned
      isGenesis := hasHashPrefix record.chainRoot &&
        record.chainRoot == genesisChainRoot H record.contextId }
  match options.revocations with
  | some registry => { node with verificationState := applyRevocation node registry }
  | none => node

def gapGraphNode (H : Hash) (gap : GapNode) : GraphNode where
  id := "gap:" ++ hexEncode (H.sha256
    (utf8 (gap.toolUrl ++ ":" ++ gap.toolName ++ ":" ++ gap.contextId)))
  eventType := .gapNode
  eventTypeUri := none
  contentId := none
  creatorKey := none
  chainRoot := none
  contextId := gap.contextId
  timestamp := gap.timestamp
  logIndex := none
  verificationState := .unsigned
  isGenesis := false

/-- `hashToNodeId`: the node of a record hash. -/
def nodeIdOfHash (infos : List RecordInfo) (hash : String) : Option String :=
  (infos.find? (·.hash = hash)).map (·.nodeId)

/-- `infoByNodeId`: the last record of a node. -/
def infoByNodeId (infos : List RecordInfo) (id : String) : Option RecordInfo :=
  infos.reverse.find? (·.nodeId = id)

def groupByContextId (nodes : List GraphNode) : InsertionMap String (List GraphNode) :=
  nodes.foldl (fun map node => map.set node.contextId ((map.get? node.contextId).getD [] ++ [node]))
    ∅

/-! ## Chain components -/

abbrev ChainParent := InsertionMap String String

/-- Go up from `curr` until a node has no other parent. -/
def climb (parent : ChainParent) : ℕ → String → String
  | 0, curr => curr
  | steps + 1, curr =>
      match parent.get? curr with
      | none => curr
      | some next => if next = curr then curr else climb parent steps next

/-- The root, and the parents after path compression. The loop that compresses
sets `walker = next` before it asks whether the two are the same, so it ends
after its first round. -/
def findChainRoot (parent : ChainParent) (id : String) : String × ChainParent :=
  let root := climb parent (parent.size + 1) id
  (root, if id = root then parent else parent.set id root)

def unionChain (parent : ChainParent) (a b : String) : ChainParent :=
  let (rootA, parent) := findChainRoot parent a
  let (rootB, parent) := findChainRoot parent b
  if rootA ≠ rootB then parent.set rootA rootB else parent

/-! ## Steps 1 to 5 -/

/-- What the edge derivation has so far. -/
structure Derivation where
  edges : List GraphEdge := []
  chainPrecedesPairs : List (String × String) := []
  sessionPrecedesPairs : List (String × String) := []
  chainParent : ChainParent := ∅

def Derivation.related (d : Derivation) (a b : String) : Bool :=
  d.chainPrecedesPairs.contains (a, b) || d.chainPrecedesPairs.contains (b, a)

def Derivation.sessionOrdered (d : Derivation) (a b : String) : Bool :=
  d.sessionPrecedesPairs.contains (a, b) || d.sessionPrecedesPairs.contains (b, a)

/-- Are two nodes in one chain component? Both searches compress paths. -/
def Derivation.sameChain (d : Derivation) (a b : String) : Bool × Derivation :=
  let (rootA, parent) := findChainRoot d.chainParent a
  let (rootB, parent) := findChainRoot parent b
  (rootA == rootB, { d with chainParent := parent })

/-- Step 1: `CHAIN_PRECEDES`. -/
def chainPrecedes (infos : List RecordInfo) (compact : Bool) (d : Derivation) (node : GraphNode) :
    Derivation :=
  if node.isGenesis || node.eventType = .gapNode then d
  else
    match node.chainRoot.filter (· ≠ "") with
    | none => d
    | some chainRoot =>
        match nodeIdOfHash infos (withoutHashPrefix chainRoot) with
        | none => d
        | some parentId =>
            { d with
              edges := d.edges ++ [⟨.chainPrecedes, parentId, node.id, true, none⟩]
              chainPrecedesPairs := d.chainPrecedesPairs ++ [(parentId, node.id), (node.id, parentId)]
              chainParent :=
                if compact then unionChain d.chainParent parentId node.id else d.chainParent }

/-- The two orders of a pair, once an edge has been put between them. -/
def Derivation.precede (d : Derivation) (a b : GraphNode) : Derivation :=
  { d with
    edges := d.edges ++ [⟨.sessionPrecedes, a.id, b.id, true, none⟩]
    sessionPrecedesPairs := d.sessionPrecedesPairs ++ [(a.id, b.id), (b.id, a.id)] }

/-- The pairs `i < j` of a list, in the order two nested loops meet them. -/
def orderedPairs {α : Type*} : List α → List (α × α)
  | [] => []
  | x :: xs => xs.map (x, ·) ++ orderedPairs xs

/-- Neighbours in a list. -/
def consecutivePairs {α : Type*} (xs : List α) : List (α × α) := xs.zip xs.tail

/-- Step 2 for one pair of the full derivation. -/
def sessionPrecedesFull (d : Derivation) (pair : GraphNode × GraphNode) : Derivation :=
  let (a, b) := pair
  if d.related a.id b.id then d
  else if a.timestamp < b.timestamp then d.precede a b
  else if b.timestamp < a.timestamp then d.precede b a
  else d

/-- Step 2 for neighbours in time, compact. -/
def sessionPrecedesCompact (d : Derivation) (pair : GraphNode × GraphNode) : Derivation :=
  let (a, b) := pair
  if b.timestamp ≤ a.timestamp then d
  else if d.related a.id b.id then d
  else
    let (same, d) := d.sameChain a.id b.id
    if same then d else d.precede a b

def timeOrder (a b : GraphNode) : Bool :=
  if a.timestamp ≠ b.timestamp then decide (a.timestamp ≤ b.timestamp) else decide (a.id ≤ b.id)

/-- Step 2: `SESSION_PRECEDES`, for the nodes of one context. -/
def sessionPrecedes (compact : Bool) (d : Derivation) (contextNodes : List GraphNode) : Derivation :=
  if compact then
    (consecutivePairs (contextNodes.mergeSort timeOrder)).foldl sessionPrecedesCompact d
  else (orderedPairs contextNodes).foldl sessionPrecedesFull d

/-- The nodes of one context by timestamp. -/
def groupByTimestamp (nodes : List GraphNode) : InsertionMap ℤ (List GraphNode) :=
  nodes.foldl (fun map node => map.set node.timestamp ((map.get? node.timestamp).getD [] ++ [node]))
    ∅

def Derivation.parallel (d : Derivation) (a b : GraphNode) : Derivation :=
  { d with edges := d.edges ++ [⟨.sessionParallel, a.id, b.id, false, none⟩] }

/-- Step 3 for one pair. -/
def sessionParallelPair (compact : Bool) (d : Derivation) (pair : GraphNode × GraphNode) :
    Derivation :=
  let (a, b) := pair
  if d.related a.id b.id || d.sessionOrdered a.id b.id then d
  else if compact then
    let (same, d) := d.sameChain a.id b.id
    if same then d else d.parallel a b
  else d.parallel a b

/-- Step 3: `SESSION_PARALLEL`, for the nodes of one context. -/
def sessionParallel (compact : Bool) (d : Derivation) (contextNodes : List GraphNode) : Derivation :=
  if compact then
    (groupByTimestamp contextNodes).values.foldl
      (fun d peers => (orderedPairs peers).foldl (sessionParallelPair true) d) d
  else (orderedPairs contextNodes).foldl (sessionParallelPair false) d

/-- Step 4: `CONVERGES_ON`, for the nodes of one context. -/
def convergesOn (contextNodes : List GraphNode) : List GraphEdge :=
  (contextNodes.filter (·.eventType = .transaction)).flatMap fun txNode =>
    (contextNodes.filter fun n => n.eventType = .toolCall ∨ n.eventType = .gapNode).map
      fun contributor => ⟨.convergesOn, contributor.id, txNode.id, true, none⟩

/-- Step 5: `CROSS_SESSION`, from tool calls of other contexts with the session
token of a transaction. -/
def crossSession (infos : List RecordInfo) (nodes : List GraphNode) : List GraphEdge :=
  (nodes.filter (·.eventType = .transaction)).flatMap fun txNode =>
    match (infoByNodeId infos txNode.id).bind (·.record.sessionToken) with
    | none => []
    | some token =>
        if token = "" then []
        else
          (nodes.filter fun otherNode =>
            otherNode.contextId ≠ txNode.contextId ∧ otherNode.eventType = .toolCall ∧
              (infoByNodeId infos otherNode.id).bind (·.record.sessionToken) = some token).map
            fun otherNode => ⟨.crossSession, otherNode.id, txNode.id, true, none⟩

/-! ## Steps 6 to 9 -/

/-- Nodes and edges while placeholders are added for what is not there. -/
structure Referenced where
  nodes : List GraphNode
  edges : List GraphEdge

structure Classified where
  status : ReferenceStatus
  target : Option ReferenceTarget
  reason : Option String

def classifyRecordReference (options : BuildGraphOptions) (refHash : String) : Classified :=
  match options.resolveRecordReference with
  | none => ⟨.unresolved, none, none⟩
  | some resolve =>
      match resolve refHash with
      | some target => ⟨.external, some target, some "target_out_of_scope"⟩
      | none => ⟨.missing, none, some "target_not_found"⟩

def classifyProvenanceReference (options : BuildGraphOptions) (token16 sourceContextId : String) :
    Classified :=
  match options.resolveProvenanceReference with
  | none => ⟨.unresolved, none, some "no_token_source_in_record_set"⟩
  | some resolve =>
      match resolve token16 sourceContextId with
      | some target => ⟨.external, some target, some "target_out_of_scope"⟩
      | none => ⟨.missing, none, some "target_not_found"⟩

/-- What a placeholder and the edge to it say of the reference. -/
def Classified.reference (c : Classified) (hash token : Option String) : Reference where
  status := c.status
  hash := hash
  token := token
  contextId := c.target.map (·.contextId)
  eventType := c.target.map (·.eventType)
  logIndex := c.target.bind (·.logIndex)

def referenceNode (id : String) (c : Classified) (reference : Reference) : GraphNode where
  id := id
  eventType := .danglingNode
  eventTypeUri := none
  contentId := none
  creatorKey := c.target.bind (·.creatorKey)
  chainRoot := none
  contextId := (c.target.map (·.contextId)).getD ""
  timestamp := (c.target.map (·.timestamp)).getD 0
  logIndex := c.target.bind (·.logIndex)
  verificationState :=
    match c.target with
    | none => .unsigned
    | some target => if target.logIndex.isNone then .signatureValid else .logCommitted
  isGenesis := false
  reference := some reference

/-- An edge to a placeholder, which is created unless there is a node of its id. -/
def Referenced.dangle (r : Referenced) (type : EdgeType) (source id : String) (c : Classified)
    (reference : Reference) : Referenced where
  nodes := if r.nodes.any (·.id = id) then r.nodes else r.nodes ++ [referenceNode id c reference]
  edges := r.edges ++ [⟨type, source, id, true, some ⟨reference, c.reason⟩⟩]

def Referenced.link (r : Referenced) (type : EdgeType) (source target : String) : Referenced :=
  { r with edges := r.edges ++ [⟨type, source, target, true, none⟩] }

/-- One reference to a record, by a text `sha256:…`. -/
def referTo (options : BuildGraphOptions) (infos : List RecordInfo) (type : EdgeType)
    (source : String) (r : Referenced) (ref : String) : Referenced :=
  if !hasHashPrefix ref then r
  else
    match nodeIdOfHash infos (afterHashPrefix ref) with
    | some targetId => r.link type source targetId
    | none =>
        let c := classifyRecordReference options (afterHashPrefix ref)
        r.dangle type source ("dangling:" ++ ref) c (c.reference (some ref) none)

/-- Step 6: `INFORMED_BY`. -/
def informedBy (options : BuildGraphOptions) (infos : List RecordInfo) (r : Referenced)
    (info : RecordInfo) : Referenced :=
  (info.record.informedBy.getD []).foldl (referTo options infos .informedBy info.nodeId) r

/-- Step 7: `PROVENANCE_OF`, from the genesis record of a session. -/
def provenanceOf (H : Hash) (options : BuildGraphOptions) (infos : List RecordInfo)
    (r : Referenced) (info : RecordInfo) : Referenced :=
  match info.record.provenanceToken with
  | none => r
  | some token =>
      if token = "" ∨ info.record.chainRoot ≠ genesisChainRoot H info.record.contextId then r
      else
        match infos.find? fun candidate =>
          candidate.record.contextId ≠ info.record.contextId ∧ candidate.token16 = token with
        | some candidate => r.link .provenanceOf info.nodeId candidate.nodeId
        | none =>
            let c := classifyProvenanceReference options token info.record.contextId
            r.dangle .provenanceOf info.nodeId ("dangling:provenance:" ++ token) c
              (c.reference none (some token))

/-- Step 8: `ANNOTATES`. -/
def annotates (options : BuildGraphOptions) (infos : List RecordInfo) (r : Referenced)
    (info : RecordInfo) : Referenced :=
  if info.record.eventType = "https://atrib.dev/v1/types/annotation" then
    info.record.annotates.elim r (referTo options infos .annotates info.nodeId r)
  else r

/-- Step 9: `REVISES`. -/
def revises (options : BuildGraphOptions) (infos : List RecordInfo) (r : Referenced)
    (info : RecordInfo) : Referenced :=
  if info.record.eventType = "https://atrib.dev/v1/types/revision" then
    info.record.revises.elim r (referTo options infos .revises info.nodeId r)
  else r

/-! ## The graph -/

/-- Steps 1 to 5. -/
def deriveEdges (options : BuildGraphOptions) (infos : List RecordInfo) (nodes : List GraphNode) :
    List GraphEdge :=
  let compact := options.compactIntraSessionEdges
  let byContext := (groupByContextId nodes).values
  let d := nodes.foldl (chainPrecedes infos compact) {}
  let d := byContext.foldl (sessionPrecedes compact) d
  let d := byContext.foldl (sessionParallel compact) d
  d.edges ++ byContext.flatMap convergesOn ++
    if options.includeCrossSession then crossSession infos nodes else []

/-- Steps 6 to 9. -/
def deriveReferences (H : Hash) (options : BuildGraphOptions) (infos : List RecordInfo)
    (r : Referenced) : Referenced :=
  let r := infos.foldl (informedBy options infos) r
  let r := infos.foldl (provenanceOf H options infos) r
  let r := infos.foldl (annotates options infos) r
  infos.foldl (revises options infos) r

def graphResponse (r : Referenced) : GraphResponse where
  contextId := (r.nodes.head?.map (·.contextId)).getD ""
  nodeCount := r.nodes.length
  edgeCount := r.edges.length
  hasTransaction := r.nodes.any (·.eventType = .transaction)
  crossSessionCount := (r.edges.filter (·.type = .crossSession)).length
  nodes := r.nodes
  edges := r.edges

/-- `buildGraph` after its loop over the records. -/
def assembleGraph (H : Hash) (options : BuildGraphOptions) (infos : List RecordInfo)
    (recordNodes : List GraphNode) (gapNodes : List GapNode) : GraphResponse :=
  let nodes := recordNodes ++ if options.includeGapNodes then gapNodes.map (gapGraphNode H) else []
  graphResponse (deriveReferences H options infos ⟨nodes, deriveEdges options infos nodes⟩)

def buildGraph (H : Hash) (codec : RecordCodec) (records : List AtribRecord)
    (gapNodes : List GapNode) (options : BuildGraphOptions) : GraphResponse :=
  let infos := recordInfos H codec records
  assembleGraph H options infos (infos.map (recordNode H codec options)) gapNodes

end Atrib.GraphNode
