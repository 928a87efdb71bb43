import Atrib.Recall.Mirror

/-!
# The local graph

`services/atrib-recall/src/graph.ts`. Each record has edges to the records it
follows in its chain, is informed by, annotates or revises, and they have edges
back. Distances are found by visiting the nearest node that has not been visited
yet; each round visits one node of the graph, so that as many rounds as it has
nodes are enough.
-/

namespace Atrib.Recall.Mirror

open Lib (InsertionMap InsertionSet.add JsValue sortBy)

inductive EdgeType where
  | chainPrecedes
  | informedBy
  | annotates
  | revises
deriving DecidableEq

def EDGE_WEIGHTS : EdgeType → ℕ
  | .chainPrecedes | .informedBy => 1
  | .annotates | .revises => 2

structure GraphEdge where
  type : EdgeType
  target : String
  weight : ℕ
deriving DecidableEq

abbrev LocalGraph := InsertionMap String (List GraphEdge)

namespace LocalGraph

/-- What `graph.has` does not find is added with no edges. -/
def addNode (graph : LocalGraph) (lr : LoadedRecord) : LocalGraph :=
  if graph.has lr.recordHash.val then graph else graph.set lr.recordHash.val []

def addEdge (graph : LocalGraph) (origin : String) (edge : GraphEdge) : LocalGraph :=
  graph.set origin (((graph.get? origin).getD []) ++ [edge])

def addUndirected (graph : LocalGraph) (a b : String) (type : EdgeType) : LocalGraph :=
  (graph.addEdge a ⟨type, b, EDGE_WEIGHTS type⟩).addEdge b ⟨type, a, EDGE_WEIGHTS type⟩

end LocalGraph

def stripPrefix (hash : String) : String :=
  if hasHashPrefix hash then afterHashPrefix hash else hash

section

variable (H : Hash) (byHashHex : InsertionMap String String)

/-- One round of the loop over the references of a record. -/
def addInformedBy (lr : LoadedRecord) (graph : LocalGraph) (ref : JsValue) : LocalGraph :=
  match ref with
  | .string ref =>
      if graph.has ref || byHashHex.has (stripPrefix ref) then
        graph.addUndirected lr.recordHash.val ref .informedBy
      else graph
  | _ => graph

def addEdgesOf (graph : LocalGraph) (lr : LoadedRecord) : LocalGraph :=
  let graph :=
    if lr.record.chainRoot ≠ genesisChainRoot H lr.record.contextId then
      match (byHashHex.get? (stripPrefix lr.record.chainRoot)).filter (· ≠ "") with
      | some prior => graph.addUndirected lr.recordHash.val prior .chainPrecedes
      | none => graph
    else graph
  let graph := ((lr.record.value.member "informed_by").array?.getD []).foldl
    (addInformedBy byHashHex lr) graph
  let graph :=
    match lr.targetRef "annotates" with
    | some target =>
        if lr.record.eventType = EVENT_TYPE_ANNOTATION_URI then
          graph.addUndirected lr.recordHash.val target.val .annotates
        else graph
    | none => graph
  match lr.targetRef "revises" with
  | some target =>
      if lr.record.eventType = EVENT_TYPE_REVISION_URI then
        graph.addUndirected lr.recordHash.val target.val .revises
      else graph
  | none => graph

def buildLocalGraph (loaded : List LoadedRecord) : LocalGraph :=
  let byHashHex := (∅ : InsertionMap String String).setAll
    (loaded.map fun lr => (stripPrefix lr.recordHash.val, lr.recordHash.val))
  loaded.foldl (addEdgesOf H byHashHex) (loaded.foldl LocalGraph.addNode ∅)

end

/-! ## Distances -/

structure Distances where
  dist : InsertionMap String ℕ
  hops : InsertionMap String ℕ
  visited : List String := []

/-- The first of the nearest nodes that have not been visited. -/
def Distances.nearest (s : Distances) : Option (String × ℕ) :=
  s.dist.entries.foldl (fun found entry =>
    if entry.1 ∈ s.visited then found
    else if found.all (entry.2 < ·.2) then some entry else found) none

/-- One round of the loop over the edges of a node. -/
def Distances.relax (minDist nodeHops : ℕ) (edgeTypes : List EdgeType) (s : Distances)
    (edge : GraphEdge) : Distances :=
  if edgeTypes ≠ [] ∧ edge.type ∉ edgeTypes then s
  else
    let candidate := minDist + edge.weight
    if (s.dist.get? edge.target).all (candidate < ·) then
      { s with dist := s.dist.set edge.target candidate
               hops := s.hops.set edge.target (nodeHops + 1) }
    else s

/-- The rounds of `while (true)`. No bound on the hops is `none`. -/
def distanceRounds (graph : LocalGraph) (edgeTypes : List EdgeType) (maxHops : Option ℚ) :
    ℕ → Distances → Distances
  | 0, s => s
  | rounds + 1, s =>
      match s.nearest with
      | none => s
      | some (node, minDist) =>
          let s := { s with visited := InsertionSet.add s.visited node }
          let nodeHops : ℕ := (s.hops.get? node).getD 0
          if maxHops.any (· ≤ (nodeHops : ℚ)) then distanceRounds graph edgeTypes maxHops rounds s
          else distanceRounds graph edgeTypes maxHops rounds
            (((graph.get? node).getD []).foldl (Distances.relax minDist nodeHops edgeTypes) s)

/-- No edge types to choose from is the empty list, as in the source. -/
def shortestDistances (graph : LocalGraph) (start : String) (edgeTypes : List EdgeType)
    (maxHops : Option ℚ) : InsertionMap String ℕ :=
  if !graph.has start then ∅
  else
    (distanceRounds graph edgeTypes maxHops (graph.size + 1)
      { dist := (∅ : InsertionMap String ℕ).set start 0
        hops := (∅ : InsertionMap String ℕ).set start 0 }).dist

def walkFrom (graph : LocalGraph) (start : String) (edgeTypes : List EdgeType) (maxHops : ℚ) :
    List (String × ℕ) :=
  sortBy (fun a b => compare a.2 b.2)
    ((shortestDistances graph start edgeTypes (some maxHops)).entries.filter (·.1 ≠ start))

end Atrib.Recall.Mirror
