import Atrib.Lib.ParentTree
import Atrib.Mcp.Hash

/-!
# Matching line items by flow

`maxLineItemFlow` of `packages/verify/src/ap2-vi-evidence.ts`. Units flow from
the source through the requirements and the items that they accept to the sink;
the graph holds what is left of each capacity. The source names its nodes by
texts, which their first letters tell apart. Numbers are exact.
-/

namespace Atrib.Verify

open Lib (InsertionMap climb)

/-- `'source'`, `'sink'`, `req:${index}` and `item:${itemId}`. -/
inductive FlowNode where
  | source
  | sink
  | req (index : ℕ)
  | item (itemId : String)
deriving DecidableEq

/-- The identifiers are a set. -/
structure LineItemRequirement where
  quantity : ℕ
  acceptableIds : List String
  nodup : acceptableIds.Nodup

abbrev FlowGraph := InsertionMap FlowNode (InsertionMap FlowNode ℤ)

/-- `graph.get(node) ?? []` -/
def edgesFrom (graph : FlowGraph) (node : FlowNode) : InsertionMap FlowNode ℤ :=
  (graph.get? node).getD ∅

/-- `graph.get(u)!.get(v) ?? 0` -/
def capacityOf (graph : FlowGraph) (u v : FlowNode) : ℤ := ((edgesFrom graph u).get? v).getD 0

/-- `graph.get(u)!.set(v, capacity)` -/
def setCapacity (graph : FlowGraph) (u v : FlowNode) (capacity : ℤ) : FlowGraph :=
  graph.set u ((edgesFrom graph u).set v capacity)

def addEdge (graph : FlowGraph) (u v : FlowNode) (capacity : ℕ) : FlowGraph :=
  let graph := if graph.has u then graph else graph.set u ∅
  let graph := if graph.has v then graph else graph.set v ∅
  let graph := setCapacity graph u v (capacityOf graph u v + capacity)
  setCapacity graph v u (capacityOf graph v u)

/-- The edges of a requirement. -/
def addRequirement (checkoutQuantities : InsertionMap String ℕ) (graph : FlowGraph)
    (requirement : LineItemRequirement × ℕ) : FlowGraph :=
  let reqNode := FlowNode.req requirement.2
  requirement.1.acceptableIds.foldl
    (fun graph itemId =>
      if checkoutQuantities.has itemId then addEdge graph reqNode (.item itemId) MAX_SAFE_INTEGER
      else graph)
    (addEdge graph .source reqNode requirement.1.quantity)

def lineItemGraph (requirements : List LineItemRequirement)
    (checkoutQuantities : InsertionMap String ℕ) : FlowGraph :=
  let graph := requirements.zipIdx.foldl (addRequirement checkoutQuantities) ∅
  checkoutQuantities.entries.foldl (fun graph item => addEdge graph (.item item.1) .sink item.2)
    graph

/-- The map of parents and the queue. -/
abbrev FlowSearch := InsertionMap FlowNode (Option FlowNode) × List FlowNode

/-- One neighbour in the loop over `graph.get(node) ?? []`. -/
def visitNeighbour (node : FlowNode) (state : FlowSearch) (edge : FlowNode × ℤ) : FlowSearch :=
  if 0 < edge.2 ∧ !state.1.has edge.1 then
    (state.1.set edge.1 (some node), state.2 ++ [edge.1])
  else state

/-- `for (let i = 0; i < queue.length && !parent.has(sink); i += 1)`. A node enters the queue
once. -/
def searchLoop (graph : FlowGraph) : ℕ → FlowSearch → InsertionMap FlowNode (Option FlowNode)
  | 0, (parent, _) => parent
  | _ + 1, (parent, []) => parent
  | rounds + 1, (parent, node :: queue) =>
      if parent.has .sink then parent
      else
        searchLoop graph rounds
          ((edgesFrom graph node).entries.foldl (visitNeighbour node) (parent, queue))

def findParents (graph : FlowGraph) : InsertionMap FlowNode (Option FlowNode) :=
  searchLoop graph (graph.size + 2)
    ((∅ : InsertionMap FlowNode (Option FlowNode)).set .source none, [.source])

/-- The least capacity from the sink back to the source. -/
def pathIncrement (graph : FlowGraph) (path : List (FlowNode × FlowNode)) : ℤ :=
  path.foldl (fun increment edge => min increment (capacityOf graph edge.1 edge.2))
    MAX_SAFE_INTEGER

def pushIncrement (increment : ℤ) (graph : FlowGraph) (edge : FlowNode × FlowNode) : FlowGraph :=
  let graph := setCapacity graph edge.1 edge.2 (capacityOf graph edge.1 edge.2 - increment)
  setCapacity graph edge.2 edge.1 (capacityOf graph edge.2 edge.1 + increment)

/-- `for (;;)`. None is a loop that has not ended within the rounds. -/
def flowLoop : ℕ → FlowGraph → ℤ → Option ℤ
  | 0, _, _ => none
  | rounds + 1, graph, flow =>
      let parent := findParents graph
      if !parent.has .sink then some flow
      else
        let path := climb parent .source parent.size .sink
        let increment := pathIncrement graph path
        flowLoop rounds (path.foldl (pushIncrement increment) graph) (flow + increment)

/-- `requirements.reduce((sum, item) => sum + item.quantity, 0)` -/
def requiredQuantity (requirements : List LineItemRequirement) : ℕ :=
  (requirements.map (·.quantity)).sum

/-- `[...checkoutQuantities.values()].reduce((sum, quantity) => sum + quantity, 0)` -/
def checkoutQuantity (checkoutQuantities : InsertionMap String ℕ) : ℕ :=
  checkoutQuantities.values.sum

/-- Each round carries at least one unit more. -/
def maxLineItemFlow (requirements : List LineItemRequirement)
    (checkoutQuantities : InsertionMap String ℕ) : Option ℤ :=
  flowLoop (requiredQuantity requirements + 1) (lineItemGraph requirements checkoutQuantities) 0

end Atrib.Verify
