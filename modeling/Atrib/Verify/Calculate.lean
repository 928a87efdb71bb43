import Atrib.Lib.InsertionMap
import Atrib.Lib.Search
import Atrib.Mcp.Hash
import Atrib.Verify.Graph
import Mathlib.Algebra.Order.Field.Basic
import Mathlib.Data.String.Basic

/-!
# The settlement calculation

`packages/verify/src/calculate.ts` (§4.6): from a graph, a policy and an
optional session policy record to the share of every creator. Numbers are the
elements of an ordered field `K`, in which arithmetic is exact, and `pow` is
`Math.pow` on them; with the rationals the definitions can be run.

Strings are compared by code points. The ids and keys of a graph are ASCII,
where this is the order of the source.
-/

namespace Atrib.Verify

open Lib (InsertionMap InsertionSet.add InsertionSet.ofList)

/-! ## Policies -/

inductive Modifier (K : Type*)
  | temporalDecay (halfLifeMs : K)
  | chainDepthPenalty (penaltyPerLevel : K)
  | callCountBoost (multiplierPerCall cap : K)
  /-- Any other type, which is ignored. -/
  | unknown (type : String)
deriving DecidableEq

structure PolicyConstraints (K : Type*) where
  minimumShare : Option K := none
  maximumShare : Option K := none
  minimumOwnShare : Option K := none
  maximumTotalShare : Option K := none
deriving DecidableEq

structure PolicyDocument (K : Type*) where
  specVersion : String
  edgeWeights : Option (InsertionMap String K) := none
  modifiers : Option (List (Modifier K)) := none
  constraints : Option (PolicyConstraints K) := none

/-- The floors of a session policy record; the calculation reads nothing else of it. -/
structure SessionPolicyRecord (K : Type*) where
  minimumFloors : InsertionMap String K

/-- A creator key → share map, with `__unsigned__` for nodes that have no key. -/
abbrev Distribution (K : Type*) := InsertionMap String K

variable {K : Type*} [Field K] [LinearOrder K]

def PolicyConstraints.given (c : PolicyConstraints K) : List K :=
  [c.minimumShare, c.maximumShare, c.minimumOwnShare, c.maximumTotalShare].filterMap id

def isValidPolicy (policy : PolicyDocument K) : Bool :=
  decide (policy.specVersion = "atrib/1.0") &&
  policy.edgeWeights.all (fun weights => weights.values.all fun v => !decide (v < 0)) &&
  policy.constraints.all fun c =>
    c.given.all (fun v => !decide (v < 0)) &&
    match c.minimumShare, c.maximumShare with
    | some minShare, some maxShare => !decide (maxShare < minShare)
    | _, _ => true

def DEFAULT_POLICY : PolicyDocument K where
  specVersion := "atrib/1.0"
  edgeWeights := some <| (∅ : InsertionMap String K).setAll
    [("CHAIN_PRECEDES", 1), ("SESSION_PRECEDES", 1), ("SESSION_PARALLEL", 1),
      ("CONVERGES_ON", 1), ("CROSS_SESSION", 1), ("unsigned", 0)]
  modifiers := some []
  constraints := some {}

/-- The policy that is applied: an invalid one is replaced by the default. -/
def validatedPolicy (policy : PolicyDocument K) : PolicyDocument K :=
  if isValidPolicy policy then policy else DEFAULT_POLICY

/-! ## Step 1: contributing nodes -/

def txNodeIds (graph : GraphResponse) : List String :=
  InsertionSet.ofList ((graph.nodes.filter (·.eventType = .transaction)).map (·.id))

/-- The sources of `CONVERGES_ON` and `CROSS_SESSION` edges to a transaction. -/
def hasEdgeToTx (graph : GraphResponse) : List String :=
  (graph.edges.filter fun edge =>
    (edge.type = .convergesOn ∨ edge.type = .crossSession) ∧ edge.target ∈ txNodeIds graph).map
    (·.source)

def identifyContributingNodes (graph : GraphResponse) : List GraphNode :=
  (graph.nodes.filter fun n =>
    (n.eventType = .toolCall ∨ n.eventType = .gapNode) ∧ n.id ∈ hasEdgeToTx graph).mergeSort
    fun a b => decide (a.id ≤ b.id)

/-! ## Step 2: raw scores -/

/-- `new Map(graph.nodes.map(n => [n.id, n]))`: a later node takes the place of
an earlier one with its id. -/
def nodeMap (graph : GraphResponse) (id : String) : Option GraphNode :=
  graph.nodes.reverse.find? (·.id = id)

def isNode (graph : GraphResponse) (id : String) : Bool := graph.nodes.any (·.id = id)

/-- The edges that can be walked from a node, in the order they are listed. -/
def adj (graph : GraphResponse) (id : String) : List (EdgeType × String) :=
  if isNode graph id then
    graph.edges.flatMap fun edge =>
      (if edge.source = id then [(edge.type, edge.target)] else []) ++
        if !edge.directed ∧ edge.target = id then [(edge.type, edge.source)] else []
  else []

def reverseAdj (graph : GraphResponse) (id : String) : List String :=
  if isNode graph id then
    graph.edges.flatMap fun edge =>
      (if edge.target = id then [edge.source] else []) ++
        if !edge.directed ∧ edge.source = id then [edge.target] else []
  else []

def chainAdj (graph : GraphResponse) (id : String) : List String :=
  if isNode graph id then
    (graph.edges.filter fun edge => edge.type = .chainPrecedes ∧ edge.source = id).map (·.target)
  else []

/-- Every id a search can come across; their number bounds its rounds. -/
def graphIds (graph : GraphResponse) : List String :=
  graph.nodes.map (·.id) ++ graph.edges.flatMap fun edge => [edge.source, edge.target]

/-- The backward search from all transactions. -/
def canReachTx (graph : GraphResponse) : List String :=
  (Lib.Search.explore (reverseAdj graph) (fun (found : List Unit) _ => found)
    (graphIds graph).length (txNodeIds graph) (txNodeIds graph) []).1

/-- The edges from `id` whose other end is a node that can reach a transaction. -/
def arcsToTx (graph : GraphResponse) (id : String) : List (EdgeType × String) :=
  (adj graph id).filter fun arc => arc.2 ∈ canReachTx graph ∧ (nodeMap graph arc.2).isSome

/-- Where the forward search goes on: it stops at transactions. -/
def forwardAdj (graph : GraphResponse) (id : String) : List String :=
  ((arcsToTx graph id).map Prod.snd).filter fun next =>
    (nodeMap graph next).all (·.eventType ≠ .transaction)

def collectEdgeTypesToTransaction (nodeId : String) (graph : GraphResponse) : List EdgeType :=
  (Lib.Search.explore (forwardAdj graph)
    (fun collected curr => ((arcsToTx graph curr).map Prod.fst).foldl InsertionSet.add collected)
    ((graphIds graph).length + 1) [nodeId] [nodeId] []).2

/-- Hops along `CHAIN_PRECEDES` to the nearest transaction. -/
def shortestChainPath (nodeId : String) (graph : GraphResponse) : ℕ :=
  (Lib.Search.nearest (chainAdj graph) (fun id => decide (id ∈ txNodeIds graph))
    ((graphIds graph).length + 1) [nodeId] [(nodeId, 0)]).getD MAX_SAFE_INTEGER

def countNodesWithSameContentId (contentId : Option String) (graph : GraphResponse) : ℕ :=
  if contentId = none ∨ contentId = some "" then 1
  else (graph.nodes.filter (·.contentId = contentId)).length

-- `Math.pow` on the numbers of `K`
variable (pow : K → K → K)

def applyModifier (modifier : Modifier K) (score : K) (node : GraphNode) (graph : GraphResponse)
    (txNode : GraphNode) : K :=
  match modifier with
  | .temporalDecay halfLifeMs =>
      let deltaMs := txNode.timestamp - node.timestamp
      if deltaMs < 0 then 0
      -- the exponent is -Infinity or NaN here, and the score 0 or NaN: it counts for nothing
      else if halfLifeMs = 0 then 0
      else score * pow 2 (-((deltaMs : K) / halfLifeMs))
  | .chainDepthPenalty penaltyPerLevel =>
      score * max 0 (1 - (shortestChainPath node.id graph : K) * penaltyPerLevel)
  | .callCountBoost multiplierPerCall cap =>
      score * min cap
        (1 + ((countNodesWithSameContentId node.contentId graph : K) - 1) * multiplierPerCall)
  | .unknown _ => score

/-- The largest of the weights, nothing for no weight. -/
def maxWeight (ws : List K) : Option K :=
  ws.foldl (fun max w => if max.all (· < w) then some w else max) none

def baseWeight (node : GraphNode) (graph : GraphResponse) (policy : PolicyDocument K) : K :=
  let weights := policy.edgeWeights.getD ∅
  if node.eventType = .gapNode then (weights.get? "unsigned").getD 0
  else
    (maxWeight ((collectEdgeTypesToTransaction node.id graph).map fun t =>
      (weights.get? t.name).getD 0)).getD 0

def rawScore (node : GraphNode) (graph : GraphResponse) (policy : PolicyDocument K)
    (txNode : GraphNode) : K :=
  let score := (policy.modifiers.getD []).foldl
    (fun score modifier => applyModifier pow modifier score node graph txNode)
    (baseWeight node graph policy)
  if score < 0 then 0 else score

/-! ## Step 3: constraints -/

/-- The sum of the values, as every loop over a map adds them up. -/
def total {κ : Type*} (shares : InsertionMap κ K) : K := shares.values.sum

def applyMinimumFloor {κ : Type*} [DecidableEq κ] (normalized : InsertionMap κ K) (floor : K) :
    InsertionMap κ K :=
  let below := normalized.filter fun _ s => s < floor
  let above := normalized.filter fun _ s => !decide (s < floor)
  let boostNeeded := total (below.mapVal fun _ s => floor - s)
  let aboveTotal := total above
  if aboveTotal ≤ boostNeeded then
    normalized.mapVal fun _ _ => 1 / (normalized.size : K)
  else
    let scale := (aboveTotal - boostNeeded) / aboveTotal
    (below.mapVal fun _ _ => floor).setAll (above.mapVal fun _ s => s * scale).entries

/-- The passes of `applyMaximumCap`, with the number of passes left. -/
def capPasses {κ : Type*} [DecidableEq κ] (cap : K) : ℕ → InsertionMap κ K → InsertionMap κ K
  | 0, current => current.mapVal fun _ s => min s cap
  | iter + 1, current =>
      let above := current.filter fun _ s => cap < s
      let below := current.filter fun _ s => !decide (cap < s)
      if above.size = 0 then current
      else
        let excess := total (above.mapVal fun _ s => s - cap)
        let belowTotal := total below
        let scale := if 0 < belowTotal then (belowTotal + excess) / belowTotal else 1
        capPasses cap iter
          ((above.mapVal fun _ _ => cap).setAll (below.mapVal fun _ s => s * scale).entries)

def applyMaximumCap {κ : Type*} [DecidableEq κ] (normalized : InsertionMap κ K) (cap : K) :
    InsertionMap κ K :=
  capPasses cap (normalized.size + 1) normalized

def applyConstraints {κ : Type*} [DecidableEq κ] (rawScores : InsertionMap κ K)
    (constraints : PolicyConstraints K) : InsertionMap κ K :=
  let contributors := rawScores.filter fun _ score => 0 < score
  if contributors.size = 0 then ∅
  else
    let normalized := contributors.mapVal fun _ s => s / total contributors
    let floored := constraints.minimumShare.elim normalized (applyMinimumFloor normalized)
    constraints.maximumShare.elim floored (applyMaximumCap floored)

/-! ## Steps 4 to 6: normalization and creators -/

def finalNormalize {κ : Type*} (shares : InsertionMap κ K) : InsertionMap κ K :=
  if total shares ≤ 0 then ⟨[], List.nodup_nil⟩
  else shares.mapVal fun _ s => s / total shares

def creatorOf (node : GraphNode) : String := node.creatorKey.getD "__unsigned__"

/-- Add the share of one node to what its creator has. -/
def addShare (normalized : InsertionMap String K) (graph : GraphResponse)
    (byCreator : InsertionMap String K) (id : String) : InsertionMap String K :=
  match nodeMap graph id with
  | none => byCreator
  | some node =>
      byCreator.set (creatorOf node)
        ((byCreator.get? (creatorOf node)).getD 0 + (normalized.get? id).getD 0)

def aggregateByCreator (normalized : InsertionMap String K) (graph : GraphResponse) :
    InsertionMap String K :=
  (normalized.keys.mergeSort fun a b => decide (a ≤ b)).foldl (addShare normalized graph) ∅

/-- The creators that have less than their floor. -/
def flooredKeys (byCreator creatorFloors : InsertionMap String K) : List String :=
  InsertionSet.ofList
    (((creatorFloors.entries.mergeSort fun a b => decide (a.1 ≤ b.1)).filter fun e =>
      byCreator.has e.1 && decide ((byCreator.get? e.1).getD 0 < e.2)).map Prod.fst)

def applyCreatorFloors (byCreator creatorFloors : InsertionMap String K) :
    InsertionMap String K :=
  let flooredKeys := flooredKeys byCreator creatorFloors
  if flooredKeys = [] then byCreator
  else
    let floorOf := fun k => (creatorFloors.get? k).getD 0
    let boostNeeded := (flooredKeys.map fun k => floorOf k - (byCreator.get? k).getD 0).sum
    let nonFloored := byCreator.filter fun k _ => decide (k ∉ flooredKeys)
    let nonFlooredTotal := total nonFloored
    if nonFlooredTotal ≤ boostNeeded then byCreator
    else
      let scale := (nonFlooredTotal - boostNeeded) / nonFlooredTotal
      (byCreator.setAll
        ((flooredKeys.mergeSort fun a b => decide (a ≤ b)).map fun k => (k, floorOf k))).setAll
        ((nonFloored.entries.mergeSort fun a b => decide (a.1 ≤ b.1)).map fun e =>
          (e.1, e.2 * scale))

/-- The map as a plain object. Assigning a number to `__proto__` of an object
has no effect, so that key is lost. -/
def distributionFromMap (map : InsertionMap String K) : Distribution K :=
  ((map.keys.mergeSort fun a b => decide (a ≤ b)).filter (· ≠ "__proto__")).foldl
    (fun result k => result.set k ((map.get? k).getD 0)) ∅

def rawScores (graph : GraphResponse) (policy : PolicyDocument K) (txNode : GraphNode) :
    InsertionMap String K :=
  (identifyContributingNodes graph).foldl
    (fun scores node => scores.set node.id (rawScore pow node graph policy txNode)) ∅

def calculate (graph : GraphResponse) (policy : PolicyDocument K)
    (sessionPolicyRecord : Option (SessionPolicyRecord K)) : Distribution K :=
  match graph.nodes.find? (·.eventType = .transaction) with
  | none => ∅
  | some txNode =>
      let policy := validatedPolicy policy
      let rawScores := rawScores pow graph policy txNode
      let constrained := applyConstraints rawScores (policy.constraints.getD {})
      let normalized := finalNormalize constrained
      let byCreator := aggregateByCreator normalized graph
      let creatorFloors := (sessionPolicyRecord.map (·.minimumFloors)).getD ∅
      let floored := applyCreatorFloors byCreator creatorFloors
      distributionFromMap (finalNormalize floored)

end Atrib.Verify
