import Atrib.Proofs.SettlementScores
import Mathlib.Analysis.SpecialFunctions.Pow.Real

/-!
# What the order of nodes and edges does to a settlement

The scores of two orders differ by a common factor, which the first pass of
the constraints divides out, unless a contributing node stands between two
transactions. Such a node has a share or none, depending on which transaction
is listed first; when its creator has no other node, the creators paid differ.
-/

namespace Atrib.Verify

open Lib (InsertionMap)

/-! ## Settlements -/

variable {K : Type*} [Field K] [LinearOrder K] [IsStrictOrderedRing K]

/-- The first pass divides by the sum of the scores, and a common factor is gone. -/
theorem applyConstraints_scaled {κ : Type*} [DecidableEq κ] {c : K} (hc : 0 < c)
    (rawScores : InsertionMap κ K) (constraints : PolicyConstraints K) :
    applyConstraints (rawScores.mapVal fun _ s => s * c) constraints =
      applyConstraints rawScores constraints := by
  have hfilter : (rawScores.mapVal fun _ s => s * c).filter (fun _ score => 0 < score) =
      (rawScores.filter fun _ score => 0 < score).mapVal fun _ s => s * c := by
    rw [InsertionMap.filter_mapVal]
    simp only [mul_pos_iff_of_pos_right hc]
  have hsize : ∀ m : InsertionMap κ K, (m.mapVal fun _ s => s * c).size = m.size :=
    fun _ => List.length_map _
  have hshare : ∀ m : InsertionMap κ K,
      ((m.mapVal fun _ s => s * c).mapVal fun _ s => s / (total m * c)) =
        m.mapVal fun _ s => s / total m := by
    intro m
    rw [InsertionMap.mapVal_mapVal]
    simp only [mul_div_mul_right _ _ hc.ne']
  unfold applyConstraints
  simp only [hfilter, hsize, total_mapVal_mul, hshare]

section Settlement

variable {pow : K → K → K} {graph graph' : GraphResponse} {policy : PolicyDocument K}

/-- The scores of the two orders differ by a factor. -/
theorem rawScores_scaled (hpow : IsExp2 pow) (hperm : Permuted graph graph')
    (hone : OneSided pow graph policy) {x y : GraphNode} (hx : x ∈ graph.nodes)
    (hy : y ∈ graph.nodes) (htx : x.eventType = .transaction) (hty : y.eventType = .transaction) :
    rawScores pow graph' policy y =
      (rawScores pow graph policy x).mapVal fun _ s =>
        s * decayOver (pow 2) (policy.modifiers.getD []) (y.timestamp - x.timestamp) := by
  ext1
  rw [rawScores_entries hperm.symm.ids, ← hperm.identifyContributingNodes_eq]
  simp only [InsertionMap.mapVal, rawScores_entries hperm.ids, List.map_map]
  refine List.map_congr_left fun node hnode => ?_
  simp only [Function.comp_apply]
  rw [← hperm.rawScore_eq, rawScore_scaled hpow hone hnode hx hy htx hty]

theorem Permuted.find_transaction (hperm : Permuted graph graph')
    (h : graph.nodes.find? (·.eventType = .transaction) = none) :
    graph'.nodes.find? (·.eventType = .transaction) = none := by
  rw [List.find?_eq_none] at h ⊢
  exact fun n hn => h n (hperm.nodes.mem_iff.2 hn)

theorem mem_of_find_transaction {txNode : GraphNode}
    (h : graph.nodes.find? (·.eventType = .transaction) = some txNode) :
    txNode ∈ graph.nodes ∧ txNode.eventType = .transaction :=
  ⟨List.mem_of_find?_eq_some h, by simpa using List.find?_some h⟩

/-- The order of nodes and edges does not show in the settlement, as long as no
node that counts stands between two transactions. -/
theorem calculate_permuted (hpow : IsExp2 pow) (hperm : Permuted graph graph')
    (hone : OneSided pow graph (validatedPolicy policy))
    (sessionPolicyRecord : Option (SessionPolicyRecord K)) :
    calculate pow graph' policy sessionPolicyRecord =
      calculate pow graph policy sessionPolicyRecord := by
  have hcreators : ∀ normalized : InsertionMap String K,
      aggregateByCreator normalized graph' = aggregateByCreator normalized graph := by
    intro normalized
    have hadd : addShare normalized graph' = addShare normalized graph := by
      funext byCreator id
      rw [addShare, addShare, hperm.nodeMap_eq]
    rw [aggregateByCreator, aggregateByCreator, hadd]
  unfold calculate
  cases hx : graph.nodes.find? (·.eventType = .transaction) with
  | none => rw [hperm.find_transaction hx]
  | some x =>
      cases hy : graph'.nodes.find? (·.eventType = .transaction) with
      | none => rw [hperm.symm.find_transaction hy] at hx; cases hx
      | some y =>
          obtain ⟨hxm, hxt⟩ := mem_of_find_transaction hx
          obtain ⟨hym, hyt⟩ := mem_of_find_transaction hy
          simp only [rawScores_scaled hpow hperm hone hxm (hperm.nodes.mem_iff.2 hym) hxt hyt,
            applyConstraints_scaled (decayOver_pos hpow _ _), hcreators]

/-- Every order of the nodes and edges gives every contributor the same share. -/
def OrderIndependent (pow : K → K → K) (graph : GraphResponse) (policy : PolicyDocument K)
    (sessionPolicyRecord : Option (SessionPolicyRecord K)) : Prop :=
  ∀ graph', Permuted graph graph' → ∀ key,
    (calculate pow graph' policy sessionPolicyRecord).get? key =
      (calculate pow graph policy sessionPolicyRecord).get? key

/-- Contributing nodes have creators of their own, who can be named in an
object and are left something by the cap. -/
structure Separated (graph : GraphResponse) (policy : PolicyDocument K) : Prop where
  creators : ∀ a ∈ identifyContributingNodes graph, ∀ b ∈ identifyContributingNodes graph,
    creatorOf a = creatorOf b → a = b
  named : ∀ a ∈ identifyContributingNodes graph, creatorOf a ≠ "__proto__"
  cap : (policy.constraints.getD {}).maximumShare ≠ some 0

/-- The transaction `x` listed first. -/
def firstListed (x : GraphNode) (graph : GraphResponse) : GraphResponse :=
  { graph with nodes := x :: graph.nodes.erase x }

theorem firstListed_permuted (hids : (graph.nodes.map (·.id)).Nodup) {x : GraphNode}
    (hx : x ∈ graph.nodes) : Permuted graph (firstListed x graph) :=
  ⟨hids, List.perm_cons_erase hx, .refl _⟩

/-- With a transaction listed first, its scores decide which creators are paid. -/
theorem mem_keys_firstListed (hids : (graph.nodes.map (·.id)).Nodup)
    (hcap : ((validatedPolicy policy).constraints.getD {}).maximumShare ≠ some 0)
    {x : GraphNode} (hx : x ∈ graph.nodes) (htx : x.eventType = .transaction)
    (sessionPolicyRecord : Option (SessionPolicyRecord K)) {k : String} :
    k ∈ (calculate pow (firstListed x graph) policy sessionPolicyRecord).keys ↔
      k ≠ "__proto__" ∧ ∃ node ∈ identifyContributingNodes graph,
        creatorOf node = k ∧ 0 < rawScore pow node graph (validatedPolicy policy) x := by
  have hperm := firstListed_permuted hids hx
  have hfind : (firstListed x graph).nodes.find? (·.eventType = .transaction) = some x :=
    List.find?_cons_of_pos (decide_eq_true htx)
  rw [mem_keys_calculate hperm.symm.ids hcap hfind, hperm.identifyContributingNodes_eq]
  simp only [hperm.rawScore_eq]

/-- A node that stands between two transactions is paid after one and not after the other. -/
theorem oneSided_of_orderIndependent (hpow : IsExp2 pow) (hids : (graph.nodes.map (·.id)).Nodup)
    (hsep : Separated graph (validatedPolicy policy))
    {sessionPolicyRecord : Option (SessionPolicyRecord K)}
    (hind : OrderIndependent pow graph policy sessionPolicyRecord) :
    OneSided pow graph (validatedPolicy policy) := by
  intro hdecay node hnode x hx y hy htx hty hpos hle
  by_contra hlt
  have hkeys : ∀ z ∈ graph.nodes, z.eventType = .transaction →
      (creatorOf node ∈ (calculate pow graph policy sessionPolicyRecord).keys ↔
        0 < rawScore pow node graph (validatedPolicy policy) z) := by
    intro z hz htz
    rw [InsertionMap.mem_keys_iff_get?, ← hind _ (firstListed_permuted hids hz),
      ← InsertionMap.mem_keys_iff_get?, mem_keys_firstListed hids hsep.cap hz htz]
    constructor
    · rintro ⟨_, node', hnode', hcreator, hscore⟩
      rwa [← hsep.creators node' hnode' node hnode hcreator]
    · exact fun hscore => ⟨hsep.named node hnode, node, hnode, rfl, hscore⟩
  have hscored : 0 < rawScore pow node graph (validatedPolicy policy) x := by
    rw [rawScore_eq hpow hdecay, if_pos hle]
    exact mul_pos hpos (decayOver_pos hpow _ _)
  have hnone : rawScore pow node graph (validatedPolicy policy) y = 0 := by
    rw [rawScore_eq hpow hdecay, if_neg hlt]
  have hscored' := (hkeys y hy hty).1 ((hkeys x hx htx).2 hscored)
  rw [hnone] at hscored'
  exact lt_irrefl 0 hscored'

end Settlement

/-! ### Real numbers -/

theorem isExp2_rpow : IsExp2 Real.rpow where
  add := Real.rpow_add two_pos
  pos := Real.rpow_pos_of_pos two_pos

/-- A settlement does not depend on the order of nodes and edges if no node that
counts stands between two transactions; where every contributing node has a
creator of its own, only then. -/
theorem orderIndependent_of_oneSided (graph : GraphResponse) (policy : PolicyDocument ℝ)
    (sessionPolicyRecord : Option (SessionPolicyRecord ℝ))
    (hids : (graph.nodes.map (·.id)).Nodup) :
    (OneSided Real.rpow graph (validatedPolicy policy) →
      OrderIndependent Real.rpow graph policy sessionPolicyRecord) ∧
    (Separated graph (validatedPolicy policy) →
      (OrderIndependent Real.rpow graph policy sessionPolicyRecord ↔
        OneSided Real.rpow graph (validatedPolicy policy))) := by
  have hsufficient : OneSided Real.rpow graph (validatedPolicy policy) →
      OrderIndependent Real.rpow graph policy sessionPolicyRecord := by
    intro hone graph' hperm key
    rw [calculate_permuted isExp2_rpow hperm hone]
  exact ⟨hsufficient, fun hsep =>
    ⟨oneSided_of_orderIndependent isExp2_rpow hids hsep, hsufficient⟩⟩

/-! ### A tool call and two transactions -/

def transactionAt (id : String) (t : ℤ) : GraphNode :=
  ⟨id, .transaction, none, none, none, none, "s", t, none, .signatureValid, false, none⟩

def toolCallAt (t : ℤ) : GraphNode :=
  ⟨"n", .toolCall, none, none, some "c", none, "s", t, none, .signatureValid, false, none⟩

/-- A tool call at time `t` in a session with transactions at the times 0 and 10. -/
def callAt (t : ℤ) : GraphResponse where
  contextId := "s"
  nodeCount := 3
  edgeCount := 2
  hasTransaction := true
  crossSessionCount := 0
  nodes := [transactionAt "t1" 0, transactionAt "t2" 10, toolCallAt t]
  edges := [⟨.convergesOn, "n", "t1", true, none⟩, ⟨.convergesOn, "n", "t2", true, none⟩]

/-- All weight on `CONVERGES_ON` edges, halved every millisecond. -/
def halvingPolicy : PolicyDocument K where
  specVersion := "atrib/1.0"
  edgeWeights := some ((∅ : InsertionMap String K).set "CONVERGES_ON" 1)
  modifiers := some [.temporalDecay 1]

theorem validatedPolicy_halving :
    validatedPolicy (halvingPolicy : PolicyDocument K) = halvingPolicy := by
  refine if_pos ?_
  simp [isValidPolicy, halvingPolicy, InsertionMap.values, InsertionMap.entries_set]

/-- A call before both transactions: the order does not matter. -/
theorem orderIndependent_of_oneSided_early :
    OrderIndependent Real.rpow (callAt 0) halvingPolicy none := by
  refine (orderIndependent_of_oneSided (callAt 0) halvingPolicy none (by decide)).1 ?_
  intro _ node hnode x _ y hy _ _ _ _
  have hearly : ∀ node ∈ (callAt 0).nodes,
      node.eventType = .toolCall ∨ node.eventType = .gapNode →
        ∀ y ∈ (callAt 0).nodes, node.timestamp ≤ y.timestamp := by
    decide
  exact hearly node (mem_contributing hnode) (contributing_type hnode) y hy

/-- A call between them is paid if the later one is listed first, and not otherwise. -/
theorem not_orderIndependent_between :
    ¬OrderIndependent Real.rpow (callAt 10) halvingPolicy none := by
  have hcontributing : identifyContributingNodes (callAt 10) = [toolCallAt 10] := by decide +kernel
  have htypes : collectEdgeTypesToTransaction "n" (callAt 10) = [.convergesOn] := by decide +kernel
  have hbase : baseWeight (toolCallAt 10) (callAt 10)
      (undecayed (halvingPolicy : PolicyDocument ℝ)) = 1 := by
    simp [baseWeight, toolCallAt, htypes, maxWeight, undecayed, halvingPolicy, EdgeType.name]
  have hsep : Separated (callAt 10) (halvingPolicy : PolicyDocument ℝ) := by
    refine ⟨?_, ?_, by simp [halvingPolicy]⟩
    · rw [hcontributing]
      intro a ha b hb _
      rw [List.mem_singleton.1 ha, List.mem_singleton.1 hb]
    · rw [hcontributing]
      intro a ha
      rw [List.mem_singleton.1 ha]
      decide
  intro hind
  rw [← validatedPolicy_halving] at hsep
  have hone := oneSided_of_orderIndependent isExp2_rpow (by decide) hsep hind
  rw [validatedPolicy_halving] at hone
  have hle := hone ⟨.temporalDecay 1, by simp [halvingPolicy], by simp [Modifier.decays]⟩
    (toolCallAt 10) (by rw [hcontributing]; simp) (transactionAt "t2" 10) (by simp [callAt])
    (transactionAt "t1" 0) (by simp [callAt]) rfl rfl ?_ le_rfl
  · exact absurd hle (by decide)
  · have hscore : applyModifiers Real.rpow ((undecayed halvingPolicy).modifiers.getD []) 1
        (toolCallAt 10) (callAt 10) (transactionAt "t2" 10) = 1 := by
      simp [undecayed, halvingPolicy, Modifier.decays, applyModifiers]
    rw [rawScore_eq_clamp, hbase, hscore, clamp, if_neg (not_lt.2 zero_le_one)]
    exact one_pos

end Atrib.Verify
