import Atrib.Proofs.SettlementReads

/-!
# Revoked and unsigned nodes in a settlement

A record signed with a revoked key must not contribute, and an unsigned one
contributes by the weight of unsigned nodes at most. The calculation looks at
neither: it reads the type of a node and the edges it has. So a settlement is
the one of the graph without revoked nodes if it reads the same in both, and
where contributing nodes have creators of their own, only then for all policies.
-/

namespace Atrib.Verify

open Lib (InsertionMap)

def isRevoked (node : GraphNode) : Bool :=
  decide (node.verificationState = .revokedAfterRevocation)

def revokedIds (graph : GraphResponse) : List String :=
  (graph.nodes.filter isRevoked).map (·.id)

/-- The graph without its revoked nodes and their edges. -/
def withoutRevoked (graph : GraphResponse) : GraphResponse :=
  { graph with
    nodes := graph.nodes.filter fun node => !isRevoked node
    edges := graph.edges.filter fun edge =>
      decide (edge.source ∉ revokedIds graph ∧ edge.target ∉ revokedIds graph) }

variable {K : Type*} [Field K] [LinearOrder K]

/-- What the policy gives a node without a signature. -/
def unsignedWeight (policy : PolicyDocument K) : K :=
  ((policy.edgeWeights.getD ∅).get? "unsigned").getD 0

/-- The node may have a share. -/
def Eligible (policy : PolicyDocument K) (node : GraphNode) : Prop :=
  isRevoked node = false ∧ (node.verificationState = .unsigned → 0 < unsignedWeight policy)

/-- The settlement is that of the graph without revoked nodes, unsigned nodes
have the weight of unsigned nodes, and whoever is paid is paid for a node that
is eligible. -/
structure EligibleOnly (pow : K → K → K) (graph : GraphResponse) (policy : PolicyDocument K)
    (sessionPolicyRecord : Option (SessionPolicyRecord K)) : Prop where
  settled : calculate pow graph policy sessionPolicyRecord =
    calculate pow (withoutRevoked graph) policy sessionPolicyRecord
  unsigned : ∀ node ∈ identifyContributingNodes graph, node.verificationState = .unsigned →
    baseWeight node graph (validatedPolicy policy) = unsignedWeight (validatedPolicy policy)
  payees : ∀ key ∈ (calculate pow graph policy sessionPolicyRecord).keys,
    ∃ node ∈ identifyContributingNodes graph, (nodeMap graph node.id).map creatorOf = some key ∧
      Eligible (validatedPolicy policy) node

/-! ## What is left without revoked nodes -/

section WithoutRevoked

variable {graph : GraphResponse}

theorem mem_revokedIds_of_revoked {node : GraphNode} (hnode : node ∈ graph.nodes)
    (hrevoked : isRevoked node = true) : node.id ∈ revokedIds graph :=
  List.mem_map_of_mem (List.mem_filter.2 ⟨hnode, hrevoked⟩)

theorem nodeMap_withoutRevoked {id : String} (hid : id ∉ revokedIds graph) :
    nodeMap (withoutRevoked graph) id = nodeMap graph id := by
  rw [nodeMap, nodeMap, withoutRevoked, ← List.filter_reverse, List.find?_filter]
  refine List.find?_congr fun node hnode => ?_
  by_cases heq : node.id = id
  · have hkept : isRevoked node = false := by
      by_contra h
      exact hid (heq ▸ mem_revokedIds_of_revoked (List.mem_reverse.1 hnode) (by simpa using h))
    simp [heq, hkept]
  · simp [heq]

theorem mem_edges_withoutRevoked {edge : GraphEdge} :
    edge ∈ (withoutRevoked graph).edges ↔
      edge ∈ graph.edges ∧ edge.source ∉ revokedIds graph ∧ edge.target ∉ revokedIds graph := by
  rw [withoutRevoked, List.mem_filter, decide_eq_true_iff]

theorem mem_nodes_withoutRevoked {node : GraphNode} :
    node ∈ (withoutRevoked graph).nodes ↔ node ∈ graph.nodes ∧ isRevoked node = false := by
  rw [withoutRevoked, List.mem_filter, Bool.not_eq_true']

theorem isNode_of_withoutRevoked {id : String}
    (h : isNode (withoutRevoked graph) id = true) : isNode graph id = true := by
  rw [isNode, List.any_eq_true] at h ⊢
  obtain ⟨node, hnode, hid⟩ := h
  exact ⟨node, (mem_nodes_withoutRevoked.1 hnode).1, hid⟩

theorem mem_txNodeIds_of_withoutRevoked {id : String}
    (h : id ∈ txNodeIds (withoutRevoked graph)) : id ∈ txNodeIds graph := by
  obtain ⟨node, hnode, rfl⟩ := List.mem_map.1 (Lib.InsertionSet.mem_ofList.1 h)
  obtain ⟨hnode, htype⟩ := List.mem_filter.1 hnode
  exact Lib.InsertionSet.mem_ofList.2 (List.mem_map.2
    ⟨node, List.mem_filter.2 ⟨(mem_nodes_withoutRevoked.1 hnode).1, htype⟩, rfl⟩)

theorem mem_adj_of_withoutRevoked {id : String} {arc : EdgeType × String}
    (h : arc ∈ adj (withoutRevoked graph) id) :
    arc ∈ adj graph id ∧ arc.2 ∉ revokedIds graph := by
  rw [adj] at h
  split at h
  · next hnode =>
      obtain ⟨edge, he, harc⟩ := List.mem_flatMap.1 h
      obtain ⟨he, hsource, htarget⟩ := mem_edges_withoutRevoked.1 he
      refine ⟨?_, ?_⟩
      · rw [adj, if_pos (isNode_of_withoutRevoked hnode)]
        exact List.mem_flatMap.2 ⟨edge, he, harc⟩
      · rcases eq_or_eq_of_mem harc with rfl | rfl
        · exact htarget
        · exact hsource
  · cases h

theorem mem_reverseAdj_of_withoutRevoked {id x : String}
    (h : x ∈ reverseAdj (withoutRevoked graph) id) : x ∈ reverseAdj graph id := by
  rw [reverseAdj] at h
  split at h
  · next hnode =>
      obtain ⟨edge, he, hx⟩ := List.mem_flatMap.1 h
      rw [reverseAdj, if_pos (isNode_of_withoutRevoked hnode)]
      exact List.mem_flatMap.2 ⟨edge, (mem_edges_withoutRevoked.1 he).1, hx⟩
  · cases h

theorem mem_canReachTx_of_withoutRevoked {id : String}
    (h : id ∈ canReachTx (withoutRevoked graph)) : id ∈ canReachTx graph := by
  obtain ⟨tx, htx, hreach⟩ := mem_canReachTx.1 h
  exact mem_canReachTx.2 ⟨tx, mem_txNodeIds_of_withoutRevoked htx,
    Lib.Search.reach_mono (fun _ _ => mem_reverseAdj_of_withoutRevoked) hreach⟩

theorem mem_arcsToTx_of_withoutRevoked {id : String} {arc : EdgeType × String}
    (h : arc ∈ arcsToTx (withoutRevoked graph) id) :
    arc ∈ arcsToTx graph id ∧ arc.2 ∉ revokedIds graph := by
  obtain ⟨harc, hp⟩ := List.mem_filter.1 h
  obtain ⟨hreach, hnode⟩ := of_decide_eq_true hp
  obtain ⟨harc, hkept⟩ := mem_adj_of_withoutRevoked harc
  rw [nodeMap_withoutRevoked hkept] at hnode
  exact ⟨List.mem_filter.2
    ⟨harc, decide_eq_true ⟨mem_canReachTx_of_withoutRevoked hreach, hnode⟩⟩, hkept⟩

/-- A path that meets no revoked node is a path. -/
theorem onPathToTx_of_withoutRevoked {id : String} {t : EdgeType}
    (h : OnPathToTx (withoutRevoked graph) id t) : OnPathToTx graph id t := by
  obtain ⟨x, hreach, ht⟩ := h
  refine ⟨x, Lib.Search.reach_mono (fun a b hb => ?_) hreach, ?_⟩
  · obtain ⟨hmem, hp⟩ := List.mem_filter.1 hb
    obtain ⟨arc, harc, rfl⟩ := List.mem_map.1 hmem
    obtain ⟨harc, hkept⟩ := mem_arcsToTx_of_withoutRevoked harc
    rw [nodeMap_withoutRevoked hkept] at hp
    exact List.mem_filter.2 ⟨List.mem_map_of_mem harc, hp⟩
  · obtain ⟨arc, harc, rfl⟩ := List.mem_map.1 ht
    exact List.mem_map_of_mem (mem_arcsToTx_of_withoutRevoked harc).1

theorem mem_hasEdgeToTx_of_withoutRevoked {id : String}
    (h : id ∈ hasEdgeToTx (withoutRevoked graph)) :
    id ∈ hasEdgeToTx graph ∧ id ∉ revokedIds graph := by
  obtain ⟨edge, he, rfl⟩ := List.mem_map.1 h
  obtain ⟨he, hp⟩ := List.mem_filter.1 he
  obtain ⟨htype, htarget⟩ := of_decide_eq_true hp
  obtain ⟨he, hsource, -⟩ := mem_edges_withoutRevoked.1 he
  exact ⟨List.mem_map_of_mem (List.mem_filter.2
    ⟨he, decide_eq_true ⟨htype, mem_txNodeIds_of_withoutRevoked htarget⟩⟩), hsource⟩

theorem contributing_of_withoutRevoked {node : GraphNode}
    (h : node ∈ identifyContributingNodes (withoutRevoked graph)) :
    node ∈ identifyContributingNodes graph ∧ node.id ∉ revokedIds graph := by
  obtain ⟨hnode, hp⟩ := List.mem_filter.1 (List.mem_mergeSort.1 h)
  obtain ⟨htype, hedge⟩ := of_decide_eq_true hp
  obtain ⟨hedge, hkept⟩ := mem_hasEdgeToTx_of_withoutRevoked hedge
  exact ⟨List.mem_mergeSort.2 (List.mem_filter.2
    ⟨(mem_nodes_withoutRevoked.1 hnode).1, decide_eq_true ⟨htype, hedge⟩⟩), hkept⟩

/-- If every node that contributes still does, the lists are the same. -/
theorem identifyContributingNodes_withoutRevoked
    (h : ∀ node ∈ identifyContributingNodes graph,
      node ∈ identifyContributingNodes (withoutRevoked graph)) :
    identifyContributingNodes graph = identifyContributingNodes (withoutRevoked graph) := by
  rw [identifyContributingNodes, identifyContributingNodes]
  congr 1
  show _ = (graph.nodes.filter fun node => !isRevoked node).filter _
  rw [List.filter_filter]
  refine List.filter_congr fun node hnode => ?_
  rw [Bool.eq_iff_iff, Bool.and_eq_true, decide_eq_true_iff, decide_eq_true_iff,
    Bool.not_eq_true']
  constructor
  · intro hp
    have hcontributing : node ∈ identifyContributingNodes graph :=
      List.mem_mergeSort.2 (List.mem_filter.2 ⟨hnode, decide_eq_true hp⟩)
    obtain ⟨hmem, hp'⟩ := List.mem_filter.1 (List.mem_mergeSort.1 (h node hcontributing))
    exact ⟨of_decide_eq_true hp', (mem_nodes_withoutRevoked.1 hmem).2⟩
  · intro hp
    exact ⟨hp.1.1, (mem_hasEdgeToTx_of_withoutRevoked hp.1.2).1⟩

end WithoutRevoked

/-! ## Graphs whose revoked nodes do not matter -/

/-- Under the policy, the calculation reads the same in the graph without its
revoked nodes, and the heaviest type on the paths of an unsigned tool call has
the weight of unsigned nodes. -/
structure Uninvolved (pow : K → K → K) (policy : PolicyDocument K) (graph : GraphResponse) :
    Prop where
  contributing : ∀ node ∈ identifyContributingNodes graph,
    node ∈ identifyContributingNodes (withoutRevoked graph)
  heaviest : ∀ node ∈ identifyContributingNodes graph, node.eventType = .toolCall →
    Outweighed policy graph (withoutRevoked graph) node.id
  depth : (∃ p, .chainDepthPenalty p ∈ policy.modifiers.getD []) →
    ∀ node ∈ identifyContributingNodes graph,
      shortestChainPath node.id graph = shortestChainPath node.id (withoutRevoked graph)
  count : (∃ m cap, .callCountBoost m cap ∈ policy.modifiers.getD []) →
    ∀ node ∈ identifyContributingNodes graph,
      countNodesWithSameContentId node.contentId graph =
        countNodesWithSameContentId node.contentId (withoutRevoked graph)
  between : ∀ x y, graph.nodes.find? (·.eventType = .transaction) = some x →
    (withoutRevoked graph).nodes.find? (·.eventType = .transaction) = some y →
      (∃ m ∈ policy.modifiers.getD [], m.decays = true) →
        ∀ node ∈ identifyContributingNodes graph,
          0 < rawScore pow node graph (undecayed policy) x →
            (node.timestamp ≤ x.timestamp ↔ node.timestamp ≤ y.timestamp)
  unsigned : ∀ node ∈ identifyContributingNodes graph, node.eventType = .toolCall →
    node.verificationState = .unsigned →
      (∃ t, OnPathToTx graph node.id t ∧ weightOf policy t = unsignedWeight policy) ∧
        ∀ t, OnPathToTx graph node.id t → weightOf policy t ≤ unsignedWeight policy

section Sufficient

variable {pow : K → K → K} {policy : PolicyDocument K} {graph : GraphResponse}

theorem Uninvolved.readAlike (h : Uninvolved pow policy graph) :
    ReadAlike policy graph (withoutRevoked graph) where
  contributing := identifyContributingNodes_withoutRevoked h.contributing
  owner node hnode := by
    have hkept := (contributing_of_withoutRevoked (h.contributing node hnode)).2
    exact (nodeMap_withoutRevoked hkept).symm
  heaviest node hnode htype :=
    ⟨h.heaviest node hnode htype, fun t ht => ⟨t, onPathToTx_of_withoutRevoked ht, le_rfl⟩⟩
  depth := h.depth
  count := h.count

theorem baseWeight_gapNode {node : GraphNode} (htype : node.eventType = .gapNode) :
    baseWeight node graph policy = unsignedWeight policy := by
  rw [baseWeight, if_pos htype, unsignedWeight]

theorem Uninvolved.baseWeight_unsigned (h : Uninvolved pow policy graph) {node : GraphNode}
    (hnode : node ∈ identifyContributingNodes graph)
    (hunsigned : node.verificationState = .unsigned) :
    baseWeight node graph policy = unsignedWeight policy := by
  rcases contributing_type hnode with htype | htype
  · obtain ⟨⟨t, ht, hweight⟩, hall⟩ := h.unsigned node hnode htype hunsigned
    have hmem : weightOf policy t ∈
        (collectEdgeTypesToTransaction node.id graph).map (weightOf policy) :=
      List.mem_map_of_mem (mem_collectEdgeTypes.2 ht)
    obtain ⟨m, hm, hmax, hle⟩ := maxWeight_spec (List.ne_nil_of_mem hmem)
    obtain ⟨t', ht', rfl⟩ := List.mem_map.1 hm
    have heq : weightOf policy t' = unsignedWeight policy :=
      le_antisymm (hall t' (mem_collectEdgeTypes.1 ht')) (hweight ▸ hle _ hmem)
    rw [baseWeight, if_neg (by simp [htype]), ← heq]
    exact congrArg (fun m => m.getD 0) hmax
  · exact baseWeight_gapNode htype

theorem validatedPolicy_weights_nonneg [IsStrictOrderedRing K] (policy : PolicyDocument K) :
    ((validatedPolicy policy).edgeWeights.getD ∅).AllVals fun w => 0 ≤ w := by
  rw [validatedPolicy]
  split
  · next hvalid =>
      cases hweights : policy.edgeWeights with
      | none => exact fun e he => by cases he
      | some weights =>
          simp only [isValidPolicy, hweights, Option.all_some, Bool.and_eq_true,
            List.all_eq_true] at hvalid
          intro e he
          have hnonneg : ¬e.2 < 0 := by simpa using hvalid.1.2 e.2 (List.mem_map_of_mem he)
          exact not_lt.1 hnonneg
  · simp only [DEFAULT_POLICY, Option.getD_some]
    refine InsertionMap.AllVals.setAll (fun e he => by cases he) fun e he => ?_
    have hvalue : e.2 = 1 ∨ e.2 = 0 := by
      simp only [List.mem_cons, List.not_mem_nil, or_false] at he
      rcases he with rfl | rfl | rfl | rfl | rfl | rfl <;> simp
    rcases hvalue with h | h
    · exact h ▸ zero_le_one
    · exact h ▸ le_rfl

theorem unsignedWeight_nonneg [IsStrictOrderedRing K] (policy : PolicyDocument K) :
    0 ≤ unsignedWeight (validatedPolicy policy) := by
  rw [unsignedWeight]
  cases hget : ((validatedPolicy policy).edgeWeights.getD ∅).get? "unsigned" with
  | none => exact le_rfl
  | some w => exact validatedPolicy_weights_nonneg policy _ (InsertionMap.get?_mem hget)

theorem baseWeight_ne_zero {node x : GraphNode}
    (h : 0 < rawScore pow node graph policy x) : baseWeight node graph policy ≠ 0 := by
  intro hzero
  rw [rawScore_eq_clamp, hzero, applyModifiers_zero, clamp, if_neg (lt_irrefl 0)] at h
  exact lt_irrefl 0 h

/-- Without a contributing node there is nobody to pay. -/
theorem calculate_of_no_contributing (hnone : identifyContributingNodes graph = [])
    (sessionPolicyRecord : Option (SessionPolicyRecord K)) :
    calculate pow graph policy sessionPolicyRecord = ∅ := by
  ext1
  rw [InsertionMap.entries_empty, ← List.map_eq_nil_iff (f := Prod.fst),
    List.eq_nil_iff_forall_not_mem]
  intro key hkey
  obtain ⟨node, hnode, -⟩ := scored_of_mem_keys hkey
  rw [hnone] at hnode
  cases hnode

variable [IsStrictOrderedRing K]

theorem Uninvolved.eligibleOnly (hpow : IsExp2 pow)
    (h : Uninvolved pow (validatedPolicy policy) graph)
    (sessionPolicyRecord : Option (SessionPolicyRecord K)) :
    EligibleOnly pow graph policy sessionPolicyRecord where
  settled := by
    by_cases hnone : identifyContributingNodes graph = []
    · have hnone' := hnone
      rw [h.readAlike.contributing] at hnone'
      rw [calculate_of_no_contributing hnone, calculate_of_no_contributing hnone']
    · obtain ⟨node, hnode⟩ := List.exists_mem_of_ne_nil _ hnone
      obtain ⟨x, hx⟩ := Option.isSome_iff_exists.1 (exists_transaction hnode)
      obtain ⟨y, hy⟩ := Option.isSome_iff_exists.1 (exists_transaction (h.contributing node hnode))
      exact h.readAlike.calculate_eq hpow hx hy
        (fun node hnode hdecay hpos => h.between x y hx hy hdecay node hnode hpos) _
  unsigned _ hnode hunsigned := h.baseWeight_unsigned hnode hunsigned
  payees key hkey := by
    obtain ⟨node, hnode, howner, x, -, hscore⟩ := scored_of_mem_keys hkey
    have hkept := contributing_of_withoutRevoked (h.contributing node hnode)
    refine ⟨node, hnode, howner, ?_, fun hunsigned => ?_⟩
    · by_contra hrevoked
      exact hkept.2 (mem_revokedIds_of_revoked (mem_contributing hnode) (by simpa using hrevoked))
    · have hbase := baseWeight_ne_zero hscore
      rw [h.baseWeight_unsigned hnode hunsigned] at hbase
      exact lt_of_le_of_ne (unsignedWeight_nonneg policy) (Ne.symm hbase)

end Sufficient

/-! ## For all policies -/

/-- No policy can tell the graph from the one without its revoked nodes, and
no tool call without a signature contributes. -/
structure NeverInvolved (graph : GraphResponse) : Prop where
  contributing : ∀ node ∈ identifyContributingNodes graph,
    node ∈ identifyContributingNodes (withoutRevoked graph)
  types : ∀ node ∈ identifyContributingNodes graph, node.eventType = .toolCall →
    ∀ t, OnPathToTx graph node.id t → OnPathToTx (withoutRevoked graph) node.id t
  depth : ∀ node ∈ identifyContributingNodes graph,
    shortestChainPath node.id graph = shortestChainPath node.id (withoutRevoked graph)
  count : ∀ node ∈ identifyContributingNodes graph,
    countNodesWithSameContentId node.contentId graph =
      countNodesWithSameContentId node.contentId (withoutRevoked graph)
  between : ∀ x y, graph.nodes.find? (·.eventType = .transaction) = some x →
    (withoutRevoked graph).nodes.find? (·.eventType = .transaction) = some y →
      ∀ node ∈ identifyContributingNodes graph,
        node.timestamp ≤ x.timestamp ↔ node.timestamp ≤ y.timestamp
  signed : ∀ node ∈ identifyContributingNodes graph, node.eventType = .toolCall →
    node.verificationState ≠ .unsigned

theorem NeverInvolved.uninvolved {graph : GraphResponse} (h : NeverInvolved graph)
    (pow : K → K → K) (policy : PolicyDocument K) : Uninvolved pow policy graph where
  contributing := h.contributing
  heaviest node hnode htype t ht := ⟨t, h.types node hnode htype t ht, le_rfl⟩
  depth _ := h.depth
  count _ := h.count
  between x y hx hy _ node hnode _ := h.between x y hx hy node hnode
  unsigned node hnode htype hunsigned := absurd hunsigned (h.signed node hnode htype)

theorem clamp_pos {score : K} : 0 < clamp score ↔ 0 < score := by
  rw [clamp]
  split
  · next h => exact iff_of_false (lt_irrefl 0) (not_lt.2 h.le)
  · rfl

section Probes

variable {pow : K → K → K} {graph : GraphResponse} {node x : GraphNode}

/-- With the same weight on everything the modifiers decide. -/
theorem scored_evenWeights_iff (hx : graph.nodes.find? (·.eventType = .transaction) = some x)
    (hnode : node ∈ identifyContributingNodes graph) (modifiers : List (Modifier K)) :
    Scored pow graph (probe evenWeights modifiers) node ↔
      0 < applyModifiers pow modifiers 1 node graph x := by
  have hscore : 0 < rawScore pow node graph (probe evenWeights modifiers) x ↔
      0 < applyModifiers pow modifiers 1 node graph x := by
    rw [rawScore_eq_clamp, clamp_pos, baseWeight_evenWeights hnode]
    rfl
  rw [← hscore]
  constructor
  · intro h
    obtain ⟨-, x', hx', hpos⟩ := h
    rw [hx] at hx'
    cases hx'
    exact hpos
  · exact fun hpos => ⟨hnode, x, hx, hpos⟩

variable [IsStrictOrderedRing K]

/-- A penalty that takes everything away from a depth on. -/
theorem scored_depth_iff (hx : graph.nodes.find? (·.eventType = .transaction) = some x)
    (hnode : node ∈ identifyContributingNodes graph) {M : ℕ} (hM : 0 < M) :
    Scored pow graph (probe evenWeights [.chainDepthPenalty (1 / (M : K))]) node ↔
      shortestChainPath node.id graph < M := by
  have hM' : (0 : K) < M := Nat.cast_pos.2 hM
  rw [scored_evenWeights_iff hx hnode]
  show 0 < (1 : K) * max 0 (1 - (shortestChainPath node.id graph : K) * (1 / M)) ↔ _
  rw [one_mul, lt_max_iff, or_iff_right (lt_irrefl _), sub_pos, mul_one_div, div_lt_one hM',
    Nat.cast_lt]

/-- A boost that takes everything away at a call count. -/
theorem scored_count_iff (hx : graph.nodes.find? (·.eventType = .transaction) = some x)
    (hnode : node ∈ identifyContributingNodes graph) {M : ℕ} (hM : 0 < M) :
    Scored pow graph (probe evenWeights [.callCountBoost (-(1 / (M : K))) 1]) node ↔
      countNodesWithSameContentId node.contentId graph < M + 1 := by
  have hM' : (0 : K) < M := Nat.cast_pos.2 hM
  have hlt : (countNodesWithSameContentId node.contentId graph : K) < M + 1 ↔
      countNodesWithSameContentId node.contentId graph < M + 1 := by
    rw [← Nat.cast_succ, Nat.cast_lt]
  rw [scored_evenWeights_iff hx hnode]
  show 0 < (1 : K) * min 1
    (1 + ((countNodesWithSameContentId node.contentId graph : K) - 1) * -(1 / M)) ↔ _
  rw [one_mul, lt_min_iff, and_iff_right one_pos, mul_neg, ← sub_eq_add_neg, sub_pos, mul_one_div,
    div_lt_one hM', sub_lt_iff_lt_add, hlt]

/-- Decay takes everything away from a node that is younger than the transaction. -/
theorem scored_decay_iff (hpow : IsExp2 pow)
    (hx : graph.nodes.find? (·.eventType = .transaction) = some x)
    (hnode : node ∈ identifyContributingNodes graph) :
    Scored pow graph (probe evenWeights [.temporalDecay 1]) node ↔
      node.timestamp ≤ x.timestamp := by
  have hdecays : (Modifier.temporalDecay (1 : K)).decays = true := by simp [Modifier.decays]
  rw [scored_evenWeights_iff hx hnode]
  by_cases hle : node.timestamp ≤ x.timestamp
  · refine iff_of_true ?_ hle
    rw [applyModifiers, List.foldl_cons, List.foldl_nil, applyModifier_of_decays hle hdecays,
      one_mul]
    exact Modifier.decay_pos hpow _ _
  · refine iff_of_false ?_ hle
    rw [applyModifiers_of_lt (not_le.1 hle) ⟨_, List.mem_singleton_self _, hdecays⟩]
    exact lt_irrefl 0

end Probes

theorem one_le_count {graph : GraphResponse} {node : GraphNode} (hnode : node ∈ graph.nodes) :
    1 ≤ countNodesWithSameContentId node.contentId graph := by
  rw [countNodesWithSameContentId]
  split
  · exact le_rfl
  · exact List.length_pos_of_mem (List.mem_filter.2 ⟨hnode, by simp⟩)

/-- What is below every bound on one side of a pair and not the other is the pair's doing. -/
theorem eq_of_lt_max_iff {a b : ℕ} (h : a < max a b ↔ b < max a b) : a = b := by
  rcases lt_trichotomy a b with hlt | heq | hlt
  · rw [max_eq_right hlt.le] at h
    exact absurd (h.1 hlt) (lt_irrefl b)
  · exact heq
  · rw [max_eq_left hlt.le] at h
    exact absurd (h.2 hlt) (lt_irrefl a)

omit [LinearOrder K] in
theorem unsignedWeight_onlyWeight (t : EdgeType) (modifiers : List (Modifier K)) :
    unsignedWeight (probe (onlyWeight t) modifiers) = 0 := by
  have hname : t.name ≠ "unsigned" := by cases t <;> decide
  simp [unsignedWeight, probe, onlyWeight, InsertionMap.get?, InsertionMap.entries_set, hname]

/-- If no policy pays for revoked or unsigned nodes, none is involved. -/
theorem neverInvolved_of_eligibleOnly [IsStrictOrderedRing K] {pow : K → K → K}
    (hpow : IsExp2 pow) {graph : GraphResponse} (hown : OwnCreators graph)
    (h : ∀ policy : PolicyDocument K, EligibleOnly pow graph policy none) :
    NeverInvolved graph := by
  have hids : ((withoutRevoked graph).nodes.map (·.id)).Nodup :=
    hown.ids.sublist (List.filter_sublist.map _)
  -- under every probe the same nodes are scored in both graphs
  have hscored : ∀ {weights : InsertionMap String K}, weights.AllVals (fun w => 0 ≤ w) →
      ∀ (modifiers : List (Modifier K)), ∀ node ∈ identifyContributingNodes graph,
        (Scored pow graph (probe weights modifiers) node ↔
          Scored pow (withoutRevoked graph) (probe weights modifiers) node) :=
    fun hweights _ _ hnode => scored_iff_of_calculate_eq hown hids
      (fun _ ha => (contributing_of_withoutRevoked ha).1) hweights (h _).settled hnode
  have hcontributing : ∀ node ∈ identifyContributingNodes graph,
      node ∈ identifyContributingNodes (withoutRevoked graph) := by
    intro node hnode
    obtain ⟨x, hx⟩ := Option.isSome_iff_exists.1 (exists_transaction hnode)
    refine ((hscored evenWeights_nonneg [] node hnode).1 ?_).1
    rw [scored_evenWeights_iff hx hnode]
    exact one_pos
  have htransactions : ∀ node ∈ identifyContributingNodes graph, ∃ x y,
      graph.nodes.find? (·.eventType = .transaction) = some x ∧
        (withoutRevoked graph).nodes.find? (·.eventType = .transaction) = some y := by
    intro node hnode
    obtain ⟨x, hx⟩ := Option.isSome_iff_exists.1 (exists_transaction hnode)
    obtain ⟨y, hy⟩ := Option.isSome_iff_exists.1 (exists_transaction (hcontributing node hnode))
    exact ⟨x, y, hx, hy⟩
  refine ⟨hcontributing, ?_, ?_, ?_, ?_, ?_⟩
  · intro node hnode htype t ht
    obtain ⟨x, y, hx, hy⟩ := htransactions node hnode
    have hprobe := hscored (onlyWeight_nonneg t) [] node hnode
    rw [scored_onlyWeight_iff hx hnode htype,
      scored_onlyWeight_iff hy (hcontributing node hnode) htype] at hprobe
    exact hprobe.1 ht
  · intro node hnode
    obtain ⟨x, y, hx, hy⟩ := htransactions node hnode
    by_contra hne
    have hpos : 0 < max (shortestChainPath node.id graph)
        (shortestChainPath node.id (withoutRevoked graph)) := by omega
    have hprobe := hscored evenWeights_nonneg [.chainDepthPenalty (1 / ((max
      (shortestChainPath node.id graph) (shortestChainPath node.id (withoutRevoked graph)) : ℕ) : K))]
      node hnode
    rw [scored_depth_iff hx hnode hpos, scored_depth_iff hy (hcontributing node hnode) hpos]
      at hprobe
    exact hne (eq_of_lt_max_iff hprobe)
  · intro node hnode
    obtain ⟨x, y, hx, hy⟩ := htransactions node hnode
    have hone := one_le_count (mem_contributing hnode)
    have hone' := one_le_count (mem_contributing (hcontributing node hnode))
    by_contra hne
    obtain ⟨M, hM⟩ : ∃ M, max (countNodesWithSameContentId node.contentId graph)
        (countNodesWithSameContentId node.contentId (withoutRevoked graph)) = M + 1 :=
      ⟨_, (Nat.sub_add_cancel (by omega)).symm⟩
    have hpos : 0 < M := by omega
    have hprobe := hscored evenWeights_nonneg [.callCountBoost (-(1 / (M : K))) 1] node hnode
    rw [scored_count_iff hx hnode hpos, scored_count_iff hy (hcontributing node hnode) hpos, ← hM]
      at hprobe
    exact hne (eq_of_lt_max_iff hprobe)
  · intro x y hx hy node hnode
    have hprobe := hscored evenWeights_nonneg [.temporalDecay 1] node hnode
    rwa [scored_decay_iff hpow hx hnode, scored_decay_iff hpow hy (hcontributing node hnode)]
      at hprobe
  · intro node hnode htype hunsigned
    obtain ⟨x, -, hx, -⟩ := htransactions node hnode
    obtain ⟨t, ht⟩ := exists_onPathToTx hnode
    have hscored : Scored pow graph (probe (onlyWeight t) []) node :=
      (scored_onlyWeight_iff hx hnode htype t).2 ht
    obtain ⟨-, x', hx', hpos⟩ := hscored
    have hbase := (h (probe (onlyWeight t) [])).unsigned node hnode hunsigned
    rw [validatedPolicy_probe (onlyWeight_nonneg t), unsignedWeight_onlyWeight] at hbase
    exact baseWeight_ne_zero hpos hbase

/-- A session with one tool call, in the given state. -/
def callInState (state : VerificationState) : GraphResponse where
  contextId := "s"
  nodeCount := 2
  edgeCount := 1
  hasTransaction := true
  crossSessionCount := 0
  nodes := [transactionAt "t" 10, { toolCallAt 0 with verificationState := state }]
  edges := [⟨.convergesOn, "n", "t", true, none⟩]

theorem contributing_callInState (state : VerificationState) :
    identifyContributingNodes (callInState state) =
      [{ toolCallAt 0 with verificationState := state }] := by
  cases state <;> decide +kernel

theorem ownCreators_callInState (state : VerificationState) : OwnCreators (callInState state) := by
  refine ⟨by cases state <;> decide, ?_, ?_⟩
  · rw [contributing_callInState]
    intro a ha b hb _
    rw [List.mem_singleton.1 ha, List.mem_singleton.1 hb]
  · rw [contributing_callInState]
    intro a ha
    rw [List.mem_singleton.1 ha]
    show "c" ≠ "__proto__"
    decide

end Atrib.Verify
