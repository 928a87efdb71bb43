import Atrib.Proofs.SettlementReads

/-!
# What declared edges do to a settlement

`INFORMED_BY`, `PROVENANCE_OF`, `ANNOTATES` and `REVISES` edges say what a
record declares of others, and a policy gives them no weight. But the searches
walk them like any other edge, so they can lead a tool call to edges that have
a weight. Everything else the calculation reads is the same with and without
them: which nodes contribute, their depth along the chain, their call counts.
-/

namespace Atrib.Verify

/-- The types an agent declares. -/
def EdgeType.declared : EdgeType → Bool
  | .informedBy | .provenanceOf | .annotates | .revises => true
  | _ => false

def settlementEdges (graph : GraphResponse) : List GraphEdge :=
  graph.edges.filter fun edge => !edge.type.declared

/-- An edge that is not declared starts or ends there. -/
def touched (graph : GraphResponse) (id : String) : Bool :=
  (settlementEdges graph).any fun edge => edge.source = id ∨ edge.target = id

/-- A placeholder that only declared edges touch. -/
def isLoose (graph : GraphResponse) (node : GraphNode) : Bool :=
  decide (node.eventType = .danglingNode) && decide (node.contentId = none) &&
    !touched graph node.id

def settlementNodes (graph : GraphResponse) : List GraphNode :=
  graph.nodes.filter fun node => !isLoose graph node

/-- The graphs differ in declared edges and in placeholders only those touch. -/
structure SameButDeclared (graph graph' : GraphResponse) : Prop where
  nodes : settlementNodes graph = settlementNodes graph'
  edges : settlementEdges graph = settlementEdges graph'

namespace SameButDeclared

variable {graph graph' : GraphResponse}

theorem filter_nodes (h : SameButDeclared graph graph') {p : GraphNode → Bool}
    (hp : ∀ node, p node = true → node.eventType ≠ .danglingNode ∨ node.contentId ≠ none) :
    graph.nodes.filter p = graph'.nodes.filter p := by
  have hkept : ∀ g : GraphResponse, (settlementNodes g).filter p = g.nodes.filter p := by
    intro g
    rw [settlementNodes, List.filter_filter]
    refine List.filter_congr fun node _ => ?_
    cases hpn : p node with
    | false => rfl
    | true => rcases hp node hpn with hn | hn <;> simp [isLoose, hn]
  rw [← hkept graph, ← hkept graph', h.nodes]

theorem filter_edges (h : SameButDeclared graph graph') {p : GraphEdge → Bool}
    (hp : ∀ edge, p edge = true → edge.type.declared = false) :
    graph.edges.filter p = graph'.edges.filter p := by
  have hkept : ∀ g : GraphResponse, (settlementEdges g).filter p = g.edges.filter p := by
    intro g
    rw [settlementEdges, List.filter_filter]
    refine List.filter_congr fun edge _ => ?_
    cases hpe : p edge with
    | false => rfl
    | true => simp [hp edge hpe]
  rw [← hkept graph, ← hkept graph', h.edges]

/-- Where an edge that is not declared touches, the nodes are the same. -/
theorem nodeMap_eq (h : SameButDeclared graph graph') {id : String}
    (htouched : touched graph id = true) : nodeMap graph id = nodeMap graph' id := by
  have hkept : ∀ g : GraphResponse, touched g id = true →
      (settlementNodes g).reverse.find? (·.id = id) = nodeMap g id := by
    intro g hg
    rw [nodeMap, settlementNodes, ← List.filter_reverse, List.find?_filter]
    congr 1
    funext node
    by_cases hid : node.id = id
    · simp [isLoose, hid, hg]
    · simp [hid]
  have htouched' : touched graph' id = true := by
    rw [touched, ← h.edges]
    exact htouched
  rw [← hkept graph htouched, ← hkept graph' htouched', h.nodes]

theorem isNode_eq (h : SameButDeclared graph graph') {id : String}
    (htouched : touched graph id = true) : isNode graph id = isNode graph' id := by
  rw [isNode_eq_isSome, isNode_eq_isSome, h.nodeMap_eq htouched]

theorem touched_of_mem {edge : GraphEdge} (he : edge ∈ graph.edges)
    (hdeclared : edge.type.declared = false) :
    touched graph edge.source = true ∧ touched graph edge.target = true := by
  have hin : edge ∈ settlementEdges graph := List.mem_filter.2 ⟨he, by simp [hdeclared]⟩
  rw [touched, touched, List.any_eq_true, List.any_eq_true]
  exact ⟨⟨edge, hin, by simp⟩, edge, hin, by simp⟩

theorem txNodeIds_eq (h : SameButDeclared graph graph') : txNodeIds graph = txNodeIds graph' := by
  have hfilter := h.filter_nodes (p := fun node => decide (node.eventType = .transaction))
    fun node hp => Or.inl (by rw [of_decide_eq_true hp]; simp)
  rw [txNodeIds, txNodeIds, hfilter]

theorem find_transaction (h : SameButDeclared graph graph') :
    graph.nodes.find? (·.eventType = .transaction) =
      graph'.nodes.find? (·.eventType = .transaction) := by
  have hfilter := h.filter_nodes (p := fun node => decide (node.eventType = .transaction))
    fun node hp => Or.inl (by rw [of_decide_eq_true hp]; simp)
  rw [← List.head?_filter, ← List.head?_filter, hfilter]

theorem hasEdgeToTx_eq (h : SameButDeclared graph graph') :
    hasEdgeToTx graph = hasEdgeToTx graph' := by
  rw [hasEdgeToTx, hasEdgeToTx, h.txNodeIds_eq]
  congr 1
  refine h.filter_edges fun edge hp => ?_
  rcases (of_decide_eq_true hp).1 with ht | ht <;> rw [ht] <;> rfl

theorem identifyContributingNodes_eq (h : SameButDeclared graph graph') :
    identifyContributingNodes graph = identifyContributingNodes graph' := by
  rw [identifyContributingNodes, identifyContributingNodes, h.hasEdgeToTx_eq]
  congr 1
  refine h.filter_nodes fun node hp => Or.inl ?_
  rcases (of_decide_eq_true hp).1 with ht | ht <;> rw [ht] <;> simp

theorem touched_of_contributing {node : GraphNode}
    (hnode : node ∈ identifyContributingNodes graph) : touched graph node.id = true := by
  have hfilter := (List.mem_filter.1 (List.mem_mergeSort.1 hnode)).2
  obtain ⟨edge, he, hsource⟩ := List.mem_map.1 (of_decide_eq_true hfilter).2
  obtain ⟨he, hp⟩ := List.mem_filter.1 he
  rw [← hsource]
  refine (touched_of_mem he ?_).1
  rcases (of_decide_eq_true hp).1 with ht | ht <;> rw [ht] <;> rfl

theorem mem_chainAdj (h : SameButDeclared graph graph') (id x : String) :
    x ∈ chainAdj graph id ↔ x ∈ chainAdj graph' id := by
  have hfilter := h.filter_edges (p := fun edge =>
    decide (edge.type = .chainPrecedes ∧ edge.source = id)) fun edge hp => by
      rw [(of_decide_eq_true hp).1]
      rfl
  by_cases hnil : graph.edges.filter
      (fun edge => decide (edge.type = .chainPrecedes ∧ edge.source = id)) = []
  · have hnil' := hfilter.symm.trans hnil
    simp only [chainAdj, hnil, hnil', List.map_nil, ite_self]
  · obtain ⟨edge, he⟩ := List.exists_mem_of_ne_nil _ hnil
    obtain ⟨he, hp⟩ := List.mem_filter.1 he
    obtain ⟨htype, hsource⟩ := of_decide_eq_true hp
    have htouched := (touched_of_mem he (by rw [htype]; rfl)).1
    rw [hsource] at htouched
    rw [chainAdj, chainAdj, h.isNode_eq htouched, hfilter]

theorem shortestChainPath_eq (h : SameButDeclared graph graph') (nodeId : String) :
    shortestChainPath nodeId graph = shortestChainPath nodeId graph' := by
  have hgoal : ∀ id, decide (id ∈ txNodeIds graph) = decide (id ∈ txNodeIds graph') := by
    intro id
    rw [h.txNodeIds_eq]
  have hnear := (isNearest_shortestChainPath graph nodeId).congr h.mem_chainAdj hgoal
  rw [shortestChainPath, shortestChainPath,
    hnear.unique (isNearest_shortestChainPath graph' nodeId)]

theorem countNodesWithSameContentId_eq (h : SameButDeclared graph graph')
    (contentId : Option String) :
    countNodesWithSameContentId contentId graph =
      countNodesWithSameContentId contentId graph' := by
  rw [countNodesWithSameContentId, countNodesWithSameContentId]
  by_cases hnone : contentId = none ∨ contentId = some ""
  · rw [if_pos hnone, if_pos hnone]
  · rw [if_neg hnone, if_neg hnone, h.filter_nodes fun node hp => Or.inr ?_]
    rw [of_decide_eq_true hp]
    exact fun hc => hnone (Or.inl hc)

end SameButDeclared

/-- The walks of contributing tool calls to transactions carry edges as heavy
in one graph as in the other. -/
def Undisturbed {K : Type*} [Field K] [LinearOrder K] (policy : PolicyDocument K)
    (graph graph' : GraphResponse) : Prop :=
  ∀ node ∈ identifyContributingNodes graph, node.eventType = .toolCall →
    Outweighed policy graph graph' node.id ∧ Outweighed policy graph' graph node.id

theorem SameButDeclared.readAlike {K : Type*} [Field K] [LinearOrder K]
    {policy : PolicyDocument K} {graph graph' : GraphResponse}
    (h : SameButDeclared graph graph') (hund : Undisturbed policy graph graph') :
    ReadAlike policy graph graph' where
  contributing := h.identifyContributingNodes_eq
  owner _ hnode := h.nodeMap_eq (SameButDeclared.touched_of_contributing hnode)
  heaviest := hund
  depth _ node _ := h.shortestChainPath_eq node.id
  count _ node _ := h.countNodesWithSameContentId_eq node.contentId

theorem calculate_declared {policy : PolicyDocument ℝ} {graph graph' : GraphResponse}
    (h : SameButDeclared graph graph')
    (hund : Undisturbed (validatedPolicy policy) graph graph')
    (sessionPolicyRecord : Option (SessionPolicyRecord ℝ)) :
    calculate Real.rpow graph policy sessionPolicyRecord =
      calculate Real.rpow graph' policy sessionPolicyRecord := by
  cases hx : graph.nodes.find? (·.eventType = .transaction) with
  | none => rw [calculate, calculate, ← h.find_transaction, hx]
  | some x =>
      have hx' := hx
      rw [h.find_transaction] at hx'
      exact (h.readAlike hund).calculate_eq isExp2_rpow hx hx' (fun _ _ _ _ => Iff.rfl) _

/-- Declared edges leave a settlement alone where the walks they open or close
carry nothing heavier than the others do; and where contributing nodes have
creators of their own they leave all settlements alone only if no contributing
tool call meets a type of edge with them and not without. -/
theorem declaredEdges_of_undisturbed (graph graph' : GraphResponse)
    (h : SameButDeclared graph graph') :
    (∀ (policy : PolicyDocument ℝ) (sessionPolicyRecord : Option (SessionPolicyRecord ℝ)),
      Undisturbed (validatedPolicy policy) graph graph' →
        calculate Real.rpow graph policy sessionPolicyRecord =
          calculate Real.rpow graph' policy sessionPolicyRecord) ∧
    (OwnCreators graph → (graph'.nodes.map (·.id)).Nodup →
      ((∀ (policy : PolicyDocument ℝ) (sessionPolicyRecord : Option (SessionPolicyRecord ℝ)),
          calculate Real.rpow graph policy sessionPolicyRecord =
            calculate Real.rpow graph' policy sessionPolicyRecord) ↔
        ∀ node ∈ identifyContributingNodes graph, node.eventType = .toolCall →
          ∀ t, OnPathToTx graph node.id t ↔ OnPathToTx graph' node.id t)) := by
  refine ⟨fun policy record hund => calculate_declared h hund record, fun hown hids => ?_⟩
  constructor
  · intro heq node hnode htype t
    have hnode' : node ∈ identifyContributingNodes graph' := h.identifyContributingNodes_eq ▸ hnode
    have hscored := scored_iff_of_calculate_eq hown hids
      (fun a ha => h.identifyContributingNodes_eq ▸ ha) (onlyWeight_nonneg t)
      (heq (probe (onlyWeight t) []) none) hnode
    cases hx : graph.nodes.find? (·.eventType = .transaction) with
    | none =>
        -- a contributing node has an edge to a transaction
        exact absurd (exists_transaction hnode) (by rw [hx]; simp)
    | some x =>
        have hx' := hx
        rw [h.find_transaction] at hx'
        rwa [scored_onlyWeight_iff hx hnode htype, scored_onlyWeight_iff hx' hnode' htype]
          at hscored
  · intro hsame policy record
    refine calculate_declared h (fun node hnode htype => ⟨fun t ht => ?_, fun t ht => ?_⟩) record
    · exact ⟨t, (hsame node hnode htype t).1 ht, le_rfl⟩
    · exact ⟨t, (hsame node hnode htype t).2 ht, le_rfl⟩

/-! ### A tool call that declares what informed it -/

def informed (edges : List GraphEdge) : GraphResponse where
  contextId := "s"
  nodeCount := 3
  edgeCount := edges.length
  hasTransaction := true
  crossSessionCount := 0
  nodes := [transactionAt "t" 10, toolCallAt 0,
    ⟨"m", .observation, none, none, some "d", none, "s", 5, none, .signatureValid, false, none⟩]
  edges := edges

def withoutInformedBy : GraphResponse :=
  informed [⟨.convergesOn, "n", "t", true, none⟩, ⟨.chainPrecedes, "m", "t", true, none⟩]

def withInformedBy : GraphResponse :=
  informed [⟨.convergesOn, "n", "t", true, none⟩, ⟨.chainPrecedes, "m", "t", true, none⟩,
    ⟨.informedBy, "n", "m", true, none⟩]

theorem sameButDeclared_informed : SameButDeclared withoutInformedBy withInformedBy :=
  ⟨by decide +kernel, by decide +kernel⟩

/-- Where all types weigh the same the declared edge changes nothing. -/
theorem declaredEdges_of_undisturbed_informed :
    calculate Real.rpow withoutInformedBy (probe evenWeights []) none =
      calculate Real.rpow withInformedBy (probe evenWeights []) none := by
  refine (declaredEdges_of_undisturbed _ _ sameButDeclared_informed).1 _ _ ?_
  intro node hnode _
  have hnode' := hnode
  rw [sameButDeclared_informed.identifyContributingNodes_eq] at hnode'
  obtain ⟨t, ht⟩ := exists_onPathToTx hnode
  obtain ⟨t', ht'⟩ := exists_onPathToTx hnode'
  rw [validatedPolicy_probe evenWeights_nonneg]
  refine ⟨fun _ _ => ⟨t', ht', ?_⟩, fun _ _ => ⟨t, ht, ?_⟩⟩ <;>
    rw [weightOf_evenWeights, weightOf_evenWeights]

/-- With all weight on the chain it makes the difference between a share and none. -/
theorem not_undisturbed_informed :
    SameButDeclared withoutInformedBy withInformedBy ∧
      ¬(calculate Real.rpow withoutInformedBy (probe (onlyWeight .chainPrecedes) []) none =
        calculate Real.rpow withInformedBy (probe (onlyWeight .chainPrecedes) []) none) := by
  refine ⟨sameButDeclared_informed, fun heq => ?_⟩
  have hcontributing : identifyContributingNodes withoutInformedBy = [toolCallAt 0] := by
    decide +kernel
  have hown : OwnCreators withoutInformedBy := by
    refine ⟨by decide, ?_, ?_⟩
    · rw [hcontributing]
      intro a ha b hb _
      rw [List.mem_singleton.1 ha, List.mem_singleton.1 hb]
    · rw [hcontributing]
      intro a ha
      rw [List.mem_singleton.1 ha]
      decide
  have hnode : toolCallAt 0 ∈ identifyContributingNodes withoutInformedBy := by
    rw [hcontributing]
    exact List.mem_singleton_self _
  have hids : (withInformedBy.nodes.map (·.id)).Nodup := by decide
  have hscored := scored_iff_of_calculate_eq hown hids
    (fun a ha => sameButDeclared_informed.identifyContributingNodes_eq ▸ ha)
    (onlyWeight_nonneg _) heq hnode
  rw [scored_onlyWeight_iff (x := transactionAt "t" 10) rfl hnode rfl,
    scored_onlyWeight_iff (x := transactionAt "t" 10) rfl
      (sameButDeclared_informed.identifyContributingNodes_eq ▸ hnode) rfl] at hscored
  have hwith : OnPathToTx withInformedBy "n" .chainPrecedes :=
    mem_collectEdgeTypes.1 (by decide +kernel)
  have hwithout : ¬OnPathToTx withoutInformedBy "n" .chainPrecedes := fun h =>
    absurd (mem_collectEdgeTypes.2 h) (by decide +kernel)
  exact hwithout (hscored.2 hwith)

end Atrib.Verify
