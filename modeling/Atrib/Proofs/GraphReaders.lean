import Atrib.Verify.Calculate

/-!
# Readers of a graph that look at sets

The calculation reads the nodes and edges of a graph through filters, counts,
lookups by id, a sort by id, and searches of which only reachability shows.
None of them depends on the order the nodes and edges are listed in, when ids
name one node each.
-/

namespace Atrib.Verify

open Lib (InsertionMap InsertionSet.mem_ofList)
open Lib.Search (reach_congr mem_explore_fst mem_explore_snd)

/-! ## Nodes by id -/

theorem nodeMap_eq_some {graph : GraphResponse} (hids : (graph.nodes.map (·.id)).Nodup)
    {id : String} {node : GraphNode} :
    nodeMap graph id = some node ↔ node ∈ graph.nodes ∧ node.id = id := by
  unfold nodeMap
  constructor
  · intro hn
    exact ⟨List.mem_reverse.1 (List.mem_of_find?_eq_some hn), by simpa using List.find?_some hn⟩
  · rintro ⟨hn, rfl⟩
    cases hf : graph.nodes.reverse.find? (·.id = node.id) with
    | none => simpa using List.find?_eq_none.1 hf node (List.mem_reverse.2 hn)
    | some m =>
        have hm := List.mem_reverse.1 (List.mem_of_find?_eq_some hf)
        have hid : m.id = node.id := by simpa using List.find?_some hf
        rw [List.inj_on_of_nodup_map hids hm hn hid]

theorem mem_contributing {graph : GraphResponse} {node : GraphNode}
    (h : node ∈ identifyContributingNodes graph) : node ∈ graph.nodes :=
  (List.mem_filter.1 (List.mem_mergeSort.1 h)).1

theorem contributing_type {graph : GraphResponse} {node : GraphNode}
    (h : node ∈ identifyContributingNodes graph) :
    node.eventType = .toolCall ∨ node.eventType = .gapNode :=
  (of_decide_eq_true (List.mem_filter.1 (List.mem_mergeSort.1 h)).2).1

/-! ## Permuted graphs -/

/-- The same nodes and edges, with ids that name one node each. -/
structure Permuted (graph graph' : GraphResponse) : Prop where
  ids : (graph.nodes.map (·.id)).Nodup
  nodes : graph.nodes.Perm graph'.nodes
  edges : graph.edges.Perm graph'.edges

namespace Permuted

variable {graph graph' : GraphResponse}

theorem symm (h : Permuted graph graph') : Permuted graph' graph :=
  ⟨(h.nodes.map _).nodup_iff.1 h.ids, h.nodes.symm, h.edges.symm⟩

theorem mem_txNodeIds (h : Permuted graph graph') (id : String) :
    id ∈ txNodeIds graph ↔ id ∈ txNodeIds graph' := by
  unfold txNodeIds
  rw [InsertionSet.mem_ofList, InsertionSet.mem_ofList]
  exact ((h.nodes.filter _).map _).mem_iff

theorem mem_hasEdgeToTx (h : Permuted graph graph') (id : String) :
    id ∈ hasEdgeToTx graph ↔ id ∈ hasEdgeToTx graph' := by
  unfold hasEdgeToTx
  simp only [h.mem_txNodeIds]
  exact ((h.edges.filter _).map _).mem_iff

/-- Contributing nodes are sorted by id, and ids are distinct. -/
theorem identifyContributingNodes_eq (h : Permuted graph graph') :
    identifyContributingNodes graph = identifyContributingNodes graph' := by
  have hperm : (identifyContributingNodes graph).Perm (identifyContributingNodes graph') := by
    unfold identifyContributingNodes
    simp only [h.mem_hasEdgeToTx]
    exact (List.mergeSort_perm _ _).trans
      ((h.nodes.filter _).trans (List.mergeSort_perm _ _).symm)
  have hsorted : ∀ g, (identifyContributingNodes g).Pairwise fun a b => decide (a.id ≤ b.id) := by
    intro g
    refine List.pairwise_mergeSort ?_ ?_ _
    · intro a b c hab hbc
      exact decide_eq_true ((of_decide_eq_true hab).trans (of_decide_eq_true hbc))
    · intro a b
      rcases le_total a.id b.id with hle | hle
      · simp [hle]
      · simp [hle]
  refine List.Perm.eq_of_pairwise ?_ (hsorted graph) (hsorted graph') hperm
  intro a b ha hb hab hba
  refine List.inj_on_of_nodup_map h.ids (mem_contributing ha)
    (mem_contributing (hperm.mem_iff.2 hb)) ?_
  exact le_antisymm (of_decide_eq_true hab) (of_decide_eq_true hba)

theorem nodeMap_eq (h : Permuted graph graph') (id : String) :
    nodeMap graph id = nodeMap graph' id := by
  refine Option.ext fun n => ?_
  rw [nodeMap_eq_some h.ids, nodeMap_eq_some h.symm.ids, h.nodes.mem_iff]

theorem isNode_eq (h : Permuted graph graph') (id : String) :
    isNode graph id = isNode graph' id := by
  rw [Bool.eq_iff_iff, isNode, isNode, List.any_eq_true, List.any_eq_true]
  simp only [h.nodes.mem_iff]

theorem mem_adj (h : Permuted graph graph') (id : String) (arc : EdgeType × String) :
    arc ∈ adj graph id ↔ arc ∈ adj graph' id := by
  unfold adj
  rw [h.isNode_eq]
  split
  · exact (h.edges.flatMap_right _).mem_iff
  · exact .rfl

theorem mem_reverseAdj (h : Permuted graph graph') (id x : String) :
    x ∈ reverseAdj graph id ↔ x ∈ reverseAdj graph' id := by
  unfold reverseAdj
  rw [h.isNode_eq]
  split
  · exact (h.edges.flatMap_right _).mem_iff
  · exact .rfl

theorem mem_chainAdj (h : Permuted graph graph') (id x : String) :
    x ∈ chainAdj graph id ↔ x ∈ chainAdj graph' id := by
  unfold chainAdj
  rw [h.isNode_eq]
  split
  · exact ((h.edges.filter _).map _).mem_iff
  · exact .rfl

end Permuted

/-! ### The searches stay among the ids of the graph -/

theorem mem_graphIds_of_edge {graph : GraphResponse} {edge : GraphEdge}
    (he : edge ∈ graph.edges) : edge.source ∈ graphIds graph ∧ edge.target ∈ graphIds graph := by
  have hin : ∀ x ∈ [edge.source, edge.target], x ∈ graphIds graph := fun x hx =>
    List.mem_append_right _ (List.mem_flatMap.2 ⟨edge, he, hx⟩)
  exact ⟨hin _ (by simp), hin _ (by simp)⟩

theorem txNodeIds_subset {graph : GraphResponse} : ∀ x ∈ txNodeIds graph, x ∈ graphIds graph := by
  intro x hx
  obtain ⟨n, hn, rfl⟩ := List.mem_map.1 (InsertionSet.mem_ofList.1 hx)
  exact List.mem_append_left _ (List.mem_map.2 ⟨n, (List.mem_filter.1 hn).1, rfl⟩)

/-- An edge gives an arc in its direction, or one against it. -/
theorem eq_or_eq_of_mem {α : Type*} {p q : Prop} [Decidable p] [Decidable q] {a b x : α}
    (hx : x ∈ (if p then [a] else []) ++ if q then [b] else []) : x = a ∨ x = b := by
  rcases List.mem_append.1 hx with hx | hx
  · split at hx
    · exact .inl (List.mem_singleton.1 hx)
    · cases hx
  · split at hx
    · exact .inr (List.mem_singleton.1 hx)
    · cases hx

theorem adj_subset {graph : GraphResponse} {id : String} :
    ∀ arc ∈ adj graph id, arc.2 ∈ graphIds graph := by
  intro arc harc
  unfold adj at harc
  split at harc
  · obtain ⟨edge, he, harc⟩ := List.mem_flatMap.1 harc
    rcases eq_or_eq_of_mem harc with rfl | rfl
    · exact (mem_graphIds_of_edge he).2
    · exact (mem_graphIds_of_edge he).1
  · cases harc

theorem reverseAdj_subset {graph : GraphResponse} {id : String} :
    ∀ x ∈ reverseAdj graph id, x ∈ graphIds graph := by
  intro x hx
  unfold reverseAdj at hx
  split at hx
  · obtain ⟨edge, he, hx⟩ := List.mem_flatMap.1 hx
    rcases eq_or_eq_of_mem hx with rfl | rfl
    · exact (mem_graphIds_of_edge he).1
    · exact (mem_graphIds_of_edge he).2
  · cases hx

theorem chainAdj_subset {graph : GraphResponse} {id : String} :
    ∀ x ∈ chainAdj graph id, x ∈ graphIds graph := by
  intro x hx
  unfold chainAdj at hx
  split at hx
  · obtain ⟨edge, he, rfl⟩ := List.mem_map.1 hx
    exact (mem_graphIds_of_edge (List.mem_filter.1 he).1).2
  · cases hx

theorem forwardAdj_subset {graph : GraphResponse} {id : String} :
    ∀ x ∈ forwardAdj graph id, x ∈ graphIds graph := by
  intro x hx
  obtain ⟨arc, harc, rfl⟩ := List.mem_map.1 (List.mem_filter.1 hx).1
  exact adj_subset arc (List.mem_filter.1 harc).1

/-- What the backward search finds: the ids from which a transaction is reached. -/
theorem mem_canReachTx {graph : GraphResponse} {id : String} :
    id ∈ canReachTx graph ↔
      ∃ tx ∈ txNodeIds graph, Lib.Search.Reach (reverseAdj graph) tx id :=
  have hwork : Lib.Search.Emits (fun (found : List Unit) (_ : String) => found)
      fun _ _ => False := fun _ _ _ => by simp
  mem_explore_fst hwork (fun _ _ => reverseAdj_subset) (Lib.InsertionSet.nodup_ofList _)
    txNodeIds_subset le_rfl

/-- What the forward search collects: the types of the edges that leave a node
it can get to and lead on to a transaction. -/
theorem mem_collectEdgeTypes {graph : GraphResponse} {nodeId : String} {t : EdgeType} :
    t ∈ collectEdgeTypesToTransaction nodeId graph ↔
      ∃ x, Lib.Search.Reach (forwardAdj graph) nodeId x ∧
        t ∈ (arcsToTx graph x).map Prod.fst := by
  have hwork : Lib.Search.Emits
      (fun collected curr =>
        ((arcsToTx graph curr).map Prod.fst).foldl Lib.InsertionSet.add collected)
      fun x t => t ∈ (arcsToTx graph x).map Prod.fst := fun _ _ _ => Lib.InsertionSet.mem_foldl_add
  have hclosed : ∀ x ∈ nodeId :: graphIds graph, ∀ y ∈ forwardAdj graph x,
      y ∈ nodeId :: graphIds graph := fun _ _ y hy => List.mem_cons_of_mem _ (forwardAdj_subset y hy)
  have h := mem_explore_snd hwork hclosed (List.nodup_singleton nodeId) (by simp) le_rfl (e := t)
  refine h.trans ?_
  simp

theorem nodup_collectEdgeTypes (graph : GraphResponse) (nodeId : String) :
    (collectEdgeTypesToTransaction nodeId graph).Nodup :=
  Lib.Search.explore_snd_induct (fun _ _ => Lib.InsertionSet.nodup_foldl_add) List.nodup_nil

theorem isNearest_shortestChainPath (graph : GraphResponse) (nodeId : String) :
    Lib.Search.IsNearest (chainAdj graph) (fun id => decide (id ∈ txNodeIds graph)) nodeId
      (Lib.Search.nearest (chainAdj graph) (fun id => decide (id ∈ txNodeIds graph))
        ((graphIds graph).length + 1) [nodeId] [(nodeId, 0)]) :=
  Lib.Search.nearest_spec (U := nodeId :: graphIds graph)
    (fun _ _ y hy => List.mem_cons_of_mem _ (chainAdj_subset y hy)) List.mem_cons_self le_rfl

namespace Permuted

variable {graph graph' : GraphResponse}

theorem mem_canReachTx (h : Permuted graph graph') (id : String) :
    id ∈ canReachTx graph ↔ id ∈ canReachTx graph' := by
  rw [Verify.mem_canReachTx, Verify.mem_canReachTx, reach_congr h.mem_reverseAdj]
  simp only [h.mem_txNodeIds]

theorem mem_arcsToTx (h : Permuted graph graph') (id : String) (arc : EdgeType × String) :
    arc ∈ arcsToTx graph id ↔ arc ∈ arcsToTx graph' id := by
  unfold arcsToTx
  rw [List.mem_filter, List.mem_filter, h.mem_adj, h.nodeMap_eq]
  simp only [h.mem_canReachTx]

theorem mem_forwardAdj (h : Permuted graph graph') (id x : String) :
    x ∈ forwardAdj graph id ↔ x ∈ forwardAdj graph' id := by
  unfold forwardAdj
  rw [List.mem_filter, List.mem_filter, List.mem_map, List.mem_map, h.nodeMap_eq]
  simp only [h.mem_arcsToTx]

theorem perm_collectEdgeTypes (h : Permuted graph graph') (nodeId : String) :
    (collectEdgeTypesToTransaction nodeId graph).Perm
      (collectEdgeTypesToTransaction nodeId graph') := by
  refine (List.perm_ext_iff_of_nodup (nodup_collectEdgeTypes _ _)
    (nodup_collectEdgeTypes _ _)).2 fun t => ?_
  rw [mem_collectEdgeTypes, mem_collectEdgeTypes, reach_congr h.mem_forwardAdj]
  simp only [List.mem_map, h.mem_arcsToTx]

theorem shortestChainPath_eq (h : Permuted graph graph') (nodeId : String) :
    shortestChainPath nodeId graph = shortestChainPath nodeId graph' := by
  unfold shortestChainPath
  have hgoal : ∀ id, decide (id ∈ txNodeIds graph) = decide (id ∈ txNodeIds graph') := by
    intro id
    simp only [h.mem_txNodeIds]
  have hnear := (isNearest_shortestChainPath graph nodeId).congr h.mem_chainAdj hgoal
  rw [hnear.unique (isNearest_shortestChainPath graph' nodeId)]

theorem countNodesWithSameContentId_eq (h : Permuted graph graph') (contentId : Option String) :
    countNodesWithSameContentId contentId graph =
      countNodesWithSameContentId contentId graph' := by
  unfold countNodesWithSameContentId
  rw [(h.nodes.filter _).length_eq]

end Permuted

end Atrib.Verify
