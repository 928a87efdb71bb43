import Atrib.Proofs.GraphReaders

/-!
# The edge types on the way to a transaction

`collectEdgeTypesToTransaction` marks what can reach a transaction, backwards and
through anything, and then goes forward from the node, but not past a transaction.
What it collects are the types on the walks that end at the first transaction they
come to. A walk of the backward search may pass more of them: it is cut off at the
first. Both loops end with an empty queue, since each id is queued once at most.
-/

namespace Atrib.Verify

open Lib (InsertionSet.mem_ofList InsertionSet.nodup_ofList InsertionSet.add)
open Lib.Search (Ends Reach explore_ends)

/-! ## Walks -/

def IsNode (graph : GraphResponse) (id : String) : Prop := ∃ node ∈ graph.nodes, node.id = id

def IsTransaction (graph : GraphResponse) (id : String) : Prop :=
  ∃ node ∈ graph.nodes, node.id = id ∧ node.eventType = .transaction

/-- An edge that leads from `x` to `y`: in its direction, or either way when it has none. -/
def Arc (graph : GraphResponse) (x : String) (t : EdgeType) (y : String) : Prop :=
  ∃ edge ∈ graph.edges, edge.type = t ∧
    (edge.source = x ∧ edge.target = y ∨
      edge.directed = false ∧ edge.target = x ∧ edge.source = y)

/-- The types along a walk to a transaction with none before it. -/
inductive WalkToTx (graph : GraphResponse) : String → List EdgeType → Prop
  | last {x t y} (arc : Arc graph x t y) (tx : IsTransaction graph y) : WalkToTx graph x [t]
  | step {x t y ts} (arc : Arc graph x t y) (node : IsNode graph y) (notTx : ¬IsTransaction graph y)
      (rest : WalkToTx graph y ts) : WalkToTx graph x (t :: ts)

variable {graph : GraphResponse} {x y : String} {t : EdgeType}

theorem IsTransaction.isNode (h : IsTransaction graph x) : IsNode graph x := by
  obtain ⟨node, hnode, hid, -⟩ := h
  exact ⟨node, hnode, hid⟩

theorem isNode_iff : isNode graph x = true ↔ IsNode graph x := by
  rw [isNode, List.any_eq_true]
  simp only [decide_eq_true_iff]
  rfl

theorem mem_txNodeIds_iff : x ∈ txNodeIds graph ↔ IsTransaction graph x := by
  rw [txNodeIds, InsertionSet.mem_ofList, List.mem_map]
  constructor
  · rintro ⟨node, hnode, rfl⟩
    obtain ⟨hmem, htype⟩ := List.mem_filter.1 hnode
    exact ⟨node, hmem, rfl, of_decide_eq_true htype⟩
  · rintro ⟨node, hmem, rfl, htype⟩
    exact ⟨node, List.mem_filter.2 ⟨hmem, decide_eq_true htype⟩, rfl⟩

theorem mem_adj_iff (hx : IsNode graph x) : (t, y) ∈ adj graph x ↔ Arc graph x t y := by
  rw [adj, if_pos (isNode_iff.2 hx), List.mem_flatMap]
  refine exists_congr fun edge => and_congr_right fun _ => ?_
  rw [List.mem_append]
  constructor
  · rintro (h | h)
    · split at h
      · next hsource => cases List.mem_singleton.1 h; exact ⟨rfl, .inl ⟨hsource, rfl⟩⟩
      · cases h
    · split at h
      · next hback =>
          cases List.mem_singleton.1 h
          exact ⟨rfl, .inr ⟨by simpa using hback.1, hback.2, rfl⟩⟩
      · cases h
  · rintro ⟨rfl, ⟨rfl, rfl⟩ | ⟨hdirected, rfl, rfl⟩⟩
    · exact .inl (by simp)
    · exact .inr (by simp [hdirected])

theorem mem_reverseAdj_iff :
    x ∈ reverseAdj graph y ↔ IsNode graph y ∧ ∃ t, Arc graph x t y := by
  unfold reverseAdj
  constructor
  · intro h
    split at h
    · next hnode =>
        obtain ⟨edge, hedge, h⟩ := List.mem_flatMap.1 h
        refine ⟨isNode_iff.1 hnode, edge.type, edge, hedge, rfl, ?_⟩
        rcases List.mem_append.1 h with h | h
        · split at h
          · next htarget => exact .inl ⟨(List.mem_singleton.1 h).symm, htarget⟩
          · cases h
        · split at h
          · next hback =>
              exact .inr ⟨by simpa using hback.1, (List.mem_singleton.1 h).symm, hback.2⟩
          · cases h
    · cases h
  · rintro ⟨hnode, t, edge, hedge, -, ⟨rfl, rfl⟩ | ⟨hdirected, rfl, rfl⟩⟩
    · rw [if_pos (isNode_iff.2 hnode)]
      exact List.mem_flatMap.2 ⟨edge, hedge, by simp⟩
    · rw [if_pos (isNode_iff.2 hnode)]
      exact List.mem_flatMap.2 ⟨edge, hedge, by simp [hdirected]⟩

/-! ## What the searches find -/

/-- What can reach a transaction is one, or has a walk to the first it comes to. -/
theorem walk_of_canReachTx (h : x ∈ canReachTx graph) :
    IsTransaction graph x ∨ ∃ ts, WalkToTx graph x ts := by
  obtain ⟨tx, htx, hreach⟩ := mem_canReachTx.1 h
  induction hreach with
  | refl => exact .inl (mem_txNodeIds_iff.1 htx)
  | @tail z x hprev hstep ih =>
      obtain ⟨hnode, t, harc⟩ := mem_reverseAdj_iff.1 hstep
      by_cases hfirst : IsTransaction graph z
      · exact .inr ⟨[t], .last harc hfirst⟩
      · rcases ih (mem_canReachTx.2 ⟨tx, htx, hprev⟩) with hsome | ⟨ts, hwalk⟩
        · exact absurd hsome hfirst
        · exact .inr ⟨t :: ts, .step harc hnode hfirst hwalk⟩

theorem WalkToTx.canReachTx {ts : List EdgeType} (h : WalkToTx graph x ts) :
    x ∈ canReachTx graph := by
  induction h with
  | last harc htx =>
      exact mem_canReachTx.2 ⟨_, mem_txNodeIds_iff.2 htx,
        .single (mem_reverseAdj_iff.2 ⟨htx.isNode, _, harc⟩)⟩
  | step harc hnode _ _ ih =>
      obtain ⟨tx, htx, hreach⟩ := mem_canReachTx.1 ih
      exact mem_canReachTx.2 ⟨tx, htx, hreach.tail (mem_reverseAdj_iff.2 ⟨hnode, _, harc⟩)⟩

theorem isSome_nodeMap : (nodeMap graph x).isSome ↔ IsNode graph x := by
  rw [← isNode_iff, isNode, nodeMap, List.find?_isSome, List.any_eq_true]
  simp

theorem mem_arcsToTx_iff (hx : IsNode graph x) :
    (t, y) ∈ arcsToTx graph x ↔ Arc graph x t y ∧ y ∈ canReachTx graph ∧ IsNode graph y := by
  rw [arcsToTx, List.mem_filter, mem_adj_iff hx, decide_eq_true_iff, isSome_nodeMap]

theorem mem_forwardAdj_iff (hids : (graph.nodes.map (·.id)).Nodup) (hx : IsNode graph x) :
    y ∈ forwardAdj graph x ↔
      (∃ t, Arc graph x t y) ∧ y ∈ canReachTx graph ∧ IsNode graph y ∧ ¬IsTransaction graph y := by
  have hnotTx : IsNode graph y → ((nodeMap graph y).all (·.eventType ≠ .transaction) = true ↔
      ¬IsTransaction graph y) := by
    intro hy
    obtain ⟨node, hnode⟩ := Option.isSome_iff_exists.1 (isSome_nodeMap.2 hy)
    obtain ⟨hmem, hid⟩ := (nodeMap_eq_some hids).1 hnode
    rw [hnode, Option.all_some, decide_eq_true_iff]
    refine not_congr ⟨fun htype => ⟨node, hmem, hid, htype⟩, ?_⟩
    rintro ⟨other, hother, hsame, htype⟩
    rw [← List.inj_on_of_nodup_map hids hother hmem (hsame.trans hid.symm)]
    exact htype
  rw [forwardAdj, List.mem_filter]
  constructor
  · rintro ⟨hmem, hall⟩
    obtain ⟨⟨t, y⟩, harc, rfl⟩ := List.mem_map.1 hmem
    obtain ⟨harc, hreach, hy⟩ := (mem_arcsToTx_iff hx).1 harc
    exact ⟨⟨t, harc⟩, hreach, hy, (hnotTx hy).1 hall⟩
  · rintro ⟨⟨t, harc⟩, hreach, hy, hnot⟩
    exact ⟨List.mem_map.2 ⟨(t, y), (mem_arcsToTx_iff hx).2 ⟨harc, hreach, hy⟩, rfl⟩,
      (hnotTx hy).2 hnot⟩

/-- A type that leads on from the walk is on a walk. -/
theorem walk_of_reach (hids : (graph.nodes.map (·.id)).Nodup) (hx : IsNode graph x)
    (hreach : Reach (forwardAdj graph) x y) (ht : t ∈ (arcsToTx graph y).map Prod.fst) :
    ∃ ts, WalkToTx graph x ts ∧ t ∈ ts := by
  induction hreach using Relation.ReflTransGen.head_induction_on with
  | refl =>
      obtain ⟨⟨t, z⟩, harc, rfl⟩ := List.mem_map.1 ht
      obtain ⟨harc, hz, hnode⟩ := (mem_arcsToTx_iff hx).1 harc
      by_cases htx : IsTransaction graph z
      · exact ⟨[t], .last harc htx, List.mem_singleton_self t⟩
      · obtain ⟨ts, hwalk⟩ := (walk_of_canReachTx hz).resolve_left htx
        exact ⟨t :: ts, .step harc hnode htx hwalk, List.mem_cons_self⟩
  | head hstep _ ih =>
      obtain ⟨⟨t₀, harc⟩, -, hnode, hnotTx⟩ := (mem_forwardAdj_iff hids hx).1 hstep
      obtain ⟨ts, hwalk, hmem⟩ := ih hnode
      exact ⟨t₀ :: ts, .step harc hnode hnotTx hwalk, List.mem_cons_of_mem _ hmem⟩

/-- The forward search comes along every walk to a first transaction. -/
theorem WalkToTx.reach {ts : List EdgeType} (hids : (graph.nodes.map (·.id)).Nodup)
    (hx : IsNode graph x) (h : WalkToTx graph x ts) (ht : t ∈ ts) :
    ∃ y, Reach (forwardAdj graph) x y ∧ t ∈ (arcsToTx graph y).map Prod.fst := by
  induction h with
  | last harc htx =>
      obtain rfl := List.mem_singleton.1 ht
      have hreach := mem_canReachTx.2 ⟨_, mem_txNodeIds_iff.2 htx, .refl⟩
      exact ⟨_, .refl, List.mem_map.2 ⟨_, (mem_arcsToTx_iff hx).2 ⟨harc, hreach, htx.isNode⟩, rfl⟩⟩
  | step harc hnode hnotTx hrest ih =>
      rcases List.mem_cons.1 ht with rfl | ht
      · exact ⟨_, .refl,
          List.mem_map.2 ⟨_, (mem_arcsToTx_iff hx).2 ⟨harc, hrest.canReachTx, hnode⟩, rfl⟩⟩
      · obtain ⟨z, hreach, hz⟩ := ih hnode ht
        have hstep := (mem_forwardAdj_iff hids hx).2
          ⟨⟨_, harc⟩, hrest.canReachTx, hnode, hnotTx⟩
        exact ⟨z, hreach.head hstep, hz⟩

/-! ## The result -/

/-- Both loops end, and what is collected are the types on the walks to a first transaction. -/
theorem mem_collectEdgeTypesToTransaction (hids : (graph.nodes.map (·.id)).Nodup)
    {nodeId : String} (hnode : IsNode graph nodeId) :
    (∃ found, Ends (reverseAdj graph) (fun (found : List Unit) _ => found) (txNodeIds graph)
        (txNodeIds graph) [] (canReachTx graph, found)) ∧
      (∃ visited, Ends (forwardAdj graph)
        (fun collected curr => ((arcsToTx graph curr).map Prod.fst).foldl InsertionSet.add collected)
        [nodeId] [nodeId] [] (visited, collectEdgeTypesToTransaction nodeId graph)) ∧
      ∀ t, t ∈ collectEdgeTypesToTransaction nodeId graph ↔
        ∃ ts, WalkToTx graph nodeId ts ∧ t ∈ ts := by
  have hclosed : ∀ x ∈ nodeId :: graphIds graph, ∀ y ∈ forwardAdj graph x,
      y ∈ nodeId :: graphIds graph := fun _ _ y hy =>
    List.mem_cons_of_mem _ (forwardAdj_subset y hy)
  have hreverse : ∀ x ∈ graphIds graph, ∀ y ∈ reverseAdj graph x, y ∈ graphIds graph :=
    fun _ _ => reverseAdj_subset
  have hnodup : (txNodeIds graph).Nodup := InsertionSet.nodup_ofList _
  have hback := Lib.Search.Bounded.init hreverse hnodup txNodeIds_subset le_rfl
  have hforth := Lib.Search.Bounded.init hclosed (List.nodup_singleton nodeId) (by simp) le_rfl
  refine ⟨⟨_, explore_ends hreverse hback fun _ h => h⟩,
    ⟨_, explore_ends hclosed hforth fun _ h => h⟩, fun t => mem_collectEdgeTypes.trans ⟨?_, ?_⟩⟩
  · rintro ⟨y, hreach, ht⟩
    exact walk_of_reach hids hnode hreach ht
  · rintro ⟨ts, hwalk, ht⟩
    exact hwalk.reach hids hnode ht

/-! ### Two calls in a circle, and an edge that leads on from a transaction -/

def circleNode (id : String) (eventType : EventType) : GraphNode :=
  ⟨id, eventType, none, none, none, none, "s", 0, none, .signatureValid, false, none⟩

/-- The types after the first transaction are on no walk that ends at it. -/
def circle : GraphResponse where
  contextId := "s"
  nodeCount := 4
  edgeCount := 5
  hasTransaction := true
  crossSessionCount := 0
  nodes := [circleNode "a" .toolCall, circleNode "b" .toolCall, circleNode "t" .transaction,
    circleNode "u" .transaction]
  edges := [⟨.sessionParallel, "b", "a", false, none⟩, ⟨.chainPrecedes, "b", "a", true, none⟩,
    ⟨.convergesOn, "a", "t", true, none⟩, ⟨.crossSession, "a", "t", true, none⟩,
    ⟨.informedBy, "t", "u", true, none⟩]

theorem mem_collectEdgeTypesToTransaction_circle :
    (∃ ts, WalkToTx circle "a" ts ∧ EdgeType.chainPrecedes ∈ ts) ∧
      ¬∃ ts, WalkToTx circle "a" ts ∧ EdgeType.informedBy ∈ ts := by
  have h := (@mem_collectEdgeTypesToTransaction circle (by decide) _
    ⟨circleNode "a" .toolCall, by decide, rfl⟩).2.2
  exact ⟨(h _).1 (by decide +kernel), fun hwalk => absurd ((h _).2 hwalk) (by decide +kernel)⟩

end Atrib.Verify
