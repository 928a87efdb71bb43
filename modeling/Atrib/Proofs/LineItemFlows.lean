import Atrib.Verify.LineItemFlow

/-!
# The greatest flow of line items

What the graph holds is what is left of the capacities beside a flow, whose
value is the number kept. The loop ends, since every round carries more and no
flow carries more than is required, and then no flow carries more than the one
it has found.
-/

namespace Atrib.Verify

open Lib (InsertionMap ParentTree Searching climb discover search)
open Lib.Flow (IsFlow IsMaxFlow Residual push)

/-! ## The graph -/

theorem edgesFrom_set (graph : FlowGraph) (u x : FlowNode) (edges : InsertionMap FlowNode ℤ) :
    edgesFrom (graph.set u edges) x = if x = u then edges else edgesFrom graph x := by
  rw [edgesFrom, InsertionMap.get?_set]
  split <;> rfl

theorem capacityOf_setCapacity (graph : FlowGraph) (u v x y : FlowNode) (capacity : ℤ) :
    capacityOf (setCapacity graph u v capacity) x y =
      if (x, y) = (u, v) then capacity else capacityOf graph x y := by
  rw [capacityOf, setCapacity, edgesFrom_set]
  by_cases hx : x = u
  · subst hx
    rw [if_pos rfl, InsertionMap.get?_set]
    by_cases hy : y = v
    · simp [hy]
    · simp [hy, capacityOf]
  · simp [hx, capacityOf]

theorem edgesFrom_touch (graph : FlowGraph) (u x : FlowNode) :
    edgesFrom (if graph.has u then graph else graph.set u ∅) x = edgesFrom graph x := by
  split
  · rfl
  · next h =>
      rw [edgesFrom_set]
      split
      · next hx =>
          have hnone : graph.get? u = none := by
            cases hget : graph.get? u with
            | none => rfl
            | some edges =>
                have hmem := InsertionMap.mem_keys_of_mem (InsertionMap.get?_mem hget)
                exact absurd (InsertionMap.has_eq_true.2 hmem) h
          rw [hx, edgesFrom, hnone]
          rfl
      · rfl

theorem capacityOf_addEdge (graph : FlowGraph) (u v x y : FlowNode) (capacity : ℕ) :
    capacityOf (addEdge graph u v capacity) x y =
      capacityOf graph x y + if (x, y) = (u, v) then (capacity : ℤ) else 0 := by
  have htouch : ∀ x y, capacityOf (if (if graph.has u then graph else graph.set u ∅).has v then
      (if graph.has u then graph else graph.set u ∅) else
        (if graph.has u then graph else graph.set u ∅).set v ∅) x y = capacityOf graph x y := by
    intro x y
    rw [capacityOf, edgesFrom_touch, edgesFrom_touch]
    rfl
  unfold addEdge
  dsimp only
  rw [capacityOf_setCapacity, capacityOf_setCapacity, capacityOf_setCapacity, htouch, htouch,
    htouch]
  by_cases hxy : (x, y) = (v, u)
  · obtain ⟨rfl, rfl⟩ := Prod.mk.injEq .. ▸ hxy
    by_cases heq : x = y
    · subst heq
      simp
    · simp [heq, Ne.symm heq]
  · rw [if_neg hxy]
    by_cases huv : (x, y) = (u, v)
    · obtain ⟨rfl, rfl⟩ := Prod.mk.injEq .. ▸ huv
      simp
    · simp [huv]

theorem capacityOf_pushIncrement (increment : ℤ) (graph : FlowGraph)
    (edge : FlowNode × FlowNode) (x y : FlowNode) :
    capacityOf (pushIncrement increment graph edge) x y =
      push increment (capacityOf graph) edge x y := by
  obtain ⟨u, v⟩ := edge
  unfold pushIncrement push
  dsimp only
  rw [capacityOf_setCapacity, capacityOf_setCapacity, capacityOf_setCapacity]
  by_cases hback : (x, y) = (v, u)
  · obtain ⟨rfl, rfl⟩ := Prod.mk.injEq .. ▸ hback
    by_cases heq : x = y
    · subst heq
      simp
    · simp [heq, Ne.symm heq]
  · have hswap : (y, x) ≠ (u, v) := fun h => hback (by
      obtain ⟨rfl, rfl⟩ := Prod.mk.injEq .. ▸ h
      rfl)
    rw [if_neg hback, if_neg hswap]
    split
    · next h =>
        obtain ⟨rfl, rfl⟩ := Prod.mk.injEq .. ▸ h
        simp
    · simp

theorem capacityOf_foldl_pushIncrement (increment : ℤ) (path : List (FlowNode × FlowNode)) :
    ∀ graph, capacityOf (path.foldl (pushIncrement increment) graph) =
      path.foldl (push increment) (capacityOf graph) := by
  induction path with
  | nil => exact fun _ => rfl
  | cons edge path ih =>
      intro graph
      have hstep : capacityOf (pushIncrement increment graph edge) =
          push increment (capacityOf graph) edge :=
        funext fun x => funext fun y => capacityOf_pushIncrement increment graph edge x y
      rw [List.foldl_cons, List.foldl_cons, ih, hstep]

/-! ## The search -/

/-- The nodes that something can still be carried to. -/
def neighbours (graph : FlowGraph) (node : FlowNode) : List FlowNode :=
  ((edgesFrom graph node).entries.filter fun edge => 0 < edge.2).map Prod.fst

theorem mem_neighbours {graph : FlowGraph} {u v : FlowNode} :
    v ∈ neighbours graph u ↔ 0 < capacityOf graph u v := by
  simp only [neighbours, List.mem_map, List.mem_filter, decide_eq_true_iff]
  constructor
  · rintro ⟨⟨v, capacity⟩, ⟨hmem, hpos⟩, rfl⟩
    rw [capacityOf, InsertionMap.get?_of_mem hmem]
    exact hpos
  · intro hpos
    cases hget : (edgesFrom graph u).get? v with
    | none =>
        rw [capacityOf, hget] at hpos
        exact absurd hpos (lt_irrefl 0)
    | some capacity =>
        rw [capacityOf, hget] at hpos
        exact ⟨(v, capacity), ⟨InsertionMap.get?_mem hget, hpos⟩, rfl⟩

theorem foldl_visitNeighbour (node : FlowNode) (edges : List (FlowNode × ℤ)) :
    ∀ state : FlowSearch, edges.foldl (visitNeighbour node) state =
      ((edges.filter fun edge => 0 < edge.2).map Prod.fst).foldl (discover node) state := by
  induction edges with
  | nil => exact fun _ => rfl
  | cons edge edges ih =>
      intro state
      rw [List.foldl_cons, ih]
      by_cases hpos : 0 < edge.2
      · have hvisit : visitNeighbour node state edge = discover node state edge.1 := by
          unfold visitNeighbour discover
          by_cases hhas : state.1.has edge.1 = true
          · simp [hhas]
          · simp [hhas, hpos]
        rw [hvisit, List.filter_cons_of_pos (by simpa using hpos), List.map_cons,
          List.foldl_cons]
      · have hvisit : visitNeighbour node state edge = state := if_neg fun h => hpos h.1
        rw [hvisit, List.filter_cons_of_neg (by simpa using hpos)]

theorem searchLoop_eq (graph : FlowGraph) : ∀ (rounds : ℕ) (parent) (queue),
    searchLoop graph rounds (parent, queue) =
      search (neighbours graph) .sink rounds queue parent
  | 0, _, _ => by cases ‹List FlowNode› <;> rfl
  | _ + 1, _, [] => rfl
  | rounds + 1, parent, node :: queue => by
      rw [searchLoop, search]
      split
      · rfl
      · rw [foldl_visitNeighbour, ← searchLoop_eq graph rounds]
        rfl

/-- The nodes of a graph, and the two ends. -/
def nodesOf (graph : FlowGraph) : Finset FlowNode :=
  insert .source (insert .sink graph.keys.toFinset)

theorem card_nodesOf (graph : FlowGraph) : (nodesOf graph).card ≤ graph.size + 2 := by
  have hkeys : graph.keys.toFinset.card = graph.size := by
    rw [InsertionMap.keys, List.toFinset_card_of_nodup graph.nodup, List.length_map]
    rfl
  have hsink := Finset.card_insert_le FlowNode.sink graph.keys.toFinset
  have hsource := Finset.card_insert_le FlowNode.source (insert .sink graph.keys.toFinset)
  unfold nodesOf
  omega

theorem findParents_spec {graph : FlowGraph} {U : Finset FlowNode} (hsource : .source ∈ U)
    (hgraph : U ⊆ nodesOf graph) (hU : ∀ u v, 0 < capacityOf graph u v → v ∈ U) :
    ParentTree (neighbours graph) .source (findParents graph) ∧
      (∀ x ∈ (findParents graph).keys, x ∈ U) ∧
      (.sink ∈ (findParents graph).keys ∨ ∀ x ∈ (findParents graph).keys, ∀ y,
        0 < capacityOf graph x y → y ∈ (findParents graph).keys) := by
  have hn : U.card ≤ graph.size + 2 := (Finset.card_le_card hgraph).trans (card_nodesOf graph)
  obtain ⟨htree, hwithin, hends⟩ := Searching.search_spec hsource
    (fun x _ y hy => hU x y (mem_neighbours.1 hy)) hn
  rw [findParents, searchLoop_eq]
  exact ⟨htree, hwithin, hends.imp_right fun h x hx y hy => h x hx y (mem_neighbours.2 hy)⟩

/-! ## A round -/

/-- The least capacity of a way. -/
theorem pathIncrement_spec {graph : FlowGraph} {path : List (FlowNode × FlowNode)}
    (hpos : ∀ e ∈ path, 0 < capacityOf graph e.1 e.2) :
    0 < pathIncrement graph path ∧
      ∀ e ∈ path, pathIncrement graph path ≤ capacityOf graph e.1 e.2 := by
  have hfold : ∀ (path : List (FlowNode × FlowNode)) (start : ℤ), 0 < start →
      (∀ e ∈ path, 0 < capacityOf graph e.1 e.2) →
      0 < path.foldl (fun increment edge => min increment (capacityOf graph edge.1 edge.2)) start ∧
      path.foldl (fun increment edge => min increment (capacityOf graph edge.1 edge.2)) start ≤
        start ∧
      ∀ e ∈ path, path.foldl
        (fun increment edge => min increment (capacityOf graph edge.1 edge.2)) start ≤
          capacityOf graph e.1 e.2 := by
    intro path
    induction path with
    | nil => exact fun start hstart _ => ⟨hstart, le_refl _, by simp⟩
    | cons edge path ih =>
        intro start hstart hpos
        obtain ⟨hedge, hrest⟩ := List.forall_mem_cons.1 hpos
        obtain ⟨hlast, hle, hall⟩ := ih _ (lt_min hstart hedge) hrest
        rw [List.foldl_cons]
        refine ⟨hlast, hle.trans (min_le_left _ _), List.forall_mem_cons.2 ⟨?_, hall⟩⟩
        exact hle.trans (min_le_right _ _)
  obtain ⟨hlast, -, hall⟩ := hfold path MAX_SAFE_INTEGER (by decide) hpos
  exact ⟨hlast, hall⟩

theorem mem_nodesOf {graph : FlowGraph} {x : FlowNode} :
    x ∈ nodesOf graph ↔ x = .source ∨ x = .sink ∨ x ∈ graph.keys := by
  simp [nodesOf]

theorem nodesOf_foldl_pushIncrement (increment : ℤ) (path : List (FlowNode × FlowNode)) :
    ∀ graph, nodesOf graph ⊆ nodesOf (path.foldl (pushIncrement increment) graph) := by
  induction path with
  | nil => exact fun _ => Finset.Subset.refl _
  | cons edge path ih =>
      intro graph
      rw [List.foldl_cons]
      refine Finset.Subset.trans (fun x hx => ?_) (ih _)
      rw [mem_nodesOf] at hx ⊢
      refine hx.imp_right fun h => h.imp_right fun h => ?_
      exact InsertionMap.mem_keys_set.2 (.inl (InsertionMap.mem_keys_set.2 (.inl h)))

section

variable {U : Finset FlowNode} {c : FlowNode → FlowNode → ℤ}

/-- Only between nodes can anything be left. -/
theorem mem_of_capacity_pos {graph : FlowGraph} {n : ℤ}
    (hc : ∀ u v, 0 < c u v → u ∈ U ∧ v ∈ U)
    (h : Residual U c .source .sink (capacityOf graph) n) {u v : FlowNode}
    (hpos : 0 < capacityOf graph u v) : u ∈ U ∧ v ∈ U := by
  have hbalanced := h.balanced u v
  have hback := h.nonneg v u
  rcases lt_or_ge 0 (c u v) with huv | huv
  · exact hc u v huv
  · exact (hc v u (by omega)).symm

/-- The loop ends with the value of a greatest flow. -/
theorem flowLoop_spec (hsource : .source ∈ U) (hsink : .sink ∈ U)
    (hc : ∀ u v, 0 < c u v → u ∈ U ∧ v ∈ U) :
    ∀ {rounds : ℕ} {graph : FlowGraph} {n : ℤ},
      Residual U c .source .sink (capacityOf graph) n → U ⊆ nodesOf graph →
      ∑ v ∈ U, c .source v < n + rounds →
      ∃ m, flowLoop rounds graph n = some m ∧ IsMaxFlow U c .source .sink m
  | 0, graph, n, h, _, hrounds => by
      have hle := h.le_source
      push_cast at hrounds
      omega
  | rounds + 1, graph, n, h, hgraph, hrounds => by
      obtain ⟨htree, hwithin, hends⟩ := findParents_spec hsource hgraph
        fun u v hpos => (mem_of_capacity_pos hc h hpos).2
      rw [flowLoop]
      dsimp only
      split
      · next hfound =>
          have hnot : FlowNode.sink ∉ (findParents graph).keys := by
            intro hmem
            rw [InsertionMap.has_eq_true.2 hmem] at hfound
            cases hfound
          refine ⟨n, rfl, h.isMaxFlow (S := (findParents graph).keys.toFinset) ?_ ?_ ?_ ?_⟩
          · exact fun x hx => hwithin x (List.mem_toFinset.1 hx)
          · exact List.mem_toFinset.2 htree.mem_source
          · exact fun hmem => hnot (List.mem_toFinset.1 hmem)
          · intro u hu v _ hv
            refine not_lt.1 fun hpos => hv (List.mem_toFinset.2 ?_)
            exact hends.resolve_left hnot u (List.mem_toFinset.1 hu) v hpos
      · next hfound =>
          have hmem : FlowNode.sink ∈ (findParents graph).keys := by
            simpa using hfound
          obtain ⟨htrail, hnodup, hedges⟩ := htree.climb_spec (Nat.le_refl _) hmem
          obtain ⟨hpos, hleast⟩ := pathIncrement_spec
            fun e he => mem_neighbours.1 (hedges e he).2.2
          refine flowLoop_spec hsource hsink hc ?_
            (hgraph.trans (nodesOf_foldl_pushIncrement _ _ graph)) ?_
          · rw [capacityOf_foldl_pushIncrement]
            exact h.augment nofun htrail
              (fun e he => ⟨hwithin _ (hedges e he).1, hwithin _ (hedges e he).2.1⟩) hnodup hleast
              hpos.le
          · push_cast at hrounds
            omega

end

/-! ## The capacities -/

/-- What the edges of the requirements and of the items can carry. -/
def network (requirements : List LineItemRequirement) (checkoutQuantities : InsertionMap String ℕ) :
    FlowNode → FlowNode → ℤ
  | .source, .req i => (requirements[i]?.map (·.quantity)).getD 0
  | .req i, .item itemId =>
      if checkoutQuantities.has itemId ∧ ∃ r ∈ requirements[i]?, itemId ∈ r.acceptableIds then
        MAX_SAFE_INTEGER
      else 0
  | .item itemId, .sink => (checkoutQuantities.get? itemId).getD 0
  | _, _ => 0

/-- What one more requirement adds. -/
def requirementCapacity (checkoutQuantities : InsertionMap String ℕ)
    (requirement : LineItemRequirement × ℕ) : FlowNode → FlowNode → ℤ
  | .source, .req i => if i = requirement.2 then requirement.1.quantity else 0
  | .req i, .item itemId =>
      if i = requirement.2 ∧ itemId ∈ requirement.1.acceptableIds ∧
        checkoutQuantities.has itemId then MAX_SAFE_INTEGER
      else 0
  | _, _ => 0

theorem capacityOf_acceptable (checkoutQuantities : InsertionMap String ℕ) (i : ℕ)
    {ids : List String} (hids : ids.Nodup) : ∀ (graph : FlowGraph) (x y : FlowNode),
    capacityOf (ids.foldl (fun graph itemId => if checkoutQuantities.has itemId then
        addEdge graph (.req i) (.item itemId) MAX_SAFE_INTEGER else graph) graph) x y =
      capacityOf graph x y + if ∃ itemId ∈ ids, checkoutQuantities.has itemId = true ∧
        (x, y) = (.req i, .item itemId) then (MAX_SAFE_INTEGER : ℤ) else 0 := by
  induction ids with
  | nil => simp
  | cons itemId ids ih =>
      intro graph x y
      obtain ⟨hnew, hrest⟩ := List.nodup_cons.1 hids
      rw [List.foldl_cons, ih hrest]
      have hsplit : (∃ id ∈ itemId :: ids, checkoutQuantities.has id = true ∧
          (x, y) = (FlowNode.req i, .item id)) ↔
            (checkoutQuantities.has itemId = true ∧ (x, y) = (.req i, .item itemId)) ∨
              ∃ id ∈ ids, checkoutQuantities.has id = true ∧ (x, y) = (.req i, .item id) := by
        simp
      have hapart : (x, y) = (FlowNode.req i, .item itemId) → ¬∃ id ∈ ids,
          checkoutQuantities.has id = true ∧ (x, y) = (FlowNode.req i, .item id) := by
        rintro heq ⟨id, hid, -, heq'⟩
        rw [heq] at heq'
        obtain ⟨-, h⟩ := Prod.mk.injEq .. ▸ heq'
        exact hnew (FlowNode.item.inj h ▸ hid)
      by_cases hhas : checkoutQuantities.has itemId = true
      · rw [if_pos hhas, capacityOf_addEdge, add_assoc]
        congr 1
        by_cases hxy : (x, y) = (FlowNode.req i, .item itemId)
        · rw [if_pos hxy, if_neg (hapart hxy), if_pos (hsplit.2 (.inl ⟨hhas, hxy⟩)), add_zero]
        · rw [if_neg hxy, zero_add]
          refine if_congr ?_ rfl rfl
          rw [hsplit, or_iff_right fun h => hxy h.2]
      · rw [if_neg hhas]
        congr 1
        refine if_congr ?_ rfl rfl
        rw [hsplit, or_iff_right fun h => hhas h.1]

theorem capacityOf_addRequirement (checkoutQuantities : InsertionMap String ℕ) (graph : FlowGraph)
    (requirement : LineItemRequirement × ℕ) (x y : FlowNode) :
    capacityOf (addRequirement checkoutQuantities graph requirement) x y =
      capacityOf graph x y + requirementCapacity checkoutQuantities requirement x y := by
  unfold addRequirement
  dsimp only
  rw [capacityOf_acceptable _ _ requirement.1.nodup, capacityOf_addEdge, add_assoc]
  congr 1
  cases x with
  | source =>
      cases y with
      | req j => simp [requirementCapacity]
      | _ => simp [requirementCapacity]
  | req j =>
      cases y with
      | item itemId =>
          rw [if_neg (by simp), zero_add, requirementCapacity]
          refine if_congr ⟨?_, ?_⟩ rfl rfl
          · rintro ⟨id, hid, hhas, heq⟩
            obtain ⟨hj, hitem⟩ := Prod.mk.injEq .. ▸ heq
            obtain rfl := FlowNode.item.inj hitem
            exact ⟨FlowNode.req.inj hj, hid, hhas⟩
          · rintro ⟨rfl, hid, hhas⟩
            exact ⟨itemId, hid, hhas, rfl⟩
      | _ => simp [requirementCapacity]
  | _ => simp [requirementCapacity]

/-- The edges of the first requirements. -/
theorem capacityOf_requirements (checkoutQuantities : InsertionMap String ℕ)
    (requirements : List LineItemRequirement) (x y : FlowNode) :
    capacityOf (requirements.zipIdx.foldl (addRequirement checkoutQuantities) ∅) x y =
      match x, y with
      | .item _, .sink => 0
      | x, y => network requirements checkoutQuantities x y := by
  induction requirements using List.reverseRecOn generalizing x y with
  | nil =>
      have hzero : capacityOf (∅ : FlowGraph) x y = 0 := rfl
      rw [List.zipIdx_nil, List.foldl_nil, hzero]
      cases x <;> cases y <;> simp [network]
  | append_singleton rs r ih =>
      rw [List.zipIdx_append, List.foldl_append, List.zipIdx_singleton, List.foldl_cons,
        List.foldl_nil, capacityOf_addRequirement, ih]
      cases x with
      | source =>
          cases y with
          | req j =>
              simp only [network, requirementCapacity, Nat.zero_add]
              rcases Nat.lt_trichotomy j rs.length with hj | rfl | hj
              · rw [List.getElem?_append_left hj, if_neg hj.ne, add_zero]
              · simp
              · have hnone : (rs ++ [r])[j]? = none := by
                  rw [List.getElem?_eq_none_iff, List.length_append, List.length_singleton]
                  omega
                have hnone' : rs[j]? = none := List.getElem?_eq_none_iff.2 hj.le
                rw [hnone, hnone', if_neg hj.ne', add_zero]
          | _ => simp [network, requirementCapacity]
      | req j =>
          cases y with
          | item itemId =>
              simp only [network, requirementCapacity, Nat.zero_add]
              rcases Nat.lt_trichotomy j rs.length with hj | rfl | hj
              · rw [List.getElem?_append_left hj, if_neg (c := j = rs.length ∧ _) fun h => hj.ne h.1,
                  add_zero]
              · simp [and_comm]
              · have hnone : (rs ++ [r])[j]? = none := by
                  rw [List.getElem?_eq_none_iff, List.length_append, List.length_singleton]
                  omega
                have hnone' : rs[j]? = none := List.getElem?_eq_none_iff.2 hj.le
                rw [hnone, hnone', if_neg (c := j = rs.length ∧ _) fun h => hj.ne' h.1, add_zero]
          | _ => simp [network, requirementCapacity]
      | item itemId => cases y <;> simp [network, requirementCapacity]
      | sink => cases y <;> simp [network, requirementCapacity]

theorem capacityOf_items {items : List (String × ℕ)} (hitems : (items.map Prod.fst).Nodup) :
    ∀ (graph : FlowGraph) (x y : FlowNode),
      capacityOf (items.foldl (fun graph item => addEdge graph (.item item.1) .sink item.2) graph)
        x y = capacityOf graph x y +
          match x, y with
          | .item itemId, .sink =>
              ((((items.find? fun item => item.1 = itemId).map Prod.snd).getD 0 : ℕ) : ℤ)
          | _, _ => 0 := by
  induction items with
  | nil =>
      intro graph x y
      cases x <;> cases y <;> simp
  | cons item items ih =>
      intro graph x y
      obtain ⟨hnew, hrest⟩ := List.nodup_cons.1 hitems
      rw [List.foldl_cons, ih hrest, capacityOf_addEdge, add_assoc]
      congr 1
      cases x with
      | item itemId =>
          cases y with
          | sink =>
              by_cases hid : item.1 = itemId
              · have hnone : items.find? (fun item => item.1 = itemId) = none := by
                  rw [List.find?_eq_none]
                  intro other hother heq
                  have hsame : other.1 = itemId := by simpa using heq
                  exact hnew (hid.trans hsame.symm ▸ List.mem_map_of_mem hother)
                simp [hid, hnone]
              · simp [hid, Ne.symm hid]
          | _ => simp
      | _ => simp

theorem capacityOf_lineItemGraph (requirements : List LineItemRequirement)
    (checkoutQuantities : InsertionMap String ℕ) :
    capacityOf (lineItemGraph requirements checkoutQuantities) =
      network requirements checkoutQuantities := by
  funext x y
  rw [lineItemGraph, capacityOf_items checkoutQuantities.nodup, capacityOf_requirements]
  cases x with
  | item itemId =>
      cases y with
      | sink => exact zero_add _
      | _ => simp [network]
  | _ => cases y <;> simp

/-- The nodes of the network. -/
def networkNodes (requirements : List LineItemRequirement)
    (checkoutQuantities : InsertionMap String ℕ) : Finset FlowNode :=
  insert .source (insert .sink ((Finset.range requirements.length).image .req ∪
    checkoutQuantities.keys.toFinset.image .item))

theorem mem_networkNodes {requirements : List LineItemRequirement}
    {checkoutQuantities : InsertionMap String ℕ} {x : FlowNode} :
    x ∈ networkNodes requirements checkoutQuantities ↔
      match x with
      | .source | .sink => True
      | .req i => i < requirements.length
      | .item itemId => itemId ∈ checkoutQuantities.keys := by
  cases x <;> simp [networkNodes]

theorem network_nonneg (requirements : List LineItemRequirement)
    (checkoutQuantities : InsertionMap String ℕ) (x y : FlowNode) :
    0 ≤ network requirements checkoutQuantities x y := by
  unfold network
  split
  · next i => cases requirements[i]? <;> simp
  · split
    · decide
    · exact le_refl _
  · exact Int.natCast_nonneg _
  · exact le_refl _

theorem mem_of_network_pos {requirements : List LineItemRequirement}
    {checkoutQuantities : InsertionMap String ℕ} {x y : FlowNode}
    (h : 0 < network requirements checkoutQuantities x y) :
    x ∈ networkNodes requirements checkoutQuantities ∧
      y ∈ networkNodes requirements checkoutQuantities := by
  have hreq : ∀ {i : ℕ} {r : LineItemRequirement}, requirements[i]? = some r →
      i < requirements.length := fun h => (List.getElem?_eq_some_iff.1 h).1
  rw [mem_networkNodes, mem_networkNodes]
  unfold network at h
  split at h
  · next i =>
      refine ⟨trivial, ?_⟩
      cases hr : requirements[i]? with
      | none => simp [hr] at h
      | some r => exact hreq hr
  · next i itemId =>
      split at h
      · next hok =>
          obtain ⟨hhas, r, hr, -⟩ := hok
          exact ⟨hreq hr, InsertionMap.has_eq_true.1 hhas⟩
      · cases h
  · next itemId =>
      refine ⟨?_, trivial⟩
      cases hget : checkoutQuantities.get? itemId with
      | none => simp [hget] at h
      | some quantity => exact InsertionMap.mem_keys_of_mem (InsertionMap.get?_mem hget)
  · cases h

theorem mem_keys_addEdge {graph : FlowGraph} {u v x : FlowNode} {capacity : ℕ} :
    x ∈ (addEdge graph u v capacity).keys ↔ x ∈ graph.keys ∨ x = u ∨ x = v := by
  have htouch : ∀ {graph : FlowGraph} {u : FlowNode},
      x ∈ (if graph.has u then graph else graph.set u ∅).keys ↔ x ∈ graph.keys ∨ x = u := by
    intro graph u
    split
    · next h =>
        refine ⟨.inl, fun hx => hx.elim id ?_⟩
        rintro rfl
        exact InsertionMap.has_eq_true.1 h
    · exact InsertionMap.mem_keys_set
  unfold addEdge setCapacity
  dsimp only
  rw [InsertionMap.mem_keys_set, InsertionMap.mem_keys_set, htouch, htouch]
  tauto

theorem mem_keys_foldl {α : Type} (step : FlowGraph → α → FlowGraph)
    (hstep : ∀ graph a x, x ∈ graph.keys → x ∈ (step graph a).keys) {l : List α} :
    ∀ {graph : FlowGraph} {x : FlowNode}, x ∈ graph.keys → x ∈ (l.foldl step graph).keys := by
  induction l with
  | nil => exact fun h => h
  | cons a l ih => exact fun h => ih (hstep _ a _ h)

theorem mem_keys_foldl_of_mem {α : Type} (step : FlowGraph → α → FlowGraph)
    (hstep : ∀ graph a x, x ∈ graph.keys → x ∈ (step graph a).keys) {a : α} {x : FlowNode}
    (ha : ∀ graph, x ∈ (step graph a).keys) {l : List α} (hmem : a ∈ l) :
    ∀ {graph : FlowGraph}, x ∈ (l.foldl step graph).keys := by
  induction l with
  | nil => cases hmem
  | cons b l ih =>
      intro graph
      rw [List.foldl_cons]
      rcases List.mem_cons.1 hmem with rfl | hmem
      · exact mem_keys_foldl step hstep (ha graph)
      · exact ih hmem

theorem mem_keys_addRequirement {checkoutQuantities : InsertionMap String ℕ} (graph : FlowGraph)
    (requirement : LineItemRequirement × ℕ) (x : FlowNode)
    (h : x ∈ graph.keys ∨ x = .req requirement.2) :
    x ∈ (addRequirement checkoutQuantities graph requirement).keys := by
  refine mem_keys_foldl _ (fun graph itemId y hy => ?_) (mem_keys_addEdge.2 (h.imp_right .inr))
  split
  · exact mem_keys_addEdge.2 (.inl hy)
  · exact hy

theorem networkNodes_subset (requirements : List LineItemRequirement)
    (checkoutQuantities : InsertionMap String ℕ) :
    networkNodes requirements checkoutQuantities ⊆
      nodesOf (lineItemGraph requirements checkoutQuantities) := by
  have hitem : ∀ (graph : FlowGraph) (item : String × ℕ) (x : FlowNode), x ∈ graph.keys →
      x ∈ (addEdge graph (.item item.1) .sink item.2).keys :=
    fun graph item x hx => mem_keys_addEdge.2 (.inl hx)
  intro x hx
  rw [mem_networkNodes] at hx
  rw [mem_nodesOf]
  cases x with
  | source => exact .inl rfl
  | sink => exact .inr (.inl rfl)
  | req i =>
      have hmem : (requirements[i], i) ∈ requirements.zipIdx :=
        List.mk_mem_zipIdx_iff_getElem?.2 (List.getElem?_eq_getElem hx)
      refine .inr (.inr (mem_keys_foldl _ hitem ?_))
      exact mem_keys_foldl_of_mem _
        (fun graph requirement y hy => mem_keys_addRequirement graph requirement y (.inl hy))
        (fun graph => mem_keys_addRequirement graph _ _ (.inr rfl)) hmem
  | item itemId =>
      obtain ⟨quantity, hmem⟩ := InsertionMap.mem_keys.1 hx
      exact .inr (.inr (mem_keys_foldl_of_mem _ hitem
        (fun graph => mem_keys_addEdge.2 (.inr (.inl rfl))) hmem))

/-! ### Sums over the nodes -/

/-- What a requirement asks for. -/
def quantityAt (requirements : List LineItemRequirement) (i : ℕ) : ℤ :=
  (requirements[i]?.map (·.quantity)).getD 0

theorem sum_quantityAt (requirements : List LineItemRequirement) :
    ∑ i ∈ Finset.range requirements.length, quantityAt requirements i =
      requiredQuantity requirements := by
  induction requirements using List.reverseRecOn with
  | nil => rfl
  | append_singleton rs r ih =>
      have hlast : quantityAt (rs ++ [r]) rs.length = r.quantity := by
        simp [quantityAt]
      have hrest : ∑ i ∈ Finset.range rs.length, quantityAt (rs ++ [r]) i =
          ∑ i ∈ Finset.range rs.length, quantityAt rs i := by
        refine Finset.sum_congr rfl fun i hi => ?_
        rw [quantityAt, List.getElem?_append_left (Finset.mem_range.1 hi), quantityAt]
      rw [List.length_append, List.length_singleton, Finset.sum_range_succ, hrest, ih, hlast]
      simp [requiredQuantity]

/-- A sum over the nodes, by their kinds. -/
theorem sum_networkNodes (requirements : List LineItemRequirement)
    (checkoutQuantities : InsertionMap String ℕ) (f : FlowNode → ℤ) :
    ∑ v ∈ networkNodes requirements checkoutQuantities, f v =
      f .source + f .sink + ∑ i ∈ Finset.range requirements.length, f (.req i) +
        ∑ itemId ∈ checkoutQuantities.keys.toFinset, f (.item itemId) := by
  have hdisjoint : Disjoint ((Finset.range requirements.length).image FlowNode.req)
      (checkoutQuantities.keys.toFinset.image FlowNode.item) := by
    rw [Finset.disjoint_left]
    intro x hx hx'
    obtain ⟨i, -, rfl⟩ := Finset.mem_image.1 hx
    obtain ⟨itemId, -, heq⟩ := Finset.mem_image.1 hx'
    cases heq
  rw [networkNodes, Finset.sum_insert (by simp), Finset.sum_insert (by simp),
    Finset.sum_union hdisjoint, Finset.sum_image (fun _ _ _ _ => FlowNode.req.inj),
    Finset.sum_image (fun _ _ _ _ => FlowNode.item.inj)]
  ring

/-- The source carries no more than is required. -/
theorem sum_source (requirements : List LineItemRequirement)
    (checkoutQuantities : InsertionMap String ℕ) :
    ∑ v ∈ networkNodes requirements checkoutQuantities,
      network requirements checkoutQuantities .source v = requiredQuantity requirements := by
  rw [sum_networkNodes, ← sum_quantityAt]
  simp [network, quantityAt]

theorem maxLineItemFlow_isMaxFlow (requirements : List LineItemRequirement)
    (checkoutQuantities : InsertionMap String ℕ) :
    ∃ m, maxLineItemFlow requirements checkoutQuantities = some m ∧
      IsMaxFlow (networkNodes requirements checkoutQuantities)
        (network requirements checkoutQuantities) .source .sink m := by
  have hresidual : Residual (networkNodes requirements checkoutQuantities)
      (network requirements checkoutQuantities) .source .sink
        (capacityOf (lineItemGraph requirements checkoutQuantities)) 0 := by
    rw [capacityOf_lineItemGraph]
    exact .init (network_nonneg _ _)
  refine flowLoop_spec (mem_networkNodes.2 trivial) (mem_networkNodes.2 trivial)
    (fun u v => mem_of_network_pos) hresidual (networkNodes_subset _ _) ?_
  rw [sum_source]
  push_cast
  omega

end Atrib.Verify
