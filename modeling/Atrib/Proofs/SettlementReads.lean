import Atrib.Proofs.SettlementOrder

/-!
# What of a graph a settlement reads

The calculation asks a graph which nodes contribute and who made them, which
types of edges lie on the paths from a contributing tool call to a
transaction, how far that is along the chain, and how many nodes have one
content id. Two graphs that answer alike have one settlement, and of the types
on the paths only the heaviest counts.

The other direction is a matter of choosing the policy. With all weight on one
type of edge the creators who are paid are those who have it on a path, so
where contributing nodes have creators of their own, every answer shows.
-/

namespace Atrib.Verify

open Lib (InsertionMap)

/-! ## The heaviest type -/

section MaxWeight

variable {K : Type*} [LinearOrder K]

theorem foldl_maxWeight {ws : List K} :
    ∀ {v : K}, ∃ m, ws.foldl (fun max w => if max.all (· < w) then some w else max) (some v) =
      some m ∧ (m = v ∨ m ∈ ws) ∧ v ≤ m ∧ ∀ w ∈ ws, w ≤ m := by
  induction ws with
  | nil => exact fun {v} => ⟨v, rfl, Or.inl rfl, le_rfl, by simp⟩
  | cons w ws ih =>
      intro v
      obtain ⟨m, hm, hmem, hle, hall⟩ := @ih (max v w)
      refine ⟨m, ?_, ?_, (le_max_left v w).trans hle, ?_⟩
      · rw [List.foldl_cons, maxWeight_step, Option.elim_some, hm]
      · rcases hmem with rfl | hmem
        · rcases max_choice v w with h | h
          · exact Or.inl h
          · exact Or.inr (by rw [h]; exact List.mem_cons_self)
        · exact Or.inr (List.mem_cons_of_mem _ hmem)
      · intro x hx
        rcases List.mem_cons.1 hx with rfl | hx
        · exact (le_max_right v x).trans hle
        · exact hall x hx

/-- The largest of the weights is one of them and bounds them. -/
theorem maxWeight_spec {ws : List K} (hne : ws ≠ []) :
    ∃ m ∈ ws, maxWeight ws = some m ∧ ∀ w ∈ ws, w ≤ m := by
  cases ws with
  | nil => exact absurd rfl hne
  | cons w ws =>
      obtain ⟨m, hm, hmem, hle, hall⟩ := @foldl_maxWeight K _ ws w
      refine ⟨m, List.mem_cons.2 hmem, ?_, fun x hx => ?_⟩
      · rw [maxWeight, List.foldl_cons, maxWeight_step, Option.elim_none]
        exact hm
      · rcases List.mem_cons.1 hx with rfl | hx
        · exact hle
        · exact hall x hx

/-- Weights that are outweighed both ways have one largest. -/
theorem maxWeight_congr {ws ws' : List K} (h : ∀ w ∈ ws, ∃ w' ∈ ws', w ≤ w')
    (h' : ∀ w' ∈ ws', ∃ w ∈ ws, w' ≤ w) : maxWeight ws = maxWeight ws' := by
  by_cases hne : ws = []
  · have hne' : ws' = [] := by
      rw [List.eq_nil_iff_forall_not_mem]
      intro w' hw'
      obtain ⟨w, hw, -⟩ := h' w' hw'
      rw [hne] at hw
      cases hw
    rw [hne, hne']
  · have hne' : ws' ≠ [] := by
      intro hnil
      obtain ⟨w, hw⟩ := List.exists_mem_of_ne_nil ws hne
      obtain ⟨w', hw', -⟩ := h w hw
      rw [hnil] at hw'
      cases hw'
    obtain ⟨m, hm, hmax, hall⟩ := maxWeight_spec hne
    obtain ⟨m', hm', hmax', hall'⟩ := maxWeight_spec hne'
    obtain ⟨w', hw', hle⟩ := h m hm
    obtain ⟨w, hw, hle'⟩ := h' m' hm'
    rw [hmax, hmax', le_antisymm (hle.trans (hall' w' hw')) (hle'.trans (hall w hw))]

end MaxWeight

/-! ## Two graphs that are read alike -/

theorem isNode_eq_isSome (graph : GraphResponse) (id : String) :
    isNode graph id = (nodeMap graph id).isSome := by
  rw [Bool.eq_iff_iff, nodeMap, List.find?_isSome, isNode, List.any_eq_true]
  simp

/-- An edge of the type leads on from an id that a walk from `id` comes to
before it comes to a transaction. -/
def OnPathToTx (graph : GraphResponse) (id : String) (t : EdgeType) : Prop :=
  ∃ x, Lib.Search.Reach (forwardAdj graph) id x ∧ t ∈ (arcsToTx graph x).map Prod.fst

variable {K : Type*} [Field K] [LinearOrder K]

def weightOf (policy : PolicyDocument K) (t : EdgeType) : K :=
  ((policy.edgeWeights.getD ∅).get? t.name).getD 0

/-- Every type on a path from `id` is, or is outweighed by, one in the other graph. -/
def Outweighed (policy : PolicyDocument K) (graph graph' : GraphResponse) (id : String) : Prop :=
  ∀ t, OnPathToTx graph id t → ∃ t', OnPathToTx graph' id t' ∧ weightOf policy t ≤ weightOf policy t'

/-- The two graphs give one answer to everything that is asked under a policy. -/
structure ReadAlike (policy : PolicyDocument K) (graph graph' : GraphResponse) : Prop where
  contributing : identifyContributingNodes graph = identifyContributingNodes graph'
  owner : ∀ node ∈ identifyContributingNodes graph, nodeMap graph node.id = nodeMap graph' node.id
  heaviest : ∀ node ∈ identifyContributingNodes graph, node.eventType = .toolCall →
    Outweighed policy graph graph' node.id ∧ Outweighed policy graph' graph node.id
  depth : (∃ p, .chainDepthPenalty p ∈ policy.modifiers.getD []) →
    ∀ node ∈ identifyContributingNodes graph,
      shortestChainPath node.id graph = shortestChainPath node.id graph'
  count : (∃ m cap, .callCountBoost m cap ∈ policy.modifiers.getD []) →
    ∀ node ∈ identifyContributingNodes graph,
      countNodesWithSameContentId node.contentId graph =
        countNodesWithSameContentId node.contentId graph'

section ReadAlike

variable {policy : PolicyDocument K} {graph graph' : GraphResponse}

theorem exists_weight_of_outweighed {id : String} (h : Outweighed policy graph graph' id) :
    ∀ w ∈ (collectEdgeTypesToTransaction id graph).map (weightOf policy),
      ∃ w' ∈ (collectEdgeTypesToTransaction id graph').map (weightOf policy), w ≤ w' := by
  intro w hw
  obtain ⟨t, ht, rfl⟩ := List.mem_map.1 hw
  obtain ⟨t', ht', hle⟩ := h t (mem_collectEdgeTypes.1 ht)
  exact ⟨_, List.mem_map_of_mem (mem_collectEdgeTypes.2 ht'), hle⟩

theorem ReadAlike.baseWeight_eq (h : ReadAlike policy graph graph') {node : GraphNode}
    (hnode : node ∈ identifyContributingNodes graph) :
    baseWeight node graph policy = baseWeight node graph' policy := by
  rcases contributing_type hnode with htype | htype
  · obtain ⟨hto, hfrom⟩ := h.heaviest node hnode htype
    have hmax := maxWeight_congr (exists_weight_of_outweighed hto)
      (exists_weight_of_outweighed hfrom)
    rw [baseWeight, baseWeight, if_neg (by simp [htype]), if_neg (by simp [htype])]
    exact congrArg (fun m => m.getD 0) hmax
  · rw [baseWeight, baseWeight, if_pos htype, if_pos htype]

theorem ReadAlike.rawScore_eq (h : ReadAlike policy graph graph') (pow : K → K → K)
    {node : GraphNode} (hnode : node ∈ identifyContributingNodes graph) (txNode : GraphNode) :
    rawScore pow node graph policy txNode = rawScore pow node graph' policy txNode := by
  have hstep : ∀ modifier ∈ policy.modifiers.getD [], ∀ score : K,
      applyModifier pow modifier score node graph txNode =
        applyModifier pow modifier score node graph' txNode := by
    intro modifier hmod score
    cases modifier with
    | temporalDecay _ => rfl
    | chainDepthPenalty p => simp only [applyModifier, h.depth ⟨p, hmod⟩ node hnode]
    | callCountBoost m cap => simp only [applyModifier, h.count ⟨m, cap, hmod⟩ node hnode]
    | unknown _ => rfl
  have hfold : ∀ modifiers : List (Modifier K), modifiers ⊆ policy.modifiers.getD [] →
      ∀ score, applyModifiers pow modifiers score node graph txNode =
        applyModifiers pow modifiers score node graph' txNode := by
    intro modifiers
    induction modifiers with
    | nil => exact fun _ _ => rfl
    | cons m ms ih =>
        intro hsub score
        have hm := hstep m (hsub List.mem_cons_self) score
        have ih' := ih fun x hx => hsub (List.mem_cons_of_mem _ hx)
        simp only [applyModifiers, List.foldl_cons] at ih' ⊢
        rw [hm, ih']
  rw [rawScore_eq_clamp, rawScore_eq_clamp, h.baseWeight_eq hnode, hfold _ (List.Subset.refl _)]

omit [LinearOrder K] in
/-- Setting scaled values is scaling what was set. -/
theorem foldl_set_scaled (c : K) {α : Type*} (key : α → String) (val : α → K) (xs : List α)
    (shares : InsertionMap String K) :
    xs.foldl (fun m x => m.set (key x) (val x * c)) (shares.mapVal fun _ s => s * c) =
      (xs.foldl (fun m x => m.set (key x) (val x)) shares).mapVal fun _ s => s * c := by
  induction xs generalizing shares with
  | nil => rfl
  | cons x xs ih =>
      rw [List.foldl_cons, List.foldl_cons, ← ih, InsertionMap.mapVal_set fun s => s * c]

/-- A score is that of a contributing node with the id. -/
theorem mem_entries_rawScores {pow : K → K → K} {txNode : GraphNode} {e : String × K}
    (h : e ∈ (rawScores pow graph policy txNode).entries) :
    ∃ node ∈ identifyContributingNodes graph, node.id = e.1 ∧
      rawScore pow node graph policy txNode = e.2 := by
  have hset : rawScores pow graph policy txNode = (∅ : InsertionMap String K).setAll
      ((identifyContributingNodes graph).map fun node =>
        (node.id, rawScore pow node graph policy txNode)) := by
    rw [rawScores, InsertionMap.setAll, List.foldl_map]
  rw [hset] at h
  rcases InsertionMap.mem_entries_setAll h with h | h
  · obtain ⟨node, hnode, rfl⟩ := List.mem_map.1 h
    exact ⟨node, hnode, rfl, rfl⟩
  · cases h

theorem mem_keys_of_finalNormalize {κ : Type*} {shares : InsertionMap κ K} {k : κ}
    (h : k ∈ (finalNormalize shares).keys) : k ∈ shares.keys := by
  rw [finalNormalize] at h
  split at h
  · cases h
  · rwa [InsertionMap.keys_mapVal] at h

/-- What is shared out among the nodes goes to contributing ones. -/
theorem mem_keys_normalized {scores : InsertionMap String K} {constraints : PolicyConstraints K}
    {id : String} (h : id ∈ (finalNormalize (applyConstraints scores constraints)).keys) :
    ∃ s, (id, s) ∈ scores.entries ∧ 0 < s :=
  applyConstraints_keys.1 (mem_keys_of_finalNormalize h)

/-- Who is paid made a node, or one of its id, that is scored. -/
theorem scored_of_mem_keys {pow : K → K → K}
    {sessionPolicyRecord : Option (SessionPolicyRecord K)} {key : String}
    (h : key ∈ (calculate pow graph policy sessionPolicyRecord).keys) :
    ∃ node ∈ identifyContributingNodes graph,
      (nodeMap graph node.id).map creatorOf = some key ∧
        ∃ x, graph.nodes.find? (·.eventType = .transaction) = some x ∧
          0 < rawScore pow node graph (validatedPolicy policy) x := by
  cases hx : graph.nodes.find? (·.eventType = .transaction) with
  | none =>
      simp only [calculate, hx] at h
      cases h
  | some x =>
      simp only [calculate, hx] at h
      have hfloored := mem_keys_of_finalNormalize (distributionFromMap_keys.1 h).1
      obtain ⟨id, hid, owner, howner, hkey⟩ :=
        aggregateByCreator_keys.1 (applyCreatorFloors_keys.1 hfloored)
      obtain ⟨s, hs, hpos⟩ := mem_keys_normalized hid
      obtain ⟨node, hnode, hnodeId, hscore⟩ := mem_entries_rawScores hs
      refine ⟨node, hnode, ?_, x, rfl, ?_⟩
      · rw [hnodeId, howner, Option.map_some, hkey]
      · rw [hscore]
        exact hpos

omit [LinearOrder K] in
theorem aggregateByCreator_congr {normalized : InsertionMap String K}
    (h : ∀ id ∈ normalized.keys, nodeMap graph id = nodeMap graph' id) :
    aggregateByCreator normalized graph = aggregateByCreator normalized graph' := by
  have hfold : ∀ ids : List String, (∀ id ∈ ids, nodeMap graph id = nodeMap graph' id) →
      ∀ byCreator : InsertionMap String K, ids.foldl (addShare normalized graph) byCreator =
        ids.foldl (addShare normalized graph') byCreator := by
    intro ids
    induction ids with
    | nil => exact fun _ _ => rfl
    | cons id ids ih =>
        intro hids byCreator
        rw [List.foldl_cons, List.foldl_cons, addShare, addShare, hids id List.mem_cons_self]
        exact ih (fun x hx => hids x (List.mem_cons_of_mem _ hx)) _
  exact hfold _ (fun id hid => h id (List.mem_mergeSort.1 hid)) _

variable [IsStrictOrderedRing K]

/-- Graphs that are read alike have one settlement, also where the scores are
measured from different transactions, as long as no node that counts stands
between them. -/
theorem ReadAlike.calculate_eq {pow : K → K → K} (hpow : IsExp2 pow)
    (h : ReadAlike (validatedPolicy policy) graph graph') {x y : GraphNode}
    (hx : graph.nodes.find? (·.eventType = .transaction) = some x)
    (hy : graph'.nodes.find? (·.eventType = .transaction) = some y)
    (hside : ∀ node ∈ identifyContributingNodes graph,
      (∃ m ∈ (validatedPolicy policy).modifiers.getD [], m.decays = true) →
        0 < rawScore pow node graph (undecayed (validatedPolicy policy)) x →
          (node.timestamp ≤ x.timestamp ↔ node.timestamp ≤ y.timestamp))
    (sessionPolicyRecord : Option (SessionPolicyRecord K)) :
    calculate pow graph policy sessionPolicyRecord =
      calculate pow graph' policy sessionPolicyRecord := by
  have hscores : rawScores pow graph' (validatedPolicy policy) y =
      (rawScores pow graph (validatedPolicy policy) x).mapVal fun _ s =>
        s * decayOver (pow 2) ((validatedPolicy policy).modifiers.getD [])
          (y.timestamp - x.timestamp) := by
    rw [rawScores, rawScores, ← foldl_set_scaled, ← h.contributing]
    refine List.foldl_ext _ _ _ fun m node hnode => ?_
    rw [← h.rawScore_eq pow hnode, rawScore_between hpow (hside node hnode)]
  have howner : ∀ constraints : PolicyConstraints K, ∀ id ∈ (finalNormalize (applyConstraints
      (rawScores pow graph (validatedPolicy policy) x) constraints)).keys,
        nodeMap graph id = nodeMap graph' id := by
    intro constraints id hid
    obtain ⟨s, hs, -⟩ := mem_keys_normalized hid
    obtain ⟨node, hnode, hnodeId, -⟩ := mem_entries_rawScores hs
    have howner := h.owner node hnode
    rw [hnodeId] at howner
    exact howner
  simp only [calculate, hx, hy, hscores, applyConstraints_scaled (decayOver_pos hpow _ _),
    aggregateByCreator_congr (howner _)]

end ReadAlike

/-! ## Policies that ask one question -/

/-- A policy without constraints. -/
def probe (weights : InsertionMap String K) (modifiers : List (Modifier K)) : PolicyDocument K where
  specVersion := "atrib/1.0"
  edgeWeights := some weights
  modifiers := some modifiers

/-- What a policy can give a weight. -/
def weightNames : List String :=
  ["CHAIN_PRECEDES", "SESSION_PRECEDES", "SESSION_PARALLEL", "CONVERGES_ON", "CROSS_SESSION",
    "INFORMED_BY", "PROVENANCE_OF", "ANNOTATES", "REVISES", "unsigned"]

/-- The same weight on everything. -/
def evenWeights : InsertionMap String K :=
  (∅ : InsertionMap String K).setAll (weightNames.map fun name => (name, 1))

/-- All weight on one type. -/
def onlyWeight (t : EdgeType) : InsertionMap String K := (∅ : InsertionMap String K).set t.name 1

/-- Distinct ids, and contributing nodes with creators of their own who can be
named in an object. -/
structure OwnCreators (graph : GraphResponse) : Prop where
  ids : (graph.nodes.map (·.id)).Nodup
  creators : ∀ a ∈ identifyContributingNodes graph, ∀ b ∈ identifyContributingNodes graph,
    creatorOf a = creatorOf b → a = b
  named : ∀ a ∈ identifyContributingNodes graph, creatorOf a ≠ "__proto__"

/-- The node contributes and has a positive score. -/
def Scored (pow : K → K → K) (graph : GraphResponse) (policy : PolicyDocument K)
    (node : GraphNode) : Prop :=
  node ∈ identifyContributingNodes graph ∧
    ∃ x, graph.nodes.find? (·.eventType = .transaction) = some x ∧
      0 < rawScore pow node graph policy x

section Probe

theorem EdgeType.name_injective {t t' : EdgeType} (h : t.name = t'.name) : t = t' := by
  cases t <;> cases t' <;> first | rfl | exact absurd h (by decide)

omit [LinearOrder K] in
theorem weightOf_onlyWeight (t t' : EdgeType) (modifiers : List (Modifier K)) :
    weightOf (probe (onlyWeight t) modifiers) t' = if t' = t then 1 else 0 := by
  by_cases h : t' = t
  · rw [if_pos h, h]
    simp [weightOf, probe, onlyWeight]
  · have hne : t.name ≠ t'.name := fun hname => h (EdgeType.name_injective hname.symm)
    rw [if_neg h]
    simp [weightOf, probe, onlyWeight, InsertionMap.get?, InsertionMap.entries_set, hne]

omit [LinearOrder K] in
theorem evenWeights_allVals : (evenWeights : InsertionMap String K).AllVals (· = 1) := by
  refine InsertionMap.AllVals.setAll (fun e he => by cases he) fun e he => ?_
  obtain ⟨name, -, rfl⟩ := List.mem_map.1 he
  rfl

omit [LinearOrder K] in
theorem get?_evenWeights {name : String} (h : name ∈ weightNames) :
    (evenWeights : InsertionMap String K).get? name = some 1 := by
  have hkey : name ∈ (evenWeights : InsertionMap String K).keys :=
    InsertionMap.mem_keys_setAll.2 (Or.inr (by simpa using h))
  obtain ⟨v, hv⟩ := InsertionMap.exists_get? hkey
  have hone := evenWeights_allVals _ (InsertionMap.get?_mem hv)
  rw [hv]
  exact congrArg some hone

omit [LinearOrder K] in
theorem weightOf_evenWeights (t : EdgeType) (modifiers : List (Modifier K)) :
    weightOf (probe evenWeights modifiers) t = 1 := by
  have hname : t.name ∈ weightNames := by cases t <;> decide
  have hget := get?_evenWeights (K := K) hname
  simp [weightOf, probe, hget]

variable [IsStrictOrderedRing K]

omit [IsStrictOrderedRing K] in
theorem validatedPolicy_probe {weights : InsertionMap String K}
    (h : weights.AllVals fun w => 0 ≤ w) (modifiers : List (Modifier K)) :
    validatedPolicy (probe weights modifiers) = probe weights modifiers := by
  refine if_pos ?_
  simp only [isValidPolicy, probe, Option.all_some, Option.all_none, Bool.and_true, Bool.and_eq_true,
    decide_eq_true_eq, List.all_eq_true, Bool.not_eq_true', decide_eq_false_iff_not, not_lt, true_and]
  intro w hw
  obtain ⟨e, he, rfl⟩ := List.mem_map.1 hw
  exact h e he

theorem onlyWeight_nonneg (t : EdgeType) :
    (onlyWeight t : InsertionMap String K).AllVals fun w => 0 ≤ w :=
  InsertionMap.AllVals.set (fun e he => by cases he) _ zero_le_one

theorem evenWeights_nonneg : (evenWeights : InsertionMap String K).AllVals fun w => 0 ≤ w := by
  intro e he
  rw [evenWeights_allVals e he]
  exact zero_le_one

/-- Under a probe a creator is in the distribution if the node is scored. -/
theorem mem_keys_probe {pow : K → K → K} {graph : GraphResponse} {node : GraphNode}
    {weights : InsertionMap String K} (hweights : weights.AllVals fun w => 0 ≤ w)
    (modifiers : List (Modifier K)) (hids : (graph.nodes.map (·.id)).Nodup)
    (hown : ∀ a ∈ identifyContributingNodes graph, creatorOf a = creatorOf node → a = node)
    (hnamed : creatorOf node ≠ "__proto__") :
    creatorOf node ∈ (calculate pow graph (probe weights modifiers) none).keys ↔
      Scored pow graph (probe weights modifiers) node := by
  have hvalid := validatedPolicy_probe hweights modifiers
  cases hx : graph.nodes.find? (·.eventType = .transaction) with
  | none =>
      refine iff_of_false ?_ ?_
      · simp [calculate, hx]
      · intro h
        obtain ⟨-, x, hx', -⟩ := h
        rw [hx] at hx'
        cases hx'
  | some x =>
      rw [mem_keys_calculate hids (by rw [hvalid]; simp [probe]) hx, hvalid]
      constructor
      · intro h
        obtain ⟨-, a, ha, hcreator, hscore⟩ := h
        obtain rfl := hown a ha hcreator
        exact ⟨ha, x, hx, hscore⟩
      · intro h
        obtain ⟨hnode, x', hx', hscore⟩ := h
        rw [hx] at hx'
        cases hx'
        exact ⟨hnamed, node, hnode, rfl, hscore⟩

/-- Where two graphs have one settlement under a probe, the same nodes are
scored in them. -/
theorem scored_iff_of_calculate_eq {pow : K → K → K} {graph graph' : GraphResponse}
    (hown : OwnCreators graph) (hids : (graph'.nodes.map (·.id)).Nodup)
    (hsub : ∀ a ∈ identifyContributingNodes graph', a ∈ identifyContributingNodes graph)
    {weights : InsertionMap String K} (hweights : weights.AllVals fun w => 0 ≤ w)
    {modifiers : List (Modifier K)}
    (heq : calculate pow graph (probe weights modifiers) none =
      calculate pow graph' (probe weights modifiers) none)
    {node : GraphNode} (hnode : node ∈ identifyContributingNodes graph) :
    Scored pow graph (probe weights modifiers) node ↔
      Scored pow graph' (probe weights modifiers) node := by
  rw [← mem_keys_probe hweights modifiers hown.ids
      (fun a ha h => hown.creators a ha node hnode h) (hown.named node hnode),
    ← mem_keys_probe hweights modifiers hids
      (fun a ha h => hown.creators a (hsub a ha) node hnode h) (hown.named node hnode), heq]

theorem exists_transaction {graph : GraphResponse} {node : GraphNode}
    (hnode : node ∈ identifyContributingNodes graph) :
    (graph.nodes.find? (·.eventType = .transaction)).isSome := by
  have hfilter := (List.mem_filter.1 (List.mem_mergeSort.1 hnode)).2
  obtain ⟨edge, he, -⟩ := List.mem_map.1 (of_decide_eq_true hfilter).2
  obtain ⟨-, htarget⟩ := of_decide_eq_true (List.mem_filter.1 he).2
  obtain ⟨tx, htx, -⟩ := List.mem_map.1 (Lib.InsertionSet.mem_ofList.1 htarget)
  obtain ⟨hmem, htype⟩ := List.mem_filter.1 htx
  rw [List.find?_isSome]
  exact ⟨tx, hmem, htype⟩

/-- A contributing node has a type on a path: that of its edge to a transaction. -/
theorem exists_onPathToTx {graph : GraphResponse} {node : GraphNode}
    (hnode : node ∈ identifyContributingNodes graph) : ∃ t, OnPathToTx graph node.id t := by
  obtain ⟨hmem, hfilter⟩ := List.mem_filter.1 (List.mem_mergeSort.1 hnode)
  obtain ⟨-, hedge⟩ := of_decide_eq_true hfilter
  obtain ⟨edge, he, hsource⟩ := List.mem_map.1 hedge
  obtain ⟨he, htype⟩ := List.mem_filter.1 he
  obtain ⟨-, htarget⟩ := of_decide_eq_true htype
  have hisNode : isNode graph node.id = true := by
    rw [isNode, List.any_eq_true]
    exact ⟨node, hmem, by simp⟩
  have harc : (edge.type, edge.target) ∈ adj graph node.id := by
    rw [adj, if_pos hisNode]
    refine List.mem_flatMap.2 ⟨edge, he, List.mem_append_left _ ?_⟩
    rw [if_pos hsource]
    exact List.mem_singleton_self _
  have hnext : (nodeMap graph edge.target).isSome := by
    obtain ⟨tx, htx, hid⟩ := List.mem_map.1 (Lib.InsertionSet.mem_ofList.1 htarget)
    rw [nodeMap, List.find?_isSome]
    exact ⟨tx, List.mem_reverse.2 (List.mem_filter.1 htx).1, by simpa using hid⟩
  have hreach : edge.target ∈ canReachTx graph :=
    mem_canReachTx.2 ⟨edge.target, htarget, Relation.ReflTransGen.refl⟩
  exact ⟨edge.type, node.id, Relation.ReflTransGen.refl,
    List.mem_map.2 ⟨_, List.mem_filter.2 ⟨harc, by simp [hreach, hnext]⟩, rfl⟩⟩

omit [IsStrictOrderedRing K] in
theorem baseWeight_evenWeights {graph : GraphResponse} {node : GraphNode}
    (hnode : node ∈ identifyContributingNodes graph) (modifiers : List (Modifier K)) :
    baseWeight node graph (probe evenWeights modifiers) = 1 := by
  rcases contributing_type hnode with htype | htype
  · obtain ⟨t, ht⟩ := exists_onPathToTx hnode
    have hne : (collectEdgeTypesToTransaction node.id graph).map
        (weightOf (probe (evenWeights : InsertionMap String K) modifiers)) ≠ [] :=
      List.ne_nil_of_mem (List.mem_map_of_mem (mem_collectEdgeTypes.2 ht))
    obtain ⟨m, hm, hmax, -⟩ := maxWeight_spec hne
    obtain ⟨t', -, rfl⟩ := List.mem_map.1 hm
    rw [weightOf_evenWeights] at hmax
    rw [baseWeight, if_neg (by simp [htype])]
    exact congrArg (fun m => m.getD 0) hmax
  · have hget := get?_evenWeights (K := K) (show "unsigned" ∈ weightNames by decide)
    rw [baseWeight, if_pos htype]
    simp [probe, hget]

/-- With all weight on one type, the tool calls that have it on a path are scored. -/
theorem scored_onlyWeight_iff {pow : K → K → K} {graph : GraphResponse} {node x : GraphNode}
    (hx : graph.nodes.find? (·.eventType = .transaction) = some x)
    (hnode : node ∈ identifyContributingNodes graph) (htype : node.eventType = .toolCall)
    (t : EdgeType) :
    Scored pow graph (probe (onlyWeight t) []) node ↔ OnPathToTx graph node.id t := by
  have hbase : rawScore pow node graph (probe (onlyWeight t) []) x =
      clamp ((maxWeight ((collectEdgeTypesToTransaction node.id graph).map
        (weightOf (probe (onlyWeight t) [])))).getD 0) := by
    rw [rawScore_eq_clamp, baseWeight, if_neg (by simp [htype])]
    rfl
  obtain ⟨t₀, ht₀⟩ := exists_onPathToTx hnode
  have hne : (collectEdgeTypesToTransaction node.id graph).map
      (weightOf (probe (onlyWeight t : InsertionMap String K) [])) ≠ [] :=
    List.ne_nil_of_mem (List.mem_map_of_mem (mem_collectEdgeTypes.2 ht₀))
  obtain ⟨m, hm, hmax, hall⟩ := maxWeight_spec hne
  obtain ⟨t', ht', rfl⟩ := List.mem_map.1 hm
  rw [hmax, Option.getD_some, weightOf_onlyWeight] at hbase
  constructor
  · intro h
    obtain ⟨-, x', hx', hscore⟩ := h
    rw [hx] at hx'
    cases hx'
    rw [hbase] at hscore
    by_cases heq : t' = t
    · exact mem_collectEdgeTypes.1 (heq ▸ ht')
    · rw [if_neg heq, clamp, if_neg (lt_irrefl 0)] at hscore
      exact absurd hscore (lt_irrefl 0)
  · intro h
    refine ⟨hnode, x, hx, ?_⟩
    have hle := hall _ (List.mem_map_of_mem (mem_collectEdgeTypes.2 h))
    rw [weightOf_onlyWeight, weightOf_onlyWeight, if_pos rfl] at hle
    by_cases heq : t' = t
    · rw [hbase, if_pos heq, clamp, if_neg (not_lt.2 zero_le_one)]
      exact one_pos
    · rw [if_neg heq] at hle
      exact absurd hle (not_le.2 one_pos)

end Probe

end Atrib.Verify
