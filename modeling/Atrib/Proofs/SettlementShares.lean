import Atrib.Proofs.GraphReaders
import Mathlib.Algebra.BigOperators.Group.List.Basic
import Mathlib.Algebra.BigOperators.Ring.List
import Mathlib.Algebra.Order.BigOperators.Group.List

/-!
# Who gets a share

From the raw scores on, every step of the calculation keeps shares positive
and keeps the set of those who have one: a floor lifts and a cap lowers, but
neither gives a share to anybody or takes it away. So the creators in a
distribution are those of the contributing nodes with a positive score, unless
the cap is 0.
-/

namespace Atrib.Verify

open Lib (InsertionMap InsertionSet.mem_ofList)
open Lib.InsertionMap (AllVals mem_keys mem_keys_of_mem mem_keys_filter mem_keys_filter_or
  mem_keys_set mem_keys_setAll keys_mapVal get?_mem get?_of_mem
  exists_get?)

theorem total_mapVal_mul {K κ : Type*} [Field K] (shares : InsertionMap κ K) (c : K) :
    total (shares.mapVal fun _ s => s * c) = total shares * c := by
  unfold total InsertionMap.values InsertionMap.mapVal
  rw [List.map_map, ← List.sum_map_mul_right]
  rfl

variable {K : Type*} [Field K] [LinearOrder K]

/-- All shares are positive. -/
abbrev Positive {κ : Type*} (shares : InsertionMap κ K) : Prop := shares.AllVals (0 < ·)

section Total

variable [IsStrictOrderedRing K] {κ : Type*}

theorem total_nonneg {shares : InsertionMap κ K} (h : Positive shares) : 0 ≤ total shares := by
  refine List.sum_nonneg ?_
  intro s hs
  obtain ⟨e, he, rfl⟩ := List.mem_map.1 hs
  exact (h e he).le

theorem total_pos {shares : InsertionMap κ K} (h : Positive shares) {k : κ}
    (hk : k ∈ shares.keys) : 0 < total shares := by
  obtain ⟨v, hv⟩ := mem_keys.1 hk
  refine List.sum_pos _ ?_ ?_
  · intro s hs
    obtain ⟨e, he, rfl⟩ := List.mem_map.1 hs
    exact h e he
  · intro hnil
    rw [List.map_eq_nil_iff.1 hnil] at hv
    cases hv

theorem Positive.div_total {shares : InsertionMap κ K} (h : Positive shares) :
    Positive (shares.mapVal fun _ s => s / total shares) := by
  intro e he
  obtain ⟨e', he', rfl⟩ := List.mem_map.1 he
  exact div_pos (h e' he') (total_pos h (mem_keys_of_mem he'))

end Total

/-- Shares split by a test and put together again under other values. -/
theorem mem_keys_rejoin {κ ν : Type*} [DecidableEq κ] {shares : InsertionMap κ ν}
    {p : κ → ν → Bool} {f g : κ → ν → ν} {k : κ} :
    k ∈ (((shares.filter p).mapVal f).setAll
      ((shares.filter fun k v => !p k v).mapVal g).entries).keys ↔ k ∈ shares.keys := by
  rw [mem_keys_setAll, keys_mapVal]
  change _ ∨ k ∈ ((shares.filter fun k v => !p k v).mapVal g).keys ↔ _
  rw [keys_mapVal, mem_keys_filter_or]

/-- An optional step that keeps the keys. -/
theorem mem_keys_elim {κ ν : Type*} {o : Option ν} {f : InsertionMap κ ν → ν → InsertionMap κ ν}
    {k : κ} (hf : ∀ m a, k ∈ (f m a).keys ↔ k ∈ m.keys) {m : InsertionMap κ ν} :
    k ∈ (o.elim m (f m)).keys ↔ k ∈ m.keys := by
  cases o with
  | none => exact .rfl
  | some a => exact hf m a

section Steps

variable {κ : Type*} {shares : InsertionMap κ K}

theorem finalNormalize_keys [IsStrictOrderedRing K] (h : Positive shares) {k : κ} :
    k ∈ (finalNormalize shares).keys ↔ k ∈ shares.keys := by
  unfold finalNormalize
  split
  · next hle =>
      constructor
      · intro hk
        cases hk
      · intro hk
        exact absurd (total_pos h hk) (not_lt.2 hle)
  · rw [keys_mapVal]

theorem finalNormalize_positive [IsStrictOrderedRing K] (h : Positive shares) : Positive (finalNormalize shares) := by
  unfold finalNormalize
  split
  · exact fun e he => by cases he
  · exact h.div_total

variable [DecidableEq κ]

theorem applyMinimumFloor_keys {floor : K} {k : κ} :
    k ∈ (applyMinimumFloor shares floor).keys ↔ k ∈ shares.keys := by
  unfold applyMinimumFloor
  simp only
  split
  · rw [keys_mapVal]
  · exact mem_keys_rejoin

theorem applyMinimumFloor_positive [IsStrictOrderedRing K] {floor : K} (h : Positive shares) :
    Positive (applyMinimumFloor shares floor) := by
  unfold applyMinimumFloor
  simp only
  split
  · intro e he
    obtain ⟨e', he', rfl⟩ := List.mem_map.1 he
    have hsize : 0 < shares.size := List.length_pos_of_mem he'
    exact one_div_pos.2 (Nat.cast_pos.2 hsize)
  · next hlt =>
      have hboost : Positive ((shares.filter fun _ s => decide (s < floor)).mapVal
          fun _ s => floor - s) := by
        intro e he
        obtain ⟨e', he', rfl⟩ := List.mem_map.1 he
        exact sub_pos.2 (of_decide_eq_true (List.mem_filter.1 he').2)
      have habove := lt_of_le_of_lt (total_nonneg hboost) (not_le.1 hlt)
      have hscale := div_pos (sub_pos.2 (not_le.1 hlt)) habove
      refine AllVals.setAll ?_ ?_
      · intro e he
        obtain ⟨e', he', rfl⟩ := List.mem_map.1 he
        obtain ⟨hmem, hs⟩ := List.mem_filter.1 he'
        exact (h e' hmem).trans (of_decide_eq_true hs)
      · exact (h.filter _).mapVal fun _ s hs => mul_pos hs hscale

theorem capPasses_keys {cap : K} {n : ℕ} {k : κ} :
    k ∈ (capPasses cap n shares).keys ↔ k ∈ shares.keys := by
  induction n generalizing shares with
  | zero => rw [capPasses, keys_mapVal]
  | succ n ih =>
      unfold capPasses
      simp only
      split
      · exact .rfl
      · rw [ih]
        exact mem_keys_rejoin

theorem capPasses_positive [IsStrictOrderedRing K] {cap : K} (hcap : 0 < cap) {n : ℕ} (h : Positive shares) :
    Positive (capPasses cap n shares) := by
  induction n generalizing shares with
  | zero => exact h.mapVal fun _ s hs => lt_min hs hcap
  | succ n ih =>
      unfold capPasses
      simp only
      split
      · exact h
      · refine ih (AllVals.setAll (fun e he => ?_) ?_)
        · obtain ⟨e', _, rfl⟩ := List.mem_map.1 he
          exact hcap
        · refine (h.filter _).mapVal fun _ s hs => mul_pos hs ?_
          split
          · next hbelow =>
              have hexcess : Positive ((shares.filter fun _ s => decide (cap < s)).mapVal
                  fun _ s => s - cap) := by
                intro e he
                obtain ⟨e', he', rfl⟩ := List.mem_map.1 he
                exact sub_pos.2 (of_decide_eq_true (List.mem_filter.1 he').2)
              exact div_pos (add_pos_of_pos_of_nonneg hbelow (total_nonneg hexcess)) hbelow
          · exact one_pos

/-- A policy whose cap leaves everybody something. -/
def PolicyConstraints.CapPositive (constraints : PolicyConstraints K) : Prop :=
  ∀ cap, constraints.maximumShare = some cap → 0 < cap

theorem applyConstraints_keys {constraints : PolicyConstraints K} {k : κ} :
    k ∈ (applyConstraints shares constraints).keys ↔ ∃ s, (k, s) ∈ shares.entries ∧ 0 < s := by
  have hcontrib : k ∈ (shares.filter fun _ score => 0 < score).keys ↔
      ∃ s, (k, s) ∈ shares.entries ∧ 0 < s := by
    rw [mem_keys_filter]
    simp only [decide_eq_true_eq]
  rw [← hcontrib]
  unfold applyConstraints
  simp only
  split
  · next hsize =>
      have hnil : (shares.filter fun _ score => decide (0 < score)).entries = [] :=
        List.length_eq_zero_iff.1 hsize
      unfold InsertionMap.keys
      rw [hnil]
      rfl
  · rw [mem_keys_elim (f := applyMaximumCap) fun _ _ => capPasses_keys,
      mem_keys_elim (f := applyMinimumFloor) fun _ _ => applyMinimumFloor_keys, keys_mapVal]

theorem applyConstraints_positive [IsStrictOrderedRing K] {constraints : PolicyConstraints K}
    (hcap : constraints.CapPositive) : Positive (applyConstraints shares constraints) := by
  have hcontrib : Positive (shares.filter fun _ score => decide (0 < score)) := by
    intro e he
    exact of_decide_eq_true (List.mem_filter.1 he).2
  unfold applyConstraints
  simp only
  split
  · exact fun e he => by cases he
  · have hfloored : ∀ m : InsertionMap κ K, Positive m →
        Positive (constraints.minimumShare.elim m (applyMinimumFloor m)) := by
      intro m hm
      cases constraints.minimumShare with
      | none => exact hm
      | some floor => exact applyMinimumFloor_positive hm
    cases hmax : constraints.maximumShare with
    | none => exact hfloored _ hcontrib.div_total
    | some cap => exact capPasses_positive (hcap cap hmax) (hfloored _ hcontrib.div_total)

end Steps

section Creators

variable {shares : InsertionMap String K} {graph : GraphResponse}

theorem addShare_positive [IsStrictOrderedRing K] (h : Positive shares) {byCreator : InsertionMap String K}
    (hpos : Positive byCreator) {id : String} (hid : id ∈ shares.keys) :
    Positive (addShare shares graph byCreator id) := by
  unfold addShare
  cases nodeMap graph id with
  | none => exact hpos
  | some node =>
      obtain ⟨s, hs⟩ := exists_get? hid
      refine hpos.set _ (add_pos_of_nonneg_of_pos ?_ ?_)
      · cases hb : byCreator.get? (creatorOf node) with
        | none => exact le_rfl
        | some s => exact (hpos _ (get?_mem hb)).le
      · rw [hs]
        exact h _ (get?_mem hs)

omit [LinearOrder K] in
theorem addShare_keys {byCreator : InsertionMap String K} {id k : String} :
    k ∈ (addShare shares graph byCreator id).keys ↔
      k ∈ byCreator.keys ∨ ∃ node, nodeMap graph id = some node ∧ creatorOf node = k := by
  unfold addShare
  cases nodeMap graph id with
  | none => simp
  | some node => simp [mem_keys_set, eq_comm]

theorem foldl_addShare_positive [IsStrictOrderedRing K] (h : Positive shares) {ids : List String} :
    ∀ {byCreator : InsertionMap String K}, Positive byCreator → (∀ id ∈ ids, id ∈ shares.keys) →
      Positive (ids.foldl (addShare shares graph) byCreator) := by
  induction ids with
  | nil => exact fun hpos _ => hpos
  | cons id ids ih =>
      intro byCreator hpos hids
      exact ih (addShare_positive h hpos (hids id List.mem_cons_self)) fun i hi =>
        hids i (List.mem_cons_of_mem _ hi)

omit [LinearOrder K] in
theorem foldl_addShare_keys {ids : List String} {k : String} :
    ∀ {byCreator : InsertionMap String K}, k ∈ (ids.foldl (addShare shares graph) byCreator).keys ↔
      k ∈ byCreator.keys ∨
        ∃ id ∈ ids, ∃ node, nodeMap graph id = some node ∧ creatorOf node = k := by
  induction ids with
  | nil => simp
  | cons id ids ih =>
      intro byCreator
      rw [List.foldl_cons, ih, addShare_keys, or_assoc]
      simp only [List.exists_mem_cons_iff]

theorem aggregateByCreator_positive [IsStrictOrderedRing K] (h : Positive shares)
    (graph : GraphResponse) :
    Positive (aggregateByCreator shares graph) := by
  refine foldl_addShare_positive h (fun e he => ?_) fun _ hid => List.mem_mergeSort.1 hid
  cases he

omit [LinearOrder K] in
theorem aggregateByCreator_keys {k : String} :
    k ∈ (aggregateByCreator shares graph).keys ↔
      ∃ id ∈ shares.keys, ∃ node, nodeMap graph id = some node ∧ creatorOf node = k := by
  unfold aggregateByCreator
  rw [foldl_addShare_keys]
  simp only [List.mem_mergeSort]
  constructor
  · rintro (hk | hk)
    · cases hk
    · exact hk
  · exact .inr

/-- A floored creator has a share, and a larger floor. -/
theorem mem_flooredKeys {creatorFloors : InsertionMap String K} {k : String}
    (hk : k ∈ flooredKeys shares creatorFloors) :
    k ∈ shares.keys ∧ (shares.get? k).getD 0 < (creatorFloors.get? k).getD 0 := by
  unfold flooredKeys at hk
  rw [InsertionSet.mem_ofList] at hk
  obtain ⟨⟨k, floor⟩, he, rfl⟩ := List.mem_map.1 hk
  obtain ⟨hmem, htest⟩ := List.mem_filter.1 he
  obtain ⟨hhas, hlt⟩ := Bool.and_eq_true_iff.1 htest
  rw [get?_of_mem (List.mem_mergeSort.1 hmem)]
  exact ⟨InsertionMap.has_eq_true.1 hhas, of_decide_eq_true hlt⟩

theorem applyCreatorFloors_keys {creatorFloors : InsertionMap String K} {k : String} :
    k ∈ (applyCreatorFloors shares creatorFloors).keys ↔ k ∈ shares.keys := by
  unfold applyCreatorFloors
  simp only
  split
  · exact .rfl
  · split
    · exact .rfl
    · rw [mem_keys_setAll, mem_keys_setAll, List.map_map, List.map_map]
      constructor
      · rintro ((hk | hk) | hk)
        · exact hk
        · obtain ⟨k', hk', rfl⟩ := List.mem_map.1 hk
          exact (mem_flooredKeys (List.mem_mergeSort.1 hk')).1
        · obtain ⟨e, he, rfl⟩ := List.mem_map.1 hk
          have hkey : e.1 ∈ shares.keys :=
            mem_keys_of_mem (List.mem_filter.1 (List.mem_mergeSort.1 he)).1
          exact hkey
      · exact fun hk => .inl (.inl hk)

/-- Floored creators get their floor, and the others are scaled by a positive factor. -/
theorem applyCreatorFloors_positive [IsStrictOrderedRing K] (h : Positive shares) (creatorFloors : InsertionMap String K) :
    Positive (applyCreatorFloors shares creatorFloors) := by
  have hshare : ∀ k ∈ shares.keys, 0 < (shares.get? k).getD 0 := by
    intro k hk
    obtain ⟨s, hs⟩ := exists_get? hk
    rw [hs]
    exact h _ (get?_mem hs)
  unfold applyCreatorFloors
  simp only
  split
  · exact h
  · split
    · exact h
    · next hlt =>
        have hboost : 0 ≤ ((flooredKeys shares creatorFloors).map fun k =>
            (creatorFloors.get? k).getD 0 - (shares.get? k).getD 0).sum := by
          refine List.sum_nonneg fun x hx => ?_
          obtain ⟨k, hk, rfl⟩ := List.mem_map.1 hx
          exact (sub_pos.2 (mem_flooredKeys hk).2).le
        have htotal := lt_of_le_of_lt hboost (not_le.1 hlt)
        refine (h.setAll fun e he => ?_).setAll fun e he => ?_
        · obtain ⟨k, hk, rfl⟩ := List.mem_map.1 he
          obtain ⟨hkey, hfloor⟩ := mem_flooredKeys (List.mem_mergeSort.1 hk)
          exact (hshare k hkey).trans hfloor
        · obtain ⟨e', he', rfl⟩ := List.mem_map.1 he
          have hmem := (List.mem_filter.1 (List.mem_mergeSort.1 he')).1
          exact mul_pos (h e' hmem) (div_pos (sub_pos.2 (not_le.1 hlt)) htotal)

omit [LinearOrder K] in
theorem distributionFromMap_keys {k : String} :
    k ∈ (distributionFromMap shares).keys ↔ k ∈ shares.keys ∧ k ≠ "__proto__" := by
  have hloop : ∀ (ks : List String) (result : InsertionMap String K),
      k ∈ (ks.foldl (fun result k => result.set k ((shares.get? k).getD 0)) result).keys ↔
        k ∈ result.keys ∨ k ∈ ks := by
    intro ks
    induction ks with
    | nil => simp
    | cons k' ks ih =>
        intro result
        rw [List.foldl_cons, ih, mem_keys_set, List.mem_cons, or_assoc]
  unfold distributionFromMap
  rw [hloop, List.mem_filter, List.mem_mergeSort]
  constructor
  · rintro (hk | ⟨hk, hne⟩)
    · cases hk
    · exact ⟨hk, of_decide_eq_true hne⟩
  · rintro ⟨hk, hne⟩
    exact .inr ⟨hk, decide_eq_true hne⟩

end Creators

section Calculation

variable {pow : K → K → K} {graph : GraphResponse} {policy : PolicyDocument K}

/-- The scores by node id, when ids name one node each. -/
theorem rawScores_entries (hids : (graph.nodes.map (·.id)).Nodup) (txNode : GraphNode) :
    (rawScores pow graph policy txNode).entries =
      (identifyContributingNodes graph).map fun node =>
        (node.id, rawScore pow node graph policy txNode) := by
  have hset : rawScores pow graph policy txNode = (∅ : InsertionMap String K).setAll
      ((identifyContributingNodes graph).map fun node =>
        (node.id, rawScore pow node graph policy txNode)) := by
    unfold rawScores InsertionMap.setAll
    rw [List.foldl_map]
  have hnodup : ((identifyContributingNodes graph).map (·.id)).Nodup :=
    ((List.mergeSort_perm _ _).map _).nodup_iff.2 (hids.sublist (List.filter_sublist.map _))
  rw [hset, InsertionMap.entries_setAll]
  · rfl
  · rw [List.map_map]
    exact hnodup
  · intro k _ hk
    cases hk

/-- A valid policy, and the default one, leave everybody something unless the cap is 0. -/
theorem validatedPolicy_capPositive
    (hcap : ((validatedPolicy policy).constraints.getD {}).maximumShare ≠ some 0) :
    ((validatedPolicy policy).constraints.getD {}).CapPositive := by
  intro cap hmax
  unfold validatedPolicy at hcap hmax
  split at hmax
  · next hvalid =>
      rw [if_pos hvalid, hmax] at hcap
      cases hc : policy.constraints with
      | none => rw [hc] at hmax; cases hmax
      | some c =>
          rw [hc] at hmax
          have hgiven : cap ∈ c.given := by
            unfold PolicyConstraints.given
            simp only [Option.getD_some] at hmax
            simp [hmax]
          simp only [isValidPolicy, hc, Option.all_some, Bool.and_eq_true, List.all_eq_true] at hvalid
          have hnonneg : ¬cap < 0 := by simpa using hvalid.2.1 cap hgiven
          exact lt_of_le_of_ne (not_lt.1 hnonneg) fun h => hcap (by rw [← h])
  · cases hmax

/-- The creators in a distribution are those who have a contributing node with
a positive score. -/
theorem mem_keys_calculate [IsStrictOrderedRing K] (hids : (graph.nodes.map (·.id)).Nodup)
    (hcap : ((validatedPolicy policy).constraints.getD {}).maximumShare ≠ some 0)
    {txNode : GraphNode} (htx : graph.nodes.find? (·.eventType = .transaction) = some txNode)
    (sessionPolicyRecord : Option (SessionPolicyRecord K)) {k : String} :
    k ∈ (calculate pow graph policy sessionPolicyRecord).keys ↔
      k ≠ "__proto__" ∧ ∃ node ∈ identifyContributingNodes graph,
        creatorOf node = k ∧ 0 < rawScore pow node graph (validatedPolicy policy) txNode := by
  have hconstrained : Positive (applyConstraints
      (rawScores pow graph (validatedPolicy policy) txNode)
      ((validatedPolicy policy).constraints.getD {})) :=
    applyConstraints_positive (validatedPolicy_capPositive hcap)
  have hnormalized := finalNormalize_positive hconstrained
  have hfloored := applyCreatorFloors_positive (aggregateByCreator_positive hnormalized graph)
    ((sessionPolicyRecord.map (·.minimumFloors)).getD ∅)
  simp only [calculate, htx]
  rw [distributionFromMap_keys, finalNormalize_keys hfloored, applyCreatorFloors_keys,
    aggregateByCreator_keys, and_comm]
  refine and_congr_right fun _ => ?_
  simp only [finalNormalize_keys hconstrained, applyConstraints_keys, rawScores_entries hids,
    List.mem_map]
  constructor
  · rintro ⟨id, ⟨s, ⟨node, hnode, heq⟩, hs⟩, node', hnode', rfl⟩
    cases heq
    rw [(nodeMap_eq_some hids).2 ⟨mem_contributing hnode, rfl⟩] at hnode'
    cases hnode'
    exact ⟨node, hnode, rfl, hs⟩
  · rintro ⟨node, hnode, rfl, hs⟩
    exact ⟨node.id, ⟨_, ⟨node, hnode, rfl⟩, hs⟩, node,
      (nodeMap_eq_some hids).2 ⟨mem_contributing hnode, rfl⟩, rfl⟩

end Calculation

end Atrib.Verify
