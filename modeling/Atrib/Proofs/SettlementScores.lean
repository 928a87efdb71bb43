import Atrib.Proofs.SettlementShares
import Mathlib.Tactic.Ring

/-!
# Scores and the transaction they are measured from

Temporal decay is measured from one transaction, the first in the list of
nodes. Another transaction gives a node a score that differs by a factor which
is the same for all nodes, unless the node is younger than one of the two and
not than the other: then one of its scores is zero.
-/

namespace Atrib.Verify

/-! ## Scores -/

section MaxWeight

variable {K : Type*} [LinearOrder K]

/-- One step of the loop for the largest weight. -/
theorem maxWeight_step (m : Option K) (w : K) :
    (if m.all (· < w) then some w else m) = some (m.elim w (max · w)) := by
  cases m with
  | none => rfl
  | some v =>
      simp only [Option.all_some, decide_eq_true_eq, Option.elim_some]
      split
      · next h => rw [max_eq_right h.le]
      · next h => rw [max_eq_left (not_lt.1 h)]

theorem maxWeight_perm {ws ws' : List K} (h : ws.Perm ws') : maxWeight ws = maxWeight ws' := by
  unfold maxWeight
  refine h.foldl_eq' (fun x _ y _ m => ?_) none
  simp only [maxWeight_step, Option.elim_some]
  cases m with
  | none => simp only [Option.elim_none, max_comm]
  | some v => simp only [Option.elim_some, max_right_comm]

end MaxWeight

variable {K : Type*} [Field K] [LinearOrder K]

theorem Permuted.baseWeight_eq {graph graph' : GraphResponse} (h : Permuted graph graph')
    (node : GraphNode) (policy : PolicyDocument K) :
    baseWeight node graph policy = baseWeight node graph' policy := by
  have hmax : ∀ weight : EdgeType → K,
      maxWeight ((collectEdgeTypesToTransaction node.id graph).map weight) =
        maxWeight ((collectEdgeTypesToTransaction node.id graph').map weight) := fun _ =>
    maxWeight_perm ((h.perm_collectEdgeTypes node.id).map _)
  simp only [baseWeight, hmax]

theorem Permuted.rawScore_eq {graph graph' : GraphResponse} (h : Permuted graph graph')
    (pow : K → K → K) (node : GraphNode) (policy : PolicyDocument K) (txNode : GraphNode) :
    rawScore pow node graph policy txNode = rawScore pow node graph' policy txNode := by
  have hstep : ∀ score (modifier : Modifier K),
      applyModifier pow modifier score node graph txNode =
        applyModifier pow modifier score node graph' txNode := by
    intro score modifier
    cases modifier with
    | temporalDecay _ => rfl
    | chainDepthPenalty _ => simp only [applyModifier, h.shortestChainPath_eq]
    | callCountBoost _ _ => simp only [applyModifier, h.countNodesWithSameContentId_eq]
    | unknown _ => rfl
  unfold rawScore
  simp only [h.baseWeight_eq, hstep]

/-- The modifiers whose factor depends on the transaction. A half-life of 0
takes the score away whatever the transaction is. -/
def Modifier.decays : Modifier K → Bool
  | .temporalDecay halfLifeMs => decide (halfLifeMs ≠ 0)
  | _ => false

/-- The policy without decay. -/
def undecayed (policy : PolicyDocument K) : PolicyDocument K :=
  { policy with modifiers := some ((policy.modifiers.getD []).filter fun m => !m.decays) }

/-- What `Math.pow(2, ·)` is in exact arithmetic. -/
structure IsExp2 (pow : K → K → K) : Prop where
  add : ∀ a b, pow 2 (a + b) = pow 2 a * pow 2 b
  pos : ∀ a, 0 < pow 2 a

/-- The factor a time takes off a score, for an exponential function. -/
def Modifier.decay (exp : K → K) (deltaMs : ℤ) : Modifier K → K
  | .temporalDecay halfLifeMs =>
      if halfLifeMs = 0 then 1 else exp (-((deltaMs : K) / halfLifeMs))
  | _ => 1

/-- The factors of all modifiers, multiplied. -/
def decayOver (exp : K → K) (modifiers : List (Modifier K)) (deltaMs : ℤ) : K :=
  (modifiers.map fun m => m.decay exp deltaMs).prod

theorem decayOver_cons (exp : K → K) (m : Modifier K) (ms : List (Modifier K)) (deltaMs : ℤ) :
    decayOver exp (m :: ms) deltaMs = m.decay exp deltaMs * decayOver exp ms deltaMs := by
  rw [decayOver, List.map_cons, List.prod_cons]
  rfl

theorem Modifier.decay_eq_one {exp : K → K} {m : Modifier K} (h : m.decays = false)
    (deltaMs : ℤ) : m.decay exp deltaMs = 1 := by
  cases m with
  | temporalDecay halfLifeMs =>
      have hz : halfLifeMs = 0 := by simpa [Modifier.decays] using h
      exact if_pos hz
  | chainDepthPenalty _ => rfl
  | callCountBoost _ _ => rfl
  | unknown _ => rfl

section Scores

variable {pow : K → K → K} {node : GraphNode} {graph : GraphResponse} {txNode : GraphNode}

theorem applyModifier_mul (modifier : Modifier K) (score c : K) :
    applyModifier pow modifier (score * c) node graph txNode =
      applyModifier pow modifier score node graph txNode * c := by
  cases modifier with
  | temporalDecay h =>
      simp only [applyModifier]
      split
      · rw [zero_mul]
      · split
        · rw [zero_mul]
        · rw [mul_right_comm]
  | chainDepthPenalty p => simp only [applyModifier, mul_right_comm]
  | callCountBoost m c => simp only [applyModifier, mul_right_comm]
  | unknown t => rfl

/-- The score after a list of modifiers. -/
def applyModifiers (pow : K → K → K) (modifiers : List (Modifier K)) (score : K)
    (node : GraphNode) (graph : GraphResponse) (txNode : GraphNode) : K :=
  modifiers.foldl (fun score modifier => applyModifier pow modifier score node graph txNode) score

theorem applyModifiers_mul (modifiers : List (Modifier K)) (score c : K) :
    applyModifiers pow modifiers (score * c) node graph txNode =
      applyModifiers pow modifiers score node graph txNode * c := by
  unfold applyModifiers
  induction modifiers generalizing score with
  | nil => rfl
  | cons m ms ih => rw [List.foldl_cons, List.foldl_cons, applyModifier_mul, ih]

theorem applyModifiers_zero (modifiers : List (Modifier K)) :
    applyModifiers pow modifiers 0 node graph txNode = 0 := by
  rw [← mul_zero (0 : K), applyModifiers_mul, mul_zero, mul_zero]

/-- A decaying modifier scales the score of a node no younger than the transaction. -/
theorem applyModifier_of_decays (hle : node.timestamp ≤ txNode.timestamp) {m : Modifier K}
    (hm : m.decays = true) (score : K) :
    applyModifier pow m score node graph txNode =
      score * m.decay (pow 2) (txNode.timestamp - node.timestamp) := by
  cases m with
  | temporalDecay halfLifeMs =>
      have hz : halfLifeMs ≠ 0 := by simpa [Modifier.decays] using hm
      simp only [applyModifier, Modifier.decay]
      rw [if_neg (by omega), if_neg hz, if_neg hz]
  | chainDepthPenalty _ => cases hm
  | callCountBoost _ _ => cases hm
  | unknown _ => cases hm

/-- Such a node has its undecayed score, times the decay over its age. -/
theorem applyModifiers_of_le (hle : node.timestamp ≤ txNode.timestamp)
    (modifiers : List (Modifier K)) (score : K) :
    applyModifiers pow modifiers score node graph txNode =
      applyModifiers pow (modifiers.filter fun m => !m.decays) score node graph txNode *
        decayOver (pow 2) modifiers (txNode.timestamp - node.timestamp) := by
  induction modifiers generalizing score with
  | nil => exact (mul_one score).symm
  | cons m ms ih =>
      have hcons : applyModifiers pow (m :: ms) score node graph txNode =
          applyModifiers pow ms (applyModifier pow m score node graph txNode) node graph txNode :=
        rfl
      rw [hcons, ih, decayOver_cons]
      cases hm : m.decays with
      | true =>
          rw [List.filter_cons_of_neg (by simp [hm]), applyModifier_of_decays hle hm,
            applyModifiers_mul, mul_assoc]
      | false =>
          rw [List.filter_cons_of_pos (by simp [hm]), Modifier.decay_eq_one hm, one_mul]
          rfl

/-- A node younger than the transaction has no score, if there is decay. -/
theorem applyModifiers_of_lt (hlt : txNode.timestamp < node.timestamp)
    {modifiers : List (Modifier K)} (hdecay : ∃ m ∈ modifiers, m.decays = true) (score : K) :
    applyModifiers pow modifiers score node graph txNode = 0 := by
  obtain ⟨m, hm, hd⟩ := hdecay
  obtain ⟨before, after, rfl⟩ := List.append_of_mem hm
  have hstep : ∀ score, applyModifier pow m score node graph txNode = 0 := by
    intro score
    cases m with
    | temporalDecay h =>
        simp only [applyModifier]
        rw [if_pos (by omega)]
    | chainDepthPenalty p => cases hd
    | callCountBoost a b => cases hd
    | unknown t => cases hd
  unfold applyModifiers
  rw [List.foldl_append, List.foldl_cons, hstep]
  exact applyModifiers_zero after

/-- Without decay the transaction does not matter. -/
theorem applyModifiers_undecayed (x y : GraphNode) {modifiers : List (Modifier K)}
    (h : ∀ m ∈ modifiers, m.decays = false) (score : K) :
    applyModifiers pow modifiers score node graph x =
      applyModifiers pow modifiers score node graph y := by
  have hstep : ∀ m : Modifier K, m.decays = false → ∀ score,
      applyModifier pow m score node graph x = applyModifier pow m score node graph y := by
    intro m hm score
    cases m with
    | temporalDecay h =>
        have hz : h = 0 := by simpa [Modifier.decays] using hm
        simp only [applyModifier, hz, if_true, ite_self]
    | chainDepthPenalty p => rfl
    | callCountBoost a b => rfl
    | unknown t => rfl
  induction modifiers generalizing score with
  | nil => rfl
  | cons m ms ih =>
      have hm := hstep m (h m List.mem_cons_self) score
      have ih' := ih (fun m' hm' => h m' (List.mem_cons_of_mem _ hm'))
      simp only [applyModifiers, List.foldl_cons] at ih' ⊢
      rw [hm, ih']

end Scores

/-- A negative score counts as none. -/
def clamp (score : K) : K := if score < 0 then 0 else score

theorem rawScore_eq_clamp {pow : K → K → K} {graph : GraphResponse} (node txNode : GraphNode) (policy : PolicyDocument K) :
    rawScore pow node graph policy txNode =
      clamp (applyModifiers pow (policy.modifiers.getD []) (baseWeight node graph policy) node graph
        txNode) := rfl

theorem rawScore_undecayed {pow : K → K → K} {graph : GraphResponse}
    {policy : PolicyDocument K} (node x y : GraphNode) :
    rawScore pow node graph (undecayed policy) x = rawScore pow node graph (undecayed policy) y := by
  rw [rawScore_eq_clamp, rawScore_eq_clamp]
  congr 1
  refine applyModifiers_undecayed x y ?_ _
  intro m hm
  have hm' := (List.mem_filter.1 hm).2
  simpa using hm'

theorem rawScore_nonneg {pow : K → K → K} {graph : GraphResponse} (node txNode : GraphNode) (policy : PolicyDocument K) :
    0 ≤ rawScore pow node graph policy txNode := by
  rw [rawScore_eq_clamp]
  unfold clamp
  split
  · exact le_rfl
  · next h => exact not_lt.1 h

variable [IsStrictOrderedRing K]

theorem Modifier.decay_pos {pow : K → K → K} (hpow : IsExp2 pow) (m : Modifier K) (deltaMs : ℤ) :
    0 < m.decay (pow 2) deltaMs := by
  cases m with
  | temporalDecay halfLifeMs =>
      simp only [Modifier.decay]
      split
      · exact one_pos
      · exact hpow.pos _
  | chainDepthPenalty _ => exact one_pos
  | callCountBoost _ _ => exact one_pos
  | unknown _ => exact one_pos

theorem decayOver_pos {pow : K → K → K} (hpow : IsExp2 pow) (modifiers : List (Modifier K))
    (deltaMs : ℤ) : 0 < decayOver (pow 2) modifiers deltaMs := by
  induction modifiers with
  | nil => exact one_pos
  | cons m ms ih =>
      rw [decayOver_cons]
      exact mul_pos (m.decay_pos hpow _) ih

theorem Modifier.decay_add {pow : K → K → K} (hpow : IsExp2 pow) (m : Modifier K) (a b : ℤ) :
    m.decay (pow 2) (a + b) = m.decay (pow 2) a * m.decay (pow 2) b := by
  cases m with
  | temporalDecay halfLifeMs =>
      simp only [Modifier.decay]
      split
      · exact (mul_one 1).symm
      · rw [← hpow.add]
        congr 1
        push_cast
        ring
  | chainDepthPenalty _ => exact (mul_one 1).symm
  | callCountBoost _ _ => exact (mul_one 1).symm
  | unknown _ => exact (mul_one 1).symm

theorem decayOver_add {pow : K → K → K} (hpow : IsExp2 pow) (modifiers : List (Modifier K))
    (a b : ℤ) :
    decayOver (pow 2) modifiers (a + b) = decayOver (pow 2) modifiers a * decayOver (pow 2) modifiers b := by
  induction modifiers with
  | nil => exact (mul_one 1).symm
  | cons m ms ih => rw [decayOver_cons, decayOver_cons, decayOver_cons, ih, m.decay_add hpow,
      mul_mul_mul_comm]

/-! ### The reference transaction -/

theorem clamp_mul {c : K} (hc : 0 < c) (score : K) : clamp (score * c) = clamp score * c := by
  unfold clamp
  rcases lt_or_ge score 0 with h | h
  · rw [if_pos h, if_pos (mul_neg_of_neg_of_pos h hc), zero_mul]
  · rw [if_neg (not_lt.2 h), if_neg (not_lt.2 (mul_nonneg h hc.le))]

/-- With decay in force, a contributing node whose score without decay is not
zero is no younger than any transaction, or younger than all of them. -/
def OneSided (pow : K → K → K) (graph : GraphResponse) (policy : PolicyDocument K) : Prop :=
  (∃ m ∈ policy.modifiers.getD [], m.decays = true) →
    ∀ node ∈ identifyContributingNodes graph, ∀ x ∈ graph.nodes, ∀ y ∈ graph.nodes,
      x.eventType = .transaction → y.eventType = .transaction →
      0 < rawScore pow node graph (undecayed policy) x →
        node.timestamp ≤ x.timestamp → node.timestamp ≤ y.timestamp

section Reference

variable {pow : K → K → K} {graph : GraphResponse} {policy : PolicyDocument K}

/-- A score is the undecayed one times the decay, or nothing for a node that is too young. -/
theorem rawScore_eq (hpow : IsExp2 pow)
    (hdecay : ∃ m ∈ policy.modifiers.getD [], m.decays = true) (node txNode : GraphNode) :
    rawScore pow node graph policy txNode =
      if node.timestamp ≤ txNode.timestamp then
        rawScore pow node graph (undecayed policy) txNode *
          decayOver (pow 2) (policy.modifiers.getD []) (txNode.timestamp - node.timestamp)
      else 0 := by
  rw [rawScore_eq_clamp, rawScore_eq_clamp]
  split
  · next hle =>
      rw [applyModifiers_of_le hle, clamp_mul (decayOver_pos hpow _ _)]
      rfl
  · next hlt =>
      rw [applyModifiers_of_lt (not_le.1 hlt) hdecay]
      exact if_neg (lt_irrefl 0)

/-- From one transaction to another the score of a node that does not stand
between them changes by a factor that is the same for all nodes. -/
theorem rawScore_between (hpow : IsExp2 pow) {node x y : GraphNode}
    (hside : (∃ m ∈ policy.modifiers.getD [], m.decays = true) →
      0 < rawScore pow node graph (undecayed policy) x →
        (node.timestamp ≤ x.timestamp ↔ node.timestamp ≤ y.timestamp)) :
    rawScore pow node graph policy y =
      rawScore pow node graph policy x *
        decayOver (pow 2) (policy.modifiers.getD []) (y.timestamp - x.timestamp) := by
  by_cases hdecay : ∃ m ∈ policy.modifiers.getD [], m.decays = true
  · rw [rawScore_eq hpow hdecay, rawScore_eq hpow hdecay, rawScore_undecayed node y x]
    have hnonneg : 0 ≤ rawScore pow node graph (undecayed policy) x := rawScore_nonneg node x _
    rcases hnonneg.eq_or_lt with hz | hpos
    · simp only [← hz, zero_mul, ite_self]
    · have hxy := hside hdecay hpos
      by_cases hle : node.timestamp ≤ x.timestamp
      · rw [if_pos hle, if_pos (hxy.1 hle), mul_assoc, ← decayOver_add hpow]
        congr 2
        omega
      · rw [if_neg hle, if_neg fun h => hle (hxy.2 h), zero_mul]
  · have hnone : ∀ m ∈ policy.modifiers.getD [], m.decays = false := by
      intro m hm
      by_contra hd
      exact hdecay ⟨m, hm, by simpa using hd⟩
    have hfactor : decayOver (pow 2) (policy.modifiers.getD []) (y.timestamp - x.timestamp) = 1 := by
      refine List.prod_eq_one fun c hc => ?_
      obtain ⟨m, hm, rfl⟩ := List.mem_map.1 hc
      exact Modifier.decay_eq_one (hnone m hm) _
    rw [hfactor, mul_one, rawScore_eq_clamp, rawScore_eq_clamp,
      applyModifiers_undecayed y x hnone]

/-- From one transaction to another all scores change by the same factor. -/
theorem rawScore_scaled (hpow : IsExp2 pow) (hone : OneSided pow graph policy)
    {node x y : GraphNode} (hnode : node ∈ identifyContributingNodes graph)
    (hx : x ∈ graph.nodes) (hy : y ∈ graph.nodes) (htx : x.eventType = .transaction)
    (hty : y.eventType = .transaction) :
    rawScore pow node graph policy y =
      rawScore pow node graph policy x *
        decayOver (pow 2) (policy.modifiers.getD []) (y.timestamp - x.timestamp) := by
  refine rawScore_between hpow fun hdecay hpos => ⟨?_, ?_⟩
  · exact hone hdecay node hnode x hx y hy htx hty hpos
  · rw [rawScore_undecayed node x y] at hpos
    exact hone hdecay node hnode y hy x hx hty htx hpos

end Reference

end Atrib.Verify
