import Atrib.Lib.Effect
import Atrib.Proofs.LineItemFlows
import Atrib.Verify.MandateConstraints

/-!
# Carts that match the line items of a mandate

A cart matches where its units can be divided among the requirements. A flow
that carries all that is required divides them, when no more is in the cart, and
units that are divided make such a flow. So the check of `checkout.line_items`
passes exactly where the requirements and the cart can be read and match.
-/

namespace Atrib.Verify

open Lib (InsertionMap JsValue)
open Lib.Flow (IsFlow IsMaxFlow)

/-! ## Matchings -/

/-- The units of the cart can be divided among the requirements: each unit goes to a requirement
that accepts its item, each requirement gets what it asks for, and no unit is left. -/
def Matches (requirements : List LineItemRequirement) (checkoutQuantities : InsertionMap String ℕ) :
    Prop :=
  ∃ units : ℕ → String → ℕ,
    (∀ i itemId, units i itemId ≠ 0 → ∃ r ∈ requirements[i]?, itemId ∈ r.acceptableIds) ∧
    (∀ i, ∀ r ∈ requirements[i]?,
      ∑ itemId ∈ checkoutQuantities.keys.toFinset, units i itemId = r.quantity) ∧
    ∀ item ∈ checkoutQuantities.entries,
      ∑ i ∈ Finset.range requirements.length, units i item.1 = item.2

/-- The units of an item in the cart. -/
def unitsOf (checkoutQuantities : InsertionMap String ℕ) (itemId : String) : ℕ :=
  (checkoutQuantities.get? itemId).getD 0

theorem unitsOf_of_mem {checkoutQuantities : InsertionMap String ℕ} {item : String × ℕ}
    (h : item ∈ checkoutQuantities.entries) : unitsOf checkoutQuantities item.1 = item.2 := by
  rw [unitsOf, InsertionMap.get?_of_mem h]
  rfl

theorem sum_unitsOf (checkoutQuantities : InsertionMap String ℕ) :
    ∑ itemId ∈ checkoutQuantities.keys.toFinset, unitsOf checkoutQuantities itemId =
      checkoutQuantity checkoutQuantities := by
  rw [InsertionMap.keys, List.sum_toFinset _ checkoutQuantities.nodup, checkoutQuantity,
    InsertionMap.values, List.map_map]
  exact congrArg List.sum (List.map_congr_left fun item hitem => unitsOf_of_mem hitem)

section

variable {requirements : List LineItemRequirement} {checkoutQuantities : InsertionMap String ℕ}

theorem quantityAt_eq {i : ℕ} {r : LineItemRequirement} (h : requirements[i]? = some r) :
    quantityAt requirements i = r.quantity := by
  rw [quantityAt, h]
  rfl

/-- A flow goes nowhere where there is no edge. -/
theorem eq_zero_of_no_edge {f : FlowNode → FlowNode → ℤ} {U : Finset FlowNode}
    (h : IsFlow U (network requirements checkoutQuantities) .source .sink f) {u v : FlowNode}
    (huv : network requirements checkoutQuantities u v = 0)
    (hvu : network requirements checkoutQuantities v u = 0) : f u v = 0 := by
  have hle := h.capacity u v
  have hge := h.capacity v u
  have hskew := h.skew u v
  omega

/-- A flow that carries all that is required, where no more is in the cart. -/
theorem matches_of_flow {f : FlowNode → FlowNode → ℤ}
    (h : IsFlow (networkNodes requirements checkoutQuantities)
      (network requirements checkoutQuantities) .source .sink f)
    (hvalue : Lib.Flow.value (networkNodes requirements checkoutQuantities) .source f =
      requiredQuantity requirements)
    (htotal : requiredQuantity requirements = checkoutQuantity checkoutQuantities) :
    Matches requirements checkoutQuantities := by
  -- the source is used up
  have hsource : ∀ i < requirements.length, f .source (.req i) = quantityAt requirements i := by
    have hsum : ∑ v ∈ networkNodes requirements checkoutQuantities, f .source v =
        ∑ v ∈ networkNodes requirements checkoutQuantities,
          network requirements checkoutQuantities .source v := by
      rw [sum_source]
      exact hvalue
    have hall := (Finset.sum_eq_sum_iff_of_le fun v _ => h.capacity .source v).1 hsum
    intro i hi
    exact hall (.req i) (mem_networkNodes.2 hi)
  have hpos : ∀ i itemId, 0 ≤ f (.req i) (.item itemId) := by
    intro i itemId
    have hback : f (.item itemId) (.req i) ≤ 0 := h.capacity _ _
    have hskew := h.skew (.req i) (.item itemId)
    omega
  have hrow : ∀ i < requirements.length, ∑ itemId ∈ checkoutQuantities.keys.toFinset,
      f (.req i) (.item itemId) = quantityAt requirements i := by
    intro i hi
    have hconserved := h.conserved (.req i) (mem_networkNodes.2 hi) nofun nofun
    rw [sum_networkNodes, h.skew (.req i) .source, hsource i hi,
      eq_zero_of_no_edge h (u := .req i) (v := .sink) rfl rfl,
      Finset.sum_eq_zero fun j _ => eq_zero_of_no_edge h (u := .req i) (v := .req j) rfl rfl]
      at hconserved
    omega
  have hcolumn : ∀ itemId ∈ checkoutQuantities.keys.toFinset,
      ∑ i ∈ Finset.range requirements.length, f (.req i) (.item itemId) =
        f (.item itemId) .sink := by
    intro itemId hitem
    have hconserved := h.conserved (.item itemId)
      (mem_networkNodes.2 (List.mem_toFinset.1 hitem)) nofun nofun
    rw [sum_networkNodes, eq_zero_of_no_edge h (u := .item itemId) (v := .source) rfl rfl,
      Finset.sum_eq_zero fun id _ => eq_zero_of_no_edge h (u := .item itemId) (v := .item id) rfl
        rfl] at hconserved
    have hskew : ∑ i ∈ Finset.range requirements.length, f (.item itemId) (.req i) =
        -∑ i ∈ Finset.range requirements.length, f (.req i) (.item itemId) := by
      rw [← Finset.sum_neg_distrib]
      exact Finset.sum_congr rfl fun i _ => h.skew _ _
    omega
  -- the cart is used up
  have hfull : ∀ itemId ∈ checkoutQuantities.keys.toFinset,
      f (.item itemId) .sink = unitsOf checkoutQuantities itemId := by
    refine (Finset.sum_eq_sum_iff_of_le fun itemId _ => h.capacity (.item itemId) .sink).1 ?_
    have hunits : ∑ itemId ∈ checkoutQuantities.keys.toFinset,
        network requirements checkoutQuantities (.item itemId) .sink =
          (checkoutQuantity checkoutQuantities : ℤ) := by
      rw [← sum_unitsOf]
      push_cast
      rfl
    rw [hunits, ← htotal, ← sum_quantityAt, ← Finset.sum_congr rfl hcolumn, Finset.sum_comm]
    exact Finset.sum_congr rfl fun i hi => hrow i (Finset.mem_range.1 hi)
  refine ⟨fun i itemId => (f (.req i) (.item itemId)).toNat, fun i itemId hne => ?_,
    fun i r hr => ?_, fun item hitem => ?_⟩
  · have hcapacity : f (.req i) (.item itemId) ≤
        network requirements checkoutQuantities (.req i) (.item itemId) := h.capacity _ _
    simp only [network] at hcapacity
    by_contra hnot
    rw [if_neg fun hok => hnot hok.2] at hcapacity
    exact hne (Int.toNat_of_nonpos hcapacity)
  · have hi : i < requirements.length := (List.getElem?_eq_some_iff.1 hr).1
    have hcast : ((∑ itemId ∈ checkoutQuantities.keys.toFinset,
        (f (.req i) (.item itemId)).toNat : ℕ) : ℤ) = r.quantity := by
      rw [← quantityAt_eq hr, ← hrow i hi]
      push_cast
      exact Finset.sum_congr rfl fun itemId _ => Int.toNat_of_nonneg (hpos i itemId)
    exact_mod_cast hcast
  · have hmem : item.1 ∈ checkoutQuantities.keys.toFinset :=
      List.mem_toFinset.2 (InsertionMap.mem_keys_of_mem hitem)
    have hcast : ((∑ i ∈ Finset.range requirements.length,
        (f (.req i) (.item item.1)).toNat : ℕ) : ℤ) = item.2 := by
      rw [← unitsOf_of_mem hitem, ← hfull _ hmem, ← hcolumn _ hmem]
      push_cast
      exact Finset.sum_congr rfl fun i _ => Int.toNat_of_nonneg (hpos i item.1)
    exact_mod_cast hcast

/-- The flow of a matching. -/
def flowOf (requirements : List LineItemRequirement) (checkoutQuantities : InsertionMap String ℕ)
    (units : ℕ → String → ℕ) : FlowNode → FlowNode → ℤ
  | .source, .req i => quantityAt requirements i
  | .req i, .source => -quantityAt requirements i
  | .req i, .item itemId => if checkoutQuantities.has itemId then units i itemId else 0
  | .item itemId, .req i => if checkoutQuantities.has itemId then -units i itemId else 0
  | .item itemId, .sink => unitsOf checkoutQuantities itemId
  | .sink, .item itemId => -unitsOf checkoutQuantities itemId
  | _, _ => 0

theorem quantityAt_nonneg (i : ℕ) : 0 ≤ quantityAt requirements i := by
  unfold quantityAt
  cases requirements[i]? with
  | none => exact le_refl 0
  | some r => exact Int.natCast_nonneg r.quantity

theorem isFlow_flowOf {units : ℕ → String → ℕ}
    (hsafe : ∀ r ∈ requirements, r.quantity ≤ MAX_SAFE_INTEGER)
    (haccepted : ∀ i itemId, units i itemId ≠ 0 → ∃ r ∈ requirements[i]?, itemId ∈ r.acceptableIds)
    (hrow : ∀ i, ∀ r ∈ requirements[i]?,
      ∑ itemId ∈ checkoutQuantities.keys.toFinset, units i itemId = r.quantity)
    (hcolumn : ∀ item ∈ checkoutQuantities.entries,
      ∑ i ∈ Finset.range requirements.length, units i item.1 = item.2) :
    IsFlow (networkNodes requirements checkoutQuantities)
      (network requirements checkoutQuantities) .source .sink
        (flowOf requirements checkoutQuantities units) := by
  refine ⟨fun u v => ?_, fun u v => ?_, fun u hu hsource hsink => ?_⟩
  · cases u <;> cases v <;> simp only [flowOf, neg_neg, neg_zero]
    all_goals split <;> simp
  · -- a requirement takes no more units of an item than it asks for
    have hitem : ∀ i itemId, flowOf requirements checkoutQuantities units (.req i) (.item itemId) ≤
        network requirements checkoutQuantities (.req i) (.item itemId) := by
      intro i itemId
      simp only [flowOf, network]
      by_cases hhas : checkoutQuantities.has itemId = true
      · rw [if_pos hhas]
        by_cases hzero : units i itemId = 0
        · rw [hzero]
          split <;> exact Int.natCast_nonneg _
        · obtain ⟨r, hr, hmem⟩ := haccepted i itemId hzero
          rw [if_pos ⟨hhas, r, hr, hmem⟩]
          have hle : units i itemId ≤ r.quantity := by
            rw [← hrow i r hr]
            exact Finset.single_le_sum (f := units i) (fun _ _ => Nat.zero_le _)
              (List.mem_toFinset.2 (InsertionMap.has_eq_true.1 hhas))
          exact_mod_cast hle.trans (hsafe r (List.mem_of_getElem? hr))
      · rw [if_neg hhas, if_neg fun hok => hhas hok.1]
    cases u <;> cases v <;> first | exact hitem _ _ | skip
    all_goals simp only [flowOf, network, unitsOf, le_refl]
    · exact le_refl _
    · omega
    · next i => exact neg_nonpos.2 (quantityAt_nonneg i)
    · split <;> omega
  · cases u with
    | source => exact absurd rfl hsource
    | sink => exact absurd rfl hsink
    | req i =>
        obtain ⟨r, hr⟩ : ∃ r, requirements[i]? = some r :=
          ⟨_, List.getElem?_eq_getElem (mem_networkNodes.1 hu)⟩
        have hunits : ∑ itemId ∈ checkoutQuantities.keys.toFinset,
            flowOf requirements checkoutQuantities units (.req i) (.item itemId) = r.quantity := by
          rw [← hrow i r hr]
          push_cast
          refine Finset.sum_congr rfl fun itemId hitem => ?_
          exact if_pos (InsertionMap.has_eq_true.2 (List.mem_toFinset.1 hitem))
        rw [sum_networkNodes, hunits]
        simp only [flowOf, quantityAt_eq hr, Finset.sum_const_zero]
        ring
    | item itemId =>
        have hkey : itemId ∈ checkoutQuantities.keys := mem_networkNodes.1 hu
        obtain ⟨quantity, hmem⟩ := InsertionMap.mem_keys.1 hkey
        have hunits : ∑ i ∈ Finset.range requirements.length,
            flowOf requirements checkoutQuantities units (.item itemId) (.req i) = -quantity := by
          have hsum := hcolumn _ hmem
          dsimp only at hsum
          rw [← hsum]
          push_cast
          rw [← Finset.sum_neg_distrib]
          exact Finset.sum_congr rfl fun i _ => if_pos (InsertionMap.has_eq_true.2 hkey)
        rw [sum_networkNodes, hunits]
        simp only [flowOf, unitsOf_of_mem hmem, Finset.sum_const_zero]
        ring

/-- Each unit of the cart is counted where it goes. -/
theorem Matches.total (h : Matches requirements checkoutQuantities) :
    requiredQuantity requirements = checkoutQuantity checkoutQuantities := by
  obtain ⟨units, -, hrow, hcolumn⟩ := h
  have hquantity : ((requiredQuantity requirements : ℕ) : ℤ) = checkoutQuantity checkoutQuantities := by
    rw [← sum_quantityAt, ← sum_unitsOf]
    push_cast
    have hleft : ∀ i ∈ Finset.range requirements.length, quantityAt requirements i =
        ∑ itemId ∈ checkoutQuantities.keys.toFinset, (units i itemId : ℤ) := by
      intro i hi
      obtain ⟨r, hr⟩ : ∃ r, requirements[i]? = some r :=
        ⟨_, List.getElem?_eq_getElem (Finset.mem_range.1 hi)⟩
      rw [quantityAt_eq hr, ← hrow i r hr]
      push_cast
      rfl
    have hright : ∀ itemId ∈ checkoutQuantities.keys.toFinset,
        (unitsOf checkoutQuantities itemId : ℤ) =
          ∑ i ∈ Finset.range requirements.length, (units i itemId : ℤ) := by
      intro itemId hitem
      obtain ⟨quantity, hmem⟩ := InsertionMap.mem_keys.1 (List.mem_toFinset.1 hitem)
      rw [unitsOf_of_mem hmem, ← hcolumn _ hmem]
      push_cast
      rfl
    rw [Finset.sum_congr rfl hleft, Finset.sum_congr rfl hright, Finset.sum_comm]
  exact_mod_cast hquantity

/-- All that is required flows, and as much is in the cart, exactly where its units match. -/
theorem matches_iff (hsafe : ∀ r ∈ requirements, r.quantity ≤ MAX_SAFE_INTEGER) :
    (maxLineItemFlow requirements checkoutQuantities = some (requiredQuantity requirements : ℤ) ∧
      requiredQuantity requirements = checkoutQuantity checkoutQuantities) ↔
        Matches requirements checkoutQuantities := by
  obtain ⟨m, hm, ⟨f, hf, hvalue⟩, hmax⟩ :=
    maxLineItemFlow_isMaxFlow requirements checkoutQuantities
  constructor
  · rintro ⟨hflow, htotal⟩
    rw [hm, Option.some_inj] at hflow
    exact matches_of_flow hf (hvalue.trans hflow) htotal
  · intro h
    refine ⟨?_, h.total⟩
    obtain ⟨units, haccepted, hrow, hcolumn⟩ := h
    have hunits := isFlow_flowOf hsafe haccepted hrow hcolumn
    have hfull : Lib.Flow.value (networkNodes requirements checkoutQuantities) .source
        (flowOf requirements checkoutQuantities units) = requiredQuantity requirements := by
      rw [Lib.Flow.value, sum_networkNodes, ← sum_quantityAt]
      simp only [flowOf, Finset.sum_const_zero, add_zero, zero_add]
    have hle : m ≤ requiredQuantity requirements := by
      rw [← hvalue, ← sum_source requirements checkoutQuantities]
      exact Finset.sum_le_sum fun v _ => hf.capacity .source v
    have hge := hmax _ hunits
    rw [hm]
    exact congrArg some (le_antisymm hle (hfull ▸ hge))

end

/-! ## The check -/

/-- A constraint and a cart that can be read. -/
structure LineItemsRead (constraint : JsonRecord) (checkoutPayload : Option JsonRecord)
    (requirements : List LineItemRequirement) (checkoutQuantities : InsertionMap String ℕ) :
    Prop where
  cart : ∃ payload, checkoutPayload = some payload ∧
    checkoutLineItemQuantities payload = some checkoutQuantities
  items : ∃ items, (constraint.field "items").array? = some items ∧
    items.mapM lineItemRequirement = .ok requirements

theorem le_of_safeQuantityOf {value : JsValue} {quantity : ℕ}
    (h : safeQuantityOf value = some quantity) : quantity ≤ MAX_SAFE_INTEGER := by
  unfold safeQuantityOf at h
  split at h
  · exact Lib.JsNumber.safeIndex?_le h
  · cases h

theorem le_of_lineItemRequirement {item : JsValue} {requirement : LineItemRequirement}
    (h : lineItemRequirement item = .ok requirement) : requirement.quantity ≤ MAX_SAFE_INTEGER := by
  unfold lineItemRequirement at h
  split at h
  · cases h
  · split at h
    · cases h
    · next hquantity =>
        split at h
        · cases h
        · split at h
          · cases h
          · cases h
            exact le_of_safeQuantityOf hquantity

theorem LineItemsRead.safe {constraint : JsonRecord} {checkoutPayload : Option JsonRecord}
    {requirements : List LineItemRequirement} {checkoutQuantities : InsertionMap String ℕ}
    (h : LineItemsRead constraint checkoutPayload requirements checkoutQuantities) :
    ∀ r ∈ requirements, r.quantity ≤ MAX_SAFE_INTEGER := by
  intro r hr
  obtain ⟨items, -, hitems⟩ := h.items
  obtain ⟨item, -, hitem⟩ := Lib.mem_of_mapM hitems hr
  exact le_of_lineItemRequirement hitem

theorem evaluateLineItems_passed {constraint : JsonRecord} {checkoutPayload : Option JsonRecord} :
    (evaluateLineItems constraint checkoutPayload).status = .passed ↔
      ∃ requirements checkoutQuantities,
        LineItemsRead constraint checkoutPayload requirements checkoutQuantities ∧
          Matches requirements checkoutQuantities := by
  constructor
  · intro h
    unfold evaluateLineItems at h
    split at h
    · cases h
    · next payload =>
        split at h
        · next checkoutQuantities items hquantities hitems =>
            split at h
            · cases h
            · next requirements hrequirements =>
                split at h
                · cases h
                · next hfull =>
                    have hread : LineItemsRead constraint (some payload) requirements
                        checkoutQuantities :=
                      ⟨⟨payload, rfl, hquantities⟩, items, hitems, hrequirements⟩
                    push Not at hfull
                    exact ⟨requirements, checkoutQuantities, hread,
                      (matches_iff hread.safe).1 hfull⟩
        · cases h
  · rintro ⟨requirements, checkoutQuantities, hread, hmatches⟩
    obtain ⟨hflow, htotal⟩ := (matches_iff hread.safe).2 hmatches
    obtain ⟨⟨payload, rfl, hquantities⟩, items, hitems, hrequirements⟩ := hread
    simp only [evaluateLineItems, hquantities, hitems, hrequirements]
    rw [if_neg fun hor => hor.elim (fun hne => hne hflow) fun hne => hne htotal]
    rfl

/-- A constraint on line items passes where it and the cart can be read and match, and the flow
that is found for any requirements and any cart is the greatest. -/
theorem line_items_exact (constraint : JsonRecord) (checkoutPayload : Option JsonRecord)
    (closedPaymentMandates : List JsonRecord)
    (htype : constraintType constraint = "checkout.line_items") :
    ((evaluateCheckoutConstraint constraint checkoutPayload closedPaymentMandates).status =
        .passed ↔
      ∃ requirements checkoutQuantities,
        LineItemsRead constraint checkoutPayload requirements checkoutQuantities ∧
          Matches requirements checkoutQuantities) ∧
    ∀ requirements checkoutQuantities,
      ∃ m, maxLineItemFlow requirements checkoutQuantities = some m ∧
        IsMaxFlow (networkNodes requirements checkoutQuantities)
          (network requirements checkoutQuantities) .source .sink m := by
  refine ⟨?_, maxLineItemFlow_isMaxFlow⟩
  have hcheck : evaluateCheckoutConstraint constraint checkoutPayload closedPaymentMandates =
      evaluateLineItems constraint checkoutPayload := by
    rw [evaluateCheckoutConstraint, htype, if_neg (by decide), if_pos rfl]
  rw [hcheck]
  exact evaluateLineItems_passed

namespace CartSample

/-- One of two shoes is asked for. -/
def constraint : JsonRecord :=
  [("type", .string "mandate.checkout.line_items"),
    ("items", .array [.object [("quantity", .number (.finite 1)),
      ("acceptable_items", .array [.object [("id", .string "gold")],
        .object [("id", .string "silver")]])]])]

def payload : JsonRecord :=
  [("line_items", .array [.object [("id", .string "silver"), ("quantity", .number (.finite 1))]])]

end CartSample

open CartSample in
theorem line_items_exact_cart :
    (evaluateCheckoutConstraint constraint (some payload) []).status = .passed := by
  have htype : constraintType constraint = "checkout.line_items" := by decide +kernel
  refine ((line_items_exact constraint (some payload) [] htype).1).2
    ⟨[⟨1, ["gold", "silver"], by decide⟩], ⟨[("silver", 1)], by decide⟩,
      ⟨⟨payload, rfl, by decide +kernel⟩, _, rfl, by with_unfolding_all rfl⟩,
      fun i id => if i = 0 ∧ id = "silver" then 1 else 0, fun i id hne => ?_, ?_, by decide⟩
  · obtain ⟨rfl, rfl⟩ := (ite_ne_right_iff.1 hne).1
    exact ⟨_, rfl, by decide⟩
  · rintro (- | i) r hr
    · cases hr
      decide
    · cases hr

end Atrib.Verify
