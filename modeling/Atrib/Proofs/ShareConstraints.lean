import Atrib.Proofs.SettlementShares
import Mathlib.Tactic.FieldSimp
import Mathlib.Tactic.Linarith
import Mathlib.Tactic.LinearCombination
import Mathlib.Tactic.Ring

/-!
# What a floor and a cap promise

A floor lifts the shares below it and scales the others down to pay for it, and
creator floors do the same for creators. A cap lowers the shares above it and
scales the others up. The sum stays 1 in all three. But what is scaled may end
on the wrong side: the floor and the creator floors look only once, so they hold
just when no other share is scaled below its own bound.

The cap looks again, as often as there are shares and once more. It is no use:
the shares that stand at the cap are scaled up with the rest, so a pass that finds
a share above the cap leaves one above it and one at it, and so does every
pass after it. The cap holds just when the first pass is enough.
-/

namespace Atrib.Verify

open Lib (InsertionMap InsertionSet.mem_ofList InsertionSet.nodup_ofList)
open Lib.InsertionMap (AllVals mem_keys mem_keys_of_mem keys_mapVal get?_mem get?_of_mem
  mem_keys_filter mapVal_self entries_rejoin setAll_eq_mapVal)

/-! ## Sums -/

section Sums

variable {κ K : Type*} [Field K] {shares : InsertionMap κ K}

theorem total_mapVal_const (c : K) : total (shares.mapVal fun _ _ => c) = shares.size * c := by
  simp [total, InsertionMap.values, InsertionMap.mapVal, InsertionMap.size, Function.comp_def]

theorem total_mapVal_sub (f g : κ → K → K) :
    total (shares.mapVal fun k s => f k s - g k s) =
      total (shares.mapVal f) - total (shares.mapVal g) := by
  simp only [total, InsertionMap.values, InsertionMap.mapVal, List.map_map]
  induction shares.entries with
  | nil => simp
  | cons e es ih =>
      simp only [List.map_cons, List.sum_cons, ih, Function.comp_apply]
      ring

theorem total_of_perm {other : InsertionMap κ K} (h : other.entries.Perm shares.entries) :
    total other = total shares := (h.map Prod.snd).sum_eq

theorem total_ite (p : κ → K → Bool) (f g : κ → K → K) :
    total (shares.mapVal fun k s => if p k s then f k s else g k s) =
      total ((shares.filter p).mapVal f) + total ((shares.filter fun k s => !p k s).mapVal g) := by
  simp only [total, InsertionMap.values, InsertionMap.mapVal, InsertionMap.filter, List.map_map]
  induction shares.entries with
  | nil => simp
  | cons e es ih =>
      rw [List.map_cons, List.sum_cons, ih]
      cases hp : p e.1 e.2
      · simp only [List.filter_cons, hp, Function.comp_apply, Bool.not_false, if_true, if_false,
          Bool.false_eq_true, List.map_cons, List.sum_cons]
        ring
      · simp only [List.filter_cons, hp, Function.comp_apply, Bool.not_true, if_true, if_false,
          Bool.false_eq_true, List.map_cons, List.sum_cons]
        ring

theorem total_split (p : κ → K → Bool) :
    total (shares.filter p) + total (shares.filter fun k s => !p k s) = total shares := by
  have h := @total_ite _ _ _ shares p (fun _ s => s) fun _ s => s
  simp only [ite_self, mapVal_self] at h
  exact h.symm

end Sums

variable {K : Type*} [Field K] [LinearOrder K]

/-! ## Distributions -/

section Distributions

variable {κ : Type*} {shares : InsertionMap κ K}

/-- No share is negative, and they sum to 1. -/
structure IsDistribution (shares : InsertionMap κ K) : Prop where
  nonneg : shares.AllVals (0 ≤ ·)
  total_eq_one : total shares = 1

/-- Those who have a share. -/
def contributors (shares : InsertionMap κ K) : InsertionMap κ K :=
  shares.filter fun _ score => 0 < score

theorem contributors_positive : Positive (contributors shares) := fun _ he =>
  of_decide_eq_true (List.mem_filter.1 he).2

theorem IsDistribution.total_contributors (h : IsDistribution shares) :
    total (contributors shares) = 1 := by
  have hrest : total (shares.filter fun _ s => !decide (0 < s)) = 0 := by
    refine List.sum_eq_zero fun s hs => ?_
    obtain ⟨e, he, rfl⟩ := List.mem_map.1 hs
    obtain ⟨hmem, hnot⟩ := List.mem_filter.1 he
    exact le_antisymm (not_lt.1 (by simpa using hnot)) (h.nonneg e hmem)
  have hsplit := @total_split _ _ _ shares fun _ s => decide (0 < s)
  rw [hrest, add_zero, h.total_eq_one] at hsplit
  exact hsplit

omit [LinearOrder K] in
theorem size_ne_zero (h : total shares = 1) : shares.size ≠ 0 := by
  intro hsize
  have hnil := List.length_eq_zero_iff.1 hsize
  rw [total, InsertionMap.values, hnil] at h
  exact zero_ne_one h

variable [IsStrictOrderedRing K]

theorem finalNormalize_of_total (h : total shares = 1) : finalNormalize shares = shares := by
  rw [finalNormalize, if_neg (by rw [h]; exact not_le.2 one_pos), h]
  simp only [div_one]
  exact mapVal_self shares

omit [IsStrictOrderedRing K] in
theorem IsDistribution.applyConstraints [DecidableEq κ] (h : IsDistribution shares)
    (constraints : PolicyConstraints K) :
    applyConstraints shares constraints =
      let floored := constraints.minimumShare.elim (contributors shares)
        (applyMinimumFloor (contributors shares))
      constraints.maximumShare.elim floored (applyMaximumCap floored) := by
  have hdiv : ((contributors shares).mapVal fun _ s => s / total (contributors shares)) =
      contributors shares := by
    rw [h.total_contributors]
    simp only [div_one]
    exact mapVal_self _
  show (if (contributors shares).size = 0 then _ else _) = _
  rw [if_neg (size_ne_zero h.total_contributors)]
  simp only
  rw [show (shares.filter fun _ score => decide (0 < score)) = contributors shares from rfl, hdiv]

end Distributions

/-! ## The floor -/

section Floor

variable [IsStrictOrderedRing K] {κ : Type*} {shares : InsertionMap κ K} {floor : K}

/-- What is left for the shares above the floor is enough for each of them. -/
def FloorAffordable (shares : InsertionMap κ K) (floor : K) : Prop :=
  let below := shares.filter fun _ s => s < floor
  let above := shares.filter fun _ s => !decide (s < floor)
  ∀ e ∈ above.entries, floor * total above ≤ e.2 * (1 - floor * below.size)

omit [IsStrictOrderedRing K] in
theorem total_boost (hsum : total shares = 1) :
    total ((shares.filter fun _ s => decide (s < floor)).mapVal fun _ s => floor - s) =
      floor * (shares.filter fun _ s => decide (s < floor)).size -
        (1 - total (shares.filter fun _ s => !decide (s < floor))) := by
  have hsplit := @total_split _ _ _ shares fun _ s => decide (s < floor)
  have hsub := @total_mapVal_sub _ _ _ (shares.filter fun _ s => decide (s < floor))
    (fun _ _ => floor) fun _ s => s
  rw [hsub, total_mapVal_const, mapVal_self]
  rw [hsum] at hsplit
  linear_combination -hsplit

theorem boosts_positive : Positive ((shares.filter fun _ s => decide (s < floor)).mapVal
    fun _ s => floor - s) := by
  intro e he
  obtain ⟨e', he', rfl⟩ := List.mem_map.1 he
  exact sub_pos.2 (of_decide_eq_true (List.mem_filter.1 he').2)

/-- A floor that is not too high for all together leaves something to scale. -/
theorem boost_lt_above (hpos : Positive shares) (hsum : total shares = 1)
    (hfloor : floor * shares.size ≤ 1) :
    total ((shares.filter fun _ s => decide (s < floor)).mapVal fun _ s => floor - s) <
      total (shares.filter fun _ s => !decide (s < floor)) := by
  have hboost := @total_boost _ _ _ _ shares floor hsum
  have hsizes : shares.size = (shares.filter fun _ s => decide (s < floor)).size +
      (shares.filter fun _ s => !decide (s < floor)).size :=
    List.length_eq_length_filter_add _
  rcases Nat.eq_zero_or_pos (shares.filter fun _ s => decide (s < floor)).size with hnone | hsome
  · rw [hboost, hnone, Nat.cast_zero, mul_zero]
    linarith
  · obtain ⟨e, he⟩ := List.exists_mem_of_length_pos hsome
    obtain ⟨hmem, hlt⟩ := List.mem_filter.1 he
    have hfloorPos : 0 < floor := (hpos e hmem).trans (of_decide_eq_true hlt)
    have hboostPos := total_pos boosts_positive (mem_keys_of_mem (List.mem_map_of_mem he))
    rw [hsizes, Nat.cast_add, mul_add] at hfloor
    rw [hboost] at hboostPos ⊢
    rcases Nat.eq_zero_or_pos (shares.filter fun _ s => !decide (s < floor)).size with hzero | hone
    · -- all are below the floor, so the floors together are more than there is
      have habove : total (shares.filter fun _ s => !decide (s < floor)) = 0 := by
        rw [total, InsertionMap.values, List.length_eq_zero_iff.1 hzero]
        rfl
      rw [hzero, Nat.cast_zero, mul_zero, add_zero] at hfloor
      rw [habove] at hboostPos
      linarith
    · have hone : (1 : K) ≤ (shares.filter fun _ s => !decide (s < floor)).size :=
        Nat.one_le_cast.2 hone
      have hmul := mul_le_mul_of_nonneg_left hone hfloorPos.le
      linarith

/-- The shares below the floor at the floor, and the others scaled to what is left. -/
theorem applyMinimumFloor_perm [DecidableEq κ] (hpos : Positive shares) (hsum : total shares = 1)
    (hfloor : floor * shares.size ≤ 1) :
    let above := shares.filter fun _ s => !decide (s < floor)
    let scale := (1 - floor * (shares.filter fun _ s => decide (s < floor)).size) / total above
    0 < total above ∧ (applyMinimumFloor shares floor).entries.Perm
      (shares.mapVal fun _ s => if decide (s < floor) then floor else s * scale).entries := by
  intro above scale
  have hlt := boost_lt_above hpos hsum hfloor
  have hscale : (total above - total ((shares.filter fun _ s => decide (s < floor)).mapVal
      fun _ s => floor - s)) / total above = scale := by
    rw [total_boost hsum]
    ring
  refine ⟨lt_of_le_of_lt (total_nonneg boosts_positive) hlt, ?_⟩
  rw [applyMinimumFloor]
  simp only
  rw [if_neg (not_le.2 hlt), hscale]
  exact entries_rejoin shares (fun _ s => decide (s < floor)) (fun _ _ => floor)
    fun _ s => s * scale

theorem total_applyMinimumFloor [DecidableEq κ] (hpos : Positive shares) (hsum : total shares = 1)
    (hfloor : floor * shares.size ≤ 1) : total (applyMinimumFloor shares floor) = 1 := by
  obtain ⟨habove, hperm⟩ := applyMinimumFloor_perm hpos hsum hfloor
  rw [total_of_perm hperm, total_ite (fun _ s => decide (s < floor)), total_mapVal_const,
    total_mapVal_mul, mul_div_cancel₀ _ habove.ne']
  ring

/-- A floor that all together can have holds just when those above it can pay for it. -/
theorem minimumShare_iff [DecidableEq κ] (h : IsDistribution shares)
    {constraints : PolicyConstraints K} (hmin : constraints.minimumShare = some floor)
    (hmax : constraints.maximumShare = none)
    (hfloor : floor * (contributors shares).size ≤ 1) :
    let result := finalNormalize (applyConstraints shares constraints)
    total result = 1 ∧ (∀ k, k ∈ result.keys ↔ k ∈ (contributors shares).keys) ∧
      ((∀ e ∈ result.entries, floor ≤ e.2) ↔ FloorAffordable (contributors shares) floor) := by
  intro result
  have hsum := total_applyMinimumFloor contributors_positive h.total_contributors hfloor
  have hresult : result = applyMinimumFloor (contributors shares) floor := by
    show finalNormalize _ = _
    rw [h.applyConstraints, hmin, hmax]
    exact finalNormalize_of_total hsum
  obtain ⟨habove, hperm⟩ :=
    applyMinimumFloor_perm contributors_positive h.total_contributors hfloor
  rw [hresult]
  refine ⟨hsum, fun k => applyMinimumFloor_keys, ?_⟩
  constructor
  · intro hall e he
    obtain ⟨hmem, hnot⟩ := List.mem_filter.1 he
    have hscaled := hall _ (hperm.mem_iff.2 (List.mem_map_of_mem hmem))
    simp only at hscaled
    rw [if_neg (by simpa using hnot), ← mul_div_assoc, le_div_iff₀ habove] at hscaled
    exact hscaled
  · intro haffordable e he
    obtain ⟨e', he', rfl⟩ := List.mem_map.1 (hperm.mem_iff.1 he)
    simp only
    by_cases hlt : e'.2 < floor
    · rw [if_pos (decide_eq_true hlt)]
    · rw [if_neg (by simpa using hlt), ← mul_div_assoc, le_div_iff₀ habove]
      exact haffordable e' (List.mem_filter.2 ⟨he', by simpa using hlt⟩)

end Floor

namespace FloorSample

/-- One share is below 3/10, and another just above. -/
def shares : InsertionMap String ℚ := ⟨[("a", 1/20), ("b", 31/100), ("c", 16/25)], by decide⟩

/-- The same for two, where the other can pay. -/
def pair : InsertionMap String ℚ := ⟨[("a", 1/20), ("b", 19/20)], by decide⟩

def constraints : PolicyConstraints ℚ := { minimumShare := some (3/10) }

/-- The share below the floor gets it, and the other one pays. -/
example : (finalNormalize (applyConstraints pair constraints)).entries =
    [("a", 3/10), ("b", 7/10)] := by decide +kernel

theorem isDistribution_shares : IsDistribution shares :=
  ⟨by unfold AllVals; decide +kernel, by decide +kernel⟩

theorem isDistribution_pair : IsDistribution pair :=
  ⟨by unfold AllVals; decide +kernel, by decide +kernel⟩

theorem minimumShare_pair :
    (3/10 : ℚ) * (contributors pair).size ≤ 1 ∧
      ∀ e ∈ (finalNormalize (applyConstraints pair constraints)).entries, (3/10 : ℚ) ≤ e.2 :=
  ⟨by decide +kernel, (minimumShare_iff isDistribution_pair rfl rfl (by decide +kernel)).2.2.2 (by
    unfold FloorAffordable
    decide +kernel)⟩

/-- Three shares with a floor of 3/10 each, one of which ends below it. -/
theorem floor_missed :
    IsDistribution shares ∧ (3/10 : ℚ) * (contributors shares).size ≤ 1 ∧
      ∃ e ∈ (finalNormalize (applyConstraints shares constraints)).entries, e.2 < 3/10 :=
  ⟨isDistribution_shares, by decide +kernel, by decide +kernel⟩

end FloorSample

/-! ## The cap -/

section Cap

variable [IsStrictOrderedRing K] {κ : Type*} [DecidableEq κ] {shares : InsertionMap κ K} {cap : K}

/-- What the shares above the cap leave is not too much for any of the others. -/
def CapAffordable (shares : InsertionMap κ K) (cap : K) : Prop :=
  let above := shares.filter fun _ s => cap < s
  let below := shares.filter fun _ s => !decide (cap < s)
  ∀ e ∈ below.entries, e.2 * (1 - cap * above.size) ≤ cap * total below

/-- The shares as one pass leaves them. -/
def capPass (cap : K) (shares : InsertionMap κ K) : InsertionMap κ K :=
  let above := shares.filter fun _ s => cap < s
  let below := shares.filter fun _ s => !decide (cap < s)
  let excess := total (above.mapVal fun _ s => s - cap)
  let scale := if 0 < total below then (total below + excess) / total below else 1
  (above.mapVal fun _ _ => cap).setAll (below.mapVal fun _ s => s * scale).entries

omit [IsStrictOrderedRing K] in
theorem capPasses_of_above {n : ℕ} {e : κ × K} (he : e ∈ shares.entries) (habove : cap < e.2) :
    capPasses cap (n + 1) shares = capPasses cap n (capPass cap shares) := by
  have hsize : (shares.filter fun _ s => decide (cap < s)).size ≠ 0 :=
    List.ne_nil_of_mem (List.mem_filter.2 ⟨he, decide_eq_true habove⟩) ∘ List.length_eq_zero_iff.1
  rw [capPasses]
  simp only
  rw [if_neg hsize]
  rfl

omit [IsStrictOrderedRing K] in
theorem capPasses_of_not_above {n : ℕ} (h : ∀ e ∈ shares.entries, e.2 ≤ cap) :
    capPasses cap (n + 1) shares = shares := by
  have hsize : (shares.filter fun _ s => decide (cap < s)).size = 0 := by
    refine List.length_eq_zero_iff.2 (List.filter_eq_nil_iff.2 fun e he => ?_)
    simpa using h e he
  rw [capPasses]
  simp only
  rw [if_pos hsize]

omit [IsStrictOrderedRing K] [DecidableEq κ] in
theorem total_excess (hsum : total shares = 1) :
    total ((shares.filter fun _ s => decide (cap < s)).mapVal fun _ s => s - cap) =
      1 - cap * (shares.filter fun _ s => decide (cap < s)).size -
        total (shares.filter fun _ s => !decide (cap < s)) := by
  have hsplit := @total_split _ _ _ shares fun _ s => decide (cap < s)
  have hsub := @total_mapVal_sub _ _ _ (shares.filter fun _ s => decide (cap < s))
    (fun _ s => s) fun _ _ => cap
  rw [hsub, total_mapVal_const, mapVal_self]
  rw [hsum] at hsplit
  linear_combination hsplit

omit [DecidableEq κ] in
theorem excesses_positive : Positive ((shares.filter fun _ s => decide (cap < s)).mapVal
    fun _ s => s - cap) := by
  intro e he
  obtain ⟨e', he', rfl⟩ := List.mem_map.1 he
  exact sub_pos.2 (of_decide_eq_true (List.mem_filter.1 he').2)

omit [DecidableEq κ] in
/-- When the caps together are enough for all, not every share is above the cap. -/
theorem below_pos (hpos : Positive shares) (hsum : total shares = 1)
    (hcap : 1 ≤ cap * shares.size) :
    0 < total (shares.filter fun _ s => !decide (cap < s)) := by
  have hsizes : shares.size = (shares.filter fun _ s => decide (cap < s)).size +
      (shares.filter fun _ s => !decide (cap < s)).size :=
    List.length_eq_length_filter_add _
  rcases Nat.eq_zero_or_pos (shares.filter fun _ s => !decide (cap < s)).size with hnone | hsome
  · exfalso
    have habove : total (shares.filter fun _ s => !decide (cap < s)) = 0 := by
      rw [total, InsertionMap.values, List.length_eq_zero_iff.1 hnone]
      rfl
    have hexcess := @total_excess _ _ _ _ shares cap hsum
    rw [hnone, add_zero] at hsizes
    obtain ⟨e, he⟩ := List.exists_mem_of_length_pos
      (Nat.pos_of_ne_zero (hsizes ▸ size_ne_zero hsum))
    have hexcessPos := total_pos excesses_positive (mem_keys_of_mem (List.mem_map_of_mem he))
    rw [hexcess, habove, ← hsizes] at hexcessPos
    linarith
  · obtain ⟨e, he⟩ := List.exists_mem_of_length_pos hsome
    exact total_pos (hpos.filter _) (mem_keys_of_mem he)

/-- The shares above the cap at the cap, and the others scaled to what is left. -/
theorem capPass_perm (hpos : Positive shares) (hsum : total shares = 1)
    (hcap : 1 ≤ cap * shares.size) :
    let below := shares.filter fun _ s => !decide (cap < s)
    let scale := (1 - cap * (shares.filter fun _ s => decide (cap < s)).size) / total below
    (capPass cap shares).entries.Perm
      (shares.mapVal fun _ s => if decide (cap < s) then cap else s * scale).entries := by
  intro below scale
  have hscale : (total below + total ((shares.filter fun _ s => decide (cap < s)).mapVal
      fun _ s => s - cap)) / total below = scale := by
    rw [total_excess hsum]
    ring
  rw [capPass, if_pos (below_pos hpos hsum hcap), hscale]
  exact entries_rejoin shares (fun _ s => decide (cap < s)) (fun _ _ => cap) fun _ s => s * scale

theorem total_capPass (hpos : Positive shares) (hsum : total shares = 1)
    (hcap : 1 ≤ cap * shares.size) : total (capPass cap shares) = 1 := by
  rw [total_of_perm (capPass_perm hpos hsum hcap), total_ite (fun _ s => decide (cap < s)),
    total_mapVal_const, total_mapVal_mul, mul_div_cancel₀ _ (below_pos hpos hsum hcap).ne']
  ring

theorem capPass_le_iff (hpos : Positive shares) (hsum : total shares = 1)
    (hcap : 1 ≤ cap * shares.size) :
    (∀ e ∈ (capPass cap shares).entries, e.2 ≤ cap) ↔ CapAffordable shares cap := by
  have hperm := capPass_perm hpos hsum hcap
  have hbelow := below_pos hpos hsum hcap
  constructor
  · intro hall e he
    obtain ⟨hmem, hnot⟩ := List.mem_filter.1 he
    have hscaled := hall _ (hperm.mem_iff.2 (List.mem_map_of_mem hmem))
    simp only at hscaled
    rw [if_neg (by simpa using hnot), ← mul_div_assoc, div_le_iff₀ hbelow] at hscaled
    exact hscaled
  · intro haffordable e he
    obtain ⟨e', he', rfl⟩ := List.mem_map.1 (hperm.mem_iff.1 he)
    simp only
    by_cases hlt : cap < e'.2
    · rw [if_pos (decide_eq_true hlt)]
    · rw [if_neg (by simpa using hlt), ← mul_div_assoc, div_le_iff₀ hbelow]
      exact haffordable e' (List.mem_filter.2 ⟨he', by simpa using hlt⟩)

/-- What every pass starts from. -/
structure Balanced (cap : K) (shares : InsertionMap κ K) : Prop where
  positive : Positive shares
  total_eq_one : total shares = 1
  enough : 1 ≤ cap * shares.size

omit [DecidableEq κ] in
theorem Balanced.cap_pos (h : Balanced cap shares) : 0 < cap := by
  by_contra hle
  have hnonpos := mul_nonpos_of_nonpos_of_nonneg (not_lt.1 hle) (Nat.cast_nonneg' shares.size)
  linarith [h.enough]

theorem Balanced.capPass (h : Balanced cap shares) : Balanced cap (capPass cap shares) where
  positive := by
    have hperm := capPass_perm h.positive h.total_eq_one h.enough
    have hbelow := below_pos h.positive h.total_eq_one h.enough
    intro e he
    obtain ⟨e', he', rfl⟩ := List.mem_map.1 (hperm.mem_iff.1 he)
    simp only
    split
    · exact h.cap_pos
    · refine mul_pos (h.positive e' he') (div_pos ?_ hbelow)
      have hexcess := @total_excess _ _ _ _ _ cap h.total_eq_one
      have hnonneg := total_nonneg (@excesses_positive _ _ _ _ _ shares cap)
      linarith
  total_eq_one := total_capPass h.positive h.total_eq_one h.enough
  enough := by
    have hsize : (Verify.capPass cap shares).size = shares.size :=
      (capPass_perm h.positive h.total_eq_one h.enough).length_eq.trans (List.length_map _)
    rw [hsize]
    exact h.enough

/-- A share is above the cap, and another stands at it. -/
structure Stuck (cap : K) (shares : InsertionMap κ K) : Prop where
  above : ∃ e ∈ shares.entries, cap < e.2
  capped : ∃ e ∈ shares.entries, e.2 = cap

/-- The share at the cap is scaled above it, and the one above it is put at it. -/
theorem Stuck.capPass (h : Stuck cap shares) (hb : Balanced cap shares) :
    Stuck cap (capPass cap shares) := by
  obtain ⟨⟨high, hhigh, habove⟩, low, hlow, hcapped⟩ := h
  have hperm := capPass_perm hb.positive hb.total_eq_one hb.enough
  have hbelow := below_pos hb.positive hb.total_eq_one hb.enough
  constructor
  · refine ⟨_, hperm.mem_iff.2 (List.mem_map_of_mem hlow), ?_⟩
    simp only
    have hexcess := @total_excess _ _ _ _ _ cap hb.total_eq_one
    have hexcessPos := total_pos excesses_positive (mem_keys_of_mem (List.mem_map_of_mem
      (List.mem_filter.2 ⟨hhigh, decide_eq_true habove⟩)))
    rw [if_neg (by simp [hcapped]), hcapped, lt_mul_iff_one_lt_right hb.cap_pos,
      lt_div_iff₀ hbelow]
    linarith
  · refine ⟨_, hperm.mem_iff.2 (List.mem_map_of_mem hhigh), ?_⟩
    simp only
    rw [if_pos (decide_eq_true habove)]

/-- Stuck shares stay so to the end, where they are cut off at the cap. -/
theorem Stuck.capPasses {n : ℕ} (h : Stuck cap shares) (hb : Balanced cap shares) :
    total (capPasses cap n shares) < 1 ∧ ∃ e ∈ (capPasses cap n shares).entries, e.2 = cap := by
  induction n generalizing shares with
  | zero =>
      obtain ⟨⟨high, hhigh, habove⟩, low, hlow, hcapped⟩ := h
      refine ⟨?_, _, List.mem_map_of_mem hlow, min_eq_right hcapped.ge⟩
      rw [← hb.total_eq_one, total, total, InsertionMap.values, InsertionMap.values,
        Verify.capPasses, InsertionMap.mapVal, List.map_map]
      exact List.sum_lt_sum _ _ (fun e _ => min_le_left _ _)
        ⟨high, hhigh, min_lt_iff.2 (.inr habove)⟩
  | succ n ih =>
      obtain ⟨high, hhigh, habove⟩ := h.above
      rw [capPasses_of_above hhigh habove]
      exact ih (h.capPass hb) hb.capPass

omit [IsStrictOrderedRing K] [DecidableEq κ] in
theorem total_finalNormalize (h : 0 < total shares) : total (finalNormalize shares) = 1 := by
  rw [finalNormalize, if_neg (not_le.2 h)]
  simp only [div_eq_mul_inv]
  rw [total_mapVal_mul, mul_inv_cancel₀ h.ne']

/-- What stood at the cap is above it when the shares are scaled to a sum of 1. -/
theorem Stuck.exceeds {n : ℕ} (h : Stuck cap shares) (hb : Balanced cap shares) :
    ∃ e ∈ (finalNormalize (Verify.capPasses cap n shares)).entries, cap < e.2 := by
  obtain ⟨hlt, e, he, hcapped⟩ := h.capPasses (n := n) hb
  have hpos := total_pos (capPasses_positive hb.cap_pos hb.positive) (mem_keys_of_mem he)
  rw [finalNormalize, if_neg (not_le.2 hpos)]
  refine ⟨_, List.mem_map_of_mem he, ?_⟩
  simp only
  rw [hcapped, lt_div_iff₀ hpos]
  exact mul_lt_of_lt_one_right hb.cap_pos hlt

theorem applyMaximumCap_le_iff (hb : Balanced cap shares) :
    (∀ e ∈ (finalNormalize (applyMaximumCap shares cap)).entries, e.2 ≤ cap) ↔
      CapAffordable shares cap := by
  rw [applyMaximumCap]
  by_cases hle : ∀ e ∈ shares.entries, e.2 ≤ cap
  · rw [capPasses_of_not_above hle, finalNormalize_of_total hb.total_eq_one]
    refine iff_of_true hle fun e he => ?_
    have hnone : (shares.filter fun _ s => decide (cap < s)).entries = [] :=
      List.filter_eq_nil_iff.2 fun e he => by simpa using hle e he
    have hsplit := @total_split _ _ _ shares fun _ s => decide (cap < s)
    rw [hb.total_eq_one, total, InsertionMap.values, hnone, List.map_nil, List.sum_nil,
      zero_add] at hsplit
    rw [hsplit, InsertionMap.size, hnone, List.length_nil, Nat.cast_zero, mul_zero, sub_zero,
      mul_one, mul_one]
    exact hle e (List.mem_filter.1 he).1
  · push Not at hle
    obtain ⟨high, hhigh, habove⟩ := hle
    obtain ⟨n, hn⟩ := Nat.exists_eq_succ_of_ne_zero (size_ne_zero hb.total_eq_one)
    rw [← capPass_le_iff hb.positive hb.total_eq_one hb.enough, capPasses_of_above hhigh habove, hn]
    by_cases hpass : ∀ e ∈ (capPass cap shares).entries, e.2 ≤ cap
    · rw [capPasses_of_not_above hpass, finalNormalize_of_total hb.capPass.total_eq_one]
    · refine iff_of_false (fun hall => ?_) hpass
      push Not at hpass
      have hcapped := (capPass_perm hb.positive hb.total_eq_one hb.enough).mem_iff.2
        (List.mem_map_of_mem hhigh)
      simp only at hcapped
      rw [if_pos (decide_eq_true habove)] at hcapped
      obtain ⟨e, he, hlt⟩ := (Stuck.mk hpass ⟨_, hcapped, rfl⟩).exceeds (n := n + 1) hb.capPass
      exact absurd (hall e he) (not_le.2 hlt)

/-- A cap with room for all together holds just when one pass is enough. -/
theorem maximumShare_iff (h : IsDistribution shares) {constraints : PolicyConstraints K}
    (hmin : constraints.minimumShare = none) (hmax : constraints.maximumShare = some cap)
    (hcap : 1 ≤ cap * (contributors shares).size) :
    let result := finalNormalize (applyConstraints shares constraints)
    total result = 1 ∧ (∀ k, k ∈ result.keys ↔ k ∈ (contributors shares).keys) ∧
      ((∀ e ∈ result.entries, e.2 ≤ cap) ↔ CapAffordable (contributors shares) cap) := by
  intro result
  have hb : Balanced cap (contributors shares) :=
    ⟨contributors_positive, h.total_contributors, hcap⟩
  have hresult : result = finalNormalize (applyMaximumCap (contributors shares) cap) := by
    show finalNormalize _ = _
    rw [h.applyConstraints, hmin, hmax]
    rfl
  have hpos : Positive (applyMaximumCap (contributors shares) cap) :=
    capPasses_positive hb.cap_pos hb.positive
  have hkeys : ∀ k, k ∈ (applyMaximumCap (contributors shares) cap).keys ↔
      k ∈ (contributors shares).keys := fun k => capPasses_keys
  obtain ⟨e, he⟩ := List.exists_mem_of_length_pos
    (Nat.pos_of_ne_zero (size_ne_zero hb.total_eq_one))
  rw [hresult]
  exact ⟨total_finalNormalize (total_pos hpos ((hkeys _).2 (mem_keys_of_mem he))),
    fun k => (finalNormalize_keys hpos).trans (hkeys k), applyMaximumCap_le_iff hb⟩

end Cap

namespace CapSample

/-- The first share is above 2/5, and its excess lifts the second above it. -/
def shares : InsertionMap String ℚ := ⟨[("a", 3/5), ("b", 3/10), ("c", 1/10)], by decide⟩

/-- The excess of the first share leaves the others below 2/5. -/
def even : InsertionMap String ℚ := ⟨[("a", 1/2), ("b", 1/4), ("c", 1/4)], by decide⟩

def constraints : PolicyConstraints ℚ := { maximumShare := some (2/5) }

/-- The two others divide the excess. -/
example : (finalNormalize (applyConstraints even constraints)).entries =
    [("a", 2/5), ("b", 3/10), ("c", 3/10)] := by decide +kernel

theorem isDistribution_shares : IsDistribution shares :=
  ⟨by unfold AllVals; decide +kernel, by decide +kernel⟩

theorem isDistribution_even : IsDistribution even :=
  ⟨by unfold AllVals; decide +kernel, by decide +kernel⟩

theorem maximumShare_even :
    1 ≤ (2/5 : ℚ) * (contributors even).size ∧
      ∀ e ∈ (finalNormalize (applyConstraints even constraints)).entries, e.2 ≤ 2/5 :=
  ⟨by decide +kernel, (maximumShare_iff isDistribution_even rfl rfl (by decide +kernel)).2.2.2 (by
    unfold CapAffordable
    decide +kernel)⟩

/-- Three shares with a cap of 2/5 each, one of which ends above it. -/
theorem cap_exceeded :
    IsDistribution shares ∧ 1 ≤ (2/5 : ℚ) * (contributors shares).size ∧
      ∃ e ∈ (finalNormalize (applyConstraints shares constraints)).entries, 2/5 < e.2 :=
  ⟨isDistribution_shares, by decide +kernel, by decide +kernel⟩

end CapSample

/-! ## Creator floors -/

section CreatorFloors

variable {byCreator creatorFloors : InsertionMap String K}

/-- The creator has a floor that is above the share. -/
def isShort (creatorFloors : InsertionMap String K) (k : String) (s : K) : Bool :=
  (creatorFloors.get? k).any fun floor => decide (s < floor)

def floorOf (creatorFloors : InsertionMap String K) (k : String) : K :=
  (creatorFloors.get? k).getD 0

/-- Nobody is short, or the floors of those who are leave something, and enough for each of the
others with a floor. -/
def FloorsAffordable (byCreator creatorFloors : InsertionMap String K) : Prop :=
  let short := byCreator.filter (isShort creatorFloors)
  let others := byCreator.filter fun k s => !isShort creatorFloors k s
  let floors := total (short.mapVal fun k _ => floorOf creatorFloors k)
  short.size = 0 ∨ floors < 1 ∧ ∀ e ∈ others.entries, ∀ floor,
    creatorFloors.get? e.1 = some floor → floor * total others ≤ e.2 * (1 - floors)

theorem mem_flooredKeys_iff {k : String} :
    k ∈ flooredKeys byCreator creatorFloors ↔
      k ∈ (byCreator.filter (isShort creatorFloors)).keys := by
  rw [flooredKeys, InsertionSet.mem_ofList, mem_keys_filter]
  constructor
  · intro hk
    obtain ⟨⟨k, floor⟩, he, rfl⟩ := List.mem_map.1 hk
    obtain ⟨hmem, htest⟩ := List.mem_filter.1 he
    obtain ⟨hhas, hlt⟩ := Bool.and_eq_true_iff.1 htest
    obtain ⟨s, hs⟩ := mem_keys.1 (InsertionMap.has_eq_true.1 hhas)
    rw [get?_of_mem hs] at hlt
    refine ⟨s, hs, ?_⟩
    rw [isShort, get?_of_mem (List.mem_mergeSort.1 hmem)]
    exact hlt
  · rintro ⟨s, hs, hshort⟩
    obtain ⟨floor, hfloor, hlt⟩ := Option.any_eq_true _ _ |>.1 hshort
    refine List.mem_map.2 ⟨(k, floor), List.mem_filter.2
      ⟨List.mem_mergeSort.2 (get?_mem hfloor), Bool.and_eq_true_iff.2 ⟨?_, ?_⟩⟩, rfl⟩
    · exact InsertionMap.has_eq_true.2 (mem_keys.2 ⟨s, hs⟩)
    · simp only
      rw [get?_of_mem hs]
      exact hlt

theorem flooredKeys_perm : (flooredKeys byCreator creatorFloors).Perm
    (byCreator.filter (isShort creatorFloors)).keys :=
  (List.perm_ext_iff_of_nodup (InsertionSet.nodup_ofList _) (InsertionMap.nodup _)).2 fun _ =>
    mem_flooredKeys_iff

theorem not_mem_flooredKeys {e : String × K} (he : e ∈ byCreator.entries) :
    decide (e.1 ∉ flooredKeys byCreator creatorFloors) = !isShort creatorFloors e.1 e.2 := by
  cases hshort : isShort creatorFloors e.1 e.2
  · rw [Bool.not_false, decide_eq_true_iff, mem_flooredKeys_iff, mem_keys_filter]
    rintro ⟨s, hs, hshort'⟩
    have heq : (e.1, s) = e := List.inj_on_of_nodup_map byCreator.nodup hs he rfl
    rw [← heq] at hshort
    rw [hshort] at hshort'
    cases hshort'
  · rw [Bool.not_true, decide_eq_false_iff_not, not_not, mem_flooredKeys_iff, mem_keys_filter]
    exact ⟨e.2, he, hshort⟩

theorem filter_not_mem_flooredKeys :
    (byCreator.filter fun k _ => decide (k ∉ flooredKeys byCreator creatorFloors)) =
      byCreator.filter fun k s => !isShort creatorFloors k s := by
  ext1
  exact List.filter_congr fun e he => not_mem_flooredKeys he

theorem boost_eq (hsum : total byCreator = 1) :
    ((flooredKeys byCreator creatorFloors).map fun k =>
        floorOf creatorFloors k - (byCreator.get? k).getD 0).sum =
      total ((byCreator.filter (isShort creatorFloors)).mapVal fun k _ =>
          floorOf creatorFloors k) -
        (1 - total (byCreator.filter fun k s => !isShort creatorFloors k s)) := by
  have hsplit := @total_split _ _ _ byCreator (isShort creatorFloors)
  rw [hsum] at hsplit
  have hvalues : (byCreator.filter (isShort creatorFloors)).keys.map (fun k =>
        floorOf creatorFloors k - (byCreator.get? k).getD 0) =
      ((byCreator.filter (isShort creatorFloors)).mapVal fun k s =>
        floorOf creatorFloors k - s).values := by
    rw [InsertionMap.keys, InsertionMap.values, InsertionMap.mapVal, List.map_map, List.map_map]
    refine List.map_congr_left fun e he => ?_
    simp only [Function.comp_apply]
    rw [get?_of_mem (List.mem_filter.1 he).1, Option.getD_some]
  rw [(flooredKeys_perm.map _).sum_eq, hvalues, ← total,
    total_mapVal_sub (fun k _ => floorOf creatorFloors k) fun _ s => s, mapVal_self]
  linear_combination -hsplit

/-- What the step sets, key by key. -/
theorem setAll_floors (scale : K) :
    (byCreator.setAll
        (((flooredKeys byCreator creatorFloors).mergeSort fun a b => decide (a ≤ b)).map fun k =>
          (k, floorOf creatorFloors k))).setAll
        (((byCreator.filter fun k s => !isShort creatorFloors k s).entries.mergeSort
          fun a b => decide (a.1 ≤ b.1)).map fun e => (e.1, e.2 * scale)) =
      byCreator.mapVal fun k s =>
        if isShort creatorFloors k s then floorOf creatorFloors k else s * scale := by
  have hfloored := (List.mergeSort_perm (flooredKeys byCreator creatorFloors)
    fun a b => decide (a ≤ b)).trans flooredKeys_perm
  have hothers := (List.mergeSort_perm
    (byCreator.filter fun k s => !isShort creatorFloors k s).entries fun a b =>
      decide (a.1 ≤ b.1)).map Prod.fst
  have hsplit := (List.filter_append_perm (fun e : String × K =>
    isShort creatorFloors e.1 e.2) byCreator.entries).map Prod.fst
  rw [List.map_append] at hsplit
  have hkeys := (hfloored.append hothers).trans hsplit
  unfold InsertionMap.setAll
  rw [← List.foldl_append]
  refine setAll_eq_mapVal ?_ (fun e he => ?_) fun e he => ?_
  · rw [List.map_append, List.map_map, List.map_map]
    simp only [Function.comp_def, List.map_id']
    exact hkeys.nodup_iff.2 byCreator.nodup
  · rw [List.mem_append]
    cases hshort : isShort creatorFloors e.1 e.2
    · refine .inr (List.mem_map.2 ⟨e, List.mem_mergeSort.2 (List.mem_filter.2 ⟨he, ?_⟩), rfl⟩)
      simp only [hshort, Bool.not_false]
    · refine .inl (List.mem_map.2 ⟨e.1, hfloored.mem_iff.2 (mem_keys_of_mem
        (List.mem_filter.2 ⟨he, hshort⟩)), rfl⟩)
  · have hmem := List.mem_map_of_mem (f := Prod.fst) he
    rw [List.map_append, List.map_map, List.map_map] at hmem
    simp only [Function.comp_def, List.map_id'] at hmem
    exact hkeys.mem_iff.1 hmem

/-- The creators who are short at their floors, and the others scaled to what is left. -/
theorem applyCreatorFloors_of_short [IsStrictOrderedRing K] (hsum : total byCreator = 1)
    (hshort : (byCreator.filter (isShort creatorFloors)).size ≠ 0) :
    let floors := total ((byCreator.filter (isShort creatorFloors)).mapVal fun k _ =>
      floorOf creatorFloors k)
    let others := byCreator.filter fun k s => !isShort creatorFloors k s
    let scale := (1 - floors) / total others
    applyCreatorFloors byCreator creatorFloors =
      if floors < 1 then byCreator.mapVal fun k s =>
        if isShort creatorFloors k s then floorOf creatorFloors k else s * scale
      else byCreator := by
  intro floors others scale
  have hsome : flooredKeys byCreator creatorFloors ≠ [] := by
    intro hnil
    have hlength := (@flooredKeys_perm K _ _ byCreator creatorFloors).length_eq
    rw [hnil, InsertionMap.keys, List.length_map] at hlength
    exact hshort hlength.symm
  have hboost : ((flooredKeys byCreator creatorFloors).map fun k =>
      (creatorFloors.get? k).getD 0 - (byCreator.get? k).getD 0).sum =
        floors - (1 - total others) := boost_eq hsum
  have hscale : (total others - (floors - (1 - total others))) / total others = scale := by ring
  rw [applyCreatorFloors]
  simp only
  rw [if_neg hsome, filter_not_mem_flooredKeys, hboost]
  by_cases hlt : floors < 1
  · rw [if_neg (by linarith), if_pos hlt, hscale]
    exact setAll_floors scale
  · rw [if_pos (by linarith), if_neg hlt]

theorem applyCreatorFloors_of_none (h : (byCreator.filter (isShort creatorFloors)).size = 0) :
    applyCreatorFloors byCreator creatorFloors = byCreator := by
  have hnil : flooredKeys byCreator creatorFloors = [] := by
    refine List.eq_nil_iff_forall_not_mem.2 fun k hk => ?_
    obtain ⟨s, hs, hshort⟩ := mem_keys_filter.1 (mem_flooredKeys_iff.1 hk)
    exact List.ne_nil_of_mem (List.mem_filter.2 ⟨hs, hshort⟩) (List.length_eq_zero_iff.1 h)
  rw [applyCreatorFloors]
  simp only
  rw [if_pos hnil]

omit [Field K] in
theorem isShort_iff {k : String} {s : K} :
    isShort creatorFloors k s = true ↔ ∃ floor, creatorFloors.get? k = some floor ∧ s < floor := by
  rw [isShort, Option.any_eq_true]
  simp only [decide_eq_true_iff]

theorem others_pos [IsStrictOrderedRing K] (h : IsDistribution byCreator)
    (hlt : total ((byCreator.filter (isShort creatorFloors)).mapVal fun k _ =>
      floorOf creatorFloors k) < 1) :
    0 < total (byCreator.filter fun k s => !isShort creatorFloors k s) := by
  have hsplit := @total_split _ _ _ byCreator (isShort creatorFloors)
  have hlack := @total_mapVal_sub _ _ _ (byCreator.filter (isShort creatorFloors))
    (fun k _ => floorOf creatorFloors k) fun _ s => s
  rw [mapVal_self] at hlack
  have hnonneg : 0 ≤ total ((byCreator.filter (isShort creatorFloors)).mapVal fun k s =>
      floorOf creatorFloors k - s) := by
    refine total_nonneg fun e he => ?_
    obtain ⟨e', he', rfl⟩ := List.mem_map.1 he
    obtain ⟨floor, hfloor, hbelow⟩ := isShort_iff.1 (List.mem_filter.1 he').2
    have hvalue : floorOf creatorFloors e'.1 = floor := by rw [floorOf, hfloor, Option.getD_some]
    exact sub_pos.2 (hvalue ▸ hbelow)
  rw [h.total_eq_one] at hsplit
  linarith

/-- Creator floors hold just when those who are not short can pay for those who are. -/
theorem applyCreatorFloors_iff [IsStrictOrderedRing K] (h : IsDistribution byCreator) :
    let result := applyCreatorFloors byCreator creatorFloors
    total result = 1 ∧ (∀ k, k ∈ result.keys ↔ k ∈ byCreator.keys) ∧
      ((∀ e ∈ result.entries, ∀ floor, creatorFloors.get? e.1 = some floor → floor ≤ e.2) ↔
        FloorsAffordable byCreator creatorFloors) := by
  intro result
  by_cases hshort : (byCreator.filter (isShort creatorFloors)).size = 0
  · -- nobody is short
    have hresult : result = byCreator := applyCreatorFloors_of_none hshort
    rw [hresult]
    refine ⟨h.total_eq_one, fun k => .rfl, iff_of_true (fun e he floor hfloor => ?_) (.inl hshort)⟩
    by_contra hlt
    have hmem : e ∈ (byCreator.filter (isShort creatorFloors)).entries :=
      List.mem_filter.2 ⟨he, isShort_iff.2 ⟨floor, hfloor, not_le.1 hlt⟩⟩
    rw [List.length_eq_zero_iff.1 hshort] at hmem
    cases hmem
  have hresult : result = _ := applyCreatorFloors_of_short h.total_eq_one hshort
  by_cases hlt : total ((byCreator.filter (isShort creatorFloors)).mapVal fun k _ =>
      floorOf creatorFloors k) < 1
  · rw [if_pos hlt] at hresult
    have hothers := others_pos h hlt
    rw [hresult]
    refine ⟨?_, fun k => by rw [keys_mapVal], ?_⟩
    · rw [total_ite, total_mapVal_mul, mul_div_cancel₀ _ hothers.ne']
      ring
    constructor
    · refine fun hall => .inr ⟨hlt, fun e he floor hfloor => ?_⟩
      obtain ⟨hmem, hnot⟩ := List.mem_filter.1 he
      have hscaled := hall _ (List.mem_map_of_mem hmem) floor hfloor
      simp only at hscaled
      rw [if_neg (by simpa using hnot), ← mul_div_assoc, le_div_iff₀ hothers] at hscaled
      exact hscaled
    · rintro (hnone | ⟨-, haffordable⟩) e he floor hfloor
      · exact absurd hnone hshort
      · obtain ⟨e', he', rfl⟩ := List.mem_map.1 he
        simp only at hfloor ⊢
        by_cases hfloored : isShort creatorFloors e'.1 e'.2
        · rw [if_pos hfloored, floorOf, hfloor, Option.getD_some]
        · rw [if_neg hfloored, ← mul_div_assoc, le_div_iff₀ hothers]
          exact haffordable e' (List.mem_filter.2 ⟨he', by simpa using hfloored⟩) floor hfloor
  · rw [if_neg hlt] at hresult
    rw [hresult]
    refine ⟨h.total_eq_one, fun k => .rfl, iff_of_false (fun hall => ?_) ?_⟩
    · obtain ⟨e, he⟩ := List.exists_mem_of_length_pos (Nat.pos_of_ne_zero hshort)
      obtain ⟨hmem, hfloored⟩ := List.mem_filter.1 he
      obtain ⟨floor, hfloor, hbelow⟩ := isShort_iff.1 hfloored
      exact absurd (hall e hmem floor hfloor) (not_le.2 hbelow)
    · rintro (hnone | ⟨hsome, -⟩)
      · exact hshort hnone
      · exact hlt hsome

end CreatorFloors

namespace CreatorFloorSample

def byCreator : InsertionMap String ℚ := ⟨[("a", 1/10), ("b", 1/2), ("c", 2/5)], by decide⟩

/-- Only one creator is short, and the other can pay for it. -/
def floors : InsertionMap String ℚ := ⟨[("a", 3/10), ("b", 1/4)], by decide⟩

/-- The second creator has a floor that it is scaled below. -/
def tightFloors : InsertionMap String ℚ := ⟨[("a", 3/10), ("b", 9/20)], by decide⟩

/-- Only the first creator is short. -/
example : byCreator.entries.map (fun e => isShort floors e.1 e.2) = [true, false, false] := by
  decide +kernel

theorem isDistribution_byCreator : IsDistribution byCreator :=
  ⟨by unfold AllVals; decide +kernel, by decide +kernel⟩

theorem applyCreatorFloors_floors :
    total (applyCreatorFloors byCreator floors) = 1 :=
  (applyCreatorFloors_iff isDistribution_byCreator).1

/-- Floors of 3/4 together, and a creator with less than its own. -/
theorem creatorFloor_missed :
    IsDistribution byCreator ∧ total (tightFloors.filter fun k _ => byCreator.has k) ≤ 1 ∧
      ∃ e ∈ (applyCreatorFloors byCreator tightFloors).entries, ∃ floor,
        tightFloors.get? e.1 = some floor ∧ e.2 < floor := by
  refine ⟨isDistribution_byCreator, by decide +kernel, ?_⟩
  have hresult := @applyCreatorFloors_of_short _ _ _ _ tightFloors _
    isDistribution_byCreator.total_eq_one (by decide +kernel)
  rw [hresult]
  exact ⟨("b", 7/18), by decide +kernel, 9/20, by decide +kernel, by decide +kernel⟩

end CreatorFloorSample

end Atrib.Verify
