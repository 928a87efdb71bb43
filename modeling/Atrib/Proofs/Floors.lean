import Atrib.Agent.Policy
import Mathlib.Algebra.BigOperators.Group.List.Lemmas
import Mathlib.Algebra.BigOperators.Ring.List
import Mathlib.Algebra.Order.BigOperators.Group.List
import Mathlib.Tactic.FieldSimp
import Mathlib.Tactic.Linarith

/-!
# What the negotiated floors add up to

The sum of the floors is taken over the entries, the floors are kept by server.
Where each server declares one floor, and the floors and the cap are numbers, the
two agree, and the rules come down to one function of the cap and the declared
floors (`agreedFloors`): nothing of what does not fit, a common factor for what
fits one by one, and what was declared otherwise. The order of the servers
reaches that function only through a sum.
-/

namespace Atrib.Agent

open Lib (InsertionMap JsNumber JsValue)

/-! ## The rules as a function of the declared floors -/

/-- What the floors of a list of servers add up to. -/
def totalFloor (declared : List (String × WithTop ℚ)) : WithTop ℚ := (declared.map Prod.snd).sum

def scaleAll (factor : ℚ) (declared : List (String × WithTop ℚ)) : List (String × WithTop ℚ) :=
  declared.map fun floor => (floor.1, floor.2.map (· * factor))

/-- Floors without a cap, and under one. -/
def agreedFloors (cap : Option (WithTop ℚ)) (declared : List (String × WithTop ℚ)) :
    List (String × WithTop ℚ) :=
  if 1 < totalFloor declared then []
  else match cap with
    | none => declared
    | some c =>
        if ∃ floor ∈ declared, c < floor.2 then []
        else if c < totalFloor declared then
          scaleAll (c.untopD 0 / (totalFloor declared).untopD 0) declared
        else declared

/-- What the parties may expect of the floors: they can be paid, under the cap too,
and nobody gives way more than the others. -/
structure FairFloors (cap : Option (WithTop ℚ)) (declared : List (String × WithTop ℚ))
    (floors : List (String × ℚ)) : Prop where
  nonneg : ∀ floor ∈ floors, 0 ≤ floor.2
  within_one : (floors.map Prod.snd).sum ≤ 1
  within_cap : ∀ c, cap = some c → (((floors.map Prod.snd).sum : ℚ) : WithTop ℚ) ≤ c
  kept : ∀ shares : List (String × ℚ),
    declared = shares.map (Prod.map id (↑)) → (shares.map Prod.snd).sum ≤ 1 →
    (∀ c, cap = some c → (((shares.map Prod.snd).sum : ℚ) : WithTop ℚ) ≤ c) → floors = shares
  scaled : ∀ (shares : List (String × ℚ)) (c : ℚ),
    declared = shares.map (Prod.map id (↑)) → cap = some (c : WithTop ℚ) →
    (∀ share ∈ shares, share.2 ≤ c) → c < (shares.map Prod.snd).sum →
    (shares.map Prod.snd).sum ≤ 1 →
    (∃ factor : ℚ, floors = shares.map fun share => (share.1, share.2 * factor)) ∧
      (floors.map Prod.snd).sum = c
  defaulted : 1 < totalFloor declared ∨
    (∃ c, cap = some c ∧ ∃ floor ∈ declared, c < floor.2) → floors = []

theorem totalFloor_shares (shares : List (String × ℚ)) :
    totalFloor (shares.map (Prod.map id (↑))) = ((shares.map Prod.snd).sum : ℚ) := by
  induction shares with
  | nil => rfl
  | cons share shares ih =>
      rw [totalFloor, List.map_cons, List.map_cons, List.sum_cons, ← totalFloor, ih,
        List.map_cons, List.sum_cons, WithTop.coe_add]
      rfl

/-- Floors with a finite sum are finite. -/
theorem exists_shares {declared : List (String × WithTop ℚ)}
    (h : totalFloor declared ≠ ⊤) :
    ∃ shares : List (String × ℚ), declared = shares.map (Prod.map id (↑)) := by
  induction declared with
  | nil => exact ⟨[], rfl⟩
  | cons floor declared ih =>
      rw [totalFloor, List.map_cons, List.sum_cons, ← totalFloor, Ne, WithTop.add_eq_top,
        not_or] at h
      obtain ⟨shares, rfl⟩ := ih h.2
      obtain ⟨q, hq⟩ := WithTop.ne_top_iff_exists.1 h.1
      exact ⟨(floor.1, q) :: shares, by simp [Prod.map, hq]⟩

theorem scaleAll_shares (factor : ℚ) (shares : List (String × ℚ)) :
    scaleAll factor (shares.map (Prod.map id (↑))) =
      (shares.map fun share => (share.1, share.2 * factor)).map
        (Prod.map id ((↑) : ℚ → WithTop ℚ)) := by
  simp [scaleAll, Function.comp_def, Prod.map]

theorem sum_scaled (factor : ℚ) (shares : List (String × ℚ)) :
    ((shares.map fun share => (share.1, share.2 * factor)).map Prod.snd).sum =
      (shares.map Prod.snd).sum * factor := by
  rw [List.map_map, ← List.sum_map_mul_right]
  rfl

theorem map_coe_injective :
    Function.Injective (List.map (Prod.map id ((↑) : ℚ → WithTop ℚ)) :
      List (String × ℚ) → List (String × WithTop ℚ)) :=
  List.map_injective_iff.2 (Prod.map_injective.2 ⟨Function.injective_id, WithTop.coe_injective⟩)

/-- Scaled to a cap below the sum, floors add up to the cap. -/
theorem sum_scaled_to {shares : List (String × ℚ)} {c : ℚ} (hc : 0 ≤ c)
    (hlt : c < (shares.map Prod.snd).sum) :
    (shares.map Prod.snd).sum * (c / (shares.map Prod.snd).sum) = c := by
  have hpos : (shares.map Prod.snd).sum ≠ 0 := by linarith
  field_simp

theorem shares_nonneg {shares : List (String × ℚ)}
    (h : ∀ floor ∈ shares.map (Prod.map id ((↑) : ℚ → WithTop ℚ)), 0 ≤ floor.2) :
    ∀ share ∈ shares, 0 ≤ share.2 := fun _ hshare =>
  WithTop.coe_nonneg.1 (h _ (List.mem_map_of_mem hshare))

theorem share_le_sum {shares : List (String × ℚ)} (h : ∀ share ∈ shares, 0 ≤ share.2)
    {share : String × ℚ} (hshare : share ∈ shares) : share.2 ≤ (shares.map Prod.snd).sum :=
  List.single_le_sum (by simpa using fun q s hq => h (s, q) hq) _ (List.mem_map_of_mem hshare)

/-- Floors that fit one by one, with a sum of at most 1, can be honoured. -/
theorem not_irreconcilable {cap : Option (WithTop ℚ)} {shares : List (String × ℚ)}
    (hone : (shares.map Prod.snd).sum ≤ 1)
    (hfit : ∀ c, cap = some c → ∀ share ∈ shares, ((share.2 : ℚ) : WithTop ℚ) ≤ c) :
    ¬(1 < totalFloor (shares.map (Prod.map id (↑))) ∨
      ∃ c, cap = some c ∧
        ∃ floor ∈ shares.map (Prod.map id ((↑) : ℚ → WithTop ℚ)), c < floor.2) := by
  rintro (h | ⟨c, hc, floor, hfloor, hlt⟩)
  · rw [totalFloor_shares] at h
    exact hone.not_gt (WithTop.one_lt_coe.1 h)
  · obtain ⟨share, hshare, rfl⟩ := List.mem_map.1 hfloor
    exact (hfit c hc share hshare).not_gt hlt

/-- Floors whose sum fits, fit one by one. -/
theorem fit_of_sum {cap : Option (WithTop ℚ)} {shares : List (String × ℚ)}
    (hnonneg : ∀ share ∈ shares, 0 ≤ share.2)
    (hfit : ∀ c, cap = some c → (((shares.map Prod.snd).sum : ℚ) : WithTop ℚ) ≤ c) :
    ∀ c, cap = some c → ∀ share ∈ shares, ((share.2 : ℚ) : WithTop ℚ) ≤ c :=
  fun c hc _ hshare => (WithTop.coe_le_coe.2 (share_le_sum hnonneg hshare)).trans (hfit c hc)

theorem fit_coe {cap : Option (WithTop ℚ)} {shares : List (String × ℚ)} {c : ℚ}
    (hc : cap = some (c : WithTop ℚ)) (hfit : ∀ share ∈ shares, share.2 ≤ c) :
    ∀ c', cap = some c' → ∀ share ∈ shares, ((share.2 : ℚ) : WithTop ℚ) ≤ c' := by
  intro c' hc' share hshare
  obtain rfl := Option.some.inj (hc.symm.trans hc')
  exact WithTop.coe_le_coe.2 (hfit share hshare)

/-- What cannot be honoured is not honoured in part. -/
theorem fair_nil {cap : Option (WithTop ℚ)} {declared : List (String × WithTop ℚ)}
    (hcap : ∀ c, cap = some c → 0 ≤ c) (hdeclared : ∀ floor ∈ declared, 0 ≤ floor.2)
    (h : 1 < totalFloor declared ∨ ∃ c, cap = some c ∧ ∃ floor ∈ declared, c < floor.2) :
    FairFloors cap declared [] where
  nonneg := by simp
  within_one := by simp
  within_cap c hc := by simpa using hcap c hc
  kept shares hshares hone hfit := by
    subst hshares
    exact absurd h (not_irreconcilable hone (fit_of_sum (shares_nonneg hdeclared) hfit))
  scaled shares c hshares hc hfit _ hone := by
    subst hshares
    exact absurd h (not_irreconcilable hone (fit_coe hc hfit))
  defaulted _ := rfl

/-- Floors that fit are kept. -/
theorem fair_kept {cap : Option (WithTop ℚ)} {shares : List (String × ℚ)}
    (hnonneg : ∀ share ∈ shares, 0 ≤ share.2) (hone : (shares.map Prod.snd).sum ≤ 1)
    (hfit : ∀ c, cap = some c → (((shares.map Prod.snd).sum : ℚ) : WithTop ℚ) ≤ c) :
    FairFloors cap (shares.map (Prod.map id (↑))) shares where
  nonneg := hnonneg
  within_one := hone
  within_cap := hfit
  kept shares' hshares _ _ := map_coe_injective hshares
  scaled shares' c hshares hc _ hlt _ := by
    obtain rfl := map_coe_injective hshares
    exact absurd (WithTop.coe_le_coe.1 (hfit c hc)) hlt.not_ge
  defaulted h := absurd h (not_irreconcilable hone (fit_of_sum hnonneg hfit))

/-- Floors that fit one by one are scaled to the cap. -/
theorem fair_scaled {shares : List (String × ℚ)} {c : ℚ} (hc : 0 ≤ c)
    (hnonneg : ∀ share ∈ shares, 0 ≤ share.2) (hone : (shares.map Prod.snd).sum ≤ 1)
    (hfit : ∀ share ∈ shares, share.2 ≤ c) (hlt : c < (shares.map Prod.snd).sum) :
    FairFloors (some c) (shares.map (Prod.map id (↑)))
      (shares.map fun share => (share.1, share.2 * (c / (shares.map Prod.snd).sum))) where
  nonneg := by
    intro floor hfloor
    obtain ⟨share, hshare, rfl⟩ := List.mem_map.1 hfloor
    exact mul_nonneg (hnonneg share hshare) (div_nonneg hc (hc.trans hlt.le))
  within_one := by
    rw [sum_scaled, sum_scaled_to hc hlt]
    exact hlt.le.trans hone
  within_cap c' hc' := by
    obtain rfl := Option.some.inj hc'
    rw [sum_scaled, sum_scaled_to hc hlt]
  kept shares' hshares _ hfit' := by
    obtain rfl := map_coe_injective hshares
    exact absurd (WithTop.coe_le_coe.1 (hfit' c rfl)) hlt.not_ge
  scaled shares' c' hshares hc' _ _ _ := by
    obtain rfl := map_coe_injective hshares
    obtain rfl := WithTop.coe_injective (Option.some.inj hc')
    exact ⟨⟨_, rfl⟩, by rw [sum_scaled, sum_scaled_to hc hlt]⟩
  defaulted h := absurd h (not_irreconcilable hone (fit_coe rfl hfit))

/-- The rules give what the parties may expect. -/
theorem agreedFloors_fair {cap : Option (WithTop ℚ)} {declared : List (String × WithTop ℚ)}
    (hcap : ∀ c, cap = some c → 0 ≤ c) (hdeclared : ∀ floor ∈ declared, 0 ≤ floor.2) :
    ∃ floors : List (String × ℚ), agreedFloors cap declared = floors.map (Prod.map id (↑)) ∧
      FairFloors cap declared floors := by
  unfold agreedFloors
  split
  · next hone => exact ⟨[], rfl, fair_nil hcap hdeclared (.inl hone)⟩
  next hone =>
    obtain ⟨shares, rfl⟩ :=
      exists_shares (ne_top_of_le_ne_top WithTop.one_ne_top (not_lt.1 hone))
    have hnonneg := shares_nonneg hdeclared
    rw [totalFloor_shares] at hone ⊢
    have hone' : (shares.map Prod.snd).sum ≤ 1 := WithTop.coe_le_one.1 (not_lt.1 hone)
    cases cap with
    | none => exact ⟨shares, rfl, fair_kept hnonneg hone' nofun⟩
    | some c =>
        dsimp only
        split
        · next hover => exact ⟨[], rfl, fair_nil hcap hdeclared (.inr ⟨c, rfl, hover⟩)⟩
        next hover =>
          split
          · next hlt =>
              obtain ⟨q, rfl⟩ := WithTop.ne_top_iff_exists.1 hlt.ne_top
              refine ⟨_, scaleAll_shares _ _, ?_⟩
              refine fair_scaled (WithTop.coe_nonneg.1 (hcap _ rfl)) hnonneg hone' ?_
                (WithTop.coe_lt_coe.1 hlt)
              intro share hshare
              exact not_lt.1 fun h =>
                hover ⟨_, List.mem_map_of_mem hshare, WithTop.coe_lt_coe.2 h⟩
          · next hfit =>
              refine ⟨shares, rfl, fair_kept hnonneg hone' ?_⟩
              intro c' hc'
              obtain rfl := Option.some.inj hc'
              exact not_lt.1 hfit

theorem totalFloor_perm {declared declared' : List (String × WithTop ℚ)}
    (h : declared.Perm declared') : totalFloor declared = totalFloor declared' :=
  (h.map Prod.snd).sum_eq

/-- Neither the order of the servers nor where they come matters. -/
theorem agreedFloors_perm (cap : Option (WithTop ℚ)) {declared declared' : List (String × WithTop ℚ)}
    (h : declared.Perm declared') : (agreedFloors cap declared).Perm (agreedFloors cap declared') := by
  have hmem : ∀ c : WithTop ℚ,
      (∃ floor ∈ declared, c < floor.2) ↔ ∃ floor ∈ declared', c < floor.2 :=
    fun c => exists_congr fun floor => and_congr_left' h.mem_iff
  simp only [agreedFloors, totalFloor_perm h, hmem]
  split
  · exact List.Perm.refl _
  cases cap with
  | none => exact h
  | some c =>
      dsimp only
      split
      · exact List.Perm.refl _
      · split
        · exact h.map _
        · exact h

/-! ## What the code computes -/

/-- The servers that declare a floor, as their policies write it. -/
def declaredFloors (entries : List CreatorPolicyEntry) : List (String × JsValue) :=
  entries.filterMap fun entry =>
    if entry.floor = .undefined then none else some (entry.server_url, entry.floor)

/-- A floor that is a number. -/
def floorValue (floor : String × WithTop ℚ) : String × JsValue :=
  (floor.1, .number (.ofTop floor.2))

def capValue : Option (WithTop ℚ) → JsValue
  | none => .undefined
  | some c => .number (.ofTop c)

variable (text : PolicyText)

/-- What counts as false has no values of its own. -/
theorem ownValues_of_not_truthy {value : JsValue} (h : value.truthy = false) :
    value.ownValues = [] := by
  cases value with
  | string s =>
      obtain rfl : s = "" := by simpa [JsValue.truthy] using h
      rfl
  | array items => cases h
  | object members => cases h
  | _ => rfl

/-- A document passes as it is, and no constraint of one that does is below zero. -/
theorem acceptedPolicy_some {doc doc' : JsValue}
    (h : acceptedPolicy text doc = .ok (some doc')) :
    doc' = doc ∧ ∀ value ∈ (doc.member "constraints").ownValues, isNegative value = false := by
  rw [acceptedPolicy] at h
  cases hget : doc.get "constraints" with
  | error e =>
      rw [hget] at h
      cases h
  | ok constraints =>
      rw [hget] at h
      rw [JsValue.member_of_get hget]
      simp only [bind, Except.bind, pure, Except.pure] at h
      have hend : ∀ {r : Except String (Option JsValue)},
          (if constraints.ownValues.any isNegative = true then .ok none else .ok (some doc)) = r →
          r = .ok (some doc') →
          doc' = doc ∧ ∀ value ∈ constraints.ownValues, isNegative value = false := by
        rintro r rfl hr
        split at hr
        · cases hr
        · next hany =>
            obtain rfl := Option.some.inj (Except.ok.inj hr)
            exact ⟨rfl, by simpa using hany⟩
      split at h
      · split at h
        · split at h
          · cases h
          · split at h
            · cases h
            · exact hend rfl h
        · exact hend rfl h
      · next htruthy =>
          obtain rfl := Option.some.inj (Except.ok.inj h)
          rw [ownValues_of_not_truthy (by simpa using htruthy)]
          exact ⟨rfl, by simp⟩

/-- A constraint of a fetched policy that is a number is not below zero. -/
theorem constraintOf_nonneg {response : Option JsValue} {key : String} {s : WithTop ℚ}
    (h : constraintOf (fetchPolicy text response) key = .number (.ofTop s)) : 0 ≤ s := by
  cases hdoc : fetchPolicy text response with
  | none =>
      rw [hdoc] at h
      cases h
  | some doc =>
      rw [hdoc] at h
      obtain ⟨fetched, -, hfetched⟩ := Option.bind_eq_some_iff.1 hdoc
      cases haccepted : acceptedPolicy text fetched with
      | error e =>
          rw [haccepted] at hfetched
          cases hfetched
      | ok accepted =>
          rw [haccepted] at hfetched
          obtain rfl : accepted = some doc := hfetched
          obtain ⟨rfl, hnonneg⟩ := acceptedPolicy_some text haccepted
          have hsign := hnonneg _ (JsValue.mem_ownValues_of_member h)
          rw [isNegative, show JsNumber.finite 0 = .ofTop 0 from rfl, JsNumber.ofTop_lt] at hsign
          simpa using hsign

theorem constraintOf_filter {policy : Option JsValue} {key : String} {value : JsValue}
    (h : constraintOf (policy.filter JsValue.truthy) key = value) (hvalue : value ≠ .undefined) :
    constraintOf policy key = value := by
  cases policy with
  | none => exact h
  | some doc =>
      by_cases htruthy : doc.truthy = true
      · rwa [Option.filter_some_pos htruthy] at h
      · rw [Option.filter_some_neg (by simpa using htruthy)] at h
        exact absurd h.symm hvalue

theorem mem_declaredFloors {entries : List CreatorPolicyEntry} {floor : String × JsValue} :
    floor ∈ declaredFloors entries ↔
      ∃ entry ∈ entries, entry.floor ≠ .undefined ∧ (entry.server_url, entry.floor) = floor := by
  simp only [declaredFloors, List.mem_filterMap]
  refine exists_congr fun entry => and_congr_right fun _ => ?_
  split
  · simp [*]
  · simp [*]

theorem declaredFloors_nonneg {creators : List (String × Option JsValue)}
    {declared : List (String × WithTop ℚ)}
    (h : declaredFloors (creators.map (creatorEntry text)) = declared.map floorValue) :
    ∀ floor ∈ declared, 0 ≤ floor.2 := by
  intro floor hfloor
  have hmem := List.mem_map_of_mem (f := floorValue) hfloor
  rw [← h, mem_declaredFloors] at hmem
  obtain ⟨entry, hentry, -, heq⟩ := hmem
  obtain ⟨creator, -, rfl⟩ := List.mem_map.1 hentry
  have hconstraint : (creatorEntry text creator).floor = .number (.ofTop floor.2) :=
    congrArg Prod.snd heq
  exact constraintOf_nonneg text (constraintOf_filter hconstraint nofun)

/-! ### One spec for each step -/

theorem collectFloors_eq {entries : List CreatorPolicyEntry} :
    ∀ {declared : List (String × WithTop ℚ)} {minimumFloors : InsertionMap String JsValue}
      {floorSum : WithTop ℚ},
      declaredFloors entries = declared.map floorValue → (declared.map Prod.fst).Nodup →
      (∀ floor ∈ declared, floor.1 ∉ minimumFloors.keys) →
      ∃ collected, collectFloors text entries minimumFloors (.number (.ofTop floorSum)) =
          .ok (collected, .number (.ofTop (floorSum + totalFloor declared))) ∧
        collected.entries = minimumFloors.entries ++ declared.map floorValue := by
  induction entries with
  | nil =>
      intro declared minimumFloors floorSum hdeclared _ _
      obtain rfl := List.map_eq_nil_iff.1 hdeclared.symm
      exact ⟨minimumFloors, by simp [collectFloors, totalFloor], by simp⟩
  | cons entry entries ih =>
      intro declared minimumFloors floorSum hdeclared hnodup hfresh
      rw [collectFloors]
      by_cases hfloor : entry.floor = .undefined
      · rw [declaredFloors, List.filterMap_cons, if_pos hfloor] at hdeclared
        rw [if_pos hfloor]
        exact ih hdeclared hnodup hfresh
      · rw [declaredFloors, List.filterMap_cons, if_neg hfloor] at hdeclared
        cases declared with
        | nil => cases hdeclared
        | cons floor declared =>
            obtain ⟨hhead, htail⟩ := List.cons.inj hdeclared
            obtain ⟨hurl, hvalue⟩ := Prod.mk.inj hhead
            rw [List.map_cons, List.nodup_cons] at hnodup
            have hkeys : ∀ floor' ∈ declared,
                floor'.1 ∉ (minimumFloors.set entry.server_url entry.floor).keys := by
              intro floor' hfloor' hmem
              rcases InsertionMap.mem_keys_set.1 hmem with hmem | heq
              · exact hfresh floor' (List.mem_cons_of_mem _ hfloor') hmem
              · exact hnodup.1 (heq.trans hurl ▸ List.mem_map_of_mem hfloor')
            obtain ⟨collected, hcollected, hentries⟩ :=
              ih htail hnodup.2 hkeys
            refine ⟨collected, ?_, ?_⟩
            · rw [if_neg hfloor, hvalue, JsValue.add_number, JsNumber.ofTop_add]
              rw [hvalue, add_assoc] at hcollected
              exact hcollected
            · have hnew : entry.server_url ∉ minimumFloors.keys :=
                hurl ▸ hfresh floor List.mem_cons_self
              rw [hentries, InsertionMap.entries_set, if_neg hnew, List.append_assoc, hhead]
              rfl

/-- An entry declares no floor or one of the numbers. -/
def Declares (entry : CreatorPolicyEntry) : Prop :=
  entry.floor = .undefined ∨ ∃ s : WithTop ℚ, entry.floor = .number (.ofTop s)

/-- The entry's floor is above the cap. -/
def IsOver (c : WithTop ℚ) (entry : CreatorPolicyEntry) : Prop :=
  ∃ s : WithTop ℚ, entry.floor = .number (.ofTop s) ∧ c < s

theorem declares_of_mem {entries : List CreatorPolicyEntry} {declared : List (String × WithTop ℚ)}
    (h : declaredFloors entries = declared.map floorValue) :
    ∀ entry ∈ entries, Declares entry := by
  intro entry hentry
  by_cases hfloor : entry.floor = .undefined
  · exact .inl hfloor
  · have hmem := mem_declaredFloors.2 ⟨entry, hentry, hfloor, rfl⟩
    rw [h] at hmem
    obtain ⟨floor, -, heq⟩ := List.mem_map.1 hmem
    exact .inr ⟨floor.2, (congrArg Prod.snd heq).symm⟩

theorem isOver_iff {entries : List CreatorPolicyEntry} {declared : List (String × WithTop ℚ)}
    (h : declaredFloors entries = declared.map floorValue) (c : WithTop ℚ) :
    (∃ entry ∈ entries, IsOver c entry) ↔ ∃ floor ∈ declared, c < floor.2 := by
  constructor
  · rintro ⟨entry, hentry, s, hfloor, hlt⟩
    have hmem := mem_declaredFloors.2 ⟨entry, hentry, by rw [hfloor]; nofun, rfl⟩
    rw [h] at hmem
    obtain ⟨floor, hdeclared, heq⟩ := List.mem_map.1 hmem
    have hvalue : JsValue.number (.ofTop floor.2) = .number (.ofTop s) :=
      (congrArg Prod.snd heq).trans hfloor
    obtain rfl := JsNumber.ofTop_injective (JsValue.number.inj hvalue)
    exact ⟨floor, hdeclared, hlt⟩
  · rintro ⟨floor, hdeclared, hlt⟩
    have hmem := List.mem_map_of_mem (f := floorValue) hdeclared
    rw [← h, mem_declaredFloors] at hmem
    obtain ⟨entry, hentry, -, heq⟩ := hmem
    exact ⟨entry, hentry, floor.2, congrArg Prod.snd heq, hlt⟩

theorem exceedsCap_eq (c : WithTop ℚ) {entry : CreatorPolicyEntry} (h : Declares entry) :
    ∃ above, exceedsCap text (.number (.ofTop c)) entry = .ok above ∧
      (above = true ↔ IsOver c entry) := by
  rw [exceedsCap]
  rcases h with h | ⟨s, h⟩
  · refine ⟨false, if_pos h, ?_⟩
    simp [IsOver, h]
  · rw [if_neg (by rw [h]; nofun), h, JsValue.lessThan_number, JsNumber.ofTop_lt]
    refine ⟨_, rfl, ?_⟩
    rw [decide_eq_true_iff]
    constructor
    · exact fun hlt => ⟨s, h, hlt⟩
    · rintro ⟨s', hs', hlt⟩
      obtain rfl := JsNumber.ofTop_injective (JsValue.number.inj (h.symm.trans hs'))
      exact hlt

theorem firstOverCap_eq (c : WithTop ℚ) {entries : List CreatorPolicyEntry}
    (h : ∀ entry ∈ entries, Declares entry) :
    (∃ entry, firstOverCap text (.number (.ofTop c)) entries = .ok (some entry) ∧
        entry ∈ entries ∧ IsOver c entry) ∨
      (firstOverCap text (.number (.ofTop c)) entries = .ok none ∧
        ∀ entry ∈ entries, ¬IsOver c entry) := by
  induction entries with
  | nil => exact .inr ⟨rfl, by simp⟩
  | cons entry entries ih =>
      obtain ⟨above, hexceeds, hover⟩ := exceedsCap_eq text c (h entry List.mem_cons_self)
      rw [firstOverCap, hexceeds]
      cases above with
      | true => exact .inl ⟨entry, rfl, List.mem_cons_self, hover.1 rfl⟩
      | false =>
          have hnot : ¬IsOver c entry := fun hentry => nomatch hover.2 hentry
          rcases ih fun entry' hentry' => h entry' (List.mem_cons_of_mem _ hentry') with
            ⟨found, hfound, hmem, hfoundOver⟩ | ⟨hnone, hnoOver⟩
          · exact .inl ⟨found, hfound, List.mem_cons_of_mem _ hmem, hfoundOver⟩
          · exact .inr ⟨hnone, List.forall_mem_cons.2 ⟨hnot, hnoOver⟩⟩

/-- What returns on every item returns on the list. -/
theorem mapM_returns {α β : Type} {f : α → Except String β} {xs : List α}
    (h : ∀ x ∈ xs, ∃ y, f x = .ok y) : ∃ ys, xs.mapM f = .ok ys := by
  induction xs with
  | nil => exact ⟨[], rfl⟩
  | cons x xs ih =>
      obtain ⟨y, hy⟩ := h x List.mem_cons_self
      obtain ⟨ys, hys⟩ := ih fun x' hx' => h x' (List.mem_cons_of_mem _ hx')
      exact ⟨y :: ys, by rw [List.mapM_cons, hy, hys]; rfl⟩

theorem markOverCap_returns (c : WithTop ℚ) {entries : List CreatorPolicyEntry}
    (h : ∀ entry ∈ entries, Declares entry) :
    ∃ marked, entries.mapM (markOverCap text (.number (.ofTop c))) = .ok marked := by
  refine mapM_returns fun entry hentry => ?_
  obtain ⟨above, hexceeds, -⟩ := exceedsCap_eq text c (h entry hentry)
  rw [markOverCap, hexceeds]
  split
  · exact ⟨_, rfl⟩
  · cases above with
    | true => exact ⟨_, rfl⟩
    | false => exact ⟨_, rfl⟩

theorem scaleFloor_mapM (factor : ℚ) (shares : List (String × ℚ)) :
    ((shares.map (Prod.map id ((↑) : ℚ → WithTop ℚ))).map floorValue).mapM
        (scaleFloor text (.finite factor)) =
      .ok ((scaleAll factor (shares.map (Prod.map id (↑)))).map floorValue) := by
  induction shares with
  | nil => rfl
  | cons share shares ih =>
      rw [List.map_cons, List.map_cons, List.mapM_cons, ih]
      rfl

theorem keys_scaleAll (factor : ℚ) (declared : List (String × WithTop ℚ)) :
    ((scaleAll factor declared).map floorValue).map Prod.fst =
      (declared.map floorValue).map Prod.fst := by
  simp [scaleAll, floorValue, Function.comp_def]

/-- Entries with the keys of a map replace all of it. -/
theorem entries_setAll_of_keys {κ ν : Type} [DecidableEq κ] {m : InsertionMap κ ν}
    {es : List (κ × ν)} (h : es.map Prod.fst = m.keys) : (m.setAll es).entries = es := by
  have hnodup : (es.map Prod.fst).Nodup := h ▸ m.nodup
  have hkeys : (m.setAll es).keys = m.keys :=
    InsertionMap.keys_setAll_of_mem fun e he => h ▸ List.mem_map_of_mem he
  have hset : m.setAll es = ⟨es, hnodup⟩ :=
    InsertionMap.eq_of_keys (hkeys.trans h.symm) fun e he =>
      InsertionMap.mem_entries_setAll_of_nodup hnodup he
  rw [hset]

theorem scaleFloors_eq (url : String) (entries : List CreatorPolicyEntry) {c : ℚ}
    {shares : List (String × ℚ)} {minimumFloors : InsertionMap String JsValue}
    (hfloors : minimumFloors.entries =
      (shares.map (Prod.map id ((↑) : ℚ → WithTop ℚ))).map floorValue)
    (hpos : (shares.map Prod.snd).sum ≠ 0) :
    ∃ negotiation entries', scaleFloors text url (.number (.ofTop (c : WithTop ℚ))) entries
        minimumFloors (.number (.finite (shares.map Prod.snd).sum)) =
          .ok (negotiation, entries') ∧
      negotiation.minimumFloors.entries =
        (scaleAll (c / (shares.map Prod.snd).sum) (shares.map (Prod.map id (↑)))).map
          floorValue := by
  have hdiv : (JsNumber.ofTop (c : WithTop ℚ)).div (.finite (shares.map Prod.snd).sum) =
      .finite (c / (shares.map Prod.snd).sum) := by
    rw [JsNumber.ofTop_coe, JsNumber.div, if_pos hpos]
  have hscale := scaleFloor_mapM text (c / (shares.map Prod.snd).sum) shares
  rw [← hfloors] at hscale
  have hkeys : ((scaleAll (c / (shares.map Prod.snd).sum)
      (shares.map (Prod.map id ((↑) : ℚ → WithTop ℚ)))).map floorValue).map Prod.fst =
        minimumFloors.keys := by
    rw [keys_scaleAll, ← hfloors, InsertionMap.keys]
  rw [scaleFloors, JsValue.toNumber_number, JsValue.toNumber_number]
  simp only [bind, Except.bind, hdiv, hscale, JsValue.toText]
  exact ⟨_, _, rfl, entries_setAll_of_keys hkeys⟩

/-- With one floor for each server, all of them numbers, the floors are the agreed ones. -/
theorem negotiatePolicies_eq {policy : Option JsValue} (url : String)
    {entries : List CreatorPolicyEntry} {cap : Option (WithTop ℚ)}
    {declared : List (String × WithTop ℚ)}
    (hcap : constraintOf policy "maximum_total_share" = capValue cap)
    (hdeclared : declaredFloors entries = declared.map floorValue)
    (hdistinct : (declared.map Prod.fst).Nodup)
    (hnonneg : ∀ c, cap = some c → 0 ≤ c) :
    ∃ negotiation entries', negotiatePolicies text policy url entries =
        .ok (negotiation, entries') ∧
      negotiation.minimumFloors.entries = (agreedFloors cap declared).map floorValue := by
  obtain ⟨minimumFloors, hcollect, hentries⟩ :=
    @collectFloors_eq text entries declared ∅ 0 hdeclared hdistinct (by simp)
  rw [zero_add] at hcollect
  have hdeclares := declares_of_mem hdeclared
  rw [negotiatePolicies, hcap]
  unfold agreedFloors
  simp only [bind, Except.bind, show JsNumber.finite 0 = .ofTop 0 from rfl, hcollect,
    show JsNumber.finite 1 = .ofTop 1 from rfl, JsValue.lessThan_number, JsNumber.ofTop_lt,
    decide_eq_true_eq]
  -- Rule 5
  by_cases hone : 1 < totalFloor declared
  · rw [if_pos hone, if_pos hone]
    exact ⟨_, _, rfl, rfl⟩
  rw [if_neg hone, if_neg hone]
  cases cap with
  | none => exact ⟨_, _, rfl, by simpa using hentries⟩
  | some c =>
      rw [capValue, if_neg (by nofun)]
      dsimp only
      -- Rule 3
      rcases firstOverCap_eq text c hdeclares with ⟨entry, hfirst, hmem, hover⟩ | ⟨hfirst, hnone⟩
      · obtain ⟨marked, hmarked⟩ := markOverCap_returns text c hdeclares
        obtain ⟨s, hs, -⟩ := id hover
        rw [if_pos ((isOver_iff hdeclared c).1 ⟨entry, hmem, hover⟩)]
        simp only [hfirst, hs, hmarked, JsValue.toText]
        exact ⟨_, _, rfl, rfl⟩
      · rw [if_neg (mt (isOver_iff hdeclared c).2 (by simpa using hnone))]
        simp only [hfirst, JsValue.lessThan_number, JsNumber.ofTop_lt, decide_eq_true_eq]
        -- Rules 1 and 2
        by_cases hlt : c < totalFloor declared
        · rw [if_pos hlt, if_pos hlt]
          obtain ⟨shares, rfl⟩ :=
            exists_shares (ne_top_of_le_ne_top WithTop.one_ne_top (not_lt.1 hone))
          obtain ⟨q, rfl⟩ := WithTop.ne_top_iff_exists.1 hlt.ne_top
          rw [totalFloor_shares] at hlt ⊢
          have hpos : 0 < (shares.map Prod.snd).sum :=
            (WithTop.coe_nonneg.1 (hnonneg _ rfl)).trans_lt (WithTop.coe_lt_coe.1 hlt)
          exact scaleFloors_eq text url entries (by simpa using hentries) hpos.ne'
        · rw [if_neg hlt, if_neg hlt]
          exact ⟨_, _, rfl, by simpa using hentries⟩

/-! ## Fair floors -/

/-- A share as the record of the session writes it. -/
def shareValue (share : String × ℚ) : String × JsValue := (share.1, .number (.finite share.2))

/-- Where each server declares one floor, and the floors and the cap are numbers, the
negotiated floors are fair, and depend on nothing but what was declared. -/
theorem negotiated_floors_fair (merchant : Option JsValue) (url : String)
    (creators : List (String × Option JsValue)) (cap : Option (WithTop ℚ))
    (declared : List (String × WithTop ℚ))
    (hcap : constraintOf (fetchPolicy text merchant) "maximum_total_share" = capValue cap)
    (hdeclared : declaredFloors (creators.map (creatorEntry text)) = declared.map floorValue)
    (hdistinct : (declared.map Prod.fst).Nodup) :
    ∃ negotiation entries,
      negotiatePolicies text (fetchPolicy text merchant) url (creators.map (creatorEntry text)) =
        .ok (negotiation, entries) ∧
      (∃ floors, negotiation.minimumFloors.entries = floors.map shareValue ∧
        FairFloors cap declared floors) ∧
      ∀ creators' : List (String × Option JsValue),
        (declaredFloors (creators'.map (creatorEntry text))).Perm
          (declaredFloors (creators.map (creatorEntry text))) →
        ∃ negotiation' entries',
          negotiatePolicies text (fetchPolicy text merchant) url
              (creators'.map (creatorEntry text)) = .ok (negotiation', entries') ∧
            negotiation'.minimumFloors.entries.Perm negotiation.minimumFloors.entries := by
  have hnonneg : ∀ c, cap = some c → 0 ≤ c := by
    rintro c rfl
    exact constraintOf_nonneg text hcap
  obtain ⟨negotiation, entries, hrun, hfloors⟩ :=
    negotiatePolicies_eq text url hcap hdeclared hdistinct hnonneg
  obtain ⟨floors, hagreed, hfair⟩ :=
    agreedFloors_fair hnonneg (declaredFloors_nonneg text hdeclared)
  refine ⟨negotiation, entries, hrun, ⟨floors, ?_, hfair⟩, fun creators' hperm => ?_⟩
  · rw [hfloors, hagreed, List.map_map]
    rfl
  · rw [hdeclared] at hperm
    obtain ⟨declared', hdeclared', hperm'⟩ :=
      (congrFun₂ (List.eq_map_comp_perm floorValue) _ _).mpr hperm
    have hdistinct' : (declared'.map Prod.fst).Nodup := (hperm'.map Prod.fst).nodup_iff.2 hdistinct
    obtain ⟨negotiation', entries', hrun', hfloors'⟩ :=
      negotiatePolicies_eq text url hcap hdeclared' hdistinct' hnonneg
    refine ⟨negotiation', entries', hrun', ?_⟩
    rw [hfloors, hfloors']
    exact (agreedFloors_perm cap hperm').map floorValue

/-! ## A sample -/

namespace FloorSample

def sampleText : PolicyText where
  toText _ := ""
  ofText _ := .nan
  bigInt _ := none
  toFixed4 _ := ""

def policyWith (key : String) (share : ℚ) : JsValue :=
  .object [("spec_version", .string "atrib/1.0"),
    ("constraints", .object [(key, .number (.finite share))])]

/-- Two servers that ask for the same share. -/
def twoCreators (share : ℚ) : List (String × Option JsValue) :=
  [("https://a.example", some (policyWith "minimum_own_share" share)),
    ("https://b.example", some (policyWith "minimum_own_share" share))]

def twoFloors (share : ℚ) : List (String × WithTop ℚ) :=
  [("https://a.example", (share : WithTop ℚ)), ("https://b.example", (share : WithTop ℚ))]

def cappedMerchant (cap : ℚ) : Option JsValue := some (policyWith "maximum_total_share" cap)

end FloorSample

open FloorSample in
/-- Floors of 3/10 each under a cap of 2/5. -/
theorem negotiated_floors_fair_two :
    ∃ negotiation entries,
      negotiatePolicies sampleText (fetchPolicy sampleText (cappedMerchant (2 / 5))) "m"
          ((twoCreators (3 / 10)).map (creatorEntry sampleText)) = .ok (negotiation, entries) ∧
        ∃ floors, negotiation.minimumFloors.entries = floors.map shareValue ∧
          FairFloors (some ((2 / 5 : ℚ) : WithTop ℚ)) (twoFloors (3 / 10)) floors := by
  obtain ⟨negotiation, entries, hrun, hfair, -⟩ :=
    negotiated_floors_fair sampleText (cappedMerchant (2 / 5)) "m" (twoCreators (3 / 10))
      (some ((2 / 5 : ℚ) : WithTop ℚ)) (twoFloors (3 / 10)) (by with_unfolding_all rfl)
      (by with_unfolding_all rfl) (by decide +kernel)
  exact ⟨negotiation, entries, hrun, hfair⟩

open FloorSample in
/-- Two floors of 3/5 each fit a cap of 4/5 and their sum does not, but their sum is above 1:
no common factor scales them, they are dropped. -/
theorem irreconcilable_floors_dropped :
    declaredFloors ((twoCreators (3 / 5)).map (creatorEntry sampleText)) =
        [("https://a.example", .number (.finite (3 / 5))),
          ("https://b.example", .number (.finite (3 / 5)))] ∧
      constraintOf (fetchPolicy sampleText (cappedMerchant (4 / 5))) "maximum_total_share" =
        .number (.finite (4 / 5)) ∧
      ∃ negotiation entries,
        negotiatePolicies sampleText (fetchPolicy sampleText (cappedMerchant (4 / 5))) "m"
            ((twoCreators (3 / 5)).map (creatorEntry sampleText)) = .ok (negotiation, entries) ∧
          ∀ factor : ℚ, negotiation.minimumFloors.entries ≠
            [("https://a.example", .number (.finite (3 / 5 * factor))),
              ("https://b.example", .number (.finite (3 / 5 * factor)))] :=
  ⟨by with_unfolding_all rfl, by with_unfolding_all rfl, ⟨"default", ∅, _⟩, _,
    by with_unfolding_all rfl, fun _ => nofun⟩

end Atrib.Agent
