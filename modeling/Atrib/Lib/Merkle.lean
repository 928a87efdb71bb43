import Mathlib.Data.Nat.Log
import Mathlib.Data.List.Basic
import Mathlib.Tactic.Ring
import Mathlib.Tactic.Linarith

/-!
# Merkle trees over a sequence of leaf digests

The tree of RFC 6962 section 2.1, stated for any type of digests and any way
of combining two of them. A tree is never built: it is read off a sequence
`leaf : ℕ → D` by the range it covers, so the left and right subtrees of a
range are ranges of the same sequence and no list has to be cut.

Three things are proved here and used by every program that touches such a
tree. A range that covers a power of two splits in half, which is what makes
a cache of complete subtrees possible. The audit path of a leaf climbs back
to the root. And where `node` does not confuse two pairs that were really
combined, a path that climbs to the root is the audit path: one leaf, one
list of siblings, one length.
-/

namespace Atrib.Lib.Merkle

variable {D : Type*}

/-! ## The split point -/

/-- The largest power of two strictly below `n`, for `n` at least two. -/
def split (n : ℕ) : ℕ := 2 ^ Nat.log2 (n - 1)

theorem split_pos (n : ℕ) : 0 < split n := Nat.two_pow_pos _

theorem split_lt {n : ℕ} (hn : 2 ≤ n) : split n < n := by
  have h : 2 ^ Nat.log2 (n - 1) ≤ n - 1 := Nat.log2_self_le (by omega)
  unfold split
  omega

theorem le_two_mul_split (n : ℕ) : n ≤ 2 * split n := by
  have h : n - 1 < 2 ^ (Nat.log2 (n - 1) + 1) := Nat.lt_log2_self
  unfold split
  rw [Nat.pow_succ] at h
  omega

/-- The split point is the only power of two below `n` that reaches half
of it. -/
theorem split_eq {n l : ℕ} (hlt : 2 ^ l < n) (hle : n ≤ 2 ^ (l + 1)) :
    split n = 2 ^ l := by
  have h : Nat.log2 (n - 1) = l :=
    (Nat.log2_eq_iff (by have := Nat.two_pow_pos l; omega)).2 ⟨by omega, by omega⟩
  rw [split, h]

theorem split_two_pow (l : ℕ) : split (2 ^ (l + 1)) = 2 ^ l :=
  split_eq (by rw [Nat.pow_succ]; have := Nat.two_pow_pos l; omega) (Nat.le_refl _)

theorem sub_split_lt {n : ℕ} (hn : 2 ≤ n) : n - split n < n := by
  have := split_pos n
  omega

/-- A number past the split point of `n` and not past `n` splits there too. -/
theorem split_stable {m n : ℕ} (hlt : split n < m) (hle : m ≤ n) : split m = split n := by
  have h := le_two_mul_split n
  rw [split] at hlt h ⊢
  exact split_eq hlt (by rw [Nat.pow_succ]; omega)

/-- A loop that doubles while it stays below `n` stops at the split point. -/
theorem doubling_eq_split {f : ℕ → ℕ} {n : ℕ}
    (hf : ∀ k, f k = if 0 < k ∧ k * 2 < n then f (k * 2) else k) :
    ∀ {l : ℕ}, 2 ^ l < n → f (2 ^ l) = split n := by
  intro l
  induction hd : n - 2 ^ l using Nat.strong_induction_on generalizing l with
  | _ d ih =>
      intro hlt
      have hpos := Nat.two_pow_pos l
      rw [hf]
      by_cases h : 2 ^ l * 2 < n
      · rw [if_pos ⟨hpos, h⟩, ← Nat.pow_succ]
        exact ih _ (by rw [Nat.pow_succ]; omega) rfl (by rw [Nat.pow_succ]; exact h)
      · rw [if_neg (by omega), split_eq hlt (by rw [Nat.pow_succ]; omega)]

/-! ## Roots of ranges -/

section Root

variable (node : D → D → D)

/-- The Merkle tree hash of the `size` leaves from `start` on. -/
def mth (leaf : ℕ → D) (start size : ℕ) : D :=
  if _ : 2 ≤ size then
    node (mth leaf start (split size))
      (mth leaf (start + split size) (size - split size))
  else leaf start
termination_by size
decreasing_by
  · exact split_lt ‹_›
  · exact sub_split_lt ‹_›

theorem mth_leaf (leaf : ℕ → D) (start : ℕ) {size : ℕ} (h : ¬ 2 ≤ size) :
    mth node leaf start size = leaf start := by
  rw [mth, dif_neg h]

@[simp] theorem mth_one (leaf : ℕ → D) (start : ℕ) :
    mth node leaf start 1 = leaf start := mth_leaf node leaf start (by omega)

theorem mth_node (leaf : ℕ → D) (start : ℕ) {size : ℕ} (h : 2 ≤ size) :
    mth node leaf start size =
      node (mth node leaf start (split size))
        (mth node leaf (start + split size) (size - split size)) := by
  rw [mth, dif_pos h]

/-- A range that covers a power of two splits in half. -/
theorem mth_two_pow (leaf : ℕ → D) (start l : ℕ) :
    mth node leaf start (2 ^ (l + 1)) =
      node (mth node leaf start (2 ^ l)) (mth node leaf (start + 2 ^ l) (2 ^ l)) := by
  have h : 2 ≤ 2 ^ (l + 1) := by
    rw [Nat.pow_succ]
    have := Nat.two_pow_pos l
    omega
  rw [mth_node node leaf start h, split_two_pow,
    show 2 ^ (l + 1) - 2 ^ l = 2 ^ l by rw [Nat.pow_succ]; omega]

/-- A root depends on the leaves of its range and on nothing else. -/
theorem mth_congr {leaf leaf' : ℕ → D} {start start' : ℕ} :
    ∀ {size : ℕ}, 0 < size →
      (∀ i < size, leaf (start + i) = leaf' (start' + i)) →
      mth node leaf start size = mth node leaf' start' size := by
  intro size
  induction size using Nat.strong_induction_on generalizing start start' with
  | _ size ih =>
      intro hpos heq
      by_cases h : 2 ≤ size
      · have hlt := split_lt h
        have hk := split_pos size
        rw [mth_node node leaf start h, mth_node node leaf' start' h,
          ih (split size) hlt hk (fun i hi => heq i (by omega)),
          ih (size - split size) (by omega) (by omega) (fun i hi => by
            have := heq (split size + i) (by omega)
            rwa [← Nat.add_assoc, ← Nat.add_assoc] at this)]
      · rw [mth_leaf node leaf start h, mth_leaf node leaf' start' h]
        simpa using heq 0 hpos

/-- The complete subtree of `2 ^ l` leaves that stands at place `i` of its
level. -/
def complete (leaf : ℕ → D) (l i : ℕ) : D := mth node leaf (i * 2 ^ l) (2 ^ l)

theorem complete_zero (leaf : ℕ → D) (i : ℕ) : complete node leaf 0 i = leaf i := by
  simp [complete]

theorem complete_succ (leaf : ℕ → D) (l i : ℕ) :
    complete node leaf (l + 1) i =
      node (complete node leaf l (2 * i)) (complete node leaf l (2 * i + 1)) := by
  have h₁ : i * 2 ^ (l + 1) = 2 * i * 2 ^ l := by rw [Nat.pow_succ]; ring
  have h₂ : 2 * i * 2 ^ l + 2 ^ l = (2 * i + 1) * 2 ^ l := by ring
  rw [complete, mth_two_pow, h₁, h₂, complete, complete]

theorem complete_congr {leaf leaf' : ℕ → D} {l i : ℕ}
    (h : ∀ j < (i + 1) * 2 ^ l, leaf j = leaf' j) :
    complete node leaf l i = complete node leaf' l i := by
  refine mth_congr node (Nat.two_pow_pos l) fun j hj => h _ ?_
  rw [Nat.add_mul]
  omega

/-- The pairs of digests a root combines, topmost first. -/
def mthPairs (leaf : ℕ → D) (start size : ℕ) : List (D × D) :=
  if _ : 2 ≤ size then
    (mth node leaf start (split size),
      mth node leaf (start + split size) (size - split size)) ::
      (mthPairs leaf start (split size) ++
        mthPairs leaf (start + split size) (size - split size))
  else []
termination_by size
decreasing_by
  · exact split_lt ‹_›
  · exact sub_split_lt ‹_›

theorem mthPairs_node (leaf : ℕ → D) (start : ℕ) {size : ℕ} (h : 2 ≤ size) :
    mthPairs node leaf start size =
      (mth node leaf start (split size),
        mth node leaf (start + split size) (size - split size)) ::
        (mthPairs node leaf start (split size) ++
          mthPairs node leaf (start + split size) (size - split size)) := by
  rw [mthPairs, dif_pos h]

end Root

/-! ## Audit paths

Paths run from the root down: the head is the sibling of the topmost turn.
A program that stores them leaf first reverses the list. -/

section Path

variable (node : D → D → D)

/-- The siblings met on the way from the root of a range to its leaf
`start + index`. -/
def auditPath (leaf : ℕ → D) (index start size : ℕ) : List D :=
  if _ : 2 ≤ size then
    if index < split size then
      mth node leaf (start + split size) (size - split size) ::
        auditPath leaf index start (split size)
    else
      mth node leaf start (split size) ::
        auditPath leaf (index - split size) (start + split size) (size - split size)
  else []
termination_by size
decreasing_by
  · exact split_lt ‹_›
  · exact sub_split_lt ‹_›

theorem auditPath_leaf (leaf : ℕ → D) (index start : ℕ) {size : ℕ} (h : ¬ 2 ≤ size) :
    auditPath node leaf index start size = [] := by
  rw [auditPath, dif_neg h]

theorem auditPath_left (leaf : ℕ → D) (start : ℕ) {index size : ℕ} (h : 2 ≤ size)
    (hi : index < split size) :
    auditPath node leaf index start size =
      mth node leaf (start + split size) (size - split size) ::
        auditPath node leaf index start (split size) := by
  rw [auditPath, dif_pos h, if_pos hi]

theorem auditPath_right (leaf : ℕ → D) (start : ℕ) {index size : ℕ} (h : 2 ≤ size)
    (hi : ¬ index < split size) :
    auditPath node leaf index start size =
      mth node leaf start (split size) ::
        auditPath node leaf (index - split size) (start + split size)
          (size - split size) := by
  rw [auditPath, dif_pos h, if_neg hi]

theorem auditPath_congr {leaf leaf' : ℕ → D} :
    ∀ {size index start start' : ℕ},
      (∀ i < size, leaf (start + i) = leaf' (start' + i)) →
      auditPath node leaf index start size = auditPath node leaf' index start' size := by
  intro size
  induction size using Nat.strong_induction_on with
  | _ size ih =>
      intro index start start' heq
      by_cases h : 2 ≤ size
      · have hlt := split_lt h
        have hk := split_pos size
        have hleft : ∀ i < split size, leaf (start + i) = leaf' (start' + i) :=
          fun i hi => heq i (by omega)
        have hright : ∀ i < size - split size,
            leaf (start + split size + i) = leaf' (start' + split size + i) := by
          intro i hi
          have := heq (split size + i) (by omega)
          rwa [← Nat.add_assoc, ← Nat.add_assoc] at this
        by_cases hi : index < split size
        · rw [auditPath_left node leaf start h hi, auditPath_left node leaf' start' h hi,
            mth_congr node (by omega) hright, ih (split size) hlt hleft]
        · rw [auditPath_right node leaf start h hi, auditPath_right node leaf' start' h hi,
            mth_congr node hk hleft, ih (size - split size) (sub_split_lt h) hright]
      · rw [auditPath_leaf node leaf index start h, auditPath_leaf node leaf' index start' h]

/-- The root a leaf digest and a path lead to, or nothing when the path has
not exactly one sibling for each turn. -/
def climb (d : D) (index size : ℕ) (siblings : List D) : Option D :=
  if _ : 2 ≤ size then
    match siblings with
    | [] => none
    | s :: rest =>
        if index < split size then
          (climb d index (split size) rest).map fun x => node x s
        else
          (climb d (index - split size) (size - split size) rest).map fun x => node s x
  else if siblings = [] then some d else none
termination_by size
decreasing_by
  · exact split_lt ‹_›
  · exact sub_split_lt ‹_›

theorem climb_leaf (d : D) (index : ℕ) {size : ℕ} (siblings : List D) (h : ¬ 2 ≤ size) :
    climb node d index size siblings = if siblings = [] then some d else none := by
  rw [climb.eq_def, dif_neg h]

theorem climb_nil (d : D) (index : ℕ) {size : ℕ} (h : 2 ≤ size) :
    climb node d index size [] = none := by
  rw [climb, dif_pos h]

theorem climb_left (d s : D) (rest : List D) {index size : ℕ} (h : 2 ≤ size)
    (hi : index < split size) :
    climb node d index size (s :: rest) =
      (climb node d index (split size) rest).map fun x => node x s := by
  rw [climb, dif_pos h]
  exact if_pos hi

theorem climb_right (d s : D) (rest : List D) {index size : ℕ} (h : 2 ≤ size)
    (hi : ¬ index < split size) :
    climb node d index size (s :: rest) =
      (climb node d (index - split size) (size - split size) rest).map
        fun x => node s x := by
  rw [climb, dif_pos h]
  exact if_neg hi

/-- The audit path of a leaf climbs to the root. -/
theorem climb_auditPath (leaf : ℕ → D) :
    ∀ {size index start : ℕ}, index < size →
      climb node (leaf (start + index)) index size (auditPath node leaf index start size) =
        some (mth node leaf start size) := by
  intro size
  induction size using Nat.strong_induction_on with
  | _ size ih =>
      intro index start hi
      by_cases h : 2 ≤ size
      · have hlt := split_lt h
        by_cases hk : index < split size
        · rw [auditPath_left node leaf start h hk, climb_left node _ _ _ h hk,
            ih (split size) hlt hk, Option.map_some, ← mth_node node leaf start h]
        · have hsub : start + index = start + split size + (index - split size) := by omega
          rw [auditPath_right node leaf start h hk, climb_right node _ _ _ h hk, hsub,
            ih (size - split size) (sub_split_lt h) (by omega), Option.map_some,
            ← mth_node node leaf start h]
      · obtain rfl : index = 0 := by omega
        rw [auditPath_leaf node leaf 0 start h, climb_leaf node _ _ _ h, if_pos rfl,
          mth_leaf node leaf start h, Nat.add_zero]

/-- The pairs of digests a climb combines, topmost first. -/
def climbPairs (d : D) (index size : ℕ) (siblings : List D) : List (D × D) :=
  if _ : 2 ≤ size then
    match siblings with
    | [] => []
    | s :: rest =>
        if index < split size then
          (match climb node d index (split size) rest with
            | some x => [(x, s)]
            | none => []) ++ climbPairs d index (split size) rest
        else
          (match climb node d (index - split size) (size - split size) rest with
            | some x => [(s, x)]
            | none => []) ++ climbPairs d (index - split size) (size - split size) rest
  else []
termination_by size
decreasing_by
  · exact split_lt ‹_›
  · exact sub_split_lt ‹_›

theorem climbPairs_left (d s : D) (rest : List D) {index size : ℕ} (h : 2 ≤ size)
    (hi : index < split size) :
    climbPairs node d index size (s :: rest) =
      (match climb node d index (split size) rest with
        | some x => [(x, s)]
        | none => []) ++ climbPairs node d index (split size) rest := by
  rw [climbPairs, dif_pos h]
  exact if_pos hi

theorem climbPairs_right (d s : D) (rest : List D) {index size : ℕ} (h : 2 ≤ size)
    (hi : ¬ index < split size) :
    climbPairs node d index size (s :: rest) =
      (match climb node d (index - split size) (size - split size) rest with
        | some x => [(s, x)]
        | none => []) ++
        climbPairs node d (index - split size) (size - split size) rest := by
  rw [climbPairs, dif_pos h]
  exact if_neg hi

end Path

/-! ## Binding

`node` need not be injective, and no hash is. What the two results ask is
that it tells apart the pairs that were really combined on the two sides. -/

section Binding

variable {node : D → D → D}

/-- `node` maps no pair of `ps` and different pair of `qs` to one digest. -/
def Separates (node : D → D → D) (ps qs : List (D × D)) : Prop :=
  ∀ p ∈ ps, ∀ q ∈ qs, node p.1 p.2 = node q.1 q.2 → p = q

theorem Separates.mono {ps qs ps' qs' : List (D × D)} (h : Separates node ps qs)
    (hp : ps' ⊆ ps) (hq : qs' ⊆ qs) : Separates node ps' qs' :=
  fun p hp' q hq' => h p (hp hp') q (hq hq')

/-- A path that climbs to the root of a range is the audit path of its leaf,
from the digest of that leaf. -/
theorem climb_binding {leaf : ℕ → D} :
    ∀ {size index start : ℕ} {d : D} {siblings : List D}, index < size →
      Separates node (climbPairs node d index size siblings) (mthPairs node leaf start size) →
      climb node d index size siblings = some (mth node leaf start size) →
      d = leaf (start + index) ∧ siblings = auditPath node leaf index start size := by
  intro size
  induction size using Nat.strong_induction_on with
  | _ size ih =>
      intro index start d siblings hi hsep hc
      by_cases h : 2 ≤ size
      · have hlt := split_lt h
        rw [mthPairs_node node leaf start h] at hsep
        rw [mth_node node leaf start h] at hc
        cases siblings with
        | nil => rw [climb_nil node d index h] at hc; cases hc
        | cons s rest =>
            by_cases hk : index < split size
            · rw [climb_left node d s rest h hk] at hc
              rw [climbPairs_left node d s rest h hk] at hsep
              obtain ⟨x, hx, hxs⟩ := Option.map_eq_some_iff.1 hc
              rw [hx] at hsep
              have hpair := hsep (x, s) (by simp) _ List.mem_cons_self hxs
              obtain ⟨rfl, rfl⟩ := Prod.mk.inj hpair
              obtain ⟨hd, hrest⟩ := ih (split size) hlt hk
                (hsep.mono (by simp) (fun q hq => by simp [hq])) hx
              exact ⟨hd, by rw [auditPath_left node leaf start h hk, ← hrest]⟩
            · rw [climb_right node d s rest h hk] at hc
              rw [climbPairs_right node d s rest h hk] at hsep
              obtain ⟨x, hx, hxs⟩ := Option.map_eq_some_iff.1 hc
              rw [hx] at hsep
              have hpair := hsep (s, x) (by simp) _ List.mem_cons_self hxs
              obtain ⟨rfl, rfl⟩ := Prod.mk.inj hpair
              obtain ⟨hd, hrest⟩ := ih (size - split size) (sub_split_lt h) (by omega)
                (hsep.mono (by simp) (fun q hq => by simp [hq])) hx
              refine ⟨?_, by rw [auditPath_right node leaf start h hk, ← hrest]⟩
              rw [hd]
              congr 1
              omega
      · obtain rfl : index = 0 := by omega
        rw [climb_leaf node d 0 siblings h] at hc
        split at hc
        · next hnil =>
            rw [mth_leaf node leaf start h] at hc
            exact ⟨by simpa using hc, by rw [hnil, auditPath_leaf node leaf 0 start h]⟩
        · cases hc

/-- No leaf of a range is the digest of one of these pairs. -/
def Apart (node : D → D → D) (leaf : ℕ → D) (start size : ℕ) (ps : List (D × D)) : Prop :=
  ∀ i < size, ∀ p ∈ ps, leaf (start + i) ≠ node p.1 p.2

/-- Where leaves and nodes are told apart, a root fixes the number of leaves. -/
theorem mth_size_binding {leaf leaf' : ℕ → D} :
    ∀ {size size' start start' : ℕ}, 0 < size → 0 < size' →
      Separates node (mthPairs node leaf start size) (mthPairs node leaf' start' size') →
      Apart node leaf start size (mthPairs node leaf' start' size') →
      Apart node leaf' start' size' (mthPairs node leaf start size) →
      mth node leaf start size = mth node leaf' start' size' → size = size' := by
  intro size
  induction size using Nat.strong_induction_on with
  | _ size ih =>
      intro size' start start' hpos hpos' hsep hap hap' heq
      by_cases h : 2 ≤ size
      · have hlt := split_lt h
        have hk := split_pos size
        by_cases h' : 2 ≤ size'
        · have hlt' := split_lt h'
          have hk' := split_pos size'
          rw [mthPairs_node node leaf start h] at hsep hap'
          rw [mthPairs_node node leaf' start' h'] at hsep hap
          rw [mth_node node leaf start h, mth_node node leaf' start' h'] at heq
          obtain ⟨hl, hr⟩ :=
            Prod.mk.inj (hsep _ List.mem_cons_self _ List.mem_cons_self heq)
          have hleft := ih (split size) hlt hk hk'
            (hsep.mono (fun q hq => by simp [hq]) (fun q hq => by simp [hq]))
            (fun i hi p hp => hap i (by omega) p (by simp [hp]))
            (fun i hi p hp => hap' i (by omega) p (by simp [hp])) hl
          have hright := ih (size - split size) (sub_split_lt h) (by omega) (by omega)
            (hsep.mono (fun q hq => by simp [hq]) (fun q hq => by simp [hq]))
            (fun i hi p hp => by
              have := hap (split size + i) (by omega) p (by simp [hp])
              rwa [← Nat.add_assoc] at this)
            (fun i hi p hp => by
              have := hap' (split size' + i) (by omega) p (by simp [hp])
              rwa [← Nat.add_assoc] at this) hr
          omega
        · rw [mth_node node leaf start h, mth_leaf node leaf' start' h'] at heq
          exact absurd heq.symm (hap' 0 hpos' (_, _)
            (by rw [mthPairs_node node leaf start h]; exact List.mem_cons_self))
      · by_cases h' : 2 ≤ size'
        · rw [mth_leaf node leaf start h, mth_node node leaf' start' h'] at heq
          exact absurd heq (hap 0 hpos (_, _)
            (by rw [mthPairs_node node leaf' start' h']; exact List.mem_cons_self))
        · omega

/-- Two ranges of one size with one root have the same leaves. -/
theorem mth_binding {leaf leaf' : ℕ → D} :
    ∀ {size start start' : ℕ},
      Separates node (mthPairs node leaf start size) (mthPairs node leaf' start' size) →
      mth node leaf start size = mth node leaf' start' size →
      ∀ i < size, leaf (start + i) = leaf' (start' + i) := by
  intro size
  induction size using Nat.strong_induction_on with
  | _ size ih =>
      intro start start' hsep heq i hi
      by_cases h : 2 ≤ size
      · have hlt := split_lt h
        rw [mthPairs_node node leaf start h, mthPairs_node node leaf' start' h] at hsep
        rw [mth_node node leaf start h, mth_node node leaf' start' h] at heq
        have hpair := hsep _ List.mem_cons_self _ List.mem_cons_self heq
        obtain ⟨hl, hr⟩ := Prod.mk.inj hpair
        by_cases hk : i < split size
        · exact ih (split size) hlt
            (hsep.mono (fun q hq => by simp [hq]) (fun q hq => by simp [hq])) hl i hk
        · have hright := ih (size - split size) (sub_split_lt h)
            (hsep.mono (fun q hq => by simp [hq]) (fun q hq => by simp [hq])) hr
            (i - split size) (by omega)
          rwa [Nat.add_assoc, Nat.add_assoc, Nat.add_sub_cancel' (by omega)] at hright
      · obtain rfl : i = 0 := by omega
        rw [mth_leaf node leaf start h, mth_leaf node leaf' start' h] at heq
        simpa using heq

end Binding

end Atrib.Lib.Merkle
