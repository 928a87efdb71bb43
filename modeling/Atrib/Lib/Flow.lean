import Mathlib.Algebra.BigOperators.Ring.Finset
import Mathlib.Algebra.Order.BigOperators.Group.Finset
import Mathlib.Data.Finset.Basic
import Mathlib.Tactic.Linarith
import Mathlib.Tactic.Ring

/-!
# Flows

A flow is given by what it carries from each vertex to each other, as a skew
function below the capacities. A program keeps what is left of the capacities,
and what can be sent back; sending something along a path from the source to the
sink takes it off one and adds it to the other. Where nothing is left on the way
out of a set with the source and without the sink, no flow carries more.
-/

namespace Atrib.Lib.Flow

variable {V : Type*} {U : Finset V} {c : V → V → ℤ} {s t : V}

/-- What flows out of the source. -/
def value (U : Finset V) (s : V) (f : V → V → ℤ) : ℤ := ∑ v ∈ U, f s v

structure IsFlow (U : Finset V) (c : V → V → ℤ) (s t : V) (f : V → V → ℤ) : Prop where
  skew : ∀ u v, f u v = -f v u
  capacity : ∀ u v, f u v ≤ c u v
  conserved : ∀ u ∈ U, u ≠ s → u ≠ t → ∑ v ∈ U, f u v = 0

/-- Some flow carries as much, and none more. -/
def IsMaxFlow (U : Finset V) (c : V → V → ℤ) (s t : V) (n : ℤ) : Prop :=
  (∃ f, IsFlow U c s t f ∧ value U s f = n) ∧ ∀ f, IsFlow U c s t f → value U s f ≤ n

/-! ## Cuts -/

namespace IsFlow

variable {f : V → V → ℤ}

theorem sum_within (h : IsFlow U c s t f) (S : Finset V) : ∑ u ∈ S, ∑ v ∈ S, f u v = 0 := by
  have hswap : ∑ u ∈ S, ∑ v ∈ S, f u v = ∑ u ∈ S, ∑ v ∈ S, f v u := Finset.sum_comm
  have hskew : ∑ u ∈ S, ∑ v ∈ S, f u v = -∑ u ∈ S, ∑ v ∈ S, f v u := by
    rw [← Finset.sum_neg_distrib]
    refine Finset.sum_congr rfl fun u _ => ?_
    rw [← Finset.sum_neg_distrib]
    exact Finset.sum_congr rfl fun v _ => h.skew u v
  linarith

variable [DecidableEq V]

/-- All of a flow crosses a cut. -/
theorem value_eq_cut (h : IsFlow U c s t f) {S : Finset V} (hS : S ⊆ U) (hs : s ∈ S)
    (ht : t ∉ S) : value U s f = ∑ u ∈ S, ∑ v ∈ U \ S, f u v := by
  have hsource : ∑ u ∈ S, ∑ v ∈ U, f u v = value U s f := by
    refine Finset.sum_eq_single_of_mem s hs fun u hu hne => ?_
    exact h.conserved u (hS hu) hne fun heq => ht (heq ▸ hu)
  have hsplit : ∀ u, ∑ v ∈ U, f u v = ∑ v ∈ U \ S, f u v + ∑ v ∈ S, f u v := fun u =>
    (Finset.sum_sdiff hS).symm
  rw [← hsource, Finset.sum_congr rfl fun u _ => hsplit u, Finset.sum_add_distrib,
    h.sum_within, add_zero]

theorem value_le_cut (h : IsFlow U c s t f) {S : Finset V} (hS : S ⊆ U) (hs : s ∈ S)
    (ht : t ∉ S) : value U s f ≤ ∑ u ∈ S, ∑ v ∈ U \ S, c u v := by
  rw [h.value_eq_cut hS hs ht]
  exact Finset.sum_le_sum fun u _ => Finset.sum_le_sum fun v _ => h.capacity u v

/-- A flow that fills a cut is greatest. -/
theorem isMaxFlow_of_cut (h : IsFlow U c s t f) {S : Finset V} (hS : S ⊆ U) (hs : s ∈ S)
    (ht : t ∉ S) (hfull : ∀ u ∈ S, ∀ v ∈ U, v ∉ S → f u v = c u v) :
    IsMaxFlow U c s t (value U s f) := by
  refine ⟨⟨f, h, rfl⟩, fun g hg => ?_⟩
  calc value U s g ≤ ∑ u ∈ S, ∑ v ∈ U \ S, c u v := hg.value_le_cut hS hs ht
    _ = ∑ u ∈ S, ∑ v ∈ U \ S, f u v := by
        refine Finset.sum_congr rfl fun u hu => Finset.sum_congr rfl fun v hv => ?_
        obtain ⟨hv, hvS⟩ := Finset.mem_sdiff.1 hv
        exact (hfull u hu v hv hvS).symm
    _ = value U s f := (h.value_eq_cut hS hs ht).symm

end IsFlow

/-! ## What is left -/

/-- The capacities that are left beside a flow of a value. -/
structure Residual (U : Finset V) (c : V → V → ℤ) (s t : V) (r : V → V → ℤ) (n : ℤ) : Prop where
  nonneg : ∀ u v, 0 ≤ r u v
  balanced : ∀ u v, r u v + r v u = c u v + c v u
  conserved : ∀ u ∈ U, u ≠ s → u ≠ t → ∑ v ∈ U, (c u v - r u v) = 0
  carried : ∑ v ∈ U, (c s v - r s v) = n

namespace Residual

variable {r : V → V → ℤ} {n : ℤ}

theorem init (hc : ∀ u v, 0 ≤ c u v) : Residual U c s t c 0 where
  nonneg := hc
  balanced _ _ := rfl
  conserved _ _ _ _ := by simp
  carried := by simp

theorem isFlow (h : Residual U c s t r n) : IsFlow U c s t fun u v => c u v - r u v where
  skew u v := by
    have := h.balanced u v
    linarith
  capacity u v := by
    have := h.nonneg u v
    linarith
  conserved := h.conserved

theorem value_eq (h : Residual U c s t r n) : value U s (fun u v => c u v - r u v) = n := h.carried

/-- Nothing is left on the way out of a set with the source. -/
theorem isMaxFlow [DecidableEq V] (h : Residual U c s t r n) {S : Finset V} (hS : S ⊆ U) (hs : s ∈ S)
    (ht : t ∉ S) (hclosed : ∀ u ∈ S, ∀ v ∈ U, v ∉ S → r u v ≤ 0) : IsMaxFlow U c s t n := by
  rw [← h.value_eq]
  refine h.isFlow.isMaxFlow_of_cut hS hs ht fun u hu v hv hvS => ?_
  have hle := hclosed u hu v hv hvS
  have hpos := h.nonneg u v
  linarith

theorem le_source (h : Residual U c s t r n) : n ≤ ∑ v ∈ U, c s v := by
  rw [← h.value_eq]
  exact Finset.sum_le_sum fun v _ => h.isFlow.capacity s v

end Residual

/-! ## Along a path -/

/-- The edges of a way from a vertex to another, the last one first. -/
def Trail (s : V) : List (V × V) → V → Prop
  | [], v => v = s
  | (a, b) :: edges, v => v = b ∧ Trail s edges a

variable [DecidableEq V]

/-- Some more over an edge. -/
def push (δ : ℤ) (r : V → V → ℤ) (e : V × V) (u v : V) : ℤ :=
  r u v - (if (u, v) = e then δ else 0) + if (v, u) = e then δ else 0

theorem foldl_push (δ : ℤ) (edges : List (V × V)) : ∀ (r : V → V → ℤ) (u v : V),
    edges.foldl (push δ) r u v = r u v - δ * edges.count (u, v) + δ * edges.count (v, u) := by
  induction edges with
  | nil => simp
  | cons e edges ih =>
      intro r u v
      rw [List.foldl_cons, ih, push, List.count_cons, List.count_cons]
      by_cases huv : (u, v) = e
      · by_cases hvu : (v, u) = e
        · simp only [huv, hvu, if_true, beq_self_eq_true]
          push_cast
          ring
        · have hne : (e == (v, u)) = false := beq_eq_false_iff_ne.2 (Ne.symm hvu)
          simp only [huv, hvu, hne, if_true, if_false, beq_self_eq_true]
          push_cast
          ring
      · have hne : (e == (u, v)) = false := beq_eq_false_iff_ne.2 (Ne.symm huv)
        by_cases hvu : (v, u) = e
        · simp only [huv, hvu, hne, if_true, if_false, beq_self_eq_true]
          push_cast
          ring
        · have hne' : (e == (v, u)) = false := beq_eq_false_iff_ne.2 (Ne.symm hvu)
          simp [huv, hvu, hne, hne']

/-- A way leaves where it begins and enters where it ends. -/
theorem sum_count {edges : List (V × V)} : ∀ {v : V}, Trail s edges v →
    (∀ e ∈ edges, e.1 ∈ U ∧ e.2 ∈ U) → ∀ u,
      ∑ w ∈ U, ((edges.count (u, w) : ℤ) - edges.count (w, u)) =
        (if u = s then 1 else 0) - if u = v then 1 else 0 := by
  induction edges with
  | nil =>
      rintro v rfl - u
      simp
  | cons e edges ih =>
      obtain ⟨a, b⟩ := e
      rintro v ⟨rfl, htrail⟩ hU u
      obtain ⟨⟨ha, hb⟩, hrest⟩ := List.forall_mem_cons.1 hU
      have hout : ∑ w ∈ U, (if ((a, v) : V × V) = (u, w) then (1 : ℤ) else 0) =
          if u = a then 1 else 0 := by
        by_cases hua : u = a
        · simp [hua, hb]
        · simp [hua, Ne.symm hua]
      have hin : ∑ w ∈ U, (if ((a, v) : V × V) = (w, u) then (1 : ℤ) else 0) =
          if u = v then 1 else 0 := by
        by_cases huv : u = v
        · simp [huv, ha]
        · simp [huv, Ne.symm huv]
      have hcount : ∀ e : V × V, (((a, v) :: edges).count e : ℤ) =
          edges.count e + if ((a, v) : V × V) = e then 1 else 0 := by
        intro e
        rw [List.count_cons]
        by_cases he : ((a, v) : V × V) = e
        · simp [he]
        · have hne : (((a, v) : V × V) == e) = false := beq_eq_false_iff_ne.2 he
          simp [he, hne]
      calc ∑ w ∈ U, ((((a, v) :: edges).count (u, w) : ℤ) - ((a, v) :: edges).count (w, u))
          = ∑ w ∈ U, ((edges.count (u, w) : ℤ) - edges.count (w, u)) +
              (∑ w ∈ U, (if ((a, v) : V × V) = (u, w) then (1 : ℤ) else 0) -
                ∑ w ∈ U, if ((a, v) : V × V) = (w, u) then (1 : ℤ) else 0) := by
            rw [← Finset.sum_sub_distrib, ← Finset.sum_add_distrib]
            refine Finset.sum_congr rfl fun w _ => ?_
            rw [hcount, hcount]
            ring
        _ = (if u = s then 1 else 0) - if u = v then 1 else 0 := by
            rw [ih htrail hrest, hout, hin]
            ring

/-- As much as is left everywhere on a way can be sent along it. -/
theorem Residual.augment {r : V → V → ℤ} {n δ : ℤ} {edges : List (V × V)}
    (h : Residual U c s t r n) (hne : s ≠ t) (htrail : Trail s edges t)
    (hU : ∀ e ∈ edges, e.1 ∈ U ∧ e.2 ∈ U) (hnodup : edges.Nodup)
    (hleft : ∀ e ∈ edges, δ ≤ r e.1 e.2) (hδ : 0 ≤ δ) :
    Residual U c s t (edges.foldl (push δ) r) (n + δ) := by
  have hsum : ∀ u, ∑ v ∈ U, (c u v - edges.foldl (push δ) r u v) =
      ∑ v ∈ U, (c u v - r u v) + δ * ((if u = s then 1 else 0) - if u = t then 1 else 0) := by
    intro u
    rw [← sum_count htrail hU u, Finset.mul_sum, ← Finset.sum_add_distrib]
    refine Finset.sum_congr rfl fun v _ => ?_
    rw [foldl_push]
    ring
  refine ⟨fun u v => ?_, fun u v => ?_, fun u hu hus hut => ?_, ?_⟩
  · rw [foldl_push]
    have hpos := h.nonneg u v
    have hback : 0 ≤ δ * (edges.count (v, u) : ℤ) := mul_nonneg hδ (Int.natCast_nonneg _)
    by_cases hmem : (u, v) ∈ edges
    · have hone : edges.count (u, v) = 1 := List.count_eq_one_of_mem hnodup hmem
      have hle := hleft _ hmem
      rw [hone]
      push_cast
      linarith
    · rw [List.count_eq_zero_of_not_mem hmem]
      push_cast
      linarith
  · have hbalanced := h.balanced u v
    rw [foldl_push, foldl_push]
    linarith
  · rw [hsum, h.conserved u hu hus hut, if_neg hus, if_neg hut]
    ring
  · rw [hsum, h.carried, if_pos rfl, if_neg hne]
    ring

end Atrib.Lib.Flow
