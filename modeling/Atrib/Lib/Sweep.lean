import Mathlib.Data.List.Perm.Basic

/-!
# Sweeping a list of pending items

A state takes items from a list as they become ready. A sweep goes through the
list once, from its end, and takes what is ready when it comes to it; sweeps
are repeated while they take something. When that ends, nothing that is left is
ready, and what was taken was ready when it was taken.
-/

namespace Atrib.Lib

variable {ι σ : Type*} (ready : σ → ι → Bool) (take : σ → ι → σ)

/-- One sweep: the items that are left, and the state. -/
def sweep : List ι → σ → List ι × σ
  | [], s => ([], s)
  | item :: items, s =>
      let r := sweep items s
      if ready r.2 item then (r.1, take r.2 item) else (item :: r.1, r.2)

/-- Sweep while something is taken. -/
def sweepAll : ℕ → List ι → σ → List ι × σ
  | 0, items, s => (items, s)
  | n + 1, items, s =>
      let r := sweep ready take items s
      if r.1.length < items.length then sweepAll n r.1 r.2 else r

/-- Each item was ready when the state took it. -/
def TakenReady (s : σ) : List ι → Prop
  | [] => True
  | item :: items => ready s item = true ∧ TakenReady (take s item) items

variable {ready take}

theorem TakenReady.append {s : σ} {xs ys : List ι} (hxs : TakenReady ready take s xs)
    (hys : TakenReady ready take (xs.foldl take s) ys) : TakenReady ready take s (xs ++ ys) := by
  induction xs generalizing s with
  | nil => exact hys
  | cons x xs ih => exact ⟨hxs.1, ih hxs.2 hys⟩

theorem TakenReady.split {s : σ} {xs ys : List ι} (h : TakenReady ready take s (xs ++ ys)) :
    TakenReady ready take s xs ∧ TakenReady ready take (xs.foldl take s) ys := by
  induction xs generalizing s with
  | nil => exact ⟨trivial, h⟩
  | cons x xs ih =>
      obtain ⟨hxs, hys⟩ := ih h.2
      exact ⟨⟨h.1, hxs⟩, hys⟩

/-- What a sweep does: some items are taken one after the other, and if none is, none was
ready. -/
theorem sweep_spec (items : List ι) (s : σ) :
    ∃ taken, items.Perm ((sweep ready take items s).1 ++ taken) ∧
    (sweep ready take items s).2 = taken.foldl take s ∧ TakenReady ready take s taken ∧
    (taken = [] → ∀ item ∈ items, ready s item = false) := by
  induction items with
  | nil => exact ⟨[], .nil, rfl, trivial, nofun⟩
  | cons item items ih =>
      obtain ⟨taken, hperm, hstate, hready, hnone⟩ := ih
      rw [sweep]
      by_cases h : ready (sweep ready take items s).2 item = true
      · rw [if_pos h]
        refine ⟨taken ++ [item], ?_, ?_, ?_, fun hnil => absurd hnil (by simp)⟩
        · rw [← List.append_assoc]
          exact (hperm.cons item).trans (List.perm_append_singleton item _).symm
        · rw [List.foldl_append, ← hstate]
          rfl
        · rw [hstate] at h
          exact hready.append ⟨h, trivial⟩
      · rw [if_neg h]
        refine ⟨taken, hperm.cons item, hstate, hready, fun hnil x hx => ?_⟩
        rcases List.mem_cons.1 hx with rfl | hx
        · rw [hstate, hnil] at h
          exact eq_false_of_ne_true h
        · exact hnone hnil x hx

/-- What repeated sweeps do, when there are enough of them. -/
theorem sweepAll_spec {n : ℕ} {items : List ι} {s : σ} (hn : items.length ≤ n) :
    ∃ taken, items.Perm ((sweepAll ready take n items s).1 ++ taken) ∧
    (sweepAll ready take n items s).2 = taken.foldl take s ∧ TakenReady ready take s taken ∧
    ∀ item ∈ (sweepAll ready take n items s).1,
      ready (sweepAll ready take n items s).2 item = false := by
  induction n generalizing items s with
  | zero =>
      obtain rfl := List.eq_nil_of_length_eq_zero (Nat.le_zero.1 hn)
      exact ⟨[], .nil, rfl, trivial, nofun⟩
  | succ n ih =>
      obtain ⟨taken, hperm, hstate, hready, hnone⟩ := @sweep_spec _ _ ready take items s
      have hlength := hperm.length_eq
      rw [List.length_append] at hlength
      rw [sweepAll]
      by_cases hless : (sweep ready take items s).1.length < items.length
      · rw [if_pos hless]
        obtain ⟨later, hperm', hstate', hready', hrest⟩ :=
          @ih (sweep ready take items s).1 (sweep ready take items s).2 (by omega)
        refine ⟨taken ++ later, ?_, ?_, hready.append (hstate ▸ hready'), hrest⟩
        · refine hperm.trans ((hperm'.append_right taken).trans ?_)
          rw [List.append_assoc]
          exact List.perm_append_comm.append_left _
        · rw [hstate', hstate, List.foldl_append]
      · rw [if_neg hless]
        obtain rfl : taken = [] := List.eq_nil_of_length_eq_zero (by omega)
        refine ⟨[], hperm, hstate, trivial, fun item hitem => ?_⟩
        rw [hstate]
        exact hnone rfl item (hperm.symm.subset (List.mem_append_left _ hitem))

end Atrib.Lib
