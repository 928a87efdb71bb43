import Mathlib.Logic.Function.Basic
import Mathlib.Order.Lattice

/-!
# The newest of many tails

Several sources have a tail each, or none; tails are compared by a key. When
the tail of one source changes, the newest tail can be kept up to date without
looking at the other sources, unless it was the tail of that source and the new
one is not newer.
-/

namespace Atrib.Lib

variable {ι R L : Type*} [LinearOrder L]

/-- The source has this tail and no source has one with a greater key. -/
structure Newest (key : R → L) (tails : ι → Option R) (i : ι) (r : R) : Prop where
  here : tails i = some r
  le : ∀ j r', tails j = some r' → key r' ≤ key r

namespace Newest

variable {key : R → L} {tails : ι → Option R} {i j : ι} {r r' : R}

theorem key_eq (h : Newest key tails i r) (h' : Newest key tails j r') : key r = key r' :=
  le_antisymm (h'.le _ _ h.here) (h.le _ _ h'.here)

variable [DecidableEq ι]

/-- The first tail there is. -/
theorem of_none (h : ∀ j, tails j = none) (i : ι) (r : R) :
    Newest key (Function.update tails i (some r)) i r := by
  refine ⟨Function.update_self i (some r) tails, fun j r' hj => ?_⟩
  rw [Function.update_apply, h] at hj
  split at hj
  · injection hj with hj
    rw [hj]
  · cases hj

/-- A newer tail is the newest. -/
theorem newer (h : Newest key tails i r) (hlt : key r < key r') (j : ι) :
    Newest key (Function.update tails j (some r')) j r' := by
  refine ⟨Function.update_self j (some r') tails, fun k r₀ hk => ?_⟩
  rw [Function.update_apply] at hk
  split at hk
  · injection hk with hk
    rw [hk]
  · exact le_trans (h.le k r₀ hk) (le_of_lt hlt)

/-- Another source's tail that is not newer changes nothing. -/
theorem older (h : Newest key tails i r) (hle : key r' ≤ key r) (hne : i ≠ j) :
    Newest key (Function.update tails j (some r')) i r := by
  refine ⟨by rw [Function.update_of_ne hne, h.here], fun k r₀ hk => ?_⟩
  rw [Function.update_apply] at hk
  split at hk
  · injection hk with hk
    rw [← hk]
    exact hle
  · exact h.le k r₀ hk

end Newest

end Atrib.Lib
