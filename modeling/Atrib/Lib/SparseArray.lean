import Mathlib.Data.List.Basic

/-!
# Arrays with holes

The arrays of a scripting language: a slot past the end can be assigned, the
slots skipped on the way are holes, and reading a hole or a place past the
end gives nothing.
-/

namespace Atrib.Lib

/-- A growable array whose slots may be empty. -/
abbrev SparseArray (α : Type*) := List (Option α)

namespace SparseArray

variable {α : Type*}

/-- The value at a place, if one was assigned there. -/
def read (xs : SparseArray α) (i : ℕ) : Option α := xs[i]?.join

/-- Assign a place, with holes up to it when it lies past the end. -/
def write (xs : SparseArray α) (i : ℕ) (a : α) : SparseArray α :=
  if i < xs.length then xs.set i (some a)
  else xs ++ List.replicate (i - xs.length) none ++ [some a]

@[simp] theorem read_nil (i : ℕ) : read ([] : SparseArray α) i = none := rfl

@[simp] theorem read_write_self (xs : SparseArray α) (i : ℕ) (a : α) :
    (xs.write i a).read i = some a := by
  unfold read write
  split
  · next h => simp [h]
  · next h =>
      have hlen : (xs ++ List.replicate (i - xs.length) none).length = i := by
        rw [List.length_append, List.length_replicate]
        omega
      rw [List.getElem?_append_right (by omega), hlen]
      simp

theorem read_write_ne (xs : SparseArray α) {i j : ℕ} (a : α) (h : j ≠ i) :
    (xs.write i a).read j = xs.read j := by
  unfold read write
  split
  · next hi => rw [List.getElem?_set_ne (Ne.symm h)]
  · next hi =>
      rcases Nat.lt_or_ge j xs.length with hj | hj
      · rw [List.append_assoc, List.getElem?_append_left hj]
      · rw [List.append_assoc, List.getElem?_append_right hj,
          List.getElem?_eq_none (by omega : xs.length ≤ j)]
        rcases Nat.lt_or_ge (j - xs.length) (i - xs.length) with hlt | hge
        · rw [List.getElem?_append_left (by simpa using hlt), List.getElem?_replicate,
            if_pos hlt]
          rfl
        · rw [List.getElem?_eq_none]
          simp only [List.length_append, List.length_replicate, List.length_singleton]
          omega

end SparseArray

end Atrib.Lib
