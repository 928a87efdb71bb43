import Mathlib.Data.List.Dedup
import Mathlib.Data.List.Perm.Basic

/-!
# Sorting by a comparison

A list is sorted by a function that compares two members. Where the comparison
tells any two members of a list apart, the sorted list is a matter of what its
members are, and the order they came in does not show.
-/

namespace Atrib.Lib

variable {α : Type*} {cmp : α → α → Ordering}

/-- `list.sort(cmp)` -/
def sortBy (cmp : α → α → Ordering) (l : List α) : List α := l.mergeSort fun a b => (cmp a b).isLE

@[simp] theorem mem_sortBy {l : List α} {a : α} : a ∈ sortBy cmp l ↔ a ∈ l := List.mem_mergeSort

theorem sortBy_perm (l : List α) : (sortBy cmp l).Perm l := List.mergeSort_perm l _

@[simp] theorem length_sortBy (l : List α) : (sortBy cmp l).length = l.length :=
  List.length_mergeSort l

theorem sortBy_pairwise [Std.TransCmp cmp] (l : List α) :
    (sortBy cmp l).Pairwise fun a b => (cmp a b).isLE = true :=
  List.pairwise_mergeSort (fun _ _ _ => Std.TransCmp.isLE_trans) (fun a b => by
    have hswap : cmp a b = (cmp b a).swap := Std.OrientedCmp.eq_swap
    cases hba : cmp b a <;> rw [hba] at hswap <;> rw [hswap] <;> rfl) l

/-- Lists with the same members are the same when they are sorted. -/
theorem sortBy_eq_of_perm [Std.TransCmp cmp] {l l' : List α} (hperm : l.Perm l')
    (hanti : ∀ a ∈ l, ∀ b ∈ l, cmp a b = .eq → a = b) : sortBy cmp l = sortBy cmp l' := by
  refine List.Perm.eq_of_pairwise ?_ (sortBy_pairwise l) (sortBy_pairwise l')
    ((sortBy_perm l).trans (hperm.trans (sortBy_perm l').symm))
  intro a b ha hb hab hba
  refine hanti a (mem_sortBy.1 ha) b (hperm.symm.subset (mem_sortBy.1 hb)) ?_
  exact Std.OrientedCmp.isLE_antisymm hab hba

/-- Only how the members compare matters. -/
theorem sortBy_congr {cmp' : α → α → Ordering} {l : List α}
    (h : ∀ a ∈ l, ∀ b ∈ l, cmp a b = cmp' a b) : sortBy cmp l = sortBy cmp' l := by
  have hmap := @List.map_mergeSort _ _ (fun a b => (cmp a b).isLE) (fun a b => (cmp' a b).isLE) id l
    fun a ha b hb => congrArg Ordering.isLE (h a ha b hb)
  rw [List.map_id, List.map_id] at hmap
  exact hmap

/-- Things may be compared by what they are mapped to. -/
theorem transCmp_on {β : Type*} (cmp : β → β → Ordering) [Std.TransCmp cmp] (f : α → β) :
    Std.TransCmp fun a b => cmp (f a) (f b) where
  eq_swap := Std.OrientedCmp.eq_swap
  isLE_trans := Std.TransCmp.isLE_trans

/-- First by one comparison, and then by another. -/
theorem transCmp_then {cmp' : α → α → Ordering} (_ : Std.TransCmp cmp) (_ : Std.TransCmp cmp') :
    Std.TransCmp fun a b => (cmp a b).then (cmp' a b) :=
  inferInstanceAs (Std.TransCmp (compareLex cmp cmp'))

end Atrib.Lib
