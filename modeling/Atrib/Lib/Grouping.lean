import Mathlib.Data.List.Induction
import Mathlib.Data.List.Perm.Basic
import Atrib.Lib.InsertionMap

/-!
# Grouping

A loop over a list that folds each member into the value of its key, in a map.
What the map has under a key in the end is a fold over the members with that
key alone, so lists that agree on these members have the same value there.

Two lists are interleaved when the members of both stand in one list, those of
each in their order.
-/

namespace Atrib.Lib

variable {α β κ ν : Type}

/-! ## Groups -/

section

variable [DecidableEq κ] (key : α → Option κ) (start : ν) (step : ν → α → ν)

/-- One round of the loop. -/
def groupStep (m : InsertionMap κ ν) (a : α) : InsertionMap κ ν :=
  match key a with
  | none => m
  | some k => m.set k (step ((m.get? k).getD start) a)

/-- The members with a key. -/
def membersOf (l : List α) (k : κ) : List α := l.filter fun a => decide (key a = some k)

theorem mem_membersOf {l : List α} {k : κ} {a : α} :
    a ∈ membersOf key l k ↔ a ∈ l ∧ key a = some k := by
  rw [membersOf, List.mem_filter, decide_eq_true_iff]

theorem membersOf_append (l l' : List α) (k : κ) :
    membersOf key (l ++ l') k = membersOf key l k ++ membersOf key l' k := List.filter_append ..

theorem get?_grouped (l : List α) (k : κ) :
    (l.foldl (groupStep key start step) ∅).get? k =
      if membersOf key l k = [] then none else some ((membersOf key l k).foldl step start) := by
  induction l using List.reverseRecOn with
  | nil => rfl
  | append_singleton l a ih =>
      rw [List.foldl_append, List.foldl_cons, List.foldl_nil, membersOf_append, groupStep]
      cases hkey : key a with
      | none =>
          have hmembers : membersOf key [a] k = [] := by simp [membersOf, hkey]
          rw [hmembers, List.append_nil, ih]
      | some x =>
          dsimp only
          rw [InsertionMap.get?_set]
          by_cases hx : k = x
          · subst hx
            have hmembers : membersOf key [a] k = [a] := by simp [membersOf, hkey]
            have hne : membersOf key l k ++ [a] ≠ [] := List.append_ne_nil_of_right_ne_nil _ (by simp)
            rw [if_pos rfl, hmembers, if_neg hne, List.foldl_append, ih]
            by_cases hnil : membersOf key l k = []
            · rw [if_pos hnil, hnil]
              rfl
            · rw [if_neg hnil]
              rfl
          · have hmembers : membersOf key [a] k = [] := by simp [membersOf, hkey, Ne.symm hx]
            rw [if_neg hx, hmembers, List.append_nil, ih]

end

/-! ## Interleaved lists -/

inductive Interleaved : List α → List α → List α → Prop
  | nil : Interleaved [] [] []
  | left (a : α) {l l' all : List α} : Interleaved l l' all → Interleaved (a :: l) l' (a :: all)
  | right (a : α) {l l' all : List α} : Interleaved l l' all → Interleaved l (a :: l') (a :: all)

namespace Interleaved

variable {l l' all : List α}

theorem sublist (h : Interleaved l l' all) : List.Sublist l all := by
  induction h with
  | nil => exact List.Sublist.slnil
  | left a _ ih => exact ih.cons_cons a
  | right a _ ih => exact ih.cons a

theorem perm (h : Interleaved l l' all) : List.Perm all (l ++ l') := by
  induction h with
  | nil => exact List.Perm.refl []
  | left a _ ih => exact ih.cons a
  | right a _ ih => exact (ih.cons a).trans List.perm_middle.symm

theorem mem_iff (h : Interleaved l l' all) {a : α} : a ∈ all ↔ a ∈ l ∨ a ∈ l' := by
  rw [h.perm.mem_iff, List.mem_append]

theorem eq_left (h : Interleaved l [] all) : all = l := by
  have hperm := h.perm
  rw [List.append_nil] at hperm
  exact (h.sublist.eq_of_length hperm.length_eq.symm).symm

theorem filter (h : Interleaved l l' all) (p : α → Bool) :
    Interleaved (l.filter p) (l'.filter p) (all.filter p) := by
  induction h with
  | nil => exact nil
  | left a _ ih =>
      rw [List.filter_cons, List.filter_cons]
      split
      · exact left a ih
      · exact ih
  | right a _ ih =>
      rw [List.filter_cons, List.filter_cons]
      split
      · exact right a ih
      · exact ih

end Interleaved

end Atrib.Lib
