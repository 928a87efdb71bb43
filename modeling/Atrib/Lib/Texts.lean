import Mathlib.Data.List.DropRight

/-!
# Trimmed texts and separated lists

Lists of characters, or of anything else: what trimming takes away at the two
ends, and that parts without the separator come apart again when they have been
joined by it.
-/

namespace Atrib.Lib.Texts

variable {α : Type*}

/-- The list without what satisfies `p` at either end. -/
def trim (p : α → Bool) (xs : List α) : List α := (xs.dropWhile p).rdropWhile p

variable {p : α → Bool} {xs : List α}

theorem trim_sublist (p : α → Bool) (xs : List α) : (trim p xs).Sublist xs :=
  (List.rdropWhile_prefix p (l := xs.dropWhile p)).sublist.trans (List.dropWhile_sublist p)

theorem mem_of_mem_trim {a : α} (h : a ∈ trim p xs) : a ∈ xs := (trim_sublist p xs).subset h

/-- Nothing is taken away where neither the first nor the last satisfies `p`. -/
theorem trim_eq_self_iff :
    trim p xs = xs ↔ (∀ h : xs ≠ [], p (xs.head h) = false) ∧
      ∀ h : xs ≠ [], p (xs.getLast h) = false := by
  have hfirst : xs.dropWhile p = xs ↔ ∀ h : xs ≠ [], p (xs.head h) = false := by
    rw [List.dropWhile_eq_self_iff]
    cases xs <;> simp
  have hlast : xs.rdropWhile p = xs ↔ ∀ h : xs ≠ [], p (xs.getLast h) = false := by
    rw [List.rdropWhile_eq_self_iff]
    simp
  rw [← hfirst, ← hlast]
  constructor
  · intro h
    have hdrop : xs.dropWhile p = xs := by
      refine (List.dropWhile_sublist p).eq_of_length_le ?_
      rw [← congrArg List.length h]
      exact (List.rdropWhile_prefix p (l := xs.dropWhile p)).sublist.length_le
    exact ⟨hdrop, by rwa [trim, hdrop] at h⟩
  · rintro ⟨hdrop, hrdrop⟩
    rw [trim, hdrop, hrdrop]

theorem trim_eq_self_of_forall (h : ∀ a ∈ xs, p a = false) : trim p xs = xs :=
  trim_eq_self_iff.2 ⟨fun hne => h _ (List.head_mem hne), fun hne => h _ (List.getLast_mem hne)⟩

theorem trim_trim : trim p (trim p xs) = trim p xs := by
  rw [trim_eq_self_iff]
  refine ⟨fun h => ?_, fun h => ?_⟩
  · have hne : xs.dropWhile p ≠ [] := fun hnil => h (by rw [trim, hnil, List.rdropWhile_nil])
    have hhead : (trim p xs).head h = (xs.dropWhile p).head hne :=
      (List.rdropWhile_prefix p _).head h
    rw [hhead]
    simpa using List.head_dropWhile_not p hne
  · exact Bool.eq_false_iff.2 (List.rdropWhile_last_not p (xs.dropWhile p) h)

variable [DecidableEq α]

theorem not_mem_of_mem_splitOn {sep : α} {part : List α} (h : part ∈ xs.splitOn sep) :
    sep ∉ part := by
  induction xs generalizing part with
  | nil =>
      obtain rfl : part = [] := by simpa using h
      exact List.not_mem_nil
  | cons a xs ih =>
      rw [List.splitOn_cons_eq_if_modifyHead] at h
      split at h
      · rcases List.mem_cons.1 h with rfl | h
        · exact List.not_mem_nil
        · exact ih h
      · next hne =>
          cases hsplit : xs.splitOn sep with
          | nil => exact absurd hsplit (List.splitOn_ne_nil sep xs)
          | cons first rest =>
              rw [hsplit, List.modifyHead_cons] at h
              rcases List.mem_cons.1 h with rfl | h
              · intro hmem
                rcases List.mem_cons.1 hmem with rfl | hmem
                · exact hne BEq.rfl
                · exact ih (hsplit ▸ List.mem_cons_self) hmem
              · exact ih (hsplit ▸ List.mem_cons_of_mem _ h)

/-- Where what comes after the separator has it equally often, a joined list comes apart. -/
theorem append_cons_inj_of_count {sep : α} {before before' after after' : List α}
    (h : before ++ sep :: after = before' ++ sep :: after')
    (hcount : after.count sep = after'.count sep) : before = before' ∧ after = after' := by
  rcases List.append_eq_append_iff.1 h with ⟨between, hbefore, hafter⟩ | ⟨between, hbefore, hafter⟩
  · cases between with
    | nil =>
        rw [List.append_nil] at hbefore
        exact ⟨hbefore.symm, (List.cons.inj hafter).2⟩
    | cons a between =>
        have hlonger : after = between ++ sep :: after' := (List.cons.inj hafter).2
        have := congrArg (List.count sep) hlonger
        rw [List.count_append, List.count_cons_self] at this
        omega
  · cases between with
    | nil =>
        rw [List.append_nil] at hbefore
        exact ⟨hbefore, (List.cons.inj hafter).2.symm⟩
    | cons a between =>
        have hlonger : after' = between ++ sep :: after := (List.cons.inj hafter).2
        have := congrArg (List.count sep) hlonger
        rw [List.count_append, List.count_cons_self] at this
        omega

end Atrib.Lib.Texts
