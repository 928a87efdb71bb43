import Atrib.Lib.Search
import Mathlib.Algebra.BigOperators.Group.List.Basic
import Mathlib.Algebra.GroupWithZero.Nat

/-!
# Depth-first collection with a stack

A loop takes the last vertex from a stack and, unless it has been collected
before, collects it and pushes its successors. Every vertex is expanded once,
so the stack is popped at most once for each vertex it starts with and for
each edge, and fuel for that many rounds collects all that can be reached.
-/

namespace Atrib.Lib.Search

variable {α : Type*} [DecidableEq α]

/-- The stack has its top at the head. -/
def collect (next : α → List α) : ℕ → List α → List α → List α
  | 0, _, seen => seen
  | _ + 1, [], seen => seen
  | n + 1, x :: stack, seen =>
      if x ∈ seen then collect next n stack seen
      else collect next n ((next x).reverse ++ stack) (seen ++ [x])

/-- The edges that may still be pushed. -/
def unexpanded (next : α → List α) (U seen : List α) : ℕ :=
  ((U.filter (· ∉ seen)).map fun x => (next x).length).sum

theorem unexpanded_expand {next : α → List α} {U seen : List α} {x : α} (hnd : U.Nodup)
    (hU : next x ≠ [] → x ∈ U) (hx : x ∉ seen) :
    (next x).length + unexpanded next U (seen ++ [x]) = unexpanded next U seen := by
  unfold unexpanded
  by_cases hmem : x ∈ U
  · have hperm : (U.filter (· ∉ seen)).Perm (x :: U.filter (· ∉ seen ++ [x])) := by
      rw [List.perm_ext_iff_of_nodup (hnd.filter _)
        (List.nodup_cons.2 ⟨by simp, hnd.filter _⟩)]
      intro y
      by_cases hy : y = x
      · subst hy
        simp [hmem, hx]
      · simp [hy]
    rw [(hperm.map _).sum_eq, List.map_cons, List.sum_cons]
  · have hnil : next x = [] := by
      by_contra h
      exact hmem (hU h)
    rw [hnil, List.length_nil, Nat.zero_add]
    congr 2
    refine List.filter_congr fun y hy => ?_
    have hne : y ≠ x := fun h => hmem (h ▸ hy)
    simp [hne]

/-- What is collected, with enough fuel. -/
theorem collect_spec {next : α → List α} {U : List α} (hnd : U.Nodup)
    (hU : ∀ x, next x ≠ [] → x ∈ U) {n : ℕ} {stack seen : List α}
    (hn : stack.length + unexpanded next U seen ≤ n) (hseen : seen.Nodup)
    (hdone : ∀ x ∈ seen, ∀ y ∈ next x, y ∈ seen ∨ y ∈ stack) :
    (collect next n stack seen).Nodup ∧
    (∀ x, x ∈ seen ∨ x ∈ stack → x ∈ collect next n stack seen) ∧
    (∀ x ∈ collect next n stack seen, ∀ y ∈ next x, y ∈ collect next n stack seen) ∧
    ∀ x ∈ collect next n stack seen, x ∈ seen ∨ ∃ s ∈ stack, Reach next s x := by
  induction n generalizing stack seen with
  | zero =>
      obtain rfl : stack = [] := List.eq_nil_of_length_eq_zero (by omega)
      refine ⟨hseen, fun x hx => hx.resolve_right nofun, fun x hx y hy => ?_, fun x hx => .inl hx⟩
      exact (hdone x hx y hy).resolve_right nofun
  | succ n ih =>
      cases stack with
      | nil =>
          refine ⟨hseen, fun x hx => hx.resolve_right nofun, fun x hx y hy => ?_,
            fun x hx => .inl hx⟩
          exact (hdone x hx y hy).resolve_right nofun
      | cons x stack =>
          rw [List.length_cons] at hn
          rw [collect]
          by_cases hx : x ∈ seen
          · rw [if_pos hx]
            have hpop : ∀ {y}, y ∈ x :: stack → y ∈ seen ∨ y ∈ stack := by
              intro y hy
              rcases List.mem_cons.1 hy with rfl | hy
              · exact .inl hx
              · exact .inr hy
            obtain ⟨hnodup, hin, hclosed, hreach⟩ := ih (by omega) hseen fun y hy z hz =>
              (hdone y hy z hz).elim .inl hpop
            refine ⟨hnodup, fun y hy => hin y ?_, hclosed, fun y hy => ?_⟩
            · rcases hy with hy | hy
              · exact .inl hy
              · exact hpop hy
            · exact (hreach y hy).imp_right fun ⟨s, hs, hsy⟩ =>
                ⟨s, List.mem_cons_of_mem _ hs, hsy⟩
          · rw [if_neg hx]
            have hexpand := unexpanded_expand hnd (hU x) hx
            obtain ⟨hnodup, hin, hclosed, hreach⟩ :=
              @ih ((next x).reverse ++ stack) (seen ++ [x])
                (by rw [List.length_append, List.length_reverse]; omega)
                (List.nodup_append.2 ⟨hseen, List.nodup_singleton x, fun y hy z hz h =>
                  hx (List.mem_singleton.1 hz ▸ h ▸ hy)⟩)
                (by
                  intro y hy z hz
                  rcases List.mem_append.1 hy with hy | hy
                  · rcases hdone y hy z hz with hz | hz
                    · exact .inl (List.mem_append_left _ hz)
                    · rcases List.mem_cons.1 hz with rfl | hz
                      · exact .inl (List.mem_append_right _ List.mem_cons_self)
                      · exact .inr (List.mem_append_right _ hz)
                  · obtain rfl := List.mem_singleton.1 hy
                    exact .inr (List.mem_append_left _ (List.mem_reverse.2 hz)))
            refine ⟨hnodup, fun y hy => hin y ?_, hclosed, fun y hy => ?_⟩
            · rcases hy with hy | hy
              · exact .inl (List.mem_append_left _ hy)
              · rcases List.mem_cons.1 hy with rfl | hy
                · exact .inl (List.mem_append_right _ List.mem_cons_self)
                · exact .inr (List.mem_append_right _ hy)
            · rcases hreach y hy with hy | ⟨s, hs, hsy⟩
              · rcases List.mem_append.1 hy with hy | hy
                · exact .inl hy
                · obtain rfl := List.mem_singleton.1 hy
                  exact .inr ⟨y, List.mem_cons_self, .refl⟩
              · rcases List.mem_append.1 hs with hs | hs
                · exact .inr ⟨x, List.mem_cons_self, .head (List.mem_reverse.1 hs) hsy⟩
                · exact .inr ⟨s, List.mem_cons_of_mem _ hs, hsy⟩

/-- From one vertex, what is collected is what can be reached. -/
theorem mem_collect {next : α → List α} {U : List α} (hnd : U.Nodup)
    (hU : ∀ x, next x ≠ [] → x ∈ U) {n : ℕ} {s : α}
    (hn : 1 + ((U.map fun x => (next x).length).sum) ≤ n) :
    (collect next n [s] []).Nodup ∧ ∀ x, x ∈ collect next n [s] [] ↔ Reach next s x := by
  have hfuel : [s].length + unexpanded next U [] ≤ n := by
    rw [unexpanded, List.filter_eq_self.2 fun _ _ => by simp]
    exact hn
  obtain ⟨hnodup, hin, hclosed, hreach⟩ := collect_spec hnd hU hfuel .nil nofun
  refine ⟨hnodup, fun x => ⟨fun hx => ?_, fun hx => ?_⟩⟩
  · obtain ⟨s', hs', hsx⟩ := (hreach x hx).resolve_left nofun
    exact List.mem_singleton.1 hs' ▸ hsx
  · induction hx with
    | refl => exact hin s (.inr List.mem_cons_self)
    | tail _ hstep ih => exact hclosed _ ih _ hstep

end Atrib.Lib.Search
