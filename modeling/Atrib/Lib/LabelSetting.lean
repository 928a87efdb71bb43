import Mathlib.Data.Set.Insert
import Mathlib.Tactic.Common

/-!
# Settling the nearest node

A search for the lightest walks keeps a distance and a number of steps for the
nodes it has found. It settles the nearest of those that it has not settled and
tries the edges from there, unless all the steps that are allowed are used up.
No weight is negative, so a settled node keeps its distance.

Such a search keeps one distance for each node, and a light walk with many steps
hides a heavier one with fewer. Where every node finds the lightest of the walks
it may take has one that passes only nodes that are not hidden so, the distances
are the weights of the lightest walks.
-/

namespace Atrib.Lib.LabelSetting

variable {α : Type*} (edge : α → α → ℕ → Prop) (start : α)

/-- Walks with so many steps and of such a weight. -/
inductive Walk : ℕ → ℕ → α → Prop
  | nil : Walk 0 0 start
  | step {n w c : ℕ} {u v : α} (hwalk : Walk n w u) (hedge : edge u v c) : Walk (n + 1) (w + c) v

/-- Walks that leave no node that a walk with all the steps that are allowed reaches as lightly. -/
inductive Clear (limit : ℕ) : ℕ → ℕ → α → Prop
  | nil : Clear limit 0 0 start
  | step {n w c : ℕ} {u v : α} (hwalk : Clear limit n w u)
      (hclear : ∀ w' ≤ w, ¬Walk edge start limit w' u) (hedge : edge u v c) :
      Clear limit (n + 1) (w + c) v

structure Labels (α : Type*) where
  dist : α → Option ℕ
  hops : α → Option ℕ
  settled : Set α

variable {edge start} {limit : ℕ}

theorem Clear.walk {n w : ℕ} {v : α} (h : Clear edge start limit n w v) :
    Walk edge start n w v := by
  induction h with
  | nil => exact .nil
  | step _ _ hedge ih => exact ih.step hedge

/-- A clear walk has no more steps than are allowed. -/
theorem Clear.le {n w : ℕ} {v : α} (h : Clear edge start limit n w v) : n ≤ limit := by
  induction h with
  | nil => exact Nat.zero_le _
  | @step n w c u v hwalk hclear hedge ih =>
      refine Nat.succ_le_of_lt (lt_of_le_of_ne ih ?_)
      rintro rfl
      exact hclear w le_rfl hwalk.walk

variable (edge start limit) in
/-- What holds while the nodes up to a distance are settled and some edges from them are still
to be tried. -/
structure Settling (s : Labels α) (bound : ℕ) (untried : α → α → ℕ → Prop) : Prop where
  sound : ∀ v d, s.dist v = some d → ∃ k, s.hops v = some k ∧ k ≤ limit ∧ Walk edge start k d v
  start : s.dist start = some 0
  settled : ∀ v ∈ s.settled, ∃ d ≤ bound, s.dist v = some d
  ahead : ∀ v d, v ∉ s.settled → s.dist v = some d → bound ≤ d
  tried : ∀ u d k, u ∈ s.settled → s.dist u = some d → s.hops u = some k → k < limit →
    ∀ v c, edge u v c → ¬untried u v c → ∃ d' ≤ d + c, s.dist v = some d'

/-- A search that has found the start only. -/
theorem Settling.init {s : Labels α} (hstart : s.dist start = some 0)
    (hhops : s.hops start = some 0) (honly : ∀ v d, s.dist v = some d → v = start)
    (hnone : s.settled = ∅) : Settling edge start limit s 0 fun _ _ _ => False where
  sound := by
    intro v d hd
    obtain rfl := honly v d hd
    obtain rfl := Option.some.inj (hstart.symm.trans hd)
    exact ⟨0, hhops, Nat.zero_le _, .nil⟩
  start := hstart
  settled := by
    intro v hv
    rw [hnone] at hv
    cases hv
  ahead := fun _ _ _ _ => Nat.zero_le _
  tried := by
    intro u d k hu
    rw [hnone] at hu
    cases hu

/-- The nearest node is settled. -/
theorem Settling.settle {s : Labels α} {bound d : ℕ} {u : α}
    (h : Settling edge start limit s bound fun _ _ _ => False) (hu : u ∉ s.settled)
    (hd : s.dist u = some d) (hmin : ∀ v d', v ∉ s.settled → s.dist v = some d' → d ≤ d') :
    Settling edge start limit { s with settled := insert u s.settled } d fun x _ _ => x = u where
  sound := h.sound
  start := h.start
  settled := by
    rintro v (rfl | hv)
    · exact ⟨d, le_rfl, hd⟩
    · obtain ⟨d', hd', hv⟩ := h.settled v hv
      exact ⟨d', hd'.trans (h.ahead u d hu hd), hv⟩
  ahead := fun v d' hv hd' => hmin v d' (fun hmem => hv (.inr hmem)) hd'
  tried := by
    rintro x d' k (rfl | hx) hd' hk hlt v c hedge hne
    · exact absurd rfl hne
    · exact h.tried x d' k hx hd' hk hlt v c hedge not_false

/-- An edge that does not make a node nearer has been tried. -/
theorem Settling.keep {s : Labels α} {bound d c : ℕ} {u v : α} {untried untried' : α → α → ℕ → Prop}
    (h : Settling edge start limit s bound untried) (hd : s.dist u = some d)
    (hold : ∃ d' ≤ d + c, s.dist v = some d')
    (huntried : ∀ x y e, untried x y e → untried' x y e ∨ (x, y, e) = (u, v, c)) :
    Settling edge start limit s bound untried' where
  sound := h.sound
  start := h.start
  settled := h.settled
  ahead := h.ahead
  tried := by
    intro x d' k hx hd' hk hlt y e hedge hnot
    by_cases hun : untried x y e
    · rcases huntried x y e hun with hun' | heq
      · exact absurd hun' hnot
      · obtain ⟨rfl, rfl, rfl⟩ := heq
        obtain rfl := Option.some.inj (hd.symm.trans hd')
        exact hold
    · exact h.tried x d' k hx hd' hk hlt y e hedge hun

variable [DecidableEq α]

/-- An edge makes a node nearer. -/
theorem Settling.lower {s s' : Labels α} {d k c : ℕ} {u v : α}
    {untried untried' : α → α → ℕ → Prop} (h : Settling edge start limit s d untried)
    (hd : s.dist u = some d) (hk : s.hops u = some k) (hlt : k < limit) (hedge : edge u v c)
    (hnearer : ∀ d', s.dist v = some d' → d + c < d')
    (hdist : ∀ x, s'.dist x = if x = v then some (d + c) else s.dist x)
    (hhops : ∀ x, s'.hops x = if x = v then some (k + 1) else s.hops x)
    (hsettled : s'.settled = s.settled)
    (huntried : ∀ x y e, untried x y e → untried' x y e ∨ (x, y, e) = (u, v, c)) :
    Settling edge start limit s' d untried' := by
  have hwalk : Walk edge start k d u := by
    obtain ⟨k', hk', -, hwalk⟩ := h.sound u d hd
    obtain rfl := Option.some.inj (hk.symm.trans hk')
    exact hwalk
  -- what is settled is near, so the edge does not lead there
  have hfar : v ∉ s.settled := by
    intro hv
    obtain ⟨d', hd', hdv⟩ := h.settled v hv
    exact absurd (hnearer d' hdv) (by omega)
  have hsame : ∀ x ∈ s.settled, s'.dist x = s.dist x ∧ s'.hops x = s.hops x := by
    intro x hx
    have hne : x ≠ v := fun heq => hfar (heq ▸ hx)
    exact ⟨by rw [hdist, if_neg hne], by rw [hhops, if_neg hne]⟩
  have hless : ∀ x d', s.dist x = some d' → ∃ d'' ≤ d', s'.dist x = some d'' := by
    intro x d' hx
    rw [hdist]
    split
    · next heq => exact ⟨d + c, (hnearer d' (heq ▸ hx)).le, rfl⟩
    · exact ⟨d', le_rfl, hx⟩
  refine ⟨fun x d' hx => ?_, ?_, fun x hx => ?_, fun x d' hx hd' => ?_,
    fun x d' k' hx hd' hk' hlt' y e hxy hnot => ?_⟩
  · rw [hdist] at hx
    rw [hhops]
    split at hx
    · next heq =>
        cases hx
        exact ⟨k + 1, by rw [if_pos heq], hlt, heq ▸ hwalk.step hedge⟩
    · next hne =>
        rw [if_neg hne]
        exact h.sound x d' hx
  · rw [hdist, if_neg]
    · exact h.start
    · rintro rfl
      exact absurd (hnearer 0 h.start) (Nat.not_lt_zero _)
  · rw [hsettled] at hx
    rw [(hsame x hx).1]
    exact h.settled x hx
  · rw [hsettled] at hx
    rw [hdist] at hd'
    split at hd'
    · cases hd'
      exact Nat.le_add_right _ _
    · exact h.ahead x d' hx hd'
  · rw [hsettled] at hx
    rw [(hsame x hx).1] at hd'
    rw [(hsame x hx).2] at hk'
    by_cases hun : untried x y e
    · rcases huntried x y e hun with hun' | heq
      · exact absurd hun' hnot
      · obtain ⟨rfl, rfl, rfl⟩ := heq
        obtain rfl := Option.some.inj (hd.symm.trans hd')
        exact ⟨d + c, le_rfl, by rw [hdist, if_pos rfl]⟩
    · obtain ⟨d'', hle, hy⟩ := h.tried x d' k' hx hd' hk' hlt' y e hxy hun
      obtain ⟨d₃, hle', hy'⟩ := hless y d'' hy
      exact ⟨d₃, hle'.trans hle, hy'⟩

omit [DecidableEq α] in
/-- A node from which no step is allowed has no edges to try. -/
theorem Settling.skip {s : Labels α} {bound k : ℕ} {u : α}
    (h : Settling edge start limit s bound fun x _ _ => x = u) (hk : s.hops u = some k)
    (hlimit : limit ≤ k) : Settling edge start limit s bound fun _ _ _ => False where
  sound := h.sound
  start := h.start
  settled := h.settled
  ahead := h.ahead
  tried := by
    intro x d k' hx hd hk' hlt v c hedge _
    by_cases heq : x = u
    · subst heq
      obtain rfl := Option.some.inj (hk.symm.trans hk')
      exact absurd hlimit (not_le.2 hlt)
    · exact h.tried x d k' hx hd hk' hlt v c hedge heq

omit [DecidableEq α] in
/-- When all that was found is settled, no clear walk is lighter than the distance. -/
theorem Settling.le_of_clear {s : Labels α} {bound : ℕ}
    (h : Settling edge start limit s bound fun _ _ _ => False)
    (hall : ∀ v d, s.dist v = some d → v ∈ s.settled) {n w : ℕ} {v : α}
    (hwalk : Clear edge start limit n w v) : ∃ d ≤ w, s.dist v = some d := by
  induction hwalk with
  | nil => exact ⟨0, le_rfl, h.start⟩
  | @step n w c u v _ hclear hedge ih =>
      obtain ⟨d, hd, hu⟩ := ih
      obtain ⟨k, hk, hle, hwalk⟩ := h.sound u d hu
      -- the walk that was found to the node has steps left
      have hlt : k < limit := lt_of_le_of_ne hle fun heq => hclear d hd (heq ▸ hwalk)
      obtain ⟨d', hd', hv⟩ := h.tried u d k (hall u d hu) hu hk hlt v c hedge not_false
      exact ⟨d', hd'.trans (Nat.add_le_add_right hd c), hv⟩

end Atrib.Lib.LabelSetting
