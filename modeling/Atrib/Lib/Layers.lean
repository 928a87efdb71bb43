import Atrib.Lib.Search

/-!
# Searching level by level

A search that goes through the vertices of one distance after those of the last
has, after any number of levels, marked the vertices within that distance, and
when no level comes next, all that can be reached. How far the distances are
is a matter of the successors alone, so that a search along converse edges
reaches back what has been reached.
-/

namespace Atrib.Lib.Search

variable {α : Type*} {next : α → List α}

/-- `y` is reached from `x` in at most `n` hops. -/
def Within (next : α → List α) (x : α) (n : ℕ) (y : α) : Prop := ∃ k ≤ n, Hops next x k y

theorem Within.mono {x y : α} {m n : ℕ} (h : Within next x m y) (hmn : m ≤ n) :
    Within next x n y := by
  obtain ⟨k, hk, hhops⟩ := h
  exact ⟨k, Nat.le_trans hk hmn, hhops⟩

theorem reach_iff_hops {x y : α} : Reach next x y ↔ ∃ k, Hops next x k y := by
  constructor
  · intro h
    induction h with
    | refl => exact ⟨0, rfl⟩
    | tail _ hstep ih =>
        obtain ⟨k, hk⟩ := ih
        exact ⟨k + 1, _, hk, hstep⟩
  · rintro ⟨k, hk⟩
    induction k generalizing y with
    | zero => exact hk ▸ .refl
    | succ k ih =>
        obtain ⟨z, hz, hstep⟩ := hk
        exact (ih hz).tail hstep

theorem reach_iff_within {x y : α} : Reach next x y ↔ ∃ n, Within next x n y := by
  rw [reach_iff_hops]
  constructor
  · rintro ⟨k, hk⟩
    exact ⟨k, k, Nat.le_refl _, hk⟩
  · rintro ⟨n, k, -, hk⟩
    exact ⟨k, hk⟩

/-! ### Converse edges -/

theorem hops_front {x z : α} : ∀ {n : ℕ}, Hops next x (n + 1) z ↔ ∃ y ∈ next x, Hops next y n z
  | 0 => by
      constructor
      · rintro ⟨y, rfl, hz⟩
        exact ⟨z, hz, rfl⟩
      · rintro ⟨y, hy, rfl⟩
        exact ⟨x, rfl, hy⟩
  | n + 1 => by
      constructor
      · rintro ⟨w, hw, hz⟩
        obtain ⟨y, hy, hyw⟩ := hops_front.1 hw
        exact ⟨y, hy, w, hyw, hz⟩
      · rintro ⟨y, hy, w, hyw, hz⟩
        exact ⟨w, hops_front.2 ⟨y, hy, hyw⟩, hz⟩

/-- Along converse edges as many hops lead back, among vertices that the edges do not leave. -/
theorem hops_converse {prev : α → List α} {P : α → Prop} (hP : ∀ x, ∀ y ∈ next x, P y)
    (h : ∀ x y, P x → P y → (y ∈ next x → x ∈ prev y)) {x : α} (hx : P x) :
    ∀ {n : ℕ} {y : α}, Hops next x n y → Hops prev y n x
  | 0, _, rfl => rfl
  | _ + 1, z, ⟨y, hy, hz⟩ => by
      have hPy : P y := by
        rcases reach_iff_hops.2 ⟨_, hy⟩ with _ | ⟨-, hlast⟩
        · exact hx
        · exact hP _ _ hlast
      exact hops_front.2 ⟨y, h y z hPy (hP y z hz) hz, hops_converse hP h hx hy⟩

/-! ### Levels with no goal -/

/-- The invariant of a search that goes on to the end: what is marked is within
the distance reached, or found for the next level. -/
structure Layers (next : α → List α) (s : α) (visited : List α) (d : ℕ) (here there : List α) :
    Prop extends Levels next (fun _ => false) s visited d here there where
  found : ∀ x ∈ visited, Within next s d x ∨ x ∈ there

namespace Layers

variable {s : α} {visited here there : List α} {d : ℕ}

theorem init : Layers next s [s] 0 [s] [] where
  toLevels := .init
  found := fun _ hx => .inl ⟨0, Nat.le_refl _, List.mem_singleton.1 hx⟩

theorem round {fresh : List α} {x : α} (h : Layers next s visited d (x :: here) there)
    (hmem : ∀ y, y ∈ fresh ↔ y ∈ next x ∧ y ∉ visited) :
    Layers next s (visited ++ fresh) d here (there ++ fresh) where
  toLevels := h.toLevels.round rfl hmem
  found := by
    intro y hy
    rcases List.mem_append.1 hy with hy | hy
    · exact (h.found y hy).imp_right fun hy => List.mem_append_left _ hy
    · exact .inr (List.mem_append_right _ hy)

theorem descend (h : Layers next s visited d [] there) : Layers next s visited (d + 1) there [] where
  toLevels := h.toLevels.descend
  found := by
    intro y hy
    rcases h.found y hy with hy | hy
    · exact .inl (hy.mono (by omega))
    · exact .inl ⟨d + 1, Nat.le_refl _, (h.there_dist y hy).1⟩

/-- Between two levels the marks are the vertices within the distance. -/
theorem mem_iff_within (h : Layers next s visited d here []) {x : α} :
    x ∈ visited ↔ Within next s d x := by
  constructor
  · intro hx
    exact (h.found x hx).resolve_right (by simp)
  · rintro ⟨k, hk, hhops⟩
    exact h.marked k hk x hhops

/-- With no level to come the marks are all that can be reached. -/
theorem mem_iff_reach (h : Layers next s visited d [] []) {x : α} :
    x ∈ visited ↔ Reach next s x := by
  constructor
  · intro hx
    exact reach_iff_within.2 ⟨d, h.mem_iff_within.1 hx⟩
  · intro hreach
    induction hreach with
    | refl => exact h.marked 0 (Nat.zero_le _) s rfl
    | tail _ hstep ih =>
        rcases h.done _ ih with hmem | hmem | ⟨-, hnext⟩
        · cases hmem
        · cases hmem
        · exact hnext _ hstep

end Layers

end Atrib.Lib.Search
