import Atrib.Lib.Flow
import Atrib.Lib.InsertionMap
import Mathlib.Data.Finset.Dedup

/-!
# Searches that keep parents

A breadth-first search that notes where it has found each vertex, in a map that
keeps the order of insertion. A parent has been noted before its children, so
that going from parent to parent leads back to the source, over different edges.
A search that has not met the goal has gone through all it can reach.
-/

namespace Atrib.Lib

variable {V : Type*} [DecidableEq V] {next : V → List V} {s : V}

/-- Noted under each vertex where it was found; the source has no parent. -/
inductive ParentTree (next : V → List V) (s : V) : InsertionMap V (Option V) → Prop
  | root : ParentTree next s ((∅ : InsertionMap V (Option V)).set s none)
  | grow {m : InsertionMap V (Option V)} {p v : V} (tree : ParentTree next s m) (hp : p ∈ m.keys)
      (hv : v ∉ m.keys) (hedge : v ∈ next p) : ParentTree next s (m.set v (some p))

/-- The edges from parent to child, back to the source. -/
def climb (m : InsertionMap V (Option V)) (s : V) : ℕ → V → List (V × V)
  | 0, _ => []
  | n + 1, v =>
      if v = s then []
      else
        match (m.get? v).join with
        | some p => (p, v) :: climb m s n p
        | none => []

namespace ParentTree

variable {m : InsertionMap V (Option V)}

theorem mem_source (h : ParentTree next s m) : s ∈ m.keys := by
  induction h with
  | root => exact InsertionMap.mem_keys_set.2 (.inr rfl)
  | grow _ _ _ _ ih => exact InsertionMap.mem_keys_set.2 (.inl ih)

theorem parent_of_mem (h : ParentTree next s m) {v : V} (hv : v ∈ m.keys) (hne : v ≠ s) :
    ∃ p ∈ m.keys, m.get? v = some (some p) := by
  induction h with
  | root =>
      rcases InsertionMap.mem_keys_set.1 hv with hv | hv
      · cases hv
      · exact absurd hv hne
  | @grow m p x _ hp hx _ ih =>
      by_cases hvx : v = x
      · exact ⟨p, InsertionMap.mem_keys_set.2 (.inl hp), by rw [hvx, InsertionMap.get?_set_self]⟩
      · have hold := (InsertionMap.mem_keys_set.1 hv).resolve_right hvx
        obtain ⟨q, hq, hget⟩ := ih hold
        refine ⟨q, InsertionMap.mem_keys_set.2 (.inl hq), ?_⟩
        rw [InsertionMap.get?_set_of_ne hvx, hget]

/-- What is noted later does not change the way back. -/
theorem climb_set (h : ParentTree next s m) {x : V} (hx : x ∉ m.keys) (p : Option V) :
    ∀ {n : ℕ} {v : V}, v ∈ m.keys → climb (m.set x p) s n v = climb m s n v
  | 0, _, _ => rfl
  | n + 1, v, hv => by
      rw [climb, climb]
      by_cases hvs : v = s
      · rw [if_pos hvs, if_pos hvs]
      · obtain ⟨q, hq, hget⟩ := h.parent_of_mem hv hvs
        have hne : v ≠ x := fun heq => hx (heq ▸ hv)
        rw [if_neg hvs, if_neg hvs, InsertionMap.get?_set_of_ne hne, hget]
        exact congrArg (_ :: ·) (h.climb_set hx p hq)

/-- The way back is a way there. -/
theorem climb_spec (h : ParentTree next s m) {n : ℕ} (hn : m.size ≤ n) {v : V} (hv : v ∈ m.keys) :
    Flow.Trail s (climb m s n v) v ∧ (climb m s n v).Nodup ∧
      ∀ e ∈ climb m s n v, e.1 ∈ m.keys ∧ e.2 ∈ m.keys ∧ e.2 ∈ next e.1 := by
  induction h generalizing n v with
  | root =>
      obtain rfl : v = s := by
        rcases InsertionMap.mem_keys_set.1 hv with hv | hv
        · cases hv
        · exact hv
      have hnil : climb ((∅ : InsertionMap V (Option V)).set v none) v n v = [] := by
        cases n with
        | zero => rfl
        | succ n => exact if_pos rfl
      rw [hnil]
      exact ⟨rfl, List.nodup_nil, by simp⟩
  | @grow m p x tree hp hx hedge ih =>
      have hsize : (m.set x (some p)).size = m.size + 1 := by
        rw [InsertionMap.size, InsertionMap.entries_set, if_neg hx, List.length_append]
        rfl
      rw [hsize] at hn
      obtain ⟨n, rfl⟩ := Nat.exists_eq_add_of_le' (Nat.le_trans (Nat.le_add_left 1 _) hn)
      have hlift : ∀ {y}, y ∈ m.keys → y ∈ (m.set x (some p)).keys := fun hy =>
        InsertionMap.mem_keys_set.2 (.inl hy)
      by_cases hvx : v = x
      · subst hvx
        have hvs : v ≠ s := fun heq => hx (heq ▸ tree.mem_source)
        have hclimb : climb (m.set v (some p)) s (n + 1) v = (p, v) :: climb m s n p := by
          rw [climb, if_neg hvs, InsertionMap.get?_set_self]
          exact congrArg ((p, v) :: ·) (tree.climb_set hx _ hp)
        obtain ⟨htrail, hnodup, hall⟩ := ih (Nat.le_of_succ_le_succ hn) hp
        rw [hclimb]
        refine ⟨⟨rfl, htrail⟩, List.nodup_cons.2 ⟨fun hmem => hx (hall _ hmem).2.1, hnodup⟩, ?_⟩
        rintro e he
        rcases List.mem_cons.1 he with rfl | he
        · exact ⟨hlift hp, InsertionMap.mem_keys_set.2 (.inr rfl), hedge⟩
        · obtain ⟨hfst, hsnd, hnext⟩ := hall e he
          exact ⟨hlift hfst, hlift hsnd, hnext⟩
      · have hold := (InsertionMap.mem_keys_set.1 hv).resolve_right hvx
        obtain ⟨htrail, hnodup, hall⟩ := ih (n := n + 1) (by omega) hold
        rw [tree.climb_set hx _ hold]
        refine ⟨htrail, hnodup, fun e he => ?_⟩
        obtain ⟨hfst, hsnd, hnext⟩ := hall e he
        exact ⟨hlift hfst, hlift hsnd, hnext⟩

end ParentTree

/-! ## The search -/

/-- A neighbour that has not been noted goes to the end of the queue. -/
def discover (node : V) (state : InsertionMap V (Option V) × List V) (y : V) :
    InsertionMap V (Option V) × List V :=
  if state.1.has y then state else (state.1.set y (some node), state.2 ++ [y])

/-- Node after node, until the goal has been noted. -/
def search (next : V → List V) (goal : V) :
    ℕ → List V → InsertionMap V (Option V) → InsertionMap V (Option V)
  | 0, _, m => m
  | _ + 1, [], m => m
  | n + 1, node :: queue, m =>
      if m.has goal then m
      else
        let state := (next node).foldl (discover node) (m, queue)
        search next goal n state.2 state.1

/-- The state of a search: what is not in the queue has had its neighbours noted, but for the
node whose turn it is. -/
structure Searching (next : V → List V) (s : V) (U : Finset V) (current : Option V)
    (m : InsertionMap V (Option V)) (queue : List V) : Prop where
  tree : ParentTree next s m
  queued : ∀ x ∈ queue, x ∈ m.keys
  within : ∀ x ∈ m.keys, x ∈ U
  closed : ∀ x ∈ m.keys, x ∉ queue → some x ≠ current → ∀ y ∈ next x, y ∈ m.keys

namespace Searching

variable {U : Finset V} {m : InsertionMap V (Option V)} {queue : List V}

theorem size_le (h : Searching next s U none m queue) : m.size ≤ U.card := by
  have hsub : m.keys.toFinset ⊆ U := fun x hx => h.within x (List.mem_toFinset.1 hx)
  have hcard := Finset.card_le_card hsub
  rw [InsertionMap.keys, List.toFinset_card_of_nodup m.nodup, List.length_map] at hcard
  exact hcard

theorem discover {node : V} (h : Searching next s U (some node) m queue) (hnode : node ∈ m.keys)
    {y : V} (hy : y ∈ next node) (hyU : y ∈ U) :
    Searching next s U (some node) (Lib.discover node (m, queue) y).1
        (Lib.discover node (m, queue) y).2 ∧
      (∀ x ∈ m.keys, x ∈ (Lib.discover node (m, queue) y).1.keys) ∧
      y ∈ (Lib.discover node (m, queue) y).1.keys ∧
      (Lib.discover node (m, queue) y).1.size + queue.length =
        m.size + (Lib.discover node (m, queue) y).2.length := by
  unfold Lib.discover
  dsimp only
  split
  · next hhas => exact ⟨h, fun _ hx => hx, InsertionMap.has_eq_true.1 hhas, rfl⟩
  · next hhas =>
      have hnew : y ∉ m.keys := fun hmem => hhas (InsertionMap.has_eq_true.2 hmem)
      have hmem : ∀ {x}, x ∈ (m.set y (some node)).keys ↔ x ∈ m.keys ∨ x = y :=
        InsertionMap.mem_keys_set
      refine ⟨⟨.grow h.tree hnode hnew hy, fun x hx => ?_, fun x hx => ?_, fun x hx hq hne z hz => ?_⟩,
        fun x hx => hmem.2 (.inl hx), hmem.2 (.inr rfl), ?_⟩
      · rcases List.mem_append.1 hx with hx | hx
        · exact hmem.2 (.inl (h.queued x hx))
        · exact hmem.2 (.inr (List.mem_singleton.1 hx))
      · rcases hmem.1 hx with hx | rfl
        · exact h.within x hx
        · exact hyU
      · rcases hmem.1 hx with hx | rfl
        · exact hmem.2 (.inl (h.closed x hx (fun hin => hq (List.mem_append_left _ hin)) hne z hz))
        · exact absurd (List.mem_append_right _ (List.mem_singleton_self _)) hq
      · rw [InsertionMap.size, InsertionMap.entries_set, if_neg hnew, List.length_append,
          List.length_append, List.length_singleton, List.length_singleton, InsertionMap.size]
        omega

theorem discoverAll {node : V} {ys : List V} : ∀ {m : InsertionMap V (Option V)} {queue : List V},
    Searching next s U (some node) m queue → node ∈ m.keys →
    (∀ y ∈ ys, y ∈ next node ∧ y ∈ U) →
    Searching next s U (some node) (ys.foldl (Lib.discover node) (m, queue)).1
        (ys.foldl (Lib.discover node) (m, queue)).2 ∧
      (∀ x ∈ m.keys, x ∈ (ys.foldl (Lib.discover node) (m, queue)).1.keys) ∧
      (∀ y ∈ ys, y ∈ (ys.foldl (Lib.discover node) (m, queue)).1.keys) ∧
      (ys.foldl (Lib.discover node) (m, queue)).1.size + queue.length =
        m.size + (ys.foldl (Lib.discover node) (m, queue)).2.length := by
  induction ys with
  | nil => exact fun h _ _ => ⟨h, fun _ hx => hx, by simp, rfl⟩
  | cons y ys ih =>
      intro m queue h hnode hys
      obtain ⟨⟨hy, hyU⟩, hrest⟩ := List.forall_mem_cons.1 hys
      obtain ⟨hstep, hkeep, hmem, hsize⟩ := h.discover hnode hy hyU
      obtain ⟨hlast, hkeep', hmem', hsize'⟩ := ih hstep (hkeep node hnode) hrest
      rw [Prod.mk.eta] at hlast hkeep' hmem' hsize'
      rw [List.foldl_cons]
      refine ⟨hlast, fun x hx => hkeep' x (hkeep x hx), ?_, ?_⟩
      · exact List.forall_mem_cons.2 ⟨hkeep' y hmem, hmem'⟩
      · omega

/-- With as many rounds as there are vertices a search ends. -/
theorem run {goal : V} (hU : ∀ x ∈ U, ∀ y ∈ next x, y ∈ U) :
    ∀ {n : ℕ} {m : InsertionMap V (Option V)} {queue : List V},
      Searching next s U none m queue → U.card + queue.length ≤ n + m.size →
      ParentTree next s (search next goal n queue m) ∧
        (∀ x ∈ (search next goal n queue m).keys, x ∈ U) ∧
        (goal ∈ (search next goal n queue m).keys ∨
          ∀ x ∈ (search next goal n queue m).keys, ∀ y ∈ next x,
            y ∈ (search next goal n queue m).keys)
  | 0, m, queue, h, hn => by
      have hsize := h.size_le
      have hnil : queue = [] := List.length_eq_zero_iff.1 (by omega)
      subst hnil
      exact ⟨h.tree, h.within, .inr fun x hx => h.closed x hx (by simp) (by simp)⟩
  | n + 1, m, [], h, _ => ⟨h.tree, h.within, .inr fun x hx => h.closed x hx (by simp) (by simp)⟩
  | n + 1, m, node :: queue, h, hn => by
      rw [search]
      split
      · next hgoal => exact ⟨h.tree, h.within, .inl (InsertionMap.has_eq_true.1 hgoal)⟩
      · have hnode : node ∈ m.keys := h.queued node List.mem_cons_self
        have hturn : Searching next s U (some node) m queue := by
          refine ⟨h.tree, fun x hx => h.queued x (List.mem_cons_of_mem _ hx), h.within, ?_⟩
          intro x hx hq hne
          refine h.closed x hx (fun hin => ?_) nofun
          rcases List.mem_cons.1 hin with rfl | hin
          · exact hne rfl
          · exact hq hin
        obtain ⟨hlast, -, hall, hsize⟩ := hturn.discoverAll hnode fun y hy =>
          ⟨hy, hU node (h.within node hnode) y hy⟩
        refine run hU ⟨hlast.tree, hlast.queued, hlast.within, fun x hx hq _ => ?_⟩ ?_
        · by_cases hxn : x = node
          · exact hxn ▸ hall
          · exact hlast.closed x hx hq fun heq => hxn (Option.some.inj heq)
        · rw [List.length_cons] at hn
          omega

/-- A search from the source. -/
theorem search_spec {goal : V} {n : ℕ} (hs : s ∈ U) (hU : ∀ x ∈ U, ∀ y ∈ next x, y ∈ U)
    (hn : U.card ≤ n) :
    ParentTree next s (search next goal n [s] ((∅ : InsertionMap V (Option V)).set s none)) ∧
      (∀ x ∈ (search next goal n [s] ((∅ : InsertionMap V (Option V)).set s none)).keys, x ∈ U) ∧
      (goal ∈ (search next goal n [s] ((∅ : InsertionMap V (Option V)).set s none)).keys ∨
        ∀ x ∈ (search next goal n [s] ((∅ : InsertionMap V (Option V)).set s none)).keys,
          ∀ y ∈ next x,
            y ∈ (search next goal n [s] ((∅ : InsertionMap V (Option V)).set s none)).keys) := by
  have hkeys : ∀ {x : V}, x ∈ ((∅ : InsertionMap V (Option V)).set s none).keys ↔ x = s := by
    intro x
    rw [InsertionMap.mem_keys_set]
    simp
  refine run hU ⟨.root, by simp [hkeys], fun x hx => hkeys.1 hx ▸ hs, fun x hx hq => ?_⟩ ?_
  · exact absurd (List.mem_singleton.2 (hkeys.1 hx)) hq
  · have hone : ((∅ : InsertionMap V (Option V)).set s none).size = 1 := rfl
    rw [hone, List.length_singleton]
    omega

end Searching

end Atrib.Lib
