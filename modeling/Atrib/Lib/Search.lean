import Mathlib.Data.List.Nodup
import Mathlib.Data.List.Perm.Subperm
import Mathlib.Logic.Relation

/-!
# Breadth-first search with a queue and a set of marks

Two searches over a graph that is given by the successors of a vertex.
`explore` works the queue off and lets every vertex it takes from the queue
contribute to an accumulator; `nearest` stops at the first goal vertex and
returns its depth. Both are loops with fuel. The results say that fuel for a
finite set of vertices that the successors do not leave is enough, and that
what comes out is a matter of reachability alone: the order in which the
successors of a vertex are listed does not show.
-/

namespace Atrib.Lib.Search

variable {α β ω ε : Type*}

/-- Mark a vertex and put it at the end of the queue, unless it is marked already. -/
def visit [DecidableEq α] (tag : α → β) (s : List α × List β) (x : α) : List α × List β :=
  if x ∈ s.1 then s else (s.1 ++ [x], s.2 ++ [tag x])

def explore [DecidableEq α] (next : α → List α) (work : ω → α → ω) :
    ℕ → List α → List α → ω → List α × ω
  | 0, visited, _, acc => (visited, acc)
  | _ + 1, visited, [], acc => (visited, acc)
  | n + 1, visited, x :: queue, acc =>
      let s := (next x).foldl (visit id) (visited, queue)
      explore next work n s.1 s.2 (work acc x)

def nearest [DecidableEq α] (next : α → List α) (goal : α → Bool) :
    ℕ → List α → List (α × ℕ) → Option ℕ
  | 0, _, _ => none
  | _ + 1, _, [] => none
  | n + 1, visited, (x, depth) :: queue =>
      if goal x then some depth
      else
        let s := (next x).foldl (visit (·, depth + 1)) (visited, queue)
        nearest next goal n s.1 s.2

/-- What one vertex's successors do to the marks and the queue: the unmarked
ones among them are appended to both, each once. -/
theorem foldl_visit [DecidableEq α] (tag : α → β) (xs : List α) (V : List α) (Q : List β) :
    ∃ fresh, xs.foldl (visit tag) (V, Q) = (V ++ fresh, Q ++ fresh.map tag) ∧
      fresh.Nodup ∧ ∀ y, y ∈ fresh ↔ y ∈ xs ∧ y ∉ V := by
  induction xs generalizing V Q with
  | nil => exact ⟨[], by simp, List.nodup_nil, by simp⟩
  | cons x xs ih =>
      rw [List.foldl_cons]
      by_cases hx : x ∈ V
      · rw [show visit tag (V, Q) x = (V, Q) from if_pos hx]
        obtain ⟨fresh, heq, hnd, hmem⟩ := ih V Q
        refine ⟨fresh, heq, hnd, fun y => ?_⟩
        rw [hmem, List.mem_cons]
        constructor
        · rintro ⟨h, hV⟩
          exact ⟨.inr h, hV⟩
        · rintro ⟨rfl | h, hV⟩
          · exact absurd hx hV
          · exact ⟨h, hV⟩
      · rw [show visit tag (V, Q) x = (V ++ [x], Q ++ [tag x]) from if_neg hx]
        obtain ⟨fresh, heq, hnd, hmem⟩ := ih (V ++ [x]) (Q ++ [tag x])
        have hxf : x ∉ fresh := by
          intro h
          exact ((hmem x).1 h).2 (by simp)
        refine ⟨x :: fresh, ?_, List.nodup_cons.2 ⟨hxf, hnd⟩, fun y => ?_⟩
        · rw [heq]
          simp
        · rw [List.mem_cons, List.mem_cons, hmem, List.mem_append, List.mem_singleton]
          constructor
          · rintro (rfl | ⟨h, hV⟩)
            · exact ⟨.inl rfl, hx⟩
            · exact ⟨.inr h, fun h' => hV (.inl h')⟩
          · rintro ⟨rfl | h, hV⟩
            · exact .inl rfl
            · by_cases hyx : y = x
              · exact .inl hyx
              · exact .inr ⟨h, fun h' => h'.elim hV hyx⟩

/-! ### The finite universe that bounds the number of rounds -/

/-- Marks, queue and fuel fit into the finite set `U`, which the successors do not leave. -/
structure Bounded (next : α → List α) (U : List α) (visited : List α) (queued fuel : ℕ) :
    Prop where
  closed : ∀ x ∈ visited, ∀ y ∈ next x, y ∈ U
  nodup : visited.Nodup
  inside : ∀ x ∈ visited, x ∈ U
  enough : queued + (U.length - visited.length) ≤ fuel

/-- A round takes one vertex off the queue, marks the fresh ones and needs one unit of fuel. -/
theorem Bounded.round {next : α → List α} {U visited fresh : List α} {q n : ℕ} {x : α}
    (hU : ∀ x ∈ U, ∀ y ∈ next x, y ∈ U)
    (h : Bounded next U visited (q + 1) (n + 1)) (hx : x ∈ visited) (hnd : fresh.Nodup)
    (hmem : ∀ y, y ∈ fresh ↔ y ∈ next x ∧ y ∉ visited) :
    Bounded next U (visited ++ fresh) (q + fresh.length) n := by
  have hin : ∀ y ∈ visited ++ fresh, y ∈ U := by
    intro y hy
    rcases List.mem_append.1 hy with hy | hy
    · exact h.inside y hy
    · exact h.closed x hx y ((hmem y).1 hy).1
  have hnodup : (visited ++ fresh).Nodup := by
    refine List.nodup_append.2 ⟨h.nodup, hnd, ?_⟩
    rintro a ha b hb rfl
    exact ((hmem a).1 hb).2 ha
  refine ⟨fun y hy => hU y (hin y hy), hnodup, hin, ?_⟩
  have hle := (List.subperm_of_subset hnodup hin).length_le
  have henough := h.enough
  rw [List.length_append] at hle ⊢
  omega

/-! ### Reachability -/

/-- `y` can be reached from `x` by going to a successor any number of times. -/
def Reach (next : α → List α) : α → α → Prop :=
  Relation.ReflTransGen fun x y => y ∈ next x

theorem reach_mono {next next' : α → List α} (h : ∀ x, ∀ y ∈ next x, y ∈ next' x) {x y : α}
    (hreach : Reach next x y) : Reach next' x y := by
  induction hreach with
  | refl => exact .refl
  | tail _ hstep ih => exact ih.tail (h _ _ hstep)

theorem reach_congr {next next' : α → List α} (h : ∀ x y, y ∈ next x ↔ y ∈ next' x) :
    Reach next = Reach next' := by
  unfold Reach
  congr
  funext x y
  exact propext (h x y)

/-- The invariant of `explore`: marks are reachable, and a mark that is not in
the queue any more has had its successors marked and its contribution taken. -/
structure Exploring (next : α → List α) (emits : α → ε → Prop) (start visited queue : List α)
    (acc : List ε) : Prop where
  queued : ∀ x ∈ queue, x ∈ visited
  started : ∀ x ∈ start, x ∈ visited
  reached : ∀ x ∈ visited, ∃ s ∈ start, Reach next s x
  done : ∀ x ∈ visited, x ∈ queue ∨ (∀ y ∈ next x, y ∈ visited) ∧ ∀ e, emits x e → e ∈ acc
  found : ∀ e ∈ acc, ∃ x ∈ visited, emits x e

theorem Exploring.init {next : α → List α} {emits : α → ε → Prop} (start : List α) :
    Exploring next emits start start start [] where
  queued := fun _ h => h
  started := fun _ h => h
  reached := fun x h => ⟨x, h, .refl⟩
  done := fun _ h => .inl h
  found := by simp

/-- What a vertex contributes: its accumulator step adds just what it emits. -/
def Emits (work : List ε → α → List ε) (emits : α → ε → Prop) : Prop :=
  ∀ acc x e, e ∈ work acc x ↔ e ∈ acc ∨ emits x e

theorem Exploring.round {next : α → List α} {work : List ε → α → List ε}
    {emits : α → ε → Prop} (hwork : Emits work emits) {start visited queue fresh : List α}
    {acc : List ε} {x : α}
    (h : Exploring next emits start visited (x :: queue) acc)
    (hmem : ∀ y, y ∈ fresh ↔ y ∈ next x ∧ y ∉ visited) :
    Exploring next emits start (visited ++ fresh) (queue ++ fresh) (work acc x) := by
  have hx : x ∈ visited := h.queued x List.mem_cons_self
  have hnext : ∀ y ∈ next x, y ∈ visited ++ fresh := by
    intro y hy
    by_cases hV : y ∈ visited
    · exact List.mem_append_left _ hV
    · exact List.mem_append_right _ ((hmem y).2 ⟨hy, hV⟩)
  refine ⟨?_, ?_, ?_, ?_, ?_⟩
  · intro y hy
    rcases List.mem_append.1 hy with hy | hy
    · exact List.mem_append_left _ (h.queued y (List.mem_cons_of_mem _ hy))
    · exact List.mem_append_right _ hy
  · intro y hy
    exact List.mem_append_left _ (h.started y hy)
  · intro y hy
    rcases List.mem_append.1 hy with hy | hy
    · exact h.reached y hy
    · obtain ⟨s, hs, hr⟩ := h.reached x hx
      exact ⟨s, hs, hr.tail ((hmem y).1 hy).1⟩
  · intro y hy
    rcases List.mem_append.1 hy with hy | hy
    · rcases h.done y hy with hq | ⟨hn, he⟩
      · rcases List.mem_cons.1 hq with rfl | hq
        · exact .inr ⟨hnext, fun e hye => (hwork _ _ _).2 (.inr hye)⟩
        · exact .inl (List.mem_append_left _ hq)
      · exact .inr ⟨fun z hz => List.mem_append_left _ (hn z hz),
          fun e hye => (hwork _ _ _).2 (.inl (he e hye))⟩
    · exact .inl (List.mem_append_right _ hy)
  · intro e he
    rcases (hwork _ _ _).1 he with he | he
    · obtain ⟨y, hy, hye⟩ := h.found e he
      exact ⟨y, List.mem_append_left _ hy, hye⟩
    · exact ⟨x, List.mem_append_left _ hx, he⟩

/-- The loop ends with the invariant and an empty queue. -/
theorem explore_exploring [DecidableEq α] {next : α → List α} {work : List ε → α → List ε}
    {emits : α → ε → Prop} (hwork : Emits work emits) {U start : List α}
    (hU : ∀ x ∈ U, ∀ y ∈ next x, y ∈ U) :
    ∀ {n : ℕ} {visited queue : List α} {acc : List ε},
      Bounded next U visited queue.length n → Exploring next emits start visited queue acc →
      Exploring next emits start (explore next work n visited queue acc).1 []
        (explore next work n visited queue acc).2 := by
  intro n
  induction n with
  | zero =>
      intro visited queue acc hb h
      have hnil : queue = [] := List.length_eq_zero_iff.1 (by have := hb.enough; omega)
      subst hnil
      exact h
  | succ n ih =>
      intro visited queue acc hb h
      cases queue with
      | nil => exact h
      | cons x queue =>
          obtain ⟨fresh, heq, hnd, hmem⟩ := foldl_visit id (next x) visited queue
          have hx : x ∈ visited := h.queued x List.mem_cons_self
          rw [List.map_id] at heq
          simp only [explore, heq]
          refine ih ?_ (h.round hwork hmem)
          rw [List.length_append]
          exact hb.round hU hx hnd hmem

/-- The loop as it runs, without fuel: it ends when the queue is empty. -/
inductive Ends [DecidableEq α] (next : α → List α) (work : ω → α → ω) :
    List α → List α → ω → List α × ω → Prop
  | done (visited : List α) (acc : ω) : Ends next work visited [] acc (visited, acc)
  | round {visited queue visited' queue' : List α} {acc : ω} {x : α} {result : List α × ω}
      (marked : (next x).foldl (visit id) (visited, queue) = (visited', queue'))
      (rest : Ends next work visited' queue' (work acc x) result) :
      Ends next work visited (x :: queue) acc result

theorem explore_ends [DecidableEq α] {next : α → List α} {work : ω → α → ω} {U : List α}
    (hU : ∀ x ∈ U, ∀ y ∈ next x, y ∈ U) :
    ∀ {n : ℕ} {visited queue : List α} {acc : ω}, Bounded next U visited queue.length n →
      (∀ x ∈ queue, x ∈ visited) →
      Ends next work visited queue acc (explore next work n visited queue acc) := by
  intro n
  induction n with
  | zero =>
      intro visited queue acc hb _
      have hnil : queue = [] := List.length_eq_zero_iff.1 (by have := hb.enough; omega)
      subst hnil
      exact .done visited acc
  | succ n ih =>
      intro visited queue acc hb hqueue
      cases queue with
      | nil => exact .done visited acc
      | cons x queue =>
          obtain ⟨fresh, heq, hnd, hmem⟩ := foldl_visit id (next x) visited queue
          have hx : x ∈ visited := hqueue x List.mem_cons_self
          rw [List.map_id] at heq
          refine .round heq ?_
          simp only [explore, heq]
          refine ih ?_ fun y hy => ?_
          · rw [List.length_append]
            exact hb.round hU hx hnd hmem
          · rcases List.mem_append.1 hy with hy | hy
            · exact List.mem_append_left _ (hqueue y (List.mem_cons_of_mem _ hy))
            · exact List.mem_append_right _ hy

/-- What every contribution keeps is kept by the accumulator. -/
theorem explore_snd_induct [DecidableEq α] {next : α → List α} {work : ω → α → ω}
    {inv : ω → Prop} (hwork : ∀ acc x, inv acc → inv (work acc x)) :
    ∀ {n : ℕ} {visited queue : List α} {acc : ω},
      inv acc → inv (explore next work n visited queue acc).2 := by
  intro n
  induction n with
  | zero => exact fun h => h
  | succ n ih =>
      intro visited queue acc h
      cases queue with
      | nil => exact h
      | cons x queue => exact ih (hwork acc x h)

section Explore

variable [DecidableEq α] {next : α → List α} {work : List ε → α → List ε}
  {emits : α → ε → Prop} {U start : List α} {n : ℕ}

omit [DecidableEq α] in
theorem Bounded.init (hU : ∀ x ∈ U, ∀ y ∈ next x, y ∈ U) (hnd : start.Nodup)
    (hin : ∀ x ∈ start, x ∈ U) (hn : U.length ≤ n) :
    Bounded next U start start.length n := by
  have hle := (List.subperm_of_subset hnd hin).length_le
  exact ⟨fun x hx => hU x (hin x hx), hnd, hin, by omega⟩

theorem explore_spec (hwork : Emits work emits) (hU : ∀ x ∈ U, ∀ y ∈ next x, y ∈ U)
    (hnd : start.Nodup) (hin : ∀ x ∈ start, x ∈ U) (hn : U.length ≤ n) :
    Exploring next emits start (explore next work n start start []).1 []
      (explore next work n start start []).2 :=
  explore_exploring hwork hU (.init hU hnd hin hn) (.init start)

/-- The marks at the end are the vertices reachable from the start. -/
theorem mem_explore_fst (hwork : Emits work emits) (hU : ∀ x ∈ U, ∀ y ∈ next x, y ∈ U)
    (hnd : start.Nodup) (hin : ∀ x ∈ start, x ∈ U) (hn : U.length ≤ n) {x : α} :
    x ∈ (explore next work n start start []).1 ↔ ∃ s ∈ start, Reach next s x := by
  have h := explore_spec hwork hU hnd hin hn
  constructor
  · exact h.reached x
  · rintro ⟨s, hs, hr⟩
    induction hr with
    | refl => exact h.started s hs
    | tail _ hstep ih =>
        rcases h.done _ ih with hq | ⟨hn', _⟩
        · cases hq
        · exact hn' _ hstep

/-- What has been found at the end is what the vertices reachable from the start emit. -/
theorem mem_explore_snd (hwork : Emits work emits) (hU : ∀ x ∈ U, ∀ y ∈ next x, y ∈ U)
    (hnd : start.Nodup) (hin : ∀ x ∈ start, x ∈ U) (hn : U.length ≤ n) {e : ε} :
    e ∈ (explore next work n start start []).2 ↔
      ∃ s ∈ start, ∃ x, Reach next s x ∧ emits x e := by
  have h := explore_spec hwork hU hnd hin hn
  constructor
  · intro he
    obtain ⟨x, hx, hxe⟩ := h.found e he
    obtain ⟨s, hs, hr⟩ := h.reached x hx
    exact ⟨s, hs, x, hr, hxe⟩
  · rintro ⟨s, hs, x, hr, hxe⟩
    have hx := (mem_explore_fst hwork hU hnd hin hn).2 ⟨s, hs, hr⟩
    rcases h.done x hx with hq | ⟨_, he⟩
    · cases hq
    · exact he e hxe

end Explore

/-! ### Distances -/

/-- `y` is reached from `x` in exactly `n` hops. -/
def Hops (next : α → List α) (x : α) : ℕ → α → Prop
  | 0, y => y = x
  | n + 1, z => ∃ y, Hops next x n y ∧ z ∈ next y

theorem hops_congr {next next' : α → List α} (h : ∀ x y, y ∈ next x ↔ y ∈ next' x) (x : α) :
    ∀ n y, Hops next x n y ↔ Hops next' x n y := by
  intro n
  induction n with
  | zero => exact fun _ => .rfl
  | succ n ih => exact fun z => exists_congr fun y => and_congr (ih y) (h y z)

/-- The least number of hops. -/
def Dist (next : α → List α) (x : α) (n : ℕ) (y : α) : Prop :=
  Hops next x n y ∧ ∀ k < n, ¬Hops next x k y

/-- The invariant of `nearest`: the queue is what is left of one level, then
what has been found of the next, and a mark in neither has been left behind. -/
structure Levels (next : α → List α) (goal : α → Bool) (s : α) (visited : List α) (d : ℕ)
    (here there : List α) : Prop where
  here_dist : ∀ x ∈ here, Dist next s d x
  there_dist : ∀ x ∈ there, Dist next s (d + 1) x
  marked : ∀ k ≤ d, ∀ x, Hops next s k x → x ∈ visited
  queued : ∀ x ∈ here ++ there, x ∈ visited
  done : ∀ x ∈ visited, x ∈ here ∨ x ∈ there ∨ goal x = false ∧ ∀ y ∈ next x, y ∈ visited

variable {next : α → List α} {goal : α → Bool} {s : α}

theorem Levels.init : Levels next goal s [s] 0 [s] [] where
  here_dist := by
    intro x hx
    exact ⟨List.mem_singleton.1 hx, by simp⟩
  there_dist := by simp
  marked := by
    intro k hk x hx
    obtain rfl : k = 0 := by omega
    exact List.mem_singleton.2 hx
  queued := by simp
  done := fun x hx => .inl hx

/-- When a level is used up, the next one is complete. -/
theorem Levels.descend {visited there : List α} {d : ℕ}
    (h : Levels next goal s visited d [] there) :
    Levels next goal s visited (d + 1) there [] where
  here_dist := h.there_dist
  there_dist := by simp
  marked := by
    intro k hk x hx
    rcases Nat.lt_or_ge k (d + 1) with hlt | hge
    · exact h.marked k (by omega) x hx
    · obtain rfl : k = d + 1 := by omega
      obtain ⟨y, hy, hxy⟩ := hx
      rcases h.done y (h.marked d (by omega) y hy) with h' | h' | ⟨_, h'⟩
      · cases h'
      · exact absurd hy ((h.there_dist y h').2 d (by omega))
      · exact h' x hxy
  queued := by simpa using h.queued
  done := by
    intro x hx
    rcases h.done x hx with h' | h' | h'
    · cases h'
    · exact .inl h'
    · exact .inr (.inr h')

theorem Levels.round {visited here there fresh : List α} {d : ℕ} {x : α}
    (h : Levels next goal s visited d (x :: here) there) (hgoal : goal x = false)
    (hmem : ∀ y, y ∈ fresh ↔ y ∈ next x ∧ y ∉ visited) :
    Levels next goal s (visited ++ fresh) d here (there ++ fresh) where
  here_dist := fun y hy => h.here_dist y (List.mem_cons_of_mem _ hy)
  there_dist := by
    intro y hy
    rcases List.mem_append.1 hy with hy | hy
    · exact h.there_dist y hy
    · obtain ⟨hxy, hV⟩ := (hmem y).1 hy
      refine ⟨⟨x, (h.here_dist x List.mem_cons_self).1, hxy⟩, fun k hk hh => hV ?_⟩
      exact h.marked k (by omega) y hh
  marked := fun k hk y hy => List.mem_append_left _ (h.marked k hk y hy)
  queued := by
    intro y hy
    have hold : y ∈ here ++ there → y ∈ visited := fun hy => h.queued y (List.mem_cons_of_mem _ hy)
    rw [← List.append_assoc] at hy
    rcases List.mem_append.1 hy with hy | hy
    · exact List.mem_append_left _ (hold hy)
    · exact List.mem_append_right _ hy
  done := by
    intro y hy
    rcases List.mem_append.1 hy with hy | hy
    · rcases h.done y hy with h' | h' | ⟨hg, h'⟩
      · rcases List.mem_cons.1 h' with rfl | h'
        · refine .inr (.inr ⟨hgoal, fun z hz => ?_⟩)
          by_cases hV : z ∈ visited
          · exact List.mem_append_left _ hV
          · exact List.mem_append_right _ ((hmem z).2 ⟨hz, hV⟩)
        · exact .inl h'
      · exact .inr (.inl (List.mem_append_left _ h'))
      · exact .inr (.inr ⟨hg, fun z hz => List.mem_append_left _ (h' z hz)⟩)
    · exact .inr (.inl (List.mem_append_right _ hy))

/-- The answer of a search for the nearest goal. -/
def IsNearest (next : α → List α) (goal : α → Bool) (s : α) : Option ℕ → Prop
  | some d => (∃ t, goal t = true ∧ Hops next s d t) ∧
      ∀ k < d, ∀ t, goal t = true → ¬Hops next s k t
  | none => ∀ k t, goal t = true → ¬Hops next s k t

theorem IsNearest.congr {next' : α → List α} {goal' : α → Bool} {a : Option ℕ}
    (hnext : ∀ x y, y ∈ next x ↔ y ∈ next' x) (hgoal : ∀ x, goal x = goal' x)
    (h : IsNearest next goal s a) : IsNearest next' goal' s a := by
  obtain rfl : goal = goal' := funext hgoal
  cases a with
  | none => exact fun k t ht hh => h k t ht ((hops_congr hnext s k t).2 hh)
  | some d =>
      obtain ⟨⟨t, ht, hh⟩, hless⟩ := h
      exact ⟨⟨t, ht, (hops_congr hnext s d t).1 hh⟩,
        fun k hk t ht hh => hless k hk t ht ((hops_congr hnext s k t).2 hh)⟩

theorem IsNearest.unique {a b : Option ℕ} (ha : IsNearest next goal s a)
    (hb : IsNearest next goal s b) : a = b := by
  cases a with
  | none =>
      cases b with
      | none => rfl
      | some e =>
          obtain ⟨⟨t, ht, hh⟩, _⟩ := hb
          exact absurd hh (ha e t ht)
  | some d =>
      obtain ⟨⟨t, ht, hh⟩, hd⟩ := ha
      cases b with
      | none => exact absurd hh (hb d t ht)
      | some e =>
          obtain ⟨⟨t', ht', hh'⟩, he⟩ := hb
          rcases Nat.lt_trichotomy d e with hlt | heq | hgt
          · exact absurd hh (he d hlt t ht)
          · rw [heq]
          · exact absurd hh' (hd e hgt t' ht')

/-- With everything done there is no goal within any number of hops. -/
theorem Levels.isNearest_none {visited : List α} {d : ℕ}
    (h : Levels next goal s visited d [] []) : IsNearest next goal s none := by
  have hdone : ∀ x ∈ visited, goal x = false ∧ ∀ y ∈ next x, y ∈ visited := by
    intro x hx
    rcases h.done x hx with h' | h' | h'
    · cases h'
    · cases h'
    · exact h'
  have hall : ∀ k x, Hops next s k x → x ∈ visited := by
    intro k
    induction k with
    | zero => exact h.marked 0 (by omega)
    | succ k ih =>
        rintro x ⟨y, hy, hxy⟩
        exact (hdone y (ih y hy)).2 x hxy
  intro k t ht hh
  rw [(hdone t (hall k t hh)).1] at ht
  cases ht

/-- The first goal that comes off the queue is a nearest one. -/
theorem Levels.isNearest_some {visited here there : List α} {d : ℕ} {x : α}
    (h : Levels next goal s visited d (x :: here) there) (hgoal : goal x = true) :
    IsNearest next goal s (some d) := by
  refine ⟨⟨x, hgoal, (h.here_dist x List.mem_cons_self).1⟩, fun k hk t ht hh => ?_⟩
  rcases h.done t (h.marked k (by omega) t hh) with h' | h' | ⟨hg, _⟩
  · exact (h.here_dist t h').2 k hk hh
  · exact (h.there_dist t h').2 k (by omega) hh
  · rw [hg] at ht
    cases ht

theorem nearest_levels [DecidableEq α] {U : List α} (hU : ∀ x ∈ U, ∀ y ∈ next x, y ∈ U) :
    ∀ {n d : ℕ} {visited here there : List α},
      Bounded next U visited (here ++ there).length n →
      Levels next goal s visited d here there →
      IsNearest next goal s
        (nearest next goal n visited (here.map (·, d) ++ there.map (·, d + 1))) := by
  intro n
  induction n with
  | zero =>
      intro d visited here there hb h
      have hnil : here ++ there = [] := List.length_eq_zero_iff.1 (by have := hb.enough; omega)
      obtain ⟨rfl, rfl⟩ := List.append_eq_nil_iff.1 hnil
      exact h.isNearest_none
  | succ n ih =>
      -- one round with a vertex `x` of the current level at the head of the queue
      have hround : ∀ {d : ℕ} {visited here there : List α} {x : α},
          Bounded next U visited ((x :: here) ++ there).length (n + 1) →
          Levels next goal s visited d (x :: here) there →
          IsNearest next goal s (nearest next goal (n + 1) visited
            ((x :: here).map (·, d) ++ there.map (·, d + 1))) := by
        intro d visited here there x hb h
        simp only [List.map_cons, List.cons_append, nearest]
        split
        · next hgoal => exact h.isNearest_some hgoal
        · next hgoal =>
            obtain ⟨fresh, heq, hnd, hmem⟩ := foldl_visit (·, d + 1) (next x) visited
              (here.map (·, d) ++ there.map (·, d + 1))
            have hx : x ∈ visited := h.queued x (by simp)
            have hb' := hb.round hU hx hnd hmem
            rw [heq, List.append_assoc, ← List.map_append]
            refine ih ?_ (h.round (Bool.eq_false_iff.2 hgoal) hmem)
            rwa [← List.append_assoc, List.length_append]
      intro d visited here there hb h
      cases here with
      | cons x here => exact hround hb h
      | nil =>
          cases there with
          | nil => exact h.isNearest_none
          | cons x there =>
              have hb' : Bounded next U visited ((x :: there) ++ []).length (n + 1) := by
                simpa using hb
              simpa using hround hb' h.descend

/-- With fuel for the whole universe the search finds a nearest goal. -/
theorem nearest_spec [DecidableEq α] {U : List α} {n : ℕ} (hU : ∀ x ∈ U, ∀ y ∈ next x, y ∈ U) (hs : s ∈ U)
    (hn : U.length ≤ n) : IsNearest next goal s (nearest next goal n [s] [(s, 0)]) := by
  have hpos : 0 < U.length := List.length_pos_of_mem hs
  refine nearest_levels hU ⟨?_, List.nodup_singleton s, ?_, ?_⟩ .init
  · intro x hx
    rw [List.mem_singleton.1 hx]
    exact hU s hs
  · intro x hx
    rwa [List.mem_singleton.1 hx]
  · simp only [List.append_nil, List.length_singleton]
    omega

end Atrib.Lib.Search
