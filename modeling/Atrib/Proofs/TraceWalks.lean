import Atrib.Lib.DepthFirst
import Atrib.Lib.Layers
import Atrib.Recall.TraceWalk
import Mathlib.Algebra.Order.Ring.Rat
import Mathlib.Tactic.Linarith

/-!
# What a walk visits

The queue is in the order of depths, so a hash comes off it first at the least
depth it was put there with. What is lost of the queue is deeper than the walk
goes, leads to no record of the scope, or has been visited already, no deeper.
So in the end every record that can be reached within the depth has been
visited, at its distance, unless the cap has ended the walk.
-/

namespace Atrib.Recall.Trace

open Lib (InsertionMap InsertionSet.add JsValue groupStep)
open Lib.Search (Dist Hops Reach hops_congr hops_converse reach_iff_hops unexpanded
  unexpanded_expand)

variable (index : RecordIndex) (edges : String → IndexedRecord → List JsValue)
  (scope : Option String) (depth : ℚ)

/-- There is a record of the scope under the hash. -/
def walkable (hash : String) : Bool := (index.byHash.get? hash).any (·.inScope scope)

/-- The records of the scope that the edges of a record lead to. -/
def walkNext (hash : String) : List String :=
  (((index.byHash.get? hash).filter (·.inScope scope)).elim [] (edges hash)).filterMap fun ref =>
    ref.string?.filter (walkable index scope)

variable {index edges scope depth}

theorem walkable_iff {hash : String} : walkable index scope hash = true ↔
    ∃ indexed, index.byHash.get? hash = some indexed ∧ indexed.inScope scope = true := by
  simp [walkable, Option.any_eq_true]

theorem mem_walkNext {x y : String} : y ∈ walkNext index edges scope x ↔
    ∃ indexed, index.byHash.get? x = some indexed ∧ indexed.inScope scope = true ∧
      JsValue.string y ∈ edges x indexed ∧ walkable index scope y = true := by
  have hstring : ∀ {ref : JsValue}, ref.string? = some y ↔ ref = .string y := by
    intro ref
    exact ⟨JsValue.eq_string_of_string?, fun h => h ▸ rfl⟩
  simp only [walkNext, List.mem_filterMap, Option.filter_eq_some_iff, hstring]
  constructor
  · rintro ⟨ref, hmem, rfl, hwalkable⟩
    cases hfound : index.byHash.get? x with
    | none => simp [hfound] at hmem
    | some indexed =>
        by_cases hscope : indexed.inScope scope = true
        · refine ⟨indexed, rfl, hscope, ?_, hwalkable⟩
          simpa [hfound, Option.filter, hscope] using hmem
        · simp [hfound, Option.filter, hscope] at hmem
  · rintro ⟨indexed, hfound, hscope, hmem, hwalkable⟩
    refine ⟨.string y, ?_, rfl, hwalkable⟩
    simpa [hfound, Option.filter, hscope] using hmem

theorem walkable_of_mem_walkNext {x y : String} (h : y ∈ walkNext index edges scope x) :
    walkable index scope y = true := by
  obtain ⟨-, -, -, -, hy⟩ := mem_walkNext.1 h
  exact hy

/-! ## The invariant -/

/-- `y` is accounted for at depth `k`: visited, or in the queue. -/
def Known (depthAt : String → Option ℕ) (queue : List Frontier) (y : String) (k : ℕ) : Prop :=
  (∃ d ≤ k, depthAt y = some d) ∨ ∃ f ∈ queue, f.hash = .string y ∧ f.depth ≤ k

variable (index edges scope depth)

/-- The depths of what has been visited, what is in the queue, and whether the
depth has cut something off. -/
structure Walking (start : String) (depthAt : String → Option ℕ) (queue : List Frontier)
    (cut : Bool) : Prop where
  hops : ∀ h d, depthAt h = some d →
    Hops (walkNext index edges scope) start d h ∧ (d : ℚ) ≤ depth
  queued : ∀ f ∈ queue, ∀ h, f.hash = .string h → walkable index scope h = true →
    Hops (walkNext index edges scope) start f.depth h
  sorted : queue.Pairwise fun f g => f.depth ≤ g.depth
  spread : ∀ f ∈ queue, ∀ g ∈ queue, g.depth ≤ f.depth + 1
  behind : ∀ h d, depthAt h = some d → ∀ f ∈ queue, d ≤ f.depth
  begun : 0 ≤ depth → Known depthAt queue start 0
  closed : ∀ h d, depthAt h = some d → ((d + 1 : ℕ) : ℚ) ≤ depth →
    ∀ y ∈ walkNext index edges scope h, Known depthAt queue y (d + 1)
  complete : cut = false → (∃ k, Known depthAt queue start k) ∧
    ∀ h d, depthAt h = some d → ∀ y ∈ walkNext index edges scope h, ∃ k, Known depthAt queue y k

variable {index edges scope depth}

namespace Walking

variable {start : String} {depthAt : String → Option ℕ} {queue : List Frontier} {cut : Bool}

theorem init : Walking index edges scope depth start (fun _ => none) [⟨.string start, 0, none⟩]
    false where
  hops := by simp
  queued := by
    rintro f hf h heq -
    rw [List.mem_singleton.1 hf] at heq ⊢
    exact (JsValue.string.inj heq).symm
  sorted := List.pairwise_singleton _ _
  spread := by
    intro f hf g hg
    rw [List.mem_singleton.1 hf, List.mem_singleton.1 hg]
    exact Nat.zero_le _
  behind := by simp
  begun := fun _ => .inr ⟨_, List.mem_singleton_self _, rfl, Nat.le_refl _⟩
  closed := by simp
  complete := fun _ => ⟨⟨0, .inr ⟨_, List.mem_singleton_self _, rfl, Nat.le_refl _⟩⟩, by simp⟩

/-- What is taken off the queue may be lost if it is accounted for without it. -/
theorem drop {f : Frontier} {cut' : Bool}
    (h : Walking index edges scope depth start depthAt (f :: queue) cut)
    (hstart : walkable index scope start = true)
    (hbound : ∀ (y : String) (k : ℕ), walkable index scope y = true → (k : ℚ) ≤ depth →
      Known depthAt (f :: queue) y k → Known depthAt queue y k)
    (hcut : cut' = false → cut = false ∧ ∀ (y : String) (k : ℕ), walkable index scope y = true →
      Known depthAt (f :: queue) y k → ∃ k, Known depthAt queue y k) :
    Walking index edges scope depth start depthAt queue cut' where
  hops := h.hops
  queued := fun g hg => h.queued g (List.mem_cons_of_mem _ hg)
  sorted := (List.pairwise_cons.1 h.sorted).2
  spread := fun g hg g' hg' => h.spread g (List.mem_cons_of_mem _ hg) g' (List.mem_cons_of_mem _ hg')
  behind := fun x d hx g hg => h.behind x d hx g (List.mem_cons_of_mem _ hg)
  begun := fun hdepth => hbound start 0 hstart (by exact_mod_cast hdepth) (h.begun hdepth)
  closed := fun x d hx hd y hy =>
    hbound y (d + 1) (walkable_of_mem_walkNext hy) hd (h.closed x d hx hd y hy)
  complete := by
    intro hfalse
    obtain ⟨hcut, hall⟩ := hcut hfalse
    obtain ⟨⟨k, hk⟩, hnext⟩ := h.complete hcut
    refine ⟨hall start k hstart hk, fun x d hx y hy => ?_⟩
    obtain ⟨k, hk⟩ := hnext x d hx y hy
    exact hall y k (walkable_of_mem_walkNext hy) hk

theorem drop_deep {f : Frontier} (h : Walking index edges scope depth start depthAt (f :: queue) cut)
    (hstart : walkable index scope start = true) (hdeep : depth < f.depth) :
    Walking index edges scope depth start depthAt queue true := by
  refine h.drop hstart (fun y k _ hk hknown => ?_) (fun h => by cases h)
  rcases hknown with hvisited | ⟨g, hg, hgy, hgk⟩
  · exact .inl hvisited
  · rcases List.mem_cons.1 hg with rfl | hg
    · have hlt : (g.depth : ℚ) ≤ k := by exact_mod_cast hgk
      linarith
    · exact .inr ⟨g, hg, hgy, hgk⟩

theorem drop_other {f : Frontier} (h : Walking index edges scope depth start depthAt (f :: queue) cut)
    (hstart : walkable index scope start = true)
    (hother : ∀ y, f.hash = .string y → walkable index scope y = false) :
    Walking index edges scope depth start depthAt queue cut := by
  have hkeep : ∀ y k, walkable index scope y = true → Known depthAt (f :: queue) y k →
      Known depthAt queue y k := by
    intro y k hy hknown
    rcases hknown with hvisited | ⟨g, hg, hgy, hgk⟩
    · exact .inl hvisited
    · rcases List.mem_cons.1 hg with rfl | hg
      · rw [hother y hgy] at hy
        cases hy
      · exact .inr ⟨g, hg, hgy, hgk⟩
  exact h.drop hstart (fun y k hy _ => hkeep y k hy)
    fun hfalse => ⟨hfalse, fun y k hy hknown => ⟨k, hkeep y k hy hknown⟩⟩

theorem drop_seen {f : Frontier} {hash : String} {d : ℕ}
    (h : Walking index edges scope depth start depthAt (f :: queue) cut)
    (hstart : walkable index scope start = true) (hhash : f.hash = .string hash)
    (hseen : depthAt hash = some d) :
    Walking index edges scope depth start depthAt queue cut := by
  have hkeep : ∀ y k, Known depthAt (f :: queue) y k → Known depthAt queue y k := by
    intro y k hknown
    rcases hknown with hvisited | ⟨g, hg, hgy, hgk⟩
    · exact .inl hvisited
    · rcases List.mem_cons.1 hg with rfl | hg
      · obtain rfl : hash = y := JsValue.string.inj (hhash.symm.trans hgy)
        exact .inl ⟨d, (h.behind hash d hseen g List.mem_cons_self).trans hgk, hseen⟩
      · exact .inr ⟨g, hg, hgy, hgk⟩
  exact h.drop hstart (fun y k _ _ => hkeep y k)
    fun hfalse => ⟨hfalse, fun y k _ hknown => ⟨k, hkeep y k hknown⟩⟩

/-- A record that has not been visited: its edges go to the end of the queue. -/
theorem visit {f : Frontier} {hash : String} {indexed : IndexedRecord} {pushed : List Frontier}
    {cut' : Bool} (h : Walking index edges scope depth start depthAt (f :: queue) cut)
    (hhash : f.hash = .string hash) (hnew : depthAt hash = none)
    (hindexed : index.byHash.get? hash = some indexed) (hscope : indexed.inScope scope = true)
    (hdepth : (f.depth : ℚ) ≤ depth)
    (hpushed : ∀ g ∈ pushed, g.depth = f.depth + 1 ∧ g.hash ∈ edges hash indexed)
    (hall : (f.depth : ℚ) < depth → ∀ ref ∈ edges hash indexed, ∃ g ∈ pushed, g.hash = ref)
    (hcut : cut' = false →
      cut = false ∧ ∀ ref ∈ edges hash indexed, ∃ g ∈ pushed, g.hash = ref) :
    Walking index edges scope depth start
      (fun x => if x = hash then some f.depth else depthAt x) (queue ++ pushed) cut' := by
  obtain ⟨hfirst, hrest⟩ := List.pairwise_cons.1 h.sorted
  have hwalkable : walkable index scope hash = true := walkable_iff.2 ⟨indexed, hindexed, hscope⟩
  have hhere : Hops (walkNext index edges scope) start f.depth hash :=
    h.queued f List.mem_cons_self hash hhash hwalkable
  have hnear : ∀ g ∈ queue, g.depth ≤ f.depth + 1 := fun g hg =>
    h.spread f List.mem_cons_self g (List.mem_cons_of_mem _ hg)
  -- whatever was accounted for still is
  have hkeep : ∀ {y k}, Known depthAt (f :: queue) y k →
      Known (fun x => if x = hash then some f.depth else depthAt x) (queue ++ pushed) y k := by
    intro y k hknown
    rcases hknown with ⟨d, hd, hvisited⟩ | ⟨g, hg, hgy, hgk⟩
    · refine .inl ⟨d, hd, ?_⟩
      have hne : y ≠ hash := by
        rintro rfl
        rw [hnew] at hvisited
        cases hvisited
      simpa [hne] using hvisited
    · rcases List.mem_cons.1 hg with rfl | hg
      · obtain rfl : hash = y := JsValue.string.inj (hhash.symm.trans hgy)
        exact .inl ⟨g.depth, hgk, if_pos rfl⟩
      · exact .inr ⟨g, List.mem_append_left _ hg, hgy, hgk⟩
  have hedges : (∀ ref ∈ edges hash indexed, ∃ g ∈ pushed, g.hash = ref) →
      ∀ y ∈ walkNext index edges scope hash,
        Known (fun x => if x = hash then some f.depth else depthAt x) (queue ++ pushed) y
          (f.depth + 1) := by
    intro hrefs y hy
    obtain ⟨indexed', hindexed', -, hmem, -⟩ := mem_walkNext.1 hy
    rw [hindexed] at hindexed'
    cases hindexed'
    obtain ⟨g, hg, hgy⟩ := hrefs _ hmem
    exact .inr ⟨g, List.mem_append_right _ hg, hgy, (hpushed g hg).1.le⟩
  refine ⟨?_, ?_, ?_, ?_, ?_, fun hpos => hkeep (h.begun hpos), ?_, ?_⟩
  · intro x d hx
    split at hx
    · next heq =>
        cases heq
        cases hx
        exact ⟨hhere, hdepth⟩
    · exact h.hops x d hx
  · intro g hg y hgy hy
    rcases List.mem_append.1 hg with hg | hg
    · exact h.queued g (List.mem_cons_of_mem _ hg) y hgy hy
    · obtain ⟨hgdepth, hghash⟩ := hpushed g hg
      rw [hgdepth]
      exact ⟨hash, hhere, mem_walkNext.2 ⟨indexed, hindexed, hscope, hgy ▸ hghash, hy⟩⟩
  · refine List.pairwise_append.2 ⟨hrest, ?_, ?_⟩
    · refine List.pairwise_of_forall_mem_list fun g hg g' hg' => ?_
      rw [(hpushed g hg).1, (hpushed g' hg').1]
    · intro g hg g' hg'
      rw [(hpushed g' hg').1]
      exact hnear g hg
  · intro g hg g' hg'
    have hlow : f.depth ≤ g.depth := by
      rcases List.mem_append.1 hg with hg | hg
      · exact hfirst g hg
      · rw [(hpushed g hg).1]
        omega
    have hhigh : g'.depth ≤ f.depth + 1 := by
      rcases List.mem_append.1 hg' with hg' | hg'
      · exact hnear g' hg'
      · rw [(hpushed g' hg').1]
    omega
  · intro x d hx g hg
    have hlow : f.depth ≤ g.depth := by
      rcases List.mem_append.1 hg with hg | hg
      · exact hfirst g hg
      · rw [(hpushed g hg).1]
        omega
    split at hx
    · cases hx
      exact hlow
    · exact (h.behind x d hx f List.mem_cons_self).trans hlow
  · intro x d hx hd y hy
    split at hx
    · next heq =>
        cases heq
        cases hx
        refine hedges (hall ?_) y hy
        push_cast at hd
        linarith
    · exact hkeep (h.closed x d hx hd y hy)
  · intro hfalse
    obtain ⟨hold, hrefs⟩ := hcut hfalse
    obtain ⟨⟨k, hk⟩, hnext⟩ := h.complete hold
    refine ⟨⟨k, hkeep hk⟩, fun x d hx y hy => ?_⟩
    split at hx
    · next heq =>
        cases heq
        exact ⟨f.depth + 1, hedges hrefs y hy⟩
    · obtain ⟨k, hk⟩ := hnext x d hx y hy
      exact ⟨k, hkeep hk⟩

/-! ### With the queue used up -/

theorem depthAt_of_hops (h : Walking index edges scope depth start depthAt [] cut) :
    ∀ {k : ℕ} {y : String}, Hops (walkNext index edges scope) start k y → (k : ℚ) ≤ depth →
      ∃ d ≤ k, depthAt y = some d
  | 0, _, rfl, hk => by
      rcases h.begun (by exact_mod_cast hk) with hvisited | ⟨f, hf, -⟩
      · exact hvisited
      · cases hf
  | k + 1, y, ⟨x, hx, hy⟩, hk => by
      have hle : (k : ℚ) ≤ depth := by
        push_cast at hk
        linarith
      obtain ⟨d, hd, hvisited⟩ := h.depthAt_of_hops hx hle
      have hnear : ((d + 1 : ℕ) : ℚ) ≤ depth := by
        have : ((d + 1 : ℕ) : ℚ) ≤ ((k + 1 : ℕ) : ℚ) := by exact_mod_cast Nat.succ_le_succ hd
        linarith
      rcases h.closed x d hvisited hnear y hy with ⟨d', hd', hy'⟩ | ⟨f, hf, -⟩
      · exact ⟨d', by omega, hy'⟩
      · cases hf

/-- Visited is what lies within the depth, at its distance. -/
theorem depthAt_iff (h : Walking index edges scope depth start depthAt [] cut) {y : String} {k : ℕ} :
    depthAt y = some k ↔ (k : ℚ) ≤ depth ∧ Dist (walkNext index edges scope) start k y := by
  constructor
  · intro hy
    obtain ⟨hhops, hle⟩ := h.hops y k hy
    refine ⟨hle, hhops, fun m hm hfewer => ?_⟩
    have hmk : (m : ℚ) ≤ k := by exact_mod_cast hm.le
    obtain ⟨d, hd, hvisited⟩ := h.depthAt_of_hops hfewer (hmk.trans hle)
    rw [hy] at hvisited
    cases hvisited
    omega
  · rintro ⟨hle, hhops, hleast⟩
    obtain ⟨d, hd, hvisited⟩ := h.depthAt_of_hops hhops hle
    have hnot : ¬d < k := fun hlt => hleast d hlt (h.hops y d hvisited).1
    rwa [show k = d by omega]

/-- If nothing has been cut off, visited is all that can be reached. -/
theorem visited_iff_reach (h : Walking index edges scope depth start depthAt [] false) {y : String} :
    (∃ d, depthAt y = some d) ↔ Reach (walkNext index edges scope) start y := by
  obtain ⟨⟨k, hstart⟩, hnext⟩ := h.complete rfl
  constructor
  · rintro ⟨d, hd⟩
    exact reach_iff_hops.2 ⟨d, (h.hops y d hd).1⟩
  · intro hreach
    induction hreach with
    | refl =>
        rcases hstart with ⟨d, -, hd⟩ | ⟨f, hf, -⟩
        · exact ⟨d, hd⟩
        · cases hf
    | tail _ hstep ih =>
        obtain ⟨d, hd⟩ := ih
        obtain ⟨k, hk⟩ := hnext _ d hd _ hstep
        rcases hk with ⟨d', -, hd'⟩ | ⟨f, hf, -⟩
        · exact ⟨d', hd'⟩
        · cases hf

end Walking

/-! ## A round of the loop -/

def TraceState.depthAt (s : TraceState) (hash : String) : Option ℕ :=
  (s.visited.get? hash).map (·.depth)

def Keyed (visited : InsertionMap String TraceVisited) : Prop :=
  ∀ e ∈ visited.entries, e.2.recordHash = e.1

theorem addParent_depth (v : TraceVisited) (parent : Option String) :
    (v.addParent parent).depth = v.depth := by
  unfold TraceVisited.addParent
  split
  · split <;> rfl
  · rfl

theorem addParent_recordHash (v : TraceVisited) (parent : Option String) :
    (v.addParent parent).recordHash = v.recordHash := by
  unfold TraceVisited.addParent
  split
  · split <;> rfl
  · rfl

theorem lookup_string {hash : String} : index.lookup (.string hash) = index.byHash.get? hash := rfl

/-- What a round can do with the entry that it takes off the queue. -/
theorem visitEntry_cases (s : TraceState) (f : Frontier) :
    (depth < f.depth ∧
      visitEntry index edges scope depth s f = { s with truncatedByDepth := true }) ∨
    (∃ dangling, (∀ y, f.hash = .string y → walkable index scope y = false) ∧
      visitEntry index edges scope depth s f =
        { s with dangling := dangling, depthReached := max s.depthReached f.depth }) ∨
    (∃ hash v, f.hash = .string hash ∧ s.visited.get? hash = some v ∧
      visitEntry index edges scope depth s f =
        { s with
          visited := s.visited.set hash (v.addParent f.parent)
          depthReached := max s.depthReached f.depth }) ∨
    ∃ hash indexed, f.hash = .string hash ∧ index.byHash.get? hash = some indexed ∧
      indexed.inScope scope = true ∧ s.visited.get? hash = none ∧ (f.depth : ℚ) ≤ depth ∧
      visitEntry index edges scope depth s f =
        visitRecord edges depth { s with depthReached := max s.depthReached f.depth } hash
          indexed f := by
  unfold visitEntry
  split
  · next hdeep => exact .inl ⟨hdeep, rfl⟩
  · next hdeep =>
      right
      dsimp only
      split
      · next hash indexed hhash hlookup =>
          have hindexed : index.byHash.get? hash = some indexed := by
            rwa [hhash, lookup_string] at hlookup
          split
          · next hscope =>
              refine .inl ⟨_, fun y hy => ?_, rfl⟩
              obtain rfl : hash = y := JsValue.string.inj (hhash.symm.trans hy)
              simpa [walkable, hindexed] using hscope
          · next hscope =>
              split
              · next v hv => exact .inr (.inl ⟨hash, v, hhash, hv, rfl⟩)
              · next hnone =>
                  refine .inr (.inr ⟨hash, indexed, hhash, hindexed, ?_, hnone, not_lt.1 hdeep, rfl⟩)
                  simpa using hscope
      · next hother =>
          refine .inl ⟨_, fun y hy => ?_, rfl⟩
          have hnone : index.byHash.get? y = none := by
            cases hfound : index.byHash.get? y with
            | none => rfl
            | some indexed =>
                refine absurd ?_ (hother y indexed hy)
                rw [hy, lookup_string]
                exact hfound
          simp [walkable, hnone]

theorem depthAt_set {s : TraceState} {hash : String} {v : TraceVisited} {visited' : TraceState}
    (h : visited'.visited = s.visited.set hash v) :
    visited'.depthAt = fun x => if x = hash then some v.depth else s.depthAt x := by
  funext x
  rw [TraceState.depthAt, h, InsertionMap.get?_set]
  split
  · rfl
  · rfl

/-- What the loop keeps. -/
structure Sound (index : RecordIndex) (edges : String → IndexedRecord → List JsValue)
    (scope : Option String) (depth : ℚ) (start : String) (s : TraceState) : Prop where
  walking : Walking index edges scope depth start s.depthAt s.frontier s.truncatedByDepth
  keyed : Keyed s.visited

theorem Keyed.set {visited : InsertionMap String TraceVisited} (h : Keyed visited) {hash : String}
    {v : TraceVisited} (hv : v.recordHash = hash) : Keyed (visited.set hash v) := by
  intro e he
  rcases InsertionMap.mem_entries_set he with rfl | hold
  · exact hv
  · exact h e hold

theorem visitEntry_sound {start : String} {s : TraceState} {f : Frontier}
    (hstart : walkable index scope start = true)
    (h : Walking index edges scope depth start s.depthAt (f :: s.frontier) s.truncatedByDepth)
    (hkeyed : Keyed s.visited) :
    Sound index edges scope depth start (visitEntry index edges scope depth s f) := by
  rcases visitEntry_cases s f with ⟨hdeep, heq⟩ | ⟨dangling, hother, heq⟩ |
    ⟨hash, v, hhash, hv, heq⟩ | ⟨hash, indexed, hhash, hindexed, hscope, hnew, hdepth, heq⟩
  · rw [heq]
    exact ⟨h.drop_deep hstart hdeep, hkeyed⟩
  · rw [heq]
    exact ⟨h.drop_other hstart hother, hkeyed⟩
  · rw [heq]
    have hseen : s.depthAt hash = some v.depth := by rw [TraceState.depthAt, hv]; rfl
    refine ⟨?_, hkeyed.set ?_⟩
    · rw [depthAt_set (s := s) rfl, addParent_depth]
      have hsame : (fun x => if x = hash then some v.depth else s.depthAt x) = s.depthAt := by
        funext x
        split
        · next hx => rw [hx, hseen]
        · rfl
      rw [hsame]
      exact h.drop_seen hstart hhash hseen
    · rw [addParent_recordHash]
      exact hkeyed _ (InsertionMap.get?_mem hv)
  · rw [heq]
    have hunseen : s.depthAt hash = none := by rw [TraceState.depthAt, hnew]; rfl
    have hvisit := fun (pushed : List Frontier) (cut' : Bool) =>
      @Walking.visit index edges scope depth start s.depthAt s.frontier s.truncatedByDepth f hash indexed
        pushed cut' h hhash hunseen hindexed hscope hdepth
    unfold visitRecord
    dsimp only
    split
    · next hlt =>
        refine ⟨?_, hkeyed.set (addParent_recordHash _ _)⟩
        rw [depthAt_set (s := s) rfl, addParent_depth]
        have hall : ∀ ref ∈ edges hash indexed, ∃ g ∈ (edges hash indexed).map fun ref =>
            (⟨ref, f.depth + 1, some hash⟩ : Frontier), g.hash = ref := fun ref href =>
          ⟨_, List.mem_map_of_mem href, rfl⟩
        refine hvisit _ _ ?_ (fun _ => hall) fun hfalse => ⟨hfalse, hall⟩
        intro g hg
        obtain ⟨ref, href, rfl⟩ := List.mem_map.1 hg
        exact ⟨rfl, href⟩
    · next hlt =>
        refine ⟨?_, hkeyed.set (addParent_recordHash _ _)⟩
        rw [depthAt_set (s := s) rfl, addParent_depth]
        have hnone := hvisit [] (s.truncatedByDepth || edges hash indexed ≠ []) (by simp)
          (fun hless => absurd hless hlt)
        rw [List.append_nil] at hnone
        refine hnone fun hfalse => ?_
        simp only [ne_eq, decide_not, Bool.or_eq_false_iff, Bool.not_eq_eq_eq_not, Bool.not_false,
          decide_eq_true_eq] at hfalse
        exact ⟨hfalse.1, by simp [hfalse.2]⟩

/-! ## The whole loop -/

/-- The edges out of what stands under a hash. -/
def edgesOf (index : RecordIndex) (edges : String → IndexedRecord → List JsValue) (ref : JsValue) :
    List JsValue :=
  (ref.string?.bind fun hash => (index.byHash.get? hash).map (edges hash)).getD []

theorem keys_set_of_mem {visited : InsertionMap String TraceVisited} {hash : String}
    (h : hash ∈ visited.keys) (v : TraceVisited) : (visited.set hash v).keys = visited.keys := by
  show (visited.set hash v).entries.map Prod.fst = _
  rw [InsertionMap.entries_set, if_pos h, InsertionMap.map_fst_replace]
  rfl

theorem keys_set_of_not_mem {visited : InsertionMap String TraceVisited} {hash : String}
    (h : hash ∉ visited.keys) (v : TraceVisited) :
    (visited.set hash v).keys = visited.keys ++ [hash] := by
  show (visited.set hash v).entries.map Prod.fst = _
  rw [InsertionMap.entries_set, if_neg h, List.map_append]
  rfl

/-- Each hash of the index, and those that have been visited. -/
def RecordIndex.refs (index : RecordIndex) : List JsValue := index.byHash.keys.map .string

def TraceState.seen (s : TraceState) : List JsValue := s.visited.keys.map .string

/-- The entries in the queue, and those that may still be put there. -/
def pending (index : RecordIndex) (edges : String → IndexedRecord → List JsValue)
    (s : TraceState) : ℕ :=
  s.frontier.length + unexpanded (edgesOf index edges) index.refs s.seen

theorem edgesOf_string {hash : String} {indexed : IndexedRecord}
    (h : index.byHash.get? hash = some indexed) :
    edgesOf index edges (.string hash) = edges hash indexed := by
  rw [edgesOf, show (JsValue.string hash).string? = some hash from rfl, Option.bind_some, h]
  rfl

theorem nodup_map_string {l : List String} (h : l.Nodup) : (l.map JsValue.string).Nodup :=
  h.map fun _ _ => JsValue.string.inj

theorem mem_refs_of_edgesOf {ref : JsValue} (h : edgesOf index edges ref ≠ []) :
    ref ∈ index.refs := by
  cases ref with
  | string hash =>
      cases hfound : index.byHash.get? hash with
      | none => exact absurd (by simp [edgesOf, JsValue.string?, hfound]) h
      | some indexed =>
          exact List.mem_map_of_mem (InsertionMap.mem_keys_of_mem (InsertionMap.get?_mem hfound))
  | _ => exact absurd rfl h

/-- A record that is visited puts no more in the queue than may still be put there. -/
theorem visitRecord_pending {s : TraceState} {hash : String} {indexed : IndexedRecord}
    (hindexed : index.byHash.get? hash = some indexed) (hnew : s.visited.get? hash = none)
    (f : Frontier) :
    pending index edges (visitRecord edges depth s hash indexed f) ≤ pending index edges s := by
  have hunseen : hash ∉ s.visited.keys := by
    intro hmem
    obtain ⟨v, hv⟩ := InsertionMap.exists_get? hmem
    rw [hnew] at hv
    cases hv
  have hkeys : (visitRecord edges depth s hash indexed f).seen = s.seen ++ [.string hash] := by
    have hvisited : (visitRecord edges depth s hash indexed f).visited =
        s.visited.set hash (TraceVisited.addParent
          ⟨f.depth, hash, [], indexed.record, indexed.source, edges hash indexed⟩ f.parent) := by
      unfold visitRecord
      dsimp only
      split <;> rfl
    rw [TraceState.seen, hvisited, keys_set_of_not_mem hunseen, List.map_append]
    rfl
  have hfrontier : (visitRecord edges depth s hash indexed f).frontier.length ≤
      s.frontier.length + (edges hash indexed).length := by
    unfold visitRecord
    dsimp only
    split
    · rw [List.length_append, List.length_map]
    · exact Nat.le_add_right _ _
  have hfresh : JsValue.string hash ∉ s.seen := by
    intro hmem
    obtain ⟨x, hx, heq⟩ := List.mem_map.1 hmem
    exact hunseen (JsValue.string.inj heq ▸ hx)
  have hrefsOf : edgesOf index edges (.string hash) ≠ [] → JsValue.string hash ∈ index.refs :=
    mem_refs_of_edgesOf
  have hexpand := unexpanded_expand (nodup_map_string index.byHash.nodup) hrefsOf hfresh
  rw [edgesOf_string hindexed] at hexpand
  unfold pending
  rw [hkeys]
  have hrefs : index.refs = index.byHash.keys.map JsValue.string := rfl
  have hkeys' : index.byHash.keys = index.byHash.entries.map Prod.fst := rfl
  rw [← hkeys', ← hrefs] at hexpand
  omega

theorem visitEntry_pending (s : TraceState) (f : Frontier) :
    pending index edges (visitEntry index edges scope depth s f) ≤ pending index edges s := by
  rcases visitEntry_cases s f
    with ⟨-, heq⟩ | ⟨dangling, -, heq⟩ | ⟨hash, v, -, hv, heq⟩ |
      ⟨hash, indexed, -, hindexed, -, hnew, -, heq⟩
  · rw [heq]
    exact Nat.le_refl _
  · rw [heq]
    exact Nat.le_refl _
  · have hmem : hash ∈ s.visited.keys := InsertionMap.mem_keys_of_mem (InsertionMap.get?_mem hv)
    rw [heq]
    unfold pending TraceState.seen
    dsimp only
    rw [keys_set_of_mem hmem]
  · rw [heq]
    exact visitRecord_pending (s := { s with depthReached := max s.depthReached f.depth })
      hindexed hnew f

/-- With enough rounds the loop ends, at the cap or with the queue used up. -/
theorem walkLoop_spec {start : String} (hstart : walkable index scope start = true)
    {maxNodes : ℚ} : ∀ {rounds : ℕ} {s : TraceState}, Sound index edges scope depth start s →
      pending index edges s ≤ rounds →
      Sound index edges scope depth start (walkLoop index edges scope depth maxNodes rounds s) ∧
        ((walkLoop index edges scope depth maxNodes rounds s).frontier = [] ∨
          (walkLoop index edges scope depth maxNodes rounds s).truncatedByCap = true)
  | 0, s, hs, hrounds => by
      have hnil : s.frontier = [] := by
        rw [← List.length_eq_zero_iff]
        unfold pending at hrounds
        omega
      exact ⟨hs, .inl hnil⟩
  | rounds + 1, s, hs, hrounds => by
      rw [walkLoop]
      split
      · next hnil => exact ⟨hs, .inl hnil⟩
      · next f rest hfrontier =>
          split
          · exact ⟨⟨hs.walking, hs.keyed⟩, .inr rfl⟩
          · have hwalking := hs.walking
            rw [hfrontier] at hwalking
            refine walkLoop_spec hstart (visitEntry_sound hstart hwalking hs.keyed) ?_
            refine Nat.le_trans (visitEntry_pending _ f) ?_
            unfold pending at hrounds ⊢
            rw [hfrontier, List.length_cons] at hrounds
            have hseen : ({ s with frontier := rest } : TraceState).seen = s.seen := rfl
            rw [hseen]
            dsimp only
            omega

theorem pending_start (start : String) :
    pending index edges { frontier := [⟨.string start, 0, none⟩] } = walkRounds index edges := by
  have hseen : ({ frontier := [⟨.string start, 0, none⟩] } : TraceState).seen = [] := rfl
  rw [pending, hseen, walkRounds, unexpanded, Nat.add_comm]
  congr 2
  rw [List.filter_eq_self.2 (by simp), RecordIndex.refs, List.map_map]
  show (index.byHash.entries.map Prod.fst).map _ = _
  rw [List.map_map]
  refine List.map_congr_left fun e he => ?_
  show (edgesOf index edges (.string e.1)).length = _
  rw [edgesOf_string (InsertionMap.get?_of_mem he)]

/-! ## The result -/

/-- Each record once, at its distance; with no flag up, all that can be reached. -/
structure ExactTrace (index : RecordIndex) (scope : Option String) (next : String → List String)
    (start : String) (depth : ℚ) (result : TraceResult) : Prop where
  once : (result.visited.map (·.recordHash)).Nodup
  exact : result.truncatedByCap = false → ∀ hash k,
    (∃ v ∈ result.visited, v.recordHash = hash ∧ v.depth = k) ↔
      walkable index scope start = true ∧ (k : ℚ) ≤ depth ∧ Dist next start k hash
  closure : result.truncatedByCap = false → result.truncatedByDepth = false → ∀ hash,
    (∃ v ∈ result.visited, v.recordHash = hash) ↔
      walkable index scope start = true ∧ Reach next start hash

/-- The loop has ended by itself, not for want of rounds. -/
def Ended (s : TraceState) : Prop := s.frontier = [] ∨ s.truncatedByCap = true

theorem walkLoop_ended {start : String} (hstart : walkable index scope start = true)
    (maxNodes : ℚ) :
    Sound index edges scope depth start (walkLoop index edges scope depth maxNodes
      (walkRounds index edges) { frontier := [⟨.string start, 0, none⟩] }) ∧
    Ended (walkLoop index edges scope depth maxNodes (walkRounds index edges)
      { frontier := [⟨.string start, 0, none⟩] }) := by
  refine walkLoop_spec hstart ⟨?_, by simp [Keyed]⟩ (pending_start start).le
  exact .init

theorem mem_values_iff {s : TraceState} (hs : Keyed s.visited) {hash : String} {k : ℕ} :
    (∃ v ∈ s.visited.values, v.recordHash = hash ∧ v.depth = k) ↔ s.depthAt hash = some k := by
  rw [TraceState.depthAt, Option.map_eq_some_iff]
  constructor
  · rintro ⟨v, hv, rfl, hk⟩
    obtain ⟨e, he, rfl⟩ := List.mem_map.1 hv
    exact ⟨e.2, hs e he ▸ InsertionMap.get?_of_mem he, hk⟩
  · rintro ⟨v, hv, hk⟩
    have hmem := InsertionMap.get?_mem hv
    exact ⟨v, List.mem_map_of_mem hmem, hs _ hmem, hk⟩

theorem nodup_values {s : TraceState} (hs : Keyed s.visited) :
    (s.visited.values.map (·.recordHash)).Nodup := by
  have heq : s.visited.values.map (·.recordHash) = s.visited.entries.map Prod.fst := by
    rw [InsertionMap.values, List.map_map]
    exact List.map_congr_left hs
  rw [heq]
  exact s.visited.nodup

theorem traceWalk_exact (index : RecordIndex) (edges : String → IndexedRecord → List JsValue)
    (depth : ℚ) (direction : TraceDirection) (start : String) (options : TraceOptions) :
    ExactTrace index options.scope (walkNext index edges options.scope) start depth
      (traceWalk index edges depth direction start options) := by
  have hnone : ∀ result : TraceResult, walkable index options.scope start = false →
      result.visited = [] →
        ExactTrace index options.scope (walkNext index edges options.scope) start depth result := by
    intro result hstart hvisited
    exact ⟨by simp [hvisited], by simp [hvisited, hstart], by simp [hvisited, hstart]⟩
  unfold traceWalk
  split
  · next hfound => exact hnone _ (by simp [walkable, hfound]) rfl
  · next indexed hfound =>
      split
      · next hscope => exact hnone _ (by simpa [walkable, hfound] using hscope) rfl
      · next hscope =>
          have hstart : walkable index options.scope start = true := by
            simpa [walkable, hfound] using hscope
          obtain ⟨hsound, hended⟩ := walkLoop_ended hstart
            (options.maxNodes.getD 200)
          dsimp only
          revert hsound hended
          generalize walkLoop index edges options.scope depth (options.maxNodes.getD 200)
            (walkRounds index edges) { frontier := [⟨.string start, 0, none⟩] } = s
          intro hsound hended
          have hwalking : s.truncatedByCap = false → Walking index edges options.scope depth start
              s.depthAt [] s.truncatedByDepth := by
            intro hcap
            rcases hended with hnil | htrue
            · rw [← hnil]
              exact hsound.walking
            · rw [hcap] at htrue
              cases htrue
          refine ⟨nodup_values hsound.keyed, fun hcap hash k => ?_, fun hcap hcut hash => ?_⟩
          · rw [mem_values_iff hsound.keyed, (hwalking hcap).depthAt_iff, and_iff_right hstart]
          · have hreach := hwalking hcap
            rw [show s.truncatedByDepth = false from hcut] at hreach
            rw [and_iff_right hstart, ← hreach.visited_iff_reach]
            simp only [← mem_values_iff hsound.keyed]
            constructor
            · rintro ⟨v, hv, h⟩
              exact ⟨v.depth, v, hv, h, rfl⟩
            · rintro ⟨_, v, hv, h, -⟩
              exact ⟨v, hv, h⟩

/-! ## The references, one way and the other -/

/-- The records of the scope that a record names in `informed_by`. -/
def upstream (index : RecordIndex) (scope : Option String) : String → List String :=
  walkNext index (fun _ indexed => indexed.informedBy) scope

/-- The records that name a record. -/
def downstream (index : RecordIndex) (scope : Option String) (hash : String) : List String :=
  index.byHash.keys.filter fun x => hash ∈ upstream index scope x

theorem mem_downstream {x y : String} :
    x ∈ downstream index scope y ↔ y ∈ upstream index scope x := by
  rw [downstream, List.mem_filter, decide_eq_true_iff, and_iff_right_iff_imp]
  intro h
  obtain ⟨indexed, hindexed, -⟩ := mem_walkNext.1 h
  exact InsertionMap.mem_keys_of_mem (InsertionMap.get?_mem hindexed)

/-- What the reverse index has under a hash. -/
theorem mem_reverse {x y : String} :
    y ∈ ((buildReverseInformedByIndex index).get? x).getD [] ↔
      ∃ indexed, index.byHash.get? y = some indexed ∧ JsValue.string x ∈ indexed.informedBy := by
  have hfold : ∀ (l : List (JsValue × String)) (hashes : List String),
      l.foldl (fun hashes citation => hashes ++ [citation.2]) hashes = hashes ++ l.map Prod.snd := by
    intro l
    induction l with
    | nil => simp
    | cons a l ih =>
        intro hashes
        rw [List.foldl_cons, ih, List.append_assoc]
        rfl
  have hmembers : ((buildReverseInformedByIndex index).get? x).getD [] =
      (Lib.membersOf (fun citation : JsValue × String => citation.1.string?) index.citations
        x).map Prod.snd := by
    rw [buildReverseInformedByIndex, Lib.get?_grouped]
    split
    · next hnil =>
        rw [hnil]
        rfl
    · rw [hfold]
      rfl
  rw [hmembers, List.mem_map]
  constructor
  · rintro ⟨citation, hmem, rfl⟩
    obtain ⟨hcitation, hx⟩ := (Lib.mem_membersOf _).1 hmem
    obtain ⟨r, hr, hr'⟩ := List.mem_flatMap.1 hcitation
    obtain ⟨ref, href, rfl⟩ := List.mem_map.1 hr'
    obtain ⟨e, he, rfl⟩ := List.mem_map.1 hr
    refine ⟨e.2, ?_, JsValue.eq_string_of_string? hx ▸ href⟩
    rw [index.keyed e he]
    exact InsertionMap.get?_of_mem he
  · rintro ⟨indexed, hindexed, hmem⟩
    have hentry := InsertionMap.get?_mem hindexed
    refine ⟨(.string x, y), (Lib.mem_membersOf _).2 ⟨?_, rfl⟩, rfl⟩
    refine List.mem_flatMap.2 ⟨indexed, List.mem_map_of_mem hentry, ?_⟩
    refine List.mem_map.2 ⟨.string x, hmem, ?_⟩
    rw [index.keyed _ hentry]

theorem mem_walkNext_reverse {x y : String} :
    y ∈ walkNext index
        (fun hash _ => (((buildReverseInformedByIndex index).get? hash).getD []).map .string)
        scope x ↔ y ∈ downstream index scope x := by
  rw [mem_downstream, upstream, mem_walkNext, mem_walkNext]
  have hstring : JsValue.string y ∈ (((buildReverseInformedByIndex index).get? x).getD []).map
      JsValue.string ↔ y ∈ ((buildReverseInformedByIndex index).get? x).getD [] :=
    List.mem_map_of_injective fun _ _ => JsValue.string.inj
  constructor
  · rintro ⟨indexed, hindexed, hscope, hmem, hy⟩
    obtain ⟨indexed', hindexed', hciting⟩ := mem_reverse.1 (hstring.1 hmem)
    obtain ⟨indexed'', hindexed'', hscope'⟩ := walkable_iff.1 hy
    rw [hindexed'] at hindexed''
    cases hindexed''
    exact ⟨indexed', hindexed', hscope', hciting, walkable_iff.2 ⟨indexed, hindexed, hscope⟩⟩
  · rintro ⟨indexed, hindexed, hscope, hmem, hx⟩
    obtain ⟨indexed', hindexed', hscope'⟩ := walkable_iff.1 hx
    exact ⟨indexed', hindexed', hscope', hstring.2 (mem_reverse.2 ⟨indexed, hindexed, hmem⟩),
      walkable_iff.2 ⟨indexed, hindexed, hscope⟩⟩

theorem ExactTrace.congr {next next' : String → List String} {start : String} {result : TraceResult}
    (hnext : ∀ x y, y ∈ next x ↔ y ∈ next' x)
    (h : ExactTrace index scope next start depth result) :
    ExactTrace index scope next' start depth result where
  once := h.once
  exact := by
    intro hcap hash k
    rw [h.exact hcap hash k]
    simp only [Lib.Search.Dist, hops_congr hnext]
  closure := by
    intro hcap hcut hash
    rw [h.closure hcap hcut hash, reach_iff_hops, reach_iff_hops]
    simp only [hops_congr hnext]

theorem traceBackward_exact (index : RecordIndex) (depth : ℚ) (start : String)
    (options : TraceOptions) :
    ExactTrace index options.scope (upstream index options.scope) start depth
      (traceBackward start depth index options) :=
  traceWalk_exact ..

theorem traceForward_exact (index : RecordIndex) (depth : ℚ) (start : String)
    (options : TraceOptions) :
    ExactTrace index options.scope (downstream index options.scope) start depth
      (traceForward start depth index options) :=
  (traceWalk_exact ..).congr fun _ _ => mem_walkNext_reverse

/-! ### Duality -/

theorem walkable_of_hops {next : String → List String}
    (hnext : ∀ x, ∀ y ∈ next x, walkable index scope y = true) {x y : String}
    (hx : walkable index scope x = true) : ∀ {k : ℕ}, Hops next x k y → walkable index scope y = true
  | 0, rfl => hx
  | _ + 1, ⟨_, _, hy⟩ => hnext _ _ hy

/-- Within a depth: at some distance, or by some walk. -/
theorem exists_dist_iff {next : String → List String} {x y : String} :
    (∃ k : ℕ, (k : ℚ) ≤ depth ∧ Dist next x k y) ↔ ∃ k : ℕ, (k : ℚ) ≤ depth ∧ Hops next x k y := by
  constructor
  · rintro ⟨k, hk, hdist⟩
    exact ⟨k, hk, hdist.1⟩
  · rintro ⟨k, hk, hhops⟩
    induction k using Nat.strong_induction_on with
    | _ k ih =>
        by_cases hfewer : ∃ m < k, Hops next x m y
        · obtain ⟨m, hm, hhops'⟩ := hfewer
          have hmk : (m : ℚ) ≤ k := by exact_mod_cast hm.le
          exact ih m hm (hmk.trans hk) hhops'
        · exact ⟨k, hk, hhops, fun m hm h => hfewer ⟨m, hm, h⟩⟩

theorem ExactTrace.mem_iff {next : String → List String} {start : String} {result : TraceResult}
    (h : ExactTrace index scope next start depth result) (hcap : result.truncatedByCap = false)
    {hash : String} : (∃ v ∈ result.visited, v.recordHash = hash) ↔
      walkable index scope start = true ∧ ∃ k : ℕ, (k : ℚ) ≤ depth ∧ Hops next start k hash := by
  rw [← exists_dist_iff]
  constructor
  · rintro ⟨v, hv, hhash⟩
    obtain ⟨hstart, hk⟩ := (h.exact hcap hash v.depth).1 ⟨v, hv, hhash, rfl⟩
    exact ⟨hstart, _, hk⟩
  · rintro ⟨hstart, k, hk⟩
    obtain ⟨v, hv, hhash, -⟩ := (h.exact hcap hash k).2 ⟨hstart, hk⟩
    exact ⟨v, hv, hhash⟩

theorem hops_downstream_iff {x y : String} {k : ℕ} :
    walkable index scope x = true ∧ Hops (downstream index scope) x k y ↔
      walkable index scope y = true ∧ Hops (upstream index scope) y k x := by
  have hdown : ∀ x, ∀ y ∈ downstream index scope x, walkable index scope y = true := by
    intro x y hy
    obtain ⟨indexed, hindexed, hscope, -⟩ := mem_walkNext.1 (mem_downstream.1 hy)
    exact walkable_iff.2 ⟨indexed, hindexed, hscope⟩
  have hup : ∀ x, ∀ y ∈ upstream index scope x, walkable index scope y = true :=
    fun x y hy => walkable_of_mem_walkNext hy
  constructor
  · rintro ⟨hx, hhops⟩
    refine ⟨walkable_of_hops hdown hx hhops, ?_⟩
    exact hops_converse hdown (fun _ _ _ _ => mem_downstream.1) hx hhops
  · rintro ⟨hy, hhops⟩
    refine ⟨walkable_of_hops hup hy hhops, ?_⟩
    exact hops_converse hup (fun _ _ _ _ => mem_downstream.2) hy hhops

/-- For every index, depth, scope and caps. -/
theorem trace_walks_exact (index : RecordIndex) (depth : ℚ) (contextId : Option String)
    (maxNodes maxNodes' : Option ℚ) (x y : String) :
    (∀ edges, walkable index (TraceOptions.scope ⟨maxNodes, contextId⟩) x = true →
      Ended (walkLoop index edges (TraceOptions.scope ⟨maxNodes, contextId⟩) depth
        (maxNodes.getD 200) (walkRounds index edges) { frontier := [⟨.string x, 0, none⟩] })) ∧
    ExactTrace index (TraceOptions.scope ⟨maxNodes, contextId⟩)
      (upstream index (TraceOptions.scope ⟨maxNodes, contextId⟩)) x depth
      (traceBackward x depth index ⟨maxNodes, contextId⟩) ∧
    ExactTrace index (TraceOptions.scope ⟨maxNodes, contextId⟩)
      (downstream index (TraceOptions.scope ⟨maxNodes, contextId⟩)) x depth
      (traceForward x depth index ⟨maxNodes, contextId⟩) ∧
    ((traceForward x depth index ⟨maxNodes, contextId⟩).truncatedByCap = false →
      (traceBackward y depth index ⟨maxNodes', contextId⟩).truncatedByCap = false →
      ((∃ v ∈ (traceForward x depth index ⟨maxNodes, contextId⟩).visited, v.recordHash = y) ↔
        ∃ v ∈ (traceBackward y depth index ⟨maxNodes', contextId⟩).visited, v.recordHash = x)) := by
  refine ⟨fun edges hx => (walkLoop_ended hx _).2, traceBackward_exact .., traceForward_exact ..,
    fun hforward hbackward => ?_⟩
  rw [(traceForward_exact ..).mem_iff hforward, (traceBackward_exact ..).mem_iff hbackward]
  have hscope : TraceOptions.scope ⟨maxNodes', contextId⟩ =
      TraceOptions.scope ⟨maxNodes, contextId⟩ := rfl
  rw [hscope]
  constructor
  · rintro ⟨hx, k, hk, hhops⟩
    obtain ⟨hy, hback⟩ := hops_downstream_iff.1 ⟨hx, hhops⟩
    exact ⟨hy, k, hk, hback⟩
  · rintro ⟨hy, k, hk, hhops⟩
    obtain ⟨hx, hforth⟩ := hops_downstream_iff.2 ⟨hy, hhops⟩
    exact ⟨hx, k, hk, hforth⟩

def informedRecord (hash : String) (refs : List String) : IndexedRecord where
  contextId := "c"
  record := .object [("informed_by", .array (refs.map .string))]
  recordHash := hash
  source := ""

/-- Two records that name each other, one of them twice, and one that is missing. -/
def cyclicIndex : RecordIndex :=
  .ofRecords [informedRecord "a" ["b", "m", "b"], informedRecord "b" ["a"]]

theorem trace_walks_exact_cycle :
    (traceForward "a" 1 cyclicIndex ⟨none, some "c"⟩).truncatedByCap = false ∧
    (traceBackward "b" 1 cyclicIndex ⟨some 5, some "c"⟩).truncatedByCap = false ∧
    ((∃ v ∈ (traceForward "a" 1 cyclicIndex ⟨none, some "c"⟩).visited, v.recordHash = "b") ↔
      ∃ v ∈ (traceBackward "b" 1 cyclicIndex ⟨some 5, some "c"⟩).visited, v.recordHash = "a") := by
  have hforward : (traceForward "a" 1 cyclicIndex ⟨none, some "c"⟩).truncatedByCap = false := by
    decide +kernel
  have hbackward : (traceBackward "b" 1 cyclicIndex ⟨some 5, some "c"⟩).truncatedByCap = false := by
    decide +kernel
  obtain ⟨-, -, -, hdual⟩ := trace_walks_exact cyclicIndex 1 (some "c") none (some 5) "a" "b"
  exact ⟨hforward, hbackward, hdual hforward hbackward⟩

end Atrib.Recall.Trace
