import Atrib.Lib.LabelSetting
import Atrib.Lib.Sorting
import Atrib.Recall.LocalGraph

/-!
# Walks over the local graph

`shortestDistances` settles the nearest node in each round, and every node that
it finds is settled in the end. What it finds are walks within the bound on the
hops, but one distance is kept for each node: a light walk that uses up the hops
hides a heavier one that has some left. The distances are those of the lightest
walks within the bound where no node on the way is hidden so.
-/

namespace Atrib.Recall.Mirror

open Lib (InsertionMap InsertionSet.add sortBy mem_sortBy sortBy_perm sortBy_pairwise)
open Lib.LabelSetting (Walk Clear Labels Settling)

/-- No edge types to choose from are all of them. -/
def Allowed (edgeTypes : List EdgeType) (edge : GraphEdge) : Prop :=
  edgeTypes = [] ∨ edge.type ∈ edgeTypes

/-- An edge that is followed. -/
def Follows (graph : LocalGraph) (edgeTypes : List EdgeType) (u v : String) (c : ℕ) : Prop :=
  ∃ edge ∈ (graph.get? u).getD [], Allowed edgeTypes edge ∧ edge.target = v ∧ edge.weight = c

/-- Edges lead to nodes of the graph. -/
def LocalGraph.Closed (graph : LocalGraph) : Prop :=
  ∀ u, ∀ edge ∈ (graph.get? u).getD [], edge.target ∈ graph.keys

def Distances.labels (s : Distances) : Labels String := ⟨s.dist.get?, s.hops.get?, {v | v ∈ s.visited}⟩

/-! ## The nearest node -/

/-- One entry in the loop for the nearest. -/
def Distances.nearer (s : Distances) (found : Option (String × ℕ)) (entry : String × ℕ) :
    Option (String × ℕ) :=
  if entry.1 ∈ s.visited then found
  else if found.all (entry.2 < ·.2) then some entry else found

/-- The nearest of the entries that have been looked at. -/
structure Nearest (s : Distances) (entries : List (String × ℕ)) (found : Option (String × ℕ)) :
    Prop where
  mem : ∀ f ∈ found, f ∈ entries ∧ f.1 ∉ s.visited
  least : ∀ e ∈ entries, e.1 ∉ s.visited → ∃ f ∈ found, f.2 ≤ e.2

theorem nearest_foldl (s : Distances) (entries : List (String × ℕ)) :
    Nearest s entries (entries.foldl s.nearer none) := by
  induction entries using List.reverseRecOn with
  | nil => exact ⟨nofun, nofun⟩
  | append_singleton es e ih =>
      rw [List.foldl_append, List.foldl_cons, List.foldl_nil, Distances.nearer]
      generalize es.foldl s.nearer none = found at ih
      have hmem : ∀ f ∈ found, f ∈ es ++ [e] ∧ f.1 ∉ s.visited := fun f hf =>
        ⟨List.mem_append_left _ (ih.mem f hf).1, (ih.mem f hf).2⟩
      split
      · next hvisited =>
          refine ⟨hmem, fun e' he' hnot => ?_⟩
          rcases List.mem_append.1 he' with he' | he'
          · exact ih.least e' he' hnot
          · exact absurd (List.mem_singleton.1 he' ▸ hvisited) hnot
      · next hnew =>
          split
          · next hall =>
              refine ⟨?_, fun e' he' hnot => ?_⟩
              · rintro f ⟨⟩
                exact ⟨List.mem_append_right _ List.mem_cons_self, hnew⟩
              · rcases List.mem_append.1 he' with he' | he'
                · obtain ⟨f, hf, hle⟩ := ih.least e' he' hnot
                  obtain rfl := hf
                  have hlt : e.2 < f.2 := by simpa using hall
                  exact ⟨e, rfl, hlt.le.trans hle⟩
                · obtain rfl := List.mem_singleton.1 he'
                  exact ⟨e', rfl, le_rfl⟩
          · next hsome =>
              refine ⟨hmem, fun e' he' hnot => ?_⟩
              rcases List.mem_append.1 he' with he' | he'
              · exact ih.least e' he' hnot
              · obtain rfl := List.mem_singleton.1 he'
                cases found with
                | none => exact absurd rfl hsome
                | some f => exact ⟨f, rfl, by simpa using hsome⟩

theorem nearest_spec (s : Distances) : Nearest s s.dist.entries s.nearest :=
  nearest_foldl s s.dist.entries

/-! ## The edges of a node -/

section

variable {graph : LocalGraph} {edgeTypes : List EdgeType} {start : String} {h : ℕ} {s : Distances}

/-- Edges of a node that are still to be tried. -/
def Untried (edgeTypes : List EdgeType) (node : String) (edges : List GraphEdge) (u v : String)
    (c : ℕ) : Prop :=
  u = node ∧ ∃ edge ∈ edges, Allowed edgeTypes edge ∧ edge.target = v ∧ edge.weight = c

/-- What the loop over the edges of a node keeps. -/
structure Relaxing (graph : LocalGraph) (edgeTypes : List EdgeType) (start : String) (h : ℕ)
    (node : String) (d k : ℕ) (edges : List GraphEdge) (s : Distances) : Prop where
  settling : Settling (Follows graph edgeTypes) start h s.labels d (Untried edgeTypes node edges)
  settled : node ∈ s.visited
  dist : s.dist.get? node = some d
  hops : s.hops.get? node = some k
  keys : ∀ v ∈ s.dist.keys, v ∈ graph.keys

theorem relax_spec (hclosed : graph.Closed) {node : String} {d k : ℕ} (hlt : k < h)
    {edge : GraphEdge} {edges : List GraphEdge} {s : Distances}
    (hedge : edge ∈ (graph.get? node).getD [])
    (hs : Relaxing graph edgeTypes start h node d k (edge :: edges) s) :
    Relaxing graph edgeTypes start h node d k edges (s.relax d k edgeTypes edge) ∧
      (s.relax d k edgeTypes edge).visited = s.visited := by
  unfold Distances.relax
  split
  · next hskip =>
      have hnot : ¬Allowed edgeTypes edge := fun hall => hall.elim hskip.1 hskip.2
      refine ⟨⟨?_, hs.settled, hs.dist, hs.hops, hs.keys⟩, rfl⟩
      have huntried : Untried edgeTypes node (edge :: edges) = Untried edgeTypes node edges := by
        funext u v c
        refine propext (and_congr_right fun _ => ?_)
        constructor
        · rintro ⟨e, he, hall, hrest⟩
          rcases List.mem_cons.1 he with rfl | he
          · exact absurd hall hnot
          · exact ⟨e, he, hall, hrest⟩
        · rintro ⟨e, he, hrest⟩
          exact ⟨e, List.mem_cons_of_mem _ he, hrest⟩
      exact huntried ▸ hs.settling
  · next hallowed =>
      have hallow : Allowed edgeTypes edge := by
        by_cases hempty : edgeTypes = []
        · exact .inl hempty
        · exact .inr (by_contra fun hnot => hallowed ⟨hempty, hnot⟩)
      have huntried : ∀ x y e, Untried edgeTypes node (edge :: edges) x y e →
          Untried edgeTypes node edges x y e ∨ (x, y, e) = (node, edge.target, edge.weight) := by
        rintro x y e ⟨rfl, e', he', hall, rfl, rfl⟩
        rcases List.mem_cons.1 he' with rfl | he'
        · exact .inr rfl
        · exact .inl ⟨rfl, e', he', hall, rfl, rfl⟩
      dsimp only
      split
      · next hnearer =>
          have hlower : ∀ d', s.dist.get? edge.target = some d' → d + edge.weight < d' := by
            intro d' hd'
            rw [hd'] at hnearer
            simpa using hnearer
          have hne : node ≠ edge.target := by
            intro heq
            have hself := hlower d (heq ▸ hs.dist)
            omega
          refine ⟨⟨?_, hs.settled, ?_, ?_, fun v hv => ?_⟩, rfl⟩
          · exact hs.settling.lower hs.dist hs.hops hlt ⟨edge, hedge, hallow, rfl, rfl⟩ hlower
              (fun x => InsertionMap.get?_set s.dist edge.target x _)
              (fun x => InsertionMap.get?_set s.hops edge.target x _) rfl huntried
          · rw [InsertionMap.get?_set_of_ne hne]
            exact hs.dist
          · rw [InsertionMap.get?_set_of_ne hne]
            exact hs.hops
          · rcases InsertionMap.mem_keys_set.1 hv with hv | rfl
            · exact hs.keys v hv
            · exact hclosed node edge hedge
      · next hfar =>
          have hold : ∃ d' ≤ d + edge.weight, s.dist.get? edge.target = some d' := by
            cases hd' : s.dist.get? edge.target with
            | none =>
                rw [hd'] at hfar
                exact absurd rfl hfar
            | some d' =>
                rw [hd'] at hfar
                exact ⟨d', by simpa using hfar, rfl⟩
          exact ⟨⟨hs.settling.keep hs.dist hold huntried, hs.settled, hs.dist, hs.hops, hs.keys⟩,
            rfl⟩

theorem relaxAll_spec (hclosed : graph.Closed) {node : String} {d k : ℕ} (hlt : k < h)
    {edges : List GraphEdge} (hedges : ∀ edge ∈ edges, edge ∈ (graph.get? node).getD [])
    {s : Distances} (hs : Relaxing graph edgeTypes start h node d k edges s) :
    Relaxing graph edgeTypes start h node d k [] (edges.foldl (Distances.relax d k edgeTypes) s) ∧
      (edges.foldl (Distances.relax d k edgeTypes) s).visited = s.visited := by
  induction edges generalizing s with
  | nil => exact ⟨hs, rfl⟩
  | cons edge edges ih =>
      obtain ⟨hfirst, hvisited⟩ := relax_spec hclosed hlt (hedges edge List.mem_cons_self) hs
      obtain ⟨hrest, hvisited'⟩ := ih (fun e he => hedges e (List.mem_cons_of_mem _ he)) hfirst
      exact ⟨hrest, hvisited'.trans hvisited⟩

/-! ## The rounds -/

/-- Between two rounds. -/
structure Searching (graph : LocalGraph) (edgeTypes : List EdgeType) (start : String) (h : ℕ)
    (s : Distances) : Prop where
  settling : ∃ bound, Settling (Follows graph edgeTypes) start h s.labels bound fun _ _ _ => False
  keys : ∀ v ∈ s.dist.keys, v ∈ graph.keys
  nodup : s.visited.Nodup

theorem Searching.visited_length (hs : Searching graph edgeTypes start h s) :
    s.visited.length ≤ graph.size := by
  have hsub : s.visited ⊆ graph.keys := by
    intro v hv
    obtain ⟨bound, hsettling⟩ := hs.settling
    obtain ⟨d, -, hd⟩ := hsettling.settled v hv
    exact hs.keys v (InsertionMap.mem_keys_of_mem (InsertionMap.get?_mem hd))
  have hle := (hs.nodup.subperm hsub).length_le
  rwa [InsertionMap.keys, List.length_map] at hle

/-- A round that finds a node settles one more. -/
theorem round_spec (hclosed : graph.Closed) (hs : Searching graph edgeTypes start h s)
    {node : String} {d : ℕ} (hnearest : s.nearest = some (node, d)) :
    ∃ s', Searching graph edgeTypes start h s' ∧ s'.visited.length = s.visited.length + 1 ∧
      ∀ rounds, distanceRounds graph edgeTypes (some (h : ℚ)) (rounds + 1) s =
        distanceRounds graph edgeTypes (some (h : ℚ)) rounds s' := by
  obtain ⟨bound, hsettling⟩ := hs.settling
  obtain ⟨hentry, hnew⟩ := (nearest_spec s).mem (node, d) hnearest
  have hd : s.dist.get? node = some d := InsertionMap.get?_of_mem hentry
  have hadd : InsertionSet.add s.visited node = s.visited ++ [node] := if_neg hnew
  obtain ⟨k, hk, -, -⟩ := hsettling.sound node d hd
  have hk' : s.hops.get? node = some k := hk
  have hmin : ∀ v d', v ∉ s.labels.settled → s.dist.get? v = some d' → d ≤ d' := by
    intro v d' hv hd'
    obtain ⟨f, hf, hle⟩ := (nearest_spec s).least (v, d') (InsertionMap.get?_mem hd') hv
    obtain rfl := Option.some.inj (hnearest.symm.trans hf)
    exact hle
  have hsettle := hsettling.settle hnew hd hmin
  have hlabels : ({ s with visited := InsertionSet.add s.visited node } : Distances).labels =
      { s.labels with settled := insert node s.labels.settled } := by
    rw [hadd, Distances.labels, Distances.labels]
    congr 1
    ext v
    simp [or_comm]
  have hnodup : (InsertionSet.add s.visited node).Nodup :=
    Lib.InsertionSet.nodup_add hs.nodup node
  have hlength : (InsertionSet.add s.visited node).length = s.visited.length + 1 := by
    rw [hadd, List.length_append, List.length_singleton]
  rw [← hlabels] at hsettle
  by_cases hlimit : h ≤ k
  · refine ⟨{ s with visited := InsertionSet.add s.visited node }, ⟨⟨d, hsettle.skip hk' hlimit⟩,
      hs.keys, hnodup⟩, hlength, fun rounds => ?_⟩
    simp only [distanceRounds, hnearest, hk', Option.getD_some, Option.any_some, Nat.cast_le,
      hlimit, decide_true, if_true]
  · have hrelaxing : Relaxing graph edgeTypes start h node d k ((graph.get? node).getD [])
        { s with visited := InsertionSet.add s.visited node } := by
      refine ⟨?_, ?_, hd, hk', hs.keys⟩
      · refine ⟨hsettle.sound, hsettle.start, hsettle.settled, hsettle.ahead,
          fun u d' k' hu hd' hk' hlt v c hedge hun => ?_⟩
        refine hsettle.tried u d' k' hu hd' hk' hlt v c hedge fun heq => hun ⟨heq, ?_⟩
        have hnode : Follows graph edgeTypes node v c := by
          rw [← show u = node from heq]
          exact hedge
        exact hnode
      · rw [hadd]
        exact List.mem_append_right _ List.mem_cons_self
    obtain ⟨hdone, hvisited⟩ := relaxAll_spec hclosed (not_le.1 hlimit) (fun _ he => he) hrelaxing
    refine ⟨_, ⟨⟨d, ?_⟩, hdone.keys, hvisited ▸ hnodup⟩, (congrArg _ hvisited).trans hlength,
      fun rounds => ?_⟩
    · have hnone : Untried edgeTypes node [] = fun _ _ _ => False := by
        funext u v c
        simp [Untried]
      exact hnone ▸ hdone.settling
    · simp only [distanceRounds, hnearest, hk', Option.getD_some, Option.any_some, Nat.cast_le,
        hlimit, decide_false]
      rfl

/-- The rounds end with every node settled that is found. -/
theorem distanceRounds_spec (hclosed : graph.Closed) {rounds : ℕ}
    (hs : Searching graph edgeTypes start h s)
    (hrounds : graph.size < rounds + s.visited.length) :
    Searching graph edgeTypes start h
        (distanceRounds graph edgeTypes (some (h : ℚ)) rounds s) ∧
      ∀ v ∈ (distanceRounds graph edgeTypes (some (h : ℚ)) rounds s).dist.keys,
        v ∈ (distanceRounds graph edgeTypes (some (h : ℚ)) rounds s).visited := by
  induction rounds generalizing s with
  | zero =>
      have := hs.visited_length
      omega
  | succ rounds ih =>
      cases hnearest : s.nearest with
      | none =>
          have hend : distanceRounds graph edgeTypes (some (h : ℚ)) (rounds + 1) s = s := by
            rw [distanceRounds, hnearest]
          rw [hend]
          refine ⟨hs, fun v hv => ?_⟩
          obtain ⟨d, hmem⟩ := InsertionMap.mem_keys.1 hv
          by_contra hnot
          obtain ⟨f, hf, -⟩ := (nearest_spec s).least (v, d) hmem hnot
          exact nomatch hnearest.symm.trans hf
      | some e =>
          obtain ⟨s', hs', hlength, hround⟩ := round_spec hclosed hs hnearest
          rw [hround rounds]
          exact ih hs' (by omega)

/-! ## The distances -/

/-- What is found is reached by a walk within the bound, and no clear walk is lighter. -/
theorem shortestDistances_spec (hclosed : graph.Closed) (hstart : start ∈ graph.keys) :
    (∀ v d, (shortestDistances graph start edgeTypes (some (h : ℚ))).get? v = some d →
      ∃ k ≤ h, Walk (Follows graph edgeTypes) start k d v) ∧
    ∀ n w v, Clear (Follows graph edgeTypes) start h n w v →
      ∃ d ≤ w, (shortestDistances graph start edgeTypes (some (h : ℚ))).get? v = some d := by
  have hfirst : ∀ v (d : ℕ), ((∅ : InsertionMap String ℕ).set start 0).get? v = some d →
      v = start := by
    intro v d hv
    by_contra hne
    rw [InsertionMap.get?_set_of_ne hne] at hv
    cases hv
  have hsearching : Searching graph edgeTypes start h
      { dist := (∅ : InsertionMap String ℕ).set start 0
        hops := (∅ : InsertionMap String ℕ).set start 0 } := by
    refine ⟨⟨0, .init (InsertionMap.get?_set_self _ _ _) (InsertionMap.get?_set_self _ _ _) hfirst ?_⟩,
      fun v hv => ?_, List.nodup_nil⟩
    · ext v
      exact iff_of_false List.not_mem_nil not_false
    · rcases InsertionMap.mem_keys_set.1 hv with hv | rfl
      · cases hv
      · exact hstart
  have hrun : shortestDistances graph start edgeTypes (some (h : ℚ)) =
      (distanceRounds graph edgeTypes (some (h : ℚ)) (graph.size + 1)
        { dist := (∅ : InsertionMap String ℕ).set start 0
          hops := (∅ : InsertionMap String ℕ).set start 0 }).dist := by
    have hhas : graph.has start = true := InsertionMap.has_eq_true.2 hstart
    simp [shortestDistances, hhas]
  obtain ⟨hdone, hall⟩ := distanceRounds_spec hclosed hsearching
    (show graph.size < graph.size + 1 + 0 from Nat.lt_succ_self _)
  rw [hrun]
  obtain ⟨bound, hsettling⟩ := hdone.settling
  refine ⟨fun v d hd => ?_, fun n w v hclear => ?_⟩
  · obtain ⟨k, -, hle, hwalk⟩ := hsettling.sound v d hd
    exact ⟨k, hle, hwalk⟩
  · exact hsettling.le_of_clear
      (fun v d hd => hall v (InsertionMap.mem_keys_of_mem (InsertionMap.get?_mem hd))) hclear

end

/-! ## Walks -/

/-- The least weight of the walks within so many hops. -/
def LightestWithin (graph : LocalGraph) (start : String) (edgeTypes : List EdgeType) (h : ℕ)
    (v : String) (d : ℕ) : Prop :=
  (∃ n ≤ h, Walk (Follows graph edgeTypes) start n d v) ∧
    ∀ n ≤ h, ∀ w, Walk (Follows graph edgeTypes) start n w v → d ≤ w

/-- The nodes within so many hops, each once and the nearer ones first. -/
structure WalkExact (graph : LocalGraph) (start : String) (edgeTypes : List EdgeType) (h : ℕ) :
    Prop where
  nodup : ((walkFrom graph start edgeTypes h).map Prod.fst).Nodup
  sorted : (walkFrom graph start edgeTypes h).Pairwise fun a b => a.2 ≤ b.2
  mem : ∀ v d, (v, d) ∈ walkFrom graph start edgeTypes h ↔
    v ≠ start ∧ LightestWithin graph start edgeTypes h v d

/-- Each node within so many hops has a lightest walk that leaves no node which another walk
with all the hops reaches as lightly. -/
def NothingHidden (graph : LocalGraph) (start : String) (edgeTypes : List EdgeType) (h : ℕ) :
    Prop :=
  ∀ v, ∀ n ≤ h, ∀ w, Walk (Follows graph edgeTypes) start n w v →
    ∃ n' w', w' ≤ w ∧ Clear (Follows graph edgeTypes) start h n' w' v

theorem mem_walkFrom {graph : LocalGraph} {start : String} {edgeTypes : List EdgeType} {h : ℚ}
    {v : String} {d : ℕ} :
    (v, d) ∈ walkFrom graph start edgeTypes h ↔ v ≠ start ∧
      (shortestDistances graph start edgeTypes (some h)).get? v = some d := by
  rw [walkFrom, mem_sortBy, List.mem_filter, and_comm]
  refine and_congr (by simp) ⟨InsertionMap.get?_of_mem, InsertionMap.get?_mem⟩

theorem walkFrom_nodup (graph : LocalGraph) (start : String) (edgeTypes : List EdgeType) (h : ℚ) :
    ((walkFrom graph start edgeTypes h).map Prod.fst).Nodup := by
  refine ((sortBy_perm _).map Prod.fst).nodup_iff.2 ?_
  exact (shortestDistances graph start edgeTypes (some h)).nodup.sublist
    (List.filter_sublist.map Prod.fst)

theorem walkFrom_sorted (graph : LocalGraph) (start : String) (edgeTypes : List EdgeType) (h : ℚ) :
    (walkFrom graph start edgeTypes h).Pairwise fun a b => a.2 ≤ b.2 := by
  have : Std.TransCmp fun a b : String × ℕ => compare a.2 b.2 := Lib.transCmp_on compare Prod.snd
  exact (sortBy_pairwise _).imp fun hle => Nat.isLE_compare.1 hle

/-- A walk over a graph is exact where nothing on the way is hidden. -/
theorem walkFrom_exact (graph : LocalGraph) (start : String) (edgeTypes : List EdgeType) (h : ℕ)
    (hclosed : graph.Closed) (hhidden : NothingHidden graph start edgeTypes h) :
    WalkExact graph start edgeTypes h := by
  refine ⟨walkFrom_nodup _ _ _ _, walkFrom_sorted _ _ _ _, fun v d => ?_⟩
  rw [mem_walkFrom]
  refine and_congr_right fun hne => ?_
  by_cases hstart : start ∈ graph.keys
  · obtain ⟨hsound, hcomplete⟩ := @shortestDistances_spec graph edgeTypes start h hclosed hstart
    constructor
    · intro hd
      refine ⟨hsound v d hd, fun n hn w hwalk => ?_⟩
      obtain ⟨n', w', hle, hclear⟩ := hhidden v n hn w hwalk
      obtain ⟨d', hd', hfound⟩ := hcomplete n' w' v hclear
      obtain rfl := Option.some.inj (hd.symm.trans hfound)
      exact hd'.trans hle
    · rintro ⟨⟨n, hn, hwalk⟩, hleast⟩
      obtain ⟨n', w', hle, hclear⟩ := hhidden v n hn d hwalk
      obtain ⟨d', hd', hfound⟩ := hcomplete n' w' v hclear
      obtain ⟨k, hk, hwalk'⟩ := hsound v d' hfound
      rw [hfound, le_antisymm (hd'.trans hle) (hleast k hk d' hwalk')]
  · -- from what is not a node of the graph there are no edges
    have hhas : graph.has start = false := by
      simpa [InsertionMap.has] using hstart
    have hnone : graph.get? start = none := by
      cases hget : graph.get? start with
      | none => rfl
      | some edges =>
          exact absurd (InsertionMap.mem_keys_of_mem (InsertionMap.get?_mem hget)) hstart
    have hwalks : ∀ n w v, Walk (Follows graph edgeTypes) start n w v → v = start := by
      intro n w v hwalk
      induction hwalk with
      | nil => rfl
      | step _ hedge ih =>
          subst ih
          obtain ⟨edge, hmem, -⟩ := hedge
          rw [hnone] at hmem
          cases hmem
    refine iff_of_false ?_ ?_
    · simp [shortestDistances, hhas, InsertionMap.get?]
    · rintro ⟨⟨n, -, hwalk⟩, -⟩
      exact hne (hwalks n d v hwalk)

namespace WalkSample

/-- A record and its predecessor. -/
def pair : LocalGraph := LocalGraph.addUndirected ∅ "s" "a" .chainPrecedes

/-- A chain of four records, the last annotated by an annotation of the first, and followed by
one more. -/
def detour : LocalGraph :=
  (((((LocalGraph.addUndirected ∅ "s" "a" .chainPrecedes).addUndirected "a" "b"
    .chainPrecedes).addUndirected "b" "u" .chainPrecedes).addUndirected "s" "c"
      .annotates).addUndirected "c" "u" .annotates).addUndirected "u" "v" .chainPrecedes

theorem follows_pair {u v : String} {c : ℕ} (h : Follows pair [] u v c) :
    (u = "s" ∧ v = "a" ∧ c = 1) ∨ (u = "a" ∧ v = "s" ∧ c = 1) := by
  obtain ⟨edge, hmem, -, rfl, rfl⟩ := h
  have hedges : ∀ e ∈ pair.entries, ∀ edge ∈ e.2, (e.1 = "s" ∧ edge.target = "a" ∧
      edge.weight = 1) ∨ (e.1 = "a" ∧ edge.target = "s" ∧ edge.weight = 1) := by
    decide +kernel
  cases hget : pair.get? u with
  | none =>
      rw [hget] at hmem
      cases hmem
  | some edges =>
      rw [hget] at hmem
      exact hedges (u, edges) (InsertionMap.get?_mem hget) edge hmem

end WalkSample

open WalkSample in
theorem walkFrom_exact_pair : WalkExact pair "s" [] 1 := by
  refine walkFrom_exact pair "s" [] 1 (fun u edge hmem => ?_) fun v n hn w hwalk => ?_
  · rcases follows_pair ⟨edge, hmem, .inl rfl, rfl, rfl⟩ with ⟨-, htarget, -⟩ | ⟨-, htarget, -⟩
    · rw [htarget]
      decide +kernel
    · rw [htarget]
      decide +kernel
  · cases hwalk with
    | nil => exact ⟨0, 0, le_rfl, .nil⟩
    | @step n w c u v hwalk hedge =>
        obtain rfl : n = 0 := by omega
        cases hwalk
        refine ⟨1, 0 + c, le_rfl, .step .nil (fun w' _ hback => ?_) hedge⟩
        cases hback with
        | step hnil hedge' =>
            cases hnil
            rcases follows_pair hedge' with ⟨-, h, -⟩ | ⟨h, -, -⟩
            · exact absurd h (by decide)
            · exact absurd h (by decide)

theorem exists_lightest {graph : LocalGraph} {start : String} {edgeTypes : List EdgeType} {h n w : ℕ}
    {v : String} (hn : n ≤ h) (hwalk : Walk (Follows graph edgeTypes) start n w v) :
    ∃ d, LightestWithin graph start edgeTypes h v d := by
  classical
  have hexists : ∃ d, ∃ n ≤ h, Walk (Follows graph edgeTypes) start n d v := ⟨w, n, hn, hwalk⟩
  exact ⟨Nat.find hexists, Nat.find_spec hexists,
    fun n hn w hwalk => Nat.find_min' hexists ⟨n, hn, hwalk⟩⟩

open WalkSample in
/-- The light walk to a record that uses up three hops hides the heavier one with two, and so the
record after it. -/
theorem detour_hidden : ¬WalkExact detour "s" [.chainPrecedes, .annotates] 3 := by
  intro hexact
  have hedge : ∀ u v c, (∃ edge ∈ (detour.get? u).getD [],
      edge.type ∈ [EdgeType.chainPrecedes, .annotates] ∧ edge.target = v ∧ edge.weight = c) →
        Follows detour [.chainPrecedes, .annotates] u v c := by
    rintro u v c ⟨edge, hmem, htype, hrest⟩
    exact ⟨edge, hmem, .inr htype, hrest⟩
  have hwalk : Walk (Follows detour [.chainPrecedes, .annotates]) "s" 3 (0 + 2 + 2 + 1) "v" :=
    ((Walk.nil.step (hedge "s" "c" 2 (by decide +kernel))).step
      (hedge "c" "u" 2 (by decide +kernel))).step (hedge "u" "v" 1 (by decide +kernel))
  obtain ⟨d, hd⟩ := exists_lightest le_rfl hwalk
  obtain ⟨-, hfound⟩ := mem_walkFrom.1 ((hexact.mem "v" d).2 ⟨by decide, hd⟩)
  have hnone : (shortestDistances detour "s" [.chainPrecedes, .annotates]
      (some ((3 : ℕ) : ℚ))).get? "v" = none := by decide +kernel
  exact nomatch hnone.symm.trans hfound

/-! ## The graph of the mirror -/

theorem keys_addUndirected {graph : LocalGraph} {a b : String} {type : EdgeType} {v : String} :
    v ∈ (graph.addUndirected a b type).keys ↔ v ∈ graph.keys ∨ v = a ∨ v = b := by
  rw [LocalGraph.addUndirected, LocalGraph.addEdge, LocalGraph.addEdge, InsertionMap.mem_keys_set,
    InsertionMap.mem_keys_set, or_assoc]

theorem mem_edges_addEdge {graph : LocalGraph} {origin u : String} {edge e : GraphEdge}
    (h : e ∈ ((graph.addEdge origin edge).get? u).getD []) :
    e ∈ (graph.get? u).getD [] ∨ e = edge := by
  rw [LocalGraph.addEdge, InsertionMap.get?_set] at h
  split at h
  · next heq =>
      rw [Option.getD_some, List.mem_append, List.mem_singleton] at h
      rw [heq]
      exact h
  · exact .inl h

theorem closed_addUndirected {graph : LocalGraph} (h : graph.Closed) (a b : String)
    (type : EdgeType) : (graph.addUndirected a b type).Closed := by
  intro u edge hmem
  rw [keys_addUndirected]
  rcases mem_edges_addEdge hmem with hmem | rfl
  · rcases mem_edges_addEdge hmem with hmem | rfl
    · exact .inl (h u edge hmem)
    · exact .inr (.inr rfl)
  · exact .inr (.inl rfl)

theorem closed_addNode {graph : LocalGraph} (h : graph.Closed) (lr : LoadedRecord) :
    (graph.addNode lr).Closed := by
  unfold LocalGraph.addNode
  split
  · exact h
  · intro u edge hmem
    rw [InsertionMap.get?_set] at hmem
    split at hmem
    · cases hmem
    · exact InsertionMap.mem_keys_set.2 (.inl (h u edge hmem))

theorem closed_foldl {α : Type} {f : LocalGraph → α → LocalGraph}
    (hf : ∀ graph a, graph.Closed → (f graph a).Closed) (l : List α) {graph : LocalGraph}
    (h : graph.Closed) : (l.foldl f graph).Closed := by
  induction l generalizing graph with
  | nil => exact h
  | cons a l ih => exact ih (hf graph a h)

theorem closed_addEdgesOf {H : Hash} {byHashHex : InsertionMap String String} {graph : LocalGraph}
    (h : graph.Closed) (lr : LoadedRecord) : (addEdgesOf H byHashHex graph lr).Closed := by
  have hinformed : ∀ (graph : LocalGraph) ref, graph.Closed →
      (addInformedBy byHashHex lr graph ref).Closed := by
    intro graph ref hgraph
    unfold addInformedBy
    split
    · split
      · exact closed_addUndirected hgraph _ _ _
      · exact hgraph
    · exact hgraph
  unfold addEdgesOf
  extract_lets graph₁ graph₂ graph₃
  have h₁ : graph₁.Closed := by
    unfold graph₁
    split
    · split
      · exact closed_addUndirected h _ _ _
      · exact h
    · exact h
  have h₂ : graph₂.Closed := closed_foldl hinformed _ h₁
  have h₃ : graph₃.Closed := by
    unfold graph₃
    split
    · split
      · exact closed_addUndirected h₂ _ _ _
      · exact h₂
    · exact h₂
  split
  · split
    · exact closed_addUndirected h₃ _ _ _
    · exact h₃
  · exact h₃

/-- The graph that is built of loaded records has no edges that lead out of it. -/
theorem closed_buildLocalGraph (H : Hash) (loaded : List LoadedRecord) :
    (buildLocalGraph H loaded).Closed := by
  have hempty : LocalGraph.Closed ∅ := nofun
  exact closed_foldl (fun _ lr h => closed_addEdgesOf h lr) loaded
    (closed_foldl (fun _ lr h => closed_addNode h lr) loaded hempty)

end Atrib.Recall.Mirror
