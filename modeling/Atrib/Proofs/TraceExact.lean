import Atrib.GraphNode.Trace
import Atrib.Lib.Layers

/-!
# What a trace collects

Marks are made of hashes that lead nowhere as well. Those that lead to a record
are the search: they are met level by level, each once, and the records behind
them are what is collected. As long as the cap has not been reached, a whole
level is gone through before the next, so the end tells what has been collected:
all that can be reached, or what is within the depth.
-/

namespace Atrib.GraphNode

open Lib.Search (Layers Reach Within)

variable (recordByHash : String → Option AtribRecord) (candidates : AtribRecord → List String)
  (maxNodes : ℕ)

/-- The references of a record that lead to one. -/
def traceNext (hash : String) : List String :=
  ((recordByHash hash).elim [] candidates).filter fun ref => (recordByHash ref).isSome

variable {recordByHash} {candidates} {maxNodes}

theorem traceNext_eq {hash : String} {record : AtribRecord} (h : recordByHash hash = some record) :
    traceNext recordByHash candidates hash =
      (candidates record).filter fun ref => (recordByHash ref).isSome := by
  rw [traceNext, h]
  rfl

/-- The hashes of the collected records, in their order. -/
structure Collects (recordByHash : String → Option AtribRecord) (walk : TraceWalk)
    (hashes : List String) : Prop where
  nodup : hashes.Nodup
  marked : ∀ h, h ∈ hashes ↔ h ∈ walk.visited ∧ (recordByHash h).isSome = true
  records : walk.collected.map some = hashes.map recordByHash

namespace Collects

variable {walk : TraceWalk} {hashes : List String}

theorem length_eq (h : Collects recordByHash walk hashes) :
    walk.collected.length = hashes.length := by
  simpa using congrArg List.length h.records

/-- One more hash is marked. -/
theorem visit (h : Collects recordByHash walk hashes) {hash : String} (hnew : hash ∉ walk.visited) :
    Collects recordByHash (walk.visit recordByHash hash)
        (hashes ++ [hash].filter fun ref => (recordByHash ref).isSome) ∧
      (walk.visit recordByHash hash).next =
        walk.next ++ [hash].filter fun ref => (recordByHash ref).isSome := by
  cases hfound : recordByHash hash with
  | none =>
      simp only [TraceWalk.visit, hfound, List.filter_singleton, Option.isSome_none, cond_false,
        List.append_nil, and_true]
      refine ⟨h.nodup, fun x => ?_, h.records⟩
      rw [h.marked, List.mem_append, List.mem_singleton]
      constructor
      · exact fun hx => ⟨.inl hx.1, hx.2⟩
      · rintro ⟨hx | rfl, hsome⟩
        · exact ⟨hx, hsome⟩
        · rw [hfound] at hsome
          cases hsome
  | some record =>
      simp only [TraceWalk.visit, hfound, List.filter_singleton, Option.isSome_some, cond_true,
        and_true]
      refine ⟨?_, fun x => ?_, ?_⟩
      · refine List.nodup_append.2 ⟨h.nodup, List.nodup_singleton hash, ?_⟩
        rintro x hx y hy rfl
        exact hnew (List.mem_singleton.1 hy ▸ ((h.marked x).1 hx).1)
      · rw [List.mem_append, List.mem_append, List.mem_singleton, h.marked]
        constructor
        · rintro (hx | rfl)
          · exact ⟨.inl hx.1, hx.2⟩
          · exact ⟨.inr rfl, by rw [hfound]; rfl⟩
        · rintro ⟨hx | rfl, hsome⟩
          · exact .inl ⟨hx, hsome⟩
          · exact .inr rfl
      · rw [List.map_append, List.map_append, h.records, List.map_singleton, List.map_singleton,
          hfound]

end Collects

/-! ## The references of one record -/

/-- The flag is up only at the cap. -/
def Capped (maxNodes : ℕ) (walk : TraceWalk) : Prop :=
  walk.truncatedByCount = true → maxNodes ≤ walk.collected.length

/-- What some references bring: hashes that were not there, each once, and if
the cap has not been reached all of them that lead to a record. -/
theorem visitAncestors_spec (refs : List String) {walk : TraceWalk} {hashes : List String}
    (h : Collects recordByHash walk hashes) :
    ∃ fresh, Collects recordByHash (visitAncestors recordByHash maxNodes refs walk)
        (hashes ++ fresh) ∧
      (visitAncestors recordByHash maxNodes refs walk).next = walk.next ++ fresh ∧
      (visitAncestors recordByHash maxNodes refs walk).truncatedByDepth = walk.truncatedByDepth ∧
      (Capped maxNodes walk → Capped maxNodes (visitAncestors recordByHash maxNodes refs walk)) ∧
      ((visitAncestors recordByHash maxNodes refs walk).truncatedByCount = false →
        walk.truncatedByCount = false ∧
        (fresh = [] ∨
          (visitAncestors recordByHash maxNodes refs walk).collected.length < maxNodes) ∧
        ∀ y, y ∈ fresh ↔
          y ∈ refs.filter (fun ref => (recordByHash ref).isSome) ∧ y ∉ hashes) := by
  induction refs generalizing walk hashes with
  | nil => exact ⟨[], by simpa [visitAncestors] using h, by simp [visitAncestors]⟩
  | cons ref refs ih =>
      rw [visitAncestors]
      split
      · next hmarked =>
          obtain ⟨fresh, hcollects, hnext, hdepth, hcapped, hexact⟩ := ih h
          refine ⟨fresh, hcollects, hnext, hdepth, hcapped, fun hcount => ?_⟩
          obtain ⟨hbefore, hlength, hmem⟩ := hexact hcount
          refine ⟨hbefore, hlength, fun y => ?_⟩
          rw [hmem, List.mem_filter, List.mem_filter, List.mem_cons]
          refine and_congr_left fun hy => and_congr_left fun hsome => ⟨.inr, ?_⟩
          rintro (rfl | hmem)
          · exact absurd ((h.marked y).2 ⟨hmarked, hsome⟩) hy
          · exact hmem
      · next hnew =>
          obtain ⟨hvisit, hnext⟩ := h.visit hnew
          have hcount : (walk.visit recordByHash ref).truncatedByCount = walk.truncatedByCount := by
            unfold TraceWalk.visit
            split <;> rfl
          have hdepth : (walk.visit recordByHash ref).truncatedByDepth = walk.truncatedByDepth := by
            unfold TraceWalk.visit
            split <;> rfl
          dsimp only
          split
          · next hcap =>
              refine ⟨_, ⟨hvisit.nodup, hvisit.marked, hvisit.records⟩, hnext, hdepth,
                fun _ _ => hcap, fun hfalse => ?_⟩
              cases hfalse
          · next hbelow =>
              obtain ⟨fresh, hcollects, hnext', hdepth', hcapped, hexact⟩ := ih hvisit
              refine ⟨([ref].filter fun ref => (recordByHash ref).isSome) ++ fresh, ?_, ?_,
                hdepth'.trans hdepth, fun hcap => hcapped fun htrue => ?_, fun hfalse => ?_⟩
              · rwa [← List.append_assoc]
              · rw [hnext', hnext, List.append_assoc]
              · have hlonger := congrArg List.length hvisit.records
                have hold := h.length_eq
                have hcap := hcap (hcount ▸ htrue)
                simp only [List.length_map, List.length_append] at hlonger
                omega
              · obtain ⟨hbefore, hlength, hmem⟩ := hexact hfalse
                refine ⟨hcount ▸ hbefore, .inr ?_, fun y => ?_⟩
                · rcases hlength with rfl | hlength
                  · rw [List.append_nil] at hcollects
                    rw [hcollects.length_eq, ← hvisit.length_eq]
                    omega
                  · exact hlength
                have hold : ref ∉ hashes := fun hmem => hnew ((h.marked ref).1 hmem).1
                rw [List.mem_append, hmem, List.mem_append, not_or]
                simp only [List.mem_filter, List.mem_cons, List.not_mem_nil, or_false]
                constructor
                · rintro (⟨rfl, hsome⟩ | ⟨⟨hy, hsome⟩, hyh, -⟩)
                  · exact ⟨⟨.inl rfl, hsome⟩, hold⟩
                  · exact ⟨⟨.inr hy, hsome⟩, hyh⟩
                · rintro ⟨⟨rfl | hy, hsome⟩, hyh⟩
                  · exact .inl ⟨rfl, hsome⟩
                  · by_cases heq : y = ref
                    · exact .inl ⟨heq, hsome⟩
                    · exact .inr ⟨⟨hy, hsome⟩, hyh, fun h => heq h.1⟩

/-! ## A level -/

theorem Collects.clear_next {walk : TraceWalk} {hashes : List String}
    (h : Collects recordByHash walk hashes) : Collects recordByHash { walk with next := [] } hashes :=
  ⟨h.nodup, h.marked, h.records⟩

/-- Going through a level below the cap is going through it as a search does. -/
theorem visitFrontier_spec (frontier : List String) {walk : TraceWalk} {hashes : List String}
    (h : Collects recordByHash walk hashes) :
    ∃ fresh,
      Collects recordByHash (visitFrontier recordByHash candidates maxNodes frontier walk)
        (hashes ++ fresh) ∧
      (visitFrontier recordByHash candidates maxNodes frontier walk).next = walk.next ++ fresh ∧
      (visitFrontier recordByHash candidates maxNodes frontier walk).truncatedByDepth =
        walk.truncatedByDepth ∧
      (Capped maxNodes walk →
        Capped maxNodes (visitFrontier recordByHash candidates maxNodes frontier walk)) ∧
      ((visitFrontier recordByHash candidates maxNodes frontier walk).truncatedByCount = false →
        walk.truncatedByCount = false ∧ (walk.collected.length < maxNodes →
        (visitFrontier recordByHash candidates maxNodes frontier walk).collected.length < maxNodes ∧
        ∀ s d, Layers (traceNext recordByHash candidates) s hashes d frontier walk.next →
          Layers (traceNext recordByHash candidates) s (hashes ++ fresh) d []
            (walk.next ++ fresh))) := by
  induction frontier generalizing walk hashes with
  | nil =>
      refine ⟨[], by simpa [visitFrontier] using h, by simp [visitFrontier], rfl, id, ?_⟩
      intro hcount
      refine ⟨hcount, fun hlength => ⟨hlength, fun s d hlayers => ?_⟩⟩
      rwa [List.append_nil, List.append_nil]
  | cons hash frontier ih =>
      cases hfound : recordByHash hash with
      | none =>
          have hstep : visitFrontier recordByHash candidates maxNodes (hash :: frontier) walk =
              visitFrontier recordByHash candidates maxNodes frontier walk := by
            rw [visitFrontier, hfound]
          rw [hstep]
          obtain ⟨fresh, hcollects, hnext, hdepth, hcapped, hexact⟩ := ih h
          refine ⟨fresh, hcollects, hnext, hdepth, hcapped, fun hcount => ?_⟩
          obtain ⟨hbefore, hbelow⟩ := hexact hcount
          refine ⟨hbefore, fun hlength => ⟨(hbelow hlength).1, fun s d hhere => ?_⟩⟩
          refine (hbelow hlength).2 s d ?_
          have hround := @Layers.round _ _ _ _ _ _ _ [] _ hhere fun y => by
            simp [traceNext, hfound]
          rwa [List.append_nil, List.append_nil] at hround
      | some record =>
          obtain ⟨fresh, hcollects, hnext, hdepth, hcapped, hexact⟩ :=
            @visitAncestors_spec recordByHash maxNodes (candidates record) _ _ h
          rw [visitFrontier, hfound]
          dsimp only
          split
          · next hcap =>
              refine ⟨fresh, hcollects, hnext, hdepth, hcapped, fun hcount =>
                ⟨(hexact hcount).1, fun hlength => ?_⟩⟩
              rcases (hexact hcount).2.1 with rfl | hbelow
              · rw [List.append_nil] at hcollects
                rw [hcollects.length_eq, ← h.length_eq] at hcap
                omega
              · omega
          · next hcap =>
              obtain ⟨more, hcollects', hnext', hdepth', hcapped', hexact'⟩ := ih hcollects
              refine ⟨fresh ++ more, ?_, ?_, hdepth'.trans hdepth, hcapped' ∘ hcapped,
                fun hcount => ?_⟩
              · rwa [← List.append_assoc]
              · rw [hnext', hnext, List.append_assoc]
              · obtain ⟨hafter, hbelow⟩ := hexact' hcount
                obtain ⟨hlength', hlayers⟩ := hbelow (by omega)
                refine ⟨(hexact hafter).1, fun _ => ⟨hlength', fun s d hhere => ?_⟩⟩
                have hround := hhere.round fun y => (by
                  rw [(hexact hafter).2.2 y, traceNext_eq hfound])
                rw [← List.append_assoc, ← List.append_assoc]
                have hrest := hlayers s d (by rwa [hnext])
                rwa [hnext] at hrest

/-! ## The hops -/

/-- What a walk of `depth` hops has collected, if the cap has not ended it. -/
def ExactWalk (recordByHash : String → Option AtribRecord)
    (candidates : AtribRecord → List String) (start : String) (depth : ℕ) (walk : TraceWalk)
    (hashes : List String) : Prop :=
  walk.truncatedByCount = false →
    (walk.truncatedByDepth = false →
      ∀ h, h ∈ hashes ↔ Reach (traceNext recordByHash candidates) start h) ∧
    (walk.truncatedByDepth = true →
      ∀ h, h ∈ hashes ↔ Within (traceNext recordByHash candidates) start depth h)

theorem visitHops_spec (hops : ℕ) {walk : TraceWalk} {hashes frontier : List String}
    {start : String} {d : ℕ} (h : Collects recordByHash walk hashes)
    (hlayers : Layers (traceNext recordByHash candidates) start hashes d frontier [])
    (hdepth : walk.truncatedByDepth = false) (hcapped : Capped maxNodes walk)
    (hlength : walk.collected.length < maxNodes) :
    ∃ found, Collects recordByHash
        (visitHops recordByHash candidates maxNodes (hops + 1) frontier walk) found ∧
      ExactWalk recordByHash candidates start (d + (hops + 1))
        (visitHops recordByHash candidates maxNodes (hops + 1) frontier walk) found := by
  obtain ⟨fresh, hcollects, hnext, hdepth', hcapped', hexact⟩ :=
    @visitFrontier_spec recordByHash candidates maxNodes frontier _ _ h.clear_next
  rw [visitHops]
  split
  · next hend =>
      refine ⟨_, hcollects, fun hcount => ⟨fun _ => ?_, fun htrue => ?_⟩⟩
      · obtain ⟨hbelow, hall⟩ := (hexact hcount).2 hlength
        have hnil := hend.resolve_left (by omega)
        obtain rfl : fresh = [] := (List.append_eq_nil_iff.1 (hnext ▸ hnil)).2
        exact fun h => (hall start d hlayers).mem_iff_reach
      · rw [hdepth', hdepth] at htrue
        cases htrue
  · next hgoes =>
      rw [not_or, not_le] at hgoes
      have hcount : (visitFrontier recordByHash candidates maxNodes frontier
          { walk with next := [] }).truncatedByCount = false := by
        by_contra htrue
        exact absurd (hcapped' hcapped (Bool.not_eq_false _ ▸ htrue)) (by omega)
      obtain ⟨-, hall⟩ := (hexact hcount).2 hlength
      have hlevel := (hall start d hlayers).descend
      rw [← hnext] at hlevel
      cases hops with
      | zero =>
          refine ⟨_, ⟨hcollects.nodup, hcollects.marked, hcollects.records⟩, fun _ =>
            ⟨fun hfalse => ?_, fun _ h => hlevel.mem_iff_within⟩⟩
          cases hfalse
      | succ hops =>
          rw [if_neg (Nat.succ_ne_zero hops)]
          have hrest := visitHops_spec hops hcollects hlevel (hdepth'.trans hdepth)
            (hcapped' hcapped) hgoes.1
          rwa [Nat.add_assoc, Nat.add_comm 1] at hrest
termination_by hops

/-- A trace collects each record once. Where no flag is up it has collected all
that can be reached, and where only the depth has ended it, what is within the depth. -/
theorem traceFrom_spec {depth : ℕ} (hdepth : 1 ≤ depth) {start : String} {record : AtribRecord}
    (hstart : recordByHash start = some record) :
    ∃ hashes, Collects recordByHash
        (traceFrom recordByHash candidates maxNodes depth start record) hashes ∧
      ExactWalk recordByHash candidates start depth
        (traceFrom recordByHash candidates maxNodes depth start record) hashes := by
  obtain ⟨hops, rfl⟩ := Nat.exists_eq_add_of_le' hdepth
  have hinit : Collects recordByHash ⟨[start], [record], [], false, false⟩ [start] := by
    refine ⟨List.nodup_singleton start, fun h => ?_, by simp [hstart]⟩
    simp only [List.mem_singleton, iff_self_and]
    rintro rfl
    rw [hstart]
    rfl
  rcases Nat.lt_or_ge 1 maxNodes with hcap | hcap
  · have hspec := @visitHops_spec recordByHash candidates maxNodes hops _ _ _ _ _ hinit
      .init rfl (fun htrue => by cases htrue) hcap
    rwa [Nat.zero_add] at hspec
  · -- with room for one record the walk ends after the references of the first
    obtain ⟨fresh, hcollects, hnext, hdepth', hcapped, hexact⟩ :=
      @visitAncestors_spec recordByHash maxNodes (candidates record) _ _ hinit
    have hone : visitFrontier recordByHash candidates maxNodes [start]
        ⟨[start], [record], [], false, false⟩ =
          visitAncestors recordByHash maxNodes (candidates record)
            ⟨[start], [record], [], false, false⟩ := by
      simp only [visitFrontier, hstart, ite_self]
    have hlength := hcollects.length_eq
    rw [List.length_append, List.length_singleton] at hlength
    rw [traceFrom, visitHops, hone, if_pos (.inl (by omega))]
    refine ⟨_, hcollects, fun hcount => ⟨fun _ h => ?_, fun htrue => ?_⟩⟩
    · obtain ⟨-, hnil | hbelow, hmem⟩ := hexact hcount
      · subst hnil
        have hround := (@Layers.init _ (traceNext recordByHash candidates) start).round
          fun y => by rw [hmem y, traceNext_eq hstart]
        exact hround.mem_iff_reach
      · omega
    · rw [hdepth'] at htrue
      cases htrue

/-! ## The handler -/

theorem TraceParams.one_le_depth (params : TraceParams) : 1 ≤ params.depth := by
  unfold TraceParams.depth
  omega

/-- For every store, record, parameters and cap. -/
theorem trace_exact (maxNodes : ℕ) (store : RecordStore) (hash : String) (params : TraceParams)
    (walk : TraceWalk) (hwalk : trace maxNodes store hash params = some walk) :
    ∃ hashes, Collects store.recordAt walk hashes ∧
      ExactWalk store.recordAt params.candidates hash params.depth walk hashes := by
  obtain ⟨record, hrecord, rfl⟩ := Option.map_eq_some_iff.1 hwalk
  exact traceFrom_spec params.one_le_depth hrecord

def citing (refs : List String) : AtribRecord where
  creatorKey := ""
  chainRoot := ""
  eventType := ""
  contextId := ""
  timestamp := 0
  informedBy := some refs

/-- Two records that cite each other, one of them twice, and one that is missing. -/
def cyclicStore : RecordStore where
  recordByHash := ((∅ : Lib.InsertionMap String StoredRecord).set "a"
    ⟨citing ["sha256:b", "sha256:c", "sha256:b"], "a", ""⟩).set "b" ⟨citing ["sha256:a"], "b", ""⟩

theorem trace_exact_cycle : ∃ walk hashes,
    trace TRACE_MAX_NODES cyclicStore "a" {} = some walk ∧
      walk.truncatedByCount = false ∧ walk.truncatedByDepth = false ∧
      Collects cyclicStore.recordAt walk hashes ∧
      ExactWalk cyclicStore.recordAt ({} : TraceParams).candidates "a" 5 walk hashes := by
  have hwalk : trace TRACE_MAX_NODES cyclicStore "a" {} =
      some ⟨["a", "b", "c"], [citing ["sha256:b", "sha256:c", "sha256:b"], citing ["sha256:a"]],
        [], false, false⟩ := by decide +kernel
  obtain ⟨hashes, hcollects, hexact⟩ := trace_exact TRACE_MAX_NODES cyclicStore "a" {} _ hwalk
  exact ⟨_, hashes, hwalk, rfl, rfl, hcollects, hexact⟩

end Atrib.GraphNode
