import Atrib.Proofs.GraphReads

/-!
# The caches and the store

A cached graph or registry is taken for good while the number of records is
the one it was stored under. That number is read when the build is over, and a
log index that comes with a second ingest leaves it as it is. As long as
neither shows, every response is the one a server without caches would give.
-/

namespace Atrib.GraphNode

open Lib (InsertionMap run run_nil run_cons run_snoc run_append Always run_invariant)
open Verify

variable (H : Hash) (codec : RecordCodec)

/-! ## Responses without caches -/

/-- The nodes of the records that have been verified, each with the store the
build came back to. -/
def nodesSeen (request : GraphRequest) (registry : RevocationRegistry) (infos : List RecordInfo)
    (lookups : List RecordStore) : List GraphNode :=
  List.zipWith (fun info store => recordNode H codec (graphOptions request registry store) info)
    infos lookups

/-- The response to a request that arrives at the store `start` and comes back
to the stores `lookups`, when nothing is taken from a cache. -/
def cacheFreeGraph (request : GraphRequest) (start : RecordStore) (lookups : List RecordStore) :
    GraphBody :=
  let infos := recordInfos H codec (start.getRecordsByContextId request.contextId)
  complete H request (buildRegistry start) (lookups.getLastD start) infos
    (nodesSeen H codec request (buildRegistry start) infos lookups)
    (start.getGapNodesByContextId request.contextId)

/-- The response built from one store. -/
def freshGraph (request : GraphRequest) (store : RecordStore) : GraphBody :=
  graphBody request <| buildGraph H codec (store.getRecordsByContextId request.contextId)
    (store.getGapNodesByContextId request.contextId)
    (graphOptions request (buildRegistry store) store)

/-- A response is what a server without caches would send on the same stores;
if the store did not change under the build, that is the graph of that store. -/
def AnswerCoherent (a : GraphAnswer) : Prop :=
  a.body = cacheFreeGraph H codec a.request a.start a.lookups ∧
    ((∀ store ∈ a.lookups, store = a.start) → a.body = freshGraph H codec a.request a.start)

def AllCoherent (s : GraphServer) : Prop := ∀ a ∈ s.answers, AnswerCoherent H codec a

/-- What spoils no cache. An ingest that leaves the number of records as it is
changes nothing that the registry or a graph cached under this number was
built from; and when a built graph is put into the cache, the store holds what
the build has read of it. -/
def Careful (s : GraphServer) : GraphMove → Prop
  | .ingest record logIndex =>
      let store' := (s.store.addRecord H codec record logIndex).1
      store'.getRecordCount = s.store.getRecordCount →
        (∀ e ∈ s.graphResponseCache.entries, e.2.recordCount = s.store.getRecordCount →
          SameView H codec e.1 s.store store') ∧
        (∀ c ∈ s.revocationRegistryCache, c.recordCount = s.store.getRecordCount →
          ∀ k, (buildRegistry s.store).get? k = (buildRegistry store').get? k)
  | .get _ => True
  | .resume index =>
      ∀ b ∈ s.building[index]?, ∀ body, b.phase = .built body →
        ∀ store ∈ b.start :: b.lookups, SameView H codec b.request store s.store

section Views

variable {H codec} {request : GraphRequest} {start store : RecordStore} {lookups : List RecordStore}

/-- A build that read of each store what `store` holds has built the graph of `store`. -/
theorem cacheFreeGraph_eq_freshGraph
    (hlength : lookups.length =
      (recordInfos H codec (start.getRecordsByContextId request.contextId)).length)
    (hview : ∀ σ ∈ start :: lookups, SameView H codec request σ store) :
    cacheFreeGraph H codec request start lookups = freshGraph H codec request store := by
  have hstart := hview start List.mem_cons_self
  have hinfos : ∀ info ∈ recordInfos H codec (start.getRecordsByContextId request.contextId),
      ∀ σ ∈ start :: lookups, SameFor H codec info.record σ store := by
    intro info hinfo σ hσ
    obtain ⟨hrecord, _⟩ := exists_record_of_mem hinfo
    refine (hview σ hσ).each info.record ?_
    rw [(hview σ hσ).records, ← hstart.records]
    exact hrecord
  have hnodes : nodesSeen H codec request (buildRegistry start)
      (recordInfos H codec (start.getRecordsByContextId request.contextId)) lookups =
        (recordInfos H codec (start.getRecordsByContextId request.contextId)).map
          (recordNode H codec (graphOptions request (buildRegistry store) store)) := by
    refine List.ext_getElem ?_ fun i h₁ h₂ => ?_
    · rw [nodesSeen, List.length_zipWith, List.length_map, hlength, min_self]
    · simp only [nodesSeen, List.getElem_zipWith, List.getElem_map]
      rw [List.length_map] at h₂
      have hinfo := List.getElem_mem h₂
      obtain ⟨_, heq⟩ := exists_record_of_mem hinfo
      refine recordNode_congr ?_ ?_
      · rw [heq]
        exact (hinfos _ hinfo _ (List.mem_cons_of_mem _ (List.getElem_mem _))).logIndex
      · exact (hinfos _ hinfo start List.mem_cons_self).revocation
  have hlast : lookups.getLastD start ∈ start :: lookups := by
    rw [List.getLastD_eq_getLast?]
    cases hl : lookups.getLast? with
    | none => exact List.mem_cons_self
    | some σ => exact List.mem_cons_of_mem _ (List.mem_of_getLast? hl)
  unfold cacheFreeGraph freshGraph buildGraph
  simp only [hnodes, hstart.gapNodes, ← hstart.records]
  exact complete_congr (fun info hinfo => hinfos info hinfo _ hlast) _ _ _ _

theorem freshGraph_congr (h : SameView H codec request start store) :
    freshGraph H codec request start = freshGraph H codec request store := by
  let lookups := List.replicate
    (recordInfos H codec (start.getRecordsByContextId request.contextId)).length start
  have hsame : ∀ σ ∈ start :: lookups, σ = start := by
    intro σ hσ
    rcases List.mem_cons.1 hσ with rfl | hσ
    · rfl
    · exact List.eq_of_mem_replicate hσ
  have hstart : cacheFreeGraph H codec request start lookups = freshGraph H codec request start := by
    refine cacheFreeGraph_eq_freshGraph (List.length_replicate ..) fun σ hσ => ?_
    rw [hsame σ hσ]
    exact .refl H codec request start
  have hstore : cacheFreeGraph H codec request start lookups = freshGraph H codec request store := by
    refine cacheFreeGraph_eq_freshGraph (List.length_replicate ..) fun σ hσ => ?_
    rw [hsame σ hσ]
    exact h
  exact hstart.symm.trans hstore

/-- An answer built on stores is coherent if all its records were looked up. -/
theorem answerCoherent_of_eq {body : GraphBody}
    (hbody : body = cacheFreeGraph H codec request start lookups)
    (hlength : lookups.length =
      (recordInfos H codec (start.getRecordsByContextId request.contextId)).length) :
    AnswerCoherent H codec ⟨request, body, start, lookups⟩ := by
  refine ⟨hbody, fun hquiet => hbody.trans (cacheFreeGraph_eq_freshGraph hlength ?_)⟩
  intro σ hσ
  rcases List.mem_cons.1 hσ with rfl | hσ
  · exact .refl H codec request σ
  · rw [hquiet σ hσ]
    exact .refl H codec request start

end Views

/-! ## The invariant -/

/-- What is in the registry cache under the present number of records is as good as new. -/
def RegistryFresh (s : GraphServer) : Prop :=
  ∀ c ∈ s.revocationRegistryCache, c.recordCount ≤ s.store.getRecordCount ∧
    (c.recordCount = s.store.getRecordCount →
      ∀ k, c.registry.get? k = (buildRegistry s.store).get? k)

/-- So is every graph that is cached under it. -/
def GraphsFresh (s : GraphServer) : Prop :=
  ∀ e ∈ s.graphResponseCache.entries, e.2.recordCount ≤ s.store.getRecordCount ∧
    (e.2.recordCount = s.store.getRecordCount → e.2.graph = freshGraph H codec e.1 s.store)

/-- A request in flight has done what a build without caches would have done. -/
structure InFlight (b : Building) : Prop where
  infos : b.infos = recordInfos H codec (b.start.getRecordsByContextId b.request.contextId)
  gapNodes : b.gapNodes = b.start.getGapNodesByContextId b.request.contextId
  registry : ∀ k, b.registry.get? k = (buildRegistry b.start).get? k
  phase :
    match b.phase with
    | .verifying remaining nodes => ∃ done, b.infos = done ++ remaining ∧
        b.lookups.length = done.length ∧
        nodes = nodesSeen H codec b.request (buildRegistry b.start) done b.lookups
    | .built body => b.lookups.length = b.infos.length ∧
        body = cacheFreeGraph H codec b.request b.start b.lookups

structure CachesFresh (s : GraphServer) : Prop where
  registry : RegistryFresh s
  graphs : GraphsFresh H codec s
  building : ∀ b ∈ s.building, InFlight H codec b
  answers : AllCoherent H codec s

section Steps

variable {H codec} {s : GraphServer}

/-- An ingest adds a record, or leaves all records as they are. -/
theorem addRecord_count (store : RecordStore) (record : AtribRecord) (logIndex : Option ℕ) :
    store.getRecordCount ≤ (store.addRecord H codec record logIndex).1.getRecordCount := by
  unfold RecordStore.addRecord RecordStore.getRecordCount RecordStore.withLogIndex
    RecordStore.insert
  simp only
  split
  · split
    · exact le_rfl
    · cases logIndex <;> exact le_rfl
  · cases logIndex <;> simp

theorem CachesFresh.ingest (h : CachesFresh H codec s) {record : AtribRecord} {logIndex : Option ℕ}
    (hcareful : Careful H codec s (.ingest record logIndex)) :
    CachesFresh H codec (s.step H codec (.ingest record logIndex)) := by
  have hcount : s.store.getRecordCount ≤
      (s.store.addRecord H codec record logIndex).1.getRecordCount :=
    addRecord_count s.store record logIndex
  refine ⟨?_, ?_, h.building, h.answers⟩
  · intro c hc
    obtain ⟨hle, hfresh⟩ := h.registry c hc
    refine ⟨hle.trans hcount, fun hnow k => ?_⟩
    have hsame : (s.store.addRecord H codec record logIndex).1.getRecordCount =
        s.store.getRecordCount := le_antisymm (hnow ▸ hle) hcount
    have hc' : c.recordCount = s.store.getRecordCount := hnow.trans hsame
    rw [hfresh hc' k]
    exact (hcareful hsame).2 c hc hc' k
  · intro e he
    obtain ⟨hle, hfresh⟩ := h.graphs e he
    refine ⟨hle.trans hcount, fun hnow => ?_⟩
    have hsame : (s.store.addRecord H codec record logIndex).1.getRecordCount =
        s.store.getRecordCount := le_antisymm (hnow ▸ hle) hcount
    have he' : e.2.recordCount = s.store.getRecordCount := hnow.trans hsame
    rw [hfresh he']
    exact freshGraph_congr ((hcareful hsame).1 e he he')

/-- The registry a build gets is as good as new, and the cache stays so. -/
theorem buildRegistryCached_fresh (h : RegistryFresh s) :
    (∀ k, s.buildRegistryCached.1.get? k = (buildRegistry s.store).get? k) ∧
      RegistryFresh s.buildRegistryCached.2 := by
  unfold GraphServer.buildRegistryCached
  cases hc : s.revocationRegistryCache.filter (·.recordCount = s.store.getRecordCount) with
  | some cached =>
      obtain ⟨hmem, hcount⟩ := Option.filter_eq_some_iff.1 hc
      exact ⟨(h cached hmem).2 (of_decide_eq_true hcount), h⟩
  | none =>
      refine ⟨fun _ => rfl, ?_⟩
      rintro c ⟨⟩
      exact ⟨le_rfl, fun _ _ => rfl⟩

theorem buildRegistryCached_store (s : GraphServer) :
    s.buildRegistryCached.2.store = s.store ∧
      s.buildRegistryCached.2.graphResponseCache = s.graphResponseCache ∧
      s.buildRegistryCached.2.building = s.building ∧
      s.buildRegistryCached.2.answers = s.answers := by
  unfold GraphServer.buildRegistryCached
  split <;> exact ⟨rfl, rfl, rfl, rfl⟩

theorem CachesFresh.answer (h : CachesFresh H codec s) {a : GraphAnswer}
    (ha : AnswerCoherent H codec a) : CachesFresh H codec (s.answer a) := by
  refine ⟨h.registry, h.graphs, h.building, ?_⟩
  intro a' ha'
  rcases List.mem_append.1 ha' with ha' | ha'
  · exact h.answers a' ha'
  · rw [List.mem_singleton.1 ha']
    exact ha

/-- A response from the cache is the graph of the store as it is. -/
theorem getCachedGraph_fresh (h : GraphsFresh H codec s) {request : GraphRequest}
    {body : GraphBody} (hbody : s.getCachedGraph request = some body) :
    body = freshGraph H codec request s.store := by
  obtain ⟨cached, hcached, rfl⟩ := Option.map_eq_some_iff.1 hbody
  obtain ⟨hget, hcount⟩ := Option.filter_eq_some_iff.1 hcached
  exact (h _ (InsertionMap.get?_mem hget)).2 (of_decide_eq_true hcount)

/-- A build of which nothing is awaited any more. -/
theorem complete_eq_cacheFreeGraph {b : Building} {store : RecordStore}
    (hinfos : b.infos = recordInfos H codec (b.start.getRecordsByContextId b.request.contextId))
    (hgapNodes : b.gapNodes = b.start.getGapNodesByContextId b.request.contextId)
    {lookups : List RecordStore} (hstore : lookups.getLastD b.start = store) :
    complete H b.request b.registry store b.infos
        (nodesSeen H codec b.request (buildRegistry b.start) b.infos lookups) b.gapNodes =
      cacheFreeGraph H codec b.request b.start lookups := by
  have hsame : ∀ info ∈ b.infos, SameFor H codec info.record store store :=
    fun info _ => .refl H codec info.record store
  rw [cacheFreeGraph, hstore, ← hinfos, ← hgapNodes]
  exact complete_congr hsame _ _ _ _

theorem CachesFresh.get (h : CachesFresh H codec s) (request : GraphRequest) :
    CachesFresh H codec (s.step H codec (.get request)) := by
  change CachesFresh H codec (s.handleGraph H codec request)
  unfold GraphServer.handleGraph
  split
  · cases hcached : s.getCachedGraph request with
    | some body =>
        refine h.answer (answerCoherent_of_eq ?_ (List.length_replicate ..))
        rw [getCachedGraph_fresh h.graphs hcached]
        refine (cacheFreeGraph_eq_freshGraph (List.length_replicate ..) fun σ hσ => ?_).symm
        rcases List.mem_cons.1 hσ with hσ | hσ
        · rw [hσ]
          exact .refl H codec request s.store
        · rw [List.eq_of_mem_replicate hσ]
          exact .refl H codec request s.store
    | none =>
        obtain ⟨hregistry, hfresh⟩ := buildRegistryCached_fresh h.registry
        obtain ⟨hstore, hgraphs, hbuilding, hanswers⟩ := buildRegistryCached_store s
        refine ⟨hfresh, ?_, ?_, fun a ha => h.answers a (hanswers ▸ ha)⟩
        · unfold GraphsFresh
          simp only [hstore, hgraphs]
          exact h.graphs
        · intro b hb
          rcases List.mem_append.1 hb with hb | hb
          · exact h.building b (hbuilding ▸ hb)
          · rw [List.mem_singleton.1 hb]
            refine ⟨by rw [hstore], by rw [hstore], by rw [hstore]; exact hregistry, ?_⟩
            simp only [hstore]
            split
            next hphase =>
              split at hphase
              · cases hphase
              · cases hphase
                exact ⟨[], rfl, rfl, rfl⟩
            next hphase =>
              split at hphase
              next hempty =>
                cases hphase
                refine ⟨by rw [hempty]; rfl, ?_⟩
                unfold cacheFreeGraph
                rw [hempty]
                exact complete_congr (fun info _ => .refl H codec info.record s.store) _ _ _ _
              · cases hphase
  · exact h

/-- The first of the records that remain has been verified. -/
theorem InFlight.verified {b : Building} (h : InFlight H codec b) {info : RecordInfo}
    {remaining : List RecordInfo} {nodes : List GraphNode}
    (hphase : b.phase = .verifying (info :: remaining) nodes) (store : RecordStore) :
    InFlight H codec (GraphServer.Building.verified H codec b store info remaining nodes) := by
  have hbuild := h.phase
  rw [hphase] at hbuild
  obtain ⟨done, hinfos, hlength, hnodes⟩ := hbuild
  have hnode : recordNode H codec (graphOptions b.request b.registry store) info =
      recordNode H codec (graphOptions b.request (buildRegistry b.start) store) info :=
    recordNode_congr rfl (h.registry info.record.creatorKey)
  have hseen : nodes ++ [recordNode H codec (graphOptions b.request b.registry store) info] =
      nodesSeen H codec b.request (buildRegistry b.start) (done ++ [info])
        (b.lookups ++ [store]) := by
    rw [hnode, hnodes, nodesSeen, nodesSeen, List.zipWith_append hlength.symm]
    rfl
  refine ⟨h.infos, h.gapNodes, h.registry, ?_⟩
  unfold GraphServer.Building.verified
  simp only
  by_cases hempty : remaining = []
  · rw [if_pos hempty, hseen]
    have hall : done ++ [info] = b.infos := by rw [hinfos, hempty]
    refine ⟨?_, ?_⟩
    · rw [← hall, List.length_append, List.length_append, hlength]
      rfl
    · rw [hall]
      refine complete_eq_cacheFreeGraph h.infos h.gapNodes ?_
      simp
  · rw [if_neg hempty]
    refine ⟨done ++ [info], ?_, ?_, hseen⟩
    · rw [hinfos, List.append_assoc]
      rfl
    · rw [List.length_append, List.length_append, hlength]
      rfl

theorem mem_makeRoom {cache : InsertionMap GraphRequest CachedGraph} {request : GraphRequest}
    {e : GraphRequest × CachedGraph} (he : e ∈ (GraphServer.makeRoom cache request).entries) :
    e ∈ cache.entries := by
  unfold GraphServer.makeRoom at he
  split at he
  · exact List.mem_of_mem_tail he
  · exact he

/-- A graph goes into the cache that was built from what the store holds. -/
theorem GraphsFresh.setCachedGraph (h : GraphsFresh H codec s) {request : GraphRequest}
    {body : GraphBody} (hbody : body = freshGraph H codec request s.store) :
    GraphsFresh H codec (s.setCachedGraph request body) := by
  intro e he
  rcases InsertionMap.mem_entries_set he with rfl | he
  · exact ⟨le_rfl, fun _ => hbody⟩
  · exact h e (mem_makeRoom he)

theorem CachesFresh.resume (h : CachesFresh H codec s) {index : ℕ}
    (hcareful : Careful H codec s (.resume index)) :
    CachesFresh H codec (s.step H codec (.resume index)) := by
  change CachesFresh H codec (s.resume H codec index)
  unfold GraphServer.resume
  cases hb : s.building[index]? with
  | none => exact h
  | some b =>
      have hmem : b ∈ s.building := List.mem_of_getElem? hb
      have hflight := h.building b hmem
      simp only
      cases hphase : b.phase with
      | verifying remaining nodes =>
          cases remaining with
          | nil => exact h
          | cons info remaining =>
              refine ⟨h.registry, h.graphs, fun b' hb' => ?_, h.answers⟩
              rcases List.mem_or_eq_of_mem_set hb' with hb' | rfl
              · exact h.building b' hb'
              · exact hflight.verified hphase s.store
      | built body =>
          obtain ⟨hlength, hbody⟩ : b.lookups.length = b.infos.length ∧
              body = cacheFreeGraph H codec b.request b.start b.lookups := by
            have hbuild := hflight.phase
            rwa [hphase] at hbuild
          rw [hflight.infos] at hlength
          have hview := hcareful b (by rw [hb]; exact Option.mem_some_self b) body hphase
          have hfresh := hbody.trans (cacheFreeGraph_eq_freshGraph hlength hview)
          have hcaches : CachesFresh H codec
              { s.setCachedGraph b.request body with building := s.building.eraseIdx index } :=
            ⟨h.registry, h.graphs.setCachedGraph hfresh,
              fun b' hb' => h.building b' (List.mem_of_mem_eraseIdx hb'), h.answers⟩
          exact hcaches.answer (answerCoherent_of_eq hbody hlength)

theorem CachesFresh.step (h : CachesFresh H codec s) (move : GraphMove)
    (hcareful : Careful H codec s move) : CachesFresh H codec (s.step H codec move) := by
  cases move with
  | ingest record logIndex => exact h.ingest hcareful
  | get request => exact h.get request
  | resume index => exact h.resume hcareful

/-- A server that has just started, on whatever its archive held. -/
theorem cachesFresh_start (store : RecordStore) :
    CachesFresh H codec { store := store } where
  registry := by rintro c ⟨⟩
  graphs := by rintro e ⟨⟩
  building := by rintro b ⟨⟩
  answers := by rintro a ⟨⟩

end Steps

/-! ## Reads only -/

/-- No build has seen another store than the present one. -/
def Undisturbed (s : GraphServer) : Prop :=
  ∀ b ∈ s.building, ∀ store ∈ b.start :: b.lookups, store = s.store

def GraphMove.IsRead : GraphMove → Prop
  | .ingest _ _ => False
  | .get _ => True
  | .resume _ => True

section Reads

variable {H codec} {s : GraphServer}

theorem step_read_store {move : GraphMove} (hread : move.IsRead) :
    (s.step H codec move).store = s.store := by
  cases move with
  | ingest record logIndex => exact hread.elim
  | get request =>
      change (s.handleGraph H codec request).store = s.store
      unfold GraphServer.handleGraph
      split
      · simp only
        split
        · rfl
        · exact (buildRegistryCached_store s).1
      · rfl
  | resume index =>
      change (s.resume H codec index).store = s.store
      unfold GraphServer.resume
      split
      · rfl
      · split <;> rfl

theorem Undisturbed.step (h : Undisturbed s) {move : GraphMove} (hread : move.IsRead) :
    Undisturbed (s.step H codec move) := by
  have hstore : (s.step H codec move).store = s.store := step_read_store hread
  intro b hb store hmem
  rw [hstore]
  cases move with
  | ingest record logIndex => exact hread.elim
  | get request =>
      change b ∈ (s.handleGraph H codec request).building at hb
      unfold GraphServer.handleGraph at hb
      split at hb
      · simp only at hb
        split at hb
        · exact h b hb store hmem
        · obtain ⟨hsame, _, hbuilding, _⟩ := buildRegistryCached_store s
          rcases List.mem_append.1 hb with hb | hb
          · exact h b (hbuilding ▸ hb) store hmem
          · rw [List.mem_singleton.1 hb] at hmem
            exact (List.mem_singleton.1 hmem).trans hsame
      · exact h b hb store hmem
  | resume index =>
      change b ∈ (s.resume H codec index).building at hb
      unfold GraphServer.resume at hb
      split at hb
      · exact h b hb store hmem
      · next b₀ hb₀ =>
        split at hb
        · exact h b hb store hmem
        · rcases List.mem_or_eq_of_mem_set hb with hb | rfl
          · exact h b hb store hmem
          · rcases List.mem_cons.1 hmem with hmem | hmem
            · exact h b₀ (List.mem_of_getElem? hb₀) store (hmem ▸ List.mem_cons_self)
            · rcases List.mem_append.1 hmem with hmem | hmem
              · exact h b₀ (List.mem_of_getElem? hb₀) store (List.mem_cons_of_mem _ hmem)
              · exact List.mem_singleton.1 hmem
        · exact h b (List.mem_of_mem_eraseIdx hb) store hmem

theorem Undisturbed.careful (h : Undisturbed s) {move : GraphMove} (hread : move.IsRead) :
    Careful H codec s move := by
  cases move with
  | ingest record logIndex => exact hread.elim
  | get request => trivial
  | resume index =>
      intro b hb body _ store hstore
      have hmem : b ∈ s.building := List.mem_of_getElem? (Option.mem_def.1 hb)
      rw [h b hmem store hstore]
      exact .refl H codec b.request s.store

theorem Undisturbed.always_careful {moves : List GraphMove} :
    ∀ {s : GraphServer}, Undisturbed s → (∀ move ∈ moves, move.IsRead) →
      Always (GraphServer.step H codec) (Careful H codec) s moves := by
  induction moves with
  | nil => intro s _ _; trivial
  | cons move moves ih =>
      intro s h hreads
      have hread := hreads move List.mem_cons_self
      exact ⟨h.careful hread,
        ih (h.step hread) fun move hmove => hreads move (List.mem_cons_of_mem _ hmove)⟩

theorem run_reads {moves : List GraphMove} :
    ∀ {s : GraphServer}, Undisturbed s → (∀ move ∈ moves, move.IsRead) →
      (run (GraphServer.step H codec) s moves).store = s.store ∧
        Undisturbed (run (GraphServer.step H codec) s moves) := by
  induction moves with
  | nil => intro s h _; exact ⟨rfl, h⟩
  | cons move moves ih =>
      intro s h hreads
      have hread := hreads move List.mem_cons_self
      have hstep : Undisturbed (s.step H codec move) := h.step hread
      obtain ⟨hstore, hrun⟩ :=
        ih hstep fun move hmove => hreads move (List.mem_cons_of_mem _ hmove)
      exact ⟨hstore.trans (step_read_store hread), hrun⟩

/-- An ingest that leaves the store alone spoils nothing. -/
theorem careful_of_store_eq {record : AtribRecord} {logIndex : Option ℕ}
    (hstore : (s.store.addRecord H codec record logIndex).1 = s.store) :
    Careful H codec s (.ingest record logIndex) := by
  intro _
  simp only [hstore]
  exact ⟨fun e _ _ => .refl H codec e.1 s.store, fun c _ _ k => trivial⟩

theorem addRecord_retry {store : RecordStore} {record : AtribRecord}
    (hknown : hexEncode (recordDigest H codec record) ∈ store.seenRecordHashes) :
    (store.addRecord H codec record none).1 = store := by
  simp only [RecordStore.addRecord, if_pos hknown, RecordStore.withLogIndex, ite_self]

/-- A retry of an ingest may come between two requests. -/
theorem Undisturbed.always_careful_retry (h : Undisturbed s) {reads : List GraphMove}
    (hreads : ∀ move ∈ reads, move.IsRead) {record : AtribRecord}
    (hknown : hexEncode (recordDigest H codec record) ∈ s.store.seenRecordHashes)
    (request : GraphRequest) :
    Always (GraphServer.step H codec) (Careful H codec) s
      (reads ++ [.ingest record none, .get request]) := by
  refine Always.append.2 ⟨h.always_careful hreads, careful_of_store_eq ?_, trivial, trivial⟩
  have hstore : (run (GraphServer.step H codec) s reads).store = s.store := (run_reads h hreads).1
  rw [← hstore] at hknown
  exact addRecord_retry hknown

/-- The records of the one request in flight are checked one after the other. -/
theorem run_verifying {remaining : List RecordInfo} :
    ∀ {s : GraphServer} {b : Building} {nodes : List GraphNode}, s.building = [b] →
      b.phase = .verifying remaining nodes → remaining ≠ [] →
      ∃ b' body, b'.request = b.request ∧ b'.phase = .built body ∧
        run (GraphServer.step H codec) s (List.replicate remaining.length (.resume 0)) =
          { s with building := [b'] } := by
  induction remaining with
  | nil => intro s b nodes _ _ hne; exact absurd rfl hne
  | cons info remaining ih =>
      intro s b nodes hb hphase _
      let b₁ := GraphServer.Building.verified H codec b s.store info remaining nodes
      have hstep : s.step H codec (.resume 0) = { s with building := [b₁] } := by
        simp [GraphServer.step, GraphServer.resume, hb, hphase, b₁]
      rw [List.length_cons, List.replicate_succ, run_cons, hstep]
      by_cases hempty : remaining = []
      · have hphase₁ : b₁.phase = .built _ := if_pos hempty
        refine ⟨b₁, _, rfl, hphase₁, ?_⟩
        rw [hempty]
        rfl
      · have hphase₁ : b₁.phase = .verifying remaining _ := if_neg hempty
        obtain ⟨b', body, hrun⟩ := @ih { s with building := [b₁] } b₁ _ rfl hphase₁ hempty
        exact ⟨b', body, hrun⟩

theorem run_idle (hquiet : s.building = []) (n : ℕ) :
    run (GraphServer.step H codec) s (List.replicate n (.resume 0)) = s := by
  induction n with
  | zero => rfl
  | succ n ih =>
      rw [List.replicate_succ', run_snoc, ih]
      simp [GraphServer.step, GraphServer.resume, hquiet]

/-- The graph that has been built is cached. -/
theorem resume_built {b : Building} {body : GraphBody} (hb : s.building = [b])
    (hphase : b.phase = .built body) :
    (s.step H codec (.resume 0)).getCachedGraph b.request = some body := by
  simp [GraphServer.step, GraphServer.resume, hb, hphase, GraphServer.getCachedGraph,
    GraphServer.answer, GraphServer.setCachedGraph]

/-- A request that finds nothing in the cache is in flight afterwards. -/
theorem get_miss (hquiet : s.building = []) {request : GraphRequest}
    (hcontext : s.store.hasContext request.contextId) (hcached : s.getCachedGraph request = none) :
    ∃ b, (s.step H codec (.get request)).building = [b] ∧ b.request = request ∧
      if recordInfos H codec (s.store.getRecordsByContextId request.contextId) = [] then
        ∃ body, b.phase = .built body
      else b.phase = .verifying
        (recordInfos H codec (s.store.getRecordsByContextId request.contextId)) [] := by
  have hbuilding : s.buildRegistryCached.2.building = [] :=
    (buildRegistryCached_store s).2.2.1.trans hquiet
  simp only [GraphServer.step, GraphServer.handleGraph, if_pos hcontext, hcached, hbuilding,
    List.nil_append]
  refine ⟨_, rfl, rfl, ?_⟩
  split
  · exact ⟨_, rfl⟩
  · rfl

/-- A request that nothing comes between is answered, and its graph is in the cache. -/
theorem cached_of_undisturbed (hquiet : s.building = []) {request : GraphRequest}
    (hcontext : s.store.hasContext request.contextId) :
    ∃ body, (run (GraphServer.step H codec) s (.get request ::
      List.replicate ((s.store.getRecordsByContextId request.contextId).length + 1)
        (.resume 0))).getCachedGraph request = some body := by
  rw [run_cons]
  cases hcached : s.getCachedGraph request with
  | some body =>
      have hstep : s.step H codec (.get request) = s.answer ⟨request, body, s.store,
          List.replicate (recordInfos H codec
            (s.store.getRecordsByContextId request.contextId)).length s.store⟩ := by
        simp only [GraphServer.step, GraphServer.handleGraph, if_pos hcontext, hcached]
      have hidle : (s.step H codec (.get request)).building = [] := by
        rw [hstep]
        exact hquiet
      refine ⟨body, ?_⟩
      rw [run_idle hidle, hstep]
      exact hcached
  | none =>
      obtain ⟨b, hb, rfl, hphase⟩ := get_miss (H := H) hquiet hcontext hcached
      have hlength : (recordInfos H codec
          (s.store.getRecordsByContextId b.request.contextId)).length =
            (s.store.getRecordsByContextId b.request.contextId).length := by
        rw [recordInfos, List.length_mergeSort, List.length_map]
      rw [List.replicate_succ', run_snoc, ← hlength]
      split at hphase
      next hempty =>
        obtain ⟨body, hphase⟩ := hphase
        refine ⟨body, ?_⟩
        rw [hempty]
        exact resume_built hb hphase
      next hne =>
        obtain ⟨b', body, hrequest, hphase', hrun⟩ := run_verifying hb hphase hne
        refine ⟨body, ?_⟩
        rw [hrun, ← hrequest]
        exact resume_built rfl hphase'

end Reads

/-! ## Runs -/

/-- As long as every step is careful, the responses are those of a server without caches. -/
theorem answers_coherent (store : RecordStore) (moves : List GraphMove)
    (hcareful : Always (GraphServer.step H codec) (Careful H codec) { store := store } moves) :
    AllCoherent H codec (run (GraphServer.step H codec) { store := store } moves) :=
  (run_invariant (fun _ move h => h.step move) (cachesFresh_start store) hcareful).answers

/-- JCS and the signature check on a signed record whose members are texts
without escapes, apart from its timestamp. -/
def plainCodec : RecordCodec where
  canonicalRecord record :=
    let member := fun (name, text) => "\"" ++ name ++ "\":\"" ++ text ++ "\","
    utf8 <| "\x7b" ++
      String.join (([("chain_root", record.chainRoot),
        ("content_id", record.contentId.getD ""), ("context_id", record.contextId),
        ("creator_key", record.creatorKey), ("event_type", record.eventType)] ++
          record.rest).map member) ++
      "\"timestamp\":" ++ toString record.timestamp ++ "\x7d"
  verifyRecord _ := true

/-- The genesis record of a session. -/
def searchCall : AtribRecord where
  contentId := some "sha256:97a2d082b02b1e1aa2b79cc1280f20f3ea81e12bba86e2da2b8a1df1dbaae4cd"
  creatorKey := "iojj3XQJ8ZX9UtstPLpdcspnCb8dlBIb83SIAbQPb1w"
  chainRoot := "sha256:398acaee65c4e533cea249865ab1cee576445dc23178f8b39d5efdcedd57a829"
  eventType := "https://atrib.dev/v1/types/tool_call"
  contextId := "4bf92f3577b34da6a3ce929d0e0e4736"
  timestamp := 1700000000000
  rest := [("signature",
      "Qa5nx120ttl-VViK2AWZE5thMf-ZzMsZvBMcB3yzY5rGe4pVLdRFUk9-pB3rqPyIdafz_hFrEb7_NAsldg3gBw"),
    ("spec_version", "atrib/1.0")]

/-- A session of one record is asked for, the record is sent once more, and
the session is asked for again. -/
theorem answers_coherent_retry :
    AllCoherent .fips180 plainCodec (run (GraphServer.step .fips180 plainCodec) { store := {} }
      [.ingest searchCall none, .get { contextId := searchCall.contextId }, .resume 0, .resume 0,
        .ingest searchCall none, .get { contextId := searchCall.contextId }]) := by
  refine answers_coherent .fips180 plainCodec {} _ ⟨fun _ => ⟨?_, ?_⟩, ?_⟩
  · rintro e ⟨⟩
  · rintro c ⟨⟩
  · let reads : List GraphMove :=
      [.get { contextId := searchCall.contextId }, .resume 0, .resume 0]
    have hknown : hexEncode (recordDigest .fips180 plainCodec searchCall) ∈
        (RecordStore.addRecord .fips180 plainCodec {} searchCall none).1.seenRecordHashes :=
      List.mem_singleton_self _
    have hreads : ∀ move ∈ reads, move.IsRead := by
      intro move hmove
      simp only [reads, List.mem_cons, List.not_mem_nil, or_false] at hmove
      rcases hmove with rfl | rfl | rfl <;> trivial
    refine Undisturbed.always_careful_retry ?_ hreads hknown _
    rintro b ⟨⟩

/-! ## A log index that comes late -/

section Backfill

variable {H codec} {s : GraphServer} {request : GraphRequest} {store store' : RecordStore}

theorem logIndex_recordNode (registry : RevocationRegistry) (info : RecordInfo) :
    (recordNode H codec (graphOptions request registry store) info).logIndex =
      store.getLogIndex info.hash := rfl

/-- The log index of each record shows in the graph. -/
theorem logIndex_eq_of_freshGraph (hshape : request.shape = .full)
    (hrecords : store.getRecordsByContextId request.contextId =
      store'.getRecordsByContextId request.contextId)
    (hgraph : freshGraph H codec request store = freshGraph H codec request store')
    {record : AtribRecord} (hrecord : record ∈ store.getRecordsByContextId request.contextId) :
    store.getLogIndex (hexEncode (recordDigest H codec record)) =
      store'.getLogIndex (hexEncode (recordDigest H codec record)) := by
  let options := graphOptions request (buildRegistry store) store
  let options' := graphOptions request (buildRegistry store') store'
  let infos := recordInfos H codec (store.getRecordsByContextId request.contextId)
  have hbegin : infos.map (recordNode H codec options) <+:
      (buildGraph H codec (store.getRecordsByContextId request.contextId)
        (store.getGapNodesByContextId request.contextId) options).nodes :=
    recordNodes_prefixes codec _ _
  have hbegin' : infos.map (recordNode H codec options') <+:
      (buildGraph H codec (store'.getRecordsByContextId request.contextId)
        (store'.getGapNodesByContextId request.contextId) options').nodes := by
    rw [← hrecords]
    exact recordNodes_prefixes codec _ _
  simp only [freshGraph, graphBody, hshape, GraphBody.full.injEq] at hgraph
  rw [hgraph] at hbegin
  have hlength : (infos.map (recordNode H codec options)).length =
      (infos.map (recordNode H codec options')).length := by
    rw [List.length_map, List.length_map]
  have hsame : infos.map (recordNode H codec options) = infos.map (recordNode H codec options') :=
    (List.prefix_of_prefix_length_le hbegin hbegin' hlength.le).eq_of_length hlength
  have hinfo : recordInfo H codec record ∈ infos :=
    List.mem_mergeSort.2 (List.mem_map_of_mem hrecord)
  have hnode := congrArg GraphNode.logIndex (List.map_inj_left.1 hsame _ hinfo)
  rwa [logIndex_recordNode, logIndex_recordNode] at hnode

/-- A known record gets its log index. -/
theorem addRecord_backfill {record : AtribRecord} {index : ℕ}
    (hknown : hexEncode (recordDigest H codec record) ∈ store.seenRecordHashes)
    (hmissing : store.getLogIndex (hexEncode (recordDigest H codec record)) = none) :
    (store.addRecord H codec record (some index)).1 =
      store.withLogIndex (hexEncode (recordDigest H codec record)) (some index) := by
  have hhas : ¬ store.logIndexByHash.has (hexEncode (recordDigest H codec record)) := by
    rw [InsertionMap.has_eq_true, InsertionMap.mem_keys_iff_get?]
    change ¬ (store.getLogIndex (hexEncode (recordDigest H codec record))).isSome
    rw [hmissing]
    exact Bool.false_ne_true
  simp only [RecordStore.addRecord, if_pos hknown, if_neg hhas]

/-- The graph that is cached when a record of its session gets its log index is
served on, without the index. -/
theorem stale_of_backfill (h : CachesFresh H codec s) (hshape : request.shape = .full)
    {record : AtribRecord} (hrecord : record ∈ s.store.getRecordsByContextId request.contextId)
    (hknown : hexEncode (recordDigest H codec record) ∈ s.store.seenRecordHashes)
    (hmissing : s.store.getLogIndex (hexEncode (recordDigest H codec record)) = none)
    {body : GraphBody} (hcached : s.getCachedGraph request = some body) (index : ℕ) :
    (s.step H codec (.ingest record (some index))).getCachedGraph request = some body ∧
      body ≠ freshGraph H codec request
        (s.step H codec (.ingest record (some index))).store := by
  simp only [GraphServer.step, addRecord_backfill hknown hmissing]
  refine ⟨hcached, fun hsame => ?_⟩
  rw [getCachedGraph_fresh h.graphs hcached] at hsame
  have hindex := logIndex_eq_of_freshGraph hshape (by rfl) hsame hrecord
  rw [hmissing] at hindex
  simp [RecordStore.withLogIndex, RecordStore.getLogIndex] at hindex

/-- A graph is asked for, a record of it gets its log index, the graph is
asked for again. -/
theorem not_coherent_of_backfill (h : CachesFresh H codec s) (hquiet : s.building = [])
    (hshape : request.shape = .full) (hcontext : s.store.hasContext request.contextId)
    {record : AtribRecord} (hrecord : record ∈ s.store.getRecordsByContextId request.contextId)
    (hknown : hexEncode (recordDigest H codec record) ∈ s.store.seenRecordHashes)
    (hmissing : s.store.getLogIndex (hexEncode (recordDigest H codec record)) = none)
    (index : ℕ) :
    ¬ AllCoherent H codec (run (GraphServer.step H codec) s ((.get request :: List.replicate
      ((s.store.getRecordsByContextId request.contextId).length + 1) (.resume 0)) ++
        [.ingest record (some index), .get request])) := by
  let reads : List GraphMove := .get request :: List.replicate
    ((s.store.getRecordsByContextId request.contextId).length + 1) (.resume 0)
  have hreads : ∀ move ∈ reads, move.IsRead := by
    intro move hmove
    rcases List.mem_cons.1 hmove with rfl | hmove
    · trivial
    · rw [List.eq_of_mem_replicate hmove]
      trivial
  have hundisturbed : Undisturbed s := by
    intro b hb
    rw [hquiet] at hb
    cases hb
  obtain ⟨body, hcached⟩ : ∃ body,
      (run (GraphServer.step H codec) s reads).getCachedGraph request = some body :=
    cached_of_undisturbed hquiet hcontext
  have hstore : (run (GraphServer.step H codec) s reads).store = s.store :=
    (run_reads hundisturbed hreads).1
  have hfresh := run_invariant (fun _ move h => h.step move) h
    (hundisturbed.always_careful (H := H) hreads)
  let s₁ := run (GraphServer.step H codec) s reads
  let s₂ := s₁.step H codec (.ingest record (some index))
  obtain ⟨hserved, hstale⟩ : s₂.getCachedGraph request = some body ∧
      body ≠ freshGraph H codec request s₂.store := by
    rw [← hstore] at hrecord hknown hmissing
    exact stale_of_backfill hfresh hshape hrecord hknown hmissing hcached index
  have hcontext₂ : s₂.store.hasContext request.contextId := by
    rw [← hstore] at hcontext hknown hmissing
    change (s₁.store.addRecord H codec record (some index)).1.hasContext request.contextId
    rw [addRecord_backfill hknown hmissing]
    exact hcontext
  intro hcoherent
  rw [run_append, run_cons, run_cons, run_nil] at hcoherent
  have hanswer := hcoherent ⟨request, body, s₂.store, List.replicate
    (recordInfos H codec (s₂.store.getRecordsByContextId request.contextId)).length s₂.store⟩ (by
      change _ ∈ (s₂.handleGraph H codec request).answers
      simp only [GraphServer.handleGraph, if_pos hcontext₂, hserved]
      exact List.mem_append_right _ (List.mem_singleton_self _))
  exact hstale (hanswer.2 fun store hmem => List.eq_of_mem_replicate hmem)

end Backfill

/-- The genesis record of a session is ingested on its own, the session is asked
for, and the record comes again with its log index. -/
theorem not_coherent_of_late_index :
    ¬ AllCoherent .fips180 plainCodec (run (GraphServer.step .fips180 plainCodec) { store := {} }
      [.ingest searchCall none, .get { contextId := searchCall.contextId }, .resume 0, .resume 0,
        .ingest searchCall (some 5), .get { contextId := searchCall.contextId }]) := by
  let request : GraphRequest := { contextId := searchCall.contextId }
  let store := (RecordStore.addRecord .fips180 plainCodec {} searchCall none).1
  have hstart : CachesFresh .fips180 plainCodec { store := store } := cachesFresh_start store
  have hrecord : searchCall ∈ store.getRecordsByContextId request.contextId :=
    List.mem_singleton_self _
  have hknown : hexEncode (recordDigest .fips180 plainCodec searchCall) ∈
      store.seenRecordHashes := List.mem_singleton_self _
  rw [run_cons]
  exact not_coherent_of_backfill hstart rfl rfl rfl hrecord hknown rfl 5

end Atrib.GraphNode
