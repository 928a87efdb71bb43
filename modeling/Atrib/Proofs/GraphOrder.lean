import Atrib.Proofs.Encodings
import Atrib.Proofs.SessionGraphs

/-!
# The graph as a set of edges

What `joins_buildGraph` says of pairs of records is enough to see the graph of
the service apart from its loops: its nodes have different ids and its edges end
at them, two records of a session stand in one relation to each other, and
nothing depends on the order in which the records come. The sort before the
loops is not stable against that order, since it does not compare hashes.
-/

namespace Atrib.GraphNode

open Integration (recordId recordHashHex)
open Lib (find?_key_map_eq_some)
open Verify

variable {H : Hash} {codec : RecordCodec} {records records' : List AtribRecord}

/-- The graph without gap calls, resolvers, revocations or a log. -/
abbrev graphOf (H : Hash) (codec : RecordCodec) (records : List AtribRecord) : GraphResponse :=
  buildGraph H codec records [] {}

theorem nodes_graphOf : (graphOf H codec records).nodes =
    ((drawn H {} (recordInfos H codec records)).foldl Referenced.draw
      ⟨nodesOf H codec records, deriveEdges {} (recordInfos H codec records)
        (nodesOf H codec records)⟩).nodes := by
  change (deriveReferences H {} (recordInfos H codec records) _).nodes = _
  rw [deriveReferences_eq]
  have hnodes : nodesOf H codec records ++ [] = nodesOf H codec records := List.append_nil _
  exact congrArg (fun nodes => (List.foldl Referenced.draw ⟨nodes, deriveEdges {} _ nodes⟩
    (drawn H {} (recordInfos H codec records))).nodes) hnodes

/-! ## Ids -/

/-- A node is only added under an id that there is not. -/
theorem nodup_foldl_draw (ds : List Drawn) {r : Referenced} (h : (r.nodes.map (·.id)).Nodup) :
    ((ds.foldl Referenced.draw r).nodes.map (·.id)).Nodup := by
  induction ds generalizing r with
  | nil => exact h
  | cons d ds ih =>
      refine ih ?_
      cases hplace : d.placeholder with
      | none =>
          rw [Referenced.draw, hplace]
          exact h
      | some node =>
          rw [Referenced.draw, hplace]
          change ((r.place node).map (·.id)).Nodup
          unfold Referenced.place
          split
          · exact h
          · next hany =>
              rw [List.map_append, List.map_singleton, List.nodup_append_comm,
                List.singleton_append, List.nodup_cons]
              refine ⟨fun hmem => ?_, h⟩
              obtain ⟨n, hn, hid⟩ := List.mem_map.1 hmem
              exact hany (List.any_eq_true.2 ⟨n, hn, decide_eq_true hid⟩)

theorem map_id_nodesOf :
    ((nodesOf H codec records).map (·.id)).Perm (records.map (recordId H codec)) := by
  rw [nodesOf, List.map_map]
  exact (List.Perm.map _ (List.mergeSort_perm _ _)).trans (by rw [List.map_map]; rfl)

theorem nodup_graphOf (h : Distinct H codec records) :
    ((graphOf H codec records).nodes.map (·.id)).Nodup := by
  rw [nodes_graphOf]
  exact nodup_foldl_draw _ (map_id_nodesOf.nodup_iff.2 h)

/-! ## Ends of edges -/

/-- The graph has a node with the id. -/
def HasNode (graph : GraphResponse) (id : String) : Prop := ∃ node ∈ graph.nodes, node.id = id

theorem nodes_subset_foldl_draw (ds : List Drawn) (r : Referenced) {node : GraphNode}
    (h : node ∈ r.nodes) : node ∈ (ds.foldl Referenced.draw r).nodes :=
  (mem_nodes_foldl_draw ds r).2 (.inl h)

theorem hasNode_record {record : AtribRecord} (h : record ∈ records) :
    HasNode (graphOf H codec records) (recordId H codec record) := by
  rw [HasNode, nodes_graphOf]
  exact ⟨_, nodes_subset_foldl_draw _ _ (mem_nodesOf.2 ⟨record, h, rfl⟩), rfl⟩

/-- The placeholder that an edge points at is there, or another node with its id. -/
theorem hasNode_placeholder {d : Drawn} (hd : d ∈ drawn H {} (recordInfos H codec records))
    {node : GraphNode} (hnode : d.placeholder = some node) :
    HasNode (graphOf H codec records) node.id := by
  rw [HasNode, nodes_graphOf]
  simp only [mem_nodes_foldl_draw]
  by_cases hold : ∀ n ∈ nodesOf H codec records, n.id ≠ node.id
  · have hsome : (((drawn H {} (recordInfos H codec records)).filterMap (·.placeholder)).find?
        (·.id = node.id)).isSome :=
      List.find?_isSome.2 ⟨node, List.mem_filterMap.2 ⟨d, hd, hnode⟩, decide_eq_true rfl⟩
    obtain ⟨found, hfound⟩ := Option.isSome_iff_exists.1 hsome
    have hid : found.id = node.id := by simpa using List.find?_some hfound
    exact ⟨found, .inr (by rw [hid]; exact ⟨hold, hfound⟩), hid⟩
  · push Not at hold
    obtain ⟨n, hn, hid⟩ := hold
    exact ⟨n, .inl hn, hid⟩

/-- What a reference draws goes from its record to a record or to its placeholder. -/
theorem ends_drawnReference {type : EdgeType} {source ref : String} {d : Drawn}
    (h : drawnReference {} (recordInfos H codec records) type source ref = some d) :
    d.edge.source = source ∧ ((∃ p ∈ records, d.edge.target = recordId H codec p) ∨
      ∃ node, d.placeholder = some node ∧ d.edge.target = node.id) := by
  unfold drawnReference at h
  split at h
  · cases h
  · split at h
    · next target htarget =>
        obtain rfl := Option.some.inj h
        obtain ⟨p, hp, -, rfl⟩ := nodeIdOfHash_eq_some.1 htarget
        exact ⟨rfl, .inl ⟨p, hp, rfl⟩⟩
    · obtain rfl := Option.some.inj h
      exact ⟨rfl, .inr ⟨_, rfl, rfl⟩⟩

theorem ends_drawn {d : Drawn} (hd : d ∈ drawn H {} (recordInfos H codec records)) :
    (∃ p ∈ records, d.edge.source = recordId H codec p) ∧
      ((∃ p ∈ records, d.edge.target = recordId H codec p) ∨
        ∃ node, d.placeholder = some node ∧ d.edge.target = node.id) := by
  have hsource : ∀ {info : RecordInfo}, info ∈ recordInfos H codec records →
      ∃ p ∈ records, info.nodeId = recordId H codec p := fun hinfo => by
    obtain ⟨p, hp, rfl⟩ := mem_recordInfos.1 hinfo
    exact ⟨p, hp, rfl⟩
  have hreference : ∀ {info : RecordInfo} {type : EdgeType} {ref : String},
      info ∈ recordInfos H codec records →
      drawnReference {} (recordInfos H codec records) type info.nodeId ref = some d →
      (∃ p ∈ records, d.edge.source = recordId H codec p) ∧
        ((∃ p ∈ records, d.edge.target = recordId H codec p) ∨
          ∃ node, d.placeholder = some node ∧ d.edge.target = node.id) :=
    fun hinfo href => by
      obtain ⟨hd, hends⟩ := ends_drawnReference href
      obtain ⟨p, hp, hid⟩ := hsource hinfo
      exact ⟨⟨p, hp, hd.trans hid⟩, hends⟩
  simp only [drawn, List.mem_append, List.mem_flatMap, List.mem_filterMap,
    Option.bind_eq_some_iff] at hd
  obtain ((⟨_, hinfo, _, -, href⟩ | ⟨info, hinfo, hd⟩) | ⟨_, hinfo, _, -, href⟩) |
    ⟨_, hinfo, _, -, href⟩ := hd
  · exact hreference hinfo href
  · obtain ⟨token, -, rfl⟩ := Option.map_eq_some_iff.1 hd
    obtain ⟨p, hp, hid⟩ := hsource hinfo
    cases hfound : provenanceSource (recordInfos H codec records) info.record.contextId token with
    | some candidate =>
        obtain ⟨p', hp', hid'⟩ := hsource (List.mem_of_find?_eq_some hfound)
        exact ⟨⟨p, hp, hid⟩, .inl ⟨p', hp', hid'⟩⟩
    | none => exact ⟨⟨p, hp, hid⟩, .inr ⟨_, rfl, rfl⟩⟩
  · exact hreference hinfo href
  · exact hreference hinfo href

theorem mem_derived (hdistinct : Distinct H codec records) {e : GraphEdge}
    (h : e.type ∈ derivedTypes) (he : e ∈ (graphOf H codec records).edges) :
    ∃ p ∈ records, ∃ t ∈ records, recordId H codec p = e.source ∧ recordId H codec t = e.target :=
  have ⟨p, hp, t, ht, hsource, htarget, _⟩ :=
    (joins_buildGraph hdistinct h).1 ⟨e, he, rfl, .inl ⟨rfl, rfl⟩⟩
  ⟨p, hp, t, ht, hsource, htarget⟩

theorem type_deriveEdges {e : GraphEdge} (h : Distinct H codec records)
    (he : e ∈ deriveEdges {} (recordInfos H codec records) (nodesOf H codec records)) :
    e.type ∈ derivedTypes := by
  rw [deriveEdges_eq] at he
  simp only [List.mem_append] at he
  rcases he with (((he | he) | he) | he) | he
  · obtain ⟨_, _, _, _, _, rfl⟩ := mem_chainDrawn.1 he
    simp [derivedTypes]
  · rw [type_precedesDrawn he]
    simp [derivedTypes]
  · obtain ⟨pair, -, he⟩ := List.mem_flatMap.1 he
    unfold parallelEdges at he
    split at he
    · cases he
    · rw [List.mem_singleton.1 he]
      simp [derivedTypes]
  · obtain ⟨_, _, _, _, _, rfl⟩ := mem_convergesDrawn.1 he
    simp [derivedTypes]
  · obtain ⟨_, _, _, _, _, rfl⟩ := (mem_crossDrawn h).1 he
    simp [derivedTypes]

/-- Every edge goes from a node of the graph to a node of the graph. -/
theorem hasNode_of_edge (h : Distinct H codec records) {e : GraphEdge}
    (he : e ∈ (graphOf H codec records).edges) :
    HasNode (graphOf H codec records) e.source ∧ HasNode (graphOf H codec records) e.target := by
  have hedges := he
  rw [edges_buildGraph, List.mem_append] at hedges
  rcases hedges with hderived | hreferred
  · obtain ⟨p, hp, t, ht, hsource, htarget⟩ := mem_derived h (type_deriveEdges h hderived) he
    rw [← hsource, ← htarget]
    exact ⟨hasNode_record hp, hasNode_record ht⟩
  · obtain ⟨d, hd, rfl⟩ := List.mem_map.1 hreferred
    obtain ⟨⟨p, hp, hsource⟩, hends⟩ := ends_drawn hd
    rw [hsource]
    refine ⟨hasNode_record hp, ?_⟩
    rcases hends with ⟨t, ht, htarget⟩ | ⟨node, hnode, htarget⟩
    · rw [htarget]
      exact hasNode_record ht
    · rw [htarget]
      exact hasNode_placeholder hd hnode

/-! ## Two records of a session -/

/-- How two records of one session stand to each other. -/
inductive SessionRelation where
  | chained
  | before
  | after
  | beside
deriving DecidableEq

def SessionRelation.Holds (edges : List GraphEdge) (a b : String) : SessionRelation → Prop
  | .chained => Joins edges .chainPrecedes a b ∨ Joins edges .chainPrecedes b a
  | .before => Joins edges .sessionPrecedes a b
  | .after => Joins edges .sessionPrecedes b a
  | .beside => Joins edges .sessionParallel a b

theorem joins_records (h : Distinct H codec records) {type : EdgeType} (htype : type ∈ derivedTypes)
    {p t : AtribRecord} (hp : p ∈ records) (ht : t ∈ records) :
    Joins (graphOf H codec records).edges type (recordId H codec p) (recordId H codec t) ↔
      Draws H codec type p t := by
  rw [joins_buildGraph h htype]
  constructor
  · rintro ⟨p', hp', t', ht', hpid, htid, hdraws⟩
    rw [← h.inj hp' hp hpid, ← h.inj ht' ht htid]
    exact hdraws
  · exact fun hdraws => ⟨p, hp, t, ht, rfl, rfl, hdraws⟩

/-- The graph has one of the four relations between two records of a session. -/
theorem existsUnique_relation (h : Distinct H codec records) {p t : AtribRecord} (hp : p ∈ records)
    (ht : t ∈ records) (hne : p ≠ t) (hcontext : p.contextId = t.contextId) :
    ∃! relation : SessionRelation, relation.Holds (graphOf H codec records).edges
      (recordId H codec p) (recordId H codec t) := by
  have hchain : ∀ {p t : AtribRecord}, p ∈ records → t ∈ records →
      (Joins (graphOf H codec records).edges .chainPrecedes (recordId H codec p)
        (recordId H codec t) ↔ IsParent H codec p t) :=
    fun hp ht => joins_records h (by decide) hp ht
  have hbefore : ∀ {p t : AtribRecord}, p ∈ records → t ∈ records →
      (Joins (graphOf H codec records).edges .sessionPrecedes (recordId H codec p)
        (recordId H codec t) ↔ Precedes (IsParent H codec) p t) :=
    fun hp ht => joins_records h (by decide) hp ht
  have hbeside : Joins (graphOf H codec records).edges .sessionParallel (recordId H codec p)
      (recordId H codec t) ↔ Parallel (IsParent H codec) p t := joins_records h (by decide) hp ht
  by_cases hparent : IsParent H codec p t ∨ IsParent H codec t p
  · refine ⟨.chained, by simpa only [SessionRelation.Holds, hchain hp ht, hchain ht hp], ?_⟩
    rintro (_ | _ | _ | _) hholds
    · rfl
    · exact absurd hparent ((hbefore hp ht).1 hholds).2.1
    · exact absurd hparent.symm ((hbefore ht hp).1 hholds).2.1
    · exact absurd hparent (hbeside.1 hholds).2.2.1
  · have hfree : ¬SessionRelation.chained.Holds (graphOf H codec records).edges (recordId H codec p)
        (recordId H codec t) := by
      simpa only [SessionRelation.Holds, hchain hp ht, hchain ht hp]
    rcases lt_trichotomy p.timestamp t.timestamp with hlt | heq | hlt
    · refine ⟨.before, (hbefore hp ht).2 ⟨hcontext, hparent, hlt⟩, ?_⟩
      rintro (_ | _ | _ | _) hholds
      · exact absurd hholds hfree
      · rfl
      · exact absurd hlt ((hbefore ht hp).1 hholds).2.2.asymm
      · exact absurd (hbeside.1 hholds).2.2.2 hlt.ne
    · refine ⟨.beside, hbeside.2 ⟨hcontext, hne, hparent, heq⟩, ?_⟩
      rintro (_ | _ | _ | _) hholds
      · exact absurd hholds hfree
      · exact absurd heq ((hbefore hp ht).1 hholds).2.2.ne
      · exact absurd heq.symm ((hbefore ht hp).1 hholds).2.2.ne
      · rfl
    · refine ⟨.after, (hbefore ht hp).2 ⟨hcontext.symm, fun h => hparent h.symm, hlt⟩, ?_⟩
      rintro (_ | _ | _ | _) hholds
      · exact absurd hholds hfree
      · exact absurd hlt ((hbefore hp ht).1 hholds).2.2.asymm
      · rfl
      · exact absurd (hbeside.1 hholds).2.2.2 hlt.ne'

/-- The graph of a set of records is well formed: nodes have different ids, edges end at nodes, and
two records of a session stand in one relation. -/
theorem graph_wellFormed (h : Distinct H codec records) :
    ((graphOf H codec records).nodes.map (·.id)).Nodup ∧
    (∀ e ∈ (graphOf H codec records).edges,
      HasNode (graphOf H codec records) e.source ∧ HasNode (graphOf H codec records) e.target) ∧
    ∀ p ∈ records, ∀ t ∈ records, p ≠ t → p.contextId = t.contextId →
      ∃! relation : SessionRelation, relation.Holds (graphOf H codec records).edges
        (recordId H codec p) (recordId H codec t) :=
  ⟨nodup_graphOf h, fun _ he => hasNode_of_edge h he,
    fun _ hp _ ht => existsUnique_relation h hp ht⟩

/-! ## The order of the records -/

/-- No two records have one provenance token. -/
def DistinctTokens (H : Hash) (codec : RecordCodec) (records : List AtribRecord) : Prop :=
  (records.map fun record => (recordInfo H codec record).token16).Nodup

theorem mem_recordInfos_perm (hperm : records.Perm records') {info : RecordInfo} :
    info ∈ recordInfos H codec records ↔ info ∈ recordInfos H codec records' := by
  simp only [mem_recordInfos, hperm.mem_iff]

theorem nodeIdOfHash_perm (hperm : records.Perm records') (hash : String) :
    nodeIdOfHash (recordInfos H codec records) hash =
      nodeIdOfHash (recordInfos H codec records') hash := by
  ext id
  simp only [nodeIdOfHash_eq_some, hperm.mem_iff]

/-- A token names one record at most. -/
theorem provenanceSource_perm (htokens : DistinctTokens H codec records)
    (hperm : records.Perm records') (contextId token : String) :
    provenanceSource (recordInfos H codec records) contextId token =
      provenanceSource (recordInfos H codec records') contextId token := by
  have hsource : ∀ {records : List AtribRecord}, DistinctTokens H codec records → ∀ info,
      provenanceSource (recordInfos H codec records) contextId token = some info ↔
        ∃ p ∈ records, recordInfo H codec p = info ∧ p.contextId ≠ contextId ∧
          info.token16 = token := by
    intro records htokens info
    constructor
    · intro hfound
      obtain ⟨p, hp, rfl⟩ := mem_recordInfos.1 (List.mem_of_find?_eq_some hfound)
      rw [provenanceSource] at hfound
      have htest := List.find?_some hfound
      exact ⟨p, hp, rfl, of_decide_eq_true htest⟩
    · rintro ⟨p, hp, rfl, hcontext, htoken⟩
      have htest : decide ((recordInfo H codec p).record.contextId ≠ contextId ∧
          (recordInfo H codec p).token16 = token) = true := decide_eq_true ⟨hcontext, htoken⟩
      have hsome : (provenanceSource (recordInfos H codec records) contextId token).isSome :=
        List.find?_isSome.2 ⟨_, mem_recordInfos.2 ⟨p, hp, rfl⟩, htest⟩
      obtain ⟨found, hfound⟩ := Option.isSome_iff_exists.1 hsome
      obtain ⟨p', hp', rfl⟩ := mem_recordInfos.1 (List.mem_of_find?_eq_some hfound)
      have htest' : p'.contextId ≠ contextId ∧ (recordInfo H codec p').token16 = token := by
        rw [provenanceSource] at hfound
        have htest := List.find?_some hfound
        exact of_decide_eq_true htest
      rw [hfound, List.inj_on_of_nodup_map htokens hp' hp (htest'.2.trans htoken.symm)]
  have htokens' : DistinctTokens H codec records' := (hperm.map _).nodup_iff.1 htokens
  ext info
  simp only [hsource htokens, hsource htokens', hperm.mem_iff]

theorem mem_drawn_perm (htokens : DistinctTokens H codec records) (hperm : records.Perm records')
    {d : Drawn} : d ∈ drawn H {} (recordInfos H codec records) ↔
      d ∈ drawn H {} (recordInfos H codec records') := by
  have hreference : ∀ type source ref,
      drawnReference {} (recordInfos H codec records) type source ref =
        drawnReference {} (recordInfos H codec records') type source ref := by
    intro type source ref
    rw [drawnReference, drawnReference, nodeIdOfHash_perm hperm]
  have hprovenance : ∀ info, drawnProvenance H {} (recordInfos H codec records) info =
      drawnProvenance H {} (recordInfos H codec records') info := by
    intro info
    simp only [drawnProvenance, provenanceSource_perm htokens hperm]
  simp only [drawn, List.mem_append, List.mem_flatMap, List.mem_filterMap,
    Option.bind_eq_some_iff, mem_recordInfos_perm hperm, hreference, hprovenance]

/-- Without resolvers a placeholder is known by its id. -/
theorem placeholder_id_inj {d d' : Drawn} {node node' : GraphNode}
    (hd : d ∈ drawn H {} (recordInfos H codec records)) (hnode : d.placeholder = some node)
    (hd' : d' ∈ drawn H {} (recordInfos H codec records)) (hnode' : d'.placeholder = some node')
    (hid : node.id = node'.id) : node = node' := by
  rcases placeholder_cases hd hnode with ⟨ref, href, rfl⟩ | ⟨info, -, token, -, -, rfl⟩ <;>
    rcases placeholder_cases hd' hnode' with ⟨ref', href', rfl⟩ | ⟨info', -, token', -, -, rfl⟩
  · rw [recordPlaceholder_id_inj hid]
  · exact absurd hid (recordPlaceholder_id_ne href)
  · exact absurd hid.symm (recordPlaceholder_id_ne href')
  · rw [tokenPlaceholder_id_inj hid]
    rfl

theorem mem_nodes_graphOf {node : GraphNode} : node ∈ (graphOf H codec records).nodes ↔
    node ∈ nodesOf H codec records ∨ (∀ n ∈ nodesOf H codec records, n.id ≠ node.id) ∧
      ∃ d ∈ drawn H {} (recordInfos H codec records), d.placeholder = some node := by
  rw [nodes_graphOf, mem_nodes_foldl_draw]
  refine or_congr_right (and_congr_right fun _ => ?_)
  have hvalue : ∀ n ∈ (drawn H {} (recordInfos H codec records)).filterMap (·.placeholder),
      ∀ n' ∈ (drawn H {} (recordInfos H codec records)).filterMap (·.placeholder),
        n.id = n'.id → id n = id n' := by
    intro n hn n' hn' hid
    obtain ⟨d, hd, hplace⟩ := List.mem_filterMap.1 hn
    obtain ⟨d', hd', hplace'⟩ := List.mem_filterMap.1 hn'
    exact placeholder_id_inj hd hplace hd' hplace' hid
  rw [← Option.map_id_apply (x := List.find? _ _), find?_key_map_eq_some hvalue]
  constructor
  · rintro ⟨n, hn, -, rfl⟩
    exact List.mem_filterMap.1 hn
  · rintro ⟨d, hd, hplace⟩
    exact ⟨node, List.mem_filterMap.2 ⟨d, hd, hplace⟩, rfl, rfl⟩

theorem joins_referred {type : EdgeType} (h : type ∉ derivedTypes)
    (hdistinct : Distinct H codec records) {a b : String} :
    Joins (graphOf H codec records).edges type a b ↔
      Joins ((drawn H {} (recordInfos H codec records)).map (·.edge)) type a b := by
  rw [edges_buildGraph, joins_append, or_iff_right]
  refine not_joins (fun e he heq => h ?_) a b
  rw [← heq]
  exact type_deriveEdges hdistinct he

/-- The graph does not depend on the order of the records. -/
theorem graph_order_free (h : Distinct H codec records) (htokens : DistinctTokens H codec records)
    (hperm : records.Perm records') :
    (∀ node, node ∈ (graphOf H codec records).nodes ↔ node ∈ (graphOf H codec records').nodes) ∧
    ∀ type a b, Joins (graphOf H codec records).edges type a b ↔
      Joins (graphOf H codec records').edges type a b := by
  have h' : Distinct H codec records' := (hperm.map _).nodup_iff.1 h
  constructor
  · intro node
    simp only [mem_nodes_graphOf, mem_nodesOf, hperm.mem_iff, mem_drawn_perm htokens hperm]
  · intro type a b
    by_cases htype : type ∈ derivedTypes
    · simp only [joins_buildGraph h htype, joins_buildGraph h' htype, hperm.mem_iff]
    · rw [joins_referred htype h, joins_referred htype h']
      simp only [Joins, List.mem_map, mem_drawn_perm htokens hperm]

/-! ## Three records of a session -/

namespace OrderSample

open Integration.SessionSample (call note tx sampleCodec distinct_call_note_tx
  heads_call_note_tx)

/-- The digests begin with different bytes, and so do the tokens. -/
theorem distinctTokens : DistinctTokens .fips180 sampleCodec [call, note, tx] := by
  refine List.pairwise_map.2 (heads_call_note_tx.imp fun {r r'} hne htoken => hne ?_)
  have hbytes := congrArg Verify.base64urlDecode htoken
  simp only [recordInfo, Verify.base64urlDecode_base64urlEncode, Option.some.injEq] at hbytes
  have hhead := congrArg List.head? hbytes
  rwa [List.head?_take, List.head?_take] at hhead

theorem graph_wellFormed_call_tx :
    ∃! relation : SessionRelation, relation.Holds
      (graphOf .fips180 sampleCodec [call, note, tx]).edges
      (recordId .fips180 sampleCodec call) (recordId .fips180 sampleCodec tx) :=
  (graph_wellFormed distinct_call_note_tx).2.2 call (by decide) tx (by decide) (by decide) rfl

theorem graph_order_free_tx_call_note :
    (∀ node, node ∈ (graphOf .fips180 sampleCodec [call, note, tx]).nodes ↔
      node ∈ (graphOf .fips180 sampleCodec [tx, call, note]).nodes) ∧
    ∀ type a b, Joins (graphOf .fips180 sampleCodec [call, note, tx]).edges type a b ↔
      Joins (graphOf .fips180 sampleCodec [tx, call, note]).edges type a b :=
  graph_order_free distinct_call_note_tx distinctTokens (by decide)

end OrderSample

end Atrib.GraphNode
