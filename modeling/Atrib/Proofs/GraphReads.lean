import Atrib.GraphNode.Server
import Mathlib.Data.List.Basic

/-!
# What a graph response depends on

A build reads little of the store: the records and gap calls of its session,
and for each of these records its log index, the revocation of its key, and
the targets of its references. Two stores that agree on these give the same
response.
-/

namespace Atrib.GraphNode

open Lib (InsertionMap)
open Verify

/-- The texts by which a record refers to others. -/
def referencesOf (record : AtribRecord) : List String :=
  record.informedBy.getD [] ++ record.annotates.toList ++ record.revises.toList

variable (H : Hash) (codec : RecordCodec)

/-- Two stores say the same where a build asks about a record. -/
structure SameFor (record : AtribRecord) (store store' : RecordStore) : Prop where
  logIndex : store.getLogIndex (hexEncode (recordDigest H codec record)) =
    store'.getLogIndex (hexEncode (recordDigest H codec record))
  revocation : (buildRegistry store).get? record.creatorKey =
    (buildRegistry store').get? record.creatorKey
  references : ∀ ref ∈ referencesOf record,
    recordReferenceLookup store (afterHashPrefix ref) =
      recordReferenceLookup store' (afterHashPrefix ref)
  provenance : ∀ token, record.provenanceToken = some token →
    provenanceReferenceLookup store token record.contextId =
      provenanceReferenceLookup store' token record.contextId

/-- Two stores say the same where a build asks about a session. -/
structure SameView (request : GraphRequest) (store store' : RecordStore) : Prop where
  records : store.getRecordsByContextId request.contextId =
    store'.getRecordsByContextId request.contextId
  gapNodes : store.getGapNodesByContextId request.contextId =
    store'.getGapNodesByContextId request.contextId
  each : ∀ record ∈ store.getRecordsByContextId request.contextId,
    SameFor H codec record store store'

theorem SameFor.refl (record : AtribRecord) (store : RecordStore) :
    SameFor H codec record store store :=
  ⟨rfl, rfl, fun _ _ => rfl, fun _ _ => rfl⟩

theorem SameView.refl (request : GraphRequest) (store : RecordStore) :
    SameView H codec request store store :=
  ⟨rfl, rfl, fun record _ => .refl H codec record store⟩

/-! ## Nodes -/

section Nodes

variable {H codec} {request : GraphRequest} {registry registry' : RevocationRegistry}
  {store store' : RecordStore}

theorem exists_record_of_mem {records : List AtribRecord} {info : RecordInfo}
    (h : info ∈ recordInfos H codec records) :
    info.record ∈ records ∧ info = recordInfo H codec info.record := by
  obtain ⟨record, hrecord, rfl⟩ := List.mem_map.1 (List.mem_mergeSort.1 h)
  exact ⟨hrecord, rfl⟩

theorem applyRevocation_congr {node : GraphNode} {k : String} (hkey : node.creatorKey = some k)
    (h : registry.get? k = registry'.get? k) :
    applyRevocation node registry = applyRevocation node registry' := by
  unfold applyRevocation
  rw [hkey]
  cases node.logIndex with
  | none => rfl
  | some index => simp only [h]

/-- One round of the loop over the records. -/
theorem recordNode_congr {info : RecordInfo}
    (hindex : store.getLogIndex info.hash = store'.getLogIndex info.hash)
    (hrevocation : registry.get? info.record.creatorKey = registry'.get? info.record.creatorKey) :
    recordNode H codec (graphOptions request registry store) info =
      recordNode H codec (graphOptions request registry' store') info := by
  simp only [recordNode, graphOptions, Option.bind_some, hindex]
  rw [applyRevocation_congr rfl hrevocation]

end Nodes

/-! ## References -/

section References

variable {H} {options options' : BuildGraphOptions} {infos : List RecordInfo}

/-- Two sets of options classify the references of a record alike. -/
structure SameReferences (options options' : BuildGraphOptions) (record : AtribRecord) : Prop where
  references : ∀ ref ∈ referencesOf record,
    classifyRecordReference options (afterHashPrefix ref) =
      classifyRecordReference options' (afterHashPrefix ref)
  provenance : ∀ token, record.provenanceToken = some token →
    classifyProvenanceReference options token record.contextId =
      classifyProvenanceReference options' token record.contextId

theorem referTo_congr {type : EdgeType} {source ref : String}
    (h : classifyRecordReference options (afterHashPrefix ref) =
      classifyRecordReference options' (afterHashPrefix ref)) (r : Referenced) :
    referTo options infos type source r ref = referTo options' infos type source r ref := by
  simp only [referTo, h]

variable {info : RecordInfo}

theorem informedBy_congr (h : SameReferences options options' info.record) (r : Referenced) :
    informedBy options infos r info = informedBy options' infos r info := by
  refine List.foldl_ext _ _ _ fun r ref href => referTo_congr (h.references ref ?_) r
  simp [referencesOf, href]

theorem provenanceOf_congr (h : SameReferences options options' info.record) (r : Referenced) :
    provenanceOf H options infos r info = provenanceOf H options' infos r info := by
  unfold provenanceOf
  cases htoken : info.record.provenanceToken with
  | none => rfl
  | some token => simp only [h.provenance token htoken]

theorem annotates_congr (h : SameReferences options options' info.record) (r : Referenced) :
    annotates options infos r info = annotates options' infos r info := by
  unfold annotates
  cases href : info.record.annotates with
  | none => rfl
  | some ref =>
      rw [Option.elim_some, Option.elim_some,
        referTo_congr (h.references ref (by simp [referencesOf, href]))]

theorem revises_congr (h : SameReferences options options' info.record) (r : Referenced) :
    revises options infos r info = revises options' infos r info := by
  unfold revises
  cases href : info.record.revises with
  | none => rfl
  | some ref =>
      rw [Option.elim_some, Option.elim_some,
        referTo_congr (h.references ref (by simp [referencesOf, href]))]

theorem deriveReferences_congr (h : ∀ info ∈ infos, SameReferences options options' info.record)
    (r : Referenced) :
    deriveReferences H options infos r = deriveReferences H options' infos r := by
  have hinformed : ∀ r, infos.foldl (informedBy options infos) r =
      infos.foldl (informedBy options' infos) r := fun r =>
    List.foldl_ext _ _ r fun r info hinfo => informedBy_congr (h info hinfo) r
  have hprovenance : ∀ r, infos.foldl (provenanceOf H options infos) r =
      infos.foldl (provenanceOf H options' infos) r := fun r =>
    List.foldl_ext _ _ r fun r info hinfo => provenanceOf_congr (h info hinfo) r
  have hannotates : ∀ r, infos.foldl (annotates options infos) r =
      infos.foldl (annotates options' infos) r := fun r =>
    List.foldl_ext _ _ r fun r info hinfo => annotates_congr (h info hinfo) r
  have hrevises : ∀ r, infos.foldl (revises options infos) r =
      infos.foldl (revises options' infos) r := fun r =>
    List.foldl_ext _ _ r fun r info hinfo => revises_congr (h info hinfo) r
  simp only [deriveReferences, hinformed, hprovenance, hannotates, hrevises]

end References

/-! ## Record nodes come first -/

section Nodes

variable {H} {options : BuildGraphOptions} {infos : List RecordInfo}

theorem nodes_dangle (r : Referenced) (type : EdgeType) (source id : String) (c : Classified)
    (reference : Reference) : r.nodes <+: (r.dangle type source id c reference).nodes := by
  simp only [Referenced.dangle]
  split
  · exact List.prefix_rfl
  · exact List.prefix_append _ _

theorem nodes_referTo (type : EdgeType) (source : String) (r : Referenced) (ref : String) :
    r.nodes <+: (referTo options infos type source r ref).nodes := by
  unfold referTo
  split
  · exact List.prefix_rfl
  · split
    · exact List.prefix_rfl
    · exact nodes_dangle _ _ _ _ _ _

theorem nodes_foldl {α : Type*} {f : Referenced → α → Referenced}
    (h : ∀ r x, r.nodes <+: (f r x).nodes) (xs : List α) :
    ∀ r, r.nodes <+: (xs.foldl f r).nodes := by
  induction xs with
  | nil => intro r; exact List.prefix_rfl
  | cons x xs ih => intro r; exact (h r x).trans (ih (f r x))

theorem nodes_provenanceOf (r : Referenced) (info : RecordInfo) :
    r.nodes <+: (provenanceOf H options infos r info).nodes := by
  unfold provenanceOf
  split
  · exact List.prefix_rfl
  · split
    · exact List.prefix_rfl
    · split
      · exact List.prefix_rfl
      · exact nodes_dangle _ _ _ _ _ _

theorem nodes_annotates (r : Referenced) (info : RecordInfo) :
    r.nodes <+: (annotates options infos r info).nodes := by
  unfold annotates
  split
  · cases info.record.annotates with
    | none => exact List.prefix_rfl
    | some ref => exact nodes_referTo _ _ r ref
  · exact List.prefix_rfl

theorem nodes_revises (r : Referenced) (info : RecordInfo) :
    r.nodes <+: (revises options infos r info).nodes := by
  unfold revises
  split
  · cases info.record.revises with
    | none => exact List.prefix_rfl
    | some ref => exact nodes_referTo _ _ r ref
  · exact List.prefix_rfl

theorem nodes_deriveReferences (r : Referenced) :
    r.nodes <+: (deriveReferences H options infos r).nodes := by
  have hinformed : ∀ r, r.nodes <+: (infos.foldl (informedBy options infos) r).nodes :=
    nodes_foldl (fun r info => nodes_foldl (nodes_referTo _ _) _ r) infos
  exact (((hinformed r).trans (nodes_foldl nodes_provenanceOf infos _)).trans
    (nodes_foldl nodes_annotates infos _)).trans (nodes_foldl nodes_revises infos _)

/-- The nodes of a graph begin with those of the records, in the order of the sort. -/
theorem recordNodes_prefixes (codec : RecordCodec) (records : List AtribRecord)
    (gapNodes : List GapNode) :
    (recordInfos H codec records).map (recordNode H codec options) <+:
      (buildGraph H codec records gapNodes options).nodes := by
  let nodes := (recordInfos H codec records).map (recordNode H codec options)
  let gaps := if options.includeGapNodes then gapNodes.map (gapGraphNode H) else []
  have hfirst : nodes <+: nodes ++ gaps := List.prefix_append nodes gaps
  exact hfirst.trans (nodes_deriveReferences ⟨nodes ++ gaps, _⟩)

end Nodes

/-! ## Responses -/

section Responses

variable {H codec} {request : GraphRequest} {store store' : RecordStore}

theorem SameFor.sameReferences {record : AtribRecord} (h : SameFor H codec record store store')
    (registry registry' : RevocationRegistry) :
    SameReferences (graphOptions request registry store) (graphOptions request registry' store')
      record where
  references ref href := by
    simp only [classifyRecordReference, graphOptions, h.references ref href]
  provenance token htoken := by
    simp only [classifyProvenanceReference, graphOptions, h.provenance token htoken]

/-- The part of a build that runs without interruption. -/
theorem complete_congr {infos : List RecordInfo}
    (h : ∀ info ∈ infos, SameFor H codec info.record store store')
    (registry registry' : RevocationRegistry) (nodes : List GraphNode) (gapNodes : List GapNode) :
    complete H request registry store infos nodes gapNodes =
      complete H request registry' store' infos nodes gapNodes := by
  have hsame : ∀ info ∈ infos, SameReferences (graphOptions request registry store)
      (graphOptions request registry' store') info.record :=
    fun info hinfo => (h info hinfo).sameReferences registry registry'
  simp only [complete, assembleGraph, deriveReferences_congr hsame]
  rfl

end Responses

end Atrib.GraphNode
