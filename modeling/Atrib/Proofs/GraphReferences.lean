import Atrib.Proofs.GraphReads

/-!
# References as they are drawn

Steps 6 to 9 of the derivation go over the records one reference at a time, and
each reference gives one edge. Its target is a node of the graph or else a
placeholder, which is added unless there is one. So the four steps are one fold
over the list of all that is drawn, and that list depends on nothing the steps
have added.
-/

namespace Atrib.GraphNode

open Verify

/-- What one reference gives: an edge, and the placeholder it points at, if any. -/
structure Drawn where
  edge : GraphEdge
  placeholder : Option GraphNode

def Referenced.place (r : Referenced) (node : GraphNode) : List GraphNode :=
  if r.nodes.any (·.id = node.id) then r.nodes else r.nodes ++ [node]

def Referenced.draw (r : Referenced) (d : Drawn) : Referenced where
  nodes := d.placeholder.elim r.nodes r.place
  edges := r.edges ++ [d.edge]

def drawnLink (type : EdgeType) (source target : String) : Drawn :=
  ⟨⟨type, source, target, true, none⟩, none⟩

def drawnDangle (type : EdgeType) (source id : String) (c : Classified) (reference : Reference) :
    Drawn :=
  ⟨⟨type, source, id, true, some ⟨reference, c.reason⟩⟩, some (referenceNode id c reference)⟩

variable (H : Hash) (options : BuildGraphOptions) (infos : List RecordInfo)

def drawnReference (type : EdgeType) (source ref : String) : Option Drawn :=
  if !hasHashPrefix ref then none
  else
    match nodeIdOfHash infos (afterHashPrefix ref) with
    | some targetId => some (drawnLink type source targetId)
    | none =>
        let c := classifyRecordReference options (afterHashPrefix ref)
        some (drawnDangle type source ("dangling:" ++ ref) c (c.reference (some ref) none))

/-- The record a provenance token is taken to name. -/
def provenanceSource (contextId token : String) : Option RecordInfo :=
  infos.find? fun candidate =>
    candidate.record.contextId ≠ contextId ∧ candidate.token16 = token

/-- The provenance token of a record, if step 7 looks at it. -/
def provenanceTokenOf (record : AtribRecord) : Option String :=
  record.provenanceToken.bind fun token =>
    if token = "" ∨ record.chainRoot ≠ genesisChainRoot H record.contextId then none
    else some token

def drawnProvenance (info : RecordInfo) : Option Drawn :=
  (provenanceTokenOf H info.record).map fun token =>
    match provenanceSource infos info.record.contextId token with
    | some candidate => drawnLink .provenanceOf info.nodeId candidate.nodeId
    | none =>
        let c := classifyProvenanceReference options token info.record.contextId
        drawnDangle .provenanceOf info.nodeId ("dangling:provenance:" ++ token) c
          (c.reference none (some token))

/-- The record that an annotation is about. -/
def annotated (record : AtribRecord) : Option String :=
  if record.eventType = "https://atrib.dev/v1/types/annotation" then record.annotates else none

/-- The record that a revision replaces. -/
def revised (record : AtribRecord) : Option String :=
  if record.eventType = "https://atrib.dev/v1/types/revision" then record.revises else none

/-- The placeholder for a record that is not in the graph. -/
def recordPlaceholder (ref : String) : GraphNode :=
  let c := classifyRecordReference options (afterHashPrefix ref)
  referenceNode ("dangling:" ++ ref) c (c.reference (some ref) none)

/-- The placeholder for a token that no record of the graph has. -/
def tokenPlaceholder (token contextId : String) : GraphNode :=
  let c := classifyProvenanceReference options token contextId
  referenceNode ("dangling:provenance:" ++ token) c (c.reference none (some token))

/-- All that steps 6 to 9 draw, in their order. -/
def drawn : List Drawn :=
  infos.flatMap (fun info => (info.record.informedBy.getD []).filterMap
      (drawnReference options infos .informedBy info.nodeId)) ++
    infos.filterMap (drawnProvenance H options infos) ++
    infos.filterMap (fun info =>
      (annotated info.record).bind (drawnReference options infos .annotates info.nodeId)) ++
    infos.filterMap fun info =>
      (revised info.record).bind (drawnReference options infos .revises info.nodeId)

/-! ## The steps draw -/

section Steps

variable {H options infos}

theorem referTo_eq_draw (type : EdgeType) (source : String) (r : Referenced) (ref : String) :
    referTo options infos type source r ref =
      (drawnReference options infos type source ref).elim r r.draw := by
  unfold referTo drawnReference
  split
  · rfl
  · cases nodeIdOfHash infos (afterHashPrefix ref) <;> rfl

theorem provenanceOf_eq_draw (r : Referenced) (info : RecordInfo) :
    provenanceOf H options infos r info = (drawnProvenance H options infos info).elim r r.draw := by
  unfold provenanceOf drawnProvenance provenanceTokenOf
  cases info.record.provenanceToken with
  | none => rfl
  | some token =>
      rw [Option.bind_some]
      by_cases hskip : token = "" ∨ info.record.chainRoot ≠ genesisChainRoot H info.record.contextId
      · rw [if_pos hskip]
        exact if_pos hskip
      · rw [if_neg hskip, Option.map_some, Option.elim_some]
        simp only [if_neg hskip, provenanceSource]
        cases infos.find? fun candidate =>
          candidate.record.contextId ≠ info.record.contextId ∧ candidate.token16 = token <;> rfl

theorem annotates_eq_draw (r : Referenced) (info : RecordInfo) :
    annotates options infos r info = ((annotated info.record).bind
      (drawnReference options infos .annotates info.nodeId)).elim r r.draw := by
  unfold annotates annotated
  split
  · cases info.record.annotates with
    | none => rfl
    | some ref => exact referTo_eq_draw _ _ r ref
  · rfl

theorem revises_eq_draw (r : Referenced) (info : RecordInfo) :
    revises options infos r info = ((revised info.record).bind
      (drawnReference options infos .revises info.nodeId)).elim r r.draw := by
  unfold revises revised
  split
  · cases info.record.revises with
    | none => rfl
    | some ref => exact referTo_eq_draw _ _ r ref
  · rfl

theorem foldl_draw_filterMap {α : Type*} (f : α → Option Drawn) (xs : List α) (r : Referenced) :
    (xs.filterMap f).foldl Referenced.draw r =
      xs.foldl (fun r x => (f x).elim r r.draw) r := by
  rw [List.foldl_filterMap]
  refine List.foldl_ext _ _ r fun r x _ => ?_
  cases f x <;> rfl

/-- Steps 6 to 9 are one fold. -/
theorem deriveReferences_eq (r : Referenced) :
    deriveReferences H options infos r = (drawn H options infos).foldl Referenced.draw r := by
  have hinformed : informedBy options infos = fun r info =>
      ((info.record.informedBy.getD []).filterMap
        (drawnReference options infos .informedBy info.nodeId)).foldl Referenced.draw r := by
    funext r info
    rw [foldl_draw_filterMap]
    exact List.foldl_ext _ _ r fun r ref _ => referTo_eq_draw _ _ r ref
  have hprovenance : provenanceOf H options infos = fun r info =>
      (drawnProvenance H options infos info).elim r r.draw := by
    funext r info
    exact provenanceOf_eq_draw r info
  have hannotates : annotates options infos = fun r info => ((annotated info.record).bind
      (drawnReference options infos .annotates info.nodeId)).elim r r.draw := by
    funext r info
    exact annotates_eq_draw r info
  have hrevises : revises options infos = fun r info => ((revised info.record).bind
      (drawnReference options infos .revises info.nodeId)).elim r r.draw := by
    funext r info
    exact revises_eq_draw r info
  simp only [deriveReferences, drawn, List.foldl_append, List.foldl_flatMap, foldl_draw_filterMap,
    hinformed, hprovenance, hannotates, hrevises]

end Steps

/-! ## What has been drawn -/

theorem edges_foldl_draw (ds : List Drawn) (r : Referenced) :
    (ds.foldl Referenced.draw r).edges = r.edges ++ ds.map (·.edge) := by
  induction ds generalizing r with
  | nil => exact (List.append_nil _).symm
  | cons d ds ih =>
      rw [List.foldl_cons, ih, List.map_cons]
      exact List.append_assoc _ _ _

/-- The first placeholder of an id is added, unless there was a node of this id. -/
theorem mem_nodes_foldl_draw {node : GraphNode} (ds : List Drawn) (r : Referenced) :
    node ∈ (ds.foldl Referenced.draw r).nodes ↔
      node ∈ r.nodes ∨ (∀ n ∈ r.nodes, n.id ≠ node.id) ∧
        (ds.filterMap (·.placeholder)).find? (·.id = node.id) = some node := by
  induction ds generalizing r with
  | nil => simp
  | cons d ds ih =>
      rw [List.foldl_cons, ih]
      cases hd : d.placeholder with
      | none =>
          rw [List.filterMap_cons_none hd]
          simp [Referenced.draw, hd]
      | some p =>
          rw [List.filterMap_cons_some hd]
          simp only [Referenced.draw, hd, Option.elim_some, Referenced.place]
          by_cases hany : r.nodes.any (·.id = p.id) = true
          · rw [if_pos hany]
            obtain ⟨n, hn, hid⟩ := List.any_eq_true.1 hany
            rw [decide_eq_true_eq] at hid
            by_cases hp : p.id = node.id
            · have hthere : ¬ ∀ n ∈ r.nodes, n.id ≠ node.id := fun h => h n hn (hid.trans hp)
              simp only [hthere, false_and]
            · rw [List.find?_cons_of_neg (by simpa using hp)]
          · rw [if_neg hany]
            have hnot : ∀ n ∈ r.nodes, n.id ≠ p.id := by simpa using hany
            by_cases hp : p.id = node.id
            · rw [List.find?_cons_of_pos (by simpa using hp)]
              have hnot' : ∀ n ∈ r.nodes, n.id ≠ node.id := fun n hn => hp ▸ hnot n hn
              have hthere : ¬ ∀ n ∈ r.nodes ++ [p], n.id ≠ node.id := fun h =>
                h p (List.mem_append_right _ (List.mem_singleton_self p)) hp
              rw [List.mem_append, List.mem_singleton, or_iff_left (fun h => hthere h.1),
                and_iff_right hnot', Option.some.injEq, eq_comm (a := p)]
            · rw [List.find?_cons_of_neg (by simpa using hp)]
              have hne : node ≠ p := fun heq => hp (heq ▸ rfl)
              have hall : (∀ n ∈ r.nodes ++ [p], n.id ≠ node.id) ↔ ∀ n ∈ r.nodes, n.id ≠ node.id := by
                rw [List.forall_mem_append, List.forall_mem_singleton, and_iff_left hp]
              rw [hall, List.mem_append, List.mem_singleton, or_iff_left hne]

/-- A node is one of those there were or a placeholder. -/
theorem mem_nodes_drawn {node : GraphNode} {ds : List Drawn} {r : Referenced}
    (h : node ∈ (ds.foldl Referenced.draw r).nodes) :
    node ∈ r.nodes ∨ ∃ d ∈ ds, d.placeholder = some node := by
  rcases (mem_nodes_foldl_draw ds r).1 h with hold | hnew
  · exact Or.inl hold
  · exact Or.inr (List.mem_filterMap.1 (List.mem_of_find?_eq_some hnew.2))

/-! ## Kinds of nodes -/

section Kinds

variable {H options infos}

theorem placeholder_drawnReference {type : EdgeType} {source ref : String} {d : Drawn}
    {node : GraphNode} (hd : drawnReference options infos type source ref = some d)
    (hnode : d.placeholder = some node) :
    hasHashPrefix ref = true ∧ node = recordPlaceholder options ref := by
  unfold drawnReference at hd
  split at hd
  · cases hd
  · next href =>
      refine ⟨by simpa using href, ?_⟩
      cases htarget : nodeIdOfHash infos (afterHashPrefix ref) with
      | some target =>
          rw [htarget] at hd
          cases hd
          cases hnode
      | none =>
          rw [htarget] at hd
          cases hd
          cases hnode
          rfl

theorem placeholder_drawnProvenance {info : RecordInfo} {d : Drawn} {node : GraphNode}
    (hd : drawnProvenance H options infos info = some d) (hnode : d.placeholder = some node) :
    ∃ token, provenanceTokenOf H info.record = some token ∧
      provenanceSource infos info.record.contextId token = none ∧
      node = tokenPlaceholder options token info.record.contextId := by
  obtain ⟨token, htoken, rfl⟩ := Option.map_eq_some_iff.1 hd
  refine ⟨token, htoken, ?_⟩
  cases hsource : provenanceSource infos info.record.contextId token with
  | some candidate =>
      rw [hsource] at hnode
      cases hnode
  | none =>
      rw [hsource] at hnode
      cases hnode
      exact ⟨rfl, rfl⟩

/-- A placeholder stands for a record hash or for a provenance token. -/
theorem placeholder_cases {d : Drawn} {node : GraphNode} (hd : d ∈ drawn H options infos)
    (hnode : d.placeholder = some node) :
    (∃ ref, hasHashPrefix ref = true ∧ node = recordPlaceholder options ref) ∨
      ∃ info ∈ infos, ∃ token, provenanceTokenOf H info.record = some token ∧
        provenanceSource infos info.record.contextId token = none ∧
        node = tokenPlaceholder options token info.record.contextId := by
  simp only [drawn, List.mem_append, List.mem_flatMap, List.mem_filterMap,
    Option.bind_eq_some_iff] at hd
  obtain ((⟨_, _, ref, _, href⟩ | ⟨info, hinfo, htoken⟩) | ⟨_, _, ref, _, href⟩) |
    ⟨_, _, ref, _, href⟩ := hd
  · exact Or.inl ⟨ref, placeholder_drawnReference href hnode⟩
  · exact Or.inr ⟨info, hinfo, placeholder_drawnProvenance htoken hnode⟩
  · exact Or.inl ⟨ref, placeholder_drawnReference href hnode⟩
  · exact Or.inl ⟨ref, placeholder_drawnReference href hnode⟩

/-- A node stands for a record or a gap call, or it is a placeholder. -/
theorem mem_nodes_buildGraph {codec : RecordCodec} {records : List AtribRecord}
    {gapNodes : List GapNode} {node : GraphNode}
    (h : node ∈ (buildGraph H codec records gapNodes options).nodes) :
    (∃ record ∈ records, node = recordNode H codec options (recordInfo H codec record)) ∨
      (∃ gap ∈ gapNodes, node = gapGraphNode H gap) ∨
      ∃ d ∈ drawn H options (recordInfos H codec records), d.placeholder = some node := by
  change node ∈ (deriveReferences H options (recordInfos H codec records) _).nodes at h
  rw [deriveReferences_eq] at h
  rcases mem_nodes_drawn h with hnode | hdrawn
  · rcases List.mem_append.1 hnode with hrecord | hgap
    · obtain ⟨info, hinfo, rfl⟩ := List.mem_map.1 hrecord
      obtain ⟨hrecord, hinfo⟩ := exists_record_of_mem hinfo
      exact Or.inl ⟨info.record, hrecord, hinfo ▸ rfl⟩
    · refine Or.inr (Or.inl ?_)
      split at hgap
      · obtain ⟨gap, hmem, rfl⟩ := List.mem_map.1 hgap
        exact ⟨gap, hmem, rfl⟩
      · cases hgap
  · exact Or.inr (Or.inr hdrawn)

/-- The first character of an id tells the kind of its node. -/
theorem head?_append {start : String} {c : Char} (h : start.toList.head? = some c)
    (more : String) : (start ++ more).toList.head? = some c := by
  rw [String.toList_append, List.head?_append, h]
  rfl

theorem recordNode_id (codec : RecordCodec) (info : RecordInfo) :
    (recordNode H codec options info).id = info.nodeId := by
  rw [recordNode]
  cases options.revocations <;> rfl

theorem head?_recordNode (codec : RecordCodec) (record : AtribRecord) :
    (recordNode H codec options (recordInfo H codec record)).id.toList.head? = some 's' := by
  rw [recordNode_id]
  exact head?_append (show "sha256:".toList.head? = some 's' from rfl) _

theorem head?_gapGraphNode (gap : GapNode) :
    (gapGraphNode H gap).id.toList.head? = some 'g' :=
  head?_append rfl _

theorem head?_recordPlaceholder (ref : String) :
    (recordPlaceholder options ref).id.toList.head? = some 'd' :=
  head?_append rfl _

theorem head?_tokenPlaceholder (token contextId : String) :
    (tokenPlaceholder options token contextId).id.toList.head? = some 'd' :=
  head?_append rfl _

theorem head?_placeholder {d : Drawn} {node : GraphNode} (hd : d ∈ drawn H options infos)
    (hnode : d.placeholder = some node) : node.id.toList.head? = some 'd' := by
  rcases placeholder_cases hd hnode with ⟨ref, -, rfl⟩ | ⟨info, -, token, -, -, rfl⟩
  · exact head?_recordPlaceholder ref
  · exact head?_tokenPlaceholder token _

theorem recordPlaceholder_id_inj {options' : BuildGraphOptions} {ref ref' : String}
    (h : (recordPlaceholder options ref).id = (recordPlaceholder options' ref').id) :
    ref = ref' := (String.append_right_inj _).1 h

theorem tokenPlaceholder_id_inj {options' : BuildGraphOptions}
    {token token' contextId contextId' : String}
    (h : (tokenPlaceholder options token contextId).id =
      (tokenPlaceholder options' token' contextId').id) : token = token' :=
  (String.append_right_inj _).1 h

/-- No hash begins as a token does. -/
theorem recordPlaceholder_id_ne {options' : BuildGraphOptions} {ref token contextId : String}
    (href : hasHashPrefix ref = true) :
    (recordPlaceholder options ref).id ≠ (tokenPlaceholder options' token contextId).id := by
  intro heq
  rw [hasHashPrefix, List.isPrefixOf_iff_prefix] at href
  obtain ⟨more, hmore⟩ := href
  have hlists : ("dangling:" ++ ref).toList = ("dangling:provenance:" ++ token).toList :=
    congrArg String.toList heq
  rw [String.toList_append, String.toList_append, ← hmore] at hlists
  have hten : some 's' = some 'p' := congrArg (·[9]?) hlists
  cases hten

end Kinds

end Atrib.GraphNode
