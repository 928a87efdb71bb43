import Atrib.Integration.GraphBuilder
import Atrib.Lib.Grouping
import Atrib.Lib.Scans
import Atrib.Proofs.GraphReads
import Atrib.Proofs.GraphReferences

/-!
# The edges of the graph service

Which pairs of records the first five steps of the graph service join, for each
type of edge, where no two records have one hash. Steps 1 to 3 are loops that go
by what the steps before them have drawn; what they draw in the end is said of a
pair of records alone.
-/

namespace Atrib

open Verify

/-- Some edge of a type joins two nodes, in its direction if it has one. -/
def Joins (edges : List GraphEdge) (type : EdgeType) (a b : String) : Prop :=
  ∃ e ∈ edges, e.type = type ∧
    (e.source = a ∧ e.target = b ∨ type = .sessionParallel ∧ e.source = b ∧ e.target = a)

theorem joins_append {l l' : List GraphEdge} {type : EdgeType} {a b : String} :
    Joins (l ++ l') type a b ↔ Joins l type a b ∨ Joins l' type a b := by
  simp only [Joins, List.mem_append, or_and_right, exists_or]

theorem not_joins {l : List GraphEdge} {type : EdgeType} (h : ∀ e ∈ l, e.type ≠ type)
    (a b : String) : ¬Joins l type a b := fun ⟨e, he, htype, _⟩ => h e he htype

theorem joins_directed {edges : List GraphEdge} {type : EdgeType} (h : type ≠ .sessionParallel)
    {a b : String} :
    Joins edges type a b ↔ ∃ e ∈ edges, e.type = type ∧ e.source = a ∧ e.target = b := by
  simp only [Joins, h, false_and, or_false]

theorem joins_flatMap {α : Type} {l : List α} {f : α → List GraphEdge} {type : EdgeType}
    {a b : String} : Joins (l.flatMap f) type a b ↔ ∃ x ∈ l, Joins (f x) type a b := by
  simp only [Joins, List.mem_flatMap]
  constructor
  · rintro ⟨e, ⟨x, hx, he⟩, h⟩
    exact ⟨x, hx, e, he, h⟩
  · rintro ⟨x, hx, e, he, h⟩
    exact ⟨e, ⟨x, hx, he⟩, h⟩

theorem joins_singleton {e : GraphEdge} {type : EdgeType} {a b : String} :
    Joins [e] type a b ↔ e.type = type ∧
      (e.source = a ∧ e.target = b ∨ type = .sessionParallel ∧ e.source = b ∧ e.target = a) := by
  simp only [Joins, List.mem_singleton, exists_eq_left]

@[simp] theorem not_joins_nil (type : EdgeType) (a b : String) : ¬Joins [] type a b :=
  not_joins (fun _ he => absurd he List.not_mem_nil) a b

end Atrib

namespace Atrib.GraphNode

open Lib (InsertionMap find?_key_map_eq_some foldl_appends groupStep membersOf get?_grouped)
open Verify

theorem mem_orderedPairs {α : Type*} {xs : List α} (h : xs.Nodup) {a b : α} :
    (a, b) ∈ orderedPairs xs ∨ (b, a) ∈ orderedPairs xs ↔ a ∈ xs ∧ b ∈ xs ∧ a ≠ b := by
  induction xs with
  | nil => simp [orderedPairs]
  | cons x xs ih =>
      obtain ⟨hx, hxs⟩ := List.nodup_cons.1 h
      have hboth := ih hxs
      simp only [orderedPairs, List.mem_append, List.mem_map, Prod.mk.injEq, exists_eq_right_right,
        List.mem_cons]
      constructor
      · rintro ((⟨hb, rfl⟩ | hpair) | (⟨ha, rfl⟩ | hpair))
        · exact ⟨.inl rfl, .inr hb, fun heq => hx (heq ▸ hb)⟩
        · obtain ⟨ha, hb, hne⟩ := hboth.1 (.inl hpair)
          exact ⟨.inr ha, .inr hb, hne⟩
        · exact ⟨.inr ha, .inl rfl, fun heq => hx (heq ▸ ha)⟩
        · obtain ⟨ha, hb, hne⟩ := hboth.1 (.inr hpair)
          exact ⟨.inr ha, .inr hb, hne⟩
      · rintro ⟨rfl | ha, rfl | hb, hne⟩
        · exact absurd rfl hne
        · exact .inl (.inl ⟨hb, rfl⟩)
        · exact .inr (.inl ⟨ha, rfl⟩)
        · exact (hboth.2 ⟨ha, hb, hne⟩).imp .inr .inr

/-! ## The nodes of a context -/

theorem get?_groupByContextId (nodes : List GraphNode) (c : String) :
    (groupByContextId nodes).get? c =
      if nodes.filter (·.contextId = c) = [] then none
      else some (nodes.filter (·.contextId = c)) := by
  have hfold : ∀ l start : List GraphNode, l.foldl (fun found node => found ++ [node]) start =
      start ++ l := by
    intro l
    induction l with
    | nil => exact fun start => (List.append_nil start).symm
    | cons node l ih =>
        intro start
        rw [List.foldl_cons, ih, List.append_assoc]
        rfl
  have hmembers : membersOf (fun node : GraphNode => some node.contextId) nodes c =
      nodes.filter (·.contextId = c) := by
    simp only [membersOf, Option.some.injEq]
  have h := get?_grouped (fun node : GraphNode => some node.contextId) []
    (fun found node => found ++ [node]) nodes c
  rw [hmembers, hfold, List.nil_append] at h
  exact h

theorem mem_values_groupByContextId {nodes group : List GraphNode} :
    group ∈ (groupByContextId nodes).values ↔
      ∃ c, group = nodes.filter (·.contextId = c) ∧ group ≠ [] := by
  rw [InsertionMap.values, List.mem_map]
  constructor
  · rintro ⟨⟨c, group⟩, hentry, rfl⟩
    have h := InsertionMap.get?_of_mem hentry
    rw [get?_groupByContextId] at h
    split at h
    · cases h
    · next hne =>
        obtain rfl := Option.some.inj h
        exact ⟨c, rfl, hne⟩
  · rintro ⟨c, rfl, hne⟩
    refine ⟨(c, _), InsertionMap.get?_mem ?_, rfl⟩
    rw [get?_groupByContextId, if_neg hne]

/-- The pairs that steps 2 and 3 go through. -/
def contextPairs (nodes : List GraphNode) : List (GraphNode × GraphNode) :=
  (groupByContextId nodes).values.flatMap orderedPairs

theorem mem_contextPairs {nodes : List GraphNode} (h : nodes.Nodup) {a b : GraphNode} :
    (a, b) ∈ contextPairs nodes ∨ (b, a) ∈ contextPairs nodes ↔
      a ∈ nodes ∧ b ∈ nodes ∧ a ≠ b ∧ a.contextId = b.contextId := by
  simp only [contextPairs, List.mem_flatMap, ← exists_or, ← and_or_left]
  constructor
  · rintro ⟨group, hgroup, hpair⟩
    obtain ⟨c, rfl, -⟩ := mem_values_groupByContextId.1 hgroup
    obtain ⟨ha, hb, hne⟩ := (mem_orderedPairs (h.filter _)).1 hpair
    obtain ⟨ha, hac⟩ := List.mem_filter.1 ha
    obtain ⟨hb, hbc⟩ := List.mem_filter.1 hb
    exact ⟨ha, hb, hne, (of_decide_eq_true hac).trans (of_decide_eq_true hbc).symm⟩
  · rintro ⟨ha, hb, hne, hab⟩
    have ha' : a ∈ nodes.filter (·.contextId = a.contextId) :=
      List.mem_filter.2 ⟨ha, decide_eq_true rfl⟩
    have hb' : b ∈ nodes.filter (·.contextId = a.contextId) :=
      List.mem_filter.2 ⟨hb, decide_eq_true hab.symm⟩
    exact ⟨_, mem_values_groupByContextId.2 ⟨a.contextId, rfl, List.ne_nil_of_mem ha'⟩,
      (mem_orderedPairs (h.filter _)).2 ⟨ha', hb', hne⟩⟩

/-! ## Steps 1 to 3 of the service -/

/-- The two orders of what an edge joins. -/
def bothOrders (e : GraphEdge) : List (String × String) :=
  [(e.source, e.target), (e.target, e.source)]

theorem contains_bothOrders {edges : List GraphEdge} {a b : String} :
    (edges.flatMap bothOrders).contains (a, b) = true ↔
      ∃ e ∈ edges, e.source = a ∧ e.target = b ∨ e.source = b ∧ e.target = a := by
  simp only [List.contains_iff_mem, List.mem_flatMap, bothOrders, List.mem_cons, Prod.mk.injEq,
    List.not_mem_nil, or_false]
  refine exists_congr fun e => and_congr_right fun _ => or_congr ?_ ?_
  · rw [eq_comm, eq_comm (a := b)]
  · rw [eq_comm, eq_comm (a := b), and_comm]

/-- Do the pairs name these two, in either order? -/
def related (pairs : List (String × String)) (a b : String) : Bool :=
  pairs.contains (a, b) || pairs.contains (b, a)

theorem related_bothOrders {edges : List GraphEdge} {a b : String} :
    related (edges.flatMap bothOrders) a b = true ↔
      ∃ e ∈ edges, e.source = a ∧ e.target = b ∨ e.source = b ∧ e.target = a := by
  rw [related, Bool.or_eq_true, contains_bothOrders, contains_bothOrders, or_iff_left_of_imp]
  rintro ⟨e, he, h⟩
  exact ⟨e, he, h.symm⟩

/-- What step 1 draws for a node. -/
def chainEdges (infos : List RecordInfo) (node : GraphNode) : List GraphEdge :=
  if node.isGenesis || node.eventType = .gapNode then []
  else
    match (node.chainRoot.filter (· ≠ "")).bind fun root =>
        nodeIdOfHash infos (withoutHashPrefix root) with
    | none => []
    | some parentId => [⟨.chainPrecedes, parentId, node.id, true, none⟩]

/-- What step 2 draws for a pair. -/
def precedesEdges (pairs : List (String × String)) (pair : GraphNode × GraphNode) :
    List GraphEdge :=
  if related pairs pair.1.id pair.2.id then []
  else if pair.1.timestamp < pair.2.timestamp then
    [⟨.sessionPrecedes, pair.1.id, pair.2.id, true, none⟩]
  else if pair.2.timestamp < pair.1.timestamp then
    [⟨.sessionPrecedes, pair.2.id, pair.1.id, true, none⟩]
  else []

/-- What step 3 draws for a pair. -/
def parallelEdges (pairs : List (String × String) × List (String × String))
    (pair : GraphNode × GraphNode) : List GraphEdge :=
  if related pairs.1 pair.1.id pair.2.id || related pairs.2 pair.1.id pair.2.id then []
  else [⟨.sessionParallel, pair.1.id, pair.2.id, false, none⟩]

theorem chainPrecedes_eq (infos : List RecordInfo) (d : Derivation) (node : GraphNode) :
    chainPrecedes infos false d node =
      { d with
        edges := d.edges ++ chainEdges infos node
        chainPrecedesPairs := d.chainPrecedesPairs ++ (chainEdges infos node).flatMap bothOrders } := by
  unfold chainPrecedes chainEdges
  split
  · simp
  · cases node.chainRoot.filter (· ≠ "") with
    | none => simp
    | some root =>
        simp only [Option.bind_some]
        cases nodeIdOfHash infos (withoutHashPrefix root) with
        | none => simp
        | some parentId => simp [bothOrders]

theorem sessionPrecedesFull_eq (d : Derivation) (pair : GraphNode × GraphNode) :
    sessionPrecedesFull d pair =
      { d with
        edges := d.edges ++ precedesEdges d.chainPrecedesPairs pair
        sessionPrecedesPairs := d.sessionPrecedesPairs ++
          (precedesEdges d.chainPrecedesPairs pair).flatMap bothOrders } := by
  unfold sessionPrecedesFull precedesEdges
  change (if related d.chainPrecedesPairs pair.1.id pair.2.id then d else _) = _
  split
  · simp
  · split
    · simp [Derivation.precede, bothOrders]
    · split
      · simp [Derivation.precede, bothOrders]
      · simp

theorem sessionParallelPair_eq (d : Derivation) (pair : GraphNode × GraphNode) :
    sessionParallelPair false d pair =
      { d with
        edges := d.edges ++ parallelEdges (d.chainPrecedesPairs, d.sessionPrecedesPairs) pair } := by
  unfold sessionParallelPair parallelEdges
  change (if related d.chainPrecedesPairs pair.1.id pair.2.id ||
    related d.sessionPrecedesPairs pair.1.id pair.2.id then d else _) = _
  split
  · simp
  · rfl

/-- The three steps one after the other. -/
def chainDrawn (infos : List RecordInfo) (nodes : List GraphNode) : List GraphEdge :=
  nodes.flatMap (chainEdges infos)

def precedesDrawn (infos : List RecordInfo) (nodes : List GraphNode) : List GraphEdge :=
  (contextPairs nodes).flatMap (precedesEdges ((chainDrawn infos nodes).flatMap bothOrders))

def parallelDrawn (infos : List RecordInfo) (nodes : List GraphNode) : List GraphEdge :=
  (contextPairs nodes).flatMap (parallelEdges ((chainDrawn infos nodes).flatMap bothOrders,
    (precedesDrawn infos nodes).flatMap bothOrders))

/-- The edges of the service are those that the steps draw. -/
theorem deriveEdges_eq (infos : List RecordInfo) (nodes : List GraphNode) :
    deriveEdges {} infos nodes = chainDrawn infos nodes ++ precedesDrawn infos nodes ++
      parallelDrawn infos nodes ++ (groupByContextId nodes).values.flatMap convergesOn ++
        crossSession infos nodes := by
  -- each loop appends to the edges and, but for the last, to the pairs that it goes by
  have hchain := fun d : Derivation => foldl_appends (chainPrecedes infos false)
    (fun d => (d.sessionPrecedesPairs, d.chainParent)) Derivation.edges
    (fun _ => chainEdges infos) (fun d node => by rw [chainPrecedes_eq])
    (fun d node => by rw [chainPrecedes_eq]) nodes d
  have hchainPairs := fun d : Derivation => foldl_appends (chainPrecedes infos false)
    (fun _ => ()) Derivation.chainPrecedesPairs
    (fun _ node => (chainEdges infos node).flatMap bothOrders) (fun _ _ => rfl)
    (fun d node => by rw [chainPrecedes_eq]) nodes d
  have hprecedes := fun d : Derivation => foldl_appends sessionPrecedesFull
    Derivation.chainPrecedesPairs Derivation.edges precedesEdges
    (fun d pair => by rw [sessionPrecedesFull_eq]) (fun d pair => by rw [sessionPrecedesFull_eq])
    (contextPairs nodes) d
  have hprecedesPairs := fun d : Derivation => foldl_appends sessionPrecedesFull
    Derivation.chainPrecedesPairs Derivation.sessionPrecedesPairs
    (fun pairs pair => (precedesEdges pairs pair).flatMap bothOrders)
    (fun d pair => by rw [sessionPrecedesFull_eq]) (fun d pair => by rw [sessionPrecedesFull_eq])
    (contextPairs nodes) d
  have hparallel := fun d : Derivation => foldl_appends (sessionParallelPair false)
    (fun d => (d.chainPrecedesPairs, d.sessionPrecedesPairs)) Derivation.edges
    parallelEdges (fun d pair => by rw [sessionParallelPair_eq])
    (fun d pair => by rw [sessionParallelPair_eq]) (contextPairs nodes) d
  have hprecedesLoop : ∀ d, (groupByContextId nodes).values.foldl (sessionPrecedes false) d =
      (contextPairs nodes).foldl sessionPrecedesFull d := fun d => by
    rw [contextPairs, List.foldl_flatMap]
    rfl
  have hparallelLoop : ∀ d, (groupByContextId nodes).values.foldl (sessionParallel false) d =
      (contextPairs nodes).foldl (sessionParallelPair false) d := fun d => by
    rw [contextPairs, List.foldl_flatMap]
    rfl
  simp only [deriveEdges, if_true, hprecedesLoop, hparallelLoop, (hparallel _).2, (hprecedes _).1,
    (hprecedes _).2, (hprecedesPairs _).2, (hchain _).2, (hchainPairs _).2]
  have hnone : (nodes.foldl (chainPrecedes infos false) {}).sessionPrecedesPairs = [] :=
    congrArg Prod.fst (hchain {}).1
  simp only [hnone, List.nil_append, chainDrawn, precedesDrawn, parallelDrawn, List.flatMap_assoc]

/-! ## Records and their nodes -/

open Integration (recordHashHex recordId toolCallUri transactionUri)

variable {H : Hash} {codec : RecordCodec} {records : List AtribRecord}

def nodeOf (H : Hash) (codec : RecordCodec) (record : AtribRecord) : GraphNode :=
  recordNode H codec {} (recordInfo H codec record)

/-- The nodes of the service, in its order. -/
def nodesOf (H : Hash) (codec : RecordCodec) (records : List AtribRecord) : List GraphNode :=
  (recordInfos H codec records).map (recordNode H codec {})

theorem mem_recordInfos {info : RecordInfo} :
    info ∈ recordInfos H codec records ↔ ∃ r ∈ records, recordInfo H codec r = info := by
  rw [recordInfos, List.mem_mergeSort, List.mem_map]

theorem mem_nodesOf {node : GraphNode} :
    node ∈ nodesOf H codec records ↔ ∃ r ∈ records, nodeOf H codec r = node := by
  simp only [nodesOf, List.mem_map, mem_recordInfos]
  constructor
  · rintro ⟨_, ⟨r, hr, rfl⟩, rfl⟩
    exact ⟨r, hr, rfl⟩
  · rintro ⟨r, hr, rfl⟩
    exact ⟨_, ⟨r, hr, rfl⟩, rfl⟩

/-- No two records have one id. -/
def Distinct (H : Hash) (codec : RecordCodec) (records : List AtribRecord) : Prop :=
  (records.map (recordId H codec)).Nodup

theorem Distinct.inj (h : Distinct H codec records) {r r' : AtribRecord} (hr : r ∈ records)
    (hr' : r' ∈ records) (hid : recordId H codec r = recordId H codec r') : r = r' :=
  List.inj_on_of_nodup_map h hr hr' hid

theorem Distinct.nodup_nodesOf (h : Distinct H codec records) :
    (nodesOf H codec records).Nodup := by
  have hperm : ((nodesOf H codec records).map (·.id)).Perm (records.map (recordId H codec)) := by
    rw [nodesOf, List.map_map]
    exact (List.Perm.map _ (List.mergeSort_perm _ _)).trans (by rw [List.map_map]; rfl)
  exact List.Nodup.of_map _ (hperm.nodup_iff.2 h)

theorem label_transaction {uri : String} :
    graphLabelFromEventTypeUri uri = .transaction ↔ uri = transactionUri := by
  unfold graphLabelFromEventTypeUri transactionUri
  constructor
  · intro h
    split at h <;> first | rfl | cases h
  · rintro rfl
    rfl

theorem label_toolCall {uri : String} :
    graphLabelFromEventTypeUri uri = .toolCall ↔ uri = toolCallUri := by
  unfold graphLabelFromEventTypeUri toolCallUri
  constructor
  · intro h
    split at h <;> first | rfl | cases h
  · rintro rfl
    rfl

theorem label_ne_gapNode (uri : String) : graphLabelFromEventTypeUri uri ≠ .gapNode := by
  unfold graphLabelFromEventTypeUri
  split <;> exact nofun

theorem nodeIdOfHash_eq_some {hash id : String} :
    nodeIdOfHash (recordInfos H codec records) hash = some id ↔
      ∃ p ∈ records, recordHashHex H codec p = hash ∧ recordId H codec p = id := by
  have hvalue : ∀ info ∈ recordInfos H codec records, ∀ info' ∈ recordInfos H codec records,
      info.hash = info'.hash → info.nodeId = info'.nodeId := by
    intro info hinfo info' hinfo' hhash
    obtain ⟨p, -, rfl⟩ := mem_recordInfos.1 hinfo
    obtain ⟨p', -, rfl⟩ := mem_recordInfos.1 hinfo'
    exact congrArg ("sha256:" ++ ·) hhash
  rw [nodeIdOfHash, find?_key_map_eq_some hvalue]
  constructor
  · rintro ⟨info, hinfo, rfl, rfl⟩
    obtain ⟨p, hp, rfl⟩ := mem_recordInfos.1 hinfo
    exact ⟨p, hp, rfl, rfl⟩
  · rintro ⟨p, hp, rfl, rfl⟩
    exact ⟨recordInfo H codec p, mem_recordInfos.2 ⟨p, hp, rfl⟩, rfl, rfl⟩

theorem infoByNodeId_of_mem (h : Distinct H codec records) {r : AtribRecord} (hr : r ∈ records) :
    infoByNodeId (recordInfos H codec records) (recordId H codec r) =
      some (recordInfo H codec r) := by
  have hvalue : ∀ info ∈ (recordInfos H codec records).reverse,
      ∀ info' ∈ (recordInfos H codec records).reverse, info.nodeId = info'.nodeId →
        id info = id info' := by
    intro info hinfo info' hinfo' hid
    obtain ⟨p, hp, rfl⟩ := mem_recordInfos.1 (List.mem_reverse.1 hinfo)
    obtain ⟨p', hp', rfl⟩ := mem_recordInfos.1 (List.mem_reverse.1 hinfo')
    rw [h.inj hp hp' hid]
  rw [infoByNodeId, ← Option.map_id_apply (x := List.find? _ _), find?_key_map_eq_some hvalue]
  exact ⟨recordInfo H codec r, List.mem_reverse.2 (mem_recordInfos.2 ⟨r, hr, rfl⟩), rfl, rfl⟩

/-! ## What joins two records -/

/-- The chain root of `t` names `p`, as the service reads it. -/
def IsParent (H : Hash) (codec : RecordCodec) (p t : AtribRecord) : Prop :=
  t.chainRoot ≠ "" ∧ t.chainRoot ≠ genesisChainRoot H t.contextId ∧
    withoutHashPrefix t.chainRoot = recordHashHex H codec p

/-- Records of one session in order of time, where the chain does not join them. -/
def Precedes (parent : AtribRecord → AtribRecord → Prop) (p t : AtribRecord) : Prop :=
  p.contextId = t.contextId ∧ ¬(parent p t ∨ parent t p) ∧ p.timestamp < t.timestamp

/-- Records of one session at one time, where the chain does not join them. -/
def Parallel (parent : AtribRecord → AtribRecord → Prop) (p t : AtribRecord) : Prop :=
  p.contextId = t.contextId ∧ p ≠ t ∧ ¬(parent p t ∨ parent t p) ∧ p.timestamp = t.timestamp

/-- A tool call with the session token of a transaction of another session. -/
def CrossSession (p t : AtribRecord) : Prop :=
  p.contextId ≠ t.contextId ∧ p.eventType = toolCallUri ∧ t.eventType = transactionUri ∧
    ∃ token, token ≠ "" ∧ t.sessionToken = some token ∧ p.sessionToken = some token

/-- What the service joins by an edge of a type. -/
def Draws (H : Hash) (codec : RecordCodec) : EdgeType → AtribRecord → AtribRecord → Prop
  | .chainPrecedes => IsParent H codec
  | .sessionPrecedes => Precedes (IsParent H codec)
  | .sessionParallel => Parallel (IsParent H codec)
  | .convergesOn => fun p t =>
      p.contextId = t.contextId ∧ p.eventType = toolCallUri ∧ t.eventType = transactionUri
  | .crossSession => CrossSession
  | _ => fun _ _ => False

/-! ## What the service joins -/

theorem isGenesis_nodeOf {record : AtribRecord} : (nodeOf H codec record).isGenesis = true ↔
    record.chainRoot = genesisChainRoot H record.contextId := by
  change (hasHashPrefix record.chainRoot &&
    record.chainRoot == genesisChainRoot H record.contextId) = true ↔ _
  rw [Bool.and_eq_true, beq_iff_eq]
  constructor
  · exact And.right
  · intro h
    refine ⟨?_, h⟩
    rw [h, hasHashPrefix, genesisChainRoot, String.toList_append]
    exact List.isPrefixOf_iff_prefix.2 (List.prefix_append _ _)

theorem mem_chainEdges {t : AtribRecord} {e : GraphEdge} :
    e ∈ chainEdges (recordInfos H codec records) (nodeOf H codec t) ↔ ∃ p ∈ records,
      IsParent H codec p t ∧
        e = ⟨.chainPrecedes, recordId H codec p, recordId H codec t, true, none⟩ := by
  have hlabel : (nodeOf H codec t).eventType ≠ .gapNode := label_ne_gapNode _
  unfold chainEdges IsParent
  by_cases hgenesis : t.chainRoot = genesisChainRoot H t.contextId
  · rw [isGenesis_nodeOf.2 hgenesis]
    exact iff_of_false List.not_mem_nil fun ⟨_, _, ⟨_, hnot, _⟩, _⟩ => hnot hgenesis
  have hskip : ¬((nodeOf H codec t).isGenesis || (nodeOf H codec t).eventType = .gapNode) = true := by
    rw [Bool.or_eq_true, isGenesis_nodeOf, decide_eq_true_eq]
    exact not_or.2 ⟨hgenesis, hlabel⟩
  rw [if_neg hskip]
  by_cases hempty : t.chainRoot = ""
  · have hnone : (nodeOf H codec t).chainRoot.filter (· ≠ "") = none :=
      Option.filter_eq_none_iff.2 fun root hroot => by
        obtain rfl : t.chainRoot = root := Option.some.inj hroot
        simpa using hempty
    rw [hnone]
    exact iff_of_false List.not_mem_nil fun ⟨_, _, ⟨hne, _⟩, _⟩ => hne hempty
  have hsome : (nodeOf H codec t).chainRoot.filter (· ≠ "") = some t.chainRoot :=
    Option.filter_eq_some_iff.2 ⟨rfl, by simpa using hempty⟩
  rw [hsome, Option.bind_some]
  cases hfound : nodeIdOfHash (recordInfos H codec records) (withoutHashPrefix t.chainRoot) with
  | none =>
      refine iff_of_false List.not_mem_nil fun ⟨p, hp, ⟨_, _, hhash⟩, _⟩ => ?_
      have := nodeIdOfHash_eq_some.2 ⟨p, hp, hhash.symm, rfl⟩
      rw [hfound] at this
      cases this
  | some parentId =>
      rw [List.mem_singleton]
      constructor
      · rintro rfl
        obtain ⟨p, hp, hhash, rfl⟩ := nodeIdOfHash_eq_some.1 hfound
        exact ⟨p, hp, ⟨hempty, hgenesis, hhash.symm⟩, rfl⟩
      · rintro ⟨p, hp, ⟨_, _, hhash⟩, rfl⟩
        have hid := nodeIdOfHash_eq_some.2 ⟨p, hp, hhash.symm, rfl⟩
        rw [hfound] at hid
        rw [Option.some.inj hid]
        rfl

theorem mem_chainDrawn {e : GraphEdge} :
    e ∈ chainDrawn (recordInfos H codec records) (nodesOf H codec records) ↔
      ∃ p ∈ records, ∃ t ∈ records, IsParent H codec p t ∧
        e = ⟨.chainPrecedes, recordId H codec p, recordId H codec t, true, none⟩ := by
  simp only [chainDrawn, List.mem_flatMap, mem_nodesOf]
  constructor
  · rintro ⟨_, ⟨t, ht, rfl⟩, he⟩
    obtain ⟨p, hp, h⟩ := mem_chainEdges.1 he
    exact ⟨p, hp, t, ht, h⟩
  · rintro ⟨p, hp, t, ht, h⟩
    exact ⟨_, ⟨t, ht, rfl⟩, mem_chainEdges.2 ⟨p, hp, h⟩⟩

/-- Two nodes are on one chain just when one record is the parent of the other. -/
theorem related_chainDrawn (h : Distinct H codec records) {p t : AtribRecord} (hp : p ∈ records)
    (ht : t ∈ records) :
    related ((chainDrawn (recordInfos H codec records) (nodesOf H codec records)).flatMap
        bothOrders) (recordId H codec p) (recordId H codec t) = true ↔
      IsParent H codec p t ∨ IsParent H codec t p := by
  rw [related_bothOrders]
  constructor
  · rintro ⟨e, he, hends⟩
    obtain ⟨p', hp', t', ht', hparent, rfl⟩ := mem_chainDrawn.1 he
    rcases hends with ⟨hsource, htarget⟩ | ⟨hsource, htarget⟩
    · rw [h.inj hp' hp hsource, h.inj ht' ht htarget] at hparent
      exact .inl hparent
    · rw [h.inj hp' ht hsource, h.inj ht' hp htarget] at hparent
      exact .inr hparent
  · rintro (hparent | hparent)
    · exact ⟨_, mem_chainDrawn.2 ⟨p, hp, t, ht, hparent, rfl⟩, .inl ⟨rfl, rfl⟩⟩
    · exact ⟨_, mem_chainDrawn.2 ⟨t, ht, p, hp, hparent, rfl⟩, .inr ⟨rfl, rfl⟩⟩

theorem nodeOf_inj (h : Distinct H codec records) {p t : AtribRecord} (hp : p ∈ records)
    (ht : t ∈ records) : nodeOf H codec p = nodeOf H codec t ↔ p = t :=
  ⟨fun hnodes => h.inj hp ht (congrArg (·.id) hnodes), fun heq => heq ▸ rfl⟩

/-- The pairs of records of one session, in one order or the other. -/
theorem exists_contextPairs (h : Distinct H codec records) {P : GraphNode → GraphNode → Prop}
    (hsymm : ∀ a b, P a b → P b a) :
    (∃ pair ∈ contextPairs (nodesOf H codec records), P pair.1 pair.2) ↔
      ∃ p ∈ records, ∃ t ∈ records, p ≠ t ∧ p.contextId = t.contextId ∧
        P (nodeOf H codec p) (nodeOf H codec t) := by
  constructor
  · rintro ⟨⟨a, b⟩, hpair, hP⟩
    obtain ⟨ha, hb, hne, hcontext⟩ := (mem_contextPairs h.nodup_nodesOf).1 (.inl hpair)
    obtain ⟨p, hp, rfl⟩ := mem_nodesOf.1 ha
    obtain ⟨t, ht, rfl⟩ := mem_nodesOf.1 hb
    exact ⟨p, hp, t, ht, fun heq => hne ((nodeOf_inj h hp ht).2 heq), hcontext, hP⟩
  · rintro ⟨p, hp, t, ht, hne, hcontext, hP⟩
    rcases (mem_contextPairs h.nodup_nodesOf).2 ⟨mem_nodesOf.2 ⟨p, hp, rfl⟩,
      mem_nodesOf.2 ⟨t, ht, rfl⟩, fun heq => hne ((nodeOf_inj h hp ht).1 heq), hcontext⟩ with
      hpair | hpair
    · exact ⟨_, hpair, hP⟩
    · exact ⟨_, hpair, hsymm _ _ hP⟩

theorem joins_chainDrawn {a b : String} :
    Joins (chainDrawn (recordInfos H codec records) (nodesOf H codec records)) .chainPrecedes a b ↔
      ∃ p ∈ records, ∃ t ∈ records, recordId H codec p = a ∧ recordId H codec t = b ∧
        IsParent H codec p t := by
  rw [joins_directed (by decide)]
  constructor
  · rintro ⟨e, he, -, rfl, rfl⟩
    obtain ⟨p, hp, t, ht, hparent, rfl⟩ := mem_chainDrawn.1 he
    exact ⟨p, hp, t, ht, rfl, rfl, hparent⟩
  · rintro ⟨p, hp, t, ht, rfl, rfl, hparent⟩
    exact ⟨_, mem_chainDrawn.2 ⟨p, hp, t, ht, hparent, rfl⟩, rfl, rfl, rfl⟩

theorem related_comm (pairs : List (String × String)) (a b : String) :
    related pairs a b = related pairs b a := Bool.or_comm _ _

theorem joins_precedesEdges {pairs : List (String × String)} {x y : GraphNode} {a b : String} :
    Joins (precedesEdges pairs (x, y)) .sessionPrecedes a b ↔ related pairs x.id y.id = false ∧
      (x.timestamp < y.timestamp ∧ x.id = a ∧ y.id = b ∨
        y.timestamp < x.timestamp ∧ y.id = a ∧ x.id = b) := by
  rw [joins_directed (by decide), precedesEdges]
  split
  · next h => simp [h]
  next h =>
  have hfree : related pairs x.id y.id = false := by simpa using h
  rw [and_iff_right hfree]
  split
  · next hlt =>
      have hnot : ¬y.timestamp < x.timestamp := not_lt_of_gt hlt
      simp [hlt, hnot]
  next hnot =>
  have hnot : ¬x.timestamp < y.timestamp := hnot
  split
  · next hlt =>
      have hlt : y.timestamp < x.timestamp := hlt
      simp [hlt, hnot]
  · next hnot' =>
      have hnot' : ¬y.timestamp < x.timestamp := hnot'
      simp [hnot, hnot']

theorem joins_precedesDrawn (h : Distinct H codec records) {a b : String} :
    Joins (precedesDrawn (recordInfos H codec records) (nodesOf H codec records))
        .sessionPrecedes a b ↔
      ∃ p ∈ records, ∃ t ∈ records, recordId H codec p = a ∧ recordId H codec t = b ∧
        Precedes (IsParent H codec) p t := by
  rw [precedesDrawn, joins_flatMap]
  refine (exists_contextPairs h (P := fun x y => Joins (precedesEdges _ (x, y)) .sessionPrecedes
    a b) fun x y hxy => ?_).trans ?_
  · obtain ⟨hfree, hor⟩ := joins_precedesEdges.1 hxy
    exact joins_precedesEdges.2 ⟨(related_comm _ _ _).trans hfree, hor.symm⟩
  · constructor
    · rintro ⟨p, hp, t, ht, hne, hcontext, hjoins⟩
      obtain ⟨hfree, hor⟩ := joins_precedesEdges.1 hjoins
      have hparent : ¬(IsParent H codec p t ∨ IsParent H codec t p) := fun hparent =>
        Bool.false_ne_true (hfree.symm.trans ((related_chainDrawn h hp ht).2 hparent))
      rcases hor with ⟨hlt, rfl, rfl⟩ | ⟨hlt, rfl, rfl⟩
      · exact ⟨p, hp, t, ht, rfl, rfl, hcontext, hparent, hlt⟩
      · exact ⟨t, ht, p, hp, rfl, rfl, hcontext.symm, fun h => hparent h.symm, hlt⟩
    · rintro ⟨p, hp, t, ht, rfl, rfl, hcontext, hparent, hlt⟩
      have hfree := Bool.eq_false_iff.2 fun hrelated =>
        hparent ((related_chainDrawn h hp ht).1 hrelated)
      exact ⟨p, hp, t, ht, fun heq => lt_irrefl _ (heq ▸ hlt), hcontext,
        joins_precedesEdges.2 ⟨hfree, .inl ⟨hlt, rfl, rfl⟩⟩⟩

theorem type_precedesDrawn {infos : List RecordInfo} {nodes : List GraphNode} {e : GraphEdge}
    (h : e ∈ precedesDrawn infos nodes) : e.type = .sessionPrecedes := by
  obtain ⟨pair, -, he⟩ := List.mem_flatMap.1 h
  unfold precedesEdges at he
  split at he
  · cases he
  · split at he
    · rw [List.mem_singleton.1 he]
    · split at he
      · rw [List.mem_singleton.1 he]
      · cases he

theorem related_precedesDrawn (h : Distinct H codec records) {p t : AtribRecord}
    (hp : p ∈ records) (ht : t ∈ records) :
    related ((precedesDrawn (recordInfos H codec records) (nodesOf H codec records)).flatMap
        bothOrders) (recordId H codec p) (recordId H codec t) = true ↔
      Precedes (IsParent H codec) p t ∨ Precedes (IsParent H codec) t p := by
  have hjoins : ∀ a b, (∃ e ∈ precedesDrawn (recordInfos H codec records) (nodesOf H codec records),
      e.source = a ∧ e.target = b) ↔ ∃ p ∈ records, ∃ t ∈ records, recordId H codec p = a ∧
        recordId H codec t = b ∧ Precedes (IsParent H codec) p t := by
    intro a b
    rw [← joins_precedesDrawn h, joins_directed (by decide)]
    exact exists_congr fun e => and_congr_right fun he =>
      (and_iff_right (type_precedesDrawn he)).symm
  rw [related_bothOrders]
  simp only [and_or_left, exists_or, hjoins]
  constructor
  · rintro (⟨p', hp', t', ht', hpid, htid, hprecedes⟩ | ⟨t', ht', p', hp', htid, hpid, hprecedes⟩)
    · rw [h.inj hp' hp hpid, h.inj ht' ht htid] at hprecedes
      exact .inl hprecedes
    · rw [h.inj hp' hp hpid, h.inj ht' ht htid] at hprecedes
      exact .inr hprecedes
  · rintro (hprecedes | hprecedes)
    · exact .inl ⟨p, hp, t, ht, rfl, rfl, hprecedes⟩
    · exact .inr ⟨t, ht, p, hp, rfl, rfl, hprecedes⟩

theorem joins_parallelEdges {pairs : List (String × String) × List (String × String)}
    {x y : GraphNode} {a b : String} :
    Joins (parallelEdges pairs (x, y)) .sessionParallel a b ↔
      related pairs.1 x.id y.id = false ∧ related pairs.2 x.id y.id = false ∧
        (x.id = a ∧ y.id = b ∨ x.id = b ∧ y.id = a) := by
  rw [parallelEdges]
  split
  · next h =>
      refine iff_of_false (not_joins_nil _ _ _) fun ⟨hchain, hprecedes, _⟩ => ?_
      simp only [hchain, hprecedes] at h
      cases h
  · next h =>
      rw [Bool.not_eq_true, Bool.or_eq_false_iff] at h
      rw [joins_singleton, and_iff_right h.1, and_iff_right h.2]
      simp

theorem joins_parallelDrawn (h : Distinct H codec records) {a b : String} :
    Joins (parallelDrawn (recordInfos H codec records) (nodesOf H codec records))
        .sessionParallel a b ↔
      ∃ p ∈ records, ∃ t ∈ records, recordId H codec p = a ∧ recordId H codec t = b ∧
        Parallel (IsParent H codec) p t := by
  rw [parallelDrawn, joins_flatMap]
  refine (exists_contextPairs h (P := fun x y => Joins (parallelEdges _ (x, y)) .sessionParallel
    a b) fun x y hxy => ?_).trans ?_
  · obtain ⟨hchain, hprecedes, hor⟩ := joins_parallelEdges.1 hxy
    exact joins_parallelEdges.2 ⟨(related_comm _ _ _).trans hchain,
      (related_comm _ _ _).trans hprecedes, hor.symm.imp And.symm And.symm⟩
  · constructor
    · rintro ⟨p, hp, t, ht, hne, hcontext, hjoins⟩
      obtain ⟨hchain, hprecedes, hor⟩ := joins_parallelEdges.1 hjoins
      have hparent : ¬(IsParent H codec p t ∨ IsParent H codec t p) := fun hparent =>
        Bool.false_ne_true (hchain.symm.trans ((related_chainDrawn h hp ht).2 hparent))
      have horder : ¬(Precedes (IsParent H codec) p t ∨ Precedes (IsParent H codec) t p) :=
        fun horder =>
          Bool.false_ne_true (hprecedes.symm.trans ((related_precedesDrawn h hp ht).2 horder))
      have htime : p.timestamp = t.timestamp := by
        by_contra htime
        rcases lt_or_gt_of_ne htime with hlt | hlt
        · exact horder (.inl ⟨hcontext, hparent, hlt⟩)
        · exact horder (.inr ⟨hcontext.symm, fun h => hparent h.symm, hlt⟩)
      rcases hor with ⟨rfl, rfl⟩ | ⟨rfl, rfl⟩
      · exact ⟨p, hp, t, ht, rfl, rfl, hcontext, hne, hparent, htime⟩
      · exact ⟨t, ht, p, hp, rfl, rfl, hcontext.symm, hne.symm, fun h => hparent h.symm,
          htime.symm⟩
    · rintro ⟨p, hp, t, ht, rfl, rfl, hcontext, hne, hparent, htime⟩
      have hchain := Bool.eq_false_iff.2 fun hrelated =>
        hparent ((related_chainDrawn h hp ht).1 hrelated)
      have hprecedes := Bool.eq_false_iff.2 fun hrelated =>
        ((related_precedesDrawn h hp ht).1 hrelated).elim (fun horder => horder.2.2.ne htime)
          fun horder => horder.2.2.ne htime.symm
      exact ⟨p, hp, t, ht, hne, hcontext,
        joins_parallelEdges.2 ⟨hchain, hprecedes, .inl ⟨rfl, rfl⟩⟩⟩

theorem mem_convergesDrawn {e : GraphEdge} :
    e ∈ (groupByContextId (nodesOf H codec records)).values.flatMap convergesOn ↔
      ∃ p ∈ records, ∃ t ∈ records, Draws H codec .convergesOn p t ∧
        e = ⟨.convergesOn, recordId H codec p, recordId H codec t, true, none⟩ := by
  simp only [List.mem_flatMap, mem_values_groupByContextId, convergesOn, List.mem_map,
    List.mem_filter, decide_eq_true_eq]
  constructor
  · rintro ⟨_, ⟨c, rfl, -⟩, txNode, ⟨htx, hlabel⟩, n, ⟨hn, hkind⟩, rfl⟩
    obtain ⟨htx, htxContext⟩ := List.mem_filter.1 htx
    obtain ⟨hn, hnContext⟩ := List.mem_filter.1 hn
    obtain ⟨t, ht, rfl⟩ := mem_nodesOf.1 htx
    obtain ⟨p, hp, rfl⟩ := mem_nodesOf.1 hn
    exact ⟨p, hp, t, ht, ⟨(of_decide_eq_true hnContext).trans (of_decide_eq_true htxContext).symm,
      label_toolCall.1 (hkind.resolve_right (label_ne_gapNode _)), label_transaction.1 hlabel⟩, rfl⟩
  · rintro ⟨p, hp, t, ht, ⟨hcontext, htool, htx⟩, rfl⟩
    have hmem : ∀ r ∈ records, r.contextId = t.contextId →
        nodeOf H codec r ∈ (nodesOf H codec records).filter (·.contextId = t.contextId) :=
      fun r hr hcontext => List.mem_filter.2 ⟨mem_nodesOf.2 ⟨r, hr, rfl⟩, decide_eq_true hcontext⟩
    exact ⟨_, ⟨t.contextId, rfl, List.ne_nil_of_mem (hmem t ht rfl)⟩, nodeOf H codec t,
      ⟨hmem t ht rfl, label_transaction.2 htx⟩, nodeOf H codec p,
      ⟨hmem p hp hcontext, .inl (label_toolCall.2 htool)⟩, rfl⟩

theorem sessionToken_nodeOf (h : Distinct H codec records) {r : AtribRecord} (hr : r ∈ records) :
    (infoByNodeId (recordInfos H codec records) (nodeOf H codec r).id).bind
      (·.record.sessionToken) = r.sessionToken := by
  have hid : (nodeOf H codec r).id = recordId H codec r := rfl
  rw [hid, infoByNodeId_of_mem h hr]
  rfl

theorem mem_crossDrawn (h : Distinct H codec records) {e : GraphEdge} :
    e ∈ crossSession (recordInfos H codec records) (nodesOf H codec records) ↔
      ∃ p ∈ records, ∃ t ∈ records, CrossSession p t ∧
        e = ⟨.crossSession, recordId H codec p, recordId H codec t, true, none⟩ := by
  simp only [crossSession, List.mem_flatMap, List.mem_filter, decide_eq_true_eq]
  constructor
  · rintro ⟨_, ⟨htx, hlabel⟩, he⟩
    obtain ⟨t, ht, rfl⟩ := mem_nodesOf.1 htx
    rw [sessionToken_nodeOf h ht] at he
    cases htoken : t.sessionToken with
    | none =>
        rw [htoken] at he
        cases he
    | some token =>
        simp only [htoken] at he
        split at he
        · cases he
        next hempty =>
        obtain ⟨_, hother, rfl⟩ := List.mem_map.1 he
        obtain ⟨hother, hcross⟩ := List.mem_filter.1 hother
        obtain ⟨p, hp, rfl⟩ := mem_nodesOf.1 hother
        obtain ⟨hcontext, htool, hsame⟩ := of_decide_eq_true hcross
        rw [sessionToken_nodeOf h hp] at hsame
        exact ⟨p, hp, t, ht, ⟨hcontext, label_toolCall.1 htool, label_transaction.1 hlabel, token,
          hempty, htoken, hsame⟩, rfl⟩
  · rintro ⟨p, hp, t, ht, ⟨hcontext, htool, htx, token, hempty, htoken, hsame⟩, rfl⟩
    refine ⟨nodeOf H codec t, ⟨mem_nodesOf.2 ⟨t, ht, rfl⟩, label_transaction.2 htx⟩, ?_⟩
    rw [sessionToken_nodeOf h ht]
    simp only [htoken, if_neg hempty]
    refine List.mem_map.2 ⟨nodeOf H codec p, List.mem_filter.2 ⟨mem_nodesOf.2 ⟨p, hp, rfl⟩, ?_⟩, rfl⟩
    exact decide_eq_true ⟨hcontext, label_toolCall.2 htool, (sessionToken_nodeOf h hp).trans hsame⟩

/-- The types of the edges between records of which one does not refer to the other. -/
def derivedTypes : List EdgeType :=
  [.chainPrecedes, .sessionPrecedes, .sessionParallel, .convergesOn, .crossSession]

theorem type_drawn {options : BuildGraphOptions} {infos : List RecordInfo} {d : Drawn}
    (h : d ∈ drawn H options infos) : d.edge.type ∉ derivedTypes := by
  have hreference : ∀ {type : EdgeType} {source ref : String} {d : Drawn},
      drawnReference options infos type source ref = some d → d.edge.type = type := by
    intro type source ref d hd
    unfold drawnReference at hd
    split at hd
    · cases hd
    · split at hd <;> exact Option.some.inj hd ▸ rfl
  simp only [drawn, List.mem_append, List.mem_flatMap, List.mem_filterMap,
    Option.bind_eq_some_iff] at h
  obtain ((⟨_, _, _, _, hd⟩ | ⟨_, _, hd⟩) | ⟨_, _, _, _, hd⟩) | ⟨_, _, _, _, hd⟩ := h
  · rw [hreference hd]
    decide
  · obtain ⟨token, -, rfl⟩ := Option.map_eq_some_iff.1 hd
    split <;> exact (by decide : EdgeType.provenanceOf ∉ derivedTypes)
  · rw [hreference hd]
    decide
  · rw [hreference hd]
    decide

theorem edges_buildGraph : (buildGraph H codec records [] {}).edges =
    deriveEdges {} (recordInfos H codec records) (nodesOf H codec records) ++
      (drawn H {} (recordInfos H codec records)).map (·.edge) := by
  change (deriveReferences H {} (recordInfos H codec records) _).edges = _
  rw [deriveReferences_eq, edges_foldl_draw]
  change deriveEdges {} _ (nodesOf H codec records ++ []) ++ _ = _
  rw [List.append_nil]

/-- What the service joins. -/
theorem joins_buildGraph (h : Distinct H codec records) {type : EdgeType}
    (htype : type ∈ derivedTypes) {a b : String} :
    Joins (buildGraph H codec records [] {}).edges type a b ↔
      ∃ p ∈ records, ∃ t ∈ records, recordId H codec p = a ∧ recordId H codec t = b ∧
        Draws H codec type p t := by
  have hreferences : ¬Joins ((drawn H {} (recordInfos H codec records)).map (·.edge)) type a b := by
    refine not_joins (fun e he heq => ?_) a b
    obtain ⟨d, hd, rfl⟩ := List.mem_map.1 he
    exact type_drawn hd (heq ▸ htype)
  have hchain : type ≠ .chainPrecedes →
      ¬Joins (chainDrawn (recordInfos H codec records) (nodesOf H codec records)) type a b :=
    fun hne => not_joins (fun e he heq => by
      obtain ⟨_, _, _, _, _, rfl⟩ := mem_chainDrawn.1 he
      exact hne heq.symm) a b
  have hprecedes : type ≠ .sessionPrecedes →
      ¬Joins (precedesDrawn (recordInfos H codec records) (nodesOf H codec records)) type a b :=
    fun hne => not_joins (fun e he heq => hne (heq.symm.trans (type_precedesDrawn he))) a b
  have hparallel : type ≠ .sessionParallel →
      ¬Joins (parallelDrawn (recordInfos H codec records) (nodesOf H codec records)) type a b :=
    fun hne => not_joins (fun e he heq => by
      obtain ⟨pair, -, he⟩ := List.mem_flatMap.1 he
      unfold parallelEdges at he
      split at he
      · cases he
      · rw [List.mem_singleton.1 he] at heq
        exact hne heq.symm) a b
  have hconverges : type ≠ .convergesOn →
      ¬Joins ((groupByContextId (nodesOf H codec records)).values.flatMap convergesOn) type a b :=
    fun hne => not_joins (fun e he heq => by
      obtain ⟨_, _, _, _, _, rfl⟩ := mem_convergesDrawn.1 he
      exact hne heq.symm) a b
  have hcross : type ≠ .crossSession →
      ¬Joins (crossSession (recordInfos H codec records) (nodesOf H codec records)) type a b :=
    fun hne => not_joins (fun e he heq => by
      obtain ⟨_, _, _, _, _, rfl⟩ := (mem_crossDrawn h).1 he
      exact hne heq.symm) a b
  rw [edges_buildGraph, deriveEdges_eq]
  simp only [joins_append, hreferences, or_false]
  simp only [derivedTypes, List.mem_cons, List.not_mem_nil, or_false] at htype
  rcases htype with rfl | rfl | rfl | rfl | rfl
  · simp only [hprecedes (by decide), hparallel (by decide), hconverges (by decide),
      hcross (by decide), or_false]
    exact joins_chainDrawn
  · simp only [hchain (by decide), hparallel (by decide), hconverges (by decide),
      hcross (by decide), or_false, false_or]
    exact joins_precedesDrawn h
  · simp only [hchain (by decide), hprecedes (by decide), hconverges (by decide),
      hcross (by decide), or_false, false_or]
    exact joins_parallelDrawn h
  · simp only [hchain (by decide), hprecedes (by decide), hparallel (by decide),
      hcross (by decide), or_false, false_or]
    rw [joins_directed (by decide)]
    simp only [mem_convergesDrawn]
    constructor
    · rintro ⟨_, ⟨p, hp, t, ht, hdraws, rfl⟩, -, rfl, rfl⟩
      exact ⟨p, hp, t, ht, rfl, rfl, hdraws⟩
    · rintro ⟨p, hp, t, ht, rfl, rfl, hdraws⟩
      exact ⟨_, ⟨p, hp, t, ht, hdraws, rfl⟩, rfl, rfl, rfl⟩
  · simp only [hchain (by decide), hprecedes (by decide), hparallel (by decide),
      hconverges (by decide), false_or]
    rw [joins_directed (by decide)]
    simp only [mem_crossDrawn h]
    constructor
    · rintro ⟨_, ⟨p, hp, t, ht, hdraws, rfl⟩, -, rfl, rfl⟩
      exact ⟨p, hp, t, ht, rfl, rfl, hdraws⟩
    · rintro ⟨p, hp, t, ht, rfl, rfl, hdraws⟩
      exact ⟨_, ⟨p, hp, t, ht, hdraws, rfl⟩, rfl, rfl, rfl⟩

end Atrib.GraphNode
