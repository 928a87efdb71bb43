import Atrib.Integration.GraphBuilder
import Atrib.Mcp.Refs
import Atrib.Proofs.GraphEdges

/-!
# The graph of one session

The builder of the integration test derives the first five kinds of edges from
the records of one session, the graph service from all records. Where no two
records have one hash, the edges of a session are the same in both just when the
few things they do differently make no difference for the session: how a chain
root is read, which records go into the chain, what converges on a transaction
and which transaction the calls of other sessions are looked up for.
-/

namespace Atrib.Integration

open GraphNode (CrossSession Distinct Draws IsParent Parallel Precedes derivedTypes
  joins_buildGraph label_transaction mem_orderedPairs orderedPairs)
open Lib (find?_key_map_eq_some foldl_appends mem_zipIdx_pairs)
open Verify

variable {H : Hash} {codec : RecordCodec} {records all : List AtribRecord} {c : String}

/-! ## The records of a session -/

theorem mem_sessionRecords {r : AtribRecord} :
    r ∈ sessionRecords records c ↔ r ∈ records ∧ r.contextId = c := by
  rw [sessionRecords, List.mem_filter, decide_eq_true_iff]

theorem of_mem_crossSessionRecords {r : AtribRecord} (h : r ∈ crossSessionRecords records c) :
    r ∈ records ∧ r.contextId ≠ c := by
  unfold crossSessionRecords at h
  split at h
  · cases h
  · split at h
    · cases h
    · obtain ⟨hr, hkept⟩ := List.mem_filter.1 h
      exact ⟨hr, (of_decide_eq_true hkept).1⟩

theorem mem_of_mem_allRecords {r : AtribRecord} (h : r ∈ allRecords records c) : r ∈ records :=
  (List.mem_append.1 h).elim (fun h => (mem_sessionRecords.1 h).1) fun h =>
    (of_mem_crossSessionRecords h).1

/-- Of the records that are looked at, those of the session are in it. -/
theorem mem_sessionRecords_iff {r : AtribRecord} :
    r ∈ sessionRecords records c ↔ r ∈ allRecords records c ∧ r.contextId = c := by
  constructor
  · intro h
    exact ⟨List.mem_append_left _ h, (mem_sessionRecords.1 h).2⟩
  · rintro ⟨h, hcontext⟩
    exact mem_sessionRecords.2 ⟨mem_of_mem_allRecords h, hcontext⟩

/-! ## What the loops draw -/

section Loops

variable (H codec)

/-- What step 1 draws for a record. -/
def chainEdges (all : List AtribRecord) (r : AtribRecord) : List GraphEdge :=
  match nodeIdOfHash H codec all (withoutLeadingPrefix r.chainRoot) with
  | none => []
  | some parentId =>
      if parentId ≠ recordId H codec r then
        [⟨.chainPrecedes, parentId, recordId H codec r, true, none⟩]
      else []

/-- What step 2 draws for a pair. -/
def precedesEdges (chained : String → String → Bool) (pair : AtribRecord × AtribRecord) :
    List GraphEdge :=
  let aId := recordId H codec pair.1
  let bId := recordId H codec pair.2
  if chained aId bId || chained bId aId then []
  else if pair.1.timestamp < pair.2.timestamp then [⟨.sessionPrecedes, aId, bId, true, none⟩]
  else []

/-- What step 3 draws for a pair. -/
def parallelEdges (drawn : (String → String → Bool) × (String → String → Bool))
    (pair : AtribRecord × AtribRecord) : List GraphEdge :=
  let aId := recordId H codec pair.1
  let bId := recordId H codec pair.2
  if drawn.1 aId bId || drawn.1 bId aId || drawn.2 aId bId || drawn.2 bId aId then []
  else [⟨.sessionParallel, aId, bId, false, none⟩]

variable {H codec}

theorem type_precedesEdges {chained : String → String → Bool} {pair : AtribRecord × AtribRecord}
    {e : GraphEdge} (h : e ∈ precedesEdges H codec chained pair) : e.type = .sessionPrecedes := by
  unfold precedesEdges at h
  simp only at h
  split at h
  · cases h
  · split at h
    · rw [List.mem_singleton.1 h]
    · cases h

theorem type_parallelEdges {drawn : (String → String → Bool) × (String → String → Bool)}
    {pair : AtribRecord × AtribRecord} {e : GraphEdge} (h : e ∈ parallelEdges H codec drawn pair) :
    e.type = .sessionParallel := by
  unfold parallelEdges at h
  simp only at h
  split at h
  · cases h
  · rw [List.mem_singleton.1 h]

theorem chainPrecedes_eq (all : List AtribRecord) (edges : List GraphEdge) (r : AtribRecord) :
    chainPrecedes H codec all edges r = edges ++ chainEdges H codec all r := by
  unfold chainPrecedes chainEdges
  cases nodeIdOfHash H codec all (withoutLeadingPrefix r.chainRoot) with
  | none => exact (List.append_nil edges).symm
  | some parentId =>
      simp only
      split
      · rfl
      · exact (List.append_nil edges).symm

theorem sessionPrecedes_eq (edges : List GraphEdge) (pair : AtribRecord × AtribRecord) :
    sessionPrecedes H codec edges pair =
      edges ++ precedesEdges H codec (has edges · · .chainPrecedes) pair := by
  unfold sessionPrecedes precedesEdges
  simp only
  split
  · exact (List.append_nil edges).symm
  · split
    · rfl
    · exact (List.append_nil edges).symm

theorem sessionParallel_eq (edges : List GraphEdge) (pair : AtribRecord × AtribRecord) :
    sessionParallel H codec edges pair = edges ++
      parallelEdges H codec ((has edges · · .chainPrecedes), (has edges · · .sessionPrecedes))
        pair := by
  unfold sessionParallel parallelEdges
  simp only
  split
  · exact (List.append_nil edges).symm
  · rfl

theorem has_iff {edges : List GraphEdge} {a b : String} {type : EdgeType}
    (h : type ≠ .sessionParallel) : has edges a b type = true ↔ Joins edges type a b := by
  rw [joins_directed h, has, List.any_eq_true]
  refine exists_congr fun e => and_congr_right fun _ => ?_
  rw [decide_eq_true_iff, ← and_assoc, and_comm]

/-- Edges of another type do not count. -/
theorem has_append_of_type {edges more : List GraphEdge} {a b : String} {type : EdgeType}
    (h : ∀ e ∈ more, e.type ≠ type) : has (edges ++ more) a b type = has edges a b type := by
  have hmore : has more a b type = false := by
    rw [has, List.any_eq_false]
    intro e he hends
    exact h e he (of_decide_eq_true hends).2.2
  rw [has, List.any_append, ← has, ← has, hmore, Bool.or_false]

variable (H codec) in
def chainDrawn (records : List AtribRecord) (c : String) : List GraphEdge :=
  (allRecords records c).flatMap (chainEdges H codec (allRecords records c))

variable (H codec) in
def precedesDrawn (records : List AtribRecord) (c : String) : List GraphEdge :=
  (placePairs (sessionRecords records c)).flatMap
    (precedesEdges H codec (has (chainDrawn H codec records c) · · .chainPrecedes))

variable (H codec) in
def parallelDrawn (records : List AtribRecord) (c : String) : List GraphEdge :=
  (orderedPairs (sessionRecords records c)).flatMap
    (parallelEdges H codec ((has (chainDrawn H codec records c) · · .chainPrecedes),
      (has (precedesDrawn H codec records c) · · .sessionPrecedes)))

theorem type_chainDrawn {e : GraphEdge} (h : e ∈ chainDrawn H codec records c) :
    e.type = .chainPrecedes := by
  obtain ⟨r, -, he⟩ := List.mem_flatMap.1 h
  unfold chainEdges at he
  split at he
  · cases he
  · split at he
    · rw [List.mem_singleton.1 he]
    · cases he

theorem type_precedesDrawn {e : GraphEdge} (h : e ∈ precedesDrawn H codec records c) :
    e.type = .sessionPrecedes := by
  obtain ⟨pair, -, he⟩ := List.mem_flatMap.1 h
  exact type_precedesEdges he

/-- The three loops draw one after the other what goes by the edges before them. -/
theorem deriveEdges_eq (records : List AtribRecord) (c : String) :
    deriveEdges H codec records c = chainDrawn H codec records c ++
      precedesDrawn H codec records c ++ parallelDrawn H codec records c ++
        convergesOn ((allRecords records c).map (recordNode H codec)) c ++
          crossSession H codec (allRecords records c)
            ((allRecords records c).map (recordNode H codec)) c := by
  have hchain := foldl_appends (chainPrecedes H codec (allRecords records c))
    (fun _ => ()) id (fun _ => chainEdges H codec (allRecords records c))
    (fun _ _ => rfl) (chainPrecedes_eq (allRecords records c)) (allRecords records c) []
  have hprecedes := foldl_appends (sessionPrecedes H codec)
    (fun edges a b => has edges a b .chainPrecedes) id
    (precedesEdges H codec)
    (fun edges pair => by
      funext a b
      rw [sessionPrecedes_eq, has_append_of_type fun e he => by
        rw [type_precedesEdges he]
        decide]) sessionPrecedes_eq
    (placePairs (sessionRecords records c)) (chainDrawn H codec records c)
  have hparallel := foldl_appends (sessionParallel H codec)
    (fun edges => ((has edges · · .chainPrecedes), (has edges · · .sessionPrecedes)))
    id (parallelEdges H codec)
    (fun edges pair => by
      have hother : ∀ type, type ≠ .sessionParallel → ∀ a b,
          has (sessionParallel H codec edges pair) a b type = has edges a b type := by
        intro type htype a b
        rw [sessionParallel_eq, has_append_of_type fun e he => by
          rw [type_parallelEdges he]
          exact htype.symm]
      exact Prod.ext (funext fun a => funext fun b => hother _ (by decide) a b)
        (funext fun a => funext fun b => hother _ (by decide) a b)) sessionParallel_eq
    (orderedPairs (sessionRecords records c))
    (chainDrawn H codec records c ++ precedesDrawn H codec records c)
  -- what step 3 sees of each type is what its own step has drawn
  have hchained : ∀ a b, has (chainDrawn H codec records c ++ precedesDrawn H codec records c) a b
      .chainPrecedes = has (chainDrawn H codec records c) a b .chainPrecedes := fun a b =>
    has_append_of_type fun e he => by
      rw [type_precedesDrawn he]
      decide
  have hordered : ∀ a b, has (chainDrawn H codec records c ++ precedesDrawn H codec records c) a b
      .sessionPrecedes = has (precedesDrawn H codec records c) a b .sessionPrecedes := fun a b => by
    have hnone : has (chainDrawn H codec records c) a b .sessionPrecedes = false := by
      rw [has, List.any_eq_false]
      intro e he hends
      have htype := (of_decide_eq_true hends).2.2
      rw [type_chainDrawn he] at htype
      cases htype
    rw [has, List.any_append, ← has, ← has, hnone, Bool.false_or]
  have hchainEdges : (allRecords records c).foldl (chainPrecedes H codec (allRecords records c)) [] =
      chainDrawn H codec records c := hchain.2
  have hprecedesEdges : (placePairs (sessionRecords records c)).foldl (sessionPrecedes H codec)
      (chainDrawn H codec records c) =
        chainDrawn H codec records c ++ precedesDrawn H codec records c := hprecedes.2
  have hparallelEdges := hparallel.2
  simp only [id, hchained, hordered] at hparallelEdges
  simp only [deriveEdges, hchainEdges, hprecedesEdges, hparallelEdges]
  rfl

end Loops

/-! ## What is joined -/

/-- The chain root of `t` names `p`, as the builder of the test reads it. -/
def NamesParent (H : Hash) (codec : RecordCodec) (p t : AtribRecord) : Prop :=
  withoutLeadingPrefix t.chainRoot = recordHashHex H codec p ∧ p ≠ t

/-- What the builder of the test joins by an edge of a type. -/
def SessionDraws (H : Hash) (codec : RecordCodec) (c : String) :
    EdgeType → AtribRecord → AtribRecord → Prop
  | .chainPrecedes => NamesParent H codec
  | .sessionPrecedes => fun p t =>
      (p.contextId = c ∧ t.contextId = c) ∧ Precedes (NamesParent H codec) p t
  | .sessionParallel => fun p t =>
      (p.contextId = c ∧ t.contextId = c) ∧ Parallel (NamesParent H codec) p t
  | .convergesOn => fun p t =>
      (p.contextId = c ∧ t.contextId = c) ∧ p.eventType ≠ transactionUri ∧
        t.eventType = transactionUri
  | .crossSession => fun p t => t.contextId = c ∧ CrossSession p t
  | _ => fun _ _ => False

theorem Distinct.ne_iff (h : Distinct H codec records) {p t : AtribRecord}
    (hp : p ∈ allRecords records c) (ht : t ∈ allRecords records c) :
    recordId H codec p ≠ recordId H codec t ↔ p ≠ t :=
  ⟨fun hne heq => hne (heq ▸ rfl), fun hne hid =>
    hne (h.inj (mem_of_mem_allRecords hp) (mem_of_mem_allRecords ht) hid)⟩

theorem mem_chainEdges (h : Distinct H codec records) {t : AtribRecord}
    (ht : t ∈ allRecords records c) {e : GraphEdge} :
    e ∈ chainEdges H codec (allRecords records c) t ↔ ∃ p ∈ allRecords records c,
      NamesParent H codec p t ∧
        e = ⟨.chainPrecedes, recordId H codec p, recordId H codec t, true, none⟩ := by
  have hvalue : ∀ p ∈ (allRecords records c).reverse, ∀ p' ∈ (allRecords records c).reverse,
      recordHashHex H codec p = recordHashHex H codec p' → recordId H codec p = recordId H codec p' :=
    fun _ _ _ _ hhash => congrArg ("sha256:" ++ ·) hhash
  have hfind : ∀ hash id, nodeIdOfHash H codec (allRecords records c) hash = some id ↔
      ∃ p ∈ allRecords records c, recordHashHex H codec p = hash ∧ recordId H codec p = id := by
    intro hash id
    rw [nodeIdOfHash, find?_key_map_eq_some hvalue]
    simp only [List.mem_reverse]
  unfold chainEdges
  cases hfound : nodeIdOfHash H codec (allRecords records c) (withoutLeadingPrefix t.chainRoot) with
  | none =>
      refine iff_of_false List.not_mem_nil ?_
      rintro ⟨p, hp, ⟨hhash, -⟩, -⟩
      have hsome := (hfind _ _).2 ⟨p, hp, hhash.symm, rfl⟩
      rw [hfound] at hsome
      cases hsome
  | some parentId =>
      obtain ⟨p, hp, hhash, rfl⟩ := (hfind _ _).1 hfound
      have hsame : ∀ p' ∈ allRecords records c, NamesParent H codec p' t → p' = p := by
        rintro p' hp' ⟨hhash', -⟩
        have hsome := (hfind _ _).2 ⟨p', hp', hhash'.symm, rfl⟩
        rw [hfound] at hsome
        exact h.inj (mem_of_mem_allRecords hp') (mem_of_mem_allRecords hp)
          (Option.some.inj hsome).symm
      simp only
      split
      · next hne =>
          rw [List.mem_singleton]
          constructor
          · rintro rfl
            exact ⟨p, hp, ⟨hhash.symm, (Distinct.ne_iff h hp ht).1 hne⟩, rfl⟩
          · rintro ⟨p', hp', hnames, rfl⟩
            rw [hsame p' hp' hnames]
      · next heq =>
          refine iff_of_false List.not_mem_nil ?_
          rintro ⟨p', hp', hnames, -⟩
          have hne := (Distinct.ne_iff h hp' ht).2 hnames.2
          rw [hsame p' hp' hnames] at hne
          exact heq hne

theorem joins_chainDrawn (h : Distinct H codec records) {a b : String} :
    Joins (chainDrawn H codec records c) .chainPrecedes a b ↔
      ∃ p ∈ allRecords records c, ∃ t ∈ allRecords records c, recordId H codec p = a ∧
        recordId H codec t = b ∧ NamesParent H codec p t := by
  rw [joins_directed (by decide)]
  constructor
  · rintro ⟨e, he, -, rfl, rfl⟩
    obtain ⟨t, ht, he⟩ := List.mem_flatMap.1 he
    obtain ⟨p, hp, hnames, rfl⟩ := (mem_chainEdges h ht).1 he
    exact ⟨p, hp, t, ht, rfl, rfl, hnames⟩
  · rintro ⟨p, hp, t, ht, rfl, rfl, hnames⟩
    exact ⟨_, List.mem_flatMap.2 ⟨t, ht, (mem_chainEdges h ht).2 ⟨p, hp, hnames, rfl⟩⟩, rfl, rfl,
      rfl⟩

/-- Edges that are said of records, asked of the ids of two records. -/
theorem exists_recordId_iff (h : Distinct H codec records) {P : AtribRecord → AtribRecord → Prop}
    {p t : AtribRecord} (hp : p ∈ allRecords records c) (ht : t ∈ allRecords records c) :
    (∃ p' ∈ allRecords records c, ∃ t' ∈ allRecords records c, recordId H codec p' =
      recordId H codec p ∧ recordId H codec t' = recordId H codec t ∧ P p' t') ↔ P p t := by
  constructor
  · rintro ⟨p', hp', t', ht', hpid, htid, hP⟩
    rwa [h.inj (mem_of_mem_allRecords hp') (mem_of_mem_allRecords hp) hpid,
      h.inj (mem_of_mem_allRecords ht') (mem_of_mem_allRecords ht) htid] at hP
  · intro hP
    exact ⟨p, hp, t, ht, rfl, rfl, hP⟩

theorem has_chainDrawn (h : Distinct H codec records) {p t : AtribRecord}
    (hp : p ∈ allRecords records c) (ht : t ∈ allRecords records c) :
    has (chainDrawn H codec records c) (recordId H codec p) (recordId H codec t) .chainPrecedes =
      true ↔ NamesParent H codec p t := by
  rw [has_iff (by decide), joins_chainDrawn h]
  exact exists_recordId_iff h hp ht

theorem Distinct.nodup_sessionRecords (h : Distinct H codec records) :
    (sessionRecords records c).Nodup := (List.Nodup.of_map _ h).filter _

theorem mem_placePairs {α : Type*} {xs : List α} (h : xs.Nodup) {a b : α} :
    (a, b) ∈ placePairs xs ↔ a ∈ xs ∧ b ∈ xs ∧ a ≠ b := by
  rw [← mem_zipIdx_pairs h]
  simp only [placePairs, List.mem_flatMap, List.mem_map, List.mem_filter, decide_eq_true_eq,
    Prod.mk.injEq, Prod.exists]
  constructor
  · rintro ⟨_, i, hi, _, j, ⟨hj, hne⟩, rfl, rfl⟩
    exact ⟨i, j, hi, hj, hne⟩
  · rintro ⟨i, j, hi, hj, hne⟩
    exact ⟨a, i, hi, b, j, ⟨hj, hne⟩, rfl, rfl⟩

theorem joins_precedesDrawn (h : Distinct H codec records) {a b : String} :
    Joins (precedesDrawn H codec records c) .sessionPrecedes a b ↔
      ∃ p ∈ allRecords records c, ∃ t ∈ allRecords records c, recordId H codec p = a ∧
        recordId H codec t = b ∧ SessionDraws H codec c .sessionPrecedes p t := by
  rw [precedesDrawn, joins_flatMap]
  constructor
  · rintro ⟨⟨p, t⟩, hpair, hjoins⟩
    obtain ⟨hp, ht, -⟩ := (mem_placePairs (Distinct.nodup_sessionRecords h)).1 hpair
    obtain ⟨hp, hpContext⟩ := mem_sessionRecords_iff.1 hp
    obtain ⟨ht, htContext⟩ := mem_sessionRecords_iff.1 ht
    unfold precedesEdges at hjoins
    simp only at hjoins
    split at hjoins
    · exact absurd hjoins (not_joins_nil _ _ _)
    next hfree =>
    rw [Bool.or_eq_true, has_chainDrawn h hp ht, has_chainDrawn h ht hp] at hfree
    split at hjoins
    · next hlt =>
        rw [joins_singleton] at hjoins
        rcases hjoins with ⟨-, ⟨hpid, htid⟩ | ⟨hparallel, -⟩⟩
        · exact ⟨p, hp, t, ht, hpid, htid, ⟨hpContext, htContext⟩,
            hpContext.trans htContext.symm, hfree, hlt⟩
        · cases hparallel
    · exact absurd hjoins (not_joins_nil _ _ _)
  · rintro ⟨p, hp, t, ht, rfl, rfl, ⟨hpContext, htContext⟩, -, hfree, hlt⟩
    refine ⟨(p, t), (mem_placePairs (Distinct.nodup_sessionRecords h)).2
      ⟨mem_sessionRecords_iff.2 ⟨hp, hpContext⟩, mem_sessionRecords_iff.2 ⟨ht, htContext⟩,
        fun heq => lt_irrefl _ (heq ▸ hlt)⟩, ?_⟩
    unfold precedesEdges
    simp only
    rw [if_neg (by rwa [Bool.or_eq_true, has_chainDrawn h hp ht, has_chainDrawn h ht hp]),
      if_pos hlt]
    exact joins_singleton.2 ⟨rfl, .inl ⟨rfl, rfl⟩⟩

theorem has_precedesDrawn (h : Distinct H codec records) {p t : AtribRecord}
    (hp : p ∈ allRecords records c) (ht : t ∈ allRecords records c) :
    has (precedesDrawn H codec records c) (recordId H codec p) (recordId H codec t)
      .sessionPrecedes = true ↔ SessionDraws H codec c .sessionPrecedes p t := by
  rw [has_iff (by decide), joins_precedesDrawn h]
  exact exists_recordId_iff h hp ht

theorem joins_parallelDrawn (h : Distinct H codec records) {a b : String} :
    Joins (parallelDrawn H codec records c) .sessionParallel a b ↔
      ∃ p ∈ allRecords records c, ∃ t ∈ allRecords records c, recordId H codec p = a ∧
        recordId H codec t = b ∧ SessionDraws H codec c .sessionParallel p t := by
  have hdrawn : ∀ p ∈ sessionRecords records c, ∀ t ∈ sessionRecords records c,
      (has (chainDrawn H codec records c) (recordId H codec p) (recordId H codec t) .chainPrecedes ||
        has (chainDrawn H codec records c) (recordId H codec t) (recordId H codec p) .chainPrecedes ||
        has (precedesDrawn H codec records c) (recordId H codec p) (recordId H codec t)
          .sessionPrecedes ||
        has (precedesDrawn H codec records c) (recordId H codec t) (recordId H codec p)
          .sessionPrecedes) = true ↔
      (NamesParent H codec p t ∨ NamesParent H codec t p) ∨ p.timestamp ≠ t.timestamp := by
    intro p hp t ht
    obtain ⟨hp, hpContext⟩ := mem_sessionRecords_iff.1 hp
    obtain ⟨ht, htContext⟩ := mem_sessionRecords_iff.1 ht
    simp only [Bool.or_eq_true, has_chainDrawn h hp ht, has_chainDrawn h ht hp,
      has_precedesDrawn h hp ht, has_precedesDrawn h ht hp, SessionDraws, Precedes, hpContext,
      htContext, and_self, true_and, or_comm (a := NamesParent H codec t p)]
    constructor
    · rintro ((hparent | ⟨-, hlt⟩) | ⟨-, hlt⟩)
      · exact .inl hparent
      · exact .inr hlt.ne
      · exact .inr hlt.ne'
    · rintro (hparent | hne)
      · exact .inl (.inl hparent)
      · by_cases hparent : NamesParent H codec p t ∨ NamesParent H codec t p
        · exact .inl (.inl hparent)
        · exact (lt_or_gt_of_ne hne).imp (fun hlt => .inr ⟨hparent, hlt⟩) fun hlt => ⟨hparent, hlt⟩
  have hsymm : ∀ {p t : AtribRecord}, SessionDraws H codec c .sessionParallel p t →
      SessionDraws H codec c .sessionParallel t p :=
    fun ⟨hcontexts, hcontext, hne, hfree, htime⟩ =>
      ⟨hcontexts.symm, hcontext.symm, hne.symm, fun hparent => hfree hparent.symm, htime.symm⟩
  rw [parallelDrawn, joins_flatMap]
  constructor
  · rintro ⟨⟨p, t⟩, hpair, hjoins⟩
    obtain ⟨hp, ht, hne⟩ := (mem_orderedPairs (Distinct.nodup_sessionRecords h)).1 (.inl hpair)
    unfold parallelEdges at hjoins
    simp only at hjoins
    split at hjoins
    · exact absurd hjoins (not_joins_nil _ _ _)
    next hfree =>
    rw [hdrawn p hp t ht, not_or, not_not] at hfree
    obtain ⟨hp, hpContext⟩ := mem_sessionRecords_iff.1 hp
    obtain ⟨ht, htContext⟩ := mem_sessionRecords_iff.1 ht
    have hdraws : SessionDraws H codec c .sessionParallel p t :=
      ⟨⟨hpContext, htContext⟩, hpContext.trans htContext.symm, hne, hfree⟩
    rcases (joins_singleton.1 hjoins).2 with ⟨hpid, htid⟩ | ⟨-, hpid, htid⟩
    · exact ⟨p, hp, t, ht, hpid, htid, hdraws⟩
    · exact ⟨t, ht, p, hp, htid, hpid, hsymm hdraws⟩
  · rintro ⟨p, hp, t, ht, rfl, rfl, hdraws⟩
    obtain ⟨⟨hpContext, htContext⟩, -, hne, hfree, htime⟩ := hdraws
    have hp' := mem_sessionRecords_iff.2 ⟨hp, hpContext⟩
    have ht' := mem_sessionRecords_iff.2 ⟨ht, htContext⟩
    have hedge : ∀ p' ∈ sessionRecords records c, ∀ t' ∈ sessionRecords records c,
        ¬(NamesParent H codec p' t' ∨ NamesParent H codec t' p') → p'.timestamp = t'.timestamp →
          parallelEdges H codec ((has (chainDrawn H codec records c) · · .chainPrecedes),
            (has (precedesDrawn H codec records c) · · .sessionPrecedes)) (p', t') =
              [⟨.sessionParallel, recordId H codec p', recordId H codec t', false, none⟩] := by
      intro p' hp' t' ht' hfree htime
      unfold parallelEdges
      simp only
      rw [if_neg]
      rw [hdrawn p' hp' t' ht', not_or, not_not]
      exact ⟨hfree, htime⟩
    rcases (mem_orderedPairs (Distinct.nodup_sessionRecords h)).2 ⟨hp', ht', hne⟩ with
      hpair | hpair
    · exact ⟨_, hpair, by
        rw [hedge p hp' t ht' hfree htime]
        exact joins_singleton.2 ⟨rfl, .inl ⟨rfl, rfl⟩⟩⟩
    · exact ⟨_, hpair, by
        rw [hedge t ht' p hp' (fun hparent => hfree hparent.symm) htime.symm]
        exact joins_singleton.2 ⟨rfl, .inr ⟨rfl, rfl, rfl⟩⟩⟩

theorem mem_sessionTxNodes {node : GraphNode} :
    node ∈ sessionTxNodes (all.map (recordNode H codec)) c ↔ ∃ t ∈ all,
      t.eventType = transactionUri ∧ t.contextId = c ∧ recordNode H codec t = node := by
  rw [sessionTxNodes, List.mem_filter, List.mem_map, decide_eq_true_iff]
  constructor
  · rintro ⟨⟨t, ht, rfl⟩, hlabel, hcontext⟩
    exact ⟨t, ht, label_transaction.1 hlabel, hcontext, rfl⟩
  · rintro ⟨t, ht, htx, hcontext, rfl⟩
    exact ⟨⟨t, ht, rfl⟩, label_transaction.2 htx, hcontext⟩

theorem mem_convergesOn {e : GraphEdge} :
    e ∈ convergesOn (all.map (recordNode H codec)) c ↔ ∃ p ∈ all, ∃ t ∈ all,
      SessionDraws H codec c .convergesOn p t ∧
        e = ⟨.convergesOn, recordId H codec p, recordId H codec t, true, none⟩ := by
  simp only [convergesOn, List.mem_flatMap, mem_sessionTxNodes, List.mem_map, List.mem_filter,
    decide_eq_true_eq]
  constructor
  · rintro ⟨_, ⟨t, ht, htx, htContext, rfl⟩, _, ⟨⟨p, hp, rfl⟩, hlabel, hpContext⟩, rfl⟩
    exact ⟨p, hp, t, ht, ⟨⟨hpContext, htContext⟩, fun htx => hlabel (label_transaction.2 htx), htx⟩,
      rfl⟩
  · rintro ⟨p, hp, t, ht, ⟨⟨hpContext, htContext⟩, hother, htx⟩, rfl⟩
    exact ⟨_, ⟨t, ht, htx, htContext, rfl⟩, _,
      ⟨⟨p, hp, rfl⟩, fun hlabel => hother (label_transaction.1 hlabel), hpContext⟩, rfl⟩

theorem recordOfId_eq (h : Distinct H codec records) {r : AtribRecord}
    (hr : r ∈ allRecords records c) :
    recordOfId H codec (allRecords records c) (recordId H codec r) = some r := by
  have hvalue : ∀ p ∈ (allRecords records c).reverse, ∀ p' ∈ (allRecords records c).reverse,
      recordId H codec p = recordId H codec p' → id p = id p' := fun p hp p' hp' hid =>
    h.inj (mem_of_mem_allRecords (List.mem_reverse.1 hp))
      (mem_of_mem_allRecords (List.mem_reverse.1 hp')) hid
  rw [recordOfId, ← Option.map_id_apply (x := List.find? _ _), find?_key_map_eq_some hvalue]
  exact ⟨r, List.mem_reverse.2 hr, rfl, rfl⟩

theorem mem_crossSession (h : Distinct H codec records) {e : GraphEdge} :
    e ∈ crossSession H codec (allRecords records c)
        ((allRecords records c).map (recordNode H codec)) c ↔
      ∃ p ∈ allRecords records c, ∃ t ∈ allRecords records c,
        SessionDraws H codec c .crossSession p t ∧
          e = ⟨.crossSession, recordId H codec p, recordId H codec t, true, none⟩ := by
  simp only [crossSession, List.mem_flatMap, mem_sessionTxNodes]
  constructor
  · rintro ⟨_, ⟨t, ht, htx, htContext, rfl⟩, he⟩
    have hid : (recordNode H codec t).id = recordId H codec t := rfl
    rw [hid, recordOfId_eq h ht] at he
    simp only [Option.bind_some] at he
    cases htoken : t.sessionToken with
    | none =>
        rw [htoken] at he
        cases he
    | some token =>
        simp only [htoken] at he
        split at he
        · cases he
        next hempty =>
        obtain ⟨p, hp, rfl⟩ := List.mem_map.1 he
        obtain ⟨hp, hkept⟩ := List.mem_filter.1 hp
        obtain ⟨htool, hcontext, hsame⟩ := of_decide_eq_true hkept
        exact ⟨p, hp, t, ht, ⟨htContext, hcontext, htool, htx, token, hempty, htoken, hsame⟩, rfl⟩
  · rintro ⟨p, hp, t, ht, ⟨htContext, hcontext, htool, htx, token, hempty, htoken, hsame⟩, rfl⟩
    refine ⟨_, ⟨t, ht, htx, htContext, rfl⟩, ?_⟩
    have hid : (recordNode H codec t).id = recordId H codec t := rfl
    rw [hid, recordOfId_eq h ht]
    simp only [Option.bind_some, htoken, if_neg hempty]
    exact List.mem_map.2 ⟨p, List.mem_filter.2 ⟨hp, decide_eq_true ⟨htool, hcontext, hsame⟩⟩, rfl⟩

/-- What the builder of the test joins. -/
theorem joins_buildGraphFromRecords (h : Distinct H codec records) {type : EdgeType}
    (htype : type ∈ derivedTypes) {a b : String} :
    Joins (buildGraphFromRecords H codec records c).edges type a b ↔
      ∃ p ∈ allRecords records c, ∃ t ∈ allRecords records c, recordId H codec p = a ∧
        recordId H codec t = b ∧ SessionDraws H codec c type p t := by
  have hchain : type ≠ .chainPrecedes → ¬Joins (chainDrawn H codec records c) type a b :=
    fun hne => not_joins (fun e he heq => hne (heq.symm.trans (type_chainDrawn he))) a b
  have hprecedes : type ≠ .sessionPrecedes → ¬Joins (precedesDrawn H codec records c) type a b :=
    fun hne => not_joins (fun e he heq => hne (heq.symm.trans (type_precedesDrawn he))) a b
  have hparallel : type ≠ .sessionParallel → ¬Joins (parallelDrawn H codec records c) type a b :=
    fun hne => not_joins (fun e he heq => by
      obtain ⟨pair, -, he⟩ := List.mem_flatMap.1 he
      exact hne (heq.symm.trans (type_parallelEdges he))) a b
  have hconverges : type ≠ .convergesOn →
      ¬Joins (convergesOn ((allRecords records c).map (recordNode H codec)) c) type a b :=
    fun hne => not_joins (fun e he heq => by
      obtain ⟨_, _, _, _, _, rfl⟩ := mem_convergesOn.1 he
      exact hne heq.symm) a b
  have hcross : type ≠ .crossSession → ¬Joins (crossSession H codec (allRecords records c)
      ((allRecords records c).map (recordNode H codec)) c) type a b :=
    fun hne => not_joins (fun e he heq => by
      obtain ⟨_, _, _, _, _, rfl⟩ := (mem_crossSession h).1 he
      exact hne heq.symm) a b
  change Joins (deriveEdges H codec records c) type a b ↔ _
  rw [deriveEdges_eq]
  simp only [joins_append]
  simp only [derivedTypes, List.mem_cons, List.not_mem_nil, or_false] at htype
  rcases htype with rfl | rfl | rfl | rfl | rfl
  · simp only [hprecedes (by decide), hparallel (by decide), hconverges (by decide),
      hcross (by decide), or_false]
    exact joins_chainDrawn h
  · simp only [hchain (by decide), hparallel (by decide), hconverges (by decide),
      hcross (by decide), or_false, false_or]
    exact joins_precedesDrawn h
  · simp only [hchain (by decide), hprecedes (by decide), hconverges (by decide),
      hcross (by decide), or_false, false_or]
    exact joins_parallelDrawn h
  · simp only [hchain (by decide), hprecedes (by decide), hparallel (by decide),
      hcross (by decide), or_false, false_or]
    rw [joins_directed (by decide)]
    simp only [mem_convergesOn]
    constructor
    · rintro ⟨_, ⟨p, hp, t, ht, hdraws, rfl⟩, -, rfl, rfl⟩
      exact ⟨p, hp, t, ht, rfl, rfl, hdraws⟩
    · rintro ⟨p, hp, t, ht, rfl, rfl, hdraws⟩
      exact ⟨_, ⟨p, hp, t, ht, hdraws, rfl⟩, rfl, rfl, rfl⟩
  · simp only [hchain (by decide), hprecedes (by decide), hparallel (by decide),
      hconverges (by decide), false_or]
    rw [joins_directed (by decide)]
    simp only [mem_crossSession h]
    constructor
    · rintro ⟨_, ⟨p, hp, t, ht, hdraws, rfl⟩, -, rfl, rfl⟩
      exact ⟨p, hp, t, ht, rfl, rfl, hdraws⟩
    · rintro ⟨p, hp, t, ht, rfl, rfl, hdraws⟩
      exact ⟨_, ⟨p, hp, t, ht, hdraws, rfl⟩, rfl, rfl, rfl⟩

/-! ## Two builders -/

/-- The edges of the service that run between records of a session, or come from other sessions
into a transaction of it. -/
def Within (H : Hash) (codec : RecordCodec) (records : List AtribRecord) (c : String)
    (type : EdgeType) (a b : String) : Prop :=
  ((∃ p ∈ records, p.contextId = c ∧ recordId H codec p = a) ∧
      ∃ t ∈ records, t.contextId = c ∧ recordId H codec t = b) ∨
    type = .crossSession ∧
      ∃ t ∈ records, t.contextId = c ∧ t.eventType = transactionUri ∧ recordId H codec t = b

/-- Both builders have the same edges of the first five types for a session. -/
def SameGraph (H : Hash) (codec : RecordCodec) (records : List AtribRecord) (c : String) : Prop :=
  ∀ type ∈ derivedTypes, ∀ a b, Joins (buildGraphFromRecords H codec records c).edges type a b ↔
    Joins (GraphNode.buildGraph H codec records [] {}).edges type a b ∧
      Within H codec records c type a b

/-- What the builders do differently makes no difference for a session. -/
structure SameRules (H : Hash) (codec : RecordCodec) (records : List AtribRecord) (c : String) :
    Prop where
  /-- A chain root in the session that names a record of the session has its prefix in front, and
  is neither that of its own record nor, unless it is, a genesis root. -/
  parents : ∀ p ∈ sessionRecords records c, ∀ t ∈ sessionRecords records c,
    withoutHashPrefix t.chainRoot = recordHashHex H codec p →
      if t.chainRoot = genesisChainRoot H t.contextId then p = t
      else p ≠ t ∧ withoutLeadingPrefix t.chainRoot = recordHashHex H codec p
  /-- No chain root leads to or from a record of another session. -/
  apart : ∀ p ∈ allRecords records c, ∀ t ∈ allRecords records c, p ≠ t →
    withoutLeadingPrefix t.chainRoot = recordHashHex H codec p →
      p.contextId = c ∧ t.contextId = c
  /-- Beside a transaction there are only tool calls. -/
  contributors : ∀ t ∈ sessionRecords records c, t.eventType = transactionUri →
    ∀ p ∈ sessionRecords records c, p.eventType = transactionUri ∨ p.eventType = toolCallUri
  /-- The tool calls with the token of any transaction are those with the token of the first. -/
  tokens : ∀ t ∈ sessionRecords records c, ∀ p ∈ records, CrossSession p t →
    p ∈ crossSessionRecords records c

/-! ### Chain roots -/

theorem dropFirst_of_not_mem {x : Char} {pattern text : List Char} (h : x ∉ text) :
    dropFirst (x :: pattern) text = text := by
  induction text with
  | nil => rfl
  | cons y text ih =>
      obtain ⟨hne, hrest⟩ := not_or.1 (mt List.mem_cons.2 h)
      have hprefix : (x :: pattern).isPrefixOf (y :: text) = false := by
        rw [List.isPrefixOf_cons_cons, beq_eq_false_iff_ne.2 hne, Bool.false_and]
      rw [dropFirst, hprefix, ih hrest]
      rfl

theorem withoutLeadingPrefix_eq {text : String} (h : hasHashPrefix text = true) :
    withoutLeadingPrefix text = withoutHashPrefix text := by
  rw [withoutLeadingPrefix, if_pos h, afterHashPrefix, withoutHashPrefix]
  rw [hasHashPrefix] at h
  cases htext : text.toList with
  | nil =>
      rw [htext] at h
      cases h
  | cons x more =>
      rw [htext] at h
      rw [dropFirst, if_pos h]
      rfl

/-- What a root is with its prefix taken from the front it is with the first prefix taken out. -/
theorem withoutHashPrefix_of_leading {text : String} {digest : Bytes}
    (h : withoutLeadingPrefix text = hexEncode digest) : withoutHashPrefix text = hexEncode digest := by
  by_cases hprefix : hasHashPrefix text = true
  · rw [← withoutLeadingPrefix_eq hprefix, h]
  · rw [withoutLeadingPrefix, if_neg hprefix] at h
    have hletter : 's' ∉ (hexEncode digest).toList := by
      rw [toList_hexEncode]
      intro hmem
      obtain ⟨n, hn, heq⟩ := mem_hexDigits hmem
      revert n
      decide
    have hpattern : "sha256:".toList = 's' :: "ha256:".toList := rfl
    rw [h, withoutHashPrefix, hpattern, dropFirst_of_not_mem hletter, String.ofList_toList]

theorem ne_empty_of_names {p t : AtribRecord}
    (h : withoutHashPrefix t.chainRoot = recordHashHex H codec p) : t.chainRoot ≠ "" := by
  intro hempty
  have hlength : (recordHashHex H codec p).toList.length = 64 := by
    rw [recordHashHex, toList_hexEncode, length_hexDigits, recordDigest, H.length_sha256]
  rw [← h, hempty] at hlength
  cases hlength

/-! ### The edges compared -/

/-- The same of records: their ids tell them apart. -/
theorem sameGraph_iff_records (h : Distinct H codec records) :
    SameGraph H codec records c ↔ ∀ type ∈ derivedTypes, ∀ p ∈ records, ∀ t ∈ records,
      (p ∈ allRecords records c ∧ t ∈ allRecords records c ∧ SessionDraws H codec c type p t ↔
        Draws H codec type p t ∧ (p.contextId = c ∧ t.contextId = c ∨
          type = .crossSession ∧ t.contextId = c ∧ t.eventType = transactionUri)) := by
  refine forall₂_congr fun type htype => ?_
  simp only [joins_buildGraphFromRecords h htype, joins_buildGraph h htype, Within]
  constructor
  · intro hsame p hp t ht
    have hids := hsame (recordId H codec p) (recordId H codec t)
    constructor
    · rintro ⟨hpAll, htAll, hdraws⟩
      obtain ⟨⟨p', hp', t', ht', hpid, htid, hdraws'⟩, hwithin⟩ :=
        hids.1 ⟨p, hpAll, t, htAll, rfl, rfl, hdraws⟩
      rw [h.inj hp' hp hpid, h.inj ht' ht htid] at hdraws'
      refine ⟨hdraws', hwithin.imp ?_ ?_⟩
      · rintro ⟨⟨p'', hp'', hpContext, hpid⟩, t'', ht'', htContext, htid⟩
        rw [← h.inj hp'' hp hpid, ← h.inj ht'' ht htid]
        exact ⟨hpContext, htContext⟩
      · rintro ⟨hcross, t'', ht'', htContext, htx, htid⟩
        rw [← h.inj ht'' ht htid]
        exact ⟨hcross, htContext, htx⟩
    · rintro ⟨hdraws, hwithin⟩
      obtain ⟨p', hp', t', ht', hpid, htid, hdraws'⟩ := hids.2 ⟨⟨p, hp, t, ht, rfl, rfl, hdraws⟩,
        hwithin.imp (fun ⟨hpContext, htContext⟩ =>
          ⟨⟨p, hp, hpContext, rfl⟩, t, ht, htContext, rfl⟩)
          fun ⟨hcross, htContext, htx⟩ => ⟨hcross, t, ht, htContext, htx, rfl⟩⟩
      have hpeq := h.inj (mem_of_mem_allRecords hp') hp hpid
      have hteq := h.inj (mem_of_mem_allRecords ht') ht htid
      exact ⟨hpeq ▸ hp', hteq ▸ ht', hpeq ▸ hteq ▸ hdraws'⟩
  · intro hsame a b
    constructor
    · rintro ⟨p, hpAll, t, htAll, rfl, rfl, hdraws⟩
      have hp := mem_of_mem_allRecords hpAll
      have ht := mem_of_mem_allRecords htAll
      obtain ⟨hdraws', hwithin⟩ := (hsame p hp t ht).1 ⟨hpAll, htAll, hdraws⟩
      exact ⟨⟨p, hp, t, ht, rfl, rfl, hdraws'⟩,
        hwithin.imp (fun ⟨hpContext, htContext⟩ =>
          ⟨⟨p, hp, hpContext, rfl⟩, t, ht, htContext, rfl⟩)
          fun ⟨hcross, htContext, htx⟩ => ⟨hcross, t, ht, htContext, htx, rfl⟩⟩
    · rintro ⟨⟨p, hp, t, ht, rfl, rfl, hdraws⟩, hwithin⟩
      obtain ⟨hpAll, htAll, hdraws'⟩ := (hsame p hp t ht).2 ⟨hdraws, hwithin.imp
        (fun ⟨⟨p', hp', hpContext, hpid⟩, t', ht', htContext, htid⟩ =>
          ⟨h.inj hp' hp hpid ▸ hpContext, h.inj ht' ht htid ▸ htContext⟩)
        fun ⟨hcross, t', ht', htContext, htx, htid⟩ =>
          ⟨hcross, h.inj ht' ht htid ▸ htContext, h.inj ht' ht htid ▸ htx⟩⟩
      exact ⟨p, hpAll, t, htAll, rfl, rfl, hdraws'⟩

/-- In a session both read the chain roots alike. -/
theorem SameRules.names_iff (h : SameRules H codec records c) {p t : AtribRecord}
    (hp : p ∈ sessionRecords records c) (ht : t ∈ sessionRecords records c) :
    NamesParent H codec p t ↔ IsParent H codec p t := by
  constructor
  · rintro ⟨hleading, hne⟩
    have hnames := withoutHashPrefix_of_leading hleading
    have hread := h.parents p hp t ht hnames
    split at hread
    · exact absurd hread hne
    · next hgenesis => exact ⟨ne_empty_of_names hnames, hgenesis, hnames⟩
  · rintro ⟨-, hgenesis, hnames⟩
    have hread := h.parents p hp t ht hnames
    rw [if_neg hgenesis] at hread
    exact ⟨hread.2, hread.1⟩

theorem SameRules.chain (h : SameRules H codec records c) {p t : AtribRecord} :
    p ∈ allRecords records c ∧ t ∈ allRecords records c ∧ NamesParent H codec p t ↔
      p ∈ sessionRecords records c ∧ t ∈ sessionRecords records c ∧ IsParent H codec p t := by
  constructor
  · rintro ⟨hp, ht, hnames⟩
    obtain ⟨hpContext, htContext⟩ := h.apart p hp t ht hnames.2 hnames.1
    have hp := mem_sessionRecords_iff.2 ⟨hp, hpContext⟩
    have ht := mem_sessionRecords_iff.2 ⟨ht, htContext⟩
    exact ⟨hp, ht, (h.names_iff hp ht).1 hnames⟩
  · rintro ⟨hp, ht, hparent⟩
    exact ⟨(mem_sessionRecords_iff.1 hp).1, (mem_sessionRecords_iff.1 ht).1,
      (h.names_iff hp ht).2 hparent⟩

theorem SameRules.same (h : SameRules H codec records c) {type : EdgeType}
    (htype : type ∈ derivedTypes) {p t : AtribRecord} (hp : p ∈ records) (ht : t ∈ records) :
    p ∈ allRecords records c ∧ t ∈ allRecords records c ∧ SessionDraws H codec c type p t ↔
      Draws H codec type p t ∧ (p.contextId = c ∧ t.contextId = c ∨
        type = .crossSession ∧ t.contextId = c ∧ t.eventType = transactionUri) := by
  have hsession : ∀ {P Q : Prop}, (p ∈ sessionRecords records c → t ∈ sessionRecords records c →
      (P ↔ Q)) → (p ∈ allRecords records c ∧ t ∈ allRecords records c ∧
        (p.contextId = c ∧ t.contextId = c) ∧ P ↔ Q ∧ (p.contextId = c ∧ t.contextId = c)) := by
    intro P Q hPQ
    constructor
    · rintro ⟨-, -, ⟨hpContext, htContext⟩, hP⟩
      exact ⟨(hPQ (mem_sessionRecords.2 ⟨hp, hpContext⟩) (mem_sessionRecords.2 ⟨ht, htContext⟩)).1
        hP, hpContext, htContext⟩
    · rintro ⟨hQ, hpContext, htContext⟩
      have hp := mem_sessionRecords.2 ⟨hp, hpContext⟩
      have ht := mem_sessionRecords.2 ⟨ht, htContext⟩
      exact ⟨(mem_sessionRecords_iff.1 hp).1, (mem_sessionRecords_iff.1 ht).1,
        ⟨hpContext, htContext⟩, (hPQ hp ht).2 hQ⟩
  have hchained : p ∈ sessionRecords records c → t ∈ sessionRecords records c →
      (NamesParent H codec p t ∨ NamesParent H codec t p ↔
        IsParent H codec p t ∨ IsParent H codec t p) := fun hp ht =>
    or_congr (h.names_iff hp ht) (h.names_iff ht hp)
  simp only [derivedTypes, List.mem_cons, List.not_mem_nil, or_false] at htype
  rcases htype with rfl | rfl | rfl | rfl | rfl
  · refine h.chain.trans ?_
    simp only [mem_sessionRecords, hp, ht, true_and, Draws, reduceCtorEq, false_and, or_false]
    rw [← and_assoc, and_comm]
  · simp only [reduceCtorEq, false_and, or_false]
    exact hsession fun hp ht => by simp only [Precedes, Draws, hchained hp ht]
  · simp only [reduceCtorEq, false_and, or_false]
    exact hsession fun hp ht => by simp only [Parallel, Draws, hchained hp ht]
  · simp only [reduceCtorEq, false_and, or_false]
    refine hsession fun hp ht => ?_
    have hcontext := (mem_sessionRecords.1 hp).2.trans (mem_sessionRecords.1 ht).2.symm
    constructor
    · rintro ⟨hother, htx⟩
      exact ⟨hcontext, (h.contributors t ht htx p hp).resolve_left hother, htx⟩
    · rintro ⟨-, htool, htx⟩
      exact ⟨fun hother => absurd (htool.symm.trans hother) (by decide), htx⟩
  · constructor
    · rintro ⟨-, -, htContext, hcross⟩
      exact ⟨hcross, .inr ⟨rfl, htContext, hcross.2.2.1⟩⟩
    · rintro ⟨hcross, hwithin⟩
      have htContext : t.contextId = c := hwithin.elim And.right fun hcross => hcross.2.1
      have ht := mem_sessionRecords.2 ⟨ht, htContext⟩
      exact ⟨List.mem_append_right _ (h.tokens t ht p hp hcross), List.mem_append_left _ ht,
        htContext, hcross⟩

theorem sameRules_of_sameGraph (h : Distinct H codec records)
    (hsame : SameGraph H codec records c) : SameRules H codec records c := by
  rw [sameGraph_iff_records h] at hsame
  constructor
  · intro p hp t ht hnames
    obtain ⟨hpRecords, hpContext⟩ := mem_sessionRecords.1 hp
    obtain ⟨htRecords, htContext⟩ := mem_sessionRecords.1 ht
    have hchain := hsame .chainPrecedes (by decide) p hpRecords t htRecords
    have hpAll : p ∈ allRecords records c := List.mem_append_left _ hp
    have htAll : t ∈ allRecords records c := List.mem_append_left _ ht
    split
    · next hgenesis =>
        by_contra hne
        have hprefix : hasHashPrefix t.chainRoot = true := by
          rw [hgenesis, hasHashPrefix, genesisChainRoot, String.toList_append]
          exact List.isPrefixOf_iff_prefix.2 (List.prefix_append _ _)
        have hleading := (withoutLeadingPrefix_eq hprefix).trans hnames
        exact (hchain.1 ⟨hpAll, htAll, hleading, hne⟩).1.2.1 hgenesis
    · next hgenesis =>
        obtain ⟨-, -, hleading, hne⟩ := hchain.2
          ⟨⟨ne_empty_of_names hnames, hgenesis, hnames⟩, .inl ⟨hpContext, htContext⟩⟩
        exact ⟨hne, hleading⟩
  · intro p hp t ht hne hleading
    have hchain := hsame .chainPrecedes (by decide) p (mem_of_mem_allRecords hp) t
      (mem_of_mem_allRecords ht)
    exact (hchain.1 ⟨hp, ht, hleading, hne⟩).2.resolve_right fun hcross => absurd hcross.1 (by decide)
  · intro t ht htx p hp
    by_contra hother
    obtain ⟨hother, htool⟩ := not_or.1 hother
    obtain ⟨hpRecords, hpContext⟩ := mem_sessionRecords.1 hp
    obtain ⟨htRecords, htContext⟩ := mem_sessionRecords.1 ht
    have hconverges := hsame .convergesOn (by decide) p hpRecords t htRecords
    exact htool (hconverges.1 ⟨List.mem_append_left _ hp, List.mem_append_left _ ht,
      ⟨hpContext, htContext⟩, hother, htx⟩).1.2.1
  · intro t ht p hp hcross
    obtain ⟨htRecords, htContext⟩ := mem_sessionRecords.1 ht
    obtain ⟨hpAll, -, -⟩ := (hsame .crossSession (by decide) p hp t htRecords).2
      ⟨hcross, .inr ⟨rfl, htContext, hcross.2.2.1⟩⟩
    refine (List.mem_append.1 hpAll).resolve_left fun hpSession => hcross.1 ?_
    exact (mem_sessionRecords.1 hpSession).2.trans htContext.symm

/-- The two builders have the same edges for a session just when what they do differently makes no
difference for it. -/
theorem sameGraph_iff_sameRules (h : Distinct H codec records) :
    SameGraph H codec records c ↔ SameRules H codec records c :=
  ⟨sameRules_of_sameGraph h, fun hrules => (sameGraph_iff_records h).2 fun _ htype _ hp _ ht =>
    hrules.same htype hp ht⟩

theorem Distinct.sublist {records' : List AtribRecord} (h : Distinct H codec records)
    (hsub : records'.Sublist records) : Distinct H codec records' :=
  List.Nodup.sublist (hsub.map _) h

namespace SessionSample

/-- JCS of records whose members are texts without escapes, apart from the timestamp. -/
def sampleCodec : RecordCodec where
  canonicalRecord record :=
    let member := fun ((name, text) : String × String) =>
      utf8 "\"" ++ utf8 name ++ utf8 "\":\"" ++ utf8 text ++ utf8 "\","
    utf8 "\x7b" ++ [("chain_root", record.chainRoot), ("context_id", record.contextId),
      ("creator_key", record.creatorKey), ("event_type", record.eventType)].flatMap member ++
        utf8 "\"timestamp\":" ++ utf8 (toString record.timestamp) ++ utf8 "\x7d"
  verifyRecord _ := true

def recordAt (timestamp : ℤ) (eventType : String) : AtribRecord where
  creatorKey := "k"
  chainRoot := "r"
  eventType := eventType
  contextId := "c"
  timestamp := timestamp

def call : AtribRecord := recordAt 1 toolCallUri

def note : AtribRecord := recordAt 2 "https://atrib.dev/v1/types/observation"

def tx : AtribRecord := recordAt 3 transactionUri

/-- The digests begin with different bytes. -/
theorem heads_call_note_tx : [call, note, tx].Pairwise fun r r' =>
    (recordDigest .fips180 sampleCodec r).head? ≠ (recordDigest .fips180 sampleCodec r').head? := by
  simp only [recordDigest, sampleCodec, utf8_eq_data]
  decide +kernel

theorem distinct_call_note_tx : Distinct .fips180 sampleCodec [call, note, tx] := by
  refine List.pairwise_map.2 (heads_call_note_tx.imp fun hne hid => hne ?_)
  have hhex := congrArg hexDecode ((String.append_right_inj _).1 hid)
  rw [recordHashHex, recordHashHex, hexDecode_hexEncode, hexDecode_hexEncode] at hhex
  rw [Except.ok.inj hhex]

theorem distinct_of_sublist {records : List AtribRecord}
    (h : records.Sublist [call, note, tx]) : Distinct .fips180 sampleCodec records :=
  Distinct.sublist distinct_call_note_tx h

/-- A root that is no digest names no record. -/
theorem not_names_short {p t : AtribRecord} (h : t.chainRoot = "r") :
    withoutHashPrefix t.chainRoot ≠ recordHashHex H codec p ∧
      withoutLeadingPrefix t.chainRoot ≠ recordHashHex H codec p := by
  have hlength : (recordHashHex H codec p).toList.length = 64 := by
    rw [recordHashHex, toList_hexEncode, length_hexDigits, recordDigest, H.length_sha256]
  constructor
  · intro hnames
    rw [← hnames, h] at hlength
    cases hlength
  · intro hnames
    rw [← hnames, h] at hlength
    cases hlength

end SessionSample

open SessionSample in
/-- With tool calls beside it, a transaction has the same edges in both. -/
theorem sameGraph_call_tx : SameGraph .fips180 sampleCodec [call, tx] "c" := by
  have hroot : ∀ t ∈ [call, tx], t.chainRoot = "r" := by decide
  have hcontext : ∀ t ∈ [call, tx], t.contextId = "c" := by decide
  refine (sameGraph_iff_sameRules (distinct_of_sublist (by decide))).2 ⟨?_, ?_, ?_, ?_⟩
  · intro p hp t ht hnames
    exact absurd hnames (not_names_short (hroot t (mem_sessionRecords.1 ht).1)).1
  · intro p hp t ht hne hleading
    exact absurd hleading (not_names_short (hroot t (mem_of_mem_allRecords ht))).2
  · decide
  · intro t ht p hp hcross
    exact absurd ((hcontext p hp).trans (hcontext t (mem_sessionRecords.1 ht).1).symm) hcross.1

open SessionSample in
/-- An observation converges on a transaction in the graph of the test only. -/
theorem not_sameGraph_note_tx :
    Distinct .fips180 sampleCodec [note, tx] ∧ ¬SameGraph .fips180 sampleCodec [note, tx] "c" := by
  have hdistinct : Distinct .fips180 sampleCodec [note, tx] := distinct_of_sublist (by decide)
  refine ⟨hdistinct, fun hsame => ?_⟩
  have hrules := sameRules_of_sameGraph hdistinct hsame
  exact absurd (hrules.contributors tx (by decide) rfl note (by decide)) (by decide)

end Atrib.Integration
