import Atrib.Proofs.StateAcceptance

/-!
# The projection is exact and does not depend on the order

What comes out of the projection is read off the lineage: which records are
accepted, what hangs under what, and which revisions are left over. All of this
is told by the rule of acceptance, so another order of the loaded records gives
the same, and every list is sorted by an order that tells accepted records
apart. The caps cut the lists after everything has been counted.
-/

namespace Atrib.Recall

open Lib InsertionMap ProjectionPolicy

variable {P : ProjectionPlatform} {policy : ProjectionPolicy} {loaded : List LoadedRecord}

/-- `localeCompare` tells record hashes apart. -/
def ComparesHashes (P : ProjectionPlatform) : Prop :=
  ∀ a b : RecordHash, P.localeCompare a.val b.val = .eq → a = b

/-! ## Sorting accepted records -/

instance [Std.TransCmp P.localeCompare] : Std.TransCmp (compareRecordOrder P) :=
  transCmp_then
    (transCmp_on (compare : ℤ → ℤ → Ordering) fun entry : LoadedRecord => entry.record.timestamp)
    (transCmp_on P.localeCompare fun entry : LoadedRecord => entry.recordHash.val)

theorem eq_of_compareRecordOrder (hdistinct : ComparesHashes P) {a b : LoadedRecord}
    (h : compareRecordOrder P a b = .eq) : a.recordHash = b.recordHash := by
  unfold compareRecordOrder at h
  rw [Ordering.then_eq_eq] at h
  exact hdistinct _ _ h.2

/-- A list of accepted records is sorted the same way in whatever order it comes. -/
theorem sortAccepted_eq [Std.TransCmp P.localeCompare] (hdistinct : ComparesHashes P)
    {lineage : Lineage} (hown : ∀ {hash entry}, lineage.accepted.get? hash = some entry →
      entry.recordHash = hash)
    {l l' : List RecordHash} (hperm : l.Perm l') (hl : ∀ hash ∈ l, hash ∈ lineage.accepted.keys) :
    sortBy (compareAccepted P lineage) l = sortBy (compareAccepted P lineage) l' ∧
    sortBy (fun a b => compareAccepted P lineage b a) l =
      sortBy (fun a b => compareAccepted P lineage b a) l' := by
  let entryOf (hash : RecordHash) : LoadedRecord :=
    (lineage.accepted.get? hash).getD ⟨⟨"", "", "", 0, .undefined⟩, hash, .undefined⟩
  have hagree : ∀ a ∈ lineage.accepted.keys, ∀ b ∈ lineage.accepted.keys,
      compareAccepted P lineage a b = compareRecordOrder P (entryOf a) (entryOf b) := by
    intro a ha b hb
    obtain ⟨_, hgetA⟩ := exists_get? ha
    obtain ⟨_, hgetB⟩ := exists_get? hb
    simp only [compareAccepted, entryOf, hgetA, hgetB, Option.getD_some]
  have hanti : ∀ a ∈ lineage.accepted.keys, ∀ b ∈ lineage.accepted.keys,
      compareRecordOrder P (entryOf a) (entryOf b) = .eq → a = b := by
    intro a ha b hb h
    obtain ⟨entryA, hgetA⟩ := exists_get? ha
    obtain ⟨entryB, hgetB⟩ := exists_get? hb
    have heq := eq_of_compareRecordOrder hdistinct h
    simp only [entryOf, hgetA, hgetB, Option.getD_some] at heq
    rw [← hown hgetA, ← hown hgetB, heq]
  have htrans := transCmp_on (compareRecordOrder P) entryOf
  have hl' : ∀ hash ∈ l', hash ∈ lineage.accepted.keys := fun hash h => hl hash (hperm.symm.subset h)
  constructor
  · rw [sortBy_congr fun a ha b hb => hagree a (hl a ha) b (hl b hb),
      sortBy_congr fun a ha b hb => hagree a (hl' a ha) b (hl' b hb)]
    exact sortBy_eq_of_perm hperm fun a ha b hb => hanti a (hl a ha) b (hl b hb)
  · rw [sortBy_congr fun a ha b hb => hagree b (hl b hb) a (hl a ha),
      sortBy_congr fun a ha b hb => hagree b (hl' b hb) a (hl' a ha)]
    exact sortBy_eq_of_perm hperm fun a ha b hb h => (hanti b (hl b hb) a (hl a ha) h).symm

/-! ## The sorted lineage -/

theorem childrenOf_sortChildren (P : ProjectionPlatform) (lineage : Lineage) (hash : RecordHash) :
    (sortChildren P lineage).childrenOf hash =
      sortBy (compareAccepted P lineage) (lineage.childrenOf hash) := by
  unfold Lineage.childrenOf sortChildren
  dsimp only
  rw [get?_mapVal]
  cases lineage.children.get? hash with
  | some hashes => rfl
  | none => exact List.mergeSort_nil.symm

/-- The fuel of the loop over a component is enough. -/
theorem mem_component {lineage : Lineage} (hchildren : ∀ hash,
      lineage.childrenOf hash ≠ [] → hash ∈ lineage.children.keys) (root : RecordHash) :
    (component lineage root).Nodup ∧
    ∀ hash, hash ∈ component lineage root ↔ Search.Reach lineage.childrenOf root hash := by
  refine Search.mem_collect lineage.children.nodup hchildren (le_of_eq ?_)
  congr 2
  show List.map _ (List.map _ _) = List.map _ (List.map _ _)
  rw [List.map_map, List.map_map]
  refine List.map_congr_left fun e he => ?_
  show (lineage.childrenOf e.1).length = e.2.length
  rw [Lineage.childrenOf, get?_of_mem he]
  rfl

/-! ## Two orders of the loaded records -/

theorem acceptanceRule_perm {loaded' : List LoadedRecord} (hperm : loaded.Perm loaded') :
    acceptanceRule P policy loaded = acceptanceRule P policy loaded' := by
  funext S
  ext hash
  simp only [acceptanceRule, Candidate, hperm.mem_iff, Set.mem_ofPred_eq]

theorem pending_perm {loaded' : List LoadedRecord} (hperm : loaded.Perm loaded')
    {item : PendingRevision} :
    Pending P policy loaded item ↔ Pending P policy loaded' item := by
  constructor
  · rintro ⟨hmem, hrevision, hadmitted, htarget, entry, hentry, hhash⟩
    exact ⟨hperm.mem_iff.1 hmem, hrevision, hadmitted, htarget, entry, hperm.mem_iff.1 hentry, hhash⟩
  · rintro ⟨hmem, hrevision, hadmitted, htarget, entry, hentry, hhash⟩
    exact ⟨hperm.mem_iff.2 hmem, hrevision, hadmitted, htarget, entry, hperm.mem_iff.2 hentry, hhash⟩

/-- Two views that differ in the order of their parts only. -/
structure SameView (view view' : View) : Prop where
  accepted : view.lineage.accepted.get? = view'.lineage.accepted.get?
  children : ∀ hash, (view.lineage.childrenOf hash).Perm (view'.lineage.childrenOf hash)
  excluded : view.excluded.Perm view'.excluded

/-- The parts of a view are told by which records are loaded. -/
theorem sameView_of_perm {loaded' : List LoadedRecord}
    (hdistinct : (loaded.map (·.recordHash)).Nodup) (hperm : loaded.Perm loaded')
    {origins origins' : InsertionMap RecordHash LoadedRecord} {taken taken' : List PendingRevision}
    {view view' : View} (h : ViewSpec P policy loaded origins taken view)
    (h' : ViewSpec P policy loaded' origins' taken' view') : SameView view view' := by
  have hdistinct' := (hperm.map (·.recordHash)).nodup_iff.1 hdistinct
  have hkeys : ∀ hash, hash ∈ view.lineage.accepted.keys ↔ hash ∈ view'.lineage.accepted.keys := by
    have hleast := h.isLeast
    rw [acceptanceRule_perm hperm] at hleast
    exact fun hash => Set.ext_iff.1 (hleast.unique h'.isLeast) hash
  refine ⟨?_, ?_, ?_⟩
  · funext hash
    refine Option.ext fun entry => ?_
    rw [h.get?_accepted hdistinct, h'.get?_accepted hdistinct', hkeys, hperm.mem_iff]
  · intro hash
    rw [List.perm_ext_iff_of_nodup (h.nodup_childrenOf hash) (h'.nodup_childrenOf hash)]
    intro child
    rw [h.mem_childrenOf hdistinct, h'.mem_childrenOf hdistinct', hkeys]
    simp only [hperm.mem_iff]
  · rw [List.perm_ext_iff_of_nodup h.excluded_nodup.of_map h'.excluded_nodup.of_map]
    intro item
    rw [h.excluded, h'.excluded]
    simp only [ExcludedFor, pending_perm hperm, hperm.mem_iff, Set.mem_ofPred_eq, hkeys]

section Same

variable {view view' : View}

/-- What a view must have for its cells to be well determined. -/
structure WellFormed (view : View) : Prop where
  own : ∀ {hash entry}, view.lineage.accepted.get? hash = some entry → entry.recordHash = hash
  child : ∀ {parent child}, child ∈ view.lineage.childrenOf parent →
    child ∈ view.lineage.accepted.keys
  parent : ∀ {parent}, parent ∈ view.lineage.children.keys ↔ view.lineage.childrenOf parent ≠ []
  revised : ∀ {parent}, view.lineage.childrenOf parent ≠ [] → parent ∈ view.lineage.accepted.keys
  revision : ∀ {hash}, hash ∈ view.lineage.parent.keys ↔
    ∃ parent, hash ∈ view.lineage.childrenOf parent
  excluded : (view.excluded.map (·.recordHash)).Nodup

theorem ViewSpec.wellFormed {origins : InsertionMap RecordHash LoadedRecord}
    {taken : List PendingRevision} (h : ViewSpec P policy loaded origins taken view)
    (hdistinct : (loaded.map (·.recordHash)).Nodup) : WellFormed view where
  own hget := ((h.get?_accepted hdistinct).1 hget).2.2
  child hchild := ((h.mem_childrenOf hdistinct).1 hchild).1
  parent := h.mem_children_keys
  revised := by
    intro parent hne
    obtain ⟨child, hchild⟩ := List.exists_mem_of_ne_nil _ hne
    rw [h.childrenOf_eq] at hchild
    obtain ⟨item, hitem, -⟩ := List.mem_map.1 hchild
    obtain ⟨hitem, htarget⟩ := List.mem_filter.1 hitem
    exact of_decide_eq_true htarget ▸ h.target_mem hitem
  revision := h.mem_parent_keys
  excluded := h.excluded_nodup

theorem compareAccepted_eq (h : SameView view view') :
    compareAccepted P view.lineage = compareAccepted P view'.lineage := by
  unfold compareAccepted
  rw [h.accepted]

theorem mem_accepted_iff (h : SameView view view') {hash : RecordHash} :
    hash ∈ view.lineage.accepted.keys ↔ hash ∈ view'.lineage.accepted.keys := by
  rw [mem_keys_iff_get?, mem_keys_iff_get?, h.accepted]

theorem sorted_childrenOf_eq [Std.TransCmp P.localeCompare] (hdistinct : ComparesHashes P) (hwf : WellFormed view)
    (h : SameView view view') : (sortChildren P view.lineage).childrenOf =
      (sortChildren P view'.lineage).childrenOf := by
  funext hash
  rw [childrenOf_sortChildren, childrenOf_sortChildren, ← compareAccepted_eq h]
  exact (sortAccepted_eq hdistinct hwf.own (h.children hash) fun _ => hwf.child).1

theorem mem_sorted_childrenOf {parent child : RecordHash} :
    child ∈ (sortChildren P view.lineage).childrenOf parent ↔
      child ∈ view.lineage.childrenOf parent := by
  rw [childrenOf_sortChildren, mem_sortBy]

/-- The component of a root is what hangs under it. -/
theorem mem_sorted_component (hwf : WellFormed view) (root : RecordHash) :
    (component (sortChildren P view.lineage) root).Nodup ∧
    ∀ hash, hash ∈ component (sortChildren P view.lineage) root ↔
      Search.Reach view.lineage.childrenOf root hash := by
  obtain ⟨hnodup, hmem⟩ := @mem_component (sortChildren P view.lineage) (by
    intro hash hne
    rw [show (sortChildren P view.lineage).children.keys = view.lineage.children.keys from
      keys_mapVal .., hwf.parent]
    intro hnil
    rw [childrenOf_sortChildren, hnil] at hne
    exact hne List.mergeSort_nil) root
  refine ⟨hnodup, fun hash => ?_⟩
  rw [hmem, Search.reach_congr fun _ _ => mem_sorted_childrenOf]

/-- What hangs under an accepted record is accepted. -/
theorem accepted_of_reach (hwf : WellFormed view) {root hash : RecordHash}
    (hroot : root ∈ view.lineage.accepted.keys)
    (hreach : Search.Reach view.lineage.childrenOf root hash) :
    hash ∈ view.lineage.accepted.keys := by
  induction hreach with
  | refl => exact hroot
  | tail _ hstep _ => exact hwf.child hstep

theorem mem_headHashes (hwf : WellFormed view) {root hash : RecordHash} :
    hash ∈ headHashes P (sortChildren P view.lineage) root ↔
      Search.Reach view.lineage.childrenOf root hash ∧ view.lineage.childrenOf hash = [] := by
  rw [headHashes, mem_sortBy, List.mem_filter, (mem_sorted_component hwf root).2,
    decide_eq_true_iff, List.length_eq_zero_iff, childrenOf_sortChildren]
  refine and_congr_right fun _ => ?_
  rw [← List.length_eq_zero_iff, length_sortBy, List.length_eq_zero_iff]

theorem nodup_headHashes (hwf : WellFormed view) (root : RecordHash) :
    (headHashes P (sortChildren P view.lineage) root).Nodup :=
  (sortBy_perm _).nodup_iff.2 ((mem_sorted_component hwf root).1.filter _)

/-- What is revised and revises nothing itself. -/
theorem mem_originRoots (hwf : WellFormed view) {root : RecordHash} :
    root ∈ (sortChildren P view.lineage).children.keys.filter (fun hash =>
        !(sortChildren P view.lineage).parent.has hash) ↔
      view.lineage.childrenOf root ≠ [] ∧ ∀ parent, root ∉ view.lineage.childrenOf parent := by
  rw [List.mem_filter, Bool.not_eq_true', ← Bool.not_eq_true, has_eq_true,
    show (sortChildren P view.lineage).children.keys = view.lineage.children.keys from
      keys_mapVal .., hwf.parent,
    show (sortChildren P view.lineage).parent = view.lineage.parent from rfl, hwf.revision,
    not_exists]

/-- The roots of the cells, in the order in which they are listed. -/
theorem mem_rootHashes (hwf : WellFormed view) {root : RecordHash} :
    root ∈ policy.rootHashes P (sortChildren P view.lineage) ↔
      root ∈ view.lineage.accepted.keys ∧
      if policy.requestedRoots ≠ [] then root ∈ policy.requestedRoots
      else view.lineage.childrenOf root ≠ [] ∧
        ∀ parent, root ∉ view.lineage.childrenOf parent := by
  rw [rootHashes, mem_sortBy]
  split
  · rw [List.mem_filter, has_eq_true]
    exact and_comm
  · rw [mem_originRoots hwf]
    exact ⟨fun h => ⟨hwf.revised h.1, h⟩, fun h => h.2⟩

theorem component_perm (hwf : WellFormed view) (hwf' : WellFormed view')
    (h : SameView view view') (root : RecordHash) :
    (component (sortChildren P view.lineage) root).Perm
      (component (sortChildren P view'.lineage) root) := by
  obtain ⟨hnodup, hmem⟩ := @mem_sorted_component P view hwf root
  obtain ⟨hnodup', hmem'⟩ := @mem_sorted_component P view' hwf' root
  refine (List.perm_ext_iff_of_nodup hnodup hnodup').2 fun hash => ?_
  rw [hmem, hmem', Search.reach_congr fun parent child => (h.children parent).mem_iff]

section Order

variable [Std.TransCmp P.localeCompare]

theorem rootHashes_eq (hdistinct : ComparesHashes P) (hwf : WellFormed view)
    (hwf' : WellFormed view') (h : SameView view view') :
    policy.rootHashes P (sortChildren P view.lineage) =
      policy.rootHashes P (sortChildren P view'.lineage) := by
  have hcompare : compareAccepted P (sortChildren P view.lineage) =
      compareAccepted P (sortChildren P view'.lineage) := compareAccepted_eq h
  have hown : ∀ {hash entry}, (sortChildren P view.lineage).accepted.get? hash = some entry →
      entry.recordHash = hash := hwf.own
  unfold rootHashes
  rw [← hcompare]
  refine (sortAccepted_eq hdistinct hown ?_ ?_).2
  · split
    · refine List.Perm.of_eq (List.filter_congr fun hash _ => Bool.eq_iff_iff.2 ?_)
      rw [has_eq_true, has_eq_true]
      exact mem_accepted_iff h
    · refine (List.perm_ext_iff_of_nodup ((sortChildren P view.lineage).children.nodup.filter _)
        ((sortChildren P view'.lineage).children.nodup.filter _)).2 fun hash => ?_
      have hempty : ∀ parent, view.lineage.childrenOf parent ≠ [] ↔
          view'.lineage.childrenOf parent ≠ [] := fun parent =>
        not_congr ⟨fun hnil => List.nil_perm.1 (hnil ▸ h.children parent),
          fun hnil => List.perm_nil.1 (hnil ▸ h.children parent)⟩
      rw [← keys, ← keys, mem_originRoots hwf, mem_originRoots hwf', hempty]
      simp only [(h.children _).mem_iff]
  · intro hash hmem
    split at hmem
    · exact has_eq_true.1 (List.mem_filter.1 hmem).2
    · exact hwf.revised ((mem_originRoots hwf).1 hmem).1

theorem headHashes_eq (hdistinct : ComparesHashes P) (hwf : WellFormed view)
    (hwf' : WellFormed view') (h : SameView view view') {root : RecordHash}
    (hroot : root ∈ view.lineage.accepted.keys) :
    headHashes P (sortChildren P view.lineage) root =
      headHashes P (sortChildren P view'.lineage) root := by
  have hcompare : compareAccepted P (sortChildren P view.lineage) =
      compareAccepted P (sortChildren P view'.lineage) := compareAccepted_eq h
  have hown : ∀ {hash entry}, (sortChildren P view.lineage).accepted.get? hash = some entry →
      entry.recordHash = hash := hwf.own
  unfold headHashes
  rw [← hcompare, ← sorted_childrenOf_eq hdistinct hwf h]
  refine (sortAccepted_eq hdistinct hown ((component_perm hwf hwf' h root).filter _) ?_).1
  intro hash hmem
  exact accepted_of_reach hwf hroot (((mem_sorted_component hwf root).2 hash).1
    (List.mem_filter.1 hmem).1)

theorem cells_eq (hdistinct : ComparesHashes P) (hwf : WellFormed view)
    (hwf' : WellFormed view') (h : SameView view view') :
    policy.cells P { view with lineage := sortChildren P view.lineage } =
      policy.cells P { view' with lineage := sortChildren P view'.lineage } := by
  unfold cells
  dsimp only
  rw [← rootHashes_eq hdistinct hwf hwf' h]
  refine List.filterMap_congr fun root hroot => ?_
  have hroot := ((mem_rootHashes hwf).1 hroot).1
  have hget : (sortChildren P view'.lineage).accepted.get? root =
      (sortChildren P view.lineage).accepted.get? root := (congrFun h.accepted root).symm
  rw [hget]
  refine Option.map_congr fun entry _ => ?_
  have hperm := @component_perm P view view' hwf hwf' h root
  unfold cell
  dsimp only
  rw [← headHashes_eq hdistinct hwf hwf' h hroot, hperm.length_eq]
  have hview : ∀ hash, (sortChildren P view'.lineage).accepted.get? hash =
      (sortChildren P view.lineage).accepted.get? hash := fun hash => (congrFun h.accepted hash).symm
  simp only [hview]
  have hexcluded : (view.excluded.filter fun entry =>
      entry.targetRecordHash.any (component (sortChildren P view.lineage) root).contains).length =
      (view'.excluded.filter fun entry =>
      entry.targetRecordHash.any (component (sortChildren P view'.lineage) root).contains).length := by
    have hcontains : (component (sortChildren P view.lineage) root).contains =
        (component (sortChildren P view'.lineage) root).contains := by
      funext hash
      rw [Bool.eq_iff_iff, List.contains_iff_mem, List.contains_iff_mem, hperm.mem_iff]
    rw [← hcontains]
    exact (h.excluded.filter _).length_eq
  rw [hexcluded]

theorem allExcluded_eq (hdistinct : ComparesHashes P) (hwf : WellFormed view)
    (h : SameView view view') :
    sortBy (compareExcluded P) view.excluded = sortBy (compareExcluded P) view'.excluded := by
  have hhash := transCmp_on P.localeCompare fun item : StateExcludedRevision => item.recordHash.val
  have htarget := transCmp_on P.localeCompare fun item : StateExcludedRevision =>
    (item.targetRecordHash.map Subtype.val).getD ""
  have hreason := transCmp_on P.localeCompare fun item : StateExcludedRevision => item.reason.text
  have htrans : Std.TransCmp (compareExcluded P) :=
    transCmp_then (transCmp_then hhash htarget) hreason
  refine sortBy_eq_of_perm h.excluded fun a ha b hb heq => ?_
  unfold compareExcluded at heq
  rw [Ordering.then_eq_eq, Ordering.then_eq_eq] at heq
  exact List.inj_on_of_nodup_map hwf.excluded ha hb (hdistinct _ _ heq.1.1)

/-- Another order of the loaded records gives the same projection. -/
theorem project_perm (hcompares : ComparesHashes P) {loaded loaded' : List LoadedRecord}
    (hdistinct : (loaded.map (·.recordHash)).Nodup) (hperm : loaded.Perm loaded') :
    policy.project P loaded = policy.project P loaded' := by
  have hdistinct' := (hperm.map (·.recordHash)).nodup_iff.1 hdistinct
  obtain ⟨origins, taken, h⟩ := view_spec P policy hdistinct
  obtain ⟨origins', taken', h'⟩ := view_spec P policy hdistinct'
  have hsame := sameView_of_perm hdistinct hperm h h'
  have hwf := h.wellFormed hdistinct
  have hwf' := h'.wellFormed hdistinct'
  have hunresolved : (policy.requestedRoots.filter fun hash =>
      !(policy.view P loaded).lineage.accepted.has hash) =
      policy.requestedRoots.filter fun hash =>
        !(policy.view P loaded').lineage.accepted.has hash := by
    refine List.filter_congr fun hash _ => congrArg (! ·) (Bool.eq_iff_iff.2 ?_)
    rw [has_eq_true, has_eq_true]
    exact mem_accepted_iff hsame
  unfold project
  dsimp only
  rw [cells_eq hcompares hwf hwf' hsame, allExcluded_eq hcompares hwf hsame, hunresolved]

end Order

end Same

/-! ## What the projection says -/

/-- An accepted record that revises the other supersedes it. -/
def Supersedes (loaded : List LoadedRecord) (A : Set RecordHash) (parent child : RecordHash) :
    Prop :=
  child ∈ A ∧ ∃ entry ∈ loaded, entry.recordHash = child ∧ entry.isRevision = true ∧
    entry.revisionTarget = some parent

/-- The heads of a cell are the accepted records of the lineage that nothing supersedes. -/
structure CellExact (loaded : List LoadedRecord) (A : Set RecordHash) (headLimit : ℕ)
    (cell : StateCell) : Prop where
  root : cell.root.recordHash ∈ A
  heads : ∃ heads : List RecordHash, heads.Nodup ∧
    (∀ hash, hash ∈ heads ↔
      Relation.ReflTransGen (Supersedes loaded A) cell.root.recordHash hash ∧
      ∀ child, ¬ Supersedes loaded A hash child) ∧
    cell.totalActiveHeads = heads.length ∧
    cell.activeHeads.map (·.recordHash) = heads.take headLimit
  conflict : cell.status = .conflict ↔ 1 < cell.totalActiveHeads
  resolved : cell.status = .resolved ↔ cell.totalActiveHeads = 1

/-- What the projection says when `A` is accepted. -/
structure ExactProjection (policy : ProjectionPolicy) (loaded : List LoadedRecord)
    (A : Set RecordHash) (projection : StateProjection) : Prop where
  unresolved : ∀ hash, hash ∈ projection.unresolvedRootHashes ↔
    hash ∈ policy.requestedRoots ∧ hash ∉ A
  cells : ∃ cells : List StateCell, (∀ cell ∈ cells, CellExact loaded A policy.headLimit cell) ∧
    (∀ hash, (∃ cell ∈ cells, cell.root.recordHash = hash) ↔ hash ∈ A ∧
      if policy.requestedRoots ≠ [] then hash ∈ policy.requestedRoots
      else (∃ child, Supersedes loaded A hash child) ∧
        ∀ parent, ¬ Supersedes loaded A parent hash) ∧
    projection.totalCells = cells.length ∧
    projection.conflictCount = (cells.filter (·.status = .conflict)).length ∧
    projection.cells = cells.take policy.limit

/-- Two projections that differ in where their lists are cut off. -/
structure AgreeUpToCaps (a b : StateProjection) : Prop where
  totalCells : a.totalCells = b.totalCells
  conflictCount : a.conflictCount = b.conflictCount
  unresolved : a.unresolvedRootHashes = b.unresolvedRootHashes
  totalExcluded : a.totalExcludedRevisions = b.totalExcludedRevisions
  excluded : a.excludedRevisions = b.excludedRevisions
  cells : ∀ (i : ℕ) (x y : StateCell), a.cells[i]? = some x → b.cells[i]? = some y →
    x.root = y.root ∧ x.status = y.status ∧ x.totalActiveHeads = y.totalActiveHeads ∧
    x.revisionCount = y.revisionCount ∧ x.excludedRevisionCount = y.excludedRevisionCount ∧
    (x.activeHeads <+: y.activeHeads ∨ y.activeHeads <+: x.activeHeads)

section Exact

variable {origins : InsertionMap RecordHash LoadedRecord} {taken : List PendingRevision}

theorem recordHash_views {lineage : Lineage} (hown : ∀ {hash entry},
      lineage.accepted.get? hash = some entry → entry.recordHash = hash)
    {l : List RecordHash} (hl : ∀ hash ∈ l, hash ∈ lineage.accepted.keys) :
    (l.filterMap fun hash => (lineage.accepted.get? hash).map policy.recordView).map
      (·.recordHash) = l := by
  induction l with
  | nil => rfl
  | cons hash l ih =>
      obtain ⟨entry, hget⟩ := exists_get? (hl hash List.mem_cons_self)
      rw [List.filterMap_cons, hget]
      show entry.recordHash :: _ = hash :: l
      rw [hown hget, ih fun h hh => hl h (List.mem_cons_of_mem _ hh)]

theorem cell_exact (hdistinct : (loaded.map (·.recordHash)).Nodup)
    (h : ViewSpec P policy loaded origins taken (policy.view P loaded)) {root : RecordHash}
    {entry : LoadedRecord} (hget : (policy.view P loaded).lineage.accepted.get? root = some entry) :
    CellExact loaded (acceptedSet P policy loaded) policy.headLimit
      (policy.cell P { policy.view P loaded with
        lineage := sortChildren P (policy.view P loaded).lineage } root entry) := by
  have hwf := h.wellFormed hdistinct
  have hroot : root ∈ (policy.view P loaded).lineage.accepted.keys :=
    mem_keys_iff_get?.2 (by rw [hget]; rfl)
  have hsupersedes : ∀ parent child, child ∈ (policy.view P loaded).lineage.childrenOf parent ↔
      Supersedes loaded (acceptedSet P policy loaded) parent child :=
    fun _ _ => h.mem_childrenOf hdistinct
  have hreach : Search.Reach (policy.view P loaded).lineage.childrenOf =
      Relation.ReflTransGen (Supersedes loaded (acceptedSet P policy loaded)) := by
    unfold Search.Reach
    congr 1
    funext parent child
    exact propext (hsupersedes parent child)
  have hnil : ∀ hash, (policy.view P loaded).lineage.childrenOf hash = [] ↔
      ∀ child, ¬ Supersedes loaded (acceptedSet P policy loaded) hash child := by
    intro hash
    rw [List.eq_nil_iff_forall_not_mem]
    simp only [hsupersedes]
  have hheads : ∀ hash, hash ∈ headHashes P (sortChildren P (policy.view P loaded).lineage) root ↔
      Relation.ReflTransGen (Supersedes loaded (acceptedSet P policy loaded)) root hash ∧
      ∀ child, ¬ Supersedes loaded (acceptedSet P policy loaded) hash child := by
    intro hash
    rw [mem_headHashes hwf, hreach, hnil]
  have hsome : headHashes P (sortChildren P (policy.view P loaded).lineage) root ≠ [] := by
    obtain ⟨leaf, hleaf, hend⟩ := h.exists_leaf hdistinct root
    exact List.ne_nil_of_mem ((mem_headHashes hwf).2 ⟨hleaf, hend⟩)
  have hpos := List.length_pos_iff.2 hsome
  have hrootHash : (policy.recordView entry).recordHash = root := hwf.own hget
  refine ⟨?_, ⟨_, nodup_headHashes hwf root, ?_, rfl, ?_⟩, ?_, ?_⟩
  · show (policy.recordView entry).recordHash ∈ _
    rw [hrootHash]
    exact hroot
  · intro hash
    show _ ↔ Relation.ReflTransGen _ (policy.recordView entry).recordHash hash ∧ _
    rw [hrootHash]
    exact hheads hash
  · refine @recordHash_views policy (sortChildren P (policy.view P loaded).lineage) hwf.own _
      fun hash hmem => ?_
    exact accepted_of_reach hwf hroot ((mem_headHashes hwf).1 (List.mem_of_mem_take hmem)).1
  · show (if _ = 1 then CellStatus.resolved else .conflict) = .conflict ↔ 1 < List.length _
    by_cases hone : (headHashes P (sortChildren P (policy.view P loaded).lineage) root).length = 1
    · rw [if_pos hone, hone]
      exact iff_of_false nofun (lt_irrefl 1)
    · rw [if_neg hone]
      exact iff_of_true rfl (lt_of_le_of_ne hpos (Ne.symm hone))
  · show (if _ = 1 then CellStatus.resolved else .conflict) = .resolved ↔ List.length _ = 1
    by_cases hone : (headHashes P (sortChildren P (policy.view P loaded).lineage) root).length = 1
    · rw [if_pos hone]
      exact iff_of_true rfl hone
    · rw [if_neg hone]
      exact iff_of_false nofun hone

theorem project_exact (hdistinct : (loaded.map (·.recordHash)).Nodup) :
    ExactProjection policy loaded (acceptedSet P policy loaded) (policy.project P loaded) := by
  obtain ⟨origins, taken, h⟩ := view_spec P policy hdistinct
  have hwf := h.wellFormed hdistinct
  constructor
  · intro hash
    show hash ∈ policy.requestedRoots.filter _ ↔ _
    rw [List.mem_filter, Bool.not_eq_true', ← Bool.not_eq_true, has_eq_true]
    rfl
  · refine ⟨policy.cells P { policy.view P loaded with
      lineage := sortChildren P (policy.view P loaded).lineage }, ?_, ?_, rfl, rfl, rfl⟩
    · intro cell hcell
      obtain ⟨root, -, hmap⟩ := List.mem_filterMap.1 hcell
      obtain ⟨entry, hget, rfl⟩ := Option.map_eq_some_iff.1 hmap
      exact cell_exact hdistinct h hget
    · intro hash
      have hmem : (∃ cell ∈ policy.cells P { policy.view P loaded with
          lineage := sortChildren P (policy.view P loaded).lineage },
          cell.root.recordHash = hash) ↔
          hash ∈ policy.rootHashes P (sortChildren P (policy.view P loaded).lineage) := by
        constructor
        · rintro ⟨cell, hcell, rfl⟩
          obtain ⟨root, hroot, hmap⟩ := List.mem_filterMap.1 hcell
          obtain ⟨entry, hget, rfl⟩ := Option.map_eq_some_iff.1 hmap
          show entry.recordHash ∈ _
          rw [hwf.own hget]
          exact hroot
        · intro hroot
          obtain ⟨entry, hget⟩ := exists_get? ((mem_rootHashes hwf).1 hroot).1
          refine ⟨_, List.mem_filterMap.2 ⟨hash, hroot, Option.map_eq_some_iff.2 ⟨entry, hget, rfl⟩⟩, ?_⟩
          exact hwf.own hget
      rw [hmem, mem_rootHashes hwf]
      refine and_congr_right fun _ => ?_
      split
      · rfl
      · refine and_congr ?_ (forall_congr' fun parent => not_congr (h.mem_childrenOf hdistinct))
        rw [Ne, List.eq_nil_iff_forall_not_mem, not_forall_not]
        exact exists_congr fun child => h.mem_childrenOf hdistinct

/-- Two cells that differ in how many heads they list. -/
structure SameCell (x y : StateCell) : Prop where
  root : x.root = y.root
  status : x.status = y.status
  totalActiveHeads : x.totalActiveHeads = y.totalActiveHeads
  revisionCount : x.revisionCount = y.revisionCount
  excludedRevisionCount : x.excludedRevisionCount = y.excludedRevisionCount
  activeHeads : x.activeHeads <+: y.activeHeads ∨ y.activeHeads <+: x.activeHeads

/-- One of two beginnings of a list begins the other. -/
theorem take_prefix_or {α : Type} (l : List α) (m n : ℕ) :
    l.take m <+: l.take n ∨ l.take n <+: l.take m := by
  rcases le_total m n with h | h
  · exact .inl (List.take_prefix_take_left h)
  · exact .inr (List.take_prefix_take_left h)

theorem sameCell_caps (limit headLimit : ℕ) (view : View) (root : RecordHash)
    (entry : LoadedRecord) : SameCell (policy.cell P view root entry)
      (ProjectionPolicy.cell P { policy with limit, headLimit } view root entry) where
  root := rfl
  status := rfl
  totalActiveHeads := rfl
  revisionCount := rfl
  excludedRevisionCount := rfl
  activeHeads :=
    (take_prefix_or (headHashes P view.lineage root) policy.headLimit headLimit).imp
      (fun h => h.filterMap _) (fun h => h.filterMap _)

theorem sameCells_caps (limit headLimit : ℕ) (view : View) :
    List.Forall₂ SameCell (policy.cells P view)
      (ProjectionPolicy.cells P { policy with limit, headLimit } view) := by
  show List.Forall₂ SameCell ((policy.rootHashes P view.lineage).filterMap _)
    ((policy.rootHashes P view.lineage).filterMap _)
  induction policy.rootHashes P view.lineage with
  | nil => exact .nil
  | cons root roots ih =>
      rw [List.filterMap_cons, List.filterMap_cons]
      cases view.lineage.accepted.get? root with
      | none => exact ih
      | some entry => exact .cons (sameCell_caps limit headLimit view root entry) ih

theorem getElem?_sameCell {l l' : List StateCell} (h : List.Forall₂ SameCell l l') :
    ∀ {i : ℕ} {x y : StateCell}, l[i]? = some x → l'[i]? = some y → SameCell x y := by
  induction h with
  | nil => nofun
  | cons hxy _ ih =>
      intro i x y hx hy
      cases i with
      | zero =>
          obtain rfl := Option.some.inj hx
          obtain rfl := Option.some.inj hy
          exact hxy
      | succ i => exact ih hx hy

theorem conflicts_sameCell {l l' : List StateCell} (h : List.Forall₂ SameCell l l') :
    (l.filter (·.status = .conflict)).length = (l'.filter (·.status = .conflict)).length := by
  induction h with
  | nil => rfl
  | @cons x y _ _ hxy _ ih =>
      rw [List.filter_cons, List.filter_cons, hxy.status]
      split
      · exact congrArg (· + 1) ih
      · exact ih

/-- Where the lists are cut off changes nothing else. -/
theorem project_caps (limit headLimit : ℕ) :
    AgreeUpToCaps (policy.project P loaded)
      (ProjectionPolicy.project P { policy with limit, headLimit } loaded) := by
  have hsame := @sameCells_caps P policy limit headLimit { policy.view P loaded with
    lineage := sortChildren P (policy.view P loaded).lineage }
  refine ⟨hsame.length_eq, conflicts_sameCell hsame, rfl, rfl, rfl, fun i x y hx hy => ?_⟩
  have hin : ∀ {l : List StateCell} {n : ℕ} {z}, (l.take n)[i]? = some z → l[i]? = some z := by
    intro l n z hz
    rw [List.getElem?_take] at hz
    split at hz
    · exact hz
    · cases hz
  have hcell := getElem?_sameCell hsame (hin hx) (hin hy)
  exact ⟨hcell.root, hcell.status, hcell.totalActiveHeads, hcell.revisionCount,
    hcell.excludedRevisionCount, hcell.activeHeads⟩

/-- Only the caps of a policy come from the caps of the options. -/
theorem policy_caps {options : StateProjectionOptions} {policy policy' : ProjectionPolicy}
    {limit headLimit : Option JsNumber} (h : options.policy = .ok policy)
    (h' : StateProjectionOptions.policy { options with limit, headLimit } = .ok policy') :
    policy' = { policy with limit := policy'.limit, headLimit := policy'.headLimit } := by
  unfold StateProjectionOptions.policy at h h'
  cases hlimit : boundedLimit options.limit 100 1000 "state projection limit" with
  | error e => rw [hlimit] at h; cases h
  | ok a =>
  cases hhead : boundedLimit options.headLimit 100 1000 "state projection head_limit" with
  | error e => rw [hlimit, hhead] at h; cases h
  | ok b =>
  cases hlimit' : boundedLimit limit 100 1000 "state projection limit" with
  | error e => rw [hlimit'] at h'; cases h'
  | ok a' =>
  cases hhead' : boundedLimit headLimit 100 1000 "state projection head_limit" with
  | error e => rw [hlimit', hhead'] at h'; cases h'
  | ok b' =>
  cases hroots : (sortedUnique options.rootRecordHashes).mapM rootHash with
  | error e => rw [hlimit, hhead, hroots] at h; cases h
  | ok roots =>
      rw [hlimit, hhead, hroots] at h
      rw [hlimit', hhead', hroots] at h'
      cases h
      cases h'
      rfl

/-- The projection is exact, the order of the loaded records does not show in it, and its caps cut
lists off and do nothing else. -/
theorem projectAcceptedState_exact [Std.TransCmp P.localeCompare] (hcompares : ComparesHashes P)
    (hdistinct : (loaded.map (·.recordHash)).Nodup) (options : StateProjectionOptions) :
    (∀ loaded', loaded.Perm loaded' →
      projectAcceptedState P loaded' options = projectAcceptedState P loaded options) ∧
    ∀ projection, projectAcceptedState P loaded options = .ok projection →
      (∃ policy A, options.policy = .ok policy ∧
        IsLeast {S | acceptanceRule P policy loaded S = S} A ∧
        ExactProjection policy loaded A projection) ∧
      ∀ limit headLimit capped,
        projectAcceptedState P loaded { options with limit, headLimit } = .ok capped →
        AgreeUpToCaps projection capped := by
  have hproject : ∀ (loaded : List LoadedRecord) (options : StateProjectionOptions),
      projectAcceptedState P loaded options =
        options.policy.map fun policy => policy.project P loaded := by
    intro loaded options
    unfold projectAcceptedState
    cases options.policy <;> rfl
  refine ⟨fun loaded' hperm => ?_, fun projection hprojection => ?_⟩
  · rw [hproject, hproject]
    congr 1
    funext policy
    exact (project_perm hcompares hdistinct hperm).symm
  · rw [hproject] at hprojection
    cases hpolicy : options.policy with
    | error e =>
        rw [hpolicy] at hprojection
        cases hprojection
    | ok policy =>
        rw [hpolicy] at hprojection
        obtain rfl := Except.ok.inj hprojection
        obtain ⟨origins, taken, h⟩ := view_spec P policy hdistinct
        refine ⟨⟨policy, _, rfl, h.isLeast, project_exact hdistinct⟩, ?_⟩
        intro limit headLimit capped hcapped
        rw [hproject] at hcapped
        cases hpolicy' : StateProjectionOptions.policy { options with limit, headLimit } with
        | error e =>
            rw [hpolicy'] at hcapped
            cases hcapped
        | ok policy' =>
            rw [hpolicy'] at hcapped
            obtain rfl := Except.ok.inj hcapped
            rw [policy_caps hpolicy hpolicy']
            exact project_caps _ _

end Exact

/-! ### A fork of two revisions -/

namespace ForkSample

def key : String := "iojj3XQJ8ZX9UtstPLpdcspnCb8dlBIb83SIAbQPb1w"

def context : String := "aaaaaaaaaaaaaaaaaaaaaaaaaaaaaaaa"

def rootHash : RecordHash :=
  ⟨"sha256:1271f1dd2515e4b14c9b5c8dadf4ecccd6dffb527ab336d8555f91b2eeaed193", by decide +kernel⟩

def leftHash : RecordHash :=
  ⟨"sha256:f309970ad11cce8bf9f9225835304df2a6b9b371dcc01ac099397ba10c00005a", by decide +kernel⟩

def rightHash : RecordHash :=
  ⟨"sha256:f6ef32c8a52cd49dd54468a7ae9e77cb0a7b04b4cc301f03a7927dae40c0ec86", by decide +kernel⟩

def revision (timestamp : ℤ) (hash : RecordHash) : LoadedRecord where
  record := ⟨key, context, revisionEventType, timestamp, .string rootHash.val⟩
  recordHash := hash

/-- An observation, and two records that revise it. -/
def forked : List LoadedRecord :=
  [{ record := ⟨key, context, "https://atrib.dev/v1/types/observation", 1, .undefined⟩
     recordHash := rootHash },
    revision 2 leftHash, revision 3 rightHash]

/-- The three records verify. Texts of digits and small letters are ordered by their characters. -/
def platform : ProjectionPlatform where
  verifyRecord entry := [rootHash, leftHash, rightHash].contains entry.recordHash
  localeCompare a b := compare a b

def forkPolicy : ProjectionPolicy := ⟨[], none, none, true, 100, 100⟩

theorem projectAcceptedState_exact_fork :
    (∀ loaded', forked.Perm loaded' →
      projectAcceptedState platform loaded' {} = projectAcceptedState platform forked {}) ∧
    ∃ projection, projectAcceptedState platform forked {} = .ok projection ∧
      ∃ policy A, StateProjectionOptions.policy {} = .ok policy ∧
        IsLeast {S | acceptanceRule platform policy forked S = S} A ∧
        ExactProjection policy forked A projection := by
  have hcompares : ComparesHashes platform := by
    intro a b h
    exact Subtype.ext (@Std.LawfulEqCmp.eq_of_compare String compare _ a.val b.val h)
  have : Std.TransCmp platform.localeCompare := inferInstanceAs (Std.TransOrd String)
  have hdistinct : (forked.map (·.recordHash)).Nodup := by decide +kernel
  obtain ⟨hperm, hexact⟩ := projectAcceptedState_exact hcompares hdistinct {}
  have hpolicy : StateProjectionOptions.policy {} = .ok forkPolicy := by
    have hnone : sortedUnique none = [] := by decide +kernel
    simp only [StateProjectionOptions.policy, policySet, hnone]
    rfl
  have hproject :
      projectAcceptedState platform forked {} = .ok (forkPolicy.project platform forked) := by
    rw [projectAcceptedState, hpolicy]
    rfl
  exact ⟨hperm, _, hproject, (hexact _ hproject).1⟩

end ForkSample

end Atrib.Recall
