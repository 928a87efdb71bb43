import Atrib.Recall.StateProjection
import Mathlib.Data.List.Induction
import Mathlib.Order.Bounds.Basic

/-!
# What a view accepts

The loop that accepts revisions goes through them again and again, from the
last to the first, until a pass takes none. Whatever the order, what it takes
is told by the revisions alone: a revision is taken exactly if it passes the
policy and revises an accepted record. The accepted records are the least set
with that property, and the lineage lists each taken revision once under what
it revises.
-/

namespace Atrib.Recall

open Lib InsertionMap

/-! ## Loaded records by their hashes -/

theorem get?_byHash {loaded : List LoadedRecord} (hdistinct : (loaded.map (·.recordHash)).Nodup)
    {hash : RecordHash} {entry : LoadedRecord} :
    ((∅ : InsertionMap RecordHash LoadedRecord).setAll
      (loaded.map fun entry => (entry.recordHash, entry))).get? hash = some entry ↔
      entry ∈ loaded ∧ entry.recordHash = hash := by
  have hentries : ((∅ : InsertionMap RecordHash LoadedRecord).setAll
      (loaded.map fun entry => (entry.recordHash, entry))).entries =
      loaded.map fun entry => (entry.recordHash, entry) :=
    entries_setAll (by rw [List.map_map]; exact hdistinct) (fun _ _ h => by cases h)
  constructor
  · intro h
    have hmem := get?_mem h
    rw [hentries, List.mem_map] at hmem
    obtain ⟨e, he, heq⟩ := hmem
    cases heq
    exact ⟨he, rfl⟩
  · rintro ⟨he, rfl⟩
    refine get?_of_mem ?_
    rw [hentries]
    exact List.mem_map.2 ⟨entry, he, rfl⟩

theorem values_byHash {loaded : List LoadedRecord}
    (hdistinct : (loaded.map (·.recordHash)).Nodup) :
    ((∅ : InsertionMap RecordHash LoadedRecord).setAll
      (loaded.map fun entry => (entry.recordHash, entry))).values = loaded := by
  rw [values, entries_setAll (by rw [List.map_map]; exact hdistinct) (fun _ _ h => by cases h),
    entries_empty, List.nil_append, List.map_map]
  exact List.map_id loaded

/-! ## Revisions that are taken into a lineage -/

namespace Lineage

theorem childrenOf_accept (lineage : Lineage) (pending : PendingRevision) (hash : RecordHash) :
    (lineage.accept pending).childrenOf hash = lineage.childrenOf hash ++
      if pending.target = hash then [pending.revision.recordHash] else [] := by
  rw [childrenOf, accept, get?_set]
  by_cases h : hash = pending.target
  · rw [if_pos h, if_pos h.symm, h]
    rfl
  · rw [if_neg h, if_neg (Ne.symm h), List.append_nil]
    rfl

variable {lineage : Lineage} {taken : List PendingRevision}

theorem childrenOf_foldl (hash : RecordHash) : (taken.foldl accept lineage).childrenOf hash =
    lineage.childrenOf hash ++
      (taken.filter (·.target = hash)).map fun pending => pending.revision.recordHash := by
  induction taken generalizing lineage with
  | nil => exact (List.append_nil _).symm
  | cons pending taken ih =>
      rw [List.foldl_cons, ih, childrenOf_accept, List.append_assoc]
      congr 1
      by_cases h : pending.target = hash
      · rw [if_pos h, List.filter_cons, if_pos (decide_eq_true h)]
        rfl
      · rw [if_neg h, List.filter_cons, if_neg (by simpa using h)]
        rfl

theorem accepted_foldl : (taken.foldl accept lineage).accepted =
    lineage.accepted.setAll (taken.map fun pending =>
      (pending.revision.recordHash, pending.revision)) := by
  induction taken generalizing lineage with
  | nil => rfl
  | cons pending taken ih =>
      rw [List.foldl_cons, ih]
      rfl

theorem mem_children_foldl {hash : RecordHash} :
    hash ∈ (taken.foldl accept lineage).children.keys ↔
      hash ∈ lineage.children.keys ∨ ∃ pending ∈ taken, pending.target = hash := by
  induction taken generalizing lineage with
  | nil => simp
  | cons pending taken ih =>
      rw [List.foldl_cons, ih, accept, mem_keys_set, or_assoc]
      simp [eq_comm]

theorem mem_parent_foldl {hash : RecordHash} :
    hash ∈ (taken.foldl accept lineage).parent.keys ↔
      hash ∈ lineage.parent.keys ∨ ∃ pending ∈ taken, pending.revision.recordHash = hash := by
  induction taken generalizing lineage with
  | nil => simp
  | cons pending taken ih =>
      rw [List.foldl_cons, ih, accept, mem_keys_set, or_assoc]
      simp [eq_comm]

theorem mem_accepted_foldl {hash : RecordHash} :
    hash ∈ (taken.foldl accept lineage).accepted.keys ↔
      hash ∈ lineage.accepted.keys ∨ ∃ pending ∈ taken, pending.revision.recordHash = hash := by
  rw [accepted_foldl, mem_keys_setAll, List.map_map]
  simp [List.mem_map]

end Lineage

/-- What was ready when it was taken revises an accepted record. -/
theorem TakenReady.target_mem {lineage : Lineage} {taken : List PendingRevision}
    (h : TakenReady Lineage.ready Lineage.accept lineage taken) :
    ∀ pending ∈ taken, pending.target ∈ (taken.foldl Lineage.accept lineage).accepted.keys := by
  induction taken generalizing lineage with
  | nil => nofun
  | cons first taken ih =>
      intro pending hpending
      rw [List.foldl_cons]
      rcases List.mem_cons.1 hpending with rfl | hpending
      · refine Lineage.mem_accepted_foldl.2 (.inl ?_)
        exact mem_keys_set.2 (.inl (has_eq_true.1 h.1))
      · exact ih h.2 pending hpending

/-! ## The rule of acceptance -/

variable (P : ProjectionPlatform) (policy : ProjectionPolicy) (loaded : List LoadedRecord)

/-- The record verifies, and the policy has nothing against its creator and its context. -/
def Admitted (entry : LoadedRecord) : Prop :=
  policy.exclusionReason entry (P.verifyRecord entry) = none

/-- What a revision may hang under: what is asked for, the revisions, and what they revise. -/
def Candidate (hash : RecordHash) : Prop :=
  hash ∈ policy.requestedRoots ∨ ∃ revision ∈ loaded, revision.isRevision = true ∧
    (revision.recordHash = hash ∨ revision.revisionTarget = some hash)

/-- What is accepted when `S` is: an admitted candidate that is no revision, and an admitted
revision of a member of `S`. -/
def acceptanceRule (S : Set RecordHash) : Set RecordHash :=
  {hash | ∃ entry ∈ loaded, entry.recordHash = hash ∧ Admitted P policy entry ∧
    if entry.isRevision then ∃ target ∈ S, entry.revisionTarget = some target
    else Candidate policy loaded hash}

/-- The records the view accepts. -/
def acceptedSet : Set RecordHash := {hash | hash ∈ (policy.view P loaded).lineage.accepted.keys}

/-- A revision the policy admits, and the loaded record it revises. -/
structure Pending (pending : PendingRevision) : Prop where
  mem : pending.revision ∈ loaded
  revision : pending.revision.isRevision = true
  admitted : Admitted P policy pending.revision
  target : pending.revision.revisionTarget = some pending.target
  found : ∃ entry ∈ loaded, entry.recordHash = pending.target

variable {P policy loaded}

theorem mem_addCandidate {hashes : List RecordHash} {revision : LoadedRecord}
    {hash : RecordHash} : hash ∈ ProjectionPolicy.addCandidate hashes revision ↔
      hash ∈ hashes ∨ revision.recordHash = hash ∨ revision.revisionTarget = some hash := by
  unfold ProjectionPolicy.addCandidate
  cases revision.revisionTarget with
  | none => simp [eq_comm]
  | some target => simp [eq_comm, or_assoc]

theorem mem_candidateHashes {revisions : List LoadedRecord} {hash : RecordHash} :
    hash ∈ policy.candidateHashes revisions ↔ hash ∈ policy.requestedRoots ∨
      ∃ revision ∈ revisions, revision.recordHash = hash ∨ revision.revisionTarget = some hash := by
  have hfold : ∀ start : List RecordHash,
      hash ∈ revisions.foldl ProjectionPolicy.addCandidate start ↔
      hash ∈ start ∨ ∃ revision ∈ revisions,
        revision.recordHash = hash ∨ revision.revisionTarget = some hash := by
    induction revisions with
    | nil => simp
    | cons revision revisions ih =>
        intro start
        rw [List.foldl_cons, ih, mem_addCandidate, or_assoc]
        simp
  rw [ProjectionPolicy.candidateHashes, hfold, InsertionSet.mem_ofList]

/-! ## The parts of the view -/

section Parts

variable {byHash : InsertionMap RecordHash LoadedRecord} {candidates : List RecordHash}

theorem signatureValid_eq {hash : RecordHash} {entry : LoadedRecord} (hcandidate : hash ∈ candidates)
    (hget : byHash.get? hash = some entry) :
    ProjectionPolicy.signatureValid P byHash candidates hash = P.verifyRecord entry := by
  rw [ProjectionPolicy.signatureValid, List.contains_iff_mem.2 hcandidate, hget]
  rfl

/-- One candidate after the other, what is no revision and admitted is accepted. -/
theorem get?_foldl_acceptOrigin {hashes : List RecordHash} (hsub : ∀ hash ∈ hashes, hash ∈ candidates)
    {accepted : InsertionMap RecordHash LoadedRecord}
    (hold : ∀ {hash entry}, accepted.get? hash = some entry →
      byHash.get? hash = some entry ∧ entry.isRevision = false ∧ Admitted P policy entry)
    {hash : RecordHash} {entry : LoadedRecord} :
    (hashes.foldl (policy.acceptOrigin P byHash candidates) accepted).get? hash = some entry ↔
      accepted.get? hash = some entry ∨ (hash ∈ hashes ∧ byHash.get? hash = some entry ∧
        entry.isRevision = false ∧ Admitted P policy entry) := by
  induction hashes generalizing accepted with
  | nil => simp
  | cons first hashes ih =>
      have hfirst := hsub first List.mem_cons_self
      have hnext : ∀ {hash entry},
          (policy.acceptOrigin P byHash candidates accepted first).get? hash = some entry ↔
          accepted.get? hash = some entry ∨ (hash = first ∧ byHash.get? hash = some entry ∧
            entry.isRevision = false ∧ Admitted P policy entry) := by
        intro hash entry
        unfold ProjectionPolicy.acceptOrigin
        cases hget : byHash.get? first with
        | none =>
            refine ⟨.inl, fun h => h.elim id ?_⟩
            rintro ⟨rfl, hsome, -⟩
            rw [hget] at hsome
            cases hsome
        | some found =>
            dsimp only
            rw [signatureValid_eq hfirst hget]
            by_cases hrevision : found.isRevision = true
            · rw [if_pos hrevision]
              refine ⟨.inl, fun h => h.elim id ?_⟩
              rintro ⟨rfl, hsome, hnot, -⟩
              rw [hget, Option.some.injEq] at hsome
              rw [← hsome, hrevision] at hnot
              cases hnot
            · rw [if_neg hrevision]
              by_cases hadmitted : policy.exclusionReason found (P.verifyRecord found) = none
              · rw [if_pos hadmitted, get?_set]
                by_cases hhash : hash = first
                · rw [if_pos hhash, Option.some.injEq]
                  subst hhash
                  constructor
                  · rintro rfl
                    exact .inr ⟨rfl, hget, eq_false_of_ne_true hrevision, hadmitted⟩
                  · rintro (h | ⟨-, h, -⟩)
                    · exact Option.some.inj (hget.symm.trans (hold h).1)
                    · exact Option.some.inj (hget.symm.trans h)
                · rw [if_neg hhash]
                  exact ⟨.inl, fun h => h.elim id fun h => absurd h.1 hhash⟩
              · rw [if_neg hadmitted]
                refine ⟨.inl, fun h => h.elim id ?_⟩
                rintro ⟨rfl, hsome, -, h⟩
                rw [hget, Option.some.injEq] at hsome
                exact absurd (hsome ▸ h) hadmitted
      rw [List.foldl_cons, ih (fun h hh => hsub h (List.mem_cons_of_mem _ hh)), hnext, or_assoc]
      · refine or_congr_right ?_
        rw [List.mem_cons, ← or_and_right]
      · intro hash entry h
        rcases hnext.1 h with h | ⟨-, h⟩
        · exact hold h
        · exact h

/-- What becomes of a revision before the loop. -/
theorem classify_eq_inr {revision : LoadedRecord} {pending : PendingRevision}
    (hcandidate : revision.recordHash ∈ candidates)
    (hget : byHash.get? revision.recordHash = some revision) :
    policy.classify P byHash candidates revision = .inr pending ↔
      pending.revision = revision ∧ Admitted P policy revision ∧
      revision.revisionTarget = some pending.target ∧ pending.target ∈ byHash.keys := by
  unfold ProjectionPolicy.classify Admitted
  rw [signatureValid_eq hcandidate hget]
  cases policy.exclusionReason revision (P.verifyRecord revision) with
  | some reason => simp
  | none =>
      dsimp only
      cases revision.revisionTarget with
      | none => simp
      | some target =>
          dsimp only
          obtain ⟨pendingRevision, pendingTarget⟩ := pending
          by_cases hhas : byHash.has target = true
          · rw [if_pos hhas]
            have hkey := has_eq_true.1 hhas
            simp only [Sum.inr.injEq, PendingRevision.mk.injEq, Option.some.injEq, true_and]
            constructor
            · rintro ⟨rfl, rfl⟩
              exact ⟨rfl, rfl, hkey⟩
            · rintro ⟨rfl, rfl, -⟩
              exact ⟨rfl, rfl⟩
          · rw [if_neg hhas]
            simp only [reduceCtorEq, false_iff]
            rintro ⟨-, -, htarget, hkey⟩
            rw [Option.some.injEq] at htarget
            subst htarget
            exact hhas (has_eq_true.2 hkey)

/-- The revisions that are excluded before the loop. -/
theorem classify_eq_inl {revision : LoadedRecord} {excluded : StateExcludedRevision}
    (hcandidate : revision.recordHash ∈ candidates)
    (hget : byHash.get? revision.recordHash = some revision) :
    policy.classify P byHash candidates revision = .inl excluded ↔
      excluded.recordHash = revision.recordHash ∧
      excluded.targetRecordHash = revision.revisionTarget ∧
      (policy.exclusionReason revision (P.verifyRecord revision) = some excluded.reason ∨
        (Admitted P policy revision ∧ excluded.reason = .targetMissing ∧
          ∀ target, revision.revisionTarget = some target → target ∉ byHash.keys)) := by
  obtain ⟨hash, target, reason⟩ := excluded
  unfold ProjectionPolicy.classify Admitted
  rw [signatureValid_eq hcandidate hget]
  cases policy.exclusionReason revision (P.verifyRecord revision) with
  | some own =>
      simp only [Sum.inl.injEq, StateExcludedRevision.mk.injEq, Option.some.injEq, reduceCtorEq,
        false_and, or_false]
      exact ⟨fun ⟨hhash, htarget, hreason⟩ => ⟨hhash.symm, htarget.symm, hreason⟩,
        fun ⟨hhash, htarget, hreason⟩ => ⟨hhash.symm, htarget.symm, hreason⟩⟩
  | none =>
      dsimp only
      cases revision.revisionTarget with
      | none =>
          simp only [Sum.inl.injEq, StateExcludedRevision.mk.injEq, reduceCtorEq, false_or,
            true_and, false_imp_iff, implies_true, and_true]
          exact ⟨fun ⟨hhash, htarget, hreason⟩ => ⟨hhash.symm, htarget.symm, hreason.symm⟩,
            fun ⟨hhash, htarget, hreason⟩ => ⟨hhash.symm, htarget.symm, hreason.symm⟩⟩
      | some found =>
          dsimp only
          by_cases hhas : byHash.has found = true
          · rw [if_pos hhas]
            simp only [reduceCtorEq, false_or, false_iff]
            rintro ⟨-, -, -, -, hmissing⟩
            exact hmissing found rfl (has_eq_true.1 hhas)
          · rw [if_neg hhas]
            have hkey : found ∉ byHash.keys := fun h => hhas (has_eq_true.2 h)
            simp only [Sum.inl.injEq, StateExcludedRevision.mk.injEq, reduceCtorEq, false_or,
              Option.some.injEq, true_and, forall_eq', hkey, not_false_eq_true, and_true]
            exact ⟨fun ⟨hhash, htarget, hreason⟩ => ⟨hhash.symm, htarget.symm, hreason.symm⟩,
              fun ⟨hhash, htarget, hreason⟩ => ⟨hhash.symm, htarget.symm, hreason.symm⟩⟩

end Parts

/-! ## The view as a whole -/

/-- Why a revision is not in the lineage when the accepted records are `A`. -/
def ExcludedFor (P : ProjectionPlatform) (policy : ProjectionPolicy) (loaded : List LoadedRecord)
    (A : Set RecordHash) (revision : LoadedRecord) (reason : StateExclusionReason) : Prop :=
  policy.exclusionReason revision (P.verifyRecord revision) = some reason ∨
  (Admitted P policy revision ∧ reason = .targetMissing ∧
    ∀ target, revision.revisionTarget = some target →
      ¬ ∃ entry ∈ loaded, entry.recordHash = target) ∨
  (reason = .targetNotAccepted ∧
    ∃ target, Pending P policy loaded ⟨revision, target⟩ ∧ target ∉ A)

/-- What a view consists of: the revisions that were taken, one after the other, on top of the
records that are accepted by themselves, and the other revisions. -/
structure ViewSpec (P : ProjectionPlatform) (policy : ProjectionPolicy)
    (loaded : List LoadedRecord) (origins : InsertionMap RecordHash LoadedRecord)
    (taken : List PendingRevision) (view : ProjectionPolicy.View) : Prop where
  lineage : view.lineage = taken.foldl Lineage.accept { accepted := origins }
  origin : ∀ {hash entry}, origins.get? hash = some entry ↔ entry ∈ loaded ∧
    entry.recordHash = hash ∧ entry.isRevision = false ∧ Admitted P policy entry ∧
    Candidate policy loaded hash
  pending : ∀ item ∈ taken, Pending P policy loaded item
  nodup : (taken.map fun item => item.revision.recordHash).Nodup
  ready : TakenReady Lineage.ready Lineage.accept { accepted := origins } taken
  left : ∀ item, Pending P policy loaded item → item ∉ taken →
    item.target ∉ view.lineage.accepted.keys
  excluded : ∀ {item}, item ∈ view.excluded ↔ ∃ revision ∈ loaded, revision.isRevision = true ∧
    item.recordHash = revision.recordHash ∧ item.targetRecordHash = revision.revisionTarget ∧
    ExcludedFor P policy loaded {hash | hash ∈ view.lineage.accepted.keys} revision item.reason
  excluded_nodup : (view.excluded.map (·.recordHash)).Nodup

theorem view_spec (P : ProjectionPlatform) (policy : ProjectionPolicy) {loaded : List LoadedRecord}
    (hdistinct : (loaded.map (·.recordHash)).Nodup) :
    ∃ origins taken, ViewSpec P policy loaded origins taken (policy.view P loaded) := by
  have hget := @get?_byHash loaded hdistinct
  have hvalues := values_byHash hdistinct
  unfold ProjectionPolicy.view
  generalize (∅ : InsertionMap RecordHash LoadedRecord).setAll
    (loaded.map fun entry => (entry.recordHash, entry)) = byHash at hget hvalues
  dsimp only
  rw [hvalues]
  set revisions := loaded.filter (·.isRevision) with hrevisions
  set candidates := policy.candidateHashes revisions with hcandidates
  set classified := revisions.map (policy.classify P byHash candidates) with hclassified
  have hcandidate : ∀ {hash}, hash ∈ candidates ↔ Candidate policy loaded hash := by
    intro hash
    rw [hcandidates, mem_candidateHashes, Candidate]
    simp only [hrevisions, List.mem_filter, and_assoc]
  have hrevision : ∀ {revision}, revision ∈ revisions ↔
      revision ∈ loaded ∧ revision.isRevision = true := List.mem_filter
  have hkeys : ∀ {hash}, hash ∈ byHash.keys ↔ ∃ entry ∈ loaded, entry.recordHash = hash := by
    intro hash
    rw [mem_keys_iff_get?, Option.isSome_iff_exists]
    exact exists_congr fun _ => hget
  have hown : ∀ {revision}, revision ∈ revisions → revision.recordHash ∈ candidates ∧
      byHash.get? revision.recordHash = some revision := by
    intro revision h
    obtain ⟨hmem, hrev⟩ := hrevision.1 h
    exact ⟨hcandidate.2 (.inr ⟨revision, hmem, hrev, .inl rfl⟩), hget.2 ⟨hmem, rfl⟩⟩
  -- the pending revisions are sorted, which does not change what they are
  set pendings := sortBy (ProjectionPolicy.comparePending P) (classified.filterMap (·.getRight?))
    with hpendings
  have hclassify : ∀ {revision item}, revision ∈ revisions →
      (policy.classify P byHash candidates revision = .inr item ↔
        item.revision = revision ∧ Pending P policy loaded item) := by
    intro revision item h
    obtain ⟨hmem, hrev⟩ := hrevision.1 h
    rw [classify_eq_inr (hown h).1 (hown h).2, hkeys]
    constructor
    · rintro ⟨rfl, hadmitted, htarget, hfound⟩
      exact ⟨rfl, hmem, hrev, hadmitted, htarget, hfound⟩
    · rintro ⟨rfl, hpending⟩
      exact ⟨rfl, hpending.admitted, hpending.target, hpending.found⟩
  have hpending : ∀ {item}, item ∈ pendings ↔ Pending P policy loaded item := by
    intro item
    rw [hpendings, mem_sortBy, List.mem_filterMap]
    constructor
    · rintro ⟨outcome, houtcome, hright⟩
      obtain ⟨revision, hrev, rfl⟩ := List.mem_map.1 houtcome
      exact ((hclassify hrev).1 (Sum.getRight?_eq_some_iff.1 hright)).2
    · intro h
      have hrev := hrevision.2 ⟨h.mem, h.revision⟩
      exact ⟨_, List.mem_map.2 ⟨_, hrev, rfl⟩,
        Sum.getRight?_eq_some_iff.2 ((hclassify hrev).2 ⟨rfl, h⟩)⟩
  have hleft : ∀ {item}, item ∈ classified.filterMap (·.getLeft?) ↔ ∃ revision ∈ revisions,
      item.recordHash = revision.recordHash ∧ item.targetRecordHash = revision.revisionTarget ∧
      (policy.exclusionReason revision (P.verifyRecord revision) = some item.reason ∨
        (Admitted P policy revision ∧ item.reason = .targetMissing ∧
          ∀ target, revision.revisionTarget = some target →
            ¬ ∃ entry ∈ loaded, entry.recordHash = target)) := by
    intro item
    rw [List.mem_filterMap]
    constructor
    · rintro ⟨outcome, houtcome, hitem⟩
      obtain ⟨revision, hrev, rfl⟩ := List.mem_map.1 houtcome
      have hinl := (classify_eq_inl (hown hrev).1 (hown hrev).2).1
        (Sum.getLeft?_eq_some_iff.1 hitem)
      simp only [hkeys] at hinl
      exact ⟨revision, hrev, hinl⟩
    · rintro ⟨revision, hrev, hinl⟩
      simp only [← hkeys] at hinl
      exact ⟨_, List.mem_map.2 ⟨revision, hrev, rfl⟩,
        Sum.getLeft?_eq_some_iff.2 ((classify_eq_inl (hown hrev).1 (hown hrev).2).2 hinl)⟩
  have hpairwise : revisions.Pairwise fun a b => a.recordHash ≠ b.recordHash :=
    (List.pairwise_map.1 hdistinct).filter _
  have hnodup : (pendings.map fun item => item.revision.recordHash).Nodup := by
    refine ((sortBy_perm _).map _).nodup_iff.2 ?_
    rw [List.Nodup, List.pairwise_map, hclassified, List.pairwise_filterMap, List.pairwise_map]
    refine hpairwise.imp_of_mem fun {a b} ha hb hne item hitem item' hitem' => ?_
    rw [((hclassify ha).1 (Sum.getRight?_eq_some_iff.1 hitem)).1,
      ((hclassify hb).1 (Sum.getRight?_eq_some_iff.1 hitem')).1]
    exact hne
  obtain ⟨taken, hperm, hstate, hready, hrest⟩ :=
    @sweepAll_spec _ _ Lineage.ready Lineage.accept _ pendings
      { accepted := candidates.foldl (policy.acceptOrigin P byHash candidates) ∅ } le_rfl
  set swept := sweepAll Lineage.ready Lineage.accept pendings.length pendings
    { accepted := candidates.foldl (policy.acceptOrigin P byHash candidates) ∅ } with hswept
  have hparts := (hperm.map fun item => item.revision.recordHash).nodup_iff.1 hnodup
  rw [List.map_append, List.nodup_append] at hparts
  refine ⟨_, taken, hstate, ?_, fun item h => hpending.1 (hperm.symm.subset
    (List.mem_append_right _ h)), hparts.2.1, hready, ?_, ?_, ?_⟩
  · intro hash entry
    have hnone : ∀ {hash : RecordHash} {entry : LoadedRecord},
        (∅ : InsertionMap RecordHash LoadedRecord).get? hash = some entry →
        byHash.get? hash = some entry ∧ entry.isRevision = false ∧ Admitted P policy entry := nofun
    rw [get?_foldl_acceptOrigin (fun _ => id) hnone, hget, hcandidate]
    constructor
    · rintro (h | ⟨hcand, ⟨hmem, hhash⟩, hrev, hadmitted⟩)
      · cases h
      · exact ⟨hmem, hhash, hrev, hadmitted, hcand⟩
    · rintro ⟨hmem, hhash, hrev, hadmitted, hcand⟩
      exact .inr ⟨hcand, ⟨hmem, hhash⟩, hrev, hadmitted⟩
  · intro item hitem hnot
    have hin := (List.mem_append.1 (hperm.subset (hpending.2 hitem))).resolve_right hnot
    have hnotReady := hrest item hin
    exact fun hmem => absurd (has_eq_true.2 hmem) (ne_true_of_eq_false hnotReady)
  · intro item
    have htaken : ∀ pending ∈ taken, pending.target ∈ swept.2.accepted.keys := by
      rw [hstate]
      exact TakenReady.target_mem hready
    rw [List.mem_append, hleft, List.mem_map]
    constructor
    · rintro (⟨revision, hrev, hhash, htarget, hreason⟩ | ⟨pending, hpend, rfl⟩)
      · obtain ⟨hmem, hisRevision⟩ := hrevision.1 hrev
        refine ⟨revision, hmem, hisRevision, hhash, htarget, ?_⟩
        exact hreason.imp_right .inl
      · have hp := hpending.1 (hperm.symm.subset (List.mem_append_left _ hpend))
        refine ⟨pending.revision, hp.mem, hp.revision, rfl, hp.target.symm,
          .inr (.inr ⟨rfl, pending.target, hp, ?_⟩)⟩
        exact fun hmem => absurd (has_eq_true.2 hmem) (ne_true_of_eq_false (hrest _ hpend))
    · rintro ⟨revision, hmem, hisRevision, hhash, htarget, hreason | hreason | hreason⟩
      · exact .inl ⟨revision, hrevision.2 ⟨hmem, hisRevision⟩, hhash, htarget, .inl hreason⟩
      · exact .inl ⟨revision, hrevision.2 ⟨hmem, hisRevision⟩, hhash, htarget, .inr hreason⟩
      · obtain ⟨hreason, target, hp, hnot⟩ := hreason
        have hin := hperm.subset (hpending.2 hp)
        have hpend := (List.mem_append.1 hin).resolve_right fun h => hnot (htaken _ h)
        refine .inr ⟨_, hpend, ?_⟩
        obtain ⟨itemHash, itemTarget, itemReason⟩ := item
        obtain rfl : itemHash = revision.recordHash := hhash
        obtain rfl : itemTarget = revision.revisionTarget := htarget
        obtain rfl : itemReason = .targetNotAccepted := hreason
        rw [hp.target]
  · rw [List.map_append, List.nodup_append, List.map_map]
    refine ⟨?_, hparts.1, ?_⟩
    · rw [List.Nodup, List.pairwise_map, hclassified, List.pairwise_filterMap, List.pairwise_map]
      refine hpairwise.imp_of_mem fun {a b} ha hb hne item hitem item' hitem' => ?_
      have hleft := (classify_eq_inl (hown ha).1 (hown ha).2).1
        (Sum.getLeft?_eq_some_iff.1 hitem)
      have hleft' := (classify_eq_inl (hown hb).1 (hown hb).2).1
        (Sum.getLeft?_eq_some_iff.1 hitem')
      rw [hleft.1, hleft'.1]
      exact hne
    · rintro hash hl _ hr rfl
      obtain ⟨item, hitem, rfl⟩ := List.mem_map.1 hl
      obtain ⟨pending, hpend, hhash⟩ := List.mem_map.1 hr
      obtain ⟨outcome, houtcome, hgetLeft⟩ := List.mem_filterMap.1 hitem
      obtain ⟨revision, hrev, rfl⟩ := List.mem_map.1 houtcome
      have hinl := Sum.getLeft?_eq_some_iff.1 hgetLeft
      have hp := hpending.1 (hperm.symm.subset (List.mem_append_left _ hpend))
      have hsame : pending.revision = revision :=
        List.inj_on_of_nodup_map hdistinct hp.mem (hrevision.1 hrev).1
          (hhash.trans ((classify_eq_inl (hown hrev).1 (hown hrev).2).1 hinl).1)
      rw [(hclassify hrev).2 ⟨hsame, hp⟩] at hinl
      cases hinl

namespace ViewSpec

variable {origins : InsertionMap RecordHash LoadedRecord} {taken : List PendingRevision}
  {view : ProjectionPolicy.View}

theorem mem_accepted (h : ViewSpec P policy loaded origins taken view) {hash : RecordHash} :
    hash ∈ view.lineage.accepted.keys ↔
      hash ∈ origins.keys ∨ ∃ item ∈ taken, item.revision.recordHash = hash := by
  rw [h.lineage]
  exact Lineage.mem_accepted_foldl

theorem target_mem (h : ViewSpec P policy loaded origins taken view) {item : PendingRevision}
    (hitem : item ∈ taken) : item.target ∈ view.lineage.accepted.keys := by
  rw [h.lineage]
  exact TakenReady.target_mem h.ready item hitem

/-- What is taken is what revises an accepted record. -/
theorem mem_taken (h : ViewSpec P policy loaded origins taken view) {item : PendingRevision} :
    item ∈ taken ↔ Pending P policy loaded item ∧
      item.target ∈ view.lineage.accepted.keys := by
  constructor
  · exact fun hitem => ⟨h.pending item hitem, h.target_mem hitem⟩
  · rintro ⟨hpending, htarget⟩
    by_contra hnot
    exact h.left item hpending hnot htarget

/-- An accepted record is the loaded one with its hash. -/
theorem get?_accepted (h : ViewSpec P policy loaded origins taken view)
    (hdistinct : (loaded.map (·.recordHash)).Nodup) {hash : RecordHash} {entry : LoadedRecord} :
    view.lineage.accepted.get? hash = some entry ↔
      hash ∈ view.lineage.accepted.keys ∧ entry ∈ loaded ∧ entry.recordHash = hash := by
  have hloaded : ∀ {entry'}, view.lineage.accepted.get? hash = some entry' →
      entry' ∈ loaded ∧ entry'.recordHash = hash := by
    intro entry' hget
    rw [h.lineage, Lineage.accepted_foldl] at hget
    rcases mem_entries_setAll (get?_mem hget) with hmem | hmem
    · obtain ⟨item, hitem, heq⟩ := List.mem_map.1 hmem
      cases heq
      exact ⟨(h.pending item hitem).mem, rfl⟩
    · obtain ⟨hmem, hhash, -⟩ := h.origin.1 (get?_of_mem hmem)
      exact ⟨hmem, hhash⟩
  constructor
  · exact fun hget => ⟨mem_keys_iff_get?.2 (by rw [hget]; rfl), hloaded hget⟩
  · rintro ⟨hkey, hmem, hhash⟩
    obtain ⟨entry', hget⟩ := exists_get? hkey
    obtain ⟨hmem', hhash'⟩ := hloaded hget
    rw [hget, List.inj_on_of_nodup_map hdistinct hmem' hmem (hhash'.trans hhash.symm)]

/-- The records that are accepted by themselves. -/
theorem mem_origins (h : ViewSpec P policy loaded origins taken view) {hash : RecordHash} :
    hash ∈ origins.keys ↔ ∃ entry ∈ loaded, entry.recordHash = hash ∧
      entry.isRevision = false ∧ Admitted P policy entry ∧ Candidate policy loaded hash := by
  rw [mem_keys_iff_get?, Option.isSome_iff_exists]
  exact exists_congr fun _ => h.origin

/-- The accepted records are the least fixed point of the rule. -/
theorem isLeast (h : ViewSpec P policy loaded origins taken view) :
    IsLeast {S | acceptanceRule P policy loaded S = S}
      {hash | hash ∈ view.lineage.accepted.keys} := by
  constructor
  · refine Set.Subset.antisymm ?_ ?_
    · rintro hash ⟨entry, hmem, hhash, hadmitted, hrule⟩
      by_cases hrevision : entry.isRevision = true
      · rw [if_pos hrevision] at hrule
        obtain ⟨target, hin, htarget⟩ := hrule
        have hfound : ∃ entry ∈ loaded, entry.recordHash = target := by
          rcases h.mem_accepted.1 hin with horigin | ⟨item, hitem, heq⟩
          · obtain ⟨origin, hmem, hhash, -⟩ := h.mem_origins.1 horigin
            exact ⟨origin, hmem, hhash⟩
          · exact ⟨item.revision, (h.pending item hitem).mem, heq⟩
        have htaken : (⟨entry, target⟩ : PendingRevision) ∈ taken :=
          h.mem_taken.2 ⟨⟨hmem, hrevision, hadmitted, htarget, hfound⟩, hin⟩
        exact h.mem_accepted.2 (.inr ⟨_, htaken, hhash⟩)
      · rw [if_neg hrevision] at hrule
        exact h.mem_accepted.2 (.inl (h.mem_origins.2
          ⟨entry, hmem, hhash, eq_false_of_ne_true hrevision, hadmitted, hrule⟩))
    · intro hash hin
      rcases h.mem_accepted.1 hin with horigin | ⟨item, hitem, rfl⟩
      · obtain ⟨entry, hmem, hhash, hrevision, hadmitted, hcandidate⟩ := h.mem_origins.1 horigin
        refine ⟨entry, hmem, hhash, hadmitted, ?_⟩
        rw [if_neg (ne_true_of_eq_false hrevision)]
        exact hcandidate
      · have hp := h.pending item hitem
        refine ⟨item.revision, hp.mem, rfl, hp.admitted, ?_⟩
        rw [if_pos hp.revision]
        exact ⟨item.target, h.target_mem hitem, hp.target⟩
  · intro S hS hash hin
    have hclosed : acceptanceRule P policy loaded S ⊆ S := hS.subset
    have horigins : ∀ hash ∈ origins.keys, hash ∈ S := by
      intro hash horigin
      obtain ⟨entry, hmem, hhash, hrevision, hadmitted, hcandidate⟩ := h.mem_origins.1 horigin
      refine hclosed ⟨entry, hmem, hhash, hadmitted, ?_⟩
      rw [if_neg (ne_true_of_eq_false hrevision)]
      exact hcandidate
    -- each revision was taken when what it revises was accepted already
    have htaken : ∀ {lineage : Lineage} {items : List PendingRevision},
        (∀ item ∈ items, Pending P policy loaded item) →
        TakenReady Lineage.ready Lineage.accept lineage items →
        (∀ hash ∈ lineage.accepted.keys, hash ∈ S) →
        ∀ hash ∈ (items.foldl Lineage.accept lineage).accepted.keys, hash ∈ S := by
      intro lineage items
      induction items generalizing lineage with
      | nil => exact fun _ _ hold => hold
      | cons item items ih =>
          intro hpending hready hold
          refine ih (fun i hi => hpending i (List.mem_cons_of_mem _ hi)) hready.2 ?_
          intro hash hmem
          rcases mem_keys_set.1 hmem with hmem | rfl
          · exact hold hash hmem
          · have hp := hpending item List.mem_cons_self
            refine hclosed ⟨item.revision, hp.mem, rfl, hp.admitted, ?_⟩
            rw [if_pos hp.revision]
            exact ⟨item.target, hold _ (has_eq_true.1 hready.1), hp.target⟩
    have hin : hash ∈ view.lineage.accepted.keys := hin
    rw [h.lineage] at hin
    exact htaken h.pending h.ready horigins hash hin

/-! ### What supersedes what -/

theorem childrenOf_eq (h : ViewSpec P policy loaded origins taken view) (hash : RecordHash) :
    view.lineage.childrenOf hash =
      (taken.filter (·.target = hash)).map fun item => item.revision.recordHash := by
  rw [h.lineage, Lineage.childrenOf_foldl]
  rfl

theorem mem_childrenOf (h : ViewSpec P policy loaded origins taken view)
    (hdistinct : (loaded.map (·.recordHash)).Nodup) {parent child : RecordHash} :
    child ∈ view.lineage.childrenOf parent ↔ child ∈ view.lineage.accepted.keys ∧
      ∃ entry ∈ loaded, entry.recordHash = child ∧ entry.isRevision = true ∧
        entry.revisionTarget = some parent := by
  rw [h.childrenOf_eq, List.mem_map]
  constructor
  · rintro ⟨item, hfilter, rfl⟩
    obtain ⟨hitem, htarget⟩ := List.mem_filter.1 hfilter
    have hp := h.pending item hitem
    rw [← of_decide_eq_true htarget]
    exact ⟨h.mem_accepted.2 (.inr ⟨item, hitem, rfl⟩), item.revision, hp.mem, rfl, hp.revision,
      hp.target⟩
  · rintro ⟨hin, entry, hmem, hhash, hrevision, htarget⟩
    rcases h.mem_accepted.1 hin with horigin | ⟨item, hitem, heq⟩
    · obtain ⟨origin, hmem', hhash', hnot, -⟩ := h.mem_origins.1 horigin
      rw [List.inj_on_of_nodup_map hdistinct hmem' hmem (hhash'.trans hhash.symm), hrevision] at hnot
      cases hnot
    · have hp := h.pending item hitem
      have hsame : item.revision = entry :=
        List.inj_on_of_nodup_map hdistinct hp.mem hmem (heq.trans hhash.symm)
      have htarget' := hp.target
      rw [hsame, htarget, Option.some.injEq] at htarget'
      exact ⟨item, List.mem_filter.2 ⟨hitem, decide_eq_true htarget'.symm⟩, heq⟩

theorem nodup_childrenOf (h : ViewSpec P policy loaded origins taken view) (hash : RecordHash) :
    (view.lineage.childrenOf hash).Nodup := by
  rw [h.childrenOf_eq]
  exact h.nodup.sublist (List.filter_sublist.map _)

theorem mem_children_keys (h : ViewSpec P policy loaded origins taken view) {hash : RecordHash} :
    hash ∈ view.lineage.children.keys ↔ view.lineage.childrenOf hash ≠ [] := by
  rw [h.childrenOf_eq, h.lineage, Lineage.mem_children_foldl]
  simp [List.filter_eq_nil_iff]

theorem mem_parent_keys (h : ViewSpec P policy loaded origins taken view) {hash : RecordHash} :
    hash ∈ view.lineage.parent.keys ↔ ∃ parent, hash ∈ view.lineage.childrenOf parent := by
  rw [h.lineage, Lineage.mem_parent_foldl, ← h.lineage]
  simp only [h.childrenOf_eq, List.mem_map, List.mem_filter, decide_eq_true_eq]
  constructor
  · rintro (hnone | ⟨item, hitem, rfl⟩)
    · cases hnone
    · exact ⟨item.target, item, ⟨hitem, rfl⟩, rfl⟩
  · rintro ⟨parent, item, ⟨hitem, -⟩, rfl⟩
    exact .inr ⟨item, hitem, rfl⟩

/-- Nothing that was taken before a revision, or is the revision, revises it. -/
theorem target_ne (h : ViewSpec P policy loaded origins taken view)
    (hdistinct : (loaded.map (·.recordHash)).Nodup) {before after : List PendingRevision}
    {item : PendingRevision} (hsplit : taken = before ++ item :: after) :
    ∀ other ∈ before ++ [item], other.target ≠ item.revision.recordHash := by
  have hready := h.ready
  have hnodup := h.nodup
  have hitem : item ∈ taken := hsplit ▸ List.mem_append_right _ List.mem_cons_self
  rw [hsplit] at hready hnodup
  obtain ⟨hbefore, hnow, -⟩ := hready.split
  have hnew : item.revision.recordHash ∉
      (before.foldl Lineage.accept { accepted := origins }).accepted.keys := by
    intro hmem
    rcases Lineage.mem_accepted_foldl.1 hmem with horigin | ⟨other, hother, heq⟩
    · obtain ⟨entry, hmem, hhash, hnot, -⟩ := h.mem_origins.1 horigin
      have hp := h.pending item hitem
      rw [List.inj_on_of_nodup_map hdistinct hmem hp.mem hhash, hp.revision] at hnot
      cases hnot
    · rw [List.map_append, List.nodup_append] at hnodup
      exact hnodup.2.2 _ (List.mem_map.2 ⟨other, hother, rfl⟩) _
        (List.mem_map.2 ⟨item, List.mem_cons_self, rfl⟩) heq
  intro other hother heq
  refine hnew (heq ▸ ?_)
  rcases List.mem_append.1 hother with hother | hother
  · exact TakenReady.target_mem hbefore other hother
  · rw [List.mem_singleton.1 hother]
    exact has_eq_true.1 hnow

/-- From every record a leaf can be reached: the revision that was taken last has nothing under
it. -/
theorem exists_leaf (h : ViewSpec P policy loaded origins taken view)
    (hdistinct : (loaded.map (·.recordHash)).Nodup) (root : RecordHash) :
    ∃ leaf, Search.Reach view.lineage.childrenOf root leaf ∧
      view.lineage.childrenOf leaf = [] := by
  let next (items : List PendingRevision) (hash : RecordHash) : List RecordHash :=
    (items.filter (·.target = hash)).map fun item => item.revision.recordHash
  have hnext : ∀ items item hash, next (items ++ [item]) hash = next items hash ++
      if item.target = hash then [item.revision.recordHash] else [] := by
    intro items item hash
    show List.map _ (List.filter _ _) = _
    rw [List.filter_append, List.map_append, List.filter_singleton]
    congr 1
    by_cases htarget : item.target = hash
    · rw [if_pos htarget, decide_eq_true htarget]
      rfl
    · rw [if_neg htarget, decide_eq_false htarget]
      rfl
  -- by induction on the revisions taken so far
  have hleaf : ∀ {items after}, taken = items ++ after →
      ∃ leaf, Search.Reach (next items) root leaf ∧ next items leaf = [] := by
    intro items
    induction items using List.reverseRecOn with
    | nil => exact fun _ => ⟨root, .refl, rfl⟩
    | append_singleton items item ih =>
        intro after hsplit
        rw [List.append_assoc] at hsplit
        obtain ⟨leaf, hreach, hnil⟩ := ih hsplit
        have hreach' := @Search.reach_mono _ _ (next (items ++ [item])) (fun x y hy => by
          rw [hnext]
          exact List.mem_append_left _ hy) _ _ hreach
        by_cases htarget : item.target = leaf
        · refine ⟨item.revision.recordHash, hreach'.tail ?_, ?_⟩
          · rw [hnext, if_pos htarget]
            exact List.mem_append_right _ List.mem_cons_self
          · have hne := h.target_ne hdistinct hsplit
            refine List.map_eq_nil_iff.2 (List.filter_eq_nil_iff.2 fun other hother => ?_)
            simpa using hne other hother
        · refine ⟨leaf, hreach', ?_⟩
          rw [hnext, if_neg htarget, hnil, List.append_nil]
  rw [show view.lineage.childrenOf = next taken from funext h.childrenOf_eq]
  exact hleaf (List.append_nil taken).symm

end ViewSpec

end Atrib.Recall
