import Atrib.Verify.Witness
import Atrib.Proofs.Inclusion

/-!
# The consistency check of the verify package

`witness.ts` has a root computation of its own, over digests that are leaves
already. Read as the root of a range it is the one the log's `computeRoot` is
read as, for every size and every split, so the two can only differ on the
empty list, where one throws and the other answers with the hash of nothing.

The check itself compares two roots of one list of leaves. It accepts exactly
when the list carries both checkpoints, and a list that carries two
checkpoints shows that their trees are prefixes of one another, provided that
SHA-256 does not collide on what was hashed for the two trees and in the check.
-/

namespace Atrib.Verify

open Lib.Merkle

variable (H : Hash)

/-- A list of leaf hashes, as a sequence. -/
def leafHashAt (leafHashes : List Bytes) (i : ℕ) : Bytes := leafHashes.getD i []

/-- The RFC 6962 root of a list of leaf hashes. -/
def treeHash (leafHashes : List Bytes) : Bytes :=
  if leafHashes = [] then H.sha256 []
  else mth H.nodeHash (leafHashAt leafHashes) 0 leafHashes.length

theorem treeHash_of_ne_nil {leafHashes : List Bytes} (hne : leafHashes ≠ []) :
    treeHash H leafHashes = mth H.nodeHash (leafHashAt leafHashes) 0 leafHashes.length :=
  if_neg hne

theorem leafHashAt_of_lt {leafHashes : List Bytes} {i : ℕ} (hi : i < leafHashes.length) :
    leafHashAt leafHashes i = leafHashes[i] := by
  rw [leafHashAt, List.getD_eq_getElem _ _ hi]

theorem leafHashAt_take {leafHashes : List Bytes} {k i : ℕ} (hi : i < k) :
    leafHashAt (leafHashes.take k) i = leafHashAt leafHashes i := by
  simp only [leafHashAt, List.getD_eq_getElem?_getD, List.getElem?_take, if_pos hi]

theorem leafHashAt_drop (leafHashes : List Bytes) (k i : ℕ) :
    leafHashAt (leafHashes.drop k) i = leafHashAt leafHashes (k + i) := by
  simp only [leafHashAt, List.getD_eq_getElem?_getD, List.getElem?_drop]

theorem leafHashAt_map {entries : List Bytes} {i : ℕ} (hi : i < entries.length) :
    leafHashAt (entries.map H.leafHash) i = H.leafAt entries i := by
  rw [leafHashAt_of_lt (by simpa using hi), H.leafAt_of_lt hi, List.getElem_map]

/-- The root of a prefix is the root of a range of the whole. -/
theorem treeHash_take {leafHashes : List Bytes} {k : ℕ} (hpos : 0 < k)
    (hk : k ≤ leafHashes.length) :
    treeHash H (leafHashes.take k) = mth H.nodeHash (leafHashAt leafHashes) 0 k := by
  have hlen : (leafHashes.take k).length = k := List.length_take_of_le hk
  rw [treeHash_of_ne_nil H (List.ne_nil_of_length_pos (by omega)), hlen]
  exact mth_congr _ hpos fun i hi => by rw [Nat.zero_add, leafHashAt_take hi]

theorem treeHash_drop {leafHashes : List Bytes} {k : ℕ} (hk : k < leafHashes.length) :
    treeHash H (leafHashes.drop k) =
      mth H.nodeHash (leafHashAt leafHashes) k (leafHashes.length - k) := by
  have hlen := List.length_drop (i := k) (l := leafHashes)
  rw [treeHash_of_ne_nil H (List.ne_nil_of_length_pos (by omega)), hlen]
  exact mth_congr _ (by omega) fun i _ => by rw [Nat.zero_add, leafHashAt_drop]

theorem merkleHashFromLeafHashes_split {hashes : List Bytes} (h : 2 ≤ hashes.length) :
    merkleHashFromLeafHashes H hashes =
      H.nodeHash (merkleHashFromLeafHashes H (hashes.take (split hashes.length)))
        (merkleHashFromLeafHashes H (hashes.drop (split hashes.length))) := by
  conv => lhs; rw [merkleHashFromLeafHashes]
  rw [dif_pos h, largestPowerOfTwoLessThan_eq h]

theorem merkleHashFromLeafHashes_eq {hashes : List Bytes} (hne : hashes ≠ []) :
    merkleHashFromLeafHashes H hashes = treeHash H hashes := by
  induction hn : hashes.length using Nat.strong_induction_on generalizing hashes with
  | _ n ih =>
      subst hn
      by_cases h : 2 ≤ hashes.length
      · have hlt := split_lt h
        have hk := split_pos hashes.length
        have htake := List.length_take_of_le (i := split hashes.length) hlt.le
        have hdrop := List.length_drop (i := split hashes.length) (l := hashes)
        rw [merkleHashFromLeafHashes_split H h,
          ih _ (by omega) (List.ne_nil_of_length_pos (by omega)) rfl,
          ih _ (by omega) (List.ne_nil_of_length_pos (by omega)) rfl,
          treeHash_take H hk hlt.le, treeHash_drop H hlt, treeHash_of_ne_nil H hne,
          mth_node _ _ 0 h, Nat.zero_add]
      · rw [merkleHashFromLeafHashes, dif_neg h, treeHash_of_ne_nil H hne, mth_leaf _ _ 0 h,
          leafHashAt]
        cases hashes <;> rfl

theorem checkpointRootFromLeafHashes_nil :
    checkpointRootFromLeafHashes H [] = .ok (H.sha256 []) := rfl

theorem checkpointRootFromLeafHashes_ok_iff {leafHashes : List Bytes} {root : Bytes} :
    checkpointRootFromLeafHashes H leafHashes = .ok root ↔
      (∀ hash ∈ leafHashes, hash.length = 32) ∧ treeHash H leafHashes = root := by
  by_cases hne : leafHashes = []
  · subst hne
    simp [checkpointRootFromLeafHashes_nil, treeHash]
  have hlen : leafHashes.length ≠ 0 := by simpa using hne
  rw [checkpointRootFromLeafHashes, if_neg hlen]
  by_cases hall : ∀ hash ∈ leafHashes, hash.length = 32
  · rw [if_neg (by simpa using hall), merkleHashFromLeafHashes_eq H hne, Except.ok.injEq,
      and_iff_right hall]
  · rw [if_pos (by simpa using hall)]
    simp [hall]

theorem treeHash_map {entries : List Bytes} (hne : entries ≠ []) :
    treeHash H (entries.map H.leafHash) = H.rootOf entries := by
  have hpos : 0 < entries.length := List.length_pos_iff.2 hne
  rw [treeHash_of_ne_nil H (by simpa using hne), Hash.rootOf, List.length_map]
  exact mth_congr _ hpos fun i hi => by rw [Nat.zero_add, leafHashAt_map H hi]

/-- Over the leaf hashes of raw entries the two packages compute one root,
but for the empty list, on which the log's computation throws. -/
theorem checkpointRootFromLeafHashes_map (entries : List Bytes) :
    checkpointRootFromLeafHashes H (entries.map H.leafHash) =
      if entries = [] then .ok (H.sha256 []) else H.computeRoot entries := by
  by_cases hne : entries = []
  · rw [if_pos hne, hne, List.map_nil, checkpointRootFromLeafHashes_nil]
  · rw [if_neg hne, H.computeRoot_eq hne, checkpointRootFromLeafHashes_ok_iff]
    exact ⟨by simp, treeHash_map H hne⟩

/-! ## The check -/

/-- What a parsed checkpoint has been checked for. -/
structure CheckpointView.WellFormed (view : CheckpointView) : Prop where
  one_le_treeSize : 1 ≤ view.treeSize
  treeSize_safe : view.treeSize ≤ MAX_SAFE_INTEGER
  length_rootHash : view.rootHash.length = 32

theorem wellFormed_of_consistent {prior : Option CheckpointView} {current : CheckpointView}
    {leafHashes : List Bytes}
    (h : verifyCheckpointConsistencyFromLeafHashes H prior current leafHashes = .ok true) :
    current.WellFormed := by
  unfold verifyCheckpointConsistencyFromLeafHashes at h
  split at h
  · cases h
  · exact ⟨by omega, by omega, by omega⟩

/-- The list is that of the tree a checkpoint stands for. -/
structure Carries (leafHashes : List Bytes) (view : CheckpointView) : Prop where
  length_eq : leafHashes.length = view.treeSize
  root_eq : treeHash H leafHashes = view.rootHash

/-- A prefix of the list is that of the tree a checkpoint stands for. -/
def CarriesPrefix (leafHashes : List Bytes) (view : CheckpointView) : Prop :=
  ∃ earlier, earlier <+: leafHashes ∧ Carries H earlier view

theorem carriesPrefix_iff {leafHashes : List Bytes} {view : CheckpointView} :
    CarriesPrefix H leafHashes view ↔
      view.treeSize ≤ leafHashes.length ∧
        treeHash H (leafHashes.take view.treeSize) = view.rootHash := by
  constructor
  · intro h
    obtain ⟨earlier, hpre, hlen, hroot⟩ := h
    rw [List.prefix_iff_eq_take.1 hpre] at hroot
    rw [← hlen]
    exact ⟨hpre.length_le, hroot⟩
  · intro h
    exact ⟨_, List.take_prefix _ _, List.length_take_of_le h.1, h.2⟩

/-- Once a list carries the later checkpoint, the earlier one decides. -/
theorem verifyCheckpointConsistency_of_carries {prior : Option CheckpointView}
    {current : CheckpointView} {leafHashes : List Bytes} (hwf : current.WellFormed)
    (hall : ∀ hash ∈ leafHashes, hash.length = 32) (hcar : Carries H leafHashes current) :
    verifyCheckpointConsistencyFromLeafHashes H prior current leafHashes = .ok true ↔
      ∀ view ∈ prior, view.WellFormed ∧ CarriesPrefix H leafHashes view := by
  obtain ⟨h₁, h₂, h₃⟩ := hwf
  have hlen := hcar.length_eq
  have hroot : checkpointRootFromLeafHashes H leafHashes = .ok current.rootHash :=
    (checkpointRootFromLeafHashes_ok_iff H).2 ⟨hall, hcar.root_eq⟩
  unfold verifyCheckpointConsistencyFromLeafHashes
  rw [if_neg (by omega), hroot]
  cases prior with
  | none => simp [bind, Except.bind, pure, Except.pure]
  | some view =>
      simp only [bind, Except.bind, pure, Except.pure, ne_eq, not_true_eq_false, if_false,
        Option.mem_def, Option.some.injEq, forall_eq']
      by_cases hbad : view.treeSize > MAX_SAFE_INTEGER ∨ view.treeSize < 1 ∨
          view.treeSize > current.treeSize ∨ view.rootHash.length ≠ 32
      · rw [if_pos hbad]
        refine iff_of_false (by simp) fun h => ?_
        obtain ⟨⟨g₁, g₂, g₃⟩, hpre⟩ := h
        have := ((carriesPrefix_iff H).1 hpre).1
        omega
      · have hle : view.treeSize ≤ leafHashes.length := by omega
        rw [if_neg hbad, (checkpointRootFromLeafHashes_ok_iff H).2
          ⟨fun hash hh => hall hash (List.mem_of_mem_take hh), rfl⟩, carriesPrefix_iff]
        have hview : view.WellFormed := ⟨by omega, by omega, by omega⟩
        simp [hview, hle]

/-- The check accepts exactly the lists that carry the later checkpoint and,
in a prefix, the earlier one. -/
theorem verifyCheckpointConsistency_iff (prior : Option CheckpointView)
    (current : CheckpointView) (leafHashes : List Bytes) :
    verifyCheckpointConsistencyFromLeafHashes H prior current leafHashes = .ok true ↔
      current.WellFormed ∧ (∀ hash ∈ leafHashes, hash.length = 32) ∧
        Carries H leafHashes current ∧
          ∀ view ∈ prior, view.WellFormed ∧ CarriesPrefix H leafHashes view := by
  constructor
  · intro h
    have hwf := wellFormed_of_consistent H h
    obtain ⟨hlen, hroot⟩ := root_of_consistent H h
    obtain ⟨hall, hmth⟩ := (checkpointRootFromLeafHashes_ok_iff H).1 hroot
    have hcar : Carries H leafHashes current := ⟨hlen, hmth⟩
    exact ⟨hwf, hall, hcar, (verifyCheckpointConsistency_of_carries H hwf hall hcar).1 h⟩
  · intro h
    obtain ⟨hwf, hall, hcar, hprior⟩ := h
    exact (verifyCheckpointConsistency_of_carries H hwf hall hcar).2 hprior

/-! ## What two accepted checkpoints commit to -/

/-- The inputs of internal nodes the check hashes. -/
def checkInputs (prior current : CheckpointView) (leafHashes : List Bytes) : List Bytes :=
  H.nodeInputs (leafHashAt leafHashes) 0 current.treeSize ++
    H.nodeInputs (leafHashAt leafHashes) 0 prior.treeSize

/-- The checkpoint is the one of a tree of raw entries. -/
def Commits (view : CheckpointView) (entries : List Bytes) : Prop :=
  view.treeSize = entries.length ∧ H.computeRoot entries = .ok view.rootHash

/-- A list that carries the checkpoint of a tree in its prefix starts with
the leaf hashes of that tree. -/
theorem leafAt_of_carriesPrefix {view : CheckpointView} {entries leafHashes inputs : List Bytes}
    (hcf : H.CollisionFree inputs) (hin : H.rootInputs entries ⊆ inputs)
    (hin' : H.nodeInputs (leafHashAt leafHashes) 0 view.treeSize ⊆ inputs)
    (hall : ∀ hash ∈ leafHashes, hash.length = 32) (hcom : Commits H view entries)
    (hcar : CarriesPrefix H leafHashes view) :
    ∀ i < entries.length, H.leafAt entries i = leafHashAt leafHashes i := by
  obtain ⟨hsize, hroot⟩ := hcom
  obtain ⟨hle, htree⟩ := (carriesPrefix_iff H).1 hcar
  obtain ⟨hne, hrootOf⟩ := H.computeRoot_ok hroot
  have hpos : 0 < entries.length := List.length_pos_iff.2 hne
  have hnode := H.nodeInputs_subset_rootInputs entries
  rw [hsize] at hle htree hin'
  rw [treeHash_take H hpos hle] at htree
  refine H.mth_inj hcf (fun i _ => H.length_leafAt entries i) (fun i hi => ?_)
    (List.Subset.trans hnode hin) hin' (hrootOf.symm.trans htree.symm)
  rw [leafHashAt_of_lt (by omega)]
  exact hall _ (List.getElem_mem _)

/-- Two checkpoints accepted against each other are those of a tree and of
one that extends it. -/
theorem prefix_of_consistent {prior current : CheckpointView}
    {leafHashes earlier later : List Bytes}
    (hcf : H.CollisionFree
      (H.rootInputs earlier ++ H.rootInputs later ++ checkInputs H prior current leafHashes))
    (hprior : Commits H prior earlier) (hcurrent : Commits H current later)
    (h : verifyCheckpointConsistencyFromLeafHashes H (some prior) current leafHashes = .ok true) :
    earlier <+: later := by
  obtain ⟨-, hall, hcar, hview⟩ := (verifyCheckpointConsistency_iff H _ _ _).1 h
  obtain ⟨-, hpre⟩ := hview prior rfl
  have hwhole : CarriesPrefix H leafHashes current := ⟨_, List.prefix_rfl, hcar⟩
  have hle : earlier.length ≤ later.length := by
    have := ((carriesPrefix_iff H).1 hpre).1
    rwa [hcar.length_eq, hprior.1, hcurrent.1] at this
  have hin₁ : H.rootInputs earlier ⊆
      H.rootInputs earlier ++ H.rootInputs later ++ checkInputs H prior current leafHashes :=
    fun x hx => by simp [hx]
  have hin₂ : H.rootInputs later ⊆
      H.rootInputs earlier ++ H.rootInputs later ++ checkInputs H prior current leafHashes :=
    fun x hx => by simp [hx]
  have hfirst := leafAt_of_carriesPrefix H hcf hin₁
    (fun x hx => List.mem_append_right _ (List.mem_append_right _ hx)) hall hprior hpre
  have hsecond := leafAt_of_carriesPrefix H hcf hin₂
    (fun x hx => List.mem_append_right _ (List.mem_append_left _ hx)) hall hcurrent hwhole
  rw [List.prefix_iff_eq_take]
  refine List.ext_getElem (by rw [List.length_take]; omega) fun i hi hi' => ?_
  rw [List.getElem_take]
  refine H.getElem_eq_of_leafAt hcf hin₁ hin₂ hi (by omega) ?_
  rw [hfirst i hi, hsecond i (by omega)]

/-- The check accepts exactly the lists that carry both checkpoints; the root
it computes is the log's; and what it accepts are checkpoints of a tree and of
an extension of it. -/
theorem consistencyCheck_exact :
    (∀ (prior : Option CheckpointView) (current : CheckpointView) (leafHashes : List Bytes),
      verifyCheckpointConsistencyFromLeafHashes H prior current leafHashes = .ok true ↔
        current.WellFormed ∧ (∀ hash ∈ leafHashes, hash.length = 32) ∧
          Carries H leafHashes current ∧
            ∀ view ∈ prior, view.WellFormed ∧ CarriesPrefix H leafHashes view) ∧
    (∀ entries : List Bytes, checkpointRootFromLeafHashes H (entries.map H.leafHash) =
      if entries = [] then .ok (H.sha256 []) else H.computeRoot entries) ∧
    (∀ (prior current : CheckpointView) (leafHashes earlier later : List Bytes),
      H.CollisionFree
        (H.rootInputs earlier ++ H.rootInputs later ++ checkInputs H prior current leafHashes) →
      Commits H prior earlier → Commits H current later →
      verifyCheckpointConsistencyFromLeafHashes H (some prior) current leafHashes = .ok true →
      earlier <+: later) :=
  ⟨verifyCheckpointConsistency_iff H, checkpointRootFromLeafHashes_map H,
    fun _ _ _ _ _ hcf hprior hcurrent h => prefix_of_consistent H hcf hprior hcurrent h⟩

/-- A tree of one entry and the same tree with another behind it. -/
theorem consistencyCheck_exact_pair :
    [[0x61]] <+: ([[0x61], [0x62]] : List Bytes) :=
  (consistencyCheck_exact Hash.fips180).2.2
    ⟨1, Hash.fips180.rootOf [[0x61]]⟩ ⟨2, Hash.fips180.rootOf [[0x61], [0x62]]⟩
    [Hash.fips180.leafHash [0x61], Hash.fips180.leafHash [0x62]] [[0x61]] [[0x61], [0x62]]
    (by decide +kernel) ⟨rfl, Hash.fips180.computeRoot_eq (by simp)⟩
    ⟨rfl, Hash.fips180.computeRoot_eq (by simp)⟩ (by decide +kernel)

/-- The empty list of entries has a root in one package and none in the
other, and a checkpoint of the empty tree is never accepted. -/
theorem consistencyCheck_empty :
    ¬ (checkpointRootFromLeafHashes Hash.fips180 (([] : List Bytes).map Hash.fips180.leafHash) =
        Hash.fips180.computeRoot []) ∧
      Carries Hash.fips180 [] ⟨0, Hash.fips180.sha256 []⟩ ∧
        ¬ (verifyCheckpointConsistencyFromLeafHashes Hash.fips180 none
          ⟨0, Hash.fips180.sha256 []⟩ [] = .ok true) := by
  refine ⟨?_, ⟨rfl, if_pos rfl⟩, ?_⟩
  · rw [List.map_nil, checkpointRootFromLeafHashes_nil, Hash.computeRoot]
    simp
  · intro h
    have := (wellFormed_of_consistent _ h).one_le_treeSize
    simp at this

end Atrib.Verify
