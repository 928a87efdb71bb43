import Atrib.Proofs.WitnessStore

/-!
# What a witness has published

A new view is checked against the stored state, so the stored state has to
know every cosignature that can be read. It does as long as a cosignature is
followed into place by its state: then every published checkpoint is the root
of a prefix of the committed leaf hashes, and two prefixes of one list agree.

A round that ends between the two renames breaks this. The next round is
checked against the state before, and a log that equivocates gets a second
cosignature the first one does not agree with.
-/

namespace Atrib.WitnessNode

open Lib (run run_snoc Always)
open Verify (CheckpointBody Cosignature checkpointRootFromLeafHashes)

variable (H : Hash) (config : WitnessLogConfig)

/-- Some cosignature file holds a signature over this checkpoint. -/
def Published (store : WitnessStore) (body : CheckpointBody) : Prop :=
  ∃ rootHash cosignature, store.getCosignature rootHash = some cosignature ∧
    cosignature.body = body

/-- Some leaf hashes of the larger size have the larger root, and their prefix
of the smaller size has the smaller root. -/
def Consistent (smaller larger : CheckpointBody) : Prop :=
  ∃ hashes : List Bytes, hashes.length = larger.treeSize ∧ (∀ x ∈ hashes, x.length = 32) ∧
    checkpointRootFromLeafHashes H hashes = .ok larger.rootHash ∧
    checkpointRootFromLeafHashes H (hashes.take smaller.treeSize) = .ok smaller.rootHash

/-- All published checkpoints are consistent; two of one size have one root. -/
def Safe (store : WitnessStore) : Prop :=
  ∀ a b, Published store a → Published store b → a.treeSize ≤ b.treeSize →
    Consistent H a b ∧ (a.treeSize = b.treeSize → a.rootHash = b.rootHash)

/-- A round that renames a new cosignature into place does the same with the
state that goes with it. -/
def Paired (store : WitnessStore) (update : Update) : Prop :=
  ∀ state leafHashes, prepare H config store update = .ok (.toCommit state leafHashes) →
    store.getCosignature state.rootHash = none → update.io.leaves = .done →
    update.io.cosignature.renamed = true →
      update.io.cosignature = .done ∧ update.io.state ≠ .notRenamed

/-- Every cosignature is over the root of a prefix of the committed leaf
hashes. -/
def Covered (store : WitnessStore) : Prop :=
  ∀ kv ∈ store.cosignatures, ∃ state ∈ store.state, ∃ hashes,
    Committed H config store.leaves state hashes ∧ kv.2.body.treeSize ≤ hashes.length ∧
      checkpointRootFromLeafHashes H (hashes.take kv.2.body.treeSize) = .ok kv.2.body.rootHash

theorem Round.covered {H : Hash} {config : WitnessLogConfig} {store store' : WitnessStore}
    {update : Update} (hsound : Sound H config store) (hcov : Covered H config store)
    (hpaired : Paired H config store update) (h : Round H config store update store') :
    Covered H config store' := by
  cases h with
  | kept hkeep =>
      intro kv hkv
      obtain ⟨state, hstate, hashes, hc, hle, hroot⟩ := hcov kv hkv
      exact ⟨state, hstate, hashes, hkeep state hstate hashes hc, hle, hroot⟩
  | cosigned hprep _ hnew hleaves hrenamed hst =>
      obtain ⟨hdone, hne⟩ := hpaired _ _ hprep hnew hleaves hrenamed
      exact absurd (hst hdone) hne
  | @committed leaves state leafHashes hprep hcommitted _ =>
      have hplan := prepare_toCommit H config hsound hprep
      have hold : ∀ kv ∈ store.cosignatures, kv.2.body.treeSize ≤ leafHashes.length ∧
          checkpointRootFromLeafHashes H (leafHashes.take kv.2.body.treeSize) =
            .ok kv.2.body.rootHash := by
        intro kv hkv
        obtain ⟨prior, hprior, hashes, hc, hle, hroot⟩ := hcov kv hkv
        obtain ⟨-, hashes', hload, more, rfl⟩ := hplan.extends_prior prior hprior
        obtain rfl : hashes = hashes' := by
          rw [hc.loadLeafHashes] at hload
          injection hload
        rw [List.length_append, List.take_append_of_le_length hle]
        exact ⟨by omega, hroot⟩
      intro kv hkv
      refine ⟨state, rfl, leafHashes, hcommitted, ?_⟩
      split at hkv
      · exact hold kv hkv
      · next hnone =>
          rcases List.mem_append.1 hkv with hkv | hkv
          · exact hold kv hkv
          · obtain rfl := List.mem_singleton.1 hkv
            rcases hplan.cosignature with hsome | ⟨-, hbody⟩
            · rw [hsome] at hnone
              exact absurd rfl hnone
            · change state.cosignature.body.treeSize ≤ _ ∧ checkpointRootFromLeafHashes H
                (leafHashes.take state.cosignature.body.treeSize) =
                  .ok state.cosignature.body.rootHash
              rw [hbody, ← hplan.body.1, ← hplan.body.2, ← hplan.length, List.take_length]
              exact ⟨Nat.le_refl _, hplan.root⟩

theorem Covered.safe {H : Hash} {config : WitnessLogConfig} {store : WitnessStore}
    (h : Covered H config store) : Safe H store := by
  have hmem : ∀ {body}, Published store body → ∃ kv ∈ store.cosignatures, kv.2.body = body := by
    rintro body ⟨rootHash, cosignature, hget, rfl⟩
    obtain ⟨kv, hfind, rfl⟩ := Option.map_eq_some_iff.1 hget
    exact ⟨kv, List.mem_of_find?_eq_some hfind, rfl⟩
  intro a b ha hb hab
  obtain ⟨ka, hka, rfl⟩ := hmem ha
  obtain ⟨kb, hkb, rfl⟩ := hmem hb
  obtain ⟨state, hstate, hashes, hc, -, hroot⟩ := h ka hka
  obtain ⟨state', hstate', hashes', hc', hle, hroot'⟩ := h kb hkb
  obtain rfl : state = state' := Option.mem_unique hstate hstate'
  obtain rfl := hc.unique hc'
  refine ⟨⟨hashes.take kb.2.body.treeSize, by rw [List.length_take]; omega,
    fun x hx => hc.hashLength x (List.mem_of_mem_take hx), hroot', ?_⟩, fun heq => ?_⟩
  · rwa [List.take_take, Nat.min_eq_left hab]
  · rw [heq, hroot'] at hroot
    injection hroot with hroot
    exact hroot.symm

/-- Over any run whose rounds are paired, against any log, all published
checkpoints are consistent in every state reached. -/
theorem cosignatures_consistent (updates : List Update)
    (hok : Always (step H config) (Paired H config) .empty updates) :
    ∀ pre, pre <+: updates → Safe H (run (step H config) .empty pre) := by
  have hcov : ∀ us : List Update, Always (step H config) (Paired H config) .empty us →
      Covered H config (run (step H config) .empty us) := by
    intro us
    induction us using List.reverseRecOn with
    | nil => intro _ kv hkv; cases hkv
    | append_singleton us update ih =>
        intro hus
        obtain ⟨hpre, hlast, -⟩ := Always.append.1 hus
        rw [run_snoc]
        have hsound := run_sound H config us
        exact (step_round H config hsound update).covered hsound (ih hpre) hlast
  exact fun pre hpre => (hcov pre (hok.initial hpre)).safe

theorem paired_of_clean {store : WitnessStore} {update : Update} (h : update.io = .clean) :
    Paired H config store update := by
  intro _ _ _ _ _ _
  rw [h]
  exact ⟨rfl, by simp [CommitIo.clean]⟩

def loneHash (mark : UInt8) : Bytes := List.replicate 32 mark

theorem length_loneHash (mark : UInt8) : (loneHash mark).length = 32 := List.length_replicate

/-- A log of one leaf hash, whose root is that hash. -/
def loneCheckpoint (mark : UInt8) : CheckpointBody where
  origin := "log"
  treeSize := 1
  rootHash := loneHash mark
  one_le_treeSize := Nat.le_refl 1
  treeSize_safe := by decide
  length_rootHash := length_loneHash mark

/-- A round in which the log shows that checkpoint. -/
def loneUpdate (mark : UInt8) (io : CommitIo) : Update where
  checkpoint := some (loneCheckpoint mark)
  tiles := fun _ _ => some (loneHash mark)
  gossip := none
  nowSeconds := 0
  io := io

/-- A witness that finishes its rounds refuses the second view. -/
theorem cosignatures_consistent_refused :
    Safe Hash.fips180 (run (step Hash.fips180 ⟨"log", 0⟩) .empty
      [loneUpdate 1 .clean, loneUpdate 2 .clean]) :=
  cosignatures_consistent Hash.fips180 ⟨"log", 0⟩ [loneUpdate 1 .clean, loneUpdate 2 .clean]
    ⟨paired_of_clean _ _ rfl, paired_of_clean _ _ rfl, trivial⟩ _ (List.prefix_refl _)

/-- A witness cut off between its two renames cosigns both views. -/
theorem not_safe_of_cut_between_renames :
    ¬ Safe Hash.fips180 (run (step Hash.fips180 ⟨"log", 0⟩) .empty
      [loneUpdate 1 ⟨.done, .done, .notRenamed⟩, loneUpdate 2 .clean]) := by
  intro h
  have hpub : ∀ mark, (run (step Hash.fips180 ⟨"log", 0⟩) .empty
      [loneUpdate 1 ⟨.done, .done, .notRenamed⟩, loneUpdate 2 .clean]).getCosignature
        (loneHash mark) = some ⟨loneCheckpoint mark, 0⟩ → Published
          (run (step Hash.fips180 ⟨"log", 0⟩) .empty
            [loneUpdate 1 ⟨.done, .done, .notRenamed⟩, loneUpdate 2 .clean])
          (loneCheckpoint mark) :=
    fun mark hget => ⟨_, _, hget, rfl⟩
  have hroots := (h _ _ (hpub 1 (by decide +kernel)) (hpub 2 (by decide +kernel))
    (Nat.le_refl 1)).2 rfl
  exact absurd hroots (by decide)

end Atrib.WitnessNode
