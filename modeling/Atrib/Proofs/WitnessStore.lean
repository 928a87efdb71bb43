import Atrib.WitnessNode.Witness
import Atrib.Lib.Effect
import Atrib.Lib.Run
import Mathlib.Data.List.Induction

/-!
# The store of a witness over whole runs

A stored state means something only with the leaf hashes behind it, and those
are in a file that is cut and extended in place. `Committed` says that the file
starts with the leaf hashes of the stored view, whatever follows them. A write
of the leaf file starts at the committed length, so it keeps this for the
stored state no matter where it stops; and a new state is renamed into place
only after a write that was finished.

`Round` is the one place where a round is taken apart. It lists what a round
can leave in the store: nothing new, more leaf bytes, a cosignature without
its state, or a whole commit.
-/

namespace Atrib.WitnessNode

open Lib (bind_ok run run_snoc run_append Always)
open Verify (CheckpointBody Cosignature createWitnessCosignature checkpointRootFromLeafHashes
  root_of_consistent)

variable (H : Hash) (config : WitnessLogConfig)

/-! ## Leaf hashes in a file -/

theorem hashAt_zero {hash rest : Bytes} (h : hash.length = 32) : hashAt (hash ++ rest) 0 = hash := by
  rw [hashAt, Nat.zero_mul, List.drop_zero, List.take_left' h]

theorem hashAt_succ {hash rest : Bytes} (h : hash.length = 32) (i : ℕ) :
    hashAt (hash ++ rest) (i + 1) = hashAt rest i := by
  rw [hashAt, hashAt, Nat.succ_mul, ← h, Nat.add_comm, ← List.drop_drop, List.drop_left]

/-- Hashes written one after the other are read back. -/
theorem map_hashAt_flatten {hashes : List Bytes} (h : ∀ x ∈ hashes, x.length = 32)
    (rest : Bytes) :
    (List.range hashes.length).map (hashAt (hashes.flatten ++ rest)) = hashes := by
  induction hashes with
  | nil => rfl
  | cons hash hashes ih =>
      have hlen := h hash List.mem_cons_self
      rw [List.length_cons, List.range_succ_eq_map, List.map_cons, List.map_map,
        List.flatten_cons, List.append_assoc, hashAt_zero hlen]
      have hshift : hashAt (hash ++ (hashes.flatten ++ rest)) ∘ Nat.succ =
          hashAt (hashes.flatten ++ rest) := funext fun i => hashAt_succ hlen i
      rw [hshift, ih fun x hx => h x (List.mem_cons_of_mem _ hx)]

theorem length_flatten_hashes {hashes : List Bytes} (h : ∀ x ∈ hashes, x.length = 32) :
    hashes.flatten.length = hashes.length * 32 := by
  induction hashes with
  | nil => rfl
  | cons hash hashes ih =>
      rw [List.flatten_cons, List.length_append, h hash List.mem_cons_self,
        ih fun x hx => h x (List.mem_cons_of_mem _ hx), List.length_cons]
      omega

/-- A root is computed only from 32-byte hashes. -/
theorem length_of_root {hashes : List Bytes} {root : Bytes} (hne : hashes.length ≠ 0)
    (h : checkpointRootFromLeafHashes H hashes = .ok root) : ∀ x ∈ hashes, x.length = 32 := by
  unfold checkpointRootFromLeafHashes at h
  rw [if_neg hne] at h
  split at h
  · cases h
  · next hany =>
      intro x hx
      by_contra hlen
      exact hany (List.any_eq_true.2 ⟨x, hx, decide_eq_true hlen⟩)

/-- The leaf file starts with `hashes`, and they are the view the state was
stored for. -/
structure Committed (leaves : Option Bytes) (state : StoredWitnessState) (hashes : List Bytes) :
    Prop where
  valid : validateState state config.logName = true
  length : hashes.length = state.treeSize
  hashLength : ∀ x ∈ hashes, x.length = 32
  leaves : ∃ rest, leaves = some (hashes.flatten ++ rest)
  root : checkpointRootFromLeafHashes H hashes = .ok state.rootHash

theorem Committed.loadLeafHashes {H : Hash} {config : WitnessLogConfig} {store : WitnessStore}
    {state : StoredWitnessState} {hashes : List Bytes}
    (h : Committed H config store.leaves state hashes) :
    store.loadLeafHashes state = .ok hashes := by
  obtain ⟨rest, hleaves⟩ := h.leaves
  have hlen := length_flatten_hashes h.hashLength
  rw [WitnessStore.loadLeafHashes, hleaves, ← h.length]
  simp only [List.length_append, hlen]
  rw [if_neg (by omega), map_hashAt_flatten h.hashLength]

/-- The committed hashes are what is loaded, so there is one such list. -/
theorem Committed.unique {H : Hash} {config : WitnessLogConfig} {store : WitnessStore}
    {state : StoredWitnessState} {hashes hashes' : List Bytes}
    (h : Committed H config store.leaves state hashes)
    (h' : Committed H config store.leaves state hashes') : hashes = hashes' := by
  have heq := h.loadLeafHashes.symm.trans h'.loadLeafHashes
  injection heq

/-- The file that a cut at the committed length leaves. -/
theorem Committed.ftruncate {H : Hash} {config : WitnessLogConfig} {leaves : Option Bytes}
    {state : StoredWitnessState} {hashes : List Bytes}
    (h : Committed H config leaves state hashes) :
    WitnessNode.ftruncate (leaves.getD []) (state.treeSize * 32) = hashes.flatten := by
  obtain ⟨rest, hleaves⟩ := h.leaves
  have hlen := length_flatten_hashes h.hashLength
  rw [WitnessNode.ftruncate, hleaves, Option.getD_some, ← h.length, ← hlen, List.take_left,
    List.length_append, Nat.sub_eq_zero_of_le (by omega), List.replicate_zero, List.append_nil]

/-- A write from the committed length on keeps the committed hashes, wherever
it stops. -/
theorem Committed.write {H : Hash} {config : WitnessLogConfig} {leaves : Option Bytes}
    {state : StoredWitnessState} {hashes : List Bytes}
    (h : Committed H config leaves state hashes) (new : List Bytes) (io : LeafWrite) :
    Committed H config (writeLeafHashesDurably leaves new state.treeSize io).1 state hashes := by
  unfold writeLeafHashesDurably
  split
  · exact h
  · rw [h.ftruncate]
    cases io with
    | untouched => exact h
    | cut tail => exact ⟨h.valid, h.length, h.hashLength, ⟨tail, rfl⟩, h.root⟩
    | done => exact ⟨h.valid, h.length, h.hashLength, ⟨_, rfl⟩, h.root⟩

/-! ## One round -/

/-- The stored state has its leaf hashes. -/
def Sound (store : WitnessStore) : Prop :=
  ∀ state ∈ store.state, ∃ hashes, Committed H config store.leaves state hashes

theorem load_eq {H : Hash} {config : WitnessLogConfig} {store : WitnessStore}
    (h : Sound H config store) : store.load config.logName = .ok store.state := by
  rw [WitnessStore.load]
  cases hstate : store.state with
  | none => rfl
  | some state =>
      obtain ⟨hashes, hc⟩ := h state hstate
      simp only [hc.valid, if_true]

/-- What `prepare` has checked when it hands over a state. -/
structure Plan (store : WitnessStore) (state : StoredWitnessState) (leafHashes : List Bytes) :
    Prop where
  origin : state.logOrigin = config.logName
  body : state.treeSize = state.checkpointBody.treeSize ∧
    state.rootHash = state.checkpointBody.rootHash
  extends_prior : ∀ prior ∈ store.state, prior.treeSize < state.treeSize ∧
    ∃ hashes, store.loadLeafHashes prior = .ok hashes ∧ hashes <+: leafHashes
  length : leafHashes.length = state.treeSize
  root : checkpointRootFromLeafHashes H leafHashes = .ok state.rootHash
  cosignature : store.getCosignature state.rootHash = some state.cosignature ∨
    store.getCosignature state.rootHash = none ∧ state.cosignature.body = state.checkpointBody

theorem readView_ok {store : WitnessStore} {prior : Option StoredWitnessState}
    {checkpoint : CheckpointBody} {update : Update} {leafHashes : List Bytes}
    (h : readView H config store prior checkpoint update = .ok leafHashes) :
    (∀ p ∈ prior, ∃ hashes, store.loadLeafHashes p = .ok hashes ∧ hashes <+: leafHashes) ∧
      leafHashes.length = checkpoint.treeSize ∧
      checkpointRootFromLeafHashes H leafHashes = .ok checkpoint.rootHash := by
  unfold readView at h
  obtain ⟨⟨priorHashes, fetched⟩, hread, h⟩ := bind_ok h
  have hprior : ∀ p ∈ prior, store.loadLeafHashes p = .ok priorHashes := by
    rintro p rfl
    obtain ⟨hashes, hload, hread⟩ := bind_ok hread
    split at hread
    · injection hread with hread
      exact hload.trans (congrArg Except.ok (Prod.mk.inj hread).1)
    · obtain ⟨_, -, hread⟩ := bind_ok hread
      injection hread with hread
      exact hload.trans (congrArg Except.ok (Prod.mk.inj hread).1)
  simp only at h
  split at h
  · cases h
  · obtain ⟨consistent, hcons, h⟩ := bind_ok h
    split at h
    · next htrue =>
        subst htrue
        obtain ⟨_, -, h⟩ := bind_ok h
        injection h with h
        subst h
        obtain ⟨hlen, hroot⟩ := root_of_consistent H hcons
        exact ⟨fun p hp => ⟨priorHashes, hprior p hp, List.prefix_append _ _⟩, hlen, hroot⟩
    · cases h

theorem stateToCommit_ok {store : WitnessStore} {checkpoint : CheckpointBody} {update : Update}
    {view leafHashes : List Bytes} {state : StoredWitnessState}
    (h : stateToCommit store checkpoint update view =
      .ok (.toCommit state leafHashes)) :
    leafHashes = view ∧ state.logOrigin = checkpoint.origin ∧
      state.checkpointBody = checkpoint ∧ state.treeSize = checkpoint.treeSize ∧
      state.rootHash = checkpoint.rootHash ∧
      (store.getCosignature checkpoint.rootHash = some state.cosignature ∨
        store.getCosignature checkpoint.rootHash = none ∧ state.cosignature.body = checkpoint) := by
  unfold stateToCommit at h
  obtain ⟨cosignature, hcosig, h⟩ := bind_ok h
  injection h with h
  injection h with hstate hview
  subst hstate hview
  refine ⟨rfl, rfl, rfl, rfl, rfl, ?_⟩
  unfold cosignatureFor at hcosig
  split at hcosig
  · next existing hget =>
      injection hcosig with hcosig
      exact Or.inl (by rw [hget, hcosig])
  · next hget =>
      unfold createWitnessCosignature at hcosig
      split at hcosig
      · cases hcosig
      · injection hcosig with hcosig
        exact Or.inr ⟨hget, by rw [← hcosig]⟩

theorem plan_of_view {store : WitnessStore} {checkpoint : CheckpointBody} {update : Update}
    {view leafHashes : List Bytes} {state : StoredWitnessState}
    (horigin : checkpoint.origin = config.logName)
    (hgrow : ∀ prior ∈ store.state, prior.treeSize < checkpoint.treeSize)
    (hview : readView H config store store.state checkpoint update = .ok view)
    (h : stateToCommit store checkpoint update view =
      .ok (.toCommit state leafHashes)) : Plan H config store state leafHashes := by
  obtain ⟨rfl, ho, hb, hs, hr, hc⟩ := stateToCommit_ok h
  obtain ⟨hpre, hlen, hroot⟩ := readView_ok H config hview
  refine ⟨ho.trans horigin, by rw [hb]; exact ⟨hs, hr⟩, fun prior hprior => ?_, by rw [hs, hlen],
    by rw [hr, hroot], by rw [hr, hb]; exact hc⟩
  exact ⟨hs ▸ hgrow prior hprior, hpre prior hprior⟩

theorem prepare_toCommit {store : WitnessStore} (hsound : Sound H config store)
    {update : Update} {state : StoredWitnessState} {leafHashes : List Bytes}
    (h : prepare H config store update = .ok (.toCommit state leafHashes)) :
    Plan H config store state leafHashes := by
  unfold prepare at h
  obtain ⟨checkpoint, hcp, h⟩ := bind_ok h
  have horigin : checkpoint.origin = config.logName := by
    unfold operatorCheckpoint at hcp
    split at hcp
    · cases hcp
    · split at hcp
      · cases hcp
      · next heq =>
          injection hcp with hcp
          rw [← hcp]
          exact not_not.1 heq
  obtain ⟨prior, hprior, h⟩ := bind_ok h
  rw [horigin, load_eq hsound] at hprior
  injection hprior with hprior
  cases prior with
  | none =>
      obtain ⟨view, hview, h⟩ := bind_ok h
      rw [← hprior] at hview
      exact plan_of_view H config horigin (by rw [hprior]; simp) hview h
  | some prior =>
      simp only at h
      split at h
      · cases h
      · next hroll =>
          split at h
          · unfold prepareUnchanged at h
            split at h
            · cases h
            · split at h
              · cases h
              · obtain ⟨view, -, h⟩ := bind_ok h
                cases h
          · next hsame =>
              obtain ⟨view, hview, h⟩ := bind_ok h
              rw [← hprior] at hview
              refine plan_of_view H config horigin ?_ hview h
              rw [hprior]
              rintro p ⟨⟩
              omega

/-- Everything a round can leave in the store. -/
inductive Round (store : WitnessStore) (update : Update) : WitnessStore → Prop
  /-- Nothing but leaf bytes behind the committed ones. -/
  | kept {leaves : Option Bytes}
      (hkeep : ∀ state ∈ store.state, ∀ hashes,
        Committed H config store.leaves state hashes → Committed H config leaves state hashes) :
      Round store update { store with leaves := leaves }
  /-- A cosignature whose state was not renamed into place. -/
  | cosigned {leaves : Option Bytes} {state : StoredWitnessState} {leafHashes : List Bytes}
      (hprep : prepare H config store update = .ok (.toCommit state leafHashes))
      (hkeep : ∀ state ∈ store.state, ∀ hashes,
        Committed H config store.leaves state hashes → Committed H config leaves state hashes)
      (hnew : store.getCosignature state.rootHash = none)
      (hleaves : update.io.leaves = .done) (hrenamed : update.io.cosignature.renamed = true)
      (hstate : update.io.cosignature = .done → update.io.state = .notRenamed) :
      Round store update
        { store with
          leaves := leaves
          cosignatures := store.cosignatures ++ [(state.rootHash, state.cosignature)] }
  /-- The state and its leaf hashes, and its cosignature if it had none. -/
  | committed {leaves : Option Bytes} {state : StoredWitnessState} {leafHashes : List Bytes}
      (hprep : prepare H config store update = .ok (.toCommit state leafHashes))
      (hcommitted : Committed H config leaves state leafHashes)
      (hkeep : ∀ state ∈ store.state, ∀ hashes,
        Committed H config store.leaves state hashes → Committed H config leaves state hashes) :
      Round store update
        { state := some state
          leaves := leaves
          cosignatures := if (store.getCosignature state.rootHash).isSome then store.cosignatures
            else store.cosignatures ++ [(state.rootHash, state.cosignature)] }

theorem write_ok {leaves : Option Bytes} {new : List Bytes} {count : ℕ} {io : LeafWrite}
    (h : (writeLeafHashesDurably leaves new count io).2 = .ok ()) :
    io = .done ∧ (writeLeafHashesDurably leaves new count io).1 =
      some (ftruncate (leaves.getD []) (count * 32) ++ (new.drop count).flatten) := by
  unfold writeLeafHashesDurably at h ⊢
  split at h
  · cases h
  · next hle =>
      rw [if_neg hle]
      cases io with
      | untouched => cases h
      | cut tail => cases h
      | done => exact ⟨rfl, rfl⟩

/-- The count of committed hashes a commit starts from. -/
def committedCount (store : WitnessStore) : ℕ := (store.state.map (·.treeSize)).getD 0

/-- A write from that count on keeps the committed hashes of the stored state. -/
theorem keep_write (store : WitnessStore) (new : List Bytes) (io : LeafWrite) :
    ∀ state ∈ store.state, ∀ hashes, Committed H config store.leaves state hashes →
      Committed H config
        (writeLeafHashesDurably store.leaves new (committedCount store) io).1 state hashes := by
  intro state hstate hashes hc
  have hcount : committedCount store = state.treeSize := by
    rw [committedCount, Option.mem_def.1 hstate]
    rfl
  rw [hcount]
  exact hc.write new io

/-- A write that was finished puts the new leaf hashes behind the new state. -/
theorem committed_write {store : WitnessStore} (hsound : Sound H config store)
    {state : StoredWitnessState} {leafHashes : List Bytes}
    (hplan : Plan H config store state leafHashes)
    (hvalid : validateState state state.logOrigin = true) (hone : leafHashes.length ≠ 0) :
    Committed H config
      (some (ftruncate (store.leaves.getD []) (committedCount store * 32) ++
        (leafHashes.drop (committedCount store)).flatten)) state leafHashes := by
  have hfile : ftruncate (store.leaves.getD []) (committedCount store * 32) ++
      (leafHashes.drop (committedCount store)).flatten = leafHashes.flatten := by
    unfold committedCount
    cases hstate : store.state with
    | none => simp [ftruncate]
    | some prior =>
        obtain ⟨hashes, hc⟩ := hsound prior hstate
        obtain ⟨-, hashes', hload, hpre⟩ := hplan.extends_prior prior hstate
        obtain rfl : hashes = hashes' := by
          rw [hc.loadLeafHashes] at hload
          injection hload
        rw [Option.map_some, Option.getD_some, hc.ftruncate, ← hc.length]
        obtain ⟨more, rfl⟩ := hpre
        rw [List.drop_left, List.flatten_append]
  refine ⟨by rw [← hplan.origin]; exact hvalid, hplan.length,
    length_of_root H hone hplan.root, ⟨[], ?_⟩, hplan.root⟩
  rw [hfile, List.append_nil]

theorem commit_round {store : WitnessStore} (hsound : Sound H config store) {update : Update}
    {state : StoredWitnessState} {leafHashes : List Bytes}
    (hprep : prepare H config store update = .ok (.toCommit state leafHashes)) :
    Round H config store update (store.commit state leafHashes update.io).1 := by
  have hplan := prepare_toCommit H config hsound hprep
  have hkeep := keep_write H config store leafHashes update.io.leaves
  have hsame : Round H config store update store := .kept fun _ _ _ hc => hc
  unfold WitnessStore.commit
  split
  · exact hsame
  · next hvalid =>
      split
      · exact hsame
      · rw [hplan.origin, load_eq hsound]
        dsimp only
        split
        · exact hsame
        · cases hw : (writeLeafHashesDurably store.leaves leafHashes (committedCount store)
              update.io.leaves).2 with
          | error message =>
              unfold committedCount at hw
              simp only [hw]
              exact .kept hkeep
          | ok _ =>
              obtain ⟨hdone, hfile⟩ := write_ok hw
              have hone : leafHashes.length ≠ 0 := by
                have := state.checkpointBody.one_le_treeSize
                rw [hplan.length, hplan.body.1]
                omega
              have hnew := committed_write H config hsound hplan (by simpa using hvalid) hone
              rw [hfile] at hkeep
              unfold committedCount at hw hfile hnew hkeep
              simp only [hw, hfile]
              unfold WitnessStore.commitCosignature
              have hget : WitnessStore.getCosignature
                  { store with leaves := some (ftruncate (store.leaves.getD [])
                    ((store.state.map (·.treeSize)).getD 0 * 32) ++
                      (leafHashes.drop ((store.state.map (·.treeSize)).getD 0)).flatten) }
                  state.rootHash = store.getCosignature state.rootHash := rfl
              rw [hget]
              rcases hplan.cosignature with hcosig | ⟨hnone, -⟩
              · -- the cosignature is there already, and is the one of the state
                rw [hcosig]
                simp only [ne_eq, not_true_eq_false, if_false, WitnessStore.commitState]
                by_cases hren : update.io.state.renamed = true
                · rw [if_pos hren]
                  have := Round.committed hprep hnew hkeep
                  rwa [hcosig, Option.isSome_some, if_pos rfl] at this
                · rw [if_neg hren]
                  exact .kept hkeep
              · rw [hnone]
                cases hio : update.io.cosignature with
                | notRenamed => exact .kept hkeep
                | renamedThenFailed =>
                    exact .cosigned hprep hkeep hnone hdone (by rw [hio]; rfl)
                      (by rw [hio]; simp)
                | done =>
                    simp only [FileWrite.renamed, FileWrite.result, if_true,
                      WitnessStore.commitState]
                    cases hst : update.io.state with
                    | notRenamed =>
                        exact .cosigned hprep hkeep hnone hdone (by rw [hio]; rfl)
                          fun _ => hst
                    | renamedThenFailed =>
                        have := Round.committed hprep hnew hkeep
                        rwa [hnone, Option.isSome_none, if_neg Bool.false_ne_true] at this
                    | done =>
                        have := Round.committed hprep hnew hkeep
                        rwa [hnone, Option.isSome_none, if_neg Bool.false_ne_true] at this

theorem step_round {store : WitnessStore} (hsound : Sound H config store) (update : Update) :
    Round H config store update (step H config store update) := by
  unfold step witnessOnce
  cases hprep : prepare H config store update with
  | error message => exact .kept fun _ _ _ hc => hc
  | ok prepared =>
      cases prepared with
      | unchanged result => exact .kept fun _ _ _ hc => hc
      | toCommit state leafHashes => exact commit_round H config hsound hprep

/-! ## Runs -/

section Round

variable {H} {config} {store store' : WitnessStore} {update : Update}

theorem Round.sound (hsound : Sound H config store) (h : Round H config store update store') :
    Sound H config store' := by
  cases h with
  | kept hkeep =>
      intro state hstate
      obtain ⟨hashes, hc⟩ := hsound state hstate
      exact ⟨hashes, hkeep state hstate hashes hc⟩
  | cosigned _ hkeep =>
      intro state hstate
      obtain ⟨hashes, hc⟩ := hsound state hstate
      exact ⟨hashes, hkeep state hstate hashes hc⟩
  | committed _ hcommitted =>
      rintro state ⟨⟩
      exact ⟨_, hcommitted⟩

/-- A stored state is replaced only by a larger one. -/
theorem Round.treeSize_le (hsound : Sound H config store)
    (h : Round H config store update store') {state : StoredWitnessState}
    (hstate : state ∈ store.state) : ∃ state' ∈ store'.state, state.treeSize ≤ state'.treeSize := by
  cases h with
  | kept => exact ⟨state, hstate, Nat.le_refl _⟩
  | cosigned => exact ⟨state, hstate, Nat.le_refl _⟩
  | @committed leaves new _ hprep =>
      exact ⟨new, rfl, Nat.le_of_lt
        ((prepare_toCommit H config hsound hprep).extends_prior state hstate).1⟩

/-- A round that does not replace the state leaves its leaf hashes readable. -/
theorem Round.loadLeafHashes (hsound : Sound H config store)
    (h : Round H config store update store') {state : StoredWitnessState}
    (hstate : state ∈ store.state) (hstate' : state ∈ store'.state) :
    store'.loadLeafHashes state = store.loadLeafHashes state := by
  obtain ⟨hashes, hc⟩ := hsound state hstate
  have hc' : Committed H config store'.leaves state hashes := by
    cases h with
    | kept hkeep => exact hkeep state hstate hashes hc
    | cosigned _ hkeep => exact hkeep state hstate hashes hc
    | committed _ _ hkeep => exact hkeep state hstate hashes hc
  rw [hc'.loadLeafHashes, hc.loadLeafHashes]

end Round

theorem run_sound (updates : List Update) :
    Sound H config (run (step H config) .empty updates) := by
  induction updates using List.reverseRecOn with
  | nil => rintro state ⟨⟩
  | append_singleton updates update ih =>
      rw [run_snoc]
      exact (step_round H config ih update).sound ih

theorem run_treeSize_le (updates more : List Update) {state : StoredWitnessState}
    (hstate : state ∈ (run (step H config) .empty updates).state) :
    ∃ state' ∈ (run (step H config) .empty (updates ++ more)).state,
      state.treeSize ≤ state'.treeSize := by
  induction more using List.reverseRecOn with
  | nil =>
      rw [List.append_nil]
      exact ⟨state, hstate, Nat.le_refl _⟩
  | append_singleton more update ih =>
      obtain ⟨state', hstate', hle⟩ := ih
      rw [← List.append_assoc, run_snoc]
      have hsound := run_sound H config (updates ++ more)
      obtain ⟨state'', hstate'', hle'⟩ :=
        (step_round H config hsound update).treeSize_le hsound hstate'
      exact ⟨state'', hstate'', hle.trans hle'⟩

/-- Over any run of rounds against any log, with a cut anywhere in any write:
stored sizes never go down, and the leaf file of a stored state is long enough
and gives back leaf hashes of its size and root; a round that does not replace
the state leaves those as they were. -/
theorem store_integrity (updates : List Update) :
    (∀ earlier more, earlier ++ more <+: updates →
      ∀ state ∈ (run (step H config) .empty earlier).state,
        ∃ state' ∈ (run (step H config) .empty (earlier ++ more)).state,
          state.treeSize ≤ state'.treeSize) ∧
    (∀ pre, pre <+: updates → ∀ state ∈ (run (step H config) .empty pre).state,
      (∃ bytes, (run (step H config) .empty pre).leaves = some bytes ∧
        32 * state.treeSize ≤ bytes.length) ∧
      ∃ hashes, (run (step H config) .empty pre).loadLeafHashes state = .ok hashes ∧
        hashes.length = state.treeSize ∧
        checkpointRootFromLeafHashes H hashes = .ok state.rootHash) ∧
    ∀ pre update, pre ++ [update] <+: updates →
      ∀ state ∈ (run (step H config) .empty pre).state,
        state ∈ (run (step H config) .empty (pre ++ [update])).state →
        (run (step H config) .empty (pre ++ [update])).loadLeafHashes state =
          (run (step H config) .empty pre).loadLeafHashes state := by
  refine ⟨fun earlier more _ state hstate => run_treeSize_le H config earlier more hstate,
    fun pre _ state hstate => ?_, fun pre update _ state hstate hstate' => ?_⟩
  · obtain ⟨hashes, hc⟩ := run_sound H config pre state hstate
    obtain ⟨rest, hleaves⟩ := hc.leaves
    refine ⟨⟨_, hleaves, ?_⟩, hashes, hc.loadLeafHashes, hc.length, hc.root⟩
    rw [List.length_append, length_flatten_hashes hc.hashLength, hc.length]
    omega
  · rw [run_snoc] at hstate' ⊢
    have hsound := run_sound H config pre
    exact (step_round H config hsound update).loadLeafHashes hsound hstate hstate'

end Atrib.WitnessNode
