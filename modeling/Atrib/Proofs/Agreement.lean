import Atrib.Proofs.ServerMoves
import Atrib.Proofs.Inclusion
import Mathlib.Data.List.Induction
import Mathlib.Data.List.Nodup

/-!
# What the log answers under any interleaving

A bundle is built before the signer is awaited and sent after, when the tree
may have grown. `Holds` is therefore about a size the log once had: the bundle
is the proof for an index among the first `n` entries, and appends leave that
alone. Carrying it through the dedup map, the two kinds of handler that sign
and the responses is the invariant `Serves`.

The second invariant is about the lock and the map together: an entry whose
hash the map does not know is the one being signed. Whoever holds the lock and
misses in the map therefore appends a new hash.
-/

namespace Atrib.LogNode

open Lib (run run_snoc)
open MerkleTree (Represents restored)

variable (H : Hash)

/-! ## The dedup map -/

theorem ProofCache.get_some {cache : ProofCache} {recordHash : Bytes} {proof : ProofBundle}
    (h : cache.get recordHash = some proof) : (recordHash, proof) ∈ cache := by
  obtain ⟨kv, hfind, rfl⟩ := Option.map_eq_some_iff.1 h
  have hkey := List.find?_some hfind
  have hmem := List.mem_of_find?_eq_some hfind
  rw [decide_eq_true_eq] at hkey
  rwa [← hkey]

theorem ProofCache.mem_set {cache : ProofCache} {recordHash : Bytes} {proof : ProofBundle}
    {kv : Bytes × ProofBundle} (h : kv ∈ cache.set recordHash proof) :
    kv = (recordHash, proof) ∨ kv ∈ cache := by
  unfold set at h
  split at h
  · obtain ⟨kv', hmem, heq⟩ := List.mem_map.1 h
    split at heq
    · exact Or.inl heq.symm
    · exact Or.inr (heq ▸ hmem)
  · rcases List.mem_append.1 h with h | h
    · exact Or.inr h
    · exact Or.inl (List.mem_singleton.1 h)

theorem ProofCache.mem_evict {cache : ProofCache} {kv : Bytes × ProofBundle}
    (h : kv ∈ cache.evict) : kv ∈ cache := by
  unfold evict at h
  split at h
  · exact List.mem_of_mem_tail h
  · exact h

/-- Setting a key loses no other. -/
theorem ProofCache.isSome_get_set {cache : ProofCache} {recordHash key : Bytes}
    {proof : ProofBundle} (h : key = recordHash ∨ (cache.get key).isSome) :
    ((cache.set recordHash proof).get key).isSome := by
  have hiff : ∀ cs : ProofCache, (ProofCache.get cs key).isSome ↔ ∃ kv ∈ cs, kv.1 = key := by
    intro cs
    rw [get, Option.isSome_map, List.find?_isSome]
    simp
  rw [hiff] at h
  rw [hiff, set]
  split
  · next hany =>
      obtain ⟨kv, hkv, hkey⟩ := List.any_eq_true.1 hany
      have hmap : ∀ kv ∈ cache, kv.1 = key →
          ∃ kv' ∈ cache.map fun kv => if kv.1 = recordHash then (recordHash, proof) else kv,
            kv'.1 = key := by
        intro kv hkv hk
        refine ⟨_, List.mem_map_of_mem hkv, ?_⟩
        split
        · next heq => rw [← hk, heq]
        · exact hk
      rcases h with rfl | ⟨kv', hkv', hk'⟩
      · exact hmap kv hkv (by simpa using hkey)
      · exact hmap kv' hkv' hk'
  · rcases h with rfl | ⟨kv', hkv', hk'⟩
    · exact ⟨_, List.mem_append_right _ (List.mem_singleton_self _), rfl⟩
    · exact ⟨kv', List.mem_append_left _ hkv', hk'⟩

/-! ## Bundles -/

/-- The bundle in flight is the proof for the record among the entries the log
had when it was begun. -/
def Holds (raw : List Bytes) (recordHash : Bytes) (pending : PendingBundle) : Prop :=
  ∃ n i, n ≤ raw.length ∧ i < n ∧ pending = pendingOf H (raw.take n) i ∧
    recordHashOf (raw.getD i []) = recordHash

theorem Holds.grow {H : Hash} {raw raw' : List Bytes} {recordHash : Bytes}
    {pending : PendingBundle} (h : Holds H raw recordHash pending) (hpre : raw <+: raw') :
    Holds H raw' recordHash pending := by
  obtain ⟨more, rfl⟩ := hpre
  obtain ⟨n, i, hn, hi, hp, hhash⟩ := h
  refine ⟨n, i, by rw [List.length_append]; omega, hi, ?_, ?_⟩
  · rw [List.take_append_of_le_length hn]
    exact hp
  · rwa [List.getD_append _ _ _ _ (by omega)]

theorem holds_pendingOf {raw : List Bytes} {i : ℕ} (hi : i < raw.length) :
    Holds H raw (recordHashOf raw[i]) (pendingOf H raw i) :=
  ⟨raw.length, i, Nat.le_refl _, hi, by rw [List.take_length], by
    rw [List.getD_eq_getElem _ _ hi]⟩

/-- The bundle is a signed one of those. -/
def Proves (raw : List Bytes) (recordHash : Bytes) (proof : ProofBundle) : Prop :=
  ∃ pending signature, proof = pending.signed signature ∧ Holds H raw recordHash pending

theorem Proves.grow {H : Hash} {raw raw' : List Bytes} {recordHash : Bytes}
    {proof : ProofBundle} (h : Proves H raw recordHash proof) (hpre : raw <+: raw') :
    Proves H raw' recordHash proof := by
  obtain ⟨pending, signature, rfl, hh⟩ := h
  exact ⟨pending, signature, rfl, hh.grow hpre⟩

/-- Such a bundle names an entry of the record, and its own proof verifies
against its own checkpoint. -/
theorem Proves.verifies {H : Hash} {raw : List Bytes} {recordHash : Bytes} {proof : ProofBundle}
    (h : Proves H raw recordHash proof) :
    ∃ hi : proof.logIndex < raw.length, recordHashOf raw[proof.logIndex] = recordHash ∧
      proof.leafHash = H.leafHash raw[proof.logIndex] ∧
      H.verifyInclusion proof.logIndex proof.checkpoint.treeSize proof.leafHash
        proof.inclusionProof proof.checkpoint.rootHash = true := by
  obtain ⟨pending, signature, rfl, n, i, hn, hi, rfl, hhash⟩ := h
  have hlen : (raw.take n).length = n := by rw [List.length_take]; omega
  have hi' : i < (raw.take n).length := by omega
  have hiraw : i < raw.length := Nat.lt_of_lt_of_le hi hn
  have hget : (raw.take n)[i] = raw[i] := List.getElem_take
  refine ⟨hiraw, ?_, ?_, ?_⟩
  · rwa [List.getD_eq_getElem _ _ (by omega)] at hhash
  · change H.leafAt (raw.take n) i = _
    rw [H.leafAt_of_lt hi', hget]
    rfl
  · obtain ⟨proof, root, hproof, hroot, hv⟩ :=
      H.verifyInclusion_computeInclusionProof hi'
    rw [H.computeInclusionProof_eq hi'] at hproof
    obtain ⟨-, rfl⟩ := H.computeRoot_ok hroot
    injection hproof with hproof
    rw [← hproof, ← H.leafAt_of_lt hi'] at hv
    exact hv

/-- Everything the server holds or has sent is a bundle of that kind. -/
structure Serves (s : Server) (raw : List Bytes) : Prop where
  tree : Represents H s.tree raw
  lock : LockOrder s.submissions
  cache : ∀ kv ∈ s.proofCache, Proves H raw kv.1 kv.2
  signing : ∀ (t : ℕ) entry pending, s.submissions[t]? = some (.signing entry pending) →
    Holds H raw entry.recordHash pending ∧
      raw[pending.logIndex]? = some (serializeEntry entry) ∧ pending.logIndex + 1 = raw.length
  lookups : ∀ recordHash pending, LookupState.signing recordHash pending ∈ s.lookups →
    Holds H raw recordHash pending
  responses : ∀ recordHash proof, Response.proof recordHash proof ∈ s.responses →
    Proves H raw recordHash proof

theorem boot_serves {tree : MerkleTree} {raw : List Bytes} (h : Represents H tree raw) :
    Serves H (Server.boot tree) raw where
  tree := h
  lock := by intro t state ht; simp [Server.boot] at ht
  cache := by simp [Server.boot]
  signing := by simp [Server.boot]
  lookups := by simp [Server.boot]
  responses := by simp [Server.boot]

theorem proves_respond {H : Hash} {raw : List Bytes} {s : Server} {response : Response}
    (h : ∀ recordHash proof, Response.proof recordHash proof ∈ s.responses →
      Proves H raw recordHash proof)
    (hnew : ∀ recordHash proof, response = .proof recordHash proof →
      Proves H raw recordHash proof) :
    ∀ recordHash proof, Response.proof recordHash proof ∈ (s.respond response).responses →
      Proves H raw recordHash proof := by
  intro recordHash proof hmem
  rcases List.mem_append.1 hmem with hmem | hmem
  · exact h _ _ hmem
  · exact hnew _ _ (List.mem_singleton.1 hmem).symm

theorem proves_remember {H : Hash} {raw : List Bytes} {s : Server} {recordHash : Bytes}
    {proof : ProofBundle} (h : ∀ kv ∈ s.proofCache, Proves H raw kv.1 kv.2)
    (hnew : Proves H raw recordHash proof) :
    ∀ kv ∈ (s.remember recordHash proof).proofCache, Proves H raw kv.1 kv.2 := by
  intro kv hkv
  rcases ProofCache.mem_set hkv with rfl | hkv
  · exact hnew
  · exact h kv (ProofCache.mem_evict hkv)

theorem signing_of_set {submissions : List SubmissionState} {ticket t : ℕ}
    {state : SubmissionState} {entry : EntryInput} {pending : PendingBundle}
    (h : (submissions.set ticket state)[t]? = some (.signing entry pending)) :
    (t = ticket ∧ state = .signing entry pending) ∨
      (t ≠ ticket ∧ submissions[t]? = some (.signing entry pending)) := by
  by_cases ht : t = ticket
  · subst ht
    left
    obtain ⟨hlt, heq⟩ := List.getElem?_eq_some_iff.1 h
    rw [List.getElem_set_self] at heq
    exact ⟨rfl, heq⟩
  · rw [List.getElem?_set_ne (Ne.symm ht)] at h
    exact Or.inr ⟨ht, h⟩

theorem signing_of_release {submissions : List SubmissionState} {ticket t : ℕ}
    {entry : EntryInput} {pending : PendingBundle}
    (h : (submissions.set ticket .released)[t]? = some (.signing entry pending)) :
    t ≠ ticket ∧ submissions[t]? = some (.signing entry pending) := by
  rcases signing_of_set h with ⟨-, heq⟩ | h
  · cases heq
  · exact h

theorem lookup_of_done {lookups : List LookupState} {id : ℕ} {recordHash : Bytes}
    {pending : PendingBundle}
    (h : LookupState.signing recordHash pending ∈ lookups.set id .done) :
    LookupState.signing recordHash pending ∈ lookups := by
  rcases List.mem_or_eq_of_mem_set h with h | heq
  · exact h
  · cases heq

theorem signing_of_append {submissions : List SubmissionState} {t : ℕ} {entry e : EntryInput}
    {pending : PendingBundle}
    (h : (submissions ++ [.waiting e])[t]? = some (.signing entry pending)) :
    submissions[t]? = some (.signing entry pending) := by
  rcases Nat.lt_or_ge t submissions.length with hlt | hge
  · rwa [List.getElem?_append_left hlt] at h
  · rw [List.getElem?_append_right hge] at h
    have := List.mem_singleton.1 (List.mem_of_getElem? h)
    cases this

theorem Move.serves {H : Hash} {raw raw' : List Bytes} {s s' : Server} {a : Action}
    (h : Serves H s raw) (hmove : Move H raw s a s' raw') : Serves H s' raw' := by
  have htree := hmove.represents h.tree
  have hlock := hmove.lockOrder h.lock
  cases hmove with
  | stay => exact h
  | errored =>
      exact ⟨htree, hlock, h.cache, h.signing, h.lookups,
        proves_respond h.responses (by simp)⟩
  | answered _ hget =>
      refine ⟨htree, hlock, h.cache, h.signing, h.lookups, proves_respond h.responses ?_⟩
      rintro _ _ ⟨⟩
      exact h.cache _ (ProofCache.get_some hget)
  | enqueued entry =>
      exact ⟨htree, hlock, h.cache, fun t e p ht => h.signing t e p (signing_of_append ht),
        h.lookups, h.responses⟩
  | deduplicated hwait hl hget =>
      refine ⟨htree, hlock, h.cache, fun t e p ht => h.signing t e p (signing_of_release ht).2,
        h.lookups, proves_respond h.responses ?_⟩
      rintro _ _ ⟨⟩
      exact h.cache _ (ProofCache.get_some hget)
  | appendFailed =>
      exact ⟨htree, hlock, h.cache, fun t e p ht => h.signing t e p (signing_of_release ht).2,
        h.lookups, proves_respond h.responses (by simp)⟩
  | @appended ticket io entry tree hwait hl hmiss _ =>
      have hpre : raw <+: raw ++ [serializeEntry entry] := List.prefix_append _ _
      refine ⟨htree, hlock, fun kv hkv => (h.cache kv hkv).grow hpre, fun t e p ht => ?_,
        fun _ _ hmem => (h.lookups _ _ hmem).grow hpre,
        fun _ _ hmem => (h.responses _ _ hmem).grow hpre⟩
      rcases signing_of_set ht with ⟨-, heq⟩ | ⟨-, ht⟩
      · cases heq
        have hlast : raw.length < (raw ++ [serializeEntry entry]).length := by simp
        have hget : (raw ++ [serializeEntry entry])[raw.length] = serializeEntry entry := by
          simp
        refine ⟨?_, by simp [pendingOf], by simp [pendingOf]⟩
        have hh := holds_pendingOf H hlast
        rwa [hget, recordHashOf_serializeEntry] at hh
      · exact absurd ht (h.lock.not_signing hwait hl)
  | @submitSigned ticket signature entry pending hsign =>
      have hp : Proves H raw entry.recordHash (pending.signed signature) :=
        ⟨pending, signature, rfl, (h.signing _ _ _ hsign).1⟩
      refine ⟨htree, hlock, proves_remember h.cache hp,
        fun t e p ht => h.signing t e p (signing_of_release ht).2, h.lookups,
        proves_respond h.responses ?_⟩
      intro _ _ heq
      cases heq
      exact hp
  | submitSignFailed =>
      exact ⟨htree, hlock, h.cache, fun t e p ht => h.signing t e p (signing_of_release ht).2,
        h.lookups, proves_respond h.responses (by simp)⟩
  | lookupBegun hi hhash =>
      refine ⟨htree, hlock, h.cache, h.signing, fun _ _ hmem => ?_, h.responses⟩
      rcases List.mem_append.1 hmem with hmem | hmem
      · exact h.lookups _ _ hmem
      · cases List.mem_singleton.1 hmem
        exact hhash ▸ holds_pendingOf H hi
  | @lookupSigned id signature recordHash pending hsign =>
      have hp : Proves H raw recordHash (pending.signed signature) :=
        ⟨pending, signature, rfl, h.lookups _ _ (List.mem_of_getElem? hsign)⟩
      refine ⟨htree, hlock, proves_remember h.cache hp, h.signing,
        fun _ _ hmem => h.lookups _ _ (lookup_of_done hmem), proves_respond h.responses ?_⟩
      intro _ _ heq
      cases heq
      exact hp
  | lookupSignFailed =>
      exact ⟨htree, hlock, h.cache, h.signing,
        fun _ _ hmem => h.lookups _ _ (lookup_of_done hmem),
        proves_respond h.responses (by simp)⟩
  | checkpointBegun => exact ⟨htree, hlock, h.cache, h.signing, h.lookups, h.responses⟩
  | checkpointSigned =>
      exact ⟨htree, hlock, h.cache, h.signing, h.lookups, proves_respond h.responses (by simp)⟩
  | checkpointSignFailed =>
      exact ⟨htree, hlock, h.cache, h.signing, h.lookups, proves_respond h.responses (by simp)⟩
  | connected => exact ⟨htree, hlock, h.cache, h.signing, h.lookups, h.responses⟩
  | disconnected => exact ⟨htree, hlock, h.cache, h.signing, h.lookups, h.responses⟩

/-! ## Each hash once -/

/-- While nothing was evicted and no signature failed: every entry's hash is
its own, and is in the map unless the entry is the one being signed. -/
def Deduplicated (s : Server) (raw : List Bytes) : Prop :=
  s.evicted = false → s.signerFailed = false →
    (raw.map recordHashOf).Nodup ∧
      ∀ (i : ℕ) (hi : i < raw.length), (s.proofCache.get (recordHashOf raw[i])).isSome ∨
        ∃ (t : ℕ) (entry : EntryInput) (pending : PendingBundle),
          s.submissions[t]? = some (.signing entry pending) ∧ pending.logIndex = i

/-- What a step may do to the map and to the submission being signed, when the
log does not grow. -/
theorem Deduplicated.of_same {s s' : Server} {raw : List Bytes} (h : Deduplicated s raw)
    (hev : s'.evicted = false → s.evicted = false)
    (hfail : s'.signerFailed = false → s.signerFailed = false)
    (hkeep : s'.evicted = false → s'.signerFailed = false →
      ∀ key, (s.proofCache.get key).isSome → (s'.proofCache.get key).isSome)
    (hsign : s'.signerFailed = false → ∀ (t : ℕ) entry pending,
      s.submissions[t]? = some (.signing entry pending) →
      (s'.proofCache.get entry.recordHash).isSome ∨
        s'.submissions[t]? = some (.signing entry pending))
    (hraw : ∀ (t : ℕ) entry pending, s.submissions[t]? = some (.signing entry pending) →
      raw[pending.logIndex]? = some (serializeEntry entry)) :
    Deduplicated s' raw := by
  intro hev' hfail'
  obtain ⟨hnodup, hall⟩ := h (hev hev') (hfail hfail')
  refine ⟨hnodup, fun i hi => ?_⟩
  rcases hall i hi with hget | ⟨t, entry, pending, ht, rfl⟩
  · exact Or.inl (hkeep hev' hfail' _ hget)
  · rcases hsign hfail' t entry pending ht with hget | ht'
    · left
      have hentry := hraw t entry pending ht
      rw [List.getElem?_eq_getElem hi, Option.some.injEq] at hentry
      rwa [hentry, recordHashOf_serializeEntry]
    · exact Or.inr ⟨t, entry, pending, ht', rfl⟩

theorem remember_get {s : Server} {recordHash : Bytes} {proof : ProofBundle}
    (hev : (s.remember recordHash proof).evicted = false) {key : Bytes}
    (h : key = recordHash ∨ (s.proofCache.get key).isSome) :
    ((s.remember recordHash proof).proofCache.get key).isSome := by
  simp only [Server.remember, Bool.or_eq_false_iff, decide_eq_false_iff_not] at hev
  have hnone : s.proofCache.evict = s.proofCache := by rw [ProofCache.evict, if_neg hev.2]
  rw [Server.remember, hnone]
  exact ProofCache.isSome_get_set h

theorem remember_evicted {s : Server} {recordHash : Bytes} {proof : ProofBundle}
    (hev : (s.remember recordHash proof).evicted = false) : s.evicted = false := by
  simp only [Server.remember, Bool.or_eq_false_iff] at hev
  exact hev.1

theorem Move.deduplicated_inv {H : Hash} {raw raw' : List Bytes} {s s' : Server} {a : Action}
    (hs : Serves H s raw) (h : Deduplicated s raw) (hmove : Move H raw s a s' raw') :
    Deduplicated s' raw' := by
  have hraw : ∀ (t : ℕ) entry pending, s.submissions[t]? = some (.signing entry pending) →
      raw[pending.logIndex]? = some (serializeEntry entry) :=
    fun t e p ht => (hs.signing t e p ht).2.1
  cases hmove with
  | enqueued entry =>
      refine h.of_same id id (fun _ _ _ hk => hk) (fun _ t e p ht => Or.inr ?_) hraw
      rw [List.getElem?_append_left (List.getElem?_eq_some_iff.1 ht).1]
      exact ht
  | deduplicated hwait hl hget =>
      refine h.of_same id id (fun _ _ _ hk => hk) (fun _ t e p ht => ?_) hraw
      exact absurd ht (hs.lock.not_signing hwait hl)
  | appendFailed hwait hl _ =>
      refine h.of_same id id (fun _ _ _ hk => hk) (fun _ t e p ht => ?_) hraw
      exact absurd ht (hs.lock.not_signing hwait hl)
  | @appended ticket io entry tree hwait hl hmiss _ =>
      intro hev hfail
      obtain ⟨hnodup, hall⟩ := h hev hfail
      -- nobody else is inside, so every hash of the log is in the map and this one is new
      have hcached : ∀ (i : ℕ) (hi : i < raw.length),
          (s.proofCache.get (recordHashOf raw[i])).isSome := by
        intro i hi
        rcases hall i hi with hget | ⟨t, e, p, ht, -⟩
        · exact hget
        · exact absurd ht (hs.lock.not_signing hwait hl)
      have hnew : entry.recordHash ∉ raw.map recordHashOf := by
        intro hmem
        obtain ⟨e, he, heq⟩ := List.mem_map.1 hmem
        obtain ⟨i, hi, rfl⟩ := List.getElem_of_mem he
        have := hcached i hi
        rw [heq, hmiss] at this
        cases this
      refine ⟨?_, fun i hi => ?_⟩
      · rw [List.map_append, List.map_singleton, recordHashOf_serializeEntry]
        exact List.nodup_append.2 ⟨hnodup, List.nodup_singleton _, by
          rintro a ha b hb rfl
          exact hnew (List.mem_singleton.1 hb ▸ ha)⟩
      · rw [List.length_append, List.length_singleton] at hi
        by_cases hlast : i < raw.length
        · left
          rw [List.getElem_append_left hlast]
          exact hcached i hlast
        · refine Or.inr ⟨ticket, entry,
            pendingOf H (raw ++ [serializeEntry entry]) raw.length, ?_,
            show raw.length = i by omega⟩
          exact List.getElem?_set_self (List.getElem?_eq_some_iff.1 hwait).1
  | @submitSigned ticket signature entry pending hsign =>
      have hevict : (s.remember entry.recordHash (pending.signed signature)).evicted = false →
          s.evicted = false := remember_evicted
      refine h.of_same hevict id (fun hev _ key hk => remember_get hev (Or.inr hk))
        (fun _ t e p ht => ?_) hraw
      by_cases heq : t = ticket
      · subst heq
        left
        rw [hsign] at ht
        cases ht
        exact ProofCache.isSome_get_set (Or.inl rfl)
      · right
        exact (List.getElem?_set_ne (Ne.symm heq)).trans ht
  | submitSignFailed =>
      intro _ hfail
      cases hfail
  | @lookupSigned id signature recordHash pending hsign =>
      have hevict : (s.remember recordHash (pending.signed signature)).evicted = false →
          s.evicted = false := remember_evicted
      exact h.of_same hevict (fun hfail => hfail)
        (fun hev _ key hk => remember_get hev (Or.inr hk)) (fun _ t e p ht => Or.inr ht) hraw
  | lookupSignFailed =>
      intro _ hfail
      cases hfail
  | checkpointSignFailed =>
      intro _ hfail
      cases hfail
  | _ => exact h

/-! ## Runs -/

theorem run_serves {tree : MerkleTree} {raw : List Bytes} (h : Represents H tree raw)
    (actions : List Action) :
    ∃ raw', raw <+: raw' ∧ Serves H (run (Server.step H) (Server.boot tree) actions) raw' ∧
      (raw = [] →
        Deduplicated (run (Server.step H) (Server.boot tree) actions) raw') := by
  induction actions using List.reverseRecOn with
  | nil =>
      refine ⟨raw, List.prefix_refl _, boot_serves H h, ?_⟩
      rintro rfl _ _
      exact ⟨List.nodup_nil, fun i hi => by cases hi⟩
  | append_singleton actions a ih =>
      obtain ⟨raw', hpre, hserves, hdedup⟩ := ih
      rw [run_snoc]
      obtain ⟨raw'', hmove⟩ := step_move H hserves.tree a
      exact ⟨raw'', hpre.trans hmove.grows, hmove.serves hserves,
        fun hnil => hmove.deduplicated_inv hserves (hdedup hnil)⟩

/-- Under any interleaving, from a new tree or a restored one, every bundle
sent verifies by itself and names an entry of the record asked for. In a
process that started empty, as long as nothing was evicted and no signature
failed, each hash stands in the log once and all bundles for it name that
place. -/
theorem submission_agreement (persistPath : Option String) (disk : Option (List Bytes))
    (hdisk : ∀ entries ∈ disk, ∀ e ∈ entries, e.length = ENTRY_SIZE) (tree₀ : MerkleTree)
    (hcreate : MerkleTree.create H persistPath (disk.map List.flatten) = .ok tree₀)
    (actions : List Action) (s : Server)
    (hs : s = run (Server.step H) (Server.boot tree₀) actions) :
    (∀ recordHash proof, Response.proof recordHash proof ∈ s.responses →
      (∃ entry, s.tree.entryBytes proof.logIndex = .ok entry ∧
        recordHashOf entry = recordHash ∧ proof.leafHash = H.leafHash entry) ∧
      H.verifyInclusion proof.logIndex proof.checkpoint.treeSize proof.leafHash
        proof.inclusionProof proof.checkpoint.rootHash = true) ∧
    (restored persistPath disk = [] → s.evicted = false → s.signerFailed = false →
      (s.tree.rawEntries.map recordHashOf).Nodup ∧
      ∀ recordHash proof proof', Response.proof recordHash proof ∈ s.responses →
        Response.proof recordHash proof' ∈ s.responses → proof.logIndex = proof'.logIndex) := by
  obtain ⟨hrep, -⟩ := MerkleTree.created_represents H hdisk hcreate
  obtain ⟨raw, -, hserves, hdedup⟩ := run_serves H hrep actions
  rw [← hs] at hserves hdedup
  refine ⟨fun recordHash proof hmem => ?_, fun hnil hev hfail => ?_⟩
  · obtain ⟨hi, hhash, hleaf, hv⟩ := (hserves.responses _ _ hmem).verifies
    exact ⟨⟨_, hserves.tree.entryBytes_eq hi, hhash, hleaf⟩, hv⟩
  · obtain ⟨hnodup, -⟩ := hdedup hnil hev hfail
    refine ⟨by rwa [hserves.tree.rawEntries], fun recordHash proof proof' hmem hmem' => ?_⟩
    obtain ⟨hi, hhash, -⟩ := (hserves.responses _ _ hmem).verifies
    obtain ⟨hi', hhash', -⟩ := (hserves.responses _ _ hmem').verifies
    have hinj := List.nodup_iff_injective_getElem.1 hnodup
    have heq : (⟨proof.logIndex, by rwa [List.length_map]⟩ :
        Fin (raw.map recordHashOf).length) = ⟨proof'.logIndex, by rwa [List.length_map]⟩ :=
      hinj (by simp only [List.getElem_map, hhash, hhash'])
    exact Fin.mk.inj heq

/-- An entry for the examples below. -/
def plainEntry (mark : UInt8) : EntryInput where
  recordHash := List.replicate 32 mark
  creatorKey := List.replicate 32 0
  contextId := List.replicate 16 0
  timestamp := 0
  eventType := "https://atrib.dev/v1/types/tool_call"
  length_recordHash := List.length_replicate
  length_creatorKey := List.length_replicate
  length_contextId := List.length_replicate

/-- Two submissions of one record that both miss the first look at the map. -/
theorem submission_agreement_concurrent :
    ((run (Server.step Hash.fips180) (Server.boot (MerkleTree.empty none))
      [.submit (plainEntry 1), .submit (plainEntry 1), .resume 0 .clean, .submitSigned 0 [7],
        .resume 1 .clean]).tree.rawEntries.map recordHashOf).Nodup :=
  ((submission_agreement Hash.fips180 none none (by simp) (MerkleTree.empty none) rfl
    [.submit (plainEntry 1), .submit (plainEntry 1), .resume 0 .clean, .submitSigned 0 [7],
      .resume 1 .clean] _ rfl).2 rfl (by decide +kernel) (by decide +kernel)).1

end Atrib.LogNode
