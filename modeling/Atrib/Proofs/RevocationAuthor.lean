import Atrib.Proofs.GraphReferences
import Atrib.Proofs.StoreIndexes
import Atrib.Verify.Delegation
import Mathlib.Data.Option.Basic

/-!
# Whose revocations take effect

`buildRegistry` registers what the records of the store claim, and it does not
ask who has signed the claim; `evaluateRevokerAuthorization`, which the
delegation walk calls on the same records, does. What a record that is added to
the store can do to the nodes of other creators is to revoke their keys, and it
does so whenever it claims to and comes before one of their records and after
no earlier claim.
-/

namespace Atrib.GraphNode

open Lib (InsertionMap run)
open Verify

/-! ## The registry -/

/-- A record as `buildRegistry` passes it on. -/
def minimalRecord (record : AtribRecord) (logIndex : Option ℕ) : MinimalRecord where
  eventTypeUri := some record.eventType
  creatorKey := some record.creatorKey
  logIndex := logIndex
  revokedKey := record.revokedKey
  revocationReason := record.revocationReason
  successorKey := record.successorKey
  emergencySignedBy := record.emergencySignedBy

/-- What a record at a log index says about a key. -/
def claimedRevocation (record : AtribRecord) (logIndex : Option ℕ) : Option RevocationEntry :=
  revocationEntry (minimalRecord record logIndex)

/-- A stored record says that a key was revoked before a log index. -/
def RevokedBefore (store : RecordStore) (key : String) (index : ℕ) : Prop :=
  ∃ found ∈ store.getAllRecords, ∃ entry ∈ claimedRevocation found.1 found.2,
    entry.revokedKey = key ∧ entry.logIndex < index

instance (store : RecordStore) (key : String) (index : ℕ) :
    Decidable (RevokedBefore store key index) :=
  inferInstanceAs (Decidable (∃ found ∈ store.getAllRecords, _))

/-- The registry keeps the earliest of the revocations of a key. -/
theorem any_get?_foldl_register {key : String} {index : ℕ} (entries : List RevocationEntry) :
    ∀ registry : RevocationRegistry,
      ((entries.foldl register registry).get? key).any (·.logIndex < index) = true ↔
        (registry.get? key).any (·.logIndex < index) = true ∨
          ∃ entry ∈ entries, entry.revokedKey = key ∧ entry.logIndex < index := by
  induction entries with
  | nil => simp
  | cons entry entries ih =>
      intro registry
      have hstep : ((register registry entry).get? key).any (·.logIndex < index) = true ↔
          (registry.get? key).any (·.logIndex < index) = true ∨
            entry.revokedKey = key ∧ entry.logIndex < index := by
        unfold register
        by_cases hkey : entry.revokedKey = key
        · subst hkey
          cases hget : registry.get? entry.revokedKey with
          | none => simp
          | some earlier =>
              by_cases hle : earlier.logIndex ≤ entry.logIndex
              · rw [if_pos (by simpa using hle), hget]
                simp only [Option.any_some, decide_eq_true_eq, true_and]
                omega
              · rw [if_neg (by simpa using hle), InsertionMap.get?_set_self]
                simp only [Option.any_some, decide_eq_true_eq, true_and]
                omega
        · split
          · simp [hkey]
          · rw [InsertionMap.get?_set_of_ne (Ne.symm hkey)]
            simp [hkey]
      rw [List.foldl_cons, ih, hstep, or_assoc, List.exists_mem_cons_iff]

theorem any_get?_buildRegistry (store : RecordStore) (key : String) (index : ℕ) :
    ((buildRegistry store).get? key).any (·.logIndex < index) = true ↔
      RevokedBefore store key index := by
  have hregistry : buildRegistry store = (store.getAllRecords.filterMap fun found =>
      claimedRevocation found.1 found.2).foldl register ∅ := by
    rw [buildRegistry, buildRevocationRegistry, List.filterMap_map]
    rfl
  rw [hregistry, any_get?_foldl_register]
  constructor
  · intro h
    rcases h with h | ⟨entry, hentry, h⟩
    · cases h
    · obtain ⟨found, hfound, heq⟩ := List.mem_filterMap.1 hentry
      exact ⟨found, hfound, entry, heq, h⟩
  · intro h
    obtain ⟨found, hfound, entry, heq, h⟩ := h
    exact Or.inr ⟨entry, List.mem_filterMap.2 ⟨found, hfound, heq⟩, h⟩

/-- A record that claims a revocation has all the parts of one. -/
theorem mem_claimedRevocation {record : AtribRecord} {logIndex : Option ℕ}
    {entry : RevocationEntry} (h : entry ∈ claimedRevocation record logIndex) :
    record.eventType = KEY_REVOCATION_URI ∧ record.revokedKey = some entry.revokedKey ∧
      entry.revokedKey ≠ "" ∧ logIndex = some entry.logIndex ∧
      revocationReason record.revocationReason = some entry.revocationReason := by
  simp only [claimedRevocation, revocationEntry, minimalRecord, isRevocationRecord, nonEmpty,
    Option.mem_def, Option.bind_eq_bind, Option.pure_def, Option.bind_eq_some_iff, Option.guard_eq_some',
    Option.filter_eq_some_iff] at h
  obtain ⟨_, htype, key, ⟨hkey, hne⟩, index, hindex, _, _, reason, hreason, heq⟩ := h
  cases heq
  exact ⟨by simpa using htype, hkey, of_decide_eq_true hne, hindex, hreason⟩

theorem ne_empty_of_revokedBefore {store : RecordStore} {key : String} {index : ℕ}
    (h : RevokedBefore store key index) : key ≠ "" := by
  obtain ⟨found, -, entry, hentry, rfl, -⟩ := h
  exact (mem_claimedRevocation hentry).2.2.1

/-! ## The state of a record -/

variable (H : Hash) (codec : RecordCodec)

/-- The state of a record on its own. -/
def signedState (record : AtribRecord) : VerificationState :=
  if codec.verifyRecord record then .signatureValid else .unsigned

/-- A record comes after a revocation of its key. -/
def Revoked (store : RecordStore) (record : AtribRecord) : Prop :=
  ∃ index, store.getLogIndex (recordHash H codec record) = some index ∧
    RevokedBefore store record.creatorKey index

section States

variable {H codec} {store : RecordStore} {record : AtribRecord}

theorem applyRevocation_of {node : GraphNode} {registry : RevocationRegistry} {key : String}
    {index : ℕ} (hkey : node.creatorKey = some key) (hindex : node.logIndex = some index) :
    applyRevocation node registry =
      if key ≠ "" ∧ (registry.get? key).any (·.logIndex < index) = true then
        .revokedAfterRevocation
      else node.verificationState := by
  rw [applyRevocation, hkey, hindex]
  by_cases hempty : key = ""
  · simp [hempty]
  · cases hget : registry.get? key with
    | none => simp [hempty, hget]
    | some entry =>
        by_cases hle : index ≤ entry.logIndex
        · simp [hempty, hget, hle]
        · simp [hempty, hget, hle, Nat.lt_of_not_le hle]

theorem state_of_revoked (request : GraphRequest) (h : Revoked H codec store record) :
    (recordNode H codec (graphOptions request (buildRegistry store) store)
      (recordInfo H codec record)).verificationState = .revokedAfterRevocation := by
  obtain ⟨index, hindex, hrevoked⟩ := h
  simp only [recordNode, graphOptions]
  rw [applyRevocation_of rfl (show store.getLogIndex (recordHash H codec record) = some index from
    hindex), if_pos]
  exact ⟨ne_empty_of_revokedBefore hrevoked, (any_get?_buildRegistry _ _ _).2 hrevoked⟩

theorem state_of_not_revoked (request : GraphRequest) (h : ¬ Revoked H codec store record) :
    (recordNode H codec (graphOptions request (buildRegistry store) store)
      (recordInfo H codec record)).verificationState = signedState codec record := by
  simp only [recordNode, graphOptions]
  cases hindex : store.getLogIndex (recordHash H codec record) with
  | none =>
      rw [applyRevocation]
      simp only [Option.bind_some]
      rw [show store.getLogIndex (recordInfo H codec record).hash = none from hindex]
      rfl
  | some index =>
      rw [applyRevocation_of rfl (show store.getLogIndex (recordHash H codec record) = some index
        from hindex), if_neg]
      · rfl
      · intro hrevoked
        exact h ⟨index, hindex, (any_get?_buildRegistry _ _ _).1 hrevoked.2⟩

theorem signedState_ne (record : AtribRecord) :
    signedState codec record ≠ .revokedAfterRevocation := by
  rw [signedState]
  split <;> exact VerificationState.noConfusion

end States

/-! ## Adding a record -/

/-- The log index of a record once it has been added. -/
def effectiveIndex (store : RecordStore) (record : AtribRecord) (logIndex : Option ℕ) : Option ℕ :=
  (store.getLogIndex (recordHash H codec record)).or logIndex

section Adding

variable {H codec} {store : RecordStore} {record : AtribRecord} {logIndex : Option ℕ}

/-- Only the entry of the record itself is new. -/
theorem mem_getAllRecords_addRecord (h : Indexed H codec store)
    (hsame : ∀ stored ∈ store.allRecords,
      stored.recordHash = recordHash H codec record → stored.record = record)
    {found : AtribRecord × Option ℕ} :
    found ∈ (store.addRecord H codec record logIndex).1.getAllRecords ↔
      found.1 ≠ record ∧ found ∈ store.getAllRecords ∨
        found = (record, effectiveIndex H codec store record logIndex) := by
  obtain ⟨q, i⟩ := found
  rw [mem_getAllRecords (h.addRecord record logIndex), mem_getAllRecords h,
    h.getLogIndex_addRecord, Prod.mk.injEq]
  have hstored : storedRecord H codec q ∈ (store.addRecord H codec record logIndex).1.allRecords ↔
      q ≠ record ∧ storedRecord H codec q ∈ store.allRecords ∨ q = record := by
    rw [allRecords_addRecord]
    by_cases hq : q = record
    · simp only [hq, ne_eq, not_true_eq_false, false_and, or_true, iff_true]
      split
      · next hknown =>
          rw [h.seen] at hknown
          obtain ⟨stored, hmem, hhash⟩ := List.mem_map.1 hknown
          have hrecord := h.stored stored hmem
          rw [hsame stored hmem hhash] at hrecord
          exact hrecord ▸ hmem
      · exact List.mem_append_right _ (List.mem_singleton_self _)
    · have hne : storedRecord H codec q ≠ storedRecord H codec record := fun heq =>
        hq (congrArg StoredRecord.record heq)
      split <;> simp [hq, hne]
  rw [hstored]
  by_cases hq : q = record
  · subst hq
    simp [effectiveIndex]
  · simp only [hq, ne_eq, not_false_eq_true, true_and, or_false, false_and]
    refine and_congr_right fun hmem => ?_
    rw [if_neg]
    exact fun heq => hq (hsame _ hmem heq)

/-- What a record that is added adds to the revocations. -/
theorem revokedBefore_addRecord (h : Indexed H codec store)
    (hsame : ∀ stored ∈ store.allRecords,
      stored.recordHash = recordHash H codec record → stored.record = record)
    {key : String} {index : ℕ} :
    RevokedBefore (store.addRecord H codec record logIndex).1 key index ↔
      RevokedBefore store key index ∨
        ∃ entry ∈ claimedRevocation record (effectiveIndex H codec store record logIndex),
          entry.revokedKey = key ∧ entry.logIndex < index := by
  constructor
  · intro hrevoked
    obtain ⟨found, hfound, hentry⟩ := hrevoked
    rcases (mem_getAllRecords_addRecord h hsame).1 hfound with hold | rfl
    · exact Or.inl ⟨found, hold.2, hentry⟩
    · exact Or.inr hentry
  · intro hrevoked
    rcases hrevoked with ⟨found, hfound, entry, hentry, hkey⟩ | hentry
    · by_cases hrecord : found.1 = record
      · refine ⟨_, (mem_getAllRecords_addRecord h hsame).2 (Or.inr rfl), entry, ?_, hkey⟩
        -- the record has its log index already, for it counts as a revocation
        have hindex : found.2 = store.getLogIndex (recordHash H codec found.1) :=
          ((mem_getAllRecords h).1 hfound).2
        have hsome := (mem_claimedRevocation hentry).2.2.2.1
        have heffective : effectiveIndex H codec store record logIndex = found.2 := by
          rw [effectiveIndex, ← hrecord, ← hindex, hsome]
          rfl
        rw [heffective, ← hrecord]
        exact hentry
      · exact ⟨found, (mem_getAllRecords_addRecord h hsame).2 (Or.inl ⟨hrecord, hfound⟩), entry,
          hentry, hkey⟩
    · exact ⟨_, (mem_getAllRecords_addRecord h hsame).2 (Or.inr rfl), hentry⟩

/-- The log index of another record stays. -/
theorem getLogIndex_addRecord_of_ne (h : Indexed H codec store)
    (hsame : ∀ stored ∈ store.allRecords,
      stored.recordHash = recordHash H codec record → stored.record = record)
    {stored : StoredRecord} (hstored : stored ∈ store.allRecords) (hne : stored.record ≠ record) :
    (store.addRecord H codec record logIndex).1.getLogIndex stored.recordHash =
      store.getLogIndex stored.recordHash := by
  rw [h.getLogIndex_addRecord, if_neg]
  exact fun heq => hne (hsame stored hstored heq)

/-- A reference that was resolved to another creator's record is so again. -/
theorem found_addRecord (h : Indexed H codec store)
    (hsame : ∀ stored ∈ store.allRecords,
      stored.recordHash = recordHash H codec record → stored.record = record)
    {p : StoredRecord → Bool} {target : ReferenceTarget}
    (hfound : ((store.allRecords.find? p).map fun stored =>
      referenceTarget (stored, store.getLogIndex stored.recordHash)) = some target)
    (hne : target.creatorKey ≠ some record.creatorKey) :
    (((store.addRecord H codec record logIndex).1.allRecords.find? p).map fun stored =>
      referenceTarget (stored,
        (store.addRecord H codec record logIndex).1.getLogIndex stored.recordHash)) =
        some target := by
  obtain ⟨stored, hfind, rfl⟩ := Option.map_eq_some_iff.1 hfound
  have hrecord : stored.record ≠ record := fun heq => hne (congrArg some (heq ▸ rfl))
  rw [find?_addRecord record logIndex hfind, Option.map_some,
    getLogIndex_addRecord_of_ne h hsame (List.mem_of_find?_eq_some hfind) hrecord]

theorem recordReferenceLookup_addRecord (h : Indexed H codec store)
    (hsame : ∀ stored ∈ store.allRecords,
      stored.recordHash = recordHash H codec record → stored.record = record)
    {hash : String} {target : ReferenceTarget}
    (hfound : recordReferenceLookup store hash = some target)
    (hne : target.creatorKey ≠ some record.creatorKey) :
    recordReferenceLookup (store.addRecord H codec record logIndex).1 hash = some target := by
  rw [recordReferenceLookup, h.getRecordByHash_eq, Option.map_map] at hfound
  rw [recordReferenceLookup, (h.addRecord record logIndex).getRecordByHash_eq, Option.map_map]
  exact found_addRecord h hsame hfound hne

theorem provenanceReferenceLookup_addRecord (h : Indexed H codec store)
    (hsame : ∀ stored ∈ store.allRecords,
      stored.recordHash = recordHash H codec record → stored.record = record)
    {token contextId : String} {target : ReferenceTarget}
    (hfound : provenanceReferenceLookup store token contextId = some target)
    (hne : target.creatorKey ≠ some record.creatorKey) :
    provenanceReferenceLookup (store.addRecord H codec record logIndex).1 token contextId =
      some target := by
  rw [provenanceReferenceLookup, h.getRecordByToken16_eq, Option.map_map] at hfound
  rw [provenanceReferenceLookup, (h.addRecord record logIndex).getRecordByToken16_eq,
    Option.map_map]
  exact found_addRecord h hsame hfound hne

end Adding

/-! ## Two graphs -/

section Graphs

variable (D : DelegationCodec) (certs : List DelegationCertificate)

/-- The graph of some records over a store, as every endpoint of the service builds it. -/
def graphOver (store : RecordStore) (request : GraphRequest) (records : List AtribRecord)
    (gapNodes : List GapNode) : GraphResponse :=
  buildGraph H codec records gapNodes (graphOptions request (buildRegistry store) store)

/-- The graph of a session. -/
def sessionGraph (store : RecordStore) (request : GraphRequest) : GraphResponse :=
  graphOver H codec store request (store.getRecordsByContextId request.contextId)
    (store.getGapNodesByContextId request.contextId)

/-- The nodes of a graph that stand for its records and gap calls. -/
def ownNodes (graph : GraphResponse) : List GraphNode :=
  graph.nodes.filter (·.eventType ≠ .danglingNode)

/-- No node of a creator whom nothing permits to touch has changed its state. -/
def StatesKept (mayTouch : String → Prop) (before after : List GraphNode) : Prop :=
  ∀ node ∈ before, ∀ node' ∈ after, node'.id = node.id → ∀ key, node.creatorKey = some key →
    ¬ mayTouch key → node'.verificationState = node.verificationState

/-- A record is a revocation of a key, and its signer is authorized. -/
def RevokesByRight (record : AtribRecord) (key : String) : Prop :=
  record.eventType = KEY_REVOCATION_URI ∧ record.revokedKey = some key ∧
    ∃ rule, evaluateRevokerAuthorization H D certs record = .ok rule

/-- Adding a record leaves the nodes of other creators alone, in the graph of
every session and in every other graph over the records of the store, unless it
revokes their key by right. -/
def OnlyByRight (store : RecordStore) (record : AtribRecord) (logIndex : Option ℕ) : Prop :=
  let store' := (store.addRecord H codec record logIndex).1
  let mayTouch := fun key => key = record.creatorKey ∨ RevokesByRight H D certs record key
  (∀ request, StatesKept mayTouch (sessionGraph H codec store request).nodes
    (sessionGraph H codec store' request).nodes) ∧
  ∀ request records records' gapNodes gapNodes',
    (∀ q ∈ records, storedRecord H codec q ∈ store.allRecords) →
    (∀ q ∈ records', storedRecord H codec q ∈ store'.allRecords) →
    StatesKept mayTouch (ownNodes (graphOver H codec store request records gapNodes))
      (ownNodes (graphOver H codec store' request records' gapNodes'))

/-- A record claims, without a right to, that the key of another creator was
revoked, and a stored record of this creator comes after that and not after any
other revocation of the key. -/
def Usurps (store : RecordStore) (record : AtribRecord) (logIndex : Option ℕ) : Prop :=
  ∃ entry ∈ claimedRevocation record (effectiveIndex H codec store record logIndex),
    entry.revokedKey ≠ record.creatorKey ∧ ¬ RevokesByRight H D certs record entry.revokedKey ∧
    ∃ found ∈ store.getAllRecords, found.1.creatorKey = entry.revokedKey ∧
      ∃ index ∈ found.2, entry.logIndex < index ∧ ¬ RevokedBefore store entry.revokedKey index

variable {H codec D certs} {store : RecordStore} {record : AtribRecord} {logIndex : Option ℕ}

theorem allRecords_mono {stored : StoredRecord} (hstored : stored ∈ store.allRecords) :
    stored ∈ (store.addRecord H codec record logIndex).1.allRecords := by
  rw [allRecords_addRecord]
  split
  · exact hstored
  · exact List.mem_append_left _ hstored

theorem revoked_addRecord (h : Indexed H codec store)
    (hsame : ∀ stored ∈ store.allRecords,
      stored.recordHash = recordHash H codec record → stored.record = record)
    (husurps : ¬ Usurps H codec D certs store record logIndex) {q : AtribRecord}
    (hq : storedRecord H codec q ∈ store.allRecords) (hother : q.creatorKey ≠ record.creatorKey)
    (hright : ¬ RevokesByRight H D certs record q.creatorKey) :
    Revoked H codec (store.addRecord H codec record logIndex).1 q ↔ Revoked H codec store q := by
  have hne : q ≠ record := fun heq => hother (congrArg AtribRecord.creatorKey heq)
  have hindex : (store.addRecord H codec record logIndex).1.getLogIndex (recordHash H codec q) =
      store.getLogIndex (recordHash H codec q) :=
    getLogIndex_addRecord_of_ne h hsame hq hne
  rw [Revoked, Revoked, hindex]
  refine exists_congr fun index => and_congr_right fun hsome => ?_
  rw [revokedBefore_addRecord h hsame]
  constructor
  · intro hrevoked
    rcases hrevoked with hold | ⟨entry, hentry, hkey, hlt⟩
    · exact hold
    · by_contra hnot
      refine husurps ⟨entry, hentry, hkey ▸ hother, hkey ▸ hright, (q, some index), ?_, hkey.symm,
        index, rfl, hlt, hkey ▸ hnot⟩
      exact (mem_getAllRecords h).2 ⟨hq, hsome.symm⟩
  · exact Or.inl

/-- The nodes of records keep their states. -/
theorem state_recordNode_addRecord (h : Indexed H codec store)
    (hsame : ∀ stored ∈ store.allRecords,
      stored.recordHash = recordHash H codec record → stored.record = record)
    (husurps : ¬ Usurps H codec D certs store record logIndex) {q : AtribRecord}
    (hq : storedRecord H codec q ∈ store.allRecords) (hother : q.creatorKey ≠ record.creatorKey)
    (hright : ¬ RevokesByRight H D certs record q.creatorKey) (request : GraphRequest) :
    (recordNode H codec (graphOptions request
        (buildRegistry (store.addRecord H codec record logIndex).1)
        (store.addRecord H codec record logIndex).1) (recordInfo H codec q)).verificationState =
      (recordNode H codec (graphOptions request (buildRegistry store) store)
        (recordInfo H codec q)).verificationState := by
  have hiff := revoked_addRecord h hsame husurps hq hother hright
  by_cases hrevoked : Revoked H codec store q
  · rw [state_of_revoked request hrevoked, state_of_revoked request (hiff.2 hrevoked)]
  · rw [state_of_not_revoked request hrevoked, state_of_not_revoked request (mt hiff.1 hrevoked)]

/-- So does every node with the id of a record. -/
theorem state_kept_of_record (h : Indexed H codec store)
    (hsame : ∀ stored ∈ store.allRecords,
      stored.recordHash = recordHash H codec record → stored.record = record)
    (husurps : ¬ Usurps H codec D certs store record logIndex) {q : AtribRecord}
    (hq : storedRecord H codec q ∈ store.allRecords) (hother : q.creatorKey ≠ record.creatorKey)
    (hright : ¬ RevokesByRight H D certs record q.creatorKey) (request : GraphRequest)
    {records' : List AtribRecord} {gapNodes' : List GapNode}
    (hrecords' : ∀ q' ∈ records',
      storedRecord H codec q' ∈ (store.addRecord H codec record logIndex).1.allRecords)
    {node' : GraphNode}
    (hnode' : node' ∈ (graphOver H codec (store.addRecord H codec record logIndex).1 request
      records' gapNodes').nodes)
    (hid : node'.id = (recordNode H codec (graphOptions request (buildRegistry store) store)
      (recordInfo H codec q)).id) :
    node'.verificationState =
      (recordNode H codec (graphOptions request (buildRegistry store) store)
        (recordInfo H codec q)).verificationState := by
  have hhead : node'.id.toList.head? = some 's' := hid ▸ head?_recordNode codec q
  rcases mem_nodes_buildGraph hnode' with ⟨q', hq', rfl⟩ | ⟨gap, -, rfl⟩ | ⟨d, hd, hplaceholder⟩
  · rw [recordNode_id, recordNode_id] at hid
    have hhash : recordHash H codec q' = recordHash H codec q := (String.append_right_inj _).1 hid
    have hstored : storedRecord H codec q' = storedRecord H codec q :=
      List.inj_on_of_nodup_map (h.addRecord record logIndex).nodup (hrecords' q' hq')
        (allRecords_mono hq) hhash
    have hrecord : q' = q := congrArg StoredRecord.record hstored
    rw [hrecord]
    exact state_recordNode_addRecord h hsame husurps hq hother hright request
  · rw [head?_gapGraphNode] at hhead
    cases hhead
  · rw [head?_placeholder hd hplaceholder] at hhead
    cases hhead

section Placeholders

variable {request : GraphRequest} {registry registry' : RevocationRegistry}

/-- A placeholder for another creator's record is the same as before. -/
theorem recordPlaceholder_addRecord (h : Indexed H codec store)
    (hsame : ∀ stored ∈ store.allRecords,
      stored.recordHash = recordHash H codec record → stored.record = record) {ref key : String}
    (hkey : (recordPlaceholder (graphOptions request registry store) ref).creatorKey = some key)
    (hother : key ≠ record.creatorKey) :
    recordPlaceholder (graphOptions request registry'
      (store.addRecord H codec record logIndex).1) ref =
        recordPlaceholder (graphOptions request registry store) ref := by
  simp only [recordPlaceholder, classifyRecordReference, graphOptions] at hkey ⊢
  cases hlookup : recordReferenceLookup store (afterHashPrefix ref) with
  | none =>
      rw [hlookup] at hkey
      cases hkey
  | some target =>
      rw [hlookup] at hkey
      have hcreator : target.creatorKey = some key := hkey
      rw [recordReferenceLookup_addRecord h hsame hlookup]
      rw [hcreator]
      exact fun heq => hother (Option.some.inj heq)

theorem tokenPlaceholder_addRecord (h : Indexed H codec store)
    (hsame : ∀ stored ∈ store.allRecords,
      stored.recordHash = recordHash H codec record → stored.record = record)
    {token contextId key : String}
    (hkey : (tokenPlaceholder (graphOptions request registry store) token contextId).creatorKey =
      some key) (hother : key ≠ record.creatorKey) :
    tokenPlaceholder (graphOptions request registry'
      (store.addRecord H codec record logIndex).1) token contextId =
        tokenPlaceholder (graphOptions request registry store) token contextId := by
  simp only [tokenPlaceholder, classifyProvenanceReference, graphOptions] at hkey ⊢
  cases hlookup : provenanceReferenceLookup store token contextId with
  | none =>
      rw [hlookup] at hkey
      cases hkey
  | some target =>
      rw [hlookup] at hkey
      have hcreator : target.creatorKey = some key := hkey
      rw [provenanceReferenceLookup_addRecord h hsame hlookup]
      rw [hcreator]
      exact fun heq => hother (Option.some.inj heq)

/-- All records of a session have its context. -/
theorem contextId_of_mem_session {store : RecordStore} (h : Indexed H codec store)
    {info : RecordInfo}
    (hinfo : info ∈ recordInfos H codec (store.getRecordsByContextId request.contextId)) :
    info.record.contextId = request.contextId :=
  ((mem_getRecordsByContextId h).1 (exists_record_of_mem hinfo).1).2

end Placeholders

theorem sessionStates_kept (h : Indexed H codec store)
    (hsame : ∀ stored ∈ store.allRecords,
      stored.recordHash = recordHash H codec record → stored.record = record)
    (husurps : ¬ Usurps H codec D certs store record logIndex) (request : GraphRequest) :
    StatesKept (fun key => key = record.creatorKey ∨ RevokesByRight H D certs record key)
      (sessionGraph H codec store request).nodes
      (sessionGraph H codec (store.addRecord H codec record logIndex).1 request).nodes := by
  intro node hnode node' hnode' hid key hkey hmay
  obtain ⟨hother, hright⟩ := not_or.1 hmay
  have h' : Indexed H codec (store.addRecord H codec record logIndex).1 :=
    h.addRecord record logIndex
  rcases mem_nodes_buildGraph hnode with ⟨q, hq, rfl⟩ | ⟨gap, -, rfl⟩ | ⟨d, hd, hplaceholder⟩
  · have hstored := ((mem_getRecordsByContextId h).1 hq).1
    have hcreator : q.creatorKey = key := by
      rw [recordNode] at hkey
      exact Option.some.inj hkey
    subst hcreator
    exact state_kept_of_record h hsame husurps hstored hother hright request
      (fun q' hq' => ((mem_getRecordsByContextId h').1 hq').1) hnode' hid
  · cases hkey
  · -- a placeholder can share its id with a placeholder only
    have hhead : node'.id.toList.head? = some 'd' := hid ▸ head?_placeholder hd hplaceholder
    rcases mem_nodes_buildGraph hnode' with ⟨q', -, rfl⟩ | ⟨gap, -, rfl⟩ | ⟨d', hd', hplaceholder'⟩
    · rw [head?_recordNode] at hhead
      cases hhead
    · rw [head?_gapGraphNode] at hhead
      cases hhead
    · rcases placeholder_cases hd hplaceholder with
        ⟨ref, href, rfl⟩ | ⟨info, hinfo, token, -, -, rfl⟩ <;>
      rcases placeholder_cases hd' hplaceholder' with
        ⟨ref', href', rfl⟩ | ⟨info', hinfo', token', -, -, rfl⟩
      · rw [recordPlaceholder_id_inj hid, recordPlaceholder_addRecord h hsame hkey hother]
      · exact absurd hid.symm (recordPlaceholder_id_ne href)
      · exact absurd hid (recordPlaceholder_id_ne href')
      · rw [tokenPlaceholder_id_inj hid, contextId_of_mem_session h' hinfo',
          ← contextId_of_mem_session h hinfo, tokenPlaceholder_addRecord h hsame hkey hother]

/-- What takes effect without right shows in the graph of a session. -/
theorem not_statesKept_of_usurps (h : Indexed H codec store)
    (hsame : ∀ stored ∈ store.allRecords,
      stored.recordHash = recordHash H codec record → stored.record = record)
    (husurps : Usurps H codec D certs store record logIndex) :
    ∃ request, ¬ StatesKept
      (fun key => key = record.creatorKey ∨ RevokesByRight H D certs record key)
      (sessionGraph H codec store request).nodes
      (sessionGraph H codec (store.addRecord H codec record logIndex).1 request).nodes := by
  obtain ⟨entry, hentry, hother, hright, ⟨q, i⟩, hfound, hcreator, index, hi, hlt, hnot⟩ := husurps
  have hcreator' : q.creatorKey = entry.revokedKey := hcreator
  have hi' : i = some index := hi
  subst hi'
  obtain ⟨hq, hindex⟩ := (mem_getAllRecords h).1 hfound
  have h' : Indexed H codec (store.addRecord H codec record logIndex).1 :=
    h.addRecord record logIndex
  have hne : q ≠ record := fun heq => hother (hcreator'.symm.trans (heq ▸ rfl))
  have hindex' : (store.addRecord H codec record logIndex).1.getLogIndex (recordHash H codec q) =
      some index := by
    rw [show recordHash H codec q = (storedRecord H codec q).recordHash from rfl,
      getLogIndex_addRecord_of_ne h hsame hq hne]
    exact hindex.symm
  have hbefore : ¬ Revoked H codec store q := by
    intro hrevoked
    obtain ⟨index', hsome, hrevoked⟩ := hrevoked
    rw [← hindex] at hsome
    cases hsome
    exact hnot (hcreator' ▸ hrevoked)
  have hafter : Revoked H codec (store.addRecord H codec record logIndex).1 q :=
    ⟨index, hindex', (revokedBefore_addRecord h hsame).2
      (Or.inr ⟨entry, hentry, hcreator'.symm, hlt⟩)⟩
  let request : GraphRequest := { contextId := q.contextId }
  have hmem : ∀ {store : RecordStore}, Indexed H codec store →
      storedRecord H codec q ∈ store.allRecords →
      recordNode H codec (graphOptions request (buildRegistry store) store)
        (recordInfo H codec q) ∈ (sessionGraph H codec store request).nodes := by
    intro store h hq
    refine (recordNodes_prefixes codec _ _).subset (List.mem_map_of_mem ?_)
    exact List.mem_mergeSort.2
      (List.mem_map_of_mem ((mem_getRecordsByContextId h).2 ⟨hq, rfl⟩))
  refine ⟨request, fun hkept => ?_⟩
  have hstate := hkept _ (hmem h hq) _ (hmem h' (allRecords_mono hq)) (by
    rw [recordNode_id, recordNode_id]) q.creatorKey (by rw [recordNode]; rfl) (by
    rw [hcreator']
    exact not_or.2 ⟨hother, hright⟩)
  rw [state_of_revoked request hafter, state_of_not_revoked request hbefore] at hstate
  exact signedState_ne q hstate.symm

end Graphs

/-! ## Every store -/

section Stores

variable {H codec}

/-- In every store, adding a record changes no state of another creator's node
but by right, unless the record usurps. -/
theorem onlyByRight_iff (D : DelegationCodec) (certs : List DelegationCertificate)
    (moves : List StoreMove) (record : AtribRecord) (logIndex : Option ℕ)
    (hsame : ∀ stored ∈ (run (RecordStore.step H codec) {} moves).allRecords,
      stored.recordHash = recordHash H codec record → stored.record = record) :
    OnlyByRight H codec D certs (run (RecordStore.step H codec) {} moves) record logIndex ↔
      ¬ Usurps H codec D certs (run (RecordStore.step H codec) {} moves) record logIndex := by
  have h : Indexed H codec (run (RecordStore.step H codec) {} moves) := indexed_run moves
  constructor
  · intro honly husurps
    obtain ⟨request, hnot⟩ := not_statesKept_of_usurps h hsame husurps
    exact hnot (honly.1 request)
  · intro husurps
    refine ⟨sessionStates_kept h hsame husurps, ?_⟩
    intro request records records' gapNodes gapNodes' hrecords hrecords' node hnode node' hnode' hid
      key hkey hmay
    obtain ⟨hother, hright⟩ := not_or.1 hmay
    obtain ⟨hnode, htype⟩ := List.mem_filter.1 hnode
    rcases mem_nodes_buildGraph hnode with ⟨q, hq, rfl⟩ | ⟨gap, -, rfl⟩ | ⟨d, hd, hplaceholder⟩
    · have hcreator : q.creatorKey = key := by
        rw [recordNode] at hkey
        exact Option.some.inj hkey
      subst hcreator
      exact state_kept_of_record h hsame husurps (hrecords q hq) hother hright request hrecords'
        (List.mem_filter.1 hnode').1 hid
    · cases hkey
    · rcases placeholder_cases hd hplaceholder with ⟨ref, -, rfl⟩ | ⟨info, -, token, -, -, rfl⟩ <;>
        cases htype

end Stores

/-! ## The delegation walk -/

section Walk

variable {H codec} {D : DelegationCodec} {certs : List DelegationCertificate}
  {atLogIndex : Option ℤ}

/-- What the delegation walk accepts is a revocation by right, and the registry
counts it as one, too. -/
theorem acceptRevocation_ok {item : DelegationRevocationEvidence} {accepted : AcceptedRevocation}
    (haccept : acceptRevocation H D codec.verifyRecord certs atLogIndex item = .ok accepted)
    (htype : item.record.eventType = KEY_REVOCATION_URI) :
    RevokesByRight H D certs item.record accepted.revokedKey ∧
      ∃ entry ∈ claimedRevocation item.record (some item.logIndex.toNat),
        entry.revokedKey = accepted.revokedKey ∧ (entry.logIndex : ℤ) = accepted.logIndex := by
  unfold acceptRevocation at haccept
  split at haccept
  · cases haccept
  split at haccept
  · cases haccept
  next hindex =>
  split at haccept
  · cases haccept
  split at haccept
  · cases haccept
  split at haccept
  · cases haccept
  cases hreason : revocationReason item.record.revocationReason with
  | none =>
      rw [hreason] at haccept
      cases haccept
  | some reason =>
      simp only [hreason] at haccept
      split at haccept
      · cases haccept
      next hshape =>
      cases hauthorization : evaluateRevokerAuthorization H D certs item.record with
      | error reason =>
          rw [hauthorization] at haccept
          cases haccept
      | ok rule =>
          rw [hauthorization] at haccept
          cases haccept
          have hkeyText : isKeyText (item.record.revokedKey.getD "") = true := by
            simpa using (not_or.1 hshape).1
          cases hkey : item.record.revokedKey with
          | none =>
              rw [hkey] at hkeyText
              cases hkeyText
          | some key =>
              rw [hkey] at hkeyText
              have hne : key ≠ "" := fun heq => by
                rw [heq] at hkeyText
                cases hkeyText
              have hrange : 0 ≤ item.logIndex ∧ item.logIndex ≤ MAX_SAFE_INTEGER := by
                simpa [isLogIndex] using hindex
              have hsafe : item.logIndex.toNat ≤ MAX_SAFE_INTEGER := by omega
              refine ⟨⟨htype, hkey, rule, hauthorization⟩,
                ⟨key, item.logIndex.toNat, reason, nonEmpty item.record.successorKey,
                  nonEmpty item.record.emergencySignedBy⟩, ?_, rfl, Int.toNat_of_nonneg hrange.1⟩
              simp [claimedRevocation, revocationEntry, minimalRecord, isRevocationRecord, htype,
                nonEmpty, hkey, hne, hsafe, hreason, Option.filter]

/-- Each accepted revocation comes from one of the records supplied. -/
theorem accepted_of_evidence {verifyRecordSignature : AtribRecord → Bool} {key : String}
    {accepted : AcceptedRevocation} (evidence : List DelegationRevocationEvidence)
    (h : (resolveDelegationRevocations H D verifyRecordSignature evidence certs
      atLogIndex).accepted.get? key = some accepted) :
    ∃ item ∈ evidence,
      acceptRevocation H D verifyRecordSignature certs atLogIndex item = .ok accepted ∧
        accepted.revokedKey = key := by
  induction evidence using List.reverseRecOn with
  | nil => cases h
  | append_singleton evidence item ih =>
      rw [resolveDelegationRevocations, List.foldl_append, List.foldl_cons, List.foldl_nil,
        ← resolveDelegationRevocations] at h
      have hold : ∀ {r : Option AcceptedRevocation}, r = some accepted →
          (resolveDelegationRevocations H D verifyRecordSignature evidence certs
            atLogIndex).accepted.get? key = r →
          ∃ item' ∈ evidence ++ [item],
            acceptRevocation H D verifyRecordSignature certs atLogIndex item' = .ok accepted ∧
              accepted.revokedKey = key := by
        intro r hr hget
        obtain ⟨item', hmem, hitem'⟩ := ih (hget.trans hr)
        exact ⟨item', List.mem_append_left _ hmem, hitem'⟩
      cases haccept : acceptRevocation H D verifyRecordSignature certs atLogIndex item with
      | error reason =>
          rw [haccept] at h
          exact hold h rfl
      | ok taken =>
          rw [haccept, DelegationRevocationResolution.take] at h
          split at h
          · rw [InsertionMap.get?_set] at h
            split at h
            · next hkey =>
                cases h
                exact ⟨item, List.mem_append_right _ (List.mem_singleton_self _), haccept, hkey.symm⟩
            · exact hold h rfl
          · exact hold h rfl

end Walk

/-! ## A third party -/

/-- JCS of records whose members are texts without escapes, apart from the timestamp. -/
def revocationCodec : RecordCodec where
  canonicalRecord record :=
    let member := fun ((name, text) : String × String) =>
      utf8 "\"" ++ utf8 name ++ utf8 "\":\"" ++ utf8 text ++ utf8 "\","
    let members := ("chain_root", record.chainRoot) ::
      (record.contentId.toList.map fun text => ("content_id", text)) ++
      [("context_id", record.contextId), ("creator_key", record.creatorKey),
        ("event_type", record.eventType)] ++
      (record.revocationReason.toList.map fun text => ("revocation_reason", text)) ++
      (record.revokedKey.toList.map fun text => ("revoked_key", text)) ++ record.rest
    utf8 "\x7b" ++ members.flatMap member ++ utf8 "\"timestamp\":" ++
      utf8 (toString record.timestamp) ++ utf8 "\x7d"
  verifyRecord _ := true

/-- There is no certificate to hash or check. -/
def noCertificates : DelegationCodec where
  canonicalize _ := none
  canonicalizeUnsigned _ := none
  verify _ _ _ := false

def aliceKey : String := "0EqyMnQrtKs6E2i9RhXk5tAiSrcaAWuvhSCjMsl3hzc"

/-- A call that Alice has signed. -/
def aliceCall : AtribRecord where
  contentId := some "sha256:a3a3a3a3a3a3a3a3a3a3a3a3a3a3a3a3a3a3a3a3a3a3a3a3a3a3a3a3a3a3a3a3"
  creatorKey := aliceKey
  chainRoot := "sha256:8a83665f3798727f14f92ad0e6c99fdab08ee731d6cd644c131223fd2f4fed2a"
  eventType := "https://atrib.dev/v1/types/tool_call"
  contextId := "11111111111111111111111111111111"
  timestamp := 1767225604000
  rest := [("signature",
      "TbI_WuEcFcYAL6nQ2ruFIZE9YrN3f2pMNNO89Wta4MbqCU91vpAZP2sX5O0Ni0blifIfdrAMNcBCW_ybDEMlCw"),
    ("spec_version", "atrib/1.0")]

/-- A revocation of Alice's key that somebody else has signed. -/
def foreignRevocation : AtribRecord where
  creatorKey := "iojj3XQJ8ZX9UtstPLpdcspnCb8dlBIb83SIAbQPb1w"
  chainRoot := "sha256:0d6ba19b62531ccb0deb8804313eca283c69560f66f1b7b8a2c1592ae8c35c6b"
  eventType := KEY_REVOCATION_URI
  contextId := "22222222222222222222222222222222"
  timestamp := 1767225603500
  revokedKey := some aliceKey
  revocationReason := some "compromise"
  rest := [("signature",
      "JmzQprZYD-Ss0eruRKqgZr2PdDPmsCbZ_zRr3iIK5noyu9rggxOiLmqLE_gWxEXGAlI42MU78FuY_2goU8TfBg"),
    ("spec_version", "atrib/1.0")]

def aliceMoves : List StoreMove := [.addRecord aliceCall (some 3)]

theorem foreignRevocation_new :
    recordHash .fips180 revocationCodec foreignRevocation ≠
      recordHash .fips180 revocationCodec aliceCall := by
  simp only [recordHash, recordDigest, revocationCodec, utf8_eq_data]
  decide +kernel

theorem allRecords_aliceMoves :
    (run (RecordStore.step .fips180 revocationCodec) {} aliceMoves).allRecords =
      [storedRecord .fips180 revocationCodec aliceCall] :=
  allRecords_addRecord aliceCall (some 3)

theorem foreignRevocation_same :
    ∀ stored ∈ (run (RecordStore.step .fips180 revocationCodec) {} aliceMoves).allRecords,
      stored.recordHash = recordHash .fips180 revocationCodec foreignRevocation →
        stored.record = foreignRevocation := by
  rw [allRecords_aliceMoves]
  intro stored hstored hhash
  rw [List.mem_singleton.1 hstored] at hhash
  exact absurd hhash.symm foreignRevocation_new

theorem usurps_foreignRevocation :
    Usurps .fips180 revocationCodec noCertificates []
      (run (RecordStore.step .fips180 revocationCodec) {} aliceMoves) foreignRevocation
        (some 2) := by
  have hempty : ∀ stored ∈ ({} : RecordStore).allRecords,
      stored.recordHash = recordHash .fips180 revocationCodec aliceCall →
        stored.record = aliceCall := fun stored hstored => by cases hstored
  have hindex : effectiveIndex .fips180 revocationCodec
      (run (RecordStore.step .fips180 revocationCodec) {} aliceMoves) foreignRevocation (some 2) =
        some 2 := by
    rw [effectiveIndex, show run (RecordStore.step .fips180 revocationCodec) {} aliceMoves =
      (RecordStore.addRecord .fips180 revocationCodec {} aliceCall (some 3)).1 from rfl,
      indexed_empty.getLogIndex_addRecord, if_neg foreignRevocation_new]
    rfl
  refine ⟨⟨aliceKey, 2, .compromise, none, none⟩, ?_, by decide, ?_, (aliceCall, some 3), ?_, rfl,
    3, rfl, by decide, ?_⟩
  · rw [hindex]
    rfl
  · intro hright
    obtain ⟨-, -, rule, hrule⟩ := hright
    have herror : evaluateRevokerAuthorization .fips180 noCertificates [] foreignRevocation =
        .error "no_authorization_path" := by decide +kernel
    rw [herror] at hrule
    cases hrule
  · exact (mem_getAllRecords_addRecord indexed_empty hempty).2 (Or.inr rfl)
  · intro hrevoked
    rcases (revokedBefore_addRecord indexed_empty hempty).1 hrevoked with
      ⟨found, hfound, -⟩ | ⟨entry, hentry, -⟩
    · cases hfound
    · exact absurd (mem_claimedRevocation hentry).1 (by decide)

/-- The revocation of Alice's key at index 2 is somebody else's. -/
theorem onlyByRight_iff_foreign :
    OnlyByRight .fips180 revocationCodec noCertificates []
        (run (RecordStore.step .fips180 revocationCodec) {} aliceMoves) foreignRevocation (some 2) ↔
      ¬ Usurps .fips180 revocationCodec noCertificates []
        (run (RecordStore.step .fips180 revocationCodec) {} aliceMoves) foreignRevocation
          (some 2) :=
  onlyByRight_iff noCertificates [] aliceMoves foreignRevocation (some 2) foreignRevocation_same

/-- It revokes her call at index 3. -/
theorem not_onlyByRight_foreign :
    ¬ OnlyByRight .fips180 revocationCodec noCertificates []
      (run (RecordStore.step .fips180 revocationCodec) {} aliceMoves) foreignRevocation
        (some 2) := by
  intro honly
  obtain ⟨request, hnot⟩ := not_statesKept_of_usurps (indexed_run aliceMoves)
    foreignRevocation_same usurps_foreignRevocation
  exact hnot (honly.1 request)

end Atrib.GraphNode
