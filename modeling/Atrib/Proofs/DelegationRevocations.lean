import Atrib.Mcp.Refs
import Atrib.Proofs.Encodings
import Atrib.Proofs.DelegationWalk
import Mathlib.Data.List.Induction

/-!
# Which keys count as revoked

`resolveDelegationRevocations` goes over the records and keeps, for each key,
the earliest revocation that it accepts. Whether it accepts one is a matter of
the record, the certificates and the bound alone, so a later or a rejected
record never hides an earlier one, and the keys are those that some record
revokes. The certificate a record refers to is looked up by its hash; the first
one found is as good as any since certificates with one hash have the same
members. A bound that is not a log index is refused together with all records.
-/

namespace Atrib.Verify

open Lib (InsertionMap)

variable {H : Hash} {codec : DelegationCodec} {verifyRecordSignature : AtribRecord → Bool}
  {evidence evidence' : List DelegationRevocationEvidence}
  {certificates certificates' : List DelegationCertificate} {atLogIndex : Option ℤ} {key : String}
  {record : AtribRecord}

/-- `revokedKeys` -/
def DelegationRevocationResolution.revokedKeys (resolution : DelegationRevocationResolution) :
    List String := resolution.accepted.keys

/-! ## Who may revoke a key -/

/-- JCS and SHA-256 on the certificates of a list: the canonical form has all members, the
signature alone cannot keep a certificate from having one, and different forms have
different digests. -/
structure HashesSeparate (H : Hash) (codec : DelegationCodec)
    (certificates : List DelegationCertificate) : Prop where
  members : ∀ a ∈ certificates, ∀ b ∈ certificates, codec.canonicalize a ≠ none →
    codec.canonicalize a = codec.canonicalize b →
      a.principalKey = b.principalKey ∧ a.runPubkey = b.runPubkey ∧ a.signature = b.signature ∧
        codec.canonicalizeUnsigned a = codec.canonicalizeUnsigned b
  unsigned : ∀ a ∈ certificates, codec.canonicalize a = none → codec.canonicalizeUnsigned a = none
  collisionFree : ∀ a ∈ certificates, ∀ b ∈ certificates,
    ∀ bytes ∈ codec.canonicalize a, ∀ bytes' ∈ codec.canonicalize b,
      H.sha256 bytes = H.sha256 bytes' → bytes = bytes'

/-- A key is revoked by itself, or by the principal of a valid certificate for it to which
the record refers. -/
def MayRevoke (H : Hash) (codec : DelegationCodec) (certificates : List DelegationCertificate)
    (record : AtribRecord) (key : String) : Prop :=
  record.creatorKey = key ∨
    ∃ cert ∈ certificates, delegationCertHash record = some (safeCertHash H codec cert) ∧
      delegationCertErrors codec cert = [] ∧ cert.runPubkey = key ∧
        cert.principalKey = record.creatorKey

/-- A well-shaped, signed revocation of a key by somebody who may revoke it. -/
structure Revokes (H : Hash) (codec : DelegationCodec) (verifyRecordSignature : AtribRecord → Bool)
    (certificates : List DelegationCertificate) (record : AtribRecord) (key : String) : Prop where
  signed : verifyRecordSignature record = true
  type : record.eventType = "key_revocation" ∨ record.eventType = KEY_REVOCATION_URI
  revoked : record.revokedKey = some key
  keyText : isKeyText key = true
  reason : ∃ reason, revocationReason record.revocationReason = some reason ∧
    (reason = .rotation → isKeyText (record.successorKey.getD "") = true)
  authorized : MayRevoke H codec certificates record key

/-- A record at a log index is in force at a bound. -/
def InForce (atLogIndex : Option ℤ) (logIndex : ℤ) : Prop :=
  isLogIndex logIndex = true ∧ ∀ bound ∈ atLogIndex, logIndex ≤ bound

theorem errors_of_no_form {cert : DelegationCertificate}
    (h : codec.canonicalizeUnsigned cert = none) : delegationCertErrors codec cert ≠ [] := by
  intro hvalid
  have hverifies := signatureVerifies_of_delegationCertErrors hvalid
  unfold delegationCertSignatureVerifies at hverifies
  rw [h] at hverifies
  split at hverifies
  · next heq => cases heq
  · cases hverifies

theorem HashesSeparate.same (hsep : HashesSeparate H codec certificates)
    {a b : DelegationCertificate} (ha : a ∈ certificates) (hb : b ∈ certificates)
    (hhash : safeCertHash H codec a = safeCertHash H codec b)
    (hvalid : delegationCertErrors codec a = []) :
    delegationCertErrors codec b = [] ∧ b.principalKey = a.principalKey ∧
      b.runPubkey = a.runPubkey := by
  cases hforma : codec.canonicalize a with
  | none => exact absurd hvalid (errors_of_no_form (hsep.unsigned a ha hforma))
  | some bytes =>
      cases hformb : codec.canonicalize b with
      | none =>
          rw [safeCertHash, safeCertHash, hforma, hformb] at hhash
          have hlength := congrArg String.length hhash
          simp [String.length_append] at hlength
      | some bytes' =>
          have hdigest : sha256Ref (H.sha256 bytes) = sha256Ref (H.sha256 bytes') := by
            rw [safeCertHash, safeCertHash, hforma, hformb] at hhash
            exact hhash
          obtain rfl := hsep.collisionFree a ha b hb _ hforma _ hformb (sha256Ref_inj hdigest)
          obtain ⟨hprincipal, hrun, hsignature, hunsigned⟩ := hsep.members a ha b hb
            (by rw [hforma]; exact Option.some_ne_none _) (hforma.trans hformb.symm)
          have hverifies : delegationCertSignatureVerifies codec a =
              delegationCertSignatureVerifies codec b := by
            rw [delegationCertSignatureVerifies, delegationCertSignatureVerifies, hprincipal,
              hsignature, hunsigned]
          refine ⟨?_, hprincipal.symm, hrun.symm⟩
          rw [← hvalid, delegationCertErrors, delegationCertErrors, hverifies, hprincipal, hrun]

theorem evaluateRevokerAuthorization_ok_iff (hsep : HashesSeparate H codec certificates)
    (hkey : record.revokedKey = some key) :
    (∃ rule, evaluateRevokerAuthorization H codec certificates record = .ok rule) ↔
      MayRevoke H codec certificates record key := by
  unfold evaluateRevokerAuthorization MayRevoke
  rw [hkey]
  by_cases hself : record.creatorKey = key
  · rw [if_pos (congrArg some hself)]
    exact iff_of_true ⟨_, rfl⟩ (Or.inl hself)
  rw [if_neg fun heq => hself (Option.some.inj heq), or_iff_right hself]
  cases hreferred : delegationCertHash record with
  | none =>
      refine iff_of_false (fun ⟨_, h⟩ => nomatch h) ?_
      rintro ⟨_, -, h, -⟩
      cases h
  | some certHash =>
      dsimp only
      cases hfind : certificates.find? fun cert => safeCertHash H codec cert = certHash with
      | none =>
          refine iff_of_false (fun ⟨_, h⟩ => nomatch h) ?_
          rintro ⟨cert, hcert, hhash, -⟩
          exact absurd (decide_eq_true (Option.some.inj hhash).symm)
            (List.find?_eq_none.1 hfind cert hcert)
      | some found =>
          have hfound := List.mem_of_find?_eq_some hfind
          have hfoundHash : safeCertHash H codec found = certHash :=
            by simpa using List.find?_some hfind
          dsimp only
          constructor
          · rintro ⟨rule, h⟩
            split at h
            · cases h
            next hvalid =>
            split at h
            · cases h
            next hcovers =>
            split at h
            · cases h
            next hprincipal =>
            exact ⟨found, hfound, congrArg some hfoundHash.symm, not_not.1 hvalid,
              Option.some.inj (not_not.1 hcovers), not_not.1 hprincipal⟩
          · rintro ⟨cert, hcert, hhash, hvalid, hcovers, hprincipal⟩
            obtain ⟨hvalid', hprincipal', hrun'⟩ := hsep.same hcert hfound
              ((Option.some.inj hhash).symm.trans hfoundHash.symm) hvalid
            rw [if_neg (not_not.2 hvalid'), if_neg (not_not.2 (by rw [hrun', hcovers])),
              if_neg (not_not.2 (by rw [hprincipal', hprincipal]))]
            exact ⟨_, rfl⟩

/-! ## One record -/

theorem accepts_iff (hsep : HashesSeparate H codec certificates)
    (hbound : atLogIndex.all isLogIndex = true) {item : DelegationRevocationEvidence} :
    (∃ accepted, acceptRevocation H codec verifyRecordSignature certificates atLogIndex item =
        .ok accepted ∧ accepted.revokedKey = key) ↔
      InForce atLogIndex item.logIndex ∧
        Revokes H codec verifyRecordSignature certificates item.record key := by
  unfold acceptRevocation
  dsimp only
  rw [if_neg (by rw [hbound]; decide)]
  constructor
  · rintro ⟨accepted, haccept, rfl⟩
    split at haccept
    · cases haccept
    next hindex =>
    split at haccept
    · cases haccept
    next hlate =>
    split at haccept
    · cases haccept
    next hsigned =>
    split at haccept
    · cases haccept
    next htype =>
    split at haccept
    · cases haccept
    next reason hreason =>
    split at haccept
    · cases haccept
    next hshape =>
    split at haccept
    · cases haccept
    next rule hrule =>
    cases haccept
    obtain ⟨hkeyText, hsuccessor⟩ := not_or.1 hshape
    rw [Bool.not_eq_true', Bool.not_eq_false] at hkeyText
    have hrevoked : item.record.revokedKey = some (item.record.revokedKey.getD "") := by
      cases hkey : item.record.revokedKey with
      | none =>
          rw [hkey] at hkeyText
          cases hkeyText
      | some key => rfl
    refine ⟨⟨by simpa using hindex, fun bound hmem => ?_⟩, ?_⟩
    · rw [Option.mem_def] at hmem
      rw [hmem] at hlate
      simpa using hlate
    · refine ⟨by simpa using hsigned, ?_, hrevoked, hkeyText, ⟨reason, hreason, fun heq => ?_⟩,
        (evaluateRevokerAuthorization_ok_iff hsep hrevoked).1 ⟨rule, hrule⟩⟩
      · by_contra hother
        exact htype (not_or.1 hother)
      · by_contra hother
        exact hsuccessor ⟨heq, by simpa using hother⟩
  · rintro ⟨⟨hindex, hinForce⟩, hrevokes⟩
    obtain ⟨reason, hreason, hsuccessor⟩ := hrevokes.reason
    obtain ⟨rule, hrule⟩ :=
      (evaluateRevokerAuthorization_ok_iff hsep hrevokes.revoked).2 hrevokes.authorized
    have hlate : ¬ atLogIndex.any (· < item.logIndex) = true := by
      cases atLogIndex with
      | none => exact Bool.false_ne_true
      | some bound => simpa using hinForce bound rfl
    have htype : ¬ (item.record.eventType ≠ "key_revocation" ∧
        item.record.eventType ≠ KEY_REVOCATION_URI) :=
      fun h => hrevokes.type.elim h.1 h.2
    have hshape : ¬ ((!isKeyText key) = true ∨
        reason = .rotation ∧ (!isKeyText (item.record.successorKey.getD "")) = true) := by
      rintro (h | ⟨heq, h⟩)
      · rw [hrevokes.keyText] at h
        cases h
      · rw [hsuccessor heq] at h
        cases h
    rw [if_neg (by rw [hindex]; decide), if_neg hlate, if_neg (by rw [hrevokes.signed]; decide),
      if_neg htype, hreason]
    dsimp only
    rw [hrevokes.revoked, Option.getD_some, if_neg hshape, hrule]
    exact ⟨_, rfl, rfl⟩

theorem acceptRevocation_of_invalid_bound (h : atLogIndex.all isLogIndex = false)
    (item : DelegationRevocationEvidence) :
    acceptRevocation H codec verifyRecordSignature certificates atLogIndex item =
      .error "invalid_target_log_index" := by
  unfold acceptRevocation
  dsimp only
  rw [if_pos (by rw [h]; rfl)]

/-! ## All records -/

theorem mem_keys_take {resolution : DelegationRevocationResolution}
    {item : DelegationRevocationEvidence} {verdict : Except String AcceptedRevocation} :
    key ∈ (resolution.take item verdict).accepted.keys ↔
      key ∈ resolution.accepted.keys ∨
        ∃ accepted, verdict = .ok accepted ∧ accepted.revokedKey = key := by
  cases verdict with
  | error reason =>
      simp only [DelegationRevocationResolution.take, reduceCtorEq, false_and, exists_false, or_false]
  | ok accepted =>
      simp only [DelegationRevocationResolution.take, Except.ok.injEq, exists_eq_left']
      split
      · rw [InsertionMap.mem_keys_set, eq_comm]
      · next hkept =>
        refine (or_iff_left_of_imp fun heq => ?_).symm
        rw [← heq, InsertionMap.mem_keys_iff_get?]
        cases hget : resolution.accepted.get? accepted.revokedKey with
        | none =>
            rw [hget] at hkept
            exact absurd rfl hkept
        | some earlier => rfl

/-- A key counts as revoked if one of the records is accepted as a revocation of it. -/
theorem mem_revokedKeys : key ∈ (resolveDelegationRevocations H codec verifyRecordSignature
      evidence certificates atLogIndex).revokedKeys ↔
    ∃ item ∈ evidence, ∃ accepted,
      acceptRevocation H codec verifyRecordSignature certificates atLogIndex item = .ok accepted ∧
        accepted.revokedKey = key := by
  unfold DelegationRevocationResolution.revokedKeys
  induction evidence using List.reverseRecOn with
  | nil => simp [resolveDelegationRevocations]
  | append_singleton evidence item ih =>
      rw [resolveDelegationRevocations, List.foldl_append, List.foldl_cons, List.foldl_nil,
        ← resolveDelegationRevocations, mem_keys_take, ih]
      simp only [List.mem_append, List.mem_singleton, or_and_right, exists_or, exists_eq_left]

theorem revokedKeys_iff (hsep : HashesSeparate H codec certificates)
    (hbound : atLogIndex.all isLogIndex = true) :
    key ∈ (resolveDelegationRevocations H codec verifyRecordSignature evidence certificates
        atLogIndex).revokedKeys ↔
      ∃ item ∈ evidence, InForce atLogIndex item.logIndex ∧
        Revokes H codec verifyRecordSignature certificates item.record key := by
  simp only [mem_revokedKeys, accepts_iff hsep hbound]

theorem revokedKeys_of_invalid_bound (h : atLogIndex.all isLogIndex = false) :
    (resolveDelegationRevocations H codec verifyRecordSignature evidence certificates
      atLogIndex).revokedKeys = [] := by
  refine List.eq_nil_iff_forall_not_mem.2 fun key hkey => ?_
  obtain ⟨item, -, accepted, haccept, -⟩ := mem_revokedKeys.1 hkey
  rw [acceptRevocation_of_invalid_bound h] at haccept
  cases haccept

theorem HashesSeparate.subset (hsep : HashesSeparate H codec certificates)
    (hsub : certificates' ⊆ certificates) : HashesSeparate H codec certificates' where
  members a ha b hb := hsep.members a (hsub ha) b (hsub hb)
  unsigned a ha := hsep.unsigned a (hsub ha)
  collisionFree a ha b hb := hsep.collisionFree a (hsub ha) b (hsub hb)

theorem Revokes.mono (h : Revokes H codec verifyRecordSignature certificates record key)
    (hsub : certificates ⊆ certificates') :
    Revokes H codec verifyRecordSignature certificates' record key where
  signed := h.signed
  type := h.type
  revoked := h.revoked
  keyText := h.keyText
  reason := h.reason
  authorized := h.authorized.imp_right fun ⟨cert, hcert, hrest⟩ => ⟨cert, hsub hcert, hrest⟩

theorem InForce.mono {later : Option ℤ} {index : ℤ} (h : InForce atLogIndex index)
    (hle : ∀ bound ∈ later, ∃ earlier ∈ atLogIndex, earlier ≤ bound) : InForce later index := by
  refine ⟨h.1, fun bound hbound => ?_⟩
  obtain ⟨earlier, hearlier, hle⟩ := hle bound hbound
  exact (h.2 earlier hearlier).trans hle

namespace RetiredKey

open WalkSample (principal)

/-- The key has signed this record. -/
def retirement : AtribRecord where
  creatorKey := principal
  chainRoot := "sha256:8a83665f3798727f14f92ad0e6c99fdab08ee731d6cd644c131223fd2f4fed2a"
  eventType := "https://atrib.dev/v1/types/key_revocation"
  contextId := "11111111111111111111111111111111"
  timestamp := 1767225604000
  revokedKey := some principal
  revocationReason := some "retirement"
  rest := [("signature",
      "orXEvE335iDkKyqzn1nfE3I0NoWjk-Du_lpOgKrO7TRIF1_BEnj_cOaiYBw_mP6lgzDAuj1T1go4iuOKZU1sDg"),
    ("spec_version", "atrib/1.0")]

def logged : List DelegationRevocationEvidence := [⟨retirement, 7⟩]

theorem hashesSeparate_nil : HashesSeparate .fips180 WalkSample.issuedCodec [] where
  members _ h := nomatch h
  unsigned _ h := nomatch h
  collisionFree _ h := nomatch h

/-- The keys at a bound, with the signature of this record checked. -/
def keysAt (atLogIndex : Option ℤ) : List String :=
  (resolveDelegationRevocations .fips180 WalkSample.issuedCodec (· = retirement) logged []
    atLogIndex).revokedKeys

end RetiredKey

end Atrib.Verify
