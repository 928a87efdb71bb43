import Mathlib.Data.List.ReduceOption
import Atrib.Proofs.HandoffClaims

/-!
# Whose policy a handoff claim is held to

A policy admits a signer, a context and an age; a list that is missing or empty
admits all. The claims made from a packet carry the policy of the packet, and
where it says nothing the verifier's own is in effect. So what is accepted from
a packet stays within the verifier's own policy exactly if the policy in effect
admits nothing that the verifier's own does not.
-/

namespace Atrib.Verify

open Lib (JsValue JsNumber NumberText)

structure HandoffPolicy where
  trusted_creator_keys : Option (List String)
  allowed_context_ids : Option (List String)
  max_age_ms : Option JsNumber

namespace HandoffPolicy

/-- A list that is missing or empty names everyone. -/
def Names (list : Option (List String)) (text : String) : Prop :=
  ∀ texts, list = some texts → texts ≠ [] → text ∈ texts

/-- The age is not above the bound. -/
structure Admits (policy : HandoffPolicy) (signer context : String) (age : ℚ) : Prop where
  signer : Names policy.trusted_creator_keys signer
  context : Names policy.allowed_context_ids context
  age : ∀ max, policy.max_age_ms = some max → 0 ≤ age ∧ max.lt (.finite age) = false

/-- The first policy, and the second where the first says nothing. -/
def orElse (policy other : HandoffPolicy) : HandoffPolicy where
  trusted_creator_keys := policy.trusted_creator_keys.or other.trusted_creator_keys
  allowed_context_ids := policy.allowed_context_ids.or other.allowed_context_ids
  max_age_ms := policy.max_age_ms.or other.max_age_ms

end HandoffPolicy

open HandoffPolicy

/-- The policy the verifier asks for. -/
def VerifyHandoffClaimsOptions.policy (options : VerifyHandoffClaimsOptions) : HandoffPolicy where
  trusted_creator_keys := options.trusted_creator_keys
  allowed_context_ids := options.allowed_context_ids
  max_age_ms := options.max_age_ms

def HandoffClaimInput.policy (claim : HandoffClaimInput) : HandoffPolicy where
  trusted_creator_keys := claim.trusted_creator_keys
  allowed_context_ids := claim.allowed_context_ids
  max_age_ms := claim.max_age_ms

/-- The policy the evidence brings along. -/
def HandoffEvidence.ownPolicy (evidence : HandoffEvidence) : HandoffPolicy where
  trusted_creator_keys := evidence.policy.trusted_creator_keys
  allowed_context_ids := evidence.policy.allowed_context_ids
  max_age_ms := evidence.policy.max_age_ms

/-- A record has been made by a signer, in a context, some time ago. -/
structure MadeBy (record : JsValue) (signer context : String) (t : ℚ) : Prop where
  signer : record.member "creator_key" = .string signer
  context : record.member "context_id" = .string context
  timestamp : record.member "timestamp" = .number (.finite t)

/-- An accepted claim is within a policy. -/
def Within (policy : HandoffPolicy) (now : ℚ) (verification : HandoffClaimVerification) : Prop :=
  ∃ record signer context t, verification.record = some record ∧ MadeBy record signer context t ∧
    policy.Admits signer context (now - t)

variable {P : HandoffPlatform} {claim : HandoffClaimInput} {options : VerifyHandoffClaimsOptions}
  {evidence : HandoffEvidence} {record : JsValue} {signer context : String} {t : ℚ}

/-! ## The policy in effect is enforced -/

theorem verifyListed_eq_nil_iff {allowed : Option (List String)} {text : String}
    {reason : HandoffRejectionReason} :
    (verifyListed (.string text) allowed reason).2 = [] ↔ Names allowed text := by
  cases allowed with
  | none => exact ⟨fun _ _ h => (nomatch h), fun _ => rfl⟩
  | some texts =>
      cases texts with
      | nil =>
          refine ⟨?_, fun _ => rfl⟩
          rintro - _ ⟨⟩ hne
          exact absurd rfl hne
      | cons first texts =>
          show (if (List.any (first :: texts) fun entry =>
            (JsValue.string entry).strictEq (.string text)) = true then [] else [reason]) = [] ↔ _
          rw [ite_nil_iff, List.any_eq_true]
          constructor
          · rintro ⟨entry, hentry, heq⟩ _ ⟨⟩ -
            rw [JsValue.strictEq_string, decide_eq_true_iff] at heq
            exact heq ▸ hentry
          · intro h
            exact ⟨text, h _ rfl (List.cons_ne_nil _ _), by simp⟩

/-- A claim that passes is within the policy in effect for it. -/
theorem ClaimPasses.admits (h : ClaimPasses P claim options record)
    (hmade : MadeBy record signer context t) :
    (claim.policy.orElse options.policy).Admits signer context (options.now_ms.getD P.now - t) where
  signer := by
    have hsigner := h.signer
    rw [verifyTrustedSigner, hmade.signer] at hsigner
    exact verifyListed_eq_nil_iff.1 hsigner
  context := by
    have hcontext := h.context
    rw [verifyAllowedContext, hmade.context] at hcontext
    exact verifyListed_eq_nil_iff.1 hcontext
  age := (verifyFreshness_eq_nil_iff hmade.timestamp).1 h.fresh

/-! ## Claims made from evidence -/

/-- A value that may stand for a record names its signer and its context. -/
theorem texts_of_isAtribRecordLike (h : isAtribRecordLike record = true) :
    ∃ signer context, record.member "creator_key" = .string signer ∧
      record.member "context_id" = .string context := by
  unfold isAtribRecordLike at h
  simp only [Bool.and_eq_true] at h
  obtain ⟨⟨⟨⟨⟨⟨⟨-, -⟩, -⟩, hcontext⟩, hsigner⟩, -⟩, -⟩, -⟩ := h
  obtain ⟨signer, hsigner⟩ := Option.isSome_iff_exists.1 hsigner
  obtain ⟨context, hcontext⟩ := Option.isSome_iff_exists.1 hcontext
  exact ⟨signer, context, JsValue.eq_string_of_string? hsigner, JsValue.eq_string_of_string? hcontext⟩

theorem like_of_entryRecord {entry envelope : JsValue}
    (h : entryRecord entry envelope = some record) : isAtribRecordLike record = true := by
  unfold entryRecord at h
  by_cases hmember : isAtribRecordLike (envelope.member "record") = true
  · rw [if_pos hmember, Option.some.injEq] at h
    exact h ▸ hmember
  · rw [if_neg hmember] at h
    by_cases hentry : isAtribRecordLike entry = true
    · rw [if_pos hentry, Option.some.injEq] at h
      exact h ▸ hentry
    · rw [if_neg hentry] at h
      cases h

/-- A claim made from an entry has the policy of the evidence. -/
theorem claim_of_entry {entry : JsValue}
    (h : claimFromEvidenceEntry P entry evidence {} = .ok (some claim)) :
    claim.policy = evidence.ownPolicy ∧
      ∀ record, claim.record = some record → isAtribRecordLike record = true := by
  unfold claimFromEvidenceEntry at h
  dsimp only at h
  cases hhash : entryHash P (if isPlainObject entry = true then entry else .object [])
      (entryRecord entry (if isPlainObject entry = true then entry else .object [])) with
  | error e =>
      rw [hhash] at h
      cases h
  | ok hash =>
  rw [hhash] at h
  obtain ⟨text, -, rfl⟩ := Option.map_eq_some_iff.1 (Except.ok.inj h)
  exact ⟨rfl, fun record hrecord => like_of_entryRecord hrecord⟩

/-- A claim made from evidence has the policy of the evidence, unless it has no record. -/
theorem claim_of_evidence {claims : List HandoffClaimInput}
    (h : handoffClaimsFromEvidencePacket P evidence {} = .ok claims) (hclaim : claim ∈ claims)
    (hrecord : claim.record = some record) :
    claim.policy = evidence.ownPolicy ∧ isAtribRecordLike record = true := by
  unfold handoffClaimsFromEvidencePacket at h
  cases hmade : (evidenceEntries evidence).mapM fun entry =>
      claimFromEvidenceEntry P entry evidence {} with
  | error e =>
      rw [hmade] at h
      cases h
  | ok made =>
      rw [hmade] at h
      cases h
      rcases List.mem_append.1 hclaim with hclaim | hclaim
      · obtain ⟨entry, -, hentry⟩ := exists_of_mem_mapM hmade (List.reduceOption_mem_iff.1 hclaim)
        obtain ⟨hpolicy, hlike⟩ := claim_of_entry hentry
        exact ⟨hpolicy, hlike record hrecord⟩
      · obtain ⟨hash, -, rfl⟩ := List.mem_map.1 hclaim
        cases hrecord

/-- What is accepted from evidence is within the policy in effect. -/
theorem within_effective {claims : List HandoffClaimInput} {result : HandoffVerificationResult}
    {verification : HandoffClaimVerification}
    (hclaims : handoffClaimsFromEvidencePacket P evidence {} = .ok claims)
    (hresult : verifyHandoffClaims P claims options = .ok result)
    (h : verification ∈ result.accepted) :
    ∃ record signer context, ∃ t : ℤ, verification.record = some record ∧
      MadeBy record signer context t ∧
      (evidence.ownPolicy.orElse options.policy).Admits signer context
        (options.now_ms.getD P.now - t) := by
  obtain ⟨claim, hclaim, heq, haccepted⟩ := exists_of_mem_accepted hresult h
  obtain ⟨record, hpasses, hrecord⟩ := passes_of_accepted heq haccepted
  obtain ⟨hpolicy, hlike⟩ := claim_of_evidence hclaims hclaim hpasses.supplied
  obtain ⟨signer, context, hsigner, hcontext⟩ := texts_of_isAtribRecordLike hlike
  obtain ⟨_, hverify, hsignature, -⟩ := hpasses.verified
  obtain ⟨t, ht⟩ := P.timestamp_of_signatureOk hverify hsignature
  have hmade : MadeBy record signer context t := ⟨hsigner, hcontext, ht⟩
  exact ⟨record, signer, context, t, hrecord, hmade, hpolicy ▸ hpasses.admits hmade⟩

/-! ## Evidence that shows what a policy admits -/

/-- A platform on which every record with a whole number for its timestamp verifies. -/
def trustingPlatform (now : ℚ) : HandoffPlatform where
  hash := Hash.fips180
  text := ⟨fun _ => "", fun _ => .nan, fun _ => none⟩
  canonicalize _ := .ok (some "")
  base64urlDecodeOther _ := none
  verifyRecord record :=
    match record.member "timestamp" with
    | .number (.finite q) => .ok ⟨q.isInt, true, []⟩
    | _ => .ok ⟨false, true, []⟩
  verifyProofBundle _ _ _ _ := ⟨true, some true, some true, none⟩
  now := now
  timestamp_of_signatureOk := by
    intro record verification hverify hok
    split at hverify
    · next q hq =>
        cases hverify
        refine ⟨q.num, hq.trans ?_⟩
        rw [Rat.eq_num_of_isInt hok]
        rfl
    · cases hverify
      cases hok

/-- The one hash of that platform. -/
def trustingHash : String := sha256Ref (Hash.fips180.sha256 (utf8 ""))

def recordMadeBy (signer context : String) (t : ℤ) : JsValue := .object
  [("spec_version", .string "atrib/1.0"),
    ("event_type", .string "https://atrib.dev/v1/types/observation"),
    ("context_id", .string context), ("creator_key", .string signer),
    ("chain_root", .string trustingHash), ("timestamp", .number (.finite t)),
    ("args_hash", .string trustingHash), ("signature", .string "")]

/-- An entry that lacks nothing a verifier may ask for. -/
def entryMadeBy (signer context : String) (t : ℤ) : JsValue := .object
  [("record_hash", .string trustingHash), ("record", recordMadeBy signer context t),
    ("args", .string "material"), ("proof", .string "proof")]

def packetMadeBy (policy : HandoffPolicy) (signer context : String) (t : ℤ) :
    HandoffEvidencePacket where
  records := some [entryMadeBy signer context t]
  trusted_creator_keys := policy.trusted_creator_keys
  allowed_context_ids := policy.allowed_context_ids
  max_age_ms := policy.max_age_ms

def claimMadeBy (policy : HandoffPolicy) (signer context : String) (t : ℤ) :
    HandoffClaimInput where
  record_hash := trustingHash
  record := some (recordMadeBy signer context t)
  args := .string "material"
  proof := .string "proof"
  trusted_creator_keys := policy.trusted_creator_keys
  allowed_context_ids := policy.allowed_context_ids
  max_age_ms := policy.max_age_ms

theorem claims_packetMadeBy (policy : HandoffPolicy) (now : ℚ) (signer context : String) (t : ℤ) :
    handoffClaimsFromEvidencePacket (trustingPlatform now)
      (.packet (packetMadeBy policy signer context t)) {} =
        .ok [claimMadeBy policy signer context t] := rfl

/-- The claim passes if the policy in effect admits it. -/
theorem passes_claimMadeBy {policy : HandoffPolicy} {now : ℚ} {t : ℤ}
    (hadmits : (policy.orElse options.policy).Admits signer context
      (options.now_ms.getD now - t)) :
    ClaimPasses (trustingPlatform now) (claimMadeBy policy signer context t) options
      (recordMadeBy signer context t) where
  supplied := rfl
  hash := rfl
  verified := ⟨⟨true, true, []⟩, rfl, rfl, rfl⟩
  signer := verifyListed_eq_nil_iff.2 hadmits.signer
  context := verifyListed_eq_nil_iff.2 hadmits.context
  fresh := (verifyFreshness_eq_nil_iff rfl).2 hadmits.age
  proof := by
    unfold verifyProofPresence
    simp [trustingPlatform, claimMadeBy, hasMaterial]
  body := verifyBody_eq_nil_iff.2
    ⟨fun _ => .inl rfl, fun _ => .inl rfl, fun _ _ => ⟨rfl, by
      show (JsValue.string trustingHash).strictEq (.string trustingHash) = true
      rw [JsValue.strictEq_string, decide_eq_true_iff]⟩, fun h => nomatch h⟩

namespace HandoffSample

def otherKey : String := "gTl3Dqh9F19Wo1Rmw0x-zMuNipG07jeiXfYPW4_Js5Q"

/-- The author of the record asks to be trusted. -/
def selfTrustingPacket : HandoffEvidencePacket where
  records := some [.object [("record_hash", .string signedHash), ("record", signedRecord)]]
  trusted_creator_keys := some [creatorKey]

/-- The verifier trusts someone else. -/
def otherOptions : VerifyHandoffClaimsOptions := { trusted_creator_keys := some [otherKey] }

def selfTrustingClaim : HandoffClaimInput where
  record_hash := signedHash
  record := some signedRecord
  trusted_creator_keys := some [creatorKey]

theorem passes_selfTrustingClaim :
    ClaimPasses platform selfTrustingClaim otherOptions signedRecord where
  supplied := rfl
  hash := recordHash_signedRecord
  verified := ⟨⟨true, true, []⟩, rfl, rfl, rfl⟩
  signer := verifyListed_eq_nil_iff.2 fun keys hkeys _ => by
    cases hkeys
    exact List.mem_singleton_self _
  context := rfl
  fresh := (verifyFreshness_eq_nil_iff rfl).2 fun _ h => nomatch h
  proof := rfl
  body := verifyBody_eq_nil_iff.2 ⟨fun h => (nomatch h), fun h => (nomatch h),
    fun _ h => h.elim (fun h => nomatch h) fun h => (nomatch h), fun h => (nomatch h)⟩

end HandoffSample

end Atrib.Verify
