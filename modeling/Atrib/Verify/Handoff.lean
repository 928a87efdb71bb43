import Atrib.Lib.InsertionMap
import Atrib.Lib.JsValue
import Atrib.Mcp.Refs
import Atrib.Verify.Delegation

/-!
# Claims handed over by another agent

`packages/verify/src/handoff.ts`. Evidence (a packet, or a list of entries) is
turned into claims, and each claim is accepted unless a check finds a reason to
reject it: its record must hash to the claimed hash and verify, its signer,
context and age must be within the policy, a proof must check out, and its
material must match what the record commits to.

Entries come from the other agent and may be any values. Whether a record
verifies and whether a log proof checks out is decided elsewhere
(`verifyRecord`, `verifyProofBundle`) and is a parameter here.
-/

namespace Atrib.Verify

open Lib (JsValue JsNumber NumberText InsertionSet.ofList)

inductive HandoffRejectionReason where
  | recordMissing
  | recordHashMismatch
  | recordInvalid
  | signatureInvalid
  | wrongSigner
  | wrongContext
  | stale
  | bodyMissing
  | bodyCommitmentMissing
  | bodyHashMismatch
  | proofMissing
  | proofInvalid
deriving DecidableEq

/-- What of the result of `verifyRecord` is read. -/
structure RecordVerification where
  signatureOk : Bool
  valid : Bool
  warnings : List String

structure HandoffProofVerification where
  present : Bool
  inclusion_ok : Option Bool
  checkpoint_signature_ok : Option Bool
  error : Option String := none

/-- What the checks call. A record whose signature verifies has a number for its timestamp: that
is step 7 of the verification of a record. -/
structure HandoffPlatform where
  hash : Hash
  text : NumberText
  /-- `canonicalize`: a text, or `undefined`, or a throw. -/
  canonicalize : JsValue → Except String (Option String)
  /-- `base64urlDecode` of what is not a text. -/
  base64urlDecodeOther : JsValue → Option Bytes
  verifyRecord : JsValue → Except String RecordVerification
  verifyProofBundle : JsValue → String → JsValue → Option Bytes → HandoffProofVerification
  /-- `Date.now()` -/
  now : ℚ
  timestamp_of_signatureOk : ∀ {record verification}, verifyRecord record = .ok verification →
    verification.signatureOk = true → ∃ t : ℤ, record.member "timestamp" = .number (.finite t)

/-! ## Claims and options -/

/-- A field that is missing is `undefined` or `none`. -/
structure HandoffClaimInput where
  record_hash : String
  record : Option JsValue := none
  body : JsValue := .undefined
  args : JsValue := .undefined
  result : JsValue := .undefined
  proof : JsValue := .undefined
  trusted_creator_keys : Option (List String) := none
  allowed_context_ids : Option (List String) := none
  max_age_ms : Option JsNumber := none

structure VerifyHandoffClaimsOptions where
  trusted_creator_keys : Option (List String) := none
  allowed_context_ids : Option (List String) := none
  require_body : Bool := false
  require_body_commitment : Bool := false
  require_log_inclusion : Bool := false
  log_public_key : Option Bytes := none
  now_ms : Option ℚ := none
  max_age_ms : Option JsNumber := none

structure HandoffBodyVerification where
  args_hash_present : Bool
  args_hash_ok : Option Bool
  result_hash_present : Bool
  result_hash_ok : Option Bool

structure HandoffClaimVerification where
  record_hash : String
  accepted : Bool
  rejection_reasons : List HandoffRejectionReason
  warnings : List String
  record : Option JsValue := none
  verification : Option RecordVerification := none
  signature_ok : Option Bool := none
  computed_record_hash : Option String := none
  signer_trusted : Option Bool := none
  context_allowed : Option Bool := none
  body : Option HandoffBodyVerification := none
  proof : Option HandoffProofVerification := none

structure HandoffVerificationResult where
  accepted : List HandoffClaimVerification
  rejected : List HandoffClaimVerification
  accepted_record_hashes : List String
  all_accepted : Bool

structure HandoffEvidencePacket where
  records : Option (List JsValue) := none
  claims : Option (List JsValue) := none
  record_hashes : Option (List String) := none
  required_record_hashes : Option (List String) := none
  trusted_creator_keys : Option (List String) := none
  allowed_context_ids : Option (List String) := none
  max_age_ms : Option JsNumber := none

/-- Evidence is a packet or a list of entries. -/
inductive HandoffEvidence where
  | packet (packet : HandoffEvidencePacket)
  | entries (entries : List JsValue)

structure HandoffClaimsFromEvidenceOptions where
  required_record_hashes : Option (List String) := none
  trusted_creator_keys : Option (List String) := none
  allowed_context_ids : Option (List String) := none
  max_age_ms : Option JsNumber := none

/-! ## Readers -/

/-- `value !== undefined` -/
def hasMaterial (value : JsValue) : Bool := !(value matches .undefined)

/-- An object, and no array. -/
def isPlainObject (value : JsValue) : Bool := value matches .object _

/-- `key in value` -/
def hasMember (value : JsValue) (key : String) : Bool :=
  match value with
  | .object members => (members.map Prod.fst).contains key
  | _ => false

def isText (value : JsValue) : Bool := value.string?.isSome

def hasCreatorSignerEntry (record : JsValue) : Bool :=
  (record.member "event_type").strictEq (.string "https://atrib.dev/v1/types/transaction") &&
    isText (record.member "creator_key") &&
    ((record.member "signers").array?.getD []).any fun entry =>
      entry.isObject && (entry.member "creator_key").strictEq (record.member "creator_key") &&
        isText (entry.member "signature")

/-- The event types whose records must have a `content_id`. -/
def contentIdRequired : List String :=
  ["https://atrib.dev/v1/types/tool_call", "https://atrib.dev/v1/types/transaction",
    "https://atrib.dev/v1/types/directory_anchor",
    "https://atrib.dev/v1/types/session_checkpoint"]

def isAtribRecordLike (value : JsValue) : Bool :=
  isPlainObject value &&
    isText (value.member "spec_version") && isText (value.member "event_type") &&
    isText (value.member "context_id") && isText (value.member "creator_key") &&
    isText (value.member "chain_root") &&
    (!(hasMember value "content_id" ||
        (value.member "event_type").string?.any contentIdRequired.contains) ||
      isText (value.member "content_id")) &&
    (isText (value.member "signature") ||
      (!hasMember value "signature" && hasCreatorSignerEntry value))

section

variable (P : HandoffPlatform)

/-! ## Hashes -/

def canonicalRecord (record : JsValue) : Except String Bytes := do
  match ← P.canonicalize record with
  | none => throw "atrib: canonicalization produced undefined"
  | some text => return utf8 text

def recordHash (record : JsValue) : Except String String := do
  let bytes ← canonicalRecord P record
  return sha256Ref (P.hash.sha256 bytes)

def hashPlainJson (value : JsValue) : Option String :=
  match P.canonicalize value with
  | .ok (some encoded) => some (sha256Ref (P.hash.sha256 (utf8 encoded)))
  | _ => none

def hashSaltedJson (value salt : JsValue) : Option String :=
  match P.canonicalize value with
  | .ok (some encoded) => do
      let saltBytes ←
        match salt with
        | .string salt => base64urlDecode salt
        | salt => P.base64urlDecodeOther salt
      return sha256Ref (P.hash.sha256 (saltBytes ++ utf8 encoded))
  | _ => none

def hashMaterial (value salt : JsValue) : Option String :=
  if hasMaterial salt then hashSaltedJson P value salt else hashPlainJson P value

/-! ## From evidence to claims -/

def evidenceEntries : HandoffEvidence → List JsValue
  | .entries entries => entries
  | .packet packet => packet.records.getD [] ++ packet.claims.getD []

def requiredHashes (evidence : HandoffEvidence) (options : HandoffClaimsFromEvidenceOptions) :
    List String :=
  let ofPacket :=
    match evidence with
    | .entries _ => []
    | .packet packet => packet.required_record_hashes.getD [] ++ packet.record_hashes.getD []
  InsertionSet.ofList (ofPacket ++ options.required_record_hashes.getD [])

/-- The packet, whose policy is empty where there is none. -/
def HandoffEvidence.policy : HandoffEvidence → HandoffEvidencePacket
  | .packet evidence => evidence
  | .entries _ => {}

/-- The record of an entry: a member of the envelope, or the entry itself. -/
def entryRecord (entry envelope : JsValue) : Option JsValue :=
  if isAtribRecordLike (envelope.member "record") then some (envelope.member "record")
  else if isAtribRecordLike entry then some entry
  else none

def entryHash (envelope : JsValue) (record : Option JsValue) : Except String (Option String) :=
  match (envelope.member "record_hash").string?, record with
  | some hash, _ => return some hash
  | none, some record => some <$> recordHash P record
  | none, none => return none

def claimFromEvidenceEntry (entry : JsValue) (evidence : HandoffEvidence)
    (options : HandoffClaimsFromEvidenceOptions) : Except String (Option HandoffClaimInput) := do
  let envelope := if isPlainObject entry then entry else .object []
  let record := entryRecord entry envelope
  let sidecar := envelope.member "_local"
  let sidecar := if isPlainObject sidecar then sidecar else .undefined
  let claimHash ← entryHash P envelope record
  return claimHash.map fun claimHash =>
    { record_hash := claimHash
      record
      body := ((envelope.member "body").orElse (sidecar.member "body")).orElse
        (sidecar.member "content")
      args := (envelope.member "args").orElse (sidecar.member "args")
      result := (envelope.member "result").orElse (sidecar.member "result")
      proof := (envelope.member "proof").orElse .undefined
      trusted_creator_keys := options.trusted_creator_keys.or evidence.policy.trusted_creator_keys
      allowed_context_ids := options.allowed_context_ids.or evidence.policy.allowed_context_ids
      max_age_ms := options.max_age_ms.or evidence.policy.max_age_ms }

/-- A required hash for which there is no entry becomes a claim without a record. -/
def handoffClaimsFromEvidencePacket (evidence : HandoffEvidence)
    (options : HandoffClaimsFromEvidenceOptions) : Except String (List HandoffClaimInput) := do
  let claims ← (evidenceEntries evidence).mapM fun entry =>
    claimFromEvidenceEntry P entry evidence options
  let claims := claims.reduceOption
  let missing := (requiredHashes evidence options).filter fun hash =>
    !(claims.map HandoffClaimInput.record_hash).contains hash
  return claims ++ missing.map fun hash => { record_hash := hash }

/-! ## The checks of one claim -/

def verifyBody (claim : HandoffClaimInput) (record : JsValue)
    (requireBody requireBodyCommitment : Bool) :
    HandoffBodyVerification × List HandoffRejectionReason :=
  let argsHash := record.member "args_hash"
  let resultHash := record.member "result_hash"
  let argsMaterial := claim.args.orElse claim.body
  let resultMaterial := claim.result
  let anyMaterial := hasMaterial argsMaterial || hasMaterial resultMaterial
  let anyCommitment := hasMaterial argsHash || hasMaterial resultHash
  let matchesHash (material salt hash : JsValue) : Option Bool :=
    if hasMaterial hash && hasMaterial material then
      some (((hashMaterial P material salt).map JsValue.string).getD .null |>.strictEq hash)
    else none
  let argsOk := matchesHash argsMaterial (record.member "args_salt") argsHash
  let resultOk := matchesHash resultMaterial (record.member "result_salt") resultHash
  (⟨hasMaterial argsHash, argsOk, hasMaterial resultHash, resultOk⟩,
    (if requireBody && !anyMaterial then [.bodyMissing] else []) ++
    (if requireBodyCommitment && !anyCommitment then [.bodyCommitmentMissing] else []) ++
    (if argsOk = some false then [.bodyHashMismatch] else []) ++
    (if resultOk = some false then [.bodyHashMismatch] else []))

/-- `nowMs - record.timestamp` -/
def ageMs (nowMs : ℚ) (record : JsValue) : Except String JsNumber := do
  let timestamp ← (record.member "timestamp").toPrimitive P.text
  return (JsNumber.finite nowMs).sub (timestamp.primitiveToNumber P.text)

def verifyFreshness (record : JsValue) (nowMs : ℚ) (maxAgeMs : Option JsNumber) :
    Except String (List HandoffRejectionReason) :=
  match maxAgeMs with
  | none => return []
  | some maxAgeMs => do
      let ageMs ← ageMs P nowMs record
      return if ageMs.lt (.finite 0) || maxAgeMs.lt ageMs then [.stale] else []

def verifyProofPresence (claim : HandoffClaimInput) (record : JsValue)
    (computedRecordHash : String) (requireLogInclusion : Bool) (logPublicKey : Option Bytes) :
    Option HandoffProofVerification × List HandoffRejectionReason :=
  if hasMaterial claim.proof then
    let verification := P.verifyProofBundle record computedRecordHash claim.proof logPublicKey
    (some verification,
      (if verification.inclusion_ok ≠ some true then [.proofInvalid] else []) ++
      if logPublicKey.isSome && verification.checkpoint_signature_ok ≠ some true then
        [.proofInvalid]
      else [])
  else if requireLogInclusion then (some ⟨false, none, none, none⟩, [.proofMissing])
  else (none, [])

/-- A list that is missing or empty allows everything. -/
def verifyListed (value : JsValue) (allowed : Option (List String))
    (reason : HandoffRejectionReason) : Option Bool × List HandoffRejectionReason :=
  match allowed with
  | none | some [] => (none, [])
  | some allowed =>
      let listed := allowed.any fun text => (JsValue.string text).strictEq value
      (some listed, if listed then [] else [reason])

def verifyTrustedSigner (record : JsValue) (trustedCreatorKeys : Option (List String)) :
    Option Bool × List HandoffRejectionReason :=
  verifyListed (record.member "creator_key") trustedCreatorKeys .wrongSigner

def verifyAllowedContext (record : JsValue) (allowedContextIds : Option (List String)) :
    Option Bool × List HandoffRejectionReason :=
  verifyListed (record.member "context_id") allowedContextIds .wrongContext

def verifyOneClaim (claim : HandoffClaimInput) (options : VerifyHandoffClaimsOptions) :
    Except String HandoffClaimVerification :=
  let nowMs := options.now_ms.getD P.now
  let trustedCreatorKeys := claim.trusted_creator_keys.or options.trusted_creator_keys
  let allowedContextIds := claim.allowed_context_ids.or options.allowed_context_ids
  let maxAgeMs := claim.max_age_ms.or options.max_age_ms
  match claim.record with
  | none =>
      return { record_hash := claim.record_hash, accepted := false,
               rejection_reasons := [.recordMissing], warnings := [] }
  | some record => do
      let computed ← recordHash P record
      let verification ← P.verifyRecord record
      let signer := verifyTrustedSigner record trustedCreatorKeys
      let context := verifyAllowedContext record allowedContextIds
      let stale ← verifyFreshness P record nowMs maxAgeMs
      let proof := verifyProofPresence P claim record computed options.require_log_inclusion
        options.log_public_key
      let body := verifyBody P claim record options.require_body options.require_body_commitment
      let reasons := InsertionSet.ofList <|
        (if computed ≠ claim.record_hash then [.recordHashMismatch] else []) ++
        (if verification.signatureOk then [] else [.signatureInvalid]) ++
        (if verification.valid then [] else [.recordInvalid]) ++
        signer.2 ++ context.2 ++ stale ++ proof.2 ++ body.2
      return { record_hash := claim.record_hash
               accepted := reasons.isEmpty
               rejection_reasons := reasons
               warnings := verification.warnings
               record := some record
               verification := some verification
               signature_ok := some verification.signatureOk
               computed_record_hash := some computed
               signer_trusted := signer.1
               context_allowed := context.1
               body := some body.1
               proof := proof.1 }

def verifyHandoffClaims (claims : List HandoffClaimInput) (options : VerifyHandoffClaimsOptions) :
    Except String HandoffVerificationResult := do
  let checked ← claims.mapM fun claim => verifyOneClaim P claim options
  let accepted := checked.filter HandoffClaimVerification.accepted
  let rejected := checked.filter fun claim => !claim.accepted
  return { accepted
           rejected
           accepted_record_hashes := accepted.map HandoffClaimVerification.record_hash
           all_accepted := rejected.isEmpty }

end

end Atrib.Verify
