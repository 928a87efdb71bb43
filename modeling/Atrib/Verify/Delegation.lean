import Atrib.Lib.JsValue
import Atrib.Verify.Revocations
import Atrib.Mcp.Record

/-!
# Who may revoke a key

The revocation part of `packages/verify/src/delegation.ts`. A revocation is
signed by the key it retires, or by the principal of a delegation certificate
that covers this key. Registered emergency keys need a directory, which this
module of the source does not consult.
-/

namespace Atrib.Verify

open Lib (InsertionMap JsNumber)

/-! ## Base64url -/

/-- The value of a character of the alphabet. -/
def base64urlValue (c : Char) : Option ℕ :=
  "ABCDEFGHIJKLMNOPQRSTUVWXYZabcdefghijklmnopqrstuvwxyz0123456789-_".toList.idxOf? c

/-- Four characters give three bytes, a rest of two or three one or two. -/
def base64urlBytes : List ℕ → Bytes
  | c0 :: c1 :: c2 :: c3 :: chars =>
      UInt8.ofNat (c0 * 4 + c1 / 16) :: UInt8.ofNat (c1 % 16 * 16 + c2 / 4) ::
        UInt8.ofNat (c2 % 4 * 64 + c3) :: base64urlBytes chars
  | [c0, c1, c2] => [UInt8.ofNat (c0 * 4 + c1 / 16), UInt8.ofNat (c1 % 16 * 16 + c2 / 4)]
  | [c0, c1] => [UInt8.ofNat (c0 * 4 + c1 / 16)]
  | _ => []

/-- `base64urlDecode`; the source throws where this is `none`. -/
def base64urlDecode (text : String) : Option Bytes := do
  let chars ← text.toList.mapM base64urlValue
  guard (chars.length % 4 ≠ 1)
  return base64urlBytes chars

/-! ## Certificates -/

structure DelegationAmount where
  currency : String
  value : JsNumber
deriving DecidableEq

structure DelegationCostPolicy where
  modelTiers : Option (List String) := none
  maxTokens : Option JsNumber := none
deriving DecidableEq

/-- What a run key may be used for. -/
structure DelegationScope where
  toolNames : Option (List String) := none
  eventTypes : Option (List String) := none
  maxAmount : Option DelegationAmount := none
  counterparties : Option (List String) := none
  expiresAt : Option JsNumber := none
  costPolicy : Option DelegationCostPolicy := none
deriving DecidableEq

structure DelegationCertificate where
  principalKey : String
  runPubkey : String
  signature : String
  contextId : Option String := none
  notBefore : Option JsNumber := none
  notAfter : JsNumber
  scope : Option DelegationScope := none
  /-- All further members (the type). -/
  rest : List (String × String) := []
deriving DecidableEq

/-- What the source calls of its libraries: JCS of a certificate with and
without its signature, and Ed25519. -/
structure DelegationCodec where
  canonicalize : DelegationCertificate → Option Bytes
  canonicalizeUnsigned : DelegationCertificate → Option Bytes
  verify : Bytes → Bytes → Bytes → Bool

variable (H : Hash) (codec : DelegationCodec)

/-- `safeCertHash`: the hash of a certificate, or nothing if it has no canonical form. -/
def safeCertHash (cert : DelegationCertificate) : String :=
  ((codec.canonicalize cert).map fun bytes => "sha256:" ++ hexEncode (H.sha256 bytes)).getD ""

def delegationCertSignatureVerifies (cert : DelegationCertificate) : Bool :=
  match base64urlDecode cert.principalKey, base64urlDecode cert.signature,
      codec.canonicalizeUnsigned cert with
  | some pub, some sig, some input =>
      pub.length == 32 && sig.length == 64 && codec.verify sig input pub
  | _, _, _ => false

def isWellFormedKey (value : String) : Bool :=
  value ≠ "" && (base64urlDecode value).any (·.length == 32)

def delegationCertErrors (cert : DelegationCertificate) : List String :=
  let errors := (if isWellFormedKey cert.principalKey then [] else ["principal_key_malformed"]) ++
    if isWellFormedKey cert.runPubkey then [] else ["run_pubkey_malformed"]
  if errors ≠ [] then errors
  else if cert.runPubkey = cert.principalKey then ["self_certificate"]
  else if delegationCertSignatureVerifies codec cert then []
  else ["principal_signature_invalid"]

/-! ## Revokers -/

/-- The `delegation_cert_hash` of a record. -/
def delegationCertHash (record : AtribRecord) : Option String :=
  record.rest.lookup "delegation_cert_hash"

/-- The rule that authorizes the signer of a revocation, or why there is none. -/
def evaluateRevokerAuthorization (certs : List DelegationCertificate) (revocation : AtribRecord) :
    Except String String :=
  if some revocation.creatorKey = revocation.revokedKey then .ok "retired_key"
  else
    match delegationCertHash revocation with
    | none => .error "no_authorization_path"
    | some certHash =>
        match certs.find? fun cert => safeCertHash H codec cert = certHash with
        | none => .error "certificate_not_resolved"
        | some cert =>
            if delegationCertErrors codec cert ≠ [] then .error "certificate_invalid"
            else if some cert.runPubkey ≠ revocation.revokedKey then
              .error "certificate_does_not_cover_revoked_key"
            else if cert.principalKey ≠ revocation.creatorKey then
              .error "signer_is_not_certificate_principal"
            else .ok "principal_via_delegation_certificate"

/-! ## Resolution -/

structure DelegationRevocationEvidence where
  record : AtribRecord
  logIndex : ℤ

structure AcceptedRevocation where
  logIndex : ℤ
  revokedKey : String
  revocationReason : RevocationReason
  rule : String

structure DelegationRevocationRejection where
  logIndex : ℤ
  revokedKey : String
  reason : String

structure DelegationRevocationResolution where
  accepted : InsertionMap String AcceptedRevocation := ∅
  rejected : List DelegationRevocationRejection := []

/-- `Number.isSafeInteger(index) && index >= 0` -/
def isLogIndex (index : ℤ) : Bool := decide (0 ≤ index ∧ index ≤ MAX_SAFE_INTEGER)

/-- `/^[A-Za-z0-9_-]{43}$/` -/
def isKeyText (text : String) : Bool :=
  text.toList.length == 43 && text.toList.all fun c => (base64urlValue c).isSome

/-- One round of the loop of `resolveDelegationRevocations`: what is accepted,
or the reason why not. -/
def acceptRevocation (verifyRecordSignature : AtribRecord → Bool)
    (certificates : List DelegationCertificate) (atLogIndex : Option ℤ)
    (item : DelegationRevocationEvidence) : Except String AcceptedRevocation :=
  let revokedKey := item.record.revokedKey.getD ""
  if !atLogIndex.all isLogIndex then .error "invalid_target_log_index"
  else if !isLogIndex item.logIndex then .error "invalid_log_index"
  else if atLogIndex.any (· < item.logIndex) then .error "not_effective_yet"
  else if !verifyRecordSignature item.record then .error "invalid_record_signature"
  else if item.record.eventType ≠ "key_revocation" ∧ item.record.eventType ≠ KEY_REVOCATION_URI then
    .error "invalid_record_shape"
  else
    match revocationReason item.record.revocationReason with
    | none => .error "invalid_record_shape"
    | some reason =>
        if !isKeyText revokedKey ∨
            reason = .rotation ∧ !isKeyText (item.record.successorKey.getD "") then
          .error "invalid_record_shape"
        else
          match evaluateRevokerAuthorization H codec certificates item.record with
          | .error _ => .error "unauthorized_revoker"
          | .ok rule => .ok ⟨item.logIndex, revokedKey, reason, rule⟩

/-- The earliest of the accepted revocations of a key is kept. -/
def DelegationRevocationResolution.take (resolution : DelegationRevocationResolution)
    (item : DelegationRevocationEvidence) :
    Except String AcceptedRevocation → DelegationRevocationResolution
  | .error reason =>
      { resolution with
        rejected := resolution.rejected ++
          [⟨item.logIndex, item.record.revokedKey.getD "", reason⟩] }
  | .ok accepted =>
      if (resolution.accepted.get? accepted.revokedKey).all (accepted.logIndex < ·.logIndex) then
        { resolution with accepted := resolution.accepted.set accepted.revokedKey accepted }
      else resolution

/-- The order in which the source lists the accepted revocations is left out. -/
def resolveDelegationRevocations (verifyRecordSignature : AtribRecord → Bool)
    (evidence : List DelegationRevocationEvidence) (certificates : List DelegationCertificate)
    (atLogIndex : Option ℤ) : DelegationRevocationResolution :=
  evidence.foldl (fun resolution item => resolution.take item
    (acceptRevocation H codec verifyRecordSignature certificates atLogIndex item)) {}

end Atrib.Verify
