import Atrib.LogNode.Server
import Atrib.Mcp.Signing
import Atrib.Verify.Handoff

/-!
# Submitted records

`validateSubmission` of `packages/mcp/src/validation.ts`, `serializeEntry` of
`entry.ts` with the texts it is given, and what `handleSubmit` and `decodeEntry`
of `services/log-node/src/server.ts` make of them. The record is a value as it
comes, of any shape.
-/

namespace Atrib.LogNode

open Lib (JsNumber JsValue NumberText)
open Middleware (canonicalBytes isHex32 isValidEventTypeUri natural?)
open Verify (base64urlDecode contentIdRequired hasMember isText)

def SPEC_VERSION : String := "atrib/1.0"

def MAX_FUTURE_SKEW_MS : ℕ := 5 * 60 * 1000

/-! ## Validation -/

/-- `{ ok: false, status, error }` -/
structure Rejection where
  status : ℕ
  error : String
deriving DecidableEq

/-- One check: what fails it is rejected with a 400. -/
def require (passed : Bool) (error : String) : Except Rejection Unit :=
  if passed then .ok () else .error ⟨400, error⟩

def isSha256RefValue (value : JsValue) : Bool := value.string?.any (isSha256Ref ·)

/-- The five minutes are counted from the clock. -/
def notTooFarAhead (timestamp : JsValue) (nowMs : ℕ) : Bool :=
  (natural? timestamp).all (· ≤ nowMs + MAX_FUTURE_SKEW_MS)

def validateSubmission (nowMs : ℕ) (record : JsValue) : Except Rejection Unit := do
  require record.isObject "spec_version must be 'atrib/1.0'"
  require ((record.member "spec_version").strictEq (.string SPEC_VERSION))
    "spec_version must be 'atrib/1.0'"
  require (isValidEventTypeUri (record.member "event_type"))
    "event_type must be a syntactically-valid absolute URI"
  require (natural? (record.member "timestamp")).isSome "timestamp must be a non-negative integer"
  require (notTooFarAhead (record.member "timestamp") nowMs)
    "timestamp is more than 5 minutes in the future"
  require ((record.member "context_id").string?.any (isHex32 ·))
    "context_id must be 32 lowercase hex characters"
  require (isText (record.member "creator_key")) "creator_key is required and must be a string"
  require (isText (record.member "chain_root")) "chain_root is required and must be a string"
  require (Verify.hasCreatorSignerEntry record || isText (record.member "signature"))
    "signature is required unless a transaction has a creator signer"
  require (!hasMember record "signature" || isText (record.member "signature"))
    "signature must be a string when present"
  require (isSha256RefValue (record.member "chain_root")) "chain_root must match sha256:<64-hex>"
  require (!(record.member "event_type").string?.any contentIdRequired.contains ||
      hasMember record "content_id")
    "content_id is required for this event_type"
  require (!hasMember record "content_id" || isSha256RefValue (record.member "content_id"))
    "content_id must match sha256:<64-hex>"
  require (!hasMember record "session_token" || isText (record.member "session_token"))
    "session_token must be a string when present"
  require (!hasMember record "informed_by" || (record.member "informed_by").array?.isSome)
    "informed_by must be an array when present"
  require (!hasMember record "informed_by" ||
      ((record.member "informed_by").array?.getD []).all isSha256RefValue)
    "informed_by entries must each match sha256:<64-hex>"

/-! ## Entries -/

/-- The `EntryInput` of the source, with its texts. -/
structure EntryTexts where
  record_hash_hex : String
  creator_key_b64url : String
  context_id : String
  timestamp : JsValue
  event_type : String

def base64urlToBytes (b64url : String) : Except String Bytes :=
  (base64urlDecode b64url).elim (.error "base64urlDecode: invalid base64url") .ok

variable (text : NumberText)

/-- `bytes`, if they have the length. -/
def ofLength (length : ℕ) (bytes : Bytes) (error : String) :
    Except String { bytes : Bytes // bytes.length = length } :=
  if h : bytes.length = length then .ok ⟨bytes, h⟩ else .error error

/-- `serializeEntry`; `setBigUint64` takes the timestamp modulo 2^64. -/
def serializeTexts (input : EntryTexts) : Except String Bytes := do
  let recordHash ← hexDecode input.record_hash_hex
  let recordHash ← ofLength 32 recordHash
    s!"serializeEntry: record_hash_hex must be 64 hex chars, got {input.record_hash_hex.length}"
  let creatorKey ← base64urlToBytes input.creator_key_b64url
  let creatorKey ← ofLength 32 creatorKey
    s!"base64urlToBytes: expected 32 bytes, got {creatorKey.length}"
  let contextId ← hexDecode input.context_id
  let contextId ← ofLength 16 contextId
    s!"serializeEntry: context_id must be 32 hex chars, got {input.context_id.length}"
  let timestamp ← input.timestamp.toBigInt text
  return serializeEntry ⟨recordHash.val, creatorKey.val, contextId.val,
    (timestamp % 2 ^ 64).toNat, input.event_type, recordHash.property, creatorKey.property,
    contextId.property⟩

/-- The entry that `handleSubmit` makes of an accepted record. -/
def entryOf (P : Middleware.Platform) (record : JsValue) : Except String Bytes := do
  let canonBytes ← canonicalBytes P record
  serializeTexts P.text {
    record_hash_hex := hexEncode (P.hash.sha256 canonBytes)
    creator_key_b64url := (record.member "creator_key").string?.getD ""
    context_id := (record.member "context_id").string?.getD ""
    timestamp := record.member "timestamp"
    event_type := (record.member "event_type").string?.getD "" }

/-- The fields of an entry, as texts and a number. -/
structure EntryFields where
  record_hash : String
  creator_key : String
  context_id : String
  timestamp_ms : ℕ
  event_type : String
deriving DecidableEq

/-- `decodeEntry(bytes, index)`, but for the index and the byte of the event type. -/
def decodeFields (bytes : Bytes) : EntryFields :=
  let entry := decodeEntry bytes 0
  { record_hash := sha256Ref entry.recordHash
    creator_key := base64urlEncode entry.creatorKey
    context_id := hexEncode entry.contextId
    timestamp_ms := entry.timestampMs
    event_type := entry.eventType }

end Atrib.LogNode
