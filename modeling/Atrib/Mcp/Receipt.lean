import Atrib.Mcp.Context

/-!
# Receipts of attribution

The receipts of `packages/mcp/src/extension-attribution.ts`: what a server builds
for a record that it has signed, and what a client makes of a block that it was
sent. A block is a value as it comes, of any shape.
-/

namespace Atrib.Middleware.Receipt

open Lib (JsValue)
open LocalSubstrate (isObject)
open Outbound (encodeToken)

/-- `AttributionLogSubmissionStatus` -/
inductive LogSubmissionStatus where
  | queued
  | submitted
  | disabled
  | failed
deriving DecidableEq

def LogSubmissionStatus.toText : LogSubmissionStatus → String
  | queued => "queued"
  | submitted => "submitted"
  | disabled => "disabled"
  | failed => "failed"

def LOG_SUBMISSION_STATUS_SET : List String := ["queued", "submitted", "disabled", "failed"]

def EVENT_TYPE_SHORT_TO_URI : List (String × String) :=
  ["tool_call", "transaction", "observation", "directory_anchor", "annotation", "revision"].map
    fun name => (name, "https://atrib.dev/v1/types/" ++ name)

/-! ## Building -/

structure BuildAttributionReceiptOptions where
  includeRecord : Bool
  logSubmission : Option LogSubmissionStatus

def buildAttributionReceipt (P : Platform) (record : JsValue)
    (options : BuildAttributionReceiptOptions) : Except String JsValue := do
  let shortName := (EVENT_TYPE_SHORT_TO_URI.find? fun entry =>
    (JsValue.string entry.2).strictEq (record.member "event_type")).map Prod.fst
  let token ← encodeToken P record
  let recordHash := P.hash.sha256 (← canonicalBytes P record)
  let receipt := JsValue.object [
    ("record_hash", .string (sha256Ref recordHash)),
    ("creator_key", record.member "creator_key"),
    ("context_id", record.member "context_id"),
    ("event_type", (shortName.map JsValue.string).getD (record.member "event_type")),
    ("chain_root", record.member "chain_root"),
    ("log_submission", .string (options.logSubmission.getD .queued).toText)]
  return .object ([("token", .string token), ("receipt", receipt)] ++
    if options.includeRecord then [("record", record)] else [])

/-! ## Verifying -/

structure AttributionReceiptVerification where
  valid : Bool
  mismatched : List String
deriving DecidableEq

def receiptFields : List String :=
  ["record_hash", "creator_key", "context_id", "event_type", "chain_root", "log_submission"]

def isStructurallyReceiptBlock (block : JsValue) : Bool :=
  isObject block && (block.member "token").string?.isSome && isObject (block.member "receipt") &&
    receiptFields.all (fun field => ((block.member "receipt").member field).string?.isSome) &&
    (block.member "record" = .undefined || isObject (block.member "record"))

/-- `if (differs) mismatched.push(field)` -/
def push (differs : Bool) (field : String) (mismatched : List String) : List String :=
  if differs then mismatched ++ [field] else mismatched

/-- `if (differs && !mismatched.includes(field)) mismatched.push(field)` -/
def pushNew (differs : Bool) (field : String) (mismatched : List String) : List String :=
  push (differs && !mismatched.contains field) field mismatched

/-- What a record that comes with the block makes of the fields that disagree. -/
def checkRecord (P : Platform) (block receipt record : JsValue) (mismatched : List String) :
    Except String (List String) := do
  let recordHash := P.hash.sha256 (← canonicalBytes P record)
  let token ← encodeToken P record
  let differs (field : String) := !(receipt.member field).strictEq (record.member field)
  return push (differs "chain_root") "chain_root"
    (push (differs "context_id") "context_id"
      (pushNew (differs "creator_key") "creator_key"
        (pushNew (!(receipt.member "record_hash").strictEq (.string (sha256Ref recordHash)))
          "record_hash"
          (pushNew (!(block.member "token").strictEq (.string token)) "token" mismatched))))

/-- The fields of the receipt that disagree with the token. -/
def checkToken (receipt : JsValue) (decoded : DecodedToken) : List String :=
  push (!(receipt.member "log_submission").string?.any LOG_SUBMISSION_STATUS_SET.contains)
    "log_submission"
    (push (!(receipt.member "creator_key").strictEq (.string (base64urlEncode decoded.creatorKey)))
      "creator_key"
      (push (!(receipt.member "record_hash").strictEq (.string (sha256Ref decoded.recordHash)))
        "record_hash" []))

def verifyAttributionReceipt (P : Platform) (block : JsValue) :
    Except String AttributionReceiptVerification := do
  if !isStructurallyReceiptBlock block then return ⟨false, ["malformed"]⟩
  match (block.member "token").string?.bind decodeToken with
  | none => return ⟨false, ["token"]⟩
  | some decoded =>
      let receipt := block.member "receipt"
      let mismatched := checkToken receipt decoded
      let mismatched ←
        if (block.member "record").truthy then
          checkRecord P block receipt (block.member "record") mismatched
        else pure mismatched
      return ⟨mismatched.isEmpty, mismatched⟩

end Atrib.Middleware.Receipt
