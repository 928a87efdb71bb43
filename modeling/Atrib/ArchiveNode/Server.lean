import Atrib.ArchiveNode.Store
import Atrib.Mcp.Refs

/-!
# Submissions to the archive service and what it answers

`normalizeArchiveSubmission` of `services/archive-node/src/store.ts` and the
handlers of `server.ts`. What a trusted log says about a record hash, whether
the signature of a record verifies, and what the verifier makes of one
authorization input at some time are parameters. A submission is one move: it
takes place when the store is changed, and whether the append of its put
succeeds only decides if the answer is sent.

`submitted` and `produced` are not in the program. They record the submissions
that have reached the store, and the blocks the verifier has made in the
service, each with the record and the input they were made of.
-/

namespace Atrib.ArchiveNode

open Lib (InsertionMap JsValue JsNumber)

/-! ## Reading a submission -/

def firstArray (values : List JsValue) : List JsValue := (values.findSome? JsValue.array?).getD []

def firstObject (values : List JsValue) : Option (InsertionMap String JsValue) :=
  values.findSome? members?

def isProofBundle (value : JsValue) : Bool :=
  (members? value).isSome &&
    (value.member "log_index").number?.isSome &&
    (value.member "checkpoint").string?.isSome &&
    (value.member "inclusion_proof").array?.isSome &&
    (value.member "leaf_hash").string?.isSome

/-- The value if it is an object, and `undefined` otherwise. -/
def objectOrUndefined (value : JsValue) : JsValue :=
  if (members? value).isSome then value else .undefined

def normalizeArchiveSubmission (input : JsValue) : Except String ArchiveSubmissionEnvelope :=
  if (members? input).isNone then .error "body must be a JSON object"
  else
    match (atribRecordLike? (input.member "record")).or (atribRecordLike? input) with
    | none => .error "record must be an AtribRecord object"
    | some record =>
        let explicitHash := (input.member "record_hash").string?
        if explicitHash.any (!isSha256Ref ·) then
          .error "record_hash must be sha256:<64 lowercase hex>"
        else
          let sidecar := objectOrUndefined (input.member "_local")
          let content := objectOrUndefined (sidecar.member "content")
          .ok {
            recordHash := explicitHash
            record
            logProofs :=
              match (input.member "log_proofs").array? with
              | some proofs => proofs.filter isProofBundle
              | none =>
                  if isProofBundle (input.member "proof") then [input.member "proof"] else []
            authorizationEvidence := firstArray
              [input.member "authorizationEvidence", sidecar.member "authorizationEvidence",
                content.member "authorizationEvidence", content.member "authorization_evidence"]
            evidence := firstArray [input.member "evidence"]
            resolvedFacts := firstObject
              [input.member "resolvedFacts", sidecar.member "resolvedFacts",
                content.member "resolvedFacts", content.member "resolved_facts"] }

/-! ## Evidence -/

/-- `verifyRecord` of `packages/verify`: whether a record's signature verifies,
and the block that is made of one authorization input at a time. An input that
makes the verifier throw has a block as well. -/
structure Verifier where
  signatureOk : AtribRecordLike → Bool
  verifyAuthorizationEvidence : JsNumber → JsValue → JsValue

/-- `key in value` -/
def hasMember (value : JsValue) (key : String) : Except String Bool :=
  match value with
  | .object members => .ok (decide (key ∈ members.map Prod.fst))
  | .array _ | .function => .ok false
  | _ => .error ("Cannot use 'in' operator to search for '" ++ key ++ "' in a primitive")

/-- `||`, from left to right. -/
def anyMember (value : JsValue) : List String → Except String Bool
  | [] => .ok false
  | key :: keys => do if ← hasMember value key then return true else anyMember value keys

def isX401AuthorizationEvidence (value : JsValue) : Except String Bool := do
  if (← value.get "protocol").strictEq (.string "x401") then return true
  anyMember value ["x401", "headers", "headerSet", "proofRequest", "proofResponse", "proofResult",
    "resultVerified", "tokenVerified", "agentOriginVerified", "issuerTrustVerified",
    "proofPaymentBindingVerified"]

/-- `filter`, for the inputs that are of x401 and for the others. -/
def selectInputs (x401 : Bool) : List JsValue → Except String (List JsValue)
  | [] => .ok []
  | input :: inputs => do
      let isX401 ← isX401AuthorizationEvidence input
      let selected ← selectInputs x401 inputs
      return if isX401 = x401 then input :: selected else selected

variable (P : Platform) (V : Verifier)

/-- The blocks of `verifyRecord`, one for each input. -/
def verifiedEvidence (nowMs : JsNumber) (inputs : List JsValue) : List JsValue :=
  inputs.map (V.verifyAuthorizationEvidence nowMs)

/-- The submission as it is stored, and the inputs that have been verified for it. -/
def sanitizeEvidenceBeforeStorage (nowMs : JsNumber) (submission : ArchiveSubmissionEnvelope) :
    Except String (ArchiveSubmissionEnvelope × List JsValue) := do
  let x401Inputs ← selectInputs true submission.authorizationEvidence
  if x401Inputs = [] then return (submission, [])
  let kept ← selectInputs false submission.authorizationEvidence
  let x401Evidence := (verifiedEvidence V nowMs submission.authorizationEvidence).filter
    fun block => (block.member "protocol").strictEq (.string "x401")
  return ({ submission with
    authorizationEvidence := kept
    evidence := dedupeObjects P (submission.evidence ++ x401Evidence) },
    submission.authorizationEvidence)

structure RecordResponse where
  recordHash : String
  record : AtribRecordLike
  logProofs : List JsValue
  archivedAtMs : JsNumber
  retentionWindowMs : JsNumber
  recordSummary : List (String × JsValue)
  resolvedFacts : Option (InsertionMap String JsValue)
  evidence : List JsValue

def publicRecordResponse (nowMs : JsNumber) (entry : StoredArchiveEntry) : RecordResponse where
  recordHash := entry.recordHash
  record := entry.record
  logProofs := entry.logProofs
  archivedAtMs := entry.archivedAtMs
  retentionWindowMs := entry.retentionWindowMs
  recordSummary := ["creator_key", "context_id", "event_type", "timestamp", "content_id"].map
    fun key => (key, entry.record.val.member key)
  resolvedFacts := entry.resolvedFacts
  evidence := dedupeObjects P (entry.evidence ++ verifiedEvidence V nowMs entry.authorizationEvidence)

/-! ## The handlers -/

inductive Answer
  | problem (status : ℕ) (type title detail : String)
  | record (status : ℕ) (body : RecordResponse)
  /-- The projection of the body that the evidence endpoint answers with. -/
  | evidence (body : RecordResponse)
  | notArchived
  | retentionExpired (entry : StoredArchiveEntry) (expiredAtMs : JsNumber)

def Answer.body? : Answer → Option RecordResponse
  | .record _ body | .evidence body => some body
  | _ => none

def badRequest (type detail : String) : Answer := .problem 400 type "Bad Request" detail

def internalError : Answer :=
  .problem 500 "internal-error" "Internal Server Error" "unexpected archive-node error"

/-- What `JSON.parse(await readBody(req))` gives. -/
inductive SubmittedBody
  | tooLarge
  | invalid
  | json (value : JsValue)

/-- A block the verifier has made of an input, while it worked on a record. -/
structure Produced where
  recordHash : String
  input : JsValue
  block : JsValue

structure ArchiveServer where
  store : ArchiveStore := {}
  submitted : List (String × ArchiveSubmissionEnvelope) := []
  produced : List Produced := []
  answers : List Answer := []

inductive ServerMove
  /-- A submission, with what the trusted logs say of its record and the times
  at which it is verified, stored and answered. -/
  | submit (body : SubmittedBody) (commitment : Except String Unit)
      (verifiedMs storedMs answeredMs : JsNumber)
  | read (recordHashRef : String) (evidenceOnly : Bool) (nowMs : JsNumber)

namespace ArchiveServer

def answer (s : ArchiveServer) (reply : Answer) : ArchiveServer :=
  { s with answers := s.answers ++ [reply] }

/-- The verifier works on the inputs of a record. -/
def verify (s : ArchiveServer) (hash : String) (nowMs : JsNumber) (inputs : List JsValue) :
    ArchiveServer :=
  { s with produced := s.produced ++ inputs.map fun input =>
      ⟨hash, input, V.verifyAuthorizationEvidence nowMs input⟩ }

/-- The body of an answer, for which the inputs of the entry are verified. -/
def respond (s : ArchiveServer) (nowMs : JsNumber) (entry : StoredArchiveEntry)
    (reply : RecordResponse → Answer) : ArchiveServer :=
  (s.verify V entry.recordHash nowMs entry.authorizationEvidence).answer
    (reply (publicRecordResponse P V nowMs entry))

/-- `handleSubmit` from `sanitizeEvidenceBeforeStorage` on. -/
def archive (window : JsNumber) (s : ArchiveServer) (computedHash : String)
    (submission : ArchiveSubmissionEnvelope) (verifiedMs storedMs answeredMs : JsNumber) :
    ArchiveServer :=
  match sanitizeEvidenceBeforeStorage P V verifiedMs submission with
  | .error _ => s.answer internalError
  | .ok (storageSubmission, inputs) =>
      let s := s.verify V computedHash verifiedMs inputs
      match ArchiveStore.nextEntry P window storageSubmission storedMs with
      | none =>
          s.answer (badRequest "bad-archive-submission" "archive submission failed validation")
      | some next =>
          let created := (s.store.entries.get? next.recordHash).isNone
          let entry := s.store.mergedEntry P next
          let s := { s with
            store := s.store.put P window storageSubmission storedMs
            submitted := s.submitted ++ [(computedHash, submission)] }
          s.respond P V answeredMs entry (.record (if created then 201 else 200))

def handleSubmit (window : JsNumber) (s : ArchiveServer) (body : SubmittedBody)
    (commitment : Except String Unit) (verifiedMs storedMs answeredMs : JsNumber) :
    ArchiveServer :=
  match body with
  | .tooLarge => s.answer (.problem 413 "bad-request" "Bad Request" "request body too large")
  | .invalid => s.answer (badRequest "bad-request" "invalid JSON body")
  | .json parsed =>
      match normalizeArchiveSubmission parsed with
      | .error _ =>
          s.answer (badRequest "bad-archive-submission" "archive submission failed validation")
      | .ok submission =>
          if V.signatureOk submission.record then
            match recordHash P submission.record with
            | none => s.answer internalError
            | some computedHash =>
                match commitment with
                | .error detail =>
                    s.answer (.problem 409 "log-commitment-missing" "Conflict" detail)
                | .ok _ =>
                    s.archive P V window computedHash submission verifiedMs storedMs answeredMs
          else s.answer (badRequest "record-signature-invalid" "record signature did not verify")

def handleRecord (s : ArchiveServer) (lookup : ArchiveLookupResult) (evidenceOnly : Bool)
    (nowMs : JsNumber) : ArchiveServer :=
  match lookup with
  | .missing => s.answer .notArchived
  | .expired entry expiredAtMs => s.answer (.retentionExpired entry expiredAtMs)
  | .found entry =>
      s.respond P V nowMs entry fun body => if evidenceOnly then .evidence body else .record 200 body

def step (window : JsNumber) (s : ArchiveServer) : ServerMove → ArchiveServer
  | .submit body commitment verifiedMs storedMs answeredMs =>
      s.handleSubmit P V window body commitment verifiedMs storedMs answeredMs
  | .read recordHashRef evidenceOnly nowMs =>
      s.handleRecord P V (get s.store.entries recordHashRef nowMs) evidenceOnly nowMs

end ArchiveServer

end Atrib.ArchiveNode
