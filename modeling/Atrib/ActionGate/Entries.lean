import Atrib.Lib.Sorting
import Atrib.Mcp.Signing
import Atrib.Proofs.Encodings

/-!
# Decisions and outcomes of an action gate

The entries of `packages/action-gate/src/index.ts`: what they are built from, the
digests they carry and the records they are signed as. An entry is a value as it
comes, of any shape; one that has been built here is an object.

What an action returns may be any value of the language, also one that JCS does
not take, so it is of a type of its own, with what JCS makes of it.
-/

namespace Atrib.ActionGate

open Lib (JsNumber JsValue sortBy)

/-- The libraries of the source, and what the runtime gives it. -/
structure Platform (ρ : Type) where
  mcp : Middleware.Platform
  /-- `canonicalize` of what an action returns. -/
  canonicalizeResult : ρ → Except String (Option String)
  /-- `JSON.parse` -/
  parse : String → Except String JsValue
  localeCompare : String → String → Ordering
  /-- `new Date(ms).toISOString()` -/
  toISOString : JsNumber → Except String String
  normalizeServerUrl : String → String
  /-- `ATRIB_CHAIN_TAIL_<context_id>`, if it is a reference. -/
  envTail : String → Option String

/-! ## What is thrown -/

/-- An `Error`, or another value with what `String` makes of it, if it does not throw. -/
inductive Thrown where
  | error (name message : JsValue)
  | other (text : Option String)
deriving DecidableEq

/-- `new Error(message)` -/
def newError (message : String) : Thrown := .error (.string "Error") (.string message)

structure NormalizedError where
  name : JsValue
  message : JsValue
deriving DecidableEq

def normalizeError : Thrown → Except Thrown NormalizedError
  | .error name message => .ok ⟨name, message⟩
  | .other (some text) => .ok ⟨.string "Error", .string text⟩
  | .other none =>
      .error (.error (.string "TypeError") (.string "Cannot convert object to primitive value"))

/-- `if (!passed) throw new Error(message)` -/
def assertThat (passed : Bool) (message : String) : Except Thrown Unit :=
  if passed then .ok () else .error (newError message)

/-- An exception of a library. -/
def rethrow {α : Type} : Except String α → Except Thrown α
  | .ok a => .ok a
  | .error message => .error (newError message)

/-! ## Digests -/

section

variable {ρ : Type} (P : Platform ρ)

/-- The digest of what `canonicalize` answers. -/
def hashJson : Except String (Option String) → Except Thrown String
  | .ok (some json) => .ok (sha256Ref (P.mcp.hash.sha256 (utf8 json)))
  | .ok none => .error (newError "failed to canonicalize action-gate material")
  | .error message => .error (newError message)

def hashCanonical (value : JsValue) : Except Thrown String := hashJson P (P.mcp.canonicalize value)

def digestCanonical (value : JsValue) : Except Thrown String := hashCanonical P value

/-- `digestCanonical` of what an action returned. -/
def digestResult (result : ρ) : Except Thrown String := hashJson P (P.canonicalizeResult result)

def recordHashFor (record : JsValue) : Except Thrown String :=
  match Middleware.canonicalBytes P.mcp record with
  | .ok bytes => .ok (sha256Ref (P.mcp.hash.sha256 bytes))
  | .error message => .error (newError message)

def canonicalEqual (left right : JsValue) : Except Thrown Bool := do
  let left ← rethrow (P.mcp.canonicalize left)
  let right ← rethrow (P.mcp.canonicalize right)
  return decide (left = right)

/-- JCS of a value and back, or nothing. -/
def snapshotCanonical (value : JsValue) : JsValue :=
  match P.mcp.canonicalize value with
  | .ok (some json) => (P.parse json).toOption.getD .undefined
  | _ => .undefined

end

def normalizeSha256Uri (value field : String) : Except Thrown String :=
  if isSha256Ref value then .ok value
  else .error (newError s!"{field} must be sha256:<64 lowercase hex>")

/-- `texts.sort()` -/
def sortTexts (texts : List String) : List String :=
  sortBy (fun a b => compare (JsValue.codeUnits a) (JsValue.codeUnits b)) texts

def normalizeRecordHashes (values : List String) : Except Thrown (List String) :=
  if values.all (isSha256Ref ·) then .ok (sortTexts (Lib.InsertionSet.ofList values))
  else .error (newError "record hashes must be sha256:<64 lowercase hex>")

/-! ## Actions and policies -/

/-- `args` is `undefined` where there are none. -/
structure ActionEnvelope where
  run_id : String
  action_id : String
  agent_id : String
  surface : String
  tool_name : String
  args : JsValue := .undefined
  args_digest : Option String := none
  risk : Option (List String) := none
  parent_record_hashes : Option (List String) := none
  refs : Option (List (String × String)) := none
deriving DecidableEq

/-- What a policy answers; its outcome may be any value. -/
structure PolicyDecision where
  outcome : JsValue
  policy_id : String
  policy_version : String
  reason : Option String := none
  authority : Option JsValue := none
  approval : Option JsValue := none
  evidence : Option (List (String × String)) := none
deriving DecidableEq

def texts (values : List String) : JsValue := .array (values.map .string)

/-- `isActionGatePolicyOutcome` -/
def isPolicyOutcome (value : JsValue) : Bool :=
  value.string?.any fun text => text = "allow" || text = "block" || text = "escalate" ||
    text = "error"

def decisionStateFromPolicy (outcome : JsValue) : Except Thrown String :=
  if outcome.strictEq (.string "allow") then .ok "allowed"
  else if outcome.strictEq (.string "block") then .ok "blocked"
  else if outcome.strictEq (.string "escalate") then .ok "escalated"
  else if outcome.strictEq (.string "error") then .ok "policy_error"
  else .error (newError "policy outcome has an invalid value")

section

variable {ρ : Type} (P : Platform ρ)

def sortedRecord (input : List (String × String)) : JsValue :=
  .object ((sortBy (fun a b => P.localeCompare a.1 b.1) input).map fun entry =>
    (entry.1, .string entry.2))

def actionArgsDigest (action : ActionEnvelope) : Except Thrown String := do
  let supplied ← action.args_digest.mapM fun digest => normalizeSha256Uri digest "args_digest"
  if action.args ≠ .undefined then
    let computed ← digestCanonical P action.args
    if supplied.any (· ≠ computed) then
      throw (newError "args_digest does not match action args")
    return supplied.getD computed
  else
    match supplied with
    | some digest => return digest
    | none => digestCanonical P (.object [])

/-! ## Entries -/

def ACTION_GATE_DECISION_SCHEMA : String := "atrib.action-gate.decision.v1"
def ACTION_GATE_OUTCOME_SCHEMA : String := "atrib.action-gate.outcome.v1"

/-- `refs`, where the action has them. -/
def refsOf (action : ActionEnvelope) : JsValue := (action.refs.map (sortedRecord P)).getD .undefined

def policyOf (policy : PolicyDecision) : JsValue :=
  .object ([("policy_id", .string policy.policy_id), ("version", .string policy.policy_version),
      ("outcome", policy.outcome)] ++
    ((policy.reason.filter (· ≠ "")).map fun reason => ("reason", JsValue.string reason)).toList ++
    [("authority", policy.authority.getD (.object [("mode", .string "host-policy")])),
      ("approval", policy.approval.getD
        (.object [("required", .bool (policy.outcome.strictEq (.string "escalate")))]))] ++
    (policy.evidence.map fun evidence => ("evidence", sortedRecord P evidence)).toList)

/-- `{ ...entryWithoutId, [id]: digestCanonical(entryWithoutId) }` -/
def withEntryId (id : String) (members : List (String × JsValue)) : Except Thrown JsValue := do
  let digest ← digestCanonical P (.object members)
  return .object (members ++ [(id, .string digest)])

/-- `entryWithoutId` of a decision. -/
def decisionMembers (action : ActionEnvelope) (policy : PolicyDecision) (timestamp : String)
    (decisionState argsDigest : String) (parents : List String) : List (String × JsValue) :=
  [("schema", .string ACTION_GATE_DECISION_SCHEMA), ("decision_state", .string decisionState),
    ("run_id", .string action.run_id), ("action_id", .string action.action_id),
    ("agent_id", .string action.agent_id), ("surface", .string action.surface),
    ("tool_name", .string action.tool_name), ("args_digest", .string argsDigest),
    ("risk", texts (sortTexts (action.risk.getD []))), ("policy", policyOf P policy),
    ("timestamp", .string timestamp), ("parent_record_hashes", texts parents)] ++
    (action.refs.map fun refs => ("refs", sortedRecord P refs)).toList

def buildActionGateDecisionEntry (action : ActionEnvelope) (policy : PolicyDecision)
    (timestamp : String) (parentRecordHashes : List String) : Except Thrown JsValue := do
  let decisionState ← decisionStateFromPolicy policy.outcome
  let argsDigest ← actionArgsDigest P action
  let parents ← normalizeRecordHashes parentRecordHashes
  withEntryId P "decision_id"
    (decisionMembers P action policy timestamp decisionState argsDigest parents)

def isOutcomeStatus (value : JsValue) : Bool :=
  value.string?.any fun text => text = "executed" || text = "not_executed" || text = "blocked" ||
    text = "escalated" || text = "policy_error" || text = "execution_error"

/-- What an outcome is built from. -/
structure OutcomeInput (ρ : Type) where
  status : String
  executed : Bool
  /-- `undefined` is none. -/
  result : Option ρ := none
  error : Option NormalizedError := none

def errorOf (error : NormalizedError) : JsValue :=
  .object [("name", error.name), ("message", error.message)]

/-- `entryWithoutId` of an outcome. -/
def outcomeMembers (input : OutcomeInput ρ) (runId actionId : String) (decisionId : JsValue)
    (decisionRecordHash timestamp : String) (resultDigest : Option String) :
    List (String × JsValue) :=
  [("schema", .string ACTION_GATE_OUTCOME_SCHEMA), ("status", .string input.status),
    ("run_id", .string runId), ("action_id", .string actionId), ("decision_id", decisionId),
    ("decision_record_hash", .string decisionRecordHash), ("executed", .bool input.executed)] ++
    (resultDigest.map fun digest => ("result_digest", JsValue.string digest)).toList ++
    (input.error.map fun error => ("error", errorOf error)).toList ++
    [("timestamp", .string timestamp)]

def buildActionGateOutcomeEntry (input : OutcomeInput ρ) (runId actionId : String)
    (decisionId : JsValue) (decisionRecordHash timestamp : String) : Except Thrown JsValue := do
  assertThat (isOutcomeStatus (.string input.status)) "outcome status has an invalid value"
  let resultDigest ← input.result.mapM (digestResult P)
  withEntryId P "outcome_id"
    (outcomeMembers input runId actionId decisionId decisionRecordHash timestamp resultDigest)

/-! ## What a record says of an entry -/

/-- The members of a value, under their names. -/
def pick (entry : JsValue) (keys : List String) : List (String × JsValue) :=
  keys.map fun key => (key, entry.member key)

def decisionSubject (entry : JsValue) : JsValue :=
  .object (pick entry ["schema", "decision_id", "run_id", "action_id", "agent_id", "surface",
    "tool_name", "args_digest"])

def decisionResult (entry : JsValue) : JsValue :=
  .object (pick entry ["decision_state", "risk", "policy", "parent_record_hashes"] ++
    [("refs", (entry.member "refs").orElse (.object []))])

def outcomeSubject (entry : JsValue) : JsValue :=
  .object (pick entry ["schema", "outcome_id", "run_id", "action_id", "decision_id",
    "decision_record_hash"])

def outcomeResult (entry : JsValue) : JsValue :=
  .object (pick entry ["status", "executed"] ++
    [("result_digest", (entry.member "result_digest").orElse .null),
      ("error", (entry.member "error").orElse .null)])

def decisionEntryIdFor (entry : JsValue) : Except Thrown String :=
  hashCanonical P (entry.without "decision_id")

def outcomeEntryIdFor (entry : JsValue) : Except Thrown String :=
  hashCanonical P (entry.without "outcome_id")

/-! ## Checks of entries -/

/-- `actionMatchesDecisionEntry`, where what throws is no match. -/
def actionMatchesDecisionEntry (action : ActionEnvelope) (entry : JsValue) : Bool :=
  (JsValue.string action.run_id).strictEq (entry.member "run_id") &&
    (JsValue.string action.action_id).strictEq (entry.member "action_id") &&
    (JsValue.string action.agent_id).strictEq (entry.member "agent_id") &&
    (JsValue.string action.surface).strictEq (entry.member "surface") &&
    (JsValue.string action.tool_name).strictEq (entry.member "tool_name") &&
    (actionArgsDigest P action).toOption.any
      (fun digest => (JsValue.string digest).strictEq (entry.member "args_digest")) &&
    (canonicalEqual P (texts (sortTexts (action.risk.getD []))) (entry.member "risk")).toOption.any
      id &&
    (canonicalEqual P (refsOf P action) (entry.member "refs")).toOption.any id

def outcomeStatusMatchesExecution (status : JsValue) (executed : Bool) : Bool :=
  if status.strictEq (.string "executed") || status.strictEq (.string "execution_error") then
    executed
  else !executed

def outcomeStatusPayloadValid (entry : JsValue) : Bool :=
  if (entry.member "status").strictEq (.string "execution_error") then
    entry.member "error" ≠ .undefined && entry.member "result_digest" = .undefined
  else entry.member "error" = .undefined

/-- `entry.policy.outcome` throws where there is no policy. -/
def policyOutcome (entry : JsValue) : Except Thrown JsValue := do
  rethrow ((← rethrow (entry.get "policy")).get "outcome")

def assertDecisionEntry (entry : JsValue) : Except Thrown Unit := do
  assertThat ((entry.member "schema").strictEq (.string ACTION_GATE_DECISION_SCHEMA))
    "decision entry uses the wrong schema"
  let id ← decisionEntryIdFor P entry
  assertThat ((entry.member "decision_id").strictEq (.string id))
    "decision entry id does not match canonical fields"
  let outcome ← policyOutcome entry
  assertThat (isPolicyOutcome outcome) "policy outcome has an invalid value"
  let state ← decisionStateFromPolicy outcome
  assertThat ((entry.member "decision_state").strictEq (.string state))
    "decision state does not match policy outcome"

def assertOutcomeEntry (entry : JsValue) : Except Thrown Unit := do
  assertThat ((entry.member "schema").strictEq (.string ACTION_GATE_OUTCOME_SCHEMA))
    "outcome entry uses the wrong schema"
  let id ← outcomeEntryIdFor P entry
  assertThat ((entry.member "outcome_id").strictEq (.string id))
    "outcome entry id does not match canonical fields"
  assertThat (isOutcomeStatus (entry.member "status")) "outcome status has an invalid value"
  let executed ← match entry.member "executed" with
    | .bool executed => .ok executed
    | _ => .error (newError "executed must be a boolean")
  assertThat (entry.member "result_digest" = .undefined ||
      (entry.member "result_digest").string?.any (isSha256Ref ·))
    "result_digest must be sha256:<64 lowercase hex>"
  assertThat (outcomeStatusMatchesExecution (entry.member "status") executed)
    "outcome status contradicts executed"
  assertThat (outcomeStatusPayloadValid entry)
    "outcome status contradicts result or error material"

end

end Atrib.ActionGate
