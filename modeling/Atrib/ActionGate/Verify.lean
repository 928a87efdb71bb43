import Atrib.ActionGate.Entries
import Mathlib.Data.List.Infix

/-!
# The verification of a gate run

The artifacts that a decision and an outcome are signed into, and
`verifyActionGateRun` of `packages/action-gate/src/index.ts` on two of them. Whether
the two records verify is answered before; everything else is computed from the
artifacts, which may be of any shape.
-/

namespace Atrib.ActionGate

open Lib (JsNumber JsValue)

def ACTION_GATE_DECISION_EVENT_TYPE_URI : String :=
  "https://atrib.dev/v1/extensions/action-gate/decision"
def ACTION_GATE_OUTCOME_EVENT_TYPE_URI : String :=
  "https://atrib.dev/v1/extensions/action-gate/outcome"
def DECISION_TOOL_NAME : String := "atrib.action_gate.decision"
def OUTCOME_TOOL_NAME : String := "atrib.action_gate.outcome"

/-- The sidecar of a decision has `args`, that of an outcome `result`: `payload` here. -/
structure LocalSidecar where
  record_hash : String
  action : ActionEnvelope
  entry : JsValue
  payload : JsValue := .undefined

/-- `SignedActionGateDecision` and `SignedActionGateOutcome` -/
structure Artifact where
  record : JsValue
  record_hash : String
  entry : JsValue
  sidecar : LocalSidecar

structure VerificationIssue where
  code : String
  message : String
deriving DecidableEq

structure VerificationResult where
  valid : Bool
  issues : List VerificationIssue
deriving DecidableEq

/-- `if (failed) issues.push({ code, message })` -/
def issueIf (failed : Bool) (code message : String) : List VerificationIssue :=
  if failed then [⟨code, message⟩] else []

def differs (a b : JsValue) : Bool := !a.strictEq b

/-- `value?.includes(text)` -/
def includes (value : JsValue) (text : String) : Except Thrown Bool :=
  match value with
  | .undefined | .null => .ok false
  | .array items => .ok (items.any fun item => item.strictEq (.string text))
  | .string whole => .ok (decide (text.toList <:+: whole.toList))
  | _ => .error (.error (.string "TypeError") (.string "includes is not a function"))

variable {ρ : Type} (P : Platform ρ)

/-- `` `${name}.${value}` `` -/
def dotted (name : String) (value : JsValue) : Except Thrown JsValue := do
  return .string (name ++ "." ++ (← rethrow (JsValue.toText P.mcp.text value)))

/-- The issues with how the two records hang together. -/
def linkIssues (decision outcome : Artifact) : Except Thrown (List VerificationIssue) := do
  let decisionHash ← recordHashFor P decision.record
  let outcomeHash ← recordHashFor P outcome.record
  let cites ← includes (outcome.record.member "informed_by") decision.record_hash
  let entryDecisionHash ← rethrow (outcome.entry.get "decision_record_hash")
  let decisionId ← rethrow (decision.entry.get "decision_id")
  return issueIf (decision.record_hash ≠ decisionHash) "decision_sidecar_hash_mismatch"
      "decision record_hash does not match signed bytes" ++
    issueIf (outcome.record_hash ≠ outcomeHash) "outcome_sidecar_hash_mismatch"
      "outcome record_hash does not match signed bytes" ++
    issueIf (!cites) "outcome_missing_decision_parent"
      "outcome record does not cite the decision record" ++
    issueIf (differs entryDecisionHash (.string decision.record_hash))
      "decision_record_hash_mismatch" "outcome entry points at a different decision record hash" ++
    issueIf (differs (outcome.entry.member "decision_id") decisionId) "decision_id_mismatch"
      "outcome entry points at a different decision id" ++
    issueIf (differs (outcome.entry.member "run_id") (decision.entry.member "run_id"))
      "run_id_mismatch" "run id drifted between records" ++
    issueIf (differs (outcome.entry.member "action_id") (decision.entry.member "action_id"))
      "action_id_mismatch" "action id drifted between records" ++
    issueIf (differs (outcome.record.member "context_id") (decision.record.member "context_id"))
      "context_id_mismatch" "outcome record uses a different context id than the decision" ++
    issueIf (differs (outcome.record.member "creator_key") (decision.record.member "creator_key"))
      "creator_key_mismatch" "outcome record uses a different host identity than the decision" ++
    issueIf (differs (outcome.record.member "chain_root") (.string decision.record_hash))
      "outcome_chain_root_mismatch" "outcome record does not extend the decision chronology chain"

/-- The issues with the schema, the policy outcome and the status. -/
def shapeIssues (decision outcome : Artifact) : Except Thrown (List VerificationIssue) := do
  let policyOutcome ← policyOutcome decision.entry
  let policyIssues ←
    if isPolicyOutcome policyOutcome then do
      let state ← decisionStateFromPolicy policyOutcome
      pure (issueIf (differs (decision.entry.member "decision_state") (.string state))
        "decision_state_policy_mismatch" "decision state does not match its policy outcome")
    else pure [⟨"decision_policy_outcome_invalid",
      "decision policy outcome is outside the action-gate schema"⟩]
  let status := outcome.entry.member "status"
  let digest := outcome.entry.member "result_digest"
  let executedIssues := match outcome.entry.member "executed" with
    | .bool executed =>
        issueIf (isOutcomeStatus status && !outcomeStatusMatchesExecution status executed)
          "outcome_status_execution_mismatch"
          "outcome status contradicts whether the action executed"
    | _ => [⟨"outcome_executed_invalid", "outcome executed flag is not a boolean"⟩]
  return issueIf (differs (decision.entry.member "schema") (.string ACTION_GATE_DECISION_SCHEMA))
      "decision_schema_mismatch" "decision entry uses the wrong schema" ++
    issueIf (differs (outcome.entry.member "schema") (.string ACTION_GATE_OUTCOME_SCHEMA))
      "outcome_schema_mismatch" "outcome entry uses the wrong schema" ++
    policyIssues ++
    issueIf (digest ≠ .undefined && !digest.string?.any (isSha256Ref ·))
      "outcome_result_digest_invalid" "outcome result digest is not a canonical SHA-256 URI" ++
    issueIf (!isOutcomeStatus status) "outcome_status_invalid"
      "outcome status is outside the action-gate schema" ++
    executedIssues ++
    issueIf (isOutcomeStatus status && !outcomeStatusPayloadValid outcome.entry)
      "outcome_status_payload_mismatch" "outcome status contradicts its result or error material"

/-- The issues with what the entries and records commit to. -/
def commitmentIssues (decision outcome : Artifact) : Except Thrown (List VerificationIssue) := do
  let decisionId ← decisionEntryIdFor P decision.entry
  let outcomeId ← outcomeEntryIdFor P outcome.entry
  let decisionTool ← dotted P DECISION_TOOL_NAME (decision.entry.member "decision_state")
  let outcomeTool ← dotted P OUTCOME_TOOL_NAME (outcome.entry.member "status")
  let decisionArgs ← hashCanonical P (decisionSubject decision.entry)
  let decisionResult ← hashCanonical P (decisionResult decision.entry)
  let outcomeArgs ← hashCanonical P (outcomeSubject outcome.entry)
  let outcomeResult ← hashCanonical P (outcomeResult outcome.entry)
  return issueIf (differs (decision.entry.member "decision_id") (.string decisionId))
      "decision_entry_id_mismatch" "decision entry id does not match its canonical entry fields" ++
    issueIf (differs (outcome.entry.member "outcome_id") (.string outcomeId))
      "outcome_entry_id_mismatch" "outcome entry id does not match its canonical entry fields" ++
    issueIf (differs (decision.record.member "event_type")
        (.string ACTION_GATE_DECISION_EVENT_TYPE_URI))
      "decision_event_type_mismatch" "decision record uses the wrong event type" ++
    issueIf (differs (outcome.record.member "event_type")
        (.string ACTION_GATE_OUTCOME_EVENT_TYPE_URI))
      "outcome_event_type_mismatch" "outcome record uses the wrong event type" ++
    issueIf (differs (decision.record.member "tool_name") decisionTool)
      "decision_tool_name_mismatch"
      "decision record tool name does not match its decision state" ++
    issueIf (differs (outcome.record.member "tool_name") outcomeTool)
      "outcome_tool_name_mismatch" "outcome record tool name does not match its outcome status" ++
    issueIf (differs (decision.record.member "args_hash") (.string decisionArgs))
      "decision_args_commitment_mismatch"
      "decision record args commitment does not match its entry" ++
    issueIf (differs (decision.record.member "result_hash") (.string decisionResult))
      "decision_result_commitment_mismatch"
      "decision record result commitment does not match its entry" ++
    issueIf (differs (outcome.record.member "args_hash") (.string outcomeArgs))
      "outcome_args_commitment_mismatch"
      "outcome record args commitment does not match its entry" ++
    issueIf (differs (outcome.record.member "result_hash") (.string outcomeResult))
      "outcome_result_commitment_mismatch"
      "outcome record result commitment does not match its entry"

/-- A payload in a sidecar is the one that a digest was taken of. -/
def payloadMatches (payload digest : JsValue) : Except Thrown Bool :=
  if payload = .undefined then .ok true
  else do return (JsValue.string (← digestCanonical P payload)).strictEq digest

/-- The issues with the local sidecars. -/
def sidecarIssues (decision outcome : Artifact) : Except Thrown (List VerificationIssue) := do
  let sameDecision ← canonicalEqual P decision.sidecar.entry decision.entry
  let sameOutcome ← canonicalEqual P outcome.sidecar.entry outcome.entry
  let args ← payloadMatches P decision.sidecar.payload (decision.entry.member "args_digest")
  let result ← payloadMatches P outcome.sidecar.payload (outcome.entry.member "result_digest")
  return issueIf (decision.sidecar.record_hash ≠ decision.record_hash)
      "decision_sidecar_record_hash_mismatch"
      "decision sidecar record hash does not match the signed artifact" ++
    issueIf (outcome.sidecar.record_hash ≠ outcome.record_hash)
      "outcome_sidecar_record_hash_mismatch"
      "outcome sidecar record hash does not match the signed artifact" ++
    issueIf (!sameDecision) "decision_sidecar_entry_mismatch"
      "decision sidecar entry does not match the signed artifact entry" ++
    issueIf (!sameOutcome) "outcome_sidecar_entry_mismatch"
      "outcome sidecar entry does not match the signed artifact entry" ++
    issueIf (!actionMatchesDecisionEntry P decision.sidecar.action decision.entry)
      "decision_sidecar_action_mismatch"
      "decision sidecar action does not match the committed decision" ++
    issueIf (!actionMatchesDecisionEntry P outcome.sidecar.action decision.entry)
      "outcome_sidecar_action_mismatch"
      "outcome sidecar action does not match the committed decision" ++
    issueIf (!args) "decision_sidecar_args_mismatch"
      "decision sidecar args do not match the committed args digest" ++
    issueIf (!result) "outcome_sidecar_result_mismatch"
      "outcome sidecar result does not match the committed result digest"

/-- The issues of a decision that is closed: its action did not execute, and its outcome says so. -/
def closedIssues (decision outcome : Artifact) (state executedCode executedMessage statusMessage :
    String) : List VerificationIssue :=
  if (decision.entry.member "decision_state").strictEq (.string state) then
    issueIf (outcome.entry.member "executed").truthy executedCode executedMessage ++
      issueIf (differs (outcome.entry.member "status") (.string state))
        "closed_decision_status_mismatch" statusMessage
  else []

/-- The issues with what became of the decision. -/
def stateIssues (decision outcome : Artifact) : List VerificationIssue :=
  let status := outcome.entry.member "status"
  let allowed := (decision.entry.member "decision_state").strictEq (.string "allowed")
  issueIf (allowed && !(["executed", "not_executed", "execution_error"].any
      fun known => status.strictEq (.string known))) "allowed_action_missing_execution_status"
      "allowed decisions must end in executed, not_executed, or execution_error" ++
    issueIf (allowed && status.strictEq (.string "not_executed") &&
        (outcome.entry.member "executed").truthy) "allowed_action_missing_execution_status"
      "not_executed outcomes cannot report executed=true" ++
    closedIssues decision outcome "blocked" "blocked_action_executed" "blocked action executed"
      "blocked decision did not produce blocked outcome" ++
    closedIssues decision outcome "escalated" "escalated_action_executed"
      "escalated action executed before approval"
      "escalated decision did not produce escalated outcome" ++
    closedIssues decision outcome "policy_error" "policy_error_action_executed"
      "policy-error action executed" "policy-error decision did not produce policy_error outcome"

/-- `verifyActionGateRun`, after the signatures. -/
def verificationOf (decisionOk outcomeOk : Bool) (decision outcome : Artifact) :
    Except Thrown VerificationResult := do
  let signature := issueIf (!decisionOk) "decision_signature_invalid"
      "decision record signature failed verification" ++
    issueIf (!outcomeOk) "outcome_signature_invalid"
      "outcome record signature failed verification"
  let link ← linkIssues P decision outcome
  let shape ← shapeIssues decision outcome
  let commitment ← commitmentIssues P decision outcome
  let sidecar ← sidecarIssues P decision outcome
  let issues := signature ++ link ++ shape ++ commitment ++ sidecar ++ stateIssues decision outcome
  return ⟨issues.isEmpty, issues⟩

end Atrib.ActionGate
