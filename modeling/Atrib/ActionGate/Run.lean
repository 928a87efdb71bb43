import Atrib.ActionGate.Verify
import Atrib.Lib.Async

/-!
# A gated action

`runGatedAction` of `packages/action-gate/src/index.ts`, and the permits of its
protected executor, as programs that wait: every `await`, and every call of a
function that the host or the runtime supplies, is a request. Whatever else runs
meanwhile may run there.
-/

namespace Atrib.ActionGate

open Lib (Async JsNumber JsValue)

/-! ## Requests -/

structure Credential where
  run_key : String
  principal_key : Option String := none
deriving DecidableEq

/-- `ProtectedMcpActionContext` -/
structure ActionContext where
  run_id : String
  action_id : String
  agent_id : String
  risk : Option (List String) := none
  parent_record_hashes : Option (List String) := none
  refs : Option (List (String × String)) := none
  credential : Option Credential := none
deriving DecidableEq

/-- `ProtectedMcpToolCall`; `arguments` is `undefined` where there are none. -/
structure ToolCall where
  name : String
  arguments : JsValue := .undefined
deriving DecidableEq

structure Permit where
  permit_id : String
  binding : String
  issued_at_ms : ℚ
  expires_at_ms : ℚ
deriving DecidableEq

structure ConsumeInput where
  permit_id : String
  binding : String
  now_ms : ℚ
deriving DecidableEq

/-- A reason other than `ok`. -/
inductive AuthorizationReason where
  | authorization_missing
  | authorization_unknown
  | authorization_binding_mismatch
  | authorization_expired
  | authorization_consumed
  | authorization_credential_missing
  | authorization_credential_revoked
  | authorization_revocation_check_failed
deriving DecidableEq

def AuthorizationReason.text : AuthorizationReason → String
  | .authorization_missing => "authorization_missing"
  | .authorization_unknown => "authorization_unknown"
  | .authorization_binding_mismatch => "authorization_binding_mismatch"
  | .authorization_expired => "authorization_expired"
  | .authorization_consumed => "authorization_consumed"
  | .authorization_credential_missing => "authorization_credential_missing"
  | .authorization_credential_revoked => "authorization_credential_revoked"
  | .authorization_revocation_check_failed => "authorization_revocation_check_failed"

/-- `{ ok: true }`, or the reason why not. -/
abbrev AuthorizationResult := Option AuthorizationReason

/-- `pause` is a promise of a library that nobody else has to keep; `clock` is the clock of the
process, and `now` the one that the host supplies. -/
inductive Op where
  | pause
  | clock
  | now
  | randomContextId
  | evaluate (action : ActionEnvelope) (timestamp : String)
  | signRecord (record : JsValue)
  | onRecord (record : JsValue) (sidecar : LocalSidecar)
  | execute
  | revokedKeys
  | createPermitId
  | issue (permit : Permit)
  | consume (input : ConsumeInput)
  | executeUpstream (request : ToolCall)

/-- The clocks give milliseconds. -/
abbrev Ans (ρ : Type) : Op → Type
  | .pause | .onRecord _ _ | .issue _ => Unit
  | .clock | .now => ℚ
  | .randomContextId => { bytes : Bytes // bytes.length = 16 }
  | .evaluate _ _ => PolicyDecision
  | .signRecord _ | .createPermitId => String
  | .execute | .executeUpstream _ => Option ρ
  | .revokedKeys => List String
  | .consume _ => AuthorizationResult

abbrev Gate (ρ α : Type) : Type := Async Thrown Op (Ans ρ) α

/-! ## Signing -/

/-- The key that a run signs with. -/
inductive ActionGateKey where
  | privateKey (seed : { bytes : Bytes // bytes.length = 32 })
  | signer (creatorKey : String)

/-- The options of a run that its caller or the environment gives. -/
structure RunOptions where
  /-- `resolveActionGateKey` -/
  key : Except Thrown ActionGateKey
  contextId : Option String := none
  serverUrl : String := "action-gate://local"
  parentRecordHashes : List String := []
  /-- There is an `onRecord`. -/
  onRecord : Bool := false

variable {ρ : Type} (P : Platform ρ)

def creatorKeyFor : ActionGateKey → Gate ρ String
  | .privateKey seed => do
      let _ ← Async.ask Op.pause
      return base64urlEncode (P.mcp.getPublicKey seed.val)
  | .signer creatorKey => return creatorKey

/-- The signature of a record whose `signature` is empty. -/
def signWith (record : JsValue) : ActionGateKey → Gate ρ String
  | .privateKey seed => do
      let signature ← .lift (rethrow (Middleware.signatureOf P.mcp record seed.val))
      let _ ← Async.ask Op.pause
      return signature
  | .signer _ => Async.ask (Op.signRecord record)

def computeContentId (serverUrl toolName : String) : String :=
  sha256Ref (P.mcp.hash.sha256 (utf8 (P.normalizeServerUrl serverUrl ++ ":" ++ toolName)))

def resolveChainRoot (contextId : String) (autoChainTailHex : Option String) : String :=
  match autoChainTailHex.filter (· ≠ "") with
  | some hex => "sha256:" ++ hex
  | none => (P.envTail contextId).getD (genesisChainRoot P.mcp.hash contextId)

/-- What the record of a decision or an outcome is made of. -/
structure RecordInput where
  toolName : String
  chainRoot : String
  eventType : String
  argsHash : String
  resultHash : String
  informedBy : List String

/-- The members of a record but for its signature. -/
def recordMembers (options : RunOptions) (contextId creatorKey : String) (timestampMs : ℚ)
    (input : RecordInput) : List (String × JsValue) :=
  [("spec_version", .string "atrib/1.0"),
    ("content_id", .string (computeContentId P options.serverUrl input.toolName)),
    ("creator_key", .string creatorKey), ("chain_root", .string input.chainRoot),
    ("event_type", .string input.eventType), ("context_id", .string contextId),
    ("timestamp", .number (.finite timestampMs)), ("args_hash", .string input.argsHash),
    ("result_hash", .string input.resultHash), ("tool_name", .string input.toolName)] ++
    if input.informedBy ≠ [] then [("informed_by", texts input.informedBy)] else []

/-- `signWith`, and the artifact of what it answers. -/
def signArtifact (key : ActionGateKey) (members : List (String × JsValue)) (entry payload : JsValue)
    (action : ActionEnvelope) : Gate ρ Artifact := do
  let signature ← signWith P (Middleware.withSignature members "") key
  let record := Middleware.withSignature members signature
  let recordHash ← .lift (recordHashFor P record)
  return ⟨record, recordHash, entry, ⟨recordHash, action, entry, payload⟩⟩

/-- A member of an entry, as a text. -/
def textOf (entry : JsValue) (key : String) : String := (entry.member key).string?.getD ""

def signActionGateDecision (options : RunOptions) (key : ActionGateKey) (entry : JsValue)
    (action : ActionEnvelope) (parents : List String) (contextId : String) (timestampMs : ℚ) :
    Gate ρ Artifact := do
  .lift (assertDecisionEntry P entry)
  .lift (assertThat (actionMatchesDecisionEntry P action entry)
    "action does not match decision entry")
  let creatorKey ← creatorKeyFor P key
  let argsHash ← .lift (hashCanonical P (decisionSubject entry))
  let resultHash ← .lift (hashCanonical P (decisionResult entry))
  signArtifact P key (recordMembers P options contextId creatorKey timestampMs {
    toolName := DECISION_TOOL_NAME ++ "." ++ textOf entry "decision_state"
    chainRoot := resolveChainRoot P contextId none
    eventType := ACTION_GATE_DECISION_EVENT_TYPE_URI
    argsHash, resultHash, informedBy := parents }) entry (snapshotCanonical P action.args) action

def signActionGateOutcome (options : RunOptions) (key : ActionGateKey) (entry : JsValue)
    (action : ActionEnvelope) (contextId decisionRecordHash : String) (timestampMs : ℚ) :
    Gate ρ Artifact := do
  .lift (assertOutcomeEntry P entry)
  .lift (assertThat ((JsValue.string action.run_id).strictEq (entry.member "run_id") &&
    (JsValue.string action.action_id).strictEq (entry.member "action_id"))
    "action does not match outcome entry")
  let normalized ← .lift (normalizeSha256Uri decisionRecordHash "decisionRecordHash")
  let entryHash ← .lift (normalizeSha256Uri (textOf entry "decision_record_hash")
    "decision_record_hash")
  .lift (assertThat (normalized = entryHash)
    "decisionRecordHash does not match outcome entry decision_record_hash")
  let creatorKey ← creatorKeyFor P key
  let argsHash ← .lift (hashCanonical P (outcomeSubject entry))
  let resultHash ← .lift (hashCanonical P (outcomeResult entry))
  signArtifact P key (recordMembers P options contextId creatorKey timestampMs {
    toolName := OUTCOME_TOOL_NAME ++ "." ++ textOf entry "status"
    chainRoot := resolveChainRoot P contextId (some (afterHashPrefix decisionRecordHash))
    eventType := ACTION_GATE_OUTCOME_EVENT_TYPE_URI
    argsHash, resultHash, informedBy := [decisionRecordHash] }) entry .undefined action

/-! ## The run -/

structure RecordDeliveryError where
  record_kind : String
  record_hash : String
  error : NormalizedError
deriving DecidableEq

/-- `notifyRecord` -/
def notifyRecord (options : RunOptions) (kind : String) (artifact : Artifact) :
    Gate ρ (List RecordDeliveryError) :=
  if options.onRecord then
    Async.catching (do
        Async.ask (Op.onRecord artifact.record artifact.sidecar)
        return [])
      fun error => do
        let error ← .lift (normalizeError error)
        return [⟨kind, artifact.record_hash, error⟩]
  else return []

def resolvePolicyDecision (evaluate : Gate ρ PolicyDecision) : Gate ρ PolicyDecision :=
  Async.catching (do
      let decision ← evaluate
      .lift (assertThat (isPolicyOutcome decision.outcome) "policy outcome has an invalid value")
      return decision)
    fun error => do
      let error ← .lift (normalizeError error)
      let name ← .lift (rethrow (JsValue.toText P.mcp.text error.name))
      let message ← .lift (rethrow (JsValue.toText P.mcp.text error.message))
      return {
        outcome := .string "error"
        policy_id := "action-gate-policy-evaluator"
        policy_version := "error"
        reason := some s!"policy evaluator failed: {name}: {message}"
        authority := some (.object [("mode", .string "host-policy")])
        approval := some (.object [("required", .bool false)]) }

def resolveOutcomeInput (state : JsValue) (execute : Gate ρ (Option ρ)) : Gate ρ (OutcomeInput ρ) :=
  if state.strictEq (.string "blocked") then return { status := "blocked", executed := false }
  else if state.strictEq (.string "escalated") then
    return { status := "escalated", executed := false }
  else if state.strictEq (.string "policy_error") then
    return { status := "policy_error", executed := false }
  else
    Async.catching (do
        let result ← execute
        return { status := "executed", executed := true, result })
      fun error => do
        let error ← .lift (normalizeError error)
        return { status := "execution_error", executed := true, error := some error }

/-- `new Date(now()).toISOString()` -/
def isoNow (nowMs : ℚ) : Gate ρ String := .lift (rethrow (P.toISOString (.finite nowMs)))

def verifyActionGateRun (decision outcome : Artifact) : Gate ρ VerificationResult := do
  let nowMs ← Async.ask Op.clock
  let decisionOk := Middleware.verifyRecord P.mcp decision.record (.finite nowMs)
  let nowMs ← Async.ask Op.clock
  let outcomeOk := Middleware.verifyRecord P.mcp outcome.record (.finite nowMs)
  .lift (verificationOf P decisionOk outcomeOk decision outcome)

structure RunResult (ρ : Type) where
  decision : Artifact
  outcome : Artifact
  outcomeInput : OutcomeInput ρ
  verification : VerificationResult
  record_delivery_errors : List RecordDeliveryError

/-- `state`, `action_executed` and the rest of the result are read off these. -/
def RunResult.actionExecuted (result : RunResult ρ) : JsValue :=
  result.outcome.entry.member "executed"

/-- What a run has when its action may execute. -/
structure Decided where
  key : ActionGateKey
  contextId : String
  artifact : Artifact
  record_delivery_errors : List RecordDeliveryError

/-- `input.contextId ?? randomContextId()` -/
def contextIdOf (options : RunOptions) : Gate ρ String :=
  match options.contextId with
  | some contextId => pure contextId
  | none => (hexEncode ·.val) <$> Async.ask Op.randomContextId

/-- `runGatedAction`, until the decision has been signed and notified of. -/
def gateDecision (options : RunOptions) (action : ActionEnvelope)
    (evaluate : ActionEnvelope → String → Gate ρ PolicyDecision) : Gate ρ Decided := do
  let key ← .lift options.key
  let contextId ← contextIdOf options
  let timestampMs ← Async.ask Op.now
  let timestamp ← isoNow P timestampMs
  let parents ← .lift (normalizeRecordHashes
    (options.parentRecordHashes ++ action.parent_record_hashes.getD []))
  let policy ← resolvePolicyDecision P (evaluate action timestamp)
  let entry ← .lift (buildActionGateDecisionEntry P action policy timestamp parents)
  let decision ← signActionGateDecision P options key entry action parents contextId timestampMs
  let errors ← notifyRecord options "decision" decision
  return ⟨key, contextId, decision, errors⟩

/-- `runGatedAction`, once the entry of the outcome has been built. -/
def sealOutcome (options : RunOptions) (action : ActionEnvelope) (decided : Decided)
    (input : OutcomeInput ρ) (entry : JsValue) : Gate ρ (RunResult ρ) := do
  let decision := decided.artifact
  let timestampMs ← Async.ask Op.now
  let outcome ← signActionGateOutcome P options decided.key entry action decided.contextId
    decision.record_hash timestampMs
  let errors ← notifyRecord options "outcome" outcome
  let verification ← verifyActionGateRun P decision outcome
  return ⟨decision, outcome, input, verification, decided.record_delivery_errors ++ errors⟩

/-- `runGatedAction`, once it is known what became of the action. -/
def gateOutcome (options : RunOptions) (action : ActionEnvelope) (decided : Decided)
    (input : OutcomeInput ρ) : Gate ρ (RunResult ρ) := do
  let nowMs ← Async.ask Op.now
  let timestamp ← isoNow P nowMs
  let entry ← .lift (buildActionGateOutcomeEntry P input action.run_id action.action_id
    (decided.artifact.entry.member "decision_id") decided.artifact.record_hash timestamp)
  sealOutcome P options action decided input entry

def runGatedAction (options : RunOptions) (action : ActionEnvelope)
    (evaluate : ActionEnvelope → String → Gate ρ PolicyDecision) (execute : Gate ρ (Option ρ)) :
    Gate ρ (RunResult ρ) := do
  let decided ← gateDecision P options action evaluate
  let input ← resolveOutcomeInput (decided.artifact.entry.member "decision_state") execute
  gateOutcome P options action decided input

end Atrib.ActionGate
