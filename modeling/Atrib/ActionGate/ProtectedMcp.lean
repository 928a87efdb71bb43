import Atrib.ActionGate.Run
import Atrib.Lib.InsertionMap
import Mathlib.Logic.Relation

/-!
# The protected executor of an MCP upstream

`createProtectedMcpExecutor` and `createMemoryProtectedMcpPermitStore` of
`packages/action-gate/src/index.ts`. The two functions of an executor are programs
that wait; `System` is an executor with the memory store and all the calls that
have been made of it, which take turns at whatever they wait for.

The store answers where it is asked, and only the promise of its answer is waited
for. `issued`, `consumed` and `invocations` list what the store and the upstream
have been asked for, and `policy`, `spent` and `invoked` what a call has been
given and has done; the program has none of these.
-/

namespace Atrib.ActionGate

open Lib (Async InsertionMap JsNumber JsValue)

/-! ## The memory store -/

/-- The permits by their ids, and whether they are consumed. -/
abbrev PermitStore : Type := InsertionMap String (Permit × Bool)

def PermitStore.issue (permits : PermitStore) (permit : Permit) : Except Thrown PermitStore :=
  if permits.has permit.permit_id then
    .error (newError "action-gate: protected MCP permit id already exists")
  else .ok (permits.set permit.permit_id (permit, false))

def PermitStore.consume (permits : PermitStore) (input : ConsumeInput) :
    Except AuthorizationReason (Permit × PermitStore) :=
  match permits.get? input.permit_id with
  | none => .error .authorization_unknown
  | some (permit, consumed) =>
      if permit.binding ≠ input.binding then .error .authorization_binding_mismatch
      else if input.now_ms < permit.issued_at_ms ∨ permit.expires_at_ms < input.now_ms then
        .error .authorization_expired
      else if consumed then .error .authorization_consumed
      else .ok (permit, permits.set input.permit_id (permit, true))

/-! ## The executor -/

inductive RevokedKeys where
  | keys (keys : List String)
  | view
deriving DecidableEq

/-- `CreateProtectedMcpExecutorInput`, but for the functions of the host. -/
structure ExecutorOptions where
  key : Except Thrown ActionGateKey
  contextId : Option String := none
  serverUrl : String := "action-gate://local"
  onRecord : Bool := false
  surface : String := "mcp"
  permitMaxAgeMs : ℕ := 30000
  revokedKeys : Option RevokedKeys := none

def ExecutorOptions.run (options : ExecutorOptions) : RunOptions where
  key := options.key
  contextId := options.contextId
  serverUrl := options.serverUrl
  onRecord := options.onRecord

/-- `{ ...refs, [key]: value }` -/
def setRef (refs : List (String × String)) (key value : String) : List (String × String) :=
  if key ∈ refs.map Prod.fst then
    refs.map fun entry => if entry.1 = key then (key, value) else entry
  else refs ++ [(key, value)]

def actionEnvelopeFor (surface : String) (action : ActionContext) (request : ToolCall)
    (risk : Option (List String)) (refs : Option (List (String × String))) : ActionEnvelope where
  run_id := action.run_id
  action_id := action.action_id
  agent_id := action.agent_id
  surface := surface
  tool_name := request.name
  args := request.arguments
  risk := risk.orElse fun _ => action.risk
  parent_record_hashes := action.parent_record_hashes
  refs := refs.orElse fun _ => action.refs

/-- A policy of the executor's own, which blocks. -/
def blockWith (policyId reason : String) (authorization : AuthorizationReason) : PolicyDecision where
  outcome := .string "block"
  policy_id := policyId
  policy_version := "1"
  reason := some (reason ++ authorization.text)
  evidence := some [("authorization_reason", authorization.text)]

def credentialOf (credential : Credential) : JsValue :=
  .object ([("run_key", .string credential.run_key)] ++
    (credential.principal_key.map fun key => ("principal_key", JsValue.string key)).toList)

inductive DispatchResult (ρ : Type) where
  | ok (result : Option ρ)
  | rejected (reason : AuthorizationReason) (evidence : Except NormalizedError (RunResult ρ))

variable {ρ : Type} (P : Platform ρ) (options : ExecutorOptions)

def protectedMcpBinding (surface : String) (action : ActionContext) (request : ToolCall) :
    Except Thrown String := do
  let argsDigest ← hashCanonical P (request.arguments.orElse (.object []))
  hashCanonical P (.object ([("run_id", .string action.run_id),
      ("action_id", .string action.action_id), ("agent_id", .string action.agent_id)] ++
    (action.credential.map fun credential => ("credential", credentialOf credential)).toList ++
    [("surface", .string surface), ("tool_name", .string request.name),
      ("args_digest", .string argsDigest)]))

def rejectBypass (action : ActionContext) (request : ToolCall) (reason : AuthorizationReason) :
    Gate ρ (DispatchResult ρ) :=
  Async.catching (do
      let evidence ← runGatedAction P options.run
        (actionEnvelopeFor options.surface action request
          (some (sortTexts (Lib.InsertionSet.ofList (action.risk.getD [] ++ ["direct_bypass"]))))
          (some (setRef (action.refs.getD []) "authorization_reason" reason.text)))
        (fun _ _ => pure (blockWith "atrib.protected-mcp.authorization"
          "protected MCP dispatch rejected: " reason))
        (.throw (newError "action-gate: bypass rejection executed an unreachable action body"))
      return .rejected reason (.ok evidence))
    fun error => do
      let error ← .lift (normalizeError error)
      return .rejected reason (.error error)

def credentialAuthorization (action : ActionContext) : Gate ρ AuthorizationResult :=
  match options.revokedKeys, action.credential with
  | none, _ => return none
  | some _, none => return some .authorization_credential_missing
  | some revoked, some credential => do
      let keys ← Async.catching (match revoked with
          | .keys keys => return some keys
          | .view => some <$> Async.ask Op.revokedKeys)
        fun _ => return none
      match keys with
      | none => return some .authorization_revocation_check_failed
      | some keys =>
          if credential.run_key ∈ keys ∨ ∃ key ∈ credential.principal_key, key ∈ keys then
            return some .authorization_credential_revoked
          else return none

def blockedCredentialResult (action : ActionContext) (request : ToolCall)
    (reason : AuthorizationReason) : Gate ρ (RunResult ρ) :=
  let refs := setRef (action.refs.getD []) "authorization_reason" reason.text
  runGatedAction P options.run
    (actionEnvelopeFor options.surface action request
      (some (sortTexts (Lib.InsertionSet.ofList (action.risk.getD [] ++ ["credential_rejected"]))))
      (some (match action.credential.filter (·.run_key ≠ "") with
        | some credential => setRef refs "credential_run_key" credential.run_key
        | none => refs)))
    (fun _ _ => pure (blockWith "atrib.protected-mcp.revocation"
      "protected MCP credential rejected: " reason))
    (.throw (newError "action-gate: credential rejection executed an unreachable action body"))

def dispatch (action : ActionContext) (request : ToolCall) (permitId : Option String) :
    Gate ρ (DispatchResult ρ) := do
  match ← credentialAuthorization options action with
  | some reason => rejectBypass P options action request reason
  | none =>
      match permitId.filter (· ≠ "") with
      | none => rejectBypass P options action request .authorization_missing
      | some permitId => do
          let binding ← .lift (protectedMcpBinding P options.surface action request)
          let nowMs ← Async.ask Op.now
          match ← Async.ask (Op.consume ⟨permitId, binding, nowMs⟩) with
          | some reason => rejectBypass P options action request reason
          | none => do
              let result ← Async.ask (Op.executeUpstream request)
              return .ok result

/-- The action body of `authorizeAndExecute`. -/
def executeWithPermit (action : ActionContext) (request : ToolCall) : Gate ρ (Option ρ) := do
  let issuedAtMs ← Async.ask Op.now
  let permitId ← Async.ask Op.createPermitId
  if permitId = "" then
    .throw (newError "action-gate: createPermitId returned an empty id")
  else do
    let binding ← .lift (protectedMcpBinding P options.surface action request)
    Async.ask (Op.issue ⟨permitId, binding, issuedAtMs, issuedAtMs + options.permitMaxAgeMs⟩)
    match ← dispatch P options action request (some permitId) with
    | .rejected reason _ => .throw (newError
        s!"action-gate: protected MCP dispatch rejected internal permit ({reason.text})")
    | .ok result => return result

def authorizeAndExecute (action : ActionContext) (request : ToolCall) : Gate ρ (RunResult ρ) := do
  match ← credentialAuthorization options action with
  | some reason => blockedCredentialResult P options action request reason
  | none =>
      runGatedAction P options.run (actionEnvelopeFor options.surface action request none none)
        (fun action timestamp => Async.ask (Op.evaluate action timestamp))
        (executeWithPermit P options action request)

/-! ## All calls of an executor -/

inductive Entry where
  | authorizeAndExecute
  | dispatch (permitId : Option String)

/-- A permit as it was consumed. -/
structure Consumption where
  permit : Permit
  now_ms : ℚ

structure Call (ρ : Type) where
  action : ActionContext
  request : ToolCall
  /-- What is left of it. -/
  program : Gate ρ Unit
  policy : Option PolicyDecision := none
  spent : Option Consumption := none
  invoked : Bool := false

structure Invocation where
  call : ℕ
  request : ToolCall
  spent : Option Consumption

structure System (ρ : Type) where
  permits : PermitStore := .empty
  calls : List (Call ρ) := []
  issued : List Permit := []
  consumed : List Consumption := []
  invocations : List Invocation := []

def programOf (action : ActionContext) (request : ToolCall) : Entry → Gate ρ Unit
  | .authorizeAndExecute => do let _ ← authorizeAndExecute P options action request
  | .dispatch permitId => do let _ ← dispatch P options action request permitId

/-- A promise that has been settled. -/
def settled {α : Type} (program : Gate ρ α) : Gate ρ α := .await .pause fun _ => program

/-- A call has come to its next request: the store is asked, or the upstream is invoked. -/
def System.enter (s : System ρ) (i : ℕ) (call : Call ρ) : System ρ × Call ρ :=
  match call.program with
  | .await (.issue permit) k =>
      match s.permits.issue permit with
      | .ok permits => ({ s with permits, issued := s.issued ++ [permit] },
          { call with program := settled (k (.ok ())) })
      | .error error => (s, { call with program := settled (k (.error error)) })
  | .await (.consume input) k =>
      match s.permits.consume input with
      | .ok (permit, permits) =>
          ({ s with permits, consumed := s.consumed ++ [⟨permit, input.now_ms⟩] },
            { call with program := settled (k (.ok none)), spent := some ⟨permit, input.now_ms⟩ })
      | .error reason => (s, { call with program := settled (k (.ok (some reason))) })
  | .await (.executeUpstream request) _ =>
      ({ s with invocations := s.invocations ++ [⟨i, request, call.spent⟩] },
        { call with invoked := true })
  | _ => (s, call)

/-- Call `i` goes on with a program. -/
def System.goOn (s : System ρ) (i : ℕ) (call : Call ρ) : System ρ :=
  let entered := s.enter i call
  { entered.1 with calls := s.calls.set i entered.2 }

/-- What a call remembers of an answer. -/
def Call.answered (call : Call ρ) : (op : Op) → Except Thrown (Ans ρ op) → Call ρ
  | .evaluate _ _, .ok policy => { call with policy := some policy }
  | _, _ => call

/-- A call is made, or one goes on, or the host uses the store itself. -/
inductive Step : System ρ → System ρ → Prop
  | start (s : System ρ) (action : ActionContext) (request : ToolCall) (entry : Entry) :
      Step s { s with calls := s.calls ++
        [{ action, request, program := settled (programOf P options action request entry) }] }
  | resume (s : System ρ) {i : ℕ} {call : Call ρ} {op : Op}
      {k : Except Thrown (Ans ρ op) → Gate ρ Unit} (hcall : s.calls[i]? = some call)
      (hprogram : call.program = .await op k) (answer : Except Thrown (Ans ρ op)) :
      Step s (s.goOn i { call.answered op answer with program := k answer })
  | issue (s : System ρ) {permit : Permit} {permits : PermitStore}
      (hissue : s.permits.issue permit = .ok permits) :
      Step s { s with permits, issued := s.issued ++ [permit] }
  | consume (s : System ρ) {input : ConsumeInput} {permit : Permit} {permits : PermitStore}
      (hconsume : s.permits.consume input = .ok (permit, permits)) :
      Step s { s with permits, consumed := s.consumed ++ [⟨permit, input.now_ms⟩] }

abbrev Steps : System ρ → System ρ → Prop := Relation.ReflTransGen (Step P options)

end Atrib.ActionGate
