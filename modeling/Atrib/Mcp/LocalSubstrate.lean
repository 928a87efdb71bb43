import Atrib.Lib.Effect
import Atrib.Lib.InsertionMap
import Atrib.Lib.JsValue
import Atrib.Mcp.Refs

/-!
# Local substrate coordinators

`packages/mcp/src/local-substrate.ts`, and the part of
`packages/mcp/src/middleware.ts` that commits a record. A committed record goes
to the submission queue of its process, or it is offered to a coordinator; the
queue gets it unless the coordinator says in time that it has taken it.

The middleware calls code that is not its own: the coordinator's transport and
the hooks. They live in a world `ω`, which they may change as they like. A call
of the transport comes to an `Answer`, or it throws, or rejects its promise,
which is the same to the caller. An `Answer` says too whether it came before
the timer.

The coordinator that runs in the same process is a state machine. A call of its
transport waits twice, for the public key and for the signature, and in between
other calls go on, and `destroy` may come. Its health report is what the host's
functions make it, if they do not throw.
-/

namespace Atrib.LocalSubstrate

open Lib (Effect InsertionMap JsNumber JsValue)

def LOCAL_SUBSTRATE_REQUEST_SCHEMA : String := "atrib.local-substrate-coordinator.request.v0"
def LOCAL_SUBSTRATE_RESPONSE_SCHEMA : String := "atrib.local-substrate-coordinator.response.v0"
def LOCAL_SUBSTRATE_HEALTH_SCHEMA : String := "atrib.local-substrate-coordinator.health.v0"
def LOCAL_SUBSTRATE_DEFAULT_TIMEOUT_MS : JsNumber := .finite 1500

def LOCAL_SUBSTRATE_HARNESS_CLASSES : List String :=
  ["startup-spawn", "long-lived-agent", "watcher-wal"]

def LOCAL_SUBSTRATE_OPERATIONS : List String := ["sign_record", "enqueue_record_and_join_receipt"]

def LOCAL_SUBSTRATE_REQUEST_MODES : List String := ["commit", "shadow_probe"]

def LOCAL_SUBSTRATE_RESPONSE_STATUSES : List String := ["accepted", "rejected"]

def LOCAL_SUBSTRATE_CREATOR_KEY_POLICIES : List String :=
  ["implicit-single-creator", "explicit-single-creator", "explicit-watcher-creator",
    "explicit-signer-selection"]

def EVENT_TYPE_TRANSACTION_URI : String := "https://atrib.dev/v1/types/transaction"

structure LocalSubstrateValidationIssue where
  path : String
  message : String
deriving DecidableEq

/-- The libraries of the source, and the language's text of a number. -/
structure Platform where
  hash : Hash
  /-- `canonicalize`: a text, or `undefined`, or a throw. -/
  canonicalize : JsValue → Except String (Option String)
  base64urlDecode : JsValue → Except String Bytes
  numberText : JsNumber → String

/-! ## Values -/

/-- `typeof value === 'object' && value !== null && !Array.isArray(value)` -/
def isObject (value : JsValue) : Bool := value matches .object _

def isUndefined (value : JsValue) : Bool := value matches .undefined

def isNonEmptyString (value : JsValue) : Bool := value.string?.any (· ≠ "")

def isNonNegativeInteger : JsValue → Bool
  | .number (.finite q) => q.isInt && decide (0 ≤ q)
  | _ => false

/-- `typeof value === 'string' && values.has(value)` -/
def isOneOf (values : List String) (value : JsValue) : Bool := value.string?.any values.contains

/-- `typeof value === 'string' && HASH_RE.test(value)` -/
def isHash (value : JsValue) : Bool := value.string?.any (isSha256Ref ·)

/-- `typeof value === 'string' && CONTEXT_ID_RE.test(value)` -/
def isContextId (value : JsValue) : Bool :=
  value.string?.any fun text => text.toList.length == 32 && text.toList.all isLowerHexDigit

/-- `text.startsWith(start)` -/
def startsWith (text start : String) : Bool := start.toList.isPrefixOf text.toList

/-- `key in value` -/
def hasMember (value : JsValue) (key : String) : Bool :=
  match value with
  | .object members => (members.map Prod.fst).contains key
  | _ => false

/-- `push(issues, path, message)`, where the check fails. -/
def require (ok : Bool) (path message : String) : List LocalSubstrateValidationIssue :=
  if ok then [] else [⟨path, message⟩]

/-- A check of a member that may be absent. -/
def whenPresent (check : JsValue → Bool) (value : JsValue) : Bool :=
  isUndefined value || check value

def orEmptyObject (value : JsValue) : JsValue := if isObject value then value else .object []

/-! ## Requests -/

section

variable (P : Platform)

def canonicalJson (value : JsValue) : Except String String := do
  match ← P.canonicalize value with
  | none => throw "atrib: local-substrate canonicalization produced undefined"
  | some text => return text

def localSubstrateRecordBodiesEqual (a b : JsValue) : Except String Bool :=
  return (← canonicalJson P a) == (← canonicalJson P b)

def canonicalRecord (record : JsValue) : Except String Bytes := do
  match ← P.canonicalize record with
  | none => throw "atrib: canonicalization produced undefined"
  | some text => return utf8 text

def recordHashRef (record : JsValue) : Except String String :=
  return sha256Ref (P.hash.sha256 (← canonicalRecord P record))

def encodeToken (record : JsValue) : Except String String := do
  let recordHash := P.hash.sha256 (← canonicalRecord P record)
  let creatorKeyBytes ← P.base64urlDecode (← record.get "creator_key")
  return base64urlEncode recordHash ++ "." ++ base64urlEncode creatorKeyBytes

end

def recordBodyIssues (value : JsValue) (path : String) : List LocalSubstrateValidationIssue :=
  require (!hasMember value "signature") (path ++ ".signature") "record_body must be unsigned" ++
  require ((value.member "spec_version").strictEq (.string "atrib/1.0"))
    (path ++ ".spec_version") "must be atrib/1.0" ++
  require (isHash (value.member "content_id"))
    (path ++ ".content_id") "must be sha256:<64-lowerhex>" ++
  require (isHash (value.member "chain_root"))
    (path ++ ".chain_root") "must be sha256:<64-lowerhex>" ++
  require (isNonEmptyString (value.member "creator_key"))
    (path ++ ".creator_key") "must be a non-empty string" ++
  require ((value.member "event_type").string?.any fun uri =>
      startsWith uri "http://" || startsWith uri "https://")
    (path ++ ".event_type") "must be an absolute URI" ++
  require (isContextId (value.member "context_id"))
    (path ++ ".context_id") "must be 32 lowercase hex characters" ++
  require (isNonNegativeInteger (value.member "timestamp"))
    (path ++ ".timestamp") "must be a non-negative integer" ++
  require (whenPresent (fun refs => refs.array?.any (·.all isHash)) (value.member "informed_by"))
    (path ++ ".informed_by") "must contain only sha256:<64-lowerhex> refs" ++
  require (whenPresent isHash (value.member "annotates"))
    (path ++ ".annotates") "must be sha256:<64-lowerhex>" ++
  require (whenPresent isHash (value.member "revises"))
    (path ++ ".revises") "must be sha256:<64-lowerhex>"

/-- The issues with those of the body, and whether the body is valid. -/
def validateUnsignedRecordBody (value : JsValue) (path : String)
    (issues : List LocalSubstrateValidationIssue) :
    List LocalSubstrateValidationIssue × Bool :=
  if !isObject value then (issues ++ [⟨path, "record_body must be an object"⟩], false)
  else
    let issues := issues ++ recordBodyIssues value path
    (issues, issues.all fun issue => !startsWith issue.path path)

def mustBeOneOf (values : List String) : String := "must be one of " ++ ", ".intercalate values

def producerIssues (producer : JsValue) (expectedHarnessClass : Option JsValue) :
    List LocalSubstrateValidationIssue :=
  if !isObject producer then [⟨"producer", "must be an object"⟩]
  else
    require (isNonEmptyString (producer.member "name"))
      "producer.name" "must be a non-empty string" ++
    require (isOneOf LOCAL_SUBSTRATE_HARNESS_CLASSES (producer.member "harness_class"))
      "producer.harness_class" (mustBeOneOf LOCAL_SUBSTRATE_HARNESS_CLASSES) ++
    require (expectedHarnessClass.all (producer.member "harness_class").strictEq)
      "producer.harness_class" "must match expected harness class" ++
    require (whenPresent isNonNegativeInteger (producer.member "pid"))
      "producer.pid" "must be a non-negative integer" ++
    require (whenPresent isNonEmptyString (producer.member "transport"))
      "producer.transport" "must be a non-empty string when present" ++
    require (whenPresent (isOneOf LOCAL_SUBSTRATE_CREATOR_KEY_POLICIES)
        (producer.member "creator_key_policy"))
      "producer.creator_key_policy" (mustBeOneOf LOCAL_SUBSTRATE_CREATOR_KEY_POLICIES)

def contextIssues (context : JsValue) : List LocalSubstrateValidationIssue :=
  if isUndefined context then []
  else if !isObject context then [⟨"context", "must be an object when present"⟩]
  else
    require (isNonEmptyString (context.member "source"))
      "context.source" "must be a non-empty string" ++
    require (isContextId (context.member "context_id"))
      "context.context_id" "must be 32 lowercase hex characters" ++
    (["chain_tail", "parent_record_hash"].flatMap fun field =>
      require (whenPresent isHash (context.member field))
        ("context." ++ field) "must be sha256:<64-lowerhex> when present") ++
    require (whenPresent isNonEmptyString (context.member "join_back_target"))
      "context.join_back_target" "must be a non-empty string when present"

def degradationIssues (degradation : JsValue) : List LocalSubstrateValidationIssue :=
  if !isObject degradation then [⟨"degradation", "must be an object"⟩]
  else
    require (isNonEmptyString (degradation.member "if_unavailable"))
      "degradation.if_unavailable" "must describe fallback behavior" ++
    require ((degradation.member "primary_path_blocking").strictEq (.bool false))
      "degradation.primary_path_blocking" "must be false"

/-- What the context says of a valid body. -/
def contextBodyIssues (context recordBody : JsValue) : List LocalSubstrateValidationIssue :=
  require (!isContextId (context.member "context_id") ||
      (context.member "context_id").strictEq (recordBody.member "context_id"))
    "context.context_id" "must match record_body.context_id" ++
  require (!isHash (context.member "chain_tail") ||
      (context.member "chain_tail").strictEq (recordBody.member "chain_root"))
    "context.chain_tail" "must match record_body.chain_root" ++
  require (!isHash (context.member "parent_record_hash") ||
      ((recordBody.member "informed_by").array?.getD []).any
        (context.member "parent_record_hash").strictEq)
    "context.parent_record_hash" "must be present in record_body.informed_by"

def walIssues (wal : JsValue) : List LocalSubstrateValidationIssue :=
  if !isObject wal then [⟨"wal", "watcher-wal requests must include WAL join metadata"⟩]
  else ["entry_id", "source_path", "receipt_join_field"].flatMap fun field =>
    require (isNonEmptyString (wal.member field)) ("wal." ++ field) "must be a non-empty string"

/-- What the harness class asks of a request. -/
def harnessIssues (request producer context : JsValue) : List LocalSubstrateValidationIssue :=
  match producer.member "harness_class" with
  | .string "watcher-wal" =>
      require ((request.member "operation").strictEq (.string "enqueue_record_and_join_receipt"))
        "operation" "watcher-wal requests must enqueue and join receipts" ++
      require (isObject context && isNonEmptyString (context.member "join_back_target"))
        "context.join_back_target" "watcher-wal requests must name a receipt join-back target" ++
      walIssues (request.member "wal")
  | .string harnessClass =>
      if harnessClass = "startup-spawn" ∨ harnessClass = "long-lived-agent" then
        require ((request.member "operation").strictEq (.string "sign_record"))
          "operation" (harnessClass ++ " requests must use sign_record") ++
        require (isUndefined (request.member "wal"))
          "wal" (harnessClass ++ " requests must not include WAL join metadata")
      else []
  | _ => []

structure ValidateLocalSubstrateRequestOptions where
  expectedHarnessClass : Option JsValue := none
  directRecordBody : Option JsValue := none

def validateLocalSubstrateRequest (P : Platform) (request : JsValue)
    (options : ValidateLocalSubstrateRequestOptions) :
    Except String (List LocalSubstrateValidationIssue) := do
  if !isObject request then
    return [⟨"$", "request must be an object"⟩]
  let producer := request.member "producer"
  let context := request.member "context"
  let recordBody := request.member "record_body"
  let issues :=
    require ((request.member "schema").strictEq (.string LOCAL_SUBSTRATE_REQUEST_SCHEMA))
      "schema" ("must be " ++ LOCAL_SUBSTRATE_REQUEST_SCHEMA) ++
    require (isOneOf LOCAL_SUBSTRATE_OPERATIONS (request.member "operation"))
      "operation" (mustBeOneOf LOCAL_SUBSTRATE_OPERATIONS) ++
    require (whenPresent (isOneOf LOCAL_SUBSTRATE_REQUEST_MODES) (request.member "mode"))
      "mode" (mustBeOneOf LOCAL_SUBSTRATE_REQUEST_MODES) ++
    require (!((request.member "mode").strictEq (.string "shadow_probe") &&
        !(request.member "operation").strictEq (.string "sign_record")))
      "mode" "shadow_probe is only valid for sign_record requests" ++
    producerIssues producer options.expectedHarnessClass ++
    contextIssues context
  let (issues, bodyIsValid) := validateUnsignedRecordBody recordBody "record_body" issues
  let issues := issues ++ degradationIssues (request.member "degradation")
  let equal ←
    match options.directRecordBody with
    | some body =>
        if bodyIsValid then localSubstrateRecordBodiesEqual P recordBody body else pure true
    | none => pure true
  return issues ++
    require equal "record_body" "must equal the direct producer body" ++
    (if bodyIsValid && isObject context then contextBodyIssues context recordBody else []) ++
    harnessIssues request (orEmptyObject producer) context

/-! ## Health reports and responses -/

/-- `requireHealthPath`, and the same check of a member that may be absent. -/
def requireHealthPath (value : JsValue) (path : String) (predicate : JsValue → Bool)
    (message : String) : List LocalSubstrateValidationIssue :=
  require (predicate value) path message

def validateLocalSubstrateHealthReport (report : JsValue) : List LocalSubstrateValidationIssue :=
  if !isObject report then [⟨"$", "health report must be an object"⟩]
  else
    let coordinator := orEmptyObject (report.member "coordinator")
    let queues := orEmptyObject (report.member "queues")
    let wal := orEmptyObject (report.member "wal")
    let contexts := orEmptyObject (report.member "contexts")
    let processes := orEmptyObject (report.member "processes")
    let count := "must be a non-negative integer"
    let optionalCount := "must be a non-negative integer when present"
    require ((report.member "schema").strictEq (.string LOCAL_SUBSTRATE_HEALTH_SCHEMA))
      "schema" ("must be " ++ LOCAL_SUBSTRATE_HEALTH_SCHEMA) ++
    require (isObject (report.member "coordinator")) "coordinator" "must be an object" ++
    requireHealthPath (coordinator.member "pid") "coordinator.pid" isNonNegativeInteger count ++
    requireHealthPath (coordinator.member "version") "coordinator.version" isNonEmptyString
      "must be a non-empty string" ++
    requireHealthPath (coordinator.member "transport") "coordinator.transport" isNonEmptyString
      "must be a non-empty string" ++
    requireHealthPath (coordinator.member "creator_key_scope") "coordinator.creator_key_scope"
      (whenPresent isNonEmptyString) "must be a non-empty string when present" ++
    require (isObject (report.member "queues")) "queues" "must be an object" ++
    requireHealthPath (queues.member "log_submission_depth") "queues.log_submission_depth"
      isNonNegativeInteger count ++
    requireHealthPath (queues.member "archive_submission_depth") "queues.archive_submission_depth"
      (whenPresent isNonNegativeInteger) optionalCount ++
    require (isObject (report.member "wal")) "wal" "must be an object" ++
    requireHealthPath (wal.member "pending") "wal.pending" isNonNegativeInteger count ++
    requireHealthPath (wal.member "orphan_receipts") "wal.orphan_receipts" isNonNegativeInteger
      count ++
    requireHealthPath (wal.member "joined") "wal.joined" (whenPresent isNonNegativeInteger)
      optionalCount ++
    require (isObject (report.member "contexts")) "contexts" "must be an object" ++
    require ((contexts.member "active").array?.any (·.all isContextId))
      "contexts.active" "must contain 32-lowerhex context ids" ++
    requireHealthPath (contexts.member "active_count") "contexts.active_count"
      (whenPresent isNonNegativeInteger) optionalCount ++
    requireHealthPath (contexts.member "active_truncated") "contexts.active_truncated"
      (whenPresent fun value => value matches .bool _) "must be a boolean when present" ++
    require (isObject (report.member "processes")) "processes" "must be an object" ++
    requireHealthPath (processes.member "stale_children") "processes.stale_children"
      isNonNegativeInteger count ++
    requireHealthPath (processes.member "active_wrappers") "processes.active_wrappers"
      (whenPresent isNonNegativeInteger) optionalCount

def validateLocalSubstrateResponse (response : JsValue) (request : Option JsValue) :
    List LocalSubstrateValidationIssue :=
  if !isObject response then [⟨"$", "response must be an object"⟩]
  else
    let accepted := (response.member "status").strictEq (.string "accepted")
    require ((response.member "schema").strictEq (.string LOCAL_SUBSTRATE_RESPONSE_SCHEMA))
      "schema" ("must be " ++ LOCAL_SUBSTRATE_RESPONSE_SCHEMA) ++
    require (isOneOf LOCAL_SUBSTRATE_OPERATIONS (response.member "operation"))
      "operation" (mustBeOneOf LOCAL_SUBSTRATE_OPERATIONS) ++
    require (request.all fun request =>
        (response.member "operation").strictEq (request.member "operation"))
      "operation" "must match request.operation" ++
    require (isOneOf LOCAL_SUBSTRATE_RESPONSE_STATUSES (response.member "status"))
      "status" (mustBeOneOf LOCAL_SUBSTRATE_RESPONSE_STATUSES) ++
    require (whenPresent isHash (response.member "record_hash"))
      "record_hash" "must be sha256:<64-lowerhex> when present" ++
    require (whenPresent isNonEmptyString (response.member "receipt_id"))
      "receipt_id" "must be a non-empty string when present" ++
    require (whenPresent isNonEmptyString (response.member "rejection_reason"))
      "rejection_reason" "must be a non-empty string when present" ++
    require (whenPresent (fun warnings => warnings.array?.any (·.all isNonEmptyString))
        (response.member "warnings"))
      "warnings" "must contain only non-empty strings" ++
    require (!((response.member "status").strictEq (.string "rejected") &&
        !isNonEmptyString (response.member "rejection_reason")))
      "rejection_reason" "rejected responses must describe the reason" ++
    require (!(accepted && !isNonEmptyString (response.member "record_hash")))
      "record_hash" "accepted responses must include the signed record hash" ++
    require (!(accepted &&
        (response.member "operation").strictEq (.string "enqueue_record_and_join_receipt") &&
        !isNonEmptyString (response.member "receipt_id")))
      "receipt_id" "accepted WAL join responses must include a receipt id" ++
    (if isUndefined (response.member "health_report") then []
     else (validateLocalSubstrateHealthReport (response.member "health_report")).map fun issue =>
      ⟨"health_report." ++ issue.path, issue.message⟩)

/-! ## Asking a coordinator -/

/-- What a transport gives: a value, or an object that throws when a member is read. -/
inductive RawResponse where
  | value (response : JsValue)
  | unreadable (error : String)

/-- What the promise of a transport comes to, and whether it does before the timer. -/
inductive Answer where
  | inTime (response : RawResponse)
  | late

inductive TryLocalSubstrateCoordinatorResult where
  | accepted (response : JsValue) (elapsed_ms : JsNumber)
  | invalid_request (issues : List LocalSubstrateValidationIssue) (elapsed_ms : JsNumber)
  | invalid_response (issues : List LocalSubstrateValidationIssue) (raw_response : JsValue)
      (elapsed_ms : JsNumber)
  | rejected (response : JsValue) (reason : JsValue) (elapsed_ms : JsNumber)
  | unavailable (reason : String) (elapsed_ms : JsNumber)

abbrev LocalSubstrateCoordinatorTransport (ω : Type) := JsValue → JsNumber → Effect ω Answer

structure TryLocalSubstrateCoordinatorOptions (ω : Type)
    extends ValidateLocalSubstrateRequestOptions where
  transport : LocalSubstrateCoordinatorTransport ω
  timeoutMs : Option JsNumber := none
  now : ω → JsNumber

section

variable {ω : Type} (P : Platform)

/-- `now()` -/
def readClock (now : ω → JsNumber) : Effect ω JsNumber := fun w => (.ok (now w), w)

def elapsedMs (startedAt : JsNumber) (now : ω → JsNumber) : Effect ω JsNumber := do
  return JsNumber.max (.finite 0) ((← readClock now).sub startedAt)

def callWithTimeout (transport : LocalSubstrateCoordinatorTransport ω) (request : JsValue)
    (timeoutMs : JsNumber) : Effect ω RawResponse := do
  match ← transport request timeoutMs with
  | .inTime response => return response
  | .late =>
      Effect.lift (.error
        ("local substrate coordinator timed out after " ++ P.numberText timeoutMs ++ "ms"))

/-- The end of `tryLocalSubstrateCoordinator`. -/
def judgeResponse (request response : JsValue) (elapsed_ms : JsNumber) :
    TryLocalSubstrateCoordinatorResult :=
  let issues := validateLocalSubstrateResponse response (some request)
  if issues ≠ [] then .invalid_response issues response elapsed_ms
  else if (response.member "status").strictEq (.string "accepted") then
    .accepted response elapsed_ms
  else .rejected response (response.member "rejection_reason") elapsed_ms

def tryLocalSubstrateCoordinator (request : JsValue)
    (options : TryLocalSubstrateCoordinatorOptions ω) :
    Effect ω TryLocalSubstrateCoordinatorResult := do
  let startedAt ← readClock options.now
  let issues ← Effect.lift (validateLocalSubstrateRequest P request
    options.toValidateLocalSubstrateRequestOptions)
  if issues ≠ [] then
    return .invalid_request issues (← elapsedMs startedAt options.now)
  let timeoutMs :=
    JsNumber.max (.finite 1) (options.timeoutMs.getD LOCAL_SUBSTRATE_DEFAULT_TIMEOUT_MS)
  -- what the `catch` returns, or the raw response
  let called ← (Except.ok <$> callWithTimeout P options.transport request timeoutMs).catching
    fun error => pure (Except.error error)
  match called with
  | .error error => return .unavailable error (← elapsedMs startedAt options.now)
  | .ok (.unreadable error) => Effect.lift (.error error)
  | .ok (.value response) =>
      return judgeResponse request response (← elapsedMs startedAt options.now)

end

/-! ## Committing a record -/

inductive Priority where
  | high
  | normal
deriving DecidableEq

structure BuiltRecord where
  signed : JsValue
  recordHashHex : String
  recordBody : JsValue
  contextId : String
  eventType : String
  parentRecordHash : Option String := none
  parentRecordHashSeeded : Bool := false

/-- What the submission queue is given. -/
structure Submission where
  record : JsValue
  priority : Priority
  sidecar : Option JsValue

structure LocalSubstrateCommitAttempt where
  request : JsValue
  result : TryLocalSubstrateCoordinatorResult
  expectedRecordHash : String
  responseRecordHash : JsValue
  recordHashMatches : Bool

/-- What an observer returns: nothing that matters, or a promise that is rejected. -/
inductive Observed where
  | done
  | rejected (error : String)

structure LocalSubstrateCommitOptions (ω : Type) where
  transport : LocalSubstrateCoordinatorTransport ω
  producer : JsValue
  timeoutMs : Option JsNumber := none
  degradation : Option JsValue := none
  onAttempt : Option (LocalSubstrateCommitAttempt → Effect ω Observed) := none
  onWarning : Option (String → JsValue → Effect ω Unit) := none

structure MiddlewareOptions (ω : Type) where
  localSubstrateCommit : Option (LocalSubstrateCommitOptions ω) := none
  autoChain : Bool := true
  onRecord : Option (JsValue → Option JsValue → Effect ω Observed) := none
  /-- `Date.now` -/
  now : ω → JsNumber

/-- A wrapped server, and the world around it. -/
structure Middleware (ω : Type) where
  queue : List Submission := []
  consoleWarnings : List String := []
  lastRecordHashByContext : InsertionMap String String := ∅
  parentRecordHashSeedConsumed : Bool := false
  world : ω

def DEFAULT_LOCAL_SUBSTRATE_COMMIT_DEGRADATION : JsValue :=
  .object [
    ("if_unavailable",
      .string "submit through the local queue and continue without coordinator receipt"),
    ("primary_path_blocking", .bool false)]

section

variable {ω : Type} (P : Platform)

/-- Code that is not the middleware's own. -/
def outside {α : Type} (c : Effect ω α) : Effect (Middleware ω) α := fun s =>
  ((c s.world).1, { s with world := (c s.world).2 })

/-- `queue.submit`, which does not throw. -/
def submit (submission : Submission) : Effect (Middleware ω) Unit :=
  Effect.modify fun s => { s with queue := s.queue ++ [submission] }

def consoleWarn (message : String) : Effect (Middleware ω) Unit :=
  Effect.modify fun s => { s with consoleWarnings := s.consoleWarnings ++ [message] }

def notifyLocalSubstrateCommitWarning (commit : LocalSubstrateCommitOptions ω) (message : String)
    (detail : JsValue) : Effect (Middleware ω) Unit :=
  match commit.onWarning with
  | some onWarning =>
      (outside (onWarning ("atrib: " ++ message) detail)).catching fun _ =>
        consoleWarn ("atrib: " ++ message)
  | none => consoleWarn ("atrib: " ++ message)

/-- The request that offers a record. -/
def commitRequest (commit : LocalSubstrateCommitOptions ω) (built : BuiltRecord) : JsValue :=
  .object [
    ("schema", .string LOCAL_SUBSTRATE_REQUEST_SCHEMA), ("operation", .string "sign_record"),
    ("mode", .string "commit"), ("producer", commit.producer),
    ("context", .object ([
        ("source", .string "@atrib/mcp"), ("context_id", .string built.contextId),
        ("chain_tail", built.signed.member "chain_root")] ++
      (built.parentRecordHash.map fun hash => ("parent_record_hash", JsValue.string hash)).toList)),
    ("record_body", built.recordBody),
    ("degradation", commit.degradation.getD DEFAULT_LOCAL_SUBSTRATE_COMMIT_DEGRADATION)]

def commitClientOptions (commit : LocalSubstrateCommitOptions ω) (now : ω → JsNumber)
    (built : BuiltRecord) : TryLocalSubstrateCoordinatorOptions ω where
  transport := commit.transport
  timeoutMs := commit.timeoutMs
  now := now
  expectedHarnessClass :=
    let harnessClass := commit.producer.member "harness_class"
    if isUndefined harnessClass then none else some harnessClass
  directRecordBody := some built.recordBody

def expectedRecordHash (built : BuiltRecord) : String := "sha256:" ++ built.recordHashHex

/-- `result.ok || result.status === 'rejected' ? result.response?.record_hash : undefined` -/
def responseRecordHash : TryLocalSubstrateCoordinatorResult → JsValue
  | .accepted response _ | .rejected response _ _ => response.member "record_hash"
  | _ => .undefined

/-- The observer of attempts. A promise it returns is rejected later on, when only a warning
is left to do. -/
def notifyAttempt (commit : LocalSubstrateCommitOptions ω) (attempt : LocalSubstrateCommitAttempt) :
    Effect (Middleware ω) Unit :=
  match commit.onAttempt with
  | none => pure ()
  | some onAttempt =>
      (do
        match ← outside (onAttempt attempt) with
        | .done => pure ()
        | .rejected error =>
            notifyLocalSubstrateCommitWarning commit "local substrate commit observer rejected"
              (.string error)).catching fun error =>
        notifyLocalSubstrateCommitWarning commit "local substrate commit observer threw"
          (.string error)

/-- The callback given to `then`. -/
def takeResult (commit : LocalSubstrateCommitOptions ω) (built : BuiltRecord)
    (submission : Submission) (result : TryLocalSubstrateCoordinatorResult) :
    Effect (Middleware ω) Unit := do
  let recordHash := responseRecordHash result
  let recordHashMatches := recordHash.strictEq (.string (expectedRecordHash built))
  notifyAttempt commit {
    request := commitRequest commit built
    result
    expectedRecordHash := expectedRecordHash built
    responseRecordHash := recordHash
    recordHashMatches }
  match result with
  | .accepted _ _ =>
      if recordHashMatches then return
      notifyLocalSubstrateCommitWarning commit "local substrate commit record_hash mismatch"
        (.object [("expected_record_hash", .string (expectedRecordHash built)),
          ("response_record_hash", recordHash.orElse .null)])
  | _ => pure ()
  submit submission

/-- The promise that the middleware keeps among its pending commits. -/
def dispatchLocalSubstrateCommit (options : MiddlewareOptions ω) (built : BuiltRecord)
    (submission : Submission) : Effect (Middleware ω) Unit :=
  match options.localSubstrateCommit with
  | none => submit submission
  | some commit =>
      (do
        let result ← outside (tryLocalSubstrateCoordinator P (commitRequest commit built)
          (commitClientOptions commit options.now built))
        takeResult commit built submission result).catching fun error => do
          notifyLocalSubstrateCommitWarning commit "local substrate commit failed unexpectedly"
            (.string error)
          submit submission

/-- The first part of `commitRecord`: the bookkeeping, and the observer of records. -/
def mirrorRecord (options : MiddlewareOptions ω) (built : BuiltRecord) (sidecar : Option JsValue) :
    Effect (Middleware ω) Unit := do
  Effect.modify fun s =>
    if options.autoChain then { s with
      lastRecordHashByContext := s.lastRecordHashByContext.set built.contextId built.recordHashHex }
    else s
  match options.onRecord with
  | none => pure ()
  | some onRecord =>
      (do
        match ← outside (onRecord built.signed sidecar) with
        | .done => pure ()
        | .rejected _ => consoleWarn "atrib: onRecord observer rejected").catching fun _ =>
        consoleWarn "atrib: onRecord observer threw"

def submission (built : BuiltRecord) (sidecar : Option JsValue) : Submission where
  record := built.signed
  priority := if built.eventType = EVENT_TYPE_TRANSACTION_URI then .high else .normal
  sidecar := sidecar

/-- `writeOutboundContext` is given by how it comes out; without a result to write to it is
not called. It throws where the result is frozen. -/
def commitRecord (options : MiddlewareOptions ω) (built : BuiltRecord)
    (writeOutboundContext : Except String Unit) (sidecar : Option JsValue) :
    Effect (Middleware ω) Unit := do
  mirrorRecord options built sidecar
  Effect.lift writeOutboundContext
  dispatchLocalSubstrateCommit P options built (submission built sidecar)
  Effect.modify fun s => { s with
    parentRecordHashSeedConsumed := s.parentRecordHashSeedConsumed || built.parentRecordHashSeeded }

end

/-! ## The coordinator in the process -/

structure CreateInProcessLocalSubstrateCoordinatorOptions where
  /-- The key is in another process, and `signer.signRecord` signs. -/
  signer : Bool := false
  supportedHarnessClasses : List String := ["startup-spawn"]
  /-- `logSubmission` is not `disabled`. -/
  logSubmission : Bool := true
  onRecord : Bool := true
  /-- What `publicKeyReady` comes to. -/
  publicKey : Except String String

inductive Phase where
  /-- waits for `publicKeyReady` -/
  | awaitingKey
  /-- waits for the signature -/
  | signing
  | settled (outcome : Except String JsValue)

structure Call where
  request : JsValue
  phase : Phase

/-- A record with the call that has handed it on. -/
structure Handed where
  call : ℕ
  record : JsValue
  priority : Priority

structure Coordinator where
  calls : List Call := []
  /-- what its queue has been given -/
  queue : List Handed := []
  /-- what `onRecord` has been given, with the calls -/
  mirrored : List (ℕ × JsValue) := []
  activeContexts : List String := []
  destroyed : Bool := false

/-- `health` is what `health().report` comes to, and `aborted` whether the caller has given
the call up. -/
inductive CoordinatorMove where
  | call (request : JsValue) (aborted : Bool) (health : Except String JsValue)
  | keyReady (index : ℕ) (aborted : Bool) (health : Except String JsValue)
  | signed (index : ℕ) (result : Except String JsValue) (health : Except String JsValue)
  | destroy

def rejectedLocalSubstrateResponse (request : JsValue) (rejectionReason : String)
    (healthReport : JsValue) : JsValue :=
  .object [
    ("schema", .string LOCAL_SUBSTRATE_RESPONSE_SCHEMA),
    ("operation", request.member "operation"), ("status", .string "rejected"),
    ("rejection_reason", .string rejectionReason), ("health_report", healthReport)]

def acceptedLocalSubstrateResponse (request : JsValue) (recordHash receiptId : String)
    (healthReport : JsValue) : JsValue :=
  .object [
    ("schema", .string LOCAL_SUBSTRATE_RESPONSE_SCHEMA),
    ("operation", request.member "operation"), ("status", .string "accepted"),
    ("record_hash", .string recordHash), ("receipt_id", .string receiptId),
    ("health_report", healthReport)]

/-- `request.mode === 'shadow_probe'` -/
def isShadowProbe (request : JsValue) : Bool :=
  (request.member "mode").strictEq (.string "shadow_probe")

/-- `request.producer.harness_class`, which a valid request has. -/
def harnessClass (request : JsValue) : String :=
  ((request.member "producer").member "harness_class").string?.getD ""

namespace Coordinator

variable (P : Platform) (options : CreateInProcessLocalSubstrateCoordinatorOptions)

def rejects (request : JsValue) (reason : String) (health : Except String JsValue) : Phase :=
  .settled (health.map (rejectedLocalSubstrateResponse request reason))

def callAborted : Phase := .settled (.error "local substrate coordinator call aborted")

/-- The transport up to its first `await`. -/
def receive (s : Coordinator) (request : JsValue) (aborted : Bool)
    (health : Except String JsValue) : Phase :=
  if aborted then callAborted
  else
    match validateLocalSubstrateRequest P request {}, health with
    | .error error, _ => .settled (.error error)
    | .ok (issue :: issues), _ =>
        .settled (.error ("invalid local substrate coordinator request: " ++
          "; ".intercalate ((issue :: issues).map fun issue => issue.path ++ " " ++ issue.message)))
    | .ok [], .error error => .settled (.error error)
    | .ok [], .ok _ =>
        if s.destroyed then rejects request "coordinator destroyed" health
        else if !options.supportedHarnessClasses.contains (harnessClass request) then
          rejects request ("unsupported harness class: " ++ harnessClass request) health
        else if !isOneOf LOCAL_SUBSTRATE_OPERATIONS (request.member "operation") then
          rejects request ("unsupported operation for in-process coordinator: " ++
            (request.member "operation").string?.getD "") health
        else .awaitingKey

/-- The transport from its first `await` to its second. -/
def resume (s : Coordinator) (request : JsValue) (aborted : Bool)
    (health : Except String JsValue) : Phase :=
  match options.publicKey with
  | .error error => .settled (.error error)
  | .ok publicKeyB64 =>
      if aborted then callAborted
      else if s.destroyed then rejects request "coordinator destroyed" health
      else if !((request.member "record_body").member "creator_key").strictEq
          (.string publicKeyB64) then
        rejects request "record_body.creator_key does not match coordinator signer" health
      else .signing

def settle (s : Coordinator) (index : ℕ) (request : JsValue) (phase : Phase) : Coordinator :=
  { s with calls := s.calls.set index ⟨request, phase⟩ }

/-- The rest of the transport, where the record is signed. `onRecord` may throw or reject,
and both are caught. -/
def finish (s : Coordinator) (index : ℕ) (request signed : JsValue)
    (health : Except String JsValue) : Coordinator :=
  match recordHashRef P signed, encodeToken P signed with
  | .error error, _ | .ok _, .error error => s.settle index request (.settled (.error error))
  | .ok recordHash, .ok receiptId =>
      let contextId := ((request.member "record_body").member "context_id").string?.getD ""
      let activeContexts :=
        if s.activeContexts.contains contextId then s.activeContexts
        else s.activeContexts ++ [contextId]
      let shadowProbe := isShadowProbe request
      -- reading the event type is in the `try` of the submission
      let handed := (signed.get "event_type").toOption.map fun eventType =>
        let high := eventType.strictEq (.string EVENT_TYPE_TRANSACTION_URI)
        Handed.mk index signed (if high then .high else .normal)
      let outcome := health.map (acceptedLocalSubstrateResponse request recordHash receiptId)
      { s with
        activeContexts
        mirrored :=
          if !shadowProbe && options.onRecord then s.mirrored ++ [(index, signed)] else s.mirrored
        queue :=
          if !shadowProbe && options.logSubmission then s.queue ++ handed.toList else s.queue
        calls := s.calls.set index ⟨request, .settled outcome⟩ }

/-- What becomes of a signature. -/
def takeSignature (s : Coordinator) (index : ℕ) (request : JsValue)
    (result health : Except String JsValue) : Coordinator :=
  match result with
  | .error reason =>
      s.settle index request
        (if options.signer then rejects request ("signer refused: " ++ reason) health
         else .settled (.error reason))
  | .ok signed => s.finish P options index request signed health

def step (s : Coordinator) : CoordinatorMove → Coordinator
  | .call request aborted health =>
      { s with calls := s.calls ++ [⟨request, s.receive P options request aborted health⟩] }
  | .keyReady index aborted health =>
      match s.calls[index]? with
      | some ⟨request, .awaitingKey⟩ =>
          s.settle index request (s.resume options request aborted health)
      | _ => s
  | .signed index result health =>
      match s.calls[index]? with
      | some ⟨request, .signing⟩ => s.takeSignature P options index request result health
      | _ => s
  | .destroy => { s with destroyed := true }

end Coordinator

end Atrib.LocalSubstrate
