import Atrib.Mcp.AutoChain
import Atrib.Mcp.Context

/-!
# The wrapped handler of tool calls

`buildSignedRecord`, `commitRecord`, `makeWrappedHandler` and `destroy` of
`packages/mcp/src/middleware.ts`. A call of the wrapped handler goes through
phases, one for each thing it waits for: the public key, the resolver of
references, the signature, the upstream handler. Between two of them it runs
without interruption, and the moves of the system are these pieces, in any order
over the calls, and `destroy`.

What the host's callbacks, the clock, the random source and the signer's process
answer comes with the moves. A callback that throws is caught where the source
catches it; what the source leaves to the `try` around it ends the attribution
of the call, in `abandon`.

The fields `upstream`, `receipt`, `given` and `unsigned` of a call and the fields
`commits` and `signedWith` of the server are not in the program. They list what
the upstream handler was called with, what it gave, which records have been
committed, and the keys that have been signed with.
-/

namespace Atrib.Middleware

open Lib (InsertionMap JsNumber JsValue sortBy)
open LocalSubstrate (encodeToken)

inductive CommitmentScheme where
  | omit
  | plainSha256
  | saltedSha256
deriving DecidableEq

inductive ToolNameDisclosure where
  | omit
  | verbatim
  | hashed
deriving DecidableEq

structure DisclosureOptions where
  tool_name : ToolNameDisclosure := .omit
  args : CommitmentScheme := .omit
  result : CommitmentScheme := .omit

def VERIFIABLE_ACTION_DISCLOSURE : DisclosureOptions where
  tool_name := .hashed
  args := .saltedSha256
  result := .saltedSha256

/-- The options of a middleware that is not in pass-through mode. -/
structure AtribOptions extends AutoChain.AtribOptions where
  /-- The pinned key of a signer in another process, which signs in place of `creatorKey`. -/
  signer : Option String := none
  creatorKey : Bytes := []
  length_creatorKey : signer = none → creatorKey.length = 32
  autoChain : Bool := false
  /-- normalized -/
  serverUrl : String := ""
  transactionTools : List String := []
  disclosure : Option DisclosureOptions := none
  /-- `evidenceMode` is `verifiable-action`. -/
  verifiableAction : Bool := false
  /-- There is a `preCallTransform`. -/
  preCallTransform : Bool := false
  /-- `buildMcpOAuthEvidenceFromExtra` and `buildX401EvidenceFromExtra`, with their options. -/
  oauthEvidence : JsValue → Except String (Option JsValue) := fun _ => .ok none
  x401Evidence : JsValue → Except String (Option JsValue) := fun _ => .ok none
  /-- The block of `applyAttributionReceipt` for a request's `_meta`, if there is to be one. -/
  attributionReceipt : JsValue → JsValue → Option JsValue := fun _ _ => none

/-- `crypto.getRandomValues(new Uint8Array(16))` -/
abbrev Random16 := { bytes : Bytes // bytes.length = 16 }

/-! ## The state -/

/-- What the upstream handler resolves to, and whether its `_meta` can be written. -/
structure HandlerResult where
  value : JsValue
  metaWritable : Bool := true

structure Thrown where
  name : String
  message : String
deriving DecidableEq

structure BuiltRecord extends LocalSubstrate.BuiltRecord where
  sessionToken : Option String := none
  inboundTraceparent : Option String := none

/-- Why a record is built, and what is left to do if it is not. -/
inductive Job where
  | preCall
  | postCall (result : HandlerResult)
  | outcome (result : HandlerResult) (request : BuiltRecord)
  | failure (error : Thrown) (request : BuiltRecord)

/-- What building a record has read before it waits for the resolver of references. -/
structure Draft where
  contextId : String
  sessionToken : Option String
  inboundTraceparent : Option String
  chainRoot : String
  eventType : String
  contentId : String
  toolName : JsValue
  parentRecordHashSeeded : Bool
  priorRecordHashHex : Option String

inductive Phase where
  | awaitingKey (job : Job)
  | resolving (job : Job) (draft : Draft)
  /-- `signature` is what `signRecord` comes to, where the key is in this process. -/
  | signing (job : Job) (draft : Draft) (members : List (String × JsValue))
      (signature : Except String String)
  /-- The upstream handler runs. -/
  | running (preBuilt : Option BuiltRecord)
  | answered (answer : Except Thrown JsValue)

inductive Role where
  | plain
  | request
  | outcome
deriving DecidableEq

/-- A record that has been committed. `queued` says that it has reached the queue, and
`privateKey` is the key as it was then. -/
structure Commit where
  call : ℕ
  role : Role
  built : BuiltRecord
  queued : Bool
  privateKey : Bytes

/-- A call of the upstream handler: its arguments, the record whose receipt they carry, and
what had been committed before. -/
structure UpstreamCall where
  arguments : JsValue
  receipt : Option BuiltRecord
  committed : List Commit

structure Call where
  params : JsValue
  extra : JsValue
  phase : Phase
  upstream : List UpstreamCall := []
  receipt : Option BuiltRecord := none
  given : Option (Except Thrown HandlerResult) := none
  /-- A record of the call could not be built. -/
  unsigned : Bool := false

structure Server where
  privateKey : Bytes
  destroyed : Bool := false
  stableContextId : Option String := none
  lastRecordHashByContext : InsertionMap String String := ∅
  parentRecordHashSeedConsumed : Bool := false
  calls : List Call := []
  commits : List Commit := []
  signedWith : List Bytes := []

/-! ## What comes from outside -/

structure BuildInput where
  /-- What `contextIdResolver` returns, if there is one. -/
  contextIdResolver : Except String JsValue
  random : Random16

/-- `references` are those that the callback and the detection give and the resolver keeps. -/
structure SignInput where
  references : List String
  argsSalt : Bytes
  resultSalt : Bytes
  now : ℕ

/-- What `preCallTransform` does to the arguments in place, and what it returns that is not
the arguments. -/
structure Transform where
  inPlace : Option JsValue := none
  result : Except String (Option JsValue)

structure SignatureInput where
  /-- The answer of the signer's process, and the clock when it is checked. -/
  answer : Except String String
  nowMs : JsNumber
  /-- `structuredClone(args)` -/
  cloned : Except String Unit := .ok ()
  transform : Transform

inductive Move where
  | call (params extra : JsValue)
  | keyReady (index : ℕ) (input : BuildInput)
  | resolved (index : ℕ) (input : SignInput)
  | signatureReady (index : ℕ) (input : SignatureInput)
  | handlerReturns (index : ℕ) (result : HandlerResult)
  | handlerThrows (index : ℕ) (error : Thrown)
  | destroy

/-! ## Objects -/

def toolNameOf (params : JsValue) : JsValue := (params.member "name").orElse (.string "")

def argumentsOf (params : JsValue) : JsValue := (params.member "arguments").orElse (.object [])

namespace HandlerResult

def isObject (result : HandlerResult) : Bool := LocalSubstrate.isObject result.value

/-- `resultObj` -/
def object (result : HandlerResult) : JsValue :=
  if result.isObject then result.value
  else .object [("isError", .bool true), ("error", .object [
    ("name", .string "InvalidToolResult"),
    ("message", .string "Tool handler returned a non-object result")])]

def isError (result : HandlerResult) : Bool :=
  (result.object.member "isError").strictEq (.bool true)

end HandlerResult

namespace Job

def resultForHash : Job → Option JsValue
  | .preCall => none
  | .postCall result | .outcome result _ => some result.object
  | .failure error _ => some (.object [("isError", .bool true), ("error", .object [
      ("name", .string error.name), ("message", .string error.message)])])

def priorRecordHashHex : Job → Option String
  | .preCall | .postCall _ => none
  | .outcome _ request | .failure _ request => some request.recordHashHex

end Job

/-! ## Building a record -/

section

variable (P : Platform) (options : AtribOptions)

/-- `pairedVerifiableMode`, apart from there being a record of the request. -/
def AtribOptions.paired : Bool := options.verifiableAction && options.disclosure.isNone

def AtribOptions.effectiveDisclosure : DisclosureOptions :=
  options.disclosure.getD
    (if options.verifiableAction then VERIFIABLE_ACTION_DISCLOSURE else {})

def publicKeyB64 : String :=
  options.signer.getD (base64urlEncode (P.getPublicKey options.creatorKey))

def computeContentId (toolName : JsValue) : Except String String := do
  let input := options.serverUrl ++ ":" ++ (← JsValue.toText P.text toolName)
  return sha256Ref (P.hash.sha256 (utf8 input))

def isTransactionTool (toolName : JsValue) : Bool :=
  options.transactionTools.any fun tool => toolName.strictEq (.string tool)

def eventTypeOverride (job : Job) (toolName : JsValue) : Option String :=
  match job with
  | .preCall =>
      if options.paired && isTransactionTool options toolName then some EVENT_TYPE_TOOL_CALL_URI
      else none
  | _ => none

/-- The context that the request or the host gives. -/
def resolvedContext (params : JsValue) (contextIdResolver : Except String JsValue) :
    Option String :=
  (((readInboundContext params).bind (·.contextId)).or
      ((metaText (params.member "_meta") "traceparent").bind secondPart)).or
    ((contextIdResolver.toOption.bind (·.string?)).filter (isHex32 ·))

/-- The context of a record, and the one of the process from then on. -/
def contextOf (stableContextId : Option String) (params : JsValue) (input : BuildInput) :
    String × Option String :=
  match resolvedContext params input.contextIdResolver with
  | some contextId => (contextId, stableContextId)
  | none =>
      if options.autoChain && options.stableProcess then
        let contextId := (stableContextId.filter (· ≠ "")).getD (hexEncode input.random.val)
        (contextId, some contextId)
      else (hexEncode input.random.val, stableContextId)

/-- `buildSignedRecord` up to the resolver of references. -/
def draftOf (s : Server) (params : JsValue) (job : Job) (input : BuildInput) :
    Except String Draft := do
  let inbound := readInboundContext params
  let contextId := (contextOf options s.stableContextId params input).1
  let sessionToken :=
    ((inbound.bind (·.sessionToken)).filter (· ≠ "")).or
      ((metaText (params.member "_meta") "baggage").bind parseBaggageAtribSession)
  let toolName := toolNameOf params
  let contentId ← computeContentId P options toolName
  return {
    contextId
    sessionToken
    inboundTraceparent := ((params.member "_meta").member "traceparent").string?
    chainRoot := AutoChain.resolveChainRoot P.hash options.toAtribOptions contextId
      (job.priorRecordHashHex.or (inbound.map fun context => hexEncode context.recordHash))
      (if options.autoChain then s.lastRecordHashByContext.get? contextId else none)
    eventType := (eventTypeOverride options job toolName).getD
      (if isTransactionTool options toolName then EVENT_TYPE_TRANSACTION_URI
       else EVENT_TYPE_TOOL_CALL_URI)
    contentId
    toolName
    parentRecordHashSeeded :=
      options.parentRecordHashSeed.isSome && !s.parentRecordHashSeedConsumed
    priorRecordHashHex := job.priorRecordHashHex }

def informedByList (draft : Draft) (references : List String) : Option (List String) :=
  let merged := Lib.InsertionSet.ofList
    ((draft.priorRecordHashHex.map ("sha256:" ++ ·)).toList ++
      ((if draft.parentRecordHashSeeded then options.parentRecordHashSeed.toList else []) ++
        references))
  if merged = [] then none
  else some (sortBy (fun a b => compare (JsValue.codeUnits a) (JsValue.codeUnits b)) merged)

structure Commitment where
  hash : String
  salt : Option String

def createJsonCommitment (value : JsValue) (scheme : CommitmentScheme) (saltBytes : Bytes) :
    Except String Commitment := do
  match ← P.canonicalize value with
  | none => throw "atrib: commitment value must be JCS-canonicalizable JSON"
  | some json =>
      if scheme = .plainSha256 then return ⟨sha256Ref (P.hash.sha256 (utf8 json)), none⟩
      if saltBytes.length ≠ 16 then
        throw "atrib: commitment random source must return 16 bytes"
      return ⟨sha256Ref (P.hash.sha256 (saltBytes ++ utf8 json)), some (base64urlEncode saltBytes)⟩

/-- The members of a commitment; one that cannot be made is left out. -/
def commitmentMembers (hashKey saltKey : String) (value : Option JsValue)
    (scheme : CommitmentScheme) (saltBytes : Bytes) : List (String × JsValue) :=
  match value with
  | none => []
  | some value =>
      if scheme = .omit then []
      else
        match createJsonCommitment P value scheme saltBytes with
        | .error _ => []
        | .ok commitment =>
            (hashKey, .string commitment.hash) ::
              (commitment.salt.map fun salt => (saltKey, JsValue.string salt)).toList

def toolNameMembers (toolName : JsValue) : Except String (List (String × JsValue)) :=
  match options.effectiveDisclosure.tool_name with
  | .omit => return []
  | .verbatim => return [("tool_name", toolName)]
  | .hashed =>
      return [("tool_name",
        .string (sha256Ref (P.hash.sha256 (utf8 (← JsValue.toText P.text toolName)))))]

/-- The members of a record that may be left out. -/
def optionalMembers (draft : Draft) (params : JsValue) (resultForHash : Option JsValue)
    (input : SignInput) : Except String (List (String × JsValue)) := do
  let disclosure := options.effectiveDisclosure
  let toolName ← toolNameMembers P options draft.toolName
  return commitmentMembers P "args_hash" "args_salt" (some (argumentsOf params)) disclosure.args
      input.argsSalt ++
    ((informedByList options draft input.references).map fun hashes =>
      ("informed_by", JsValue.array (hashes.map .string))).toList ++
    commitmentMembers P "result_hash" "result_salt" resultForHash disclosure.result
      input.resultSalt ++
    (draft.sessionToken.filter (· ≠ "")).toList.map
      (fun token => ("session_token", JsValue.string token)) ++
    toolName

/-- The members that every record has. -/
def fixedMembers (draft : Draft) (now : ℕ) : List (String × JsValue) := [
  ("spec_version", .string "atrib/1.0"), ("content_id", .string draft.contentId),
  ("creator_key", .string (publicKeyB64 P options)), ("chain_root", .string draft.chainRoot),
  ("event_type", .string draft.eventType), ("context_id", .string draft.contextId),
  ("timestamp", .number (.finite now))]

def recordMembers (draft : Draft) (params : JsValue) (resultForHash : Option JsValue)
    (input : SignInput) : Except String (List (String × JsValue)) :=
  (fixedMembers P options draft input.now ++ ·) <$>
    optionalMembers P options draft params resultForHash input

/-- `signer.signRecord`: what the other process answers is verified. -/
def signerSignRecord (members : List (String × JsValue)) (answer : Except String String)
    (nowMs : JsNumber) : Except String JsValue := do
  if ((JsValue.object members).member "event_type").strictEq
      (.string EVENT_TYPE_TRANSACTION_URI) then
    throw "atrib: the signer socket does not sign transaction records"
  let signed := withSignature members (← answer)
  if !verifyRecord P signed nowMs then
    throw "atrib: signer returned a signature that does not verify under the pinned key"
  return signed

/-- The end of `buildSignedRecord`. -/
def builtRecord (draft : Draft) (members : List (String × JsValue)) (signed : JsValue) :
    Except String BuiltRecord := do
  let bytes ← LocalSubstrate.canonicalRecord P.toPlatform signed
  return {
    signed
    recordHashHex := hexEncode (P.hash.sha256 bytes)
    recordBody := .object members
    contextId := draft.contextId
    eventType := draft.eventType
    parentRecordHash :=
      if draft.parentRecordHashSeeded then options.parentRecordHashSeed else none
    parentRecordHashSeeded := draft.parentRecordHashSeeded
    sessionToken := draft.sessionToken
    inboundTraceparent := draft.inboundTraceparent }

/-- What is there when the signature is. -/
def signedRecord (draft : Draft) (members : List (String × JsValue))
    (signature : Except String String) (input : SignatureInput) : Except String BuiltRecord := do
  let signed ←
    if options.signer.isSome then signerSignRecord P members input.answer input.nowMs
    else withSignature members <$> signature
  builtRecord P options draft members signed

/-- `buildSidecar` throws where the evidence of a request cannot be read. -/
def sidecarEvidence (extra : JsValue) : Except String (List JsValue) := do
  let authorizationEvidence ← options.oauthEvidence extra
  let x401Evidence ← options.x401Evidence extra
  return authorizationEvidence.toList ++ x401Evidence.toList

/-- The result that the caller gets, with the record in its `_meta`. -/
def attributed (params : JsValue) (result : HandlerResult) (built : BuiltRecord) (token : String) :
    JsValue :=
  let written := outboundMeta (result.value.member "_meta") token built.inboundTraceparent
    built.sessionToken
  let written :=
    match options.attributionReceipt (params.member "_meta") built.signed with
    | some block => withMember written "dev.atrib/attribution" block
    | none => written
  withMember result.value "_meta" written

/-! ## The moves -/

namespace Server

variable (s : Server)

def setCall (index : ℕ) (call : Call) : Server := { s with calls := s.calls.set index call }

def answer (index : ℕ) (call : Call) (answer : Except Thrown JsValue) : Server :=
  s.setCall index { call with phase := .answered answer }

/-- `handler(request, extra)` -/
def callUpstream (index : ℕ) (call : Call) (preBuilt : Option BuiltRecord) : Server :=
  s.setCall index { call with
    phase := .running preBuilt
    upstream := call.upstream ++ [⟨call.params.member "arguments", call.receipt, s.commits⟩] }

/-- A record was not built, or not committed: the call goes on without it. -/
def abandon (index : ℕ) (call : Call) : Job → Server
  | .preCall => s.callUpstream index call none
  | .postCall result | .outcome result _ => s.answer index call (.ok result.value)
  | .failure error _ => s.answer index call (.error error)

/-- `commitRecord`, where writing to the result throws or not. The observer of records has
seen the record before. -/
def commitRecord (index : ℕ) (role : Role) (built : BuiltRecord) (written : Bool) : Server :=
  { s with
    lastRecordHashByContext :=
      if options.autoChain then s.lastRecordHashByContext.set built.contextId built.recordHashHex
      else s.lastRecordHashByContext
    commits :=
      if options.onRecord || written then
        s.commits ++ [⟨index, role, built, written, s.privateKey⟩]
      else s.commits
    parentRecordHashSeedConsumed :=
      s.parentRecordHashSeedConsumed || written && built.parentRecordHashSeeded }

/-- A record is committed with a result, which may be no object. -/
def commitResult (index : ℕ) (call : Call) (role : Role) (built : BuiltRecord)
    (result : HandlerResult) : Server :=
  if !result.isObject then
    (s.commitRecord options index role built true).answer index call (.ok result.value)
  else
    match result.metaWritable, encodeToken P.toPlatform built.signed with
    | true, .ok token =>
        (s.commitRecord options index role built true).answer index call
          (.ok (attributed options call.params result built token))
    | _, _ => (s.commitRecord options index role built false).answer index call (.ok result.value)

/-- `preCallTransform` has been called: the arguments as they are then, and whether they may
carry the receipt. Without arguments it has changed an object of its own. -/
def afterTransform (call : Call) (built : BuiltRecord) (transform : Transform) : Call :=
  let inPlace := if (call.params.member "arguments").isNullish then none else transform.inPlace
  let returned := transform.result.toOption.join
  { call with
    params := ((inPlace.toList ++ returned.toList).foldl (withMember · "arguments") call.params)
    receipt := (returned.or inPlace).map fun _ => built }

/-- The rest of the attribution before the call, where the request's record is built. -/
def finishPreCall (index : ℕ) (call : Call) (built : BuiltRecord) (input : SignatureInput) :
    Server :=
  match input.cloned, encodeToken P.toPlatform built.signed with
  | .ok _, .ok _ =>
      let call := afterTransform call built input.transform
      match input.transform.result, sidecarEvidence options call.extra with
      | .error _, _ => s.callUpstream index call none
      | .ok _, evidence =>
          if !options.paired then s.callUpstream index call (some built)
          else
            match evidence with
            | .error _ => s.callUpstream index call none
            | .ok _ =>
                (s.commitRecord options index .request built true).callUpstream index call
                  (some built)
  | _, _ => s.callUpstream index call none

/-- The rest of a call whose record is built. -/
def finish (index : ℕ) (call : Call) (job : Job) (built : BuiltRecord) (input : SignatureInput) :
    Server :=
  match job with
  | .preCall => s.finishPreCall P options index call built input
  | .postCall result => s.commitResult P options index call .plain built result
  | .outcome result _ => s.commitResult P options index call .outcome built result
  | .failure error _ =>
      match sidecarEvidence options call.extra with
      | .error _ => s.answer index call (.error error)
      | .ok _ => (s.commitRecord options index .outcome built true).answer index call (.error error)

/-- A call arrives. -/
def receive (params extra : JsValue) : Server :=
  if options.preCallTransform && !s.destroyed then
    { s with calls := s.calls ++ [{ params, extra, phase := .awaitingKey .preCall }] }
  else
    let call : Call := { params, extra, phase := .running none }
    ({ s with calls := s.calls ++ [call] } : Server).callUpstream s.calls.length call none

def keyReady (index : ℕ) (call : Call) (job : Job) (input : BuildInput) : Server :=
  let s' := { s with stableContextId := (contextOf options s.stableContextId call.params input).2 }
  match draftOf P options s call.params job input with
  | .error _ => s'.abandon index { call with unsigned := true } job
  | .ok draft => s'.setCall index { call with phase := .resolving job draft }

/-- The references are there, and the signature is asked for. With the key in this process it
is made with the key as it is now. -/
def resolved (index : ℕ) (call : Call) (job : Job) (draft : Draft) (input : SignInput) : Server :=
  match recordMembers P options draft call.params job.resultForHash input with
  | .error _ => s.abandon index { call with unsigned := true } job
  | .ok members =>
      { s with signedWith :=
          if options.signer.isSome then s.signedWith else s.signedWith ++ [s.privateKey] }.setCall
        index { call with
          phase := .signing job draft members
            (signatureOf P (withSignature members "") s.privateKey) }

def signatureReady (index : ℕ) (call : Call) (job : Job) (draft : Draft)
    (members : List (String × JsValue)) (signature : Except String String)
    (input : SignatureInput) : Server :=
  match signedRecord P options draft members signature input with
  | .error _ => s.abandon index { call with unsigned := true } job
  | .ok built => s.finish P options index call job built input

/-- The handler has returned. -/
def handlerReturns (index : ℕ) (call : Call) (preBuilt : Option BuiltRecord)
    (result : HandlerResult) : Server :=
  let call := { call with given := some (.ok result) }
  let paired := options.paired && preBuilt.isSome
  if s.destroyed then s.answer index call (.ok result.value)
  else if (result.isError || !result.isObject) && !paired then
    s.answer index call (.ok result.value)
  else
    match sidecarEvidence options call.extra, preBuilt with
    | .error _, _ => s.answer index call (.ok result.value)
    | .ok _, none => s.setCall index { call with phase := .awaitingKey (.postCall result) }
    | .ok _, some built =>
        if paired then
          s.setCall index { call with phase := .awaitingKey (.outcome result built) }
        else s.commitResult P options index call .plain built result

/-- The handler has thrown. -/
def handlerThrows (index : ℕ) (call : Call) (preBuilt : Option BuiltRecord) (error : Thrown) :
    Server :=
  let call := { call with given := some (.error error) }
  match preBuilt with
  | some built =>
      if options.paired && !s.destroyed then
        s.setCall index { call with phase := .awaitingKey (.failure error built) }
      else s.answer index call (.error error)
  | none => s.answer index call (.error error)

/-- `zeroize(privateKey)` -/
def destroy : Server :=
  if s.destroyed then s
  else { s with privateKey := List.replicate s.privateKey.length 0, destroyed := true }

def step : Move → Server
  | .call params extra => s.receive options params extra
  | .keyReady index input =>
      match s.calls[index]? with
      | none => s
      | some call =>
          match call.phase with
          | .awaitingKey job => s.keyReady P options index call job input
          | _ => s
  | .resolved index input =>
      match s.calls[index]? with
      | none => s
      | some call =>
          match call.phase with
          | .resolving job draft => s.resolved P options index call job draft input
          | _ => s
  | .signatureReady index input =>
      match s.calls[index]? with
      | none => s
      | some call =>
          match call.phase with
          | .signing job draft members signature =>
              s.signatureReady P options index call job draft members signature input
          | _ => s
  | .handlerReturns index result =>
      match s.calls[index]? with
      | none => s
      | some call =>
          match call.phase with
          | .running preBuilt => s.handlerReturns P options index call preBuilt result
          | _ => s
  | .handlerThrows index error =>
      match s.calls[index]? with
      | none => s
      | some call =>
          match call.phase with
          | .running preBuilt => s.handlerThrows options index call preBuilt error
          | _ => s
  | .destroy => s.destroy

end Server

/-- The middleware at its start. The records of `autoChainSeed` are hashed by a codec. -/
def atrib (codec : RecordCodec) : Server :=
  let newest := AutoChain.newestByContext (if options.autoChain then options.autoChainSeed else [])
  { privateKey := options.creatorKey
    stableContextId := if options.stableProcess then AutoChain.newestContext newest else none
    lastRecordHashByContext :=
      newest.mapVal fun _ record => AutoChain.recordHashHex P.hash codec record }

end

end Atrib.Middleware
