import Atrib.Verify.AnchorEvidence

/-!
# Identity resolution

The nine steps of `packages/verify/src/resolve-identity.ts` over the checks of
`AnchorEvidence`. Steps 6 and 8 come first and stop the query; steps 1 to 4 look
at the current anchor, step 7 at the lookup proof, step 5 at the chain back to
the anchor of the last consultation, and step 9 at revocations.

Every answer is arbitrary, and the other side may remember what it was asked. A
member that is read outside a `try` throws here as it does there.
-/

namespace Atrib.Verify

open Lib (Effect JsValue JsNumber)

structure VerifyLookupProofInput where
  vrfPublicKey : Bytes
  rootHash : Bytes
  currentEpoch : JsNumber
  label : String
  proof : Bytes

structure VerifyAuditProofInput where
  rootHashes : List Bytes
  proof : Bytes

structure ResolveIdentityOptions (σ : Type) where
  directoryEndpoint : Option String := none
  recordTimestamp : Option ℚ := none
  recordLogIndex : Option ℚ := none
  revocations : Option RevocationRegistry := none
  revocationsVerified : Bool := false
  directoryVrfPublicKey : Option Bytes := none
  verifyLookupProof : Option (VerifyLookupProofInput → Except String Bool) := none
  directoryOperatorKey : Option String := none
  logEndpoint : Option String := none
  fetchAnchorBody : Option (String → Effect σ JsValue) := none
  freshnessThresholdMs : Option ℚ := none
  verifyAuditProof : Option (VerifyAuditProofInput → Except String Bool) := none
  previousAnchorRecordHash : Option String := none
  logCheckpointKey : Option TrustedCheckpointKey := none
  trustedWitnessKeys : List TrustedCheckpointKey := []
  trustedWitnessEndpoints : List PinnedWitnessEndpoint := []
  fetchWitnessCosignatures : Option (ParsedCheckpointNote → Effect σ (List String)) := none
  witnessThreshold : Option ℚ := none
  witnessNowSeconds : Option ℚ := none
  witnessMaxAgeSeconds : Option ℚ := none
  witnessFutureSkewSeconds : Option ℚ := none

def DEFAULT_DIRECTORY : String := "https://directory.atrib.dev/v6"

inductive IdentityResolutionMethod where
  | directoryLookup
  | noAnchorAvailable
  | noClaimRegistered
  | rejected
deriving DecidableEq

structure KeyRevocationStatus where
  reason : RevocationReason
  revokedAtLogIndex : ℕ
  sinceRevocation : Option Bool
  orderVerifiable : Bool
  registryVerified : Bool

structure AnchorSurface where
  anchorRecordHash : String
  checkpointVersion : JsValue
  anchorTimestamp : JsValue
  anchorAgeMs : JsNumber
  anchorWitnessCount : Option ℕ := none
  anchorFreshnessOk : Option Bool

structure IdentityResolution where
  identityResolved : Option JsValue := none
  identityResolutionMethod : IdentityResolutionMethod
  capabilityEnvelope : JsValue := .null
  keyRevocationStatus : Option KeyRevocationStatus := none
  lookupProofValid : Option Bool := none
  appendOnlyConsistent : Option Bool := none
  anchor : Option AnchorSurface := none
  directoryCheckpointSignatureValid : Option Bool := none
  warnings : List String := []

variable {σ : Type} (P : Platform σ) (creatorKey : String) (opts : ResolveIdentityOptions σ)

def ResolveIdentityOptions.endpoint : String := opts.directoryEndpoint.getD DEFAULT_DIRECTORY

/-! ## Step 9 -/

def applyRevocationOnly : Resolve σ (Option KeyRevocationStatus) :=
  match opts.revocations with
  | none => do
      warn "step-9-revocation-not-checked: no revocation registry supplied"
      pure none
  | some revocations =>
      match revocations.get? creatorKey with
      | none => pure none
      | some entry => do
          let orderVerifiable := opts.recordLogIndex.any isSafeNonNegative
          warnIf (!orderVerifiable)
            ("step-9-revocation-order-unverifiable: record log index was not supplied; " ++
              "timestamps were not used")
          warnIf (!opts.revocationsVerified)
            ("step-9-revocation-registry-unverified: registry shape was supplied without " ++
              "signature and revoker-authorization assurance")
          pure (some {
            reason := entry.revocationReason
            revokedAtLogIndex := entry.logIndex
            sinceRevocation := (opts.recordLogIndex.filter isSafeNonNegative).map
              fun index : ℚ => decide (index ≥ (entry.logIndex : ℚ))
            orderVerifiable
            registryVerified := opts.revocationsVerified })

/-- A result is put together from its own fields, the revocation status and the
warnings at its end. -/
def conclude (result : IdentityResolution) : Resolve σ IdentityResolution := do
  let keyRevocationStatus ← applyRevocationOnly creatorKey opts
  fun session =>
    (.ok { result with keyRevocationStatus, warnings := session.warnings }, session)

/-! ## Step 6 -/

/-- The body of the lookup; nothing where the query has failed. The source also
keeps the members of a 404 body, which nothing reads. -/
def lookUp : Resolve σ (Option JsValue) :=
  Effect.catching (do
    let key ← Effect.lift (P.encodeURIComponent creatorKey)
    let res ← ask (P.fetchFn (withoutTrailingSlash opts.endpoint ++ "/lookup/" ++ key))
    if res.status = 404 then pure (some (.object [("found", .bool false)]))
    else if !res.isOk then do
      warn s!"step-6-directory-error: {res.status} {res.statusText}"
      pure none
    else do
      let body ← Effect.lift res.json
      pure (some body))
    fun message => do
      warn ("step-6-directory-error: " ++ message)
      pure none

/-- The check of step 8. -/
def isClaimFor (claim : JsValue) : Bool :=
  claim.isObject && (claim.member "creator_key").strictEq (.string creatorKey)

/-! ## Steps 1 and 2 -/

structure StepOneInputs (σ : Type) where
  logEndpoint : String
  directoryOperatorKey : String
  fetchAnchorBody : String → Effect σ JsValue

structure StepOneSuccess where
  anchor : AnchorSurface
  anchorCommitment : AnchorCommitment
  anchorCommitments : List JsValue
  directoryOrigin : String
  currentBody : JsValue

def fetchDirectoryOrigin : Resolve σ (Option String) :=
  Effect.catching (do
    let res ← ask (P.fetchFn (withoutTrailingSlash opts.endpoint ++ "/anchor"))
    if !res.isOk then do
      warn s!"step-1-origin-fetch-error: {res.status} {res.statusText}"
      pure none
    else do
      let body ← Effect.lift res.json
      let directoryOrigin ← Effect.lift (body.get "directory_origin")
      match directoryOrigin.string?.filter (· ≠ "") with
      | none => do
          warn "step-1-origin-missing: directory /anchor response missing directory_origin"
          pure none
      | some directoryOrigin => pure (some directoryOrigin))
    fun message => do
      warn ("step-1-origin-fetch-error: " ++ message)
      pure none

def deriveDirectoryContextId (origin : String) : String :=
  hexEncode ((P.hash.sha256 (utf8 origin)).take 16)

/-- The entries of the log, of whatever shape; nothing where there are none to be had. -/
def fetchEntries (logEndpoint contextHex : String) : Resolve σ (Option JsValue) :=
  Effect.catching (do
    let res ← ask (P.fetchFn (withoutTrailingSlash logEndpoint ++ "/by-context/" ++ contextHex))
    if res.status = 404 then do
      warn ("step-1-anchor-not-found: no directory_anchor records in the directory's " ++
        "context_id on the log")
      pure none
    else if !res.isOk then do
      warn s!"step-1-log-fetch-error: {res.status} {res.statusText}"
      pure none
    else do
      let body ← Effect.lift res.json
      let entries ← Effect.lift (body.get "entries")
      pure (some (entries.orElse (.array []))))
    fun message => do
      warn ("step-1-log-fetch-error: " ++ message)
      pure none

/-- Whether an entry is an anchor of the operator's, made before the record. -/
def isAnchorEntry (operatorKey : String) (timestamp : ℚ) (entry : JsValue) :
    Except String Bool := do
  let eventType ← entry.get "event_type"
  if eventType.strictEq (.string "directory_anchor") ∧
      (entry.member "creator_key").strictEq (.string operatorKey) then
    (entry.member "timestamp_ms").lessEq P.text (.number (.finite timestamp))
  else return false

def filterEntries (operatorKey : String) (timestamp : ℚ) :
    List JsValue → Except String (List JsValue)
  | [] => .ok []
  | entry :: entries => do
      let isAnchor ← isAnchorEntry P operatorKey timestamp entry
      let rest ← filterEntries operatorKey timestamp entries
      return if isAnchor then entry :: rest else rest

/-- `entries.filter(..)` -/
def matchingEntries (operatorKey : String) (timestamp : ℚ) (entries : JsValue) :
    Except String (List JsValue) :=
  match entries with
  | .array entries => filterEntries P operatorKey timestamp entries
  | _ => .error "entries.filter is not a function"

/-- A body of an anchor; a callback that throws has warned. -/
def fetchBody (fetchAnchorBody : String → Effect σ JsValue) (recordHash start : String) :
    Resolve σ (Option JsValue) :=
  Effect.catching (do
    let body ← ask (fetchAnchorBody recordHash)
    pure (some body))
    fun message => do
      warn (start ++ message)
      pure none

/-- The members the later checks need have the types they should have. -/
def isAnchorBody (body : JsValue) : Bool :=
  let metadata := body.member "metadata"
  ((metadata.member "directory_origin").string?.any (· ≠ "")) &&
    (metadata.member "directory_epoch").number?.isSome &&
    (metadata.member "directory_root").string?.isSome &&
    ((body.member "signature").string?.any (· ≠ ""))

def T : ℚ := opts.recordTimestamp.getD P.now

/-- What step 1 surfaces of the entry it has selected and of its body. -/
def anchorSurface (recordHash : String) (body timestamp : JsValue) (anchorAgeMs : JsNumber) :
    AnchorSurface where
  anchorRecordHash := recordHash
  checkpointVersion := (body.member "metadata").member "directory_epoch"
  anchorTimestamp := timestamp
  anchorAgeMs := anchorAgeMs
  anchorFreshnessOk := opts.freshnessThresholdMs.map fun threshold =>
    anchorAgeMs.le (.finite threshold)

/-- Step 1 from the selected entry on. -/
def surfaceAnchor (inputs : StepOneInputs σ) (directoryOrigin : String) (entries : List JsValue)
    (current : JsValue) (logIndex : ℕ) : Resolve σ (Option StepOneSuccess) := do
  let recordHash ← Effect.lift (textWithStart (current.member "record_hash"))
  let recordHash := withHashPrefix recordHash
  match ← fetchBody inputs.fetchAnchorBody recordHash "step-1-body-fetch-error: " with
  | none => pure none
  | some body =>
      if !body.truthy then do
        warn ("step-1-body-not-available: anchor " ++ recordHash ++
          " present on log but body not retrievable from directory or archive")
        pure none
      else if !isAnchorBody body then do
        warn "step-1-body-malformed: anchor body missing required metadata fields"
        pure none
      else if !(body.member "creator_key").strictEq (.string inputs.directoryOperatorKey) then do
        warn ("step-1-body-creator-mismatch: anchor body creator_key does not match " ++
          "directoryOperatorKey")
        pure none
      else do
        let timestamp ← Effect.lift ((current.member "timestamp_ms").toPrimitive P.text)
        let anchorAgeMs := (JsNumber.finite (T P opts)).sub (timestamp.primitiveToNumber P.text)
        let anchor := anchorSurface opts recordHash body (current.member "timestamp_ms") anchorAgeMs
        warnIf (anchor.anchorFreshnessOk = some false)
          ("step-2-anchor-stale: anchor_age_ms=" ++ P.text.toText anchorAgeMs ++
            " > threshold=" ++
            P.text.toText (JsNumber.finite (opts.freshnessThresholdMs.getD 0)))
        removeWarning "step-1-anchor-not-checked"
        pure (some ⟨anchor, ⟨current, recordHash, logIndex⟩, entries, directoryOrigin, body⟩)

/-- Step 1 from the entries on. -/
def selectAnchor (inputs : StepOneInputs σ) (directoryOrigin : String) (entries : JsValue) :
    Resolve σ (Option StepOneSuccess) := do
  let selected ← Effect.lift
    (matchingEntries P inputs.directoryOperatorKey (T P opts) entries)
  match selected with
  | [] => do
      warn ("step-1-anchor-not-found: no directory_anchor on the log matches the operator key " ++
        "+ timestamp window")
      pure none
  | current :: _ =>
      if !(current.member "context_id").strictEq
          (.string (deriveDirectoryContextId P directoryOrigin)) then do
        warn ("step-1-anchor-context-mismatch: log response entry does not match the queried " ++
          "directory context")
        pure none
      else
        match normalizeAnchorLogIndex current with
        | none => do
            warn ("step-1-anchor-index-malformed: directory_anchor omitted a non-negative " ++
              "log index")
            pure none
        | some logIndex =>
            surfaceAnchor P opts inputs directoryOrigin (entries.array?.getD []) current logIndex

def runStepOne (inputs : StepOneInputs σ) : Resolve σ (Option StepOneSuccess) := do
  match ← fetchDirectoryOrigin P opts with
  | none => pure none
  | some directoryOrigin =>
      match ← fetchEntries P inputs.logEndpoint (deriveDirectoryContextId P directoryOrigin) with
      | none => pure none
      | some entries => selectAnchor P opts inputs directoryOrigin entries

/-! ## Step 3 -/

/-- `appendWitnessCosignatures`: lines that are no cosignatures are left out. -/
def acceptedCosignatures : List String → Resolve σ (List String)
  | [] => pure []
  | line :: lines => do
      let normalized :=
        match line.toList.reverse with
        | '\n' :: chars => String.ofList chars.reverse
        | _ => line
      let accepted := (cosignatureText? normalized.toList).any fun payload =>
        (decodeCanonicalBase64 P payload 76).isOk
      warnIf (!accepted)
        "step-3-witness-cosignature-malformed: fetch callback returned an invalid line"
      let rest ← acceptedCosignatures lines
      pure (if accepted then normalized :: rest else rest)

def appendWitnessCosignatures (checkpointText : String) (lines : List String) :
    Resolve σ String := do
  let accepted ← acceptedCosignatures P lines
  pure (if accepted = [] then checkpointText
    else trimEnd checkpointText ++ "\n" ++ "\n".intercalate accepted ++ "\n")

def witnessOptions (operatorKey : TrustedCheckpointKey) (witnessKeys : List TrustedCheckpointKey) :
    VerifyWitnessThresholdOptions where
  operatorKey := operatorKey
  witnessKeys := witnessKeys
  requiredWitnesses := some (opts.witnessThreshold.getD 0)
  nowSeconds := opts.witnessNowSeconds
  maxAgeSeconds := opts.witnessMaxAgeSeconds
  futureSkewSeconds := opts.witnessFutureSkewSeconds

/-- `Math.floor(Date.now() / 1000)` -/
def currentSeconds : ℚ := (P.now / 1000).floor

/-- One warning for each refused line, up to 20. -/
def warnRejectedWitnesses (rejected : List WitnessCosignatureVerification) :
    Resolve σ Unit := do
  Effect.modify fun session =>
    (rejected.take 20).foldl (fun session witness =>
      let reason := witness.reason.getD "unknown failure"
      let code := String.ofList ((if startsWith reason "witness " then reason.toList.drop 8
        else reason.toList).map fun c => if c = ' ' then '-' else c)
      session.warn ("step-3-witness-" ++ code ++ ": name=" ++ witness.name ++ ", key_id=" ++
        witness.keyId)) session
  warnIf (rejected.length > 20)
    s!"step-3-witness-rejections-truncated: omitted={rejected.length - 20}"

/-- The note whose witness lines count, and the keys they may be of; nothing
where the callback has thrown. -/
def acquireCosignatures (logCheckpointKey : TrustedCheckpointKey) (bundle : AnchorProofBundle)
    (checkpoint : ParsedCheckpointNote) :
    Resolve σ (Option (String × List TrustedCheckpointKey)) :=
  if opts.trustedWitnessEndpoints ≠ [] then do
    let (checkpointText, outcomes) ← fetchWitnessCosignaturesForCheckpoint P.hash P.ed P.buffers
      P.cosignatureUrl P.fetchFn (currentSeconds P) bundle.checkpoint
      opts.trustedWitnessEndpoints (witnessOptions opts logCheckpointKey [])
    Effect.modify fun session =>
      (outcomes.filter fun outcome => !outcome.valid).foldl (fun session outcome =>
        session.warn ("step-3-witness-endpoint-rejected: name=" ++ outcome.name ++ ", state=" ++
          outcome.state.text ++ ", reason=" ++
          (outcome.reason <|> outcome.transportReason).getD outcome.state.text)) session
    pure (some (checkpointText,
      opts.trustedWitnessEndpoints.map PinnedWitnessEndpoint.toTrustedCheckpointKey))
  else
    match opts.fetchWitnessCosignatures with
    | none => pure (some (bundle.checkpoint, opts.trustedWitnessKeys))
    | some fetchWitnessCosignatures => do
        let lines ← Effect.catching (do
          let lines ← ask (fetchWitnessCosignatures checkpoint)
          pure (some lines))
          fun message => do
            warn ("step-3-witness-fetch-error: " ++ message)
            pure none
        match lines with
        | none => pure none
        | some lines => do
            let checkpointText ← appendWitnessCosignatures P bundle.checkpoint lines
            pure (some (checkpointText, opts.trustedWitnessKeys))

/-- Step 3 once the anchor is known to be in the checkpoint. -/
def countWitnesses (logCheckpointKey : TrustedCheckpointKey) (bundle : AnchorProofBundle)
    (checkpoint : ParsedCheckpointNote) : Resolve σ (Option ℕ) := do
  match ← acquireCosignatures P opts logCheckpointKey bundle checkpoint with
  | none => do
      removeWarning "step-3-witness-not-checked"
      pure none
  | some (checkpointText, witnessKeys) =>
      match verifyCheckpointWitnessThreshold P.hash P.ed P.buffers (currentSeconds P)
          checkpointText (witnessOptions opts logCheckpointKey witnessKeys) with
      | .error message => do
          warn ("step-3-verification-error: " ++ message)
          removeWarning "step-3-witness-not-checked"
          pure none
      | .ok verification => do
          warnRejectedWitnesses (verification.witnesses.filter fun witness => !witness.valid)
          warnIf (!verification.thresholdMet)
            (s!"step-3-witness-insufficient: actual={verification.validWitnesses}, " ++
              s!"required={verification.requiredWitnesses}")
          removeWarning "step-3-witness-not-checked"
          pure (some verification.validWitnesses)

def runStepThree (logEndpoint : String) (commitment : AnchorCommitment) :
    Resolve σ (Option ℕ) :=
  match opts.logCheckpointKey with
  | none => do
      warn "step-3-log-checkpoint-key-not-configured: a caller-pinned log key is required"
      pure none
  | some logCheckpointKey => do
      match ← fetchAnchorProofBundle P logEndpoint commitment with
      | .unavailable reason => do
          warn ("step-3-proof-fetch-error: " ++ reason)
          pure none
      | .malformed => do
          warn "step-3-proof-malformed: log returned an invalid proof bundle"
          pure none
      | .bundle bundle =>
          match checkAnchorInclusion P logCheckpointKey commitment bundle with
          | .error failure => do
              warn ("step-3" ++ failure.text commitment)
              removeWarning "step-3-witness-not-checked"
              pure none
          | .ok checkpoint => countWitnesses P opts logCheckpointKey bundle checkpoint

/-! ## Step 7 -/

/-- The root and the epoch of the directory's own `/anchor`; nothing where the
query has failed. Its members are read outside the `try`. -/
def selfReportedAnchor : Resolve σ (Option (JsValue × JsNumber)) := do
  let response ← Effect.catching (do
    let res ← ask (P.fetchFn (withoutTrailingSlash opts.endpoint ++ "/anchor"))
    if !res.isOk then do
      warn s!"step-7-anchor-fetch-error: {res.status} {res.statusText}"
      pure none
    else do
      let body ← Effect.lift res.json
      pure (some body))
    fun message => do
      warn ("step-7-anchor-fetch-error: " ++ message)
      pure none
  match response with
  | none => pure none
  | some body => do
      let epoch ← Effect.lift (body.get "epoch")
      match epoch.number?, (body.member "root_hash").string? with
      | some epoch, some rootHash => pure (some (.string rootHash, epoch))
      | _, _ => do
          warn "step-7-anchor-malformed: anchor response missing epoch or root_hash"
          pure none

/-- The root and the proof as bytes. -/
def decodeLookup (rootHash : JsValue) (proof : String) : Except String (Bytes × Bytes) := do
  let rootHash ← hexToBytes P rootHash
  if rootHash.length ≠ 32 then
    throw s!"root_hash must be 32 bytes (got {rootHash.length})"
  let proof ← base64urlToBytes P (.string proof)
  return (rootHash, proof)

/-- Step 7 with its root and epoch. -/
def checkLookupProof (verifyLookupProof : VerifyLookupProofInput → Except String Bool)
    (vrfPublicKey : Bytes) (proof : String) (rootHash : JsValue) (currentEpoch : JsNumber) :
    Resolve σ StepOutcome :=
  match decodeLookup P rootHash proof with
  | .error message => do
      warn ("step-7-input-decode-error: " ++ message)
      pure .unavailable
  | .ok (rootHash, proof) =>
      match verifyLookupProof ⟨vrfPublicKey, rootHash, currentEpoch, creatorKey, proof⟩ with
      | .error message => do
          warn ("step-7-verify-threw: " ++ message)
          pure .unavailable
      | .ok true => do
          removeWarning "step-7-akd-proof-not-validated"
          pure .confirmed
      | .ok false => do
          warn ("step-7-akd-proof-invalid: AKD lookup proof did not verify against the " ++
            "directory's anchored root")
          pure .rejected

def runStepSeven (verifyLookupProof : VerifyLookupProofInput → Except String Bool)
    (vrfPublicKey : Bytes) (proof : JsValue) (logAnchoredBody : Option JsValue) :
    Resolve σ StepOutcome :=
  match proof.string?.filter (· ≠ "") with
  | none => do
      warn "step-7-proof-missing: directory lookup did not return a proof field"
      pure .unavailable
  | some proof =>
      match logAnchoredBody with
      | some body =>
          let metadata := body.member "metadata"
          checkLookupProof P creatorKey verifyLookupProof vrfPublicKey proof
            (metadata.member "directory_root")
            ((metadata.member "directory_epoch").number?.getD .nan)
      | none => do
          match ← selfReportedAnchor P opts with
          | none => pure .unavailable
          | some (rootHash, epoch) =>
              checkLookupProof P creatorKey verifyLookupProof vrfPublicKey proof rootHash epoch

/-! ## Step 5 -/

structure StepFiveInputs (σ : Type) where
  directoryOperatorKey : String
  directoryOrigin : String
  logEndpoint : String
  fetchAnchorBody : String → Effect σ JsValue
  verifyAuditProof : VerifyAuditProofInput → Except String Bool

/-- The map `commitmentsByHash`, with the last entry of a hash at the end. Of every
entry the hash is read, also of those that are left out. -/
def commitmentsByHash (operatorKey : String) (contextId : JsValue) :
    List JsValue → Except String (List (String × AnchorCommitment))
  | [] => .ok []
  | entry :: entries => do
      let recordHash ← textWithStart (entry.member "record_hash")
      let rest ← commitmentsByHash operatorKey contextId entries
      match normalizeAnchorRecordHash recordHash, normalizeAnchorLogIndex entry with
      | some recordHash, some logIndex =>
          if (entry.member "creator_key").strictEq (.string operatorKey) ∧
              (entry.member "context_id").strictEq contextId ∧
              (entry.member "event_type").strictEq (.string "directory_anchor") then
            return (recordHash, ⟨entry, recordHash, logIndex⟩) :: rest
          else return rest
      | _, _ => return rest

/-- `commitmentsByHash.get(recordHash)` -/
def commitmentOf (known : List (String × AnchorCommitment)) (recordHash : String) :
    Option AnchorCommitment := known.reverse.lookup recordHash

/-- An anchor on the walk. -/
structure WalkedAnchor where
  body : JsValue
  commitment : AnchorCommitment

def WalkedAnchor.epoch (anchor : WalkedAnchor) : JsValue :=
  (anchor.body.member "metadata").member "directory_epoch"

def WalkedAnchor.root (anchor : WalkedAnchor) : JsValue :=
  (anchor.body.member "metadata").member "directory_root"

/-- The commitment of the parent, or why the walk is over. -/
def parentCommitment (previousHash genesisRoot : String)
    (known : List (String × AnchorCommitment)) (seen : List String) (child : WalkedAnchor)
    (parentHash : Option String) : Except String AnchorCommitment :=
  match parentHash with
  | none => .error ("step-5-chain-parent-malformed: child=" ++ child.commitment.recordHash)
  | some parentHash =>
      if parentHash = genesisRoot then
        .error ("step-5-previous-anchor-not-ancestor: chain reached genesis before " ++
          previousHash)
      else if seen.contains parentHash then
        .error ("step-5-chain-cycle: repeated=" ++ parentHash)
      else
        match commitmentOf known parentHash with
        | none => .error ("step-5-chain-parent-not-in-log: child=" ++
            child.commitment.recordHash ++ ", parent=" ++ parentHash)
        | some parent =>
            if _ : parent.logIndex ≥ child.commitment.logIndex then
              .error (s!"step-5-chain-log-order-invalid: child={child.commitment.logIndex}, " ++
                s!"parent={parent.logIndex}")
            else .ok parent

theorem logIndex_of_parentCommitment {previousHash genesisRoot : String}
    {known : List (String × AnchorCommitment)} {seen : List String} {child : WalkedAnchor}
    {parentHash : Option String} {parent : AnchorCommitment}
    (h : parentCommitment previousHash genesisRoot known seen child parentHash = .ok parent) :
    parent.logIndex < child.commitment.logIndex := by
  unfold parentCommitment at h
  split at h
  · cases h
  · split at h
    · cases h
    split at h
    · cases h
    split at h
    · cases h
    split at h
    · cases h
    next hlt =>
      cases h
      omega

/-- Whether the epochs of a child and its parent are in order: not greater at the
parent, and with one root where they are the same. -/
def epochsInOrder (child parent : WalkedAnchor) : Except String Bool := do
  if ← child.epoch.lessThan P.text parent.epoch then return false
  else return !(parent.epoch.strictEq child.epoch && !parent.root.strictEq child.root)

/-- The checks of a parent's evidence, and its body. -/
def checkParent (inputs : StepFiveInputs σ) (child : WalkedAnchor) (parent : AnchorCommitment) :
    Resolve σ (StepOutcome × JsValue) := do
  match ← fetchBody inputs.fetchAnchorBody parent.recordHash
      "step-5-chain-body-fetch-error: " with
  | none => pure (.unavailable, .undefined)
  | some body =>
      if !body.truthy then do
        warn ("step-5-chain-body-not-available: anchor=" ++ parent.recordHash)
        pure (.unavailable, body)
      else do
        let bodyValid ← verifyAnchorBody P body inputs.directoryOperatorKey parent
          inputs.directoryOrigin "step-5-chain"
        if !bodyValid then pure (.rejected, body)
        else do
          let inclusion ← verifyAnchorLogInclusion P inputs.logEndpoint opts.logCheckpointKey parent
            "step-5-chain"
          if inclusion ≠ .confirmed then pure (inclusion, body)
          else do
            let inOrder ← Effect.lift (epochsInOrder P child ⟨body, parent⟩)
            if inOrder then pure (.confirmed, body)
            else do
              let childEpoch ← Effect.lift (child.epoch.toText P.text)
              let parentEpoch ← Effect.lift ((WalkedAnchor.mk body parent).epoch.toText P.text)
              warn ("step-5-chain-epoch-invalid: child=" ++ childEpoch ++ ", parent=" ++
                parentEpoch)
              pure (.rejected, body)

/-- The loop of step 5, down to the anchor it arrives at. The log indexes fall on
the way, so the loop ends whatever is answered. -/
def walkAnchors (inputs : StepFiveInputs σ) (previousHash genesisRoot : String)
    (known : List (String × AnchorCommitment)) (seen : List String) (child : WalkedAnchor) :
    Resolve σ (StepOutcome × WalkedAnchor) :=
  if child.commitment.recordHash = previousHash then pure (.confirmed, child)
  else do
    let chainRoot ← Effect.lift (textWithStart (child.body.member "chain_root"))
    match _ : parentCommitment previousHash genesisRoot known seen child
        (normalizeAnchorRecordHash chainRoot) with
    | .error warning => do
        warn warning
        pure (.rejected, child)
    | .ok parent => do
        let (outcome, body) ← checkParent P opts inputs child parent
        if outcome = .confirmed then
          walkAnchors inputs previousHash genesisRoot known (parent.recordHash :: seen)
            ⟨body, parent⟩
        else pure (outcome, child)
termination_by child.commitment.logIndex
decreasing_by exact logIndex_of_parentCommitment ‹_›

/-- What the directory answers to the request for an audit proof. -/
inductive AuditAnswer where
  | proof (text : String)
  | failed (outcome : StepOutcome)

def fetchAuditProof (fromEpoch toEpoch : JsValue) : Resolve σ AuditAnswer :=
  Effect.catching (do
    let fromText ← Effect.lift (fromEpoch.toText P.text)
    let toEpochText ← Effect.lift (toEpoch.toText P.text)
    let res ← ask (P.fetchFn (withoutTrailingSlash opts.endpoint ++ "/audit-proof?from=" ++
      fromText ++ "&to=" ++ toEpochText))
    if !res.isOk then do
      warn s!"step-5-audit-proof-fetch-error: {res.status} {res.statusText}"
      pure (.failed .unavailable)
    else do
      let body ← Effect.lift res.json
      let bodyFrom ← Effect.lift (body.get "from_epoch")
      let bodyTo := body.member "to_epoch"
      if !(bodyFrom.strictEq fromEpoch && bodyTo.strictEq toEpoch) then do
        let bodyFromText ← Effect.lift (bodyFrom.toText P.text)
        let bodyToText ← Effect.lift (bodyTo.toText P.text)
        warn ("step-5-audit-proof-range-mismatch: requested=" ++ fromText ++ ":" ++
          toEpochText ++ ", returned=" ++ bodyFromText ++ ":" ++ bodyToText)
        pure (.failed .rejected)
      else
        match (body.member "proof").string?.filter (· ≠ "") with
        | none => do
            warn "step-5-audit-proof-missing: directory /audit-proof response missing proof field"
            pure (.failed .rejected)
        | some proof => pure (.proof proof))
    fun message => do
      warn ("step-5-audit-proof-fetch-error: " ++ message)
      pure (.failed .unavailable)

/-- The roots of two anchors and the proof as bytes. -/
def decodeAudit (prior current : WalkedAnchor) (proof : String) :
    Except String VerifyAuditProofInput := do
  let priorRoot ← hexToBytes P prior.root
  let currentRoot ← hexToBytes P current.root
  if priorRoot.length ≠ 32 ∨ currentRoot.length ≠ 32 then
    throw "directory_root must be 32 bytes"
  let proof ← base64urlToBytes P (.string proof)
  return ⟨[priorRoot, currentRoot], proof⟩

/-- Step 5 with the proof. -/
def checkAuditProof (inputs : StepFiveInputs σ) (prior current : WalkedAnchor) (proof : String) :
    Resolve σ StepOutcome :=
  match decodeAudit P prior current proof with
  | .error message => do
      warn ("step-5-input-decode-error: " ++ message)
      pure .rejected
  | .ok input =>
      match inputs.verifyAuditProof input with
      | .error message => do
          warn ("step-5-verify-threw: " ++ message)
          pure .rejected
      | .ok true => do
          removeWarning "step-5-append-only-not-checked"
          pure .confirmed
      | .ok false => do
          warn ("step-5-audit-proof-invalid: audit proof did not verify against the prior + " ++
            "current anchored roots")
          pure .rejected

/-- Step 5 from the end of the walk on. -/
def compareEndpoints (inputs : StepFiveInputs σ) (prior current : WalkedAnchor) :
    Resolve σ StepOutcome := do
  let backwards ← Effect.lift (current.epoch.lessThan P.text prior.epoch)
  if backwards then do
    let fromText ← Effect.lift (prior.epoch.toText P.text)
    let toEpochText ← Effect.lift (current.epoch.toText P.text)
    warn ("step-5-invalid-epoch-range: prior=" ++ fromText ++ " > current=" ++ toEpochText)
    pure .rejected
  else if current.epoch.strictEq prior.epoch then
    if !prior.root.strictEq current.root then do
      let toEpochText ← Effect.lift (current.epoch.toText P.text)
      warn ("step-5-same-epoch-root-mismatch: epoch=" ++ toEpochText ++
        ", prior and current roots differ")
      pure .rejected
    else do
      removeWarning "step-5-append-only-not-checked"
      pure .confirmed
  else
    match ← fetchAuditProof P opts prior.epoch current.epoch with
    | .failed outcome => pure outcome
    | .proof proof => checkAuditProof P inputs prior current proof

/-- Step 5 for two different anchors. -/
def walkBack (inputs : StepFiveInputs σ) (previousHash : String) (anchorCommitments : List JsValue)
    (current : WalkedAnchor) : Resolve σ StepOutcome := do
  let known ← Effect.lift (commitmentsByHash inputs.directoryOperatorKey
    current.commitment.contextId anchorCommitments)
  if (commitmentOf known previousHash).isNone then do
    warn ("step-5-previous-anchor-not-visible: prior consulted anchor " ++ previousHash ++
      " is absent from the current log view")
    pure .rejected
  else do
    let inclusion ← verifyAnchorLogInclusion P inputs.logEndpoint opts.logCheckpointKey
      current.commitment "step-5-chain"
    if inclusion ≠ .confirmed then pure inclusion
    else do
      let genesisRoot := directoryAnchorGenesisRoot P
        (((current.body.member "context_id").string?).getD "")
      let (outcome, prior) ← walkAnchors P opts inputs previousHash genesisRoot known
        [current.commitment.recordHash] current
      if outcome = .confirmed then compareEndpoints P opts inputs prior current
      else pure outcome

def runStepFive (inputs : StepFiveInputs σ) (previousAnchorRecordHash : String)
    (anchorCommitments : List JsValue) (current : WalkedAnchor) : Resolve σ StepOutcome :=
  match normalizeAnchorRecordHash previousAnchorRecordHash with
  | none => do
      warn "step-5-previous-anchor-hash-malformed: expected sha256:<64-lowercase-hex>"
      pure .rejected
  | some previousHash =>
      match normalizeAnchorRecordHash current.commitment.recordHash with
      | none => do
          warn "step-5-current-anchor-hash-malformed: selected commitment is malformed"
          pure .rejected
      | some currentHash =>
          if previousHash = currentHash then do
            removeWarning "step-5-append-only-not-checked"
            pure .confirmed
          else
            walkBack P opts inputs previousHash anchorCommitments
              { current with commitment := { current.commitment with recordHash := currentHash } }

/-! ## The query -/

/-- `!!text` of a text that may be missing. -/
def present (text : Option String) : Option String := text.filter (· ≠ "")

/-- The options step 1 needs. -/
def stepOneInputs : Option (StepOneInputs σ) := do
  let logEndpoint ← present opts.logEndpoint
  let directoryOperatorKey ← present opts.directoryOperatorKey
  let fetchAnchorBody ← opts.fetchAnchorBody
  return ⟨logEndpoint, directoryOperatorKey, fetchAnchorBody⟩

/-- The options step 5 needs besides what step 1 has found. -/
def stepFiveInputs (found : StepOneSuccess) : Option (StepFiveInputs σ × String) := do
  let verifyAuditProof ← opts.verifyAuditProof
  let previousAnchorRecordHash ← present opts.previousAnchorRecordHash
  let inputs ← stepOneInputs opts
  return (⟨inputs.directoryOperatorKey, found.directoryOrigin, inputs.logEndpoint,
    inputs.fetchAnchorBody, verifyAuditProof⟩, previousAnchorRecordHash)

/-- `null` and `true`, as a result has them. -/
def StepOutcome.verdict : StepOutcome → Option Bool
  | .confirmed => some true
  | .unavailable => none
  | .rejected => some false

/-- Steps 7 and 5 and the result. -/
def concludeClaim (lookupBody claim : JsValue) (anchorDiscoveryAttempted : Bool)
    (found : Option StepOneSuccess) (anchor : Option AnchorSurface) :
    Resolve σ IdentityResolution := do
  let directorySignatureValid := found.map fun _ => true
  let lookup ← (match opts.verifyLookupProof, opts.directoryVrfPublicKey with
    | some verifyLookupProof, some vrfPublicKey =>
        runStepSeven P creatorKey opts verifyLookupProof vrfPublicKey (lookupBody.member "proof")
          (found.map (·.currentBody))
    | _, _ => pure .unavailable)
  if lookup = .rejected then
    conclude creatorKey opts {
      identityResolutionMethod := .rejected
      lookupProofValid := some false
      anchor := anchor
      directoryCheckpointSignatureValid := directorySignatureValid }
  else do
    let appendOnly ← (match found with
      | none => pure .unavailable
      | some found =>
          match stepFiveInputs opts found with
          | some (inputs, previousAnchorRecordHash) =>
              runStepFive P opts inputs previousAnchorRecordHash found.anchorCommitments
                ⟨found.currentBody, found.anchorCommitment⟩
          | none => do
              warnIf
                (opts.verifyAuditProof.isSome ∧ (present opts.previousAnchorRecordHash).isNone)
                ("step-5-previous-anchor-not-supplied: append-only verification requires " ++
                  "the prior consulted anchor hash")
              pure .unavailable)
    if appendOnly = .rejected then
      conclude creatorKey opts {
        identityResolutionMethod := .rejected
        lookupProofValid := lookup.verdict
        appendOnlyConsistent := some false
        anchor := anchor
        directoryCheckpointSignatureValid := directorySignatureValid }
    else
      conclude creatorKey opts {
        identityResolved := some claim
        identityResolutionMethod :=
          if anchorDiscoveryAttempted ∧ anchor.isNone then .noAnchorAvailable
          else .directoryLookup
        capabilityEnvelope := (claim.member "capabilities").orElse .null
        lookupProofValid := lookup.verdict
        appendOnlyConsistent := appendOnly.verdict
        anchor := anchor
        directoryCheckpointSignatureValid := directorySignatureValid }

/-- `typeof epoch === 'number' && epoch !== directory_epoch` -/
def epochMismatch (lookupBody body : JsValue) : Bool :=
  (lookupBody.member "epoch").number?.isSome &&
    !(lookupBody.member "epoch").strictEq ((body.member "metadata").member "directory_epoch")

/-- Step 4 and what follows, with an anchor. -/
def resolveAnchored (lookupBody claim : JsValue) (inputs : StepOneInputs σ)
    (found : StepOneSuccess) : Resolve σ IdentityResolution := do
  let signatureValid ← verifyAnchorBody P found.currentBody inputs.directoryOperatorKey
    found.anchorCommitment found.directoryOrigin "step-4"
  if !signatureValid then
    conclude creatorKey opts {
      identityResolutionMethod := .rejected
      anchor := some found.anchor
      directoryCheckpointSignatureValid := some false }
  else do
    removeWarning "step-4-checkpoint-signature-not-checked"
    if epochMismatch lookupBody found.currentBody then do
      let lookupEpoch ← Effect.lift ((lookupBody.member "epoch").toText P.text)
      let anchorEpoch ← Effect.lift
        (((found.currentBody.member "metadata").member "directory_epoch").toText P.text)
      warn ("step-6-lookup-epoch-mismatch: lookup=" ++ lookupEpoch ++ ", anchor=" ++ anchorEpoch)
      conclude creatorKey opts {
        identityResolutionMethod := .rejected
        anchor := some found.anchor
        directoryCheckpointSignatureValid := some true }
    else do
      let witnessCount ← runStepThree P opts inputs.logEndpoint found.anchorCommitment
      concludeClaim P creatorKey opts lookupBody claim true (some found)
        (some { found.anchor with anchorWitnessCount := witnessCount })

/-- The query from a parsed claim on. -/
def resolveClaim (lookupBody claim : JsValue) : Resolve σ IdentityResolution :=
  match stepOneInputs opts with
  | none => concludeClaim P creatorKey opts lookupBody claim false none none
  | some inputs => do
      match ← runStepOne P opts inputs with
      | none => concludeClaim P creatorKey opts lookupBody claim true none none
      | some found => resolveAnchored P creatorKey opts lookupBody claim inputs found

/-- The query with the body of the lookup. -/
def resolveLookup (lookupBody : JsValue) : Resolve σ IdentityResolution := do
  let found ← Effect.lift (lookupBody.get "found")
  if found.strictEq (.bool false) then
    conclude creatorKey opts { identityResolutionMethod := .noClaimRegistered }
  else
    let claim := lookupBody.member "claim"
    if !isClaimFor creatorKey claim then do
      warn ("step-8-claim-malformed: lookup returned but claim payload is missing or wrong " ++
        "creator_key")
      conclude creatorKey opts { identityResolutionMethod := .rejected }
    else resolveClaim P creatorKey opts lookupBody claim

def uncheckedWarnings : List String :=
  ["step-1-anchor-not-checked: anchor discovery and freshness did not complete",
    "step-3-witness-not-checked: checkpoint coverage and witness signatures did not complete",
    "step-4-checkpoint-signature-not-checked: directory checkpoint signature did not complete",
    "step-5-append-only-not-checked: append-only consistency verification did not complete",
    "step-7-akd-proof-not-validated: AKD lookup proof validation did not complete"]

/-- The query, from steps 6 and 8 on. -/
def resolveQuery : Resolve σ IdentityResolution := do
  match ← lookUp P creatorKey opts with
  | none => conclude creatorKey opts { identityResolutionMethod := .rejected }
  | some lookupBody => resolveLookup P creatorKey opts lookupBody

/-- The call, from a state of the other side. -/
def resolveIdentity : Effect σ IdentityResolution := fun world =>
  let (result, session) := resolveQuery P creatorKey opts ⟨world, uncheckedWarnings⟩
  (result, session.world)

end Atrib.Verify
