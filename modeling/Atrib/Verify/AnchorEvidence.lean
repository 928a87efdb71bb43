import Atrib.Mcp.Entry
import Atrib.Verify.Delegation
import Atrib.Verify.WitnessEndpoints

/-!
# Evidence for a directory anchor

The checks of `packages/verify/src/resolve-identity.ts` that steps 3, 4 and 5 of
an identity resolution make of one anchor: its body against the entry of the
log, with the operator's signature, and its inclusion in a signed checkpoint.

Bodies and entries are whatever a server answered, so they are values of the
language, and what the source reads of them outside a `try` may throw. JCS, the
platform and the other side are gathered in a `Platform`.
-/

namespace Atrib.Verify

open Lib (Effect JsValue JsNumber NumberText)

/-- What resolution is given from outside: the libraries, the language's texts of
numbers, the network and the clock. -/
structure Platform (σ : Type) where
  hash : Hash
  ed : Ed25519
  buffers : Buffers
  text : NumberText
  /-- `canonicalize`: a text, or `undefined`, or a throw. -/
  canonicalize : JsValue → Except String (Option String)
  encodeURIComponent : String → Except String String
  cosignatureUrl : CosignatureUrl
  fetchFn : String → Effect σ Response
  /-- `Date.now()` -/
  now : ℚ

variable {σ : Type} (P : Platform σ)

abbrev Resolve (σ α : Type) := Effect (Session σ) α

/-! ## Warnings and texts -/

/-- `text.startsWith(start)` -/
def startsWith (text start : String) : Bool := start.toList.isPrefixOf text.toList

/-- Take out the first warning that starts like this. -/
def removeWarning (start : String) : Resolve σ Unit :=
  Effect.modify fun session =>
    { session with warnings := session.warnings.eraseP fun warning => startsWith warning start }

theorem yields_removeWarning (start : String) :
    Effect.Yields (removeWarning (σ := σ) start) fun _ => True := Effect.Yields.modify _

/-- `url.replace(/\/$/, '')` -/
def withoutTrailingSlash (url : String) : String :=
  match url.toList.reverse with
  | '/' :: chars => String.ofList chars.reverse
  | _ => url

/-- `text.replace(/^sha256:/, '')` -/
def withoutHashStart (text : String) : String :=
  if hasHashPrefix text then afterHashPrefix text else text

def withHashPrefix (text : String) : String :=
  if hasHashPrefix text then text else "sha256:" ++ text

def normalizeAnchorRecordHash (recordHash : String) : Option String :=
  let normalized := withHashPrefix recordHash
  if isSha256Ref normalized then some normalized else none

/-- A value of which `startsWith` is called. -/
def textWithStart : JsValue → Except String String
  | .string text => .ok text
  | .undefined => .error "Cannot read properties of undefined (reading 'startsWith')"
  | .null => .error "Cannot read properties of null (reading 'startsWith')"
  | _ => .error "startsWith is not a function"

def directoryAnchorGenesisRoot (contextId : String) : String :=
  sha256Ref (P.hash.sha256 (utf8 contextId))

/-! ## Bytes -/

/-- `parseInt(text, 16)`: what is left of the text after the digits is ignored. -/
def parseHexInt (text : List Char) : Option ℤ :=
  let unspaced := text.dropWhile isSpace
  let (negative, unsigned) :=
    match unspaced with
    | '-' :: rest => (true, rest)
    | '+' :: rest => (false, rest)
    | rest => (false, rest)
  let digits :=
    (match unsigned with
      | '0' :: 'x' :: rest | '0' :: 'X' :: rest => rest
      | rest => rest).takeWhile isHexDigit
  if digits = [] then none
  else
    let value : ℤ := digits.foldl (fun (n : ℤ) c => 16 * n + hexDigitValue c) 0
    some (if negative then -value else value)

/-- The code units of a text; a character of two is replaced by two that are
neither digits nor spaces. -/
def unitChars (text : String) : List Char :=
  text.toList.flatMap fun c => if c.toNat < 0x10000 then [c] else ['�', '�']

def hexPairs {α : Type} : List α → Option (List (List α))
  | [] => some []
  | [_] => none
  | a :: b :: rest => (hexPairs rest).map ([a, b] :: ·)

/-- The pairs `hexToBytes` reads, as texts. An array is cut like a text. -/
def hexChunks : JsValue → Except String (List (List Char))
  | .string hex =>
      match hexPairs (unitChars hex) with
      | none => .error "hex string must have even length"
      | some pairs => .ok pairs
  | .array items =>
      match hexPairs items with
      | none => .error "hex string must have even length"
      | some pairs => pairs.mapM fun pair => String.toList <$> (JsValue.array pair).toText P.text
  | _ => .error "hex string must have even length"

def hexToBytes (hex : JsValue) : Except String Bytes := do
  let chunks ← hexChunks P hex
  chunks.mapM fun chunk =>
    match parseHexInt chunk with
    | none => throw "invalid hex"
    | some byte => return UInt8.ofNat (byte % 256).toNat

/-- `s + '='.repeat(padLen)` as the platform reads it. No object's text is the
encoding of anything that passes here. -/
def base64urlToBytes (value : JsValue) : Except String Bytes :=
  let padded := fun (text : String) (length : ℕ) =>
    P.buffers.ofBase64url (text ++ String.ofList (List.replicate ((4 - length % 4) % 4) '='))
  match value with
  | .string text => .ok (padded text (unitChars text).length)
  | .array items => do return padded (← value.toText P.text) items.length
  | .undefined => .error "Cannot read properties of undefined (reading 'length')"
  | .null => .error "Cannot read properties of null (reading 'length')"
  | .object _ => .error "not base64url"
  | value => do return padded (← value.toText P.text) 0

def decodeCanonicalBase64 (value : String) (expectedLength : ℕ) : Except String Bytes :=
  if !isBase64Text value ∨ value.toList.length % 4 ≠ 0 then
    .error "proof hash is not canonical base64"
  else
    let bytes := P.buffers.ofBase64 value
    if bytes.length ≠ expectedLength ∨ P.buffers.toBase64 bytes ≠ value then
      .error s!"proof hash must be canonical base64 for {expectedLength} bytes"
    else .ok bytes

/-! ## Commitments -/

/-- An entry of the log with the two members the source normalizes. -/
structure AnchorCommitment where
  entry : JsValue
  recordHash : String
  logIndex : ℕ

def AnchorCommitment.creatorKey (commitment : AnchorCommitment) : JsValue :=
  commitment.entry.member "creator_key"

def AnchorCommitment.contextId (commitment : AnchorCommitment) : JsValue :=
  commitment.entry.member "context_id"

def AnchorCommitment.timestampMs (commitment : AnchorCommitment) : JsValue :=
  commitment.entry.member "timestamp_ms"

/-- `log_index ?? index`, if it is an index. -/
def normalizeAnchorLogIndex (entry : JsValue) : Option ℕ := do
  let value ← ((entry.member "log_index").orElse (entry.member "index")).number?
  value.safeIndex?

def EVENT_TYPE_DIRECTORY_ANCHOR_URI : String := "https://atrib.dev/v1/types/directory_anchor"

/-! ## The body -/

/-- The members in which a body and its commitment differ. -/
def commitmentMismatches (body : JsValue) (directoryOrigin : JsValue)
    (commitment : AnchorCommitment) (expectedDirectoryOrigin : String) : List String :=
  (if (body.member "creator_key").strictEq commitment.creatorKey then [] else ["creator_key"]) ++
  (if (body.member "context_id").strictEq commitment.contextId then [] else ["context_id"]) ++
  (if (body.member "timestamp").strictEq commitment.timestampMs then [] else ["timestamp"]) ++
  (if (body.member "event_type").strictEq (.string EVENT_TYPE_DIRECTORY_ANCHOR_URI) then []
    else ["event_type"]) ++
  if directoryOrigin.strictEq (.string expectedDirectoryOrigin) then [] else ["directory_origin"]

/-- The hash of a body, if it has a canonical form. -/
def anchorBodyHash (body : JsValue) : Except String (Option String) := do
  return (← P.canonicalize body).map fun text => sha256Ref (P.hash.sha256 (utf8 text))

/-- The operator's signature on a body without its signature, decoded and judged. -/
def anchorSignatureOk (body : JsValue) (canonical operatorKey : String) : Except String Bool := do
  let sigBytes ← base64urlToBytes P (body.member "signature")
  let pubBytes ← base64urlToBytes P (.string operatorKey)
  if sigBytes.length ≠ 64 ∨ pubBytes.length ≠ 32 then
    throw (s!"signature must be 64 bytes (got {sigBytes.length}), " ++
      s!"pubkey 32 bytes (got {pubBytes.length})")
  P.ed.verifyAsync sigBytes (utf8 canonical) pubBytes

/-- A body is not null where this is called. -/
def verifyAnchorBody (body : JsValue) (operatorKey : String) (commitment : AnchorCommitment)
    (expectedDirectoryOrigin start : String) : Resolve σ Bool := do
  let directoryOrigin ← Effect.lift (do (← body.get "metadata").get "directory_origin")
  let mismatches := commitmentMismatches body directoryOrigin commitment expectedDirectoryOrigin
  warnIf (mismatches ≠ []) (start ++ "-body-entry-mismatch: fields=" ++ ",".intercalate mismatches)
  let commitmentMatches ← (do
    match ← Effect.lift (anchorBodyHash P body) with
    | none => do
        warn (start ++ "-canonicalize-failed: full anchor body could not be canonicalized")
        pure false
    | some computed =>
        if computed = commitment.recordHash then pure true
        else do
          warn (start ++ "-body-commitment-mismatch: expected=" ++ commitment.recordHash ++
            ", actual=" ++ computed)
          pure false)
  match ← Effect.lift (P.canonicalize (body.without "signature")) with
  | none => do
      warn (start ++ "-canonicalize-failed: anchor body could not be canonicalized")
      pure false
  | some canonical =>
      match anchorSignatureOk P body canonical operatorKey with
      | .error message => do
          warn (start ++ "-decode-failed: " ++ message)
          pure false
      | .ok false => do
          warn (start ++
            "-signature-invalid: directory operator signature on anchor body did not verify")
          pure false
      | .ok true => pure (commitmentMatches && mismatches == [])

/-! ## Inclusion in the log -/

structure AnchorProofBundle where
  logIndex : ℕ
  checkpoint : String
  inclusionProof : List String
  leafHash : String

/-- A bundle whose members have the types they should have. -/
def anchorProofBundle? (body : JsValue) : Option AnchorProofBundle := do
  let logIndex ← (body.member "log_index").number?
  let logIndex ← logIndex.safeIndex?
  let checkpoint ← (body.member "checkpoint").string?
  let inclusionProof ← (body.member "inclusion_proof").array?
  let inclusionProof ← inclusionProof.mapM JsValue.string?
  let leafHash ← (body.member "leaf_hash").string?
  return ⟨logIndex, checkpoint, inclusionProof, leafHash⟩

/-- The evidence is there, is not available, or is not of the right shape. -/
inductive BundleAnswer where
  | bundle (bundle : AnchorProofBundle)
  | malformed
  | unavailable (reason : String)

def fetchAnchorProofBundle (logEndpoint : String) (commitment : AnchorCommitment) :
    Resolve σ BundleAnswer :=
  Effect.catching (do
    let url := withoutTrailingSlash logEndpoint ++ "/proof/" ++
      withoutHashStart commitment.recordHash
    let res ← ask (P.fetchFn url)
    if !res.isOk then pure (.unavailable s!"{res.status} {res.statusText}")
    else do
      let body ← Effect.lift res.json
      let _ ← Effect.lift (body.get "log_index")
      match anchorProofBundle? body with
      | none => pure .malformed
      | some bundle => pure (.bundle bundle))
    fun reason => pure (.unavailable reason)

/-- `serializeEntry` of a directory anchor. Only texts and times get here that
the steps before have let through. -/
def serializeAnchorEntry (commitment : AnchorCommitment) : Except String Bytes := do
  let recordHash ← hexDecode (withoutHashStart commitment.recordHash)
  let creatorKey ← ((commitment.creatorKey.string?.bind base64urlDecode).map Except.ok).getD
    (throw "base64urlDecode: invalid base64url characters")
  let contextId ← ((commitment.contextId.string?.map hexDecode).getD
    (throw "hexDecode: invalid hex string"))
  let timestamp ← commitment.timestampMs.toBigInt P.text
  if h : recordHash.length = 32 ∧ creatorKey.length = 32 ∧ contextId.length = 16 then
    return serializeEntry ⟨recordHash, creatorKey, contextId, (timestamp % 2 ^ 64).toNat,
      EVENT_TYPE_DIRECTORY_ANCHOR_URI, h.1, h.2.1, h.2.2⟩
  else throw "serializeEntry: a field has the wrong length"

inductive InclusionFailure where
  | operatorInvalid (reason : String)
  | indexMismatch (proof : ℕ)
  | notCovered (treeSize : ℕ)
  | malformed (reason : String)
  | leafMismatch
  | proofInvalid

def InclusionFailure.text (commitment : AnchorCommitment) : InclusionFailure → String
  | .operatorInvalid reason => "-operator-checkpoint-invalid: " ++ reason
  | .indexMismatch proof =>
      s!"-proof-index-mismatch: anchor={commitment.logIndex}, proof={proof}"
  | .notCovered treeSize =>
      s!"-checkpoint-does-not-cover-anchor: tree_size={treeSize}, " ++
        s!"anchor_log_index={commitment.logIndex}"
  | .malformed reason => "-inclusion-proof-malformed: " ++ reason
  | .leafMismatch => "-leaf-hash-mismatch: proof leaf does not match the anchor entry"
  | .proofInvalid =>
      "-inclusion-proof-invalid: anchor is not included in the signed checkpoint"

/-- The leaf of the anchor, the leaf that is claimed and the nodes of the proof. -/
def inclusionBytes (commitment : AnchorCommitment) (bundle : AnchorProofBundle) :
    Except String (Bytes × Bytes × List Bytes) := do
  let entryBytes ← serializeAnchorEntry P commitment
  let claimedLeafHash ← decodeCanonicalBase64 P bundle.leafHash 32
  let proof ← bundle.inclusionProof.mapM (decodeCanonicalBase64 P · 32)
  return (P.hash.leafHash entryBytes, claimedLeafHash, proof)

/-- What steps 3 and 5 check of a bundle, in order. -/
def checkAnchorInclusion (logCheckpointKey : TrustedCheckpointKey) (commitment : AnchorCommitment)
    (bundle : AnchorProofBundle) : Except InclusionFailure ParsedCheckpointNote :=
  match verifyOperatorCheckpoint P.hash P.ed P.buffers bundle.checkpoint logCheckpointKey with
  | .error reason => .error (.operatorInvalid reason)
  | .ok checkpoint =>
      if bundle.logIndex ≠ commitment.logIndex then .error (.indexMismatch bundle.logIndex)
      else if checkpoint.treeSize ≤ commitment.logIndex then
        .error (.notCovered checkpoint.treeSize)
      else
        match inclusionBytes P commitment bundle with
        | .error reason => .error (.malformed reason)
        | .ok (expectedLeafHash, claimedLeafHash, proof) =>
            if expectedLeafHash ≠ claimedLeafHash then .error .leafMismatch
            else if !P.hash.verifyInclusion bundle.logIndex checkpoint.treeSize expectedLeafHash
                proof checkpoint.rootHash then
              .error .proofInvalid
            else .ok checkpoint

/-- The outcome of a check that may lack its evidence: `true`, `null` or `false`. -/
inductive StepOutcome where
  | confirmed
  | unavailable
  | rejected
deriving DecidableEq

def verifyAnchorLogInclusion (logEndpoint : String)
    (logCheckpointKey : Option TrustedCheckpointKey) (commitment : AnchorCommitment)
    (start : String) : Resolve σ StepOutcome :=
  match logCheckpointKey with
  | none => do
      warn (start ++ "-log-checkpoint-key-not-configured: a caller-pinned log key is required")
      pure .unavailable
  | some logCheckpointKey => do
      match ← fetchAnchorProofBundle P logEndpoint commitment with
      | .unavailable reason => do
          warn (start ++ "-proof-fetch-error: " ++ reason)
          pure .unavailable
      | .malformed => do
          warn (start ++ "-proof-malformed: log returned an invalid bundle")
          pure .rejected
      | .bundle bundle =>
          match checkAnchorInclusion P logCheckpointKey commitment bundle with
          | .error failure => do
              warn (start ++ failure.text commitment)
              pure .rejected
          | .ok _ => pure .confirmed

end Atrib.Verify
