import Atrib.Lib.Effect
import Atrib.Mcp.Record
import Atrib.Mcp.Refs
import Mathlib.Data.Rat.Defs

/-!
# Checkpoint notes

The part of `packages/verify/src/witness.ts` that reads a note from its text:
three lines of body, a blank line, signature lines. Signatures count for keys
the caller has pinned, the operator's for the note as a whole and each
witness's once, while it is fresh.

Ed25519 and the base64 codec of the platform are parameters. A function of the
source that answers with a reason for its refusal is an `Except` here, and so
is one that throws.
-/

namespace Atrib.Verify

/-- `@noble/ed25519`. A signature or key of the wrong length makes `verifyAsync`
throw; any others are judged. -/
structure Ed25519 where
  verify : (zip215 : Bool) → (signature message publicKey : Bytes) → Bool

def Ed25519.verifyAsync (ed : Ed25519) (signature message publicKey : Bytes)
    (zip215 : Bool := true) : Except String Bool :=
  if signature.length ≠ 64 then .error "expected Uint8Array of length 64"
  else if publicKey.length ≠ 32 then .error "expected Uint8Array of length 32"
  else .ok (ed.verify zip215 signature message publicKey)

/-- `Buffer.from(text, encoding)` and `Buffer.toString('base64')`. -/
structure Buffers where
  ofBase64 : String → Bytes
  toBase64 : Bytes → String
  ofBase64url : String → Bytes

variable (H : Hash) (ed : Ed25519) (buffers : Buffers)

/-! ## Texts -/

/-- `/\s/` -/
def isSpace (c : Char) : Bool :=
  let n := c.toNat
  (9 ≤ n && n ≤ 13) || n == 0x20 || n == 0xa0 || n == 0x1680 || (0x2000 ≤ n && n ≤ 0x200a) ||
    n == 0x2028 || n == 0x2029 || n == 0x202f || n == 0x205f || n == 0x3000 || n == 0xfeff

/-- `/^[A-Za-z0-9+/]+={0,2}$/` -/
def isBase64Text (text : String) : Bool :=
  let chars := text.toList
  let digits := chars.takeWhile fun c => c.isAlphanum || c == '+' || c == '/'
  let rest := chars.drop digits.length
  digits ≠ [] && (rest == [] || rest == ['='] || rest == ['=', '='])

def decodeBase64 (value : String) (length : Option ℕ) (label : String) : Except String Bytes :=
  if !isBase64Text value ∨ value.toList.length % 4 ≠ 0 then
    .error (label ++ " is not canonical base64")
  else
    let bytes := buffers.ofBase64 value
    if buffers.toBase64 bytes ≠ value then .error (label ++ " is not canonical base64")
    else
      match length with
      | none => .ok bytes
      | some length =>
          if bytes.length ≠ length then
            .error (label ++ s!" must decode to {length} bytes")
          else .ok bytes

/-- `/^(0|[1-9]\d*)$/`, read. -/
def decimal? (text : List Char) : Option ℕ :=
  if text ≠ [] ∧ text.all Char.isDigit ∧ (text.headD '0' ≠ '0' ∨ text = ['0']) then
    some (text.foldl (fun n c => 10 * n + (c.toNat - '0'.toNat)) 0)
  else none

/-- `indexOf('\n\n')`: what is before, with a line end, and what is after. -/
def splitAtBlankLine : List Char → Option (List Char × List Char)
  | '\n' :: '\n' :: rest => some (['\n'], rest)
  | c :: text => (splitAtBlankLine text).map fun parts => (c :: parts.1, parts.2)
  | [] => none

/-! ## Notes -/

structure ParsedCheckpointNote where
  body : String
  origin : String
  treeSize : ℕ
  rootHash : Bytes
  signatureLines : List String
deriving DecidableEq

def parseCheckpointBody (body : List Char) :
    Except String (String × ℕ × Bytes) :=
  match body.splitOn '\n' with
  | [origin, treeSizeText, rootHashText, []] =>
      if origin = [] ∨ origin.contains '\r' then .error "checkpoint origin is malformed"
      else
        match decimal? treeSizeText with
        | none => .error "checkpoint tree size is malformed"
        | some treeSize =>
            if treeSize > MAX_SAFE_INTEGER ∨ treeSize < 1 then
              .error "checkpoint tree size is outside the supported range"
            else do
              let rootHash ← decodeBase64 buffers (String.ofList rootHashText) (some 32)
                "checkpoint root hash"
              return (String.ofList origin, treeSize, rootHash)
  | _ => .error "checkpoint body must contain exactly three newline-terminated lines"

def parseCheckpointNote (note : String) : Except String ParsedCheckpointNote :=
  match splitAtBlankLine note.toList with
  | none => .error "checkpoint note omitted the signature separator"
  | some (body, signatureText) => do
      let (origin, treeSize, rootHash) ← parseCheckpointBody buffers body
      match signatureText.reverse with
      | '\n' :: lines =>
          let signatureLines := lines.reverse.splitOn '\n'
          if signatureLines.any (· == []) then
            throw "checkpoint signature block contains a blank line"
          return ⟨String.ofList body, origin, treeSize, rootHash,
            signatureLines.map String.ofList⟩
      | _ => throw "checkpoint signature block must end with a newline"

structure ParsedSignatureLine where
  name : String
  payload : Bytes

/-- `/^— (\S+) (\S+)$/` -/
def parseSignatureLine (line : String) : Option ParsedSignatureLine :=
  match line.toList with
  | '—' :: ' ' :: rest =>
      match rest.splitOn ' ' with
      | [name, payload] =>
          if name = [] ∨ payload = [] ∨ name.any isSpace ∨ payload.any isSpace then none
          else
            match decodeBase64 buffers (String.ofList payload) none "base64 value" with
            | .ok bytes => some ⟨String.ofList name, bytes⟩
            | .error _ => none
      | _ => none
  | _ => none

/-! ## Keys -/

inductive PublicKey where
  | bytes (value : Bytes)
  | text (value : String)

structure TrustedCheckpointKey where
  name : String
  publicKey : PublicKey

def checkpointKeyId (name : String) (publicKey : Bytes) : Except String Bytes :=
  if name = "" ∨ name.toList.contains '\n' then
    .error "checkpoint key name must be non-empty and single-line"
  else if publicKey.length ≠ 32 then .error "checkpoint public key must be 32 bytes"
  else .ok ((H.sha256 (utf8 name ++ 0x0a :: 0x01 :: publicKey)).take 4)

/-- `/^[A-Za-z0-9_-]{43}$/` -/
def isPublicKeyText (text : String) : Bool :=
  text.toList.length == 43 && text.toList.all fun c => c.isAlphanum || c == '_' || c == '-'

def normalizePublicKey : PublicKey → Except String Bytes
  | .bytes value =>
      if value.length ≠ 32 then .error "checkpoint public key must be 32 bytes" else .ok value
  | .text value =>
      if !isPublicKeyText value then
        .error "checkpoint public key must be canonical unpadded base64url"
      else
        let bytes := buffers.ofBase64url value
        if bytes.length ≠ 32 then .error "checkpoint public key must decode to 32 bytes"
        else .ok bytes

/-! ## The operator's signature -/

/-- An error is the answer `{ valid: false, reason }`. -/
def verifyOperatorCheckpoint (note : String) (trustedKey : TrustedCheckpointKey) :
    Except String ParsedCheckpointNote := do
  let checkpoint ← parseCheckpointNote buffers note
  if checkpoint.origin ≠ trustedKey.name then
    throw "checkpoint origin does not match the pinned log name"
  else
    let publicKey ← normalizePublicKey buffers trustedKey.publicKey
    let expectedKeyId ← checkpointKeyId H trustedKey.name publicKey
    let candidates := (checkpoint.signatureLines.filterMap (parseSignatureLine buffers)).filter
      fun line => line.payload.length = 68
    match candidates.find? fun line =>
        line.name = trustedKey.name ∧ line.payload.take 4 = expectedKeyId with
    | none => throw "checkpoint has no signature from the pinned log key"
    | some candidate =>
        if ← ed.verifyAsync (candidate.payload.drop 4) (utf8 checkpoint.body) publicKey then
          return checkpoint
        else throw "checkpoint operator signature is invalid"

/-! ## Witness signatures -/

structure WitnessCosignatureVerification where
  name : String
  keyId : String
  timestampSeconds : Option ℕ := none
  valid : Bool
  reason : Option String := none

structure WitnessThresholdVerification where
  witnesses : List WitnessCosignatureVerification
  validWitnesses : ℕ
  requiredWitnesses : ℚ
  thresholdMet : Bool

structure VerifyWitnessThresholdOptions where
  operatorKey : TrustedCheckpointKey
  witnessKeys : List TrustedCheckpointKey
  requiredWitnesses : Option ℚ := none
  nowSeconds : Option ℚ := none
  maxAgeSeconds : Option ℚ := none
  futureSkewSeconds : Option ℚ := none

/-- `Number.isSafeInteger(value) && value >= 0` -/
def isSafeNonNegative (value : ℚ) : Bool := value.isInt ∧ 0 ≤ value ∧ value ≤ MAX_SAFE_INTEGER

def cosignatureInput (body : String) (timestampSeconds : ℕ) : Bytes :=
  utf8 ("cosignature/v1\n" ++ toString timestampSeconds ++ "\n\n" ++ body)

/-- `${name}:${keyId}` with the key it stands for. -/
def witnessIdentity (key : TrustedCheckpointKey) : Except String (String × Bytes) := do
  let publicKey ← normalizePublicKey buffers key.publicKey
  let keyId ← checkpointKeyId H key.name publicKey
  return (key.name ++ ":" ++ hexEncode keyId, publicKey)

/-- `DataView.getBigUint64(0, false)` -/
def bigUint64OfBytes (bytes : Bytes) : ℕ := bytes.foldl (fun n b => 256 * n + b.toNat) 0

/-- One round of the loop over the signature lines. A key set twice keeps its
last value, as in a `Map`. -/
def countWitness (trusted : List (String × Bytes)) (body : String)
    (nowSeconds maxAgeSeconds futureSkewSeconds : ℚ)
    (state : List WitnessCosignatureVerification × List String) (line : String) :
    Except String (List WitnessCosignatureVerification × List String) :=
  match parseSignatureLine buffers line with
  | none => .ok state
  | some parsed =>
      if parsed.payload.length ≠ 76 then .ok state
      else
        let keyId := hexEncode (parsed.payload.take 4)
        let identity := parsed.name ++ ":" ++ keyId
        let refuse := fun (timestamp : Option ℕ) (reason : String) =>
          (state.1 ++ [WitnessCosignatureVerification.mk parsed.name keyId timestamp false
            (some reason)], state.2)
        match trusted.reverse.lookup identity with
        | none => .ok (refuse none "untrusted witness key")
        | some publicKey =>
            let timestamp := bigUint64OfBytes ((parsed.payload.drop 4).take 8)
            if timestamp > MAX_SAFE_INTEGER then .ok (refuse none "timestamp is too large")
            else if (timestamp : ℚ) > nowSeconds + futureSkewSeconds then
              .ok (refuse (some timestamp) "witness timestamp is in the future")
            else if nowSeconds - timestamp > maxAgeSeconds then
              .ok (refuse (some timestamp) "witness cosignature is stale")
            else if state.2.contains identity then
              .ok (refuse (some timestamp) "duplicate witness signature")
            else do
              if ← ed.verifyAsync (parsed.payload.drop 12) (cosignatureInput body timestamp)
                  publicKey then
                return (state.1 ++ [⟨parsed.name, keyId, some timestamp, true, none⟩],
                  state.2 ++ [identity])
              else return refuse (some timestamp) "witness signature is invalid"

/-- The checks of the options come after the operator's signature, but for that
of `requiredWitnesses`. -/
def verifyCheckpointWitnessThreshold (currentSeconds : ℚ) (note : String)
    (options : VerifyWitnessThresholdOptions) : Except String WitnessThresholdVerification :=
  let requiredWitnesses := options.requiredWitnesses.getD 1
  if !requiredWitnesses.isInt ∨ requiredWitnesses < 0 then
    .error "requiredWitnesses must be a non-negative integer"
  else
    match verifyOperatorCheckpoint H ed buffers note options.operatorKey with
    | .error _ => .ok ⟨[], 0, requiredWitnesses, false⟩
    | .ok checkpoint =>
        let nowSeconds := options.nowSeconds.getD currentSeconds
        let maxAgeSeconds := options.maxAgeSeconds.getD (24 * 60 * 60)
        let futureSkewSeconds := options.futureSkewSeconds.getD (5 * 60)
        if !isSafeNonNegative nowSeconds then
          .error "nowSeconds must be a non-negative safe integer"
        else if !isSafeNonNegative maxAgeSeconds then
          .error "maxAgeSeconds must be a non-negative safe integer"
        else if !isSafeNonNegative futureSkewSeconds then
          .error "futureSkewSeconds must be a non-negative safe integer"
        else do
          let trusted ← options.witnessKeys.mapM (witnessIdentity H buffers)
          let counted ← checkpoint.signatureLines.foldlM
            (countWitness ed buffers trusted checkpoint.body nowSeconds maxAgeSeconds
              futureSkewSeconds) ([], [])
          return ⟨counted.1, counted.2.length, requiredWitnesses,
            decide ((counted.2.length : ℚ) ≥ requiredWitnesses)⟩

end Atrib.Verify
