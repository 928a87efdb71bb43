import Mathlib.Tactic.IntervalCases
import Atrib.Proofs.HonestHistory
import Atrib.Proofs.UncaughtReads

/-!
# What step 5 says of a directory

An accepted chain is one, whatever was answered; and an honest directory is
accepted when the verifier has last consulted it at the epoch before or at the
same anchor. When it comes back later the directory is reported as one that has
rewritten its history.
-/

namespace Atrib.Verify

open Lib (Effect JsValue JsNumber)
open Lib.Effect (Yields)
open Directory (Akd)

/-! ## A note that verifies -/

section

variable {H : Hash} {ed : Ed25519} {buffers : Buffers}

theorem parseCheckpointNote_of {note body line origin : String} {treeSize : ℕ} {rootHash : Bytes}
    (hsplit : splitAtBlankLine note.toList = some (body.toList, line.toList ++ ['\n']))
    (hbody : parseCheckpointBody buffers body.toList = .ok (origin, treeSize, rootHash))
    (hline : line.toList.splitOn '\n' = [line.toList]) (hne : line.toList ≠ []) :
    parseCheckpointNote buffers note = .ok ⟨body, origin, treeSize, rootHash, [line]⟩ := by
  unfold parseCheckpointNote
  rw [hsplit]
  simp [hbody, bind, Except.bind, pure, Except.pure, hline, hne]

theorem parseSignatureLine_of {line name payload : String} {bytes : Bytes}
    (hline : line.toList = '—' :: ' ' :: (name.toList ++ ' ' :: payload.toList))
    (hsplit : (name.toList ++ ' ' :: payload.toList).splitOn ' ' = [name.toList, payload.toList])
    (hok : ¬ (name.toList = [] ∨ payload.toList = [] ∨ name.toList.any isSpace ∨
      payload.toList.any isSpace))
    (hbytes : decodeBase64 buffers payload none "base64 value" = .ok bytes) :
    parseSignatureLine buffers line = some ⟨name, bytes⟩ := by
  unfold parseSignatureLine
  rw [hline]
  simp only [hsplit, hok, if_false, String.ofList_toList, hbytes]

theorem verifyOperatorCheckpoint_of {note : String} {key : TrustedCheckpointKey}
    {checkpoint : ParsedCheckpointNote} {publicKey keyId payload : Bytes} {line : String}
    (hnote : parseCheckpointNote buffers note = .ok checkpoint)
    (horigin : checkpoint.origin = key.name)
    (hkey : normalizePublicKey buffers key.publicKey = .ok publicKey)
    (hid : checkpointKeyId H key.name publicKey = .ok keyId)
    (hlines : checkpoint.signatureLines = [line])
    (hline : parseSignatureLine buffers line = some ⟨key.name, payload⟩)
    (hlength : payload.length = 68) (hkeyId : payload.take 4 = keyId)
    (hverify : ed.verifyAsync (payload.drop 4) (utf8 checkpoint.body) publicKey = .ok true) :
    verifyOperatorCheckpoint H ed buffers note key = .ok checkpoint := by
  unfold verifyOperatorCheckpoint
  rw [hnote]
  simp [bind, Except.bind, pure, Except.pure, horigin, hkey, hid, hlines, hline, hlength, hkeyId,
    hverify, List.filter]

theorem inclusionBytes_of {σ : Type} {P : Platform σ} {commitment : AnchorCommitment}
    {bundle : AnchorProofBundle} {entry leaf : Bytes} {proof : List Bytes}
    (hentry : serializeAnchorEntry P commitment = .ok entry)
    (hleaf : decodeCanonicalBase64 P bundle.leafHash 32 = .ok leaf)
    (hproof : bundle.inclusionProof.mapM (decodeCanonicalBase64 P · 32) = .ok proof) :
    inclusionBytes P commitment bundle = .ok (P.hash.leafHash entry, leaf, proof) := by
  unfold inclusionBytes
  rw [hentry, hleaf, hproof]
  rfl

theorem checkAnchorInclusion_of {σ : Type} {P : Platform σ} {logKey : TrustedCheckpointKey}
    {commitment : AnchorCommitment} {bundle : AnchorProofBundle}
    {checkpoint : ParsedCheckpointNote} {expected leaf : Bytes} {proof : List Bytes}
    (hoperator : verifyOperatorCheckpoint P.hash P.ed P.buffers bundle.checkpoint logKey =
      .ok checkpoint)
    (hindex : bundle.logIndex = commitment.logIndex)
    (hcovered : commitment.logIndex < checkpoint.treeSize)
    (hbytes : inclusionBytes P commitment bundle = .ok (expected, leaf, proof))
    (hleaf : expected = leaf)
    (hproof : P.hash.verifyInclusion bundle.logIndex checkpoint.treeSize expected proof
      checkpoint.rootHash = true) :
    checkAnchorInclusion P logKey commitment bundle = .ok checkpoint := by
  unfold checkAnchorInclusion
  rw [hoperator]
  dsimp only
  rw [if_neg (not_not.2 hindex), if_neg (not_le.2 hcovered), hbytes]
  dsimp only
  rw [if_neg (not_not.2 hleaf), hproof]
  rfl

end

/-! ## A directory with three anchors -/

namespace Sample

/-- The value of a character of base64, in either alphabet. -/
def base64Value (c : Char) : ℕ :=
  if c.toNat ≥ 97 then c.toNat - 71
  else if c = '_' ∨ c = '/' then 63
  else if c = '-' ∨ c = '+' then 62
  else if c.toNat ≥ 65 then c.toNat - 65
  else c.toNat + 4

def base64Char (n : ℕ) : Char :=
  Char.ofNat (if n < 26 then n + 65 else if n < 52 then n + 71 else if n < 62 then n - 4
    else if n = 62 then 43 else 47)

def ofBase64 (text : String) : Bytes :=
  base64urlBytes ((text.toList.filter (· ≠ '=')).map base64Value)

def base64Chars : List ℕ → List Char
  | a :: b :: c :: rest =>
      [a / 4, a % 4 * 16 + b / 16, b % 16 * 4 + c / 64, c % 64].map base64Char ++ base64Chars rest
  | [a, b] => [a / 4, a % 4 * 16 + b / 16, b % 16 * 4].map base64Char ++ ['=']
  | [a] => [a / 4, a % 4 * 16].map base64Char ++ ['=', '=']
  | [] => []

def toBase64 (bytes : Bytes) : String := String.ofList (base64Chars (bytes.map UInt8.toNat))

def numberText (x : JsNumber) : String :=
  match x with
  | .finite q => toString q.num
  | _ => "NaN"

/-- The members of an object in order, each with the text of its value. -/
def jsonObject (members : List (String × List Char)) : List Char :=
  '{' :: (members.flatMap fun (name, value) =>
    ',' :: '"' :: name.toList ++ '"' :: ':' :: value).tail ++ ['}']

def jsonScalar : JsValue → List Char
  | .number x => (numberText x).toList
  | .string text => '"' :: text.toList ++ ['"']
  | _ => "null".toList

def jsonMember : JsValue → List Char
  | .object members => jsonObject (members.map fun (name, value) => (name, jsonScalar value))
  | value => jsonScalar value

/-- Canonical JSON of an object with objects of scalars in it, whose members are in order
and whose texts need no escapes. -/
def json : JsValue → List Char
  | .object members => jsonObject (members.map fun (name, value) => (name, jsonMember value))
  | value => jsonMember value

def operatorKey : String := "iojj3XQJ8ZX9UtstPLpdcspnCb8dlBIb83SIAbQPb1w"

def origin : String := "https://directory.example"

def contextId : String := "9b94ed848c70910c1d5829c821763a52"

/-- The root of each epoch. -/
def digest (i : ℕ) : Bytes := List.replicate 32 (UInt8.ofNat (i + 1))

def unsignedMembers (i : ℕ) (chainRoot : String) : List (String × JsValue) :=
  [("chain_root", .string chainRoot),
    ("content_id",
      .string "sha256:736ebff8927ae543a75a6cebf7abd0b636b7e4d7be03aea0be72df7049c24477"),
    ("context_id", .string contextId),
    ("creator_key", .string operatorKey),
    ("event_type", .string EVENT_TYPE_DIRECTORY_ANCHOR_URI),
    ("metadata", .object [("directory_epoch", .number (.finite (i + 1 : ℕ))),
      ("directory_origin", .string origin),
      ("directory_root", .string (hexEncode (digest i)))])]

def laterMembers (i : ℕ) : List (String × JsValue) :=
  [("spec_version", .string "atrib/1.0"),
    ("timestamp", .number (.finite (1767225600000 + i * 60000 : ℕ)))]

/-- The record hash of each anchor. -/
def recordHash : ℕ → String
  | 0 => "sha256:be5cdb4502c0ee88ec1aacfa09c803fa6e02d5ea3f20c95605f972bbbd980c0e"
  | 1 => "sha256:1c4ff96a7098bc0144ea1c014797502d57fc5f5b63538451691aa3f802af62a4"
  | _ => "sha256:213105c4acd051917a228d25c4c8d40ca8d7282543bd128a03f7210eb61e531f"

def chainRoot : ℕ → String
  | 0 => "sha256:a2222b76f3fdf787822f043c0d0aed0d5761f76175a77ac3ca012f1ff82a0494"
  | i + 1 => recordHash i

def signature : ℕ → String
  | 0 => "lEe1mSSH7xVoMLqhyumkhrkiMLXKQA2e6Hq5MaoaxxVqvU9eIBe9Uq4HrdAtzHGLmFYc6tRL9FeRuS7qfuISCQ"
  | 1 => "rPpn3D1zsgFZJkMk-_e1FnnJ688_O-o_4JB0IhGvK5dsexzXo5GBg-16duwsAyLeOkL5_fHpyjpee3as2UXcAw"
  | _ => "BwBxizrtH2gOTcflWHqJm6Zk_nIoGXKm3ryGj5Kxg18YRMp5l4y8zyNnkAH8psrf4x5joJPkwf9Szwq5Oak2Bg"

def body (i : ℕ) : JsValue :=
  .object (unsignedMembers i (chainRoot i) ++ ("signature", .string (signature i)) ::
    laterMembers i)

def entry (i : ℕ) : JsValue :=
  .object [("record_hash", .string (recordHash i)), ("creator_key", .string operatorKey),
    ("context_id", .string contextId), ("event_type", .string "directory_anchor"),
    ("timestamp_ms", .number (.finite (1767225600000 + i * 60000 : ℕ))),
    ("log_index", .number (.finite i))]

def anchor (i : ℕ) : PublishedAnchor where
  body := body i
  commitment := ⟨entry i, recordHash i, i⟩
  timestamp := (1767225600000 + i * 60000 : ℕ)
  digest := digest i

def logPublicKey : String := "gTl3Dqh9F19Wo1Rmw0x-zMuNipG07jeiXfYPW4_Js5Q"

def logKey : TrustedCheckpointKey where
  name := "log.example"
  publicKey := .text logPublicKey

def checkpointBody : String := "log.example\n3\nEqmJvzfGcCe/Nz8E0HCbzcU4ivpbF+n+MtuoX+WUpaw=\n"

def checkpoint : String :=
  "log.example\n3\nEqmJvzfGcCe/Nz8E0HCbzcU4ivpbF+n+MtuoX+WUpaw=\n\n— log.example Nd4fkFZT2chd4Rq4uliiCnXxYTERqpG5Hl9j/EtzfygMVFz6mrLA+EJM4UZtp6+r3K707wDlKxTRuqeLN2rp0j9SSgE=\n"

def checkpointSignature : String :=
  "Nd4fkFZT2chd4Rq4uliiCnXxYTERqpG5Hl9j/EtzfygMVFz6mrLA+EJM4UZtp6+r3K707wDlKxTRuqeLN2rp0j9SSgE="

/-- The text an operator has signed. -/
def unsignedText (i : ℕ) : String :=
  String.ofList (json (.object (unsignedMembers i (chainRoot i) ++ laterMembers i)))

/-- The keys, what they have signed, and the signatures. -/
def signed : List (Bytes × Bytes × Bytes) :=
  (ofBase64 logPublicKey, utf8 checkpointBody, (ofBase64 checkpointSignature).drop 4) ::
    (List.range 3).map fun i =>
      (ofBase64 operatorKey, utf8 (unsignedText i), ofBase64 (signature i))

def leafHash : ℕ → String
  | 0 => "aiiWBnBT+qY/cWW20KVHMAfomSvdFUDoGrsykzezUzc="
  | 1 => "2t/jJujjXBBYUghTMhkt8X/GQV0SHNRIOTjJeriKsYQ="
  | _ => "S43/4ZSVoyxWiKmPhPTwnmUIfcgCB4y2cvR/PYKephE="

def inclusionProof : ℕ → List String
  | 0 => [leafHash 1, leafHash 2]
  | 1 => [leafHash 0, leafHash 2]
  | _ => ["93QI0l0msohiT+FH4yL+M5uspE2lFgBRc52SGDiQR54="]

def bundle (i : ℕ) : JsValue :=
  .object [("log_index", .number (.finite i)), ("checkpoint", .string checkpoint),
    ("inclusion_proof", .array ((inclusionProof i).map .string)),
    ("leaf_hash", .string (leafHash i))]

/-- The audit proof of a range has its two ends; the tree of an epoch has one leaf for
every epoch, and its root says how many they are. -/
def akd : Akd where
  AzksElement := ℕ
  atEpoch := fun element _ => element
  rootOf := fun nodes _ => .ok (digest nodes.length)
  deserialize
    | [fromEpoch, toEpoch] =>
        let epochs := List.range' fromEpoch.toNat (toEpoch.toNat - fromEpoch.toNat)
        .ok ⟨epochs.map fun epoch => ⟨[epoch], List.range (epoch - 1)⟩, epochs⟩
    | _ => .error "unexpected end of file"

def creatorKey : String := "gTl3Dqh9F19Wo1Rmw0x-zMuNipG07jeiXfYPW4_Js5Q"

def endpoint : String := "https://directory.example/v6"

def logEndpoint : String := "https://log.example/v1"

def lookupBody : JsValue :=
  .object [("found", .bool true), ("epoch", .number (.finite 3)),
    ("claim", .object [("creator_key", .string creatorKey)])]

def auditProof : ℕ → String
  | 0 => "AQM"
  | _ => "AgM"

def auditBody (prior : ℕ) : JsValue :=
  .object [("from_epoch", .number (.finite (prior + 1 : ℕ))), ("to_epoch", .number (.finite 3)),
    ("proof", .string (auditProof prior))]

/-- What there is to be had on the net. -/
def answers : List (String × JsValue) :=
  [("https://directory.example/v6/lookup/gTl3Dqh9F19Wo1Rmw0x-zMuNipG07jeiXfYPW4_Js5Q", lookupBody),
    ("https://directory.example/v6/anchor", .object [("directory_origin", .string origin)]),
    ("https://log.example/v1/by-context/9b94ed848c70910c1d5829c821763a52",
      .object [("entries", .array [entry 2, entry 1, entry 0])]),
    ("https://directory.example/v6/audit-proof?from=1&to=3", auditBody 0),
    ("https://directory.example/v6/audit-proof?from=2&to=3", auditBody 1)] ++
  (List.range 3).map fun i =>
    ("https://log.example/v1/proof/" ++ withoutHashStart (recordHash i), bundle i)

def platform : Platform Unit where
  hash := .fips180
  ed.verify := fun _ signature message publicKey => (publicKey, message, signature) ∈ signed
  buffers := ⟨ofBase64, toBase64, ofBase64⟩
  text := ⟨numberText, fun _ => .nan, fun _ => none⟩
  canonicalize := fun value => .ok (some (String.ofList (json value)))
  encodeURIComponent := .ok
  cosignatureUrl := fun _ _ _ => .error "not asked"
  fetchFn := fun url => pure (match answers.lookup url with
    | some body => ⟨200, "OK", .ok body, .ok ""⟩
    | none => ⟨404, "Not Found", .error "", .ok ""⟩)
  now := 1767226000000

def fetchAnchorBody (recordHash : String) : Effect Unit JsValue :=
  pure (((List.range 3).find? fun i => Sample.recordHash i = recordHash).elim .null body)

/-- The verifier has consulted the directory before. -/
def options (prior : ℕ) : ResolveIdentityOptions Unit where
  directoryEndpoint := some endpoint
  directoryOperatorKey := some operatorKey
  logEndpoint := some logEndpoint
  fetchAnchorBody := some fetchAnchorBody
  verifyAuditProof := some akd.verifyAuditProof
  previousAnchorRecordHash := some (recordHash prior)
  logCheckpointKey := some logKey

def history : DirectoryHistory Unit where
  operatorKey := operatorKey
  origin := origin
  logEndpoint := logEndpoint
  logKey := logKey
  fetchAnchorBody := fetchAnchorBody
  firstEpoch := 1
  count := 3
  anchors := anchor

/-! ### Texts and bytes -/

theorem ofBase64_padded (text : String) (n : ℕ) :
    ofBase64 (text ++ String.ofList (List.replicate n '=')) = ofBase64 text := by
  simp [ofBase64]

theorem base64urlToBytes_eq (text : String) :
    base64urlToBytes platform (.string text) = .ok (ofBase64 text) :=
  congrArg Except.ok (ofBase64_padded text _)

/-- Characters that are the base64 of so many bytes. -/
def isBase64Of (n : ℕ) (chars : List Char) : Bool :=
  let digits := chars.takeWhile fun c => c.isAlphanum || c == '+' || c == '/'
  let rest := chars.drop digits.length
  let bytes := base64urlBytes ((chars.filter (· ≠ '=')).map base64Value)
  digits ≠ [] && (rest == [] || rest == ['='] || rest == ['=', '=']) && chars.length % 4 == 0 &&
    base64Chars (bytes.map UInt8.toNat) == chars && bytes.length == n

theorem base64_facts {text : String} {n : ℕ} (h : isBase64Of n text.toList = true) :
    isBase64Text text = true ∧ text.toList.length % 4 = 0 ∧
      platform.buffers.toBase64 (platform.buffers.ofBase64 text) = text ∧
      (platform.buffers.ofBase64 text).length = n := by
  simp only [isBase64Of, Bool.and_eq_true, beq_iff_eq] at h
  obtain ⟨⟨⟨⟨hdigits, hrest⟩, hmod⟩, hcanonical⟩, hn⟩ := h
  refine ⟨?_, hmod, ?_, hn⟩
  · rw [isBase64Text, Bool.and_eq_true]
    exact ⟨hdigits, hrest⟩
  · exact (congrArg String.ofList hcanonical).trans String.ofList_toList

theorem decodeBase64_eq {text label : String} {n : ℕ} {length : Option ℕ}
    (h : isBase64Of n text.toList = true) (hlength : ∀ m, length = some m → m = n) :
    decodeBase64 platform.buffers text length label = .ok (ofBase64 text) := by
  obtain ⟨htext, hmod, hback, hbytes⟩ := base64_facts h
  rw [decodeBase64, if_neg (by simp [htext, hmod])]
  dsimp only
  rw [if_neg (not_not.2 hback)]
  cases length with
  | none => rfl
  | some m =>
      dsimp only
      rw [if_neg (by rw [hbytes, hlength m rfl]; exact not_not.2 rfl)]
      rfl

theorem decodeCanonicalBase64_eq {text : String} {n : ℕ} (h : isBase64Of n text.toList = true) :
    decodeCanonicalBase64 platform text n = .ok (ofBase64 text) := by
  obtain ⟨htext, hmod, hback, hbytes⟩ := base64_facts h
  rw [decodeCanonicalBase64, if_neg (by simp [htext, hmod])]
  dsimp only
  rw [if_neg (by simp [hbytes, hback])]
  rfl

/-- The keys and the signatures have their lengths. -/
theorem key_facts : (ofBase64 operatorKey).length = 32 ∧ (ofBase64 logPublicKey).length = 32 ∧
    isPublicKeyText logPublicKey = true ∧
    base64urlDecode operatorKey = some (ofBase64 operatorKey) ∧
    ∀ i < 3, (ofBase64 (signature i)).length = 64 := by
  refine ⟨?_, ?_, ?_, ?_, fun i hi => ?_⟩
  · rw [ofBase64, operatorKey, String.toList_ofList]
    decide +kernel
  · rw [ofBase64, logPublicKey, String.toList_ofList]
    decide +kernel
  · rw [isPublicKeyText, logPublicKey, String.toList_ofList]
    decide +kernel
  · rw [base64urlDecode, ofBase64, operatorKey, String.toList_ofList]
    decide +kernel
  · interval_cases i
    all_goals
      simp only [signature]
      rw [ofBase64, String.toList_ofList]
      decide +kernel

theorem anchorSignatureOk_eq (i : ℕ) (hi : i < 3) :
    anchorSignatureOk platform (body i) (unsignedText i) operatorKey = .ok true := by
  have hmem : (ofBase64 operatorKey, utf8 (unsignedText i), ofBase64 (signature i)) ∈ signed :=
    List.mem_cons_of_mem _ (List.mem_map.2 ⟨i, List.mem_range.2 hi, rfl⟩)
  have hsignature : (body i).member "signature" = .string (signature i) := rfl
  rw [anchorSignatureOk, hsignature, base64urlToBytes_eq, base64urlToBytes_eq]
  simp [bind, Except.bind, key_facts.2.2.2.2 i hi, key_facts.1, Ed25519.verifyAsync, platform, hmem]

/-! ### The checkpoint of the log -/

def rootText : String := "EqmJvzfGcCe/Nz8E0HCbzcU4ivpbF+n+MtuoX+WUpaw="

def checkpointLine : String :=
  "— log.example Nd4fkFZT2chd4Rq4uliiCnXxYTERqpG5Hl9j/EtzfygMVFz6mrLA+EJM4UZtp6+r3K707wDlKxTRuqeLN2rp0j9SSgE="

/-- The identifier of the key of the log. -/
def keyId : Bytes := [0x35, 0xde, 0x1f, 0x90]

/-- The parts of the note and of its signature line. -/
structure CheckpointFacts : Prop where
  split : splitAtBlankLine checkpoint.toList =
    some (checkpointBody.toList, checkpointLine.toList ++ ['\n'])
  bodyLines : checkpointBody.toList.splitOn '\n' =
    ["log.example".toList, "3".toList, rootText.toList, []]
  size : decimal? "3".toList = some 3
  origin : ¬ ("log.example".toList = [] ∨ "log.example".toList.contains '\r')
  line : checkpointLine.toList =
    '—' :: ' ' :: ("log.example".toList ++ ' ' :: checkpointSignature.toList)
  single : checkpointLine.toList.splitOn '\n' = [checkpointLine.toList]
  lineParts : ("log.example".toList ++ ' ' :: checkpointSignature.toList).splitOn ' ' =
    ["log.example".toList, checkpointSignature.toList]
  lineOk : ¬ ("log.example".toList = [] ∨ checkpointSignature.toList = [] ∨
    "log.example".toList.any isSpace ∨ checkpointSignature.toList.any isSpace)
  root : isBase64Of 32 rootText.toList = true
  signature : isBase64Of 68 checkpointSignature.toList = true
  keyIdOk : (ofBase64 checkpointSignature).take 4 = keyId
  keyIdEq : checkpointKeyId platform.hash "log.example" (ofBase64 logPublicKey) = .ok keyId

theorem checkpointFacts : CheckpointFacts := by
  constructor
  case split =>
    rw [checkpointLine, checkpoint, checkpointBody]
    rw [String.toList_ofList, String.toList_ofList, String.toList_ofList]
    decide +kernel
  case bodyLines =>
    rw [checkpointBody, rootText]
    rw [String.toList_ofList, String.toList_ofList, String.toList_ofList, String.toList_ofList]
    decide +kernel
  case line =>
    rw [checkpointLine, checkpointSignature]
    rw [String.toList_ofList, String.toList_ofList, String.toList_ofList]
    decide +kernel
  case single =>
    rw [checkpointLine, String.toList_ofList]
    decide +kernel
  case keyIdOk =>
    rw [ofBase64, checkpointSignature, String.toList_ofList]
    decide +kernel
  case keyIdEq =>
    rw [checkpointKeyId, if_neg (by decide +kernel), if_neg (not_not.2 key_facts.2.1), ofBase64,
      logPublicKey, String.toList_ofList, utf8_ofList]
    decide +kernel
  case root =>
    rw [rootText, String.toList_ofList]
    decide +kernel
  case signature =>
    rw [checkpointSignature, String.toList_ofList]
    decide +kernel
  case lineParts =>
    rw [checkpointSignature, String.toList_ofList, String.toList_ofList]
    decide +kernel
  case lineOk =>
    rw [checkpointSignature, String.toList_ofList, String.toList_ofList]
    decide +kernel
  all_goals decide +kernel

theorem parseCheckpointBody_eq : parseCheckpointBody platform.buffers checkpointBody.toList =
    .ok ("log.example", 3, ofBase64 rootText) := by
  unfold parseCheckpointBody
  rw [checkpointFacts.bodyLines]
  dsimp only
  rw [if_neg checkpointFacts.origin, checkpointFacts.size]
  dsimp only
  rw [if_neg (by decide), String.ofList_toList,
    decodeBase64_eq checkpointFacts.root (fun m hm => (Option.some.inj hm).symm),
    String.ofList_toList]
  rfl

theorem normalizePublicKey_eq :
    normalizePublicKey platform.buffers logKey.publicKey = .ok (ofBase64 logPublicKey) := by
  have hlength : (platform.buffers.ofBase64url logPublicKey).length = 32 := key_facts.2.1
  show normalizePublicKey platform.buffers (.text logPublicKey) = _
  unfold normalizePublicKey
  dsimp only
  rw [key_facts.2.2.1, if_neg (by decide), if_neg (not_not.2 hlength)]
  rfl

theorem verifyOperatorCheckpoint_eq :
    verifyOperatorCheckpoint platform.hash platform.ed platform.buffers checkpoint logKey =
      .ok ⟨checkpointBody, "log.example", 3, ofBase64 rootText, [checkpointLine]⟩ := by
  have hne : checkpointLine.toList ≠ [] := by
    rw [checkpointFacts.line]
    nofun
  have hlength : (ofBase64 checkpointSignature).length = 68 :=
    (base64_facts checkpointFacts.signature).2.2.2
  have hsigned : (ofBase64 logPublicKey, utf8 checkpointBody,
      (ofBase64 checkpointSignature).drop 4) ∈ signed := List.mem_cons_self
  have hverify : platform.ed.verifyAsync ((ofBase64 checkpointSignature).drop 4)
      (utf8 checkpointBody) (ofBase64 logPublicKey) = .ok true := by
    rw [Ed25519.verifyAsync, if_neg (by rw [List.length_drop, hlength]; decide),
      if_neg (not_not.2 key_facts.2.1)]
    exact congrArg Except.ok (decide_eq_true hsigned)
  exact verifyOperatorCheckpoint_of
    (parseCheckpointNote_of checkpointFacts.split parseCheckpointBody_eq checkpointFacts.single hne)
    rfl normalizePublicKey_eq checkpointFacts.keyIdEq rfl
    (parseSignatureLine_of checkpointFacts.line checkpointFacts.lineParts checkpointFacts.lineOk
      (decodeBase64_eq checkpointFacts.signature fun m hm => nomatch hm))
    hlength checkpointFacts.keyIdOk hverify

/-! ### The inclusion of the anchors -/

def entryBytes (i : ℕ) : Bytes :=
  ENTRY_VERSION :: (hexBytes ((recordHash i).toList.drop 7) ++ (ofBase64 operatorKey ++
    (hexBytes contextId.toList ++ (bigUint64 (1767225600000 + i * 60000) ++ [0x04]))))

/-- The context of the directory, which is sixteen bytes in hexadecimal. -/
def context : {text : String // ¬ (text.toList.length % 2 ≠ 0 ∨ !text.toList.all isHexDigit) ∧
    (hexBytes text.toList).length = 16} :=
  ⟨contextId, by
    rw [contextId, String.toList_ofList]
    decide +kernel⟩

/-- The hash of an anchor is one, and its time is a number of the language's. -/
structure AnchorFacts (i : ℕ) : Prop where
  isRef : isSha256Ref (recordHash i) = true
  digits : ¬ (((recordHash i).toList.drop 7).length % 2 ≠ 0 ∨
    !((recordHash i).toList.drop 7).all isHexDigit)
  length : (hexBytes ((recordHash i).toList.drop 7)).length = 32
  time : (anchor i).commitment.timestampMs.toBigInt platform.text =
    .ok ((1767225600000 + i * 60000 : ℕ) : ℤ)
  leafHash : isBase64Of 32 (leafHash i).toList = true
  leaf : Hash.fips180.leafHash (entryBytes i) = ofBase64 (Sample.leafHash i)
  proof : ∀ text ∈ inclusionProof i, isBase64Of 32 text.toList = true
  included : Hash.fips180.verifyInclusion i 3 (ofBase64 (Sample.leafHash i))
    ((inclusionProof i).map ofBase64) (ofBase64 rootText) = true

theorem anchorFacts (i : ℕ) (hi : i < 3) : AnchorFacts i := by
  constructor
  case isRef =>
    rw [isSha256Ref, hasHashPrefix]
    interval_cases i
    all_goals
      simp only [recordHash]
      rw [String.toList_ofList, String.toList_ofList]
      decide +kernel
  case leaf =>
    simp only [entryBytes, ofBase64]
    interval_cases i
    all_goals
      simp only [Sample.leafHash, recordHash, operatorKey, contextId]
      rw [String.toList_ofList, String.toList_ofList, String.toList_ofList, String.toList_ofList]
      decide +kernel
  case time =>
    interval_cases i
    all_goals decide +kernel
  case proof =>
    interval_cases i
    all_goals
      simp only [inclusionProof, Sample.leafHash, List.forall_mem_cons, List.not_mem_nil,
        false_implies, implies_true, and_true]
      repeat rw [String.toList_ofList]
      decide +kernel
  case included =>
    interval_cases i
    all_goals
      simp only [inclusionProof, Sample.leafHash, rootText, ofBase64, List.map_cons, List.map_nil]
      repeat rw [String.toList_ofList]
      decide +kernel
  all_goals
    interval_cases i
    all_goals
      simp only [recordHash, Sample.leafHash]
      rw [String.toList_ofList]
      decide +kernel

theorem serializeAnchorEntry_eq (i : ℕ) (hi : i < 3) :
    serializeAnchorEntry platform (anchor i).commitment = .ok (entryBytes i) := by
  have hfacts := anchorFacts i hi
  have hcreator : (anchor i).commitment.creatorKey.string?.bind base64urlDecode =
      some (ofBase64 operatorKey) := key_facts.2.2.2.1
  have hcontext : (anchor i).commitment.contextId.string?.map hexDecode =
      some (.ok (hexBytes contextId.toList)) := by
    refine congrArg some ?_
    exact if_neg context.2.1
  have hhash : hexDecode (withoutHashStart (anchor i).commitment.recordHash) =
      .ok (hexBytes ((recordHash i).toList.drop 7)) := by
    have hstart : hasHashPrefix (recordHash i) = true := by
      have hisRef := hfacts.isRef
      rw [isSha256Ref, Bool.and_eq_true, Bool.and_eq_true] at hisRef
      exact hisRef.1.1
    show hexDecode (withoutHashStart (recordHash i)) = _
    rw [withoutHashStart, if_pos hstart, afterHashPrefix, hexDecode, String.toList_ofList,
      if_neg hfacts.digits]
  have hmod : ((1767225600000 + i * 60000 : ℕ) : ℤ) % 2 ^ 64 =
      ((1767225600000 + i * 60000 : ℕ) : ℤ) := by omega
  have hlength : (hexBytes contextId.toList).length = 16 := context.2.2
  have htype : eventTypeUriToByte EVENT_TYPE_DIRECTORY_ANCHOR_URI = 0x04 := by decide +kernel
  unfold serializeAnchorEntry
  rw [hhash, hcreator, hcontext, hfacts.time]
  simp only [bind, Except.bind, pure, Except.pure, Option.map_some, Option.getD_some, hfacts.length,
    key_facts.1, hlength, hmod, Int.toNat_natCast, and_self, dif_pos, serializeEntry,
    entryBytes, htype]

theorem mapM_decode {texts : List String} (h : ∀ text ∈ texts, isBase64Of 32 text.toList = true) :
    texts.mapM (decodeCanonicalBase64 platform · 32) = .ok (texts.map ofBase64) := by
  induction texts with
  | nil => rfl
  | cons text texts ih =>
      rw [List.mapM_cons, decodeCanonicalBase64_eq (h text List.mem_cons_self),
        ih fun t ht => h t (List.mem_cons_of_mem _ ht)]
      rfl

theorem checkAnchorInclusion_eq (i : ℕ) (hi : i < 3) :
    checkAnchorInclusion platform logKey (anchor i).commitment
        ⟨i, checkpoint, inclusionProof i, leafHash i⟩ =
      .ok ⟨checkpointBody, "log.example", 3, ofBase64 rootText, [checkpointLine]⟩ := by
  have hfacts := anchorFacts i hi
  have hbytes : inclusionBytes platform (anchor i).commitment
      ⟨i, checkpoint, inclusionProof i, leafHash i⟩ = .ok _ :=
    inclusionBytes_of (serializeAnchorEntry_eq i hi) (decodeCanonicalBase64_eq hfacts.leafHash)
      (mapM_decode hfacts.proof)
  have hproof : Hash.fips180.verifyInclusion i 3 (Hash.fips180.leafHash (entryBytes i))
      ((inclusionProof i).map ofBase64) (ofBase64 rootText) = true := by
    rw [hfacts.leaf]
    exact hfacts.included
  exact checkAnchorInclusion_of verifyOperatorCheckpoint_eq rfl hi hbytes hfacts.leaf hproof

theorem anchorProofBundle?_eq (i : ℕ) (hi : i < 3) :
    anchorProofBundle? (bundle i) = some ⟨i, checkpoint, inclusionProof i, leafHash i⟩ := by
  have hproof : ((inclusionProof i).map JsValue.string).mapM JsValue.string? =
      some (inclusionProof i) := by
    interval_cases i
    all_goals rfl
  have hlogIndex : (bundle i).member "log_index" = .number (.finite i) := rfl
  have hcheckpoint : (bundle i).member "checkpoint" = .string checkpoint := rfl
  have hinclusion : (bundle i).member "inclusion_proof" =
      .array ((inclusionProof i).map .string) := rfl
  have hleaf : (bundle i).member "leaf_hash" = .string (leafHash i) := rfl
  unfold anchorProofBundle?
  rw [hlogIndex, hcheckpoint, hinclusion, hleaf]
  simp only [JsValue.number?, JsValue.string?, JsValue.array?, Option.bind_eq_bind,
    Option.bind_some, JsNumber.safeIndex?_natCast (show i ≤ 2 ^ 53 - 1 by omega), hproof]
  rfl

/-! ### The history is honest -/

theorem deriveDirectoryContextId_eq : deriveDirectoryContextId platform origin = contextId := by
  decide +kernel

theorem hexToBytes_root (i : ℕ) (hi : i < 3) :
    hexToBytes platform (.string (hexEncode (digest i))) = .ok (digest i) := by
  interval_cases i
  all_goals decide +kernel

/-- The text of each body, with its record hash. -/
def bodyText (i : ℕ) (hi : i < 3) :
    {text : String // text = String.ofList (json (body i)) ∧
      sha256Ref (Hash.fips180.sha256 (utf8 text)) = recordHash i} :=
  ⟨String.ofList (json (body i)), rfl, by
    rw [utf8_ofList]
    simp only [body, unsignedMembers, laterMembers, List.cons_append, List.nil_append, json,
      jsonMember, jsonScalar, jsonObject, List.map_cons, List.map_nil, List.flatMap_cons,
      List.flatMap_nil, contextId, operatorKey, origin, EVENT_TYPE_DIRECTORY_ANCHOR_URI, digest]
    interval_cases i
    all_goals
      simp only [chainRoot, signature, recordHash]
      repeat rw [String.toList_ofList]
      decide +kernel⟩

theorem normalize_recordHash (i : ℕ) (hi : i < 3) :
    normalizeAnchorRecordHash (recordHash i) = some (recordHash i) := by
  have hisRef := (anchorFacts i hi).isRef
  have hstart : hasHashPrefix (recordHash i) = true := by
    rw [isSha256Ref, Bool.and_eq_true, Bool.and_eq_true] at hisRef
    exact hisRef.1.1
  rw [normalizeAnchorRecordHash, withHashPrefix, if_pos hstart]
  exact if_pos hisRef

theorem honestAnchor (i : ℕ) (hi : i < 3) : HonestAnchor platform history i (anchor i) where
  entryType := rfl
  entryCreator := rfl
  entryContext := congrArg JsValue.string deriveDirectoryContextId_eq.symm
  entryTimestamp := rfl
  entryHash := ⟨recordHash i, rfl, normalize_recordHash i hi⟩
  entryIndex := JsNumber.safeIndex?_natCast (by omega)
  bodyType := rfl
  bodyCreator := rfl
  bodyContext := congrArg JsValue.string deriveDirectoryContextId_eq.symm
  bodyTimestamp := rfl
  origin := rfl
  epoch := by
    show JsValue.number (.finite (i + 1 : ℕ)) = .number (.finite (1 + i : ℕ))
    rw [Nat.add_comm]
  root := ⟨hexEncode (digest i), rfl, hexToBytes_root i hi⟩
  rootLength := List.length_replicate
  hashes := congrArg (fun text => Except.ok (some text)) (bodyText i hi).2.2
  signature := ⟨signature i, rfl, by interval_cases i <;> decide +kernel⟩
  signed := ⟨unsignedText i, rfl, anchorSignatureOk_eq i hi⟩

/-- The record hashes, which differ from one another and from the root of the first anchor. -/
def recordHashes :
    {hashes : List String // hashes = (List.range 3).map recordHash ∧ hashes.Nodup ∧
      directoryAnchorGenesisRoot platform contextId ∉ hashes} :=
  ⟨_, rfl, by decide +kernel⟩

theorem honestHistory : HonestHistory platform history where
  originPresent := by decide +kernel
  anchor := honestAnchor
  chained i hi := ⟨recordHash i, rfl, normalize_recordHash i (Nat.lt_of_succ_lt hi)⟩
  ordered i _ := Nat.lt_succ_self i
  distinct i hi j hj h := by
    have hnodup := recordHashes.2.2.1
    rw [recordHashes.2.1] at hnodup
    exact List.inj_on_of_nodup_map hnodup (List.mem_range.2 hi) (List.mem_range.2 hj) h
  notGenesis i hi := by
    have hgenesis := recordHashes.2.2.2
    rw [recordHashes.2.1] at hgenesis
    show recordHash i ≠ directoryAnchorGenesisRoot platform (deriveDirectoryContextId _ origin)
    rw [deriveDirectoryContextId_eq]
    exact fun h => hgenesis (List.mem_map.2 ⟨i, List.mem_range.2 hi, h⟩)

/-! ### The servers answer -/

theorem lookup_answers {url : String} {body : JsValue} (h : (url, body) ∈ answers) :
    answers.lookup url = some body := by
  have hnodup : (answers.map Prod.fst).Nodup := by decide +kernel
  have hlookup := lookup_map_of_injective (f := Prod.fst) (g := Prod.snd)
    (fun a ha hsame => List.inj_on_of_nodup_map hnodup ha h hsame) h
  simpa using hlookup

theorem answers_of_mem {url url' : String} {body : JsValue} (h : (url', body) ∈ answers)
    (hurl : url = url') : Answers (platform.fetchFn url) body := by
  intro world
  refine ⟨⟨200, "OK", .ok body, .ok ""⟩, world, ?_, rfl, rfl⟩
  show (_, _) = (_, _)
  rw [hurl, lookup_answers h]

/-- The proof of a range has its two ends, and its steps are those of the history. -/
theorem honestAudit (prior : ℕ) (hprior : prior < 2) : ∃ bytes proof,
    base64urlToBytes platform (.string (auditProof prior)) = .ok bytes ∧
      akd.deserialize bytes = .ok proof ∧ HonestAudit akd history prior 2 proof := by
  have hbytes : ofBase64 (auditProof prior) = [UInt8.ofNat (prior + 1), 3] := by
    interval_cases prior
    all_goals decide +kernel
  refine ⟨_, _, (base64urlToBytes_eq _).trans (congrArg _ hbytes), rfl, ?_⟩
  constructor
  case accepted =>
    intro k single hsingle
    obtain ⟨hk, -⟩ := List.getElem?_eq_some_iff.1 hsingle
    interval_cases prior
    · have hk : k < 2 := hk
      interval_cases k
      all_goals
        cases hsingle
        decide +kernel
    · have hk : k < 1 := hk
      interval_cases k
      cases hsingle
      decide +kernel
  all_goals
    interval_cases prior
    all_goals rfl

theorem honestServers (prior : ℕ) :
    HonestServers platform history creatorKey (options prior) akd lookupBody 2 where
  lookup := ⟨creatorKey, rfl, answers_of_mem (List.mem_append_left _ (.head _)) (by
    show withoutTrailingSlash endpoint ++ "/lookup/" ++ creatorKey = _
    decide +kernel)⟩
  claim := by decide +kernel
  lookupEpoch := rfl
  lookupFound := rfl
  anchor := ⟨_, answers_of_mem (List.mem_append_left _ (.tail _ (.head _))) (by
    show withoutTrailingSlash endpoint ++ "/anchor" = _
    decide +kernel), rfl⟩
  entries := ⟨_, answers_of_mem (List.mem_append_left _ (.tail _ (.tail _ (.head _)))) (by
    rw [show deriveDirectoryContextId platform history.origin = contextId from
      deriveDirectoryContextId_eq]
    decide +kernel), rfl⟩
  bodies i hi world := by
    refine ⟨body i, world, ?_, rfl⟩
    have hfind : ((List.range 3).find? fun j => recordHash j = recordHash i) = some i := by
      have hi : i < 3 := hi
      interval_cases i
      all_goals decide +kernel
    show (Except.ok (((List.range 3).find? fun j => recordHash j = recordHash i).elim _ body),
      world) = _
    rw [hfind]
    rfl
  proofs i hi := ⟨bundle i, _, _, answers_of_mem (List.mem_append_right _
    (List.mem_map.2 ⟨i, List.mem_range.2 hi, rfl⟩)) (congrArg (· ++ _) (by
      show withoutTrailingSlash logEndpoint ++ "/proof/" = _
      decide +kernel)), anchorProofBundle?_eq i hi, checkAnchorInclusion_eq i hi⟩
  audits prior hprior := by
    obtain ⟨bytes, proof, hbytes, hproof, haudit⟩ := honestAudit prior hprior
    refine ⟨auditBody prior, auditProof prior, bytes, proof, ?_, ?_, rfl, rfl, ?_, hbytes, hproof,
      haudit⟩
    · interval_cases prior
      · refine answers_of_mem (List.mem_append_left _ (.tail _ (.tail _ (.tail _ (.head _))))) ?_
        show withoutTrailingSlash endpoint ++ _ ++ numberText _ ++ _ ++ numberText _ = _
        decide +kernel
      · refine answers_of_mem (List.mem_append_left _
          (.tail _ (.tail _ (.tail _ (.tail _ (.head _)))))) ?_
        show withoutTrailingSlash endpoint ++ _ ++ numberText _ ++ _ ++ numberText _ = _
        decide +kernel
    · show JsValue.number (.finite (prior + 1 : ℕ)) = .number (.finite (1 + prior : ℕ))
      rw [Nat.add_comm]
    · interval_cases prior
      all_goals decide +kernel

theorem consults (prior : ℕ) (hprior : prior < 3) :
    Consults platform history creatorKey (options prior) akd lookupBody prior 2 where
  inputs := by
    have h₁ : present (some logEndpoint) = some logEndpoint := by decide +kernel
    have h₂ : present (some operatorKey) = some operatorKey := by decide +kernel
    show (do
      let logEndpoint ← present (some logEndpoint)
      let directoryOperatorKey ← present (some operatorKey)
      let fetchAnchorBody ← some fetchAnchorBody
      return (⟨logEndpoint, directoryOperatorKey, fetchAnchorBody⟩ : StepOneInputs Unit)) = _
    rw [h₁, h₂]
    rfl
  logKey := rfl
  audit := rfl
  previous := ⟨recordHash prior, by
    have hne : present (some (recordHash prior)) = some (recordHash prior) := by
      interval_cases prior
      all_goals decide +kernel
    exact hne, normalize_recordHash prior hprior⟩
  order := by omega
  published := by show 2 < 3; decide
  atTime := by
    show (((1767225600000 + 2 * 60000 : ℕ) : ℚ)) ≤ 1767226000000
    norm_num
  newest i hlt hi := absurd hi (by show ¬ i < 3; omega)
  witnesses session hthrows := (throws_runStepThree.1 hthrows).1 rfl
  lookupProof verifyLookupProof vrfPublicKey hverify := nomatch hverify

end Sample

/-! ## The verdict -/

section

variable {σ : Type} {P : Platform σ} {d : DirectoryHistory σ} {creatorKey : String}
  {opts : ResolveIdentityOptions σ} {akd : Akd} {lookupBody : JsValue} {prior current : ℕ}

/-- An honest directory is accepted exactly when the anchor that was consulted before is
the current one or the one just before it. -/
theorem honest_accepted_iff (hhistory : HonestHistory P d)
    (hservers : HonestServers P d creatorKey opts akd lookupBody current)
    (hconsults : Consults P d creatorKey opts akd lookupBody prior current) (world : σ) :
    (∃ result world', resolveIdentity P creatorKey opts world = (.ok result, world') ∧
      result.appendOnlyConsistent = some true ∧ result.identityResolutionMethod ≠ .rejected) ↔
      current ≤ prior + 1 := by
  obtain ⟨result, world', hresult, hverdict⟩ :=
    yields_resolveIdentity hhistory hservers hconsults world
  constructor
  · intro h
    obtain ⟨result', world'', hresult', haccepted⟩ := h
    cases hresult.symm.trans hresult'
    exact hverdict.1 haccepted
  · intro h
    exact ⟨result, world', hresult, hverdict.2 h⟩

end

theorem honest_accepted_iff_sample :
    (∃ result world', resolveIdentity Sample.platform Sample.creatorKey (Sample.options 1) () =
        (.ok result, world') ∧
      result.appendOnlyConsistent = some true ∧ result.identityResolutionMethod ≠ .rejected) ↔
      2 ≤ 1 + 1 :=
  honest_accepted_iff Sample.honestHistory (Sample.honestServers 1)
    (Sample.consults 1 (by decide)) ()

/-- The directory of the sample is honest, and is rejected two epochs later. -/
theorem honest_rejected : HonestHistory Sample.platform Sample.history ∧
    HonestServers Sample.platform Sample.history Sample.creatorKey (Sample.options 0) Sample.akd
      Sample.lookupBody 2 ∧
    Consults Sample.platform Sample.history Sample.creatorKey (Sample.options 0) Sample.akd
      Sample.lookupBody 0 2 ∧
    ¬ ∃ result world', resolveIdentity Sample.platform Sample.creatorKey (Sample.options 0) () =
        (.ok result, world') ∧
      result.appendOnlyConsistent = some true ∧ result.identityResolutionMethod ≠ .rejected := by
  have hhistory := Sample.honestHistory
  have hservers := Sample.honestServers 0
  have hconsults := Sample.consults 0 (by decide)
  refine ⟨hhistory, hservers, hconsults, fun h => ?_⟩
  obtain ⟨result, world', hresult, haccepted⟩ := h
  obtain ⟨result', world'', hresult', hverdict⟩ :=
    yields_resolveIdentity hhistory hservers hconsults ()
  cases hresult.symm.trans hresult'
  exact absurd (hverdict.1 haccepted) (by decide)

/-- The accepted query of the sample, and the chain behind it. -/
theorem appendOnlyConsistent_sound_sample : ∃ result world' surface p operatorKey previousHash,
    resolveIdentity Sample.platform Sample.creatorKey (Sample.options 1) () =
        (.ok result, world') ∧
      result.appendOnlyConsistent = some true ∧ result.anchor = some surface ∧
      (Sample.options 1).previousAnchorRecordHash = some p ∧
      (Sample.options 1).directoryOperatorKey = some operatorKey ∧
      normalizeAnchorRecordHash p = some previousHash ∧
      (previousHash = surface.anchorRecordHash ∨ ChainsBack Sample.platform (Sample.options 1)
        operatorKey previousHash surface.anchorRecordHash) := by
  obtain ⟨result, world', hresult, hverdict⟩ := yields_resolveIdentity Sample.honestHistory
    (Sample.honestServers 1) (Sample.consults 1 (by decide)) ()
  have haccepted := (hverdict.2 (by decide)).1
  obtain ⟨surface, p, operatorKey, previousHash, hsurface⟩ :=
    (appendOnlyConsistent_sound Sample.platform (Sample.options 1) Sample.creatorKey).1 _ _ _
      hresult haccepted
  exact ⟨result, world', surface, p, operatorKey, previousHash, hresult, haccepted, hsurface⟩

end Atrib.Verify
