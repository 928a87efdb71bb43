import Atrib.Mcp.Readline
import Atrib.Mcp.Signing
import Atrib.Recall.StateProjection
import Atrib.Verify.Handoff

/-!
# The records of a mirror

The lines of mirror files as recall reads them: `extractLoaded` and
`parseLoadedJsonl` of `services/atrib-recall/src/aggregations.ts`, `loadRecords`
of its `index.ts`, the content of a sidecar from
`packages/mcp/src/local-sidecar.ts`, and what the annotations and the revisions
among the records say of others.

A line that is not JSON or not a record is skipped. A record whose canonical
form cannot be made is not: `computeRecordHash` throws, and so does the reader.
-/

namespace Atrib.Recall.Mirror

open Lib (InsertionMap InsertionSet.add JsValue sortBy)
open Middleware (canonicalBytes)
open Verify (hasMember isPlainObject isText)

/-- The libraries, and what the language does with texts. -/
structure Platform extends toMiddleware : Middleware.Platform where
  /-- `line.trim() === ''` -/
  isBlank : Bytes → Bool
  /-- `JSON.parse(line.trim())`, unless it throws -/
  parse : Bytes → Option JsValue
  toLowerCase : String → String
  localeCompare : String → String → Ordering

variable (P : Platform)

def EVENT_TYPE_OBSERVATION_URI : String := "https://atrib.dev/v1/types/observation"
def EVENT_TYPE_ANNOTATION_URI : String := "https://atrib.dev/v1/types/annotation"
def EVENT_TYPE_REVISION_URI : String := "https://atrib.dev/v1/types/revision"

/-! ## Sidecars -/

def firstString (values : List JsValue) : Option String :=
  values.findSome? fun value => value.string?.filter (· ≠ "")

def copyIfPresent (key : String) (value : JsValue) : List (String × JsValue) :=
  if value matches .undefined then [] else [(key, value)]

def setString (key : String) (value : Option String) : List (String × JsValue) :=
  (value.map fun text => (key, .string text)).toList

def copyOpenInferenceIdentity (sidecar : JsValue) : List (String × JsValue) :=
  setString "source" (firstString [sidecar.member "source"]) ++
    setString "span_kind" (firstString [sidecar.member "span_kind", sidecar.member "spanKind"]) ++
    setString "span_name" (firstString [sidecar.member "span_name", sidecar.member "spanName"]) ++
    setString "trace_id" (firstString [sidecar.member "trace_id", sidecar.member "traceId"]) ++
    setString "span_id" (firstString [sidecar.member "span_id", sidecar.member "spanId"])

def deriveToolCallContent (sidecar : JsValue) : JsValue :=
  let out :=
    setString "tool_name" (firstString [sidecar.member "tool_name", sidecar.member "toolName"]) ++
    copyIfPresent "args" (((sidecar.member "args").orElse (sidecar.member "input")).orElse
      (sidecar.member "arguments")) ++
    copyIfPresent "result" (((sidecar.member "result").orElse (sidecar.member "output")).orElse
      (sidecar.member "response")) ++
    copyIfPresent "authorization_evidence" (sidecar.member "authorizationEvidence") ++
    copyIfPresent "resolved_facts" (sidecar.member "resolvedFacts") ++
    copyOpenInferenceIdentity sidecar
  if out = [] then .undefined else .object out

def deriveOpenInferenceContent (eventTypeUri : String) (sidecar : JsValue) : JsValue :=
  let traceId := firstString [sidecar.member "trace_id", sidecar.member "traceId"]
  let spanId := firstString [sidecar.member "span_id", sidecar.member "spanId"]
  let spanKind := firstString [sidecar.member "span_kind", sidecar.member "spanKind"]
  let spanName := firstString [sidecar.member "span_name", sidecar.member "spanName"]
  if traceId.isSome || spanId.isSome || spanKind.isSome || spanName.isSome ||
      hasMember sidecar "input" || hasMember sidecar "output" || hasMember sidecar "agentName" ||
      hasMember sidecar "llmOutputToolCallId" then
    .object <| [("source", .string "openinference")] ++ setString "span_kind" spanKind ++
      [("topics", .array (.string "openinference" ::
        (spanKind.map fun kind => .string (P.toLowerCase kind)).toList))] ++
      setString "span_name" spanName ++ setString "trace_id" traceId ++
      setString "span_id" spanId ++ copyIfPresent "input" (sidecar.member "input") ++
      copyIfPresent "output" (sidecar.member "output") ++
      setString "agent_name"
        (firstString [sidecar.member "agent_name", sidecar.member "agentName"]) ++
      setString "model_name"
        (firstString [sidecar.member "model_name", sidecar.member "modelName"]) ++
      setString "llm_output_tool_call_id" (firstString
        [sidecar.member "llm_output_tool_call_id", sidecar.member "llmOutputToolCallId"]) ++
      setString "what" ((spanKind.filter fun _ => eventTypeUri = EVENT_TYPE_OBSERVATION_URI).map
        fun kind => "OpenInference " ++ P.toLowerCase kind ++ " span" ++
          (spanName.elim "" fun name => ": " ++ name))
  else .undefined

def deriveLocalContentFromSidecar (eventTypeUri : String) (sidecar : JsValue) : JsValue :=
  if !isPlainObject sidecar then .undefined
  else if hasMember sidecar "content" then sidecar.member "content"
  else if eventTypeUri = Middleware.EVENT_TYPE_TOOL_CALL_URI ∧
      !(deriveToolCallContent sidecar matches .undefined) then deriveToolCallContent sidecar
  else deriveOpenInferenceContent P eventTypeUri sidecar

/-! ## Records -/

/-- A record as it is read, with the members that have been checked. -/
structure AtribRecord where
  value : JsValue
  eventType : String
  contextId : String
  creatorKey : String
  chainRoot : String
  timestamp : ℚ
  eventType_eq : value.member "event_type" = .string eventType
  contextId_eq : value.member "context_id" = .string contextId
  creatorKey_eq : value.member "creator_key" = .string creatorKey
  chainRoot_eq : value.member "chain_root" = .string chainRoot
  timestamp_eq : value.member "timestamp" = .number (.finite timestamp)
deriving DecidableEq

def AtribRecord.ofValue? (value : JsValue) : Option AtribRecord :=
  match eventType_eq : value.member "event_type", contextId_eq : value.member "context_id",
    creatorKey_eq : value.member "creator_key", chainRoot_eq : value.member "chain_root",
    timestamp_eq : value.member "timestamp" with
  | .string eventType, .string contextId, .string creatorKey, .string chainRoot,
    .number (.finite timestamp) =>
      if isText (value.member "spec_version") ∧ (isText (value.member "signature") ∨
          !hasMember value "signature" ∧ Verify.hasCreatorSignerEntry value) then
        some ⟨value, eventType, contextId, creatorKey, chainRoot, timestamp, eventType_eq,
          contextId_eq, creatorKey_eq, chainRoot_eq, timestamp_eq⟩
      else none
  | _, _, _, _, _ => none

/-- Content that is not there is `undefined`. -/
structure LoadedRecord where
  record : AtribRecord
  recordHash : RecordHash
  content : JsValue := .undefined
  producer : Option String := none
deriving DecidableEq

def extractLoaded (parsed : JsValue) : Option (AtribRecord × JsValue × Option String) :=
  if !parsed.isObject then none
  else
    let envelopeRecord := parsed.member "record"
    let isEnvelope := envelopeRecord.isObject
    match AtribRecord.ofValue? (if isEnvelope then envelopeRecord else parsed) with
    | none => none
    | some record =>
        let sidecar := parsed.member "_local"
        if isEnvelope && sidecar.truthy then
          some (record, deriveLocalContentFromSidecar P record.eventType sidecar,
            (sidecar.member "producer").string?)
        else some (record, .undefined, none)

def computeRecordHash (record : AtribRecord) : Except String RecordHash := do
  let bytes ← canonicalBytes P.toMiddleware record.value
  return ⟨sha256Ref (P.hash.sha256 bytes), isSha256Ref_sha256Ref (P.hash.length_sha256 _)⟩

/-- One round of the loop over the lines. -/
def loadLine (line : Bytes) : Except String (Option LoadedRecord) :=
  if P.isBlank line then .ok none
  else
    match (P.parse line).bind (extractLoaded P) with
    | none => .ok none
    | some (record, content, producer) => do
        let recordHash ← computeRecordHash P record
        return some ⟨record, recordHash, content, producer⟩

def loadLines (lines : List Bytes) : Except String (List LoadedRecord) :=
  List.reduceOption <$> lines.mapM (loadLine P)

def parseLoadedJsonl (raw : Bytes) : Except String (List LoadedRecord) := loadLines P (splitLF raw)

/-! ## Bare records -/

/-- The members that `extractRecord` checks. -/
def isRecord (candidate : JsValue) : Bool :=
  isText (candidate.member "spec_version") && isText (candidate.member "event_type") &&
    isText (candidate.member "context_id") && isText (candidate.member "creator_key") &&
    isText (candidate.member "chain_root") &&
    (isText (candidate.member "signature") ||
      !hasMember candidate "signature" && Verify.hasCreatorSignerEntry candidate)

def extractRecord (parsed : JsValue) : Option JsValue :=
  if !parsed.isObject then none
  else
    let candidate := if (parsed.member "record").isObject then parsed.member "record" else parsed
    if isRecord candidate then some candidate else none

/-- One round of the loop of `loadRecords`. -/
def loadRecordLine (line : Bytes) : Option JsValue :=
  if P.isBlank line then none else (P.parse line).bind extractRecord

def loadRecords (raw : Bytes) : List JsValue := (splitLF raw).filterMap (loadRecordLine P)

/-! ## Targets -/

/-- The signed member, or else the member of the content. -/
def LoadedRecord.targetRef (lr : LoadedRecord) (field : String) : Option RecordHash :=
  (Recall.LoadedRecord.recordRef? (lr.record.value.member field)).orElse fun _ =>
    Recall.LoadedRecord.recordRef? (lr.content.member field)

def LoadedRecord.revisionTarget (lr : LoadedRecord) : Option RecordHash := lr.targetRef "revises"

/-! ## Annotations -/

/-- What `IMPORTANCE_NUMERIC` has under a name: a number, or something that every object
inherits, which compares like its text. -/
inductive Grade where
  | number (n : ℕ)
  | inherited (text : String)

def nativeCode (name : String) : String := "function " ++ name ++ "() \x7b [native code] \x7d"

def IMPORTANCE_NUMERIC : List (String × Grade) :=
  [("critical", .number 5), ("high", .number 4), ("medium", .number 3), ("low", .number 2),
    ("noise", .number 1), ("constructor", .inherited (nativeCode "Object")),
    ("__proto__", .inherited "[object Object]")] ++
  (["__defineGetter__", "__defineSetter__", "hasOwnProperty", "__lookupGetter__",
    "__lookupSetter__", "isPrototypeOf", "propertyIsEnumerable", "toString", "valueOf",
    "toLocaleString"].map fun name => (name, .inherited (nativeCode name)))

/-- `IMPORTANCE_NUMERIC[a] >= IMPORTANCE_NUMERIC[b]` -/
def importanceGe (a b : String) : Bool :=
  match IMPORTANCE_NUMERIC.lookup a, IMPORTANCE_NUMERIC.lookup b with
  | some (.number m), some (.number n) => n ≤ m
  | some (.inherited s), some (.inherited t) => JsValue.codeUnits t ≤ JsValue.codeUnits s
  | _, _ => false

structure AnnotationSummary where
  maxImportance : Option String := none
  topics : Option (List String) := none
  summary : Option String := none
deriving DecidableEq

/-- `summaryTs` is `none` for `-Infinity`. -/
structure AnnotationBin where
  importances : List String := []
  topics : List String := []
  summary : Option String := none
  summaryTs : Option ℚ := none

def contentStrings (content : JsValue) (key : String) : List String :=
  (((content.member key).array?.getD []).filterMap (·.string?)).filter (· ≠ "")

def AnnotationBin.add (bin : AnnotationBin) (content : JsValue) (timestamp : ℚ) :
    AnnotationBin where
  importances := bin.importances ++
    ((content.member "importance").string?.filter fun label =>
      (IMPORTANCE_NUMERIC.lookup label).isSome).toList
  topics := (contentStrings content "topics" ++ contentStrings content "topic_tags").foldl
    InsertionSet.add bin.topics
  summary :=
    match (content.member "summary").string? with
    | some text => if bin.summaryTs.all (· ≤ timestamp) then some text else bin.summary
    | none => bin.summary
  summaryTs :=
    match (content.member "summary").string? with
    | some _ => if bin.summaryTs.all (· ≤ timestamp) then some timestamp else bin.summaryTs
    | none => bin.summaryTs

def maxImportance : List String → Option String
  | [] => none
  | label :: labels => some (labels.foldl (fun a b => if importanceGe a b then a else b) label)

def AnnotationBin.result (bin : AnnotationBin) : AnnotationSummary where
  maxImportance := maxImportance bin.importances
  topics :=
    if bin.topics = [] then none
    else some (sortBy (fun a b => compare (JsValue.codeUnits a) (JsValue.codeUnits b)) bin.topics)
  summary := bin.summary

/-- The record an annotation with a body is about. -/
def LoadedRecord.annotationTarget (lr : LoadedRecord) : Option RecordHash :=
  if lr.record.eventType = EVENT_TYPE_ANNOTATION_URI ∧ lr.content.isObject then
    lr.targetRef "annotates"
  else none

def addAnnotation (bins : InsertionMap RecordHash AnnotationBin) (lr : LoadedRecord) :
    InsertionMap RecordHash AnnotationBin :=
  match lr.annotationTarget with
  | none => bins
  | some target =>
      bins.set target (((bins.get? target).getD {}).add lr.content lr.record.timestamp)

def aggregateAnnotationsByRecord (loaded : List LoadedRecord) :
    InsertionMap RecordHash AnnotationSummary :=
  (loaded.foldl addAnnotation ∅).mapVal fun _ => AnnotationBin.result

/-! ## Revisions -/

/-- The record a revision revises. -/
def LoadedRecord.revised (lr : LoadedRecord) : Option RecordHash :=
  if lr.record.eventType = EVENT_TYPE_REVISION_URI then lr.revisionTarget else none

def addRevision (bins : InsertionMap RecordHash (List LoadedRecord)) (lr : LoadedRecord) :
    InsertionMap RecordHash (List LoadedRecord) :=
  match lr.revised with
  | none => bins
  | some target => bins.set target (((bins.get? target).getD []) ++ [lr])

def compareRevision (a b : LoadedRecord) : Ordering :=
  (compare a.record.timestamp b.record.timestamp).then
    (P.localeCompare a.recordHash.val b.recordHash.val)

def aggregateRevisionsByRecord (loaded : List LoadedRecord) :
    InsertionMap RecordHash (List RecordHash) :=
  (loaded.foldl addRevision ∅).mapVal fun _ entries =>
    (sortBy (compareRevision P) entries).map (·.recordHash)

end Atrib.Recall.Mirror
