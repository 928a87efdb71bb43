import Mathlib.Data.Rat.Floor
import Atrib.Recall.LocalGraph
import Atrib.Recall.Snapshot

/-!
# Recall

`recall` and the other shapes of `services/atrib-recall/src/index.ts` that are
served from the snapshot of the whole mirror. They share the snapshot, and the
array of its records. `filter`, `slice` and a spread make an array of their own,
and sorting one of these is nobody else's business; sorting the array of the
snapshot is, and it is what `recall` returns beside its answer.

The scores of the relevance ranking are floating-point numbers and come from a
parameter, and so do the labels for display (`legibility.ts`). The clock stands
still.
-/

namespace Atrib.Recall.Mirror

open Lib (InsertionMap InsertionSet.add InsertionSet.ofList JsNumber JsValue sortBy)

structure RecallPlatform extends mirror : Platform where
  now : ℚ
  /-- `ATRIB_CONTEXT_ID_DEFAULT` -/
  contextIdDefault : Option String
  /-- `resolveEnvContextId()` -/
  envContextId : Option String
  noiseFloor : ℚ
  /-- the scores of the records that are ranked, by hash -/
  parkScores : List LoadedRecord → InsertionMap RecordHash AnnotationSummary → Option String →
    RecordHash → ℚ
  synthesizeDisplaySummary : AtribRecord → JsValue → Option AnnotationSummary → Except String String
  resolveDisplayProducer : AtribRecord → Option String → String
  formatAge : ℚ → Except String String
  projection : ProjectionPlatform

variable (P : RecallPlatform)

def EVENT_TYPE_SHORT_NAMES : List String :=
  ["tool_call", "transaction", "observation", "directory_anchor", "annotation", "revision"]

def normalizeEventType (value : String) : String :=
  let aliases := EVENT_TYPE_SHORT_NAMES.flatMap fun name =>
    (name, "https://atrib.dev/v1/types/" ++ name) ::
      ["/event/", "/events/", "/v1/event/", "/v1/events/"].map fun path =>
        ("https://atrib.dev" ++ path ++ name, "https://atrib.dev/v1/types/" ++ name)
  (aliases.lookup value).getD value

/-! ## The arguments of recall -/

inductive RankBy where
  | timestamp
  | relevance
  | causalDistance
deriving DecidableEq

/-- An argument that is not given is `none`. -/
structure RecallArgs where
  contextId : Option String := none
  contextScope : Option String := none
  creatorKey : Option String := none
  eventType : Option String := none
  contentId : Option String := none
  toolName : Option String := none
  argsHash : Option String := none
  minImportance : Option String := none
  topicTags : List String := []
  includeRevised : Bool := false
  minSigners : Option ℚ := none
  rankBy : RankBy := .timestamp
  rankAnchor : Option String := none
  limit : Option ℚ := none
  offset : Option ℚ := none
  compact : Bool := true
  includeUnverified : Bool := false
  toc : Bool := false

namespace RecallArgs

variable (args : RecallArgs)

/-- `args.context_id ?? (...)`, if it is truthy -/
def effectiveContextId : Option String :=
  (args.contextId.orElse fun _ =>
    if args.contextScope = some "env" then P.contextIdDefault else none).filter (· ≠ "")

def matchesMember (key : String) (value : Option String) : Option (LoadedRecord → Bool) :=
  (value.filter (· ≠ "")).map fun text lr => (lr.record.value.member key).strictEq (.string text)

def signerCount (lr : LoadedRecord) : ℕ :=
  ((lr.record.value.member "signers").array?.map List.length).getD 1

variable (annotationsByRecord : InsertionMap RecordHash AnnotationSummary)
  (revisionsByRecord : InsertionMap RecordHash (List RecordHash))

/-- The filters that the arguments ask for. -/
def filters : List (LoadedRecord → Bool) :=
  let asked : List (Option (LoadedRecord → Bool)) :=
    [(effectiveContextId P args).map fun contextId lr => decide (lr.record.contextId = contextId),
      (args.creatorKey.filter (· ≠ "")).map fun key lr => decide (lr.record.creatorKey = key),
      (args.eventType.filter (· ≠ "")).map fun eventType lr =>
        decide (lr.record.eventType = normalizeEventType eventType),
      matchesMember "content_id" args.contentId,
      matchesMember "tool_name" args.toolName,
      matchesMember "args_hash" args.argsHash,
      (args.minImportance.filter (· ≠ "")).map fun label lr =>
        ((annotationsByRecord.get? lr.recordHash).bind (·.maxImportance)).any (importanceGe · label),
      if args.topicTags = [] then none
      else some fun lr =>
        (((annotationsByRecord.get? lr.recordHash).bind (·.topics)).getD []).any
          args.topicTags.contains,
      if args.includeRevised then some fun lr => !revisionsByRecord.has lr.recordHash else none,
      args.minSigners.map fun count lr => decide (count ≤ (signerCount lr : ℚ))]
  asked.reduceOption

def selects (lr : LoadedRecord) : Bool :=
  (args.filters P annotationsByRecord revisionsByRecord).all (· lr)

end RecallArgs

/-- `all`, through the filters one after the other. -/
def filtered (args : RecallArgs) (snapshot : LoadedMirrorSnapshot) : List LoadedRecord :=
  (args.filters P snapshot.annotationsByRecord snapshot.revisionsByRecord).foldl
    (fun records selected => records.filter selected) snapshot.loaded

/-! ## Rankings -/

section

variable (annotationsByRecord : InsertionMap RecordHash AnnotationSummary)

def compareRelevance (scores : RecordHash → ℚ) (a b : LoadedRecord) : Ordering :=
  (compare (scores b.recordHash) (scores a.recordHash)).then (newestFirst a b)

/-- `Infinity` is `none`. -/
def compareDistance (dist : InsertionMap String ℕ) (a b : LoadedRecord) : Ordering :=
  let order := match dist.get? a.recordHash.val, dist.get? b.recordHash.val with
    | some da, some db => compare da db
    | some _, none => .lt
    | none, some _ => .gt
    | none, none => .eq
  order.then (newestFirst a b)

/-- The comparison by which the records are sorted. -/
def rankOrder (args : RecallArgs) (filtered all : List LoadedRecord) :
    LoadedRecord → LoadedRecord → Ordering :=
  match args.rankBy with
  | .timestamp => newestFirst
  | .relevance => compareRelevance (P.parkScores filtered annotationsByRecord args.rankAnchor)
  | .causalDistance =>
      match args.rankAnchor.filter (isSha256Ref ·) with
      | none => newestFirst
      | some anchor =>
          compareDistance (shortestDistances (buildLocalGraph P.hash all) anchor [] none)

/-- The greatest score, if it is positive. -/
def relevanceTopScore (args : RecallArgs) (filtered : List LoadedRecord) : Option ℚ :=
  if args.rankBy = .relevance then
    some (filtered.foldl (fun top lr =>
      max top (P.parkScores filtered annotationsByRecord args.rankAnchor lr.recordHash)) 0)
  else none

end

/-! ## What is returned -/

structure VerifiedBundle where
  record : AtribRecord
  recordHash : RecordHash
  signatureVerified : Bool
  annotations : Option AnnotationSummary
  supersededBy : Option (List RecordHash)
  content : JsValue
  producer : Option String

def verified (record : AtribRecord) : Bool :=
  Middleware.verifyRecord P.toMiddleware record.value (.finite P.now)

def annotateVerification (annotationsByRecord : InsertionMap RecordHash AnnotationSummary)
    (revisionsByRecord : InsertionMap RecordHash (List RecordHash)) (lr : LoadedRecord) :
    VerifiedBundle where
  record := lr.record
  recordHash := lr.recordHash
  signatureVerified := verified P lr.record
  annotations := annotationsByRecord.get? lr.recordHash
  supersededBy := (revisionsByRecord.get? lr.recordHash).filter (· ≠ [])
  content := lr.content
  producer := lr.producer

/-- A member of the record, if it is truthy. -/
def VerifiedBundle.truthyMember (b : VerifiedBundle) (key : String) : Option JsValue :=
  some (b.record.value.member key) |>.filter (·.truthy)

inductive RecallRecord where
  | full (bundle : VerifiedBundle)
  | compact (bundle : VerifiedBundle) (sessionToken toolName : Option JsValue)
      (displaySummary displayProducer age : String)
  | toc (timestamp : ℚ) (recordHash : RecordHash) (toolName : Option JsValue)
      (summary importance : Option String) (topicTags : Option (List String))
      (supersededBy : Option (List RecordHash))

def compactify (b : VerifiedBundle) : Except String RecallRecord := do
  let displaySummary ← P.synthesizeDisplaySummary b.record b.content b.annotations
  let age ← P.formatAge b.record.timestamp
  return .compact b (b.truthyMember "session_token") (b.truthyMember "tool_name") displaySummary
    (P.resolveDisplayProducer b.record b.producer) age

def tocEntry (b : VerifiedBundle) : RecallRecord :=
  .toc b.record.timestamp b.recordHash (b.truthyMember "tool_name")
    ((b.annotations.bind (·.summary)).filter (· ≠ ""))
    ((b.annotations.bind (·.maxImportance)).filter (· ≠ "")) (b.annotations.bind (·.topics))
    b.supersededBy

structure RecallResult where
  total : ℕ
  returned : ℕ
  filteredOutByVerification : ℕ
  recordFiles : List String
  recordFile : String
  records : List RecallRecord
  quality : Option String := none
  topScore : Option ℚ := none

def recallRecords (args : RecallArgs) (verified : List VerifiedBundle) :
    Except String (List RecallRecord) :=
  if args.toc then .ok (verified.map tocEntry)
  else if args.compact then verified.mapM (compactify P)
  else .ok (verified.map .full)

/-- `list.slice(start, stop)`, where neither is negative -/
def slice {α : Type} (list : List α) (start stop : ℚ) : List α :=
  (list.take ⌊stop⌋.toNat).drop ⌊start⌋.toNat

/-- The page of the records in their order, without those that do not verify. -/
def recallPage (args : RecallArgs) (snapshot : LoadedMirrorSnapshot) (ranked : List LoadedRecord) :
    List VerifiedBundle × ℕ :=
  let offset := max 0 (args.offset.getD 0)
  let limit := max 1 (min 200 (args.limit.getD 10))
  let page := slice ranked offset (offset + limit)
  let bundles := page.map
    (annotateVerification P snapshot.annotationsByRecord snapshot.revisionsByRecord)
  let kept := if args.includeUnverified then bundles else bundles.filter (·.signatureVerified)
  (kept, bundles.length - kept.length)

/-- The answer, and the snapshot as the call leaves it: an array that no filter has made is that
of the snapshot, and has been sorted. -/
def recallAnswer (args : RecallArgs) (snapshot : LoadedMirrorSnapshot) :
    Except String RecallResult × LoadedMirrorSnapshot :=
  let filters := args.filters P snapshot.annotationsByRecord snapshot.revisionsByRecord
  let records := filtered P args snapshot
  let ranked := sortBy (rankOrder P snapshot.annotationsByRecord args records snapshot.loaded)
    records
  let topScore := relevanceTopScore P snapshot.annotationsByRecord args records
  let answer := fun returned filteredOut records quality topScore => RecallResult.mk ranked.length
    returned filteredOut snapshot.files (snapshot.files.headD "") records quality topScore
  (if topScore.any (· < P.noiseFloor) then
      .ok (answer 0 0 [] (some "below_threshold") topScore)
    else do
      let (kept, filteredOut) := recallPage P args snapshot ranked
      let records ← recallRecords P args kept
      return answer kept.length filteredOut records none none,
    if filters.isEmpty then { snapshot with loaded := ranked } else snapshot)

end Atrib.Recall.Mirror
