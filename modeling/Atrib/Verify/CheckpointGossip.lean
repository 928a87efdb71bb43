import Atrib.Lib.Firsts
import Atrib.Lib.InsertionMap
import Atrib.Lib.JsValue
import Atrib.Lib.Sorting
import Atrib.Mcp.Refs
import Atrib.Verify.CheckpointNote
import Atrib.Verify.Witness

/-!
# Comparing what different parties have seen of a log

`analyzeCheckpointGossip` of `packages/verify/src/checkpoint-gossip.ts`. How
`localeCompare` orders two texts and what JCS makes of an incident are
parameters. The set of incident ids the source keeps beside the incidents is
the set of their ids.
-/

namespace Atrib.Verify

open Lib (InsertionSet.ofList JsNumber JsValue adjacent addFirst pairs sortBy)

/-! ## Observations -/

inductive LeafHash where
  | bytes (value : Bytes)
  | text (value : String)

structure CheckpointGossipObservation where
  sourceId : String
  observedAtMs : JsNumber
  checkpointNote : String
  leafHashes : Option (List LeafHash) := none

inductive CheckpointGossipIssueCode where
  | sourceIdInvalid
  | observedAtInvalid
  | checkpointInvalid
  | leafHashesInvalid
deriving DecidableEq

structure CheckpointGossipIssue where
  sourceId : String
  code : CheckpointGossipIssueCode
  message : String
deriving DecidableEq

structure IncidentObservation where
  sourceId : String
  observedAtMs : ℕ
  checkpointHash : String
  treeSize : ℕ
  rootHashBase64url : String
deriving DecidableEq

structure VerifiedCheckpointGossipObservation extends IncidentObservation where
  origin : String
  leafHashes : Option (List Bytes)
deriving DecidableEq

/-- `hashText` -/
def hashText (H : Hash) (text : String) : String := sha256Ref (H.sha256 (utf8 text))

def normalizeLeafHash (buffers : Buffers) : LeafHash → Except String Bytes
  | .bytes value => if value.length ≠ 32 then .error "leaf hash must be 32 bytes" else .ok value
  | .text value =>
      if !isPublicKeyText value then .error "leaf hash must be canonical unpadded base64url"
      else if (buffers.ofBase64url value).length ≠ 32 ∨
          Atrib.base64urlEncode (buffers.ofBase64url value) ≠ value then
        .error "leaf hash must decode to 32 canonical bytes"
      else .ok (buffers.ofBase64url value)

section

variable (H : Hash) (ed : Ed25519) (buffers : Buffers)

/-- The leaf hashes of a checkpoint, if they are those of its tree. -/
def verifyLeafHashes (checkpoint : ParsedCheckpointNote) (leafHashes : List LeafHash) :
    Except String (List Bytes) := do
  let hashes ← leafHashes.mapM (normalizeLeafHash buffers)
  if hashes.length ≠ checkpoint.treeSize then
    throw "leaf hashes do not reconstruct the signed checkpoint root"
  let root ← checkpointRootFromLeafHashes H hashes
  if root ≠ checkpoint.rootHash then
    throw "leaf hashes do not reconstruct the signed checkpoint root"
  return hashes

/-- One round of the first loop. -/
def verifyObservation (operatorKey : TrustedCheckpointKey)
    (observation : CheckpointGossipObservation) :
    Except CheckpointGossipIssue VerifiedCheckpointGossipObservation :=
  let issue := fun code message =>
    Except.error (CheckpointGossipIssue.mk observation.sourceId code message)
  if observation.sourceId = "" ∨ observation.sourceId.toList.contains '\n' ∨
      observation.sourceId.toList.contains '\r' then
    issue .sourceIdInvalid "source_id must be non-empty and single-line"
  else
    match observation.observedAtMs.safeIndex? with
    | none => issue .observedAtInvalid "observed_at_ms must be a non-negative safe integer"
    | some observedAtMs =>
        match verifyOperatorCheckpoint H ed buffers observation.checkpointNote operatorKey with
        | .error reason => issue .checkpointInvalid reason
        | .ok checkpoint =>
            let verified := fun leafHashes => VerifiedCheckpointGossipObservation.mk
              { sourceId := observation.sourceId
                observedAtMs
                checkpointHash := hashText H observation.checkpointNote
                treeSize := checkpoint.treeSize
                rootHashBase64url := Atrib.base64urlEncode checkpoint.rootHash }
              checkpoint.origin leafHashes
            match observation.leafHashes with
            | none => .ok (verified none)
            | some leafHashes =>
                match verifyLeafHashes H buffers checkpoint leafHashes with
                | .error message => issue .leafHashesInvalid message
                | .ok hashes => .ok (verified (some hashes))

end

/-! ## Incidents -/

inductive CheckpointGossipIncidentKind where
  | sameSizeSplitView
  | prefixSplitView
  | sourceRollback
deriving DecidableEq

/-- What an incident id is the hash of: all of it but the times. -/
structure IncidentContent where
  schema : String := "atrib.checkpoint-gossip-incident.v1"
  kind : CheckpointGossipIncidentKind
  origin : String
  sources : List String
  /-- source, hash of the note, size and root -/
  observations : List (String × String × ℕ × String)
deriving DecidableEq

structure CheckpointGossipIncident where
  incidentId : String
  kind : CheckpointGossipIncidentKind
  origin : String
  sources : List String
  observations : List IncidentObservation
deriving DecidableEq

structure GossipCodec where
  localeCompare : String → String → Ordering
  /-- the UTF-8 of `canonicalize` -/
  canonicalize : IncidentContent → Bytes

variable (H : Hash) (codec : GossipCodec)

def compareIncidentObservation (left right : IncidentObservation) : Ordering :=
  ((codec.localeCompare left.sourceId right.sourceId).then
    (compare left.observedAtMs right.observedAtMs)).then
      (codec.localeCompare left.checkpointHash right.checkpointHash)

def compareObservation (left right : VerifiedCheckpointGossipObservation) : Ordering :=
  (codec.localeCompare left.origin right.origin).then
    (compareIncidentObservation codec left.toIncidentObservation right.toIncidentObservation)

def IncidentObservation.withoutTime (o : IncidentObservation) : String × String × ℕ × String :=
  (o.sourceId, o.checkpointHash, o.treeSize, o.rootHashBase64url)

def incidentContent (kind : CheckpointGossipIncidentKind) (origin : String)
    (observations : List IncidentObservation) : IncidentContent where
  kind := kind
  origin := origin
  sources := sortBy (fun a b => compare (JsValue.codeUnits a) (JsValue.codeUnits b))
    (InsertionSet.ofList (observations.map (·.sourceId)))
  observations := observations.map (·.withoutTime)

/-- The incident that `addIncident` adds, if its id is new. -/
def incident (kind : CheckpointGossipIncidentKind) (origin : String)
    (left right : IncidentObservation) : CheckpointGossipIncident :=
  let observations := sortBy (compareIncidentObservation codec) [left, right]
  let content := incidentContent kind origin observations
  { incidentId := sha256Ref (H.sha256 (codec.canonicalize content))
    kind
    origin
    sources := content.sources
    observations }

inductive PairVerdict where
  | uncompared
  | compatible
  | split (kind : CheckpointGossipIncidentKind)
deriving DecidableEq

/-- One round of the double loop. -/
def comparePair (left right : VerifiedCheckpointGossipObservation) : PairVerdict :=
  if left.origin ≠ right.origin then .uncompared
  else if left.treeSize = right.treeSize then
    if left.rootHashBase64url ≠ right.rootHashBase64url then .split .sameSizeSplitView
    else .compatible
  else
    match left.leafHashes, right.leafHashes with
    | some leftHashes, some rightHashes =>
        let sharedSize := min left.treeSize right.treeSize
        if leftHashes.take sharedSize = rightHashes.take sharedSize then .compatible
        else .split .prefixSplitView
    | _, _ => .uncompared

def splitIncident (pair : VerifiedCheckpointGossipObservation ×
    VerifiedCheckpointGossipObservation) : Option CheckpointGossipIncident :=
  match comparePair pair.1 pair.2 with
  | .split kind => some (incident H codec kind pair.1.origin pair.1.toIncidentObservation
      pair.2.toIncidentObservation)
  | _ => none

/-- The histories of the sources, in the order in which the sources first occur. -/
def histories (verified : List VerifiedCheckpointGossipObservation) :
    List (List VerifiedCheckpointGossipObservation) :=
  (InsertionSet.ofList (verified.map (·.sourceId))).map fun source =>
    sortBy (fun left right => (compare left.observedAtMs right.observedAtMs).then
      (codec.localeCompare left.checkpointHash right.checkpointHash))
      (verified.filter (·.sourceId = source))

def rollbackIncident (pair : VerifiedCheckpointGossipObservation ×
    VerifiedCheckpointGossipObservation) : Option CheckpointGossipIncident :=
  if pair.2.treeSize < pair.1.treeSize then
    some (incident H codec .sourceRollback pair.2.origin pair.1.toIncidentObservation
      pair.2.toIncidentObservation)
  else none

/-- All incidents in the order in which `addIncident` is called. -/
def foundIncidents (verified : List VerifiedCheckpointGossipObservation) :
    List CheckpointGossipIncident :=
  (pairs verified).filterMap (splitIncident H codec) ++
    (histories codec verified).flatMap fun history =>
      (adjacent history).filterMap (rollbackIncident H codec)

/-! ## The report -/

inductive CheckpointGossipStatus where
  | consistent
  | conflict
  | inconclusive
  | invalid
deriving DecidableEq

structure CheckpointGossipReport where
  status : CheckpointGossipStatus
  /-- The leaf hashes are dropped but for whether there are any. -/
  observations : List (IncidentObservation × String × Bool)
  issues : List CheckpointGossipIssue
  incidents : List CheckpointGossipIncident
  comparedPairs : ℕ
  uncomparedPairs : ℕ

def verifiedObservations (results :
    List (Except CheckpointGossipIssue VerifiedCheckpointGossipObservation)) :
    List VerifiedCheckpointGossipObservation :=
  sortBy (compareObservation codec) (results.filterMap Except.toOption)

def analyzeCheckpointGossip (ed : Ed25519) (buffers : Buffers)
    (observations : List CheckpointGossipObservation) (operatorKey : TrustedCheckpointKey) :
    CheckpointGossipReport :=
  let results := observations.map (verifyObservation H ed buffers operatorKey)
  let issues := results.filterMap fun result => match result with
    | .error issue => some issue
    | .ok _ => none
  let verified := verifiedObservations codec results
  let incidents := (foundIncidents H codec verified).foldl (addFirst (·.incidentId)) []
  let verdicts := (pairs verified).map fun pair => comparePair pair.1 pair.2
  let uncomparedPairs := verdicts.count .uncompared
  { status :=
      if incidents ≠ [] then .conflict
      else if issues ≠ [] then .invalid
      else if uncomparedPairs > 0 then .inconclusive
      else .consistent
    observations := verified.map fun v => (v.toIncidentObservation, v.origin, v.leafHashes.isSome)
    issues
    incidents := sortBy (fun left right => codec.localeCompare left.incidentId right.incidentId)
      incidents
    comparedPairs := verdicts.length - uncomparedPairs
    uncomparedPairs }

end Atrib.Verify
