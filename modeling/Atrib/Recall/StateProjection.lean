import Atrib.Lib.DepthFirst
import Atrib.Lib.InsertionMap
import Atrib.Lib.JsValue
import Atrib.Lib.Sorting
import Atrib.Lib.Sweep
import Atrib.Mcp.Refs

/-!
# The projection of the current state

`projectAcceptedState` of `services/atrib-recall/src/state-projection.ts`. A
view accepts the records that verify and that the caller's policy admits; a
revision must also revise an accepted record. The accepted revisions hang under
the records they revise, and each root gets a cell with the leaves below it,
its active heads.

A record is seen through the fields the projection reads. Whether `verifyRecord`
accepts it and how `localeCompare` orders two texts are parameters. A record
that verifies has an integer for its timestamp, and no other's timestamp is
read.
-/

namespace Atrib.Recall

open Lib InsertionMap

/-- The text `sha256:` and 64 lowercase hex digits. -/
abbrev RecordHash := {text : String // isSha256Ref text = true}

structure AtribRecord where
  creatorKey : String
  contextId : String
  eventType : String
  timestamp : ℤ
  revises : JsValue := .undefined

structure LoadedRecord where
  record : AtribRecord
  recordHash : RecordHash
  content : JsValue := .undefined

structure ProjectionPlatform where
  verifyRecord : LoadedRecord → Bool
  localeCompare : String → String → Ordering

def revisionEventType : String := "https://atrib.dev/v1/types/revision"

namespace LoadedRecord

def isRevision (entry : LoadedRecord) : Bool := entry.record.eventType = revisionEventType

/-- `isRecordRef` -/
def recordRef? : JsValue → Option RecordHash
  | .string text => if h : isSha256Ref text = true then some ⟨text, h⟩ else none
  | _ => none

/-- The signed field, or else the field of the content. -/
def revisionTarget (entry : LoadedRecord) : Option RecordHash :=
  (recordRef? entry.record.revises).orElse fun _ => recordRef? (entry.content.member "revises")

end LoadedRecord

/-! ## The policy of the caller -/

/-- A field that is not given is `none`. -/
structure StateProjectionOptions where
  rootRecordHashes : Option (List String) := none
  trustedCreatorKeys : Option (List String) := none
  allowedContextIds : Option (List String) := none
  includeContent : Option Bool := none
  limit : Option JsNumber := none
  headLimit : Option JsNumber := none

/-- The options after they have been checked. -/
structure ProjectionPolicy where
  requestedRoots : List RecordHash
  trustedCreatorKeys : Option (List String)
  allowedContextIds : Option (List String)
  includeContent : Bool
  limit : ℕ
  headLimit : ℕ

def boundedLimit (value : Option JsNumber) (defaultValue maximum : ℕ) (label : String) :
    Except String ℕ :=
  match value with
  | none => .ok defaultValue
  | some x =>
      match x.safeIndex? with
      | some (n + 1) => .ok (min (n + 1) maximum)
      | _ => .error (label ++ " must be a positive safe integer")

def sortedUnique (values : Option (List String)) : List String :=
  sortBy (fun a b => compare (JsValue.codeUnits a) (JsValue.codeUnits b))
    (InsertionSet.ofList (values.getD []))

/-- An empty list of trusted keys or of contexts is no policy. -/
def policySet (values : Option (List String)) : Option (List String) :=
  if sortedUnique values = [] then none else some (sortedUnique values)

def rootHash (root : String) : Except String RecordHash :=
  if h : isSha256Ref root = true then .ok ⟨root, h⟩
  else .error ("invalid state root record hash: " ++ root)

def StateProjectionOptions.policy (options : StateProjectionOptions) :
    Except String ProjectionPolicy := do
  let limit ← boundedLimit options.limit 100 1000 "state projection limit"
  let headLimit ← boundedLimit options.headLimit 100 1000 "state projection head_limit"
  let requestedRoots ← (sortedUnique options.rootRecordHashes).mapM rootHash
  return {
    requestedRoots
    trustedCreatorKeys := policySet options.trustedCreatorKeys
    allowedContextIds := policySet options.allowedContextIds
    includeContent := options.includeContent ≠ some false
    limit
    headLimit }

/-! ## What comes out -/

inductive StateExclusionReason where
  | signatureInvalid
  | creatorNotTrusted
  | contextNotAllowed
  | targetMissing
  | targetNotAccepted
deriving DecidableEq

def StateExclusionReason.text : StateExclusionReason → String
  | .signatureInvalid => "signature_invalid"
  | .creatorNotTrusted => "creator_not_trusted"
  | .contextNotAllowed => "context_not_allowed"
  | .targetMissing => "target_missing"
  | .targetNotAccepted => "target_not_accepted"

/-- Content that is left out is `none`. -/
structure StateRecordView where
  recordHash : RecordHash
  creatorKey : String
  contextId : String
  eventType : String
  timestamp : ℤ
  contentAvailable : Bool
  content : Option JsValue

inductive CellStatus where
  | resolved
  | conflict
deriving DecidableEq

structure StateCell where
  root : StateRecordView
  status : CellStatus
  activeHeads : List StateRecordView
  totalActiveHeads : ℕ
  activeHeadsTruncated : Bool
  revisionCount : ℕ
  excludedRevisionCount : ℕ

structure StateExcludedRevision where
  recordHash : RecordHash
  targetRecordHash : Option RecordHash
  reason : StateExclusionReason

structure StateProjection where
  schema : String := "atrib.state-projection.v1"
  signatureVerification : String := "local_ed25519"
  creatorPolicy : String
  contextPolicy : String
  logInclusionVerified : Bool := false
  warnings : List String
  totalCells : ℕ
  returnedCells : ℕ
  truncated : Bool
  conflictCount : ℕ
  unresolvedRootHashes : List RecordHash
  totalExcludedRevisions : ℕ
  excludedRevisionsTruncated : Bool
  excludedRevisions : List StateExcludedRevision
  cells : List StateCell

/-! ## Acceptance -/

structure PendingRevision where
  revision : LoadedRecord
  target : RecordHash

/-- The accepted records, and the accepted revisions under what they revise. -/
structure Lineage where
  accepted : InsertionMap RecordHash LoadedRecord := ∅
  children : InsertionMap RecordHash (List RecordHash) := ∅
  parent : InsertionMap RecordHash RecordHash := ∅

namespace Lineage

def childrenOf (lineage : Lineage) (hash : RecordHash) : List RecordHash :=
  (lineage.children.get? hash).getD []

def ready (lineage : Lineage) (pending : PendingRevision) : Bool :=
  lineage.accepted.has pending.target

def accept (lineage : Lineage) (pending : PendingRevision) : Lineage where
  accepted := lineage.accepted.set pending.revision.recordHash pending.revision
  children := lineage.children.set pending.target
    (lineage.childrenOf pending.target ++ [pending.revision.recordHash])
  parent := lineage.parent.set pending.revision.recordHash pending.target

end Lineage

namespace ProjectionPolicy

variable (P : ProjectionPlatform) (policy : ProjectionPolicy)

def exclusionReason (entry : LoadedRecord) (signatureValid : Bool) :
    Option StateExclusionReason :=
  if !signatureValid then some .signatureInvalid
  else if policy.trustedCreatorKeys.any (!·.contains entry.record.creatorKey) then
    some .creatorNotTrusted
  else if policy.allowedContextIds.any (!·.contains entry.record.contextId) then
    some .contextNotAllowed
  else none

/-- By timestamp, and then by hash. -/
def compareRecordOrder (a b : LoadedRecord) : Ordering :=
  (compare a.record.timestamp b.record.timestamp).then
    (P.localeCompare a.recordHash.val b.recordHash.val)

/-- A revision is a candidate, and so is what it revises. -/
def addCandidate (hashes : List RecordHash) (revision : LoadedRecord) : List RecordHash :=
  let hashes := InsertionSet.add hashes revision.recordHash
  match revision.revisionTarget with
  | some target => InsertionSet.add hashes target
  | none => hashes

def candidateHashes (revisions : List LoadedRecord) : List RecordHash :=
  revisions.foldl addCandidate (InsertionSet.ofList policy.requestedRoots)

/-- `signatureValidity.get(hash) === true` -/
def signatureValid (byHash : InsertionMap RecordHash LoadedRecord) (candidates : List RecordHash)
    (hash : RecordHash) : Bool :=
  candidates.contains hash && (byHash.get? hash).any P.verifyRecord

/-- A candidate that is no revision is accepted by itself. -/
def acceptOrigin (byHash : InsertionMap RecordHash LoadedRecord) (candidates : List RecordHash)
    (accepted : InsertionMap RecordHash LoadedRecord) (hash : RecordHash) :
    InsertionMap RecordHash LoadedRecord :=
  match byHash.get? hash with
  | some entry =>
      if entry.isRevision then accepted
      else if policy.exclusionReason entry (signatureValid P byHash candidates hash) = none then
        accepted.set hash entry
      else accepted
  | none => accepted

/-- A revision is excluded for a reason of its own, or waits for what it revises. -/
def classify (byHash : InsertionMap RecordHash LoadedRecord) (candidates : List RecordHash)
    (revision : LoadedRecord) : StateExcludedRevision ⊕ PendingRevision :=
  match policy.exclusionReason revision (signatureValid P byHash candidates revision.recordHash) with
  | some reason => .inl ⟨revision.recordHash, revision.revisionTarget, reason⟩
  | none =>
      match revision.revisionTarget with
      | some target =>
          if byHash.has target then .inr ⟨revision, target⟩
          else .inl ⟨revision.recordHash, some target, .targetMissing⟩
      | none => .inl ⟨revision.recordHash, none, .targetMissing⟩

def comparePending (a b : PendingRevision) : Ordering := compareRecordOrder P a.revision b.revision

/-- What the records of a view come to: the lineage, and the revisions that are not in it. -/
structure View where
  lineage : Lineage
  excluded : List StateExcludedRevision

def view (loaded : List LoadedRecord) : View :=
  let byHash := (∅ : InsertionMap RecordHash LoadedRecord).setAll
    (loaded.map fun entry => (entry.recordHash, entry))
  let revisions := byHash.values.filter (·.isRevision)
  let candidates := policy.candidateHashes revisions
  let classified := revisions.map (policy.classify P byHash candidates)
  let pendingRevisions := sortBy (comparePending P) (classified.filterMap (·.getRight?))
  let swept := sweepAll Lineage.ready Lineage.accept pendingRevisions.length pendingRevisions
    { accepted := candidates.foldl (policy.acceptOrigin P byHash candidates) ∅ }
  { lineage := swept.2
    excluded := classified.filterMap (·.getLeft?) ++ swept.1.map fun pending =>
      ⟨pending.revision.recordHash, some pending.target, .targetNotAccepted⟩ }

/-! ## Cells -/

/-- The order of two accepted records. -/
def compareAccepted (lineage : Lineage) (a b : RecordHash) : Ordering :=
  match lineage.accepted.get? a, lineage.accepted.get? b with
  | some a, some b => compareRecordOrder P a b
  | _, _ => .eq

def sortChildren (lineage : Lineage) : Lineage :=
  let sorted (hashes : List RecordHash) := sortBy (compareAccepted P lineage) hashes
  { lineage with children := lineage.children.mapVal fun _ => sorted }

/-- The requested roots, or whatever is revised and revises nothing itself. -/
def rootHashes (lineage : Lineage) : List RecordHash :=
  sortBy (fun a b => compareAccepted P lineage b a)
    (if policy.requestedRoots ≠ [] then policy.requestedRoots.filter (lineage.accepted.has ·)
    else lineage.children.keys.filter fun hash => !lineage.parent.has hash)

/-- A root and all that hangs under it. -/
def component (lineage : Lineage) (root : RecordHash) : List RecordHash :=
  Search.collect lineage.childrenOf (1 + (lineage.children.values.map List.length).sum) [root] []

def headHashes (lineage : Lineage) (root : RecordHash) : List RecordHash :=
  sortBy (compareAccepted P lineage)
    ((component lineage root).filter fun hash => (lineage.childrenOf hash).length = 0)

def recordView (entry : LoadedRecord) : StateRecordView where
  recordHash := entry.recordHash
  creatorKey := entry.record.creatorKey
  contextId := entry.record.contextId
  eventType := entry.record.eventType
  timestamp := entry.record.timestamp
  contentAvailable := !(entry.content matches .undefined)
  content :=
    if policy.includeContent && !(entry.content matches .undefined) then some entry.content
    else none

def cell (view : View) (rootHash : RecordHash) (root : LoadedRecord) : StateCell :=
  let lineage := view.lineage
  let component := component lineage rootHash
  let headHashes := headHashes P lineage rootHash
  let returnedHeadHashes := headHashes.take policy.headLimit
  { root := policy.recordView root
    status := if headHashes.length = 1 then .resolved else .conflict
    activeHeads := returnedHeadHashes.filterMap fun hash =>
      (lineage.accepted.get? hash).map policy.recordView
    totalActiveHeads := headHashes.length
    activeHeadsTruncated := decide (headHashes.length > returnedHeadHashes.length)
    revisionCount := component.length - 1
    excludedRevisionCount := (view.excluded.filter fun entry =>
      entry.targetRecordHash.any component.contains).length }

def cells (view : View) : List StateCell :=
  (policy.rootHashes P view.lineage).filterMap fun rootHash =>
    (view.lineage.accepted.get? rootHash).map (policy.cell P view rootHash)

def compareExcluded (a b : StateExcludedRevision) : Ordering :=
  ((P.localeCompare a.recordHash.val b.recordHash.val).then
    (P.localeCompare ((a.targetRecordHash.map Subtype.val).getD "")
      ((b.targetRecordHash.map Subtype.val).getD ""))).then
    (P.localeCompare a.reason.text b.reason.text)

def maxExclusionDetails : ℕ := 1000

def project (loaded : List LoadedRecord) : StateProjection :=
  let view := policy.view P loaded
  let sorted := { view with lineage := sortChildren P view.lineage }
  let cells := policy.cells P sorted
  let allExcluded := sortBy (compareExcluded P) view.excluded
  let excludedRevisions := allExcluded.take maxExclusionDetails
  let returnedCells := cells.take policy.limit
  { creatorPolicy :=
      if policy.trustedCreatorKeys.isSome then "caller_trust_set" else "all_verified_local_signers"
    contextPolicy := if policy.allowedContextIds.isSome then "caller_allowlist" else "all_contexts"
    warnings :=
      (if policy.trustedCreatorKeys.isNone then
        ["No trusted_creator_keys policy was supplied; every locally verified signer was " ++
          "accepted into this view."]
      else []) ++
      ["This projection verifies local signatures, not public-log inclusion. Treat it as local " ++
        "accepted state unless a separate proof policy verifies inclusion."]
    totalCells := cells.length
    returnedCells := returnedCells.length
    truncated := decide (cells.length > returnedCells.length)
    conflictCount := (cells.filter (·.status = .conflict)).length
    unresolvedRootHashes := policy.requestedRoots.filter fun hash =>
      !view.lineage.accepted.has hash
    totalExcludedRevisions := allExcluded.length
    excludedRevisionsTruncated := decide (allExcluded.length > excludedRevisions.length)
    excludedRevisions
    cells := returnedCells }

end ProjectionPolicy

def projectAcceptedState (P : ProjectionPlatform) (loaded : List LoadedRecord)
    (options : StateProjectionOptions) : Except String StateProjection := do
  let policy ← options.policy
  return policy.project P loaded

end Atrib.Recall
