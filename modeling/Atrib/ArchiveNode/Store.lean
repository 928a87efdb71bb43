import Atrib.Lib.InsertionMap
import Atrib.Lib.JsValue
import Atrib.Lib.Lines
import Atrib.Mcp.Readline
import Atrib.Mcp.Record

/-!
# The store of the archive service

`services/archive-node/src/store.ts`. An archive keeps one entry for each
record. A put merges what it brings into the entry in memory and, if that has
changed the entry, appends the whole entry to a JSONL file; a start replays the
file, the last line of a record being the one that counts.

Puts run concurrently: the part up to the append is done at once, and each then
waits for its own append. An append that fails, or that a crash cuts off, may
leave the first bytes of its line in the file. The members of an object are in
the order in which they came, as they are for keys that are no array indices.

`resolved` is not in the program. It records the puts that have been resolved,
each with the answer `get` gives at that moment.
-/

namespace Atrib.ArchiveNode

open Lib (InsertionMap JsValue JsNumber)

/-! ## Entries -/

/-- The functions of other libraries and of the language: JCS, SHA-256,
`JSON.stringify`, and `JSON.parse` of a line that is decoded and trimmed. -/
structure Platform where
  canonicalRecord : JsValue → Option Bytes
  hash : Hash
  stringify : JsValue → Bytes
  parse : Bytes → Option JsValue

/-- The members of a value that passes `isObject`, one for each name. -/
def members? : JsValue → Option (InsertionMap String JsValue)
  | .object members => some ((∅ : InsertionMap String JsValue).setAll members)
  | _ => none

def isAtribRecordLike (value : JsValue) : Bool :=
  (members? value).isSome &&
    (value.member "spec_version").strictEq (.string "atrib/1.0") &&
    (value.member "event_type").string?.isSome &&
    (value.member "timestamp").number?.isSome &&
    (value.member "context_id").string?.isSome &&
    (value.member "creator_key").string?.isSome &&
    (value.member "chain_root").string?.isSome &&
    (value.member "content_id").string?.isSome &&
    (value.member "signature").string?.isSome

/-- An object that has the members of a record. -/
abbrev AtribRecordLike := { value : JsValue // isAtribRecordLike value = true }

def atribRecordLike? (value : JsValue) : Option AtribRecordLike :=
  if h : isAtribRecordLike value = true then some ⟨value, h⟩ else none

structure ArchiveSubmissionEnvelope where
  recordHash : Option String := none
  record : AtribRecordLike
  logProofs : List JsValue := []
  authorizationEvidence : List JsValue := []
  evidence : List JsValue := []
  resolvedFacts : Option (InsertionMap String JsValue) := none
deriving DecidableEq

structure StoredArchiveEntry where
  recordHash : String
  record : AtribRecordLike
  archivedAtMs : JsNumber
  retentionWindowMs : JsNumber
  logProofs : List JsValue
  authorizationEvidence : List JsValue
  evidence : List JsValue
  resolvedFacts : Option (InsertionMap String JsValue)
deriving DecidableEq

namespace StoredArchiveEntry

/-- The object an entry is. -/
def toJson (entry : StoredArchiveEntry) : JsValue :=
  .object ([("record_hash", .string entry.recordHash), ("record", entry.record.val),
    ("archived_at_ms", .number entry.archivedAtMs),
    ("retention_window_ms", .number entry.retentionWindowMs),
    ("log_proofs", .array entry.logProofs),
    ("authorizationEvidence", .array entry.authorizationEvidence),
    ("evidence", .array entry.evidence)] ++
    entry.resolvedFacts.elim [] fun facts => [("resolvedFacts", .object facts.entries)])

/-- `resolvedFacts ?? {}` -/
def facts (entry : StoredArchiveEntry) : InsertionMap String JsValue :=
  entry.resolvedFacts.getD ∅

end StoredArchiveEntry

/-- `isStoredEntry`, with the entry that the object is then taken for. -/
def isStoredEntry (value : JsValue) : Option StoredArchiveEntry := do
  return {
    recordHash := ← (value.member "record_hash").string?
    record := ← atribRecordLike? (value.member "record")
    archivedAtMs := ← (value.member "archived_at_ms").number?
    retentionWindowMs := ← (value.member "retention_window_ms").number?
    logProofs := ← (value.member "log_proofs").array?
    authorizationEvidence := ← (value.member "authorizationEvidence").array?
    evidence := ← (value.member "evidence").array?
    resolvedFacts := members? (value.member "resolvedFacts") }

variable (P : Platform)

def recordHash (record : AtribRecordLike) : Option String :=
  (P.canonicalRecord record.val).map fun bytes => "sha256:" ++ hexEncode (P.hash.sha256 bytes)

/-- `JSON.stringify(entry)` -/
def stableJson (entry : StoredArchiveEntry) : Bytes := P.stringify entry.toJson

/-! ## Merging -/

/-- The items whose text has not been seen. -/
def unseenObjects (seen : List Bytes) : List JsValue → List JsValue
  | [] => []
  | item :: items =>
      if P.stringify item ∈ seen then unseenObjects seen items
      else item :: unseenObjects (P.stringify item :: seen) items

def dedupeObjects (items : List JsValue) : List JsValue := unseenObjects P [] items

def mergeEntries (existing next : StoredArchiveEntry) : StoredArchiveEntry where
  recordHash := existing.recordHash
  record := existing.record
  archivedAtMs := existing.archivedAtMs
  retentionWindowMs := existing.retentionWindowMs
  logProofs := dedupeObjects P (existing.logProofs ++ next.logProofs)
  authorizationEvidence :=
    dedupeObjects P (existing.authorizationEvidence ++ next.authorizationEvidence)
  evidence := dedupeObjects P (existing.evidence ++ next.evidence)
  resolvedFacts :=
    if existing.resolvedFacts.isSome || next.resolvedFacts.isSome then
      -- `{ ...existing, ...next }`
      some (existing.facts.setAll next.facts.entries)
    else none

/-! ## The store -/

inductive ArchiveLookupResult
  | found (entry : StoredArchiveEntry)
  | expired (entry : StoredArchiveEntry) (expiredAtMs : JsNumber)
  | missing
deriving DecidableEq

abbrev Entries := InsertionMap String StoredArchiveEntry

/-- `JSON.stringify(entry) + '\n'` -/
def archiveLine (entry : StoredArchiveEntry) : Bytes := stableJson P entry ++ [LF]

/-- The entry of a line of the file. -/
def readLine (line : Bytes) : Option StoredArchiveEntry :=
  if line = [] then none
  else do
    let entry ← isStoredEntry (← P.parse line)
    if recordHash P entry.record = some entry.recordHash then some entry else none

/-- What `init` makes of the file. -/
def init (file : Bytes) : Entries :=
  ((Lib.Lines.lines [[LF]] file).filterMap (readLine P)).foldl
    (fun entries entry => entries.set entry.recordHash entry) ∅

def get (entries : Entries) (recordHashRef : String) (nowMs : JsNumber) : ArchiveLookupResult :=
  match entries.get? recordHashRef with
  | none => .missing
  | some entry =>
      let expiredAtMs := entry.archivedAtMs.add entry.retentionWindowMs
      if expiredAtMs.lt nowMs then .expired entry expiredAtMs else .found entry

inductive AppendStatus
  | started
  /-- The whole line is in the file. -/
  | written
  /-- Some first bytes of it are, and the append will fail. -/
  | cut
deriving DecidableEq

/-- A put that waits for its append. -/
structure PendingAppend where
  next : StoredArchiveEntry
  entry : StoredArchiveEntry
  status : AppendStatus := .started
deriving DecidableEq

/-- A put that has been resolved: what it brought, the entry it returned and
what `get` answers then. -/
structure Resolved where
  next : StoredArchiveEntry
  entry : StoredArchiveEntry
  lookup : ArchiveLookupResult
deriving DecidableEq

structure ArchiveStore where
  entries : Entries := ∅
  file : Bytes := []
  appends : List PendingAppend := []
  resolved : List Resolved := []

inductive StoreMove
  | put (submission : ArchiveSubmissionEnvelope) (nowMs : JsNumber)
  /-- Bytes of an append reach the file. -/
  | write (index count : ℕ)
  /-- The promise of an append that has been written is resolved. -/
  | resolve (index : ℕ) (nowMs : JsNumber)
  /-- The promise of an append is rejected. -/
  | fail (index : ℕ)
  /-- A crash, and the start after it. -/
  | restart

namespace ArchiveStore

/-- What a put brings. It throws if JCS does or if the hash it was given is not
that of the record. -/
def nextEntry (retentionWindowMs : JsNumber) (submission : ArchiveSubmissionEnvelope)
    (nowMs : JsNumber) : Option StoredArchiveEntry := do
  let computedHash ← recordHash P submission.record
  guard (submission.recordHash.getD computedHash = computedHash)
  return {
    recordHash := computedHash
    record := submission.record
    archivedAtMs := nowMs
    retentionWindowMs
    logProofs := submission.logProofs
    authorizationEvidence := submission.authorizationEvidence
    evidence := submission.evidence
    resolvedFacts := submission.resolvedFacts }

/-- The entry a put leaves in memory. -/
def mergedEntry (s : ArchiveStore) (next : StoredArchiveEntry) : StoredArchiveEntry :=
  match s.entries.get? next.recordHash with
  | none => next
  | some existing => mergeEntries P existing next

/-- The promise of a put is resolved. -/
def settle (s : ArchiveStore) (next entry : StoredArchiveEntry) (nowMs : JsNumber) :
    ArchiveStore :=
  { s with resolved := s.resolved ++ [⟨next, entry, get s.entries entry.recordHash nowMs⟩] }

def put (retentionWindowMs : JsNumber) (s : ArchiveStore)
    (submission : ArchiveSubmissionEnvelope) (nowMs : JsNumber) : ArchiveStore :=
  match nextEntry P retentionWindowMs submission nowMs with
  | none => s
  | some next =>
      let entry := s.mergedEntry P next
      let stored := { s with entries := s.entries.set next.recordHash entry }
      if (s.entries.get? next.recordHash).map (stableJson P) = some (stableJson P entry) then
        stored.settle next entry nowMs
      else { stored with appends := s.appends ++ [⟨next, entry, .started⟩] }

def write (s : ArchiveStore) (index count : ℕ) : ArchiveStore :=
  match s.appends[index]? with
  | some ⟨next, entry, .started⟩ =>
      let line := archiveLine P entry
      { s with
        file := s.file ++ line.take count
        appends := s.appends.set index
          ⟨next, entry, if line.length ≤ count then .written else .cut⟩ }
  | _ => s

def resolve (s : ArchiveStore) (index : ℕ) (nowMs : JsNumber) : ArchiveStore :=
  match s.appends[index]? with
  | some ⟨next, entry, .written⟩ =>
      { s with appends := s.appends.eraseIdx index }.settle next entry nowMs
  | _ => s

def fail (s : ArchiveStore) (index : ℕ) : ArchiveStore :=
  { s with appends := s.appends.eraseIdx index }

def restart (s : ArchiveStore) : ArchiveStore :=
  { s with entries := init P s.file, appends := [] }

def step (retentionWindowMs : JsNumber) (s : ArchiveStore) : StoreMove → ArchiveStore
  | .put submission nowMs => s.put P retentionWindowMs submission nowMs
  | .write index count => s.write P index count
  | .resolve index nowMs => s.resolve index nowMs
  | .fail index => s.fail index
  | .restart => s.restart P

end ArchiveStore

end Atrib.ArchiveNode
