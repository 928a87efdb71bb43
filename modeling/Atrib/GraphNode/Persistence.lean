import Atrib.GraphNode.Store
import Atrib.Mcp.Readline

/-!
# The record archive of the graph service

`services/graph-node/src/persistence.ts` with its callers: `handleIngest`
appends every record that is new to a JSONL file before it answers, and a
restart replays the file into an empty store. Ingests run concurrently, each
waiting for its own append. The bytes of an append reach the file together; a
crash may leave the first of them there.

`resolved` is not in the program. It records the hashes of the records whose
ingest has been answered.
-/

namespace Atrib.GraphNode

open Verify

/-- `JSON.stringify({ record, log_index })`, and what a line gives to the
store: nothing if it is blank, cannot be parsed or has no record in it. The
text of an object is not complete before its last character. -/
structure ArchiveFormat (codec : RecordCodec) where
  stringify : AtribRecord → Option ℕ → Bytes
  parse : Bytes → Option (AtribRecord × Option ℕ)
  parse_blank : parse [] = none
  parse_stringify : ∀ record logIndex, codec.verifyRecord record = true →
    parse (stringify record logIndex) = some (record, logIndex)
  parse_torn : ∀ record logIndex, codec.verifyRecord record = true →
    ∀ text, text <+: stringify record logIndex → text ≠ stringify record logIndex →
      parse text = none

/-- An ingest that waits for its append. -/
structure PendingAppend where
  record : AtribRecord
  logIndex : Option ℕ
  written : Bool

structure ArchivedServer where
  store : RecordStore := {}
  archive : Bytes := []
  appends : List PendingAppend := []
  resolved : List String := []

inductive ArchiveMove
  | ingest (record : AtribRecord) (logIndex : Option ℕ)
  /-- The bytes of an append reach the file. -/
  | write (index : ℕ)
  /-- The promise of an append that has been written is resolved. -/
  | resolve (index : ℕ)
  /-- A crash, in the middle of an append or not, and the start after it. -/
  | restart (torn : Option (ℕ × ℕ))

variable (H : Hash) {codec : RecordCodec} (format : ArchiveFormat codec)

def recordHash (codec : RecordCodec) (record : AtribRecord) : String :=
  hexEncode (recordDigest H codec record)

/-- What `append` writes. -/
def archiveLine (record : AtribRecord) (logIndex : Option ℕ) : Bytes :=
  format.stringify record logIndex ++ [LF]

def replayArchive (archive : Bytes) : RecordStore :=
  ((readline archive).filterMap format.parse).foldl
    (fun store entry => (store.addRecord H codec entry.1 entry.2).1) {}

namespace ArchivedServer

/-- The end of `handleIngest` for a record that has passed the other checks. -/
def ingest (codec : RecordCodec) (s : ArchivedServer) (record : AtribRecord) (logIndex : Option ℕ) : ArchivedServer :=
  if codec.verifyRecord record then
    let (store, wasNew) := s.store.addRecord H codec record logIndex
    if wasNew then
      { s with store := store, appends := s.appends ++ [⟨record, logIndex, false⟩] }
    else { s with store := store, resolved := s.resolved ++ [recordHash H codec record] }
  else s

def write (s : ArchivedServer) (index : ℕ) : ArchivedServer :=
  match s.appends[index]? with
  | some ⟨record, logIndex, false⟩ =>
      { s with
        archive := s.archive ++ archiveLine format record logIndex
        appends := s.appends.set index ⟨record, logIndex, true⟩ }
  | _ => s

def resolve (codec : RecordCodec) (s : ArchivedServer) (index : ℕ) : ArchivedServer :=
  match s.appends[index]? with
  | some ⟨record, _, true⟩ =>
      { s with
        appends := s.appends.eraseIdx index
        resolved := s.resolved ++ [recordHash H codec record] }
  | _ => s

/-- What a crash leaves of an append that was under way. -/
def tornBytes (s : ArchivedServer) (torn : Option (ℕ × ℕ)) : Bytes :=
  match torn with
  | none => []
  | some (index, count) =>
      match s.appends[index]? with
      | some ⟨record, logIndex, false⟩ => (archiveLine format record logIndex).take count
      | _ => []

def restart (s : ArchivedServer) (torn : Option (ℕ × ℕ)) : ArchivedServer where
  store := replayArchive H format (s.archive ++ s.tornBytes format torn)
  archive := s.archive ++ s.tornBytes format torn
  appends := []
  resolved := s.resolved

def step (s : ArchivedServer) : ArchiveMove → ArchivedServer
  | .ingest record logIndex => s.ingest H codec record logIndex
  | .write index => s.write format index
  | .resolve index => s.resolve H codec index
  | .restart torn => s.restart H format torn

end ArchivedServer

end Atrib.GraphNode
