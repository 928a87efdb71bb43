import Atrib.Lib.InsertionMap
import Atrib.Mcp.Readline
import Atrib.Mcp.Record
import Mathlib.Algebra.Order.Ring.Unbundled.Rat

/-!
# The newest record of the mirror files

`readMirrorCorpusTail` of `packages/mcp/src/mirror.ts`. A producer chains on
the newest record of its context in the JSONL files of a directory. Of each
file the last record counts, and across files the one with the latest
timestamp, the greater record hash deciding a tie. A full scan reads all files
line by line. It leaves an index behind, so the next read looks at what has
been appended since and falls back to the full scan wherever that is not
enough.

Files are read after they have been listed and the index is written after it
has been computed, so writers and other readers come in between: a move of the
system is the stretch of a read between two listings, or a write. A directory
holds the files that are eligible, in the order of their names; files that
cannot be read are left out. A snapshot stands for the directory it was taken
of, of which the code has the states of the files only.
-/

namespace Atrib

open Lib (InsertionMap)

/-! ## JSON values and records -/

inductive Json
  | null
  | bool (b : Bool)
  | num (n : ℚ)
  /-- What `JSON.parse` makes of a number that is too large. -/
  | infinite
  | str (s : String)
  | arr (items : List Json)
  | obj (members : List (String × Json))

namespace Json

def isObject : Json → Bool
  | obj _ => true
  | _ => false

def get (value : Json) (key : String) : Option Json :=
  match value with
  | obj members => (members.find? (·.1 = key)).map Prod.snd
  | _ => none

def text (value : Json) (key : String) : Option String :=
  match value.get key with
  | some (str s) => some s
  | _ => none

def number (value : Json) (key : String) : Option ℚ :=
  match value.get key with
  | some (num n) => some n
  | _ => none

def items (value : Json) (key : String) : List Json :=
  match value.get key with
  | some (arr items) => items
  | _ => []

end Json

/-- A record as the mirror reader has it: the parsed value, the members it
reads of it, and its record hash. -/
structure MirrorRecord where
  value : Json
  contextId : String
  timestamp : ℚ
  recordHash : String

/-- `JSON.parse` of a line that is decoded and trimmed, and JCS. -/
structure MirrorCodec where
  parse : Bytes → Option Json
  canonicalRecord : Json → Option Bytes

def hasCreatorSignerEntry (record : Json) : Bool :=
  decide (record.text "event_type" = some "https://atrib.dev/v1/types/transaction") &&
    match record.text "creator_key" with
    | none => false
    | some key => (record.items "signers").any fun signer =>
        decide (signer.text "creator_key" = some key) && (signer.text "signature").isSome

def contentIdTypes : List String :=
  ["https://atrib.dev/v1/types/tool_call", "https://atrib.dev/v1/types/transaction",
    "https://atrib.dev/v1/types/directory_anchor", "https://atrib.dev/v1/types/session_checkpoint"]

/-- The members of a record have the types they must have. -/
def isMirrorRecord (candidate : Json) : Bool :=
  let contentIdRequired := (candidate.text "event_type").any (· ∈ contentIdTypes)
  decide (candidate.text "spec_version" = some "atrib/1.0") &&
    (!((candidate.get "content_id").isSome || contentIdRequired) ||
      (candidate.text "content_id").isSome) &&
    (candidate.text "creator_key").isSome &&
    ((candidate.text "signature").isSome ||
      (candidate.get "signature").isNone && hasCreatorSignerEntry candidate) &&
    (candidate.text "chain_root").isSome &&
    (candidate.text "event_type").isSome &&
    (candidate.text "context_id").isSome &&
    (candidate.number "timestamp").isSome

/-- The record in an envelope, or the value itself. -/
def unwrap (value : Json) : Json :=
  match value.get "record" with
  | some (.obj members) => .obj members
  | _ => value

structure MirrorFile where
  name : String
  content : Bytes
  mtimeMs : ℕ
  ctimeMs : ℕ
  ino : ℕ
deriving DecidableEq

structure MirrorFileState where
  name : String
  size : ℕ
  mtimeMs : ℕ
  ctimeMs : ℕ
  ino : ℕ
deriving DecidableEq

structure IndexedCorpusTail where
  contextId : String
  sourceFile : String
  record : Json

/-- The index file. JSON gives its members back as they were. -/
structure MirrorTailIndex where
  files : List MirrorFileState
  tails : List IndexedCorpusTail

structure CorpusTail where
  sourceFile : String
  record : MirrorRecord

structure IncrementalChange where
  state : MirrorFileState
  start : ℕ
deriving DecidableEq

def MAX_INCREMENTAL_BYTES : ℕ := 16 * 1024 * 1024

def MAX_INCREMENTAL_ROUNDS : ℕ := 4

namespace Mirror

/-! ## The directory -/

def fileState (file : MirrorFile) : MirrorFileState :=
  ⟨file.name, file.content.length, file.mtimeMs, file.ctimeMs, file.ino⟩

def fileNamed (dir : List MirrorFile) (name : String) : Option MirrorFile :=
  dir.find? (·.name = name)

def appendToFile (dir : List MirrorFile) (name : String) (bytes : Bytes) (mtimeMs ctimeMs : ℕ) :
    List MirrorFile :=
  dir.map fun file =>
    if file.name = name then
      { file with content := file.content ++ bytes, mtimeMs := mtimeMs, ctimeMs := ctimeMs }
    else file

def createFile (dir : List MirrorFile) (file : MirrorFile) : List MirrorFile :=
  if file.name ∈ dir.map (·.name) then dir
  else dir.takeWhile (fun f => decide (f.name < file.name)) ++
    file :: dir.dropWhile (fun f => decide (f.name < file.name))

def fileEndsWithNewline (dir : List MirrorFile) (name : String) (size : ℕ) : Bool :=
  decide (size = 0) ||
    match fileNamed dir name with
    | none => false
    | some file => decide (file.content[size - 1]? = some LF)

/-! ## The full scan -/

def isLaterCorpusTail (candidate current : MirrorRecord) : Bool :=
  if candidate.timestamp ≠ current.timestamp then
    decide (current.timestamp < candidate.timestamp)
  else decide (current.recordHash < candidate.recordHash)

def mergeCorpusTail (tails : InsertionMap String CorpusTail) (contextId : String)
    (record : MirrorRecord) (sourceFile : String) : InsertionMap String CorpusTail :=
  match tails.get? contextId with
  | none => tails.set contextId ⟨sourceFile, record⟩
  | some current =>
      if isLaterCorpusTail record current.record then tails.set contextId ⟨sourceFile, record⟩
      else tails

variable (H : Hash) (codec : MirrorCodec)

def parseMirrorValue (value : Json) : Option MirrorRecord :=
  if value.isObject && isMirrorRecord (unwrap value) then
    (codec.canonicalRecord (unwrap value)).map fun bytes =>
      { value := unwrap value
        contextId := ((unwrap value).text "context_id").getD ""
        timestamp := ((unwrap value).number "timestamp").getD 0
        recordHash := hexEncode (H.sha256 bytes) }
  else none

def parseMirrorLine (line : Bytes) : Option MirrorRecord :=
  (codec.parse line).bind (parseMirrorValue H codec)

/-- The record of a line that is not blank. -/
def recordOfLine (line : Bytes) : Option MirrorRecord :=
  if line = [] then none else parseMirrorLine H codec line

/-- The last record of each context. -/
def tailsOfLines (lines : List Bytes) : InsertionMap String MirrorRecord :=
  (lines.filterMap (recordOfLine H codec)).foldl (fun tails record => tails.set record.contextId record) ∅

def scanMirrorFileTails (file : MirrorFile) : InsertionMap String MirrorRecord :=
  tailsOfLines H codec (readline file.content)

def scanCorpus (dir : List MirrorFile) : InsertionMap String CorpusTail :=
  dir.foldl (fun tails file =>
    (scanMirrorFileTails H codec file).entries.foldl
      (fun tails entry => mergeCorpusTail tails entry.1 entry.2 file.name) tails) ∅

/-! ## The index -/

def indexFromTails (files : List MirrorFileState) (tails : InsertionMap String CorpusTail) :
    MirrorTailIndex where
  files := files
  tails := tails.entries.map fun entry => ⟨entry.1, entry.2.sourceFile, entry.2.record.value⟩

/-- The checks on one tail of the index. -/
def loadTail (files : List MirrorFileState) (tails : InsertionMap String CorpusTail)
    (tail : IndexedCorpusTail) : Option (InsertionMap String CorpusTail) :=
  match parseMirrorValue H codec tail.record with
  | none => none
  | some record =>
      if tail.sourceFile ∈ files.map (·.name) ∧ record.contextId = tail.contextId ∧
          tail.contextId ∉ tails.keys then
        some (tails.set tail.contextId ⟨tail.sourceFile, record⟩)
      else none

/-- `loadMirrorTailIndex` and `tailsFromIndex`: none where the index is ignored. -/
def loadMirrorTailIndex (index : MirrorTailIndex) : Option (InsertionMap String CorpusTail) :=
  if (index.files.map (·.name)).Nodup then
    index.tails.foldlM (loadTail H codec index.files) ∅
  else none

/-- What a file that was listed has become: nothing if it is not the old file
with more in it, no change if it is as it was. -/
def changeOf (current : List MirrorFileState) (oldState : MirrorFileState) :
    Option (Option IncrementalChange) :=
  match current.find? (·.name = oldState.name) with
  | none => none
  | some newState =>
      if newState.ino ≠ oldState.ino ∨ newState.size < oldState.size then none
      else if newState.size = oldState.size then
        if oldState = newState then some none else none
      else some (some ⟨newState, oldState.size⟩)

def appendOnlyChanges (old current : List MirrorFileState) : Option (List IncrementalChange) :=
  (old.mapM (changeOf current)).map fun grown =>
    (grown.reduceOption ++
      (current.filter fun state => state.name ∉ old.map (·.name)).map fun state => ⟨state, 0⟩).mergeSort
      fun a b => decide (a.state.name ≤ b.state.name)

/-- The bytes of a change. -/
def appendedBytes (dir : List MirrorFile) (change : IncrementalChange) : Bytes :=
  match fileNamed dir change.state.name with
  | none => []
  | some file => (file.content.drop change.start).take (change.state.size - change.start)

/-- None where the scan is not complete. -/
def scanAppendedTails (dir : List MirrorFile) (change : IncrementalChange) :
    Option (InsertionMap String MirrorRecord) :=
  let byteLength := change.state.size - change.start
  if byteLength = 0 then some ∅
  else if MAX_INCREMENTAL_BYTES < byteLength then none
  else
    let bytes := appendedBytes dir change
    if bytes.length < byteLength then none
    else if bytes.getLast? ≠ some LF then none
    else some (tailsOfLines H codec (splitLF bytes))

def appendBoundariesIntact (dir : List MirrorFile) (changes : List IncrementalChange) : Bool :=
  (changes.filter (0 < ·.start)).all fun change =>
    fileEndsWithNewline dir change.state.name change.start

/-- A tail of the appended lines of a file replaces an older one. If the file's
own tail was the newest and does not get newer, only a full scan can tell which
one is. -/
def foldTail (sourceFile : String) (tails : InsertionMap String CorpusTail)
    (entry : String × MirrorRecord) : Option (InsertionMap String CorpusTail) :=
  match tails.get? entry.1 with
  | none => some (tails.set entry.1 ⟨sourceFile, entry.2⟩)
  | some prior =>
      if prior.sourceFile = sourceFile then
        if isLaterCorpusTail entry.2 prior.record then
          some (tails.set entry.1 ⟨sourceFile, entry.2⟩)
        else none
      else if isLaterCorpusTail entry.2 prior.record then
        some (tails.set entry.1 ⟨sourceFile, entry.2⟩)
      else some tails

def foldChange (dir : List MirrorFile) (tails : InsertionMap String CorpusTail)
    (change : IncrementalChange) : Option (InsertionMap String CorpusTail) :=
  (scanAppendedTails H codec dir change).bind fun scan =>
    scan.entries.foldlM (foldTail change.state.name) tails

/-! ## Readers and writers -/

inductive ReadPhase
  /-- The directory has been listed, the index is to be loaded. -/
  | listed
  | scanning (tails : InsertionMap String CorpusTail) (changes : List IncrementalChange)
      (changed : Bool) (round : ℕ)

structure IndexedRead where
  contextId : String
  current : List MirrorFile
  phase : ReadPhase := .listed

/-- What a read through the index has returned, and the directory it is about. -/
structure MirrorAnswer where
  contextId : String
  record : Option MirrorRecord
  dir : List MirrorFile

structure MirrorState where
  dir : List MirrorFile
  index : Option MirrorTailIndex := none
  reads : List IndexedRead := []
  /-- Indexes on their way into the index file. -/
  indexWrites : List MirrorTailIndex := []
  answers : List MirrorAnswer := []

inductive MirrorMove
  | append (name : String) (bytes : Bytes) (mtimeMs ctimeMs : ℕ)
  | create (file : MirrorFile)
  /-- A read lists the directory. -/
  | read (contextId : String)
  /-- A read goes on, up to the next listing or to its end. -/
  | resume (index : ℕ)
  /-- A full scan with nothing changed while it ran. -/
  | fullScan
  | renameIndex (index : ℕ)

namespace MirrorState

def dropRead (s : MirrorState) (i : ℕ) : MirrorState := { s with reads := s.reads.eraseIdx i }

/-- The read returns, and writes an index if it has found anything new. -/
def finish (s : MirrorState) (i : ℕ) (read : IndexedRead) (tails : InsertionMap String CorpusTail)
    (changed : Bool) (dir : List MirrorFile) : MirrorState :=
  { s.dropRead i with
    indexWrites := s.indexWrites ++
      if changed then [indexFromTails (read.current.map fileState) tails] else []
    answers := s.answers ++
      [⟨read.contextId, (tails.get? read.contextId).map (·.record), dir⟩] }

/-- The beginning of `tryIndexedCorpusTail`. -/
def loadIndex (s : MirrorState) (i : ℕ) (read : IndexedRead) : MirrorState :=
  match s.index with
  | none => s.dropRead i
  | some index =>
      match loadMirrorTailIndex H codec index,
          appendOnlyChanges index.files (read.current.map fileState) with
      | some tails, some changes =>
          if appendBoundariesIntact s.dir changes then
            { s with reads := s.reads.set i { read with phase := .scanning tails changes false 0 } }
          else s.dropRead i
      | _, _ => s.dropRead i

/-- One round of the loop of `tryIndexedCorpusTail`. -/
def scanRound (s : MirrorState) (i : ℕ) (read : IndexedRead)
    (tails : InsertionMap String CorpusTail) (changes : List IncrementalChange) (changed : Bool)
    (round : ℕ) : MirrorState :=
  match changes.foldlM (foldChange H codec s.dir) tails with
  | none => s.dropRead i
  | some tails =>
      let changed := changed || decide (changes ≠ [])
      if read.current.map fileState = s.dir.map fileState then s.finish i read tails changed s.dir
      else
        match appendOnlyChanges (read.current.map fileState) (s.dir.map fileState) with
        | none => s.dropRead i
        | some next =>
            if !appendBoundariesIntact s.dir next then s.dropRead i
            else if MAX_INCREMENTAL_ROUNDS ≤ round + 1 then
              s.finish i read tails changed read.current
            else
              { s with
                reads := s.reads.set i { read with
                  current := s.dir
                  phase := .scanning tails next changed (round + 1) } }

def resume (s : MirrorState) (i : ℕ) : MirrorState :=
  match s.reads[i]? with
  | none => s
  | some read =>
      match read.phase with
      | .listed => s.loadIndex H codec i read
      | .scanning tails changes changed round => s.scanRound H codec i read tails changes changed round

/-- The index a full scan writes: none if a file ends in the middle of a line. -/
def fullScan (s : MirrorState) : MirrorState :=
  if s.dir.all fun file => fileEndsWithNewline s.dir file.name file.content.length then
    { s with
      indexWrites :=
        s.indexWrites ++ [indexFromTails (s.dir.map fileState) (scanCorpus H codec s.dir)] }
  else s

def step (s : MirrorState) : MirrorMove → MirrorState
  | .append name bytes mtimeMs ctimeMs =>
      { s with dir := appendToFile s.dir name bytes mtimeMs ctimeMs }
  | .create file => { s with dir := createFile s.dir file }
  | .read contextId => { s with reads := s.reads ++ [{ contextId := contextId, current := s.dir }] }
  | .resume i => s.resume H codec i
  | .fullScan => s.fullScan H codec
  | .renameIndex i => { s with index := s.indexWrites[i]?.or s.index }

end MirrorState

end Mirror

end Atrib
