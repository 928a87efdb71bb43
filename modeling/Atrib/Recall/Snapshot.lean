import Atrib.Recall.Mirror

/-!
# The snapshot of the mirror

`readMirrorFingerprint`, `getLoadedMirrorSnapshot` and the refresh after an
append of `services/atrib-recall/src/index.ts`, with the loaders of
`aggregations.ts` they call. The signature of a fingerprint is a JSON text of
the data that `MirrorSignature` has. What is kept to make a later search faster
is left out.

A mirror is one file or the files of a directory, in the order in which the
directory lists them. All files are in one directory, so that their paths sort
like their names.
-/

namespace Atrib.Recall.Mirror

open Lib (InsertionMap JsValue sortBy)

variable (P : Platform)

/-! ## Files -/

structure MirrorFileStat where
  path : String
  size : ℕ
  mtimeMs : ℕ
  ino : ℕ
deriving DecidableEq

structure MirrorFile where
  path : String
  bytes : Bytes
  mtimeMs : ℕ
  ino : ℕ

def MirrorFile.stat (file : MirrorFile) : MirrorFileStat :=
  ⟨file.path, file.bytes.length, file.mtimeMs, file.ino⟩

/-- What the disk has under the path that the environment names. -/
inductive Disk where
  | file (path : String) (found : Option MirrorFile)
  | missing (path : String)
  | unreadable (path : String)
  | dir (path : String) (listing : List MirrorFile)

inductive MirrorSignature where
  | file (path : String) (stat : Option MirrorFileStat)
  | missing (path : String)
  | unreadable (path : String)
  | dir (path : String) (stats : List MirrorFileStat)
deriving DecidableEq

structure MirrorFingerprint where
  files : List String
  stats : List MirrorFileStat
  signature : MirrorSignature

namespace Disk

/-- The files there are. -/
def files : Disk → List MirrorFile
  | .file _ found => found.toList
  | .missing _ | .unreadable _ => []
  | .dir _ listing => listing

def sorted (listing : List MirrorFile) : List MirrorFile :=
  sortBy (fun a b => compare (JsValue.codeUnits a.path) (JsValue.codeUnits b.path)) listing

def readMirrorFingerprint : Disk → MirrorFingerprint
  | .file path found => ⟨[path], found.toList.map (·.stat), .file path (found.map (·.stat))⟩
  | .missing path => ⟨[], [], .missing path⟩
  | .unreadable path => ⟨[], [], .unreadable path⟩
  | .dir path listing =>
      ⟨(sorted listing).map (·.path), (sorted listing).map (·.stat),
        .dir path ((sorted listing).map (·.stat))⟩

end Disk

/-! ## Loaders -/

def loadLoaded (file : MirrorFile) : Except String (List LoadedRecord) :=
  parseLoadedJsonl P file.bytes

/-- `raw.slice(raw.indexOf('\n') + 1)`, if there is one. -/
def afterFirstLF (raw : Bytes) : Option Bytes :=
  match raw.dropWhile (· ≠ LF) with
  | [] => none
  | _ :: rest => some rest

/-- Whatever throws, nothing is loaded. -/
def loadLoadedAppend (file : MirrorFile) (startOffset : ℕ) : List LoadedRecord :=
  if startOffset ≥ file.bytes.length then []
  else
    let readStart := startOffset - 1
    let raw := file.bytes.drop readStart
    if readStart > 0 then
      match afterFirstLF raw with
      | none => []
      | some rest => (parseLoadedJsonl P rest).toOption.getD []
    else (parseLoadedJsonl P raw).toOption.getD []

def discoverLoaded (disk : Disk) : Except String (List LoadedRecord × List String) := do
  let parts ← disk.files.mapM (loadLoaded P)
  return (parts.flatten,
    match disk with
    | .file path _ => [path]
    | _ => disk.files.map (·.path))

/-! ## Snapshots -/

structure LoadedMirrorSnapshot where
  signature : MirrorSignature
  stats : List MirrorFileStat
  loaded : List LoadedRecord
  loadedByHash : InsertionMap RecordHash LoadedRecord
  newestLoaded : List LoadedRecord
  files : List String
  annotationsByRecord : InsertionMap RecordHash AnnotationSummary
  revisionsByRecord : InsertionMap RecordHash (List RecordHash)
  maxLoadedRecords : Option ℕ := none
  isPartial : Bool := false

/-- `b.record.timestamp - a.record.timestamp` -/
def newestFirst (a b : LoadedRecord) : Ordering := compare b.record.timestamp a.record.timestamp

def snapshotOf (fingerprint : MirrorFingerprint) (loaded : List LoadedRecord) (files : List String)
    (maxLoadedRecords : Option ℕ) (isPartial : Bool) : LoadedMirrorSnapshot where
  signature := fingerprint.signature
  stats := fingerprint.stats
  loaded
  loadedByHash := (∅ : InsertionMap RecordHash LoadedRecord).setAll
    (loaded.map fun lr => (lr.recordHash, lr))
  newestLoaded := sortBy newestFirst loaded
  files
  annotationsByRecord := aggregateAnnotationsByRecord loaded
  revisionsByRecord := aggregateRevisionsByRecord P loaded
  maxLoadedRecords
  isPartial

/-- A file of the same name is the same file only with the same inode. -/
def sameMirrorFiles (a b : List MirrorFileStat) : Bool :=
  a.length == b.length && (a.zip b).all fun pair =>
    pair.1.path == pair.2.path && pair.1.ino == pair.2.ino

/-- The sizes of a file before and now. -/
def priorSize (previous : List MirrorFileStat) (current : MirrorFile) : Option ℕ :=
  (previous.find? (·.path = current.path)).map (·.size)

/-- What has been appended to a file since it had the prior size. -/
def appendedTo (previous : List MirrorFileStat) (current : MirrorFile) : List LoadedRecord :=
  match priorSize previous current with
  | some prior => if current.bytes.length > prior then loadLoadedAppend P current prior else []
  | none => []

def tryAppendRefreshLoadedMirrorSnapshot (disk : Disk) (previous : Option LoadedMirrorSnapshot)
    (fingerprint : MirrorFingerprint) (maxLoadedRecords : Option ℕ) :
    Option LoadedMirrorSnapshot :=
  match previous with
  | none => none
  | some previous =>
      let current := Disk.sorted disk.files
      if maxLoadedRecords.isSome ∧ previous.maxLoadedRecords.isSome ∧
          previous.maxLoadedRecords ≠ maxLoadedRecords then none
      else if !sameMirrorFiles previous.stats fingerprint.stats then none
      else if current.any fun file =>
          (priorSize previous.stats file).all (file.bytes.length < ·) then none
      else
        let appended := current.flatMap (appendedTo P previous.stats)
        if appended = [] then
          some { previous with signature := fingerprint.signature, stats := fingerprint.stats }
        else
          let loaded := previous.loaded ++ appended
          match maxLoadedRecords with
          | none => some (snapshotOf P fingerprint loaded fingerprint.files none previous.isPartial)
          | some limit =>
              some (snapshotOf P fingerprint ((sortBy newestFirst loaded).take limit)
                fingerprint.files (some limit)
                (previous.isPartial || decide (loaded.length > limit)))

/-- The snapshot that is returned is the one that is kept from then on. -/
def getLoadedMirrorSnapshot (disk : Disk) (loadedMirrorSnapshot : Option LoadedMirrorSnapshot) :
    Except String LoadedMirrorSnapshot :=
  let fingerprint := disk.readMirrorFingerprint
  match loadedMirrorSnapshot.filter (·.signature = fingerprint.signature) with
  | some snapshot => .ok snapshot
  | none =>
      match tryAppendRefreshLoadedMirrorSnapshot P disk loadedMirrorSnapshot fingerprint none with
      | some refreshed => .ok refreshed
      | none => do
          let (loaded, files) ← discoverLoaded P disk
          return snapshotOf P fingerprint loaded files none false

end Atrib.Recall.Mirror
