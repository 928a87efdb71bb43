import Atrib.WitnessNode.Store

/-!
# One round of a witness

`witnessOnce` of `services/witness-node/src/witness.ts`. Everything that comes
from outside during a round is in `Update`: the checkpoint the log presents
(nothing, when it is rejected or cannot be fetched), the tiles it serves, what
comparing notes with other sources ends in, the clock, and the fate of the
writes. The log is not trusted with any of it.

A server runs one round at a time, so a round is a step. A crash is a round
that stops somewhere; the store is all that a restart finds.
-/

namespace Atrib.WitnessNode

open Verify (CheckpointBody CheckpointView Cosignature createWitnessCosignature
  verifyCheckpointConsistencyFromLeafHashes)

structure WitnessLogConfig where
  logName : String
  gossipSources : ℕ

structure Update where
  checkpoint : Option CheckpointBody
  /-- The answer for a level-0 tile, by index and width. -/
  tiles : ℕ → ℕ → Option Bytes
  /-- Why gossip does not come out consistent, if it does not. -/
  gossip : Option String
  nowSeconds : ℤ
  io : CommitIo

inductive WitnessStatus
  | witnessed
  | unchanged
deriving DecidableEq

structure WitnessOnceResult where
  status : WitnessStatus
  treeSize : ℕ
  rootHash : Bytes
  cosignature : Cosignature
  gossipSourcesCompared : ℕ

structure FetchedLeafRange where
  appended : List Bytes
  overlap : List Bytes
  overlapStart : ℕ

/-! ## Fetching leaf hashes -/

/-- `text.padStart(length, '0')` -/
def padStart (text : List Char) (length : ℕ) : List Char :=
  List.replicate (length - text.length) '0' ++ text

/-- `text.match(/.{3}/g)` -/
def groupsOfThree : List Char → List (List Char)
  | a :: b :: c :: text => [a, b, c] :: groupsOfThree text
  | _ => []

/-- An `x` before every group but the last. -/
def markGroups : List (List Char) → List (List Char)
  | [] => []
  | [last] => [last]
  | group :: groups => ('x' :: group) :: markGroups groups

def encodeTileIndex (index : ℕ) : Except String (List Char) :=
  if index > MAX_SAFE_INTEGER then .error "tile index must be non-negative"
  else
    let value := Nat.toDigits 10 index
    let padded := padStart value ((value.length + 2) / 3 * 3)
    .ok (['/'].intercalate (markGroups (groupsOfThree padded)))

/-- A path with `.p/W` behind it for a partial tile. -/
def withWidth (path : List Char) : Option ℕ → List Char
  | none => path
  | some width => path ++ ['.', 'p', '/'] ++ Nat.toDigits 10 width

/-- What the path of a tile has behind `/v1/tile/0/`. -/
def tilePath (tileIndex width : ℕ) : Except String (List Char) :=
  (encodeTileIndex tileIndex).map (withWidth · (if width = 256 then none else some width))

def fetchTile (tiles : ℕ → ℕ → Option Bytes) (toIndex tileIndex : ℕ) :
    Except String (List Bytes) :=
  let width := min 256 (toIndex - tileIndex * 256)
  match tiles tileIndex width with
  | none => .error "fetch failed"
  | some bytes =>
      if bytes.length ≠ width * 32 then
        .error s!"hash tile {tileIndex} returned {bytes.length} bytes for width {width}"
      else .ok ((List.range width).map (hashAt bytes))

def fetchLeafHashRange (tiles : ℕ → ℕ → Option Bytes) (fromIndex toIndex : ℕ) :
    Except String FetchedLeafRange :=
  if toIndex ≤ fromIndex then
    if toIndex = fromIndex then .ok ⟨[], [], fromIndex⟩ else .error "invalid leaf hash range"
  else do
    let firstTile := fromIndex / 256
    let lastTile := (toIndex - 1) / 256
    let fetched ← (List.range' firstTile (lastTile - firstTile + 1)).mapM (fetchTile tiles toIndex)
    let flattened := fetched.flatten
    let overlapCount := fromIndex - firstTile * 256
    return ⟨flattened.drop overlapCount, flattened.take overlapCount, firstTile * 256⟩

/-- The first leaf of the refetched overlap that differs from the stored one. -/
def changedLeaf (priorHashes : List Bytes) (fetched : FetchedLeafRange) : Option ℕ :=
  ((List.range fetched.overlap.length).map (fetched.overlapStart + ·)).find? fun index =>
    priorHashes[index]? ≠ fetched.overlap[index - fetched.overlapStart]?

variable (H : Hash) (config : WitnessLogConfig)

/-- The verified checkpoint of the log that is followed. -/
def operatorCheckpoint (update : Update) : Except String CheckpointBody :=
  match update.checkpoint with
  | none => .error "operator checkpoint rejected: unknown failure"
  | some checkpoint =>
      if checkpoint.origin ≠ config.logName then
        .error "operator checkpoint rejected: checkpoint origin does not match the pinned log name"
      else .ok checkpoint

/-- The stored leaf hashes, and what the log appended to them. -/
def readLeafHashes (store : WitnessStore) (prior : Option StoredWitnessState)
    (checkpoint : CheckpointBody) (update : Update) :
    Except String (List Bytes × FetchedLeafRange) :=
  match prior with
  | none => do
      let fetched ← fetchLeafHashRange update.tiles 0 checkpoint.treeSize
      return ([], fetched)
  | some prior => do
      let priorHashes ← store.loadLeafHashes prior
      if checkpoint.treeSize = prior.treeSize then return (priorHashes, ⟨[], [], priorHashes.length⟩)
      else
        let fetched ← fetchLeafHashRange update.tiles priorHashes.length checkpoint.treeSize
        return (priorHashes, fetched)

def compareGossip (update : Update) : Except String Unit :=
  if config.gossipSources > 0 then
    match update.gossip with
    | some reason => .error s!"checkpoint gossip {reason}"
    | none => .ok ()
  else .ok ()

/-- From the stored leaf hashes to the end of gossip: the leaf hashes of the
new view, checked against both roots. -/
def readView (store : WitnessStore) (prior : Option StoredWitnessState)
    (checkpoint : CheckpointBody) (update : Update) : Except String (List Bytes) := do
  let (priorHashes, fetched) ← readLeafHashes store prior checkpoint update
  match changedLeaf priorHashes fetched with
  | some index => .error s!"checkpoint split view: leaf {index} changed"
  | none => do
      let consistent ← verifyCheckpointConsistencyFromLeafHashes H
        (prior.map fun prior => ⟨prior.treeSize, prior.rootHash⟩)
        ⟨checkpoint.treeSize, checkpoint.rootHash⟩ (priorHashes ++ fetched.appended)
      if consistent then do
        compareGossip config update
        return priorHashes ++ fetched.appended
      else .error "checkpoint consistency verification failed"

/-- A cosignature that is there already is used again. -/
def cosignatureFor (store : WitnessStore) (checkpoint : CheckpointBody) (update : Update) :
    Except String Cosignature :=
  match store.getCosignature checkpoint.rootHash with
  | some existing => .ok existing
  | none => createWitnessCosignature checkpoint update.nowSeconds

/-- What a round comes to before it writes: nothing new, or a state and its
leaf hashes to commit. -/
inductive Prepared
  | unchanged (result : WitnessOnceResult)
  | toCommit (state : StoredWitnessState) (leafHashes : List Bytes)

def stateToCommit (store : WitnessStore) (checkpoint : CheckpointBody) (update : Update)
    (leafHashes : List Bytes) : Except String Prepared := do
  let cosignature ← cosignatureFor store checkpoint update
  return .toCommit ⟨checkpoint.origin, checkpoint.treeSize, checkpoint.rootHash, checkpoint,
    cosignature, update.nowSeconds⟩ leafHashes

/-- The branch for a checkpoint of the stored size. -/
def prepareUnchanged (store : WitnessStore) (prior : StoredWitnessState)
    (checkpoint : CheckpointBody) (update : Update) : Except String Prepared :=
  if checkpoint.rootHash ≠ prior.rootHash then
    .error "checkpoint split view: same tree size has a different root"
  else if config.gossipSources = 0 then
    .ok (.unchanged ⟨.unchanged, prior.treeSize, checkpoint.rootHash, prior.cosignature, 0⟩)
  else do
    let _ ← readView H config store (some prior) checkpoint update
    return .unchanged ⟨.unchanged, prior.treeSize, checkpoint.rootHash, prior.cosignature,
      config.gossipSources⟩

/-- `witnessOnce` up to `options.store.commit`. -/
def prepare (store : WitnessStore) (update : Update) : Except String Prepared := do
  let checkpoint ← operatorCheckpoint config update
  let prior ← store.load checkpoint.origin
  match prior with
  | none => do
      let leafHashes ← readView H config store none checkpoint update
      stateToCommit store checkpoint update leafHashes
  | some prior =>
      if checkpoint.treeSize < prior.treeSize then
        .error s!"checkpoint rollback: {checkpoint.treeSize} is below witnessed size {prior.treeSize}"
      else if checkpoint.treeSize = prior.treeSize then
        prepareUnchanged H config store prior checkpoint update
      else do
        let leafHashes ← readView H config store (some prior) checkpoint update
        stateToCommit store checkpoint update leafHashes

def witnessOnce (store : WitnessStore) (update : Update) :
    WitnessStore × Except String WitnessOnceResult :=
  match prepare H config store update with
  | .error message => (store, .error message)
  | .ok (.unchanged result) => (store, .ok result)
  | .ok (.toCommit state leafHashes) =>
      let (store, committed) := store.commit state leafHashes update.io
      (store, committed.map fun _ =>
        ⟨.witnessed, state.treeSize, state.rootHash, state.cosignature, config.gossipSources⟩)

/-- The store after one round, whether it returned, threw or was cut off. -/
def step (store : WitnessStore) (update : Update) : WitnessStore :=
  (witnessOnce H config store update).1

end Atrib.WitnessNode
