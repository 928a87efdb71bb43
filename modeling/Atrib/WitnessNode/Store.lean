import Atrib.Verify.Witness

/-!
# The files of a witness

`services/witness-node/src/store.ts`, for the one log origin a witness
follows: the state, the leaf hashes behind it, and one cosignature file for
each root. What becomes of a write is an argument. A rename takes effect at
once and for good or not at all; the leaf file is written in place, and a
write that is cut short leaves anything at all behind the committed bytes.
-/

namespace Atrib.WitnessNode

open Verify (CheckpointBody Cosignature)

structure StoredWitnessState where
  logOrigin : String
  treeSize : ℕ
  rootHash : Bytes
  checkpointBody : CheckpointBody
  cosignature : Cosignature
  witnessedAtSeconds : ℤ
deriving DecidableEq

/-- The checks on the texts of a state (a body and a cosignature end their
line, a note has a blank line) hold of every parsed note and every line the
witness made. -/
def validateState (state : StoredWitnessState) (expectedOrigin : String) : Bool :=
  state.logOrigin == expectedOrigin && decide (state.treeSize ≤ MAX_SAFE_INTEGER) &&
    decide (1 ≤ state.treeSize) && state.rootHash.length == 32 &&
    decide (state.witnessedAtSeconds.natAbs ≤ MAX_SAFE_INTEGER)

/-- The files below the store's root; cosignatures by root hash. -/
structure WitnessStore where
  state : Option StoredWitnessState
  leaves : Option Bytes
  cosignatures : List (Bytes × Cosignature)

/-- The fate of a write of the leaf file: nothing changed, it was cut short
with `tail` behind the committed bytes, or it was finished and synced. -/
inductive LeafWrite
  | untouched
  | cut (tail : Bytes)
  | done
deriving DecidableEq

/-- The fate of `writeDurably`: it ended before the rename, between the rename
and its return, or it returned. -/
inductive FileWrite
  | notRenamed
  | renamedThenFailed
  | done
deriving DecidableEq

/-- What becomes of the three writes of a commit, as far as it gets to them. -/
structure CommitIo where
  leaves : LeafWrite
  cosignature : FileWrite
  state : FileWrite

def CommitIo.clean : CommitIo := ⟨.done, .done, .done⟩

def FileWrite.renamed : FileWrite → Bool
  | .notRenamed => false
  | _ => true

def FileWrite.result : FileWrite → Except String Unit
  | .done => .ok ()
  | _ => .error "durable witness write failed"

/-- `bytes.subarray(index * 32, (index + 1) * 32)` -/
def hashAt (bytes : Bytes) (index : ℕ) : Bytes := (bytes.drop (index * 32)).take 32

/-- `ftruncateSync`: cut, or fill with zeros. -/
def ftruncate (bytes : Bytes) (length : ℕ) : Bytes :=
  bytes.take length ++ List.replicate (length - bytes.length) 0

def writeLeafHashesDurably (leaves : Option Bytes) (hashes : List Bytes) (committedCount : ℕ)
    (io : LeafWrite) : Option Bytes × Except String Unit :=
  if committedCount > hashes.length then
    (leaves, .error "committed witness leaf count exceeds the new checkpoint")
  else
    let committed := ftruncate (leaves.getD []) (committedCount * 32)
    match io with
    | .untouched => (leaves, .error "open failed")
    | .cut tail => (some (committed ++ tail), .error "durable witness leaf write failed")
    | .done => (some (committed ++ (hashes.drop committedCount).flatten), .ok ())

namespace WitnessStore

def empty : WitnessStore := ⟨none, none, []⟩

def load (store : WitnessStore) (logOrigin : String) :
    Except String (Option StoredWitnessState) :=
  match store.state with
  | none => .ok none
  | some state =>
      if validateState state logOrigin then .ok (some state)
      else .error "stored witness state is malformed"

def getCosignature (store : WitnessStore) (rootHash : Bytes) : Option Cosignature :=
  (store.cosignatures.find? (·.1 = rootHash)).map (·.2)

def loadLeafHashes (store : WitnessStore) (state : StoredWitnessState) :
    Except String (List Bytes) :=
  match store.leaves with
  | none => .error "stored witness leaf history is missing"
  | some bytes =>
      if bytes.length < state.treeSize * 32 then
        .error "stored witness leaf history is shorter than the committed checkpoint"
      else .ok ((List.range state.treeSize).map (hashAt bytes))

/-- The cosignature file of a commit: an existing one has to agree. -/
def commitCosignature (store : WitnessStore) (state : StoredWitnessState) (io : FileWrite) :
    WitnessStore × Except String Unit :=
  match store.getCosignature state.rootHash with
  | some existing =>
      if existing ≠ state.cosignature then
        (store, .error "refusing to replace an immutable witness cosignature")
      else (store, .ok ())
  | none =>
      (if io.renamed then
          { store with
            cosignatures := store.cosignatures ++ [(state.rootHash, state.cosignature)] }
        else store,
        io.result)

def commitState (store : WitnessStore) (state : StoredWitnessState) (io : FileWrite) :
    WitnessStore × Except String Unit :=
  (if io.renamed then { store with state := some state } else store, io.result)

/-- Leaf hashes, then the cosignature, then the state. -/
def commit (store : WitnessStore) (state : StoredWitnessState) (leafHashes : List Bytes)
    (io : CommitIo) : WitnessStore × Except String Unit :=
  if !validateState state state.logOrigin then
    (store, .error "stored witness state is malformed")
  else if leafHashes.length ≠ state.treeSize ∨ leafHashes.any (fun hash => hash.length ≠ 32) then
    (store, .error "witness leaf history does not match the checkpoint tree size")
  else
    match store.load state.logOrigin with
    | .error message => (store, .error message)
    | .ok prior =>
        if prior.any (fun prior => decide (state.treeSize < prior.treeSize)) then
          (store, .error "refusing to commit a witness checkpoint rollback")
        else
          let committedCount := (prior.map (·.treeSize)).getD 0
          let (leaves, written) :=
            writeLeafHashesDurably store.leaves leafHashes committedCount io.leaves
          let store := { store with leaves := leaves }
          match written with
          | .error message => (store, .error message)
          | .ok () =>
              let (store, cosigned) := store.commitCosignature state io.cosignature
              match cosigned with
              | .error message => (store, .error message)
              | .ok () => store.commitState state io.state

end WitnessStore

end Atrib.WitnessNode
