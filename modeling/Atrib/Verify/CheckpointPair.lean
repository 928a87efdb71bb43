import Atrib.Mcp.CheckpointPair
import Atrib.Verify.SessionCheckpoint
import Atrib.Verify.Witness

/-!
# The verify package's copy of the pair check

The check of `packages/verify/src/session-checkpoint.ts` reads records of any
type, so a checkpoint may be missing, and takes leaves as references. Each kind
of evidence has its own field in the answer, and two of the four bear on the
verdict.
-/

namespace Atrib.Verify.SessionCheckpoint

open Atrib.SessionCheckpoint (EvidenceSummary EquivocationReason
  SessionCheckpointEquivocationEvidence)

structure SessionCheckpointBody where
  firstIndex : ℚ
  priorCheckpoint : Option String := none
  retroactive : Option Bool := none
  sessionRoot : String
  treeSize : ℚ
deriving DecidableEq

structure SessionCheckpointRecord extends AtribRecord where
  checkpoint : Option SessionCheckpointBody

variable (H : Hash) (canonicalRecord : SessionCheckpointRecord → Bytes)

/-! ## Roots from references -/

/-- The split point is found as in `witness.ts`. -/
def merkleTreeHash (leaves : List Bytes) : Bytes :=
  match leaves with
  | [] => H.sha256 []
  | [leaf] => H.leafHash leaf
  | leaf :: next :: leaves =>
      let k := largestPowerOfTwoLessThan (leaf :: next :: leaves).length
      H.nodeHash (merkleTreeHash ((leaf :: next :: leaves).take k))
        (merkleTreeHash ((leaf :: next :: leaves).drop k))
termination_by leaves.length
decreasing_by
  · have hlen : 2 ≤ (leaf :: next :: leaves).length := by simp
    rw [List.length_take, largestPowerOfTwoLessThan_eq hlen]
    have := Lib.Merkle.split_lt hlen
    omega
  · have hlen : 2 ≤ (leaf :: next :: leaves).length := by simp
    rw [List.length_drop, largestPowerOfTwoLessThan_eq hlen]
    exact Lib.Merkle.sub_split_lt hlen

def sessionLeafBytes (ref : String) : Except String Bytes :=
  if !isSha256Ref ref then
    .error ("atrib: session leaf ref is not \"sha256:<64-hex>\": " ++ ref)
  else hexDecode (afterHashPrefix ref)

def recomputeSessionRoot (leafRefs : List String) : Except String String := do
  return sha256Ref (merkleTreeHash H (← leafRefs.mapM sessionLeafBytes))

/-! ## The pair -/

def sessionCheckpointRecordHash (record : SessionCheckpointRecord) : String :=
  sha256Ref (H.sha256 (canonicalRecord record))

def evidenceSummary (cp : SessionCheckpointBody) : EvidenceSummary :=
  ⟨cp.sessionRoot, cp.treeSize, cp.firstIndex⟩

def detectSessionCheckpointEquivocation (a b : SessionCheckpointRecord) :
    Option SessionCheckpointEquivocationEvidence :=
  match a.checkpoint, b.checkpoint with
  | some acp, some bcp =>
      if a.creatorKey ≠ b.creatorKey ∨ a.contextId ≠ b.contextId then none
      else
        let samePrior := acp.priorCheckpoint = bcp.priorCheckpoint
        let overlapping := acp.firstIndex ≤ bcp.treeSize - 1 ∧ bcp.firstIndex ≤ acp.treeSize - 1
        if ¬samePrior ∧ ¬overlapping then none
        else if acp.treeSize ≠ bcp.treeSize then none
        else if acp.sessionRoot = bcp.sessionRoot then none
        else some {
          creatorKey := a.creatorKey
          contextId := a.contextId
          reason := .divergentRootsSameClaim
          priorCheckpoint := if samePrior then acp.priorCheckpoint else none
          firstRecordHash := sessionCheckpointRecordHash H canonicalRecord a
          secondRecordHash := sessionCheckpointRecordHash H canonicalRecord b
          first := evidenceSummary acp
          second := evidenceSummary bcp }
  | _, _ => none

structure CheckConsecutiveSessionCheckpointsOptions where
  firstLeaves : Option (List String) := none
  secondLeaves : Option (List String) := none
  consistencyProof : Option (List Bytes) := none

structure ConsecutiveSessionCheckpointCheck where
  priorCheckpointMatches : Bool
  firstIndexMatchesPriorTreeSize : Bool
  firstRootRecomputes : Option Bool
  secondRootRecomputes : Option Bool
  appendOnly : Option Bool
  consistencyProofVerifies : Option Bool
  consistent : Bool
  equivocation : Option SessionCheckpointEquivocationEvidence
deriving DecidableEq

/-- A throw of `recomputeSessionRoot` is `undefined` and equal to no root. -/
def rootRecomputes (leaves : Option (List String)) (cp : Option SessionCheckpointBody) :
    Option Bool :=
  match leaves, cp with
  | some leaves, some cp => some (recomputeSessionRoot H leaves).toOption == some cp.sessionRoot
  | _, _ => none

/-- `opts.secondLeaves?.[i] === ref`, for every `i` of the first list. -/
def isPrefixAppendOnly (firstLeaves secondLeaves : List String) (cp : SessionCheckpointBody) :
    Bool :=
  cp.treeSize ≤ secondLeaves.length ∧ firstLeaves.length = cp.treeSize ∧
    firstLeaves.isPrefixOf secondLeaves

def appendOnly (opts : CheckConsecutiveSessionCheckpointsOptions)
    (fcp : Option SessionCheckpointBody) : Option Bool :=
  match opts.firstLeaves, opts.secondLeaves, fcp with
  | some firstLeaves, some secondLeaves, some fcp =>
      some (isPrefixAppendOnly firstLeaves secondLeaves fcp)
  | _, _, _ => none

/-- `verifySessionConsistencyProof` on the sizes and roots of two checkpoints. -/
def verifyPair (first second : SessionCheckpointBody) (proof : List Bytes) : Option Bool :=
  verifySessionConsistencyProof H
    ⟨first.treeSize, second.treeSize, first.sessionRoot, second.sessionRoot, proof⟩

/-- `none` is the call that never returns, `some none` is `undefined`. -/
def consistencyProofVerifies (opts : CheckConsecutiveSessionCheckpointsOptions)
    (fcp scp : Option SessionCheckpointBody) : Option (Option Bool) :=
  match opts.consistencyProof, fcp, scp with
  | some consistencyProof, some fcp, some scp => do
      return some (← verifyPair H fcp scp consistencyProof)
  | _, _, _ => some none

/-- The checkpoints of a pair that continue each other, where there are two. -/
def firstIndexMatches (fcp scp : Option SessionCheckpointBody) : Bool :=
  match fcp, scp with
  | some fcp, some scp => scp.firstIndex = fcp.treeSize
  | _, _ => false

def checkConsecutiveSessionCheckpoints (first second : SessionCheckpointRecord)
    (opts : CheckConsecutiveSessionCheckpointsOptions) :
    Option ConsecutiveSessionCheckpointCheck := do
  let firstHash := sessionCheckpointRecordHash H canonicalRecord first
  let priorCheckpointMatches := second.checkpoint.bind (·.priorCheckpoint) = some firstHash
  let firstIndexMatchesPriorTreeSize := firstIndexMatches first.checkpoint second.checkpoint
  let firstRootRecomputes := rootRecomputes H opts.firstLeaves first.checkpoint
  let secondRootRecomputes := rootRecomputes H opts.secondLeaves second.checkpoint
  let appendOnly := appendOnly opts first.checkpoint
  let consistencyProofVerifies ←
    consistencyProofVerifies H opts first.checkpoint second.checkpoint
  return {
    priorCheckpointMatches
    firstIndexMatchesPriorTreeSize
    firstRootRecomputes
    secondRootRecomputes
    appendOnly
    consistencyProofVerifies
    consistent := priorCheckpointMatches ∧ firstIndexMatchesPriorTreeSize ∧
      firstRootRecomputes ≠ some false ∧ secondRootRecomputes ≠ some false ∧
      appendOnly ≠ some false ∧ consistencyProofVerifies ≠ some false
    equivocation :=
      match first.checkpoint, second.checkpoint with
      | some fcp, some scp =>
          if priorCheckpointMatches ∧ firstIndexMatchesPriorTreeSize ∧
              (consistencyProofVerifies = some false ∨ appendOnly = some false) ∧
              first.creatorKey = second.creatorKey ∧ first.contextId = second.contextId then
            some {
              creatorKey := first.creatorKey
              contextId := first.contextId
              reason := .appendOnlyViolation
              priorCheckpoint := scp.priorCheckpoint
              firstRecordHash := firstHash
              secondRecordHash := sessionCheckpointRecordHash H canonicalRecord second
              first := evidenceSummary fcp
              second := evidenceSummary scp }
          else detectSessionCheckpointEquivocation H canonicalRecord first second
      | _, _ => detectSessionCheckpointEquivocation H canonicalRecord first second }

end Atrib.Verify.SessionCheckpoint
