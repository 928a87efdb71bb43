import Atrib.Mcp.SessionCheckpoint

/-!
# Consecutive session checkpoints

The last part of `packages/mcp/src/session-checkpoint.ts`: what two checkpoints
of one session say about their signer. The caller brings evidence along, the
leaves of the second tree or a consistency proof, and nobody vouches for it.
-/

namespace Atrib

structure SessionCheckpoint where
  firstIndex : ℚ
  priorCheckpoint : Option String := none
  /-- Present only when true. -/
  retroactive : Option Unit := none
  sessionRoot : String
  treeSize : ℚ
deriving DecidableEq

structure SessionCheckpointRecord extends AtribRecord where
  checkpoint : SessionCheckpoint

namespace SessionCheckpoint

inductive EquivocationReason where
  | divergentRootsSameClaim
  | appendOnlyViolation
deriving DecidableEq

structure EvidenceSummary where
  sessionRoot : String
  treeSize : ℚ
  firstIndex : ℚ
deriving DecidableEq

structure SessionCheckpointEquivocationEvidence where
  creatorKey : String
  contextId : String
  reason : EquivocationReason
  priorCheckpoint : Option String
  firstRecordHash : String
  secondRecordHash : String
  first : EvidenceSummary
  second : EvidenceSummary
deriving DecidableEq

def evidenceSummary (cp : SessionCheckpoint) : EvidenceSummary :=
  ⟨cp.sessionRoot, cp.treeSize, cp.firstIndex⟩

variable (H : Hash) (canonicalRecord : SessionCheckpointRecord → Bytes)

def recordHashRef (record : SessionCheckpointRecord) : String :=
  sha256Ref (H.sha256 (canonicalRecord record))

def detectSessionCheckpointEquivocation (a b : SessionCheckpointRecord) :
    Option SessionCheckpointEquivocationEvidence :=
  if a.creatorKey ≠ b.creatorKey ∨ a.contextId ≠ b.contextId then none
  else
    let samePrior := a.checkpoint.priorCheckpoint = b.checkpoint.priorCheckpoint
    let overlapping := a.checkpoint.firstIndex ≤ b.checkpoint.treeSize - 1 ∧
      b.checkpoint.firstIndex ≤ a.checkpoint.treeSize - 1
    if ¬samePrior ∧ ¬overlapping then none
    else if a.checkpoint.treeSize ≠ b.checkpoint.treeSize then none
    else if a.checkpoint.sessionRoot = b.checkpoint.sessionRoot then none
    else some {
      creatorKey := a.creatorKey
      contextId := a.contextId
      reason := .divergentRootsSameClaim
      priorCheckpoint := if samePrior then a.checkpoint.priorCheckpoint else none
      firstRecordHash := recordHashRef H canonicalRecord a
      secondRecordHash := recordHashRef H canonicalRecord b
      first := evidenceSummary a.checkpoint
      second := evidenceSummary b.checkpoint }

structure CheckConsecutiveSessionCheckpointsOptions where
  secondLeaves : Option (List Bytes) := none
  consistencyProof : Option (List Bytes) := none

structure ConsecutiveSessionCheckpointCheck where
  priorCheckpointMatches : Bool
  firstIndexMatchesPriorTreeSize : Bool
  consistencyProofVerifies : Option Bool
  consistent : Bool
  equivocation : Option SessionCheckpointEquivocationEvidence
deriving DecidableEq

/-- `verifySessionConsistency` on the sizes and roots of two checkpoints. -/
def verifyPair (first second : SessionCheckpoint) (proof : List Bytes) : Option Bool :=
  verifySessionConsistency H
    ⟨first.treeSize, second.treeSize, first.sessionRoot, second.sessionRoot, proof⟩

/-- The variable `consistencyProofVerifies` ahead of the verdict. `none` is the
call that never returns, `some none` the evidence that was not supplied. -/
def checkEvidence (first second : SessionCheckpoint)
    (opts : CheckConsecutiveSessionCheckpointsOptions) : Option (Option Bool) :=
  match opts.secondLeaves, opts.consistencyProof with
  | some secondLeaves, _ =>
      match sessionConsistencyProof H first.treeSize secondLeaves with
      | .error _ => some (some false)
      | .ok proof => do
          if ← verifyPair H first second proof then
            match computeSessionRoot H secondLeaves with
            | .ok root => return some (root == second.sessionRoot)
            | .error _ => return some false
          else return some false
  | none, some consistencyProof => do return some (← verifyPair H first second consistencyProof)
  | none, none => some none

def checkConsecutiveSessionCheckpoints (first second : SessionCheckpointRecord)
    (opts : CheckConsecutiveSessionCheckpointsOptions) :
    Option ConsecutiveSessionCheckpointCheck := do
  let firstHash := recordHashRef H canonicalRecord first
  let priorCheckpointMatches := second.checkpoint.priorCheckpoint = some firstHash
  let firstIndexMatchesPriorTreeSize := second.checkpoint.firstIndex = first.checkpoint.treeSize
  let consistencyProofVerifies ← checkEvidence H first.checkpoint second.checkpoint opts
  return {
    priorCheckpointMatches
    firstIndexMatchesPriorTreeSize
    consistencyProofVerifies
    consistent := priorCheckpointMatches ∧ firstIndexMatchesPriorTreeSize ∧
      consistencyProofVerifies ≠ some false
    equivocation :=
      if priorCheckpointMatches ∧ firstIndexMatchesPriorTreeSize ∧
          consistencyProofVerifies = some false ∧ first.creatorKey = second.creatorKey ∧
          first.contextId = second.contextId then
        some {
          creatorKey := first.creatorKey
          contextId := first.contextId
          reason := .appendOnlyViolation
          priorCheckpoint := second.checkpoint.priorCheckpoint
          firstRecordHash := firstHash
          secondRecordHash := recordHashRef H canonicalRecord second
          first := evidenceSummary first.checkpoint
          second := evidenceSummary second.checkpoint }
      else detectSessionCheckpointEquivocation H canonicalRecord first second }

end SessionCheckpoint

end Atrib
