import Atrib.Mcp.Merkle

/-!
# Checkpoints, cosignatures and consistency

The part of `packages/verify/src/witness.ts` a witness runs. A checkpoint body
is three lines, a name, a size and a root in canonical base64, and stands here
for what they say. A cosignature line is Ed25519 over a body and a time; it
stands for the pair.

The root of a list of leaf hashes is computed a third time in this package,
with a split point found by doubling.
-/

namespace Atrib.Verify

/-- The body of a parsed checkpoint note. -/
structure CheckpointBody where
  origin : String
  treeSize : ℕ
  rootHash : Bytes
  one_le_treeSize : 1 ≤ treeSize
  treeSize_safe : treeSize ≤ MAX_SAFE_INTEGER
  length_rootHash : rootHash.length = 32
deriving DecidableEq

/-- A witness's signature over a body, with the time it was made. -/
structure Cosignature where
  body : CheckpointBody
  timestampSeconds : ℤ
deriving DecidableEq

def createWitnessCosignature (body : CheckpointBody) (timestampSeconds : ℤ) :
    Except String Cosignature :=
  if timestampSeconds < 0 ∨ timestampSeconds > MAX_SAFE_INTEGER then
    .error "witness timestamp must be a non-negative safe integer"
  else .ok ⟨body, timestampSeconds⟩

/-- `while (power * 2 < value) power *= 2` -/
def doubleWhileBelow (power value : ℕ) : ℕ :=
  if 0 < power ∧ power * 2 < value then doubleWhileBelow (power * 2) value else power
termination_by value - power
decreasing_by omega

def largestPowerOfTwoLessThan (value : ℕ) : ℕ := doubleWhileBelow 1 value

@[simp] theorem largestPowerOfTwoLessThan_eq {value : ℕ} (h : 2 ≤ value) :
    largestPowerOfTwoLessThan value = Lib.Merkle.split value :=
  Lib.Merkle.doubling_eq_split (f := fun power => doubleWhileBelow power value) (n := value)
    (fun power => doubleWhileBelow.eq_def power value) (l := 0) (by rw [Nat.pow_zero]; omega)

variable (H : Hash)

/-- Only called on lists that are not empty. -/
def merkleHashFromLeafHashes (hashes : List Bytes) : Bytes :=
  if _ : 2 ≤ hashes.length then
    let split := largestPowerOfTwoLessThan hashes.length
    H.nodeHash (merkleHashFromLeafHashes (hashes.take split))
      (merkleHashFromLeafHashes (hashes.drop split))
  else hashes.headD []
termination_by hashes.length
decreasing_by
  · rw [List.length_take, largestPowerOfTwoLessThan_eq ‹_›]
    have := Lib.Merkle.split_lt ‹2 ≤ hashes.length›
    omega
  · rw [List.length_drop, largestPowerOfTwoLessThan_eq ‹_›]
    exact Lib.Merkle.sub_split_lt ‹_›

def checkpointRootFromLeafHashes (leafHashes : List Bytes) : Except String Bytes :=
  if leafHashes.length = 0 then .ok (H.sha256 [])
  else if leafHashes.any (fun hash => hash.length ≠ 32) then
    .error "checkpoint leaf hash must be 32 bytes"
  else .ok (merkleHashFromLeafHashes H leafHashes)

structure CheckpointView where
  treeSize : ℕ
  rootHash : Bytes

def verifyCheckpointConsistencyFromLeafHashes (prior : Option CheckpointView)
    (current : CheckpointView) (currentLeafHashes : List Bytes) : Except String Bool := do
  if current.treeSize > MAX_SAFE_INTEGER ∨ current.treeSize < 1 ∨
      current.rootHash.length ≠ 32 ∨ currentLeafHashes.length ≠ current.treeSize then
    return false
  let root ← checkpointRootFromLeafHashes H currentLeafHashes
  if root ≠ current.rootHash then return false
  match prior with
  | none => return true
  | some prior =>
      if prior.treeSize > MAX_SAFE_INTEGER ∨ prior.treeSize < 1 ∨
          prior.treeSize > current.treeSize ∨ prior.rootHash.length ≠ 32 then
        return false
      let priorRoot ← checkpointRootFromLeafHashes H (currentLeafHashes.take prior.treeSize)
      return priorRoot = prior.rootHash

/-- A view that passes is of the size and the root it claims. -/
theorem root_of_consistent {prior : Option CheckpointView} {current : CheckpointView}
    {leafHashes : List Bytes}
    (h : verifyCheckpointConsistencyFromLeafHashes H prior current leafHashes = .ok true) :
    leafHashes.length = current.treeSize ∧
      checkpointRootFromLeafHashes H leafHashes = .ok current.rootHash := by
  unfold verifyCheckpointConsistencyFromLeafHashes at h
  split at h
  · cases h
  · next hcur =>
      cases hroot : checkpointRootFromLeafHashes H leafHashes with
      | error message =>
          rw [hroot] at h
          cases h
      | ok root =>
          rw [hroot] at h
          simp only [bind, Except.bind, pure, Except.pure] at h
          by_cases hne : root ≠ current.rootHash
          · rw [if_pos hne] at h
            cases h
          · refine ⟨by omega, ?_⟩
            rw [not_not.1 hne]

end Atrib.Verify
