import Atrib.Verify.ResolveIdentity

/-!
# The audit proof

`verifyAuditProof` of `packages/directory/src/index.ts` and what it calls in
`packages/directory-bridge/src/lib.rs`. The `akd` crate is gathered in `Akd`:
how a proof is read from bytes, and which root a tree has that these nodes have
been inserted into. The bridge gets the roots as one byte string and cuts it up
again, which is left out.
-/

namespace Atrib.Directory

open Verify (VerifyAuditProofInput)

structure SingleAppendOnlyProof (AzksElement : Type) where
  inserted : List AzksElement
  unchangedNodes : List AzksElement

structure AppendOnlyProof (AzksElement : Type) where
  proofs : List (SingleAppendOnlyProof AzksElement)
  epochs : List ℕ

structure Akd where
  AzksElement : Type
  /-- `hash_leaf_with_commitment` of the value at an epoch. -/
  atEpoch : AzksElement → ℕ → AzksElement
  /-- The root of a fresh tree after `batch_insert_nodes`. -/
  rootOf : List AzksElement → (latestEpoch : Option ℕ) → Except String Bytes
  /-- `bincode::deserialize` -/
  deserialize : Bytes → Except String (AppendOnlyProof AzksElement)

namespace Akd

variable (akd : Akd)

def verifyAppendOnlyHash (nodes : List akd.AzksElement) (expectedHash : Bytes)
    (latestEpoch : Option ℕ) : Bool :=
  match akd.rootOf nodes latestEpoch with
  | .ok computed => computed = expectedHash
  | .error _ => false

def verifyConsecutiveAppendOnly (proof : SingleAppendOnlyProof akd.AzksElement)
    (startHash endHash : Bytes) (endEpoch : ℕ) : Bool :=
  akd.verifyAppendOnlyHash proof.unchangedNodes startHash none &&
    akd.verifyAppendOnlyHash
      (proof.unchangedNodes ++ proof.inserted.map (akd.atEpoch · endEpoch)) endHash
      (some (endEpoch - 1))

/-- The loop of `audit_verify_wasm_safe`, over hashes, proofs and epochs at once. -/
def verifySteps : List Bytes → List (SingleAppendOnlyProof akd.AzksElement) → List ℕ → Bool
  | startHash :: endHash :: hashes, proof :: proofs, epoch :: epochs =>
      akd.verifyConsecutiveAppendOnly proof startHash endHash (epoch + 1) &&
        verifySteps (endHash :: hashes) proofs epochs
  | _, _, _ => true

def auditVerifyWasmSafe (hashes : List Bytes) (proof : AppendOnlyProof akd.AzksElement) : Bool :=
  if proof.epochs.length + 1 ≠ hashes.length then false
  else if proof.epochs.length ≠ proof.proofs.length then false
  else akd.verifySteps hashes proof.proofs proof.epochs

def verifyAuditProof (input : VerifyAuditProofInput) : Except String Bool :=
  if input.rootHashes = [] then .error "rootHashes must be non-empty"
  else if input.rootHashes.any fun hash => hash.length ≠ 32 then
    .error "rootHashes must be 32 bytes"
  else
    match akd.deserialize input.proof with
    | .error e => .error ("deserialize audit proof: " ++ e)
    | .ok proof => .ok (akd.auditVerifyWasmSafe input.rootHashes proof)

/-- Two roots are enough for one step, and for no other number of steps. -/
theorem verifyAuditProof_pair {priorRoot currentRoot bytes : Bytes}
    {proof : AppendOnlyProof akd.AzksElement} (hprior : priorRoot.length = 32)
    (hcurrent : currentRoot.length = 32) (hproof : akd.deserialize bytes = .ok proof)
    (hlength : proof.epochs.length = proof.proofs.length) :
    akd.verifyAuditProof ⟨[priorRoot, currentRoot], bytes⟩ =
      .ok (proof.epochs.length == 1 && akd.verifySteps [priorRoot, currentRoot] proof.proofs
        proof.epochs) := by
  rw [verifyAuditProof, if_neg (List.cons_ne_nil _ _), if_neg (by simp [hprior, hcurrent])]
  dsimp only
  rw [hproof]
  refine congrArg Except.ok ?_
  rw [auditVerifyWasmSafe, if_neg (not_not.2 hlength)]
  by_cases hone : proof.epochs.length = 1
  · simp [hone]
  · simp [hone]

end Akd

end Atrib.Directory
