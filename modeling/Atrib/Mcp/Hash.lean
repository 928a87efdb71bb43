import Atrib.Lib.Fips180

/-!
# Byte strings and SHA-256

`sha256` of `packages/mcp/src/hash.ts` hands its argument to a library. What
the program relies on is in the structure: a digest is 32 bytes long. That no
two inputs collide is never part of it, since it is true of no function with
32-byte values; where a result needs it, the result names the inputs.
-/

namespace Atrib

/-- The contents of a `Uint8Array`. -/
abbrev Bytes := List UInt8

/-- `Number.MAX_SAFE_INTEGER` -/
def MAX_SAFE_INTEGER : ℕ := 2 ^ 53 - 1

/-- The hash function of `@noble/hashes/sha2`. -/
structure Hash where
  sha256 : Bytes → Bytes
  length_sha256 : ∀ data, (sha256 data).length = 32

attribute [simp] Hash.length_sha256

namespace Hash

/-- The function itself. -/
def fips180 : Hash := ⟨Lib.Fips180.sha256, Lib.Fips180.length_sha256⟩

/-- No two of these byte strings have one digest. -/
def CollisionFree (H : Hash) (inputs : List Bytes) : Prop :=
  ∀ a ∈ inputs, ∀ b ∈ inputs, H.sha256 a = H.sha256 b → a = b

instance (H : Hash) (inputs : List Bytes) : Decidable (H.CollisionFree inputs) :=
  inferInstanceAs (Decidable (∀ a ∈ inputs, ∀ b ∈ inputs, H.sha256 a = H.sha256 b → a = b))

end Hash

end Atrib
