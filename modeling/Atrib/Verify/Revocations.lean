import Atrib.Lib.InsertionMap
import Atrib.Mcp.Hash
import Atrib.Verify.Graph

/-!
# The revocation registry

`packages/verify/src/revocations.ts` (§1.9): a scan over all records for
well-shaped key revocations, and the state of a node whose key was revoked
before its log index.
-/

namespace Atrib.Verify

open Lib (InsertionMap)

inductive RevocationReason
  | rotation
  | retirement
  | compromise
deriving DecidableEq

structure RevocationEntry where
  revokedKey : String
  logIndex : ℕ
  revocationReason : RevocationReason
  successorKey : Option String
  emergencySignedBy : Option String
deriving DecidableEq

abbrev RevocationRegistry := InsertionMap String RevocationEntry

structure MinimalRecord where
  eventType : Option String := none
  eventTypeUri : Option String := none
  creatorKey : Option String := none
  logIndex : Option ℕ := none
  revokedKey : Option String := none
  revocationReason : Option String := none
  successorKey : Option String := none
  emergencySignedBy : Option String := none

def KEY_REVOCATION_URI : String := "https://atrib.dev/v1/types/key_revocation"

def isRevocationRecord (r : MinimalRecord) : Bool :=
  r.eventType == some "key_revocation" || r.eventType == some KEY_REVOCATION_URI ||
    r.eventTypeUri == some KEY_REVOCATION_URI

def revocationReason (text : Option String) : Option RevocationReason :=
  match text with
  | some "rotation" => some .rotation
  | some "retirement" => some .retirement
  | some "compromise" => some .compromise
  | _ => none

/-- A member that is copied unless it is missing or empty. -/
def nonEmpty (text : Option String) : Option String := text.filter (· ≠ "")

/-- The revocation a record claims, if it is well shaped. -/
def revocationEntry (r : MinimalRecord) : Option RevocationEntry := do
  guard (isRevocationRecord r)
  let revokedKey ← nonEmpty r.revokedKey
  let logIndex ← r.logIndex
  guard (logIndex ≤ MAX_SAFE_INTEGER)
  let reason ← revocationReason r.revocationReason
  return ⟨revokedKey, logIndex, reason, nonEmpty r.successorKey, nonEmpty r.emergencySignedBy⟩

/-- The earliest revocation of a key wins. -/
def register (registry : RevocationRegistry) (entry : RevocationEntry) : RevocationRegistry :=
  if (registry.get? entry.revokedKey).any (·.logIndex ≤ entry.logIndex) then registry
  else registry.set entry.revokedKey entry

def buildRevocationRegistry (records : List MinimalRecord) : RevocationRegistry :=
  (records.filterMap revocationEntry).foldl register ∅

/-- The state of a node under a registry. The record at the index of the
revocation itself is left alone. -/
def applyRevocation (node : GraphNode) (registry : RevocationRegistry) : VerificationState :=
  match node.creatorKey, node.logIndex with
  | some creatorKey, some logIndex =>
      if creatorKey = "" then node.verificationState
      else
        match registry.get? creatorKey with
        | none => node.verificationState
        | some entry =>
            if logIndex ≤ entry.logIndex then node.verificationState else .revokedAfterRevocation
  | _, _ => node.verificationState

end Atrib.Verify
