import Mathlib.Data.Int.Notation
import Mathlib.Data.Nat.Notation

/-!
# Attribution graphs

The graph types of `packages/verify/src/types.ts` (§3.5). The optional
`reference_*` fields a node or an edge carries when its target is a
placeholder are one record here, so that they come together or not at all.
-/

namespace Atrib.Verify

inductive EventType
  | toolCall
  | transaction
  | observation
  | directoryAnchor
  | annotation
  | revision
  | gapNode
  | danglingNode
  | extension
deriving DecidableEq

/-- An event type URI that is not one of atrib's own is an extension. -/
def graphLabelFromEventTypeUri (uri : String) : EventType :=
  match uri with
  | "https://atrib.dev/v1/types/tool_call" => .toolCall
  | "https://atrib.dev/v1/types/transaction" => .transaction
  | "https://atrib.dev/v1/types/observation" => .observation
  | "https://atrib.dev/v1/types/directory_anchor" => .directoryAnchor
  | "https://atrib.dev/v1/types/annotation" => EventType.annotation
  | "https://atrib.dev/v1/types/revision" => .revision
  | _ => .extension

inductive EdgeType
  | chainPrecedes
  | sessionPrecedes
  | sessionParallel
  | convergesOn
  | crossSession
  | informedBy
  | provenanceOf
  | annotates
  | revises
deriving DecidableEq

/-- The text of the type, by which a policy gives it a weight. -/
def EdgeType.name : EdgeType → String
  | .chainPrecedes => "CHAIN_PRECEDES"
  | .sessionPrecedes => "SESSION_PRECEDES"
  | .sessionParallel => "SESSION_PARALLEL"
  | .convergesOn => "CONVERGES_ON"
  | .crossSession => "CROSS_SESSION"
  | .informedBy => "INFORMED_BY"
  | .provenanceOf => "PROVENANCE_OF"
  | .annotates => "ANNOTATES"
  | .revises => "REVISES"

inductive VerificationState
  | unsigned
  | signatureValid
  | logCommitted
  | witnessed
  /-- Signed by a key that had been retired at a smaller log index (§1.9.3). -/
  | revokedAfterRevocation
deriving DecidableEq

inductive ReferenceStatus
  | external
  | missing
  | unresolved
deriving DecidableEq

/-- The `reference_*` fields. -/
structure Reference where
  status : ReferenceStatus
  hash : Option String
  token : Option String
  contextId : Option String
  eventType : Option EventType
  logIndex : Option ℕ
deriving DecidableEq

/-- A tool call with no attribution record in its response (§3.2.5). -/
structure GapNode where
  toolUrl : String
  toolName : String
  contextId : String
  timestamp : ℤ
deriving DecidableEq

structure GraphNode where
  id : String
  eventType : EventType
  eventTypeUri : Option String
  contentId : Option String
  creatorKey : Option String
  chainRoot : Option String
  contextId : String
  timestamp : ℤ
  logIndex : Option ℕ
  verificationState : VerificationState
  isGenesis : Bool
  reference : Option Reference := none
deriving DecidableEq

/-- What an edge to a placeholder says about it. -/
structure Dangling where
  reference : Reference
  reason : Option String
deriving DecidableEq

structure GraphEdge where
  type : EdgeType
  source : String
  target : String
  directed : Bool
  dangling : Option Dangling := none
deriving DecidableEq

/-- A response but for the time it was generated at. -/
structure GraphResponse where
  contextId : String
  nodeCount : ℕ
  edgeCount : ℕ
  hasTransaction : Bool
  crossSessionCount : ℕ
  nodes : List GraphNode
  edges : List GraphEdge
deriving DecidableEq

end Atrib.Verify
