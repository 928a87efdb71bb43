import Atrib.Lib.InsertionMap
import Atrib.Lib.JsValue
import Atrib.Lib.Sorting
import Atrib.Mcp.Refs

/-!
# Chain roots of a wrapped server

The chain bookkeeping of `packages/mcp/src/middleware.ts`, for calls without an
inbound token and outside the paired mode. Building a record reads the context,
the chain root and whether the parent's hash is still to be named; then it waits
for the resolver of references and for the signature, and in the pre-call mode
for the whole tool call. Committing the record updates what building reads. In
between other calls build and commit, and a call may come to nothing.

`committed` is not in the program. It lists the records that have been
committed, which is to say mirrored or queued.
-/

namespace Atrib.AutoChain

open Lib (InsertionMap JsValue sortBy)

structure AtribOptions where
  /-- `autoChainFallback` is `stable-process`. -/
  stableProcess : Bool := true
  autoChainSeed : List AtribRecord := []
  /-- `ATRIB_CHAIN_TAIL_<context_id>` -/
  envTail : String → Option String := fun _ => none
  /-- `ATRIB_PARENT_RECORD_HASH`, if it is a reference. -/
  parentRecordHashSeed : Option String := none
  /-- There is an `onRecord` observer. -/
  onRecord : Bool := true

variable (H : Hash) (codec : RecordCodec) (options : AtribOptions)

def resolveChainRoot (contextId : String) (inboundRecordHashHex autoChainTailHex : Option String) :
    String :=
  match inboundRecordHashHex.filter (· ≠ ""), autoChainTailHex.filter (· ≠ "") with
  | some hex, _ => "sha256:" ++ hex
  | none, some hex => "sha256:" ++ hex
  | none, none =>
      ((options.envTail contextId).filter (isSha256Ref ·)).getD (genesisChainRoot H contextId)

def recordHashHex (record : AtribRecord) : String := hexEncode (recordDigest H codec record)

structure BuiltRecord where
  signed : AtribRecord
  recordHashHex : String
  contextId : String
  parentRecordHashSeeded : Bool

/-- What building a record has read when it waits for the first time. -/
structure Draft where
  contextId : String
  chainRoot : String
  parentRecordHashSeeded : Bool
deriving DecidableEq

structure WrappedServer where
  lastRecordHashByContext : InsertionMap String String
  stableContextId : Option String := none
  parentRecordHashSeedConsumed : Bool := false
  drafts : List Draft := []
  committed : List BuiltRecord := []

/-! ## Startup -/

/-- The newest of the records of each context, the later one of two that are equally new. -/
def newestByContext (records : List AtribRecord) : InsertionMap String AtribRecord :=
  records.foldl (fun newest r =>
    match newest.get? r.contextId with
    | none => newest.set r.contextId r
    | some existing =>
        if existing.timestamp ≤ r.timestamp then newest.set r.contextId r else newest) ∅

/-- The context of the newest record, the later one of two that are equally new. -/
def newestContext (newest : InsertionMap String AtribRecord) : Option String :=
  (newest.entries.foldl (fun best (entry : String × AtribRecord) =>
    match best with
    | none => some entry
    | some b => if b.2.timestamp ≤ entry.2.timestamp then some entry else some b) none).map Prod.fst

def atrib : WrappedServer where
  lastRecordHashByContext := (newestByContext options.autoChainSeed).mapVal
    fun _ r => recordHashHex H codec r
  stableContextId :=
    if options.stableProcess then newestContext (newestByContext options.autoChainSeed) else none

/-! ## Building and committing -/

/-- What a call comes with: the context its traceparent or the resolver of
contexts gives, and random bytes in case they are needed. -/
structure ToolCall where
  resolved : Option String
  random : String

/-- What the rest of the call brings: the references that are kept, the other
members of the signed record, and whether writing to the result throws. -/
structure Completion where
  references : List String
  fields : AtribRecord
  outboundThrows : Bool := false

inductive CallMove
  | build (call : ToolCall)
  | commit (index : ℕ) (completion : Completion)
  /-- The handler has failed, or the attribution of the call has. -/
  | abandon (index : ℕ)

/-- The references of a record, sorted. -/
def informedByList (draft : Draft) (references : List String) : Option (List String) :=
  let merged := Lib.InsertionSet.ofList
    ((if draft.parentRecordHashSeeded then options.parentRecordHashSeed.toList else []) ++
      references)
  if merged = [] then none
  else some (sortBy (fun a b => compare (JsValue.codeUnits a) (JsValue.codeUnits b)) merged)

/-- The rest of `buildSignedRecord`. -/
def finish (draft : Draft) (completion : Completion) : BuiltRecord :=
  let signed := { completion.fields with
    contextId := draft.contextId
    chainRoot := draft.chainRoot
    informedBy := informedByList options draft completion.references }
  { signed
    recordHashHex := recordHashHex H codec signed
    contextId := draft.contextId
    parentRecordHashSeeded := draft.parentRecordHashSeeded }

namespace WrappedServer

/-- The context of a call, which may become the one of the process. -/
def contextOf (s : WrappedServer) (call : ToolCall) : String × Option String :=
  match call.resolved with
  | some contextId => (contextId, s.stableContextId)
  | none =>
      if options.stableProcess then
        let contextId := s.stableContextId.getD call.random
        (contextId, some contextId)
      else (call.random, s.stableContextId)

/-- The chain root a record of the context would get. -/
def chainRootOf (s : WrappedServer) (contextId : String) : String :=
  resolveChainRoot H options contextId none (s.lastRecordHashByContext.get? contextId)

/-- `buildSignedRecord` up to its first `await`. -/
def build (s : WrappedServer) (call : ToolCall) : WrappedServer :=
  let (contextId, stableContextId) := s.contextOf options call
  { s with
    stableContextId := stableContextId
    drafts := s.drafts ++ [{
      contextId
      chainRoot := s.chainRootOf H options contextId
      parentRecordHashSeeded :=
        options.parentRecordHashSeed.isSome && !s.parentRecordHashSeedConsumed }] }

/-- `commitRecord`. If it throws when it writes to the result, the record has
been mirrored but is not queued, and the parent's hash is not consumed. -/
def commit (s : WrappedServer) (index : ℕ) (completion : Completion) : WrappedServer :=
  match s.drafts[index]? with
  | none => s
  | some draft =>
      let built := finish H codec options draft completion
      { s with
        drafts := s.drafts.eraseIdx index
        lastRecordHashByContext := s.lastRecordHashByContext.set built.contextId built.recordHashHex
        committed :=
          if options.onRecord || !completion.outboundThrows then s.committed ++ [built]
          else s.committed
        parentRecordHashSeedConsumed :=
          s.parentRecordHashSeedConsumed ||
            built.parentRecordHashSeeded && !completion.outboundThrows }

def step (s : WrappedServer) : CallMove → WrappedServer
  | .build call => s.build H options call
  | .commit index completion => s.commit H codec options index completion
  | .abandon index => { s with drafts := s.drafts.eraseIdx index }

end WrappedServer

end Atrib.AutoChain
