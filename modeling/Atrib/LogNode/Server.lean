import Atrib.Mcp.Entry
import Atrib.Lib.Run

/-!
# The log node's requests on one event loop

`services/log-node/src/server.ts`: submission, proof lookup, checkpoint and
stream. A handler runs without interruption up to an `await`, so a step of the
system is one such stretch: a request that arrives, the submission at the head
of the lock queue that goes on, a signature that comes back or fails. What a
handler holds across an `await` is in its state.

The lock is the chain of promises of `acquireSubmitLock`: a submission takes
the next ticket and waits for the promise before its own, which resolves when
the submission with that ticket releases it.
-/

namespace Atrib.LogNode

/-! ## Entries and filters -/

structure DecodedEntry where
  index : ℕ
  recordHash : Bytes
  creatorKey : Bytes
  contextId : Bytes
  timestampMs : ℕ
  eventType : String
  eventTypeByte : UInt8
deriving DecidableEq

def eventLabel (eventByte : UInt8) : String :=
  if eventByte = 0x01 then "tool_call"
  else if eventByte = 0x02 then "transaction"
  else if eventByte = 0x03 then "observation"
  else if eventByte = 0x04 then "directory_anchor"
  else if eventByte = 0x05 then "annotation"
  else if eventByte = 0x06 then "revision"
  else if eventByte = 0xff then "extension"
  else "reserved"

def decodeEntry (bytes : Bytes) (index : ℕ) : DecodedEntry where
  index := index
  recordHash := recordHashOf bytes
  creatorKey := (bytes.drop 33).take 32
  contextId := (bytes.drop 65).take 16
  timestampMs := getBigUint64 ((bytes.drop 81).take 8)
  eventType := eventLabel (bytes.getD 89 0)
  eventTypeByte := bytes.getD 89 0

@[simp] theorem decodeEntry_index (bytes : Bytes) (index : ℕ) :
    (decodeEntry bytes index).index = index := rfl

structure LogEntryFilters where
  creatorKey : Option Bytes := none
  contextId : Option Bytes := none
  eventType : Option String := none
  sinceMs : Option ℕ := none
  afterIndex : Option ℤ := none

def matchesEntryFilters (entry : DecodedEntry) (filters : LogEntryFilters) : Bool :=
  filters.creatorKey.all (entry.creatorKey == ·) &&
  filters.contextId.all (entry.contextId == ·) &&
  filters.eventType.all (entry.eventType == ·) &&
  filters.sinceMs.all (fun since => !decide (entry.timestampMs < since)) &&
  filters.afterIndex.all (fun after => !decide ((entry.index : ℤ) ≤ after))

/-- A matching entry comes after the cursor. -/
theorem after_lt_of_matches {entry : DecodedEntry} {filters : LogEntryFilters} {after : ℤ}
    (hafter : filters.afterIndex = some after) (h : matchesEntryFilters entry filters = true) :
    after < entry.index := by
  simp only [matchesEntryFilters, hafter, Bool.and_eq_true, Option.all_some, Bool.not_eq_true',
    decide_eq_false_iff_not, not_le] at h
  exact h.2

/-! ## Proof bundles -/

/-- A signed note; the signature is whatever the signer returned. -/
structure SignedCheckpoint where
  treeSize : ℕ
  rootHash : Bytes
  signature : Bytes
deriving DecidableEq

structure ProofBundle where
  logIndex : ℕ
  checkpoint : SignedCheckpoint
  inclusionProof : List Bytes
  leafHash : Bytes
deriving DecidableEq

/-- What `makeProofBundle` holds while it awaits the signer. -/
structure PendingBundle where
  logIndex : ℕ
  treeSize : ℕ
  inclusionProof : List Bytes
  leafHash : Bytes
  rootHash : Bytes

def PendingBundle.signed (pending : PendingBundle) (signature : Bytes) : ProofBundle :=
  ⟨pending.logIndex, ⟨pending.treeSize, pending.rootHash, signature⟩, pending.inclusionProof,
    pending.leafHash⟩

/-- `makeProofBundle` up to its `await`. -/
def beginProofBundle (H : Hash) (tree : MerkleTree) (logIndex : ℕ) :
    Except String PendingBundle := do
  let inclusionProof ← tree.inclusionProof H logIndex
  let leafHash ← tree.leafHash logIndex
  let rootHash ← tree.root H
  return ⟨logIndex, tree.size, inclusionProof, leafHash, rootHash⟩

/-- The dedup map, oldest key first. -/
abbrev ProofCache := List (Bytes × ProofBundle)

def MAX_PROOF_CACHE : ℕ := 100000

def ProofCache.get (cache : ProofCache) (recordHash : Bytes) : Option ProofBundle :=
  (cache.find? (·.1 = recordHash)).map (·.2)

/-- `Map.set`: a known key keeps its place. -/
def ProofCache.set (cache : ProofCache) (recordHash : Bytes) (proof : ProofBundle) : ProofCache :=
  if cache.any (·.1 = recordHash) then
    cache.map fun kv => if kv.1 = recordHash then (recordHash, proof) else kv
  else cache ++ [(recordHash, proof)]

/-- Drop the oldest key when the map is full. -/
def ProofCache.evict (cache : ProofCache) : ProofCache :=
  if cache.length ≥ MAX_PROOF_CACHE then cache.tail else cache

/-! ## State -/

/-- A submission past its first look at the cache; its place in the list is
its ticket. -/
inductive SubmissionState
  | waiting (entry : EntryInput)
  | signing (entry : EntryInput) (pending : PendingBundle)
  | released

inductive LookupState
  | signing (recordHash : Bytes) (pending : PendingBundle)
  | done

inductive CheckpointState
  | signing (treeSize : ℕ) (rootHash : Bytes)
  | done

/-- A `log_entry` event. -/
structure StreamEvent where
  treeSize : ℕ
  entry : DecodedEntry
deriving DecidableEq

/-- A stream connection: the tail its `ready` event named, and what was
written to it since. -/
structure Subscriber where
  filters : LogEntryFilters
  replayThrough : ℤ
  connected : Bool
  events : List StreamEvent

inductive Response
  | proof (recordHash : Bytes) (bundle : ProofBundle)
  | checkpoint (signed : SignedCheckpoint)
  | error (status : ℕ) (message : String)

/-- The process, with the responses it has sent; `evicted` and `signerFailed`
remember that an eviction or a failed signature has happened. -/
structure Server where
  tree : MerkleTree
  proofCache : ProofCache
  submissions : List SubmissionState
  lookups : List LookupState
  checkpoints : List CheckpointState
  subscribers : List Subscriber
  responses : List Response
  evicted : Bool
  signerFailed : Bool

namespace Server

variable (H : Hash)

def boot (tree : MerkleTree) : Server := ⟨tree, [], [], [], [], [], [], false, false⟩

def respond (s : Server) (response : Response) : Server :=
  { s with responses := s.responses ++ [response] }

def setSubmission (s : Server) (ticket : ℕ) (state : SubmissionState) : Server :=
  { s with submissions := s.submissions.set ticket state }

/-- Evict if the map is full, then remember a proof. -/
def remember (s : Server) (recordHash : Bytes) (proof : ProofBundle) : Server :=
  { s with
    proofCache := s.proofCache.evict.set recordHash proof
    evicted := s.evicted || decide (s.proofCache.length ≥ MAX_PROOF_CACHE) }

def Subscriber.notify (entry : DecodedEntry) (treeSize : ℕ) (subscriber : Subscriber) :
    Subscriber :=
  if subscriber.connected && matchesEntryFilters entry subscriber.filters then
    { subscriber with events := subscriber.events ++ [⟨treeSize, entry⟩] }
  else subscriber

def notifySubscribers (s : Server) (entry : DecodedEntry) : Server :=
  { s with subscribers := s.subscribers.map (Subscriber.notify entry s.tree.size) }

/-! ## Requests -/

/-- `handleSubmit` from its first look at the cache to `await lock.wait`. -/
def submit (s : Server) (entry : EntryInput) : Server :=
  match s.proofCache.get entry.recordHash with
  | some cached => s.respond (.proof entry.recordHash cached)
  | none => { s with submissions := s.submissions ++ [.waiting entry] }

/-- `lock.wait` has resolved. -/
def lockFree (s : Server) (ticket : ℕ) : Bool :=
  match ticket with
  | 0 => true
  | before + 1 => s.submissions[before]? matches some .released

/-- The critical section of `handleSubmit` up to its `await`. -/
def resume (s : Server) (ticket : ℕ) (io : AppendIo) : Server :=
  match s.submissions[ticket]? with
  | some (.waiting entry) =>
      if s.lockFree ticket then
        match s.proofCache.get entry.recordHash with
        | some cached =>
            (s.respond (.proof entry.recordHash cached)).setSubmission ticket .released
        | none =>
            let (tree, result) := MerkleTree.append H s.tree (serializeEntry entry) io
            let s := { s with tree := tree }
            match result with
            | .error _ => (s.setSubmission ticket .released).respond (.error 500 "internal error")
            | .ok logIndex =>
                match beginProofBundle H tree logIndex with
                | .error _ =>
                    (s.setSubmission ticket .released).respond (.error 500 "internal error")
                | .ok pending => s.setSubmission ticket (.signing entry pending)
      else s
  | _ => s

/-- The signer answers: remember, release, respond, notify. -/
def submitSigned (s : Server) (ticket : ℕ) (signature : Bytes) : Server :=
  match s.submissions[ticket]? with
  | some (.signing entry pending) =>
      ((((s.remember entry.recordHash (pending.signed signature)).setSubmission ticket
        .released).respond (.proof entry.recordHash (pending.signed signature))).notifySubscribers
          (decodeEntry (serializeEntry entry) pending.logIndex))
  | _ => s

/-- The signer fails: the `finally` block releases and the handler crashes. -/
def submitSignFailed (s : Server) (ticket : ℕ) : Server :=
  match s.submissions[ticket]? with
  | some (.signing _ _) =>
      { (s.setSubmission ticket .released).respond (.error 500 "internal error") with
        signerFailed := true }
  | _ => s

/-- `handleProofLookup` up to its `await`: the cache, then the first entry
with that record hash. -/
def lookup (s : Server) (recordHash : Bytes) : Server :=
  match s.proofCache.get recordHash with
  | some cached => s.respond (.proof recordHash cached)
  | none =>
      match s.tree.rawEntries.findIdx? (fun e => recordHashOf e = recordHash) with
      | none => s.respond (.error 404 "not found")
      | some i =>
          match beginProofBundle H s.tree i with
          | .error _ => s.respond (.error 500 "internal error")
          | .ok pending => { s with lookups := s.lookups ++ [.signing recordHash pending] }

def lookupSigned (s : Server) (id : ℕ) (signature : Bytes) : Server :=
  match s.lookups[id]? with
  | some (.signing recordHash pending) =>
      { (s.remember recordHash (pending.signed signature)).respond
          (.proof recordHash (pending.signed signature)) with
        lookups := s.lookups.set id .done }
  | _ => s

def lookupSignFailed (s : Server) (id : ℕ) : Server :=
  match s.lookups[id]? with
  | some (.signing _ _) =>
      { s.respond (.error 500 "internal error") with
        lookups := s.lookups.set id .done, signerFailed := true }
  | _ => s

/-- `handleCheckpoint` up to its `await`. -/
def checkpoint (s : Server) : Server :=
  if s.tree.size = 0 then s.respond (.error 404 "no entries yet")
  else
    match s.tree.root H with
    | .error _ => s.respond (.error 500 "internal error")
    | .ok rootHash => { s with checkpoints := s.checkpoints ++ [.signing s.tree.size rootHash] }

def checkpointSigned (s : Server) (id : ℕ) (signature : Bytes) : Server :=
  match s.checkpoints[id]? with
  | some (.signing treeSize rootHash) =>
      { s.respond (.checkpoint ⟨treeSize, rootHash, signature⟩) with
        checkpoints := s.checkpoints.set id .done }
  | _ => s

def checkpointSignFailed (s : Server) (id : ℕ) : Server :=
  match s.checkpoints[id]? with
  | some (.signing _ _) =>
      { s.respond (.error 500 "internal error") with
        checkpoints := s.checkpoints.set id .done, signerFailed := true }
  | _ => s

/-- The replay loop of `handleStream`: the matching entries from the start of
the window to the tail. -/
def replay (tree : MerkleTree) (filters : LogEntryFilters) : List StreamEvent :=
  let start := match filters.afterIndex with
    | none => 0
    | some after => (after + 1).toNat
  ((List.range' start (tree.size - start)).map fun i =>
      decodeEntry (tree.rawEntries.getD i []) i).filterMap fun entry =>
    if matchesEntryFilters entry filters then some ⟨tree.size, entry⟩ else none

/-- `GET /v1/stream`: all of `handleStream` runs without an `await`. -/
def connect (s : Server) (filters : LogEntryFilters) : Server :=
  if filters.afterIndex.any (fun after : ℤ => decide (after ≥ (s.tree.size : ℤ))) then
    s.respond (.error 409
      s!"resume cursor {filters.afterIndex.getD 0} is beyond current log tail {(s.tree.size : ℤ) - 1}")
  else
    let events :=
      if filters.afterIndex.isSome || filters.sinceMs.isSome then replay s.tree filters else []
    { s with subscribers := s.subscribers ++ [⟨filters, (s.tree.size : ℤ) - 1, true, events⟩] }

/-- The connection closes, or a write to it throws. -/
def disconnect (s : Server) (id : ℕ) : Server :=
  { s with subscribers := s.subscribers.modify id fun sub => { sub with connected := false } }

end Server

/-- What can happen next. -/
inductive Action
  | submit (entry : EntryInput)
  | resume (ticket : ℕ) (io : AppendIo)
  | submitSigned (ticket : ℕ) (signature : Bytes)
  | submitSignFailed (ticket : ℕ)
  | lookup (recordHash : Bytes)
  | lookupSigned (id : ℕ) (signature : Bytes)
  | lookupSignFailed (id : ℕ)
  | checkpoint
  | checkpointSigned (id : ℕ) (signature : Bytes)
  | checkpointSignFailed (id : ℕ)
  | connect (filters : LogEntryFilters)
  | disconnect (id : ℕ)

/-- One stretch of the event loop. -/
def Server.step (H : Hash) (s : Server) : Action → Server
  | .submit entry => s.submit entry
  | .resume ticket io => s.resume H ticket io
  | .submitSigned ticket signature => s.submitSigned ticket signature
  | .submitSignFailed ticket => s.submitSignFailed ticket
  | .lookup recordHash => s.lookup H recordHash
  | .lookupSigned id signature => s.lookupSigned id signature
  | .lookupSignFailed id => s.lookupSignFailed id
  | .checkpoint => s.checkpoint H
  | .checkpointSigned id signature => s.checkpointSigned id signature
  | .checkpointSignFailed id => s.checkpointSignFailed id
  | .connect filters => s.connect filters
  | .disconnect id => s.disconnect id

end Atrib.LogNode
