import Atrib.Lib.InsertionMap
import Atrib.Lib.JsValue
import Atrib.Lib.Run

/-!
# The submission queue

`createSubmissionQueue` of `packages/mcp/src/submission.ts`. The calls of
`submitWithRetry` and of `flush` run beside each other, and what one of them does
from one `await` to the next is a step. What the log answers, and whether the
window for retries is over when a call goes on, is in the actions.
-/

namespace Atrib.Mcp.SubmissionQueue

open Lib (InsertionMap JsNumber)

def MAX_RETRIES : ℕ := 3

inductive Priority where
  | high
  | normal
deriving DecidableEq

structure PendingEntry (Record Sidecar : Type) where
  record : Record
  priority : Priority
  sidecar : Option Sidecar

/-- Where a call of `submitWithRetry` is. -/
inductive CallPhase where
  /-- `await fetch(endpoint, …)` and the body of its answer -/
  | fetching (attempt : ℕ)
  /-- the backoff before an attempt -/
  | waiting (attempt : ℕ)
  /-- `await submitToArchive(…)` -/
  | archiving
deriving DecidableEq

structure SubmitCall (Record Sidecar : Type) where
  hash : String
  entry : PendingEntry Record Sidecar
  phase : CallPhase

/-- What comes of an attempt. -/
inductive LogAnswer (Proof : Type) where
  /-- `response.ok`; none is a bundle that has not the shape of one. -/
  | accepted (proof : Option Proof)
  /-- A status from 400 to 499. -/
  | rejected
  /-- Any other status, and what throws. -/
  | failed

inductive FlushPhase where
  /-- `await Promise.allSettled(inFlight)` -/
  | draining (inFlight : List ℕ)
  /-- `await Promise.allSettled(retryPromises)` -/
  | retrying (retries : List ℕ)

structure Options (Record : Type) where
  recordHash : Record → String
  maxQueueDepth : JsNumber := .finite 10000

/-- `hung` is a queue whose loop for making room does not end. -/
structure Queue (Record Sidecar Proof : Type) where
  proofCache : InsertionMap String Proof := ∅
  pendingRecords : InsertionMap String (PendingEntry Record Sidecar) := ∅
  pendingPromises : List ℕ := []
  calls : InsertionMap ℕ (SubmitCall Record Sidecar) := ∅
  flushes : InsertionMap ℕ FlushPhase := ∅
  nextId : ℕ := 0
  hung : Bool := false

inductive Action (Record Sidecar Proof : Type) where
  | submit (record : Record) (priority : Priority) (sidecar : Option Sidecar)
  | flush
  /-- An attempt of a call ends. -/
  | answer (id : ℕ) (response : LogAnswer Proof)
  /-- The backoff of a call ends, perhaps after the window for retries. -/
  | wake (id : ℕ) (windowOver : Bool)
  | archived (id : ℕ)
  /-- All that a flush awaits is settled. -/
  | settled (id : ℕ)

section Eviction

variable {Record Sidecar : Type}

/-- The first with normal priority, or else the first. -/
def victim (pendingRecords : InsertionMap String (PendingEntry Record Sidecar)) : Option String :=
  ((pendingRecords.entries.find? (·.2.priority = .normal)) <|> pendingRecords.entries.head?).map
    Prod.fst

def evictOneOldest (pendingRecords : InsertionMap String (PendingEntry Record Sidecar)) :
    InsertionMap String (PendingEntry Record Sidecar) :=
  match victim pendingRecords with
  | some key => pendingRecords.filter fun k _ => k ≠ key
  | none => pendingRecords

/-- `pendingRecords.size >= maxQueueDepth` -/
def full (maxQueueDepth : JsNumber)
    (pendingRecords : InsertionMap String (PendingEntry Record Sidecar)) : Bool :=
  maxQueueDepth.le (.finite pendingRecords.size)

/-- `while (pendingRecords.size >= maxQueueDepth) evictOneOldest()`. A round takes one away, and
where nothing is left the loop goes on for ever. -/
def makeRoom (maxQueueDepth : JsNumber) :
    ℕ → InsertionMap String (PendingEntry Record Sidecar) →
      Option (InsertionMap String (PendingEntry Record Sidecar))
  | 0, _ => none
  | rounds + 1, pendingRecords =>
      if full maxQueueDepth pendingRecords then
        makeRoom maxQueueDepth rounds (evictOneOldest pendingRecords)
      else some pendingRecords

/-- What a call does whose retries have all failed. -/
def enqueue (maxQueueDepth : JsNumber) (hash : String) (entry : PendingEntry Record Sidecar)
    (pendingRecords : InsertionMap String (PendingEntry Record Sidecar)) :
    Option (InsertionMap String (PendingEntry Record Sidecar)) :=
  (makeRoom maxQueueDepth (pendingRecords.size + 1) pendingRecords).map fun room =>
    room.set hash entry

end Eviction

section Steps

variable {Record Sidecar Proof : Type} (options : Options Record)

/-- A call returns. -/
def Queue.finish (q : Queue Record Sidecar Proof) (id : ℕ)
    (pendingRecords : InsertionMap String (PendingEntry Record Sidecar)) :
    Queue Record Sidecar Proof :=
  { q with
    pendingRecords := pendingRecords
    pendingPromises := q.pendingPromises.filter (· ≠ id)
    calls := q.calls.filter fun i _ => i ≠ id }

/-- `pendingRecords.delete(hash); return` -/
def Queue.leave (q : Queue Record Sidecar Proof) (id : ℕ) (call : SubmitCall Record Sidecar) :
    Queue Record Sidecar Proof :=
  q.finish id (q.pendingRecords.filter fun k _ => k ≠ call.hash)

/-- All retries have failed. -/
def Queue.fail (q : Queue Record Sidecar Proof) (id : ℕ) (call : SubmitCall Record Sidecar) :
    Queue Record Sidecar Proof :=
  match enqueue options.maxQueueDepth call.hash call.entry q.pendingRecords with
  | some pendingRecords => q.finish id pendingRecords
  | none => { q with hung := true }

def Queue.moveTo (q : Queue Record Sidecar Proof) (id : ℕ) (call : SubmitCall Record Sidecar)
    (phase : CallPhase) : Queue Record Sidecar Proof :=
  { q with calls := q.calls.set id { call with phase := phase } }

/-- `submitWithRetry(record, priority, sidecar)`, up to the first answer. -/
def Queue.startCall (q : Queue Record Sidecar Proof) (entry : PendingEntry Record Sidecar) :
    Queue Record Sidecar Proof :=
  { q with
    calls := q.calls.set q.nextId
      { hash := options.recordHash entry.record, entry := entry, phase := .fetching 0 }
    nextId := q.nextId + 1 }

def Queue.submit (q : Queue Record Sidecar Proof) (entry : PendingEntry Record Sidecar) :
    Queue Record Sidecar Proof :=
  { q.startCall options entry with pendingPromises := q.pendingPromises ++ [q.nextId] }

/-- `[...all.filter((e) => e.priority === 'high'), ...all.filter((e) => e.priority === 'normal')]` -/
def highFirst (all : List (PendingEntry Record Sidecar)) : List (PendingEntry Record Sidecar) :=
  all.filter (·.priority = .high) ++ all.filter (·.priority = .normal)

/-- The records that are left are tried once more. -/
def Queue.startRetries (q : Queue Record Sidecar Proof) (id : ℕ) : Queue Record Sidecar Proof :=
  if q.pendingRecords.size = 0 then { q with flushes := q.flushes.filter fun i _ => i ≠ id }
  else
    let entries := highFirst q.pendingRecords.values
    let retries := List.range' q.nextId entries.length
    let q := entries.foldl (Queue.startCall options) q
    { q with flushes := q.flushes.set id (.retrying retries) }

/-- `while (pendingPromises.length > 0)`, and what follows it. -/
def Queue.drain (q : Queue Record Sidecar Proof) (id : ℕ) : Queue Record Sidecar Proof :=
  if q.pendingPromises.isEmpty then q.startRetries options id
  else
    { q with
      flushes := q.flushes.set id (.draining q.pendingPromises)
      pendingPromises := [] }

/-- The attempt of a call ends. -/
def Queue.answer (q : Queue Record Sidecar Proof) (id : ℕ) (response : LogAnswer Proof) :
    Queue Record Sidecar Proof :=
  match q.calls.get? id with
  | none => q
  | some call =>
      match call.phase, response with
      | .fetching _, .accepted (some proof) =>
          { q.moveTo id call .archiving with proofCache := q.proofCache.set call.hash proof }
      | .fetching _, .accepted none => q.leave id call
      | .fetching _, .rejected => q.leave id call
      | .fetching attempt, .failed =>
          if attempt + 1 < MAX_RETRIES then q.moveTo id call (.waiting (attempt + 1))
          else q.fail options id call
      | _, _ => q

def Queue.wake (q : Queue Record Sidecar Proof) (id : ℕ) (windowOver : Bool) :
    Queue Record Sidecar Proof :=
  match q.calls.get? id with
  | none => q
  | some call =>
      match call.phase with
      | .waiting attempt =>
          if windowOver then q.fail options id call else q.moveTo id call (.fetching attempt)
      | _ => q

def Queue.archived (q : Queue Record Sidecar Proof) (id : ℕ) : Queue Record Sidecar Proof :=
  match q.calls.get? id with
  | none => q
  | some call => if call.phase = .archiving then q.leave id call else q

def Queue.getProof (q : Queue Record Sidecar Proof) (hash : String) : Option Proof :=
  q.proofCache.get? hash

def Queue.settled (q : Queue Record Sidecar Proof) (id : ℕ) : Queue Record Sidecar Proof :=
  match q.flushes.get? id with
  | none => q
  | some (.draining inFlight) =>
      if inFlight.all fun call => !q.calls.has call then q.drain options id else q
  | some (.retrying retries) =>
      if retries.all fun call => !q.calls.has call then
        { q with flushes := q.flushes.filter fun i _ => i ≠ id }
      else q

def step (q : Queue Record Sidecar Proof) (action : Action Record Sidecar Proof) :
    Queue Record Sidecar Proof :=
  if q.hung then q
  else
    match action with
    | .submit record priority sidecar => q.submit options ⟨record, priority, sidecar⟩
    | .flush => Queue.drain options { q with nextId := q.nextId + 1 } q.nextId
    | .answer id response => q.answer options id response
    | .wake id windowOver => q.wake options id windowOver
    | .archived id => q.archived id
    | .settled id => q.settled options id

end Steps

end Atrib.Mcp.SubmissionQueue
