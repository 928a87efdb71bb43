import Atrib.Lib.Run

/-!
# Pending work and flush

The commits of a wrapped server (`packages/mcp/src/middleware.ts`) and the
emissions of an interceptor (`packages/agent/src/middleware.ts`) run on their
own; an array has those under way, and `flush` empties it, waits for what was in
it, looks again, and then flushes the submission queue. What happens from one
`await` to the next is a step. How a commit or an emission goes is told by
whether it handed its record to the queue; of the queue it is known what it was
given when its own `flush` was called.
-/

namespace Atrib.Mcp

inductive FlushOwner where
  /-- `atribServer.flush` -/
  | server
  /-- The interceptor's, with a second look after the queue was flushed. -/
  | interceptor
deriving DecidableEq

inductive WorkPhase where
  | notStarted
  | running
  | settled (toQueue : Bool)
deriving DecidableEq

/-- Where a call of `flush` is; `given` is what the queue had been given when its `flush` was
called. -/
inductive WorkFlushPhase (τ : Type*) where
  | notCalled
  /-- `await Promise.allSettled(inFlight)` -/
  | draining (inFlight : List τ)
  /-- `await queue.flush()` -/
  | flushingQueue (given : List τ)
  /-- `await Promise.allSettled(snapshot)`, of the second loop -/
  | drainingAgain (inFlight given : List τ)
  | resolved (given : List τ)
deriving DecidableEq

structure PendingWork (κ τ : Type*) where
  work : τ → WorkPhase
  pending : List τ
  queue : List τ
  flushes : κ → WorkFlushPhase τ

inductive WorkStep (κ τ : Type*) where
  | start (item : τ)
  /-- The commit or emission ends; its record goes to the queue before that, or not at all. -/
  | settle (item : τ) (toQueue : Bool)
  /-- The callback of `finally`. -/
  | remove (item : τ)
  | flush (call : κ)
  /-- All that a call awaits is settled. -/
  | resume (call : κ)
  | queueFlushed (call : κ)
deriving DecidableEq

namespace PendingWork

variable {κ τ : Type*} [DecidableEq κ] [DecidableEq τ]

def initial : PendingWork κ τ where
  work _ := .notStarted
  pending := []
  queue := []
  flushes _ := .notCalled

def setFlush (s : PendingWork κ τ) (call : κ) (phase : WorkFlushPhase τ) : PendingWork κ τ :=
  { s with flushes := fun c => if c = call then phase else s.flushes c }

def setWork (s : PendingWork κ τ) (item : τ) (phase : WorkPhase) : PendingWork κ τ :=
  { s with work := fun t => if t = item then phase else s.work t }

omit [DecidableEq τ] in
theorem flushes_setFlush (s : PendingWork κ τ) (call c : κ) (phase : WorkFlushPhase τ) :
    (s.setFlush call phase).flushes c = if c = call then phase else s.flushes c := rfl

omit [DecidableEq κ] in
theorem work_setWork (s : PendingWork κ τ) (item t : τ) (phase : WorkPhase) :
    (s.setWork item phase).work t = if t = item then phase else s.work t := rfl

/-- `while (pending.length > 0)`, to the next `await`. -/
def drain (s : PendingWork κ τ) (call : κ) : PendingWork κ τ :=
  if s.pending = [] then s.setFlush call (.flushingQueue s.queue)
  else { s with pending := [] }.setFlush call (.draining s.pending)

/-- The second loop of an interceptor, to the next `await`. -/
def drainAgain (s : PendingWork κ τ) (call : κ) (given : List τ) : PendingWork κ τ :=
  if s.pending = [] then s.setFlush call (.resolved given)
  else { s with pending := [] }.setFlush call (.drainingAgain s.pending given)

def isSettled : WorkPhase → Bool
  | .settled _ => true
  | _ => false

/-- A step that cannot be taken does nothing. -/
def step (owner : FlushOwner) (s : PendingWork κ τ) : WorkStep κ τ → PendingWork κ τ
  | .start item =>
      if s.work item = .notStarted then
        { s with pending := s.pending ++ [item] }.setWork item .running
      else s
  | .settle item toQueue =>
      if s.work item = .running then
        { s with queue := if toQueue then s.queue ++ [item] else s.queue }.setWork item
          (.settled toQueue)
      else s
  | .remove item =>
      if isSettled (s.work item) then { s with pending := s.pending.erase item } else s
  | .flush call => if s.flushes call = .notCalled then s.drain call else s
  | .resume call =>
      match s.flushes call with
      | .draining inFlight =>
          if inFlight.all fun t => isSettled (s.work t) then s.drain call else s
      | .drainingAgain inFlight _ =>
          if inFlight.all fun t => isSettled (s.work t) then
            s.setFlush call (.flushingQueue s.queue)
          else s
      | _ => s
  | .queueFlushed call =>
      match s.flushes call with
      | .flushingQueue given =>
          match owner with
          | .server => s.setFlush call (.resolved given)
          | .interceptor => s.drainAgain call given
      | _ => s

/-- The work that a call of `flush` took out of the array and waits for. -/
def awaited : WorkFlushPhase τ → List τ
  | .draining inFlight | .drainingAgain inFlight _ => inFlight
  | _ => []

def Awaits (s : PendingWork κ τ) (call : κ) (item : τ) : Prop := item ∈ awaited (s.flushes call)

end PendingWork

end Atrib.Mcp
