import Mathlib.Data.Nat.Notation
import Mathlib.Logic.Function.Basic

/-!
# Write calls of the daemon

`callWriteTool` of `services/atribd/src/backend.ts` runs a write call under the
lock of its context (`ContextWriteLocks.runUntilSettled`). The lock is a chain of
promises: the entry of a key holds the promise of the last call that came, a
call waits for the promise it found there, and resolves its own when its
primitive call has settled. An entry counts the calls that hold it and is
deleted with the last of them.

What happens next is up to the outside, so every event is an action: a call
comes, a promise that has resolved lets its waiter go on, the idempotency store
answers, the primitive settles, the caller cancels, the timer goes off. A call
whose context cannot be resolved takes no lock and is left out.
-/

namespace Atrib.Atribd

/-- An entry of `tails`. Without a chain there is nothing to wait for. -/
structure LockEntry where
  chain : Option ℕ := none
  depth : ℕ := 0
deriving DecidableEq

/-- How far a call has come. -/
inductive Phase where
  /-- it awaits the promise of the call before it -/
  | queued
  /-- it awaits `idempotencyStore.begin` -/
  | beginning
  /-- its primitive call is in flight -/
  | running
  /-- the primitive has answered, and `idempotencyStore.complete` is awaited -/
  | completing
  /-- `settled` has resolved, and the lock is not released yet -/
  | settled
  /-- its own promise is resolved -/
  | released
deriving DecidableEq

inductive Abandoned where
  | timeout
  | cancel
deriving DecidableEq

/-- What the store says to an idempotent call: write, or do not (a replay, a mismatch, an
indeterminate outcome), or it rejects. -/
inductive BeginOutcome where
  | owner
  | answered
  | rejected
deriving DecidableEq

/-- A write call. The promise it waits for and its own go by the numbers of their calls. -/
structure WriteCall (κ : Type) where
  key : κ
  idempotent : Bool
  entry : ℕ
  prior : Option ℕ
  phase : Phase := .queued
  aborted : Bool := false
  /-- The signal was aborted while the call was queued. -/
  cancelledQueued : Bool := false
  abandoned : Option Abandoned := none

/-- Calls and entries are numbered in the order in which they are made. -/
structure Daemon (κ : Type) where
  calls : ℕ → Option (WriteCall κ) := fun _ => none
  callCount : ℕ := 0
  entries : ℕ → LockEntry := fun _ => {}
  entryCount : ℕ := 0
  tails : κ → Option ℕ := fun _ => none
  /-- The calls that have started their primitive call, in order. -/
  started : List ℕ := []
  /-- The calls whose primitive call has settled, in order. -/
  settledCalls : List ℕ := []

inductive Action (κ : Type) where
  | arrive (key : κ) (idempotent : Bool)
  | resume (i : ℕ)
  | begun (i : ℕ) (outcome : BeginOutcome)
  | primitiveSettles (i : ℕ) (succeeded : Bool)
  | completed (i : ℕ)
  | release (i : ℕ)
  | cancel (i : ℕ)
  | timeout (i : ℕ)

namespace Daemon

variable {κ : Type} [DecidableEq κ]

def setCall (s : Daemon κ) (i : ℕ) (call : WriteCall κ) : Daemon κ :=
  { s with calls := Function.update s.calls i (some call) }

/-- A promise has resolved when its call has released. -/
def resolved (s : Daemon κ) (promise : Option ℕ) : Bool :=
  promise.all fun i => (s.calls i).any fun call => call.phase = .released

/-- The call of `runUntilSettled`, up to `await prior`. -/
def arrive (s : Daemon κ) (key : κ) (idempotent : Bool) : Daemon κ :=
  let i := s.callCount
  let e := (s.tails key).getD s.entryCount
  let entry := s.entries e
  { s with
    calls := Function.update s.calls i
      (some { key, idempotent, entry := e, prior := entry.chain })
    callCount := i + 1
    entries := Function.update s.entries e ⟨some i, entry.depth + 1⟩
    entryCount := if (s.tails key).isSome then s.entryCount else s.entryCount + 1
    tails := Function.update s.tails key (some e) }

/-- The primitive is called, and only then is the signal looked at. -/
def routeToolCall (s : Daemon κ) (i : ℕ) (call : WriteCall κ) : Daemon κ :=
  { s.setCall i { call with
      phase := .running
      abandoned := if call.aborted then some .cancel else none } with
    started := s.started ++ [i] }

/-- `release()`, and the entry goes with its last call. -/
def releaseLock (s : Daemon κ) (i : ℕ) (call : WriteCall κ) : Daemon κ :=
  let entry := s.entries call.entry
  let depth := entry.depth - 1
  { s.setCall i { call with phase := .released } with
    entries := Function.update s.entries call.entry { entry with depth }
    tails :=
      if depth = 0 ∧ s.tails call.key = some call.entry then
        Function.update s.tails call.key none
      else s.tails }

def settle (s : Daemon κ) (i : ℕ) (call : WriteCall κ) : Daemon κ :=
  { s.setCall i { call with phase := .settled } with settledCalls := s.settledCalls ++ [i] }

/-- The timer and the abort listener are there while the tool call is pending. -/
def isRouted (call : WriteCall κ) : Bool := call.phase = .running || call.phase = .completing

def abandon (call : WriteCall κ) (by' : Abandoned) : WriteCall κ :=
  if isRouted call && call.abandoned.isNone then { call with abandoned := some by' } else call

/-- The rest of `runUntilSettled`, up to the answer of the store or the call of the primitive. -/
def resume (s : Daemon κ) (i : ℕ) (call : WriteCall κ) : Daemon κ :=
  if call.phase = .queued ∧ s.resolved call.prior then
    if call.idempotent then s.setCall i { call with phase := .beginning }
    else s.routeToolCall i call
  else s

def begun (s : Daemon κ) (i : ℕ) (outcome : BeginOutcome) (call : WriteCall κ) : Daemon κ :=
  if call.phase = .beginning then
    match outcome with
    | .owner => s.routeToolCall i call
    | .answered => s.setCall i { call with phase := .settled }
    | .rejected => s.releaseLock i call
  else s

/-- An idempotent call that succeeds is recorded before it settles. -/
def primitiveSettles (s : Daemon κ) (i : ℕ) (succeeded : Bool) (call : WriteCall κ) : Daemon κ :=
  if call.phase = .running then
    if succeeded && call.idempotent then s.setCall i { call with phase := .completing }
    else s.settle i call
  else s

def completed (s : Daemon κ) (i : ℕ) (call : WriteCall κ) : Daemon κ :=
  if call.phase = .completing then s.settle i call else s

/-- `call.settled.finally(...)` -/
def release (s : Daemon κ) (i : ℕ) (call : WriteCall κ) : Daemon κ :=
  if call.phase = .settled then s.releaseLock i call else s

/-- The signal of the caller is aborted. -/
def cancel (s : Daemon κ) (i : ℕ) (call : WriteCall κ) : Daemon κ :=
  s.setCall i { abandon call .cancel with
    aborted := true
    cancelledQueued := call.cancelledQueued || call.phase = .queued }

def timeout (s : Daemon κ) (i : ℕ) (call : WriteCall κ) : Daemon κ :=
  s.setCall i (abandon call .timeout)

/-- Do something to a call, if there is one. -/
def onCall (s : Daemon κ) (i : ℕ) (f : WriteCall κ → Daemon κ) : Daemon κ :=
  match s.calls i with
  | some call => f call
  | none => s

/-- An action that is not enabled changes nothing. -/
def step (s : Daemon κ) : Action κ → Daemon κ
  | .arrive key idempotent => s.arrive key idempotent
  | .resume i => s.onCall i (s.resume i)
  | .begun i outcome => s.onCall i (s.begun i outcome)
  | .primitiveSettles i succeeded => s.onCall i (s.primitiveSettles i succeeded)
  | .completed i => s.onCall i (s.completed i)
  | .release i => s.onCall i (s.release i)
  | .cancel i => s.onCall i (s.cancel i)
  | .timeout i => s.onCall i (s.timeout i)

end Daemon

end Atrib.Atribd
