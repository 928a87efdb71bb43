import Atrib.Lib.Run

/-!
# The submission worker of the Python client

`python/src/atrib/submission.py`: `submit` puts a job, clears the idle event and
makes sure that a worker thread is alive; the worker sends jobs until a timed
`get` finds none, sets the idle event and ends. Calls and worker take their
steps in any order. What the log answers, and the cache of proofs, are not
looked at: a job that was tried is done. The lock of `_ensure_worker` lets one
call at a time look at the worker; the queue and the event have locks of their
own, so that each of their steps is one step here.
-/

namespace Atrib.Python

/-- How far a call of `submit` has come. -/
inductive SubmitPhase where
  | notMade
  /-- The job is queued, the idle event is not cleared. -/
  | queued
  | cleared
  /-- Holds the lock of `_ensure_worker`. -/
  | locked
  /-- Has found no worker alive. -/
  | starting
  | returned
deriving DecidableEq

inductive WorkerPhase (J : Type*) where
  /-- No thread is alive. -/
  | ended
  /-- In `get(timeout=0.25)`, or about to call it. -/
  | waiting
  | sending (job : J)
  /-- `get` has raised `Empty`. -/
  | timedOut
  /-- The idle event is set; the thread is still alive. -/
  | leaving
deriving DecidableEq

structure SubmissionQueue (κ J : Type*) where
  pending : List J
  idle : Bool
  worker : WorkerPhase J
  lock : Option κ
  calls : κ → SubmitPhase

inductive SubmissionStep (κ J : Type*) where
  | put (call : κ) (job : J)
  | clearIdle (call : κ)
  | acquireLock (call : κ)
  | checkAlive (call : κ)
  | startWorker (call : κ)
  | getJob
  | jobDone
  | getTimesOut
  | setIdle
  | exit
deriving DecidableEq

namespace SubmissionQueue

variable {κ J : Type*} [DecidableEq κ]

/-- `SubmissionQueue()`, before any call. -/
def initial : SubmissionQueue κ J where
  pending := []
  idle := true
  worker := .ended
  lock := none
  calls _ := .notMade

/-- A call moves on. -/
def moveTo (s : SubmissionQueue κ J) (call : κ) (phase : SubmitPhase) : SubmissionQueue κ J :=
  { s with calls := fun c => if c = call then phase else s.calls c }

/-- A step that is not the call's or the worker's next one does nothing. -/
def step (s : SubmissionQueue κ J) : SubmissionStep κ J → SubmissionQueue κ J
  | .put call job =>
      if s.calls call = .notMade then
        { s with pending := s.pending ++ [job] }.moveTo call .queued
      else s
  | .clearIdle call =>
      if s.calls call = .queued then { s with idle := false }.moveTo call .cleared else s
  | .acquireLock call =>
      if s.calls call = .cleared ∧ s.lock = none then
        { s with lock := some call }.moveTo call .locked
      else s
  | .checkAlive call =>
      if s.calls call = .locked then
        match s.worker with
        | .ended => s.moveTo call .starting
        | _ => { s with lock := none }.moveTo call .returned
      else s
  | .startWorker call =>
      if s.calls call = .starting then
        { s with worker := .waiting, lock := none }.moveTo call .returned
      else s
  | .getJob =>
      match s.worker, s.pending with
      | .waiting, job :: pending => { s with worker := .sending job, pending }
      | _, _ => s
  | .jobDone =>
      match s.worker with
      | .sending _ => { s with worker := .waiting }
      | _ => s
  | .getTimesOut =>
      match s.worker, s.pending with
      | .waiting, [] => { s with worker := .timedOut }
      | _, _ => s
  | .setIdle =>
      match s.worker with
      | .timedOut => { s with worker := .leaving, idle := true }
      | _ => s
  | .exit =>
      match s.worker with
      | .leaving => { s with worker := .ended }
      | _ => s

/-- A worker that has not decided to exit. -/
def TakesJobs (worker : WorkerPhase J) : Prop :=
  match worker with
  | .waiting | .sending _ => True
  | _ => False

/-- Every call that was made has returned. -/
def AllReturned (s : SubmissionQueue κ J) : Prop :=
  ∀ call, s.calls call = .notMade ∨ s.calls call = .returned

end SubmissionQueue

end Atrib.Python
