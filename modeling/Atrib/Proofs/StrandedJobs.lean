import Atrib.Python.Submission

/-!
# When a queued job has a worker

A worker decides to exit, sets the idle event and ends in three steps. A call
that clears the event after the first is undone by the second, and a call that
finds the thread alive between the first and the third leaves its job to nobody.
`Handshake` rules out these two and nothing else; with it a job is always the
business of a worker that takes jobs or of a call that has not yet looked for one,
and what a call has cleared stays cleared until the job is done.
-/

namespace Atrib.Python

namespace SubmissionQueue

open Lib (Always run run_invariant)

variable {κ J : Type*} [DecidableEq κ]

/-- No call clears the event, or relies on the thread, of a worker on its way out, with a job
still queued. -/
def Handshake (s : SubmissionQueue κ J) : SubmissionStep κ J → Prop
  | .clearIdle call => s.calls call = .queued → s.worker = .timedOut → s.pending = []
  | .checkAlive call =>
      s.calls call = .locked → s.worker = .timedOut ∨ s.worker = .leaving → s.pending = []
  | _ => True

/-- The call has put its job and not yet seen to the worker. -/
def InProgress (phase : SubmitPhase) : Prop :=
  phase = .queued ∨ phase = .cleared ∨ phase = .locked ∨ phase = .starting

/-- Some call is between its put and its clear. -/
def SomeQueued (s : SubmissionQueue κ J) : Prop := ∃ call, s.calls call = .queued

structure Attended (s : SubmissionQueue κ J) : Prop where
  /-- A queued job has a worker, or a call that will look for one. -/
  taken : s.pending ≠ [] → TakesJobs s.worker ∨ ∃ call, InProgress (s.calls call)
  /-- The worker gave up over an empty queue. -/
  gaveUp : s.worker = .timedOut → s.pending = [] ∨ s.SomeQueued
  /-- What was put since the event was set has yet to clear it. -/
  quiet : s.idle = true → (s.pending = [] ∧ ∀ job, s.worker ≠ .sending job) ∨ s.SomeQueued
  holder : ∀ call, s.calls call = .locked ∨ s.calls call = .starting → s.lock = some call
  /-- Under the lock, a worker that has ended stays away. -/
  alone : ∀ call, s.calls call = .starting → s.worker = .ended

omit [DecidableEq κ] in
theorem attended_initial : (initial : SubmissionQueue κ J).Attended where
  taken h := absurd rfl h
  gaveUp h := nomatch h
  quiet _ := .inl ⟨rfl, fun _ => nofun⟩
  holder call h := by rcases h with h | h <;> cases h
  alone call h := nomatch h

@[simp] theorem calls_moveTo (s : SubmissionQueue κ J) (call c : κ) (phase : SubmitPhase) :
    (s.moveTo call phase).calls c = if c = call then phase else s.calls c := rfl

theorem calls_moveTo_self (s : SubmissionQueue κ J) (call : κ) (phase : SubmitPhase) :
    (s.moveTo call phase).calls call = phase := if_pos rfl

/-- A call that moves on leaves the others where they are. -/
theorem exists_moveTo {P : SubmitPhase → Prop} {s : SubmissionQueue κ J} {call : κ}
    {phase : SubmitPhase} (h : ∃ c, P (s.calls c)) (hcall : P (s.calls call) → P phase) :
    ∃ c, P ((s.moveTo call phase).calls c) := by
  obtain ⟨c, hc⟩ := h
  by_cases heq : c = call
  · subst heq
    exact ⟨c, by rw [calls_moveTo_self]; exact hcall hc⟩
  · exact ⟨c, by rwa [calls_moveTo, if_neg heq]⟩

/-- A call that moves to a phase outside the lock keeps what the lock stands for. -/
theorem holder_moveTo {s : SubmissionQueue κ J} {call : κ} {phase : SubmitPhase}
    (hs : ∀ c, s.calls c = .locked ∨ s.calls c = .starting → s.lock = some c)
    (hphase : phase ≠ .locked) (hphase' : phase ≠ .starting) (c : κ)
    (h : (s.moveTo call phase).calls c = .locked ∨ (s.moveTo call phase).calls c = .starting) :
    s.lock = some c := by
  rw [calls_moveTo] at h
  split at h
  · rcases h with h | h
    · exact absurd h hphase
    · exact absurd h hphase'
  · exact hs c h

theorem alone_moveTo {s : SubmissionQueue κ J} {call : κ} {phase : SubmitPhase}
    (hs : ∀ c, s.calls c = .starting → s.worker = .ended) (hphase : phase ≠ .starting) (c : κ)
    (h : (s.moveTo call phase).calls c = .starting) : s.worker = .ended := by
  rw [calls_moveTo] at h
  split at h
  · exact absurd h hphase
  · exact hs c h

/-! ## The steps of a call -/

theorem Attended.put {s : SubmissionQueue κ J} (h : s.Attended) (call : κ) (job : J) :
    ({ s with pending := s.pending ++ [job] }.moveTo call .queued).Attended where
  taken _ := .inr ⟨call, .inl (calls_moveTo_self _ _ _)⟩
  gaveUp _ := .inr ⟨call, calls_moveTo_self _ _ _⟩
  quiet _ := .inr ⟨call, calls_moveTo_self _ _ _⟩
  holder := holder_moveTo h.holder nofun nofun
  alone := alone_moveTo h.alone nofun

theorem Attended.clearIdle {s : SubmissionQueue κ J} (h : s.Attended) {call : κ}
    (hgone : s.worker = .timedOut → s.pending = []) :
    ({ s with idle := false }.moveTo call .cleared).Attended where
  taken hpending := (h.taken hpending).imp_right fun hcalls =>
    exists_moveTo (s := { s with idle := false }) hcalls fun _ => .inr (.inl rfl)
  gaveUp hworker := .inl (hgone hworker)
  quiet hidle := nomatch hidle
  holder := holder_moveTo h.holder nofun nofun
  alone := alone_moveTo h.alone nofun

/-- Of the calls between put and clear, none is one with the lock. -/
theorem SomeQueued.moveTo {s : SubmissionQueue κ J} (h : s.SomeQueued) {call : κ}
    {phase : SubmitPhase} (hcall : s.calls call ≠ .queued) : (s.moveTo call phase).SomeQueued :=
  exists_moveTo (P := (· = .queued)) h fun hqueued => absurd hqueued hcall

theorem Attended.acquireLock {s : SubmissionQueue κ J} (h : s.Attended) {call : κ}
    (hcall : s.calls call = .cleared) (hlock : s.lock = none) :
    ({ s with lock := some call }.moveTo call .locked).Attended := by
  have hnot : s.calls call ≠ .queued := by rw [hcall]; nofun
  refine ⟨?_, ?_, ?_, ?_, ?_⟩
  · exact fun hpending => (h.taken hpending).imp_right fun hcalls =>
      exists_moveTo (s := { s with lock := some call }) hcalls fun _ => .inr (.inr (.inl rfl))
  · exact fun hworker => (h.gaveUp hworker).imp_right (·.moveTo hnot)
  · exact fun hidle => (h.quiet hidle).imp_right (·.moveTo hnot)
  · intro c hc
    rw [calls_moveTo] at hc
    split at hc
    · next heq => exact congrArg some heq.symm
    · exact absurd (hlock.symm.trans (h.holder c hc)) nofun
  · exact alone_moveTo (s := { s with lock := some call }) h.alone nofun

theorem Attended.checkEnded {s : SubmissionQueue κ J} (h : s.Attended) {call : κ}
    (hcall : s.calls call = .locked) (hworker : s.worker = .ended) :
    (s.moveTo call .starting).Attended := by
  have hnot : s.calls call ≠ .queued := by rw [hcall]; nofun
  refine ⟨?_, ?_, ?_, ?_, ?_⟩
  · exact fun hpending => (h.taken hpending).imp_right fun hcalls =>
      exists_moveTo hcalls fun _ => .inr (.inr (.inr rfl))
  · exact fun htimedOut => (h.gaveUp htimedOut).imp_right (·.moveTo hnot)
  · exact fun hidle => (h.quiet hidle).imp_right (·.moveTo hnot)
  · intro c hc
    rw [calls_moveTo] at hc
    split at hc
    · next heq => exact heq ▸ h.holder call (.inl hcall)
    · exact h.holder c hc
  · exact fun _ _ => hworker

omit [DecidableEq κ] in
/-- With the lock gone no other call holds it. -/
theorem Attended.outside {s : SubmissionQueue κ J} (h : s.Attended) {call : κ}
    (hcall : s.calls call = .locked ∨ s.calls call = .starting) {c : κ} (hne : c ≠ call) :
    s.calls c ≠ .locked ∧ s.calls c ≠ .starting := by
  have hheld := h.holder call hcall
  refine ⟨fun hc => hne ?_, fun hc => hne ?_⟩
  · exact Option.some.inj ((h.holder c (.inl hc)).symm.trans hheld)
  · exact Option.some.inj ((h.holder c (.inr hc)).symm.trans hheld)

theorem Attended.checkAlive {s : SubmissionQueue κ J} (h : s.Attended) {call : κ}
    (hcall : s.calls call = .locked) (hworker : s.worker ≠ .ended)
    (hgone : s.worker = .timedOut ∨ s.worker = .leaving → s.pending = []) :
    ({ s with lock := none }.moveTo call .returned).Attended := by
  have hnot : s.calls call ≠ .queued := by rw [hcall]; nofun
  have hothers : ∀ c, ({ s with lock := none }.moveTo call .returned).calls c ≠ .locked ∧
      ({ s with lock := none }.moveTo call .returned).calls c ≠ .starting := by
    intro c
    rw [calls_moveTo]
    split
    · exact ⟨nofun, nofun⟩
    · next hne => exact h.outside (.inl hcall) hne
  refine ⟨fun hpending => .inl ?_, ?_, ?_, ?_, ?_⟩
  · show TakesJobs s.worker
    cases hphase : s.worker with
    | ended => exact absurd hphase hworker
    | waiting => trivial
    | sending job => trivial
    | timedOut => exact absurd (hgone (.inl hphase)) hpending
    | leaving => exact absurd (hgone (.inr hphase)) hpending
  · exact fun htimedOut => (h.gaveUp htimedOut).imp_right (·.moveTo hnot)
  · exact fun hidle => (h.quiet hidle).imp_right (·.moveTo hnot)
  · exact fun c hc => hc.elim (absurd · (hothers c).1) (absurd · (hothers c).2)
  · exact fun c hc => absurd hc (hothers c).2

theorem Attended.startWorker {s : SubmissionQueue κ J} (h : s.Attended) {call : κ}
    (hcall : s.calls call = .starting) :
    ({ s with worker := .waiting, lock := none }.moveTo call .returned).Attended := by
  have hnot : s.calls call ≠ .queued := by rw [hcall]; nofun
  have hothers : ∀ c, ({ s with worker := .waiting, lock := none }.moveTo call .returned).calls c
      ≠ .locked ∧
      ({ s with worker := .waiting, lock := none }.moveTo call .returned).calls c ≠ .starting := by
    intro c
    rw [calls_moveTo]
    split
    · exact ⟨nofun, nofun⟩
    · next hne => exact h.outside (.inr hcall) hne
  refine ⟨fun _ => .inl trivial, nofun, fun hidle => ?_, ?_, ?_⟩
  · rcases h.quiet hidle with hquiet | hqueued
    · exact .inl ⟨hquiet.1, nofun⟩
    · exact .inr (SomeQueued.moveTo (s := { s with worker := .waiting, lock := none }) hqueued hnot)
  · exact fun c hc => hc.elim (absurd · (hothers c).1) (absurd · (hothers c).2)
  · exact fun c hc => absurd hc (hothers c).2

/-! ## The steps of the worker -/

omit [DecidableEq κ] in
/-- A worker that is alive was started, so that no call is starting one. -/
theorem Attended.of_alive {s : SubmissionQueue κ J} (h : s.Attended) (hworker : s.worker ≠ .ended)
    {P : κ → Prop} : ∀ call, s.calls call = .starting → P call := fun call hcall =>
  absurd (h.alone call hcall) hworker

omit [DecidableEq κ] in
theorem Attended.getJob {s : SubmissionQueue κ J} (h : s.Attended) {job : J} {pending : List J}
    (hworker : s.worker = .waiting) (hpending : s.pending = job :: pending) :
    { s with worker := .sending job, pending }.Attended where
  taken _ := .inl trivial
  gaveUp hphase := nomatch hphase
  quiet hidle := by
    rcases h.quiet hidle with ⟨hempty, -⟩ | hqueued
    · exact absurd (hempty.symm.trans hpending) nofun
    · exact .inr hqueued
  holder := h.holder
  alone := h.of_alive (by rw [hworker]; nofun)

omit [DecidableEq κ] in
theorem Attended.jobDone {s : SubmissionQueue κ J} (h : s.Attended) {job : J}
    (hworker : s.worker = .sending job) : { s with worker := .waiting }.Attended where
  taken _ := .inl trivial
  gaveUp hphase := nomatch hphase
  quiet hidle := (h.quiet hidle).imp_left fun hquiet => absurd hworker (hquiet.2 job)
  holder := h.holder
  alone := h.of_alive (by rw [hworker]; nofun)

omit [DecidableEq κ] in
theorem Attended.getTimesOut {s : SubmissionQueue κ J} (h : s.Attended)
    (hworker : s.worker = .waiting) (hpending : s.pending = []) :
    { s with worker := .timedOut }.Attended where
  taken hne := absurd hpending hne
  gaveUp _ := .inl hpending
  quiet _ := .inl ⟨hpending, fun _ => nofun⟩
  holder := h.holder
  alone := h.of_alive (by rw [hworker]; nofun)

omit [DecidableEq κ] in
theorem Attended.setIdle {s : SubmissionQueue κ J} (h : s.Attended)
    (hworker : s.worker = .timedOut) : { s with worker := .leaving, idle := true }.Attended where
  taken hpending := (h.taken hpending).imp_left fun htakes => by rw [hworker] at htakes; exact htakes
  gaveUp hphase := nomatch hphase
  quiet _ := (h.gaveUp hworker).imp_left fun hempty => ⟨hempty, fun _ => nofun⟩
  holder := h.holder
  alone := h.of_alive (by rw [hworker]; nofun)

omit [DecidableEq κ] in
theorem Attended.exit {s : SubmissionQueue κ J} (h : s.Attended)
    (hworker : s.worker = .leaving) : { s with worker := .ended }.Attended where
  taken hpending := (h.taken hpending).imp_left fun htakes => by rw [hworker] at htakes; exact htakes
  gaveUp hphase := nomatch hphase
  quiet hidle := (h.quiet hidle).imp_left fun hquiet => ⟨hquiet.1, fun _ => nofun⟩
  holder := h.holder
  alone _ _ := rfl

theorem attended_step (s : SubmissionQueue κ J) (action : SubmissionStep κ J) (h : s.Attended)
    (hok : s.Handshake action) : (s.step action).Attended := by
  cases action with
  | put call job =>
      rw [step]
      split
      · exact h.put call job
      · exact h
  | clearIdle call =>
      rw [step]
      split
      · next hcall => exact h.clearIdle (hok hcall)
      · exact h
  | acquireLock call =>
      rw [step]
      split
      · next hcall => exact h.acquireLock hcall.1 hcall.2
      · exact h
  | checkAlive call =>
      rw [step]
      split
      · next hcall =>
          split
          · next hworker => exact h.checkEnded hcall hworker
          · next hworker => exact h.checkAlive hcall hworker (hok hcall)
      · exact h
  | startWorker call =>
      rw [step]
      split
      · next hcall => exact h.startWorker hcall
      · exact h
  | getJob =>
      rw [step]
      split
      · next hworker hpending => exact h.getJob hworker hpending
      · exact h
  | jobDone =>
      rw [step]
      split
      · next hworker => exact h.jobDone hworker
      · exact h
  | getTimesOut =>
      rw [step]
      split
      · next hworker hpending => exact h.getTimesOut hworker hpending
      · exact h
  | setIdle =>
      rw [step]
      split
      · next hworker => exact h.setIdle hworker
      · exact h
  | exit =>
      rw [step]
      split
      · next hworker => exact h.exit hworker
      · exact h

/-! ## No submission is stranded -/

/-- Once every call has returned, a queued job has a worker that takes it, and the idle event
tells that nothing is queued or being sent. -/
theorem no_submission_stranded (actions : List (SubmissionStep κ J))
    (hrun : Always step Handshake initial actions)
    (hreturned : (run step initial actions).AllReturned) :
    ((run step initial actions).pending ≠ [] → TakesJobs (run step initial actions).worker) ∧
      ((run step initial actions).idle = true → (run step initial actions).pending = [] ∧
        ∀ job, (run step initial actions).worker ≠ .sending job) := by
  have hattended : (run step initial actions).Attended :=
    run_invariant attended_step attended_initial hrun
  constructor
  · intro hpending
    rcases hattended.taken hpending with htakes | ⟨call, hcall⟩
    · exact htakes
    · rcases hreturned call with hphase | hphase <;> simp [InProgress, hphase] at hcall
  · intro hidle
    rcases hattended.quiet hidle with hquiet | ⟨call, hcall⟩
    · exact hquiet
    · rcases hreturned call with hphase | hphase <;> rw [hphase] at hcall <;> cases hcall

instance (s : SubmissionQueue κ J) [DecidableEq J] (action : SubmissionStep κ J) :
    Decidable (s.Handshake action) := by
  cases action <;> unfold Handshake <;> infer_instance

/-- A call as it goes when nothing comes between its steps. -/
def undisturbed (call : κ) (job : J) : List (SubmissionStep κ J) :=
  [.put call job, .clearIdle call, .acquireLock call, .checkAlive call, .startWorker call]

/-- The worker ends after the first call; the second starts another. -/
theorem no_submission_stranded_two :
    (run step initial (undisturbed false 0 ++ [.getJob, .jobDone, .getTimesOut, .setIdle, .exit] ++
        undisturbed true 1) : SubmissionQueue Bool ℕ).pending = [1] ∧
      TakesJobs (run step initial (undisturbed false 0 ++
        [.getJob, .jobDone, .getTimesOut, .setIdle, .exit] ++
        undisturbed true 1) : SubmissionQueue Bool ℕ).worker :=
  ⟨by decide,
    (no_submission_stranded _ (by decide) (fun call => by cases call <;> decide)).1 (by decide)⟩

/-- The second call comes between the worker's decision to exit and its end: it returns, its job
is queued, no worker is alive and the idle event is set. -/
theorem job_left_behind :
    ∃ actions : List (SubmissionStep Bool ℕ),
      (run step initial actions).AllReturned ∧ (run step initial actions).pending = [1] ∧
        (run step initial actions).worker = .ended ∧ (run step initial actions).idle = true :=
  ⟨undisturbed false 0 ++ [.getJob, .jobDone, .getTimesOut, .put true 1, .clearIdle true,
    .acquireLock true, .checkAlive true, .setIdle, .exit],
    fun call => by cases call <;> decide, by decide, by decide, by decide⟩

end SubmissionQueue

end Atrib.Python
