import Atrib.Mcp.PendingWork

/-!
# What a flush has waited for

Work under way is in the array or was taken out of it by a call of `flush` that
waits for it still. A call made while no other call waits for unfinished work
therefore finds all of it in the array, takes all of it, and reaches the queue's
own flush only when all of it is settled; from then on nothing it answers for
can change.
-/

namespace Atrib.Mcp

namespace PendingWork

open Lib (run run_cons run_append run_keeps)

variable {κ τ : Type*} [DecidableEq κ]

def Running (s : PendingWork κ τ) (item : τ) : Prop := s.work item = .running

/-- Done with, and with the queue if it was for the queue. -/
def DoneWithin (s : PendingWork κ τ) (given : List τ) (item : τ) : Prop :=
  ∃ toQueue, s.work item = .settled toQueue ∧ (toQueue = true → item ∈ given)

structure Tracked (s : PendingWork κ τ) : Prop where
  /-- Work under way is in the array, or awaited by the call that took it out. -/
  kept : ∀ item, s.Running item → item ∈ s.pending ∨ ∃ call, s.Awaits call item
  /-- What was for the queue is in the queue. -/
  queued : ∀ item, s.work item = .settled true → item ∈ s.queue

omit [DecidableEq κ] in
theorem tracked_initial : (initial : PendingWork κ τ).Tracked where
  kept _ h := nomatch h
  queued _ h := nomatch h

theorem awaits_setFlush_self {s : PendingWork κ τ} {call : κ} {phase : WorkFlushPhase τ}
    {item : τ} : (s.setFlush call phase).Awaits call item ↔ item ∈ awaited phase := by
  rw [Awaits, flushes_setFlush, if_pos rfl]

theorem awaits_setFlush_of_ne {s : PendingWork κ τ} {call c : κ} {phase : WorkFlushPhase τ}
    {item : τ} (hne : c ≠ call) : (s.setFlush call phase).Awaits c item ↔ s.Awaits c item := by
  rw [Awaits, flushes_setFlush, if_neg hne, Awaits]

/-- A call that waits only for settled work may turn to the array. -/
theorem Tracked.turn {s s' : PendingWork κ τ} (h : s.Tracked) {call : κ}
    (hwork : s'.work = s.work) (hqueue : s'.queue = s.queue)
    (hothers : ∀ c item, c ≠ call → s.Awaits c item → s'.Awaits c item)
    (hpending : ∀ item ∈ s.pending, item ∈ s'.pending ∨ s'.Awaits call item)
    (hsettled : ∀ item, s.Awaits call item → isSettled (s.work item) = true) : s'.Tracked where
  kept item hitem := by
    have hitem : s.Running item := by rwa [Running, hwork] at hitem
    rcases h.kept item hitem with hmem | ⟨c, hawaits⟩
    · exact (hpending item hmem).imp_right fun hcall => ⟨call, hcall⟩
    · by_cases hc : c = call
      · subst hc
        have := hsettled item hawaits
        rw [hitem] at this
        cases this
      · exact .inr ⟨c, hothers c item hc hawaits⟩
  queued item hitem := by
    rw [hqueue]
    exact h.queued item (hwork ▸ hitem)

theorem Tracked.setFlush {s : PendingWork κ τ} (h : s.Tracked) {call : κ}
    {phase : WorkFlushPhase τ}
    (hsettled : ∀ item, s.Awaits call item → isSettled (s.work item) = true) :
    (s.setFlush call phase).Tracked :=
  h.turn rfl rfl (fun _ _ hne => (awaits_setFlush_of_ne hne).2) (fun _ hmem => .inl hmem) hsettled

/-- The array is emptied into what the call waits for. -/
theorem Tracked.take {s : PendingWork κ τ} (h : s.Tracked) {call : κ} {phase : WorkFlushPhase τ}
    (hphase : phase = .draining s.pending ∨ ∃ given, phase = .drainingAgain s.pending given)
    (hsettled : ∀ item, s.Awaits call item → isSettled (s.work item) = true) :
    ({ s with pending := [] }.setFlush call phase).Tracked := by
  refine h.turn rfl rfl (fun c item hne hawaits => ?_) (fun item hmem => .inr ?_) hsettled
  · exact (awaits_setFlush_of_ne (s := { s with pending := [] }) hne).2 hawaits
  · refine awaits_setFlush_self.2 ?_
    rcases hphase with rfl | ⟨given, rfl⟩
    · exact hmem
    · exact hmem

theorem Tracked.drain {s : PendingWork κ τ} (h : s.Tracked) {call : κ}
    (hsettled : ∀ item, s.Awaits call item → isSettled (s.work item) = true) :
    (s.drain call).Tracked := by
  rw [PendingWork.drain]
  split
  · exact h.setFlush hsettled
  · exact h.take (.inl rfl) hsettled

theorem Tracked.drainAgain {s : PendingWork κ τ} (h : s.Tracked) {call : κ} {given : List τ}
    (hsettled : ∀ item, s.Awaits call item → isSettled (s.work item) = true) :
    (s.drainAgain call given).Tracked := by
  rw [PendingWork.drainAgain]
  split
  · exact h.setFlush hsettled
  · exact h.take (.inr ⟨given, rfl⟩) hsettled

omit [DecidableEq κ] in
theorem not_awaits {s : PendingWork κ τ} {call : κ} {phase : WorkFlushPhase τ}
    (hphase : s.flushes call = phase)
    (h : phase = .notCalled ∨ ∃ given, phase = .flushingQueue given) (item : τ) :
    ¬s.Awaits call item := by
  rw [Awaits, hphase]
  rcases h with rfl | ⟨given, rfl⟩
  · exact List.not_mem_nil
  · exact List.not_mem_nil

theorem tracked_step [DecidableEq τ] {owner : FlushOwner} (s : PendingWork κ τ) (action : WorkStep κ τ) (h : s.Tracked) :
    (s.step owner action).Tracked := by
  cases action with
  | start item =>
      rw [step]
      split
      · next hitem =>
          refine ⟨fun t ht => ?_, fun t ht => ?_⟩
          · by_cases heq : t = item
            · exact .inl (List.mem_append_right _ (List.mem_singleton.2 heq))
            · rw [Running, work_setWork, if_neg heq] at ht
              exact (h.kept t ht).imp_left (List.mem_append_left _)
          · rw [work_setWork] at ht
            split at ht
            · cases ht
            · exact h.queued t ht
      · exact h
  | settle item toQueue =>
      rw [step]
      split
      · refine ⟨fun t ht => ?_, fun t ht => ?_⟩
        · rw [Running, work_setWork] at ht
          split at ht
          · cases ht
          · exact h.kept t ht
        · show t ∈ if toQueue then s.queue ++ [item] else s.queue
          rw [work_setWork] at ht
          split at ht
          · next heq =>
              obtain rfl := WorkPhase.settled.inj ht
              exact List.mem_append_right _ (List.mem_singleton.2 heq)
          · have hmem := h.queued t ht
            split
            · exact List.mem_append_left _ hmem
            · exact hmem
      · exact h
  | remove item =>
      rw [step]
      split
      · next hsettled =>
          refine ⟨fun t ht => ?_, h.queued⟩
          have hne : t ≠ item := by
            rintro rfl
            have ht : s.work t = .running := ht
            rw [ht] at hsettled
            cases hsettled
          exact (h.kept t ht).imp_left (List.mem_erase_of_ne hne).2
      · exact h
  | flush call =>
      rw [step]
      split
      · next hcall => exact h.drain fun item hitem => absurd hitem (not_awaits hcall (.inl rfl) item)
      · exact h
  | resume call =>
      rw [step]
      split
      · next inFlight hcall =>
          split
          · next hall =>
              refine h.drain fun item hitem => ?_
              rw [Awaits, hcall] at hitem
              exact List.all_eq_true.1 hall item hitem
          · exact h
      · next inFlight given hcall =>
          split
          · next hall =>
              refine h.setFlush fun item hitem => ?_
              rw [Awaits, hcall] at hitem
              exact List.all_eq_true.1 hall item hitem
          · exact h
      · exact h
  | queueFlushed call =>
      rw [step]
      split
      · next given hcall =>
          have hnone : ∀ item, s.Awaits call item → isSettled (s.work item) = true :=
            fun item hitem => absurd hitem (not_awaits hcall (.inr ⟨given, rfl⟩) item)
          split
          · exact h.setFlush hnone
          · exact h.drainAgain hnone
      · exact h

/-! ## What a call answers for -/

/-- How far a call has come with the work it answers for. -/
def AnswersAt (s : PendingWork κ τ) (items : τ → Prop) : WorkFlushPhase τ → Prop
  | .notCalled => False
  | .draining inFlight => ∀ item, items item → item ∈ inFlight ∨ isSettled (s.work item) = true
  | .flushingQueue given | .drainingAgain _ given | .resolved given =>
      ∀ item, items item → s.DoneWithin given item

def Answers (s : PendingWork κ τ) (call : κ) (items : τ → Prop) : Prop :=
  s.AnswersAt items (s.flushes call)

omit [DecidableEq κ] in
theorem answers_of {s : PendingWork κ τ} {call : κ} {phase : WorkFlushPhase τ}
    (hphase : s.flushes call = phase) {items : τ → Prop} :
    s.Answers call items ↔ s.AnswersAt items phase := by
  rw [Answers, hphase]

omit [DecidableEq κ] in
theorem isSettled_iff {phase : WorkPhase} :
    isSettled phase = true ↔ ∃ toQueue, phase = .settled toQueue := by
  cases phase with
  | settled toQueue => exact ⟨fun _ => ⟨toQueue, rfl⟩, fun _ => rfl⟩
  | _ => exact ⟨nofun, nofun⟩

omit [DecidableEq κ] in
theorem Tracked.doneWithin {s : PendingWork κ τ} (h : s.Tracked) {item : τ}
    (hitem : isSettled (s.work item) = true) : s.DoneWithin s.queue item := by
  obtain ⟨toQueue, hwork⟩ := isSettled_iff.1 hitem
  refine ⟨toQueue, hwork, ?_⟩
  rintro rfl
  exact h.queued item hwork

omit [DecidableEq κ] in
theorem DoneWithin.settled {s : PendingWork κ τ} {given : List τ} {item : τ}
    (h : s.DoneWithin given item) : isSettled (s.work item) = true := by
  obtain ⟨toQueue, hwork, -⟩ := h
  exact isSettled_iff.2 ⟨toQueue, hwork⟩

omit [DecidableEq κ] in
/-- Steps of others settle more work and leave the call where it is. -/
theorem Answers.mono {s s' : PendingWork κ τ} {call : κ} {items : τ → Prop}
    (h : s.Answers call items) (hflush : s'.flushes call = s.flushes call)
    (hwork : ∀ item toQueue, s.work item = .settled toQueue → s'.work item = .settled toQueue) :
    s'.Answers call items := by
  have hdone : ∀ given item, s.DoneWithin given item → s'.DoneWithin given item :=
    fun given item ⟨toQueue, hitem, hgiven⟩ => ⟨toQueue, hwork item toQueue hitem, hgiven⟩
  rw [Answers] at h ⊢
  rw [hflush]
  cases hphase : s.flushes call with
  | notCalled =>
      rw [hphase] at h
      exact h
  | draining inFlight =>
      rw [hphase] at h
      refine fun item hitem => (h item hitem).imp_right fun hsettled => ?_
      obtain ⟨toQueue, hitem⟩ := isSettled_iff.1 hsettled
      exact isSettled_iff.2 ⟨toQueue, hwork item toQueue hitem⟩
  | flushingQueue given | drainingAgain inFlight given | resolved given =>
      rw [hphase] at h
      exact fun item hitem => hdone _ item (h item hitem)

/-- The call looks at the array again once all it answers for is settled. -/
theorem answers_drain {s : PendingWork κ τ} (h : s.Tracked) {call : κ} {items : τ → Prop}
    (hitems : ∀ item, items item → item ∈ s.pending ∨ isSettled (s.work item) = true) :
    (s.drain call).Answers call items := by
  rw [drain]
  split
  · next hempty =>
      rw [answers_of ((flushes_setFlush ..).trans (if_pos rfl))]
      intro item hitem
      rcases hitems item hitem with hmem | hsettled
      · rw [hempty] at hmem
        cases hmem
      · exact h.doneWithin hsettled
  · rw [answers_of ((flushes_setFlush ..).trans (if_pos rfl))]
    exact hitems

theorem answers_drainAgain {s : PendingWork κ τ} {call : κ} {items : τ → Prop} {given : List τ}
    (hitems : ∀ item, items item → s.DoneWithin given item) :
    (s.drainAgain call given).Answers call items := by
  rw [drainAgain]
  split
  · rw [answers_of ((flushes_setFlush ..).trans (if_pos rfl))]
    exact hitems
  · rw [answers_of ((flushes_setFlush ..).trans (if_pos rfl))]
    exact hitems

theorem flushes_drain_of_ne {s : PendingWork κ τ} {call c : κ} (hne : c ≠ call) :
    (s.drain call).flushes c = s.flushes c := by
  rw [drain]
  split
  · rw [flushes_setFlush, if_neg hne]
  · rw [flushes_setFlush, if_neg hne]

theorem flushes_drainAgain_of_ne {s : PendingWork κ τ} {call c : κ} {given : List τ}
    (hne : c ≠ call) : (s.drainAgain call given).flushes c = s.flushes c := by
  rw [drainAgain]
  split
  · rw [flushes_setFlush, if_neg hne]
  · rw [flushes_setFlush, if_neg hne]

theorem work_drain (s : PendingWork κ τ) (call : κ) : (s.drain call).work = s.work := by
  rw [drain]
  split
  · rfl
  · rfl

theorem work_drainAgain (s : PendingWork κ τ) (call : κ) (given : List τ) :
    (s.drainAgain call given).work = s.work := by
  rw [drainAgain]
  split
  · rfl
  · rfl

section

variable [DecidableEq τ] {owner : FlushOwner}

theorem answers_step {s : PendingWork κ τ} {action : WorkStep κ τ} {call : κ} {items : τ → Prop}
    (htracked : s.Tracked) (h : s.Answers call items) :
    (s.step owner action).Answers call items := by
  have hkeep : ∀ {s' : PendingWork κ τ}, s'.flushes call = s.flushes call → s'.work = s.work →
      s'.Answers call items :=
    fun hflush hwork => h.mono hflush fun item toQueue hitem => hwork ▸ hitem
  cases action with
  | start item =>
      rw [step]
      split
      · next hitem =>
          refine h.mono rfl fun t toQueue ht => ?_
          rw [work_setWork, if_neg]
          · exact ht
          · rintro rfl
            rw [hitem] at ht
            cases ht
      · exact h
  | settle item toQueue =>
      rw [step]
      split
      · next hitem =>
          refine h.mono rfl fun t toQueue' ht => ?_
          rw [work_setWork, if_neg]
          · exact ht
          · rintro rfl
            rw [hitem] at ht
            cases ht
      · exact h
  | remove item =>
      rw [step]
      split
      · exact hkeep rfl rfl
      · exact h
  | flush c =>
      rw [step]
      split
      · next hcall =>
          have hne : call ≠ c := by
            rintro rfl
            rw [answers_of hcall] at h
            exact h
          exact hkeep (flushes_drain_of_ne hne) (work_drain s c)
      · exact h
  | resume c =>
      rw [step]
      split
      · next inFlight hcall =>
          split
          · next hall =>
              by_cases hc : call = c
              · subst hc
                rw [answers_of hcall] at h
                refine answers_drain htracked fun item hitem => .inr ?_
                exact (h item hitem).elim (List.all_eq_true.1 hall item) id
              · exact hkeep (flushes_drain_of_ne hc) (work_drain s c)
          · exact h
      · next inFlight given hcall =>
          split
          · by_cases hc : call = c
            · subst hc
              rw [answers_of hcall] at h
              rw [answers_of ((flushes_setFlush ..).trans (if_pos rfl))]
              exact fun item hitem => htracked.doneWithin (h item hitem).settled
            · exact hkeep ((flushes_setFlush ..).trans (if_neg hc)) rfl
          · exact h
      · exact h
  | queueFlushed c =>
      rw [step]
      split
      · next given hcall =>
          split
          · by_cases hc : call = c
            · subst hc
              rw [answers_of hcall] at h
              rw [answers_of ((flushes_setFlush ..).trans (if_pos rfl))]
              exact h
            · exact hkeep ((flushes_setFlush ..).trans (if_neg hc)) rfl
          · by_cases hc : call = c
            · subst hc
              rw [answers_of hcall] at h
              exact answers_drainAgain h
            · exact hkeep (flushes_drainAgain_of_ne hc) (work_drainAgain s c given)
      · exact h

/-- A call made while no other waits for unfinished work resolves after all the work that was
under way, and after a flush of the queue that was given what was for it. -/
theorem flush_waits (before after : List (WorkStep κ τ)) (call : κ) (given : List τ)
    (hfirst : (run (step owner) initial before).flushes call = .notCalled)
    (halone : ∀ other item, (run (step owner) initial before).Awaits other item →
      ¬(run (step owner) initial before).Running item)
    (hresolved : (run (step owner) initial (before ++ .flush call :: after)).flushes call =
      .resolved given) :
    ∀ item, (run (step owner) initial before).Running item →
      (run (step owner) initial (before ++ .flush call :: after)).DoneWithin given item := by
  have htracked : (run (step owner) initial before).Tracked :=
    run_keeps (fun s action => tracked_step s action) before tracked_initial
  have hcalled : ((run (step owner) initial before).step owner (.flush call)).Answers call
      (run (step owner) initial before).Running := by
    rw [step, if_pos hfirst]
    refine answers_drain htracked fun item hitem => ?_
    rcases htracked.kept item hitem with hmem | ⟨other, hother⟩
    · exact .inl hmem
    · exact absurd hitem (halone other item hother)
  have hrun := @run_keeps _ _ (step owner)
    (fun s => s.Tracked ∧ s.Answers call (run (step owner) initial before).Running)
    (fun s action h => ⟨tracked_step s action h.1, answers_step h.1 h.2⟩) after
    _ ⟨tracked_step _ (.flush call) htracked, hcalled⟩
  rw [run_append, run_cons] at hresolved ⊢
  exact (answers_of hresolved).1 hrun.2

end

/-- One commit falls to the queue while the only flush waits for it. -/
theorem flush_waits_one :
    (run (step .server) initial ([.start 0] ++ .flush () ::
        [.settle 0 true, .remove 0, .resume (), .queueFlushed ()]) :
          PendingWork Unit ℕ).DoneWithin [0] 0 :=
  flush_waits [.start 0] [.settle 0 true, .remove 0, .resume (), .queueFlushed ()] () [0]
    (by decide) (fun _ _ hawaits => nomatch hawaits) (by decide) 0 (by show _ = _; decide)

/-- A second call finds the array emptied by the first and resolves before the commit settles. -/
theorem second_flush_does_not_wait :
    (run (step .server) initial [.start 0, .flush false] : PendingWork Bool ℕ).Running 0 ∧
      (run (step .server) initial [.start 0, .flush false, .flush true, .queueFlushed true] :
        PendingWork Bool ℕ).flushes true = .resolved [] ∧
      (run (step .server) initial [.start 0, .flush false, .flush true, .queueFlushed true] :
        PendingWork Bool ℕ).Running 0 :=
  ⟨by show _ = _; decide, by decide, by show _ = _; decide⟩

end PendingWork

end Atrib.Mcp
