import Atrib.Proofs.WriteLocks

/-!
# Writes to one context are serialised

The calls of a key start one at a time and in the order in which they came, a
lock is not released before the primitive of its holder has settled, and no key
stays locked with nothing going on. All of this holds in every run: only the
first of a queue is called, and whatever else has been called for its key has
left the queue before it.

A call that was cancelled while it was queued should not be called at all.
`routeToolCall` calls the primitive before it looks at the signal, though, so
such a call is called when its turn comes, unless the idempotency store answers
it.
-/

namespace Atrib.Atribd

open Lib

namespace Daemon

variable {κ : Type}

/-- The primitive call has started and has not settled. -/
def Running (s : Daemon κ) (i : ℕ) : Prop := i ∈ s.started ∧ i ∉ s.settledCalls

/-- A microtask of the call is due: its lock is released next, or the wait for it ends. -/
def Due (s : Daemon κ) (call : WriteCall κ) : Prop :=
  call.phase = .settled ∨ (call.phase = .queued ∧ s.resolved call.prior = true)

/-- The call waits for the store or for its primitive. -/
def AtWork (call : WriteCall κ) : Prop := call.phase = .beginning ∨ isRouted call = true

/-- What is asked of every state the daemon can reach. -/
structure Serialised (s : Daemon κ) : Prop where
  exclusive : ∀ {i j ci cj}, s.Running i → s.Running j → s.calls i = some ci →
    s.calls j = some cj → ci.key = cj.key → i = j
  ordered : s.started.Pairwise fun i j => ∀ ci cj, s.calls i = some ci → s.calls j = some cj →
    ci.key = cj.key → i < j
  held : ∀ {i call}, s.calls i = some call → i ∈ s.started → call.phase = .released →
    i ∈ s.settledCalls
  uncalled : ∀ {i call}, s.calls i = some call → call.cancelledQueued = true → i ∉ s.started
  unlocked : ∀ {k e}, s.tails k = some e →
    ∃ i call, s.calls i = some call ∧ call.key = k ∧ (AtWork call ∨ s.Due call)

/-- Only an idempotent call is cancelled while it is queued, and then the store answers it. -/
def CancelledAnswered (s : Daemon κ) : Action κ → Prop
  | .cancel i => ∀ call, s.calls i = some call → call.phase = .queued → call.idempotent = true
  | .begun i .owner => ∀ call, s.calls i = some call → call.cancelledQueued = false
  | _ => True

instance (s : Daemon κ) : DecidablePred s.CancelledAnswered
  | .cancel i => decidable_of_iff
      ((s.calls i).all fun call => !decide (call.phase = .queued) || call.idempotent) (by
        simp [CancelledAnswered, Option.all_eq_true, imp_iff_not_or])
  | .begun i .owner => decidable_of_iff ((s.calls i).all fun call => !call.cancelledQueued) (by
        simp [CancelledAnswered, Option.all_eq_true])
  | .begun _ .answered | .begun _ .rejected | .arrive .. | .resume _ | .primitiveSettles ..
  | .completed _ | .release _ | .timeout _ => isTrue trivial

/-- What the queues and the log of the calls have to do with each other. -/
structure History (s : Daemon κ) (q : κ → List ℕ) : Prop where
  queues : Queues s q
  begun : ∀ {i}, i ∈ s.started → ∃ call, s.calls i = some call ∧ call.phase ≠ .queued ∧
    call.phase ≠ .beginning ∧ (i ∉ s.settledCalls → isRouted call = true)
  ordered : s.started.Pairwise fun i j => ∀ ci cj, s.calls i = some ci → s.calls j = some cj →
    ci.key = cj.key → i < j
  uncalled : ∀ {i call}, s.calls i = some call → call.cancelledQueued = true →
    i ∉ s.started ∧ call.idempotent = true

namespace History

variable {s : Daemon κ} {q : κ → List ℕ}

theorem init : History ({} : Daemon κ) fun _ => [] where
  queues := .init
  begun h := nomatch h
  ordered := .nil
  uncalled h := nomatch h

/-- The order of the calls depends on their keys only. -/
theorem ordered_update (h : History s q) {i : ℕ} {call call' : WriteCall κ}
    (hcall : s.calls i = some call) (hkey : call'.key = call.key) :
    s.started.Pairwise fun a b => ∀ ca cb, Function.update s.calls i (some call') a = some ca →
      Function.update s.calls i (some call') b = some cb → ca.key = cb.key → a < b := by
  have hold : ∀ {j c}, Function.update s.calls i (some call') j = some c →
      ∃ c', s.calls j = some c' ∧ c.key = c'.key := by
    intro j c hj
    by_cases hne : j = i
    · subst hne
      rw [Function.update_self, Option.some.injEq] at hj
      exact ⟨call, hcall, hj ▸ hkey⟩
    · rw [Function.update_of_ne hne] at hj
      exact ⟨c, hj, rfl⟩
  refine h.ordered.imp fun {a b} hab ca cb ha hb heq => ?_
  obtain ⟨ca', ha', hka⟩ := hold ha
  obtain ⟨cb', hb', hkb⟩ := hold hb
  exact hab ca' cb' ha' hb' (hka.symm.trans (heq.trans hkb))

/-- A call moves on without its primitive being called. -/
theorem move (h : History s q) {i : ℕ} {call : WriteCall κ} (hcall : s.calls i = some call)
    (call' : WriteCall κ) (hkey : call'.key = call.key) (hentry : call'.entry = call.entry)
    (hprior : call'.prior = call.prior)
    (hreleased : call'.phase = .released ↔ call.phase = .released)
    (htail : i ∈ (q call.key).tail → call'.phase = .queued) {settledCalls : List ℕ}
    (hsettled : s.settledCalls ⊆ settledCalls)
    (hbegun : i ∈ s.started → call'.phase ≠ .queued ∧ call'.phase ≠ .beginning ∧
      (i ∉ settledCalls → isRouted call' = true))
    (hcancelled : call'.cancelledQueued = true → i ∉ s.started ∧ call'.idempotent = true) :
    History { s.setCall i call' with settledCalls } q where
  queues := h.queues.update hcall call' hkey hentry hprior hreleased htail s.started settledCalls
  begun := by
    intro j hj
    by_cases hne : j = i
    · subst hne
      exact ⟨call', Function.update_self .., hbegun hj⟩
    · obtain ⟨c, hc, hqueued, hbeginning, hrouted⟩ := h.begun hj
      exact ⟨c, (Function.update_of_ne hne ..).trans hc, hqueued, hbeginning,
        fun hnot => hrouted fun hmem => hnot (hsettled hmem)⟩
  ordered := h.ordered_update hcall hkey
  uncalled := by
    intro j c hj
    by_cases hne : j = i
    · subst hne
      obtain rfl := Option.some.inj (hj.symm.trans (Function.update_self ..))
      exact hcancelled
    · exact h.uncalled ((Function.update_of_ne hne ..).symm.trans hj)

/-- The first of a queue calls its primitive. -/
theorem start (h : History s q) {i : ℕ} {call : WriteCall κ} (hcall : s.calls i = some call)
    (hhead : (q call.key).head? = some i) (hphase : call.phase = .queued ∨ call.phase = .beginning)
    (hcancelled : call.cancelledQueued = false) : History (s.routeToolCall i call) q where
  queues := by
    refine h.queues.update hcall { call with
        phase := .running
        abandoned := if call.aborted then some .cancel else none }
      rfl rfl rfl ?_ (fun htail => absurd htail (h.queues.not_mem_tail hhead)) _ _
    rcases hphase with hphase | hphase <;> rw [hphase] <;> exact ⟨nofun, nofun⟩
  begun := by
    intro j hj
    by_cases hne : j = i
    · subst hne
      exact ⟨_, Function.update_self .., nofun, nofun, fun _ => rfl⟩
    · have hj : j ∈ s.started := (List.mem_append.1 hj).resolve_right fun hlast =>
        hne (List.mem_singleton.1 hlast)
      obtain ⟨c, hc, hrest⟩ := h.begun hj
      exact ⟨c, (Function.update_of_ne hne ..).trans hc, hrest⟩
  ordered := by
    refine List.pairwise_append.2 ⟨h.ordered_update hcall rfl, List.pairwise_singleton .., ?_⟩
    intro j hj i' hi' cj ci hcj hci hkey
    obtain rfl := List.mem_singleton.1 hi'
    obtain rfl := Option.some.inj (hci.symm.trans (Function.update_self ..))
    -- what was called before for this key has released, or it would stand first
    obtain ⟨c, hc, hqueued, hbeginning, -⟩ := h.begun hj
    have hne : j ≠ i' := by
      rintro rfl
      rw [hcall, Option.some.injEq] at hc
      subst hc
      exact hphase.elim hqueued hbeginning
    obtain rfl : c = cj :=
      Option.some.inj (hc.symm.trans ((Function.update_of_ne hne ..).symm.trans hcj))
    have hkey : c.key = call.key := hkey
    have hmem : i' ∈ q c.key := hkey ▸ List.mem_of_mem_head? hhead
    by_cases hreleased : c.phase = .released
    · exact h.queues.passed hc hreleased i' hmem
    · have hfirst := h.queues.head_of_not_queued hc hreleased hqueued
      rw [hkey, hhead, Option.some.injEq] at hfirst
      exact absurd hfirst.symm hne
  uncalled := by
    intro j c hj hc
    by_cases hne : j = i
    · subst hne
      obtain rfl := Option.some.inj (hj.symm.trans (Function.update_self ..))
      rw [show ({ call with phase := .running, abandoned := _ } : WriteCall κ).cancelledQueued =
        false from hcancelled] at hc
      cases hc
    · obtain ⟨hnot, hidempotent⟩ := h.uncalled ((Function.update_of_ne hne ..).symm.trans hj) hc
      refine ⟨fun hmem => ?_, hidempotent⟩
      rcases List.mem_append.1 hmem with hmem | hlast
      · exact hnot hmem
      · exact hne (List.mem_singleton.1 hlast)

/-- A change of what the caller sees of a call. -/
theorem observe (h : History s q) {i : ℕ} {call : WriteCall κ} (hcall : s.calls i = some call)
    (call' : WriteCall κ) (hkey : call'.key = call.key) (hentry : call'.entry = call.entry)
    (hprior : call'.prior = call.prior) (hphase : call'.phase = call.phase)
    (hcancelled : call'.cancelledQueued = true → i ∉ s.started ∧ call'.idempotent = true) :
    History (s.setCall i call') q := by
  refine h.move hcall call' hkey hentry hprior (by rw [hphase]) (fun htail => ?_)
    (List.Subset.refl s.settledCalls) (fun hstarted => ?_) hcancelled
  · exact hphase.trans (h.queues.waiting htail hcall)
  · obtain ⟨c, hc, hrest⟩ := h.begun hstarted
    obtain rfl := Option.some.inj (hcall.symm.trans hc)
    rw [isRouted, hphase]
    exact hrest

/-- The holder of a lock goes on to a later phase. -/
theorem advance (h : History s q) {i : ℕ} {call : WriteCall κ} (hcall : s.calls i = some call)
    (hhead : (q call.key).head? = some i) (phase : Phase) (hreleased : phase ≠ .released)
    (hold : call.phase ≠ .released) {settledCalls : List ℕ} (hsettled : s.settledCalls ⊆ settledCalls)
    (hbegun : i ∈ s.started → phase ≠ .queued ∧ phase ≠ .beginning ∧
      (i ∉ settledCalls → isRouted { call with phase } = true)) :
    History { s.setCall i { call with phase } with settledCalls } q :=
  h.move hcall { call with phase } rfl rfl rfl (iff_of_false hreleased hold)
    (fun htail => absurd htail (h.queues.not_mem_tail hhead)) hsettled hbegun
    (by
      intro hcancelled
      have hold := h.uncalled hcall (show call.cancelledQueued = true from hcancelled)
      exact hold)

/-- The caller gets an answer, and nothing else about the call changes. -/
theorem abandon_keeps (call : WriteCall κ) (by' : Abandoned) :
    (abandon call by').key = call.key ∧ (abandon call by').entry = call.entry ∧
    (abandon call by').prior = call.prior ∧ (abandon call by').phase = call.phase ∧
    (abandon call by').idempotent = call.idempotent ∧
    (abandon call by').cancelledQueued = call.cancelledQueued := by
  unfold abandon
  split <;> exact ⟨rfl, rfl, rfl, rfl, rfl, rfl⟩

/-- A call that waits has not been started. -/
theorem not_started (h : History s q) {i : ℕ} {call : WriteCall κ} (hcall : s.calls i = some call)
    (hphase : call.phase = .queued ∨ call.phase = .beginning) : i ∉ s.started := by
  intro hstarted
  obtain ⟨c, hc, hqueued, hbeginning, -⟩ := h.begun hstarted
  obtain rfl := Option.some.inj (hcall.symm.trans hc)
  exact hphase.elim hqueued hbeginning

theorem resume (h : History s q) {i : ℕ} {call : WriteCall κ} (hcall : s.calls i = some call) :
    History (s.resume i call) q := by
  unfold Daemon.resume
  split
  · rename_i hready
    obtain ⟨hqueued, hresolved⟩ := hready
    have hreleased : call.phase ≠ .released := by rw [hqueued]; nofun
    have hhead := h.queues.head_of_resolved hcall hreleased hresolved
    split
    · exact h.advance hcall hhead .beginning nofun hreleased (List.Subset.refl _)
        fun hstarted => absurd hstarted (h.not_started hcall (.inl hqueued))
    · rename_i hidempotent
      refine h.start hcall hhead (.inl hqueued) ?_
      by_contra hc
      exact hidempotent (h.uncalled hcall (eq_true_of_ne_false hc)).2
  · exact h

/-- The primitive of a call settles. -/
theorem settle (h : History s q) {i : ℕ} {call : WriteCall κ} (hcall : s.calls i = some call)
    (hphase : isRouted call = true) : History (s.settle i call) q := by
  have hreleased : call.phase ≠ .released := by
    intro hreleased
    rw [isRouted, hreleased] at hphase
    cases hphase
  have hqueued : call.phase ≠ .queued := by
    intro hqueued
    rw [isRouted, hqueued] at hphase
    cases hphase
  refine h.advance hcall (h.queues.head_of_not_queued hcall hreleased hqueued) .settled nofun
    hreleased (List.subset_append_left _ [i]) fun _ => ⟨nofun, nofun, fun hnot => ?_⟩
  exact absurd (List.mem_append_right _ List.mem_cons_self) hnot

theorem primitiveSettles (h : History s q) {i : ℕ} {call : WriteCall κ}
    (hcall : s.calls i = some call) (succeeded : Bool) :
    History (s.primitiveSettles i succeeded call) q := by
  unfold Daemon.primitiveSettles
  split
  · rename_i hrunning
    have hreleased : call.phase ≠ .released := by rw [hrunning]; nofun
    split
    · refine h.advance hcall ?_ .completing nofun hreleased (List.Subset.refl _)
        fun _ => ⟨nofun, nofun, fun _ => rfl⟩
      exact h.queues.head_of_not_queued hcall hreleased (by rw [hrunning]; nofun)
    · exact h.settle hcall (by rw [isRouted, hrunning]; rfl)
  · exact h

theorem cancel (h : History s q) {i : ℕ} {call : WriteCall κ} (hcall : s.calls i = some call)
    (hok : call.phase = .queued → call.idempotent = true) : History (s.cancel i call) q := by
  obtain ⟨hkey, hentry, hprior, hphase, hidempotent, -⟩ := abandon_keeps call .cancel
  refine h.observe hcall { abandon call .cancel with aborted := true, cancelledQueued := _ }
    hkey hentry hprior hphase fun hcancelled => ?_
  rw [hidempotent]
  rcases Bool.or_eq_true_iff.1 hcancelled with hcancelled | hqueued
  · exact h.uncalled hcall hcancelled
  · have hqueued := of_decide_eq_true hqueued
    exact ⟨h.not_started hcall (.inl hqueued), hok hqueued⟩

theorem timeout (h : History s q) {i : ℕ} {call : WriteCall κ} (hcall : s.calls i = some call) :
    History (s.timeout i call) q := by
  obtain ⟨hkey, hentry, hprior, hphase, hidempotent, hcancelled⟩ := abandon_keeps call .timeout
  refine h.observe hcall _ hkey hentry hprior hphase fun hc => ?_
  rw [hidempotent]
  exact h.uncalled hcall (hcancelled.symm.trans hc)

variable [DecidableEq κ]

theorem arrive (h : History s q) (key : κ) (idempotent : Bool) :
    History (s.arrive key idempotent) (Function.update q key (q key ++ [s.callCount])) where
  queues := h.queues.arrive key idempotent
  begun := by
    intro j hj
    obtain ⟨c, hc, hrest⟩ := h.begun hj
    exact ⟨c, (Function.update_of_ne (h.queues.lt_callCount hc).ne ..).trans hc, hrest⟩
  ordered := by
    refine h.ordered.imp_of_mem fun {a b} ha hb hab ca cb hca hcb => hab ca cb ?_ ?_
    · obtain ⟨c, hc, -⟩ := h.begun ha
      exact (Function.update_of_ne (h.queues.lt_callCount hc).ne ..).symm.trans hca
    · obtain ⟨c, hc, -⟩ := h.begun hb
      exact (Function.update_of_ne (h.queues.lt_callCount hc).ne ..).symm.trans hcb
  uncalled := by
    intro j c hj hc
    by_cases hne : j = s.callCount
    · subst hne
      obtain rfl := Option.some.inj (hj.symm.trans (Function.update_self ..))
      cases hc
    · exact h.uncalled ((Function.update_of_ne hne ..).symm.trans hj) hc

/-- The first of a queue leaves it, its primitive settled or never called. -/
theorem releaseLock (h : History s q) {i : ℕ} {call : WriteCall κ} (hcall : s.calls i = some call)
    (hphase : call.phase = .beginning ∨ call.phase = .settled) :
    History (s.releaseLock i call) (Function.update q call.key (q call.key).tail) where
  queues := by
    refine h.queues.releaseLock hcall (h.queues.head_of_not_queued hcall ?_ ?_)
    all_goals rcases hphase with hphase | hphase <;> rw [hphase] <;> nofun
  begun := by
    intro j hj
    obtain ⟨c, hc, hqueued, hbeginning, hrouted⟩ := h.begun hj
    by_cases hne : j = i
    · subst hne
      obtain rfl := Option.some.inj (hcall.symm.trans hc)
      refine ⟨_, Function.update_self .., nofun, nofun, fun hnot => ?_⟩
      have hsettled := hphase.resolve_left hbeginning
      have hrouted := hrouted hnot
      rw [isRouted, hsettled] at hrouted
      cases hrouted
    · exact ⟨c, (Function.update_of_ne hne ..).trans hc, hqueued, hbeginning, hrouted⟩
  ordered := h.ordered_update hcall rfl
  uncalled := by
    intro j c hj hc
    by_cases hne : j = i
    · subst hne
      obtain rfl := Option.some.inj (hj.symm.trans (Function.update_self ..))
      have hold := h.uncalled hcall (show call.cancelledQueued = true from hc)
      exact hold
    · exact h.uncalled ((Function.update_of_ne hne ..).symm.trans hj) hc

theorem begun_step (h : History s q) {i : ℕ} {call : WriteCall κ} (hcall : s.calls i = some call)
    (outcome : BeginOutcome) (hok : outcome = .owner → call.cancelledQueued = false) :
    ∃ q', History (s.begun i outcome call) q' := by
  unfold Daemon.begun
  split
  · rename_i hbeginning
    have hreleased : call.phase ≠ .released := by rw [hbeginning]; nofun
    have hhead := h.queues.head_of_not_queued hcall hreleased (by rw [hbeginning]; nofun)
    cases outcome with
    | owner => exact ⟨q, h.start hcall hhead (.inr hbeginning) (hok rfl)⟩
    | answered =>
        exact ⟨q, h.advance hcall hhead .settled nofun hreleased (List.Subset.refl _)
          fun hstarted => absurd hstarted (h.not_started hcall (.inr hbeginning))⟩
    | rejected => exact ⟨_, h.releaseLock hcall (.inl hbeginning)⟩
  · exact ⟨q, h⟩

/-- One action keeps the queues and the log in step. -/
theorem step (h : History s q) {a : Action κ} (hok : s.CancelledAnswered a) :
    ∃ q', History (s.step a) q' := by
  have hon : ∀ {i : ℕ} {f : WriteCall κ → Daemon κ},
      (∀ call, s.calls i = some call → ∃ q', History (f call) q') →
      ∃ q', History (s.onCall i f) q' := by
    intro i f hf
    unfold onCall
    cases hcall : s.calls i with
    | none => exact ⟨q, h⟩
    | some call => exact hf call hcall
  cases a with
  | arrive key idempotent => exact ⟨_, h.arrive key idempotent⟩
  | resume i => exact hon fun call hcall => ⟨q, h.resume hcall⟩
  | begun i outcome =>
      refine hon fun call hcall => h.begun_step hcall outcome ?_
      rintro rfl
      exact hok call hcall
  | primitiveSettles i succeeded => exact hon fun call hcall => ⟨q, h.primitiveSettles hcall _⟩
  | completed i =>
      refine hon fun call hcall => ⟨q, ?_⟩
      unfold Daemon.completed
      split
      · rename_i hcompleting
        exact h.settle hcall (by rw [isRouted, hcompleting]; rfl)
      · exact h
  | release i =>
      refine hon fun call hcall => ?_
      unfold Daemon.release
      split
      · rename_i hsettled
        exact ⟨_, h.releaseLock hcall (.inr hsettled)⟩
      · exact ⟨q, h⟩
  | cancel i => exact hon fun call hcall => ⟨q, h.cancel hcall (hok call hcall)⟩
  | timeout i => exact hon fun call hcall => ⟨q, h.timeout hcall⟩

end History

/-- The queues and the log being in step, the writes are serialised. -/
theorem History.serialised {s : Daemon κ} {q : κ → List ℕ} (h : History s q) : Serialised s where
  exclusive := by
    have hfirst : ∀ {i c}, s.Running i → s.calls i = some c → (q c.key).head? = some i := by
      rintro i c ⟨hstarted, hnot⟩ hc
      obtain ⟨call, hcall, hqueued, -, hrouted⟩ := h.begun hstarted
      obtain rfl := Option.some.inj (hcall.symm.trans hc)
      refine h.queues.head_of_not_queued hcall (fun hreleased => ?_) hqueued
      have hrouted := hrouted hnot
      rw [isRouted, hreleased] at hrouted
      cases hrouted
    intro i j ci cj hi hj hci hcj hkey
    have hjFirst := hfirst hj hcj
    rw [← hkey, hfirst hi hci] at hjFirst
    exact Option.some.inj hjFirst
  ordered := h.ordered
  held := by
    intro i call hcall hstarted hreleased
    obtain ⟨c, hc, -, -, hrouted⟩ := h.begun hstarted
    obtain rfl := Option.some.inj (hcall.symm.trans hc)
    by_contra hnot
    have hrouted := hrouted hnot
    rw [isRouted, hreleased] at hrouted
    cases hrouted
  uncalled := fun hcall hc => (h.uncalled hcall hc).1
  unlocked := by
    intro k e he
    -- the first of the queue is the one that goes on
    cases hq : q k with
    | nil =>
        rw [h.queues.idle hq] at he
        cases he
    | cons i rest =>
        have hmem : i ∈ q k := hq ▸ List.mem_cons_self
        obtain ⟨call, hcall, rfl⟩ := h.queues.call hmem
        have hhead : (q call.key).head? = some i := by rw [hq]; rfl
        refine ⟨i, call, hcall, rfl, ?_⟩
        have hreleased := (h.queues.mem hcall).1 hmem
        have hresolved := h.queues.head hhead hcall
        unfold AtWork Due isRouted
        cases hphase : call.phase with
        | queued => exact .inr (.inr ⟨rfl, hresolved⟩)
        | beginning => exact .inl (.inl rfl)
        | running => exact .inl (.inr rfl)
        | completing => exact .inl (.inr rfl)
        | settled => exact .inr (.inl rfl)
        | released => exact absurd hphase hreleased

variable [DecidableEq κ]

/-- The writes are serialised in every run whose queued calls are cancelled only to be answered
by the store. -/
theorem run_serialised {actions : List (Action κ)}
    (hok : Always step CancelledAnswered ({} : Daemon κ) actions) :
    Serialised (run step ({} : Daemon κ) actions) := by
  let inv (s : Daemon κ) : Prop := ∃ q, History s q
  have hstep : ∀ s a, inv s → CancelledAnswered s a → inv (step s a) :=
    fun _ _ ⟨_, h⟩ hok => h.step hok
  have hinit : inv {} := ⟨_, .init⟩
  obtain ⟨q, h⟩ := run_invariant hstep hinit hok
  exact h.serialised

/-- Two calls for one context, the first timed out and cancelled while it runs. -/
def abandonedRun : List (Action String) :=
  [.arrive "context" false, .arrive "context" true, .resume 0, .resume 1, .timeout 0, .cancel 0,
    .primitiveSettles 0 false, .release 0, .resume 1, .begun 1 .owner, .primitiveSettles 1 true]

theorem run_serialised_abandonedRun :
    Always step CancelledAnswered ({} : Daemon String) abandonedRun ∧
    Serialised (run step ({} : Daemon String) abandonedRun) :=
  have hok : Always step CancelledAnswered ({} : Daemon String) abandonedRun := by decide +kernel
  ⟨hok, run_serialised hok⟩

/-- The second call is cancelled while the first runs, and is called all the same. -/
def cancelledRun : List (Action String) :=
  [.arrive "context" false, .arrive "context" false, .resume 0, .cancel 1,
    .primitiveSettles 0 true, .release 0, .resume 1]

theorem not_serialised_cancelledRun : ¬ Serialised (run step ({} : Daemon String) cancelledRun) := by
  intro h
  have hcalled : 1 ∈ (run step ({} : Daemon String) cancelledRun).started := by decide +kernel
  have hcancelled : ∃ call, (run step ({} : Daemon String) cancelledRun).calls 1 = some call ∧
      call.cancelledQueued = true :=
    Option.any_eq_true .. |>.1 (by decide +kernel)
  obtain ⟨call, hcall, hcancelled⟩ := hcancelled
  exact h.uncalled hcall hcancelled hcalled

end Daemon

end Atrib.Atribd
