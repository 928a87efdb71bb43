import Atrib.Proofs.ExecutedOutcomes

/-!
# One permit for one invocation

What holds of an executor and its store after any moves. A stored permit has been
issued, and nothing overwrites it; a consumed one stays consumed. A call spends at
most one permit, of the binding of its own action and request, before it invokes
the upstream, and no two calls have spent the same.

The binding is a digest of the run, the action, the agent, the surface, the tool,
the arguments and the credential. The policy under which the action was allowed is
not in it.
-/

namespace Atrib.ActionGate

open Lib (Async JsValue)
open Lib.Async (Obeys)
open Lib.InsertionMap (get?_set mem_keys_iff_get?)

variable {ρ : Type} (P : Platform ρ) (options : ExecutorOptions)

/-- A ticket that says what a call has done. -/
def Ticket.Fits (ticket : Ticket ρ) (call : Call ρ) : Prop :=
  ticket.spent = call.spent.isSome ∧ ticket.answer.isSome = call.invoked

/-- What is left of a call obeys the protocol. -/
def Obedient (call : Call ρ) (program : Gate ρ Unit) : Prop :=
  ∃ ticket : Ticket ρ, ticket.Fits call ∧
    Obeys (permitProtocol P options.surface call.action call.request) (fun _ _ => True) ticket
      program

/-- The invariant of an executor. -/
structure Sound (s : System ρ) : Prop where
  waits : ∀ call ∈ s.calls, ∀ op k, call.program = .await op k →
    ∀ answer, Obedient P options call (k answer)
  stored : ∀ id stored, s.permits.get? id = some stored →
    stored.1.permit_id = id ∧ stored.1 ∈ s.issued
  used : ∀ c ∈ s.consumed, s.permits.get? c.permit.permit_id = some (c.permit, true)
  unexpired : ∀ c ∈ s.consumed,
    c.permit.issued_at_ms ≤ c.now_ms ∧ c.now_ms ≤ c.permit.expires_at_ms
  once : (s.consumed.map (·.permit.permit_id)).Nodup
  spent : ∀ call ∈ s.calls, ∀ c ∈ call.spent, c ∈ s.consumed ∧
    protectedMcpBinding P options.surface call.action call.request = .ok c.permit.binding
  own : ∀ (i j : ℕ) (call call' : Call ρ), s.calls[i]? = some call → s.calls[j]? = some call' →
    ∀ c ∈ call.spent, ∀ c' ∈ call'.spent, c.permit.permit_id = c'.permit.permit_id → i = j
  invoked : ∀ invocation ∈ s.invocations, ∃ call, s.calls[invocation.call]? = some call ∧
    call.invoked = true ∧ invocation.request = call.request ∧ invocation.spent = call.spent ∧
    call.spent.isSome
  single : (s.invocations.map (·.call)).Nodup

variable {P options}

theorem sound_init : Sound P options {} where
  waits := fun _ h => absurd h List.not_mem_nil
  stored := fun _ _ h => nomatch h
  used := fun _ h => absurd h List.not_mem_nil
  unexpired := fun _ h => absurd h List.not_mem_nil
  once := List.nodup_nil
  spent := fun _ h => absurd h List.not_mem_nil
  own := fun _ _ _ _ h => nomatch h
  invoked := fun _ h => absurd h List.not_mem_nil
  single := List.nodup_nil

/-! ## The store -/

theorem PermitStore.issue_eq_ok {permits permits' : PermitStore} {permit : Permit}
    (h : permits.issue permit = .ok permits') :
    permits.get? permit.permit_id = none ∧
      permits' = permits.set permit.permit_id (permit, false) := by
  unfold PermitStore.issue at h
  split at h
  · cases h
  · next hnew =>
    refine ⟨?_, (Except.ok.inj h).symm⟩
    rw [Lib.InsertionMap.has_eq_true, mem_keys_iff_get?] at hnew
    simpa using hnew

theorem PermitStore.consume_eq_ok {permits permits' : PermitStore} {input : ConsumeInput}
    {permit : Permit} (h : permits.consume input = .ok (permit, permits')) :
    permits.get? input.permit_id = some (permit, false) ∧ permit.binding = input.binding ∧
      permit.issued_at_ms ≤ input.now_ms ∧ input.now_ms ≤ permit.expires_at_ms ∧
      permits' = permits.set input.permit_id (permit, true) := by
  unfold PermitStore.consume at h
  split at h
  · cases h
  next permit consumed hget =>
  split at h
  · cases h
  next hbinding =>
  split at h
  · cases h
  next htime =>
  split at h
  · cases h
  next hconsumed =>
  cases h
  rw [not_or, not_lt, not_lt] at htime
  rw [Bool.not_eq_true] at hconsumed
  exact ⟨hconsumed ▸ hget, not_not.1 hbinding, htime.1, htime.2, rfl⟩

/-- A permit is issued, by a call or by the host. -/
theorem Sound.issue {s : System ρ} (hs : Sound P options s) {permit : Permit}
    {permits : PermitStore} (h : s.permits.issue permit = .ok permits) :
    Sound P options { s with permits, issued := s.issued ++ [permit] } := by
  obtain ⟨hnew, rfl⟩ := PermitStore.issue_eq_ok h
  refine { hs with stored := fun id stored hget => ?_, used := fun c hc => ?_ }
  · change (s.permits.set permit.permit_id (permit, false)).get? id = some stored at hget
    rw [get?_set] at hget
    split at hget
    · next hid =>
      cases hget
      exact ⟨hid.symm, List.mem_append_right _ (List.mem_singleton.2 rfl)⟩
    · obtain ⟨hid, hissued⟩ := hs.stored id stored hget
      exact ⟨hid, List.mem_append_left _ hissued⟩
  · have hget := hs.used c hc
    change (s.permits.set permit.permit_id (permit, false)).get? c.permit.permit_id = _
    rw [get?_set, if_neg ?_, hget]
    intro hid
    rw [hid, hnew] at hget
    cases hget

/-- A permit is consumed, by a call or by the host: none that was consumed before. -/
theorem Sound.consume {s : System ρ} (hs : Sound P options s) {input : ConsumeInput}
    {permit : Permit} {permits : PermitStore}
    (h : s.permits.consume input = .ok (permit, permits)) :
    Sound P options { s with permits, consumed := s.consumed ++ [⟨permit, input.now_ms⟩] } ∧
      ∀ c ∈ s.consumed, c.permit.permit_id ≠ permit.permit_id := by
  obtain ⟨hget, -, hissued, hexpires, rfl⟩ := PermitStore.consume_eq_ok h
  obtain ⟨hid, hmem⟩ := hs.stored _ _ hget
  have hfresh : ∀ c ∈ s.consumed, c.permit.permit_id ≠ permit.permit_id := by
    intro c hc heq
    have hused := hs.used c hc
    rw [heq, hid, hget] at hused
    cases hused
  refine ⟨{ hs with
    stored := fun id stored hstored => ?_, used := fun c hc => ?_, unexpired := fun c hc => ?_,
    once := ?_, spent := fun call hcall c hc => ?_ }, hfresh⟩
  · change (s.permits.set input.permit_id (permit, true)).get? id = some stored at hstored
    rw [get?_set] at hstored
    split at hstored
    · next heq =>
      cases hstored
      exact ⟨hid.trans heq.symm, hmem⟩
    · exact hs.stored id stored hstored
  · change (s.permits.set input.permit_id (permit, true)).get? c.permit.permit_id = _
    rw [get?_set]
    rcases List.mem_append.1 hc with hc | hc
    · rw [if_neg (fun heq => hfresh c hc (heq.trans hid.symm)), hs.used c hc]
    · obtain rfl := List.mem_singleton.1 hc
      rw [if_pos hid]
  · rcases List.mem_append.1 hc with hc | hc
    · exact hs.unexpired c hc
    · obtain rfl := List.mem_singleton.1 hc
      exact ⟨hissued, hexpires⟩
  · change ((s.consumed ++ [(⟨permit, input.now_ms⟩ : Consumption)]).map _).Nodup
    rw [List.map_append, List.nodup_append]
    refine ⟨hs.once, List.nodup_singleton _, ?_⟩
    rintro _ hold _ hnew rfl
    obtain ⟨c, hc, heq⟩ := List.mem_map.1 hold
    exact hfresh c hc (heq.trans (List.mem_singleton.1 hnew))
  · obtain ⟨hconsumed, hbinding⟩ := hs.spent call hcall c hc
    exact ⟨List.mem_append_left _ hconsumed, hbinding⟩

/-! ## The calls -/

/-- Call `i` is another now. -/
theorem Sound.setCall {s : System ρ} (hs : Sound P options s) {i : ℕ} {old call : Call ρ}
    (hold : s.calls[i]? = some old)
    (hwaits : ∀ op k, call.program = .await op k → ∀ answer, Obedient P options call (k answer))
    (hspent : ∀ c ∈ call.spent, c ∈ s.consumed ∧
      protectedMcpBinding P options.surface call.action call.request = .ok c.permit.binding)
    (hown : ∀ c ∈ call.spent, ∀ (j : ℕ) (other : Call ρ), s.calls[j]? = some other → j ≠ i →
      ∀ c' ∈ other.spent, c.permit.permit_id ≠ c'.permit.permit_id)
    (hinvoked : ∀ invocation ∈ s.invocations, invocation.call = i → call.invoked = true ∧
      invocation.request = call.request ∧ invocation.spent = call.spent ∧ call.spent.isSome) :
    Sound P options { s with calls := s.calls.set i call } := by
  have hlength : i < s.calls.length := (List.getElem?_eq_some_iff.1 hold).1
  have hat : ∀ {j : ℕ} {other : Call ρ}, (s.calls.set i call)[j]? = some other →
      (j = i ∧ other = call) ∨ (j ≠ i ∧ s.calls[j]? = some other) := by
    intro j other h
    rw [List.getElem?_set] at h
    split at h
    · next heq =>
      exact .inl ⟨heq.symm, (Option.some.inj h).symm⟩
    · next hne => exact .inr ⟨Ne.symm hne, h⟩
  refine { hs with
    waits := fun other hother => ?_, spent := fun other hother => ?_,
    own := fun j j' other other' hj hj' c hc c' hc' heq => ?_,
    invoked := fun invocation hinvocation => ?_ }
  · rcases List.mem_or_eq_of_mem_set hother with hother | rfl
    · exact hs.waits other hother
    · exact hwaits
  · rcases List.mem_or_eq_of_mem_set hother with hother | rfl
    · exact hs.spent other hother
    · exact hspent
  · rcases hat hj with ⟨rfl, rfl⟩ | ⟨hne, hother⟩ <;>
      rcases hat hj' with ⟨rfl, rfl⟩ | ⟨hne', hother'⟩
    · rfl
    · exact absurd heq (hown c hc j' other' hother' hne' c' hc')
    · exact absurd heq.symm (hown c' hc' j other hother hne c hc)
    · exact hs.own j j' other other' hother hother' c hc c' hc' heq
  · by_cases hi : invocation.call = i
    · refine ⟨call, ?_, hinvoked invocation hinvocation hi⟩
      change (s.calls.set i call)[invocation.call]? = _
      rw [hi, List.getElem?_set_self hlength]
    · obtain ⟨other, hother, h⟩ := hs.invoked invocation hinvocation
      refine ⟨other, ?_, h⟩
      change (s.calls.set i call)[invocation.call]? = _
      rw [List.getElem?_set_ne (Ne.symm hi), hother]

/-- Nothing but the program has changed, and what the program waits for. -/
theorem Sound.setProgram {s : System ρ} (hs : Sound P options s) {i : ℕ} {old call : Call ρ}
    (hold : s.calls[i]? = some old) (haction : call.action = old.action)
    (hrequest : call.request = old.request) (hspent : call.spent = old.spent)
    (hinvoked : call.invoked = old.invoked)
    (hwaits : ∀ op k, call.program = .await op k → ∀ answer, Obedient P options call (k answer)) :
    Sound P options { s with calls := s.calls.set i call } := by
  refine hs.setCall hold hwaits ?_ ?_ ?_
  · rw [hspent, haction, hrequest]
    exact hs.spent old (List.mem_of_getElem? hold)
  · intro c hc j other hj hne c' hc' heq
    exact hne (hs.own i j old other hold hj c (hspent ▸ hc) c' hc' heq).symm
  · intro invocation hinvocation hi
    obtain ⟨other, hother, h⟩ := hs.invoked invocation hinvocation
    rw [hi, hold] at hother
    cases hother
    rw [hinvoked, hrequest, hspent]
    exact h

/-! ## The moves -/

/-- A call that has spent nothing spends the permit that the store has just consumed. -/
theorem Sound.spend {s : System ρ} (hs : Sound P options s) {i : ℕ} {old call : Call ρ}
    (hold : s.calls[i]? = some old) (hnone : old.spent = none) {input : ConsumeInput}
    {permit : Permit} {permits : PermitStore}
    (hconsume : s.permits.consume input = .ok (permit, permits))
    (hspent : call.spent = some ⟨permit, input.now_ms⟩)
    (hbinding : protectedMcpBinding P options.surface call.action call.request =
      .ok permit.binding)
    (hwaits : ∀ op k, call.program = .await op k → ∀ answer, Obedient P options call (k answer)) :
    Sound P options { s with
      permits
      consumed := s.consumed ++ [⟨permit, input.now_ms⟩]
      calls := s.calls.set i call } := by
  obtain ⟨hsound, hfresh⟩ := hs.consume hconsume
  refine hsound.setCall hold hwaits ?_ ?_ ?_
  · rw [hspent]
    rintro c ⟨⟩
    exact ⟨List.mem_append_right _ (List.mem_singleton.2 rfl), hbinding⟩
  · -- The permit is of no earlier consumption, so no other call has spent it.
    rw [hspent]
    rintro c ⟨⟩ j other hother hne c' hc' heq
    exact hfresh c' (hs.spent other (List.mem_of_getElem? hother) c' hc').1 heq.symm
  · intro invocation hinvocation hi
    obtain ⟨other, hother, -, -, -, hsome⟩ := hs.invoked invocation hinvocation
    rw [hi, hold] at hother
    cases hother
    rw [hnone] at hsome
    cases hsome

/-- A call that has spent a permit and invoked nothing invokes the upstream. -/
theorem Sound.invoke {s : System ρ} (hs : Sound P options s) {i : ℕ} {old call : Call ρ}
    (hold : s.calls[i]? = some old) (hfirst : old.invoked = false)
    (haction : call.action = old.action) (hrequest : call.request = old.request)
    (hspent : call.spent = old.spent) (hinvoked : call.invoked = true)
    (hsome : call.spent.isSome)
    (hwaits : ∀ op k, call.program = .await op k → ∀ answer, Obedient P options call (k answer)) :
    Sound P options { s with
      invocations := s.invocations ++ [⟨i, call.request, call.spent⟩]
      calls := s.calls.set i call } := by
  have hnew : ∀ invocation ∈ s.invocations, invocation.call ≠ i := by
    intro invocation hinvocation hi
    obtain ⟨other, hother, htrue, -⟩ := hs.invoked invocation hinvocation
    rw [hi, hold] at hother
    cases hother
    rw [hfirst] at htrue
    cases htrue
  have hset := hs.setCall hold hwaits
    (by
      rw [hspent, haction, hrequest]
      exact hs.spent old (List.mem_of_getElem? hold))
    (fun c hc j other hj hne c' hc' heq =>
      hne (hs.own i j old other hold hj c (hspent ▸ hc) c' hc' heq).symm)
    (fun invocation hinvocation hi => absurd hi (hnew invocation hinvocation))
  refine { hset with invoked := fun invocation hinvocation => ?_, single := ?_ }
  · rcases List.mem_append.1 hinvocation with hinvocation | hinvocation
    · exact hset.invoked invocation hinvocation
    · obtain rfl := List.mem_singleton.1 hinvocation
      refine ⟨call, ?_, hinvoked, rfl, rfl, hsome⟩
      exact List.getElem?_set_self (List.getElem?_eq_some_iff.1 hold).1
  · change ((s.invocations ++ [(⟨i, call.request, call.spent⟩ : Invocation)]).map _).Nodup
    rw [List.map_append, List.nodup_append]
    refine ⟨hs.single, List.nodup_singleton _, ?_⟩
    rintro _ hearlier _ hlater rfl
    obtain ⟨invocation, hinvocation, hi⟩ := List.mem_map.1 hearlier
    exact hnew invocation hinvocation (hi.trans (List.mem_singleton.1 hlater))

/-- A call that comes to its next request leaves the executor sound. -/
theorem Sound.goOn {s : System ρ} (hs : Sound P options s) {i : ℕ} {old call : Call ρ}
    (hold : s.calls[i]? = some old) (haction : call.action = old.action)
    (hrequest : call.request = old.request) (hspent : call.spent = old.spent)
    (hinvoked : call.invoked = old.invoked) (hobedient : Obedient P options call call.program) :
    Sound P options (s.goOn i call) := by
  obtain ⟨ticket, ⟨hticket, hanswer⟩, hobeys⟩ := hobedient
  simp only [System.goOn, System.enter]
  split
  · next permit k hprogram =>
    rw [hprogram] at hobeys
    have hrest : ∀ answer, Obedient P options call (k answer) := fun answer =>
      ⟨ticket, ⟨hticket, hanswer⟩, hobeys.2 answer trivial⟩
    split
    · next permits hissue =>
      refine (hs.issue hissue).setProgram hold haction hrequest hspent hinvoked ?_
      rintro op k' ⟨⟩ answer
      exact hrest (.ok ())
    · next error hissue =>
      refine hs.setProgram hold haction hrequest hspent hinvoked ?_
      rintro op k' ⟨⟩ answer
      exact hrest (.error error)
  · next input k hprogram =>
    rw [hprogram] at hobeys
    obtain ⟨⟨hunspent, hbinding⟩, hobeys⟩ := hobeys
    split
    · next permit permits hconsume =>
      obtain ⟨-, hpermit, -⟩ := PermitStore.consume_eq_ok hconsume
      have hnone : old.spent = none := by
        rw [hticket, hspent] at hunspent
        exact Option.isNone_iff_eq_none.1 (Option.isSome_eq_false_iff.1 hunspent)
      refine hs.spend hold hnone hconsume rfl (hpermit ▸ hbinding) ?_
      rintro op k' ⟨⟩ answer
      exact ⟨{ ticket with spent := true }, ⟨rfl, hanswer⟩, hobeys (.ok none) trivial⟩
    · next reason hconsume =>
      refine hs.setProgram hold haction hrequest hspent hinvoked ?_
      rintro op k' ⟨⟩ answer
      exact ⟨ticket, ⟨hticket, hanswer⟩, hobeys (.ok (some reason)) trivial⟩
  · next request k hprogram =>
    rw [hprogram] at hobeys
    obtain ⟨⟨hown, hspend, hunasked⟩, hobeys⟩ := hobeys
    obtain rfl : request = call.request := hown
    have hfirst : old.invoked = false := by
      rw [← hinvoked, ← hanswer, hunasked]
      rfl
    refine @Sound.invoke _ _ _ _ hs _ _ { call with invoked := true } hold hfirst haction hrequest
      hspent rfl (hticket ▸ hspend) ?_
    intro op k' hk answer
    rw [hprogram] at hk
    cases hk
    exact ⟨{ ticket with answer := some answer }, ⟨hticket, rfl⟩, hobeys answer trivial⟩
  · next hissue hconsume hupstream =>
    refine hs.setProgram hold haction hrequest hspent hinvoked ?_
    intro op k hprogram answer
    rw [hprogram] at hobeys
    have hnext : (permitProtocol P options.surface call.action call.request).next ticket op answer =
        ticket := by
      cases op with
      | issue permit => exact absurd hprogram (hissue permit k)
      | consume input => exact absurd hprogram (hconsume input k)
      | executeUpstream request => exact absurd hprogram (hupstream request k)
      | _ => rfl
    exact ⟨ticket, ⟨hticket, hanswer⟩, hnext ▸ hobeys.2 answer trivial⟩

/-- A call that begins has done nothing. -/
theorem obedient_programOf (action : ActionContext) (request : ToolCall) (entry : Entry)
    {call : Call ρ} (haction : call.action = action) (hrequest : call.request = request)
    (hspent : call.spent = none) (hinvoked : call.invoked = false) :
    Obedient P options call (programOf P options action request entry) := by
  refine ⟨{}, ⟨by rw [hspent]; rfl, by rw [hinvoked]; rfl⟩, ?_⟩
  rw [haction, hrequest]
  cases entry with
  | authorizeAndExecute =>
      exact Obeys.bind (fun _ _ _ => Obeys.pure trivial) (fun _ _ _ => trivial)
        obeys_authorizeAndExecute
  | dispatch permitId =>
      exact Obeys.bind (fun _ _ _ => Obeys.pure trivial) (fun _ _ _ => trivial)
        (obeys_dispatch permitId)

theorem Sound.start {s : System ρ} (hs : Sound P options s) (action : ActionContext)
    (request : ToolCall) (entry : Entry) :
    Sound P options { s with calls := s.calls ++
      [{ action, request, program := settled (programOf P options action request entry) }] } := by
  have hat : ∀ {new : Call ρ} {j : ℕ} {other : Call ρ}, (s.calls ++ [new])[j]? = some other →
      s.calls[j]? = some other ∨ other = new := by
    intro new j other h
    rw [List.getElem?_append] at h
    split at h
    · exact .inl h
    · exact .inr (List.mem_singleton.1 (List.mem_of_getElem? h))
  refine { hs with
    waits := fun other hother => ?_, spent := fun other hother => ?_,
    own := fun i j other other' hi hj c hc c' hc' heq => ?_,
    invoked := fun invocation hinvocation => ?_ }
  · rcases List.mem_append.1 hother with hother | hother
    · exact hs.waits other hother
    · obtain rfl := List.mem_singleton.1 hother
      rintro op k ⟨⟩ answer
      exact obedient_programOf action request entry rfl rfl rfl rfl
  · rcases List.mem_append.1 hother with hother | hother
    · exact hs.spent other hother
    · obtain rfl := List.mem_singleton.1 hother
      exact fun c hc => nomatch hc
  · rcases hat hi with hother | rfl
    · rcases hat hj with hother' | rfl
      · exact hs.own i j other other' hother hother' c hc c' hc' heq
      · cases hc'
    · cases hc
  · obtain ⟨other, hother, h⟩ := hs.invoked invocation hinvocation
    refine ⟨other, ?_, h⟩
    exact (List.getElem?_append_left (List.getElem?_eq_some_iff.1 hother).1).trans hother

theorem Sound.step {s s' : System ρ} (hs : Sound P options s) (hstep : Step P options s s') :
    Sound P options s' := by
  cases hstep with
  | start action request entry => exact hs.start action request entry
  | @resume i call op k hcall hprogram answer =>
      have hrest := hs.waits call (List.mem_of_getElem? hcall) op k hprogram answer
      have hsame : (call.answered op answer).action = call.action ∧
          (call.answered op answer).request = call.request ∧
          (call.answered op answer).spent = call.spent ∧
          (call.answered op answer).invoked = call.invoked := by
        unfold Call.answered
        split <;> exact ⟨rfl, rfl, rfl, rfl⟩
      obtain ⟨haction, hrequest, hspent, hinvoked⟩ := hsame
      refine hs.goOn hcall haction hrequest hspent hinvoked ?_
      unfold Obedient Ticket.Fits at hrest ⊢
      rw [← haction, ← hrequest, ← hspent, ← hinvoked] at hrest
      exact hrest
  | issue hissue => exact hs.issue hissue
  | consume hconsume => exact (hs.consume hconsume).1

theorem Sound.steps {s s' : System ρ} (hs : Sound P options s) (hsteps : Steps P options s s') :
    Sound P options s' := by
  induction hsteps with
  | refl => exact hs
  | tail _ hstep ih => exact ih.step hstep

/-- Every invocation of the upstream has a consumption of its own, of a permit that had been
issued, had not expired and is bound to the action and the request; and no permit is consumed
twice. -/
theorem permits_single_use {s : System ρ} (hsteps : Steps P options {} s) :
    (∀ invocation ∈ s.invocations, ∃ call c, s.calls[invocation.call]? = some call ∧
      invocation.request = call.request ∧ invocation.spent = some c ∧ c ∈ s.consumed ∧
      c.permit ∈ s.issued ∧ c.permit.issued_at_ms ≤ c.now_ms ∧
      c.now_ms ≤ c.permit.expires_at_ms ∧
      protectedMcpBinding P options.surface call.action call.request = .ok c.permit.binding) ∧
    (s.invocations.map fun invocation => invocation.spent.map (·.permit.permit_id)).Nodup ∧
    (s.consumed.map (·.permit.permit_id)).Nodup := by
  have hs := sound_init.steps hsteps
  refine ⟨fun invocation hinvocation => ?_, ?_, hs.once⟩
  · obtain ⟨call, hcall, -, hrequest, hspent, hsome⟩ := hs.invoked invocation hinvocation
    obtain ⟨c, hc⟩ := Option.isSome_iff_exists.1 hsome
    obtain ⟨hconsumed, hbinding⟩ := hs.spent call (List.mem_of_getElem? hcall) c hc
    exact ⟨call, c, hcall, hrequest, hspent.trans hc, hconsumed,
      (hs.stored _ _ (hs.used c hconsumed)).2, (hs.unexpired c hconsumed).1,
      (hs.unexpired c hconsumed).2, hbinding⟩
  · refine List.Nodup.map_on ?_ hs.single.of_map
    intro a ha b hb heq
    obtain ⟨call, hcall, -, -, hspent, hsome⟩ := hs.invoked a ha
    obtain ⟨call', hcall', -, -, hspent', -⟩ := hs.invoked b hb
    obtain ⟨c, hc⟩ := Option.isSome_iff_exists.1 hsome
    rw [hspent, hspent', hc] at heq
    obtain ⟨c', hc', hid⟩ := Option.map_eq_some_iff.1 heq.symm
    have hsame := hs.own _ _ call call' hcall hcall' c hc c' hc' hid.symm
    exact List.inj_on_of_nodup_map hs.single ha hb hsame

namespace GateSample

/-- What a dispatch with a permit waits for. -/
theorem exists_dispatch {binding : String}
    (hbinding : protectedMcpBinding platform executor.surface context request = .ok binding) :
    ∃ k k' k'', programOf platform executor context request (.dispatch (some "permit-1")) =
        .await .now k ∧
      k (.ok 0) = .await (.consume ⟨"permit-1", binding, 0⟩) k' ∧
      k' (.ok none) = .await (.executeUpstream request) k'' := by
  have hpermit : (some "permit-1").filter (· ≠ "") = some "permit-1" := by simp
  simp only [programOf, dispatch, hpermit, hbinding]
  exact ⟨_, _, _, rfl, rfl, rfl⟩

theorem step_resume {s s' : System JsValue} {i : ℕ} {call : Call JsValue} {op : Op}
    {k : Except Thrown (Ans JsValue op) → Gate JsValue Unit} (hcall : s.calls[i]? = some call)
    (hprogram : call.program = .await op k) (answer : Except Thrown (Ans JsValue op))
    (h : s.goOn i { call.answered op answer with program := k answer } = s') :
    Step platform executor s s' := h ▸ .resume s hcall hprogram answer

/-- The host issues a permit, and one call dispatches with it. -/
theorem permits_single_use_one :
    ∃ (s : System JsValue) (c : Consumption), Steps platform executor {} s ∧
      s.invocations = [⟨0, request, some c⟩] ∧ c.permit ∈ s.issued ∧ c ∈ s.consumed := by
  obtain ⟨binding, hbinding⟩ := exists_binding
  obtain ⟨k, k', k'', hprogram, hnow, hconsume⟩ := exists_dispatch hbinding
  let permit : Permit := ⟨"permit-1", binding, 0, 30000⟩
  let permits : PermitStore := Lib.InsertionMap.empty.set "permit-1" (permit, false)
  let call : Call JsValue := { action := context, request, program := settled (.await .now k) }
  let spender := { call with program := settled (k' (.ok none)), spent := some ⟨permit, 0⟩ }
  let s : System JsValue := { permits, issued := [permit] }
  let s' := { s with
    permits := permits.set "permit-1" (permit, true)
    consumed := [⟨permit, 0⟩]
    calls := [spender] }
  have hissue : Step platform executor {} s := .issue {} rfl
  have hstart : Step platform executor s { s with calls := [call] } := by
    have h : Step platform executor s _ :=
      .start s context request (.dispatch (some "permit-1"))
    rw [hprogram] at h
    exact h
  have hpaused : Step platform executor { s with calls := [call] }
      { s with calls := [{ call with program := .await .now k }] } :=
    step_resume List.getElem?_cons_zero rfl (.ok ()) rfl
  have hspends : Step platform executor
      { s with calls := [{ call with program := .await .now k }] } s' := by
    have hspent : s.permits.consume ⟨"permit-1", binding, 0⟩ = .ok (permit, s'.permits) := by
      have hget : s.permits.get? "permit-1" = some (permit, false) := rfl
      simp [PermitStore.consume, hget, permit, s', s]
    refine step_resume List.getElem?_cons_zero rfl (.ok 0) ?_
    simp only [hnow, System.goOn, System.enter, Call.answered, hspent]
    rfl
  have hinvokes : Step platform executor s' { s' with
      calls := [{ spender with program := .await (.executeUpstream request) k'', invoked := true }],
      invocations := [⟨0, request, some ⟨permit, 0⟩⟩] } :=
    step_resume List.getElem?_cons_zero rfl (.ok ()) (by rw [hconsume]; rfl)
  have hsteps := ((((Relation.ReflTransGen.single hissue).tail hstart).tail hpaused).tail
    hspends).tail hinvokes
  obtain ⟨hinvocations, -⟩ := permits_single_use hsteps
  obtain ⟨_, c, -, -, hspent, hconsumed, hissued, -⟩ := hinvocations _ List.mem_cons_self
  exact ⟨_, c, hsteps, by rw [← hspent], hissued, hconsumed⟩

end GateSample

end Atrib.ActionGate
