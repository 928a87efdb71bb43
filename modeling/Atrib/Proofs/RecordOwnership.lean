import Atrib.Lib.Run
import Atrib.Mcp.LocalSubstrate
import Atrib.Verify.Delegation

/-!
# Who has a committed record

The submission queue of the process is given a committed record once, or not at
all, and it is not given the record only where a coordinator has said in time
that it has taken the same record. `CoordinatorTakes` is that condition; nothing
the hooks do has a part in it, for whatever they throw is caught before the
record is handed over.

On the other side `CallOwned` says what the coordinator has done for a call that
it has answered. It is an invariant of the coordinator's runs, together with the
fact that nothing is handed over for a call before its answer.
-/

namespace Atrib.LocalSubstrate

open Lib (Effect JsNumber JsValue run run_keeps)
open Verify (base64urlDecode)

@[simp] theorem strictEq_string_iff {value : JsValue} {text : String} :
    value.strictEq (.string text) = true ↔ value = .string text := by
  cases value <;> simp [JsValue.strictEq]

/-! ## What leaves the queue alone -/

section

variable {ω : Type} {α β : Type}

/-- However the computation ends, the queue is what it was. -/
def KeepsQueue (c : Effect (Middleware ω) α) : Prop := ∀ s, (c s).2.queue = s.queue

namespace KeepsQueue

theorem pure (a : α) : KeepsQueue (Pure.pure a : Effect (Middleware ω) α) := fun _ => rfl

theorem bind {c : Effect (Middleware ω) α} {f : α → Effect (Middleware ω) β} (hc : KeepsQueue c)
    (hf : ∀ a, KeepsQueue (f a)) : KeepsQueue (c >>= f) := by
  intro s
  have hkept := hc s
  rcases Effect.cases_on c s with ⟨a, s', hok⟩ | ⟨e, s', herror⟩
  · rw [Effect.bind_of_ok hok, hf a s']
    rwa [hok] at hkept
  · rw [Effect.bind_of_error herror]
    rwa [herror] at hkept

theorem catching {c : Effect (Middleware ω) α} {handler : String → Effect (Middleware ω) α}
    (hc : KeepsQueue c) (hhandler : ∀ e, KeepsQueue (handler e)) :
    KeepsQueue (c.catching handler) := by
  intro s
  have hkept := hc s
  rcases Effect.cases_on c s with ⟨a, s', hok⟩ | ⟨e, s', herror⟩
  · rw [Effect.catching_of_ok hok]
    rwa [hok] at hkept
  · rw [Effect.catching_of_error herror, hhandler e s']
    rwa [herror] at hkept

theorem outside (c : Effect ω α) : KeepsQueue (outside c) := fun _ => rfl

theorem consoleWarn (message : String) : KeepsQueue (consoleWarn (ω := ω) message) := fun _ => rfl

end KeepsQueue

theorem yields_consoleWarn (message : String) :
    Effect.Yields (consoleWarn (ω := ω) message) fun _ => True := Effect.Yields.modify _

/-! ## The hooks -/

variable (commit : LocalSubstrateCommitOptions ω)

theorem keepsQueue_notify (message : String) (detail : JsValue) :
    KeepsQueue (notifyLocalSubstrateCommitWarning commit message detail) := by
  unfold notifyLocalSubstrateCommitWarning
  split
  · exact (KeepsQueue.outside _).catching fun _ => KeepsQueue.consoleWarn _
  · exact KeepsQueue.consoleWarn _

theorem yields_notify (message : String) (detail : JsValue) :
    Effect.Yields (notifyLocalSubstrateCommitWarning commit message detail) fun _ => True := by
  unfold notifyLocalSubstrateCommitWarning
  split
  · exact Effect.Yields.caught fun _ => yields_consoleWarn _
  · exact yields_consoleWarn _

theorem keepsQueue_notifyAttempt (attempt : LocalSubstrateCommitAttempt) :
    KeepsQueue (notifyAttempt commit attempt) := by
  unfold notifyAttempt
  split
  · exact KeepsQueue.pure ()
  · refine KeepsQueue.catching (KeepsQueue.bind (KeepsQueue.outside _) fun observed => ?_)
      fun _ => keepsQueue_notify commit _ _
    cases observed with
    | done => exact KeepsQueue.pure ()
    | rejected error => exact keepsQueue_notify commit _ _

theorem yields_notifyAttempt (attempt : LocalSubstrateCommitAttempt) :
    Effect.Yields (notifyAttempt commit attempt) fun _ => True := by
  unfold notifyAttempt
  split
  · exact Effect.Yields.pure trivial
  · exact Effect.Yields.caught fun _ => yields_notify commit _ _

theorem keepsQueue_mirrorRecord (options : MiddlewareOptions ω) (built : BuiltRecord)
    (sidecar : Option JsValue) : KeepsQueue (mirrorRecord options built sidecar) := by
  unfold mirrorRecord
  refine KeepsQueue.bind (fun s => ?_) fun _ => ?_
  · rw [Effect.modify_apply]
    split
    · rfl
    · rfl
  · split
    · exact KeepsQueue.pure ()
    · refine KeepsQueue.catching (KeepsQueue.bind (KeepsQueue.outside _) fun observed => ?_)
        fun _ => KeepsQueue.consoleWarn _
      cases observed with
      | done => exact KeepsQueue.pure ()
      | rejected error => exact KeepsQueue.consoleWarn _

theorem yields_mirrorRecord (options : MiddlewareOptions ω) (built : BuiltRecord)
    (sidecar : Option JsValue) :
    Effect.Yields (mirrorRecord options built sidecar) fun _ => True := by
  unfold mirrorRecord
  refine (Effect.Yields.modify _).seq ?_
  split
  · exact Effect.Yields.pure trivial
  · exact Effect.Yields.caught fun _ => yields_consoleWarn _

/-! ## The result of an attempt -/

/-- A computation that returns and has done nothing to the queue. -/
theorem exists_kept {c : Effect (Middleware ω) Unit} (hkeeps : KeepsQueue c)
    (hyields : Effect.Yields c fun _ => True) (s : Middleware ω) :
    ∃ s', c s = (.ok (), s') ∧ s'.queue = s.queue := by
  obtain ⟨a, s', hok, -⟩ := hyields s
  have hkept := hkeeps s
  rw [hok] at hkept
  exact ⟨s', hok, hkept⟩

/-- The result says that the coordinator has the record. -/
def Accepts (built : BuiltRecord) (result : TryLocalSubstrateCoordinatorResult) : Prop :=
  ∃ response elapsed, result = .accepted response elapsed ∧
    response.member "record_hash" = .string (expectedRecordHash built)

theorem takeResult_accepts {built : BuiltRecord} {result : TryLocalSubstrateCoordinatorResult}
    (submission : Submission) (h : Accepts built result) (s : Middleware ω) :
    ∃ s', takeResult commit built submission result s = (.ok (), s') ∧ s'.queue = s.queue := by
  obtain ⟨response, elapsed, rfl, hhash⟩ := h
  obtain ⟨s', hok, hkept⟩ :=
    exists_kept (keepsQueue_notifyAttempt commit _) (yields_notifyAttempt commit _) s
  refine ⟨s', ?_, hkept⟩
  rw [takeResult, Effect.bind_of_ok hok]
  simp [responseRecordHash, hhash, Pure.pure]

theorem takeResult_submits {built : BuiltRecord} {result : TryLocalSubstrateCoordinatorResult}
    (submission : Submission) (h : ¬Accepts built result) (s : Middleware ω) :
    ∃ s', takeResult commit built submission result s = (.ok (), s') ∧
      s'.queue = s.queue ++ [submission] := by
  obtain ⟨s₁, hok, hkept⟩ :=
    exists_kept (keepsQueue_notifyAttempt commit _) (yields_notifyAttempt commit _) s
  rw [takeResult, Effect.bind_of_ok hok]
  cases result with
  | accepted response elapsed =>
      have hmatches : ¬(responseRecordHash (.accepted response elapsed)).strictEq
          (.string (expectedRecordHash built)) = true := by
        rw [strictEq_string_iff]
        exact fun hhash => h ⟨response, elapsed, rfl, hhash⟩
      obtain ⟨s₂, hok₂, hkept₂⟩ :=
        exists_kept (keepsQueue_notify commit _ _) (yields_notify commit _ _) s₁
      refine ⟨{ s₂ with queue := s₂.queue ++ [submission] }, ?_, by rw [hkept₂, hkept]⟩
      simp only
      rw [if_neg hmatches]
      exact Effect.bind_of_ok hok₂
  | _ => exact ⟨{ s₁ with queue := s₁.queue ++ [submission] }, rfl, by rw [hkept]⟩

/-! ## The attempt -/

variable (P : Platform)

def timeoutOf (options : TryLocalSubstrateCoordinatorOptions ω) : JsNumber :=
  JsNumber.max (.finite 1) (options.timeoutMs.getD LOCAL_SUBSTRATE_DEFAULT_TIMEOUT_MS)

/-- The coordinator, asked in this world, returns in time a valid response that accepts. -/
def AcceptsInTime (request : JsValue) (options : TryLocalSubstrateCoordinatorOptions ω) (w : ω)
    (response : JsValue) : Prop :=
  validateLocalSubstrateRequest P request options.toValidateLocalSubstrateRequestOptions =
      .ok [] ∧
    (options.transport request (timeoutOf options) w).1 = .ok (.inTime (.value response)) ∧
    validateLocalSubstrateResponse response (some request) = [] ∧
    response.member "status" = .string "accepted"

theorem judgeResponse_accepted {request response response' : JsValue} {elapsed elapsed' : JsNumber} :
    judgeResponse request response elapsed = .accepted response' elapsed' ↔
      validateLocalSubstrateResponse response (some request) = [] ∧
        response.member "status" = .string "accepted" ∧ response = response' ∧
        elapsed = elapsed' := by
  rw [judgeResponse]
  split
  · simp [*]
  · split <;> simp_all

/-- What is left of an answer when the timer has been waited for. -/
def raced (timeoutMs : JsNumber) : Except String Answer → Except String RawResponse
  | .ok (.inTime response) => .ok response
  | .ok .late =>
      .error ("local substrate coordinator timed out after " ++ P.numberText timeoutMs ++ "ms")
  | .error e => .error e

theorem callWithTimeout_caught (transport : LocalSubstrateCoordinatorTransport ω)
    (request : JsValue) (timeoutMs : JsNumber) (w : ω) :
    (Except.ok <$> callWithTimeout P transport request timeoutMs).catching
        (fun error => pure (Except.error error)) w =
      (.ok (raced P timeoutMs (transport request timeoutMs w).1),
        (transport request timeoutMs w).2) := by
  rw [map_eq_pure_bind, callWithTimeout, bind_assoc]
  rcases Effect.cases_on (transport request timeoutMs) w with ⟨answer, w', hok⟩ | ⟨e, w', herror⟩
  · rw [hok, Effect.catching, Effect.bind_of_ok hok]
    cases answer with
    | inTime response => rfl
    | late => rfl
  · rw [herror, Effect.catching_of_error (Effect.bind_of_error herror)]
    rfl

theorem elapsedMs_apply (startedAt : JsNumber) (now : ω → JsNumber) (w : ω) :
    elapsedMs startedAt now w = (.ok (JsNumber.max (.finite 0) ((now w).sub startedAt)), w) := rfl

theorem tryLocalSubstrateCoordinator_accepted {request response : JsValue}
    {options : TryLocalSubstrateCoordinatorOptions ω} {w : ω} :
    (∃ elapsed, (tryLocalSubstrateCoordinator P request options w).1 =
      .ok (.accepted response elapsed)) ↔ AcceptsInTime P request options w response := by
  have hclock : readClock options.now w = (.ok (options.now w), w) := rfl
  rw [tryLocalSubstrateCoordinator, Effect.bind_of_ok hclock, AcceptsInTime, ← timeoutOf]
  cases validateLocalSubstrateRequest P request
      options.toValidateLocalSubstrateRequestOptions with
  | error e =>
      rw [Effect.bind_of_error (Effect.lift_apply _ _)]
      simp
  | ok issues =>
      rw [Effect.bind_of_ok (Effect.lift_apply _ _)]
      by_cases hissues : issues = []
      · subst hissues
        rw [if_neg (by simp), Effect.bind_of_ok (callWithTimeout_caught P _ _ _ _)]
        obtain ⟨answer, w'⟩ := options.transport request (timeoutOf options) w
        match answer with
        | .error e | .ok .late => simp [raced, Effect.bind_of_ok (elapsedMs_apply _ _ _)]
        | .ok (.inTime (.unreadable e)) => simp [raced]
        | .ok (.inTime (.value raw)) =>
            simp only [raced, Effect.bind_of_ok (elapsedMs_apply _ _ _), Effect.pure_apply,
              Except.ok.injEq, judgeResponse_accepted, Answer.inTime.injEq, RawResponse.value.injEq,
              true_and]
            constructor
            · rintro ⟨elapsed, hissues, hstatus, rfl, -⟩
              exact ⟨rfl, hissues, hstatus⟩
            · rintro ⟨rfl, hissues, hstatus⟩
              exact ⟨_, hissues, hstatus, rfl, rfl⟩
      · rw [if_pos hissues, Effect.bind_of_ok (elapsedMs_apply _ _ _)]
        simp [hissues]

/-! ## The commit of a record -/

/-- The coordinator, offered the record in this world, returns in time a valid response that
accepts it by its hash. -/
def CoordinatorTakes (now : ω → JsNumber) (built : BuiltRecord) (w : ω) : Prop :=
  ∃ response, AcceptsInTime P (commitRequest commit built) (commitClientOptions commit now built) w
      response ∧
    response.member "record_hash" = .string (expectedRecordHash built)

theorem accepts_iff {now : ω → JsNumber} {built : BuiltRecord} {w : ω}
    {result : TryLocalSubstrateCoordinatorResult}
    (h : (tryLocalSubstrateCoordinator P (commitRequest commit built)
      (commitClientOptions commit now built) w).1 = .ok result) :
    Accepts built result ↔ CoordinatorTakes commit P now built w := by
  constructor
  · rintro ⟨response, elapsed, rfl, hhash⟩
    exact ⟨response, (tryLocalSubstrateCoordinator_accepted P).1 ⟨elapsed, h⟩, hhash⟩
  · rintro ⟨response, haccepts, hhash⟩
    obtain ⟨elapsed, haccepted⟩ := (tryLocalSubstrateCoordinator_accepted P).2 haccepts
    rw [h, Except.ok.injEq] at haccepted
    exact ⟨response, elapsed, haccepted, hhash⟩

/-- The record goes to the queue of the process once, or it is the coordinator's. -/
def HandsOver (now : ω → JsNumber) (built : BuiltRecord) (submission : Submission)
    (s s' : Middleware ω) : Prop :=
  (CoordinatorTakes commit P now built s.world → s'.queue = s.queue) ∧
    (¬CoordinatorTakes commit P now built s.world → s'.queue = s.queue ++ [submission])

theorem dispatch_handsOver {options : MiddlewareOptions ω} {commit : LocalSubstrateCommitOptions ω}
    (hcommit : options.localSubstrateCommit = some commit) (built : BuiltRecord)
    (submission : Submission) (s : Middleware ω) :
    ∃ s', dispatchLocalSubstrateCommit P options built submission s = (.ok (), s') ∧
      HandsOver commit P options.now built submission s s' := by
  simp only [dispatchLocalSubstrateCommit, hcommit]
  rcases Effect.cases_on (outside (tryLocalSubstrateCoordinator P (commitRequest commit built)
    (commitClientOptions commit options.now built))) s with ⟨result, s₁, hok⟩ | ⟨e, s₁, herror⟩
  · have hkept : s₁.queue = s.queue := by
      have := KeepsQueue.outside (tryLocalSubstrateCoordinator P (commitRequest commit built)
        (commitClientOptions commit options.now built)) s
      rwa [hok] at this
    have haccepts : Accepts built result ↔
        CoordinatorTakes commit P options.now built s.world :=
      accepts_iff commit P (congrArg Prod.fst hok)
    by_cases htakes : Accepts built result
    · obtain ⟨s', htaken, hqueue⟩ := takeResult_accepts commit submission htakes s₁
      refine ⟨s', Effect.catching_of_ok ((Effect.bind_of_ok hok).trans htaken), fun _ => ?_,
        fun hnot => absurd (haccepts.1 htakes) hnot⟩
      rw [hqueue, hkept]
    · obtain ⟨s', htaken, hqueue⟩ := takeResult_submits commit submission htakes s₁
      refine ⟨s', Effect.catching_of_ok ((Effect.bind_of_ok hok).trans htaken),
        fun htakes' => absurd (haccepts.2 htakes') htakes, fun _ => ?_⟩
      rw [hqueue, hkept]
  · have hkept : s₁.queue = s.queue := by
      have := KeepsQueue.outside (tryLocalSubstrateCoordinator P (commitRequest commit built)
        (commitClientOptions commit options.now built)) s
      rwa [herror] at this
    obtain ⟨s₂, hok₂, hkept₂⟩ :=
      exists_kept (keepsQueue_notify commit _ _) (yields_notify commit _ _) s₁
    refine ⟨{ s₂ with queue := s₂.queue ++ [submission] },
      (Effect.catching_of_error (Effect.bind_of_error herror)).trans (Effect.bind_of_ok hok₂),
      ?_, fun _ => by rw [hkept₂, hkept]⟩
    rintro ⟨response, haccepts, -⟩
    obtain ⟨elapsed, haccepted⟩ := (tryLocalSubstrateCoordinator_accepted P).2 haccepts
    have hthrown := congrArg Prod.fst herror
    simp only [outside, haccepted] at hthrown
    cases hthrown

/-- The state in which a record is offered. -/
def offered (options : MiddlewareOptions ω) (built : BuiltRecord) (sidecar : Option JsValue)
    (s : Middleware ω) : Middleware ω :=
  (mirrorRecord options built sidecar s).2

theorem commitRecord_handsOver {options : MiddlewareOptions ω}
    {commit : LocalSubstrateCommitOptions ω}
    (hcommit : options.localSubstrateCommit = some commit) (built : BuiltRecord)
    (sidecar : Option JsValue) (s : Middleware ω) :
    ∃ s', commitRecord P options built (.ok ()) sidecar s = (.ok (), s') ∧
      (offered options built sidecar s).queue = s.queue ∧
      HandsOver commit P options.now built (submission built sidecar)
        (offered options built sidecar s) s' := by
  obtain ⟨s₁, hmirrored, hkept⟩ := exists_kept (keepsQueue_mirrorRecord options built sidecar)
    (yields_mirrorRecord options built sidecar) s
  obtain ⟨s₂, hok, hhands⟩ :=
    dispatch_handsOver P hcommit built (submission built sidecar) s₁
  rw [offered, hmirrored, commitRecord, Effect.bind_of_ok hmirrored,
    Effect.bind_of_ok (Effect.lift_apply _ _), Effect.bind_of_ok hok]
  exact ⟨_, rfl, hkept, hhands⟩

end

/-! ## The coordinator's side -/

namespace Coordinator

variable (P : Platform) (options : CreateInProcessLocalSubstrateCoordinatorOptions)

/-- What the coordinator has handed to its queue for a call. -/
def queuedFor (s : Coordinator) (index : ℕ) : List Handed := s.queue.filter (·.call = index)

def mirroredFor (s : Coordinator) (index : ℕ) : List (ℕ × JsValue) :=
  s.mirrored.filter (·.1 = index)

/-- The call has been answered, and the record is accepted. -/
def AcceptedWith (call : Call) (response : JsValue) : Prop :=
  call.phase = .settled (.ok response) ∧ response.member "status" = .string "accepted"

def Untouched (s : Coordinator) (index : ℕ) : Prop :=
  s.queuedFor index = [] ∧ s.mirroredFor index = []

structure CallOwned (s : Coordinator) (index : ℕ) (call : Call) : Prop where
  accepted : options.logSubmission = true → isShadowProbe call.request = false →
    ∀ response, AcceptedWith call response →
      ∃ handed hash, s.queuedFor index = [handed] ∧ recordHashRef P handed.record = .ok hash ∧
        response.member "record_hash" = .string hash
  probe : isShadowProbe call.request = true → s.Untouched index

/-- Every call is owned, and what has not been answered has not been touched. -/
structure Inv (s : Coordinator) : Prop where
  owned : ∀ index call, s.calls[index]? = some call → CallOwned P options s index call
  waiting : ∀ index call, s.calls[index]? = some call → (∀ outcome, call.phase ≠ .settled outcome) →
    s.Untouched index
  beyond : ∀ index, s.calls.length ≤ index → s.Untouched index

theorem not_acceptedWith_rejects {request response : JsValue} {reason : String}
    {health : Except String JsValue} :
    ¬AcceptedWith ⟨request, rejects request reason health⟩ response := by
  rintro ⟨hphase, hstatus⟩
  cases health with
  | error e => cases hphase
  | ok report =>
      cases hphase
      simp [rejectedLocalSubstrateResponse, JsValue.member, JsValue.get, Except.toOption,
        List.lookup_cons] at hstatus

theorem not_acceptedWith_receive {s : Coordinator} {request response : JsValue} {aborted : Bool}
    {health : Except String JsValue} :
    ¬AcceptedWith ⟨request, s.receive P options request aborted health⟩ response := by
  unfold receive
  split
  · exact fun h => nomatch h.1
  · split
    · exact fun h => nomatch h.1
    · exact fun h => nomatch h.1
    · exact fun h => nomatch h.1
    · split
      · exact not_acceptedWith_rejects
      · split
        · exact not_acceptedWith_rejects
        · split
          · exact not_acceptedWith_rejects
          · exact fun h => nomatch h.1

theorem not_acceptedWith_resume {s : Coordinator} {request response : JsValue} {aborted : Bool}
    {health : Except String JsValue} :
    ¬AcceptedWith ⟨request, s.resume options request aborted health⟩ response := by
  unfold resume
  split
  · exact fun h => nomatch h.1
  · split
    · exact fun h => nomatch h.1
    · split
      · exact not_acceptedWith_rejects
      · split
        · exact not_acceptedWith_rejects
        · exact fun h => nomatch h.1

/-- A call that nothing is handed over for, and that is not accepted. -/
theorem callOwned_of_untouched {s : Coordinator} {index : ℕ} {call : Call}
    (huntouched : s.Untouched index) (hnot : ∀ response, ¬AcceptedWith call response) :
    CallOwned P options s index call where
  accepted _ _ response haccepted := absurd haccepted (hnot response)
  probe _ := huntouched

theorem inv_call {s : Coordinator} (h : Inv P options s) (request : JsValue) (aborted : Bool)
    (health : Except String JsValue) :
    Inv P options (s.step P options (.call request aborted health)) := by
  have hold {index : ℕ} {call : Call}
      (hcall : (s.calls ++ [⟨request, s.receive P options request aborted health⟩])[index]? =
        some call) :
      s.calls[index]? = some call ∨ index = s.calls.length ∧
        call = ⟨request, s.receive P options request aborted health⟩ := by
    rcases Nat.lt_or_ge index s.calls.length with hlt | hge
    · rw [List.getElem?_append_left hlt] at hcall
      exact Or.inl hcall
    · obtain rfl : index = s.calls.length := by
        have := (List.getElem?_eq_some_iff.1 hcall).1
        simp at this
        omega
      simp at hcall
      exact Or.inr ⟨rfl, hcall.symm⟩
  constructor
  · intro index call hcall
    rcases hold hcall with hcall | ⟨rfl, rfl⟩
    · exact ⟨(h.owned index call hcall).accepted, (h.owned index call hcall).probe⟩
    · exact callOwned_of_untouched P options (s := s.step P options (.call request aborted health))
        (h.beyond _ le_rfl) fun _ => not_acceptedWith_receive P options
  · intro index call hcall hwaits
    rcases hold hcall with hcall | ⟨rfl, rfl⟩
    · exact h.waiting index call hcall hwaits
    · exact h.beyond _ le_rfl
  · intro index hindex
    simp only [step, List.length_append, List.length_singleton] at hindex
    exact h.beyond index (by omega)

/-- Nothing changes for the other calls. -/
def SameElsewhere (s s' : Coordinator) (index : ℕ) : Prop :=
  ∀ other, other ≠ index →
    s'.queuedFor other = s.queuedFor other ∧ s'.mirroredFor other = s.mirroredFor other

/-- A call moves on. -/
theorem inv_set {s s' : Coordinator} (h : Inv P options s) {index : ℕ} {old call : Call}
    (hold : s.calls[index]? = some old) (hcalls : s'.calls = s.calls.set index call)
    (hsame : SameElsewhere s s' index)
    (hwaits : (∀ outcome, call.phase ≠ .settled outcome) → s'.Untouched index)
    (howned : CallOwned P options s' index call) : Inv P options s' := by
  have hindex : index < s.calls.length := (List.getElem?_eq_some_iff.1 hold).1
  have hother {other : ℕ} (hne : other ≠ index) : s'.Untouched other ↔ s.Untouched other := by
    rw [Untouched, Untouched, (hsame other hne).1, (hsame other hne).2]
  have hget {other : ℕ} {call' : Call} (hcall : s'.calls[other]? = some call') :
      other = index ∧ call' = call ∨ other ≠ index ∧ s.calls[other]? = some call' := by
    by_cases hother : other = index
    · subst hother
      rw [hcalls, List.getElem?_set_self hindex, Option.some.injEq] at hcall
      exact Or.inl ⟨rfl, hcall.symm⟩
    · rw [hcalls, List.getElem?_set_ne (Ne.symm hother)] at hcall
      exact Or.inr ⟨hother, hcall⟩
  constructor
  · intro other call' hcall
    rcases hget hcall with ⟨rfl, rfl⟩ | ⟨hne, hcall⟩
    · exact howned
    · constructor
      · rw [(hsame other hne).1]
        exact (h.owned other call' hcall).accepted
      · rw [hother hne]
        exact (h.owned other call' hcall).probe
  · intro other call' hcall hwaits'
    rcases hget hcall with ⟨rfl, rfl⟩ | ⟨hne, hcall⟩
    · exact hwaits hwaits'
    · exact (hother hne).2 (h.waiting other call' hcall hwaits')
  · intro other hbeyond
    rw [hcalls, List.length_set] at hbeyond
    exact (hother (by omega)).2 (h.beyond other hbeyond)

/-- A call moves on with nothing handed over, and is not accepted. -/
theorem inv_settle {s : Coordinator} (h : Inv P options s) {index : ℕ} {request : JsValue}
    {old phase : Phase} (hold : s.calls[index]? = some ⟨request, old⟩)
    (hwaits : ∀ outcome, old ≠ .settled outcome)
    (hnot : ∀ response, ¬AcceptedWith ⟨request, phase⟩ response) :
    Inv P options (s.settle index request phase) := by
  have huntouched : s.Untouched index := h.waiting index _ hold hwaits
  refine inv_set P options h hold rfl (fun _ _ => ⟨rfl, rfl⟩) (fun _ => huntouched) ?_
  exact callOwned_of_untouched P options (s := s.settle index request phase) huntouched hnot

/-- Of a record that has a token, the event type can be read. -/
theorem get_of_encodeToken {record : JsValue} {token : String}
    (h : encodeToken P record = .ok token) (key : String) : ∃ value, record.get key = .ok value := by
  cases hget : record.get key with
  | ok value => exact ⟨value, rfl⟩
  | error e =>
      have hnullish := JsValue.get_eq_error.1 ⟨e, hget⟩
      have hthrows : ∃ e, record.get "creator_key" = .error e := JsValue.get_eq_error.2 hnullish
      obtain ⟨e', hcreator⟩ := hthrows
      rw [encodeToken, hcreator] at h
      cases hcanonical : canonicalRecord P record with
      | error e => rw [hcanonical] at h; cases h
      | ok bytes => rw [hcanonical] at h; cases h

theorem filter_append_singleton_self {α : Type} {l : List α} {p : α → Bool} {a : α}
    (hl : l.filter p = []) (ha : p a = true) : (l ++ [a]).filter p = [a] := by
  rw [List.filter_append, hl, List.nil_append, List.filter_cons_of_pos ha, List.filter_nil]

theorem filter_append_singleton_ne {α : Type} (l : List α) {p : α → Bool} {a : α}
    (ha : p a = false) : (l ++ [a]).filter p = l.filter p := by
  rw [List.filter_append, List.filter_cons_of_neg (by simp [ha]), List.filter_nil,
    List.append_nil]

theorem settled_map_eq {health : Except String JsValue} {f : JsValue → JsValue}
    {response : JsValue} (h : Phase.settled (health.map f) = .settled (.ok response)) :
    ∃ report, health = .ok report ∧ response = f report := by
  cases health with
  | error e => cases h
  | ok report =>
      cases h
      exact ⟨report, rfl, rfl⟩

theorem inv_finish {s : Coordinator} (h : Inv P options s) {index : ℕ} {request : JsValue}
    (hold : s.calls[index]? = some ⟨request, .signing⟩) (signed : JsValue)
    (health : Except String JsValue) : Inv P options (s.finish P options index request signed health) := by
  have huntouched : s.Untouched index := h.waiting index _ hold nofun
  unfold finish
  split
  · exact inv_settle P options h hold nofun fun _ haccepted => nomatch haccepted.1
  · exact inv_settle P options h hold nofun fun _ haccepted => nomatch haccepted.1
  · next recordHash receiptId hhash htoken =>
      obtain ⟨eventType, hread⟩ := get_of_encodeToken P htoken "event_type"
      simp only [hread, Except.toOption, Option.map_some, Option.toList_some]
      refine inv_set P options h hold rfl ?_ (fun hnot => absurd rfl (hnot _)) ?_
      · intro other hne
        have hne' : index ≠ other := Ne.symm hne
        constructor
        · simp only [queuedFor]
          split
          · exact filter_append_singleton_ne _ (by simp [hne'])
          · rfl
        · simp only [mirroredFor]
          split
          · exact filter_append_singleton_ne _ (by simp [hne'])
          · rfl
      · constructor
        · intro hlog hcommit response haccepted
          obtain ⟨report, -, hresponse⟩ := settled_map_eq haccepted.1
          let high := eventType.strictEq (.string EVENT_TYPE_TRANSACTION_URI)
          refine ⟨⟨index, signed, if high then .high else .normal⟩, recordHash, ?_, hhash, ?_⟩
          · simp only [queuedFor, hcommit, hlog, Bool.not_false, Bool.true_and, if_true]
            exact filter_append_singleton_self huntouched.1 (by simp)
          · rw [hresponse]
            simp [acceptedLocalSubstrateResponse, JsValue.member, JsValue.get, Except.toOption,
              List.lookup_cons]
        · intro hprobe
          simpa [Untouched, queuedFor, mirroredFor, hprobe] using huntouched

theorem inv_step {s : Coordinator} (h : Inv P options s) (move : CoordinatorMove) :
    Inv P options (s.step P options move) := by
  cases move with
  | call request aborted health => exact inv_call P options h request aborted health
  | keyReady index aborted health =>
      simp only [step]
      split
      · next request hold =>
          have huntouched : s.Untouched index := h.waiting index _ hold nofun
          exact inv_settle P options h hold nofun fun _ => not_acceptedWith_resume options
      · exact h
  | signed index result health =>
      simp only [step]
      split
      · next request hold =>
          cases result with
          | error reason =>
              refine inv_settle P options h hold nofun fun response => ?_
              split
              · exact not_acceptedWith_rejects
              · exact fun haccepted => nomatch haccepted.1
          | ok signed => exact inv_finish P options h hold signed health
      · exact h
  | destroy =>
      have howned {index : ℕ} {call : Call} (hcall : s.calls[index]? = some call) :
          CallOwned P options { s with destroyed := true } index call :=
        ⟨(h.owned index call hcall).accepted, (h.owned index call hcall).probe⟩
      exact ⟨fun _ _ hcall => howned hcall, h.waiting, h.beyond⟩

theorem inv_initial : Inv P options {} := by
  constructor
  · intro index call hcall
    simp at hcall
  · intro index call hcall
    simp at hcall
  · exact fun index _ => ⟨rfl, rfl⟩

theorem inv_run (moves : List CoordinatorMove) : Inv P options (run (step P options) {} moves) :=
  have hstep : ∀ s move, Inv P options s → Inv P options (step P options s move) :=
    fun _ move h => inv_step P options h move
  run_keeps hstep moves (inv_initial P options)

end Coordinator

/-- A record whose outbound context could be written is handed to the queue of the process
once, whatever the coordinator and the hooks do, unless the coordinator has taken it, and then
not at all; and a coordinator that submits to the log has queued what it has accepted, and
nothing that it was only to probe. -/
theorem commitRecord_owned (P : Platform) :
    (∀ {ω : Type} (options : MiddlewareOptions ω) (commit : LocalSubstrateCommitOptions ω)
        (built : BuiltRecord) (sidecar : Option JsValue) (s : Middleware ω),
      options.localSubstrateCommit = some commit →
        ∃ s', commitRecord P options built (.ok ()) sidecar s = (.ok (), s') ∧
          (offered options built sidecar s).queue = s.queue ∧
          HandsOver commit P options.now built (submission built sidecar)
            (offered options built sidecar s) s') ∧
      ∀ (options : CreateInProcessLocalSubstrateCoordinatorOptions)
        (moves : List CoordinatorMove) (index : ℕ) (call : Call),
      (run (Coordinator.step P options) {} moves).calls[index]? = some call →
        Coordinator.CallOwned P options (run (Coordinator.step P options) {} moves) index call :=
  ⟨fun _ _ built sidecar s hcommit => commitRecord_handsOver P hcommit built sidecar s,
    fun options moves => (Coordinator.inv_run P options moves).owned⟩

namespace OwnerSample

def context : String := "aaaaaaaaaaaaaaaaaaaaaaaaaaaaaaaa"

def creatorKey : String := "iojj3XQJ8ZX9UtstPLpdcspnCb8dlBIb83SIAbQPb1w"

def recordMembers : List (String × JsValue) := [
  ("chain_root",
    .string "sha256:3ba3f5f43b92602683c19aee62a20342b084dd5971ddd33808d81a328879a547"),
  ("content_id",
    .string "sha256:dc8e783725aa24117b22496ca67b151f64d604ff54f9f35d84090f28f1cb06c6"),
  ("context_id", .string context), ("creator_key", .string creatorKey),
  ("event_type", .string "https://atrib.dev/v1/types/tool_call"),
  ("spec_version", .string "atrib/1.0"), ("timestamp", .number (.finite 1))]

/-- A signed tool call. -/
def signedRecord : JsValue := .object (recordMembers ++ [
  ("signature", .string ("aKuEkH8iHQOv6rrmrqIUexSxJeXHGkYtElkA9AbU1SZ" ++
    "-8AqzzbF4oKbu6ioggcbgxcBp7Xl4uegnJlSzmkafAw"))])

/-- JCS of the record, around its signature. -/
def canonicalText (signature : String) : String :=
  "\x7b\"chain_root\":" ++
  "\"sha256:3ba3f5f43b92602683c19aee62a20342b084dd5971ddd33808d81a328879a547\"," ++
  "\"content_id\":" ++
  "\"sha256:dc8e783725aa24117b22496ca67b151f64d604ff54f9f35d84090f28f1cb06c6\"," ++
  "\"context_id\":\"aaaaaaaaaaaaaaaaaaaaaaaaaaaaaaaa\"," ++
  "\"creator_key\":\"iojj3XQJ8ZX9UtstPLpdcspnCb8dlBIb83SIAbQPb1w\"," ++
  "\"event_type\":\"https://atrib.dev/v1/types/tool_call\"," ++ signature ++
  "\"spec_version\":\"atrib/1.0\",\"timestamp\":1\x7d"

/-- JCS of what has to be written: the record with its signature and without. -/
def platform : Platform where
  hash := .fips180
  canonicalize value :=
    if value = signedRecord then
      .ok (some (canonicalText ("\"signature\":\"aKuEkH8iHQOv6rrmrqIUexSxJeXHGkYtElkA9AbU1SZ" ++
        "-8AqzzbF4oKbu6ioggcbgxcBp7Xl4uegnJlSzmkafAw\",")))
    else .ok (some (canonicalText ""))
  base64urlDecode
    | .string text => (base64urlDecode text).elim (.error "invalid base64url") .ok
    | _ => .error "invalid base64url"
  numberText _ := "1500"

def producer : JsValue :=
  .object [("name", .string "wrapper"), ("harness_class", .string "startup-spawn")]

def built : BuiltRecord where
  signed := signedRecord
  recordHashHex := "0f5101193bfc456f3f7bc475467d6f460e7e466bfd98df67ea632b0b9346a01b"
  recordBody := .object recordMembers
  contextId := context
  eventType := "https://atrib.dev/v1/types/tool_call"

/-- Nobody listens to the coordinator's address. -/
def refused : LocalSubstrateCommitOptions (List JsValue) where
  transport _ _ := Effect.lift (.error "fetch failed")
  producer := producer

/-- The world is the mirror. -/
def middleware : MiddlewareOptions (List JsValue) where
  localSubstrateCommit := some refused
  onRecord := some fun record _ mirror => (.ok .done, mirror ++ [record])
  now _ := .finite 2

theorem not_takes (mirror : List JsValue) :
    ¬CoordinatorTakes refused platform middleware.now built mirror := by
  rintro ⟨response, haccepts, -⟩
  cases haccepts.2.1

def coordinatorOptions : CreateInProcessLocalSubstrateCoordinatorOptions where
  signer := true
  publicKey := .ok creatorKey

/-- The coordinator signs the record it is offered. -/
def moves : List CoordinatorMove :=
  [.call (commitRequest refused built) false (.ok .null), .keyReady 0 false (.ok .null),
    .signed 0 (.ok signedRecord) (.ok .null)]

/-- The run of a coordinator that submits what it accepts, or does not. -/
def coordinator (logSubmission : Bool) : Coordinator :=
  run (Coordinator.step platform { coordinatorOptions with logSubmission }) {} moves

/-- The status of the answer to each call, and whether the call was to probe. -/
def answers (s : Coordinator) : List (Option JsValue × Bool) :=
  s.calls.map fun call =>
    (match call.phase with
    | .settled (.ok response) => some (response.member "status")
    | _ => none,
    isShadowProbe call.request)

theorem exists_call {s : Coordinator} (h : answers s = [(some (.string "accepted"), false)]) :
    ∃ call response, s.calls = [call] ∧ Coordinator.AcceptedWith call response ∧
      isShadowProbe call.request = false := by
  rw [answers, List.map_eq_singleton_iff] at h
  obtain ⟨call, hcalls, hcall⟩ := h
  rw [Prod.mk.injEq] at hcall
  obtain ⟨hstatus, hprobe⟩ := hcall
  split at hstatus
  · next response hphase =>
      exact ⟨call, response, hcalls, ⟨hphase, Option.some.inj hstatus⟩, hprobe⟩
  · cases hstatus

theorem commitRecord_owned_sample :
    (∃ s', commitRecord platform middleware built (.ok ()) none { world := [] } = (.ok (), s') ∧
        s'.queue = [submission built none]) ∧
      ∃ (handed : Handed) (hash : String) (response : JsValue), (coordinator true).queuedFor 0 = [handed] ∧
        recordHashRef platform handed.record = .ok hash ∧
        response.member "record_hash" = JsValue.string hash := by
  constructor
  · obtain ⟨s', hok, hsame, -, hqueue⟩ :=
      (commitRecord_owned platform).1 middleware refused built none { world := [] } rfl
    refine ⟨s', hok, ?_⟩
    rw [hqueue (not_takes _), hsame]
    rfl
  · have hanswers : answers (coordinator true) = [(some (.string "accepted"), false)] := by
      decide +kernel
    obtain ⟨call, response, hcalls, haccepted, hprobe⟩ := exists_call hanswers
    have howned := (commitRecord_owned platform).2 { coordinatorOptions with logSubmission := true }
      moves 0 call (by rw [← coordinator, hcalls]; rfl)
    obtain ⟨handed, hash, hqueued, hhash, hresponse⟩ :=
      howned.accepted rfl hprobe response haccepted
    exact ⟨handed, hash, response, hqueued, hhash, hresponse⟩

/-- A coordinator that does not submit accepts a record and queues nothing; and a record whose
outbound context cannot be written is mirrored and goes nowhere else. -/
theorem record_without_owner :
    (∃ call response, (coordinator false).calls = [call] ∧
        Coordinator.AcceptedWith call response ∧ isShadowProbe call.request = false ∧
        (coordinator false).queuedFor 0 = []) ∧
      let frozen : Except String Unit :=
        .error "Cannot add property _meta, object is not extensible"
      let s := (commitRecord platform middleware built frozen none { world := [] }).2
      s.world = [signedRecord] ∧ s.queue = [] := by
  constructor
  · have hanswers : (answers (coordinator false), (coordinator false).queue.length) =
        ([(some (.string "accepted"), false)], 0) := by decide +kernel
    obtain ⟨hanswers, hempty⟩ := Prod.mk.injEq .. ▸ hanswers
    obtain ⟨call, response, hcalls, haccepted, hprobe⟩ := exists_call hanswers
    refine ⟨call, response, hcalls, haccepted, hprobe, ?_⟩
    rw [Coordinator.queuedFor, List.length_eq_zero_iff.1 hempty, List.filter_nil]
  · exact ⟨rfl, rfl⟩

end OwnerSample

end Atrib.LocalSubstrate
