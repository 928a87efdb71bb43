import Atrib.ActionGate.ProtectedMcp

/-!
# What a gated action asks for and comes to

One lemma for each part of a run: it makes plain requests only, and what it
returns is as it should be. Only the action itself may do more, so a run obeys any
protocol that plain requests leave alone, if its action does.
-/

namespace Atrib.ActionGate

open Lib (Async JsValue)
open Lib.Async (Asks Obeys Protocol)

/-- A request that neither executes anything nor uses the store of permits. -/
def Plain : Op → Prop
  | .execute | .issue _ | .consume _ | .executeUpstream _ => False
  | _ => True

/-- What is answered to the requests of a run, in turn. -/
abbrev Answers (ρ : Type) : Type := List ((op : Op) × Except Thrown (Ans ρ op))

/-- Anything may be answered. -/
abbrev AnyAnswer (ρ : Type) : (op : Op) → Except Thrown (Ans ρ op) → Prop := fun _ _ => True

theorem rethrow_eq_ok {α : Type} {result : Except String α} {a : α} :
    rethrow result = .ok a ↔ result = .ok a := by
  cases result <;> simp [rethrow]

theorem assertThat_eq_ok {passed : Bool} {message : String} {result : Unit} :
    assertThat passed message = .ok result ↔ passed = true := by
  cases passed <;> simp [assertThat]

variable {ρ : Type} (P : Platform ρ)

section

variable (A : (op : Op) → Except Thrown (Ans ρ op) → Prop)

/-! ## Artifacts -/

def ActionGateKey.creatorKey : ActionGateKey → String
  | .privateKey seed => base64urlEncode (P.mcp.getPublicKey seed.val)
  | .signer creatorKey => creatorKey

/-- A signature that a key gives, where the answers of its signer satisfy `A`. -/
def SignedBy (key : ActionGateKey) (record : JsValue) (signature : String) : Prop :=
  match key with
  | .privateKey seed => Middleware.signatureOf P.mcp record seed.val = .ok signature
  | .signer _ => A (.signRecord record) (.ok signature)

/-- An artifact of record members, an entry and a payload. -/
structure Signed (key : ActionGateKey) (members : List (String × JsValue)) (entry payload : JsValue)
    (action : ActionEnvelope) (artifact : Artifact) : Prop where
  signature : ∃ signature, SignedBy P A key (Middleware.withSignature members "") signature ∧
    artifact.record = Middleware.withSignature members signature
  record_hash : recordHashFor P artifact.record = .ok artifact.record_hash
  sidecar : artifact.sidecar = ⟨artifact.record_hash, action, entry, payload⟩
  entry : artifact.entry = entry

def decisionInput (contextId : String) (entry : JsValue) (parents : List String)
    (argsHash resultHash : String) : RecordInput where
  toolName := DECISION_TOOL_NAME ++ "." ++ textOf entry "decision_state"
  chainRoot := resolveChainRoot P contextId none
  eventType := ACTION_GATE_DECISION_EVENT_TYPE_URI
  argsHash := argsHash
  resultHash := resultHash
  informedBy := parents

def outcomeInput (contextId : String) (entry : JsValue) (decisionRecordHash argsHash
    resultHash : String) : RecordInput where
  toolName := OUTCOME_TOOL_NAME ++ "." ++ textOf entry "status"
  chainRoot := resolveChainRoot P contextId (some (afterHashPrefix decisionRecordHash))
  eventType := ACTION_GATE_OUTCOME_EVENT_TYPE_URI
  argsHash := argsHash
  resultHash := resultHash
  informedBy := [decisionRecordHash]

structure DecisionSigned (options : RunOptions) (key : ActionGateKey) (entry : JsValue)
    (action : ActionEnvelope) (parents : List String) (contextId : String) (timestampMs : ℚ)
    (artifact : Artifact) : Prop where
  asserted : assertDecisionEntry P entry = .ok ()
  matched : actionMatchesDecisionEntry P action entry = true
  signed : ∃ argsHash resultHash, hashCanonical P (decisionSubject entry) = .ok argsHash ∧
    hashCanonical P (decisionResult entry) = .ok resultHash ∧
    Signed P A key (recordMembers P options contextId (key.creatorKey P) timestampMs
      (decisionInput P contextId entry parents argsHash resultHash)) entry
      (snapshotCanonical P action.args) action artifact

structure OutcomeSigned (options : RunOptions) (key : ActionGateKey) (entry : JsValue)
    (action : ActionEnvelope) (contextId decisionRecordHash : String) (timestampMs : ℚ)
    (artifact : Artifact) : Prop where
  asserted : assertOutcomeEntry P entry = .ok ()
  signed : ∃ argsHash resultHash, hashCanonical P (outcomeSubject entry) = .ok argsHash ∧
    hashCanonical P (outcomeResult entry) = .ok resultHash ∧
    Signed P A key (recordMembers P options contextId (key.creatorKey P) timestampMs
      (outcomeInput P contextId entry decisionRecordHash argsHash resultHash)) entry .undefined
      action artifact

/-- The decision of a run. -/
structure DecidedBy (options : RunOptions) (action : ActionEnvelope) (decided : Decided) :
    Prop where
  key : options.key = .ok decided.key
  contextId : options.contextId = some decided.contextId ∨
    ∃ random : { bytes : Bytes // bytes.length = 16 }, decided.contextId = hexEncode random.val
  entry : ∃ policy timestamp parents timestampMs,
    normalizeRecordHashes (options.parentRecordHashes ++
      action.parent_record_hashes.getD []) = .ok parents ∧
    buildActionGateDecisionEntry P action policy timestamp parents = .ok decided.artifact.entry ∧
    DecisionSigned P A options decided.key decided.artifact.entry action parents decided.contextId
      timestampMs decided.artifact

/-- The outcome of a run. -/
structure ClosedBy (options : RunOptions) (action : ActionEnvelope) (decided : Decided)
    (input : OutcomeInput ρ) (run : RunResult ρ) : Prop where
  decision : run.decision = decided.artifact
  outcomeInput : run.outcomeInput = input
  entry : ∃ timestamp timestampMs,
    buildActionGateOutcomeEntry P input action.run_id action.action_id
      (decided.artifact.entry.member "decision_id") decided.artifact.record_hash timestamp =
      .ok run.outcome.entry ∧
    OutcomeSigned P A options decided.key run.outcome.entry action decided.contextId
      decided.artifact.record_hash timestampMs run.outcome
  verification : ∃ nowMs nowMs' : ℚ, verificationOf P
    (Middleware.verifyRecord P.mcp run.decision.record (.finite nowMs))
    (Middleware.verifyRecord P.mcp run.outcome.record (.finite nowMs'))
    run.decision run.outcome = .ok run.verification

/-! ## The parts -/

variable {P A}

theorem asks_creatorKeyFor (key : ActionGateKey) :
    Asks Plain A (· = key.creatorKey P) (creatorKeyFor P key) := by
  cases key with
  | privateKey seed =>
      exact Asks.bind (Q := fun _ => True) (Asks.ask trivial fun _ _ => trivial)
        fun _ _ => Asks.pure rfl
  | signer creatorKey => exact Asks.pure rfl

theorem asks_signWith (key : ActionGateKey) (record : JsValue) :
    Asks Plain A (SignedBy P A key record) (signWith P record key) := by
  cases key with
  | privateKey seed =>
      exact Asks.bind (Asks.lift fun _ h => rethrow_eq_ok.1 h) fun _ hsigned =>
        Asks.bind (Q := fun _ => True) (Asks.ask trivial fun _ _ => trivial)
          fun _ _ => Asks.pure hsigned
  | signer creatorKey => exact Asks.ask trivial fun _ h => h

theorem asks_signArtifact (key : ActionGateKey) (members : List (String × JsValue))
    (entry payload : JsValue) (action : ActionEnvelope) :
    Asks Plain A (Signed P A key members entry payload action)
      (signArtifact P key members entry payload action) :=
  Asks.bind (asks_signWith key _) fun signature hsignature =>
    Asks.bind (Asks.lift fun _ h => h) fun _ hhash =>
      Asks.pure ⟨⟨signature, hsignature, rfl⟩, hhash, rfl, rfl⟩

theorem asks_signActionGateDecision (options : RunOptions) (key : ActionGateKey) (entry : JsValue)
    (action : ActionEnvelope) (parents : List String) (contextId : String) (timestampMs : ℚ) :
    Asks Plain A (DecisionSigned P A options key entry action parents contextId timestampMs)
      (signActionGateDecision P options key entry action parents contextId timestampMs) := by
  refine Asks.bind (Asks.lift fun _ h => h) fun _ hasserted => ?_
  refine Asks.bind (Asks.lift fun _ h => assertThat_eq_ok.1 h) fun _ hmatched => ?_
  refine Asks.bind (asks_creatorKeyFor key) ?_
  rintro _ rfl
  refine Asks.bind (Asks.lift fun _ h => h) fun argsHash hargs => ?_
  refine Asks.bind (Asks.lift fun _ h => h) fun resultHash hresult => ?_
  exact (asks_signArtifact key _ _ _ _).mono fun _ hsigned =>
    ⟨hasserted, hmatched, argsHash, resultHash, hargs, hresult, hsigned⟩

theorem asks_signActionGateOutcome (options : RunOptions) (key : ActionGateKey) (entry : JsValue)
    (action : ActionEnvelope) (contextId decisionRecordHash : String) (timestampMs : ℚ) :
    Asks Plain A (OutcomeSigned P A options key entry action contextId decisionRecordHash
        timestampMs)
      (signActionGateOutcome P options key entry action contextId decisionRecordHash
        timestampMs) := by
  refine Asks.bind (Asks.lift fun _ h => h) fun _ hasserted => ?_
  refine Asks.bind (Q := fun _ => True) (Asks.lift fun _ _ => trivial) fun _ _ => ?_
  refine Asks.bind (Q := fun _ => True) (Asks.lift fun _ _ => trivial) fun _ _ => ?_
  refine Asks.bind (Q := fun _ => True) (Asks.lift fun _ _ => trivial) fun _ _ => ?_
  refine Asks.bind (Q := fun _ => True) (Asks.lift fun _ _ => trivial) fun _ _ => ?_
  refine Asks.bind (asks_creatorKeyFor key) ?_
  rintro _ rfl
  refine Asks.bind (Asks.lift fun _ h => h) fun argsHash hargs => ?_
  refine Asks.bind (Asks.lift fun _ h => h) fun resultHash hresult => ?_
  exact (asks_signArtifact key _ _ _ _).mono fun _ hsigned =>
    ⟨hasserted, argsHash, resultHash, hargs, hresult, hsigned⟩

theorem asks_notifyRecord (options : RunOptions) (kind : String) (artifact : Artifact) :
    Asks Plain A (fun _ => True) (notifyRecord (ρ := ρ) options kind artifact) := by
  unfold notifyRecord
  split
  · refine Asks.catching ?_ fun error => ?_
    · exact Asks.bind (Q := fun _ => True) (Asks.ask trivial fun _ _ => trivial)
        fun _ _ => Asks.pure trivial
    · exact Asks.bind (Q := fun _ => True) (Asks.lift fun _ _ => trivial)
        fun _ _ => Asks.pure trivial
  · exact Asks.pure trivial

theorem asks_resolvePolicyDecision {evaluate : Gate ρ PolicyDecision}
    (hevaluate : Asks Plain A (fun _ => True) evaluate) :
    Asks Plain A (fun _ => True) (resolvePolicyDecision P evaluate) := by
  refine Asks.catching ?_ fun error => ?_
  · refine Asks.bind hevaluate fun decision _ => ?_
    exact Asks.bind (Q := fun _ => True) (Asks.lift fun _ _ => trivial)
      fun _ _ => Asks.pure trivial
  · refine Asks.bind (Q := fun _ => True) (Asks.lift fun _ _ => trivial) fun error _ => ?_
    refine Asks.bind (Q := fun _ => True) (Asks.lift fun _ _ => trivial) fun name _ => ?_
    exact Asks.bind (Q := fun _ => True) (Asks.lift fun _ _ => trivial)
      fun message _ => Asks.pure trivial

theorem asks_contextIdOf (options : RunOptions) :
    Asks Plain A (fun contextId => options.contextId = some contextId ∨
      ∃ random : { bytes : Bytes // bytes.length = 16 }, contextId = hexEncode random.val)
      (contextIdOf (ρ := ρ) options) := by
  unfold contextIdOf
  cases options.contextId with
  | some contextId => exact Asks.pure (.inl rfl)
  | none =>
      exact Asks.bind (Q := fun _ => True) (Asks.ask trivial fun _ _ => trivial)
        fun random _ => Asks.pure (.inr ⟨random, rfl⟩)

theorem asks_gateDecision {options : RunOptions} {action : ActionEnvelope}
    {evaluate : ActionEnvelope → String → Gate ρ PolicyDecision}
    (hevaluate : ∀ action timestamp, Asks Plain A (fun _ => True) (evaluate action timestamp)) :
    Asks Plain A (DecidedBy P A options action) (gateDecision P options action evaluate) := by
  refine Asks.bind (Asks.lift fun _ h => h) fun key hkey => ?_
  refine Asks.bind (asks_contextIdOf options) fun contextId hcontextId => ?_
  refine Asks.bind (Q := fun _ => True) (Asks.ask trivial fun _ _ => trivial)
    fun timestampMs _ => ?_
  refine Asks.bind (Q := fun _ => True) (Asks.lift fun _ _ => trivial) fun timestamp _ => ?_
  refine Asks.bind (Asks.lift fun _ h => h) fun parents hparents => ?_
  refine Asks.bind (asks_resolvePolicyDecision (hevaluate action timestamp)) fun policy _ => ?_
  refine Asks.bind (Asks.lift fun _ h => h) fun entry hentry => ?_
  refine Asks.bind (asks_signActionGateDecision options key entry action parents contextId
    timestampMs) fun decision hdecision => ?_
  refine Asks.bind (asks_notifyRecord options "decision" decision) fun errors _ => ?_
  obtain rfl : decision.entry = entry := by
    obtain ⟨argsHash, resultHash, -, -, hsigned⟩ := hdecision.signed
    exact hsigned.entry
  exact Asks.pure ⟨hkey, hcontextId, policy, timestamp, parents, timestampMs, hparents, hentry,
    hdecision⟩

theorem asks_gateOutcome (options : RunOptions) (action : ActionEnvelope) (decided : Decided)
    (input : OutcomeInput ρ) :
    Asks Plain A (ClosedBy P A options action decided input)
      (gateOutcome P options action decided input) := by
  refine Asks.bind (Q := fun _ => True) (Asks.ask trivial fun _ _ => trivial) fun nowMs _ => ?_
  refine Asks.bind (Q := fun _ => True) (Asks.lift fun _ _ => trivial) fun timestamp _ => ?_
  refine Asks.bind (Asks.lift fun _ h => h) fun entry hentry => ?_
  refine Asks.bind (Q := fun _ => True) (Asks.ask trivial fun _ _ => trivial)
    fun timestampMs _ => ?_
  refine Asks.bind (asks_signActionGateOutcome options decided.key entry action decided.contextId
    decided.artifact.record_hash timestampMs) fun outcome houtcome => ?_
  refine Asks.bind (asks_notifyRecord options "outcome" outcome) fun errors _ => ?_
  obtain rfl : outcome.entry = entry := by
    obtain ⟨argsHash, resultHash, -, -, hsigned⟩ := houtcome.signed
    exact hsigned.entry
  have hverification : Asks Plain A (fun verification => ∃ nowMs nowMs' : ℚ, verificationOf P
      (Middleware.verifyRecord P.mcp decided.artifact.record (.finite nowMs))
      (Middleware.verifyRecord P.mcp outcome.record (.finite nowMs'))
      decided.artifact outcome = .ok verification)
      (verifyActionGateRun P decided.artifact outcome) := by
    refine Asks.bind (Q := fun _ => True) (Asks.ask trivial fun _ _ => trivial) fun nowMs _ => ?_
    refine Asks.bind (Q := fun _ => True) (Asks.ask trivial fun _ _ => trivial) fun nowMs' _ => ?_
    exact Asks.lift fun _ h => ⟨nowMs, nowMs', h⟩
  refine Asks.bind hverification fun verification hverified => ?_
  exact Asks.pure ⟨rfl, rfl, ⟨timestamp, timestampMs, hentry, houtcome⟩, hverified⟩

end

/-! ## Runs under a protocol -/

section

variable {γ : Type} {protocol : Protocol Thrown Op (Ans ρ) γ}

/-- Plain requests are allowed, are answered as `A` says, and change nothing. -/
structure Ignores (A : (op : Op) → Except Thrown (Ans ρ op) → Prop)
    (protocol : Protocol Thrown Op (Ans ρ) γ) : Prop where
  allowed : ∀ g op, Plain op → protocol.allowed g op
  possible : ∀ g op, Plain op → ∀ answer, protocol.possible g op answer → A op answer
  next : ∀ g op, Plain op → ∀ answer, protocol.next g op answer = g

theorem Ignores.obeys {A : (op : Op) → Except Thrown (Ans ρ op) → Prop}
    (hignores : Ignores A protocol) {α : Type} {Q : α → Prop} {c : Gate ρ α}
    (hc : Asks Plain A Q c) (g : γ) :
    Obeys protocol (fun g' result => g' = g ∧ ∀ a, result = .ok a → Q a) g c :=
  hc.obeys (hignores.allowed g) (hignores.possible g) (hignores.next g)

/-- What became of an action whose decision is in a state, where the action itself ends as `Q`
says. -/
inductive Resolved (Q : γ → Except Thrown (Option ρ) → Prop) (g g' : γ) (state : JsValue) :
    OutcomeInput ρ → Prop
  | closed {status : String} (hstatus : status = "blocked" ∨ status = "escalated" ∨
      status = "policy_error") (hstate : state.strictEq (.string status) = true) (hg : g' = g) :
      Resolved Q g g' state { status, executed := false }
  | executed {result : Option ρ} (hstate : ∀ closed ∈ ["blocked", "escalated", "policy_error"],
      state.strictEq (.string closed) = false) (hresult : Q g' (.ok result)) :
      Resolved Q g g' state { status := "executed", executed := true, result }
  | failed {thrown : Thrown} {error : NormalizedError}
      (hstate : ∀ closed ∈ ["blocked", "escalated", "policy_error"],
        state.strictEq (.string closed) = false) (hthrown : Q g' (.error thrown))
      (herror : normalizeError thrown = .ok error) :
      Resolved Q g g' state
        { status := "execution_error", executed := true, error := some error }

theorem obeys_resolveOutcomeInput {Q : γ → Except Thrown (Option ρ) → Prop} {g : γ}
    {state : JsValue} {execute : Gate ρ (Option ρ)} (hexecute : Obeys protocol Q g execute) :
    Obeys protocol (fun g' result => ∀ input, result = .ok input → Resolved Q g g' state input) g
      (resolveOutcomeInput state execute) := by
  unfold resolveOutcomeInput
  split
  · next hstate => exact fun _ h => Except.ok.inj h ▸ .closed (.inl rfl) hstate rfl
  next hblocked =>
  split
  · next hstate => exact fun _ h => Except.ok.inj h ▸ .closed (.inr (.inl rfl)) hstate rfl
  next hescalated =>
  split
  · next hstate => exact fun _ h => Except.ok.inj h ▸ .closed (.inr (.inr rfl)) hstate rfl
  next hpolicyError =>
  have hstate : ∀ closed ∈ ["blocked", "escalated", "policy_error"],
      state.strictEq (.string closed) = false := by
    simp [hblocked, hescalated, hpolicyError]
  -- What the action has thrown is kept until the handler has made an error of it.
  refine Obeys.catching
    (Q := fun g' result => (∀ input, result = .ok input → Resolved Q g g' state input) ∧
      ∀ thrown, result = .error thrown → Q g' (.error thrown)) (fun _ _ h => h.1) ?_ ?_
  · rintro g' thrown ⟨-, hthrown⟩
    refine Obeys.bind (Q := fun g'' result => g'' = g' ∧ result = normalizeError thrown) ?_ ?_
      (Obeys.lift ⟨rfl, rfl⟩)
    · rintro _ error ⟨rfl, herror⟩
      exact fun _ h => Except.ok.inj h ▸ .failed hstate (hthrown _ rfl) herror.symm
    · exact fun _ _ _ _ h => nomatch h
  · refine Obeys.bind (fun g' result hresult => ?_) (fun g' thrown hthrown => ?_) hexecute
    · exact ⟨fun _ h => Except.ok.inj h ▸ .executed hstate hresult, fun _ h => nomatch h⟩
    · refine ⟨(fun _ h => nomatch h), ?_⟩
      rintro _ ⟨⟩
      exact hthrown

variable {P}

variable {A : (op : Op) → Except Thrown (Ans ρ op) → Prop}

variable (P A) in
/-- What a run has come to. -/
structure RunEnds (Q : γ → Except Thrown (Option ρ) → Prop) (g g' : γ) (options : RunOptions)
    (action : ActionEnvelope) (decided : Decided) (run : RunResult ρ) : Prop where
  decides : DecidedBy P A options action decided
  resolved : Resolved Q g g' (decided.artifact.entry.member "decision_state") run.outcomeInput
  closes : ClosedBy P A options action decided run.outcomeInput run

/-- A run obeys a protocol that plain requests leave alone, if its action does. -/
theorem obeys_runGatedAction (hignores : Ignores A protocol)
    {Q : γ → Except Thrown (Option ρ) → Prop} {g : γ} {options : RunOptions}
    {action : ActionEnvelope} {evaluate : ActionEnvelope → String → Gate ρ PolicyDecision}
    {execute : Gate ρ (Option ρ)}
    (hevaluate : ∀ action timestamp, Asks Plain A (fun _ => True) (evaluate action timestamp))
    (hexecute : Obeys protocol Q g execute) :
    Obeys protocol (fun g' result => ∀ run, result = .ok run →
        ∃ decided, RunEnds P A Q g g' options action decided run) g
      (runGatedAction P options action evaluate execute) := by
  have herror : ∀ (error : Thrown) (run : RunResult ρ), Except.error error ≠ .ok run :=
    fun _ _ h => nomatch h
  refine Obeys.bind ?_ (fun _ error _ run h => absurd h (herror error run))
    (hignores.obeys (asks_gateDecision hevaluate) g)
  rintro _ decided ⟨rfl, hdecided⟩
  refine Obeys.bind ?_ (fun _ error _ run h => absurd h (herror error run))
    (obeys_resolveOutcomeInput hexecute)
  intro g' input hinput
  refine (hignores.obeys (asks_gateOutcome options action decided input) g').mono ?_
  rintro _ result ⟨rfl, hclosed⟩ run rfl
  have hrun := hclosed run rfl
  obtain rfl := hrun.outcomeInput
  exact ⟨decided, hdecided decided rfl, hinput _ rfl, hrun⟩

end

end Atrib.ActionGate
