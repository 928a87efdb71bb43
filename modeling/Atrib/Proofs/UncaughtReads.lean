import Atrib.Proofs.AnchorChain

/-!
# What is read outside a `try`

Most of what the servers answer is parsed inside a `try`, and a call that fails
there ends in a warning. Some members are read outside, and the query throws
where the value does not have the shape the code relies on. The places are
gathered step by step, each with the values on which it fails; away from them
every query comes to a result.
-/

namespace Atrib.Verify

open Lib (Effect JsValue JsNumber)
open Lib.Effect (Returns Yields Throws)

variable {σ : Type} (P : Platform σ) (creatorKey : String) (opts : ResolveIdentityOptions σ)

/-! ## The values on which a read fails -/

/-- `String(value)` throws: an own `toString` hides the method. -/
def Unprintable (value : JsValue) : Prop := ∃ e, value.toText P.text = .error e

/-- The body, or the body without its signature, has no canonical form and no
`undefined` in its place: `canonicalize` throws. -/
def Uncanonical (body : JsValue) : Prop :=
  (∃ e, P.canonicalize body = .error e) ∨ ∃ e, P.canonicalize (body.without "signature") = .error e

/-- What the filter of step 1 does not survive: no array, an entry that is null, or an
anchor of the operator's with a timestamp that cannot be compared. -/
def EntriesFail (operatorKey : String) (entries : JsValue) : Prop :=
  entries.array? = none ∨ ∃ items, entries = .array items ∧ ∃ entry ∈ items,
    entry.isNullish ∨ ((entry.member "event_type").strictEq (.string "directory_anchor") ∧
      (entry.member "creator_key").strictEq (.string operatorKey) ∧
      Unprintable P (entry.member "timestamp_ms"))

/-- A member of which `startsWith` is called is no text. -/
def NotText (value : JsValue) : Prop := value.string? = none

/-! ## Where the reads are -/

/-- Steps 1 and 2. -/
def StepOneFails (inputs : StepOneInputs σ) (session : Session σ) : Prop :=
  ∃ origin s₁, fetchDirectoryOrigin P opts session = (.ok (some origin), s₁) ∧
  ∃ entries s₂, fetchEntries P inputs.logEndpoint (deriveDirectoryContextId P origin) s₁ =
      (.ok (some entries), s₂) ∧
    (EntriesFail P inputs.directoryOperatorKey entries ∨ ∃ current older,
      matchingEntries P inputs.directoryOperatorKey (T P opts) entries = .ok (current :: older) ∧
        (current.member "context_id").strictEq (.string (deriveDirectoryContextId P origin)) ∧
        (normalizeAnchorLogIndex current).isSome ∧ NotText (current.member "record_hash"))

/-- Step 3: it is the caller's own endpoints and settings that can fail. -/
def StepThreeFails (logEndpoint : String) (commitment : AnchorCommitment) (session : Session σ) :
    Prop :=
  opts.trustedWitnessEndpoints ≠ [] ∧ ∃ logKey bundle s₁ checkpoint,
    opts.logCheckpointKey = some logKey ∧
      fetchAnchorProofBundle P logEndpoint commitment session = (.ok (.bundle bundle), s₁) ∧
      checkAnchorInclusion P logKey commitment bundle = .ok checkpoint ∧
      Throws (fetchWitnessCosignaturesForCheckpoint P.hash P.ed P.buffers P.cosignatureUrl P.fetchFn
        (currentSeconds P) bundle.checkpoint opts.trustedWitnessEndpoints
        (witnessOptions opts logKey [])) s₁

/-- Step 7: the directory's own `/anchor` answers null. -/
def StepSevenFails (proof : JsValue) (found : Option StepOneSuccess) (session : Session σ) : Prop :=
  opts.verifyLookupProof.isSome ∧ opts.directoryVrfPublicKey.isSome ∧
    (∃ text, proof = .string text ∧ text ≠ "") ∧ found = none ∧ ∃ res body,
      (P.fetchFn (withoutTrailingSlash opts.endpoint ++ "/anchor") session.world).1 = .ok res ∧
        res.isOk ∧ res.json = .ok body ∧ body.isNullish

/-- Step 5 at a parent, whose body may have anything for an epoch. -/
def ParentFails (inputs : StepFiveInputs σ) (parent : AnchorCommitment) (session : Session σ) :
    Prop :=
  ∃ body s₁, fetchBody inputs.fetchAnchorBody parent.recordHash "step-5-chain-body-fetch-error: "
      session = (.ok (some body), s₁) ∧ body.truthy ∧
    ((body.member "metadata").isNullish ∨ Uncanonical P body ∨ ∃ s₂ s₃,
      verifyAnchorBody P body inputs.directoryOperatorKey parent inputs.directoryOrigin
        "step-5-chain" s₁ = (.ok true, s₂) ∧
      verifyAnchorLogInclusion P inputs.logEndpoint opts.logCheckpointKey parent "step-5-chain" s₂ =
        (.ok .confirmed, s₃) ∧
      Unprintable P (WalkedAnchor.mk body parent).epoch)

/-- Step 5 on the walk. -/
inductive WalkFails (inputs : StepFiveInputs σ) (previousHash genesisRoot : String)
    (known : List (String × AnchorCommitment)) : List String → WalkedAnchor → Session σ → Prop where
  | chainRoot {seen child session} : child.commitment.recordHash ≠ previousHash →
      NotText (child.body.member "chain_root") →
      WalkFails inputs previousHash genesisRoot known seen child session
  | parent {seen child session chainRoot parent} : child.commitment.recordHash ≠ previousHash →
      child.body.member "chain_root" = .string chainRoot →
      parentCommitment previousHash genesisRoot known seen child
        (normalizeAnchorRecordHash chainRoot) = .ok parent →
      ParentFails P opts inputs parent session →
      WalkFails inputs previousHash genesisRoot known seen child session
  | later {seen child session chainRoot parent body session'} :
      child.commitment.recordHash ≠ previousHash →
      child.body.member "chain_root" = .string chainRoot →
      parentCommitment previousHash genesisRoot known seen child
        (normalizeAnchorRecordHash chainRoot) = .ok parent →
      checkParent P opts inputs child parent session = (.ok (.confirmed, body), session') →
      WalkFails inputs previousHash genesisRoot known (parent.recordHash :: seen) ⟨body, parent⟩
        session' →
      WalkFails inputs previousHash genesisRoot known seen child session

/-- Step 5 for two different anchors. -/
def BackFails (inputs : StepFiveInputs σ) (previousHash : String) (entries : List JsValue)
    (current : WalkedAnchor) (session : Session σ) : Prop :=
  (∃ entry ∈ entries, NotText (entry.member "record_hash")) ∨
    ∃ known s₁, commitmentsByHash inputs.directoryOperatorKey current.commitment.contextId entries =
        .ok known ∧
      (commitmentOf known previousHash).isSome ∧
      verifyAnchorLogInclusion P inputs.logEndpoint opts.logCheckpointKey current.commitment
        "step-5-chain" session = (.ok .confirmed, s₁) ∧
      WalkFails P opts inputs previousHash (directoryAnchorGenesisRoot P
          (((current.body.member "context_id").string?).getD ""))
        known [current.commitment.recordHash] current s₁

/-- Step 5. -/
def StepFiveFails (inputs : StepFiveInputs σ) (previousAnchorRecordHash : String)
    (found : StepOneSuccess) (session : Session σ) : Prop :=
  ∃ previousHash currentHash,
    normalizeAnchorRecordHash previousAnchorRecordHash = some previousHash ∧
    normalizeAnchorRecordHash found.anchorCommitment.recordHash = some currentHash ∧
    previousHash ≠ currentHash ∧
    BackFails P opts inputs previousHash found.anchorCommitments
      ⟨found.currentBody, { found.anchorCommitment with recordHash := currentHash }⟩ session

/-- Step 7, when it is asked for. -/
def stepSeven (lookupBody : JsValue) (found : Option StepOneSuccess) : Resolve σ StepOutcome :=
  match opts.verifyLookupProof, opts.directoryVrfPublicKey with
  | some verifyLookupProof, some vrfPublicKey =>
      runStepSeven P creatorKey opts verifyLookupProof vrfPublicKey (lookupBody.member "proof")
        (found.map (·.currentBody))
  | _, _ => pure .unavailable

/-- Steps 7 and 5. -/
def ClaimFails (lookupBody : JsValue) (found : Option StepOneSuccess) (session : Session σ) :
    Prop :=
  StepSevenFails P opts (lookupBody.member "proof") found session ∨
    ∃ lookup s₁ success inputs p, stepSeven P creatorKey opts lookupBody found session =
        (.ok lookup, s₁) ∧
      lookup ≠ .rejected ∧ found = some success ∧ stepFiveInputs opts success = some (inputs, p) ∧
      StepFiveFails P opts inputs p success s₁

/-- From step 4 on. -/
def AnchoredFails (lookupBody : JsValue) (inputs : StepOneInputs σ) (found : StepOneSuccess)
    (session : Session σ) : Prop :=
  Uncanonical P found.currentBody ∨ ∃ s₁ s₂,
    verifyAnchorBody P found.currentBody inputs.directoryOperatorKey found.anchorCommitment
      found.directoryOrigin "step-4" session = (.ok true, s₁) ∧
    removeWarning "step-4-checkpoint-signature-not-checked" s₁ = (.ok (), s₂) ∧
    epochMismatch lookupBody found.currentBody = false ∧
    (StepThreeFails P opts inputs.logEndpoint found.anchorCommitment s₂ ∨ ∃ count s₃,
      runStepThree P opts inputs.logEndpoint found.anchorCommitment s₂ = (.ok count, s₃) ∧
      ClaimFails P creatorKey opts lookupBody (some found) s₃)

/-- The query meets a value it does not survive. -/
def QueryFails (session : Session σ) : Prop :=
  ∃ lookupBody s₁, lookUp P creatorKey opts session = (.ok (some lookupBody), s₁) ∧
    (lookupBody.isNullish ∨
      (¬ (lookupBody.member "found").strictEq (.bool false) ∧
        isClaimFor creatorKey (lookupBody.member "claim") ∧
        ((stepOneInputs opts = none ∧ ClaimFails P creatorKey opts lookupBody none s₁) ∨
          ∃ inputs, stepOneInputs opts = some inputs ∧
            (StepOneFails P opts inputs s₁ ∨
              (∃ s₂, runStepOne P opts inputs s₁ = (.ok none, s₂) ∧
                ClaimFails P creatorKey opts lookupBody none s₂) ∨
              ∃ found s₂, runStepOne P opts inputs s₁ = (.ok (some found), s₂) ∧
                AnchoredFails P creatorKey opts lookupBody inputs found s₂))))

/-! ## Calls that survive everything -/

variable {P creatorKey opts}

theorem yields_warned {α : Type} (warning : String) (a : α) :
    Yields (σ := Session σ) (warn warning >>= fun _ => pure a) fun _ => True :=
  (yields_warn warning).seq (Yields.pure trivial)

theorem yields_unwarned {α : Type} (start : String) (a : α) :
    Yields (removeWarning (σ := σ) start >>= fun _ => pure a) fun _ => True :=
  (yields_removeWarning start).seq (Yields.pure trivial)

theorem yields_concluded (result : IdentityResolution) :
    Yields (conclude (σ := σ) creatorKey opts result) fun _ => True := by
  have hstatus : Yields (applyRevocationOnly (σ := σ) creatorKey opts) fun _ => True := by
    unfold applyRevocationOnly
    split
    · exact yields_warned _ _
    split
    · exact Yields.pure trivial
    · exact (yields_warnIf _ _).seq ((yields_warnIf _ _).seq (Yields.pure trivial))
  refine hstatus.bind fun status _ => ?_
  exact fun session => ⟨_, session, rfl, trivial⟩

theorem yields_lookUp_any : Yields (lookUp P creatorKey opts) fun _ => True :=
  Yields.caught fun _ => yields_warned _ _

theorem yields_fetchDirectoryOrigin_any : Yields (fetchDirectoryOrigin P opts) fun _ => True :=
  Yields.caught fun _ => yields_warned _ _

theorem yields_fetchEntries_any (logEndpoint contextHex : String) :
    Yields (fetchEntries P logEndpoint contextHex) fun _ => True :=
  Yields.caught fun _ => yields_warned _ _

theorem yields_fetchBody_any (fetchAnchorBody : String → Effect σ JsValue)
    (recordHash start : String) :
    Yields (fetchBody fetchAnchorBody recordHash start) fun _ => True :=
  Yields.caught fun _ => yields_warned _ _

theorem yields_fetchAnchorProofBundle_any (logEndpoint : String) (commitment : AnchorCommitment) :
    Yields (fetchAnchorProofBundle P logEndpoint commitment) fun _ => True :=
  Yields.caught fun _ => Yields.pure trivial

theorem yields_fetchAuditProof_any (fromEpoch toEpoch : JsValue) :
    Yields (fetchAuditProof P opts fromEpoch toEpoch) fun _ => True :=
  Yields.caught fun _ => yields_warned _ _

theorem yields_verifyAnchorLogInclusion_any (logEndpoint start : String)
    (logKey : Option TrustedCheckpointKey) (commitment : AnchorCommitment) :
    Yields (verifyAnchorLogInclusion P logEndpoint logKey commitment start) fun _ => True := by
  unfold verifyAnchorLogInclusion
  split
  · exact yields_warned _ _
  refine (yields_fetchAnchorProofBundle_any _ _).bind fun answer _ => ?_
  split
  · exact yields_warned _ _
  · exact yields_warned _ _
  split
  · exact yields_warned _ _
  · exact Yields.pure trivial

theorem yields_checkLookupProof_any
    (verifyLookupProof : VerifyLookupProofInput → Except String Bool) (vrfPublicKey : Bytes)
    (proof : String) (rootHash : JsValue) (currentEpoch : JsNumber) :
    Yields (checkLookupProof P creatorKey verifyLookupProof vrfPublicKey proof rootHash currentEpoch)
      fun _ => True := by
  unfold checkLookupProof
  split
  · exact yields_warned _ _
  split
  · exact yields_warned _ _
  · exact yields_unwarned _ _
  · exact yields_warned _ _

theorem yields_checkAuditProof_any (inputs : StepFiveInputs σ) (prior current : WalkedAnchor)
    (proof : String) : Yields (checkAuditProof P inputs prior current proof) fun _ => True := by
  unfold checkAuditProof
  split
  · exact yields_warned _ _
  split
  · exact yields_warned _ _
  · exact yields_unwarned _ _
  · exact yields_warned _ _

/-! ## Bodies and parents -/

theorem anchorBodyHash_eq_error {body : JsValue} :
    (∃ e, anchorBodyHash P body = .error e) ↔ ∃ e, P.canonicalize body = .error e := by
  rw [anchorBodyHash]
  cases P.canonicalize body <;> simp [bind, Except.bind, pure, Except.pure]

theorem throws_verifyAnchorBody {body : JsValue} (hbody : body.isNullish = false)
    {operatorKey origin start : String} {commitment : AnchorCommitment} {session : Session σ} :
    Throws (verifyAnchorBody P body operatorKey commitment origin start) session ↔
      (body.member "metadata").isNullish ∨ Uncanonical P body := by
  have hget : body.get "metadata" = .ok (body.member "metadata") := by
    cases hvalue : body.get "metadata" with
    | ok value => rw [JsValue.member_of_get hvalue]
    | error e => exact absurd (JsValue.get_eq_error.1 ⟨e, hvalue⟩) (by simp [hbody])
  have hmetadata : ∀ s, Throws (Effect.lift (σ := Session σ)
      (do (← body.get "metadata").get "directory_origin")) s ↔
        (body.member "metadata").isNullish := by
    intro s
    rw [Effect.throws_lift, hget]
    exact JsValue.get_eq_error
  unfold verifyAnchorBody
  rw [Effect.throws_bind_iff (Q := Uncanonical P body), hmetadata]
  intro directoryOrigin s
  dsimp only
  rw [Effect.throws_bind_iff (Q := Uncanonical P body),
    or_iff_right ((yields_warnIf _ _).not_throws s)]
  intro _ s
  rw [Effect.throws_bind_iff (Q := ∃ e, P.canonicalize (body.without "signature") = .error e)]
  · refine or_congr_left ?_
    rw [Effect.throws_bind_iff (Q := False), or_false, Effect.throws_lift, anchorBodyHash_eq_error]
    intro computed s
    rw [iff_false]
    split
    · exact (yields_warned _ _).not_throws s
    split
    · exact Effect.not_throws_pure _ s
    · exact (yields_warned _ _).not_throws s
  · intro commitmentMatches s
    rw [Effect.throws_bind_iff (Q := False), or_false, Effect.throws_lift]
    intro canonical s
    rw [iff_false]
    split
    · exact (yields_warned _ _).not_throws s
    split
    · exact (yields_warned _ _).not_throws s
    · exact (yields_warned _ _).not_throws s
    · exact Effect.not_throws_pure _ s

theorem epochsInOrder_eq_error {child parent : WalkedAnchor} :
    (∃ e, epochsInOrder P child parent = .error e) ↔
      Unprintable P child.epoch ∨ Unprintable P parent.epoch := by
  rw [Unprintable, Unprintable, ← JsValue.lessThan_eq_error, epochsInOrder]
  cases child.epoch.lessThan P.text parent.epoch with
  | error e => simp [bind, Except.bind]
  | ok backwards => cases backwards <;> simp [bind, Except.bind, pure, Except.pure]

theorem isNullish_of_truthy {value : JsValue} (h : value.truthy = true) :
    value.isNullish = false := by
  cases value with
  | undefined => cases h
  | null => cases h
  | _ => rfl

theorem throws_checkParent {inputs : StepFiveInputs σ} {child : WalkedAnchor}
    {parent : AnchorCommitment} (hchild : ¬ Unprintable P child.epoch) {session : Session σ} :
    Throws (checkParent P opts inputs child parent) session ↔
      ParentFails P opts inputs parent session := by
  unfold checkParent ParentFails
  rw [(yields_fetchBody_any _ _ _).throws_bind,
    Effect.exists_some fun s => Effect.not_throws_pure _ s]
  refine exists_congr fun body => exists_congr fun s₁ => and_congr_right fun _ => ?_
  dsimp only
  by_cases htruthy : body.truthy = true
  case neg =>
    rw [if_pos (by simpa using htruthy)]
    exact iff_of_false ((yields_warned _ _).not_throws s₁) fun h => htruthy h.1
  rw [if_neg (by simpa using htruthy), and_iff_right htruthy, Effect.throws_bind,
    throws_verifyAnchorBody (isNullish_of_truthy htruthy), or_assoc]
  refine or_congr_right (or_congr_right ?_)
  rw [Effect.exists_only true (fun bodyValid s hvalid => by
    rw [if_pos (by simpa using hvalid)]
    exact Effect.not_throws_pure _ s)]
  refine exists_congr fun s₂ => ?_
  rw [if_neg (by simp), (yields_verifyAnchorLogInclusion_any _ _ _ _).throws_bind,
    Effect.exists_only .confirmed (fun inclusion s hinclusion => by
      rw [if_pos hinclusion]
      exact Effect.not_throws_pure _ s), exists_and_left.symm]
  refine exists_congr fun s₃ => and_congr_right fun _ => and_congr_right fun _ => ?_
  rw [if_neg (by simp), Effect.throws_lift_bind, epochsInOrder_eq_error, or_iff_right hchild,
    or_iff_left]
  intro h
  obtain ⟨inOrder, hinOrder, h⟩ := h
  have hparent : ¬ Unprintable P (WalkedAnchor.mk body parent).epoch := fun hparent => by
    obtain ⟨e, he⟩ := epochsInOrder_eq_error.2 (Or.inr hparent)
    rw [hinOrder] at he
    cases he
  split at h
  · exact Effect.not_throws_pure _ _ h
  rcases Effect.throws_lift_bind.1 h with h | h
  · exact hchild h
  obtain ⟨childEpoch, -, h⟩ := h
  rcases Effect.throws_lift_bind.1 h with h | h
  · exact hparent h
  obtain ⟨parentEpoch, -, h⟩ := h
  exact (yields_warned _ _).not_throws _ h

/-- A parent that has been checked has an epoch with a text. -/
theorem returns_checkParent_epoch (inputs : StepFiveInputs σ) (child : WalkedAnchor)
    (parent : AnchorCommitment) :
    Returns (checkParent P opts inputs child parent) fun checked =>
      checked.1 = .confirmed → ¬ Unprintable P (WalkedAnchor.mk checked.2 parent).epoch := by
  refine (returns_checkParent inputs child parent).mono fun checked hchecked hconfirmed hfail => ?_
  obtain ⟨e, he⟩ := epochsInOrder_eq_error.2 (Or.inr hfail)
  rw [(hchecked hconfirmed).2.2] at he
  cases he

/-! ## The walk -/

theorem textWithStart_eq_error {value : JsValue} :
    (∃ e, textWithStart value = .error e) ↔ NotText value := by
  rw [NotText]
  cases value <;> simp [textWithStart, JsValue.string?]

theorem textWithStart_eq_ok {value : JsValue} {text : String} :
    textWithStart value = .ok text ↔ value = .string text := by
  cases value <;> simp [textWithStart]

/-- The walk fails here or further down. -/
theorem walkFails_iff {inputs : StepFiveInputs σ} {previousHash genesisRoot : String}
    {known : List (String × AnchorCommitment)} {seen : List String} {child : WalkedAnchor}
    {session : Session σ} :
    WalkFails P opts inputs previousHash genesisRoot known seen child session ↔
      child.commitment.recordHash ≠ previousHash ∧ (NotText (child.body.member "chain_root") ∨
        ∃ chainRoot, child.body.member "chain_root" = .string chainRoot ∧
        ∃ parent, parentCommitment previousHash genesisRoot known seen child
          (normalizeAnchorRecordHash chainRoot) = .ok parent ∧
        (ParentFails P opts inputs parent session ∨ ∃ body session',
          checkParent P opts inputs child parent session = (.ok (.confirmed, body), session') ∧
          WalkFails P opts inputs previousHash genesisRoot known (parent.recordHash :: seen)
            ⟨body, parent⟩ session')) := by
  constructor
  · intro h
    cases h with
    | chainRoot hne htext => exact ⟨hne, Or.inl htext⟩
    | parent hne htext hparent hfails =>
        exact ⟨hne, Or.inr ⟨_, htext, _, hparent, Or.inl hfails⟩⟩
    | later hne htext hparent hchecked hfails =>
        exact ⟨hne, Or.inr ⟨_, htext, _, hparent, Or.inr ⟨_, _, hchecked, hfails⟩⟩⟩
  · intro h
    obtain ⟨hne, htext | ⟨chainRoot, htext, parent, hparent, hfails | ⟨body, s', hchecked, hfails⟩⟩⟩ := h
    · exact .chainRoot hne htext
    · exact .parent hne htext hparent hfails
    · exact .later hne htext hparent hchecked hfails

theorem throws_walkAnchors {inputs : StepFiveInputs σ} {previousHash genesisRoot : String}
    {known : List (String × AnchorCommitment)} (n : ℕ) :
    ∀ {seen : List String} {child : WalkedAnchor} {session : Session σ},
      child.commitment.logIndex < n → ¬ Unprintable P child.epoch →
      (Throws (walkAnchors P opts inputs previousHash genesisRoot known seen child) session ↔
        WalkFails P opts inputs previousHash genesisRoot known seen child session) := by
  induction n with
  | zero =>
      intro seen child session hindex
      exact absurd hindex (Nat.not_lt_zero _)
  | succ n ih =>
      intro seen child session hindex hchild
      rw [walkAnchors, walkFails_iff]
      by_cases harrived : child.commitment.recordHash = previousHash
      · rw [if_pos harrived]
        exact iff_of_false (Effect.not_throws_pure _ _) fun h => h.1 harrived
      rw [if_neg harrived, and_iff_right harrived, Effect.throws_lift_bind, textWithStart_eq_error]
      refine or_congr_right (exists_congr fun chainRoot => ?_)
      rw [textWithStart_eq_ok]
      refine and_congr_right fun _ => ?_
      split
      · next warning hwarning =>
          refine iff_of_false ((yields_warned _ _).not_throws _) fun h => ?_
          obtain ⟨parent, hparent, -⟩ := h
          rw [hwarning] at hparent
          cases hparent
      next parent hparent =>
        have hearlier := logIndex_of_parentCommitment hparent
        rw [Effect.throws_bind, throws_checkParent hchild]
        have hstep : ∀ checked session',
            checkParent P opts inputs child parent session = (.ok checked, session') →
            (Throws (if checked.1 = .confirmed then
                walkAnchors P opts inputs previousHash genesisRoot known
                  (parent.recordHash :: seen) ⟨checked.2, parent⟩
              else pure (checked.1, child)) session' ↔
              checked.1 = .confirmed ∧ WalkFails P opts inputs previousHash genesisRoot known
                (parent.recordHash :: seen) ⟨checked.2, parent⟩ session') := by
          intro checked session' hchecked
          by_cases hconfirmed : checked.1 = .confirmed
          · rw [if_pos hconfirmed, and_iff_right hconfirmed]
            refine ih (show parent.logIndex < n by omega) ?_
            exact returns_checkParent_epoch inputs child parent _ _ _ hchecked hconfirmed
          · rw [if_neg hconfirmed]
            exact iff_of_false (Effect.not_throws_pure _ _) fun h => hconfirmed h.1
        constructor
        · intro h
          refine ⟨parent, hparent, h.imp_right fun h => ?_⟩
          obtain ⟨⟨outcome, body⟩, s', hchecked, h⟩ := h
          obtain ⟨rfl, hfails⟩ := (hstep _ _ hchecked).1 h
          exact ⟨body, s', hchecked, hfails⟩
        · intro h
          obtain ⟨parent', hparent', h⟩ := h
          obtain rfl : parent = parent' := Except.ok.inj (hparent.symm.trans hparent')
          refine h.imp_right fun h => ?_
          obtain ⟨body, s', hchecked, hfails⟩ := h
          exact ⟨_, s', hchecked, (hstep _ _ hchecked).2 ⟨rfl, hfails⟩⟩

/-! ## Step 5 -/

/-- Where the walk arrives there is an epoch with a text. -/
theorem returns_walkAnchors_epoch {inputs : StepFiveInputs σ} {previousHash genesisRoot : String}
    {known : List (String × AnchorCommitment)} (n : ℕ) :
    ∀ (seen : List String) (child : WalkedAnchor), child.commitment.logIndex < n →
      ¬ Unprintable P child.epoch →
      Returns (walkAnchors P opts inputs previousHash genesisRoot known seen child) fun walked =>
        walked.1 = .confirmed → ¬ Unprintable P walked.2.epoch := by
  induction n with
  | zero =>
      intro seen child hindex
      exact absurd hindex (Nat.not_lt_zero _)
  | succ n ih =>
      intro seen child hindex hchild
      rw [walkAnchors]
      split
      · exact Returns.pure fun _ => hchild
      refine Returns.bind_any fun chainRoot => ?_
      split
      · exact returns_warned nofun
      next parent hparent =>
        have hearlier := logIndex_of_parentCommitment hparent
        refine (returns_checkParent_epoch inputs child parent).bind fun checked hchecked => ?_
        obtain ⟨outcome, body⟩ := checked
        dsimp only
        split
        · next hconfirmed =>
            exact ih _ ⟨body, parent⟩ (show parent.logIndex < n by omega) (hchecked hconfirmed)
        · next hne => exact Returns.pure fun h => absurd h hne

theorem yields_printed {α : Type} {value : JsValue} (h : ¬ Unprintable P value)
    {f : String → Resolve σ α} (hf : ∀ text, Yields (f text) fun _ => True) :
    Yields (Effect.lift (value.toText P.text) >>= f) fun _ => True := by
  cases htext : value.toText P.text with
  | error e => exact absurd ⟨e, htext⟩ h
  | ok text => exact Yields.lift_bind rfl (hf text)

theorem yields_compareEndpoints_any (inputs : StepFiveInputs σ) {prior current : WalkedAnchor}
    (hprior : ¬ Unprintable P prior.epoch) (hcurrent : ¬ Unprintable P current.epoch) :
    Yields (compareEndpoints P opts inputs prior current) fun _ => True := by
  unfold compareEndpoints
  cases hlt : current.epoch.lessThan P.text prior.epoch with
  | error e =>
      have herror := (JsValue.lessThan_eq_error P.text).1 ⟨e, hlt⟩
      exact absurd herror (not_or.2 ⟨hcurrent, hprior⟩)
  | ok backwards =>
      refine Yields.lift_bind rfl ?_
      split
      · exact yields_printed hprior fun _ => yields_printed hcurrent fun _ => yields_warned _ _
      split
      · split
        · exact yields_printed hcurrent fun _ => yields_warned _ _
        · exact yields_unwarned _ _
      refine (yields_fetchAuditProof_any _ _).bind fun answer _ => ?_
      split
      · exact Yields.pure trivial
      · exact yields_checkAuditProof_any _ _ _ _

theorem commitmentsByHash_eq_error {operatorKey : String} {contextId : JsValue}
    {entries : List JsValue} :
    (∃ e, commitmentsByHash operatorKey contextId entries = .error e) ↔
      ∃ entry ∈ entries, NotText (entry.member "record_hash") := by
  induction entries with
  | nil => simp [commitmentsByHash]
  | cons entry entries ih =>
      rw [commitmentsByHash, List.exists_mem_cons_iff, ← ih, ← textWithStart_eq_error]
      cases textWithStart (entry.member "record_hash") with
      | error e => simp [bind, Except.bind]
      | ok recordHash =>
          show (∃ e, (commitmentsByHash operatorKey contextId entries >>= _) = .error e) ↔ _
          have hread : ¬ ∃ e, Except.ok (ε := String) recordHash = .error e := by simp
          rw [Effect.exists_bind_eq_error, or_iff_right hread, or_iff_left]
          intro h
          obtain ⟨rest, -, e, h⟩ := h
          split at h
          · split at h
            · cases h
            · cases h
          · cases h

theorem throws_walkBack {inputs : StepFiveInputs σ} {previousHash : String}
    {entries : List JsValue} {current : WalkedAnchor} (hcurrent : ¬ Unprintable P current.epoch)
    {session : Session σ} :
    Throws (walkBack P opts inputs previousHash entries current) session ↔
      BackFails P opts inputs previousHash entries current session := by
  unfold walkBack BackFails
  rw [Effect.throws_lift_bind, commitmentsByHash_eq_error]
  refine or_congr_right (exists_congr fun known => ?_)
  rw [exists_and_left]
  refine and_congr_right fun _ => ?_
  cases hfound : commitmentOf known previousHash with
  | none =>
      rw [if_pos (by simp)]
      refine iff_of_false ((yields_warned _ _).not_throws _) fun h => ?_
      obtain ⟨s, h, -⟩ := h
      cases h
  | some commitment =>
      rw [if_neg (by simp), (yields_verifyAnchorLogInclusion_any _ _ _ _).throws_bind,
        Effect.exists_only .confirmed (fun inclusion s hinclusion => by
          rw [if_pos hinclusion]
          exact Effect.not_throws_pure _ s)]
      refine exists_congr fun s₁ => ?_
      rw [and_iff_right (Option.isSome_some)]
      refine and_congr_right fun _ => ?_
      rw [if_neg (by simp), Effect.throws_bind,
        throws_walkAnchors (current.commitment.logIndex + 1) (Nat.lt_succ_self _) hcurrent,
        or_iff_left]
      intro h
      obtain ⟨⟨outcome, prior⟩, s₂, hwalked, h⟩ := h
      dsimp only at h
      split at h
      · next hconfirmed =>
          have hprior := returns_walkAnchors_epoch (current.commitment.logIndex + 1) _ current
            (Nat.lt_succ_self _) hcurrent _ _ _ hwalked hconfirmed
          exact (yields_compareEndpoints_any inputs hprior hcurrent).not_throws _ h
      · exact Effect.not_throws_pure _ _ h

/-- An epoch that has passed step 1 is a number. -/
theorem printable_of_isAnchorBody {body : JsValue} (h : isAnchorBody body = true) :
    ¬ Unprintable P ((body.member "metadata").member "directory_epoch") := by
  rw [isAnchorBody, Bool.and_eq_true, Bool.and_eq_true, Bool.and_eq_true] at h
  obtain ⟨x, hx⟩ := Option.isSome_iff_exists.1 h.1.1.2
  intro hfail
  obtain ⟨e, he⟩ := hfail
  cases hepoch : (body.member "metadata").member "directory_epoch" with
  | number y =>
      rw [hepoch] at he
      simp [JsValue.toText] at he
  | _ =>
      rw [hepoch] at hx
      cases hx

theorem throws_runStepFive {inputs : StepFiveInputs σ} {p : String} {found : StepOneSuccess}
    (hfound : isAnchorBody found.currentBody = true) {session : Session σ} :
    Throws (runStepFive P opts inputs p found.anchorCommitments
        ⟨found.currentBody, found.anchorCommitment⟩) session ↔
      StepFiveFails P opts inputs p found session := by
  unfold runStepFive StepFiveFails
  cases hprevious : normalizeAnchorRecordHash p with
  | none =>
      refine iff_of_false ((yields_warned _ _).not_throws _) fun h => ?_
      obtain ⟨previousHash, currentHash, h, -⟩ := h
      cases h
  | some previousHash =>
      cases hhash : normalizeAnchorRecordHash found.anchorCommitment.recordHash with
      | none =>
          refine iff_of_false ((yields_warned _ _).not_throws _) fun h => ?_
          obtain ⟨previousHash, currentHash, -, h, -⟩ := h
          cases h
      | some currentHash =>
          simp only [Option.some.injEq, exists_and_left, exists_eq_left']
          by_cases hsame : previousHash = currentHash
          · rw [if_pos hsame]
            exact iff_of_false ((yields_unwarned _ _).not_throws _) fun h => h.1 hsame
          · rw [if_neg hsame, and_iff_right hsame]
            refine throws_walkBack ?_
            show ¬ Unprintable P ((found.currentBody.member "metadata").member "directory_epoch")
            exact printable_of_isAnchorBody hfound

/-! ## Steps 1, 3 and 7 -/

theorem isAnchorEntry_eq_error {operatorKey : String} {time : ℚ} {entry : JsValue} :
    (∃ e, isAnchorEntry P operatorKey time entry = .error e) ↔
      entry.isNullish ∨ ((entry.member "event_type").strictEq (.string "directory_anchor") ∧
        (entry.member "creator_key").strictEq (.string operatorKey) ∧
        Unprintable P (entry.member "timestamp_ms")) := by
  rw [isAnchorEntry, Effect.exists_bind_eq_error, JsValue.get_eq_error]
  cases hentry : entry.get "event_type" with
  | error e => simp [JsValue.get_eq_error.1 ⟨e, hentry⟩]
  | ok eventType =>
      have hread : entry.isNullish = false := by
        by_contra h
        obtain ⟨e, he⟩ := JsValue.get_eq_error.2 (by simpa using h)
        rw [hentry] at he
        cases he
      rw [JsValue.member_of_get hentry, hread]
      simp only [Except.ok.injEq, exists_eq_left', Bool.false_eq_true, false_or, ← and_assoc]
      split
      · next hmatch =>
          rw [JsValue.lessEq_eq_error, and_iff_right hmatch, or_iff_left]
          · rfl
          · simp [JsValue.toText]
      · next hmatch => exact iff_of_false (by simp [pure, Except.pure]) fun h => hmatch h.1

theorem filterEntries_eq_error {operatorKey : String} {time : ℚ} {entries : List JsValue} :
    (∃ e, filterEntries P operatorKey time entries = .error e) ↔
      ∃ entry ∈ entries, ∃ e, isAnchorEntry P operatorKey time entry = .error e := by
  induction entries with
  | nil => simp [filterEntries]
  | cons entry entries ih =>
      rw [filterEntries, List.exists_mem_cons_iff, ← ih]
      cases isAnchorEntry P operatorKey time entry with
      | error e => simp [bind, Except.bind]
      | ok isAnchor =>
          cases filterEntries P operatorKey time entries with
          | error e => simp [bind, Except.bind]
          | ok rest => simp [bind, Except.bind, pure, Except.pure]

theorem matchingEntries_eq_error {operatorKey : String} {time : ℚ} {entries : JsValue} :
    (∃ e, matchingEntries P operatorKey time entries = .error e) ↔
      EntriesFail P operatorKey entries := by
  cases entries with
  | array items =>
      rw [EntriesFail, matchingEntries, filterEntries_eq_error]
      simp [JsValue.array?, isAnchorEntry_eq_error]
  | _ => simp [EntriesFail, matchingEntries, JsValue.array?]

theorem matches_of_isAnchorEntry {operatorKey : String} {time : ℚ} {entry : JsValue}
    (h : isAnchorEntry P operatorKey time entry = .ok true) :
    (entry.member "event_type").strictEq (.string "directory_anchor") ∧
      (entry.member "creator_key").strictEq (.string operatorKey) := by
  rw [isAnchorEntry] at h
  cases hentry : entry.get "event_type" with
  | error e =>
      rw [hentry] at h
      cases h
  | ok eventType =>
      rw [hentry] at h
      rw [JsValue.member_of_get hentry]
      by_contra hmatch
      change (if _ then _ else _) = Except.ok true at h
      rw [if_neg hmatch] at h
      cases h

/-- What the filter keeps has a timestamp that can be compared. -/
theorem printable_of_filterEntries {operatorKey : String} {time : ℚ} {entries kept : List JsValue}
    (h : filterEntries P operatorKey time entries = .ok kept) :
    ∀ entry ∈ kept, ¬ Unprintable P (entry.member "timestamp_ms") := by
  induction entries generalizing kept with
  | nil =>
      cases h
      exact fun entry hentry => nomatch hentry
  | cons entry entries ih =>
      rw [filterEntries] at h
      cases hanchor : isAnchorEntry P operatorKey time entry with
      | error e =>
          rw [hanchor] at h
          cases h
      | ok isAnchor =>
          cases hrest : filterEntries P operatorKey time entries with
          | error e =>
              rw [hanchor, hrest] at h
              cases h
          | ok rest =>
              rw [hanchor, hrest] at h
              cases isAnchor with
              | false =>
                  cases h
                  exact ih hrest
              | true =>
                  cases h
                  refine List.forall_mem_cons.2 ⟨fun hfail => ?_, ih hrest⟩
                  obtain ⟨htype, hcreator⟩ := matches_of_isAnchorEntry hanchor
                  obtain ⟨e, he⟩ := isAnchorEntry_eq_error.2 (Or.inr ⟨htype, hcreator, hfail⟩)
                  rw [hanchor] at he
                  cases he

theorem throws_surfaceAnchor {inputs : StepOneInputs σ} {origin : String} {entries : List JsValue}
    {current : JsValue} {logIndex : ℕ} (htime : ¬ Unprintable P (current.member "timestamp_ms"))
    {session : Session σ} :
    Throws (surfaceAnchor P opts inputs origin entries current logIndex) session ↔
      NotText (current.member "record_hash") := by
  unfold surfaceAnchor
  rw [Effect.throws_lift_bind, textWithStart_eq_error, or_iff_left]
  intro h
  obtain ⟨recordHash, -, h⟩ := h
  refine Yields.not_throws (P := fun _ => True) ?_ _ h
  refine (yields_fetchBody_any _ _ _).bind fun body _ => ?_
  cases body with
  | none => exact Yields.pure trivial
  | some body =>
      dsimp only
      split
      · exact yields_warned _ _
      split
      · exact yields_warned _ _
      split
      · exact yields_warned _ _
      cases htext : (current.member "timestamp_ms").toPrimitive P.text with
      | error e => exact absurd ((JsValue.toPrimitive_eq_error P.text).1 ⟨e, htext⟩) htime
      | ok timestamp =>
          refine Yields.lift_bind rfl ?_
          exact (yields_warnIf _ _).seq (yields_unwarned _ _)

/-- Step 1 with the entry it has selected. -/
theorem throws_selected {inputs : StepOneInputs σ} {origin contextId w₁ w₂ : String}
    {entries : List JsValue} {current : JsValue}
    (htime : ¬ Unprintable P (current.member "timestamp_ms")) {session : Session σ} :
    Throws (if !(current.member "context_id").strictEq (.string contextId) then
        warn w₁ >>= fun _ => pure none
      else
        match normalizeAnchorLogIndex current with
        | none => warn w₂ >>= fun _ => pure none
        | some logIndex => surfaceAnchor P opts inputs origin entries current logIndex) session ↔
      (current.member "context_id").strictEq (.string contextId) ∧
        (normalizeAnchorLogIndex current).isSome ∧ NotText (current.member "record_hash") := by
  by_cases hcontext : (current.member "context_id").strictEq (.string contextId) = true
  case neg =>
    rw [Bool.eq_false_iff.2 hcontext]
    exact iff_of_false ((yields_warned _ _).not_throws _) fun h => Bool.false_ne_true h.1
  rw [hcontext, and_iff_right rfl]
  cases normalizeAnchorLogIndex current with
  | none => exact iff_of_false ((yields_warned _ _).not_throws _) fun h => nomatch h.1
  | some logIndex =>
      rw [and_iff_right (Option.isSome_some)]
      exact throws_surfaceAnchor htime

theorem throws_selectAnchor {inputs : StepOneInputs σ} {origin : String} {entries : JsValue}
    {session : Session σ} :
    Throws (selectAnchor P opts inputs origin entries) session ↔
      EntriesFail P inputs.directoryOperatorKey entries ∨ ∃ current older,
        matchingEntries P inputs.directoryOperatorKey (T P opts) entries = .ok (current :: older) ∧
          (current.member "context_id").strictEq (.string (deriveDirectoryContextId P origin)) ∧
          (normalizeAnchorLogIndex current).isSome ∧ NotText (current.member "record_hash") := by
  have htime : ∀ {current older}, matchingEntries P inputs.directoryOperatorKey (T P opts) entries =
      .ok (current :: older) → ¬ Unprintable P (current.member "timestamp_ms") := by
    intro current older h
    cases entries with
    | array items => exact printable_of_filterEntries h _ List.mem_cons_self
    | _ => cases h
  unfold selectAnchor
  rw [Effect.throws_lift_bind, matchingEntries_eq_error]
  refine or_congr_right ?_
  constructor
  · intro h
    obtain ⟨selected, hselected, h⟩ := h
    cases selected with
    | nil => exact absurd h ((yields_warned _ _).not_throws _)
    | cons current older =>
        exact ⟨current, older, hselected, (throws_selected (htime hselected)).1 h⟩
  · intro h
    obtain ⟨current, older, hselected, h⟩ := h
    exact ⟨_, hselected, (throws_selected (htime hselected)).2 h⟩

theorem throws_runStepOne {inputs : StepOneInputs σ} {session : Session σ} :
    Throws (runStepOne P opts inputs) session ↔ StepOneFails P opts inputs session := by
  unfold runStepOne StepOneFails
  rw [yields_fetchDirectoryOrigin_any.throws_bind,
    Effect.exists_some fun s => Effect.not_throws_pure _ s]
  refine exists_congr fun origin => exists_congr fun s₁ => and_congr_right fun _ => ?_
  dsimp only
  rw [(yields_fetchEntries_any _ _).throws_bind,
    Effect.exists_some fun s => Effect.not_throws_pure _ s]
  refine exists_congr fun entries => exists_congr fun s₂ => and_congr_right fun _ => ?_
  exact throws_selectAnchor

/-- Step 1 finds a body with the members the later steps need. -/
theorem returns_runStepOne_body (inputs : StepOneInputs σ) :
    Returns (runStepOne P opts inputs) fun result =>
      ∀ found, result = some found → isAnchorBody found.currentBody = true := by
  refine Returns.bind_any fun origin => ?_
  cases origin with
  | none => exact Returns.pure nofun
  | some origin =>
      refine Returns.bind_any fun entries => ?_
      cases entries with
      | none => exact Returns.pure nofun
      | some entries =>
          refine Returns.bind_any fun selected => ?_
          split
          · exact returns_warned nofun
          split
          · exact returns_warned nofun
          split
          · exact returns_warned nofun
          refine Returns.bind_any fun recordHash => Returns.bind_any fun body => ?_
          cases body with
          | none => exact Returns.pure nofun
          | some body =>
              dsimp only
              split
              · exact returns_warned nofun
              split
              · exact returns_warned nofun
              next hbody =>
                split
                · exact returns_warned nofun
                refine Returns.bind_any fun timestamp => Returns.seq (Returns.seq ?_)
                refine Returns.pure fun found hfound => ?_
                cases hfound
                simpa using hbody

theorem yields_acceptedCosignatures (lines : List String) :
    Yields (acceptedCosignatures P lines) fun _ => True := by
  induction lines with
  | nil => exact Yields.pure trivial
  | cons line lines ih => exact (yields_warnIf _ _).seq (ih.bind fun _ _ => Yields.pure trivial)

theorem throws_acquireCosignatures {logKey : TrustedCheckpointKey} {bundle : AnchorProofBundle}
    {checkpoint : ParsedCheckpointNote} {session : Session σ} :
    Throws (acquireCosignatures P opts logKey bundle checkpoint) session ↔
      opts.trustedWitnessEndpoints ≠ [] ∧
        Throws (fetchWitnessCosignaturesForCheckpoint P.hash P.ed P.buffers P.cosignatureUrl
          P.fetchFn (currentSeconds P) bundle.checkpoint opts.trustedWitnessEndpoints
          (witnessOptions opts logKey [])) session := by
  unfold acquireCosignatures
  by_cases hendpoints : opts.trustedWitnessEndpoints ≠ []
  · rw [if_pos hendpoints, and_iff_right hendpoints, Effect.throws_bind_iff (Q := False), or_false]
    intro fetched s
    exact iff_false_intro (((Yields.modify _).seq (Yields.pure (P := fun _ => True)
      trivial)).not_throws s)
  · rw [if_neg hendpoints]
    refine iff_of_false (Yields.not_throws (P := fun _ => True) ?_ _) fun h => hendpoints h.1
    split
    · exact Yields.pure trivial
    refine (Yields.caught fun _ => yields_warned _ _).bind fun lines _ => ?_
    cases lines with
    | none => exact Yields.pure trivial
    | some lines =>
        refine Yields.bind (P := fun _ => True) ?_ fun _ _ => Yields.pure trivial
        exact (yields_acceptedCosignatures lines).bind fun _ _ => Yields.pure trivial

theorem throws_countWitnesses {logKey : TrustedCheckpointKey} {bundle : AnchorProofBundle}
    {checkpoint : ParsedCheckpointNote} {session : Session σ} :
    Throws (countWitnesses P opts logKey bundle checkpoint) session ↔
      Throws (acquireCosignatures P opts logKey bundle checkpoint) session := by
  unfold countWitnesses
  rw [Effect.throws_bind_iff (Q := False), or_false]
  intro acquired s
  refine iff_false_intro (Yields.not_throws (P := fun _ => True) ?_ s)
  split
  · exact yields_unwarned _ _
  split
  · exact (yields_warn _).seq (yields_unwarned _ _)
  · refine Yields.bind (P := fun _ => True) ?_ fun _ _ =>
      (yields_warnIf _ _).seq (yields_unwarned _ _)
    exact (Yields.modify _).seq (yields_warnIf _ _)

theorem throws_runStepThree {logEndpoint : String} {commitment : AnchorCommitment}
    {session : Session σ} :
    Throws (runStepThree P opts logEndpoint commitment) session ↔
      StepThreeFails P opts logEndpoint commitment session := by
  unfold runStepThree StepThreeFails
  cases opts.logCheckpointKey with
  | none => exact iff_of_false ((yields_warned _ _).not_throws _) (by simp)
  | some logKey =>
      dsimp only
      rw [(yields_fetchAnchorProofBundle_any _ _).throws_bind]
      constructor
      · intro h
        obtain ⟨answer, s₁, hanswer, h⟩ := h
        cases answer with
        | unavailable reason => exact absurd h ((yields_warned _ _).not_throws _)
        | malformed => exact absurd h ((yields_warned _ _).not_throws _)
        | bundle bundle =>
            dsimp only at h
            split at h
            · next failure hfailure =>
                exact absurd h (((yields_warn _).seq (yields_unwarned _ _)).not_throws _)
            next checkpoint hcheckpoint =>
              rw [throws_countWitnesses, throws_acquireCosignatures] at h
              exact ⟨h.1, logKey, bundle, s₁, checkpoint, rfl, hanswer, hcheckpoint, h.2⟩
      · intro h
        obtain ⟨hendpoints, key, bundle, s₁, checkpoint, hkey, hanswer, hcheckpoint, h⟩ := h
        obtain rfl := Option.some.inj hkey
        refine ⟨_, s₁, hanswer, ?_⟩
        dsimp only
        rw [hcheckpoint]
        exact throws_countWitnesses.2 (throws_acquireCosignatures.2 ⟨hendpoints, h⟩)

theorem throws_selfReportedAnchor {session : Session σ} :
    Throws (selfReportedAnchor P opts) session ↔ ∃ res body,
      (P.fetchFn (withoutTrailingSlash opts.endpoint ++ "/anchor") session.world).1 = .ok res ∧
        res.isOk ∧ res.json = .ok body ∧ body.isNullish := by
  unfold selfReportedAnchor
  rw [(Yields.caught fun _ => yields_warned _ _).throws_bind,
    Effect.exists_some fun s => Effect.not_throws_pure _ s]
  obtain ⟨result, hresult⟩ :
    ∃ result, (P.fetchFn (withoutTrailingSlash opts.endpoint ++ "/anchor") session.world).1 =
      result := ⟨_, rfl⟩
  have hask : ask (P.fetchFn (withoutTrailingSlash opts.endpoint ++ "/anchor")) session =
      (result, { session with world :=
        (P.fetchFn (withoutTrailingSlash opts.endpoint ++ "/anchor") session.world).2 }) := by
    rw [ask, hresult]
  rw [hresult]
  cases result with
  | error e =>
      rw [Effect.catching_of_error (Effect.bind_of_error hask)]
      refine iff_of_false (fun h => ?_) fun h => ?_
      · obtain ⟨body, s', h, -⟩ := h
        cases h
      · obtain ⟨res, body, h, -⟩ := h
        cases h
  | ok res =>
      by_cases hok : res.isOk = true
      case neg =>
        rw [Effect.catching_of_ok ((Effect.bind_of_ok hask).trans
          (by rw [if_pos (by simpa using hok)]; rfl))]
        refine iff_of_false (fun h => ?_) fun h => ?_
        · obtain ⟨body, s', h, -⟩ := h
          cases h
        · obtain ⟨_, body, h, hok', -⟩ := h
          cases h
          exact hok hok'
      cases hjson : res.json with
      | error e =>
          rw [Effect.catching_of_error ((Effect.bind_of_ok hask).trans
            (by rw [if_neg (by simpa using hok), hjson]; rfl))]
          refine iff_of_false (fun h => ?_) fun h => ?_
          · obtain ⟨body, s', h, -⟩ := h
            cases h
          · obtain ⟨_, body, h, -, hjson', -⟩ := h
            cases h
            rw [hjson] at hjson'
            cases hjson'
      | ok body =>
          rw [Effect.catching_of_ok ((Effect.bind_of_ok hask).trans
            (by rw [if_neg (by simpa using hok), hjson]; rfl))]
          have hread : ∀ (k : JsValue → Effect (Session σ) (Option (JsValue × JsNumber))) s,
              (∀ epoch s, ¬Throws (k epoch) s) →
                (Throws (Effect.lift (body.get "epoch") >>= k) s ↔ body.isNullish) := by
            intro k s hk
            rw [Effect.throws_lift_bind, JsValue.get_eq_error, or_iff_left]
            intro h
            obtain ⟨epoch, -, h⟩ := h
            exact hk epoch s h
          constructor
          · intro h
            obtain ⟨_, s', h, hthrows⟩ := h
            cases h
            refine ⟨res, body, rfl, hok, hjson, (hread _ _ fun epoch s h => ?_).1 hthrows⟩
            split at h
            · exact Effect.not_throws_pure _ _ h
            · exact (yields_warned _ _).not_throws _ h
          · intro h
            obtain ⟨_, body', h, -, hjson', hnullish⟩ := h
            cases h
            rw [hjson] at hjson'
            cases hjson'
            refine ⟨body, _, rfl, (hread _ _ fun epoch s h => ?_).2 hnullish⟩
            split at h
            · exact Effect.not_throws_pure _ _ h
            · exact (yields_warned _ _).not_throws _ h

theorem throws_stepSeven {lookupBody : JsValue} {found : Option StepOneSuccess}
    {session : Session σ} :
    Throws (stepSeven P creatorKey opts lookupBody found) session ↔
      StepSevenFails P opts (lookupBody.member "proof") found session := by
  unfold stepSeven StepSevenFails
  split
  case h_2 hnone =>
    refine iff_of_false (Effect.not_throws_pure _ _) fun h => ?_
    obtain ⟨verifyLookupProof, hverify⟩ := Option.isSome_iff_exists.1 h.1
    obtain ⟨vrfPublicKey, hvrf⟩ := Option.isSome_iff_exists.1 h.2.1
    exact hnone _ _ hverify hvrf
  next verifyLookupProof vrfPublicKey hverify hvrf =>
    rw [hverify, hvrf, and_iff_right Option.isSome_some, and_iff_right Option.isSome_some]
    unfold runStepSeven
    split
    · next hproof =>
        refine iff_of_false ((yields_warned _ _).not_throws _) fun h => ?_
        obtain ⟨⟨text, htext, hne⟩, -⟩ := h
        rw [htext] at hproof
        simp [JsValue.string?, hne] at hproof
    next text hproof =>
      obtain ⟨htext, hne⟩ := Option.filter_eq_some_iff.1 hproof
      rw [and_iff_right ⟨text, JsValue.eq_string_of_string? htext, by simpa using hne⟩]
      cases found with
      | some found =>
          exact iff_of_false ((yields_checkLookupProof_any _ _ _ _ _).not_throws _) fun h =>
            Option.some_ne_none _ h.1
      | none =>
          rw [and_iff_right rfl, ← throws_selfReportedAnchor]
          show Throws (selfReportedAnchor P opts >>= _) session ↔ _
          rw [Effect.throws_bind_iff (Q := False), or_false]
          intro answer s
          refine iff_false_intro ?_
          split
          · exact Effect.not_throws_pure _ _
          · exact (yields_checkLookupProof_any _ _ _ _ _).not_throws _

/-! ## The query -/

theorem throws_concludeClaim {lookupBody claim : JsValue} {attempted : Bool}
    {found : Option StepOneSuccess} {anchor : Option AnchorSurface}
    (hfound : ∀ success, found = some success → isAnchorBody success.currentBody = true)
    {session : Session σ} :
    Throws (concludeClaim P creatorKey opts lookupBody claim attempted found anchor) session ↔
      ClaimFails P creatorKey opts lookupBody found session := by
  unfold ClaimFails
  show Throws (stepSeven P creatorKey opts lookupBody found >>= _) session ↔ _
  rw [Effect.throws_bind, throws_stepSeven]
  refine or_congr_right (exists_congr fun lookup => exists_congr fun s₁ => ?_)
  simp only [exists_and_left]
  refine and_congr_right fun _ => ?_
  by_cases hlookup : lookup = .rejected
  · rw [if_pos hlookup]
    exact iff_of_false ((yields_concluded _).not_throws _) fun h => h.1 hlookup
  rw [if_neg hlookup, and_iff_right hlookup, Effect.throws_bind_iff (Q := False), or_false]
  · cases found with
    | none => exact iff_of_false (Effect.not_throws_pure _ _) (by simp)
    | some success =>
        dsimp only
        cases hinputs : stepFiveInputs opts success with
        | none =>
            refine iff_of_false (((yields_warnIf _ _).seq (Yields.pure (P := fun _ => True)
              trivial)).not_throws _) fun h => ?_
            obtain ⟨_, h, inputs, p, hinputs', -⟩ := h
            cases h
            rw [hinputs] at hinputs'
            cases hinputs'
        | some inputs =>
            dsimp only
            rw [throws_runStepFive (hfound success rfl)]
            constructor
            · intro h
              exact ⟨success, rfl, inputs.1, inputs.2, hinputs, h⟩
            · intro h
              obtain ⟨_, h, inputs', p, hinputs', hfails⟩ := h
              cases h
              rw [hinputs] at hinputs'
              cases hinputs'
              exact hfails
  · intro appendOnly s
    refine iff_false_intro ?_
    split
    · exact (yields_concluded _).not_throws _
    · exact (yields_concluded _).not_throws _

theorem throws_concludeUnanchored {lookupBody claim : JsValue} {attempted : Bool}
    {session : Session σ} :
    Throws (concludeClaim P creatorKey opts lookupBody claim attempted none none) session ↔
      ClaimFails P creatorKey opts lookupBody none session := by
  refine throws_concludeClaim fun success h => ?_
  cases h

theorem printable_of_number? {value : JsValue} (h : value.number?.isSome = true) :
    ¬ Unprintable P value := by
  intro hfail
  obtain ⟨e, he⟩ := hfail
  cases value with
  | number x => simp [JsValue.toText] at he
  | _ => cases h

theorem isNullish_of_isAnchorBody {body : JsValue} (h : isAnchorBody body = true) :
    body.isNullish = false ∧ (body.member "metadata").isNullish = false := by
  rw [isAnchorBody, Bool.and_eq_true, Bool.and_eq_true, Bool.and_eq_true] at h
  cases horigin : ((body.member "metadata").member "directory_origin").string? with
  | none =>
      rw [horigin] at h
      cases h.1.1.1
  | some origin =>
      obtain ⟨members, hmetadata⟩ :=
        JsValue.eq_object_of_member (JsValue.eq_string_of_string? horigin)
      have hbody : body.isNullish = false := by
        cases body with
        | undefined => cases hmetadata
        | null => cases hmetadata
        | _ => rfl
      rw [hmetadata]
      exact ⟨hbody, rfl⟩

theorem throws_resolveAnchored {lookupBody claim : JsValue} {inputs : StepOneInputs σ}
    {found : StepOneSuccess} (hfound : isAnchorBody found.currentBody = true)
    {session : Session σ} :
    Throws (resolveAnchored P creatorKey opts lookupBody claim inputs found) session ↔
      AnchoredFails P creatorKey opts lookupBody inputs found session := by
  obtain ⟨hbody, hmetadata⟩ := isNullish_of_isAnchorBody hfound
  have hverify : ∀ s, Throws (verifyAnchorBody P found.currentBody inputs.directoryOperatorKey
      found.anchorCommitment found.directoryOrigin "step-4") s ↔
      Uncanonical P found.currentBody := by
    intro s
    rw [throws_verifyAnchorBody hbody, hmetadata]
    simp
  unfold resolveAnchored AnchoredFails
  rw [Effect.throws_bind, hverify]
  refine or_congr_right ?_
  rw [Effect.exists_only true (fun valid s hvalid => by
    rw [if_pos (by simpa using hvalid)]
    exact (yields_concluded _).not_throws s)]
  refine exists_congr fun s₁ => ?_
  rw [exists_and_left]
  refine and_congr_right fun _ => ?_
  rw [if_neg (by simp), (yields_removeWarning _).throws_bind,
    Effect.exists_only () fun _ _ h => absurd rfl h]
  refine exists_congr fun s₂ => and_congr_right fun _ => ?_
  cases hepoch : epochMismatch lookupBody found.currentBody with
  | true =>
      rw [if_pos rfl]
      refine iff_of_false (Yields.not_throws (P := fun _ => True) ?_ _) (by simp)
      have hlookup : ¬ Unprintable P (lookupBody.member "epoch") := by
        rw [epochMismatch, Bool.and_eq_true] at hepoch
        exact printable_of_number? hepoch.1
      refine yields_printed hlookup fun _ => ?_
      refine yields_printed (printable_of_isAnchorBody hfound) fun _ => ?_
      exact (yields_warn _).seq (yields_concluded _)
  | false =>
      rw [if_neg (by simp), and_iff_right rfl, Effect.throws_bind, throws_runStepThree]
      refine or_congr_right (exists_congr fun count => exists_congr fun s₃ =>
        and_congr_right fun _ => ?_)
      refine throws_concludeClaim fun success hsuccess => ?_
      cases hsuccess
      exact hfound

theorem throws_resolveClaim {lookupBody claim : JsValue} {session : Session σ} :
    Throws (resolveClaim P creatorKey opts lookupBody claim) session ↔
      (stepOneInputs opts = none ∧ ClaimFails P creatorKey opts lookupBody none session) ∨
        ∃ inputs, stepOneInputs opts = some inputs ∧
          (StepOneFails P opts inputs session ∨
            (∃ s₂, runStepOne P opts inputs session = (.ok none, s₂) ∧
              ClaimFails P creatorKey opts lookupBody none s₂) ∨
            ∃ found s₂, runStepOne P opts inputs session = (.ok (some found), s₂) ∧
              AnchoredFails P creatorKey opts lookupBody inputs found s₂) := by
  unfold resolveClaim
  cases stepOneInputs opts with
  | none =>
      dsimp only
      rw [throws_concludeUnanchored, or_iff_left, and_iff_right rfl]
      intro h
      obtain ⟨inputs, h, -⟩ := h
      cases h
  | some inputs =>
      dsimp only
      have hnone : ¬ (some inputs = none ∧ ClaimFails P creatorKey opts lookupBody none session) :=
        fun h => nomatch h.1
      rw [or_iff_right hnone, Effect.throws_bind, throws_runStepOne]
      simp only [Option.some.injEq, exists_eq_left']
      refine or_congr_right ?_
      constructor
      · intro h
        obtain ⟨result, s₂, hresult, h⟩ := h
        cases result with
        | none => exact Or.inl ⟨s₂, hresult, throws_concludeUnanchored.1 h⟩
        | some found =>
            have hfound := returns_runStepOne_body inputs _ _ _ hresult found rfl
            exact Or.inr ⟨found, s₂, hresult, (throws_resolveAnchored hfound).1 h⟩
      · intro h
        rcases h with ⟨s₂, hresult, h⟩ | ⟨found, s₂, hresult, h⟩
        · exact ⟨none, s₂, hresult, throws_concludeUnanchored.2 h⟩
        · have hfound := returns_runStepOne_body inputs _ _ _ hresult found rfl
          exact ⟨some found, s₂, hresult, (throws_resolveAnchored hfound).2 h⟩

theorem throws_resolveQuery {session : Session σ} :
    Throws (resolveQuery P creatorKey opts) session ↔ QueryFails P creatorKey opts session := by
  unfold resolveQuery QueryFails
  rw [yields_lookUp_any.throws_bind,
    Effect.exists_some fun s => (yields_concluded _).not_throws s]
  refine exists_congr fun lookupBody => exists_congr fun s₁ => and_congr_right fun _ => ?_
  dsimp only
  unfold resolveLookup
  cases hget : lookupBody.get "found" with
  | error e => exact iff_of_true ⟨e, s₁, rfl⟩ (Or.inl (JsValue.get_eq_error.1 ⟨e, hget⟩))
  | ok value =>
      rw [JsValue.member_of_get hget]
      have hread : ¬ lookupBody.isNullish = true := fun h => by
        obtain ⟨e, he⟩ := JsValue.get_eq_error.2 h
        rw [hget] at he
        cases he
      rw [Effect.throws_lift_ok_bind, or_iff_right hread]
      by_cases hfound : value.strictEq (.bool false) = true
      · rw [if_pos hfound]
        exact iff_of_false ((yields_concluded _).not_throws _) fun h => h.1 hfound
      rw [if_neg hfound, and_iff_right hfound]
      by_cases hclaim : isClaimFor creatorKey (lookupBody.member "claim") = true
      · rw [if_neg (by simpa using hclaim), and_iff_right hclaim]
        exact throws_resolveClaim
      · rw [if_pos (by simpa using hclaim)]
        exact iff_of_false (((yields_warn _).seq (yields_concluded _)).not_throws _) fun h =>
          hclaim h.1

/-- A directory that answers every request with JSON's `null`. -/
def nullDirectory : Platform Unit where
  hash := .fips180
  ed := ⟨fun _ _ _ _ => false⟩
  buffers := ⟨utf8, fun _ => "", utf8⟩
  text := ⟨fun _ => "", fun _ => .nan, fun _ => none⟩
  canonicalize _ := .ok none
  encodeURIComponent := .ok
  cosignatureUrl _ _ _ := .error "not asked"
  fetchFn _ := pure ⟨200, "OK", .ok .null, .ok "null"⟩
  now := 0

end Atrib.Verify
