import Mathlib.Logic.Relation
import Atrib.Verify.ResolveIdentity

/-!
# What the walk of step 5 establishes

Whatever is answered, the walk goes from an anchor to the one its body names,
and goes on only when the parent's evidence has passed every check. So an
accepted walk has been along a chain of vetted anchors, and the audit proof is
about its two ends. The log indexes fall along the chain, which bounds the
number of rounds.
-/

namespace Atrib.Verify

open Lib (Effect JsValue JsNumber)
open Lib.Effect (Returns)

variable {σ : Type} (P : Platform σ)

/-! ## Anchors and their chain -/

/-- The body hashes to the commitment, the operator has signed it, and the two
say the same. -/
structure Vetted (operatorKey directoryOrigin : String) (anchor : WalkedAnchor) : Prop where
  hashes : ∃ text, P.canonicalize anchor.body = .ok (some text) ∧
    sha256Ref (P.hash.sha256 (utf8 text)) = anchor.commitment.recordHash
  signed : ∃ text signature key,
    P.canonicalize (anchor.body.without "signature") = .ok (some text) ∧
      base64urlToBytes P (anchor.body.member "signature") = .ok signature ∧
      base64urlToBytes P (.string operatorKey) = .ok key ∧
      signature.length = 64 ∧ key.length = 32 ∧
      P.ed.verifyAsync signature (utf8 text) key = .ok true
  creatorKey : (anchor.body.member "creator_key").strictEq anchor.commitment.creatorKey
  contextId : (anchor.body.member "context_id").strictEq anchor.commitment.contextId
  timestamp : (anchor.body.member "timestamp").strictEq anchor.commitment.timestampMs
  eventType : (anchor.body.member "event_type").strictEq (.string EVENT_TYPE_DIRECTORY_ANCHOR_URI)
  origin : ((anchor.body.member "metadata").member "directory_origin").strictEq
    (.string directoryOrigin)

/-- The entry of the anchor is a leaf of a tree whose root the log key has signed. -/
def Included (logKey : TrustedCheckpointKey) (commitment : AnchorCommitment) : Prop :=
  ∃ note checkpoint entry proof,
    verifyOperatorCheckpoint P.hash P.ed P.buffers note logKey = .ok checkpoint ∧
      serializeAnchorEntry P commitment = .ok entry ∧
      commitment.logIndex < checkpoint.treeSize ∧
      P.hash.verifyInclusion commitment.logIndex checkpoint.treeSize (P.hash.leafHash entry) proof
        checkpoint.rootHash

/-- One anchor and the one before it, with the evidence there is for that one. -/
structure IsParent (operatorKey directoryOrigin : String) (logKey : TrustedCheckpointKey)
    (child parent : WalkedAnchor) : Prop where
  named : ∃ chainRoot, child.body.member "chain_root" = .string chainRoot ∧
    normalizeAnchorRecordHash chainRoot = some parent.commitment.recordHash
  vetted : Vetted P operatorKey directoryOrigin parent
  included : Included P logKey parent.commitment
  earlier : parent.commitment.logIndex < child.commitment.logIndex
  /-- `parentEpoch > childEpoch` is false. -/
  notLater : child.epoch.lessThan P.text parent.epoch = .ok false
  sameRoot : parent.epoch.strictEq child.epoch → parent.root.strictEq child.root

/-- The directory has answered the request for the range with a proof, and the
callback has accepted the proof for the two roots. -/
def AuditAccepted (opts : ResolveIdentityOptions σ)
    (verifyAuditProof : VerifyAuditProofInput → Except String Bool)
    (prior current : WalkedAnchor) : Prop :=
  ∃ fromText toEpochText world res body proof input,
    prior.epoch.toText P.text = .ok fromText ∧ current.epoch.toText P.text = .ok toEpochText ∧
      (P.fetchFn (withoutTrailingSlash opts.endpoint ++ "/audit-proof?from=" ++ fromText ++
        "&to=" ++ toEpochText) world).1 = .ok res ∧
      res.json = .ok body ∧
      (body.member "from_epoch").strictEq prior.epoch ∧
      (body.member "to_epoch").strictEq current.epoch ∧
      body.member "proof" = .string proof ∧
      decodeAudit P prior current proof = .ok input ∧ verifyAuditProof input = .ok true

/-- The surfaced anchor is at the end of a chain that starts at the one of the
last consultation, and the directory has shown that it only grew between the two. -/
def ChainsBack (opts : ResolveIdentityOptions σ) (operatorKey previousHash currentHash : String) :
    Prop :=
  ∃ logKey verifyAuditProof directoryOrigin current prior,
    opts.logCheckpointKey = some logKey ∧ opts.verifyAuditProof = some verifyAuditProof ∧
      current.commitment.recordHash = currentHash ∧ prior.commitment.recordHash = previousHash ∧
      Vetted P operatorKey directoryOrigin current ∧ Included P logKey current.commitment ∧
      Relation.ReflTransGen (IsParent P operatorKey directoryOrigin logKey) current prior ∧
      current.epoch.lessThan P.text prior.epoch = .ok false ∧
      (current.epoch.strictEq prior.epoch → prior.root.strictEq current.root) ∧
      (¬ current.epoch.strictEq prior.epoch →
        AuditAccepted P opts verifyAuditProof prior current)

/-! ## One check after the other -/

/-- A check that fails with a warning. -/
theorem returns_warned {α : Type} {warning : String} {a : α} {Q : α → Prop} (h : Q a) :
    Returns (σ := Session σ) (warn warning >>= fun _ => pure a) Q := .seq (.pure h)

variable {P} {opts : ResolveIdentityOptions σ}

theorem vetted_of_signature {body : JsValue} {operatorKey directoryOrigin canonical hashed : String}
    {commitment : AnchorCommitment}
    (hmatch : commitmentMismatches body ((body.member "metadata").member "directory_origin")
      commitment directoryOrigin = [])
    (hhash : P.canonicalize body = .ok (some hashed))
    (hcommitment : sha256Ref (P.hash.sha256 (utf8 hashed)) = commitment.recordHash)
    (hcanonical : P.canonicalize (body.without "signature") = .ok (some canonical))
    (hsignature : anchorSignatureOk P body canonical operatorKey = .ok true) :
    Vetted P operatorKey directoryOrigin ⟨body, commitment⟩ := by
  simp only [commitmentMismatches, List.append_eq_nil_iff, ite_eq_left_iff,
    List.cons_ne_nil, imp_false, Decidable.not_not] at hmatch
  obtain ⟨⟨⟨⟨hcreator, hcontext⟩, htime⟩, htype⟩, horigin⟩ := hmatch
  refine ⟨⟨hashed, hhash, hcommitment⟩, ?_, hcreator, hcontext, htime, htype, horigin⟩
  rw [anchorSignatureOk] at hsignature
  cases hsig : base64urlToBytes P (body.member "signature") with
  | error e =>
      rw [hsig] at hsignature
      cases hsignature
  | ok signature =>
      cases hkey : base64urlToBytes P (.string operatorKey) with
      | error e =>
          rw [hsig, hkey] at hsignature
          cases hsignature
      | ok key =>
          rw [hsig, hkey] at hsignature
          by_cases hlen : signature.length ≠ 64 ∨ key.length ≠ 32
          · simp [bind, Except.bind, hlen, throw, throwThe, MonadExceptOf.throw] at hsignature
          · have hverify : P.ed.verifyAsync signature (utf8 canonical) key = .ok true := by
              simpa [bind, Except.bind, hlen, pure, Except.pure] using hsignature
            push Not at hlen
            exact ⟨canonical, signature, key, hcanonical, rfl, rfl, hlen.1, hlen.2, hverify⟩

/-- What the hash check of a body returns. -/
theorem returns_anchorBodyHash {body : JsValue} :
    Returns (σ := Session σ) (Effect.lift (anchorBodyHash P body)) fun computed =>
      ∀ recordHash, computed = some recordHash → ∃ text,
        P.canonicalize body = .ok (some text) ∧
          sha256Ref (P.hash.sha256 (utf8 text)) = recordHash := by
  refine Returns.lift fun computed hcomputed recordHash hsome => ?_
  rw [anchorBodyHash] at hcomputed
  cases hcanonical : P.canonicalize body with
  | error e =>
      rw [hcanonical] at hcomputed
      cases hcomputed
  | ok text =>
      rw [hcanonical] at hcomputed
      cases hcomputed
      cases text with
      | none => cases hsome
      | some text => exact ⟨text, rfl, Option.some.inj hsome⟩

theorem returns_verifyAnchorBody (body : JsValue) (operatorKey : String)
    (commitment : AnchorCommitment) (directoryOrigin start : String) :
    Returns (verifyAnchorBody P body operatorKey commitment directoryOrigin start) fun ok =>
      ok = true → Vetted P operatorKey directoryOrigin ⟨body, commitment⟩ := by
  rw [verifyAnchorBody]
  refine (Returns.lift (P := fun origin =>
    (body.member "metadata").member "directory_origin" = origin) ?_).bind fun origin horigin => ?_
  · intro origin horigin
    cases hmetadata : body.get "metadata" with
    | error e =>
        rw [hmetadata] at horigin
        cases horigin
    | ok metadata =>
        rw [hmetadata] at horigin
        rw [JsValue.member_of_get hmetadata, JsValue.member_of_get horigin]
  refine Returns.seq ?_
  refine Returns.bind (P := fun agrees => agrees = true → ∃ text,
    P.canonicalize body = .ok (some text) ∧
      sha256Ref (P.hash.sha256 (utf8 text)) = commitment.recordHash) ?_ fun agrees hagrees => ?_
  · refine returns_anchorBodyHash.bind fun computed hcomputed => ?_
    cases computed with
    | none => exact returns_warned nofun
    | some computed =>
        dsimp only
        split
        · next heq =>
            refine Returns.pure fun _ => ?_
            rw [← heq]
            exact hcomputed computed rfl
        · exact returns_warned nofun
  refine (Returns.lift (P := fun text => P.canonicalize (body.without "signature") = .ok text)
    fun _ h => h).bind fun text htext => ?_
  cases text with
  | none => exact returns_warned nofun
  | some canonical =>
      dsimp only
      split
      · exact returns_warned nofun
      · exact returns_warned nofun
      · next hsignature =>
          refine Returns.pure fun hall => ?_
          rw [Bool.and_eq_true, beq_iff_eq] at hall
          obtain ⟨hashed, hhashed, hhash⟩ := hagrees hall.1
          exact vetted_of_signature (horigin ▸ hall.2) hhashed hhash htext hsignature

theorem included_of_check {logKey : TrustedCheckpointKey} {commitment : AnchorCommitment}
    {bundle : AnchorProofBundle} {checkpoint : ParsedCheckpointNote}
    (h : checkAnchorInclusion P logKey commitment bundle = .ok checkpoint) :
    Included P logKey commitment := by
  unfold checkAnchorInclusion at h
  split at h
  · cases h
  next verified hoperator =>
    split at h
    · cases h
    split at h
    · cases h
    next hindex hcovered =>
      split at h
      · cases h
      next expectedLeafHash claimedLeafHash proof hbytes =>
        split at h
        · cases h
        split at h
        · cases h
        next hleaf hproof =>
          have hentry : ∃ entry, serializeAnchorEntry P commitment = .ok entry ∧
              expectedLeafHash = P.hash.leafHash entry := by
            cases hserialize : serializeAnchorEntry P commitment with
            | error e =>
                rw [inclusionBytes, hserialize] at hbytes
                cases hbytes
            | ok entry =>
                rw [inclusionBytes, hserialize] at hbytes
                refine ⟨entry, rfl, ?_⟩
                simp only [bind, Except.bind, pure, Except.pure] at hbytes
                split at hbytes
                · cases hbytes
                split at hbytes
                · cases hbytes
                cases hbytes
                rfl
          obtain ⟨entry, hserialize, rfl⟩ := hentry
          rw [ne_eq, Decidable.not_not] at hindex
          rw [hindex, Bool.not_eq_true, Bool.not_eq_false'] at hproof
          exact ⟨bundle.checkpoint, verified, entry, proof, hoperator, hserialize,
            not_le.1 hcovered, hproof⟩

theorem returns_verifyAnchorLogInclusion (logEndpoint start : String)
    (logKey : Option TrustedCheckpointKey) (commitment : AnchorCommitment) :
    Returns (verifyAnchorLogInclusion P logEndpoint logKey commitment start) fun outcome =>
      outcome = .confirmed → ∃ key, logKey = some key ∧ Included P key commitment := by
  cases logKey with
  | none => exact returns_warned nofun
  | some key =>
      refine Returns.bind_any fun answer => ?_
      cases answer with
      | unavailable reason => exact returns_warned nofun
      | malformed => exact returns_warned nofun
      | bundle bundle =>
          dsimp only
          split
          · exact returns_warned nofun
          · next hcheck => exact Returns.pure fun _ => ⟨key, rfl, included_of_check hcheck⟩

theorem epochsInOrder_eq_true {child parent : WalkedAnchor}
    (h : epochsInOrder P child parent = .ok true) :
    child.epoch.lessThan P.text parent.epoch = .ok false ∧
      (parent.epoch.strictEq child.epoch → parent.root.strictEq child.root) := by
  rw [epochsInOrder] at h
  cases hlt : child.epoch.lessThan P.text parent.epoch with
  | error e =>
      rw [hlt] at h
      cases h
  | ok later =>
      rw [hlt] at h
      cases later with
      | true => cases h
      | false =>
          have hsame : (!(parent.epoch.strictEq child.epoch &&
            !parent.root.strictEq child.root)) = true := Except.ok.inj h
          refine ⟨rfl, fun hepoch => ?_⟩
          simpa [hepoch] using hsame

/-- A parent whose evidence is confirmed is in order with its child. -/
theorem returns_checkParent (inputs : StepFiveInputs σ) (child : WalkedAnchor)
    (parent : AnchorCommitment) :
    Returns (checkParent P opts inputs child parent) fun checked =>
      checked.1 = .confirmed →
        Vetted P inputs.directoryOperatorKey inputs.directoryOrigin ⟨checked.2, parent⟩ ∧
        (∃ key, opts.logCheckpointKey = some key ∧ Included P key parent) ∧
        epochsInOrder P child ⟨checked.2, parent⟩ = .ok true := by
  refine Returns.bind_any fun body => ?_
  cases body with
  | none => exact Returns.pure nofun
  | some body =>
      dsimp only
      split
      · exact returns_warned nofun
      refine (returns_verifyAnchorBody body _ parent _ _).bind fun valid hvalid => ?_
      split
      · exact Returns.pure nofun
      next hok =>
        refine (returns_verifyAnchorLogInclusion _ _ _ parent).bind fun outcome houtcome => ?_
        split
        · next hne => exact Returns.pure fun h => absurd h hne
        next hconfirmed =>
          refine (Returns.lift (P := fun ok => epochsInOrder P child ⟨body, parent⟩ = .ok ok)
            fun _ h => h).bind fun inOrder hinOrder => ?_
          split
          · next htrue =>
              refine Returns.pure fun _ => ⟨hvalid (by simpa using hok), ?_, htrue ▸ hinOrder⟩
              exact houtcome (Decidable.not_not.1 hconfirmed)
          · refine Returns.bind_any fun childEpoch => Returns.bind_any fun parentEpoch => ?_
            exact returns_warned nofun

/-! ## The walk -/

theorem parentCommitment_eq_ok {previousHash genesisRoot : String}
    {known : List (String × AnchorCommitment)} {seen : List String} {child : WalkedAnchor}
    {parentHash : Option String} {parent : AnchorCommitment}
    (h : parentCommitment previousHash genesisRoot known seen child parentHash = .ok parent) :
    ∃ recordHash, parentHash = some recordHash ∧ commitmentOf known recordHash = some parent := by
  unfold parentCommitment at h
  split at h
  · cases h
  next recordHash =>
    split at h
    · cases h
    split at h
    · cases h
    split at h
    · cases h
    next found hfound =>
      split at h
      · cases h
      cases h
      exact ⟨recordHash, rfl, hfound⟩

/-- Every known commitment is under its own hash. -/
theorem recordHash_of_commitmentsByHash {operatorKey : String} {contextId : JsValue} :
    ∀ {entries : List JsValue} {known : List (String × AnchorCommitment)},
      commitmentsByHash operatorKey contextId entries = .ok known →
        ∀ pair ∈ known, pair.2.recordHash = pair.1 := by
  intro entries
  induction entries with
  | nil =>
      intro known h pair hpair
      cases h
      cases hpair
  | cons entry entries ih =>
      intro known h pair hpair
      rw [commitmentsByHash] at h
      cases htext : textWithStart (entry.member "record_hash") with
      | error e =>
          rw [htext] at h
          cases h
      | ok text =>
          cases hrest : commitmentsByHash operatorKey contextId entries with
          | error e =>
              rw [htext, hrest] at h
              cases h
          | ok rest =>
              rw [htext, hrest] at h
              simp only [bind, Except.bind] at h
              split at h
              · split at h
                · cases h
                  rcases List.mem_cons.1 hpair with rfl | hpair
                  · rfl
                  · exact ih hrest pair hpair
                · cases h
                  exact ih hrest pair hpair
              · cases h
                exact ih hrest pair hpair

theorem recordHash_of_commitmentOf {known : List (String × AnchorCommitment)} {recordHash : String}
    {commitment : AnchorCommitment} (hknown : ∀ pair ∈ known, pair.2.recordHash = pair.1)
    (h : commitmentOf known recordHash = some commitment) : commitment.recordHash = recordHash := by
  have hmem : (recordHash, commitment) ∈ known := by
    rw [commitmentOf, List.lookup_eq_some_iff] at h
    obtain ⟨before, after, hsplit, -⟩ := h
    rw [← List.mem_reverse, hsplit]
    simp
  exact hknown _ hmem

theorem eq_string_of_textWithStart {value : JsValue} {text : String}
    (h : textWithStart value = .ok text) : value = .string text := by
  cases value with
  | string s => exact congrArg JsValue.string (Except.ok.inj h)
  | _ => cases h

/-- A confirmed walk has followed the chain down to the anchor it was to find. -/
theorem returns_walkAnchors {inputs : StepFiveInputs σ} {previousHash genesisRoot : String}
    {known : List (String × AnchorCommitment)} {logKey : TrustedCheckpointKey}
    (hknown : ∀ pair ∈ known, pair.2.recordHash = pair.1)
    (hkey : opts.logCheckpointKey = some logKey) (seen : List String) (child : WalkedAnchor) :
    Returns (walkAnchors P opts inputs previousHash genesisRoot known seen child) fun walked =>
      walked.1 = .confirmed → walked.2.commitment.recordHash = previousHash ∧
        Relation.ReflTransGen
          (IsParent P inputs.directoryOperatorKey inputs.directoryOrigin logKey) child walked.2 := by
  -- the loop's own measure: the parent's index is below the child's
  induction hn : child.commitment.logIndex using Nat.strong_induction_on generalizing seen child with
  | _ n ih =>
      rw [walkAnchors]
      split
      · next harrived => exact Returns.pure fun _ => ⟨harrived, .refl⟩
      refine (Returns.lift (P := fun text => textWithStart (child.body.member "chain_root") =
        .ok text) fun _ h => h).bind fun chainRoot hchainRoot => ?_
      split
      · exact returns_warned (by rintro ⟨⟩)
      next parent hparent =>
        have hearlier := logIndex_of_parentCommitment hparent
        refine (returns_checkParent inputs child parent).bind fun checked hchecked => ?_
        obtain ⟨outcome, body⟩ := checked
        dsimp only
        split
        · next hconfirmed =>
            obtain ⟨hvetted, ⟨key, hkey', hincluded⟩, horder⟩ := hchecked hconfirmed
            obtain rfl : logKey = key := Option.some.inj (hkey.symm.trans hkey')
            obtain ⟨hnotLater, hsameRoot⟩ := epochsInOrder_eq_true horder
            obtain ⟨recordHash, hnormalized, hfound⟩ := parentCommitment_eq_ok hparent
            have hnamed := hnormalized.trans
              (congrArg some (recordHash_of_commitmentOf hknown hfound).symm)
            have hstep : IsParent P inputs.directoryOperatorKey inputs.directoryOrigin logKey child
                ⟨body, parent⟩ :=
              ⟨⟨chainRoot, eq_string_of_textWithStart hchainRoot, hnamed⟩, hvetted, hincluded,
                hearlier, hnotLater, hsameRoot⟩
            refine (ih parent.logIndex (hn ▸ hearlier) (parent.recordHash :: seen)
              ⟨body, parent⟩ rfl).mono fun walked hwalked hok => ?_
            exact ⟨(hwalked hok).1, .head hstep (hwalked hok).2⟩
        · next hne => exact Returns.pure fun h => absurd h hne

/-! ## The rounds of the loop -/

variable (P opts) in
/-- One round of the loop, with what comes after it. -/
def walkRound (inputs : StepFiveInputs σ) (previousHash genesisRoot : String)
    (known : List (String × AnchorCommitment))
    (next : List String → WalkedAnchor → Resolve σ (Option (StepOutcome × WalkedAnchor)))
    (seen : List String) (child : WalkedAnchor) :
    Resolve σ (Option (StepOutcome × WalkedAnchor)) :=
  if child.commitment.recordHash = previousHash then pure (some (.confirmed, child))
  else do
    let chainRoot ← Effect.lift (textWithStart (child.body.member "chain_root"))
    match parentCommitment previousHash genesisRoot known seen child
        (normalizeAnchorRecordHash chainRoot) with
    | .error warning => do
        warn warning
        pure (some (.rejected, child))
    | .ok parent => do
        let (outcome, body) ← checkParent P opts inputs child parent
        if outcome = .confirmed then next (parent.recordHash :: seen) ⟨body, parent⟩
        else pure (some (outcome, child))

variable (P opts) in
/-- The loop with a bound on its rounds; nothing when they have not been enough. -/
def walkRounds (inputs : StepFiveInputs σ) (previousHash genesisRoot : String)
    (known : List (String × AnchorCommitment)) :
    ℕ → List String → WalkedAnchor → Resolve σ (Option (StepOutcome × WalkedAnchor))
  | 0 => fun _ _ => pure none
  | n + 1 => walkRound P opts inputs previousHash genesisRoot known
      (walkRounds inputs previousHash genesisRoot known n)

/-- There are no more rounds than the index of the anchor the loop starts from. -/
theorem walkRounds_eq {inputs : StepFiveInputs σ} {previousHash genesisRoot : String}
    {known : List (String × AnchorCommitment)} (n : ℕ) (seen : List String) (child : WalkedAnchor)
    (h : child.commitment.logIndex < n) :
    walkRounds P opts inputs previousHash genesisRoot known n seen child =
      some <$> walkAnchors P opts inputs previousHash genesisRoot known seen child := by
  induction n generalizing seen child with
  | zero => omega
  | succ n ih =>
      rw [walkRounds, walkRound, walkAnchors]
      split
      · rfl
      refine Eq.trans ?_ (map_bind some _ _).symm
      refine bind_congr fun chainRoot => ?_
      cases hparent : parentCommitment previousHash genesisRoot known seen child
          (normalizeAnchorRecordHash chainRoot) with
      | error warning => rfl
      | ok parent =>
          have hearlier := logIndex_of_parentCommitment hparent
          refine Eq.trans ?_ (map_bind some _ _).symm
          refine bind_congr fun checked => ?_
          obtain ⟨outcome, body⟩ := checked
          by_cases hconfirmed : outcome = .confirmed
          · simp only [hconfirmed, if_true]
            exact ih _ ⟨body, parent⟩ (show parent.logIndex < n by omega)
          · simp only [hconfirmed, if_false]
            rfl

/-! ## The two ends -/

variable (P opts) in
/-- What a request for a proof of the range has come to. -/
def AuditAnswered (prior current : WalkedAnchor) : AuditAnswer → Prop
  | .failed outcome => outcome ≠ .confirmed
  | .proof proof => ∃ fromText toEpochText world res body,
      prior.epoch.toText P.text = .ok fromText ∧ current.epoch.toText P.text = .ok toEpochText ∧
        (P.fetchFn (withoutTrailingSlash opts.endpoint ++ "/audit-proof?from=" ++ fromText ++
          "&to=" ++ toEpochText) world).1 = .ok res ∧
        res.json = .ok body ∧
        (body.member "from_epoch").strictEq prior.epoch ∧
        (body.member "to_epoch").strictEq current.epoch ∧
        body.member "proof" = .string proof

theorem returns_fetchAuditProof {prior current : WalkedAnchor} :
    Returns (fetchAuditProof P opts prior.epoch current.epoch)
      (AuditAnswered P opts prior current) := by
  refine Returns.catching ?_ fun message => returns_warned nofun
  refine (Returns.lift (P := fun text => prior.epoch.toText P.text = .ok text)
    fun _ h => h).bind fun fromText hfrom => ?_
  refine (Returns.lift (P := fun text => current.epoch.toText P.text = .ok text)
    fun _ h => h).bind fun toEpochText hto => ?_
  refine (returns_ask (Q := fun res => ∃ world, (P.fetchFn (withoutTrailingSlash opts.endpoint ++
    "/audit-proof?from=" ++ fromText ++ "&to=" ++ toEpochText) world).1 = .ok res)
    fun world res h => ⟨world, h⟩).bind fun res hres => ?_
  obtain ⟨world, hres⟩ := hres
  split
  · exact returns_warned nofun
  refine (Returns.lift (P := fun body => res.json = .ok body) fun _ h => h).bind
    fun body hbody => ?_
  refine (Returns.lift (P := fun value => body.get "from_epoch" = .ok value) fun _ h => h).bind
    fun bodyFrom hbodyFrom => ?_
  dsimp only
  split
  · refine Returns.bind_any fun bodyFromText => Returns.bind_any fun bodyToText => ?_
    exact returns_warned nofun
  next hrange =>
    rw [Bool.not_eq_true, Bool.not_eq_false', Bool.and_eq_true,
      ← JsValue.member_of_get hbodyFrom] at hrange
    split
    · exact returns_warned nofun
    next proof hproof =>
      exact Returns.pure ⟨fromText, toEpochText, world, res, body, hfrom, hto, hres, hbody, hrange.1, hrange.2,
        JsValue.eq_string_of_string? (Option.filter_eq_some_iff.1 hproof).1⟩

theorem returns_checkAuditProof (inputs : StepFiveInputs σ) (prior current : WalkedAnchor)
    (proof : String) :
    Returns (checkAuditProof P inputs prior current proof) fun outcome =>
      outcome = .confirmed → ∃ input, decodeAudit P prior current proof = .ok input ∧
        inputs.verifyAuditProof input = .ok true := by
  rw [checkAuditProof]
  split
  · exact returns_warned nofun
  next input hinput =>
    split
    · exact returns_warned nofun
    · next haccepts => exact Returns.seq (Returns.pure fun _ => ⟨input, hinput, haccepts⟩)
    · exact returns_warned nofun

theorem returns_compareEndpoints (inputs : StepFiveInputs σ) (prior current : WalkedAnchor) :
    Returns (compareEndpoints P opts inputs prior current) fun outcome =>
      outcome = .confirmed → current.epoch.lessThan P.text prior.epoch = .ok false ∧
        (current.epoch.strictEq prior.epoch → prior.root.strictEq current.root) ∧
        (¬ current.epoch.strictEq prior.epoch →
          AuditAccepted P opts inputs.verifyAuditProof prior current) := by
  refine (Returns.lift (P := fun backwards => current.epoch.lessThan P.text prior.epoch =
    .ok backwards) fun _ h => h).bind fun backwards hbackwards => ?_
  split
  · refine Returns.bind_any fun fromText => Returns.bind_any fun toEpochText => ?_
    exact returns_warned nofun
  next hforward =>
    rw [Bool.not_eq_true] at hforward
    subst hforward
    split
    · next hsame =>
        split
        · exact Returns.bind_any fun toEpochText => returns_warned nofun
        next hroot =>
          exact Returns.seq (Returns.pure fun _ =>
            ⟨hbackwards, fun _ => by simpa using hroot, fun hne => absurd hsame hne⟩)
    · next hne =>
        refine returns_fetchAuditProof.bind fun answer hanswer => ?_
        cases answer with
        | failed outcome => exact Returns.pure fun h => absurd h hanswer
        | proof text =>
            refine (returns_checkAuditProof inputs prior current text).mono fun outcome h hok => ?_
            obtain ⟨input, hinput, haccepts⟩ := h hok
            obtain ⟨fromText, toEpochText, world, res, body, hfrom, hto, hres, hbody, hbodyFrom,
              hbodyTo, hproof⟩ := hanswer
            exact ⟨hbackwards, fun h => absurd h hne, fun _ => ⟨fromText, toEpochText, world, res,
              body, text, input, hfrom, hto, hres, hbody, hbodyFrom, hbodyTo, hproof, hinput,
              haccepts⟩⟩

/-- A confirmed walk back has a chain between the two anchors, with its evidence. -/
theorem returns_walkBack (inputs : StepFiveInputs σ) (previousHash : String)
    (anchorCommitments : List JsValue) (current : WalkedAnchor) :
    Returns (walkBack P opts inputs previousHash anchorCommitments current) fun outcome =>
      outcome = .confirmed → ∃ logKey prior, opts.logCheckpointKey = some logKey ∧
        Included P logKey current.commitment ∧ prior.commitment.recordHash = previousHash ∧
        Relation.ReflTransGen
          (IsParent P inputs.directoryOperatorKey inputs.directoryOrigin logKey) current prior ∧
        current.epoch.lessThan P.text prior.epoch = .ok false ∧
        (current.epoch.strictEq prior.epoch → prior.root.strictEq current.root) ∧
        (¬ current.epoch.strictEq prior.epoch →
          AuditAccepted P opts inputs.verifyAuditProof prior current) := by
  refine (Returns.lift (P := fun known => ∀ pair ∈ known, pair.2.recordHash = pair.1)
    fun known h => recordHash_of_commitmentsByHash h).bind fun known hknown => ?_
  split
  · exact returns_warned nofun
  refine (returns_verifyAnchorLogInclusion _ _ _ _).bind fun inclusion hinclusion => ?_
  split
  · next hne => exact Returns.pure fun h => absurd h hne
  next hconfirmed =>
    obtain ⟨logKey, hkey, hincluded⟩ := hinclusion (Decidable.not_not.1 hconfirmed)
    refine (returns_walkAnchors hknown hkey _ current).bind fun walked hwalked => ?_
    obtain ⟨outcome, prior⟩ := walked
    dsimp only
    split
    · next hok =>
        refine (returns_compareEndpoints inputs prior current).mono ?_
        intro outcome hends houtcome
        exact ⟨logKey, prior, hkey, hincluded, (hwalked hok).1, (hwalked hok).2, hends houtcome⟩
    · next hne => exact Returns.pure fun h => absurd h hne

theorem hasHashPrefix_append (text : String) : hasHashPrefix ("sha256:" ++ text) = true := by
  rw [hasHashPrefix, String.toList_append, List.isPrefixOf_iff_prefix]
  exact List.prefix_append _ _

theorem withHashPrefix_idem (text : String) :
    withHashPrefix (withHashPrefix text) = withHashPrefix text := by
  rw [withHashPrefix]
  split
  · rfl
  next hnot =>
    rw [withHashPrefix] at hnot
    split at hnot
    · next h => exact absurd h hnot
    · exact absurd (hasHashPrefix_append text) hnot

/-- A hash with its prefix is its own normal form, if it has one. -/
theorem normalizeAnchorRecordHash_withHashPrefix {text normalized : String}
    (h : normalizeAnchorRecordHash (withHashPrefix text) = some normalized) :
    normalized = withHashPrefix text := by
  rw [normalizeAnchorRecordHash, withHashPrefix_idem] at h
  split at h
  · exact (Option.some.inj h).symm
  · cases h

/-- What step 5 has confirmed about a prior and a current anchor. -/
theorem returns_runStepFive (inputs : StepFiveInputs σ) (p recordHash : String)
    (anchorCommitments : List JsValue) (current : WalkedAnchor)
    (hcurrent : current.commitment.recordHash = withHashPrefix recordHash)
    (hvetted : Vetted P inputs.directoryOperatorKey inputs.directoryOrigin current)
    (haudit : opts.verifyAuditProof = some inputs.verifyAuditProof) :
    Returns (runStepFive P opts inputs p anchorCommitments current) fun outcome =>
      outcome = .confirmed → ∃ previousHash, normalizeAnchorRecordHash p = some previousHash ∧
        (previousHash = current.commitment.recordHash ∨
          ChainsBack P opts inputs.directoryOperatorKey previousHash
            current.commitment.recordHash) := by
  unfold runStepFive
  split
  · exact returns_warned nofun
  next previousHash hprevious =>
    split
    · exact returns_warned nofun
    next currentHash hnormalized =>
      rw [hcurrent] at hnormalized
      have hhash : currentHash = current.commitment.recordHash :=
        (normalizeAnchorRecordHash_withHashPrefix hnormalized).trans hcurrent.symm
      subst hhash
      split
      · next hsame => exact Returns.seq (Returns.pure fun _ => ⟨previousHash, hprevious, .inl hsame⟩)
      · refine (returns_walkBack inputs previousHash anchorCommitments current).mono
          fun outcome hback hok => ⟨previousHash, hprevious, .inr ?_⟩
        obtain ⟨logKey, prior, hkey, hincluded, hprior, hchain, hends⟩ := hback hok
        exact ⟨logKey, inputs.verifyAuditProof, inputs.directoryOrigin, current, prior, hkey, haudit,
          rfl, hprior, hvetted, hincluded, hchain, hends⟩

/-! ## The query -/

/-- The anchor that is surfaced is the one whose commitment is checked. -/
def StepOneSuccess.Matching (found : StepOneSuccess) : Prop :=
  ∃ recordHash, found.anchorCommitment.recordHash = withHashPrefix recordHash ∧
    found.anchor.anchorRecordHash = withHashPrefix recordHash

theorem returns_surfaceAnchor (inputs : StepOneInputs σ) (directoryOrigin : String)
    (entries : List JsValue) (current : JsValue) (logIndex : ℕ) :
    Returns (surfaceAnchor P opts inputs directoryOrigin entries current logIndex) fun result =>
      ∀ found, result = some found → found.Matching := by
  refine Returns.bind_any fun recordHash => Returns.bind_any fun body => ?_
  cases body with
  | none => exact Returns.pure nofun
  | some body =>
      dsimp only
      split
      · exact returns_warned nofun
      split
      · exact returns_warned nofun
      split
      · exact returns_warned nofun
      refine Returns.bind_any fun timestamp => Returns.seq (Returns.seq ?_)
      refine Returns.pure fun found hfound => ?_
      cases hfound
      exact ⟨recordHash, rfl, rfl⟩

theorem returns_selectAnchor (inputs : StepOneInputs σ) (directoryOrigin : String)
    (entries : JsValue) :
    Returns (selectAnchor P opts inputs directoryOrigin entries) fun result =>
      ∀ found, result = some found → found.Matching := by
  refine Returns.bind_any fun selected => ?_
  split
  · exact returns_warned nofun
  split
  · exact returns_warned nofun
  split
  · exact returns_warned nofun
  · exact returns_surfaceAnchor inputs directoryOrigin _ _ _

theorem returns_runStepOne (inputs : StepOneInputs σ) :
    Returns (runStepOne P opts inputs) fun result =>
      ∀ found, result = some found → found.Matching := by
  refine Returns.bind_any fun origin => ?_
  cases origin with
  | none => exact Returns.pure nofun
  | some origin =>
      refine Returns.bind_any fun entries => ?_
      cases entries with
      | none => exact Returns.pure nofun
      | some entries => exact returns_selectAnchor inputs origin entries

variable (creatorKey : String)

/-- A result is concluded as it was put together. -/
theorem returns_conclude (result : IdentityResolution) :
    Returns (conclude creatorKey opts result) fun concluded =>
      ∃ status warnings, concluded = { result with keyRevocationStatus := status, warnings } := by
  refine Returns.bind_any fun status => ?_
  intro session concluded session' h
  cases h
  exact ⟨status, session.warnings, rfl⟩

theorem returns_conclude_of {result : IdentityResolution} {Q : IdentityResolution → Prop}
    (h : ∀ status warnings, Q { result with keyRevocationStatus := status, warnings }) :
    Returns (conclude creatorKey opts result) Q := by
  refine (returns_conclude creatorKey result).mono fun concluded hconcluded => ?_
  obtain ⟨status, warnings, rfl⟩ := hconcluded
  exact h status warnings

variable (P opts) in
/-- What a result that says `append_only_consistent = true` is to be relied on for. -/
def AppendOnlySound (result : IdentityResolution) : Prop :=
  result.appendOnlyConsistent = some true → ∃ surface p operatorKey previousHash,
    result.anchor = some surface ∧ opts.previousAnchorRecordHash = some p ∧
      opts.directoryOperatorKey = some operatorKey ∧
      normalizeAnchorRecordHash p = some previousHash ∧
      (previousHash = surface.anchorRecordHash ∨
        ChainsBack P opts operatorKey previousHash surface.anchorRecordHash)

theorem returns_conclude_unclaimed {result : IdentityResolution}
    (h : result.appendOnlyConsistent ≠ some true) :
    Returns (conclude creatorKey opts result) (AppendOnlySound P opts) :=
  returns_conclude_of creatorKey fun _ _ hclaim => absurd hclaim h

theorem eq_some_of_present {text : Option String} {s : String} (h : present text = some s) :
    text = some s := (Option.filter_eq_some_iff.1 h).1

theorem eq_some_of_stepOneInputs {inputs : StepOneInputs σ} (h : stepOneInputs opts = some inputs) :
    opts.directoryOperatorKey = some inputs.directoryOperatorKey := by
  rw [stepOneInputs] at h
  cases hlog : present opts.logEndpoint with
  | none => simp [hlog] at h
  | some logEndpoint =>
      cases hkey : present opts.directoryOperatorKey with
      | none => simp [hlog, hkey] at h
      | some key =>
          cases hfetch : opts.fetchAnchorBody with
          | none => simp [hlog, hkey, hfetch] at h
          | some fetch =>
              rw [hlog, hkey, hfetch] at h
              cases h
              exact eq_some_of_present hkey

/-- Step 5 is given what the options say and what step 1 has found. -/
theorem eq_some_of_stepFiveInputs {found : StepOneSuccess} {inputs : StepFiveInputs σ} {p : String}
    (h : stepFiveInputs opts found = some (inputs, p)) :
    opts.verifyAuditProof = some inputs.verifyAuditProof ∧
      opts.previousAnchorRecordHash = some p ∧
      opts.directoryOperatorKey = some inputs.directoryOperatorKey ∧
      inputs.directoryOrigin = found.directoryOrigin := by
  rw [stepFiveInputs] at h
  cases haudit : opts.verifyAuditProof with
  | none => simp [haudit] at h
  | some verifyAuditProof =>
      cases hprevious : present opts.previousAnchorRecordHash with
      | none => simp [haudit, hprevious] at h
      | some previous =>
          cases hinputs : stepOneInputs opts with
          | none => simp [haudit, hprevious, hinputs] at h
          | some stepOne =>
              rw [haudit, hprevious, hinputs] at h
              cases h
              exact ⟨rfl, eq_some_of_present hprevious, eq_some_of_stepOneInputs hinputs, rfl⟩

/-- The result of a claim, given what step 4 has established of its anchor. -/
theorem returns_concludeClaim (lookupBody claim : JsValue) (attempted : Bool)
    (found : Option StepOneSuccess) (anchor : Option AnchorSurface)
    (hfound : ∀ success, found = some success → success.Matching ∧
      (anchor.map (·.anchorRecordHash) = some success.anchor.anchorRecordHash) ∧
      ∀ operatorKey, opts.directoryOperatorKey = some operatorKey →
        Vetted P operatorKey success.directoryOrigin ⟨success.currentBody, success.anchorCommitment⟩) :
    Returns (concludeClaim P creatorKey opts lookupBody claim attempted found anchor)
      (AppendOnlySound P opts) := by
  refine Returns.bind_any fun lookup => ?_
  split
  · exact returns_conclude_unclaimed creatorKey nofun
  refine Returns.bind (P := fun appendOnly => appendOnly = .confirmed → ∃ success inputs p
      previousHash, found = some success ∧ stepFiveInputs opts success = some (inputs, p) ∧
        normalizeAnchorRecordHash p = some previousHash ∧
        (previousHash = success.anchorCommitment.recordHash ∨
          ChainsBack P opts inputs.directoryOperatorKey previousHash
            success.anchorCommitment.recordHash)) ?_ fun appendOnly hcheck => ?_
  · cases found with
    | none => exact Returns.pure nofun
    | some success =>
        dsimp only
        split
        · next inputs p hinputs =>
            obtain ⟨haudit, -, hkey, horigin⟩ := eq_some_of_stepFiveInputs hinputs
            obtain ⟨⟨recordHash, hcommitment, -⟩, -, hvetted⟩ := hfound success rfl
            refine (returns_runStepFive inputs p recordHash success.anchorCommitments
              ⟨success.currentBody, success.anchorCommitment⟩ hcommitment
              (horigin ▸ hvetted _ hkey) haudit).mono fun outcome houtcome hok => ?_
            obtain ⟨previousHash, hprevious, hback⟩ := houtcome hok
            exact ⟨success, inputs, p, previousHash, rfl, hinputs, hprevious, hback⟩
        · exact Returns.seq (Returns.pure nofun)
  · split
    · exact returns_conclude_unclaimed creatorKey nofun
    refine returns_conclude_of creatorKey fun status warnings hclaim => ?_
    have hconfirmed : appendOnly = .confirmed := by
      cases appendOnly with
      | confirmed => rfl
      | unavailable => cases hclaim
      | rejected => cases hclaim
    obtain ⟨success, inputs, p, previousHash, hsuccess, hinputs, hprevious, hback⟩ :=
      hcheck hconfirmed
    obtain ⟨⟨recordHash, hcommitment, hsurface⟩, hanchor, -⟩ := hfound success hsuccess
    obtain ⟨-, hp, hkey, -⟩ := eq_some_of_stepFiveInputs hinputs
    obtain ⟨surface, hsome, hhash⟩ := Option.map_eq_some_iff.1 hanchor
    rw [hcommitment, ← hsurface, ← hhash] at hback
    exact ⟨surface, p, inputs.directoryOperatorKey, previousHash, hsome, hp, hkey, hprevious, hback⟩

theorem returns_resolveAnchored (lookupBody claim : JsValue) {inputs : StepOneInputs σ}
    {found : StepOneSuccess} (hinputs : stepOneInputs opts = some inputs)
    (hmatching : found.Matching) :
    Returns (resolveAnchored P creatorKey opts lookupBody claim inputs found)
      (AppendOnlySound P opts) := by
  refine (returns_verifyAnchorBody _ _ _ _ _).bind fun valid hvalid => ?_
  dsimp only
  split
  · exact returns_conclude_unclaimed creatorKey nofun
  next hok =>
    refine Returns.seq ?_
    split
    · refine Returns.bind_any fun lookupEpoch => Returns.bind_any fun anchorEpoch => ?_
      exact Returns.seq (returns_conclude_unclaimed creatorKey nofun)
    refine Returns.bind_any fun witnessCount => ?_
    refine returns_concludeClaim creatorKey lookupBody claim true (some found) _ ?_
    intro success hsuccess
    cases hsuccess
    refine ⟨hmatching, rfl, fun operatorKey hkey => ?_⟩
    have hsame : inputs.directoryOperatorKey = operatorKey :=
      Option.some.inj ((eq_some_of_stepOneInputs hinputs).symm.trans hkey)
    exact hsame ▸ hvalid (by simpa using hok)

theorem returns_resolveLookup (lookupBody : JsValue) :
    Returns (resolveLookup P creatorKey opts lookupBody) (AppendOnlySound P opts) := by
  refine Returns.bind_any fun wasFound => ?_
  split
  · exact returns_conclude_unclaimed creatorKey nofun
  dsimp only
  split
  · exact Returns.seq (returns_conclude_unclaimed creatorKey nofun)
  unfold resolveClaim
  split
  · exact returns_concludeClaim creatorKey _ _ _ none _ nofun
  next inputs hinputs =>
    refine (returns_runStepOne inputs).bind fun found hfound => ?_
    cases found with
    | none => exact returns_concludeClaim creatorKey _ _ _ none _ nofun
    | some found => exact returns_resolveAnchored creatorKey _ _ hinputs (hfound found rfl)

theorem returns_resolveQuery :
    Returns (resolveQuery P creatorKey opts) (AppendOnlySound P opts) := by
  refine Returns.bind_any fun answer => ?_
  cases answer with
  | none => exact returns_conclude_unclaimed creatorKey nofun
  | some lookupBody => exact returns_resolveLookup creatorKey lookupBody

theorem resolveIdentity_eq_ok {world world' : σ} {result : IdentityResolution}
    (h : resolveIdentity P creatorKey opts world = (.ok result, world')) :
    ∃ session, resolveQuery P creatorKey opts ⟨world, uncheckedWarnings⟩ = (.ok result, session) :=
  ⟨_, Prod.ext (Prod.mk.inj h).1 rfl⟩

variable (P opts) in
/-- Whatever the directory, the log and the source of the bodies answer, a result that
says `append_only_consistent = true` surfaces the anchor that was consulted before, or one
at the end of a chain of vetted anchors that starts there, with a proof that was accepted
for the range between the two; and the loop that follows the chain ends. -/
theorem appendOnlyConsistent_sound :
    (∀ world result world', resolveIdentity P creatorKey opts world = (.ok result, world') →
      result.appendOnlyConsistent = some true → ∃ surface p operatorKey previousHash,
        result.anchor = some surface ∧ opts.previousAnchorRecordHash = some p ∧
          opts.directoryOperatorKey = some operatorKey ∧
          normalizeAnchorRecordHash p = some previousHash ∧
          (previousHash = surface.anchorRecordHash ∨
            ChainsBack P opts operatorKey previousHash surface.anchorRecordHash)) ∧
    ∀ inputs previousHash genesisRoot known seen child,
      walkRounds P opts inputs previousHash genesisRoot known (child.commitment.logIndex + 1)
          seen child =
        some <$> walkAnchors P opts inputs previousHash genesisRoot known seen child := by
  constructor
  · intro world result world' h
    obtain ⟨session, hquery⟩ := resolveIdentity_eq_ok creatorKey h
    exact returns_resolveQuery creatorKey _ result session hquery
  · intro inputs previousHash genesisRoot known seen child
    exact walkRounds_eq _ seen child (Nat.lt_succ_self _)

end Atrib.Verify
