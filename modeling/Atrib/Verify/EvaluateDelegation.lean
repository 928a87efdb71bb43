import Atrib.Verify.Delegation

/-!
# The delegation walk

`evaluateDelegation` of `packages/verify/src/delegation.ts` (§1.11.4): from the
key that has signed a record to the certificates for it, and from there to the
principal. The depth rule of the source skips the certificate it is about; a
certificate without errors has two keys, so it would not match anyway and the
model does not ask. Nothing throws on certificates of the declared types.
-/

namespace Atrib.Verify

open Lib (JsNumber)

/-! ## Scope -/

/-- Facts about the use of a key that a record does not carry. -/
structure DelegationScopeFacts where
  amount : Option DelegationAmount := none
  counterpartyKeys : Option (List String) := none
  trustedTimeMs : Option JsNumber := none
  modelTier : Option String := none
  tokensSpent : Option JsNumber := none

structure DelegationScopeCheck where
  inScope : Bool
  fullyEvaluated : Bool
  /-- The envelope of the principal is not consulted here. -/
  attenuationOk : Option Bool := none
  mismatches : List String
  unverifiable : List String
deriving DecidableEq

/-- What a declared constraint comes to: a mismatch, not to be verified, or neither. -/
inductive ConstraintVerdict where
  | mismatch
  | unverifiable
  | none
deriving DecidableEq

/-- A bound that is declared is checked against a fact, if there is one. -/
def checkConstraint {α β : Type} (bound : Option α) (fact : Option β) (fails : α → β → Bool) :
    ConstraintVerdict :=
  match bound, fact with
  | .none, _ => .none
  | some _, .none => .unverifiable
  | some bound, some fact => if fails bound fact then .mismatch else .none

/-- The constraints of a scope in the order in which the source checks them. -/
def scopeVerdicts (record : AtribRecord) (scope : DelegationScope) (facts : DelegationScopeFacts) :
    List (String × ConstraintVerdict) :=
  [("tool_names", checkConstraint scope.toolNames (record.rest.lookup "tool_name")
      fun names name => !names.contains name),
    ("event_types", checkConstraint scope.eventTypes (some record.eventType)
      fun types type => !types.contains type),
    ("max_amount", checkConstraint scope.maxAmount facts.amount
      fun bound amount => amount.currency ≠ bound.currency || bound.value.lt amount.value),
    ("counterparties", checkConstraint scope.counterparties facts.counterpartyKeys
      fun allowed keys => keys.any fun key => !allowed.contains key),
    ("expires_at", checkConstraint scope.expiresAt facts.trustedTimeMs
      fun bound time => bound.lt time),
    ("cost_policy.model_tiers", checkConstraint (scope.costPolicy.bind (·.modelTiers))
      facts.modelTier fun tiers tier => !tiers.contains tier),
    ("cost_policy.max_tokens", checkConstraint (scope.costPolicy.bind (·.maxTokens))
      facts.tokensSpent fun bound tokens => bound.lt tokens)]

def checkDelegationScope (record : AtribRecord) (scope : DelegationScope)
    (facts : DelegationScopeFacts) : DelegationScopeCheck :=
  let verdicts := scopeVerdicts record scope facts
  let mismatches := (verdicts.filter (·.2 = .mismatch)).map Prod.fst
  let unverifiable := (verdicts.filter (·.2 = .unverifiable)).map Prod.fst
  { inScope := mismatches = [], fullyEvaluated := unverifiable = [], mismatches, unverifiable }

/-! ## The facts of one certificate -/

inductive TimeBasis where
  | trustedVerifierTime
  | recordTimestampClaim
  | invalidTrustedTime
deriving DecidableEq

structure EvaluateDelegationOptions where
  revokedKeys : Option (List String) := none
  trustedTimeMs : Option JsNumber := none
  scopeFacts : DelegationScopeFacts := {}

/-- `Number.isSafeInteger(options.trustedTimeMs) && options.trustedTimeMs >= 0` -/
def EvaluateDelegationOptions.trustedTime? (options : EvaluateDelegationOptions) :
    Option JsNumber :=
  options.trustedTimeMs.filter (·.safeIndex?.isSome)

/-- The time at which certificates are looked at: that of the caller if it is one, and
what the record says of itself otherwise. -/
def evaluationTime (record : AtribRecord) (options : EvaluateDelegationOptions) : JsNumber :=
  options.trustedTime?.getD (.finite record.timestamp)

def timeBasis (options : EvaluateDelegationOptions) : TimeBasis :=
  match options.trustedTimeMs, options.trustedTime? with
  | none, _ => .recordTimestampClaim
  | some _, some _ => .trustedVerifierTime
  | some _, none => .invalidTrustedTime

def DelegationCertificate.windowFrom (cert : DelegationCertificate) : JsNumber :=
  cert.notBefore.getD (.finite 0)

/-- `from <= time && time <= to` -/
def inWindow (cert : DelegationCertificate) (time : JsNumber) : Bool :=
  cert.windowFrom.le time && time.le cert.notAfter

def windowsOverlap (a b : DelegationCertificate) : Bool :=
  a.windowFrom.le b.notAfter && b.windowFrom.le a.notAfter

structure DelegationCandidate where
  principalKey : String
  certHash : String
  inWindow : Bool
  timeBasis : TimeBasis
  timeTrusted : Bool
  contextBound : Option Bool
  certBound : Option Bool
  scopeCheck : Option DelegationScopeCheck
deriving DecidableEq

/-- The hash to which the genesis of the context commits the signer of the record: only a
genesis with the same signer does. -/
def genesisCommitment (record : AtribRecord) (genesis : Option AtribRecord) : Option String :=
  (genesis.filter (·.creatorKey = record.creatorKey)).bind delegationCertHash

variable (H : Hash) (codec : DelegationCodec)

def contextBound (record : AtribRecord) (cert : DelegationCertificate) : Option Bool :=
  cert.contextId.map (· == record.contextId)

def scopeCheck (record : AtribRecord) (options : EvaluateDelegationOptions)
    (cert : DelegationCertificate) : Option DelegationScopeCheck :=
  cert.scope.map fun scope => checkDelegationScope record scope
    { options.scopeFacts with
      trustedTimeMs := options.trustedTime?.orElse fun _ => options.scopeFacts.trustedTimeMs }

def candidateFacts (record : AtribRecord) (genesis : Option AtribRecord)
    (options : EvaluateDelegationOptions) (cert : DelegationCertificate) : DelegationCandidate where
  principalKey := cert.principalKey
  certHash := safeCertHash H codec cert
  inWindow := inWindow cert (evaluationTime record options)
  timeBasis := timeBasis options
  timeTrusted := options.trustedTime?.isSome
  contextBound := contextBound record cert
  certBound := (genesisCommitment record genesis).map (· == safeCertHash H codec cert)
  scopeCheck := scopeCheck record options cert

/-! ## The walk -/

structure DelegationOutcome where
  depth : ℕ := 0
  principalKey : Option String := none
  certHash : Option String := none
  certValid : Option Bool := none
  inWindow : Option Bool := none
  timeBasis : Option TimeBasis := none
  timeTrusted : Option Bool := none
  contextBound : Option Bool := none
  certBound : Option Bool := none
  scopeCheck : Option DelegationScopeCheck := none
  revoked : Option Bool := none
  errors : List String := []
  delegationUnresolved : Bool := false
  delegationAmbiguous : Bool := false
  candidates : List DelegationCandidate := []
deriving DecidableEq

/-- The errors of a certificate as evidence: its own, or those of a chain. -/
def evidenceErrors (certs : List DelegationCertificate) (cert : DelegationCertificate) :
    List String :=
  let errors := delegationCertErrors codec cert
  if errors = [] ∧ certs.any (fun other =>
      other.runPubkey = cert.principalKey ∧ delegationCertErrors codec other = []) then
    ["delegation_depth_exceeded"]
  else errors

/-- The certificates for the key that has signed the record. -/
def coveringCertificates (record : AtribRecord) (certs : List DelegationCertificate) :
    List DelegationCertificate :=
  certs.filter (·.runPubkey = record.creatorKey)

def validCertificates (record : AtribRecord) (certs : List DelegationCertificate) :
    List DelegationCertificate :=
  (coveringCertificates record certs).filter (evidenceErrors codec certs · = [])

/-- Different principals certify the same key for the same time. -/
def conflicting (a b : DelegationCertificate) : Bool :=
  a.principalKey ≠ b.principalKey && windowsOverlap a b

/-- No certificate is evidence, and the walk reports one of those it rejects. -/
def rejectedOutcome (certs : List DelegationCertificate) (cert : DelegationCertificate) :
    DelegationOutcome where
  certHash := some (safeCertHash H codec cert)
  certValid := some false
  errors := evidenceErrors codec certs cert

def resolvedOutcome (record : AtribRecord) (genesis : Option AtribRecord)
    (options : EvaluateDelegationOptions) (cert : DelegationCertificate) : DelegationOutcome :=
  let facts := candidateFacts H codec record genesis options cert
  { depth := 1
    principalKey := some facts.principalKey
    certHash := some facts.certHash
    certValid := some true
    inWindow := some facts.inWindow
    timeBasis := some facts.timeBasis
    timeTrusted := some facts.timeTrusted
    contextBound := facts.contextBound
    certBound := facts.certBound
    scopeCheck := facts.scopeCheck
    revoked := some (options.revokedKeys.any fun keys =>
      keys.contains record.creatorKey || keys.contains cert.principalKey) }

def evaluateDelegation (record : AtribRecord) (genesis : Option AtribRecord)
    (certs : List DelegationCertificate) (options : EvaluateDelegationOptions) :
    DelegationOutcome :=
  match coveringCertificates record certs with
  | [] => { delegationUnresolved := (genesisCommitment record genesis).isSome }
  | first :: _ =>
      match validCertificates codec record certs with
      | [] => rejectedOutcome H codec certs first
      | cert :: rest =>
          -- the loops over `i < j`
          if (cert :: rest).Pairwise fun a b => conflicting a b = false then
            resolvedOutcome H codec record genesis options
              (((cert :: rest).find? (inWindow · (evaluationTime record options))).getD cert)
          else
            { delegationAmbiguous := true
              candidates := (cert :: rest).map (candidateFacts H codec record genesis options) }

end Atrib.Verify
