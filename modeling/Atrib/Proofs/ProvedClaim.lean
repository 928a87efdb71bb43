import Atrib.Proofs.AppendOnlyVerdict

/-!
# The claim that is surfaced and the claim that is proved

The callback of step 7 gets a key, a root, an epoch, a label and a proof. What a
proof that is accepted opens the root to is not handed back, and the claim of
the lookup's answer takes no part in the check. So a result with a valid proof
carries whatever claim was answered: the two are the same exactly when the
answer has put them together rightly.
-/

namespace Atrib.Verify

open Lib (Effect JsValue JsNumber)
open Lib.Effect (Returns)

variable {σ : Type} (P : Platform σ) (creatorKey : String) (opts : ResolveIdentityOptions σ)

/-- The value a directory stores for a claim. -/
def encodeClaim (claim : JsValue) : Option Bytes :=
  match P.canonicalize claim with
  | .ok (some text) => some (utf8 text)
  | _ => none

/-- The call comes to steps 7 and 5, with this answer of the lookup and what step 1 has found. -/
def ReachesProof (world : σ) (lookupBody : JsValue) (found : Option StepOneSuccess)
    (session : Session σ) : Prop :=
  ∃ s₁, lookUp P creatorKey opts ⟨world, uncheckedWarnings⟩ = (.ok (some lookupBody), s₁) ∧
    ((stepOneInputs opts = none ∧ found = none ∧ session = s₁) ∨
      ∃ inputs, stepOneInputs opts = some inputs ∧
        ((runStepOne P opts inputs s₁ = (.ok none, session) ∧ found = none) ∨
          ∃ success s₂ s₃ s₄ count, found = some success ∧
            runStepOne P opts inputs s₁ = (.ok (some success), s₂) ∧
            verifyAnchorBody P success.currentBody inputs.directoryOperatorKey
              success.anchorCommitment success.directoryOrigin "step-4" s₂ = (.ok true, s₃) ∧
            removeWarning "step-4-checkpoint-signature-not-checked" s₃ = (.ok (), s₄) ∧
            runStepThree P opts inputs.logEndpoint success.anchorCommitment s₄ =
              (.ok count, session)))

/-- What step 7 hands to the callback: the proof of the answer, and the root and the epoch of
the anchor on the log, or else of the directory's own report. -/
def Checks (lookupBody : JsValue) (found : Option StepOneSuccess) (session : Session σ)
    (input : VerifyLookupProofInput) : Prop :=
  opts.directoryVrfPublicKey = some input.vrfPublicKey ∧ input.label = creatorKey ∧
    ∃ text rootHash, lookupBody.member "proof" = .string text ∧
      decodeLookup P rootHash text = .ok (input.rootHash, input.proof) ∧
      match found with
      | some success =>
          rootHash = (success.currentBody.member "metadata").member "directory_root" ∧
            input.currentEpoch =
              ((success.currentBody.member "metadata").member "directory_epoch").number?.getD .nan
      | none => ∃ s', selfReportedAnchor P opts session =
          (.ok (some (rootHash, input.currentEpoch)), s')

/-- The call checks this proof for the answer of the lookup. -/
def ChecksProof (world : σ) (lookupBody : JsValue) (input : VerifyLookupProofInput) : Prop :=
  ∃ found session, ReachesProof P creatorKey opts world lookupBody found session ∧
    Checks P creatorKey opts lookupBody found session input

variable {P creatorKey opts}

/-! ## One call checks one proof -/

theorem checks_unique {lookupBody : JsValue} {found : Option StepOneSuccess} {session : Session σ}
    {input input' : VerifyLookupProofInput}
    (h : Checks P creatorKey opts lookupBody found session input)
    (h' : Checks P creatorKey opts lookupBody found session input') : input = input' := by
  obtain ⟨hvrf, hlabel, text, rootHash, hproof, hdecode, hroot⟩ := h
  obtain ⟨hvrf', hlabel', text', rootHash', hproof', hdecode', hroot'⟩ := h'
  obtain rfl : text = text' := JsValue.string.inj (hproof.symm.trans hproof')
  have hsame : rootHash = rootHash' ∧ input.currentEpoch = input'.currentEpoch := by
    cases found with
    | some success => exact ⟨hroot.1.trans hroot'.1.symm, hroot.2.trans hroot'.2.symm⟩
    | none =>
        obtain ⟨s, hself⟩ := hroot
        obtain ⟨s', hself'⟩ := hroot'
        have hreport := Option.some.inj (Except.ok.inj
          (Prod.mk.inj (hself.symm.trans hself')).1)
        exact Prod.mk.inj hreport
  obtain ⟨rfl, hepoch⟩ := hsame
  obtain ⟨vrfPublicKey, digest, currentEpoch, label, proof⟩ := input
  obtain ⟨vrfPublicKey', digest', currentEpoch', label', proof'⟩ := input'
  dsimp only at hvrf hvrf' hlabel hlabel' hepoch hdecode hdecode'
  cases hvrf.symm.trans hvrf'
  cases hdecode.symm.trans hdecode'
  rw [hlabel, hlabel', hepoch]

theorem reachesProof_unique {world : σ} {lookupBody lookupBody' : JsValue}
    {found found' : Option StepOneSuccess} {session session' : Session σ}
    (h : ReachesProof P creatorKey opts world lookupBody found session)
    (h' : ReachesProof P creatorKey opts world lookupBody' found' session') :
    lookupBody = lookupBody' ∧ found = found' ∧ session = session' := by
  obtain ⟨s₁, hlookup, h⟩ := h
  obtain ⟨s₁', hlookup', h'⟩ := h'
  cases hlookup.symm.trans hlookup'
  rcases h with ⟨hnone, rfl, rfl⟩ | ⟨inputs, hinputs, h⟩
  · rcases h' with ⟨-, rfl, rfl⟩ | ⟨inputs', hinputs', -⟩
    · exact ⟨rfl, rfl, rfl⟩
    · cases hnone.symm.trans hinputs'
  rcases h' with ⟨hnone, -, -⟩ | ⟨inputs', hinputs', h'⟩
  · cases hnone.symm.trans hinputs
  cases hinputs.symm.trans hinputs'
  rcases h with ⟨hone, rfl⟩ | ⟨success, s₂, s₃, s₄, count, rfl, hone, hfour, hremove, hthree⟩
  · rcases h' with ⟨hone', rfl⟩ | ⟨success', s₂', s₃', s₄', count', rfl, hone', -⟩
    · cases hone.symm.trans hone'
      exact ⟨rfl, rfl, rfl⟩
    · cases hone.symm.trans hone'
  rcases h' with ⟨hone', -⟩ |
    ⟨success', s₂', s₃', s₄', count', rfl, hone', hfour', hremove', hthree'⟩
  · cases hone.symm.trans hone'
  cases hone.symm.trans hone'
  cases hfour.symm.trans hfour'
  cases hremove.symm.trans hremove'
  cases hthree.symm.trans hthree'
  exact ⟨rfl, rfl, rfl⟩

/-- One call hands one input to the callback, if any. -/
theorem checksProof_unique {world : σ} {lookupBody lookupBody' : JsValue}
    {input input' : VerifyLookupProofInput}
    (h : ChecksProof P creatorKey opts world lookupBody input)
    (h' : ChecksProof P creatorKey opts world lookupBody' input') :
    lookupBody = lookupBody' ∧ input = input' := by
  obtain ⟨found, session, hreaches, hchecks⟩ := h
  obtain ⟨found', session', hreaches', hchecks'⟩ := h'
  obtain ⟨rfl, rfl, rfl⟩ := reachesProof_unique hreaches hreaches'
  exact ⟨rfl, checks_unique hchecks hchecks'⟩

/-! ## From the result back to the proof -/

theorem checkLookupProof_confirmed {verifyLookupProof : VerifyLookupProofInput → Except String Bool}
    {vrfPublicKey : Bytes} {proof : String} {rootHash : JsValue} {currentEpoch : JsNumber}
    {session session' : Session σ}
    (h : checkLookupProof P creatorKey verifyLookupProof vrfPublicKey proof rootHash currentEpoch
      session = (.ok .confirmed, session')) :
    ∃ digest bytes, decodeLookup P rootHash proof = .ok (digest, bytes) ∧
      verifyLookupProof ⟨vrfPublicKey, digest, currentEpoch, creatorKey, bytes⟩ = .ok true := by
  unfold checkLookupProof at h
  cases hdecode : decodeLookup P rootHash proof with
  | error message =>
      rw [hdecode] at h
      cases h
  | ok decoded =>
      obtain ⟨digest, bytes⟩ := decoded
      rw [hdecode] at h
      dsimp only at h
      cases hverify : verifyLookupProof ⟨vrfPublicKey, digest, currentEpoch, creatorKey, bytes⟩ with
      | error message =>
          rw [hverify] at h
          cases h
      | ok verified =>
          rw [hverify] at h
          cases verified with
          | true => exact ⟨digest, bytes, rfl, hverify⟩
          | false => cases h

theorem runStepSeven_confirmed {verifyLookupProof : VerifyLookupProofInput → Except String Bool}
    {vrfPublicKey : Bytes} {lookupBody : JsValue} {found : Option StepOneSuccess}
    {session session' : Session σ} (hvrf : opts.directoryVrfPublicKey = some vrfPublicKey)
    (h : runStepSeven P creatorKey opts verifyLookupProof vrfPublicKey (lookupBody.member "proof")
      (found.map (·.currentBody)) session = (.ok .confirmed, session')) :
    ∃ input, Checks P creatorKey opts lookupBody found session input ∧
      verifyLookupProof input = .ok true := by
  unfold runStepSeven at h
  cases htext : (lookupBody.member "proof").string?.filter (· ≠ "") with
  | none =>
      rw [htext] at h
      cases h
  | some text =>
      rw [htext] at h
      have hproof := JsValue.eq_string_of_string? (Option.filter_eq_some_iff.1 htext).1
      cases found with
      | some success =>
          obtain ⟨digest, bytes, hdecode, hverify⟩ := checkLookupProof_confirmed h
          exact ⟨_, ⟨hvrf, rfl, text, _, hproof, hdecode, rfl, rfl⟩, hverify⟩
      | none =>
          obtain ⟨answer, s', hself, h⟩ := Effect.bind_eq_ok.1 h
          cases answer with
          | none => cases h
          | some report =>
              obtain ⟨digest, bytes, hdecode, hverify⟩ := checkLookupProof_confirmed h
              exact ⟨_, ⟨hvrf, rfl, text, _, hproof, hdecode, s', hself⟩, hverify⟩

/-- A result that surfaces an identity with a valid proof. -/
def Proved (claim : JsValue) (result : IdentityResolution) : Prop :=
  result.identityResolved = some claim ∧ result.lookupProofValid = some true

theorem not_proved_of_conclude {result concluded : IdentityResolution} {claim : JsValue}
    {session session' : Session σ}
    (h : conclude creatorKey opts result session = (.ok concluded, session'))
    (hproved : Proved claim concluded) : Proved claim result := by
  obtain ⟨status, warnings, rfl⟩ := returns_conclude creatorKey result _ _ _ h
  exact hproved

theorem concludeClaim_proved {verifyLookupProof : VerifyLookupProofInput → Except String Bool}
    (hverify : opts.verifyLookupProof = some verifyLookupProof) {lookupBody claim claim' : JsValue}
    {attempted : Bool} {found : Option StepOneSuccess} {anchor : Option AnchorSurface}
    {result : IdentityResolution} {session session' : Session σ}
    (h : concludeClaim P creatorKey opts lookupBody claim attempted found anchor session =
      (.ok result, session')) (hproved : Proved claim' result) :
    claim' = claim ∧ ∃ input, Checks P creatorKey opts lookupBody found session input ∧
      verifyLookupProof input = .ok true := by
  obtain ⟨lookup, s₁, hlookup, h⟩ := Effect.bind_eq_ok.1 h
  by_cases hrejected : lookup = .rejected
  · rw [if_pos hrejected] at h
    cases (not_proved_of_conclude h hproved).1
  rw [if_neg hrejected] at h
  obtain ⟨appendOnly, s₂, -, h⟩ := Effect.bind_eq_ok.1 h
  by_cases hviolated : appendOnly = .rejected
  · rw [if_pos hviolated] at h
    cases (not_proved_of_conclude h hproved).1
  rw [if_neg hviolated] at h
  obtain ⟨hclaim, hvalid⟩ := not_proved_of_conclude h hproved
  refine ⟨(Option.some.inj hclaim).symm, ?_⟩
  have hconfirmed : lookup = .confirmed := by
    cases lookup with
    | confirmed => rfl
    | unavailable => cases hvalid
    | rejected => cases hvalid
  subst hconfirmed
  rw [hverify] at hlookup
  cases hvrf : opts.directoryVrfPublicKey with
  | none =>
      rw [hvrf] at hlookup
      cases hlookup
  | some vrfPublicKey =>
      rw [hvrf] at hlookup
      exact runStepSeven_confirmed hvrf hlookup

theorem resolveAnchored_proved {verifyLookupProof : VerifyLookupProofInput → Except String Bool}
    (hverify : opts.verifyLookupProof = some verifyLookupProof) {lookupBody claim claim' : JsValue}
    {inputs : StepOneInputs σ} {success : StepOneSuccess} {result : IdentityResolution}
    {s₂ session' : Session σ}
    (h : resolveAnchored P creatorKey opts lookupBody claim inputs success s₂ =
      (.ok result, session')) (hproved : Proved claim' result) :
    claim' = claim ∧ ∃ s₃ s₄ count session input,
      verifyAnchorBody P success.currentBody inputs.directoryOperatorKey success.anchorCommitment
        success.directoryOrigin "step-4" s₂ = (.ok true, s₃) ∧
      removeWarning "step-4-checkpoint-signature-not-checked" s₃ = (.ok (), s₄) ∧
      runStepThree P opts inputs.logEndpoint success.anchorCommitment s₄ = (.ok count, session) ∧
      Checks P creatorKey opts lookupBody (some success) session input ∧
      verifyLookupProof input = .ok true := by
  obtain ⟨valid, s₃, hvalid, h⟩ := Effect.bind_eq_ok.1 h
  cases valid with
  | false =>
      rw [if_pos (by simp)] at h
      cases (not_proved_of_conclude h hproved).1
  | true =>
      rw [if_neg (by simp)] at h
      obtain ⟨_, s₄, hremove, h⟩ := Effect.bind_eq_ok.1 h
      cases hepoch : epochMismatch lookupBody success.currentBody with
      | true =>
          rw [hepoch, if_pos rfl] at h
          obtain ⟨_, _, -, h⟩ := Effect.bind_eq_ok.1 h
          obtain ⟨_, _, -, h⟩ := Effect.bind_eq_ok.1 h
          obtain ⟨_, _, -, h⟩ := Effect.bind_eq_ok.1 h
          cases (not_proved_of_conclude h hproved).1
      | false =>
          rw [hepoch, if_neg (by simp)] at h
          obtain ⟨count, session, hthree, h⟩ := Effect.bind_eq_ok.1 h
          obtain ⟨hclaim, input, hchecks, haccepted⟩ := concludeClaim_proved hverify h hproved
          exact ⟨hclaim, s₃, s₄, count, session, input, hvalid, hremove, hthree, hchecks, haccepted⟩

/-- What is surfaced with a valid proof is the answer's claim, and the callback has accepted
the answer's proof. -/
theorem resolveIdentity_proved {verifyLookupProof : VerifyLookupProofInput → Except String Bool}
    (hverify : opts.verifyLookupProof = some verifyLookupProof) {world world' : σ}
    {result : IdentityResolution} {claim : JsValue}
    (h : resolveIdentity P creatorKey opts world = (.ok result, world'))
    (hproved : Proved claim result) :
    ∃ lookupBody input, ChecksProof P creatorKey opts world lookupBody input ∧
      lookupBody.member "claim" = claim ∧ verifyLookupProof input = .ok true := by
  obtain ⟨session', h⟩ := resolveIdentity_eq_ok creatorKey h
  obtain ⟨answer, s₁, hlookup, h⟩ := Effect.bind_eq_ok.1 h
  cases answer with
  | none => cases (not_proved_of_conclude h hproved).1
  | some lookupBody =>
      obtain ⟨found, -, h⟩ := Effect.lift_bind_eq_ok.1 h
      by_cases hnone : found.strictEq (.bool false) = true
      · rw [if_pos hnone] at h
        cases (not_proved_of_conclude h hproved).1
      rw [if_neg hnone] at h
      by_cases hclaim : isClaimFor creatorKey (lookupBody.member "claim") = true
      case neg =>
        rw [if_pos (by simpa using hclaim)] at h
        obtain ⟨_, _, -, h⟩ := Effect.bind_eq_ok.1 h
        cases (not_proved_of_conclude h hproved).1
      rw [if_neg (by simpa using hclaim)] at h
      unfold resolveClaim at h
      cases hinputs : stepOneInputs opts with
      | none =>
          rw [hinputs] at h
          obtain ⟨rfl, input, hchecks, haccepted⟩ := concludeClaim_proved hverify h hproved
          exact ⟨lookupBody, input, ⟨none, s₁, ⟨s₁, hlookup, Or.inl ⟨hinputs, rfl, rfl⟩⟩, hchecks⟩,
            rfl, haccepted⟩
      | some inputs =>
          rw [hinputs] at h
          obtain ⟨success?, s₂, hone, h⟩ := Effect.bind_eq_ok.1 h
          cases success? with
          | none =>
              obtain ⟨rfl, input, hchecks, haccepted⟩ := concludeClaim_proved hverify h hproved
              exact ⟨lookupBody, input, ⟨none, s₂, ⟨s₁, hlookup, Or.inr ⟨inputs, hinputs,
                Or.inl ⟨hone, rfl⟩⟩⟩, hchecks⟩, rfl, haccepted⟩
          | some success =>
              obtain ⟨rfl, s₃, s₄, count, session, input, hvalid, hremove, hthree, hchecks,
                haccepted⟩ := resolveAnchored_proved hverify h hproved
              exact ⟨lookupBody, input, ⟨some success, session, ⟨s₁, hlookup, Or.inr ⟨inputs,
                hinputs, Or.inr ⟨success, s₂, s₃, s₄, count, rfl, hone, hvalid, hremove, hthree⟩⟩⟩,
                hchecks⟩, rfl, haccepted⟩

/-! ## What the proof says of the claim -/

/-- In every run that surfaces an identity with a valid proof, the identity is the one the
proof binds exactly when the directory's answer carries the claim its own proof opens to. -/
theorem surfaced_is_proved_iff {verifyLookupProof : VerifyLookupProofInput → Except String Bool}
    {opening : VerifyLookupProofInput → Option Bytes}
    (hopening : ∀ input, verifyLookupProof input = .ok true ↔ (opening input).isSome)
    (hverify : opts.verifyLookupProof = some verifyLookupProof) {world world' : σ}
    {result : IdentityResolution} {claim : JsValue}
    (h : resolveIdentity P creatorKey opts world = (.ok result, world'))
    (hresolved : result.identityResolved = some claim)
    (hvalid : result.lookupProofValid = some true) :
    (∃ lookupBody input value, ChecksProof P creatorKey opts world lookupBody input ∧
        opening input = some value ∧ encodeClaim P claim = some value) ↔
      ∀ lookupBody input, ChecksProof P creatorKey opts world lookupBody input →
        encodeClaim P (lookupBody.member "claim") = opening input := by
  obtain ⟨lookupBody, input, hchecks, hclaim, haccepted⟩ :=
    resolveIdentity_proved hverify h ⟨hresolved, hvalid⟩
  obtain ⟨value, hvalue⟩ := Option.isSome_iff_exists.1 ((hopening input).1 haccepted)
  constructor
  · intro hproved lookupBody' input' hchecks'
    obtain ⟨lookupBody'', input'', value', hchecks'', hvalue', hencoded⟩ := hproved
    obtain ⟨rfl, rfl⟩ := checksProof_unique hchecks hchecks'
    obtain ⟨rfl, rfl⟩ := checksProof_unique hchecks hchecks''
    rw [hclaim, hencoded, hvalue']
  · intro hpaired
    refine ⟨lookupBody, input, value, hchecks, hvalue, ?_⟩
    rw [← hclaim, hpaired lookupBody input hchecks, hvalue]

/-! ## A directory that pairs a proof with another claim -/

namespace Sample

def claimOf (claimType : String) : JsValue :=
  .object [("claim_type", .string claimType), ("creator_key", .string Sample.creatorKey)]

/-- Whatever is asked, the answer has the members of a lookup and of an anchor. -/
def proofBody (claim : JsValue) : JsValue :=
  .object [("found", .bool true), ("claim", claim), ("proof", .string "AQ"),
    ("epoch", .number (.finite 1)), ("root_hash", .string (hexEncode (digest 0)))]

def proofPlatform (claim : JsValue) : Platform Unit :=
  { platform with fetchFn := fun _ => pure ⟨200, "OK", .ok (proofBody claim), .ok ""⟩ }

/-- The proof opens the root, under every label, to a self-attested claim. -/
def opening (input : VerifyLookupProofInput) : Option Bytes :=
  if input.rootHash = digest 0 ∧ input.proof = [1] then
    some (utf8 (String.ofList (json (claimOf "self_attested"))))
  else none

def proofOptions : ResolveIdentityOptions Unit where
  directoryEndpoint := some endpoint
  directoryVrfPublicKey := some (digest 5)
  verifyLookupProof := some fun input => .ok (opening input).isSome

/-- The claim is surfaced with a valid proof, whichever it is. -/
theorem surfaced (claimType : String) : ∃ result world',
    resolveIdentity (proofPlatform (claimOf claimType)) Sample.creatorKey proofOptions () =
        (.ok result, world') ∧
      result.identityResolved = some (claimOf claimType) ∧ result.lookupProofValid = some true :=
  ⟨_, _, rfl, rfl, rfl⟩

theorem checks (claimType : String) :
    ChecksProof (proofPlatform (claimOf claimType)) Sample.creatorKey proofOptions ()
      (proofBody (claimOf claimType))
      ⟨digest 5, digest 0, .finite 1, Sample.creatorKey, [1]⟩ :=
  ⟨none, ⟨(), uncheckedWarnings⟩, ⟨_, rfl, Or.inl ⟨rfl, rfl, rfl⟩⟩, rfl, rfl, "AQ", _, rfl, rfl,
    _, rfl⟩

theorem encodeClaim_claimOf (claimType : String) :
    encodeClaim (proofPlatform (claimOf claimType)) (claimOf claimType) =
      some (utf8 (String.ofList (json (claimOf claimType)))) := rfl

end Sample

theorem surfaced_is_proved_iff_sample :
    (∃ lookupBody input value, ChecksProof (Sample.proofPlatform (Sample.claimOf "self_attested"))
        Sample.creatorKey Sample.proofOptions () lookupBody input ∧
        Sample.opening input = some value ∧
        encodeClaim (Sample.proofPlatform (Sample.claimOf "self_attested"))
          (Sample.claimOf "self_attested") = some value) ↔
      ∀ lookupBody input, ChecksProof (Sample.proofPlatform (Sample.claimOf "self_attested"))
          Sample.creatorKey Sample.proofOptions () lookupBody input →
        encodeClaim (Sample.proofPlatform (Sample.claimOf "self_attested"))
          (lookupBody.member "claim") = Sample.opening input := by
  obtain ⟨result, world', hresult, hresolved, hvalid⟩ := Sample.surfaced "self_attested"
  have hopening : ∀ input, Except.ok (ε := String) (Sample.opening input).isSome = .ok true ↔
      (Sample.opening input).isSome := fun input => by rw [Except.ok.injEq]
  exact surfaced_is_proved_iff hopening rfl hresult hresolved hvalid

/-- The proof opens to a self-attested claim, and a domain-verified one is surfaced with it. -/
theorem surfaced_is_not_proved : ∃ result world',
    resolveIdentity (Sample.proofPlatform (Sample.claimOf "domain_verified")) Sample.creatorKey
        Sample.proofOptions () = (.ok result, world') ∧
      result.identityResolved = some (Sample.claimOf "domain_verified") ∧
      result.lookupProofValid = some true ∧
      ¬ ∃ lookupBody input value,
        ChecksProof (Sample.proofPlatform (Sample.claimOf "domain_verified")) Sample.creatorKey
          Sample.proofOptions () lookupBody input ∧
        Sample.opening input = some value ∧
        encodeClaim (Sample.proofPlatform (Sample.claimOf "domain_verified"))
          (Sample.claimOf "domain_verified") = some value := by
  obtain ⟨result, world', hresult, hresolved, hvalid⟩ := Sample.surfaced "domain_verified"
  refine ⟨result, world', hresult, hresolved, hvalid, fun h => ?_⟩
  obtain ⟨lookupBody, input, value, hchecks, hvalue, hencoded⟩ := h
  obtain ⟨-, rfl⟩ := checksProof_unique hchecks (Sample.checks "domain_verified")
  have hopening : Sample.opening ⟨Sample.digest 5, Sample.digest 0, .finite 1, Sample.creatorKey,
      [1]⟩ = some (utf8 (String.ofList (Sample.json (Sample.claimOf "self_attested")))) :=
    if_pos ⟨rfl, rfl⟩
  rw [hopening] at hvalue
  rw [Sample.encodeClaim_claimOf, ← hvalue, Option.some.injEq, utf8_ofList, utf8_ofList] at hencoded
  have hlength := congrArg List.length hencoded
  revert hlength
  decide +kernel

end Atrib.Verify
