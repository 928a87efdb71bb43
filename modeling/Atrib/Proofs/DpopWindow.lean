import Mathlib.Tactic.Linarith
import Atrib.Proofs.DpopReplay
import Atrib.Verify.AuthorizationEvidence

/-!
# How often a DPoP proof is accepted

The age check accepts a proof issued at `iat` up to and including the second
`windowEnd`, which is `iat + maxAge + skew`. The same sum is the expiry the
cache is given, and the cache drops a key in the second in which it expires.
So the last second of the window is the one in which a proof that was accepted
before is accepted again; in every other second the cache still knows it.

Whether a call asks the cache, and for which key, does not depend on what the
cache holds (`cacheCall`), so a sequence of verifications is a run of the cache.
-/

namespace Atrib.Lib.JsNumber

/-- In its window a proof has not passed the end of it. -/
theorem lt_of_window {iat maxAge skew : JsNumber} {now age : ℚ} (hnow : now ≤ age)
    (hstart : iat.le ((finite age).add skew) = true)
    (hage : ((finite age).sub iat).le (maxAge.add skew) = true)
    (hnan : (iat.add maxAge).add skew ≠ .nan)
    (hne : (iat.add maxAge).add skew ≠ .finite now) :
    (finite now).lt ((iat.add maxAge).add skew) = true := by
  cases iat with
  | nan => cases hstart
  | infinite iat =>
      cases maxAge
      all_goals
        cases skew
        all_goals simp_all [le, lt, eq, add, sub] <;> grind
  | finite iat =>
      cases maxAge with
      | nan => cases hage
      | infinite maxAge =>
          cases skew <;> simp_all [le, lt, eq, add, sub]
      | finite maxAge =>
          cases skew with
          | nan => cases hage
          | infinite skew => simp_all [le, lt, eq, add, sub]
          | finite skew =>
              have hle : age - iat ≤ maxAge + skew := by
                rcases Bool.or_eq_true_iff.1 hage with h | h
                · exact (of_decide_eq_true h).le
                · have heq : finite (age - iat) = finite (maxAge + skew) := (of_decide_eq_true h).2
                  exact (finite.inj heq).le
              refine decide_eq_true ?_
              have hne : iat + maxAge + skew ≠ now := fun h => hne (congrArg finite h)
              refine lt_of_le_of_ne ?_ hne.symm
              linarith

theorem lt_max_left {a b : ℚ} {x : JsNumber} (h : (finite a).lt x = true) :
    (finite a).lt (x.max (finite b)) = true := by
  cases x with
  | nan => cases h
  | infinite negative =>
      cases negative with
      | true => cases h
      | false => rfl
  | finite q =>
      have hlt : a < q := of_decide_eq_true h
      show (finite a).lt (if (finite q).lt (finite b) then finite b else finite q) = true
      split
      · next hq => exact decide_eq_true (hlt.trans (of_decide_eq_true hq))
      · exact h

theorem lt_max_right {a b : ℚ} {x : JsNumber} (hnan : x ≠ .nan) (hlt : a < b) :
    (finite a).lt (x.max (finite b)) = true := by
  cases x with
  | nan => exact absurd rfl hnan
  | infinite negative =>
      cases negative with
      | true => exact decide_eq_true hlt
      | false => rfl
  | finite q =>
      show (finite a).lt (if (finite q).lt (finite b) then finite b else finite q) = true
      split
      · exact decide_eq_true hlt
      · next hq =>
          have hle : b ≤ q := not_lt.1 fun h => hq (decide_eq_true h)
          exact decide_eq_true (hlt.trans_le hle)

end Atrib.Lib.JsNumber

namespace Atrib.Verify

open Atrib.Lib

/-- One call of `verifyOAuthAuthorizationEvidence`. -/
structure EvidenceCall where
  clock : ClockReadings
  input : OAuthAuthorizationEvidenceInput

namespace EvidenceCall

variable {Key : Type} (P : EvidencePlatform Key)

/-- The proof presented, with the second and the skew it is verified with. -/
def proof? (call : EvidenceCall) : Option OAuthDpopProofInput :=
  call.input.dpopProof.map (dpopProofInput call.input)

def claims (call : EvidenceCall) : JsValue := resolvedClaims P call.clock call.input

def verify (call : EvidenceCall) (cache : MemoryDpopReplayCache) :
    Option DpopVerificationResult × Option MemoryDpopReplayCache :=
  verifyOAuthAuthorizationEvidence P call.clock call.input (some cache)

/-- A check of the proof has passed. -/
def Passed (call : EvidenceCall) (cache : MemoryDpopReplayCache) (type : String) : Prop :=
  ∃ result, (call.verify P cache).1 = some result ∧
    ∃ check ∈ result.constraints, check.type = type ∧ check.status = .passed

instance (call : EvidenceCall) (cache : MemoryDpopReplayCache) (type : String) :
    Decidable (call.Passed P cache type) :=
  decidable_of_iff (∃ result ∈ (call.verify P cache).1,
    ∃ check ∈ result.constraints, check.type = type ∧ check.status = .passed) Iff.rfl

/-- The two checks that make a proof fresh. -/
def Accepts (call : EvidenceCall) (cache : MemoryDpopReplayCache) : Prop :=
  call.Passed P cache "dpop.jti" ∧ call.Passed P cache "dpop.iat"

end EvidenceCall

/-! ## A proof that opens -/

section

variable {Key : Type} (P : EvidencePlatform Key)

/-- What a proof carries if all the library does with it succeeds. -/
structure OpenedProof (clock : ClockReadings) (input : OAuthDpopProofInput) where
  header : JsValue
  publicJwk : JsValue
  payload : JsValue
  jkt : String
  header_eq : P.jose.decodeProtectedHeader input.proofJwt = .ok header
  publicJwk_eq : asRecord (header.member "jwk") = some publicJwk
  payload_eq : (do
    let key ← P.jose.importJWK publicJwk (header.member "alg").string?
    P.jose.jwtVerify input.proofJwt key
      { currentDate := input.nowSeconds, clockTolerance := input.clockSkewSeconds }
      clock.tokens) = .ok payload
  jkt_eq : P.jose.calculateJwkThumbprint publicJwk = .ok jkt

variable {P} {clock : ClockReadings} {input : OAuthDpopProofInput}

namespace OpenedProof

def dpop (opened : OpenedProof P clock input) : OAuthDpopCheck :=
  { openedDpop { jwt_present := input.proofJwt ≠ "", alg := (opened.header.member "alg").string? }
      opened.payload with
    jkt := some opened.jkt }

/-- The payload is the one the token decodes to. -/
theorem decodeJwt_eq (opened : OpenedProof P clock input) :
    P.jose.decodeJwt input.proofJwt = .ok opened.payload := by
  have hpayload := opened.payload_eq
  cases hkey : P.jose.importJWK opened.publicJwk (opened.header.member "alg").string? with
  | error e =>
      rw [hkey] at hpayload
      cases hpayload
  | ok key =>
      rw [hkey] at hpayload
      exact P.jose.decodeJwt_of_jwtVerify hpayload

/-- What a proof carries does not depend on when and how it is presented. -/
theorem unique {clock' : ClockReadings} {input' : OAuthDpopProofInput}
    (opened : OpenedProof P clock input) (opened' : OpenedProof P clock' input')
    (hjwt : input'.proofJwt = input.proofJwt) :
    opened'.payload = opened.payload ∧ opened'.dpop = opened.dpop := by
  have hheader : opened'.header = opened.header := by
    have h := opened'.header_eq
    rw [hjwt, opened.header_eq] at h
    exact (Except.ok.inj h).symm
  have hjwk : opened'.publicJwk = opened.publicJwk := by
    have h := opened'.publicJwk_eq
    rw [hheader, opened.publicJwk_eq] at h
    exact (Option.some.inj h).symm
  have hpayload : opened'.payload = opened.payload := by
    have h := opened'.decodeJwt_eq
    rw [hjwt, opened.decodeJwt_eq] at h
    exact (Except.ok.inj h).symm
  have hjkt : opened'.jkt = opened.jkt := by
    have h := opened'.jkt_eq
    rw [hjwk, opened.jkt_eq] at h
    exact (Except.ok.inj h).symm
  refine ⟨hpayload, ?_⟩
  rw [dpop, dpop, hheader, hpayload, hjkt, hjwt]

/-- A proof that opens is checked, and the cache is asked for it. -/
theorem verifyDpopProof_eq (opened : OpenedProof P clock input) (claims : JsValue)
    (requiredCnfJkt : Option String) (replayCache : Option MemoryDpopReplayCache) :
    ∃ status actual, verifyDpopProof P clock input claims requiredCnfJkt replayCache =
      (⟨opened.dpop, ⟨"dpop.typ", status, .string "dpop+jwt", actual, none⟩ ::
          payloadChecks P clock input claims requiredCnfJkt opened.dpop opened.jkt opened.payload
            (jtiSeen clock input claims opened.dpop opened.payload replayCache).1, []⟩,
        (jtiSeen clock input claims opened.dpop opened.payload replayCache).2) := by
  unfold verifyDpopProof
  rw [opened.header_eq]
  dsimp only
  rw [opened.publicJwk_eq]
  dsimp only
  rw [opened.payload_eq]
  dsimp only
  rw [opened.jkt_eq]
  exact ⟨_, _, rfl⟩

end OpenedProof

/-- Open the proof. -/
def openProof? (P : EvidencePlatform Key) (clock : ClockReadings) (input : OAuthDpopProofInput) :
    Option (OpenedProof P clock input) :=
  match hheader : P.jose.decodeProtectedHeader input.proofJwt with
  | .error _ => none
  | .ok header =>
      match hjwk : asRecord (header.member "jwk") with
      | none => none
      | some publicJwk =>
          match hpayload : (do
            let key ← P.jose.importJWK publicJwk (header.member "alg").string?
            P.jose.jwtVerify input.proofJwt key
              { currentDate := input.nowSeconds, clockTolerance := input.clockSkewSeconds }
              clock.tokens) with
          | .error _ => none
          | .ok payload =>
              match hjkt : P.jose.calculateJwkThumbprint publicJwk with
              | .error _ => none
              | .ok jkt => some ⟨header, publicJwk, payload, jkt, hheader, hjwk, hpayload, hjkt⟩

theorem isEmpty_of_openProof? (h : openProof? P clock input = none) :
    IsEmpty (OpenedProof P clock input) := by
  refine ⟨fun opened => ?_⟩
  unfold openProof? at h
  split at h
  · next hheader =>
      rw [opened.header_eq] at hheader
      cases hheader
  next header hheader =>
  have heq : opened.header = header := Except.ok.inj (opened.header_eq.symm.trans hheader)
  subst heq
  split at h
  · next hjwk =>
      rw [opened.publicJwk_eq] at hjwk
      cases hjwk
  next publicJwk hjwk =>
  have heq : opened.publicJwk = publicJwk := Option.some.inj (opened.publicJwk_eq.symm.trans hjwk)
  subst heq
  split at h
  · next hpayload =>
      rw [opened.payload_eq] at hpayload
      cases hpayload
  split at h
  · next hjkt =>
      rw [opened.jkt_eq] at hjkt
      cases hjkt
  · cases h

/-- A proof that does not open is not asked about, and has no check but one of its head. -/
theorem verifyDpopProof_of_not_opened (h : IsEmpty (OpenedProof P clock input)) (claims : JsValue)
    (requiredCnfJkt : Option String) (replayCache : Option MemoryDpopReplayCache) :
    (verifyDpopProof P clock input claims requiredCnfJkt replayCache).2 = replayCache ∧
      ∀ check ∈ (verifyDpopProof P clock input claims requiredCnfJkt replayCache).1.constraints,
        check.type = "dpop.jwk" ∨ check.type = "dpop.typ" := by
  unfold verifyDpopProof
  cases hheader : P.jose.decodeProtectedHeader input.proofJwt with
  | error e => exact ⟨rfl, fun _ hcheck => nomatch hcheck⟩
  | ok header =>
      dsimp only
      cases hjwk : asRecord (header.member "jwk") with
      | none => exact ⟨rfl, fun _ hcheck => .inl (List.mem_singleton.1 hcheck ▸ rfl)⟩
      | some publicJwk =>
          dsimp only
          split
          · exact ⟨rfl, fun _ hcheck => .inr (List.mem_singleton.1 hcheck ▸ rfl)⟩
          · next payload hpayload =>
              split
              · exact ⟨rfl, fun _ hcheck => .inr (List.mem_singleton.1 hcheck ▸ rfl)⟩
              · next jkt hjkt =>
                  exact h.elim ⟨header, publicJwk, payload, jkt, hheader, hjwk, hpayload, hjkt⟩

/-! ## What a call asks of the cache -/

/-- The request of a proof that opens. -/
def OpenedProof.cacheCall (opened : OpenedProof P clock input) (claims : JsValue) :
    Option ReplayCacheCall :=
  (replayRequest clock input claims opened.dpop opened.payload).map fun request =>
    .checkAndRemember clock.cache request.1 request.2

theorem OpenedProof.jtiSeen_cache (opened : OpenedProof P clock input) (claims : JsValue)
    (cache : MemoryDpopReplayCache) :
    (jtiSeen clock input claims opened.dpop opened.payload (some cache)).2 =
      some ((opened.cacheCall claims).elim cache cache.step) := by
  unfold jtiSeen OpenedProof.cacheCall
  cases replayRequest clock input claims opened.dpop opened.payload with
  | none => rfl
  | some request => rfl

namespace EvidenceCall

variable (P) in
/-- The proof of a call, opened. -/
def opened? (call : EvidenceCall) :
    Option (Σ proof : OAuthDpopProofInput, OpenedProof P call.clock proof) := do
  let proof ← call.proof?
  let opened ← openProof? P call.clock proof
  return ⟨proof, opened⟩

variable (P) in
/-- The one call of the cache, if there is one. -/
def cacheCall (call : EvidenceCall) : Option ReplayCacheCall :=
  (call.opened? P).bind fun opened => opened.2.cacheCall (call.claims P)

variable {call : EvidenceCall} {cache : MemoryDpopReplayCache}

theorem verify_eq {proof : OAuthDpopProofInput} (h : call.proof? = some proof) :
    call.verify P cache =
      (some (verifyDpopProof P call.clock proof (call.claims P) call.input.requiredCnfJkt
          (some cache)).1,
        (verifyDpopProof P call.clock proof (call.claims P) call.input.requiredCnfJkt
          (some cache)).2) := by
  obtain ⟨dpopProof, hproof, rfl⟩ := Option.map_eq_some_iff.1 h
  unfold verify verifyOAuthAuthorizationEvidence
  rw [hproof]
  rfl

/-- The cache moves as the one call of it says. -/
theorem verify_cache (call : EvidenceCall) (cache : MemoryDpopReplayCache) :
    (call.verify P cache).2 = some ((call.cacheCall P).elim cache cache.step) := by
  cases hproof : call.proof? with
  | none =>
      have hnone : call.input.dpopProof = none := Option.map_eq_none_iff.1 hproof
      unfold verify verifyOAuthAuthorizationEvidence cacheCall opened?
      rw [hproof, hnone]
      rfl
  | some proof =>
      rw [verify_eq hproof]
      cases hopened : openProof? P call.clock proof with
      | none =>
          rw [(verifyDpopProof_of_not_opened (isEmpty_of_openProof? hopened) _ _ _).1]
          simp [cacheCall, opened?, hproof, hopened]
      | some opened =>
          obtain ⟨status, actual, heq⟩ := opened.verifyDpopProof_eq (call.claims P)
            call.input.requiredCnfJkt (some cache)
          rw [heq, opened.jtiSeen_cache]
          simp [cacheCall, opened?, hproof, hopened]

end EvidenceCall

/-! ## What the two checks say -/

theorem athCheck_type (payload : JsValue) : (athCheck P input payload).type = "dpop.ath" := by
  unfold athCheck
  dsimp only
  split
  · rfl
  · rfl

theorem cnfCheck_type (claims : JsValue) (requiredCnfJkt : Option String) (jkt : String) :
    (cnfCheck claims requiredCnfJkt jkt).type = "dpop.cnf.jkt" := by
  unfold cnfCheck
  dsimp only
  split
  · rfl
  · rfl

theorem nonceChecks_type {payload : JsValue} {check : EvidenceConstraintCheck}
    (h : check ∈ nonceChecks input payload) : check.type = "dpop.nonce" := by
  unfold nonceChecks at h
  split at h
  · rw [List.mem_singleton.1 h]
  · cases h

variable {claims payload : JsValue} {requiredCnfJkt : Option String} {dpop : OAuthDpopCheck}
  {jkt : String} {seen : Bool} {check : EvidenceConstraintCheck}

/-- The checks of a payload, without those that neither `jti` nor `iat` decides. -/
theorem mem_payloadChecks
    (h : check ∈ payloadChecks P clock input claims requiredCnfJkt dpop jkt payload seen) :
    check.type ∈ ["dpop.htm", "dpop.htu", "dpop.ath", "dpop.nonce", "dpop.cnf.jkt"] ∨
      (check.type = "dpop.jti" ∧ check.status = passedIf (dpop.jti.any (· ≠ "") && !seen)) ∨
      check.type = "dpop.iat" ∧ check.status = passedIf ((payload.member "iat").number?.any
        (iatPassed input (input.nowSeconds.getD (.finite clock.age)))) := by
  unfold payloadChecks at h
  rcases List.mem_append.1 h with h | h
  · rcases List.mem_append.1 h with h | h
    · simp only [List.mem_cons, List.not_mem_nil, or_false] at h
      rcases h with rfl | rfl | rfl | rfl | rfl
      · exact .inl (by simp)
      · exact .inl (by simp)
      · exact .inr (.inl ⟨rfl, rfl⟩)
      · exact .inr (.inr ⟨rfl, rfl⟩)
      · exact .inl (by simp [athCheck_type])
    · exact .inl (by simp [nonceChecks_type h])
  · rw [List.mem_singleton.1 h]
    exact .inl (by simp [cnfCheck_type])

theorem eq_true_of_passedIf {test : Bool} (h : passedIf test = .passed) : test = true := by
  cases test with
  | true => rfl
  | false => cases h

theorem passed_jti
    (h : check ∈ payloadChecks P clock input claims requiredCnfJkt dpop jkt payload seen)
    (htype : check.type = "dpop.jti") (hstatus : check.status = .passed) :
    (∃ jti, dpop.jti = some jti) ∧ seen = false := by
  rcases mem_payloadChecks h with hother | ⟨-, heq⟩ | ⟨heq, -⟩
  · exact absurd (htype ▸ hother) (by decide)
  · obtain ⟨hjti, hseen⟩ := Bool.and_eq_true_iff.1 (eq_true_of_passedIf (heq.symm.trans hstatus))
    obtain ⟨jti, hjti, -⟩ := (Option.any_eq_true _ _).1 hjti
    exact ⟨⟨jti, hjti⟩, Bool.not_eq_true' _ ▸ hseen⟩
  · exact absurd (htype.symm.trans heq) (by decide)

theorem passed_iat
    (h : check ∈ payloadChecks P clock input claims requiredCnfJkt dpop jkt payload seen)
    (htype : check.type = "dpop.iat") (hstatus : check.status = .passed) :
    ∃ iat, (payload.member "iat").number? = some iat ∧
      iatPassed input (input.nowSeconds.getD (.finite clock.age)) iat = true := by
  rcases mem_payloadChecks h with hother | ⟨heq, -⟩ | ⟨-, heq⟩
  · exact absurd (htype ▸ hother) (by decide)
  · exact absurd (htype.symm.trans heq) (by decide)
  · exact (Option.any_eq_true _ _).1 (eq_true_of_passedIf (heq.symm.trans hstatus))

/-- A `jti` that was not seen was asked for, and was fresh. -/
theorem fresh_of_jtiSeen {jti : String} {cache : MemoryDpopReplayCache}
    (hjti : dpop.jti = some jti)
    (h : (jtiSeen clock input claims dpop payload (some cache)).1 = false) :
    ∃ key expiresAtSeconds, replayRequest clock input claims dpop payload =
        some (key, expiresAtSeconds) ∧ key = replayKey jti dpop claims ∧
      expiresAtSeconds = dpopReplayExpiresAtSeconds clock payload input ∧
      (cache.checkAndRemember clock.cache key expiresAtSeconds).1 = true := by
  have hrequest : replayRequest clock input claims dpop payload =
      if (input.seenJtis.getD []).contains jti then none
      else some (replayKey jti dpop claims, dpopReplayExpiresAtSeconds clock payload input) := by
    rw [replayRequest, hjti]
  by_cases hseen : (input.seenJtis.getD []).contains jti = true
  · rw [if_pos hseen] at hrequest
    unfold jtiSeen at h
    rw [hrequest, hjti] at h
    have hnot : (input.seenJtis.getD []).contains jti = false := h
    rw [hseen] at hnot
    cases hnot
  · rw [if_neg hseen] at hrequest
    unfold jtiSeen at h
    rw [hrequest] at h
    refine ⟨_, _, hrequest, rfl, rfl, ?_⟩
    rw [← Bool.not_eq_false']
    exact h

namespace EvidenceCall

variable {call : EvidenceCall} {cache : MemoryDpopReplayCache}

/-- A check that does not stand at the head of the proof passed because the proof opened. -/
theorem Passed.opened {type : String} (h : call.Passed P cache type)
    (hjwk : type ≠ "dpop.jwk") (htyp : type ≠ "dpop.typ") :
    ∃ proof, ∃ opened : OpenedProof P call.clock proof, call.opened? P = some ⟨proof, opened⟩ ∧
      ∃ check ∈ payloadChecks P call.clock proof (call.claims P) call.input.requiredCnfJkt
        opened.dpop opened.jkt opened.payload (jtiSeen call.clock proof (call.claims P) opened.dpop
          opened.payload (some cache)).1, check.type = type ∧ check.status = .passed := by
  obtain ⟨result, hresult, check, hcheck, htype, hstatus⟩ := h
  cases hproof : call.proof? with
  | none =>
      have hnone : call.input.dpopProof = none := Option.map_eq_none_iff.1 hproof
      unfold verify verifyOAuthAuthorizationEvidence at hresult
      rw [hnone] at hresult
      cases hresult
  | some proof =>
      rw [verify_eq hproof, Option.some.injEq] at hresult
      subst hresult
      cases hopened : openProof? P call.clock proof with
      | none =>
          rcases (verifyDpopProof_of_not_opened (isEmpty_of_openProof? hopened) _ _ _).2 check
            hcheck with h | h
          · exact absurd (htype.symm.trans h) hjwk
          · exact absurd (htype.symm.trans h) htyp
      | some opened =>
          obtain ⟨status, actual, heq⟩ := opened.verifyDpopProof_eq (call.claims P)
            call.input.requiredCnfJkt (some cache)
          rw [heq] at hcheck
          refine ⟨proof, opened, by simp [opened?, hproof, hopened], check, ?_, htype, hstatus⟩
          rcases List.mem_cons.1 hcheck with rfl | hcheck
          · exact absurd htype.symm htyp
          · exact hcheck

/-- What an accepted proof was: its key was fresh, and it was in its window. -/
theorem Accepts.spec (h : call.Accepts P cache) :
    ∃ proof, ∃ opened : OpenedProof P call.clock proof, ∃ jti iat,
      call.opened? P = some ⟨proof, opened⟩ ∧ opened.dpop.jti = some jti ∧
      (opened.payload.member "iat").number? = some iat ∧
      iatPassed proof (proof.nowSeconds.getD (.finite call.clock.age)) iat = true ∧
      call.cacheCall P = some (.checkAndRemember call.clock.cache
        (replayKey jti opened.dpop (call.claims P)) (windowEnd proof iat)) ∧
      (cache.checkAndRemember call.clock.cache (replayKey jti opened.dpop (call.claims P))
        (windowEnd proof iat)).1 = true := by
  obtain ⟨proof, opened, hopened, check, hcheck, htype, hstatus⟩ :=
    h.1.opened (by decide) (by decide)
  obtain ⟨⟨jti, hjti⟩, hseen⟩ := passed_jti hcheck htype hstatus
  obtain ⟨proof', opened', hopened', check', hcheck', htype', hstatus'⟩ :=
    h.2.opened (by decide) (by decide)
  rw [hopened] at hopened'
  cases hopened'
  obtain ⟨iat, hiat, hwindow⟩ := passed_iat hcheck' htype' hstatus'
  obtain ⟨key, expiresAtSeconds, hrequest, rfl, rfl, hfresh⟩ := fresh_of_jtiSeen hjti hseen
  have hexpires : dpopReplayExpiresAtSeconds call.clock opened.payload proof =
      windowEnd proof iat := by
    rw [dpopReplayExpiresAtSeconds, hiat]
    rfl
  rw [hexpires] at hrequest hfresh
  refine ⟨proof, opened, jti, iat, hopened, hjti, hiat, hwindow, ?_, hfresh⟩
  rw [cacheCall, hopened, Option.bind_some, OpenedProof.cacheCall, hrequest]
  rfl

/-! ## Sequences of calls -/

variable (P) in
/-- The cache after a call. -/
def step (cache : MemoryDpopReplayCache) (call : EvidenceCall) : MemoryDpopReplayCache :=
  (call.verify P cache).2.getD cache

variable (P) in
/-- The cache need not forget a key for the call. -/
def HasRoom (cache : MemoryDpopReplayCache) (call : EvidenceCall) : Prop :=
  ∀ request, call.cacheCall P = some request → cache.HasRoom request

instance (cache : MemoryDpopReplayCache) (call : EvidenceCall) :
    Decidable (HasRoom P cache call) :=
  match hrequest : call.cacheCall P with
  | none => isTrue fun _ h => nomatch hrequest.symm.trans h
  | some request =>
      decidable_of_iff (cache.HasRoom request)
        ⟨fun hroom _ h => Option.some.inj (hrequest.symm.trans h) ▸ hroom,
          fun hroom => hroom request hrequest⟩

/-- One clock is read in the calls, also where it is the caller who tells the second. -/
def OneClock (call : EvidenceCall) : Prop :=
  ∀ proof now, call.proof? = some proof → proof.nowSeconds = some now →
    now = .finite call.clock.age

variable (P) in
/-- Two calls present one proof with the same claims, under the same limits. -/
structure SamePresentation (first second : EvidenceCall) : Prop where
  proofJwt : first.proof?.map (·.proofJwt) = second.proof?.map (·.proofJwt)
  claims : first.claims P = second.claims P
  maxAge : first.proof?.map (·.maxAgeSeconds.getD (.finite 300)) =
    second.proof?.map (·.maxAgeSeconds.getD (.finite 300))
  skew : first.proof?.map (·.clockSkewSeconds.getD (.finite 0)) =
    second.proof?.map (·.clockSkewSeconds.getD (.finite 0))

variable (P) in
/-- A proof presented again is not in the last second of its window, if it is a second later; and
the window has an end. -/
def NotAtWindowEnd (first second : EvidenceCall) : Prop :=
  ∀ proof payload iat, second.proof? = some proof →
    P.jose.decodeJwt proof.proofJwt = .ok payload → (payload.member "iat").number? = some iat →
    iatPassed proof (.finite second.clock.age) iat = true →
      windowEnd proof iat ≠ .nan ∧
        (first.clock.cache < second.clock.cache →
          windowEnd proof iat ≠ .finite second.clock.cache)

variable (P) in
/-- No proof is accepted in two calls. -/
def AcceptedOnce (cache : MemoryDpopReplayCache) (calls : List EvidenceCall) : Prop :=
  ∀ before first between second after,
    calls = before ++ first :: (between ++ second :: after) → SamePresentation P first second →
    ¬ (first.Accepts P (run (step P) cache before) ∧
      second.Accepts P (run (step P) cache (before ++ first :: between)))

theorem step_eq (cache : MemoryDpopReplayCache) (call : EvidenceCall) :
    step P cache call = (call.cacheCall P).elim cache cache.step := by
  rw [step, verify_cache]
  rfl

/-- A sequence of verifications is a run of the cache. -/
theorem run_eq (calls : List EvidenceCall) : ∀ cache : MemoryDpopReplayCache,
    run (step P) cache calls =
      run MemoryDpopReplayCache.step cache (calls.filterMap (cacheCall P)) := by
  induction calls with
  | nil => exact fun _ => rfl
  | cons call calls ih =>
      intro cache
      rw [run_cons, step_eq, ih, List.filterMap_cons]
      cases call.cacheCall P with
      | none => rfl
      | some request => rfl

theorem always_hasRoom {calls : List EvidenceCall} : ∀ {cache : MemoryDpopReplayCache},
    Always (step P) (HasRoom P) cache calls →
      Always MemoryDpopReplayCache.step MemoryDpopReplayCache.HasRoom cache
        (calls.filterMap (cacheCall P)) := by
  induction calls with
  | nil => exact fun _ => trivial
  | cons call calls ih =>
      intro cache h
      obtain ⟨hroom, hrest⟩ := h
      have htail := ih hrest
      rw [step_eq] at htail
      rw [List.filterMap_cons]
      cases hrequest : call.cacheCall P with
      | none =>
          rw [hrequest] at htail
          exact htail
      | some request =>
          rw [hrequest] at htail
          exact ⟨hroom request hrequest, htail⟩

theorem cacheCall_now {call : EvidenceCall} {request : ReplayCacheCall}
    (h : call.cacheCall P = some request) : request.now = call.clock.cache := by
  obtain ⟨opened, -, h⟩ := Option.bind_eq_some_iff.1 h
  obtain ⟨pair, -, rfl⟩ := Option.map_eq_some_iff.1 h
  rfl

/-- The clock the cache reads does not go back either. -/
theorem pairwise_cacheCall {calls : List EvidenceCall}
    (h : calls.Pairwise fun a b => a.clock.age ≤ b.clock.tokens) :
    (calls.filterMap (cacheCall P)).Pairwise fun a b => a.now ≤ b.now := by
  refine List.pairwise_filterMap.2 (h.imp fun {a b} hle x hx y hy => ?_)
  rw [cacheCall_now hx, cacheCall_now hy, Int.cast_le]
  exact a.clock.cache_le.trans (hle.trans (b.clock.tokens_le.trans b.clock.expiry_le))

theorem proof_of_opened {call : EvidenceCall}
    {opened : Σ proof : OAuthDpopProofInput, OpenedProof P call.clock proof}
    (h : call.opened? P = some opened) : call.proof? = some opened.1 := by
  obtain ⟨proof, hproof, h⟩ := Option.bind_eq_some_iff.1 h
  obtain ⟨_, -, h⟩ := Option.bind_eq_some_iff.1 h
  cases h
  exact hproof

/-- Before the end of the window the expiry recorded with a proof has not come. -/
theorem lt_recordedExpiry {proof : OAuthDpopProofInput} {iat : JsNumber} {first now age : ℤ}
    (hfirst : first ≤ now) (hnow : now ≤ age) (hwindow : iatPassed proof (.finite age) iat = true)
    (hnan : windowEnd proof iat ≠ .nan)
    (hend : first < now → windowEnd proof iat ≠ .finite now) :
    (JsNumber.finite now).lt (MemoryDpopReplayCache.recordedExpiry (windowEnd proof iat) first) =
      true := by
  rcases hfirst.eq_or_lt with rfl | hlt
  · exact JsNumber.lt_max_right hnan (lt_add_one _)
  · obtain ⟨hstart, hage⟩ := Bool.and_eq_true_iff.1 hwindow
    exact JsNumber.lt_max_left (JsNumber.lt_of_window (Int.cast_le.2 hnow) hstart hage hnan (hend hlt))

end EvidenceCall

end

/-! ## A proof in the last second of its window -/

namespace DpopSample

def proofJwt : String := "header.payload.signature"

def payload : JsValue := .object [("jti", .string "proof-1"), ("htm", .string "POST"),
  ("htu", .string "https://mcp.example.com/mcp"), ("iat", .number (.finite 100))]

/-- The library, where the one token with a good signature is `proofJwt`. -/
def jose : Jose Unit where
  decodeProtectedHeader token :=
    if token = proofJwt then
      .ok (.object [("typ", .string "dpop+jwt"), ("alg", .string "ES256"),
        ("jwk", .object [("kty", .string "EC")])])
    else .error "Invalid Token or Protected Header formatting"
  decodeJwt token := if token = proofJwt then .ok payload else .error "Invalid JWT"
  importJWK _ _ := .ok ()
  createLocalJWKSet _ := .ok ()
  jwtVerify token _ _ _ :=
    if token = proofJwt then .ok payload else .error "signature verification failed"
  calculateJwkThumbprint _ := .ok "thumbprint"
  decodeJwt_of_jwtVerify h := by
    split at h
    · next htoken =>
        rw [if_pos htoken]
        exact h
    · cases h

def platform : EvidencePlatform Unit := ⟨jose, Hash.fips180, id⟩

/-- The proof, presented to a resource that reads the clock four times in one second. -/
def presentedAt (now : ℤ) : EvidenceCall :=
  ⟨⟨now, now, now, now, le_rfl, le_rfl, le_rfl⟩,
    { claims := some (.object [("iss", .string "https://auth.example.com")])
      dpopProof := some
        { proofJwt, method := "POST", url := "https://mcp.example.com/mcp" } }⟩

theorem oneClock (now : ℤ) : (presentedAt now).OneClock := by
  rintro _ _ hproof hseconds
  cases hproof
  cases hseconds

theorem oneClock_of_mem {first second : ℤ} :
    ∀ call ∈ [presentedAt first, presentedAt second], call.OneClock := by
  intro call hcall
  rcases List.mem_pair.1 hcall with rfl | rfl
  · exact oneClock _
  · exact oneClock _

theorem samePresentation (first second : ℤ) :
    EvidenceCall.SamePresentation platform (presentedAt first) (presentedAt second) :=
  ⟨rfl, rfl, rfl, rfl⟩

end DpopSample

end Atrib.Verify
