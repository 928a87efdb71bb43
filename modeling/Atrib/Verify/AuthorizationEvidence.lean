import Atrib.Mcp.Hash
import Atrib.Mcp.Record
import Atrib.Verify.DpopReplayCache

/-!
# OAuth evidence and its DPoP proof

From `authorization-evidence.ts`: where the claims of the access token come
from (`resolveClaims`), the checks of the DPoP proof presented with the token,
and what the proof asks of the replay cache. The other checks of the evidence
(scope, audience, metadata, authorization details, identity) read neither the
proof nor the cache and are left out.

Tokens are opened by a library, `Jose` here: a token whose signature it accepts
has the payload it decodes without looking at the signature.
-/

namespace Atrib.Verify

open Atrib.Lib

/-! ## What the library does -/

structure JWTVerifyOptions where
  issuer : Option String := none
  audience : Option JsValue := none
  /-- In seconds; the library's own clock where it is missing. -/
  currentDate : Option JsNumber := none
  clockTolerance : Option JsNumber := none

structure Jose (Key : Type) where
  decodeProtectedHeader : String → Except String JsValue
  decodeJwt : String → Except String JsValue
  importJWK : JsValue → Option String → Except String Key
  createLocalJWKSet : JsValue → Except String Key
  /-- The last argument is the second the library's own clock shows. -/
  jwtVerify : String → Key → JWTVerifyOptions → ℤ → Except String JsValue
  calculateJwkThumbprint : JsValue → Except String String
  decodeJwt_of_jwtVerify : ∀ {token key options second payload},
    jwtVerify token key options second = .ok payload → decodeJwt token = .ok payload

/-- The library, the hash function, and `text.toUpperCase()`. -/
structure EvidencePlatform (Key : Type) where
  jose : Jose Key
  hash : Hash
  toUpperCase : String → String

/-! ## Inputs -/

inductive OAuthSignaturePolicy where
  | require
  | bestEffort
  | off
deriving DecidableEq

structure OAuthDpopProofInput where
  proofJwt : String
  method : String
  url : String
  accessToken : Option String := none
  expectedAth : Option String := none
  expectedNonce : Option String := none
  seenJtis : Option (List String) := none
  maxAgeSeconds : Option JsNumber := none
  nowSeconds : Option JsNumber := none
  clockSkewSeconds : Option JsNumber := none

structure OAuthAuthorizationEvidenceInput where
  accessTokenJwt : Option String := none
  claims : Option JsValue := none
  claimsVerified : Bool := false
  introspection : Option JsValue := none
  introspectionVerified : Bool := false
  dpopProof : Option OAuthDpopProofInput := none
  jwks : Option JsValue := none
  issuer : Option String := none
  audience : Option JsValue := none
  requiredCnfJkt : Option String := none
  signaturePolicy : Option OAuthSignaturePolicy := none
  nowSeconds : Option JsNumber := none
  clockSkewSeconds : Option JsNumber := none

/-- The seconds the clock shows when a verification reads it: to open the tokens, to compute
the expiry of the proof, in the cache, and to compute the age of the proof. -/
structure ClockReadings where
  tokens : ℤ
  expiry : ℤ
  cache : ℤ
  age : ℤ
  tokens_le : tokens ≤ expiry
  expiry_le : expiry ≤ cache
  cache_le : cache ≤ age

/-! ## Results -/

inductive EvidenceCheckStatus where
  | passed
  | failed
  | unresolved
  | notChecked
deriving DecidableEq

/-- A field that is `undefined` is left out. -/
structure EvidenceConstraintCheck where
  type : String
  status : EvidenceCheckStatus
  expected : JsValue := .undefined
  actual : JsValue := .undefined
  reason : Option String := none

structure OAuthTokenCheck where
  jwt_present : Bool
  introspection_present : Bool
  verified : Option Bool := none
  alg : Option String := none
  kid : Option String := none
  claims_verified : Bool

structure OAuthDpopCheck where
  jwt_present : Bool
  verified : Bool := false
  alg : Option String := none
  jkt : Option String := none
  jti : Option String := none
  htm : Option String := none
  htu : Option String := none

structure DpopVerificationResult where
  dpop : OAuthDpopCheck
  constraints : List EvidenceConstraintCheck
  errors : List String

/-! ## Small readers -/

/-- A text, or `null`. -/
def textOrNull (text : Option String) : JsValue := (text.map .string).getD .null

def asRecord : JsValue → Option JsValue
  | .object members => some (.object members)
  | _ => none

def passedIf (test : Bool) : EvidenceCheckStatus := if test then .passed else .failed

section

variable {Key : Type} (P : EvidencePlatform Key)

def accessTokenHash (accessToken : String) : String :=
  base64urlEncode (P.hash.sha256 (utf8 accessToken))

/-! ## The claims of the access token -/

/-- The fields taken over from an introspection response, where they pass a test. -/
def introspectionFields : List (String × (JsValue → Bool)) :=
  let isText (value : JsValue) := value.string?.isSome
  let isNumber (value : JsValue) := value.number?.isSome
  let isDefined (value : JsValue) := !(value matches .undefined)
  [("iss", isText), ("sub", isText), ("aud", isDefined), ("exp", isNumber), ("iat", isNumber),
    ("nbf", isNumber), ("jti", isText), ("scope", isText), ("client_id", isText),
    ("resource", isDefined), ("authorization_details", isDefined), ("cnf", isDefined),
    ("act", isDefined), ("may_act", isDefined)]

def claimsFromIntrospection (introspection : JsValue) : JsValue :=
  .object <| introspectionFields.filterMap fun (name, test) =>
    if test (introspection.member name) then some (name, introspection.member name) else none

def normalizeJwks : JsValue → JsValue
  | .array keys => .object [("keys", .array keys)]
  | jwks => jwks

/-- The claims, `null` where there are none. -/
def resolveClaims (clock : ClockReadings) (input : OAuthAuthorizationEvidenceInput) :
    Except String (JsValue × OAuthTokenCheck) :=
  let signaturePolicy := input.signaturePolicy.getD .require
  let token : OAuthTokenCheck :=
    { jwt_present := input.accessTokenJwt.isSome
      introspection_present := input.introspection.isSome
      claims_verified := input.claimsVerified }
  match input.accessTokenJwt.filter (· ≠ ""), input.introspection with
  | some accessTokenJwt, _ => do
      let header := (P.jose.decodeProtectedHeader accessTokenJwt).toOption
      let token := { token with
        alg := header.bind fun header => (header.member "alg").string?
        kid := header.bind fun header => (header.member "kid").string? }
      match input.jwks with
      | some jwks =>
          if signaturePolicy ≠ .off then
            let keys ← P.jose.createLocalJWKSet (normalizeJwks jwks)
            let payload ← P.jose.jwtVerify accessTokenJwt keys
              { issuer := input.issuer.filter (· ≠ "")
                audience := input.audience.filter (·.truthy)
                clockTolerance := input.clockSkewSeconds
                currentDate := input.nowSeconds } clock.tokens
            return (payload, { token with verified := some true, claims_verified := true })
          else
            let decoded ← P.jose.decodeJwt accessTokenJwt
            return (decoded, { token with verified := some false, claims_verified := true })
      | none =>
          let decoded ← P.jose.decodeJwt accessTokenJwt
          return (decoded, { token with
            verified := some false, claims_verified := signaturePolicy = .off })
  | none, some introspection =>
      return (claimsFromIntrospection introspection, { token with
        verified := some input.introspectionVerified
        claims_verified := input.introspectionVerified })
  | none, none => return (input.claims.getD .null, token)

/-! ## The proof -/

def replayKey (jti : String) (dpop : OAuthDpopCheck) (claims : JsValue) : DpopReplayCacheKey :=
  { jti
    jkt := dpop.jkt
    htm := dpop.htm
    htu := dpop.htu
    issuer := (claims.member "iss").string?
    client_id := (claims.member "client_id").string? }

/-- The end of the window in which the age check accepts a proof issued at `iat`. -/
def windowEnd (input : OAuthDpopProofInput) (iat : JsNumber) : JsNumber :=
  (iat.add (input.maxAgeSeconds.getD (.finite 300))).add
    (input.clockSkewSeconds.getD (.finite 0))

def dpopReplayExpiresAtSeconds (clock : ClockReadings) (payload : JsValue)
    (input : OAuthDpopProofInput) : JsNumber :=
  let now := input.nowSeconds.getD (.finite clock.expiry)
  windowEnd input ((payload.member "iat").number?.getD now)

/-- What an opened proof asks of the cache: nothing without a `jti`, or for one that the caller
says was seen. -/
def replayRequest (clock : ClockReadings) (input : OAuthDpopProofInput) (claims : JsValue)
    (dpop : OAuthDpopCheck) (payload : JsValue) : Option (DpopReplayCacheKey × JsNumber) :=
  match dpop.jti with
  | none => none
  | some jti =>
      if (input.seenJtis.getD []).contains jti then none
      else some (replayKey jti dpop claims, dpopReplayExpiresAtSeconds clock payload input)

/-- Whether the `jti` was seen, by the caller or by the cache. -/
def jtiSeen (clock : ClockReadings) (input : OAuthDpopProofInput) (claims : JsValue)
    (dpop : OAuthDpopCheck) (payload : JsValue) (replayCache : Option MemoryDpopReplayCache) :
    Bool × Option MemoryDpopReplayCache :=
  match replayRequest clock input claims dpop payload, replayCache with
  | some (key, expiresAtSeconds), some cache =>
      let answer := cache.checkAndRemember clock.cache key expiresAtSeconds
      (!answer.1, some answer.2)
  | none, _ => (dpop.jti.any fun jti => (input.seenJtis.getD []).contains jti, replayCache)
  | some _, none => (false, none)

def iatPassed (input : OAuthDpopProofInput) (now : JsNumber) (iat : JsNumber) : Bool :=
  let skew := input.clockSkewSeconds.getD (.finite 0)
  let maxAge := input.maxAgeSeconds.getD (.finite 300)
  iat.le (now.add skew) && (now.sub iat).le (maxAge.add skew)

def athCheck (input : OAuthDpopProofInput) (payload : JsValue) : EvidenceConstraintCheck :=
  let expectedAth := input.expectedAth.or
    ((input.accessToken.filter (· ≠ "")).map (accessTokenHash P))
  match expectedAth.filter (· ≠ "") with
  | some expectedAth =>
      ⟨"dpop.ath", passedIf ((payload.member "ath").strictEq (.string expectedAth)),
        .string expectedAth, (payload.member "ath").orElse .null, none⟩
  | none => ⟨"dpop.ath", .notChecked, .undefined, .undefined, none⟩

def nonceChecks (input : OAuthDpopProofInput) (payload : JsValue) :
    List EvidenceConstraintCheck :=
  match input.expectedNonce.filter (· ≠ "") with
  | some expectedNonce =>
      [⟨"dpop.nonce", passedIf ((payload.member "nonce").strictEq (.string expectedNonce)),
        .string expectedNonce, (payload.member "nonce").orElse .null, none⟩]
  | none => []

def cnfCheck (claims : JsValue) (requiredCnfJkt : Option String) (jkt : String) :
    EvidenceConstraintCheck :=
  let expectedJkt := (requiredCnfJkt.map JsValue.string).getD ((claims.member "cnf").member "jkt")
  if expectedJkt.truthy then
    ⟨"dpop.cnf.jkt", passedIf ((JsValue.string jkt).strictEq expectedJkt), expectedJkt,
      .string jkt, none⟩
  else ⟨"dpop.cnf.jkt", .unresolved, .string "access token cnf.jkt", .string jkt, none⟩

/-- The checks of an opened proof, after that of its type. -/
def payloadChecks (clock : ClockReadings) (input : OAuthDpopProofInput) (claims : JsValue)
    (requiredCnfJkt : Option String) (dpop : OAuthDpopCheck) (jkt : String) (payload : JsValue)
    (seen : Bool) : List EvidenceConstraintCheck :=
  let expectedMethod := P.toUpperCase input.method
  let now := input.nowSeconds.getD (.finite clock.age)
  let iat := (payload.member "iat").number?
  [⟨"dpop.htm", passedIf (dpop.htm = some expectedMethod), .string expectedMethod,
      textOrNull dpop.htm, none⟩,
    ⟨"dpop.htu", passedIf (dpop.htu = some input.url), .string input.url,
      textOrNull dpop.htu, none⟩,
    ⟨"dpop.jti", passedIf (dpop.jti.any (· ≠ "") && !seen), .string "present and unseen",
      textOrNull dpop.jti,
      if seen then some "jti already seen"
      else if dpop.jti.any (· ≠ "") then none else some "missing jti"⟩,
    ⟨"dpop.iat", passedIf (iat.any (iatPassed input now)),
      .object [("maxAgeSeconds", .number (input.maxAgeSeconds.getD (.finite 300))),
        ("nowSeconds", .number now),
        ("clockSkewSeconds", .number (input.clockSkewSeconds.getD (.finite 0)))],
      (iat.map .number).getD .null, none⟩,
    athCheck P input payload] ++ nonceChecks input payload ++
  [cnfCheck claims requiredCnfJkt jkt]

def dpopProofError (message : String) : String := "oauth_evidence dpop proof error: " ++ message

/-- What the proof carries, once its signature is good. -/
def openedDpop (dpop : OAuthDpopCheck) (payload : JsValue) : OAuthDpopCheck :=
  { dpop with
    verified := true
    htm := (payload.member "htm").string?
    htu := (payload.member "htu").string?
    jti := (payload.member "jti").string? }

def verifyDpopProof (clock : ClockReadings) (input : OAuthDpopProofInput) (claims : JsValue)
    (requiredCnfJkt : Option String) (replayCache : Option MemoryDpopReplayCache) :
    DpopVerificationResult × Option MemoryDpopReplayCache :=
  let dpop : OAuthDpopCheck := { jwt_present := input.proofJwt ≠ "" }
  match P.jose.decodeProtectedHeader input.proofJwt with
  | .error e => (⟨dpop, [], [dpopProofError e]⟩, replayCache)
  | .ok header =>
      let dpop := { dpop with alg := (header.member "alg").string? }
      match asRecord (header.member "jwk") with
      | none =>
          (⟨dpop, [⟨"dpop.jwk", .failed, .string "present", .null, some "missing public jwk"⟩], []⟩,
            replayCache)
      | some publicJwk =>
          let typ := header.member "typ"
          let typCheck : EvidenceConstraintCheck :=
            ⟨"dpop.typ", passedIf (typ.strictEq (.string "dpop+jwt")), .string "dpop+jwt",
              typ.orElse .null, none⟩
          let opened := do
            let key ← P.jose.importJWK publicJwk dpop.alg
            P.jose.jwtVerify input.proofJwt key
              { currentDate := input.nowSeconds, clockTolerance := input.clockSkewSeconds }
              clock.tokens
          match opened with
          | .error e => (⟨dpop, [typCheck], [dpopProofError e]⟩, replayCache)
          | .ok payload =>
              let dpop := openedDpop dpop payload
              match P.jose.calculateJwkThumbprint publicJwk with
              | .error e => (⟨dpop, [typCheck], [dpopProofError e]⟩, replayCache)
              | .ok jkt =>
                  let dpop := { dpop with jkt := some jkt }
                  let seen := jtiSeen clock input claims dpop payload replayCache
                  (⟨dpop, typCheck ::
                    payloadChecks P clock input claims requiredCnfJkt dpop jkt payload seen.1, []⟩,
                    seen.2)

/-- The proof as it is verified: the second and the skew of the evidence stand where the proof
has none of its own. -/
def dpopProofInput (input : OAuthAuthorizationEvidenceInput) (proof : OAuthDpopProofInput) :
    OAuthDpopProofInput :=
  { proof with
    nowSeconds := proof.nowSeconds.or input.nowSeconds
    clockSkewSeconds := proof.clockSkewSeconds.or input.clockSkewSeconds }

/-- The claims, `null` also where the token cannot be verified. -/
def resolvedClaims (clock : ClockReadings) (input : OAuthAuthorizationEvidenceInput) : JsValue :=
  match resolveClaims P clock input with
  | .ok (claims, _) => claims
  | .error _ => .null

/-- The verification of the proof inside `verifyOAuthAuthorizationEvidence`. -/
def verifyOAuthAuthorizationEvidence (clock : ClockReadings)
    (input : OAuthAuthorizationEvidenceInput) (replayCache : Option MemoryDpopReplayCache) :
    Option DpopVerificationResult × Option MemoryDpopReplayCache :=
  match input.dpopProof with
  | none => (none, replayCache)
  | some proof =>
      let result := verifyDpopProof P clock (dpopProofInput input proof)
        (resolvedClaims P clock input) input.requiredCnfJkt replayCache
      (some result.1, result.2)

end

end Atrib.Verify
