import Atrib.Mcp.Context

/-!
# The agent's session

`packages/agent/src/session.ts`: the `_meta` that a session gives its next tool
call, and what it takes from the `_meta` of a result. The random parent id of a
trace is an argument. A session keeps more than what is read here: its warnings,
gap nodes and task ids.
-/

namespace Atrib.Agent

open Lib (JsValue)
open Middleware

/-- A token whose two parts are 32 bytes each. -/
structure LatestContext extends DecodedToken where
  length_recordHash : recordHash.length = 32
  length_creatorKey : creatorKey.length = 32

structure SessionState where
  contextId : String
  sessionToken : String
  latestContext : Option LatestContext := none
  policyRecordId : Option String := none

/-- `${base64urlEncode(recordHash)}.${base64urlEncode(creatorKey)}` -/
def LatestContext.token (latest : LatestContext) : String :=
  base64urlEncode latest.recordHash ++ "." ++ base64urlEncode latest.creatorKey

/-- The members that have been set when the tracestate is looked at. -/
def outboundBaggage (session : SessionState) (existing : JsValue) : String :=
  let baggage := mergeBaggageAtribSession session.sessionToken
    ((existing.member "baggage").string?.getD "")
  match session.policyRecordId.filter (· ≠ "") with
  | some policyRecordId => "atrib-policy=" ++ policyRecordId ++ "," ++ baggage
  | none => baggage

def buildOutboundMeta (parentId : String) (session : SessionState) (existing : JsValue) : JsValue :=
  let traceparent := (existing.member "traceparent").string?.getD
    ("00-" ++ session.contextId ++ "-" ++ parentId ++ "-01")
  let attribution :=
    match session.latestContext with
    | some latest =>
        [("atrib", .string latest.token), ("X-Atrib-Chain", .string latest.token),
          ("tracestate", .string (mergeTracestate ("atrib=" ++ latest.token)
            ((existing.member "tracestate").string?.getD "")))]
    | none =>
        match (existing.member "tracestate").string? with
        | some tracestate => [("tracestate", .string tracestate)]
        | none => []
  .object ([("X-atrib-Context", .string session.contextId), ("traceparent", .string traceparent),
    ("baggage", .string (outboundBaggage session existing))] ++ attribution)

/-- The first `atrib` entry decides, whether it can be decoded or not. -/
def tracestateToken (tracestate : String) : Option DecodedToken :=
  ((splitChars ',' tracestate.toList).findSome? fun entry => atribEntry (trimChars entry)).bind
    fun value => decodeToken (String.ofList (trimChars value))

/-- What `accumulateInboundContext` decodes. -/
def inboundToken (responseMeta : JsValue) : Option DecodedToken :=
  if !responseMeta.truthy then none
  else
    let ofMeta := (responseMeta.member "atrib").string?.bind decodeToken
    let ofTracestate := (responseMeta.member "tracestate").string?.bind tracestateToken
    let xAtribChain :=
      (responseMeta.member "X-Atrib-Chain").orElse (responseMeta.member "x-atrib-chain")
    (ofMeta.or ofTracestate).or (xAtribChain.string?.bind decodeToken)

theorem length_of_decodeToken {token : String} {decoded : DecodedToken}
    (h : decodeToken token = some decoded) :
    decoded.recordHash.length = 32 ∧ decoded.creatorKey.length = 32 := by
  unfold decodeToken at h
  simp only at h
  split at h
  · split at h
    · cases h
    · simp only [Option.bind_eq_bind, Option.bind_eq_some_iff] at h
      obtain ⟨recordHash, -, creatorKey, -, h⟩ := h
      split at h
      · cases h
      · next hlength =>
          rw [not_or, not_not, not_not] at hlength
          obtain rfl := Option.some.inj h
          exact hlength
  · cases h

theorem length_of_inboundToken {responseMeta : JsValue} {decoded : DecodedToken}
    (h : inboundToken responseMeta = some decoded) :
    decoded.recordHash.length = 32 ∧ decoded.creatorKey.length = 32 := by
  unfold inboundToken at h
  split at h
  · cases h
  · simp only [Option.or_eq_some_iff, Option.bind_eq_some_iff, tracestateToken] at h
    rcases h with (⟨_, -, h⟩ | ⟨-, _, -, _, -, h⟩) | ⟨-, _, -, h⟩
    · exact length_of_decodeToken h
    · exact length_of_decodeToken h
    · exact length_of_decodeToken h

/-- Whether a token has been found, and the session after it. -/
def accumulateInboundContext (session : SessionState) (responseMeta : JsValue) :
    Bool × SessionState :=
  match h : inboundToken responseMeta with
  | some decoded =>
      let latest : LatestContext :=
        ⟨decoded, (length_of_inboundToken h).1, (length_of_inboundToken h).2⟩
      (true, { session with latestContext := some latest })
  | none => (false, session)

end Atrib.Agent
