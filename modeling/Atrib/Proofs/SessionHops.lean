import Atrib.Proofs.SessionMeta
import Mathlib.Data.List.ReduceOption

/-!
# The chain from call to call

A session takes the token of each result that has one and names it in its next
call. So the server of a call sees the last record that was signed on the way to
it, whatever results without a token came in between, and the session and the
trace are those of the first call.
-/

namespace Atrib.Agent

open Lib (JsValue)
open Middleware

/-! ## The trace of a call -/

/-- A trace id or a parent id, as `traceparent` has it. -/
def IsId (length : ℕ) (id : String) : Prop :=
  isLowerHex length id.toList = true ∧ id.toList ≠ List.replicate length '0'

theorem dash_of_isLowerHex {length : ℕ} {chars : List Char} (h : isLowerHex length chars = true) :
    '-' ∉ chars := by
  intro hdash
  rw [isLowerHex, Bool.and_eq_true, List.all_eq_true] at h
  exact absurd (h.2 '-' hdash) (by decide)

theorem splitChars_traceparent {contextId parentId : String} (hcontext : IsId 32 contextId)
    (hparent : IsId 16 parentId) :
    splitChars '-' ("00-" ++ contextId ++ "-" ++ parentId ++ "-01").toList =
      ["00".toList, contextId.toList, parentId.toList, "01".toList] := by
  have htext : ("00-" ++ contextId ++ "-" ++ parentId ++ "-01").toList =
      List.intercalate ['-'] ["00".toList, contextId.toList, parentId.toList, "01".toList] := by
    simp [List.intercalate]
  rw [splitChars, htext]
  refine List.splitOn_intercalate '-' ?_ (List.cons_ne_nil _ _)
  intro part hpart
  simp only [List.mem_cons, List.not_mem_nil, or_false] at hpart
  rcases hpart with rfl | rfl | rfl | rfl
  · decide
  · exact dash_of_isLowerHex hcontext.1
  · exact dash_of_isLowerHex hparent.1
  · decide

theorem extractTraceId_traceparent {contextId parentId : String} (hcontext : IsId 32 contextId)
    (hparent : IsId 16 parentId) :
    extractTraceId ("00-" ++ contextId ++ "-" ++ parentId ++ "-01") = some contextId := by
  have hversion : isLowerHex 2 "00".toList = true ∧ "00".toList ≠ "ff".toList := by decide
  have hflags : isLowerHex 2 "01".toList = true := by decide
  rw [extractTraceId, splitChars_traceparent hcontext hparent]
  simp only [hversion, hflags, hcontext.1, hcontext.2, hparent.1, hparent.2, String.ofList_toList,
    List.length_cons, List.length_nil]
  rfl

/-! ## Results -/

/-- What the `_meta` of a result says: the record that its server has signed, or nothing. -/
inductive Answer (P : Platform) : JsValue → Option DecodedToken → Prop where
  | signed {record : JsValue} {bytes creatorKey : Bytes} {result : List (String × JsValue)}
      {options : Outbound.OutboundContextOptions} {written : JsValue}
      (hsigned : verifySignature P record = .ok true)
      (hbytes : canonicalBytes P record = .ok bytes)
      (hcreator : decodeText (record.member "creator_key") = .ok creatorKey)
      (hmeta : ∀ items, (JsValue.object result).member "_meta" ≠ .array items)
      (hwrite : Outbound.writeOutboundContext P (.object result) record options = .ok written) :
      Answer P (written.member "_meta") (some ⟨P.hash.sha256 bytes, creatorKey⟩)
  | plain {responseMeta : JsValue}
      (h : ∀ params : JsValue, params.member "_meta" = responseMeta →
        readInboundContext params = none) :
      Answer P responseMeta none

theorem atrib_outboundMeta {resultMeta : JsValue} (hmeta : ∀ items, resultMeta ≠ .array items)
    (token : String) (traceparent session : Option String) :
    (outboundMeta resultMeta token traceparent session).member "atrib" = .string token := by
  obtain ⟨existing, hexisting⟩ : ∃ existing,
      (if resultMeta.isObject then resultMeta else .object []) = JsValue.object existing := by
    cases resultMeta with
    | object members => exact ⟨members, rfl⟩
    | array items => exact absurd rfl (hmeta items)
    | _ => exact ⟨[], rfl⟩
  unfold outboundMeta
  rw [hexisting]
  cases traceparent.filter (· ≠ "") <;> cases session.filter (· ≠ "") <;>
    simp only [member_withMember_other _ _ _ (show "atrib" ≠ "baggage" by decide),
      member_withMember_other _ _ _ (show "atrib" ≠ "traceparent" by decide),
      member_withMember_other _ _ _ (show "atrib" ≠ "X-Atrib-Chain" by decide),
      member_withMember_other _ _ _ (show "atrib" ≠ "tracestate" by decide),
      member_withMember_self]

theorem inboundToken_of_atrib {responseMeta : JsValue} {text : String} {token : DecodedToken}
    (hatrib : responseMeta.member "atrib" = .string text)
    (hdecode : decodeToken text = some token) :
    inboundToken responseMeta = some token := by
  have htruthy : responseMeta.truthy = true := by
    by_contra hfalse
    rw [member_of_not_truthy (Bool.eq_false_iff.2 hfalse)] at hatrib
    cases hatrib
  rw [inboundToken, htruthy, hatrib]
  simp only [JsValue.string?, Option.bind_some, hdecode, Option.some_or]
  rfl

theorem Answer.inboundToken {P : Platform} {responseMeta : JsValue} {token : Option DecodedToken}
    (h : Answer P responseMeta token) : inboundToken responseMeta = token := by
  cases h with
  | @signed record bytes creatorKey result options written hsigned hbytes hcreator hmeta hwrite =>
      obtain ⟨creatorKey', hcreator', hlength⟩ := LogNode.decodeText_of_verifySignature hsigned
      obtain rfl : creatorKey' = creatorKey := Except.ok.inj (hcreator'.symm.trans hcreator)
      have hencode := encodeToken_eq hbytes hcreator hlength
      rw [Outbound.writeOutboundContext, hencode] at hwrite
      obtain rfl := Except.ok.inj hwrite
      rw [member_withMember_self]
      exact inboundToken_of_atrib (atrib_outboundMeta hmeta _ _ _)
        (decodeToken_tokenOf (P.hash.length_sha256 bytes) hlength)
  | plain h =>
      have hnone := inboundToken_eq (.object [("_meta", responseMeta)])
      rwa [h (.object [("_meta", responseMeta)]) rfl] at hnone

/-! ## Runs of a session -/

/-- A session after the results of its calls. -/
def SessionState.after (session : SessionState) (answers : List JsValue) : SessionState :=
  answers.foldl (fun session answer => (accumulateInboundContext session answer).2) session

theorem accumulate_other (session : SessionState) (answer : JsValue) :
    let next := (accumulateInboundContext session answer).2
    next.contextId = session.contextId ∧ next.sessionToken = session.sessionToken ∧
      next.policyRecordId = session.policyRecordId := by
  intro next
  rcases accumulateInboundContext_cases session answer with ⟨_, -, latest, -, h⟩ | ⟨-, h⟩ <;>
    simp only [next, h, and_self]

/-- Only the token changes. -/
theorem after_other (session : SessionState) (answers : List JsValue) :
    (session.after answers).contextId = session.contextId ∧
      (session.after answers).sessionToken = session.sessionToken ∧
      (session.after answers).policyRecordId = session.policyRecordId := by
  induction answers generalizing session with
  | nil => exact ⟨rfl, rfl, rfl⟩
  | cons answer answers ih =>
      obtain ⟨hcontext, htoken, hpolicy⟩ := accumulate_other session answer
      obtain ⟨hcontext', htoken', hpolicy'⟩ := ih (accumulateInboundContext session answer).2
      exact ⟨hcontext'.trans hcontext, htoken'.trans htoken, hpolicy'.trans hpolicy⟩

/-- The token of a session is the last one that a result had. -/
theorem latest_after {P : Platform} {answers : List JsValue} {tokens : List (Option DecodedToken)}
    (h : List.Forall₂ (Answer P) answers tokens) (session : SessionState) :
    (session.after answers).latestContext.map (·.toDecodedToken) =
      tokens.reduceOption.getLast?.or (session.latestContext.map (·.toDecodedToken)) := by
  induction h generalizing session with
  | nil => rfl
  | @cons answer token answers tokens hanswer _ ih =>
      change ((accumulateInboundContext session answer).2.after answers).latestContext.map _ = _
      rw [ih]
      have htoken := hanswer.inboundToken
      rcases accumulateInboundContext_cases session answer with
        ⟨decoded, hdecoded, latest, rfl, hresult⟩ | ⟨hnone, hresult⟩
      · rw [hresult, ← htoken, hdecoded, List.reduceOption_cons_of_some, List.getLast?_cons]
        cases tokens.reduceOption.getLast? <;> rfl
      · rw [hresult, ← htoken, hnone, List.reduceOption_cons_of_none]

/-- What `createSession` makes: a token as it can stand in baggage, and a trace id. -/
structure SessionState.WellMade (session : SessionState) : Prop where
  token : SessionToken session.sessionToken
  policy : PlainPolicy session
  context : IsId 32 session.contextId

/-- The server of the next call reads the last record that a server before it has signed, the
session, and the trace of the session unless the call has one of its own. -/
theorem next_call_reads {P : Platform} {session : SessionState} (hsession : session.WellMade)
    {answers : List JsValue} {tokens : List (Option DecodedToken)}
    (h : List.Forall₂ (Answer P) answers tokens) {token : DecodedToken}
    (hlast : tokens.reduceOption.getLast? = some token) {parentId : String}
    (hparent : IsId 16 parentId) (existing : JsValue) {params : JsValue}
    (hparams : params.member "_meta" =
      buildOutboundMeta parentId (session.after answers) existing) :
    ∃ inbound, readInboundContext params = some inbound ∧
      inbound.recordHash = token.recordHash ∧ inbound.creatorKey = token.creatorKey ∧
      inbound.sessionToken = some session.sessionToken ∧
      ((existing.member "traceparent").string? = none →
        inbound.contextId = some session.contextId) := by
  obtain ⟨hcontext, htoken, hpolicy⟩ := after_other session answers
  have hlatest := latest_after h session
  rw [hlast, Option.some_or] at hlatest
  obtain ⟨latest, hsome, rfl⟩ := Option.map_eq_some_iff.1 hlatest
  have hplain : PlainPolicy (session.after answers) := by
    rw [PlainPolicy, hpolicy]
    exact hsession.policy
  refine ⟨_, read_buildOutboundMeta (htoken ▸ hsession.token) hplain hsome hparams, rfl, rfl,
    congrArg some htoken, fun hnone => ?_⟩
  have htraceparent : (buildOutboundMeta parentId (session.after answers) existing).member
      "traceparent" = .string ("00-" ++ session.contextId ++ "-" ++ parentId ++ "-01") := by
    rw [← hcontext]
    change JsValue.string _ = _
    rw [hnone]
    rfl
  have hne : "00-" ++ session.contextId ++ "-" ++ parentId ++ "-01" ≠ "" := fun hempty => by
    have htrace := extractTraceId_traceparent hsession.context hparent
    rw [hempty] at htrace
    cases htrace
  change (metaText (params.member "_meta") "traceparent").bind extractTraceId = _
  rw [hparams, metaText_string htraceparent hne, Option.bind_some,
    extractTraceId_traceparent hsession.context hparent]

namespace HopSample

open SessionSample (session existing sessionToken plainPolicy)
open LogNode (SpelledSample.platform SpelledSample.canonicalSpelling)
open Middleware.CarriedSample (result recordBytes verified canonicalBytes_record)

theorem wellMade : session.WellMade :=
  ⟨sessionToken, plainPolicy, by decide, by decide⟩

/-- A result without a token comes after one that a server has signed. -/
theorem next_call_reads_signed :
    ∃ creatorKey written, Outbound.writeOutboundContext SpelledSample.platform (.object result)
        SpelledSample.canonicalSpelling ⟨none, none⟩ = .ok written ∧
      ∀ params : JsValue, params.member "_meta" = buildOutboundMeta "0000000000000001"
          (session.after [written.member "_meta", .object []]) existing →
        ∃ inbound, readInboundContext params = some inbound ∧
          inbound.recordHash = SpelledSample.platform.hash.sha256 recordBytes ∧
          inbound.creatorKey = creatorKey ∧ inbound.contextId = some session.contextId := by
  obtain ⟨creatorKey, hcreator, hlength⟩ := LogNode.decodeText_of_verifySignature verified
  have hencode := encodeToken_eq canonicalBytes_record hcreator hlength
  obtain ⟨written, hwrite⟩ : ∃ written, Outbound.writeOutboundContext SpelledSample.platform
      (.object result) SpelledSample.canonicalSpelling ⟨none, none⟩ = .ok written := by
    rw [Outbound.writeOutboundContext, hencode]
    exact ⟨_, rfl⟩
  have hmeta : ∀ items, (JsValue.object result).member "_meta" ≠ .array items :=
    fun items h => by cases h
  have hplain : ∀ params : JsValue, params.member "_meta" = .object [] →
      readInboundContext params = none := by
    intro params h
    rw [readInboundContext, h]
    rfl
  have hanswers : List.Forall₂ (Answer SpelledSample.platform)
      [written.member "_meta", .object []]
      [some ⟨SpelledSample.platform.hash.sha256 recordBytes, creatorKey⟩, none] :=
    .cons (.signed verified canonicalBytes_record hcreator hmeta hwrite)
      (.cons (.plain hplain) .nil)
  have hparent : IsId 16 "0000000000000001" := ⟨by decide, by decide⟩
  refine ⟨creatorKey, written, hwrite, fun params hparams => ?_⟩
  obtain ⟨inbound, hread, hhash, hkey, -, hcontext⟩ :=
    next_call_reads wellMade hanswers rfl hparent existing hparams
  exact ⟨inbound, hread, hhash, hkey, hcontext rfl⟩

end HopSample

end Atrib.Agent
