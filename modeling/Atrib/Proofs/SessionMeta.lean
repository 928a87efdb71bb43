import Atrib.Agent.Session
import Atrib.Proofs.ContextRoundTrip

/-!
# What a session writes is read

The `_meta` that an agent's session gives a call, as the server of the call reads
it, and the `_meta` of a result, which both read alike. The record of the policy
is put before a baggage that is within its limits already, so the limits are
those of what follows it. A tracestate is only cut where there is a token to put
into it.
-/

namespace Atrib.Agent

open Lib (JsValue)
open Lib.Texts (not_mem_of_mem_splitOn trim trim_trim)
open Middleware

/-! ## Members of a list -/

def memberCount (text : String) : ℕ := (splitChars ',' text.toList).length

/-- The members with a key. -/
def membersOf (key text : String) : List (List Char) :=
  (splitChars ',' text.toList).filter fun member => hasKey key (trimChars member)

theorem splitChars_cons {first rest : String} (hfirst : ',' ∉ first.toList) :
    splitChars ',' (first ++ "," ++ rest).toList = first.toList :: splitChars ',' rest.toList := by
  have hrest : List.intercalate [','] (rest.toList.splitOn ',') = rest.toList :=
    List.intercalate_splitOn ','
  have hne : rest.toList.splitOn ',' ≠ [] := List.splitOn_ne_nil ',' rest.toList
  have htext : (first ++ "," ++ rest).toList =
      List.intercalate [','] (first.toList :: rest.toList.splitOn ',') := by
    rw [List.intercalate_cons_of_ne_nil hne, hrest]
    simp
  rw [splitChars, htext]
  refine List.splitOn_intercalate ',' (List.forall_mem_cons.2 ⟨hfirst, fun part hpart => ?_⟩)
    (List.cons_ne_nil _ _)
  exact not_mem_of_mem_splitOn hpart

section Merged

variable {sessionToken existing merged : String}

theorem hasKey_session (h : SessionToken sessionToken) :
    hasKey "atrib-session" (trimChars ("atrib-session=" ++ sessionToken).toList) = true := by
  by_contra hkey
  have hnone := sessionEntry_eq_none (Bool.eq_false_iff.2 hkey)
  rw [h.sessionEntry_eq] at hnone
  cases hnone

/-- What is merged has one member with the key. -/
theorem membersOf_merged (h : SessionToken sessionToken)
    (hmerged : Merged "atrib-session" sessionEntry FitsBaggage ("atrib-session=" ++ sessionToken)
      existing merged) :
    membersOf "atrib-session" merged = [("atrib-session=" ++ sessionToken).toList] := by
  obtain ⟨kept, -, hsplit, -, hothers, -, -⟩ := hmerged
  rw [membersOf, hsplit, List.filter_cons, if_pos (hasKey_session h), List.filter_eq_nil_iff.2]
  intro member hmember
  obtain ⟨part, -, rfl⟩ := List.mem_map.1 (List.mem_filter.1 (List.mem_of_mem_take hmember)).1
  rw [trimChars_eq_trim, trimChars_eq_trim, trim_trim, ← trimChars_eq_trim,
    (hothers _ hmember).1]
  exact Bool.false_ne_true

end Merged

/-! ## The policy record -/

/-- What is put before the baggage. -/
def policyPrefix (session : SessionState) : String :=
  match session.policyRecordId.filter (· ≠ "") with
  | some policyRecordId => "atrib-policy=" ++ policyRecordId ++ ","
  | none => ""

/-- The id of a policy record has no comma: it is the hash of the record, or empty. -/
def PlainPolicy (session : SessionState) : Prop :=
  ∀ policyRecordId, session.policyRecordId = some policyRecordId → ',' ∉ policyRecordId.toList

theorem outboundBaggage_eq (session : SessionState) (existing : JsValue) :
    outboundBaggage session existing = policyPrefix session ++
      mergeBaggageAtribSession session.sessionToken (textOf existing "baggage") := by
  rw [outboundBaggage, policyPrefix, textOf]
  cases session.policyRecordId.filter (· ≠ "") with
  | none => simp
  | some policyRecordId => rfl

/-- The member of a policy record is not one of a session. -/
theorem afterKey_policy (policyRecordId : String) :
    afterKey "atrib-session" (trimChars ("atrib-policy=" ++ policyRecordId).toList) = none := by
  rw [afterKey, if_neg]
  intro hprefix
  have hkept : ("atrib-policy=" ++ policyRecordId).toList.dropWhile Verify.isSpace =
      ("atrib-policy=" ++ policyRecordId).toList := by
    simp only [String.toList_append]
    rfl
  have htrim : trimChars ("atrib-policy=" ++ policyRecordId).toList <+:
      ("atrib-policy=" ++ policyRecordId).toList := by
    rw [trimChars_eq_trim, trim, hkept]
    exact List.rdropWhile_prefix _ _
  have hkey := (List.isPrefixOf_iff_prefix.1 hprefix).trans htrim
  rw [String.toList_append] at hkey
  exact absurd (List.prefix_of_prefix_length_le hkey (List.prefix_append _ policyRecordId.toList)
    (by decide)) (by decide)

theorem splitChars_outbound {session : SessionState} (hpolicy : PlainPolicy session)
    (merged : String) :
    ∃ policy, splitChars ',' (policyPrefix session ++ merged).toList =
        policy ++ splitChars ',' merged.toList ∧
      ∀ member ∈ policy, afterKey "atrib-session" (trimChars member) = none := by
  rw [policyPrefix]
  cases hid : session.policyRecordId.filter (· ≠ "") with
  | none => exact ⟨[], by simp, fun _ h => absurd h List.not_mem_nil⟩
  | some policyRecordId =>
      have hcomma : ',' ∉ ("atrib-policy=" ++ policyRecordId).toList := by
        rw [String.toList_append, List.mem_append, not_or]
        exact ⟨by decide, hpolicy _ (Option.filter_eq_some_iff.1 hid).1⟩
      refine ⟨[("atrib-policy=" ++ policyRecordId).toList], splitChars_cons hcomma, ?_⟩
      intro member hmember
      rw [List.mem_singleton.1 hmember]
      exact afterKey_policy policyRecordId

theorem membersOf_outbound {session : SessionState} (hpolicy : PlainPolicy session)
    (merged : String) :
    membersOf "atrib-session" (policyPrefix session ++ merged) = membersOf "atrib-session" merged
      := by
  obtain ⟨policy, hsplit, hnone⟩ := splitChars_outbound hpolicy merged
  rw [membersOf, hsplit, List.filter_append, List.filter_eq_nil_iff.2, List.nil_append, membersOf]
  intro member hmember
  rw [hasKey, hnone member hmember]
  exact Bool.false_ne_true

theorem parseBaggage_outbound {session : SessionState} (hpolicy : PlainPolicy session)
    (merged : String) :
    parseBaggageAtribSession (policyPrefix session ++ merged) =
      parseBaggageAtribSession merged := by
  obtain ⟨policy, hsplit, hnone⟩ := splitChars_outbound hpolicy merged
  rw [parseBaggageAtribSession, hsplit, List.findSome?_append, List.findSome?_eq_none_iff.2,
    Option.none_or, parseBaggageAtribSession]
  intro member hmember
  rw [sessionEntry, hnone member hmember]
  rfl

/-! ## Both readers -/

theorem bind_filter_ne_empty {α : Type*} {read : String → Option α} (h : read "" = none)
    (text : Option String) : (text.filter (· ≠ "")).bind read = text.bind read := by
  cases text with
  | none => rfl
  | some text =>
      by_cases hempty : text = ""
      · subst hempty
        rw [Option.bind_some, h]
        rfl
      · rw [Option.filter_some, decide_eq_true hempty]
        rfl

theorem tracestateToken_eq (tracestate : String) :
    tracestateToken tracestate = (parseTracestateAtrib tracestate).bind fun entry =>
      if entry = "" then none else decodeToken entry := by
  have hmap : parseTracestateAtrib tracestate =
      ((splitChars ',' tracestate.toList).findSome? fun entry => atribEntry (trimChars entry)).map
        fun value => String.ofList (trimChars value) := by
    rw [parseTracestateAtrib, List.map_findSome?]
    rfl
  rw [tracestateToken, hmap]
  cases (splitChars ',' tracestate.toList).findSome? fun entry => atribEntry (trimChars entry) with
  | none => rfl
  | some value =>
      rw [Option.bind_some, Option.map_some, Option.bind_some]
      split
      · next hempty =>
          rw [hempty]
          rfl
      · rfl

theorem member_of_not_truthy {value : JsValue} (h : value.truthy = false) (key : String) :
    value.member key = .undefined := by
  cases value with
  | object | array | function => cases h
  | _ => rfl

/-- The agent and the server read the same token, or none. -/
theorem inboundToken_eq (params : JsValue) :
    inboundToken (params.member "_meta") =
      (readInboundContext params).map fun inbound => ⟨inbound.recordHash, inbound.creatorKey⟩ := by
  have htracestate : ∀ tracestate : Option String,
      ((tracestate.filter (· ≠ "")).bind parseTracestateAtrib).bind (fun entry =>
        if entry = "" then none else decodeToken entry) = tracestate.bind tracestateToken := by
    intro tracestate
    rw [bind_filter_ne_empty rfl, Option.bind_assoc]
    exact congrArg _ (funext fun text => (tracestateToken_eq text).symm)
  simp only [readInboundContext, metaText, htracestate,
    fun text => bind_filter_ne_empty (show decodeToken "" = none from rfl) text,
    Option.bind_eq_bind, Option.map_bind, Option.pure_def]
  rw [inboundToken]
  split
  · next hfalse =>
      rw [Bool.not_eq_true'] at hfalse
      simp only [member_of_not_truthy hfalse]
      rfl
  · exact (Option.bind_fun_some _).symm

theorem accumulateInboundContext_cases (session : SessionState) (responseMeta : JsValue) :
    (∃ decoded, inboundToken responseMeta = some decoded ∧
      ∃ latest, latest.toDecodedToken = decoded ∧
        accumulateInboundContext session responseMeta =
          (true, { session with latestContext := some latest })) ∨
      inboundToken responseMeta = none ∧
        accumulateInboundContext session responseMeta = (false, session) := by
  rw [accumulateInboundContext]
  split
  · next h => exact .inl ⟨_, h, _, rfl, rfl⟩
  · next h => exact .inr ⟨h, rfl⟩

theorem accumulateInboundContext_eq (session : SessionState) (params : JsValue) :
    let token := (readInboundContext params).map fun inbound =>
      (⟨inbound.recordHash, inbound.creatorKey⟩ : DecodedToken)
    let result := accumulateInboundContext session (params.member "_meta")
    result.1 = token.isSome ∧
      result.2.latestContext.map (·.toDecodedToken) =
        token.or (session.latestContext.map (·.toDecodedToken)) := by
  intro token result
  have htoken : inboundToken (params.member "_meta") = token := inboundToken_eq params
  rcases accumulateInboundContext_cases session (params.member "_meta") with
    ⟨decoded, hdecoded, latest, rfl, hresult⟩ | ⟨hnone, hresult⟩
  · simp only [result, ← htoken, hdecoded, hresult]
    exact ⟨rfl, rfl⟩
  · simp only [result, ← htoken, hnone, hresult]
    exact ⟨rfl, rfl⟩

/-! ## The members that are written -/

theorem baggage_buildOutboundMeta (parentId : String) (session : SessionState)
    (existing : JsValue) :
    (buildOutboundMeta parentId session existing).member "baggage" =
      .string (outboundBaggage session existing) := rfl

theorem attribution_buildOutboundMeta (parentId : String) {session : SessionState}
    (existing : JsValue) {latest : LatestContext} (hlatest : session.latestContext = some latest) :
    let written := buildOutboundMeta parentId session existing
    written.member "atrib" = .string latest.token ∧
      written.member "tracestate" =
        .string (mergeTracestate ("atrib=" ++ latest.token) (textOf existing "tracestate")) := by
  intro written
  simp only [written, buildOutboundMeta, hlatest]
  exact ⟨rfl, rfl⟩

/-- Without a token the tracestate is passed on as it is. -/
theorem tracestate_buildOutboundMeta (parentId : String) {session : SessionState}
    (existing : JsValue) (hlatest : session.latestContext = none) :
    ((buildOutboundMeta parentId session existing).member "tracestate").string? =
      (existing.member "tracestate").string? := by
  simp only [buildOutboundMeta, hlatest]
  cases htracestate : (existing.member "tracestate").string? with
  | none => rfl
  | some tracestate => rfl

/-- The server reads the token of the session and the session. -/
theorem read_buildOutboundMeta {session : SessionState} (htoken : SessionToken session.sessionToken)
    (hpolicy : PlainPolicy session) {parentId : String} {existing params : JsValue}
    {latest : LatestContext} (hlatest : session.latestContext = some latest)
    (hparams : params.member "_meta" = buildOutboundMeta parentId session existing) :
    readInboundContext params = some ⟨latest.recordHash, latest.creatorKey,
      (metaText (params.member "_meta") "traceparent").bind extractTraceId,
      some session.sessionToken⟩ := by
  obtain ⟨hatrib, -⟩ := attribution_buildOutboundMeta parentId existing hlatest
  have hbaggage : (buildOutboundMeta parentId session existing).member "baggage" =
      .string (policyPrefix session ++ _) :=
    (baggage_buildOutboundMeta parentId session existing).trans
      (congrArg JsValue.string (outboundBaggage_eq session existing))
  obtain ⟨kept, -, hsplit, -⟩ := htoken.merged (textOf existing "baggage")
  have hparse := (parseBaggage_outbound hpolicy _).trans (htoken.parseBaggage_first hsplit)
  have hdecode : decodeToken latest.token = some latest.toDecodedToken :=
    decodeToken_tokenOf latest.length_recordHash latest.length_creatorKey
  have hne : latest.token ≠ "" := fun h => by rw [h] at hdecode; cases hdecode
  have hneBaggage : policyPrefix session ++ mergeBaggageAtribSession session.sessionToken
      (textOf existing "baggage") ≠ "" := fun h => by rw [h] at hparse; cases hparse
  simp only [readInboundContext, hparams, metaText_string hatrib hne, hdecode,
    metaText_string hbaggage hneBaggage, hparse, Option.bind_some, Option.some_or]
  rfl

/-- What a session gives a call keeps the limits, apart from the policy record that is put before
it, and has the session once. The server reads the token and the session, and each token that it
reads of a `_meta` the session takes as well. -/
theorem session_meta {session : SessionState} (htoken : SessionToken session.sessionToken)
    (hpolicy : PlainPolicy session) (parentId : String) (existing : JsValue) :
    let written := buildOutboundMeta parentId session existing
    ∃ baggage merged, written.member "baggage" = .string baggage ∧
      baggage = policyPrefix session ++ merged ∧
      membersOf "atrib-session" baggage = [("atrib-session=" ++ session.sessionToken).toList] ∧
      memberCount merged ≤ 64 ∧
      ((utf8 ("atrib-session=" ++ session.sessionToken)).length ≤ 8192 →
        (utf8 merged).length ≤ 8192) ∧
      Merged "atrib-session" sessionEntry FitsBaggage ("atrib-session=" ++ session.sessionToken)
        (textOf existing "baggage") merged ∧
      parseBaggageAtribSession baggage = some session.sessionToken ∧
      (∀ latest, session.latestContext = some latest →
        (∃ tracestate, written.member "tracestate" = .string tracestate ∧
          memberCount tracestate ≤ 32) ∧
        ∀ params : JsValue, params.member "_meta" = written →
          ReadAs latest.recordHash latest.creatorKey session.sessionToken params) ∧
      (session.latestContext = none → (written.member "tracestate").string? =
        (existing.member "tracestate").string?) ∧
      ∀ (other : SessionState) (params : JsValue),
        let token := (readInboundContext params).map fun inbound =>
          (⟨inbound.recordHash, inbound.creatorKey⟩ : DecodedToken)
        let result := accumulateInboundContext other (params.member "_meta")
        result.1 = token.isSome ∧ result.2.latestContext.map (·.toDecodedToken) =
          token.or (other.latestContext.map (·.toDecodedToken)) := by
  intro written
  have hmerged := htoken.merged (textOf existing "baggage")
  have hbaggage : written.member "baggage" = .string (policyPrefix session ++ _) :=
    (baggage_buildOutboundMeta parentId session existing).trans
      (congrArg JsValue.string (outboundBaggage_eq session existing))
  obtain ⟨kept, -, hsplit, -, -, hfits, -⟩ := id hmerged
  have hparse := (parseBaggage_outbound hpolicy _).trans (htoken.parseBaggage_first hsplit)
  refine ⟨_, _, hbaggage, rfl, (membersOf_outbound hpolicy _).trans
    (membersOf_merged htoken hmerged), ?_, fun halone => ?_, hmerged, hparse,
    fun latest hlatest => ?_, tracestate_buildOutboundMeta parentId existing,
    accumulateInboundContext_eq⟩
  · rcases hfits with hfits | ⟨rfl, -⟩
    · exact hfits.1
    · rw [memberCount, hsplit]
      exact Nat.le_add_left 1 63
  · rcases hfits with hfits | ⟨-, hlong⟩
    · exact hfits.2
    · refine absurd ⟨?_, halone⟩ hlong
      rw [splitChars_entry htoken.comma_entry]
      exact Nat.le_add_left 1 63
  · obtain ⟨-, htracestate⟩ := attribution_buildOutboundMeta parentId existing hlatest
    have hchars := isTokenChar_tokenOf latest.recordHash latest.creatorKey
    have hcomma : ',' ∉ ("atrib=" ++ latest.token).toList := fun h =>
      (isTokenChar_spec (isTokenChar_entry hchars _ h)).1 rfl
    have hkey : hasKey "atrib" ("atrib=" ++ latest.token).toList = true := by
      rw [hasKey, String.toList_append, afterKey_atrib]
      rfl
    obtain ⟨keptTrace, -, hsplitTrace, -, -, hfitsTrace, -⟩ :=
      merged_mergeTracestate (textOf existing "tracestate") hcomma hkey
    refine ⟨⟨_, htracestate, ?_⟩, fun params hparams => ?_⟩
    · rcases hfitsTrace with hfits | ⟨rfl, -⟩
      · exact hfits
      · rw [memberCount, hsplitTrace]
        exact Nat.le_add_left 1 31
    · exact ⟨_, read_buildOutboundMeta htoken hpolicy hlatest hparams, rfl, rfl, rfl⟩

namespace SessionSample

/-- A session that has the token of a result. -/
def session : SessionState where
  contextId := "00000000000000000000000000000001"
  sessionToken := "session-1"
  latestContext := some ⟨⟨List.replicate 32 1, List.replicate 32 2⟩, by decide, by decide⟩
  policyRecordId := some "sha256:aa"

def existing : JsValue :=
  .object [("tracestate", .string "vendor=1, atrib = stale"),
    ("baggage", .string "user=7, atrib-session = old;ttl=1")]

theorem sessionToken : SessionToken session.sessionToken :=
  ⟨by decide, by decide, by decide, by decide⟩

theorem plainPolicy : PlainPolicy session := by
  intro policyRecordId h
  obtain rfl := Option.some.inj h
  decide

theorem session_meta_stale :
    ReadAs (List.replicate 32 1) (List.replicate 32 2) "session-1"
      (.object [("_meta", buildOutboundMeta "0000000000000001" session existing)]) := by
  obtain ⟨-, -, -, -, -, -, -, -, -, hread, -⟩ :=
    session_meta sessionToken plainPolicy "0000000000000001" existing
  exact (hread _ rfl).2 _ rfl

/-- A tracestate of 33 members is passed on. -/
def vendors : String :=
  "a=1,b=1,c=1,d=1,e=1,f=1,g=1,h=1,i=1,j=1,k=1,l=1,m=1,n=1,o=1,p=1,q=1,r=1,s=1,t=1,u=1,v=1,w=1," ++
    "x=1,y=1,z=1,a0=1,b0=1,c0=1,d0=1,e0=1,f0=1,g0=1"

theorem tracestate_not_cut :
    ∃ (session : SessionState) (existing : JsValue), SessionToken session.sessionToken ∧
      PlainPolicy session ∧ ∀ parentId, ∃ tracestate,
        (buildOutboundMeta parentId session existing).member "tracestate" = .string tracestate ∧
          ¬memberCount tracestate ≤ 32 :=
  ⟨{ session with latestContext := none }, .object [("tracestate", .string vendors)],
    sessionToken, plainPolicy, fun _ => ⟨vendors, rfl, by decide +kernel⟩⟩

end SessionSample

end Atrib.Agent
