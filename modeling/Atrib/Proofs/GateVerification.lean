import Atrib.Proofs.GateEntries

/-!
# The verification of what a run has signed

The verifier computes everything again from the two artifacts: the hashes, the ids,
the commitments and the links. On artifacts of a run it finds what the run has
written, so that only the signatures of the two records are left to be verified.
-/

namespace Atrib.ActionGate

open Lib (JsValue bind_eq_ok)

variable {ρ : Type}

/-! ## What can be canonicalised -/

/-- `canonicalize` does not throw. -/
def Digestible (P : Platform ρ) (value : JsValue) : Prop := ∃ json, P.mcp.canonicalize value = .ok json

/-- No member is a method `toJSON`, which `canonicalize` would call. -/
def NoToJSON (members : List (String × JsValue)) : Prop :=
  ∀ entry ∈ members, entry.1 = "toJSON" → entry.2 ≠ .function

/-- What the `canonicalize` library does: it throws on an object if it throws on a member, and
makes nothing of `undefined`; and a text of it parses to a value with the same text. -/
structure CanonicalizeLaws (P : Platform ρ) : Prop where
  undefined : P.mcp.canonicalize .undefined = .ok none
  null : Digestible P .null
  bool : ∀ b, Digestible P (.bool b)
  string : ∀ text, Digestible P (.string text)
  finite : ∀ q, Digestible P (.number (.finite q))
  texts : ∀ values, Digestible P (texts values)
  object : ∀ members, NoToJSON members →
    (Digestible P (.object members) ↔ ∀ entry ∈ members, Digestible P entry.2)
  object_ne_none : ∀ members, NoToJSON members → P.mcp.canonicalize (.object members) ≠ .ok none
  parse : ∀ value json parsed, P.mcp.canonicalize value = .ok (some json) →
    P.parse json = .ok parsed → P.mcp.canonicalize parsed = .ok (some json)

variable {P : Platform ρ}

theorem noToJSON_of_keys {members : List (String × JsValue)}
    (h : "toJSON" ∉ members.map Prod.fst) : NoToJSON members :=
  fun _ hentry heq _ => h (heq ▸ List.mem_map_of_mem hentry)

theorem hashCanonical_eq_ok {value : JsValue} {digest : String} :
    hashCanonical P value = .ok digest ↔ ∃ json, P.mcp.canonicalize value = .ok (some json) ∧
      digest = sha256Ref (P.mcp.hash.sha256 (utf8 json)) := hashJson_eq_ok

theorem digestible_orElse {value other : JsValue} (h : Digestible P value)
    (hother : Digestible P other) : Digestible P (value.orElse other) := by
  cases value <;> first | exact h | exact hother

theorem canonicalEqual_self {value : JsValue} (h : Digestible P value) :
    canonicalEqual P value value = .ok true := by
  obtain ⟨json, hjson⟩ := h
  unfold canonicalEqual
  rw [hjson]
  exact congrArg Except.ok (decide_eq_true rfl)

namespace CanonicalizeLaws

variable (laws : CanonicalizeLaws P)
include laws

theorem object_iff {members : List (String × JsValue)} (hkeys : NoToJSON members) :
    (∃ json, P.mcp.canonicalize (.object members) = .ok (some json)) ↔
      ∀ entry ∈ members, Digestible P entry.2 := by
  rw [← laws.object members hkeys]
  constructor
  · rintro ⟨json, hjson⟩
    exact ⟨some json, hjson⟩
  · rintro ⟨json, hjson⟩
    cases json with
    | none => exact absurd hjson (laws.object_ne_none members hkeys)
    | some json => exact ⟨json, hjson⟩

theorem digestible_member {members : List (String × JsValue)}
    (h : ∀ entry ∈ members, Digestible P entry.2) (key : String) :
    Digestible P ((JsValue.object members).member key) := by
  change Digestible P ((members.lookup key).getD .undefined)
  cases hlookup : members.lookup key with
  | none => exact ⟨none, laws.undefined⟩
  | some value =>
      obtain ⟨entry, hentry, rfl⟩ : ∃ entry ∈ members, entry.2 = value := by
        rw [List.lookup_eq_some_iff] at hlookup
        obtain ⟨before, after, rfl, -⟩ := hlookup
        exact ⟨(key, value), by simp, rfl⟩
      exact h entry hentry

/-- The digest of an object whose members do not throw. -/
theorem hashCanonical_ok {members : List (String × JsValue)} (hkeys : NoToJSON members)
    (h : ∀ entry ∈ members, Digestible P entry.2) :
    ∃ digest, hashCanonical P (.object members) = .ok digest := by
  obtain ⟨json, hjson⟩ := (laws.object_iff hkeys).2 h
  exact ⟨_, hashCanonical_eq_ok.2 ⟨json, hjson, rfl⟩⟩

theorem digestible_of_hashCanonical {members : List (String × JsValue)} (hkeys : NoToJSON members)
    {digest : String} (h : hashCanonical P (.object members) = .ok digest) :
    ∀ entry ∈ members, Digestible P entry.2 := by
  obtain ⟨json, hjson, -⟩ := hashCanonical_eq_ok.1 h
  exact (laws.object_iff hkeys).1 ⟨json, hjson⟩

end CanonicalizeLaws

/-! ## Members -/

/-- What a record of a run says. -/
theorem member_record (options : RunOptions) (contextId creatorKey : String) (timestampMs : ℚ)
    (input : RecordInput) (signature : String) :
    let record := Middleware.withSignature
      (recordMembers P options contextId creatorKey timestampMs input) signature
    record.member "creator_key" = .string creatorKey ∧
      record.member "chain_root" = .string input.chainRoot ∧
      record.member "event_type" = .string input.eventType ∧
      record.member "context_id" = .string contextId ∧
      record.member "timestamp" = .number (.finite timestampMs) ∧
      record.member "args_hash" = .string input.argsHash ∧
      record.member "result_hash" = .string input.resultHash ∧
      record.member "tool_name" = .string input.toolName :=
  ⟨rfl, rfl, rfl, rfl, rfl, rfl, rfl, rfl⟩

theorem member_informedBy (options : RunOptions) (contextId creatorKey : String) (timestampMs : ℚ)
    {input : RecordInput} (hparents : input.informedBy ≠ []) (signature : String) :
    (Middleware.withSignature (recordMembers P options contextId creatorKey timestampMs input)
      signature).member "informed_by" = texts input.informedBy := by
  unfold recordMembers
  rw [if_pos hparents]
  rfl

/-! ## The artifacts of a run -/

/-- An outcome that goes with the state of its decision. -/
inductive Accords (state : JsValue) : OutcomeInput ρ → Prop
  | closed {status : String} (hstatus : status = "blocked" ∨ status = "escalated" ∨
      status = "policy_error") (hstate : state = .string status) :
      Accords state { status, executed := false }
  | executed {result : Option ρ} (hstate : state = .string "allowed") :
      Accords state { status := "executed", executed := true, result }
  | failed {error : NormalizedError} (hstate : state = .string "allowed") :
      Accords state { status := "execution_error", executed := true, error := some error }

/-- A decision and an outcome that a run has signed. -/
structure Produced (P : Platform ρ) (A : (op : Op) → Except Thrown (Ans ρ op) → Prop)
    (options : RunOptions) (action : ActionEnvelope) (decided : Decided) (input : OutcomeInput ρ)
    (outcome : Artifact) : Prop where
  decides : DecidedBy P A options action decided
  built : ∃ timestamp, BuiltOutcome P input action.run_id action.action_id
    (decided.artifact.entry.member "decision_id") decided.artifact.record_hash timestamp
    outcome.entry
  signed : ∃ timestampMs, OutcomeSigned P A options decided.key outcome.entry action
    decided.contextId decided.artifact.record_hash timestampMs outcome
  accords : Accords (decided.artifact.entry.member "decision_state") input

theorem sha256Ref_chainRoot {recordHash contextId : String} {bytes : Bytes}
    (h : recordHash = sha256Ref (P.mcp.hash.sha256 bytes)) :
    resolveChainRoot P contextId (some (afterHashPrefix recordHash)) = recordHash := by
  have hne : hexEncode (P.mcp.hash.sha256 bytes) ≠ "" := by
    intro hempty
    have hlength := congrArg (fun text : String => text.toList.length) hempty
    simp [toList_hexEncode, length_hexDigits, P.mcp.hash.length_sha256] at hlength
  rw [h, afterHashPrefix_sha256Ref, resolveChainRoot, Option.filter_some, if_pos (by simpa using hne)]
  rfl

section

variable {A : (op : Op) → Except Thrown (Ans ρ op) → Prop} {options : RunOptions}
variable {action : ActionEnvelope} {decided : Decided} {input : OutcomeInput ρ}
variable {outcome : Artifact}

/-- What the two records of a run say. -/
theorem Produced.records (h : Produced P A options action decided input outcome) :
    (recordHashFor P decided.artifact.record = .ok decided.artifact.record_hash ∧
      recordHashFor P outcome.record = .ok outcome.record_hash) ∧
    (outcome.record.member "context_id" = .string decided.contextId ∧
      decided.artifact.record.member "context_id" = .string decided.contextId) ∧
    (outcome.record.member "creator_key" = .string (decided.key.creatorKey P) ∧
      decided.artifact.record.member "creator_key" = .string (decided.key.creatorKey P)) ∧
    (outcome.record.member "informed_by" = texts [decided.artifact.record_hash] ∧
      outcome.record.member "chain_root" = .string decided.artifact.record_hash) := by
  obtain ⟨_, _, _, _, -, -, hdecision⟩ := h.decides.entry
  obtain ⟨_, _, -, -, ⟨_, -, hrecord⟩, hhash, -⟩ := hdecision.signed
  obtain ⟨_, houtcome⟩ := h.signed
  obtain ⟨_, _, -, -, ⟨_, -, hrecord'⟩, hhash', -⟩ := houtcome.signed
  refine ⟨⟨hhash, hhash'⟩, ⟨?_, ?_⟩, ⟨?_, ?_⟩, ?_, ?_⟩
  · exact hrecord' ▸ (member_record _ _ _ _ _ _).2.2.2.1
  · exact hrecord ▸ (member_record _ _ _ _ _ _).2.2.2.1
  · exact hrecord' ▸ (member_record _ _ _ _ _ _).1
  · exact hrecord ▸ (member_record _ _ _ _ _ _).1
  · exact hrecord' ▸ member_informedBy _ _ _ _ (List.cons_ne_nil _ _) _
  · obtain ⟨_, -, hsha⟩ := recordHashFor_eq_ok.1 hhash
    rw [hrecord', (member_record _ _ _ _ _ _).2.1]
    exact congrArg JsValue.string (sha256Ref_chainRoot hsha)

theorem Produced.linkIssues (h : Produced P A options action decided input outcome) :
    linkIssues P decided.artifact outcome = .ok [] := by
  obtain ⟨⟨hhash, hhash'⟩, ⟨hcontext', hcontext⟩, ⟨hkey', hkey⟩, hinformed, hchain⟩ := h.records
  obtain ⟨_, _, _, _, -, hbuilt, -⟩ := h.decides.entry
  have hbuilt := buildActionGateDecisionEntry_eq_ok.1 hbuilt
  obtain ⟨-, hrun, haction, -⟩ := hbuilt.members
  obtain ⟨id, -, hid⟩ := hbuilt.id
  obtain ⟨_, hbuilt'⟩ := h.built
  obtain ⟨-, -, hrun', haction', hid', hdecisionHash, -⟩ := hbuilt'.members
  have hget := JsValue.get_of_member hid nofun
  simp [ActionGate.linkIssues, hhash, hhash', hinformed, hdecisionHash, hget, hid', hid, hrun, hrun',
    haction, haction', hcontext, hcontext', hkey, hkey', hchain, includes, texts, rethrow, issueIf,
    differs, bind, Except.bind, pure, Except.pure]

/-- The outcome does not contradict itself. -/
theorem Accords.coherent {state : JsValue} {runId actionId : String} {decisionId : JsValue}
    {decisionRecordHash timestamp : String} {entry : JsValue} (h : Accords state input)
    (hbuilt : BuiltOutcome P input runId actionId decisionId decisionRecordHash timestamp entry) :
    outcomeStatusMatchesExecution (.string input.status) input.executed = true ∧
      outcomeStatusPayloadValid entry = true := by
  obtain ⟨-, hstatus, -⟩ := hbuilt.members
  have herror := hbuilt.member_error
  have hdigest := hbuilt.resultDigest
  cases h with
  | closed hclosed hstate =>
      rcases hclosed with rfl | rfl | rfl <;>
        simp_all [outcomeStatusMatchesExecution, outcomeStatusPayloadValid]
  | executed hstate =>
      simp_all [outcomeStatusMatchesExecution, outcomeStatusPayloadValid]
  | failed hstate =>
      simp_all [outcomeStatusMatchesExecution, outcomeStatusPayloadValid, errorOf]

/-- A digest that an outcome may carry. -/
theorem BuiltOutcome.digestValid {runId actionId : String} {decisionId : JsValue}
    {decisionRecordHash timestamp : String} {entry : JsValue}
    (hbuilt : BuiltOutcome P input runId actionId decisionId decisionRecordHash timestamp entry) :
    entry.member "result_digest" = .undefined ∨
      (entry.member "result_digest").string?.any (isSha256Ref ·) = true := by
  rcases hbuilt.resultDigest with ⟨-, hnone⟩ | ⟨result, digest, -, hdigest, hsome⟩
  · exact .inl hnone
  · rw [hsome]
    exact .inr (isSha256Ref_hashJson hdigest)

theorem Produced.shapeIssues (h : Produced P A options action decided input outcome) :
    shapeIssues decided.artifact outcome = .ok [] := by
  obtain ⟨policy, _, _, _, -, hbuilt, -⟩ := h.decides.entry
  have hbuilt := buildActionGateDecisionEntry_eq_ok.1 hbuilt
  obtain ⟨hschema, -, -, hpolicy⟩ := hbuilt.members
  obtain ⟨state, hstate, hmember⟩ := hbuilt.state
  obtain ⟨_, hbuilt'⟩ := h.built
  obtain ⟨hschema', hstatus, -, -, -, -, hexecuted⟩ := hbuilt'.members
  obtain ⟨hmatches, hpayload⟩ := h.accords.coherent hbuilt'
  have hdigest := hbuilt'.digestValid.resolve_left
  simpa [ActionGate.shapeIssues, hpolicy, isPolicyOutcome_of_state hstate, hstate, hmember, hschema,
    hschema', hstatus, hbuilt'.status, hexecuted, hmatches, hpayload, issueIf, differs, bind,
    Except.bind, pure, Except.pure] using hdigest

theorem Produced.commitmentIssues (h : Produced P A options action decided input outcome) :
    commitmentIssues P decided.artifact outcome = .ok [] := by
  obtain ⟨policy, _, parents, _, -, hbuilt, hdecision⟩ := h.decides.entry
  have hbuilt := buildActionGateDecisionEntry_eq_ok.1 hbuilt
  obtain ⟨state, -, hstate⟩ := hbuilt.state
  obtain ⟨id, hid, hmember⟩ := hbuilt.id
  obtain ⟨argsHash, resultHash, hargs, hresult, ⟨_, -, hrecord⟩, -, -⟩ := hdecision.signed
  obtain ⟨_, hbuilt'⟩ := h.built
  obtain ⟨-, hstatus, -⟩ := hbuilt'.members
  obtain ⟨id', hid', hmember'⟩ := hbuilt'.id
  obtain ⟨_, houtcome⟩ := h.signed
  obtain ⟨argsHash', resultHash', hargs', hresult', ⟨_, -, hrecord'⟩, -, -⟩ := houtcome.signed
  obtain ⟨-, -, htype, -, -, hargsHash, hresultHash, htool⟩ :=
    hrecord ▸ member_record (P := P) _ _ _ _ _ _
  obtain ⟨-, -, htype', -, -, hargsHash', hresultHash', htool'⟩ :=
    hrecord' ▸ member_record (P := P) _ _ _ _ _ _
  simp [ActionGate.commitmentIssues, hid, hid', hmember, hmember', hstate, hstatus, hargs, hargs',
    hresult, hresult', htype, htype', hargsHash, hargsHash', hresultHash, hresultHash', htool,
    htool', decisionInput, outcomeInput, textOf, JsValue.string?, dotted, JsValue.toText, rethrow,
    issueIf, differs, bind, Except.bind, pure, Except.pure]

/-- Where there are arguments, the digest is theirs. -/
theorem actionArgsDigest_of_args {digest : String} (hargs : action.args ≠ .undefined)
    (h : actionArgsDigest P action = .ok digest) : hashCanonical P action.args = .ok digest := by
  unfold actionArgsDigest at h
  obtain ⟨supplied, -, h⟩ := bind_eq_ok.1 h
  rw [if_pos hargs] at h
  obtain ⟨computed, hcomputed, h⟩ := bind_eq_ok.1 h
  split at h
  · exact nomatch h
  · next hsame =>
    cases h
    cases supplied with
    | none => exact hcomputed
    | some supplied =>
        obtain rfl : supplied = computed := by simpa using hsame
        exact hcomputed

theorem snapshotCanonical_of {value : JsValue} {json : String}
    (h : P.mcp.canonicalize value = .ok (some json)) :
    snapshotCanonical P value = (P.parse json).toOption.getD .undefined := by
  rw [snapshotCanonical, h]

theorem payloadMatches_undefined (digest : JsValue) :
    payloadMatches P .undefined digest = .ok true := if_pos rfl

/-- What a sidecar keeps of the arguments has the digest that they have. -/
theorem payloadMatches_snapshot (laws : CanonicalizeLaws P) {digest : String}
    (h : actionArgsDigest P action = .ok digest) :
    payloadMatches P (snapshotCanonical P action.args) (.string digest) = .ok true := by
  unfold payloadMatches
  split
  · rfl
  next hpayload =>
  rcases hjson : P.mcp.canonicalize action.args with error | (_ | json)
  · exact absurd (by rw [snapshotCanonical, hjson]) hpayload
  · exact absurd (by rw [snapshotCanonical, hjson]) hpayload
  rcases hparse : P.parse json with error | parsed
  · exact absurd (by rw [snapshotCanonical_of hjson, hparse]; rfl) hpayload
  have hargs : action.args ≠ .undefined := by
    intro hnone
    rw [hnone, laws.undefined] at hjson
    exact nomatch hjson
  have hsnapshot : snapshotCanonical P action.args = parsed := by
    rw [snapshotCanonical_of hjson, hparse]
    rfl
  obtain ⟨text, htext, rfl⟩ := hashCanonical_eq_ok.1 (actionArgsDigest_of_args hargs h)
  obtain rfl : json = text := by simpa [hjson] using htext
  have hdigest : digestCanonical P parsed = .ok (sha256Ref (P.mcp.hash.sha256 (utf8 json))) :=
    hashCanonical_eq_ok.2 ⟨json, laws.parse _ _ _ hjson hparse, rfl⟩
  rw [hsnapshot, hdigest]
  exact congrArg Except.ok (decide_eq_true rfl)

theorem digestible_built (laws : CanonicalizeLaws P) {members : List (String × JsValue)}
    (hkeys : "toJSON" ∉ members.map Prod.fst) {id digest : String} (hid : id ≠ "toJSON")
    (h : hashCanonical P (.object members) = .ok digest) :
    Digestible P (.object (members ++ [(id, .string digest)])) := by
  have hmembers := laws.digestible_of_hashCanonical (noToJSON_of_keys hkeys) h
  have hkeys' : "toJSON" ∉ (members ++ [(id, JsValue.string digest)]).map Prod.fst := by
    simp [hkeys, hid.symm]
  obtain ⟨json, hjson⟩ := (laws.object_iff (noToJSON_of_keys hkeys')).2 (by
    intro entry hentry
    rcases List.mem_append.1 hentry with hentry | hentry
    · exact hmembers entry hentry
    · obtain rfl := List.mem_singleton.1 hentry
      exact laws.string digest)
  exact ⟨_, hjson⟩

theorem BuiltDecision.digestible (laws : CanonicalizeLaws P) {policy : PolicyDecision}
    {timestamp : String} {parentRecordHashes : List String} {entry : JsValue}
    (h : BuiltDecision P action policy timestamp parentRecordHashes entry) :
    Digestible P entry := by
  obtain ⟨state, argsDigest, parents, id, -, -, -, hid, rfl⟩ := h.built
  refine digestible_built laws ?_ (by decide) hid
  rw [keys_decisionMembers]
  split <;> decide

theorem BuiltOutcome.digestible (laws : CanonicalizeLaws P) {runId actionId : String}
    {decisionId : JsValue} {decisionRecordHash timestamp : String} {entry : JsValue}
    (h : BuiltOutcome P input runId actionId decisionId decisionRecordHash timestamp entry) :
    Digestible P entry := by
  obtain ⟨resultDigest, id, -, hid, rfl⟩ := h.built
  refine digestible_built laws ?_ (by decide) hid
  rw [keys_outcomeMembers]
  split <;> split <;> decide

theorem Produced.sidecarIssues (laws : CanonicalizeLaws P)
    (h : Produced P A options action decided input outcome) :
    sidecarIssues P decided.artifact outcome = .ok [] := by
  obtain ⟨_, _, _, _, -, hbuilt, hdecision⟩ := h.decides.entry
  have hbuilt := buildActionGateDecisionEntry_eq_ok.1 hbuilt
  obtain ⟨digest, hargs, hmember⟩ := hbuilt.argsDigest
  have hmatched := hdecision.matched
  obtain ⟨_, _, -, -, hsigned⟩ := hdecision.signed
  obtain ⟨_, hbuilt'⟩ := h.built
  obtain ⟨_, houtcome⟩ := h.signed
  obtain ⟨_, _, -, -, hsigned'⟩ := houtcome.signed
  have hsame := canonicalEqual_self (hbuilt.digestible laws)
  have hsame' := canonicalEqual_self (hbuilt'.digestible laws)
  have hpayload := payloadMatches_snapshot laws hargs
  simp [ActionGate.sidecarIssues, hsigned.sidecar, hsigned'.sidecar, hsame, hsame', hmember,
    hpayload, hmatched, payloadMatches_undefined, issueIf, bind, Except.bind, pure, Except.pure]

theorem Produced.stateIssues (h : Produced P A options action decided input outcome) :
    stateIssues decided.artifact outcome = [] := by
  obtain ⟨_, hbuilt⟩ := h.built
  obtain ⟨-, hstatus, -, -, -, -, hexecuted⟩ := hbuilt.members
  have haccords := h.accords
  simp only [ActionGate.stateIssues, closedIssues, hstatus, hexecuted]
  cases haccords with
  | closed hclosed hstate => rcases hclosed with rfl | rfl | rfl <;> rw [hstate] <;> rfl
  | executed hstate => rw [hstate]; rfl
  | failed hstate => rw [hstate]; rfl

/-- On what a run has signed, only the two signatures can fail. -/
theorem Produced.verificationOf (laws : CanonicalizeLaws P)
    (h : Produced P A options action decided input outcome) (decisionOk outcomeOk : Bool) :
    verificationOf P decisionOk outcomeOk decided.artifact outcome =
      .ok ⟨decisionOk && outcomeOk,
        issueIf (!decisionOk) "decision_signature_invalid"
          "decision record signature failed verification" ++
        issueIf (!outcomeOk) "outcome_signature_invalid"
          "outcome record signature failed verification"⟩ := by
  unfold ActionGate.verificationOf
  rw [h.linkIssues, h.shapeIssues, h.commitmentIssues, h.sidecarIssues laws, h.stateIssues]
  cases decisionOk <;> cases outcomeOk <;> rfl

end

end Atrib.ActionGate
