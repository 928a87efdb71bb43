import Atrib.Proofs.GateVerification

/-!
# Whether an execution leaves a signed outcome

Once an action has been executed, its outcome is built from what it returned or
threw. That may be a value which `canonicalize` throws on, or one of which not even
a text can be made, and then the run throws, with no outcome. If it is not, and
nothing that is asked afterwards is refused, the run ends with a signed outcome.
-/

namespace Atrib.ActionGate

open Lib (Async JsValue bind_eq_ok)
open Lib.Async (Asks Ends Returns ends_ask_bind ends_bind ends_catching ends_lift_bind ends_pure)

variable {ρ : Type} {P : Platform ρ}

/-- An answer that a run goes on with. `onRecord` may throw what an error can be made of. -/
def Harmless : (op : Op) → Except Thrown (Ans ρ op) → Prop
  | .onRecord _ _, .error thrown => ∃ error, normalizeError thrown = .ok error
  | _, .error _ => False
  | _, .ok _ => True

theorem harmless_ok {op : Op} (answer : Ans ρ op) : Harmless op (.ok answer) := by
  cases op <;> exact trivial

theorem returns_ask {op : Op} (hop : ∀ record sidecar, op ≠ .onRecord record sidecar) :
    Returns Harmless (fun _ => True) (Async.ask op : Gate ρ (Ans ρ op)) := by
  refine Returns.ask (fun answer => harmless_ok answer) fun error h => ?_
  cases op with
  | onRecord record sidecar => exact hop record sidecar rfl
  | _ => exact h

theorem returns_creatorKeyFor (key : ActionGateKey) :
    Returns Harmless (fun _ => True) (creatorKeyFor P key) := by
  cases key with
  | privateKey seed =>
      exact Returns.bind (fun _ _ => Returns.pure trivial) (returns_ask nofun)
  | signer creatorKey => exact Returns.pure trivial

theorem returns_assert {passed : Bool} (h : passed = true) (message : String) :
    Returns Harmless (fun _ => True) (.lift (assertThat passed message) : Gate ρ Unit) :=
  Returns.lift (a := ()) (assertThat_eq_ok.2 h) trivial

/-- What `onRecord` throws is kept, where an error can be made of it. -/
theorem returns_notifyRecord (options : RunOptions) (kind : String) (artifact : Artifact) :
    Returns Harmless (fun _ => True) (notifyRecord (ρ := ρ) options kind artifact) := by
  unfold notifyRecord
  split
  · rintro (thrown | answer)
    · constructor
      · rintro ⟨error, herror⟩
        exact Returns.bind (Q := fun _ => True) (fun _ _ => Returns.pure trivial)
          (Returns.lift herror trivial)
      · intro hnone
        cases herror : normalizeError thrown with
        | ok error => exact absurd ⟨error, herror⟩ hnone
        | error thrown' => exact (Async.Throws.lift herror).bind _
    · exact ⟨fun _ => trivial, fun h => absurd trivial h⟩
  · exact Returns.pure trivial

/-! ## Records -/

theorem keys_recordMembers (options : RunOptions) (contextId creatorKey : String) (timestampMs : ℚ)
    (input : RecordInput) :
    (recordMembers P options contextId creatorKey timestampMs input).map Prod.fst =
      ["spec_version", "content_id", "creator_key", "chain_root", "event_type", "context_id",
        "timestamp", "args_hash", "result_hash", "tool_name"] ++
        if input.informedBy ≠ [] then ["informed_by"] else [] := by
  unfold recordMembers
  split <;> rfl

section

variable (laws : CanonicalizeLaws P)
include laws

theorem digestible_recordMembers (options : RunOptions) (contextId creatorKey : String)
    (timestampMs : ℚ) (input : RecordInput) :
    ∀ entry ∈ recordMembers P options contextId creatorKey timestampMs input,
      Digestible P entry.2 := by
  intro entry hentry
  rcases List.mem_append.1 hentry with hentry | hentry
  · simp only [List.mem_cons, List.not_mem_nil, or_false] at hentry
    rcases hentry with rfl | rfl | rfl | rfl | rfl | rfl | rfl | rfl | rfl | rfl <;>
      first | exact laws.string _ | exact laws.finite _
  · split at hentry
    · obtain rfl := List.mem_singleton.1 hentry
      exact laws.texts _
    · exact absurd hentry List.not_mem_nil

/-- A record has bytes to sign, and a hash once it is signed. -/
theorem canonicalize_record (options : RunOptions) (contextId creatorKey : String)
    (timestampMs : ℚ) (input : RecordInput) (signature : String) :
    let members := recordMembers P options contextId creatorKey timestampMs input
    (∃ bytes, Middleware.canonicalSigningInput P.mcp (Middleware.withSignature members "") =
      .ok bytes) ∧
    ∃ recordHash, recordHashFor P (Middleware.withSignature members signature) = .ok recordHash := by
  intro members
  have hkeys : "signature" ∉ members.map Prod.fst := by
    rw [keys_recordMembers]
    split <;> decide
  have hjson : "toJSON" ∉ members.map Prod.fst := by
    rw [keys_recordMembers]
    split <;> decide
  have hmembers := digestible_recordMembers laws options contextId creatorKey timestampMs input
  constructor
  · obtain ⟨json, hcanonical⟩ := (laws.object_iff (noToJSON_of_keys hjson)).2 hmembers
    refine ⟨utf8 json, ?_⟩
    rw [Middleware.canonicalSigningInput, Middleware.withSignature, without_append hkeys,
      Middleware.canonicalBytes, hcanonical]
    rfl
  · have hsigned : NoToJSON (members ++ [("signature", JsValue.string signature)]) :=
      noToJSON_of_keys (by simpa using hjson)
    obtain ⟨json, hcanonical⟩ := (laws.object_iff hsigned).2 (by
      intro entry hentry
      rcases List.mem_append.1 hentry with hentry | hentry
      · exact hmembers entry hentry
      · obtain rfl := List.mem_singleton.1 hentry
        exact laws.string signature)
    exact ⟨_, recordHashFor_eq_ok.2 ⟨json, hcanonical, rfl⟩⟩

/-! ## The parts -/

theorem returns_signArtifact (options : RunOptions) (key : ActionGateKey) (contextId creatorKey :
    String) (timestampMs : ℚ) (input : RecordInput) (entry payload : JsValue)
    (action : ActionEnvelope) :
    Returns Harmless (fun _ => True) (signArtifact P key
      (recordMembers P options contextId creatorKey timestampMs input) entry payload action) := by
  have hrecord := canonicalize_record laws options contextId creatorKey timestampMs input
  refine Returns.bind (Q := fun _ => True) (fun signature _ => ?_) ?_
  · obtain ⟨recordHash, hhash⟩ := (hrecord signature).2
    exact Returns.bind (Q := fun _ => True) (fun _ _ => Returns.pure trivial)
      (Returns.lift hhash trivial)
  · cases key with
    | privateKey seed =>
        obtain ⟨bytes, hbytes⟩ := (hrecord "").1
        have hsignature : Middleware.signatureOf P.mcp (Middleware.withSignature (recordMembers P
            options contextId creatorKey timestampMs input) "") seed.val =
            .ok (base64urlEncode (P.mcp.sign bytes seed.val)) := by
          rw [Middleware.signatureOf, hbytes]
          rfl
        refine Returns.bind (Q := fun _ => True) (fun _ _ => ?_)
          (Returns.lift (rethrow_eq_ok.2 hsignature) trivial)
        exact Returns.bind (fun _ _ => Returns.pure trivial) (returns_ask nofun)
    | signer signerKey => exact returns_ask nofun

end

/-! ## Outcomes -/

section

variable {action : ActionEnvelope} {options : RunOptions} {input : OutcomeInput ρ}
variable {runId actionId : String} {decisionId : JsValue}
variable {decisionRecordHash timestamp : String} {entry : JsValue}

/-- An outcome entry that a run has built passes the checks of the one that signs it. -/
theorem BuiltOutcome.asserted
    (h : BuiltOutcome P input runId actionId decisionId decisionRecordHash timestamp entry)
    {state : JsValue} (haccords : Accords state input) : assertOutcomeEntry P entry = .ok () := by
  obtain ⟨hschema, hstatus, -, -, -, -, hexecuted⟩ := h.members
  obtain ⟨id, hid, hmember⟩ := h.id
  obtain ⟨hmatches, hpayload⟩ := haccords.coherent h
  have hdigest : (decide (entry.member "result_digest" = .undefined) ||
      (entry.member "result_digest").string?.any (isSha256Ref ·)) = true := by
    rcases h.digestValid with hnone | hsha
    · simp [hnone]
    · rw [hsha, Bool.or_true]
  simp only [assertOutcomeEntry, hschema, hid, hmember, hstatus, h.status, hexecuted, hdigest,
    hmatches, hpayload, JsValue.strictEq_string, decide_true, assertThat, if_true, bind,
    Except.bind]

variable (laws : CanonicalizeLaws P)
include laws

theorem BuiltOutcome.digestible_members
    (h : BuiltOutcome P input runId actionId decisionId decisionRecordHash timestamp entry)
    (key : String) : Digestible P (entry.member key) := by
  obtain ⟨json, hjson⟩ := h.digestible laws
  obtain ⟨resultDigest, id, -, hid, rfl⟩ := h.built
  refine laws.digestible_member ?_ key
  have hmembers := laws.digestible_of_hashCanonical (noToJSON_of_keys ?_) hid
  · intro entry hentry
    rcases List.mem_append.1 hentry with hentry | hentry
    · exact hmembers entry hentry
    · obtain rfl := List.mem_singleton.1 hentry
      exact laws.string id
  · rw [keys_outcomeMembers]
    split <;> split <;> decide

/-- What a record says of an outcome has digests. -/
theorem BuiltOutcome.hashes
    (h : BuiltOutcome P input runId actionId decisionId decisionRecordHash timestamp entry) :
    (∃ argsHash, hashCanonical P (outcomeSubject entry) = .ok argsHash) ∧
      ∃ resultHash, hashCanonical P (outcomeResult entry) = .ok resultHash := by
  have hmember := h.digestible_members laws
  have hpick : ∀ keys, ∀ member ∈ pick entry keys, Digestible P member.2 := by
    intro keys member hmember'
    obtain ⟨key, -, rfl⟩ := List.mem_map.1 hmember'
    exact hmember key
  constructor
  · exact laws.hashCanonical_ok (noToJSON_of_keys (by simp [pick])) (hpick _)
  · refine laws.hashCanonical_ok (noToJSON_of_keys (by simp [pick])) ?_
    intro member hmember'
    rcases List.mem_append.1 hmember' with hpicked | hlast
    · exact hpick _ member hpicked
    · simp only [List.mem_cons, List.not_mem_nil, or_false] at hlast
      rcases hlast with rfl | rfl
      · exact digestible_orElse (hmember _) laws.null
      · exact digestible_orElse (hmember _) laws.null

theorem returns_signActionGateOutcome {key : ActionGateKey} {contextId : String} {timestampMs : ℚ}
    (h : BuiltOutcome P input action.run_id action.action_id decisionId decisionRecordHash timestamp
      entry) {state : JsValue} (haccords : Accords state input)
    (hhash : isSha256Ref decisionRecordHash = true) :
    Returns Harmless (fun _ => True) (signActionGateOutcome P options key entry action contextId
      decisionRecordHash timestampMs) := by
  obtain ⟨-, -, hrun, haction, -, hdecisionHash, -⟩ := h.members
  have htext : textOf entry "decision_record_hash" = decisionRecordHash := by
    rw [textOf, JsValue.member_of_get hdecisionHash]
    rfl
  have hsame : ((JsValue.string action.run_id).strictEq (entry.member "run_id") &&
      (JsValue.string action.action_id).strictEq (entry.member "action_id")) = true := by
    simp [hrun, haction]
  have hnormalized : ∀ field, normalizeSha256Uri decisionRecordHash field =
      .ok decisionRecordHash := fun field => if_pos hhash
  obtain ⟨⟨argsHash, hargs⟩, resultHash, hresult⟩ := h.hashes laws
  refine Returns.bind (Q := fun _ => True) (fun _ _ => ?_)
    (Returns.lift (h.asserted haccords) trivial)
  refine Returns.bind (fun _ _ => ?_) (returns_assert hsame _)
  refine Returns.bind (Q := (· = decisionRecordHash)) ?_ (Returns.lift (hnormalized _) rfl)
  rintro _ rfl
  refine Returns.bind (Q := (· = textOf entry "decision_record_hash")) ?_
    (Returns.lift (htext.symm ▸ hnormalized _) htext.symm)
  rintro _ rfl
  refine Returns.bind (fun _ _ => ?_) (returns_assert (decide_eq_true htext.symm) _)
  refine Returns.bind (fun creatorKey _ => ?_) (returns_creatorKeyFor key)
  refine Returns.bind (Q := fun _ => True) (fun _ _ => ?_) (Returns.lift hargs trivial)
  refine Returns.bind (Q := fun _ => True) (fun _ _ => ?_) (Returns.lift hresult trivial)
  exact returns_signArtifact laws _ _ _ _ _ _ _ _ _

end

/-! ## Decisions -/

/-- What a policy has answered has digests. -/
structure Judged (P : Platform ρ) (policy : PolicyDecision) : Prop where
  authority : ∀ authority ∈ policy.authority, Digestible P authority
  approval : ∀ approval ∈ policy.approval, Digestible P approval

theorem isPolicyOutcome_iff {outcome : JsValue} : isPolicyOutcome outcome = true ↔
    ∃ state, decisionStateFromPolicy outcome = .ok state := by
  refine ⟨fun h => ?_, fun ⟨_, h⟩ => isPolicyOutcome_of_state h⟩
  cases outcome with
  | string text =>
      simp only [isPolicyOutcome, JsValue.string?, Option.any_some, Bool.or_eq_true,
        decide_eq_true_eq] at h
      rcases h with ((rfl | rfl) | rfl) | rfl <;> exact ⟨_, rfl⟩
  | _ => cases h

theorem normalizeRecordHashes_idem {values parents : List String}
    (h : normalizeRecordHashes values = .ok parents) :
    ∃ parents', normalizeRecordHashes parents = .ok parents' := by
  unfold normalizeRecordHashes at h
  split at h
  · next hall =>
      obtain rfl := Except.ok.inj h
      refine ⟨_, if_pos (List.all_eq_true.2 fun value hvalue => ?_)⟩
      have hmem := (Lib.sortBy_perm _).mem_iff.1 hvalue
      exact List.all_eq_true.1 hall value (Lib.InsertionSet.mem_ofList.1 hmem)
  · cases h

section

variable (laws : CanonicalizeLaws P)
include laws

theorem digestible_sortedRecord (input : List (String × String)) :
    Digestible P (sortedRecord P input) := by
  refine (laws.object _ ?_).2 ?_
  · intro entry hentry _ hfunction
    obtain ⟨pair, -, rfl⟩ := List.mem_map.1 hentry
    cases hfunction
  · intro entry hentry
    obtain ⟨pair, -, rfl⟩ := List.mem_map.1 hentry
    exact laws.string pair.2

theorem digestible_refsOf (action : ActionEnvelope) : Digestible P (refsOf P action) := by
  unfold refsOf
  cases action.refs with
  | none => exact ⟨none, laws.undefined⟩
  | some refs => exact digestible_sortedRecord laws refs

theorem digestible_policyOf {policy : PolicyDecision} (hpolicy : Judged P policy)
    (houtcome : isPolicyOutcome policy.outcome = true) : Digestible P (policyOf P policy) := by
  have hdefault : ∀ {key : String} {value : JsValue}, key ≠ "toJSON" → Digestible P value →
      Digestible P (.object [(key, value)]) := fun hkey hvalue =>
    (laws.object _ (noToJSON_of_keys (by simpa using hkey.symm))).2 (by simpa using hvalue)
  have hvalue : Digestible P policy.outcome := by
    obtain ⟨text, htext⟩ : ∃ text, policy.outcome = .string text := by
      cases houtcome' : policy.outcome with
      | string text => exact ⟨text, rfl⟩
      | _ => rw [houtcome'] at houtcome; cases houtcome
    exact htext ▸ laws.string text
  refine (laws.object _ (noToJSON_of_keys ?_)).2 ?_
  · cases policy.reason.filter (· ≠ "") <;> cases policy.evidence <;> simp
  · intro entry hentry
    simp only [List.mem_append, List.mem_cons, List.not_mem_nil, or_false, Option.mem_toList,
      Option.map_eq_some_iff] at hentry
    rcases hentry with (((rfl | rfl | rfl) | ⟨reason, -, rfl⟩) | (rfl | rfl)) | ⟨evidence, -, rfl⟩
    · exact laws.string _
    · exact laws.string _
    · exact hvalue
    · exact laws.string reason
    · cases hauthority : policy.authority with
      | none => exact hdefault (by decide) (laws.string _)
      | some authority => exact hpolicy.authority authority hauthority
    · cases happroval : policy.approval with
      | none => exact hdefault (by decide) (laws.bool _)
      | some approval => exact hpolicy.approval approval happroval
    · exact digestible_sortedRecord laws evidence

/-- A decision has an entry if its action and its policy have digests. -/
theorem exists_builtDecision {action : ActionEnvelope} {policy : PolicyDecision}
    (timestamp : String) {parents : List String} {argsDigest : String}
    (hpolicy : Judged P policy) (houtcome : isPolicyOutcome policy.outcome = true)
    (hargs : actionArgsDigest P action = .ok argsDigest)
    (hparents : ∃ parents', normalizeRecordHashes parents = .ok parents') :
    ∃ entry, BuiltDecision P action policy timestamp parents entry := by
  obtain ⟨state, hstate⟩ := isPolicyOutcome_iff.1 houtcome
  obtain ⟨parents', hparents⟩ := hparents
  obtain ⟨id, hid⟩ : ∃ id, hashCanonical P
      (.object (decisionMembers P action policy timestamp state argsDigest parents')) = .ok id := by
    refine laws.hashCanonical_ok (noToJSON_of_keys ?_) fun entry hentry => ?_
    · rw [keys_decisionMembers]
      split <;> decide
    · simp only [decisionMembers, List.mem_append, List.mem_cons, List.not_mem_nil, or_false,
        Option.mem_toList, Option.map_eq_some_iff] at hentry
      rcases hentry with (rfl | rfl | rfl | rfl | rfl | rfl | rfl | rfl | rfl | rfl | rfl | rfl) |
        ⟨refs, -, rfl⟩
      all_goals first
        | exact laws.string _
        | exact laws.texts _
        | exact digestible_policyOf laws hpolicy houtcome
        | exact digestible_sortedRecord laws _
  exact ⟨_, state, argsDigest, parents', id, hstate, hargs, hparents, hid, rfl⟩

variable {action : ActionEnvelope} {policy : PolicyDecision} {timestamp : String}
variable {parents : List String} {entry : JsValue}

theorem BuiltDecision.digestible_members
    (h : BuiltDecision P action policy timestamp parents entry) (key : String) :
    Digestible P (entry.member key) := by
  obtain ⟨json, hjson⟩ := h.digestible laws
  obtain ⟨state, argsDigest, parents', id, -, -, -, hid, rfl⟩ := h.built
  refine laws.digestible_member ?_ key
  have hmembers := laws.digestible_of_hashCanonical (noToJSON_of_keys ?_) hid
  · intro entry hentry
    rcases List.mem_append.1 hentry with hentry | hentry
    · exact hmembers entry hentry
    · obtain rfl := List.mem_singleton.1 hentry
      exact laws.string id
  · rw [keys_decisionMembers]
    split <;> decide

/-- A decision entry that a run has built passes the checks of the one that signs it. -/
theorem BuiltDecision.asserted (h : BuiltDecision P action policy timestamp parents entry) :
    assertDecisionEntry P entry = .ok () ∧ actionMatchesDecisionEntry P action entry = true := by
  obtain ⟨hschema, hrun, haction, hpolicy⟩ := h.members
  obtain ⟨id, hid, hmember⟩ := h.id
  obtain ⟨state, hstate, hentryState⟩ := h.state
  have houtcome := isPolicyOutcome_of_state hstate
  constructor
  · simp only [assertDecisionEntry, hschema, hid, hmember, hpolicy, houtcome, hstate, hentryState,
      JsValue.strictEq_string, decide_true, assertThat, if_true, bind, Except.bind]
  · obtain ⟨digest, hargs, hdigest⟩ := h.argsDigest
    have hagent : entry.member "agent_id" = .string action.agent_id ∧
        entry.member "surface" = .string action.surface ∧
        entry.member "tool_name" = .string action.tool_name ∧
        entry.member "risk" = texts (sortTexts (action.risk.getD [])) := by
      obtain ⟨_, _, _, _, -, -, -, -, rfl⟩ := h.built
      exact ⟨rfl, rfl, rfl, rfl⟩
    have hrefs : entry.member "refs" = refsOf P action := by
      obtain ⟨_, _, _, _, -, -, -, -, rfl⟩ := h.built
      unfold decisionMembers refsOf
      cases action.refs <;> rfl
    obtain ⟨hagent, hsurface, htool, hrisk⟩ := hagent
    simp only [actionMatchesDecisionEntry, hrun, haction, hagent, hsurface, htool, hrisk, hrefs,
      hargs, hdigest, canonicalEqual_self (laws.texts _),
      canonicalEqual_self (digestible_refsOf laws action), JsValue.strictEq_string, decide_true,
      Except.toOption, Option.any_some, id_eq, Bool.and_self]

theorem returns_signActionGateDecision {options : RunOptions} {key : ActionGateKey}
    {contextId : String} {timestampMs : ℚ} {cited : List String}
    (h : BuiltDecision P action policy timestamp parents entry) :
    Returns Harmless (fun _ => True) (signActionGateDecision P options key entry action cited
      contextId timestampMs) := by
  obtain ⟨hasserted, hmatches⟩ := h.asserted laws
  have hmember := h.digestible_members laws
  have hpick : ∀ keys, ∀ member ∈ pick entry keys, Digestible P member.2 := by
    intro keys member hmember'
    obtain ⟨key, -, rfl⟩ := List.mem_map.1 hmember'
    exact hmember key
  obtain ⟨argsHash, hargs⟩ : ∃ argsHash, hashCanonical P (decisionSubject entry) = .ok argsHash :=
    laws.hashCanonical_ok (noToJSON_of_keys (by simp [pick])) (hpick _)
  obtain ⟨resultHash, hresult⟩ : ∃ resultHash,
      hashCanonical P (decisionResult entry) = .ok resultHash := by
    refine laws.hashCanonical_ok (noToJSON_of_keys (by simp [pick])) fun member hmember' => ?_
    rcases List.mem_append.1 hmember' with hpicked | hlast
    · exact hpick _ member hpicked
    · obtain rfl := List.mem_singleton.1 hlast
      obtain ⟨json, hjson⟩ := (laws.object [] (noToJSON_of_keys (by simp))).2 (by simp)
      exact digestible_orElse (hmember _) ⟨json, hjson⟩
  refine Returns.bind (Q := fun _ => True) (fun _ _ => ?_) (Returns.lift hasserted trivial)
  refine Returns.bind (fun _ _ => ?_) (returns_assert hmatches _)
  refine Returns.bind (fun creatorKey _ => ?_) (returns_creatorKeyFor key)
  refine Returns.bind (Q := fun _ => True) (fun _ _ => ?_) (Returns.lift hargs trivial)
  refine Returns.bind (Q := fun _ => True) (fun _ _ => ?_) (Returns.lift hresult trivial)
  exact returns_signArtifact laws _ _ _ _ _ _ _ _ _

end

/-! ## Runs -/

/-- What an outcome says of its execution has digests. -/
def Recorded (P : Platform ρ) (input : OutcomeInput ρ) : Prop :=
  (∀ result ∈ input.result, ∃ json, P.canonicalizeResult result = .ok (some json)) ∧
    ∀ error ∈ input.error, Digestible P error.name ∧ Digestible P error.message

/-- The first reading of the clock is a date, and every answer is harmless. -/
def Undisturbed (P : Platform ρ) (after : Answers ρ) : Prop :=
  (∀ nowMs rest, after = ⟨.now, .ok nowMs⟩ :: rest →
    ∃ timestamp, P.toISOString (.finite nowMs) = .ok timestamp) ∧
  ∀ event ∈ after, Harmless event.1 event.2

section

variable (laws : CanonicalizeLaws P)
include laws

/-- An outcome has an entry just when what it says has digests. -/
theorem builtOutcome_iff {input : OutcomeInput ρ} {runId actionId : String} {decisionId : JsValue}
    {decisionRecordHash timestamp : String}
    (hstatus : isOutcomeStatus (.string input.status) = true)
    (hdecision : Digestible P decisionId) :
    (∃ entry, BuiltOutcome P input runId actionId decisionId decisionRecordHash timestamp entry) ↔
      Recorded P input := by
  have hkeys : ∀ resultDigest, NoToJSON (outcomeMembers input runId actionId decisionId
      decisionRecordHash timestamp resultDigest) := by
    intro resultDigest
    refine noToJSON_of_keys ?_
    rw [keys_outcomeMembers]
    split <;> split <;> decide
  have herrorKeys : ∀ error : NormalizedError, NoToJSON [("name", error.name),
      ("message", error.message)] := fun _ => noToJSON_of_keys (by simp)
  have herror : ∀ error : NormalizedError, Digestible P (errorOf error) ↔
      Digestible P error.name ∧ Digestible P error.message := by
    intro error
    rw [errorOf, laws.object _ (herrorKeys error)]
    simp
  constructor
  · rintro ⟨entry, -, resultDigest, id, hresult, hid, -⟩
    refine ⟨fun result hmem => ?_, fun error hmem => ?_⟩
    · rw [Option.mem_def.1 hmem, Option.mapM_some] at hresult
      cases hdigest : digestResult P result with
      | error thrown =>
          rw [hdigest] at hresult
          cases hresult
      | ok digest =>
          obtain ⟨json, hjson, -⟩ := hashJson_eq_ok.1 hdigest
          exact ⟨json, hjson⟩
    · refine (herror error).1
        (laws.digestible_of_hashCanonical (hkeys _) hid ("error", errorOf error) ?_)
      simp [outcomeMembers, Option.mem_def.1 hmem]
  · rintro ⟨hresult, herrors⟩
    obtain ⟨resultDigest, hdigest⟩ : ∃ resultDigest,
        input.result.mapM (digestResult P) = .ok resultDigest := by
      cases hinput : input.result with
      | none => exact ⟨none, rfl⟩
      | some result =>
          obtain ⟨json, hjson⟩ := hresult result hinput
          refine ⟨some (sha256Ref (P.mcp.hash.sha256 (utf8 json))), ?_⟩
          rw [Option.mapM_some, digestResult, hjson]
          rfl
    obtain ⟨id, hid⟩ := laws.hashCanonical_ok (hkeys resultDigest) (by
      intro entry hentry
      simp only [outcomeMembers, List.mem_append, List.mem_cons, List.not_mem_nil, or_false]
        at hentry
      rcases hentry with ((hentry | hentry) | hentry) | rfl
      · rcases hentry with rfl | rfl | rfl | rfl | rfl | rfl | rfl <;>
          first | exact laws.string _ | exact hdecision | exact laws.bool _
      · simp only [Option.mem_toList, Option.map_eq_some_iff] at hentry
        obtain ⟨digest, -, rfl⟩ := hentry
        exact laws.string digest
      · simp only [Option.mem_toList, Option.map_eq_some_iff] at hentry
        obtain ⟨error, hmem, rfl⟩ := hentry
        exact (herror error).2 (herrors error hmem)
      · exact laws.string timestamp)
    exact ⟨_, hstatus, resultDigest, id, hdigest, hid, rfl⟩

/-- Once its entry has been built, an outcome is signed, and the run returns. -/
theorem returns_sealOutcome {options : RunOptions} {action : ActionEnvelope} {decided : Decided}
    {input : OutcomeInput ρ} {timestamp : String} {entry : JsValue}
    (hdecides : DecidedBy P (AnyAnswer ρ) options action decided)
    (hbuilt : BuiltOutcome P input action.run_id action.action_id
      (decided.artifact.entry.member "decision_id") decided.artifact.record_hash timestamp entry)
    (haccords : Accords (decided.artifact.entry.member "decision_state") input) :
    Returns Harmless (fun _ => True) (sealOutcome P options action decided input entry) := by
  obtain ⟨_, _, _, _, -, -, hdecision⟩ := hdecides.entry
  obtain ⟨_, _, -, -, hsigned⟩ := hdecision.signed
  have hhash : isSha256Ref decided.artifact.record_hash = true := by
    obtain ⟨json, -, hsha⟩ := recordHashFor_eq_ok.1 hsigned.record_hash
    rw [hsha]
    exact isSha256Ref_sha256Ref (P.mcp.hash.length_sha256 _)
  refine Returns.bind (fun timestampMs _ => ?_) (returns_ask nofun)
  refine Returns.bind ?_ ((returns_signActionGateOutcome laws hbuilt haccords hhash).and_asks
    (asks_signActionGateOutcome options decided.key entry action decided.contextId
      decided.artifact.record_hash timestampMs))
  rintro outcome ⟨-, houtcome⟩
  obtain rfl : outcome.entry = entry := by
    obtain ⟨_, _, -, -, hsigned⟩ := houtcome.signed
    exact hsigned.entry
  have hproduced : Produced P (AnyAnswer ρ) options action decided input outcome :=
    ⟨hdecides, ⟨timestamp, hbuilt⟩, ⟨timestampMs, houtcome⟩, haccords⟩
  refine Returns.bind (fun errors _ => ?_) (returns_notifyRecord options "outcome" outcome)
  refine Returns.bind (Q := fun _ => True) (fun verification _ => Returns.pure trivial) ?_
  refine Returns.bind (fun nowMs _ => ?_) (returns_ask nofun)
  refine Returns.bind (fun nowMs' _ => ?_) (returns_ask nofun)
  exact Returns.lift (hproduced.verificationOf laws _ _) trivial

/-- After the action, a run returns just when the outcome can be recorded and nothing disturbs
it. -/
theorem gateOutcome_iff {options : RunOptions} {action : ActionEnvelope} {decided : Decided}
    {input : OutcomeInput ρ} (hdecides : DecidedBy P (AnyAnswer ρ) options action decided)
    (haccords : Accords (decided.artifact.entry.member "decision_state") input)
    {after : Answers ρ} {result : Except Thrown (RunResult ρ)}
    (hends : Ends (gateOutcome P options action decided input) after result) :
    (∃ run, result = .ok run) ↔ Recorded P input ∧ Undisturbed P after := by
  have hbuilt : ∀ timestamp, (∃ entry, BuiltOutcome P input action.run_id action.action_id
      (decided.artifact.entry.member "decision_id") decided.artifact.record_hash timestamp entry) ↔
      Recorded P input := by
    intro timestamp
    obtain ⟨_, _, _, _, -, hdecision, -⟩ := hdecides.entry
    obtain ⟨id, -, hid⟩ := (buildActionGateDecisionEntry_eq_ok.1 hdecision).id
    refine builtOutcome_iff laws ?_ (hid ▸ laws.string id)
    cases haccords with
    | closed hclosed hstate => rcases hclosed with rfl | rfl | rfl <;> rfl
    | executed hstate => rfl
    | failed hstate => rfl
  rcases ends_ask_bind.1 hends with ⟨nowMs, rest, rfl, hrest⟩ | ⟨error, rfl, rfl⟩
  swap
  · -- The clock throws.
    refine iff_of_false (fun ⟨_, h⟩ => nomatch h) ?_
    exact fun ⟨_, _, h⟩ => h ⟨.now, .error error⟩ List.mem_cons_self
  rcases ends_lift_bind.1 hrest with ⟨timestamp, hiso, hrest⟩ | ⟨error, hiso, rfl, rfl⟩
  swap
  · -- The reading is no date.
    refine iff_of_false (fun ⟨_, h⟩ => nomatch h) ?_
    rintro ⟨-, hdate, -⟩
    obtain ⟨timestamp, htimestamp⟩ := hdate nowMs [] rfl
    rw [rethrow_eq_ok.2 htimestamp] at hiso
    cases hiso
  rcases ends_lift_bind.1 hrest with ⟨entry, hentry, hrest⟩ | ⟨error, hentry, rfl, rfl⟩
  swap
  · -- There is no entry.
    refine iff_of_false (fun ⟨_, h⟩ => nomatch h) fun ⟨hrecorded, _⟩ => ?_
    obtain ⟨entry, h⟩ := (hbuilt timestamp).2 hrecorded
    rw [buildActionGateOutcomeEntry_eq_ok.2 h] at hentry
    cases hentry
  have hentry := buildActionGateOutcomeEntry_eq_ok.1 hentry
  rw [((returns_sealOutcome laws hdecides hentry haccords).ends hrest).1]
  constructor
  · intro hfine
    refine ⟨(hbuilt timestamp).1 ⟨entry, hentry⟩, ?_, ?_⟩
    · rintro nowMs' rest' heq
      cases heq
      exact ⟨timestamp, rethrow_eq_ok.1 hiso⟩
    · exact List.forall_mem_cons.2 ⟨trivial, hfine⟩
  · exact fun ⟨_, _, hfine⟩ => (List.forall_mem_cons.1 hfine).2

end

/-! ## Executions -/

/-- What an execution returned or threw can be recorded. -/
def Recordable (P : Platform ρ) : Except Thrown (Option ρ) → Prop
  | .ok none => True
  | .ok (some result) => ∃ json, P.canonicalizeResult result = .ok (some json)
  | .error thrown => ∃ error, normalizeError thrown = .ok error ∧ Digestible P error.name ∧
      Digestible P error.message

/-- The outcome of an execution, or what is thrown in its place. -/
def executionOf : Except Thrown (Option ρ) → Except Thrown (OutcomeInput ρ)
  | .ok result => .ok { status := "executed", executed := true, result }
  | .error thrown => do
      let error ← normalizeError thrown
      return { status := "execution_error", executed := true, error := some error }

theorem recordable_iff {answer : Except Thrown (Option ρ)} :
    Recordable P answer ↔ ∃ input, executionOf answer = .ok input ∧ Recorded P input := by
  rcases answer with thrown | (_ | result)
  · constructor
    · rintro ⟨error, herror, hname, hmessage⟩
      refine ⟨_, bind_eq_ok.2 ⟨error, herror, rfl⟩, ?_, ?_⟩
      · rintro result ⟨⟩
      · rintro _ ⟨⟩
        exact ⟨hname, hmessage⟩
    · rintro ⟨input, hinput, -, herrors⟩
      obtain ⟨error, herror, hinput⟩ := bind_eq_ok.1 hinput
      cases hinput
      exact ⟨error, herror, herrors error rfl⟩
  · refine iff_of_true trivial ⟨_, rfl, ?_, ?_⟩
    · rintro result ⟨⟩
    · rintro error ⟨⟩
  · constructor
    · rintro ⟨json, hjson⟩
      refine ⟨_, rfl, ?_, ?_⟩
      · rintro _ ⟨⟩
        exact ⟨json, hjson⟩
      · rintro error ⟨⟩
    · rintro ⟨input, hinput, hresult, -⟩
      cases hinput
      exact hresult result rfl

/-- An action is asked to execute where its decision allows it, and nowhere else. -/
theorem ends_resolveOutcomeInput {state : String} (hstate : state = "allowed" ∨
    state = "blocked" ∨ state = "escalated" ∨ state = "policy_error") {answers : Answers ρ}
    {resolved : Except Thrown (OutcomeInput ρ)}
    (hends : Ends (resolveOutcomeInput (.string state) (Async.ask Op.execute)) answers resolved) :
    answers = [] ∨ state = "allowed" ∧ ∃ answer, answers = [⟨.execute, answer⟩] ∧
      resolved = executionOf answer := by
  rcases hstate with rfl | rfl | rfl | rfl
  · right
    refine ⟨rfl, ?_⟩
    rcases ends_catching.1 hends with ⟨input, hbody, rfl⟩ | ⟨thrown, first, rest, hbody, hrest, rfl⟩
    · rcases ends_ask_bind.1 hbody with ⟨result, rest, rfl, hrest⟩ | ⟨error, -, herror⟩
      · obtain ⟨rfl, hinput⟩ := ends_pure.1 hrest
        exact ⟨.ok result, rfl, hinput⟩
      · cases herror
    · rcases ends_ask_bind.1 hbody with ⟨result, rest, rfl, hreturn⟩ | ⟨error, rfl, herror⟩
      · exact nomatch (ends_pure.1 hreturn).2
      · cases herror
        rcases ends_lift_bind.1 hrest with ⟨error, herror, hrest⟩ | ⟨error, herror, rfl, rfl⟩
        · obtain ⟨rfl, rfl⟩ := ends_pure.1 hrest
          refine ⟨.error thrown, rfl, ?_⟩
          rw [executionOf, herror]
          rfl
        · refine ⟨.error thrown, rfl, ?_⟩
          rw [executionOf, herror]
          rfl
  · exact .inl (ends_pure.1 hends).1
  · exact .inl (ends_pure.1 hends).1
  · exact .inl (ends_pure.1 hends).1

theorem accords_executionOf {answer : Except Thrown (Option ρ)} {input : OutcomeInput ρ}
    (h : executionOf answer = .ok input) : Accords (.string "allowed") input := by
  cases answer with
  | ok result =>
      cases h
      exact .executed rfl
  | error thrown =>
      obtain ⟨error, -, h⟩ := bind_eq_ok.1 h
      cases h
      exact .failed rfl

/-- A signed outcome for the decision of a run. -/
structure SignedOutcome (P : Platform ρ) (run : RunResult ρ) : Prop where
  record_hash : recordHashFor P run.outcome.record = .ok run.outcome.record_hash
  informed_by : run.outcome.record.member "informed_by" = texts [run.decision.record_hash]
  decision_id : run.outcome.entry.member "decision_id" = run.decision.entry.member "decision_id"

theorem ClosedBy.signedOutcome {A : (op : Op) → Except Thrown (Ans ρ op) → Prop}
    {options : RunOptions} {action : ActionEnvelope} {decided : Decided} {input : OutcomeInput ρ}
    {run : RunResult ρ} (h : ClosedBy P A options action decided input run) :
    SignedOutcome P run := by
  obtain ⟨timestamp, timestampMs, hbuilt, houtcome⟩ := h.entry
  obtain ⟨-, -, -, -, hid, -, -⟩ := (buildActionGateOutcomeEntry_eq_ok.1 hbuilt).members
  obtain ⟨_, _, -, -, ⟨_, -, hrecord⟩, hhash, -⟩ := houtcome.signed
  refine ⟨hhash, ?_, h.decision ▸ hid⟩
  rw [hrecord, h.decision]
  exact member_informedBy _ _ _ _ (List.cons_ne_nil _ _) _

/-- The verdict on a run of which only the signatures may be bad. -/
def signatureVerdict (decisionOk outcomeOk : Bool) : VerificationResult :=
  ⟨decisionOk && outcomeOk,
    issueIf (!decisionOk) "decision_signature_invalid"
      "decision record signature failed verification" ++
    issueIf (!outcomeOk) "outcome_signature_invalid"
      "outcome record signature failed verification"⟩

theorem ClosedBy.verificationOf (laws : CanonicalizeLaws P)
    {A : (op : Op) → Except Thrown (Ans ρ op) → Prop} {options : RunOptions}
    {action : ActionEnvelope} {decided : Decided} {input : OutcomeInput ρ} {run : RunResult ρ}
    (hdecides : DecidedBy P A options action decided)
    (haccords : Accords (decided.artifact.entry.member "decision_state") input)
    (h : ClosedBy P A options action decided input run) (decisionOk outcomeOk : Bool) :
    verificationOf P decisionOk outcomeOk run.decision run.outcome =
      .ok (signatureVerdict decisionOk outcomeOk) := by
  obtain ⟨timestamp, timestampMs, hbuilt, hsigned⟩ := h.entry
  have hproduced : Produced P A options action decided input run.outcome :=
    ⟨hdecides, ⟨timestamp, buildActionGateOutcomeEntry_eq_ok.1 hbuilt⟩, ⟨timestampMs, hsigned⟩,
      haccords⟩
  rw [h.decision]
  exact hproduced.verificationOf laws _ _

/-- After the action a run goes on with its outcome, or ends with the error that it cannot make
one of. -/
theorem ends_executed {options : RunOptions} {action : ActionEnvelope} {before after : Answers ρ}
    {answer : Except Thrown (Option ρ)} {result : Except Thrown (RunResult ρ)}
    (hends : Ends (runGatedAction P options action
      (fun action timestamp => Async.ask (Op.evaluate action timestamp)) (Async.ask Op.execute))
      (before ++ ⟨.execute, answer⟩ :: after) result) :
    (∃ decided input, DecidedBy P (AnyAnswer ρ) options action decided ∧
      Accords (decided.artifact.entry.member "decision_state") input ∧
      executionOf answer = .ok input ∧
      Ends (gateOutcome P options action decided input) after result) ∨
    ∃ error, executionOf answer = .error error ∧ result = .error error := by
  have hplain : ∀ {events : Answers ρ} {executed : Except Thrown (Option ρ)},
      (∀ event ∈ events, Plain event.1) → ⟨.execute, executed⟩ ∉ events :=
    fun hevents hmem => hevents _ hmem
  have hdecisionAsks : Asks Plain (AnyAnswer ρ) (DecidedBy P (AnyAnswer ρ) options action)
      (gateDecision P options action fun action timestamp =>
        Async.ask (Op.evaluate action timestamp)) :=
    asks_gateDecision fun _ _ => Asks.ask trivial fun _ _ => trivial
  rcases ends_bind.1 hends with ⟨decided, first, rest, hdecision, hrest, hsplit⟩ |
    ⟨error, herror, -⟩
  swap
  · obtain ⟨hevents, -⟩ := hdecisionAsks.ends herror fun _ _ => trivial
    exact absurd (List.mem_append_right _ List.mem_cons_self) (hplain hevents)
  obtain ⟨hfirst, hdecides⟩ := hdecisionAsks.ends hdecision fun _ _ => trivial
  have hdecides := hdecides decided rfl
  obtain ⟨_, _, _, _, -, hbuilt, -⟩ := hdecides.entry
  obtain ⟨state, hstate, hmember⟩ := (buildActionGateDecisionEntry_eq_ok.1 hbuilt).state
  rw [hmember] at hrest
  rcases ends_bind.1 hrest with ⟨input, asked, last, hresolved, hlast, rfl⟩ |
    ⟨error, hresolved, rfl⟩
  · obtain ⟨hevents, -⟩ := (asks_gateOutcome (A := AnyAnswer ρ) options action decided
      input).ends hlast fun _ _ => trivial
    rcases ends_resolveOutcomeInput (decisionStateFromPolicy_eq_ok hstate) hresolved with
      rfl | ⟨rfl, executed, rfl, hinput⟩
    · -- Nothing has been executed.
      have hmem : ⟨.execute, answer⟩ ∈ first ++ ([] ++ last) :=
        hsplit ▸ List.mem_append_right _ List.mem_cons_self
      rcases List.mem_append.1 hmem with hmem | hmem
      · exact absurd hmem (hplain hfirst)
      · exact absurd hmem (hplain hevents)
    · obtain ⟨-, hsame, rfl⟩ := (List.append_cons_inj_of_notMem (hplain hfirst)
        (hplain hevents)).1 hsplit.symm
      cases hsame
      exact .inl ⟨decided, input, hdecides, hmember ▸ accords_executionOf hinput.symm,
        hinput.symm, hlast⟩
  · rcases ends_resolveOutcomeInput (decisionStateFromPolicy_eq_ok hstate) hresolved with
      rfl | ⟨rfl, executed, rfl, hinput⟩
    · have hmem : ⟨.execute, answer⟩ ∈ first ++ [] :=
        hsplit ▸ List.mem_append_right _ List.mem_cons_self
      rw [List.append_nil] at hmem
      exact absurd hmem (hplain hfirst)
    · obtain ⟨-, hsame, rfl⟩ := (List.append_cons_inj_of_notMem (hplain hfirst)
        List.not_mem_nil).1 hsplit.symm
      cases hsame
      exact .inr ⟨error, hinput.symm, rfl⟩

/-- A run that has executed its action ends with a signed outcome just when what the action
returned or threw can be recorded, and nothing disturbs the run afterwards. -/
theorem signed_outcome_iff (laws : CanonicalizeLaws P) {options : RunOptions}
    {action : ActionEnvelope} {before after : Answers ρ} {answer : Except Thrown (Option ρ)}
    {result : Except Thrown (RunResult ρ)}
    (hends : Ends (runGatedAction P options action
      (fun action timestamp => Async.ask (Op.evaluate action timestamp)) (Async.ask Op.execute))
      (before ++ ⟨.execute, answer⟩ :: after) result) :
    (∃ run, result = .ok run ∧ SignedOutcome P run) ↔
      Recordable P answer ∧ Undisturbed P after := by
  rcases ends_executed hends with ⟨decided, input, hdecides, haccords, hinput, hlast⟩ |
    ⟨error, herror, rfl⟩
  · rw [recordable_iff]
    constructor
    · rintro ⟨run, hrun, -⟩
      obtain ⟨hrecorded, hundisturbed⟩ :=
        (gateOutcome_iff laws hdecides haccords hlast).1 ⟨run, hrun⟩
      exact ⟨⟨input, hinput, hrecorded⟩, hundisturbed⟩
    · rintro ⟨⟨input', hinput', hrecorded⟩, hundisturbed⟩
      obtain rfl : input = input' := Except.ok.inj (hinput.symm.trans hinput')
      obtain ⟨run, hrun⟩ :=
        (gateOutcome_iff laws hdecides haccords hlast).2 ⟨hrecorded, hundisturbed⟩
      obtain ⟨-, hclosed⟩ := (asks_gateOutcome (A := AnyAnswer ρ) options action decided
        input).ends hlast fun _ _ => trivial
      exact ⟨run, hrun, (hclosed run hrun).signedOutcome⟩
  · -- No error can be made of what was thrown.
    refine iff_of_false (fun ⟨_, h, _⟩ => nomatch h) ?_
    rintro ⟨hrecordable, -⟩
    obtain ⟨input, hexecution, -⟩ := recordable_iff.1 hrecordable
    rw [hexecution] at herror
    cases herror

/-! ## Runs that execute -/

/-- Answers that a run goes on with. -/
def calm (policy : PolicyDecision) (result : Option ρ) : (op : Op) → Ans ρ op
  | .pause | .onRecord _ _ | .issue _ => ()
  | .clock | .now => 0
  | .randomContextId => ⟨List.replicate 16 0, rfl⟩
  | .evaluate _ _ => policy
  | .signRecord _ => ""
  | .createPermitId => "permit-1"
  | .execute | .executeUpstream _ => result
  | .revokedKeys => []
  | .consume _ => none

section

variable (laws : CanonicalizeLaws P)
include laws

/-- There is a run up to a decision that allows its action. -/
theorem exists_decided {options : RunOptions} {action : ActionEnvelope} {key : ActionGateKey}
    {contextId timestamp argsDigest : String} {parents : List String} {policy : PolicyDecision}
    (hkey : options.key = .ok key) (hcontext : options.contextId = some contextId)
    (hiso : P.toISOString (.finite 0) = .ok timestamp)
    (hparents : normalizeRecordHashes (options.parentRecordHashes ++
      action.parent_record_hashes.getD []) = .ok parents)
    (hargs : actionArgsDigest P action = .ok argsDigest) (hpolicy : Judged P policy)
    (hallow : policy.outcome = .string "allow") :
    ∃ answers decided, Ends (gateDecision P options action fun action timestamp =>
        Async.ask (Op.evaluate action timestamp)) answers (.ok decided) ∧
      decided.artifact.entry.member "decision_state" = .string "allowed" := by
  have houtcome : isPolicyOutcome policy.outcome = true := hallow ▸ rfl
  obtain ⟨entry, hentry⟩ := exists_builtDecision laws timestamp hpolicy houtcome hargs
    (normalizeRecordHashes_idem hparents)
  have hfine : ∀ {answers : Answers ρ},
      (∀ event ∈ answers, event.2 = .ok (calm policy none event.1)) →
      ∀ event ∈ answers, Harmless event.1 event.2 :=
    fun hcalm event hevent => hcalm event hevent ▸ harmless_ok _
  obtain ⟨signed, result, hsigned, hcalm⟩ := Async.exists_ends (ε := Thrown)
    (fun op => .ok (calm policy none op))
    (signActionGateDecision P options key entry action parents contextId 0)
  obtain ⟨artifact, rfl⟩ :=
    ((returns_signActionGateDecision laws hentry).ends hsigned).1.2 (hfine hcalm)
  obtain ⟨notified, result, hnotified, hcalm⟩ := Async.exists_ends (ε := Thrown)
    (fun op => .ok (calm policy none op)) (notifyRecord (ρ := ρ) options "decision" artifact)
  obtain ⟨errors, rfl⟩ :=
    ((returns_notifyRecord options "decision" artifact).ends hnotified).1.2 (hfine hcalm)
  have hresolved : Ends (resolvePolicyDecision P (Async.ask (Op.evaluate action timestamp)))
      [⟨.evaluate action timestamp, .ok policy⟩] (.ok policy) := by
    refine ends_catching.2 (.inl ⟨policy, ends_ask_bind.2 (.inl ⟨policy, [], rfl, ?_⟩), rfl⟩)
    exact ends_lift_bind.2 (.inl ⟨(), assertThat_eq_ok.2 houtcome, ends_pure.2 ⟨rfl, rfl⟩⟩)
  refine ⟨⟨.now, .ok 0⟩ :: ⟨.evaluate action timestamp, .ok policy⟩ :: (signed ++ notified),
    ⟨key, contextId, artifact, errors⟩, ?_, ?_⟩
  · refine ends_lift_bind.2 (.inl ⟨key, hkey, ?_⟩)
    refine ends_bind.2 (.inl ⟨contextId, [], _, ?_, ?_, rfl⟩)
    · rw [contextIdOf, hcontext]
      exact ends_pure.2 ⟨rfl, rfl⟩
    refine ends_ask_bind.2 (.inl ⟨0, _, rfl, ?_⟩)
    refine ends_lift_bind.2 (.inl ⟨timestamp, rethrow_eq_ok.2 hiso, ?_⟩)
    refine ends_lift_bind.2 (.inl ⟨parents, hparents, ?_⟩)
    refine ends_bind.2 (.inl ⟨policy, [_], signed ++ notified, hresolved, ?_, rfl⟩)
    refine ends_lift_bind.2 (.inl ⟨entry, buildActionGateDecisionEntry_eq_ok.2 hentry, ?_⟩)
    refine ends_bind.2 (.inl ⟨artifact, signed, _, hsigned, ?_, rfl⟩)
    exact ends_bind.2 (.inl ⟨errors, notified, [], hnotified, ends_pure.2 ⟨rfl, rfl⟩,
      (List.append_nil _).symm⟩)
  · obtain ⟨_, hdecides⟩ := (asks_signActionGateDecision (A := AnyAnswer ρ) options key entry action
      parents contextId 0).ends hsigned fun _ _ => trivial
    obtain ⟨_, _, -, -, hartifact⟩ := (hdecides artifact rfl).signed
    obtain ⟨state, hstate, hmember⟩ := hentry.state
    rw [hallow] at hstate
    obtain rfl := Except.ok.inj hstate
    exact hartifact.entry ▸ hmember

/-- There is a run in which the action body, whatever it is, runs to its end. -/
theorem exists_executed {options : RunOptions} {action : ActionEnvelope} {key : ActionGateKey}
    {contextId timestamp argsDigest : String} {parents : List String} {policy : PolicyDecision}
    (hkey : options.key = .ok key) (hcontext : options.contextId = some contextId)
    (hiso : P.toISOString (.finite 0) = .ok timestamp)
    (hparents : normalizeRecordHashes (options.parentRecordHashes ++
      action.parent_record_hashes.getD []) = .ok parents)
    (hargs : actionArgsDigest P action = .ok argsDigest) (hpolicy : Judged P policy)
    (hallow : policy.outcome = .string "allow") {execute : Gate ρ (Option ρ)} {body : Answers ρ}
    {value : Option ρ} (hbody : Ends execute body (.ok value)) (hvalue : Recordable P (.ok value)) :
    ∃ before after run, Ends (runGatedAction P options action
        (fun action timestamp => Async.ask (Op.evaluate action timestamp)) execute)
        (before ++ body ++ after) (.ok run) ∧ Undisturbed P after ∧
      ∀ decisionOk outcomeOk, verificationOf P decisionOk outcomeOk run.decision run.outcome =
        .ok (signatureVerdict decisionOk outcomeOk) := by
  obtain ⟨before, decided, hdecided, hstate⟩ :=
    exists_decided laws hkey hcontext hiso hparents hargs hpolicy hallow
  obtain ⟨input, hinput, hrecorded⟩ := recordable_iff.1 hvalue
  have hdecides := ((asks_gateDecision (A := AnyAnswer ρ) fun _ _ =>
    Asks.ask (Q := fun _ => True) trivial fun _ _ => trivial).ends hdecided
      fun _ _ => trivial).2 decided rfl
  have haccords : Accords (decided.artifact.entry.member "decision_state") input :=
    hstate ▸ accords_executionOf hinput
  obtain ⟨after, result, hafter, hcalm⟩ := Async.exists_ends (ε := Thrown)
    (fun op => .ok (calm policy none op)) (gateOutcome P options action decided input)
  have hundisturbed : Undisturbed P after := by
    refine ⟨?_, fun event hevent => hcalm event hevent ▸ harmless_ok _⟩
    rintro nowMs rest rfl
    have hnow : nowMs = 0 := Except.ok.inj (hcalm ⟨.now, .ok nowMs⟩ List.mem_cons_self)
    exact ⟨timestamp, hnow ▸ hiso⟩
  obtain ⟨run, rfl⟩ := (gateOutcome_iff laws hdecides haccords hafter).2 ⟨hrecorded, hundisturbed⟩
  have hclosed := ((asks_gateOutcome (A := AnyAnswer ρ) options action decided input).ends hafter
    fun _ _ => trivial).2 run rfl
  refine ⟨before, after, run, ?_, hundisturbed, hclosed.verificationOf laws hdecides haccords⟩
  refine ends_bind.2 (.inl ⟨decided, before, body ++ after, hdecided, ?_, List.append_assoc _ _ _⟩)
  refine ends_bind.2 (.inl ⟨input, body, after, ?_, hafter, rfl⟩)
  rw [hstate]
  obtain rfl := Except.ok.inj hinput
  exact ends_catching.2 (.inl ⟨_, ends_bind.2 (.inl ⟨value, body, [], hbody,
    ends_pure.2 ⟨rfl, rfl⟩, (List.append_nil _).symm⟩), rfl⟩)

end

namespace GateSample

def escaped (c : Char) : List Char := if c = '"' ∨ c = '\\' then ['\\', c] else [c]

def quoted (text : String) : String :=
  String.ofList ('"' :: (text.toList.flatMap escaped ++ ['"']))

/-- JCS, for whole numbers and texts without control characters. -/
def jcs : JsValue → Except String (Option String)
  | .undefined | .function => .ok none
  | .null => .ok (some "null")
  | .bool b => .ok (some (toString b))
  | .number (.finite q) => .ok (some (toString q.num))
  | .number _ => .error "Infinity is not allowed"
  | .string text => .ok (some (quoted text))
  | .array items => do return some ("[" ++ ",".intercalate (← itemTexts items) ++ "]")
  | .object members => do
      let sorted := Lib.sortBy
        (fun a b => compare (JsValue.codeUnits a.1) (JsValue.codeUnits b.1)) (← memberTexts members)
      return some ("\x7b" ++ ",".intercalate (sorted.map fun member =>
        quoted member.1 ++ ":" ++ member.2) ++ "\x7d")
where
  itemTexts : List JsValue → Except String (List String)
    | [] => .ok []
    | item :: items => do return (← jcs item).getD "null" :: (← itemTexts items)
  memberTexts : List (String × JsValue) → Except String (List (String × String))
    | [] => .ok []
    | (key, value) :: members => do
        let text ← jcs value
        return (text.map (key, ·)).toList ++ (← memberTexts members)

/-- `JSON.parse`, of a literal. -/
def parse (text : String) : Except String JsValue :=
  if text = "null" then .ok .null
  else if text = "true" then .ok (.bool true)
  else if text = "false" then .ok (.bool false)
  else .error "Unexpected token"

/-- JCS and the date of the epoch. No signature is valid. -/
def platform : Platform JsValue where
  mcp := {
    hash := .fips180
    canonicalize := jcs
    base64urlDecode := Middleware.decodeText
    numberText _ := ""
    getPublicKey _ := []
    sign _ _ := []
    verify _ _ _ := false
    text := ⟨fun _ => "", fun _ => .nan, fun _ => none⟩ }
  canonicalizeResult := jcs
  parse := parse
  localeCompare a b := compare (JsValue.codeUnits a) (JsValue.codeUnits b)
  toISOString
    | .finite 0 => .ok "1970-01-01T00:00:00.000Z"
    | _ => .error "Invalid time value"
  normalizeServerUrl := id
  envTail _ := none

theorem jcs_object {members : List (String × JsValue)} :
    (∃ json, jcs (.object members) = .ok json) ↔
      ∀ entry ∈ members, ∃ json, jcs entry.2 = .ok json := by
  have htexts : (∃ texts, jcs.memberTexts members = .ok texts) ↔
      ∀ entry ∈ members, ∃ json, jcs entry.2 = .ok json := by
    induction members with
    | nil => exact iff_of_true ⟨[], rfl⟩ fun _ h => absurd h List.not_mem_nil
    | cons entry members ih =>
        rw [List.forall_mem_cons, ← ih]
        simp only [jcs.memberTexts, bind_eq_ok]
        constructor
        · rintro ⟨_, text, htext, texts, htexts, -⟩
          exact ⟨⟨text, htext⟩, texts, htexts⟩
        · rintro ⟨⟨text, htext⟩, texts, htexts⟩
          exact ⟨_, text, htext, texts, htexts, rfl⟩
  rw [← htexts, jcs]
  simp only [bind_eq_ok]
  constructor
  · rintro ⟨_, texts, htexts, -⟩
    exact ⟨texts, htexts⟩
  · rintro ⟨texts, htexts⟩
    exact ⟨_, texts, htexts, rfl⟩

theorem jcs_texts (values : List String) : ∃ json, jcs (texts values) = .ok json := by
  have htexts : ∃ items, jcs.itemTexts (values.map .string) = .ok items := by
    induction values with
    | nil => exact ⟨[], rfl⟩
    | cons value values ih =>
        obtain ⟨items, hitems⟩ := ih
        exact ⟨_, bind_eq_ok.2 ⟨_, rfl, bind_eq_ok.2 ⟨items, hitems, rfl⟩⟩⟩
  obtain ⟨items, hitems⟩ := htexts
  exact ⟨_, bind_eq_ok.2 ⟨items, hitems, rfl⟩⟩

theorem laws : CanonicalizeLaws platform where
  undefined := rfl
  null := ⟨_, rfl⟩
  bool _ := ⟨_, rfl⟩
  string _ := ⟨_, rfl⟩
  finite _ := ⟨_, rfl⟩
  texts := jcs_texts
  object _ _ := jcs_object
  object_ne_none members _ h := by
    obtain ⟨_, -, h⟩ := bind_eq_ok.1 h
    cases h
  parse value json parsed _ hparse := by
    simp only [platform, parse] at hparse
    split at hparse
    · next hjson =>
        cases hparse
        rw [hjson]
        rfl
    split at hparse
    · next hjson =>
        cases hparse
        rw [hjson]
        rfl
    split at hparse
    · next hjson =>
        cases hparse
        rw [hjson]
        rfl
    · cases hparse

def options : RunOptions where
  key := .ok (.signer "iojj3XQJ8ZX9UtstPLpdcspnCb8dlBIb83SIAbQPb1w")
  contextId := some "aaaaaaaaaaaaaaaaaaaaaaaaaaaaaaaa"

def action : ActionEnvelope where
  run_id := "run-1"
  action_id := "action-1"
  agent_id := "agent-1"
  surface := "mcp"
  tool_name := "search"

def policy : PolicyDecision where
  outcome := .string "allow"
  policy_id := "policy-1"
  policy_version := "1"

theorem judged : Judged platform policy := ⟨nofun, nofun⟩

theorem exists_actionArgsDigest : ∃ digest, actionArgsDigest platform action = .ok digest := by
  obtain ⟨digest, hdigest⟩ : ∃ digest, hashCanonical platform (.object []) = .ok digest :=
    laws.hashCanonical_ok (fun _ h => absurd h List.not_mem_nil) fun _ h =>
      absurd h List.not_mem_nil
  exact ⟨digest, hdigest⟩

/-- There is a run of the action with any body that ends. -/
theorem exists_run {execute : Gate JsValue (Option JsValue)} {body : Answers JsValue}
    {value : Option JsValue} (hbody : Ends execute body (.ok value))
    (hvalue : Recordable platform (.ok value)) :
    ∃ before after run, Ends (runGatedAction platform options action
        (fun action timestamp => Async.ask (Op.evaluate action timestamp)) execute)
        (before ++ body ++ after) (.ok run) ∧ Undisturbed platform after ∧
      ∀ decisionOk outcomeOk,
        verificationOf platform decisionOk outcomeOk run.decision run.outcome =
          .ok (signatureVerdict decisionOk outcomeOk) := by
  obtain ⟨digest, hargs⟩ := exists_actionArgsDigest
  exact exists_executed laws rfl rfl rfl rfl hargs judged rfl hbody hvalue

/-- What the action answers. -/
def answer : Except Thrown (Option JsValue) := .ok (some (.string "done"))

theorem recordable_answer : Recordable platform answer := ⟨_, rfl⟩

theorem ends_execute : Ends (Async.ask Op.execute : Gate JsValue (Option JsValue))
    [⟨.execute, answer⟩] answer := Lib.Async.ends_ask.2 rfl

theorem signed_outcome_done :
    ∃ before after run, Ends (runGatedAction platform options action
        (fun action timestamp => Async.ask (Op.evaluate action timestamp)) (Async.ask Op.execute))
        (before ++ ⟨.execute, answer⟩ :: after) (.ok run) ∧ SignedOutcome platform run := by
  obtain ⟨before, after, run, hends, hundisturbed, -⟩ :=
    exists_run ends_execute recordable_answer
  rw [List.append_assoc] at hends
  obtain ⟨run', hrun, hsigned⟩ :=
    (signed_outcome_iff laws hends).2 ⟨recordable_answer, hundisturbed⟩
  obtain rfl := Except.ok.inj hrun
  exact ⟨before, after, run, hends, hsigned⟩

end GateSample

end Atrib.ActionGate
