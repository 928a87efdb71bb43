import Atrib.Lib.Effect
import Atrib.Proofs.GatedRuns

/-!
# The members of gate entries

What can be read from an entry that has been built: the members it was built from,
and the id that is taken of them.
-/

namespace Atrib.ActionGate

open Lib (JsValue bind_eq_ok)

variable {ρ : Type} {P : Platform ρ}

theorem hashJson_eq_ok {json : Except String (Option String)} {digest : String} :
    hashJson P json = .ok digest ↔
      ∃ text, json = .ok (some text) ∧ digest = sha256Ref (P.mcp.hash.sha256 (utf8 text)) := by
  unfold hashJson
  constructor
  · intro h
    split at h
    · next text => exact ⟨text, rfl, (Except.ok.inj h).symm⟩
    · exact nomatch h
    · exact nomatch h
  · rintro ⟨text, rfl, rfl⟩
    rfl

theorem isSha256Ref_hashJson {json : Except String (Option String)} {digest : String}
    (h : hashJson P json = .ok digest) : isSha256Ref digest = true := by
  obtain ⟨text, -, rfl⟩ := hashJson_eq_ok.1 h
  exact isSha256Ref_sha256Ref (P.mcp.hash.length_sha256 _)

theorem recordHashFor_eq_ok {record : JsValue} {recordHash : String} :
    recordHashFor P record = .ok recordHash ↔ ∃ json, P.mcp.canonicalize record = .ok (some json) ∧
      recordHash = sha256Ref (P.mcp.hash.sha256 (utf8 json)) := by
  unfold recordHashFor Middleware.canonicalBytes
  constructor
  · intro h
    rcases hjson : P.mcp.canonicalize record with _ | (_ | json)
    all_goals rw [hjson] at h
    · exact nomatch h
    · exact nomatch h
    · exact ⟨json, rfl, (Except.ok.inj h).symm⟩
  · rintro ⟨json, hjson, rfl⟩
    rw [hjson]
    rfl

theorem withEntryId_eq_ok {id : String} {members : List (String × JsValue)} {entry : JsValue} :
    withEntryId P id members = .ok entry ↔ ∃ digest, hashCanonical P (.object members) = .ok digest ∧
      entry = .object (members ++ [(id, .string digest)]) := by
  unfold withEntryId digestCanonical
  cases hashCanonical P (.object members) with
  | ok digest =>
      constructor
      · intro h
        exact ⟨digest, rfl, (Except.ok.inj h).symm⟩
      · rintro ⟨_, ⟨⟩, rfl⟩
        rfl
  | error error =>
      constructor
      · exact fun h => nomatch h
      · rintro ⟨_, ⟨⟩, -⟩

/-- An id that is put at the end can be taken away again. -/
theorem without_append {members : List (String × JsValue)} {id : String} {value : JsValue}
    (hid : id ∉ members.map Prod.fst) :
    (JsValue.object (members ++ [(id, value)])).without id = .object members := by
  have hkept : members.filter (fun member => member.1 ≠ id) = members := by
    refine List.filter_eq_self.2 fun member hmember => decide_eq_true fun heq => hid ?_
    exact heq ▸ List.mem_map_of_mem hmember
  simp only [JsValue.without, List.filter_append, hkept]
  simp

/-! ## Decisions -/

/-- A decision entry that has been built. -/
structure BuiltDecision (P : Platform ρ) (action : ActionEnvelope) (policy : PolicyDecision)
    (timestamp : String) (parentRecordHashes : List String) (entry : JsValue) : Prop where
  built : ∃ state argsDigest parents id, decisionStateFromPolicy policy.outcome = .ok state ∧
    actionArgsDigest P action = .ok argsDigest ∧
    normalizeRecordHashes parentRecordHashes = .ok parents ∧
    hashCanonical P (.object (decisionMembers P action policy timestamp state argsDigest parents)) =
      .ok id ∧
    entry = .object (decisionMembers P action policy timestamp state argsDigest parents ++
      [("decision_id", .string id)])

theorem buildActionGateDecisionEntry_eq_ok {action : ActionEnvelope} {policy : PolicyDecision}
    {timestamp : String} {parentRecordHashes : List String} {entry : JsValue} :
    buildActionGateDecisionEntry P action policy timestamp parentRecordHashes = .ok entry ↔
      BuiltDecision P action policy timestamp parentRecordHashes entry := by
  simp only [buildActionGateDecisionEntry, bind_eq_ok, withEntryId_eq_ok]
  constructor
  · rintro ⟨state, hstate, argsDigest, hargs, parents, hparents, id, hid, rfl⟩
    exact ⟨state, argsDigest, parents, id, hstate, hargs, hparents, hid, rfl⟩
  · rintro ⟨state, argsDigest, parents, id, hstate, hargs, hparents, hid, rfl⟩
    exact ⟨state, hstate, argsDigest, hargs, parents, hparents, id, hid, rfl⟩

theorem decisionStateFromPolicy_eq_ok {outcome : JsValue} {state : String}
    (h : decisionStateFromPolicy outcome = .ok state) :
    state = "allowed" ∨ state = "blocked" ∨ state = "escalated" ∨ state = "policy_error" := by
  unfold decisionStateFromPolicy at h
  split_ifs at h
  all_goals cases h
  · exact .inl rfl
  · exact .inr (.inl rfl)
  · exact .inr (.inr (.inl rfl))
  · exact .inr (.inr (.inr rfl))

theorem isPolicyOutcome_of_state {outcome : JsValue} {state : String}
    (h : decisionStateFromPolicy outcome = .ok state) : isPolicyOutcome outcome = true := by
  unfold decisionStateFromPolicy at h
  cases outcome with
  | string text =>
      simp only [JsValue.strictEq_string, decide_eq_true_eq] at h
      simp only [isPolicyOutcome, JsValue.string?, Option.any_some, Bool.or_eq_true,
        decide_eq_true_eq]
      split_ifs at h with hallow hblock hescalate herror
      · exact .inl (.inl (.inl hallow))
      · exact .inl (.inl (.inr hblock))
      · exact .inl (.inr hescalate)
      · exact .inr herror
  | _ => cases h

theorem BuiltDecision.state {action : ActionEnvelope} {policy : PolicyDecision}
    {timestamp : String} {parentRecordHashes : List String} {entry : JsValue}
    (h : BuiltDecision P action policy timestamp parentRecordHashes entry) :
    ∃ state, decisionStateFromPolicy policy.outcome = .ok state ∧
      entry.member "decision_state" = .string state := by
  obtain ⟨state, argsDigest, parents, id, hstate, -, -, -, rfl⟩ := h.built
  exact ⟨state, hstate, rfl⟩

theorem keys_decisionMembers (P : Platform ρ) (action : ActionEnvelope) (policy : PolicyDecision)
    (timestamp state argsDigest : String) (parents : List String) :
    (decisionMembers P action policy timestamp state argsDigest parents).map Prod.fst =
      ["schema", "decision_state", "run_id", "action_id", "agent_id", "surface", "tool_name",
        "args_digest", "risk", "policy", "timestamp", "parent_record_hashes"] ++
        if action.refs.isSome then ["refs"] else [] := by
  unfold decisionMembers
  cases action.refs <;> rfl

section

variable {action : ActionEnvelope} {policy : PolicyDecision} {timestamp : String}
variable {parentRecordHashes : List String} {entry : JsValue}

/-- The members of a decision that an outcome or a sidecar is compared with. -/
theorem BuiltDecision.members
    (h : BuiltDecision P action policy timestamp parentRecordHashes entry) :
    entry.member "schema" = .string ACTION_GATE_DECISION_SCHEMA ∧
      entry.member "run_id" = .string action.run_id ∧
      entry.member "action_id" = .string action.action_id ∧
      policyOutcome entry = .ok policy.outcome := by
  obtain ⟨state, argsDigest, parents, id, -, -, -, -, rfl⟩ := h.built
  exact ⟨rfl, rfl, rfl, rfl⟩

theorem BuiltDecision.id
    (h : BuiltDecision P action policy timestamp parentRecordHashes entry) :
    ∃ id, decisionEntryIdFor P entry = .ok id ∧ entry.member "decision_id" = .string id := by
  obtain ⟨state, argsDigest, parents, id, -, -, -, hid, rfl⟩ := h.built
  refine ⟨id, ?_, ?_⟩
  · rw [decisionEntryIdFor, without_append, hid]
    rw [keys_decisionMembers]
    split <;> decide
  · unfold decisionMembers
    cases action.refs <;> rfl

theorem BuiltDecision.argsDigest
    (h : BuiltDecision P action policy timestamp parentRecordHashes entry) :
    ∃ digest, actionArgsDigest P action = .ok digest ∧
      entry.member "args_digest" = .string digest := by
  obtain ⟨state, argsDigest, parents, id, -, hargs, -, -, rfl⟩ := h.built
  exact ⟨argsDigest, hargs, rfl⟩

end

/-! ## Outcomes -/

/-- An outcome entry that has been built. -/
structure BuiltOutcome (P : Platform ρ) (input : OutcomeInput ρ) (runId actionId : String)
    (decisionId : JsValue) (decisionRecordHash timestamp : String) (entry : JsValue) : Prop where
  status : isOutcomeStatus (.string input.status) = true
  built : ∃ resultDigest id, input.result.mapM (digestResult P) = .ok resultDigest ∧
    hashCanonical P (.object (outcomeMembers input runId actionId decisionId decisionRecordHash
      timestamp resultDigest)) = .ok id ∧
    entry = .object (outcomeMembers input runId actionId decisionId decisionRecordHash timestamp
      resultDigest ++ [("outcome_id", .string id)])

theorem buildActionGateOutcomeEntry_eq_ok {input : OutcomeInput ρ} {runId actionId : String}
    {decisionId : JsValue} {decisionRecordHash timestamp : String} {entry : JsValue} :
    buildActionGateOutcomeEntry P input runId actionId decisionId decisionRecordHash timestamp =
        .ok entry ↔
      BuiltOutcome P input runId actionId decisionId decisionRecordHash timestamp entry := by
  simp only [buildActionGateOutcomeEntry, bind_eq_ok, withEntryId_eq_ok, assertThat_eq_ok]
  constructor
  · rintro ⟨_, hstatus, resultDigest, hresult, id, hid, rfl⟩
    exact ⟨hstatus, resultDigest, id, hresult, hid, rfl⟩
  · rintro ⟨hstatus, resultDigest, id, hresult, hid, rfl⟩
    exact ⟨⟨⟩, hstatus, resultDigest, hresult, id, hid, rfl⟩

section

variable {input : OutcomeInput ρ} {runId actionId : String} {decisionId : JsValue}
variable {decisionRecordHash timestamp : String} {entry : JsValue}

/-- The members of an outcome that a decision is compared with. -/
theorem BuiltOutcome.members
    (h : BuiltOutcome P input runId actionId decisionId decisionRecordHash timestamp entry) :
    entry.member "schema" = .string ACTION_GATE_OUTCOME_SCHEMA ∧
      entry.member "status" = .string input.status ∧ entry.member "run_id" = .string runId ∧
      entry.member "action_id" = .string actionId ∧ entry.member "decision_id" = decisionId ∧
      entry.get "decision_record_hash" = .ok (.string decisionRecordHash) ∧
      entry.member "executed" = .bool input.executed := by
  obtain ⟨resultDigest, id, -, -, rfl⟩ := h.built
  exact ⟨rfl, rfl, rfl, rfl, rfl, rfl, rfl⟩

theorem keys_outcomeMembers (input : OutcomeInput ρ) (runId actionId : String)
    (decisionId : JsValue) (decisionRecordHash timestamp : String) (resultDigest : Option String) :
    (outcomeMembers input runId actionId decisionId decisionRecordHash timestamp
      resultDigest).map Prod.fst =
      ["schema", "status", "run_id", "action_id", "decision_id", "decision_record_hash",
        "executed"] ++ (if resultDigest.isSome then ["result_digest"] else []) ++
        (if input.error.isSome then ["error"] else []) ++ ["timestamp"] := by
  unfold outcomeMembers
  cases resultDigest <;> cases input.error <;> rfl

theorem BuiltOutcome.id
    (h : BuiltOutcome P input runId actionId decisionId decisionRecordHash timestamp entry) :
    ∃ id, outcomeEntryIdFor P entry = .ok id ∧ entry.member "outcome_id" = .string id := by
  obtain ⟨resultDigest, id, -, hid, rfl⟩ := h.built
  refine ⟨id, ?_, ?_⟩
  · rw [outcomeEntryIdFor, without_append, hid]
    rw [keys_outcomeMembers]
    split <;> split <;> decide
  · unfold outcomeMembers
    cases resultDigest <;> cases input.error <;> rfl

/-- The digest of the result, where there is one. -/
theorem BuiltOutcome.resultDigest
    (h : BuiltOutcome P input runId actionId decisionId decisionRecordHash timestamp entry) :
    (input.result = none ∧ entry.member "result_digest" = .undefined) ∨
      ∃ result digest, input.result = some result ∧ digestResult P result = .ok digest ∧
        entry.member "result_digest" = .string digest := by
  obtain ⟨resultDigest, id, hresult, -, rfl⟩ := h.built
  cases hinput : input.result with
  | none =>
      rw [hinput] at hresult
      cases hresult
      refine .inl ⟨rfl, ?_⟩
      unfold outcomeMembers
      cases input.error <;> rfl
  | some result =>
      rw [hinput, Option.mapM_some] at hresult
      cases hdigest : digestResult P result with
      | error error =>
          rw [hdigest] at hresult
          exact nomatch hresult
      | ok digest =>
          rw [hdigest] at hresult
          cases hresult
          exact .inr ⟨result, digest, rfl, hdigest, rfl⟩

theorem BuiltOutcome.member_error
    (h : BuiltOutcome P input runId actionId decisionId decisionRecordHash timestamp entry) :
    entry.member "error" = (input.error.map errorOf).getD .undefined := by
  obtain ⟨resultDigest, id, -, -, rfl⟩ := h.built
  unfold outcomeMembers
  cases resultDigest <;> cases input.error <;> rfl

end

end Atrib.ActionGate
