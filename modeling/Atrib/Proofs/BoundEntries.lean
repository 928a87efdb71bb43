import Atrib.Proofs.SignedOutcomes

/-!
# What a verified run is bound to

A record commits to its entry with two digests, one of them of the id of the entry,
and the id is a digest of all the rest. So the two records of a run that verifies
leave one decision and one outcome, if no two of the texts that are committed to
have one digest. And only a decision that allows its action verifies with an outcome
that has executed it.
-/

namespace Atrib.ActionGate

open Lib (JsValue bind_eq_ok)
open Lib.Async (Ends ends_ask_bind ends_lift)

variable {ρ : Type} {P : Platform ρ}

/-- What JCS does: a text is that of one text, and two objects with the same keys and one text have
the same texts under each key. -/
structure Readable (P : Platform ρ) (pairs : List (JsValue × JsValue)) : Prop where
  string : ∀ text text', P.mcp.canonicalize (.string text) = P.mcp.canonicalize (.string text') →
    text = text'
  member : ∀ members members' json, (.object members, .object members') ∈ pairs →
    members.map Prod.fst = members'.map Prod.fst →
    P.mcp.canonicalize (.object members) = .ok (some json) →
    P.mcp.canonicalize (.object members') = .ok (some json) → ∀ key,
      P.mcp.canonicalize ((JsValue.object members).member key) =
        P.mcp.canonicalize ((JsValue.object members').member key)

/-! ## Verdicts -/

def signatureCodes : List String := ["decision_signature_invalid", "outcome_signature_invalid"]

/-- All that was found is of the signatures. -/
def OnlySignatures (issues : List VerificationIssue) : Prop :=
  ∀ issue ∈ issues, issue.code ∈ signatureCodes

theorem onlySignatures_append {issues issues' : List VerificationIssue} :
    OnlySignatures (issues ++ issues') ↔ OnlySignatures issues ∧ OnlySignatures issues' :=
  List.forall_mem_append

theorem onlySignatures_issueIf {failed : Bool} {code message : String}
    (hcode : code ∉ signatureCodes) :
    OnlySignatures (issueIf failed code message) ↔ failed = false := by
  cases failed <;> simp [OnlySignatures, issueIf, hcode]

theorem differs_string {value : JsValue} {text : String} :
    differs value (.string text) = false ↔ value = .string text := by
  cases value <;> simp [differs, JsValue.strictEq]

variable {decision outcome : Artifact}

theorem onlySignatures_parts {decisionOk outcomeOk : Bool} {result : VerificationResult}
    (h : verificationOf P decisionOk outcomeOk decision outcome = .ok result)
    (honly : OnlySignatures result.issues) :
    (∃ shape, shapeIssues decision outcome = .ok shape ∧ OnlySignatures shape) ∧
      (∃ commitment, commitmentIssues P decision outcome = .ok commitment ∧
        OnlySignatures commitment) ∧ OnlySignatures (stateIssues decision outcome) := by
  unfold verificationOf at h
  obtain ⟨link, -, h⟩ := bind_eq_ok.1 h
  obtain ⟨shape, hshape, h⟩ := bind_eq_ok.1 h
  obtain ⟨commitment, hcommitment, h⟩ := bind_eq_ok.1 h
  obtain ⟨sidecar, -, h⟩ := bind_eq_ok.1 h
  obtain rfl := Except.ok.inj h
  simp only [onlySignatures_append] at honly
  obtain ⟨⟨⟨⟨-, honlyShape⟩, honlyCommitment⟩, -⟩, hstate⟩ := honly
  exact ⟨⟨shape, hshape, honlyShape⟩, ⟨commitment, hcommitment, honlyCommitment⟩, hstate⟩

/-- The digests that the ids and the records of a run are. -/
structure Commits (P : Platform ρ) (decision outcome : Artifact) : Prop where
  decision_id : ∃ id, decisionEntryIdFor P decision.entry = .ok id ∧
    decision.entry.member "decision_id" = .string id
  outcome_id : ∃ id, outcomeEntryIdFor P outcome.entry = .ok id ∧
    outcome.entry.member "outcome_id" = .string id
  decision_args : ∃ digest, hashCanonical P (decisionSubject decision.entry) = .ok digest ∧
    decision.record.member "args_hash" = .string digest
  outcome_args : ∃ digest, hashCanonical P (outcomeSubject outcome.entry) = .ok digest ∧
    outcome.record.member "args_hash" = .string digest

theorem commits_of_commitmentIssues {commitment : List VerificationIssue}
    (h : commitmentIssues P decision outcome = .ok commitment)
    (honly : OnlySignatures commitment) : Commits P decision outcome := by
  unfold commitmentIssues at h
  obtain ⟨decisionId, hdecisionId, h⟩ := bind_eq_ok.1 h
  obtain ⟨outcomeId, houtcomeId, h⟩ := bind_eq_ok.1 h
  obtain ⟨decisionTool, -, h⟩ := bind_eq_ok.1 h
  obtain ⟨outcomeTool, -, h⟩ := bind_eq_ok.1 h
  obtain ⟨decisionArgs, hdecisionArgs, h⟩ := bind_eq_ok.1 h
  obtain ⟨decisionResult, -, h⟩ := bind_eq_ok.1 h
  obtain ⟨outcomeArgs, houtcomeArgs, h⟩ := bind_eq_ok.1 h
  obtain ⟨outcomeResult, -, h⟩ := bind_eq_ok.1 h
  obtain rfl := Except.ok.inj h
  simp (disch := decide) only [onlySignatures_append, onlySignatures_issueIf, differs_string]
    at honly
  obtain ⟨⟨⟨⟨⟨⟨⟨⟨⟨hdecision, houtcome⟩, -⟩, -⟩, -⟩, -⟩, hargs⟩, -⟩, hargs'⟩, -⟩ := honly
  exact ⟨⟨decisionId, hdecisionId, hdecision⟩, ⟨outcomeId, houtcomeId, houtcome⟩,
    ⟨decisionArgs, hdecisionArgs, hargs⟩, ⟨outcomeArgs, houtcomeArgs, hargs'⟩⟩

/-- An outcome that has executed its action follows a decision that allows it. -/
theorem allowed_of_executed {shape : List VerificationIssue}
    (hshape : shapeIssues decision outcome = .ok shape) (honly : OnlySignatures shape)
    (hstate : OnlySignatures (stateIssues decision outcome))
    (hexecuted : outcome.entry.member "executed" = .bool true) :
    decision.entry.member "decision_state" = .string "allowed" := by
  unfold shapeIssues at hshape
  obtain ⟨policy, -, hshape⟩ := bind_eq_ok.1 hshape
  dsimp only at hshape
  split at hshape
  · obtain ⟨state, hpolicyState, hshape⟩ := bind_eq_ok.1 hshape
    obtain rfl := Except.ok.inj hshape
    simp only [onlySignatures_append] at honly
    obtain ⟨⟨⟨⟨⟨-, hmember⟩, -⟩, -⟩, -⟩, -⟩ := honly
    have hmember := differs_string.1 ((onlySignatures_issueIf (by decide)).1 hmember)
    rcases decisionStateFromPolicy_eq_ok hpolicyState with rfl | rfl | rfl | rfl
    · exact hmember
    all_goals
      -- The decision is closed, and the outcome would have been found to execute it.
      simp [stateIssues, closedIssues, hmember, hexecuted, issueIf, JsValue.strictEq,
        JsValue.truthy, OnlySignatures, signatureCodes] at hstate
  · obtain rfl := Except.ok.inj hshape
    simp only [onlySignatures_append] at honly
    obtain ⟨⟨⟨⟨⟨-, hpolicy⟩, -⟩, -⟩, -⟩, -⟩ := honly
    exact absurd (hpolicy _ (List.mem_singleton.2 rfl)) (by decide)

/-! ## Digests -/

/-- The two values of a pair have different texts with one digest. -/
def Collide (P : Platform ρ) (pairs : List (JsValue × JsValue)) : Prop :=
  ∃ pair ∈ pairs, ∃ json json', P.mcp.canonicalize pair.1 = .ok (some json) ∧
    P.mcp.canonicalize pair.2 = .ok (some json') ∧ json ≠ json' ∧
    P.mcp.hash.sha256 (utf8 json) = P.mcp.hash.sha256 (utf8 json')

theorem canonicalize_eq_or_collide {pairs : List (JsValue × JsValue)} {value value' : JsValue}
    {digest : String} (hpair : (value, value') ∈ pairs) (h : hashCanonical P value = .ok digest)
    (h' : hashCanonical P value' = .ok digest) :
    (∃ json, P.mcp.canonicalize value = .ok (some json) ∧
      P.mcp.canonicalize value' = .ok (some json)) ∨ Collide P pairs := by
  obtain ⟨json, hjson, hdigest⟩ := hashCanonical_eq_ok.1 h
  obtain ⟨json', hjson', hdigest'⟩ := hashCanonical_eq_ok.1 h'
  have hsha := sha256Ref_inj (hdigest.symm.trans hdigest')
  by_cases hsame : json = json'
  · exact .inl ⟨json, hjson, hsame ▸ hjson'⟩
  · exact .inr ⟨_, hpair, json, json', hjson, hjson', hsame, hsha⟩

/-- What the digests of two runs are taken of: what the records commit to, and what is under the
ids. -/
def committed (decision outcome decision' outcome' : JsValue) : List (JsValue × JsValue) :=
  [(decisionSubject decision, decisionSubject decision'),
    (decision.without "decision_id", decision'.without "decision_id"),
    (outcomeSubject outcome, outcomeSubject outcome'),
    (outcome.without "outcome_id", outcome'.without "outcome_id")]

/-- Two values have one canonical text, and the same id over it. -/
structure SameEntry (P : Platform ρ) (id : String) (entry entry' : JsValue) : Prop where
  rest : P.mcp.canonicalize (entry.without id) = P.mcp.canonicalize (entry'.without id)
  id : entry.member id = entry'.member id

theorem member_pick {value : JsValue} {keys : List String} {key : String} (h : key ∈ keys) :
    (JsValue.object (pick value keys)).member key = value.member key := by
  have hlookup : (pick value keys).lookup key = some (value.member key) := by
    induction keys with
    | nil => cases h
    | cons first keys ih =>
        rw [pick, List.map_cons, List.lookup_cons]
        by_cases heq : key = first
        · rw [heq, beq_self_eq_true]
        · rw [beq_false_of_ne heq]
          exact ih ((List.mem_cons.1 h).resolve_left heq)
  change ((pick value keys).lookup key).getD .undefined = _
  rw [hlookup]
  rfl

/-- Two entries to which one digest commits. -/
theorem sameEntry_or_collide {pairs : List (JsValue × JsValue)}
    (readable : Readable P pairs) {entry entry' : JsValue} {id text text' digest : String}
    {keys : List String} (hkey : id ∈ keys)
    (hpick : (.object (pick entry keys), .object (pick entry' keys)) ∈ pairs)
    (hrest : (entry.without id, entry'.without id) ∈ pairs)
    (hid : hashCanonical P (entry.without id) = .ok text) (hmember : entry.member id = .string text)
    (hid' : hashCanonical P (entry'.without id) = .ok text')
    (hmember' : entry'.member id = .string text')
    (hdigest : hashCanonical P (.object (pick entry keys)) = .ok digest)
    (hdigest' : hashCanonical P (.object (pick entry' keys)) = .ok digest) :
    SameEntry P id entry entry' ∨ Collide P pairs := by
  have hsameKeys : (pick entry keys).map Prod.fst = (pick entry' keys).map Prod.fst := by
    simp [pick]
  have hpicked : ∀ value : JsValue, (JsValue.object (pick value keys)).member id =
      value.member id := fun value => member_pick hkey
  rcases canonicalize_eq_or_collide hpick hdigest hdigest' with ⟨json, hjson, hjson'⟩ | h
  · have hsame := readable.member _ _ json hpick hsameKeys hjson hjson' id
    rw [hpicked, hpicked, hmember, hmember'] at hsame
    obtain rfl := readable.string _ _ hsame
    rcases canonicalize_eq_or_collide hrest hid hid' with ⟨json, hjson, hjson'⟩ | h
    · exact .inl ⟨hjson.trans hjson'.symm, hmember.trans hmember'.symm⟩
    · exact .inr h
  · exact .inr h

/-! ## Runs -/

/-- What a verification has found that finds nothing but the signatures. -/
theorem ends_verifyActionGateRun {answers : Answers ρ} {result : VerificationResult}
    (hends : Ends (verifyActionGateRun P decision outcome) answers (.ok result)) :
    ∃ decisionOk outcomeOk,
      verificationOf P decisionOk outcomeOk decision outcome = .ok result := by
  rcases ends_ask_bind.1 hends with ⟨_, _, -, hrest⟩ | ⟨_, -, h⟩
  · rcases ends_ask_bind.1 hrest with ⟨_, _, -, hlast⟩ | ⟨_, -, h⟩
    · exact ⟨_, _, (ends_lift.1 hlast).2.symm⟩
    · exact nomatch h
  · exact nomatch h

/-- Two runs with the same records, of which a verification finds nothing but bad signatures, have
the same decision and the same outcome, or two of the texts under their digests collide. An outcome
that was executed has a decision that allowed it. -/
theorem verified_run_bound {decision' outcome' : Artifact}
    (readable : Readable P
      (committed decision.entry outcome.entry decision'.entry outcome'.entry))
    {answers answers' : Answers ρ} {result result' : VerificationResult}
    (hends : Ends (verifyActionGateRun P decision outcome) answers (.ok result))
    (honly : OnlySignatures result.issues)
    (hends' : Ends (verifyActionGateRun P decision' outcome') answers' (.ok result'))
    (honly' : OnlySignatures result'.issues) (hdecision : decision'.record = decision.record)
    (houtcome : outcome'.record = outcome.record) :
    (outcome.entry.member "executed" = .bool true →
      decision.entry.member "decision_state" = .string "allowed") ∧
    ((SameEntry P "decision_id" decision.entry decision'.entry ∧
        SameEntry P "outcome_id" outcome.entry outcome'.entry) ∨
      Collide P (committed decision.entry outcome.entry decision'.entry outcome'.entry)) := by
  obtain ⟨_, _, hverdict⟩ := ends_verifyActionGateRun hends
  obtain ⟨_, _, hverdict'⟩ := ends_verifyActionGateRun hends'
  obtain ⟨⟨_, hshape, hshapeOnly⟩, ⟨_, hcommits, hcommitsOnly⟩, hstate⟩ :=
    onlySignatures_parts hverdict honly
  obtain ⟨-, ⟨_, hcommits', hcommitsOnly'⟩, -⟩ := onlySignatures_parts hverdict' honly'
  obtain ⟨⟨id, hid, hmember⟩, ⟨oid, hoid, homember⟩, ⟨args, hargs, hrecord⟩,
    ⟨oargs, hoargs, horecord⟩⟩ := commits_of_commitmentIssues hcommits hcommitsOnly
  obtain ⟨⟨id', hid', hmember'⟩, ⟨oid', hoid', homember'⟩, ⟨args', hargs', hrecord'⟩,
    ⟨oargs', hoargs', horecord'⟩⟩ := commits_of_commitmentIssues hcommits' hcommitsOnly'
  rw [hdecision, hrecord] at hrecord'
  rw [houtcome, horecord] at horecord'
  cases hrecord'
  cases horecord'
  refine ⟨allowed_of_executed hshape hshapeOnly hstate, ?_⟩
  have hsame : SameEntry P "decision_id" decision.entry decision'.entry ∨
      Collide P (committed decision.entry outcome.entry decision'.entry outcome'.entry) := by
    refine sameEntry_or_collide readable ?_ ?_ ?_ hid hmember hid' hmember' hargs hargs'
    all_goals simp [committed, decisionSubject]
  have hsame' : SameEntry P "outcome_id" outcome.entry outcome'.entry ∨
      Collide P (committed decision.entry outcome.entry decision'.entry outcome'.entry) := by
    refine sameEntry_or_collide readable ?_ ?_ ?_ hoid homember hoid' homember' hoargs hoargs'
    all_goals simp [committed, outcomeSubject]
  rcases hsame with hsame | h
  · exact hsame'.imp_left fun hsame' => ⟨hsame, hsame'⟩
  · exact .inr h

namespace GateSample

theorem flatMap_escaped_inj {chars chars' : List Char}
    (h : chars.flatMap escaped ++ ['"'] = chars'.flatMap escaped ++ ['"']) : chars = chars' := by
  induction chars generalizing chars' with
  | nil =>
      cases chars' with
      | nil => rfl
      | cons c' chars' =>
          rw [List.flatMap_cons, escaped] at h
          split at h <;> simp_all
  | cons c chars ih =>
      cases chars' with
      | nil =>
          rw [List.flatMap_cons, escaped] at h
          split at h <;> simp_all
      | cons c' chars' =>
          obtain ⟨rfl, hrest⟩ : c = c' ∧
              chars.flatMap escaped ++ ['"'] = chars'.flatMap escaped ++ ['"'] := by
            rw [List.flatMap_cons, List.flatMap_cons, escaped, escaped] at h
            split at h <;> split at h
            · simpa using h
            · next hplain => exact absurd (.inr (List.head_eq_of_cons_eq h).symm) hplain
            · next hplain _ => exact absurd (.inr (List.head_eq_of_cons_eq h)) hplain
            · simpa using h
          rw [ih hrest]

theorem quoted_inj {text text' : String} (h : quoted text = quoted text') : text = text' :=
  String.toList_inj.1 (flatMap_escaped_inj (List.tail_eq_of_cons_eq (String.ofList_injective h)))

/-- A run with a signer whose signatures are bad is verified twice. -/
theorem verified_run_bound_done :
    ∃ run : RunResult JsValue,
      (∃ result, Ends (verifyActionGateRun platform run.decision run.outcome)
        [⟨.clock, .ok 0⟩, ⟨.clock, .ok 0⟩] (.ok result) ∧ OnlySignatures result.issues) ∧
      SameEntry platform "decision_id" run.decision.entry run.decision.entry := by
  obtain ⟨before, after, run, -, -, hverdict⟩ := exists_run ends_execute recordable_answer
  have hends : Ends (verifyActionGateRun platform run.decision run.outcome)
      [⟨.clock, .ok 0⟩, ⟨.clock, .ok 0⟩] _ :=
    ends_ask_bind.2 (.inl ⟨0, _, rfl, ends_ask_bind.2 (.inl ⟨0, _, rfl,
      ends_lift.2 ⟨rfl, (hverdict _ _).symm⟩⟩)⟩)
  have honly : ∀ decisionOk outcomeOk,
      OnlySignatures (signatureVerdict decisionOk outcomeOk).issues := by
    intro decisionOk outcomeOk
    cases decisionOk <;> cases outcomeOk <;>
      simp [OnlySignatures, signatureVerdict, issueIf, signatureCodes]
  have hreadable : Readable platform (committed run.decision.entry run.outcome.entry
      run.decision.entry run.outcome.entry) := by
    refine ⟨fun text text' h => quoted_inj (Option.some.inj (Except.ok.inj h)), ?_⟩
    intro members members' json hpair _ _ _ key
    obtain rfl : members = members' := by
      simp only [committed, List.mem_cons, Prod.mk.injEq, List.not_mem_nil, or_false] at hpair
      rcases hpair with ⟨h, h'⟩ | ⟨h, h'⟩ | ⟨h, h'⟩ | ⟨h, h'⟩ <;>
        exact JsValue.object.inj (h.trans h'.symm)
    rfl
  obtain ⟨-, ⟨hsame, -⟩ | ⟨pair, hpair, json, json', hjson, hjson', hne, -⟩⟩ :=
    verified_run_bound hreadable hends (honly _ _) hends (honly _ _) rfl rfl
  · exact ⟨run, ⟨_, hends, honly _ _⟩, hsame⟩
  · simp only [committed, List.mem_cons, List.not_mem_nil, or_false] at hpair
    rcases hpair with rfl | rfl | rfl | rfl <;>
      exact absurd (Option.some.inj (Except.ok.inj (hjson.symm.trans hjson'))) hne

end GateSample

end Atrib.ActionGate
