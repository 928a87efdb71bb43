import Atrib.Verify.DpopReplayCache
import Atrib.Verify.Handoff

/-!
# What an accepted handoff claim has passed

A claim is accepted when none of its checks finds a reason to reject it;
`ClaimPasses` lists the checks. Two of them pass more than their names say.

The body check looks at the material of a slot only if the record commits to
that slot, and at `body` only if there are no `args`. So an accepted claim may
carry a result that no hash covers, as long as the record commits to the
arguments.

The policy a claim is checked against is its own where it has one, and the
claims of a packet take theirs from the packet. So what the verifier asked for
is enforced exactly as far as the packet's own policy is not wider.
-/

namespace Atrib.Verify

open Lib (JsValue JsNumber NumberText InsertionSet.ofList InsertionSet.mem_ofList)

variable {P : HandoffPlatform} {claim : HandoffClaimInput} {options : VerifyHandoffClaimsOptions}

/-! ## The checks of one claim -/

/-- Every check of a claim passes. -/
structure ClaimPasses (P : HandoffPlatform) (claim : HandoffClaimInput)
    (options : VerifyHandoffClaimsOptions) (record : JsValue) : Prop where
  supplied : claim.record = some record
  hash : recordHash P record = .ok claim.record_hash
  verified : ∃ verification, P.verifyRecord record = .ok verification ∧
    verification.signatureOk = true ∧ verification.valid = true
  signer : (verifyTrustedSigner record
    (claim.trusted_creator_keys.or options.trusted_creator_keys)).2 = []
  context : (verifyAllowedContext record
    (claim.allowed_context_ids.or options.allowed_context_ids)).2 = []
  fresh : verifyFreshness P record (options.now_ms.getD P.now)
    (claim.max_age_ms.or options.max_age_ms) = .ok []
  proof : (verifyProofPresence P claim record claim.record_hash options.require_log_inclusion
    options.log_public_key).2 = []
  body : (verifyBody P claim record options.require_body options.require_body_commitment).2 = []

theorem ofList_eq_nil {α : Type} [DecidableEq α] {xs : List α} :
    InsertionSet.ofList xs = [] ↔ xs = [] := by
  constructor
  · intro h
    refine List.eq_nil_iff_forall_not_mem.2 fun x hx => ?_
    have hmem := InsertionSet.mem_ofList.2 hx
    rw [h] at hmem
    cases hmem
  · rintro rfl
    rfl

theorem ite_nil_iff {c : Prop} [Decidable c] {reason : HandoffRejectionReason} :
    (if c then [] else [reason]) = [] ↔ c := by
  split
  · next h => simp [h]
  · next h => simp [h]

/-- A claim that is accepted has passed every check. -/
theorem passes_of_accepted {result : HandoffClaimVerification}
    (hresult : verifyOneClaim P claim options = .ok result) (haccepted : result.accepted = true) :
    ∃ record, ClaimPasses P claim options record ∧ result.record = some record := by
  unfold verifyOneClaim at hresult
  dsimp only at hresult
  cases hrecord : claim.record with
  | none =>
      rw [hrecord] at hresult
      cases hresult
      cases haccepted
  | some record =>
      rw [hrecord] at hresult
      dsimp only at hresult
      cases hhash : recordHash P record with
      | error e =>
          rw [hhash] at hresult
          cases hresult
      | ok computed =>
      cases hverify : P.verifyRecord record with
      | error e =>
          rw [hhash, hverify] at hresult
          cases hresult
      | ok verification =>
      cases hstale : verifyFreshness P record (options.now_ms.getD P.now)
          (claim.max_age_ms.or options.max_age_ms) with
      | error e =>
          rw [hhash, hverify, hstale] at hresult
          cases hresult
      | ok stale =>
      rw [hhash, hverify, hstale] at hresult
      cases hresult
      have hnil := ofList_eq_nil.1 (List.isEmpty_iff.1 haccepted)
      simp only [List.append_eq_nil_iff] at hnil
      obtain ⟨⟨⟨⟨⟨⟨⟨hcomputed, hsignature⟩, hvalid⟩, hsigner⟩, hcontext⟩, rfl⟩, hproof⟩, hbody⟩ :=
        hnil
      have hcomputed : computed = claim.record_hash := by
        by_contra hne
        rw [if_pos hne] at hcomputed
        cases hcomputed
      subst hcomputed
      exact ⟨record, ⟨hrecord, hhash,
        ⟨verification, hverify, ite_nil_iff.1 hsignature, ite_nil_iff.1 hvalid⟩, hsigner,
        hcontext, hstale, hproof, hbody⟩, rfl⟩

/-- A claim is accepted exactly if it passes every check. -/
theorem accepted_iff : (∃ verification, verifyOneClaim P claim options = .ok verification ∧
    verification.accepted = true) ↔ ∃ record, ClaimPasses P claim options record := by
  constructor
  · rintro ⟨result, hresult, haccepted⟩
    obtain ⟨record, hpasses, -⟩ := passes_of_accepted hresult haccepted
    exact ⟨record, hpasses⟩
  · rintro ⟨record, h⟩
    obtain ⟨verification, hverify, hsignature, hvalid⟩ := h.verified
    unfold verifyOneClaim
    rw [h.supplied]
    dsimp only
    rw [h.hash, hverify, h.fresh]
    refine ⟨_, rfl, ?_⟩
    refine List.isEmpty_iff.2 (ofList_eq_nil.2 ?_)
    rw [h.signer, h.context, h.proof, h.body, hsignature, hvalid]
    simp

/-! ## Material and commitments -/

/-- The record has the commitment, and the material hashes to it. -/
def CommitsTo (P : HandoffPlatform) (record material : JsValue) (hash salt : String) : Prop :=
  hasMaterial (record.member hash) = true ∧
    (((hashMaterial P material (record.member salt)).map JsValue.string).getD .null).strictEq
      (record.member hash) = true

namespace HandoffClaimInput

/-- `null` is passed over in favour of the body. -/
def CarriesArgs (claim : HandoffClaimInput) : Prop := claim.args.isNullish = false

def CarriesBody (claim : HandoffClaimInput) : Prop := hasMaterial claim.body = true

def CarriesResult (claim : HandoffClaimInput) : Prop := hasMaterial claim.result = true

/-- The claim carries material, and each piece hashes to a commitment of the record. -/
structure Bound (P : HandoffPlatform) (claim : HandoffClaimInput) (record : JsValue) : Prop where
  carries : claim.CarriesArgs ∨ claim.CarriesBody ∨ claim.CarriesResult
  args : claim.CarriesArgs → CommitsTo P record claim.args "args_hash" "args_salt"
  body : claim.CarriesBody → CommitsTo P record claim.body "args_hash" "args_salt"
  result : claim.CarriesResult → CommitsTo P record claim.result "result_hash" "result_salt"

/-- The record commits to every slot the claim fills, and a body next to arguments is what the
record commits to as well. -/
structure Covered (P : HandoffPlatform) (claim : HandoffClaimInput) (record : JsValue) : Prop where
  args : claim.CarriesArgs ∨ claim.CarriesBody → hasMaterial (record.member "args_hash") = true
  result : claim.CarriesResult → hasMaterial (record.member "result_hash") = true
  shadowed : claim.CarriesArgs → claim.CarriesBody →
    CommitsTo P record claim.body "args_hash" "args_salt"

/-- The arguments stand before the body. -/
theorem orElse_args (h : claim.CarriesArgs) : claim.args.orElse claim.body = claim.args := by
  rw [CarriesArgs] at h
  cases hargs : claim.args with
  | undefined =>
      rw [hargs] at h
      cases h
  | null =>
      rw [hargs] at h
      cases h
  | _ => rfl

theorem orElse_body (h : ¬ claim.CarriesArgs) : claim.args.orElse claim.body = claim.body := by
  rw [CarriesArgs] at h
  cases hargs : claim.args with
  | undefined => rfl
  | null => rfl
  | _ =>
      rw [hargs] at h
      exact absurd rfl h

theorem hasMaterial_of_carriesArgs (h : claim.CarriesArgs) : hasMaterial claim.args = true := by
  rw [CarriesArgs] at h
  cases hargs : claim.args with
  | undefined =>
      rw [hargs] at h
      cases h
  | _ => rfl

/-- What the body check asks of the first slot. -/
theorem hasMaterial_orElse : hasMaterial (claim.args.orElse claim.body) = true ↔
    claim.CarriesArgs ∨ claim.CarriesBody := by
  by_cases h : claim.CarriesArgs
  · rw [orElse_args h]
    exact ⟨fun _ => .inl h, fun _ => hasMaterial_of_carriesArgs h⟩
  · rw [orElse_body h]
    exact ⟨.inr, fun hcarries => hcarries.resolve_left h⟩

end HandoffClaimInput

open HandoffClaimInput

variable {record : JsValue}

/-- A slot is rejected if it has material and a commitment that do not match. -/
theorem slot_eq_nil_iff {material : JsValue} {hash salt : String} :
    (if (if (hasMaterial (record.member hash) && hasMaterial material) = true then
        some ((((hashMaterial P material (record.member salt)).map JsValue.string).getD .null).strictEq
          (record.member hash))
      else none) = some false then [HandoffRejectionReason.bodyHashMismatch] else []) = [] ↔
      (hasMaterial (record.member hash) = true → hasMaterial material = true →
        CommitsTo P record material hash salt) := by
  constructor
  · intro h hhash hmaterial
    refine ⟨hhash, ?_⟩
    rw [if_pos (Bool.and_eq_true_iff.2 ⟨hhash, hmaterial⟩)] at h
    by_contra hne
    rw [Bool.not_eq_true] at hne
    rw [hne] at h
    cases h
  · intro h
    refine if_neg fun hfalse => ?_
    split at hfalse
    · next hboth =>
        obtain ⟨hhash, hmaterial⟩ := Bool.and_eq_true_iff.1 hboth
        rw [(h hhash hmaterial).2] at hfalse
        cases hfalse
    · cases hfalse

/-- What the body check asks for. -/
theorem verifyBody_eq_nil_iff {requireBody requireBodyCommitment : Bool} :
    (verifyBody P claim record requireBody requireBodyCommitment).2 = [] ↔
      (requireBody = true → claim.CarriesArgs ∨ claim.CarriesBody ∨ claim.CarriesResult) ∧
      (requireBodyCommitment = true → hasMaterial (record.member "args_hash") = true ∨
        hasMaterial (record.member "result_hash") = true) ∧
      (hasMaterial (record.member "args_hash") = true → claim.CarriesArgs ∨ claim.CarriesBody →
        CommitsTo P record (claim.args.orElse claim.body) "args_hash" "args_salt") ∧
      (hasMaterial (record.member "result_hash") = true → claim.CarriesResult →
        CommitsTo P record claim.result "result_hash" "result_salt") := by
  unfold verifyBody
  simp only [List.append_eq_nil_iff, slot_eq_nil_iff, hasMaterial_orElse]
  have hrequired : ∀ {required : Bool} {p q : Bool} {reason : HandoffRejectionReason},
      (if (required && !(p || q)) = true then [reason] else []) = [] ↔
        (required = true → p = true ∨ q = true) := by
    intro required p q reason
    cases required <;> cases p <;> cases q <;> simp
  rw [hrequired, hrequired, and_assoc, and_assoc]
  refine and_congr (imp_congr_right fun _ => ?_) Iff.rfl
  rw [hasMaterial_orElse, or_assoc]
  rfl

/-- A claim that passes is bound exactly if the record covers what it carries. -/
theorem ClaimPasses.bound_iff (h : ClaimPasses P claim options record)
    (hrequire : options.require_body = true) : claim.Bound P record ↔ claim.Covered P record := by
  obtain ⟨hcarries, -, hargs, hresult⟩ := verifyBody_eq_nil_iff.1 h.body
  constructor
  · intro hbound
    refine ⟨?_, fun hc => (hbound.result hc).1, fun _ hc => hbound.body hc⟩
    rintro (hc | hc)
    · exact (hbound.args hc).1
    · exact (hbound.body hc).1
  · intro hcovered
    refine ⟨hcarries hrequire, fun hc => ?_, fun hc => ?_, fun hc => hresult (hcovered.result hc) hc⟩
    · have hcommits := hargs (hcovered.args (.inl hc)) (.inl hc)
      rwa [orElse_args hc] at hcommits
    · by_cases hfirst : claim.CarriesArgs
      · exact hcovered.shadowed hfirst hc
      · have hcommits := hargs (hcovered.args (.inr hc)) (.inr hc)
        rwa [orElse_body hfirst] at hcommits

/-- A claim of the list is among the accepted ones of the result. -/
def AcceptedIn (P : HandoffPlatform) (claims : List HandoffClaimInput)
    (options : VerifyHandoffClaimsOptions) (result : HandoffVerificationResult)
    (claim : HandoffClaimInput) : Prop :=
  claim ∈ claims ∧ ∃ verification ∈ result.accepted,
    verifyOneClaim P claim options = .ok verification

/-- What a list of computations returns, one of them has returned. -/
theorem exists_of_mem_mapM {α β : Type} {f : α → Except String β} {y : β} {xs : List α} :
    ∀ {ys : List β}, xs.mapM f = .ok ys → y ∈ ys → ∃ x ∈ xs, f x = .ok y := by
  induction xs with
  | nil =>
      rintro ys ⟨⟩ hy
      cases hy
  | cons x xs ih =>
      intro ys hys hy
      rw [List.mapM_cons] at hys
      cases hx : f x with
      | error e =>
          rw [hx] at hys
          cases hys
      | ok first =>
          cases hxs : xs.mapM f with
          | error e =>
              rw [hx, hxs] at hys
              cases hys
          | ok rest =>
              rw [hx, hxs] at hys
              cases hys
              rcases List.mem_cons.1 hy with rfl | hy
              · exact ⟨x, List.mem_cons_self, hx⟩
              · obtain ⟨x', hx', hfx⟩ := ih hxs hy
                exact ⟨x', List.mem_cons_of_mem _ hx', hfx⟩

/-- An accepted verification is that of a claim that was accepted. -/
theorem exists_of_mem_accepted {claims : List HandoffClaimInput}
    {result : HandoffVerificationResult} {verification : HandoffClaimVerification}
    (hresult : verifyHandoffClaims P claims options = .ok result)
    (h : verification ∈ result.accepted) :
    ∃ claim ∈ claims, verifyOneClaim P claim options = .ok verification ∧
      verification.accepted = true := by
  unfold verifyHandoffClaims at hresult
  cases hchecked : claims.mapM fun claim => verifyOneClaim P claim options with
  | error e =>
      rw [hchecked] at hresult
      cases hresult
  | ok checked =>
      rw [hchecked] at hresult
      cases hresult
      obtain ⟨hmem, haccepted⟩ := List.mem_filter.1 h
      obtain ⟨claim, hclaim, heq⟩ := exists_of_mem_mapM hchecked hmem
      exact ⟨claim, hclaim, heq, haccepted⟩

/-- A claim that passes is accepted in a list of its own. -/
theorem accepted_singleton {record : JsValue} (h : ClaimPasses P claim options record) :
    ∃ result verification, verifyHandoffClaims P [claim] options = .ok result ∧
      verifyOneClaim P claim options = .ok verification ∧ verification ∈ result.accepted := by
  obtain ⟨verification, hverification, haccepted⟩ := accepted_iff.2 ⟨record, h⟩
  have hchecked : [claim].mapM (fun claim => verifyOneClaim P claim options) =
      .ok [verification] := by
    rw [List.mapM_cons, hverification]
    rfl
  refine ⟨_, verification, by unfold verifyHandoffClaims; rw [hchecked]; rfl, hverification, ?_⟩
  exact List.mem_filter.2 ⟨List.mem_singleton_self _, haccepted⟩

theorem AcceptedIn.passes {claims : List HandoffClaimInput} {result : HandoffVerificationResult}
    (hresult : verifyHandoffClaims P claims options = .ok result)
    (h : AcceptedIn P claims options result claim) :
    ∃ record, ClaimPasses P claim options record :=
  let ⟨verification, hmem, hclaim⟩ := h.2
  let ⟨_, _, _, haccepted⟩ := exists_of_mem_accepted hresult hmem
  accepted_iff.1 ⟨verification, hclaim, haccepted⟩

/-- A record is fresh if its age is between nothing and the bound. -/
theorem verifyFreshness_eq_nil_iff {t now : ℚ} {maxAgeMs : Option JsNumber}
    (ht : record.member "timestamp" = .number (.finite t)) :
    verifyFreshness P record now maxAgeMs = .ok [] ↔
      ∀ max, maxAgeMs = some max → 0 ≤ now - t ∧ max.lt (.finite (now - t)) = false := by
  have hage : ageMs P now record = .ok (.finite (now - t)) := by
    rw [ageMs, ht]
    rfl
  cases maxAgeMs with
  | none => exact ⟨fun _ _ h => (nomatch h), fun _ => rfl⟩
  | some max =>
      rw [verifyFreshness, hage]
      show Except.ok (if (decide (now - t < 0) || max.lt (.finite (now - t))) = true then _ else _) =
        Except.ok [] ↔ _
      rw [Except.ok.injEq]
      constructor
      · rintro h _ ⟨⟩
        by_cases hstale : (decide (now - t < 0) || max.lt (.finite (now - t))) = true
        · rw [if_pos hstale] at h
          cases h
        · rw [Bool.not_eq_true, Bool.or_eq_false_iff, decide_eq_false_iff_not, not_lt] at hstale
          exact hstale
      · intro h
        obtain ⟨hzero, hmax⟩ := h max rfl
        rw [hmax, Bool.or_false, if_neg (by rwa [decide_eq_true_iff, not_lt])]

/-! ### A result nobody has signed -/

namespace HandoffSample

def signature : String :=
  "yjvFMy9m2ADEcHy2HRqxR_R5VhMH9TXshr-MHzFc5nTe6WYUS4XRkqGPIywKyww9i56frd3bWcnl550wlXUOAQ"

def signedHash : String :=
  "sha256:20b43e6aecffc2924bc8ac513b042585c524cd1a882dcfea1a83303502380e1c"

def creatorKey : String := "iojj3XQJ8ZX9UtstPLpdcspnCb8dlBIb83SIAbQPb1w"

/-- An observation that commits to its arguments. -/
def signedRecord : JsValue := .object
  [("args_hash", .string "sha256:fcd9c7876b1a8cdefab8553ff84d46966651b20643d3686ec2ec53712fd2cf16"),
    ("chain_root",
      .string "sha256:0000000000000000000000000000000000000000000000000000000000000000"),
    ("context_id", .string "00000000000000000000000000000001"), ("creator_key", .string creatorKey),
    ("event_type", .string "https://atrib.dev/v1/types/observation"),
    ("signature", .string signature), ("spec_version", .string "atrib/1.0"),
    ("timestamp", .number (.finite (1767225600000 : ℤ)))]

def scalarText : JsValue → List Char
  | .string text => jsonQuote text
  | .number (.finite q) => (toString q.num).toList
  | _ => "null".toList

/-- JCS of texts, of whole numbers, and of an object of such whose members are sorted. -/
def canonicalText : JsValue → List Char
  | .object members =>
      "\x7b".toList ++ ",".toList.intercalate (members.map fun member =>
        jsonQuote member.1 ++ ":".toList ++ scalarText member.2) ++ "\x7d".toList
  | value => scalarText value

/-- Where the one good signature is that of `signedRecord`. -/
def platform : HandoffPlatform where
  hash := Hash.fips180
  text := ⟨fun _ => "", fun _ => .nan, fun _ => none⟩
  canonicalize value := .ok (some (String.ofList (canonicalText value)))
  base64urlDecodeOther _ := none
  verifyRecord value :=
    if (value.member "signature").string? = some signature ∧
        (value.member "timestamp").number? = some (.finite (1767225600000 : ℤ)) then
      .ok ⟨true, true, []⟩
    else .ok ⟨false, false, []⟩
  verifyProofBundle _ _ _ _ := ⟨true, some false, none, none⟩
  now := 1767225600000
  timestamp_of_signatureOk := by
    intro value verification hverify hok
    split at hverify
    · next h =>
        refine ⟨1767225600000, ?_⟩
        cases hvalue : value.member "timestamp" with
        | number x =>
            have hx := h.2
            rw [hvalue] at hx
            exact congrArg JsValue.number (Option.some.inj hx)
        | _ =>
            have hx := h.2
            rw [hvalue] at hx
            cases hx
    · cases hverify
      cases hok

/-- The charge of the record, with a result of which nothing is signed. -/
def chargeWith (result : JsValue) : HandoffClaimInput :=
  { record_hash := signedHash
    record := some signedRecord
    args := .string "charge 10"
    result }

def strictOptions : VerifyHandoffClaimsOptions :=
  { trusted_creator_keys := some [creatorKey]
    require_body := true
    require_body_commitment := true
    max_age_ms := some (.finite 60000) }

theorem recordHash_signedRecord : recordHash platform signedRecord = .ok signedHash := by
  have hdigest : sha256Ref (Hash.fips180.sha256 (utf8 (String.ofList
      (canonicalText signedRecord)))) = signedHash := by
    rw [utf8_ofList]
    decide +kernel
  exact congrArg Except.ok hdigest

theorem argsHash_eq : hashMaterial platform (.string "charge 10") .undefined =
    (signedRecord.member "args_hash").string? := by
  have hdigest : sha256Ref (Hash.fips180.sha256 (utf8 (String.ofList
      (canonicalText (.string "charge 10"))))) =
      "sha256:fcd9c7876b1a8cdefab8553ff84d46966651b20643d3686ec2ec53712fd2cf16" := by
    rw [utf8_ofList]
    decide +kernel
  exact congrArg some hdigest

theorem commits_signedRecord :
    CommitsTo platform signedRecord (.string "charge 10") "args_hash" "args_salt" := by
  refine ⟨rfl, ?_⟩
  show (((hashMaterial platform (.string "charge 10") .undefined).map JsValue.string).getD
    .null).strictEq _ = true
  rw [argsHash_eq]
  decide +kernel

theorem passes_chargeWith (result : JsValue) :
    ClaimPasses platform (chargeWith result) strictOptions signedRecord where
  supplied := rfl
  hash := recordHash_signedRecord
  verified := ⟨⟨true, true, []⟩, rfl, rfl, rfl⟩
  signer := by
    show (verifyTrustedSigner signedRecord (some [creatorKey])).2 = []
    decide +kernel
  context := rfl
  fresh := (verifyFreshness_eq_nil_iff rfl).2 fun max hmax => by
    cases hmax
    decide +kernel
  proof := rfl
  body := verifyBody_eq_nil_iff.2
    ⟨fun _ => .inl rfl, fun _ => .inl rfl, fun _ _ => commits_signedRecord, fun h => nomatch h⟩

/-- The claim is accepted, whatever result it carries. -/
theorem accepted_chargeWith (result : JsValue) : ∃ verified,
    verifyHandoffClaims platform [chargeWith result] strictOptions = .ok verified ∧
      AcceptedIn platform [chargeWith result] strictOptions verified (chargeWith result) := by
  obtain ⟨verified, verification, hverified, hverification, hmem⟩ :=
    accepted_singleton (passes_chargeWith result)
  exact ⟨verified, hverified, List.mem_singleton_self _, verification, hmem, hverification⟩

end HandoffSample

end Atrib.Verify
