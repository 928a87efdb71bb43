import Atrib.Mcp.Receipt
import Atrib.Proofs.ContextRoundTrip

/-!
# Receipts that verify

A block is checked as it comes, but a record that comes with it is written in
canonical form and its key decoded before anything is known of it, and either
can throw. A receipt that was built of a verified record repeats the key as the
record spells it, while the check spells it as the token does. What a valid
block says of its record is what the record says of itself.
-/

namespace Atrib.Middleware.Receipt

open Lib (JsValue JsNumber bind_ok)
open LocalSubstrate (isObject)
open Outbound (encodeToken base64urlDecode)
open Verify (lastGroupFits base64urlEncode_of_decode)

variable {P : Platform}

/-! ## Fields that disagree -/

theorem push_eq_nil {differs : Bool} {field : String} {mismatched : List String} :
    push differs field mismatched = [] ↔ mismatched = [] ∧ differs = false := by
  cases differs <;> simp [push]

theorem pushNew_eq_nil {differs : Bool} {field : String} {mismatched : List String} :
    pushNew differs field mismatched = [] ↔ mismatched = [] ∧ differs = false := by
  rw [pushNew, push_eq_nil]
  constructor
  · rintro ⟨rfl, hdiffers⟩
    exact ⟨rfl, by simpa using hdiffers⟩
  · rintro ⟨rfl, rfl⟩
    exact ⟨rfl, rfl⟩

theorem strictEq_string {value : JsValue} {text : String} :
    value.strictEq (.string text) = true ↔ value = .string text := by
  cases value <;> simp [JsValue.strictEq]

/-- Nothing of the receipt disagrees with the token. -/
theorem checkToken_eq_nil {receipt : JsValue} {decoded : DecodedToken} :
    checkToken receipt decoded = [] ↔
      receipt.member "record_hash" = .string (sha256Ref decoded.recordHash) ∧
        receipt.member "creator_key" = .string (base64urlEncode decoded.creatorKey) ∧
        (receipt.member "log_submission").string?.any LOG_SUBMISSION_STATUS_SET.contains =
          true := by
  simp only [checkToken, push_eq_nil, Bool.not_eq_false', strictEq_string, true_and, and_assoc]

/-! ## What the check of a record needs -/

/-- The record has a canonical form, and its key can be decoded. -/
def Recomputable (P : Platform) (record : JsValue) : Prop :=
  (∃ bytes, canonicalBytes P record = .ok bytes) ∧
    ∃ key, base64urlDecode P (record.member "creator_key") = .ok key

/-- The block says of the record what is computed of it. -/
structure Recomputed (P : Platform) (block record : JsValue) (bytes : Bytes) (token : String) :
    Prop where
  canonical : canonicalBytes P record = .ok bytes
  encoded : encodeToken P record = .ok token
  token_eq : block.member "token" = .string token
  record_hash : (block.member "receipt").member "record_hash" =
    .string (sha256Ref (P.hash.sha256 bytes))
  same : ∀ field ∈ ["creator_key", "context_id", "chain_root"],
    ((block.member "receipt").member field).strictEq (record.member field) = true

theorem encodeToken_eq_ok {record : JsValue} :
    (∃ token, encodeToken P record = .ok token) ↔ Recomputable P record := by
  cases hbytes : canonicalBytes P record with
  | error e => simp [Recomputable, encodeToken, hbytes, bind, Except.bind]
  | ok bytes =>
      cases hkey : base64urlDecode P (record.member "creator_key") with
      | error e => simp [Recomputable, encodeToken, hbytes, hkey, bind, Except.bind]
      | ok key =>
          simp [Recomputable, encodeToken, hbytes, hkey, bind, Except.bind, pure, Except.pure]

theorem checkRecord_ok {block receipt record : JsValue} {mismatched : List String} :
    (∃ found, checkRecord P block receipt record mismatched = .ok found) ↔
      Recomputable P record := by
  rw [← encodeToken_eq_ok]
  constructor
  · rintro ⟨found, h⟩
    obtain ⟨bytes, -, h⟩ := bind_ok h
    obtain ⟨token, htoken, -⟩ := bind_ok h
    exact ⟨token, htoken⟩
  · rintro ⟨token, htoken⟩
    obtain ⟨bytes, hbytes, -⟩ := bind_ok htoken
    simp only [checkRecord, hbytes, htoken, bind, Except.bind]
    exact ⟨_, rfl⟩

theorem checkRecord_eq_nil {block record : JsValue} {mismatched : List String} :
    checkRecord P block (block.member "receipt") record mismatched = .ok [] ↔
      mismatched = [] ∧ ∃ bytes token, Recomputed P block record bytes token := by
  constructor
  · intro h
    obtain ⟨bytes, hbytes, h⟩ := bind_ok h
    obtain ⟨token, htoken, h⟩ := bind_ok h
    have hnil := Except.ok.inj h
    simp only [push_eq_nil, pushNew_eq_nil, Bool.not_eq_false', strictEq_string, and_assoc] at hnil
    obtain ⟨hmismatched, htokenEq, hhash, hkey, hcontext, hroot⟩ := hnil
    exact ⟨hmismatched, bytes, token, hbytes, htoken, htokenEq, hhash,
      by simp [hkey, hcontext, hroot]⟩
  · rintro ⟨rfl, bytes, token, h⟩
    simp only [checkRecord, h.canonical, h.encoded, bind, Except.bind]
    refine congrArg Except.ok ?_
    simp only [push_eq_nil, pushNew_eq_nil, Bool.not_eq_false', strictEq_string, and_assoc,
      true_and]
    exact ⟨h.token_eq, h.record_hash, h.same _ (by simp), h.same _ (by simp), h.same _ (by simp)⟩

/-! ## The check of a block -/

/-- If the check comes to a record, the record can be recomputed. -/
def Answerable (P : Platform) (block : JsValue) : Prop :=
  isStructurallyReceiptBlock block = true →
    ((block.member "token").string?.bind decodeToken).isSome = true →
      block.member "record" ≠ .undefined → Recomputable P (block.member "record")

/-- The check finds nothing that disagrees. -/
def Valid (P : Platform) (block : JsValue) : Prop :=
  ∃ mismatched, verifyAttributionReceipt P block = .ok ⟨true, mismatched⟩

/-- A record that comes with a block is an object. -/
theorem truthy_record {block : JsValue} (h : isStructurallyReceiptBlock block = true) :
    (block.member "record").truthy = true ↔ block.member "record" ≠ .undefined := by
  simp only [isStructurallyReceiptBlock, Bool.and_eq_true, Bool.or_eq_true] at h
  have hrecord := h.2
  cases hvalue : block.member "record" with
  | undefined => simp [JsValue.truthy]
  | object members => simp [JsValue.truthy]
  | _ =>
      rw [hvalue] at hrecord
      simp [isObject] at hrecord

theorem verify_malformed {block : JsValue} (h : isStructurallyReceiptBlock block = false) :
    verifyAttributionReceipt P block = .ok ⟨false, ["malformed"]⟩ := by
  simp only [verifyAttributionReceipt, h]
  rfl

theorem verify_token {block : JsValue} (h : isStructurallyReceiptBlock block = true)
    (htoken : (block.member "token").string?.bind decodeToken = none) :
    verifyAttributionReceipt P block = .ok ⟨false, ["token"]⟩ := by
  simp only [verifyAttributionReceipt, h, htoken]
  rfl

theorem verify_alone {block : JsValue} (h : isStructurallyReceiptBlock block = true)
    {decoded : DecodedToken}
    (htoken : (block.member "token").string?.bind decodeToken = some decoded)
    (hrecord : block.member "record" = .undefined) :
    verifyAttributionReceipt P block =
      .ok ⟨(checkToken (block.member "receipt") decoded).isEmpty,
        checkToken (block.member "receipt") decoded⟩ := by
  simp only [verifyAttributionReceipt, h, htoken, hrecord]
  rfl

theorem verify_record {block : JsValue} (h : isStructurallyReceiptBlock block = true)
    {decoded : DecodedToken}
    (htoken : (block.member "token").string?.bind decodeToken = some decoded)
    (hrecord : block.member "record" ≠ .undefined) :
    verifyAttributionReceipt P block =
      (checkRecord P block (block.member "receipt") (block.member "record")
        (checkToken (block.member "receipt") decoded)).map fun mismatched =>
          ⟨mismatched.isEmpty, mismatched⟩ := by
  simp only [verifyAttributionReceipt, h, htoken, (truthy_record h).2 hrecord]
  cases checkRecord P block (block.member "receipt") (block.member "record")
    (checkToken (block.member "receipt") decoded) <;> rfl

theorem verify_ok_iff (block : JsValue) :
    (∃ verdict, verifyAttributionReceipt P block = .ok verdict) ↔ Answerable P block := by
  cases hblock : isStructurallyReceiptBlock block with
  | false => simp [verify_malformed hblock, Answerable, hblock]
  | true =>
      cases htoken : (block.member "token").string?.bind decodeToken with
      | none => simp [verify_token hblock htoken, Answerable, hblock, htoken]
      | some decoded =>
          by_cases hrecord : block.member "record" = .undefined
          · simp [verify_alone hblock htoken hrecord, Answerable, hrecord]
          · rw [verify_record hblock htoken hrecord]
            simp only [Answerable, hblock, htoken, Option.isSome_some, ne_eq, hrecord,
              not_false_eq_true, forall_const]
            rw [← @checkRecord_ok P block (block.member "receipt") _
              (checkToken (block.member "receipt") decoded)]
            cases checkRecord P block (block.member "receipt") (block.member "record")
              (checkToken (block.member "receipt") decoded) <;> simp [Except.map]

/-- The parts of a block that is valid. -/
structure Consistent (P : Platform) (block : JsValue) (decoded : DecodedToken) : Prop where
  wellFormed : isStructurallyReceiptBlock block = true
  decodes : (block.member "token").string?.bind decodeToken = some decoded
  agrees : checkToken (block.member "receipt") decoded = []
  recomputed : block.member "record" ≠ .undefined →
    ∃ bytes token, Recomputed P block (block.member "record") bytes token

theorem valid_iff (block : JsValue) :
    Valid P block ↔ ∃ decoded, Consistent P block decoded := by
  cases hblock : isStructurallyReceiptBlock block with
  | false =>
      refine ⟨fun ⟨_, h⟩ => ?_, fun ⟨_, h⟩ => ?_⟩
      · rw [verify_malformed hblock] at h
        cases h
      · exact absurd (hblock.symm.trans h.wellFormed) Bool.false_ne_true
  | true =>
      cases htoken : (block.member "token").string?.bind decodeToken with
      | none =>
          refine ⟨fun ⟨_, h⟩ => ?_, fun ⟨_, h⟩ => ?_⟩
          · rw [verify_token hblock htoken] at h
            cases h
          · exact absurd (htoken.symm.trans h.decodes) (by simp)
      | some decoded =>
          have hconsistent : (∃ found, Consistent P block found) ↔ Consistent P block decoded := by
            refine ⟨fun ⟨found, h⟩ => ?_, fun h => ⟨decoded, h⟩⟩
            obtain rfl := Option.some.inj (h.decodes.symm.trans htoken)
            exact h
          rw [hconsistent]
          by_cases hrecord : block.member "record" = .undefined
          · rw [Valid, verify_alone hblock htoken hrecord]
            refine ⟨fun ⟨_, h⟩ => ⟨hblock, htoken, ?_, fun hne => absurd hrecord hne⟩, fun h => ?_⟩
            · exact List.isEmpty_iff.1 (congrArg AttributionReceiptVerification.valid
                (Except.ok.inj h))
            · rw [h.agrees]
              exact ⟨[], rfl⟩
          · rw [Valid, verify_record hblock htoken hrecord]
            refine ⟨fun ⟨mismatched, h⟩ => ?_, fun h => ?_⟩
            · cases hcheck : checkRecord P block (block.member "receipt") (block.member "record")
                (checkToken (block.member "receipt") decoded) with
              | error e =>
                  rw [hcheck] at h
                  cases h
              | ok found =>
                  rw [hcheck] at h
                  obtain rfl : found = [] := List.isEmpty_iff.1
                    (congrArg AttributionReceiptVerification.valid (Except.ok.inj h))
                  obtain ⟨hagrees, hrecomputed⟩ := checkRecord_eq_nil.1 hcheck
                  exact ⟨hblock, htoken, hagrees, fun _ => hrecomputed⟩
            · have hnil := checkRecord_eq_nil.2 ⟨h.agrees, h.recomputed hrecord⟩
              rw [hnil]
              exact ⟨[], rfl⟩

/-! ## Receipts of verified records -/

/-- The record spells its key as a token does, and has a chain root to repeat. -/
def Repeatable (record : JsValue) : Prop :=
  lastGroupFits (LogNode.keyOf record).toList = true ∧
    (record.member "chain_root").string?.isSome = true

theorem isObject_of_member {record : JsValue} {key text : String}
    (h : record.member key = .string text) : isObject record = true := by
  cases record with
  | object members => rfl
  | array items =>
      simp only [JsValue.member, JsValue.get, Except.toOption, Option.getD_some] at h
      split at h <;> cases h
  | _ => cases h

/-- What `verifyRecord` has seen of the members that a receipt repeats. -/
theorem texts_of_verifyRecord {record : JsValue} {nowMs : JsNumber}
    (h : verifyRecord P record nowMs = true) :
    ∃ key keyBytes context uri, record.member "creator_key" = .string key ∧
      Verify.base64urlDecode key = some keyBytes ∧ keyBytes.length = 32 ∧
      record.member "context_id" = .string context ∧ record.member "event_type" = .string uri := by
  obtain ⟨keyBytes, hkeyBytes, hlength⟩ :=
    LogNode.decodeText_of_verifySignature (LogNode.verifySignature_of_verifyRecord h)
  simp only [verifyRecord, Bool.and_eq_true] at h
  obtain ⟨⟨⟨⟨-, -⟩, huri⟩, -⟩, hcontext⟩ := h
  obtain ⟨uri, huri⟩ := LogNode.uri_of_isValidEventTypeUri huri
  obtain ⟨context, hcontext, -⟩ := Option.any_eq_true _ _ |>.1 hcontext
  obtain ⟨key, hkey, hdecode⟩ := string_of_decodeText hkeyBytes hlength
  exact ⟨key, keyBytes, context, uri, hkey, hdecode, hlength,
    JsValue.eq_string_of_string? hcontext, huri⟩

/-- The parts of a block that is built of a record. -/
structure Built (P : Platform) (record : JsValue) (options : BuildAttributionReceiptOptions)
    (bytes : Bytes) (token : String) (block : JsValue) : Prop where
  object : isObject block = true
  token_eq : block.member "token" = .string token
  receipt : isObject (block.member "receipt") = true
  record_hash : (block.member "receipt").member "record_hash" =
    .string (sha256Ref (P.hash.sha256 bytes))
  same : ∀ field ∈ ["creator_key", "context_id", "chain_root"],
    (block.member "receipt").member field = record.member field
  event_type : (record.member "event_type").string?.isSome = true →
    ((block.member "receipt").member "event_type").string?.isSome = true
  log_submission : (block.member "receipt").member "log_submission" =
    .string (options.logSubmission.getD .queued).toText
  record_eq : block.member "record" = if options.includeRecord then record else .undefined

theorem exists_built {record : JsValue} {bytes : Bytes} {token : String}
    (hbytes : canonicalBytes P record = .ok bytes) (htoken : encodeToken P record = .ok token)
    (options : BuildAttributionReceiptOptions) :
    ∃ block, buildAttributionReceipt P record options = .ok block ∧
      Built P record options bytes token block := by
  simp only [buildAttributionReceipt, hbytes, htoken, bind, Except.bind]
  refine ⟨_, rfl, rfl, rfl, rfl, rfl, ?_, ?_, rfl, ?_⟩
  · intro field hfield
    simp only [List.mem_cons, List.not_mem_nil, or_false] at hfield
    rcases hfield with rfl | rfl | rfl
    · rfl
    · rfl
    · rfl
  · intro htext
    show (JsValue.string? (Option.getD _ (record.member "event_type"))).isSome = true
    cases (EVENT_TYPE_SHORT_TO_URI.find? fun entry =>
      (JsValue.string entry.2).strictEq (record.member "event_type")).map Prod.fst with
    | none => exact htext
    | some shortName => rfl
  · cases options.includeRecord <;> rfl

/-- The block of a verified record is valid just when the record is one to repeat. -/
theorem valid_built_iff {record : JsValue} {nowMs : JsNumber}
    (hverified : verifyRecord P record nowMs = true) {bytes : Bytes}
    (hbytes : canonicalBytes P record = .ok bytes) (options : BuildAttributionReceiptOptions) :
    ∃ block, buildAttributionReceipt P record options = .ok block ∧
      (Valid P block ↔ Repeatable record) := by
  obtain ⟨key, keyBytes, context, uri, hkey, hdecode, hlength, hcontext, huri⟩ :=
    texts_of_verifyRecord hverified
  have htoken : encodeToken P record = .ok (tokenOf (P.hash.sha256 bytes) keyBytes) := by
    refine encodeToken_eq hbytes ?_ hlength
    rw [hkey, decodeText, hdecode]
    rfl
  obtain ⟨block, hbuild, hbuilt⟩ := exists_built hbytes htoken options
  refine ⟨block, hbuild, ?_⟩
  have hkeySame : (block.member "receipt").member "creator_key" = .string key :=
    (hbuilt.same _ (by simp)).trans hkey
  have hcontextSame : (block.member "receipt").member "context_id" = .string context :=
    (hbuilt.same _ (by simp)).trans hcontext
  have hrootSame : (block.member "receipt").member "chain_root" = record.member "chain_root" :=
    hbuilt.same _ (by simp)
  have hrecord : block.member "record" = .undefined ∨ block.member "record" = record := by
    rw [hbuilt.record_eq]
    cases options.includeRecord
    · exact .inl rfl
    · exact .inr rfl
  have hform : isStructurallyReceiptBlock block = (record.member "chain_root").string?.isSome := by
    have heventType := hbuilt.event_type (by rw [huri]; rfl)
    have hobject : (decide (block.member "record" = .undefined) ||
        isObject (block.member "record")) = true := by
      rcases hrecord with h | h
      · simp [h]
      · simp [h, isObject_of_member hkey]
    have hstring : ∀ text, (JsValue.string text).string?.isSome = true := fun _ => rfl
    simp only [isStructurallyReceiptBlock, hbuilt.object, hbuilt.token_eq, hbuilt.receipt,
      receiptFields, List.all_cons, List.all_nil, hbuilt.record_hash, hkeySame, hcontextSame,
      hrootSame, heventType, hbuilt.log_submission, hobject, hstring, Bool.true_and,
      Bool.and_true]
  have hdecodes : (block.member "token").string?.bind decodeToken =
      some ⟨P.hash.sha256 bytes, keyBytes⟩ := by
    rw [hbuilt.token_eq]
    exact decodeToken_tokenOf (P.hash.length_sha256 bytes) hlength
  have hlog : (((block.member "receipt").member "log_submission").string?.any
      LOG_SUBMISSION_STATUS_SET.contains) = true := by
    rw [hbuilt.log_submission]
    cases options.logSubmission.getD .queued <;> rfl
  have hspelled :
      (block.member "receipt").member "creator_key" = .string (base64urlEncode keyBytes) ↔
        lastGroupFits (LogNode.keyOf record).toList = true := by
    rw [hkeySame, LogNode.keyOf, hkey, JsValue.string.injEq, eq_comm,
      base64urlEncode_of_decode hdecode]
    rfl
  rw [valid_iff, Repeatable]
  constructor
  · rintro ⟨decoded, h⟩
    obtain rfl := Option.some.inj (h.decodes.symm.trans hdecodes)
    obtain ⟨-, hkeyEq, -⟩ := checkToken_eq_nil.1 h.agrees
    exact ⟨hspelled.1 hkeyEq, hform ▸ h.wellFormed⟩
  · rintro ⟨hfits, hroot⟩
    obtain ⟨root, hroot⟩ := Option.isSome_iff_exists.1 hroot
    have hrootText := JsValue.eq_string_of_string? hroot
    refine ⟨_, hform.trans (by rw [hroot]; rfl), hdecodes,
      checkToken_eq_nil.2 ⟨hbuilt.record_hash, hspelled.2 hfits, hlog⟩, fun hne => ?_⟩
    rw [hrecord.resolve_left hne]
    refine ⟨bytes, _, hbytes, htoken, hbuilt.token_eq, hbuilt.record_hash, fun field hfield => ?_⟩
    rw [hbuilt.same field hfield]
    simp only [List.mem_cons, List.not_mem_nil, or_false] at hfield
    rcases hfield with rfl | rfl | rfl
    · rw [hkey, strictEq_string]
    · rw [hcontext, strictEq_string]
    · rw [hrootText, strictEq_string]

/-- The check answers unless it comes to a record that cannot be recomputed; a receipt of a
verified record is valid if the record spells its key like the token; and what is valid says of
its record what the record says. -/
theorem receipt_check (P : Platform) :
    (∀ block, (∃ verdict, verifyAttributionReceipt P block = .ok verdict) ↔ Answerable P block) ∧
    (∀ record nowMs bytes options, verifyRecord P record nowMs = true →
      canonicalBytes P record = .ok bytes →
        ∃ block, buildAttributionReceipt P record options = .ok block ∧
          (Valid P block ↔ Repeatable record)) ∧
    ∀ block, Valid P block → block.member "record" ≠ .undefined →
      ∃ bytes token, Recomputed P block (block.member "record") bytes token := by
  refine ⟨verify_ok_iff,
    fun _ _ _ options hverified hbytes => valid_built_iff hverified hbytes options,
    fun block hvalid hrecord => ?_⟩
  obtain ⟨decoded, h⟩ := (valid_iff block).1 hvalid
  exact h.recomputed hrecord

namespace BareSample

open LogNode (SpelledSample.platform SpelledSample.canonicalSpelling
  SpelledSample.accepted_canonicalSpelling)
open CarriedSample (recordBytes canonicalBytes_record)

/-- A block with a record that has no key. -/
def block (token : String) : JsValue := .object [
  ("token", .string token),
  ("receipt", .object [
    ("record_hash", .string ""), ("creator_key", .string ""), ("context_id", .string ""),
    ("event_type", .string "tool_call"), ("chain_root", .string ""),
    ("log_submission", .string "queued")]),
  ("record", .object [])]

/-- The token of a hash and a key that are both zero. -/
def zeroToken : String := tokenOf (List.replicate 32 0) (List.replicate 32 0)

theorem bare_record_throws :
    verifyAttributionReceipt SpelledSample.platform (block zeroToken) =
      .error "Cannot read properties of undefined (reading 'length')" := by
  have hdecode : decodeToken zeroToken = some ⟨List.replicate 32 0, List.replicate 32 0⟩ :=
    decodeToken_tokenOf (by simp) (by simp)
  generalize zeroToken = token at hdecode ⊢
  have hform : isStructurallyReceiptBlock (block token) = true := rfl
  rw [verify_record hform hdecode (by intro h; cases h)]
  rfl

theorem receipt_check_spelled :
    ∃ built, buildAttributionReceipt SpelledSample.platform SpelledSample.canonicalSpelling
        ⟨true, some .submitted⟩ = .ok built ∧ Valid SpelledSample.platform built := by
  obtain ⟨-, hcomplete, -⟩ := receipt_check SpelledSample.platform
  obtain ⟨built, hbuilt, hvalid⟩ := hcomplete _ _ _ ⟨true, some .submitted⟩
    SpelledSample.accepted_canonicalSpelling.verified canonicalBytes_record
  exact ⟨built, hbuilt, hvalid.2 ⟨by decide +kernel, by decide +kernel⟩⟩

end BareSample

end Atrib.Middleware.Receipt
