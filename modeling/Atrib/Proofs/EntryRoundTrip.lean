import Atrib.Lib.Effect
import Atrib.LogNode.Submission
import Atrib.Proofs.Spellings
import Atrib.Proofs.UnverifiedInfluence

/-!
# What a log entry says of a record

The fields of an entry have fixed widths and stand one after the other, so they
can be cut out of it again. Hex in lowercase and a timestamp below 2^64 read back
as they were. So does the event type, as its label. The key is written as
`base64urlEncode` writes it, and a record may have spelled it otherwise: the
validator asks for a text, and `verifyRecord` for one of 32 bytes.
-/

namespace Atrib.LogNode

open Lib (JsNumber JsValue NumberText bind_ok)
open Middleware (canonicalBytes isHex32 natural? verifyRecord verifySignature)
open Verify (base64urlDecode base64urlEncode_of_decode lastGroupFits)

/-! ## The fields of an entry -/

theorem getBigUint64_bigUint64 {n : ℕ} (h : n < 2 ^ 64) : getBigUint64 (bigUint64 n) = n := by
  have htop : 256 * 0 + n / 256 ^ 7 % 2 ^ 8 = n / 256 ^ 7 := by
    rw [Nat.mod_eq_of_lt] <;> omega
  have hstep : ∀ i, 256 * (n / 256 ^ (i + 1)) + n / 256 ^ i % 2 ^ 8 = n / 256 ^ i := fun i => by
    rw [pow_succ, ← Nat.div_div_eq_div_mul]
    exact Nat.div_add_mod _ 256
  simp only [getBigUint64, bigUint64, List.range, List.range.loop, List.map_cons, List.map_nil,
    List.foldl_cons, List.foldl_nil, UInt8.toNat_ofNat', Nat.reduceSub]
  rw [htop, hstep 6, hstep 5, hstep 4, hstep 3, hstep 2, hstep 1, hstep 0, pow_zero, Nat.div_one]

theorem length_bigUint64 (n : ℕ) : (bigUint64 n).length = 8 := rfl

/-- The entry, with each field after those before it. -/
theorem serializeEntry_fields (input : EntryInput) :
    let entry := serializeEntry input
    recordHashOf entry = input.recordHash ∧ (entry.drop 33).take 32 = input.creatorKey ∧
      (entry.drop 65).take 16 = input.contextId ∧
      (entry.drop 81).take 8 = bigUint64 input.timestamp ∧
      entry.getD 89 0 = eventTypeUriToByte input.eventType := by
  have hhash := input.length_recordHash
  have hkey := input.length_creatorKey
  have hcontext := input.length_contextId
  have hdrop : ∀ {n : ℕ} (before after : Bytes), before.length = n →
      (before ++ after).drop n = after := fun before after h => List.drop_left' h
  have h33 : (serializeEntry input).drop 33 = input.creatorKey ++ (input.contextId ++
      (bigUint64 input.timestamp ++ [eventTypeUriToByte input.eventType])) :=
    hdrop (ENTRY_VERSION :: input.recordHash) _ (by simp [hhash])
  have h65 : (serializeEntry input).drop 65 = input.contextId ++
      (bigUint64 input.timestamp ++ [eventTypeUriToByte input.eventType]) := by
    rw [show 65 = 33 + 32 from rfl, ← List.drop_drop, h33]
    exact hdrop _ _ hkey
  have h81 : (serializeEntry input).drop 81 =
      bigUint64 input.timestamp ++ [eventTypeUriToByte input.eventType] := by
    rw [show 81 = 65 + 16 from rfl, ← List.drop_drop, h65]
    exact hdrop _ _ hcontext
  have h89 : (serializeEntry input).drop 89 = [eventTypeUriToByte input.eventType] := by
    rw [show 89 = 81 + 8 from rfl, ← List.drop_drop, h81]
    exact hdrop _ _ (length_bigUint64 _)
  refine ⟨recordHashOf_serializeEntry input, ?_, ?_, ?_, ?_⟩
  · rw [h33, List.take_left' hkey]
  · rw [h65, List.take_left' hcontext]
  · rw [h81, List.take_left' (length_bigUint64 _)]
  · rw [List.getD_eq_getElem?_getD, ← List.head?_drop, h89]
    rfl

theorem length_hexBytes {digits : List Char} (h : digits.length % 2 = 0) :
    2 * (hexBytes digits).length = digits.length := by
  fun_induction hexBytes digits with
  | case1 high low digits ih =>
      rw [List.length_cons, List.length_cons] at h ⊢
      have ih := ih (by omega)
      rw [List.length_cons]
      omega
  | case2 digits hno =>
      match digits with
      | [] => rfl
      | [c] => cases h
      | a :: b :: digits => exact absurd rfl (hno a b digits)

theorem hexDigit_hexDigitValue {c : Char} (h : isLowerHexDigit c = true) :
    hexDigitValue c < 16 ∧ hexDigit (hexDigitValue c) = c ∧ isHexDigit c = true := by
  have hall : ∀ n < 128, isLowerHexDigit (Char.ofNat n) = true →
      hexDigitValue (Char.ofNat n) < 16 ∧ hexDigit (hexDigitValue (Char.ofNat n)) = Char.ofNat n ∧
        isHexDigit (Char.ofNat n) = true := by
    decide +kernel
  have hlt : c.toNat < 128 := by
    simp only [isLowerHexDigit, Char.le_def, UInt32.le_iff_toNat_le, Bool.or_eq_true,
      Bool.and_eq_true, decide_eq_true_iff] at h
    change c.val.toNat < 128
    have h9 : '9'.val.toNat = 57 := rfl
    have hf : 'f'.val.toNat = 102 := rfl
    omega
  have hc := hall c.toNat hlt
  rw [Char.ofNat_toNat] at hc
  exact hc h

/-- Lowercase digits are written again. -/
theorem hexDigits_hexBytes {digits : List Char} (hlength : digits.length % 2 = 0)
    (hlower : digits.all isLowerHexDigit = true) : hexDigits (hexBytes digits) = digits := by
  fun_induction hexBytes digits with
  | case1 high low digits ih =>
      rw [List.length_cons, List.length_cons] at hlength
      simp only [List.all_cons, Bool.and_eq_true] at hlower
      obtain ⟨hhigh, hhighDigit, -⟩ := hexDigit_hexDigitValue hlower.1
      obtain ⟨hlow, hlowDigit, -⟩ := hexDigit_hexDigitValue hlower.2.1
      have hbyte : (UInt8.ofNat (hexDigitValue high * 16 + hexDigitValue low)).toNat =
          hexDigitValue high * 16 + hexDigitValue low := by
        rw [UInt8.toNat_ofNat']
        omega
      have hdiv : (hexDigitValue high * 16 + hexDigitValue low) / 16 = hexDigitValue high := by omega
      have hmod : (hexDigitValue high * 16 + hexDigitValue low) % 16 = hexDigitValue low := by omega
      rw [hexDigits, List.flatMap_cons, ← hexDigits, ih (by omega) hlower.2.2, hbyte, hdiv, hmod,
        hhighDigit, hlowDigit]
      rfl
  | case2 digits hno =>
      rcases digits with _ | ⟨a, _ | ⟨b, digits⟩⟩
      · rfl
      · cases hlength
      · exact absurd rfl (hno a b digits)

/-- A context in lowercase hex is 16 bytes, which are written like it. -/
theorem hexDecode_context {context : String} (h : isHex32 context = true) :
    ∃ bytes, hexDecode context = .ok bytes ∧ bytes.length = 16 ∧ hexEncode bytes = context := by
  rw [isHex32, Bool.and_eq_true, beq_iff_eq] at h
  obtain ⟨hlength, hlower⟩ := h
  have hdigits : context.toList.all isHexDigit = true := by
    rw [List.all_eq_true] at hlower ⊢
    exact fun c hc => (hexDigit_hexDigitValue (hlower c hc)).2.2
  have hbytes := @length_hexBytes context.toList (by omega)
  refine ⟨hexBytes context.toList, ?_, by omega, ?_⟩
  · rw [hexDecode, if_neg (by simp [hlength, hdigits])]
  · rw [← String.toList_inj, toList_hexEncode, hexDigits_hexBytes (by omega) hlower]

/-! ## What an accepted record has -/

/-- The validator and the check of the signature let the record through. -/
structure Accepted (P : Middleware.Platform) (nowMs : ℕ) (record : JsValue) : Prop where
  valid : validateSubmission nowMs record = .ok ()
  verified : verifyRecord P record (.finite nowMs) = true

/-- The members that an entry is made of. -/
structure Members (record : JsValue) where
  key : String
  keyBytes : Bytes
  context : String
  timestamp : ℕ
  uri : String
  key_eq : record.member "creator_key" = .string key
  context_eq : record.member "context_id" = .string context
  timestamp_eq : natural? (record.member "timestamp") = some timestamp
  uri_eq : record.member "event_type" = .string uri
  decodes : base64urlDecode key = some keyBytes
  length_keyBytes : keyBytes.length = 32
  isHex : isHex32 context = true

theorem require_bind {passed : Bool} {error : String} {k : Unit → Except Rejection Unit} :
    (require passed error >>= k) = .ok () ↔ passed = true ∧ k () = .ok () := by
  cases passed <;> simp [require, bind, Except.bind]

theorem natural?_eq_some {value : JsValue} {n : ℕ} (h : natural? value = some n) :
    value = .number (.finite n) := by
  unfold natural? at h
  split at h
  · next q =>
      split at h
      · next hq =>
          obtain ⟨hint, hnonneg⟩ := hq
          have hn := Option.some.inj h
          have hnum : 0 ≤ q.num := Rat.num_nonneg.2 hnonneg
          have hqn : (q.num : ℚ) = q := Rat.coe_int_num_of_den_eq_one (by simpa [Rat.isInt] using hint)
          have hcast : (q.num.toNat : ℚ) = q.num := by
            exact_mod_cast Int.toNat_of_nonneg hnum
          rw [← hn, hcast, hqn]
      · cases h
  · cases h

theorem verifySignature_of_verifyRecord {P : Middleware.Platform} {record : JsValue}
    {nowMs : JsNumber} (h : verifyRecord P record nowMs = true) :
    verifySignature P record = .ok true := by
  simp only [verifyRecord, Bool.and_eq_true] at h
  have hsig := h.1.1.1.1
  cases hcheck : verifySignature P record with
  | error e => rw [hcheck] at hsig; cases hsig
  | ok passed => rw [hcheck] at hsig; exact congrArg Except.ok hsig

theorem decodeText_of_verifySignature {P : Middleware.Platform} {record : JsValue}
    (h : verifySignature P record = .ok true) :
    ∃ bytes, Middleware.decodeText (record.member "creator_key") = .ok bytes ∧
      bytes.length = 32 := by
  obtain ⟨bytes, hbytes, h⟩ := bind_ok h
  refine ⟨bytes, hbytes, ?_⟩
  by_contra hlength
  rw [if_pos hlength] at h
  cases h

theorem length_key_of_verifySignature {P : Middleware.Platform} {record : JsValue} {key : String}
    (hkey : record.member "creator_key" = .string key) (h : verifySignature P record = .ok true) :
    ∃ bytes, base64urlDecode key = some bytes ∧ bytes.length = 32 := by
  obtain ⟨bytes, hbytes, hlength⟩ := decodeText_of_verifySignature h
  rw [hkey, Middleware.decodeText] at hbytes
  cases hdecode : base64urlDecode key with
  | none => rw [hdecode] at hbytes; cases hbytes
  | some found =>
      rw [hdecode] at hbytes
      obtain rfl : found = bytes := Except.ok.inj hbytes
      exact ⟨found, rfl, hlength⟩

theorem uri_of_isValidEventTypeUri {value : JsValue}
    (h : Middleware.isValidEventTypeUri value = true) : ∃ uri, value = .string uri := by
  cases value with
  | string uri => exact ⟨uri, rfl⟩
  | _ => cases h

theorem Accepted.members {P : Middleware.Platform} {nowMs : ℕ} {record : JsValue}
    (h : Accepted P nowMs record) :
    ∃ members : Members record, members.timestamp ≤ nowMs + MAX_FUTURE_SKEW_MS := by
  have hvalid := h.valid
  simp only [validateSubmission, require_bind] at hvalid
  obtain ⟨-, -, huri, htimestamp, hahead, hcontext, hkey, -⟩ := hvalid
  obtain ⟨uri, huri⟩ := uri_of_isValidEventTypeUri huri
  obtain ⟨timestamp, htimestamp⟩ := Option.isSome_iff_exists.1 htimestamp
  rw [notTooFarAhead, htimestamp, Option.all_some, decide_eq_true_iff] at hahead
  obtain ⟨context, hfound, hhex⟩ := Option.any_eq_true _ _ |>.1 hcontext
  obtain ⟨key, hkey⟩ := Option.isSome_iff_exists.1 hkey
  have hsignature := verifySignature_of_verifyRecord h.verified
  obtain ⟨keyBytes, hdecode, hlength⟩ :=
    length_key_of_verifySignature (JsValue.eq_string_of_string? hkey) hsignature
  exact ⟨⟨key, keyBytes, context, timestamp, uri, JsValue.eq_string_of_string? hkey,
    JsValue.eq_string_of_string? hfound, htimestamp, huri, hdecode, hlength, hhex⟩,
    hahead⟩

/-! ## The round trip -/

/-- The label of an event type, and `extension` for what is none of atrib's own. -/
def labelOf (uri : String) : String :=
  ([("https://atrib.dev/v1/types/tool_call", "tool_call"),
    ("https://atrib.dev/v1/types/transaction", "transaction"),
    ("https://atrib.dev/v1/types/observation", "observation"),
    ("https://atrib.dev/v1/types/directory_anchor", "directory_anchor"),
    ("https://atrib.dev/v1/types/annotation", "annotation"),
    ("https://atrib.dev/v1/types/revision", "revision")].lookup uri).getD "extension"

theorem eventLabel_eventTypeUriToByte (uri : String) :
    eventLabel (eventTypeUriToByte uri) = labelOf uri := by
  unfold eventTypeUriToByte
  split
  · rfl
  · rfl
  · rfl
  · rfl
  · rfl
  · rfl
  · next h1 h2 h3 h4 h5 h6 =>
      simp only [labelOf, List.lookup_cons, beq_eq_false_iff_ne.2 h1, beq_eq_false_iff_ne.2 h2,
        beq_eq_false_iff_ne.2 h3, beq_eq_false_iff_ne.2 h4, beq_eq_false_iff_ne.2 h5,
        beq_eq_false_iff_ne.2 h6]
      rfl

def keyOf (record : JsValue) : String := (record.member "creator_key").string?.getD ""

/-- What the record says of itself. -/
def fieldsOf (P : Middleware.Platform) (canonBytes : Bytes) (record : JsValue) : EntryFields where
  record_hash := sha256Ref (P.hash.sha256 canonBytes)
  creator_key := keyOf record
  context_id := (record.member "context_id").string?.getD ""
  timestamp_ms := (natural? (record.member "timestamp")).getD 0
  event_type := labelOf ((record.member "event_type").string?.getD "")

theorem ofLength_ok {length : ℕ} {bytes : Bytes} (h : bytes.length = length) (error : String) :
    ofLength length bytes error = .ok ⟨bytes, h⟩ := dif_pos h

/-- The entry of an accepted record says the same, but for the spelling of the key. -/
theorem Accepted.entryOf {P : Middleware.Platform} {nowMs : ℕ}
    (hclock : nowMs ≤ 8640000000000000) {record : JsValue} (h : Accepted P nowMs record)
    {canonBytes : Bytes} (hcanon : canonicalBytes P record = .ok canonBytes) :
    ∃ keyBytes entry, base64urlDecode (keyOf record) = some keyBytes ∧
      entryOf P record = .ok entry ∧ entry.length = ENTRY_SIZE ∧
      decodeFields entry =
        { fieldsOf P canonBytes record with creator_key := base64urlEncode keyBytes } := by
  obtain ⟨m, hahead⟩ := h.members
  obtain ⟨contextBytes, hcontext, hlength, hwritten⟩ := hexDecode_context m.isHex
  have hkey : keyOf record = m.key := by rw [keyOf, m.key_eq]; rfl
  have hbigInt : (record.member "timestamp").toBigInt P.text = .ok (m.timestamp : ℤ) := by
    rw [natural?_eq_some m.timestamp_eq]
    simp [JsValue.toBigInt, JsValue.toPrimitive, Rat.isInt, bind, Except.bind, pure, Except.pure]
  have hlt : m.timestamp < 2 ^ 64 := by
    rw [MAX_FUTURE_SKEW_MS] at hahead
    omega
  have hmod : ((m.timestamp : ℤ) % 2 ^ 64).toNat = m.timestamp := by omega
  let input : EntryInput := ⟨P.hash.sha256 canonBytes, m.keyBytes, contextBytes, m.timestamp, m.uri,
    P.hash.length_sha256 _, m.length_keyBytes, hlength⟩
  refine ⟨m.keyBytes, serializeEntry input, hkey ▸ m.decodes, ?_, length_serializeEntry input, ?_⟩
  · have hbase : base64urlToBytes m.key = .ok m.keyBytes := by
      rw [base64urlToBytes, m.decodes]
      rfl
    rw [LogNode.entryOf, hcanon]
    show serializeTexts P.text _ = _
    rw [m.key_eq, m.context_eq, m.uri_eq]
    simp only [serializeTexts, hexDecode_hexEncode, JsValue.string?, Option.getD_some, hbase,
      hcontext, hbigInt, bind, Except.bind, pure, Except.pure,
      ofLength_ok (P.hash.length_sha256 canonBytes), ofLength_ok m.length_keyBytes,
      ofLength_ok hlength, hmod]
    rfl
  · obtain ⟨hhash, hkeyBytes, hcontextBytes, htimestamp, htype⟩ := serializeEntry_fields input
    rw [decodeFields, decodeEntry, hhash, hkeyBytes, hcontextBytes, htimestamp, htype,
      getBigUint64_bigUint64 hlt]
    simp only [fieldsOf, m.context_eq, m.timestamp_eq, m.uri_eq, JsValue.string?,
      Option.getD_some, eventLabel_eventTypeUriToByte]
    rw [EntryFields.mk.injEq]
    exact ⟨rfl, rfl, hwritten, rfl, rfl⟩

/-- An entry says what its record says just when the record spells its key as the log does. The
records of one entry that do are alike in all of it. -/
theorem entry_roundTrip_iff {P : Middleware.Platform} {nowMs : ℕ}
    (hclock : nowMs ≤ 8640000000000000) {record : JsValue} (h : Accepted P nowMs record)
    {canonBytes : Bytes} (hcanon : canonicalBytes P record = .ok canonBytes) :
    ∃ entry, entryOf P record = .ok entry ∧ entry.length = ENTRY_SIZE ∧
      (decodeFields entry = fieldsOf P canonBytes record ↔
        lastGroupFits (keyOf record).toList = true) ∧
      ∀ other otherBytes, Accepted P nowMs other → canonicalBytes P other = .ok otherBytes →
        lastGroupFits (keyOf record).toList = true → lastGroupFits (keyOf other).toList = true →
        entryOf P other = .ok entry → fieldsOf P otherBytes other = fieldsOf P canonBytes record := by
  obtain ⟨keyBytes, entry, hkey, hentry, hlength, hfields⟩ := h.entryOf hclock hcanon
  have hiff : decodeFields entry = fieldsOf P canonBytes record ↔
      lastGroupFits (keyOf record).toList = true := by
    rw [hfields, ← base64urlEncode_of_decode hkey]
    exact ⟨congrArg EntryFields.creator_key, fun hsame => by rw [hsame]; rfl⟩
  refine ⟨entry, hentry, hlength, hiff, fun other otherBytes hother hotherCanon hfits hotherFits
    hsame => ?_⟩
  obtain ⟨otherKey, _, hotherKey, hotherEntry, -, hotherFields⟩ := hother.entryOf hclock hotherCanon
  obtain rfl := Except.ok.inj (hotherEntry.symm.trans hsame)
  rw [(base64urlEncode_of_decode hotherKey).2 hotherFits] at hotherFields
  exact hotherFields.symm.trans (hiff.2 hfits)

namespace SpelledSample

open LocalSubstrate (OwnerSample.recordMembers)
open Middleware (DestroySample.publicKey)
open Recall.Mirror (ForgedSample.canonicalText)

/-- A tool call with the key and the signature. -/
def record (key signature : String) : JsValue :=
  .object (OwnerSample.recordMembers.take 3 ++ [("creator_key", .string key)] ++
    (OwnerSample.recordMembers.drop 4).take 1 ++ [("signature", .string signature)] ++
    OwnerSample.recordMembers.drop 5)

def canonicalSpelling : JsValue :=
  record "iojj3XQJ8ZX9UtstPLpdcspnCb8dlBIb83SIAbQPb1w"
    ("aKuEkH8iHQOv6rrmrqIUexSxJeXHGkYtElkA9AbU1SZ" ++ "-8AqzzbF4oKbu6ioggcbgxcBp7Xl4uegnJlSzmkafAw")

/-- The last of the 43 letters carries two bits that belong to no byte. -/
def otherSpelling : JsValue :=
  record "iojj3XQJ8ZX9UtstPLpdcspnCb8dlBIb83SIAbQPb1x"
    ("Cn1T4eHIdd5d1f2WMAdJ_tiIjapljZ5BzhL2pO5SorSjHdIaJVDnQlAjSG9RE4TG4gcfQJYRu0bBxrlGS0SwAA")

def signatures : List Bytes := [
  hexBytes ("68ab84907f221d03afeabae6aea2147b14b125e5c71a462d125900f406d4d526" ++
    "7ef00ab3cdb178a0a6eeea2a2081c6e0c5c069ed7978b9e8272654b39a469f03").toList,
  hexBytes ("0a7d53e1e1c875de5dd5fd96300749fed8888daa658d9e41ce12f6a4ee52a2b4" ++
    "a31dd21a2550e7425023486f511384c6e2071f409611bb46c1c6b9464b44b000").toList]

/-- JCS of records with these members, and Ed25519 for the two that are signed. -/
def platform : Middleware.Platform where
  toPlatform := { LocalSubstrate.OwnerSample.platform with
    canonicalize := fun value => .ok (some (ForgedSample.canonicalText value)) }
  getPublicKey _ := DestroySample.publicKey
  sign _ _ := []
  verify signature _ key := signatures.contains signature && key = DestroySample.publicKey
  text := ⟨fun _ => "", fun _ => .nan, fun _ => none⟩

theorem accepted_canonicalSpelling : Accepted platform 1 canonicalSpelling where
  valid := by decide +kernel
  verified := by
    simp only [verifyRecord, Middleware.verifySignature, Middleware.decodeText,
      Verify.base64urlDecode_eq, platform, signatures, isHex32, toList_eq_charsOf]
    decide +kernel

theorem accepted_otherSpelling : Accepted platform 1 otherSpelling where
  valid := by decide +kernel
  verified := by
    simp only [verifyRecord, Middleware.verifySignature, Middleware.decodeText,
      Verify.base64urlDecode_eq, platform, signatures, isHex32, toList_eq_charsOf]
    decide +kernel

theorem entry_roundTrip_spelled :
    ∃ entry, entryOf platform canonicalSpelling = .ok entry ∧
      decodeFields entry = fieldsOf platform
        (utf8 (ForgedSample.canonicalText canonicalSpelling)) canonicalSpelling := by
  obtain ⟨entry, hentry, -, hiff, -⟩ :=
    entry_roundTrip_iff (by decide) accepted_canonicalSpelling rfl
  exact ⟨entry, hentry, hiff.2 (by decide +kernel)⟩

/-- An accepted record whose entry names its key otherwise. -/
theorem otherSpelling_changed :
    Accepted platform 1 otherSpelling ∧
      ∃ entry, entryOf platform otherSpelling = .ok entry ∧
        keyOf otherSpelling = "iojj3XQJ8ZX9UtstPLpdcspnCb8dlBIb83SIAbQPb1x" ∧
        (decodeFields entry).creator_key = "iojj3XQJ8ZX9UtstPLpdcspnCb8dlBIb83SIAbQPb1w" := by
  obtain ⟨keyBytes, entry, hkey, hentry, -, hfields⟩ :=
    accepted_otherSpelling.entryOf (by decide) rfl
  refine ⟨accepted_otherSpelling, entry, hentry, rfl, ?_⟩
  have hdecoded : (base64urlDecode (keyOf otherSpelling)).map base64urlEncode =
      some "iojj3XQJ8ZX9UtstPLpdcspnCb8dlBIb83SIAbQPb1w" := by
    rw [Verify.base64urlDecode_eq]
    decide +kernel
  rw [hkey, Option.map_some, Option.some.injEq] at hdecoded
  rw [hfields]
  exact hdecoded

end SpelledSample

end Atrib.LogNode
