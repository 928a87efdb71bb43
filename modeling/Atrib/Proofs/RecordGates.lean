import Atrib.ArchiveNode.Server
import Atrib.Mcp.Mirror
import Atrib.Proofs.ArchiveDurability
import Atrib.Proofs.EntryRoundTrip

/-!
# Which admitted records the archive and the mirrors take

The log, the archive and the mirror reader each have a predicate of their own
for what a record looks like. The log and the mirror reader agree on the members
that may be missing; the archive asks for a `content_id` and a `signature` of
every record. And both the archive and the mirror reader take an object with a
member `record` for an envelope.
-/

namespace Atrib

open Lib (JsNumber JsValue)

/-! ## One value in two embeddings -/

namespace Json

mutual

/-- A parsed value as the services have it. -/
def toValue : Json → JsValue
  | .null => .null
  | .bool b => .bool b
  | .num q => .number (.finite q)
  | .infinite => .number (.infinite false)
  | .str s => .string s
  | .arr items => .array (toValues items)
  | .obj members => .object (toMembers members)

def toValues : List Json → List JsValue
  | [] => []
  | item :: items => toValue item :: toValues items

def toMembers : List (String × Json) → List (String × JsValue)
  | [] => []
  | (key, value) :: members => (key, toValue value) :: toMembers members

end

theorem toValues_eq (items : List Json) : toValues items = items.map toValue := by
  induction items with
  | nil => rfl
  | cons item items ih => rw [toValues, ih, List.map_cons]

theorem lookup_toMembers (members : List (String × Json)) (key : String) :
    (toMembers members).lookup key = ((Json.obj members).get key).map toValue := by
  induction members with
  | nil => rfl
  | cons member members ih =>
      rw [toMembers, List.lookup_cons, Json.get, List.find?_cons]
      by_cases hkey : member.1 = key
      · simp [hkey]
      · rw [Json.get] at ih
        simp [hkey, beq_eq_false_iff_ne.2 (Ne.symm hkey), ih]

theorem member_toValue (members : List (String × Json)) (key : String) :
    (toValue (.obj members)).member key =
      (((Json.obj members).get key).map toValue).getD .undefined := by
  rw [toValue, JsValue.member, JsValue.get, lookup_toMembers]
  rfl

theorem hasMember_toValue (members : List (String × Json)) (key : String) :
    Verify.hasMember (toValue (.obj members)) key = ((Json.obj members).get key).isSome := by
  rw [toValue, Verify.hasMember]
  induction members with
  | nil => rfl
  | cons member members ih =>
      rw [toMembers, List.map_cons, List.contains_cons, ih, Json.get, Json.get, List.find?_cons]
      by_cases hkey : member.1 = key
      · simp [hkey]
      · simp [hkey, beq_eq_false_iff_ne.2 (Ne.symm hkey)]

theorem text_toValue (members : List (String × Json)) (key : String) :
    (Json.obj members).text key = ((toValue (.obj members)).member key).string? := by
  rw [member_toValue, Json.text]
  cases (Json.obj members).get key with
  | none => rfl
  | some value => cases value <;> rfl

theorem number_of_member {members : List (String × Json)} {key : String} {q : ℚ}
    (h : (toValue (.obj members)).member key = .number (.finite q)) :
    (Json.obj members).number key = some q := by
  rw [member_toValue] at h
  rw [Json.number]
  cases hget : (Json.obj members).get key with
  | none =>
      rw [hget] at h
      cases h
  | some value =>
      rw [hget] at h
      cases value <;> simp_all [toValue]

theorem items_toValue (members : List (String × Json)) (key : String) :
    ((toValue (.obj members)).member key).array?.getD [] =
      ((Json.obj members).items key).map toValue := by
  rw [member_toValue, Json.items]
  cases (Json.obj members).get key with
  | none => rfl
  | some value =>
      cases value with
      | arr items => exact toValues_eq items
      | _ => rfl

/-- A member is smaller than the object it is in. -/
theorem ne_of_get {value found : Json} {key : String} (h : value.get key = some found) :
    found ≠ value := by
  rintro rfl
  cases found with
  | obj members =>
      rw [Json.get] at h
      obtain ⟨member, hmember, heq⟩ := Option.map_eq_some_iff.1 h
      have hsize := List.sizeOf_lt_of_mem (List.mem_of_find?_eq_some hmember)
      have hpair : sizeOf member = 1 + sizeOf member.1 + sizeOf member.2 :=
        Prod.mk.sizeOf_spec member.1 member.2
      rw [heq] at hpair
      have hobj := Json.obj.sizeOf_spec members
      omega
  | _ => cases h

theorem eq_obj_of_isObject {value : Json} {key text : String}
    (h : value.toValue.member key = .string text) : ∃ members, value = .obj members := by
  obtain ⟨members, hvalue⟩ := JsValue.eq_object_of_member h
  cases value with
  | obj members => exact ⟨members, rfl⟩
  | _ => cases hvalue

end Json

/-! ## What the archive makes of a body -/

namespace ArchiveNode

/-- The record of a body: that of an envelope, or the body itself. -/
def submittedRecord (input : JsValue) : Option AtribRecordLike :=
  (atribRecordLike? (input.member "record")).or (atribRecordLike? input)

theorem submittedRecord_nested {input : JsValue} {record : AtribRecordLike}
    (h : atribRecordLike? (input.member "record") = some record) :
    submittedRecord input = some record := by
  rw [submittedRecord, h, Option.some_or]

theorem submittedRecord_own {input : JsValue}
    (h : atribRecordLike? (input.member "record") = none) :
    submittedRecord input = atribRecordLike? input := by
  rw [submittedRecord, h, Option.none_or]

/-- The record that was taken, and the hash that came with it. -/
theorem normalizeArchiveSubmission_ok {input : JsValue} {submission : ArchiveSubmissionEnvelope}
    (h : normalizeArchiveSubmission input = .ok submission) :
    submittedRecord input = some submission.record ∧
      submission.recordHash = (input.member "record_hash").string? := by
  unfold normalizeArchiveSubmission at h
  split at h
  · cases h
  · split at h
    · cases h
    · next record hrecord =>
        dsimp only at h
        split at h
        · cases h
        · obtain rfl := Except.ok.inj h
          exact ⟨hrecord, rfl⟩

theorem normalizeArchiveSubmission_of {input : JsValue} {record : AtribRecordLike}
    (hobject : (members? input).isNone = false) (hrecord : submittedRecord input = some record)
    (hhash : ∀ hash, (input.member "record_hash").string? = some hash →
      isSha256Ref hash = true) :
    ∃ submission, normalizeArchiveSubmission input = .ok submission := by
  have hform : ¬((input.member "record_hash").string?.any fun hash => !isSha256Ref hash) = true := by
    cases htext : (input.member "record_hash").string? with
    | none => simp
    | some hash => simp [hhash hash htext]
  rw [submittedRecord] at hrecord
  unfold normalizeArchiveSubmission
  rw [hobject, hrecord]
  dsimp only
  rw [if_neg hform]
  exact ⟨_, rfl⟩

end ArchiveNode

/-! ## The three gates -/

namespace RecordGates

open ArchiveNode (ArchiveStore ReadsBack normalizeArchiveSubmission readLine stableJson
  submittedRecord)
open LogNode (Accepted isSha256RefValue require_bind validateSubmission)
open Middleware (canonicalBytes)
open Mirror (parseMirrorValue)
open Verify (hasMember isText)

variable (P : Middleware.Platform) (stringify : JsValue → Bytes) (parse : Bytes → Option JsValue)
  (parseLine : Bytes → Option Json)

/-- The archive has the JCS and the hash of the log. -/
def archivePlatform : ArchiveNode.Platform where
  canonicalRecord value := (canonicalBytes P value).toOption
  hash := P.hash
  stringify := stringify
  parse := parse

/-- And so has the mirror reader. -/
def mirrorCodec : MirrorCodec where
  parse := parseLine
  canonicalRecord value := (canonicalBytes P value.toValue).toOption

/-- `{ record }` -/
def envelope (record : Json) : Json := .obj [("record", record)]

/-- The body is taken for the record, a put makes an entry of it, and a restart restores the
entry from its line. -/
def ArchiveTakes (A : ArchiveNode.Platform) (window nowMs : JsNumber) (body record : JsValue) :
    Prop :=
  ∃ submission entry, normalizeArchiveSubmission body = .ok submission ∧
    ArchiveStore.nextEntry A window submission nowMs = some entry ∧ entry.record.val = record ∧
      (ReadsBack A entry → readLine A (stableJson A entry) = some entry)

/-- The line is taken for the record. -/
def MirrorTakes (H : Hash) (codec : MirrorCodec) (line record : Json) : Prop :=
  ∃ parsed, parseMirrorValue H codec line = some parsed ∧ parsed.value = record

/-! ### What an admitted record has -/

/-- The members that the log has checked. -/
structure Checked (value : JsValue) : Prop where
  version : value.member "spec_version" = .string "atrib/1.0"
  eventType : isText (value.member "event_type") = true
  timestamp : ∃ n : ℕ, value.member "timestamp" = .number (.finite n)
  context : isText (value.member "context_id") = true
  key : isText (value.member "creator_key") = true
  chain : isText (value.member "chain_root") = true
  signed : Verify.hasCreatorSignerEntry value = true ∨ isText (value.member "signature") = true
  signature : hasMember value "signature" = true → isText (value.member "signature") = true
  required : ∀ uri, (value.member "event_type").string? = some uri →
    uri ∈ Verify.contentIdRequired → hasMember value "content_id" = true
  contentId : hasMember value "content_id" = true → isText (value.member "content_id") = true

theorem isText_of_ref {value : JsValue} (h : isSha256RefValue value = true) :
    isText value = true := by
  cases value with
  | string text => rfl
  | _ => cases h

theorem checked_of_accepted {nowMs : ℕ} {value : JsValue} (h : Accepted P nowMs value) :
    Checked value := by
  have hvalid := h.valid
  simp only [validateSubmission, require_bind] at hvalid
  obtain ⟨-, hversion, huri, htimestamp, -, hcontext, hkey, hchain, hsigned, hsignature, -,
    hrequired, hcontent, -⟩ := hvalid
  refine ⟨?_, ?_, ?_, ?_, hkey, hchain, ?_, ?_, ?_, ?_⟩
  · cases hfound : value.member "spec_version" with
    | string text =>
        rw [hfound, JsValue.strictEq_string, decide_eq_true_iff] at hversion
        rw [hversion]
        rfl
    | _ =>
        rw [hfound] at hversion
        cases hversion
  · obtain ⟨uri, huri⟩ := LogNode.uri_of_isValidEventTypeUri huri
    rw [huri]
    rfl
  · obtain ⟨n, hn⟩ := Option.isSome_iff_exists.1 htimestamp
    exact ⟨n, LogNode.natural?_eq_some hn⟩
  · obtain ⟨text, htext, -⟩ := Option.any_eq_true _ _ |>.1 hcontext
    rw [JsValue.eq_string_of_string? htext]
    rfl
  · simpa using hsigned
  · intro hmember
    simpa [hmember] using hsignature
  · intro uri huri hmem
    rw [huri] at hrequired
    simpa [hmem] using hrequired
  · intro hmember
    exact isText_of_ref (by simpa [hmember] using hcontent)

theorem isText_hasMember {value : JsValue} {key : String} (h : isText (value.member key) = true) :
    hasMember value key = true := by
  obtain ⟨text, htext⟩ := Option.isSome_iff_exists.1 h
  have hmember := JsValue.eq_string_of_string? htext
  obtain ⟨members, rfl⟩ := JsValue.eq_object_of_member hmember
  have hget := JsValue.get_of_member hmember nofun
  simp only [JsValue.get, Except.ok.injEq] at hget
  cases hfound : members.lookup key with
  | none => simp [hfound] at hget
  | some found =>
      obtain ⟨l, r, rfl, -⟩ := List.lookup_eq_some_iff.1 hfound
      simp [hasMember]

/-- The archive asks an admitted record for two members more. -/
theorem isAtribRecordLike_iff {value : JsValue} (h : Checked value) :
    ArchiveNode.isAtribRecordLike value = true ↔
      hasMember value "content_id" = true ∧ hasMember value "signature" = true := by
  obtain ⟨members, rfl⟩ := JsValue.eq_object_of_member h.version
  obtain ⟨n, hn⟩ := h.timestamp
  have hothers : ArchiveNode.isAtribRecordLike (.object members) =
      (isText ((JsValue.object members).member "content_id") &&
        isText ((JsValue.object members).member "signature")) := by
    have heventType := h.eventType
    have hcontext := h.context
    have hkey := h.key
    have hchain := h.chain
    rw [isText] at heventType hcontext hkey hchain
    simp [ArchiveNode.isAtribRecordLike, ArchiveNode.members?, h.version, heventType, hcontext,
      hkey, hchain, hn, JsValue.number?, isText]
  rw [hothers, Bool.and_eq_true]
  constructor
  · exact fun ⟨hcontent, hsignature⟩ =>
      ⟨isText_hasMember hcontent, isText_hasMember hsignature⟩
  · exact fun ⟨hcontent, hsignature⟩ => ⟨h.contentId hcontent, h.signature hsignature⟩

theorem hasCreatorSignerEntry_toValue {members : List (String × Json)}
    (h : Verify.hasCreatorSignerEntry (Json.obj members).toValue = true) :
    hasCreatorSignerEntry (.obj members) = true := by
  rw [Verify.hasCreatorSignerEntry, Bool.and_eq_true, Bool.and_eq_true] at h
  obtain ⟨⟨htype, hkey⟩, hany⟩ := h
  have htypeText : (Json.obj members).text "event_type" =
      some "https://atrib.dev/v1/types/transaction" := by
    rw [Json.text_toValue]
    cases hfound : (Json.obj members).toValue.member "event_type" with
    | string text =>
        rw [hfound, JsValue.strictEq_string, decide_eq_true_iff] at htype
        rw [htype]
        rfl
    | _ =>
        rw [hfound] at htype
        cases htype
  obtain ⟨key, hkey⟩ := Option.isSome_iff_exists.1 hkey
  rw [Json.items_toValue, List.any_map, List.any_eq_true] at hany
  obtain ⟨signer, hsigner, hentry⟩ := hany
  rw [Function.comp_apply, Bool.and_eq_true, Bool.and_eq_true] at hentry
  obtain ⟨⟨-, hsame⟩, hsignature⟩ := hentry
  obtain ⟨signature, hsignature⟩ := Option.isSome_iff_exists.1 hsignature
  obtain ⟨signerMembers, rfl⟩ := Json.eq_obj_of_isObject (JsValue.eq_string_of_string? hsignature)
  have hkeyText : (Json.obj signerMembers).text "creator_key" = some key := by
    rw [Json.text_toValue]
    rw [JsValue.eq_string_of_string? hkey] at hsame
    cases hfound : (Json.obj signerMembers).toValue.member "creator_key" with
    | string text =>
        rw [hfound, JsValue.strictEq_string, decide_eq_true_iff] at hsame
        rw [hsame]
        rfl
    | _ =>
        rw [hfound] at hsame
        cases hsame
  rw [hasCreatorSignerEntry, htypeText, Json.text_toValue, hkey]
  simp only [decide_true, Bool.true_and, List.any_eq_true]
  exact ⟨_, hsigner, by rw [hkeyText, Json.text_toValue, hsignature]; simp⟩

/-- The mirror reader takes the members of an admitted record as they are. -/
theorem isMirrorRecord_of_checked {members : List (String × Json)}
    (h : Checked (Json.obj members).toValue) : isMirrorRecord (.obj members) = true := by
  obtain ⟨n, hn⟩ := h.timestamp
  have hversion : (Json.obj members).text "spec_version" = some "atrib/1.0" := by
    rw [Json.text_toValue, h.version]
    rfl
  have hcontent : (!(((Json.obj members).get "content_id").isSome ||
      ((Json.obj members).text "event_type").any (· ∈ contentIdTypes)) ||
      ((Json.obj members).text "content_id").isSome) = true := by
    by_cases hmember : hasMember (Json.obj members).toValue "content_id" = true
    · rw [Json.text_toValue _ "content_id", ← isText, h.contentId hmember, Bool.or_true]
    · have hnot : ((Json.obj members).text "event_type").any (· ∈ contentIdTypes) = false := by
        rw [← Bool.not_eq_true, Option.any_eq_true]
        rintro ⟨uri, huri, hmem⟩
        rw [Json.text_toValue] at huri
        exact hmember (h.required uri huri (of_decide_eq_true hmem))
      rw [← Json.hasMember_toValue, Bool.eq_false_of_not_eq_true hmember, hnot]
      rfl
  have hsignature : (((Json.obj members).text "signature").isSome ||
      ((Json.obj members).get "signature").isNone &&
        hasCreatorSignerEntry (.obj members)) = true := by
    by_cases hmember : hasMember (Json.obj members).toValue "signature" = true
    · rw [Json.text_toValue, ← isText, h.signature hmember, Bool.true_or]
    · have hnot : ¬isText ((Json.obj members).toValue.member "signature") = true :=
        fun htext => hmember (isText_hasMember htext)
      rw [Json.hasMember_toValue, Bool.not_eq_true, Option.isSome_eq_false_iff] at hmember
      rw [hasCreatorSignerEntry_toValue (h.signed.resolve_right hnot), hmember]
      simp
  have heventType := h.eventType
  have hcontext := h.context
  have hkey := h.key
  have hchain := h.chain
  rw [isText, ← Json.text_toValue] at heventType hcontext hkey hchain
  simp only [isMirrorRecord, hversion, decide_true, hcontent, hkey, hsignature, hchain,
    heventType, hcontext, Json.number_of_member hn, Option.isSome_some, Bool.and_true]

/-! ### What each gate does with it -/

/-- The record has no member that makes it an envelope. -/
def IsBare (record : Json) : Prop := ∀ members, record.get "record" ≠ some (.obj members)

/-- A hash that comes with the record is its own. -/
def HashAgrees (record : Json) : Prop :=
  ∀ hash, (record.toValue.member "record_hash").string? = some hash →
    ∃ bytes, canonicalBytes P record.toValue = .ok bytes ∧ hash = sha256Ref (P.hash.sha256 bytes)

variable {P} {stringify} {parse} {parseLine}

theorem mirrorTakes_of_unwrap {line record : Json} {bytes : Bytes} (hline : line.isObject = true)
    (hunwrap : unwrap line = record) (hrecord : isMirrorRecord record = true)
    (hbytes : canonicalBytes P record.toValue = .ok bytes) :
    MirrorTakes P.hash (mirrorCodec P parseLine) line record := by
  rw [MirrorTakes, parseMirrorValue, hline, hunwrap, hrecord, Bool.and_self, if_pos rfl]
  simp only [mirrorCodec, hbytes]
  exact ⟨_, rfl, rfl⟩

theorem unwrap_of_isBare {record : Json} (h : IsBare record) : unwrap record = record := by
  unfold unwrap
  split
  · next members hget => exact absurd hget (h members)
  · rfl

theorem isBare_of_mirrorTakes {codec : MirrorCodec} {record : Json}
    (h : MirrorTakes P.hash codec record record) : IsBare record := by
  intro members hget
  obtain ⟨parsed, hparsed, hvalue⟩ := h
  have hunwrap : unwrap record = .obj members := by
    unfold unwrap
    rw [hget]
  rw [parseMirrorValue, hunwrap] at hparsed
  split at hparsed
  · obtain ⟨bytes, -, rfl⟩ := Option.map_eq_some_iff.1 hparsed
    exact Json.ne_of_get hget hvalue
  · cases hparsed

theorem canonical_of_mirrorTakes {line record : Json}
    (h : MirrorTakes P.hash (mirrorCodec P parseLine) line record) :
    ∃ bytes, canonicalBytes P record.toValue = .ok bytes := by
  obtain ⟨parsed, hparsed, rfl⟩ := h
  rw [parseMirrorValue] at hparsed
  split at hparsed
  · obtain ⟨bytes, hbytes, rfl⟩ := Option.map_eq_some_iff.1 hparsed
    rw [mirrorCodec] at hbytes
    dsimp only at hbytes ⊢
    cases hcanonical : canonicalBytes P (unwrap line).toValue with
    | ok found => exact ⟨found, rfl⟩
    | error e =>
        rw [hcanonical] at hbytes
        cases hbytes
  · cases hparsed

/-- A put makes an entry of a record that has a canonical text, unless another hash came with it. -/
theorem nextEntry_iff {submission : ArchiveNode.ArchiveSubmissionEnvelope} {window nowMs : JsNumber} :
    (∃ entry, ArchiveStore.nextEntry (archivePlatform P stringify parse) window submission nowMs =
        some entry) ↔
      ∃ bytes, canonicalBytes P submission.record.val = .ok bytes ∧
        ∀ hash, submission.recordHash = some hash →
          hash = sha256Ref (P.hash.sha256 bytes) := by
  have hhash : ArchiveNode.recordHash (archivePlatform P stringify parse) submission.record =
      (canonicalBytes P submission.record.val).toOption.map fun bytes =>
        sha256Ref (P.hash.sha256 bytes) := rfl
  rw [ArchiveStore.nextEntry, hhash]
  cases hbytes : canonicalBytes P submission.record.val with
  | error e => simp [Except.toOption]
  | ok bytes =>
      cases hgiven : submission.recordHash with
      | none => simp [Except.toOption, guard]
      | some hash =>
          by_cases heq : hash = sha256Ref (P.hash.sha256 bytes)
          · simp [Except.toOption, guard, heq]
          · simp [Except.toOption, guard, heq]

theorem record_of_nextEntry {A : ArchiveNode.Platform}
    {submission : ArchiveNode.ArchiveSubmissionEnvelope} {window nowMs : JsNumber}
    {entry : ArchiveNode.StoredArchiveEntry}
    (h : ArchiveStore.nextEntry A window submission nowMs = some entry) :
    entry.record = submission.record ∧
      ArchiveNode.recordHash A entry.record = some entry.recordHash := by
  obtain ⟨computed, hcomputed, hguard⟩ := Option.bind_eq_some_iff.1 h
  obtain ⟨-, -, hnew⟩ := Option.bind_eq_some_iff.1 hguard
  obtain rfl := Option.some.inj hnew
  exact ⟨rfl, hcomputed⟩

/-- What is taken has the two members, and its own hash if any. -/
theorem of_archiveTakes {window nowMs : JsNumber} {body record : JsValue}
    (h : ArchiveTakes (archivePlatform P stringify parse) window nowMs body record) :
    ArchiveNode.isAtribRecordLike record = true ∧
      ∀ hash, (body.member "record_hash").string? = some hash →
        ∃ bytes, canonicalBytes P record = .ok bytes ∧
          hash = sha256Ref (P.hash.sha256 bytes) := by
  obtain ⟨submission, entry, hnormalize, hnext, rfl, -⟩ := h
  obtain ⟨-, hgiven⟩ := ArchiveNode.normalizeArchiveSubmission_ok hnormalize
  obtain ⟨hrecord, -⟩ := record_of_nextEntry hnext
  refine ⟨entry.record.property, fun hash hhash => ?_⟩
  obtain ⟨bytes, hbytes, hown⟩ := nextEntry_iff.1 ⟨entry, hnext⟩
  exact ⟨bytes, by rw [hrecord, hbytes], hown hash (hgiven.trans hhash)⟩

theorem archiveTakes_of {window nowMs : JsNumber} {body record : JsValue} {bytes : Bytes}
    (hobject : (ArchiveNode.members? body).isNone = false)
    (hlike : ArchiveNode.isAtribRecordLike record = true)
    (hsubmitted : submittedRecord body = some ⟨record, hlike⟩)
    (hbytes : canonicalBytes P record = .ok bytes)
    (hhash : ∀ hash, (body.member "record_hash").string? = some hash →
      hash = sha256Ref (P.hash.sha256 bytes)) :
    ArchiveTakes (archivePlatform P stringify parse) window nowMs body record := by
  have hform : ∀ hash, (body.member "record_hash").string? = some hash →
      isSha256Ref hash = true := by
    intro hash hfound
    rw [hhash hash hfound]
    exact isSha256Ref_sha256Ref (P.hash.length_sha256 _)
  obtain ⟨submission, hnormalize⟩ :=
    ArchiveNode.normalizeArchiveSubmission_of hobject hsubmitted hform
  obtain ⟨hrecord, hgiven⟩ := ArchiveNode.normalizeArchiveSubmission_ok hnormalize
  have hsame : submission.record = ⟨record, hlike⟩ :=
    Option.some.inj (hrecord.symm.trans hsubmitted)
  obtain ⟨entry, hnext⟩ : ∃ entry, ArchiveStore.nextEntry (archivePlatform P stringify parse) window
      submission nowMs = some entry := by
    refine nextEntry_iff.2 ⟨bytes, by rw [hsame, hbytes], fun hash hfound => ?_⟩
    exact hhash hash (hgiven.symm.trans hfound)
  obtain ⟨hentry, hown⟩ := record_of_nextEntry hnext
  refine ⟨submission, entry, hnormalize, hnext, by rw [hentry, hsame], fun hreads => ?_⟩
  exact ArchiveNode.Sound.readLine_eq { toReadsBack := hreads, hash := hown }

theorem submittedRecord_of_isBare {record : Json} (h : IsBare record)
    (hlike : ArchiveNode.isAtribRecordLike record.toValue = true) :
    submittedRecord record.toValue = some ⟨record.toValue, hlike⟩ := by
  have hnested : ArchiveNode.atribRecordLike? (record.toValue.member "record") = none := by
    rw [ArchiveNode.atribRecordLike?, dif_neg]
    cases record with
    | obj members =>
        rw [Json.member_toValue]
        cases hget : (Json.obj members).get "record" with
        | none => simp [ArchiveNode.isAtribRecordLike, ArchiveNode.members?]
        | some found =>
            cases found with
            | obj nested => exact absurd hget (h nested)
            | _ => simp [ArchiveNode.isAtribRecordLike, ArchiveNode.members?, Json.toValue]
    | _ => simp [ArchiveNode.isAtribRecordLike, ArchiveNode.members?, Json.toValue] at hlike
  rw [ArchiveNode.submittedRecord_own hnested, ArchiveNode.atribRecordLike?, dif_pos hlike]

/-! ### The gates agree -/

/-- An admitted record passes the archive and the mirror reader, bare and in an envelope, exactly
when it has a `content_id` and a `signature`, is not taken for an envelope, brings no other hash
than its own and has a canonical text. -/
theorem gates_agree_iff (P : Middleware.Platform) (stringify : JsValue → Bytes)
    (parse : Bytes → Option JsValue) (parseLine : Bytes → Option Json) (window archivedMs : JsNumber)
    {nowMs : ℕ} {record : Json} (h : Accepted P nowMs record.toValue) :
    (ArchiveTakes (archivePlatform P stringify parse) window archivedMs record.toValue
          record.toValue ∧
        ArchiveTakes (archivePlatform P stringify parse) window archivedMs
          (envelope record).toValue record.toValue ∧
        MirrorTakes P.hash (mirrorCodec P parseLine) record record ∧
        MirrorTakes P.hash (mirrorCodec P parseLine) (envelope record) record) ↔
      hasMember record.toValue "content_id" = true ∧ hasMember record.toValue "signature" = true ∧
        IsBare record ∧ HashAgrees P record ∧
        ∃ bytes, canonicalBytes P record.toValue = .ok bytes := by
  have hchecked := checked_of_accepted P h
  obtain ⟨members, rfl⟩ := Json.eq_obj_of_isObject hchecked.version
  constructor
  · rintro ⟨harchive, -, hmirror, -⟩
    obtain ⟨hlike, hhash⟩ := of_archiveTakes harchive
    obtain ⟨hcontent, hsignature⟩ := (isAtribRecordLike_iff hchecked).1 hlike
    exact ⟨hcontent, hsignature, isBare_of_mirrorTakes hmirror, hhash,
      canonical_of_mirrorTakes hmirror⟩
  · rintro ⟨hcontent, hsignature, hbare, hhash, bytes, hbytes⟩
    have hlike := (isAtribRecordLike_iff hchecked).2 ⟨hcontent, hsignature⟩
    have hmirror := isMirrorRecord_of_checked hchecked
    refine ⟨?_, ?_, ?_, ?_⟩
    · refine archiveTakes_of rfl hlike (submittedRecord_of_isBare hbare hlike) hbytes ?_
      intro hash hfound
      obtain ⟨bytes', hbytes', rfl⟩ := hhash hash hfound
      obtain rfl := Except.ok.inj (hbytes.symm.trans hbytes')
      rfl
    · have hmember : ArchiveNode.atribRecordLike?
          ((envelope (.obj members)).toValue.member "record") =
            some ⟨(Json.obj members).toValue, hlike⟩ := dif_pos hlike
      have hsubmitted : submittedRecord (envelope (.obj members)).toValue =
          some ⟨(Json.obj members).toValue, hlike⟩ :=
        ArchiveNode.submittedRecord_nested hmember
      exact archiveTakes_of rfl hlike hsubmitted hbytes fun hash hfound => nomatch hfound
    · exact mirrorTakes_of_unwrap rfl (unwrap_of_isBare hbare) hmirror hbytes
    · exact mirrorTakes_of_unwrap rfl rfl hmirror hbytes

/-! ### A sample -/

namespace GateRecords

/-- An observation may do without a `content_id`. -/
def observation : Json :=
  .obj [("spec_version", .str "atrib/1.0"),
    ("event_type", .str "https://atrib.dev/v1/types/observation"),
    ("context_id", .str "aaaaaaaaaaaaaaaaaaaaaaaaaaaaaaaa"),
    ("creator_key", .str "6kpsY-KcUgq-9VB7Ey7F-ZVHdq6-vnuSQh7qaRRG0iw"),
    ("chain_root",
      .str "sha256:3ba3f5f43b92602683c19aee62a20342b084dd5971ddd33808d81a328879a547"),
    ("timestamp", .num 1),
    ("signature",
      .str ("qccFPj_6mz52H2XKojO0d4BLlRN0mgigloSs1Bah8290vjby8oCJcj7lp6" ++
        "PSgKyW7vbxwkGVNzkjgdmzysu3AQ"))]

def publicKey : Bytes :=
  hexBytes "ea4a6c63e29c520abef5507b132ec5f9954776aebebe7b92421eea691446d22c".toList

def signature : Bytes :=
  hexBytes ("a9c7053e3ffa9b3e761f65caa233b477804b9513749a08a09684acd416a1f36f" ++
    "74be36f2f28089723ee5a7a3d280ac96eef6f1c2419537392381d9b3cacbb701").toList

/-- JCS of records whose members are sorted, and Ed25519 for the one that is signed. -/
def platform : Middleware.Platform where
  toPlatform := { LocalSubstrate.OwnerSample.platform with
    canonicalize := fun value => .ok (some (Recall.Mirror.ForgedSample.canonicalText value)) }
  getPublicKey _ := publicKey
  sign _ _ := []
  verify sigBytes _ key := sigBytes = signature && key = publicKey
  text := ⟨fun _ => "", fun _ => .nan, fun _ => none⟩

theorem accepted_observation : Accepted platform 1 observation.toValue where
  valid := by decide +kernel
  verified := by decide +kernel

/-- A tool call, parsed. -/
def toolCall : Json :=
  .obj [("chain_root",
      .str "sha256:3ba3f5f43b92602683c19aee62a20342b084dd5971ddd33808d81a328879a547"),
    ("content_id",
      .str "sha256:dc8e783725aa24117b22496ca67b151f64d604ff54f9f35d84090f28f1cb06c6"),
    ("context_id", .str "aaaaaaaaaaaaaaaaaaaaaaaaaaaaaaaa"),
    ("creator_key", .str "iojj3XQJ8ZX9UtstPLpdcspnCb8dlBIb83SIAbQPb1w"),
    ("event_type", .str "https://atrib.dev/v1/types/tool_call"),
    ("signature", .str ("aKuEkH8iHQOv6rrmrqIUexSxJeXHGkYtElkA9AbU1SZ" ++
      "-8AqzzbF4oKbu6ioggcbgxcBp7Xl4uegnJlSzmkafAw")),
    ("spec_version", .str "atrib/1.0"), ("timestamp", .num 1)]

theorem isBare_toolCall : IsBare toolCall := fun _ hget => by
  simp [toolCall, Json.get] at hget

theorem hashAgrees_toolCall : HashAgrees LogNode.SpelledSample.platform toolCall := by
  intro hash hhash
  have hnone : (toolCall.toValue.member "record_hash").string? = none := by decide
  exact absurd (hnone.symm.trans hhash) nofun

theorem accepted_toolCall : Accepted LogNode.SpelledSample.platform 1 toolCall.toValue :=
  LogNode.SpelledSample.accepted_canonicalSpelling

end GateRecords

open GateRecords in
theorem gates_agree_toolCall :
    MirrorTakes LogNode.SpelledSample.platform.hash
      (mirrorCodec LogNode.SpelledSample.platform fun _ => none) (envelope toolCall) toolCall :=
  ((gates_agree_iff LogNode.SpelledSample.platform (fun _ => []) (fun _ => none) (fun _ => none)
    (.finite 0) (.finite 0) accepted_toolCall).2
      ⟨by decide, by decide, isBare_toolCall, hashAgrees_toolCall, _, rfl⟩).2.2.2

open GateRecords in
/-- The log admits an observation without a `content_id`, which the archive refuses. -/
theorem observation_refused :
    Accepted platform 1 observation.toValue ∧
      normalizeArchiveSubmission observation.toValue =
        .error "record must be an AtribRecord object" ∧
      normalizeArchiveSubmission (envelope observation).toValue =
        .error "record must be an AtribRecord object" :=
  ⟨accepted_observation, by with_unfolding_all rfl, by with_unfolding_all rfl⟩

end RecordGates

end Atrib
