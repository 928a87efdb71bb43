import Atrib.Proofs.UnverifiedInfluence

/-!
# Line by line

What a file of records gives, and what its lines give by themselves. The two
loaders take the same records from a line whose record can be hashed; of any
other, `loadRecords` takes what `loadLoaded` skips or throws at.
-/

namespace Atrib.Recall.Mirror

open Lib (JsValue bind_ok)

variable {P : Platform}

/-! ## Values and what is in them -/

mutual

/-- The test holds of the value and of all that is in it. -/
def everyPart (test : JsValue → Bool) : JsValue → Bool
  | .array items => test (.array items) && everyItem test items
  | .object members => test (.object members) && everyMember test members
  | value => test value

def everyItem (test : JsValue → Bool) : List JsValue → Bool
  | [] => true
  | item :: items => everyPart test item && everyItem test items

def everyMember (test : JsValue → Bool) : List (String × JsValue) → Bool
  | [] => true
  | (_, value) :: members => everyPart test value && everyMember test members

end

/-- A value that JSON can write. -/
def isJson : JsValue → Bool :=
  everyPart fun value => !(value matches .undefined | .function | .number .nan)

def hasFiniteNumbers : JsValue → Bool :=
  everyPart fun value => !(value matches .number (.infinite _) | .number .nan)

theorem everyPart_of_lookup {test : JsValue → Bool} {members : List (String × JsValue)}
    {key : String} {value : JsValue} (h : everyMember test members = true)
    (hvalue : members.lookup key = some value) : everyPart test value = true := by
  induction members with
  | nil => cases hvalue
  | cons member members ih =>
      obtain ⟨name, first⟩ := member
      rw [everyMember, Bool.and_eq_true] at h
      rw [List.lookup_cons] at hvalue
      split at hvalue
      · obtain rfl := Option.some.inj hvalue
        exact h.1
      · exact ih h.2 hvalue

theorem everyPart_member {test : JsValue → Bool} {value : JsValue} {key : String}
    (h : everyPart test value = true) (hmember : (value.member key).isObject = true) :
    everyPart test (value.member key) = true := by
  cases value with
  | object members =>
      rw [everyPart, Bool.and_eq_true] at h
      have hlookup : (JsValue.object members).member key = (members.lookup key).getD .undefined :=
        rfl
      cases hfound : members.lookup key with
      | none =>
          rw [hlookup, hfound] at hmember
          cases hmember
      | some found =>
          rw [hlookup, hfound]
          exact everyPart_of_lookup h.2 hfound
  | array items =>
      have hget : (JsValue.array items).member key =
          if key ∈ JsValue.arrayMethods then .function else .undefined := rfl
      rw [hget] at hmember
      split at hmember <;> cases hmember
  | _ => cases hmember

/-- What `JSON.parse` and the library `canonicalize` do: a parsed value is of what JSON can
write, and the canonical form of an object is missing where a number in it is not finite, and
only there. -/
structure Platform.Canonicalizes (P : Platform) : Prop where
  json : ∀ line value, P.parse line = some value → isJson value = true
  canonical : ∀ members, isJson (.object members) = true →
    ((∃ json, P.canonicalize (.object members) = .ok (some json)) ↔
      hasFiniteNumbers (.object members) = true)

/-! ## Records -/

theorem isRecord_of_ofValue? {value : JsValue} {record : AtribRecord}
    (h : AtribRecord.ofValue? value = some record) :
    record.value = value ∧ isRecord value = true := by
  unfold AtribRecord.ofValue? at h
  split at h
  · next eventType contextId creatorKey chainRoot timestamp heq hcontext hcreator hroot htime =>
      split at h
      · next hshape =>
          obtain rfl := Option.some.inj h
          refine ⟨rfl, ?_⟩
          obtain ⟨hversion, hsigned⟩ := hshape
          have hsignature : (Verify.isText (value.member "signature") ||
              !Verify.hasMember value "signature" && Verify.hasCreatorSignerEntry value) = true := by
            simpa using hsigned
          rw [isRecord, hversion, heq, hcontext, hcreator, hroot, hsignature]
          rfl
      · cases h
  · cases h

theorem exists_ofValue? {value : JsValue} (h : isRecord value = true) {timestamp : ℚ}
    (htime : value.member "timestamp" = .number (.finite timestamp)) :
    ∃ record, AtribRecord.ofValue? value = some record := by
  simp only [isRecord, Bool.and_eq_true] at h
  obtain ⟨⟨⟨⟨⟨hversion, htype⟩, hcontext⟩, hcreator⟩, hroot⟩, hsignature⟩ := h
  have htext : ∀ key, Verify.isText (value.member key) = true →
      ∃ text, value.member key = .string text := fun key hkey =>
    (Option.isSome_iff_exists.1 hkey).imp fun _ => JsValue.string?_eq_some.1
  obtain ⟨eventType, htype⟩ := htext _ htype
  obtain ⟨contextId, hcontext⟩ := htext _ hcontext
  obtain ⟨creatorKey, hcreator⟩ := htext _ hcreator
  obtain ⟨chainRoot, hroot⟩ := htext _ hroot
  unfold AtribRecord.ofValue?
  split
  · rw [if_pos]
    · exact ⟨_, rfl⟩
    · exact ⟨hversion, by simpa using hsignature⟩
  · next hother => exact absurd htime (hother _ _ _ _ _ htype hcontext hcreator hroot)

/-- The record has a timestamp, and no number of it overflows. -/
def isHashable (record : JsValue) : Bool :=
  (record.member "timestamp" matches .number (.finite _)) && hasFiniteNumbers record

theorem extractRecord_eq_some {parsed value : JsValue} :
    extractRecord parsed = some value ↔ parsed.isObject = true ∧
      (if (parsed.member "record").isObject then parsed.member "record" else parsed) = value ∧
        isRecord value = true := by
  unfold extractRecord
  by_cases hobject : parsed.isObject = true
  · simp only [hobject, Bool.not_true, Bool.false_eq_true, if_false, true_and]
    generalize (if (parsed.member "record").isObject then parsed.member "record" else parsed) =
      candidate
    constructor
    · intro h
      split at h
      · next hshape =>
          obtain rfl := Option.some.inj h
          exact ⟨rfl, hshape⟩
      · cases h
    · rintro ⟨rfl, hshape⟩
      rw [if_pos hshape]
  · simp [hobject]

theorem extractRecord_of_extractLoaded {parsed : JsValue} {record : AtribRecord}
    {content : JsValue} {producer : Option String}
    (h : extractLoaded P parsed = some (record, content, producer)) :
    extractRecord parsed = some record.value := by
  unfold extractLoaded at h
  rw [extractRecord_eq_some]
  by_cases hobject : parsed.isObject = true
  · rw [hobject] at h
    simp only [Bool.not_true, Bool.false_eq_true, if_false] at h
    refine ⟨hobject, ?_⟩
    generalize (if (parsed.member "record").isObject = true then parsed.member "record"
      else parsed) = candidate at h ⊢
    cases hread : AtribRecord.ofValue? candidate with
    | none =>
        rw [hread] at h
        cases h
    | some found =>
        rw [hread] at h
        obtain ⟨hvalue, hshape⟩ := isRecord_of_ofValue? hread
        have hrecord : found = record := by
          simp only at h
          split at h <;> exact congrArg Prod.fst (Option.some.inj h)
        rw [← hrecord, hvalue]
        exact ⟨rfl, hshape⟩
  · simp [hobject] at h

theorem exists_extractLoaded {parsed value : JsValue} (h : extractRecord parsed = some value)
    {timestamp : ℚ} (htime : value.member "timestamp" = .number (.finite timestamp)) :
    ∃ record content producer, extractLoaded P parsed = some (record, content, producer) := by
  obtain ⟨hobject, hcandidate, hshape⟩ := extractRecord_eq_some.1 h
  obtain ⟨record, hrecord⟩ := exists_ofValue? hshape htime
  unfold extractLoaded
  rw [hobject]
  simp only [Bool.not_true, Bool.false_eq_true, if_false, hcandidate, hrecord]
  split <;> exact ⟨_, _, _, rfl⟩

/-- A record that is read is an object of what JSON can write. -/
theorem isJson_extractRecord {parsed value : JsValue} (hparsed : isJson parsed = true)
    (h : extractRecord parsed = some value) :
    isJson value = true ∧ ∃ members, value = .object members := by
  obtain ⟨-, hcandidate, hshape⟩ := extractRecord_eq_some.1 h
  constructor
  · rw [← hcandidate]
    split
    · next hrecord => exact everyPart_member hparsed hrecord
    · exact hparsed
  · simp only [isRecord, Bool.and_eq_true] at hshape
    obtain ⟨text, htext⟩ := Option.isSome_iff_exists.1 hshape.1.1.1.1.1
    exact JsValue.eq_object_of_member (JsValue.string?_eq_some.1 htext)

/-! ## One line -/

theorem loadLine_eq_none {line : Bytes} (h : loadRecordLine P line = none) :
    loadLine P line = .ok none := by
  unfold loadRecordLine at h
  unfold loadLine
  split at h
  · next hblank => rw [if_pos hblank]
  · next hblank =>
      rw [if_neg hblank]
      cases hload : (P.parse line).bind (extractLoaded P) with
      | none => rfl
      | some found =>
          obtain ⟨parsed, hparsed, hfound⟩ := Option.bind_eq_some_iff.1 hload
          rw [hparsed, Option.bind_some, extractRecord_of_extractLoaded hfound] at h
          cases h

theorem computeRecordHash_of_loadLine {line : Bytes} {lr : LoadedRecord}
    (h : loadLine P line = .ok (some lr)) :
    computeRecordHash P lr.record = .ok lr.recordHash := by
  unfold loadLine at h
  split at h
  · cases h
  · split at h
    · cases h
    · obtain ⟨recordHash, hhash, h⟩ := bind_ok h
      cases h
      exact hhash

/-- Of a record, a line gives what can be hashed; what has no timestamp is skipped, and what
overflows throws. -/
theorem loadLine_iff (hP : P.Canonicalizes) {line : Bytes} {value : JsValue}
    (h : loadRecordLine P line = some value) :
    (∃ lr, loadLine P line = .ok (some lr) ∧ lr.record.value = value) ↔
      isHashable value = true := by
  unfold loadRecordLine at h
  split at h
  · cases h
  · next hblank =>
      obtain ⟨parsed, hparsed, hvalue⟩ := Option.bind_eq_some_iff.1 h
      obtain ⟨hjson, members, rfl⟩ := isJson_extractRecord (hP.json _ _ hparsed) hvalue
      constructor
      · rintro ⟨lr, hlr, hrecord⟩
        obtain ⟨bytes, hbytes, -⟩ := bind_ok (computeRecordHash_of_loadLine hlr)
        have htime := lr.record.timestamp_eq
        rw [hrecord] at hbytes htime
        rw [isHashable, htime, Bool.and_eq_true]
        refine ⟨rfl, (hP.canonical members hjson).1 ?_⟩
        obtain ⟨json, hcanonical, hbytes⟩ := bind_ok hbytes
        cases json with
        | none => cases hbytes
        | some json => exact ⟨json, hcanonical⟩
      · intro hhashable
        rw [isHashable, Bool.and_eq_true] at hhashable
        obtain ⟨htime, hfinite⟩ := hhashable
        split at htime
        · next timestamp heq =>
            obtain ⟨record, content, producer, hload⟩ :=
              exists_extractLoaded (P := P) hvalue heq
            have hrecord := extractRecord_of_extractLoaded hload
            rw [hvalue] at hrecord
            obtain ⟨json, hcanonical⟩ := (hP.canonical members hjson).2 hfinite
            have hbytes : Middleware.canonicalBytes P.toMiddleware record.value = .ok (utf8 json) := by
              rw [← Option.some.inj hrecord, Middleware.canonicalBytes, hcanonical]
              rfl
            have hhash : ∃ recordHash, computeRecordHash P record = .ok recordHash := by
              rw [computeRecordHash, hbytes]
              exact ⟨_, rfl⟩
            obtain ⟨recordHash, hhash⟩ := hhash
            refine ⟨⟨record, recordHash, content, producer⟩, ?_, (Option.some.inj hrecord).symm⟩
            rw [loadLine, if_neg hblank, hparsed, Option.bind_some, hload]
            simp only [hhash]
            rfl
        · cases htime

/-! ## The file -/

theorem mem_loadLines {lines : List Bytes} {loaded : List LoadedRecord}
    (h : loadLines P lines = .ok loaded) {lr : LoadedRecord} (hlr : lr ∈ loaded) :
    ∃ line ∈ lines, loadLine P line = .ok (some lr) := by
  induction lines generalizing loaded with
  | nil =>
      cases h
      cases hlr
  | cons line lines ih =>
      obtain ⟨found, rest, hfound, hrest, rfl⟩ := loadLines_cons.1 h
      rcases List.mem_append.1 hlr with hlr | hlr
      · rw [Option.mem_toList] at hlr
        rw [hlr] at hfound
        exact ⟨line, List.mem_cons_self, hfound⟩
      · obtain ⟨line', hline', hlr⟩ := ih hrest hlr
        exact ⟨line', List.mem_cons_of_mem _ hline', hlr⟩

theorem length_loadLines_le {lines : List Bytes} {loaded : List LoadedRecord}
    (h : loadLines P lines = .ok loaded) :
    loaded.length ≤ (lines.filterMap (loadRecordLine P)).length := by
  induction lines generalizing loaded with
  | nil =>
      cases h
      exact Nat.le_refl _
  | cons line lines ih =>
      obtain ⟨found, rest, hfound, hrest, rfl⟩ := loadLines_cons.1 h
      have hle := ih hrest
      rw [List.length_append, List.filterMap_cons]
      cases hrecord : loadRecordLine P line with
      | none =>
          rw [loadLine_eq_none hrecord, Except.ok.injEq] at hfound
          rw [← hfound]
          simpa using hle
      | some value =>
          have hone : found.toList.length ≤ 1 := by cases found <;> simp
          simp only [List.length_cons]
          omega

/-- The loaders agree where every record can be hashed. -/
theorem loadLines_records_iff (hP : P.Canonicalizes) (lines : List Bytes) :
    (∃ loaded, loadLines P lines = .ok loaded ∧
      loaded.map (·.record.value) = lines.filterMap (loadRecordLine P)) ↔
      ∀ line ∈ lines, ∀ value, loadRecordLine P line = some value → isHashable value = true := by
  induction lines with
  | nil => exact ⟨fun _ => nofun, fun _ => ⟨[], rfl, rfl⟩⟩
  | cons line lines ih =>
      rw [List.forall_mem_cons, ← ih]
      cases hrecord : loadRecordLine P line with
      | none =>
          have hnone := loadLine_eq_none hrecord
          rw [List.filterMap_cons, hrecord]
          constructor
          · rintro ⟨loaded, hloaded, hvalues⟩
            obtain ⟨found, rest, hfound, hrest, rfl⟩ := loadLines_cons.1 hloaded
            rw [hnone, Except.ok.injEq] at hfound
            rw [← hfound] at hvalues
            exact ⟨nofun, rest, hrest, hvalues⟩
          · rintro ⟨-, rest, hrest, hvalues⟩
            exact ⟨rest, loadLines_cons.2 ⟨none, rest, hnone, hrest, rfl⟩, hvalues⟩
      | some value =>
          rw [List.filterMap_cons, hrecord]
          constructor
          · rintro ⟨loaded, hloaded, hvalues⟩
            obtain ⟨found, rest, hfound, hrest, rfl⟩ := loadLines_cons.1 hloaded
            cases found with
            | none =>
                -- there are too few records for the lines that follow
                have hlength := congrArg List.length hvalues
                have hle := length_loadLines_le hrest
                simp only [Option.toList_none, List.nil_append, List.length_map,
                  List.length_cons] at hlength
                omega
            | some lr =>
                obtain ⟨hvalue, hvalues⟩ := List.cons.inj hvalues
                refine ⟨fun value' hvalue' => ?_, rest, hrest, hvalues⟩
                rw [← Option.some.inj hvalue']
                exact (loadLine_iff hP hrecord).1 ⟨lr, hfound, hvalue⟩
          · rintro ⟨hhashable, rest, hrest, hvalues⟩
            obtain ⟨lr, hlr, hvalue⟩ := (loadLine_iff hP hrecord).2 (hhashable value rfl)
            refine ⟨lr :: rest, loadLines_cons.2 ⟨some lr, rest, hlr, hrest, rfl⟩, ?_⟩
            rw [List.map_cons, hvalue, hvalues]

/-- What each line yields by itself, as a file of its own. -/
theorem mapM_parseLoadedJsonl {lines : List Bytes} {loaded : List LoadedRecord}
    (hlines : ∀ line ∈ lines, splitLF line = [line]) (h : loadLines P lines = .ok loaded) :
    ∃ parts, lines.mapM (parseLoadedJsonl P) = .ok parts ∧ loaded = parts.flatten := by
  induction lines generalizing loaded with
  | nil =>
      cases h
      exact ⟨[], rfl, rfl⟩
  | cons line lines ih =>
      obtain ⟨hline, hlines⟩ := List.forall_mem_cons.1 hlines
      obtain ⟨found, rest, hfound, hrest, rfl⟩ := loadLines_cons.1 h
      obtain ⟨parts, hparts, rfl⟩ := ih hlines hrest
      have hfirst : parseLoadedJsonl P line = .ok found.toList := by
        rw [parseLoadedJsonl, hline]
        exact loadLines_cons.2 ⟨found, [], hfound, rfl, (List.append_nil _).symm⟩
      refine ⟨found.toList :: parts, ?_, rfl⟩
      rw [List.mapM_cons, hfirst, hparts]
      rfl

/-- The file is loaded, line by line, with the hash of each record, and with the records that
the other loader returns. -/
structure LineLocal (P : Platform) (raw : Bytes) (loaded : List LoadedRecord) : Prop where
  loads : parseLoadedJsonl P raw = .ok loaded
  lines : ∃ parts, (splitLF raw).mapM (parseLoadedJsonl P) = .ok parts ∧ loaded = parts.flatten
  hashes : ∀ lr ∈ loaded, computeRecordHash P lr.record = .ok lr.recordHash
  records : loaded.map (·.record.value) = loadRecords P raw

namespace LineSample

open ForgedSample (canonicalText)

/-- A record with one member more. -/
def recordWith (member : String × JsValue) : JsValue :=
  .object [("chain_root", .string ""), ("context_id", .string ""), ("creator_key", .string ""),
    ("event_type", .string ""), ("signature", .string ""), ("spec_version", .string ""), member]

def textWith (member : String) : String :=
  "\x7b\"chain_root\":\"\",\"context_id\":\"\",\"creator_key\":\"\",\"event_type\":\"\"," ++
    "\"signature\":\"\",\"spec_version\":\"\"," ++ member ++ "\x7d"

/-- A line with its record. -/
structure Line where
  text : String
  record : JsValue

def timed : Line := ⟨textWith "\"timestamp\":2", recordWith ("timestamp", .number (.finite 2))⟩

def timeless : Line := ⟨textWith "\"note\":\"\"", recordWith ("note", .string "")⟩

/-- The timestamp is a number, and another one is greater than all numbers. -/
def overflowing : Line :=
  ⟨textWith "\"timestamp\":2,\"amount\":1e400", .object [("chain_root", .string ""),
    ("context_id", .string ""), ("creator_key", .string ""), ("event_type", .string ""),
    ("signature", .string ""), ("spec_version", .string ""),
    ("timestamp", .number (.finite 2)), ("amount", .number (.infinite false))]⟩

/-- JSON of one line, and JCS. -/
def platform (line : Line) : Platform := { ForgedSample.platform.mirror with
  canonicalize := fun value =>
    if hasFiniteNumbers value then .ok (some (canonicalText value))
    else .error "Infinity is not allowed"
  parse := fun bytes => if bytes = utf8 line.text then some line.record else none }

theorem canonicalizes {line : Line} (h : isJson line.record = true) :
    (platform line).Canonicalizes where
  json bytes value hparse := by
    simp only [platform] at hparse
    split at hparse
    · rw [← Option.some.inj hparse]
      exact h
    · cases hparse
  canonical members _ := by
    simp only [platform]
    split
    · next hfinite => exact iff_of_true ⟨_, rfl⟩ hfinite
    · next hfinite => exact iff_of_false nofun hfinite

theorem splitLF_text : ∀ line ∈ [timed, timeless, overflowing],
    splitLF (utf8 line.text) = [utf8 line.text] := by
  have hnone : ∀ line ∈ [timed, timeless, overflowing],
      LF ∉ line.text.toByteArray.data.toList := by decide +kernel
  intro line hline
  refine Lib.Lines.lines_of_no_newline ?_
  rw [utf8_eq_data]
  exact hnone line hline

theorem loadRecordLine_text : ∀ line ∈ [timed, timeless, overflowing],
    loadRecordLine (platform line) (utf8 line.text) = some line.record := by
  have hblank : ∀ line ∈ [timed, timeless, overflowing],
      ForgedSample.platform.mirror.isBlank line.text.toByteArray.data.toList = false ∧
        extractRecord line.record = some line.record := by decide +kernel
  intro line hline
  obtain ⟨hblank, hrecord⟩ := hblank line hline
  rw [← utf8_eq_data] at hblank
  rw [loadRecordLine, show (platform line).isBlank (utf8 line.text) = false from hblank,
    show (platform line).parse (utf8 line.text) = some line.record from if_pos rfl]
  exact hrecord

theorem not_lineLocal : ∀ line ∈ [timeless, overflowing],
    ¬∃ loaded, LineLocal (platform line) (utf8 line.text) loaded := by
  have hjson : ∀ line ∈ [timeless, overflowing], isJson line.record = true ∧
      isHashable line.record = false := by decide +kernel
  rintro line hline ⟨loaded, h⟩
  obtain ⟨hjson, hhashable⟩ := hjson line hline
  have hall := (loadLines_records_iff (canonicalizes hjson) (splitLF (utf8 line.text))).1
    ⟨loaded, h.loads, h.records⟩
  rw [splitLF_text line (List.mem_cons_of_mem _ hline)] at hall
  have htrue := hall _ List.mem_cons_self _ (loadRecordLine_text line (List.mem_cons_of_mem _ hline))
  rw [hhashable] at htrue
  cases htrue

end LineSample

end Atrib.Recall.Mirror
