import Atrib.Proofs.CommittedRecords
import Atrib.Proofs.Encodings
import Atrib.Proofs.MirrorLoads

/-!
# What a forged line can do to a verified record

Recall verifies the records of the page it returns, and nothing before that: the
annotations and the revisions are taken from all lines of the mirror. So a line
that does not verify has its say about every record, and two mirrors that differ
in such lines only are told apart by what recall makes of a verified record,
unless the lines win nothing: no label, no topic, no summary and no revision.
-/

namespace Atrib.Recall.Mirror

open Lib (InsertionMap Interleaved JsValue bind_ok membersOf mem_membersOf sortBy)

variable (P : RecallPlatform)

/-! ## Two mirrors -/

/-- The line has no record that verifies. -/
def Forged (line : Bytes) : Prop :=
  ∀ lr, loadLine P.mirror line = .ok (some lr) → verified P lr.record = false

structure AddsForged (disk : Disk) (added : List Bytes) (disk' : Disk) : Prop where
  interleaved : Interleaved disk.lines added disk'.lines
  forged : ∀ line ∈ added, Forged P line

/-- The arguments of a call that returns what verifies, the newest first. -/
def RecallArgs.Plain (args : RecallArgs) : Prop :=
  args.includeUnverified = false ∧ args.rankBy = .timestamp

/-- Recall makes the same of a record with the one snapshot and the other. -/
def SameRecall (snapshot snapshot' : LoadedMirrorSnapshot) (lr : LoadedRecord) : Prop :=
  ∀ args : RecallArgs, args.Plain →
    (lr ∈ filtered P args snapshot ↔ lr ∈ filtered P args snapshot') ∧
    annotateVerification P snapshot.annotationsByRecord snapshot.revisionsByRecord lr =
      annotateVerification P snapshot'.annotationsByRecord snapshot'.revisionsByRecord lr

def NoInfluence (disk disk' : Disk) : Prop :=
  ∀ snapshot, getLoadedMirrorSnapshot P.mirror disk none = .ok snapshot →
    ∃ snapshot', getLoadedMirrorSnapshot P.mirror disk' none = .ok snapshot' ∧
      ∀ lr ∈ snapshot.loaded, verified P lr.record = true → SameRecall P snapshot snapshot' lr

/-! ## Lines that win nothing -/

/-- Of the annotations of a record, those that have been added do not show. -/
structure Unnoticed (there added all : List LoadedRecord) : Prop where
  present : added ≠ [] → there ≠ []
  label : ∀ label, maxImportance (all.filterMap LoadedRecord.label) = some label →
    maxImportance (there.filterMap LoadedRecord.label) = some label
  topics : ∀ lr ∈ added, ∀ topic ∈ lr.topics, ∃ lr' ∈ there, topic ∈ lr'.topics
  summary : ∀ newest, HasNewest all newest →
    ∃ newest', HasNewest there newest' ∧ newest'.summary = newest.summary

/-- Every added record has a canonical form, and none revises a verified record of the mirror or
wins anything among its annotations. -/
def WinsNothing (lines added lines' : List Bytes) : Prop :=
  ∀ loaded, loadLines P.mirror lines = .ok loaded →
    ∃ forged loaded', loadLines P.mirror added = .ok forged ∧
      loadLines P.mirror lines' = .ok loaded' ∧
      ∀ lr ∈ loaded, verified P lr.record = true →
        (∀ lr' ∈ forged, lr'.revised ≠ some lr.recordHash) ∧
        Unnoticed (annotationsOf loaded lr.recordHash) (annotationsOf forged lr.recordHash)
          (annotationsOf loaded' lr.recordHash)

theorem Unnoticed.refl (there : List LoadedRecord) : Unnoticed there [] there where
  present hne := absurd rfl hne
  label _ := id
  topics _ h := absurd h List.not_mem_nil
  summary newest hnewest := ⟨newest, hnewest, rfl⟩

/-! ## What the filters look at -/

section

variable {P} {annotationsByRecord annotationsByRecord' : InsertionMap RecordHash AnnotationSummary}
  {revisionsByRecord revisionsByRecord' : InsertionMap RecordHash (List RecordHash)}

theorem foldl_filter (filters : List (LoadedRecord → Bool)) (records : List LoadedRecord) :
    filters.foldl (fun records selected => records.filter selected) records =
      records.filter fun lr => filters.all (· lr) := by
  induction filters generalizing records with
  | nil => simp
  | cons selected filters ih =>
      rw [List.foldl_cons, ih, List.filter_filter]
      refine List.filter_congr fun lr _ => ?_
      rw [List.all_cons, Bool.and_comm]

theorem mem_filtered {args : RecallArgs} {snapshot : LoadedMirrorSnapshot} {lr : LoadedRecord} :
    lr ∈ filtered P args snapshot ↔ lr ∈ snapshot.loaded ∧
      args.selects P snapshot.annotationsByRecord snapshot.revisionsByRecord lr = true := by
  rw [filtered, foldl_filter, List.mem_filter, RecallArgs.selects]

/-- A filter asks for what is said of the record, and for nothing else in the maps. -/
theorem selects_congr (args : RecallArgs) {lr : LoadedRecord}
    (hannotations : annotationsByRecord.get? lr.recordHash = annotationsByRecord'.get? lr.recordHash)
    (hrevisions : revisionsByRecord.get? lr.recordHash = revisionsByRecord'.get? lr.recordHash) :
    args.selects P annotationsByRecord revisionsByRecord lr =
      args.selects P annotationsByRecord' revisionsByRecord' lr := by
  have hall : ∀ asked : List (Option (LoadedRecord → Bool)),
      asked.reduceOption.all (· lr) = asked.all fun selected => selected.all (· lr) := by
    intro asked
    rw [List.reduceOption, List.all_filterMap]
    refine List.all_congr rfl fun selected => ?_
    cases selected <;> rfl
  have hhas : revisionsByRecord.has lr.recordHash = revisionsByRecord'.has lr.recordHash := by
    rw [has_eq_isSome_get?, has_eq_isSome_get?, hrevisions]
  simp only [RecallArgs.selects, RecallArgs.filters, hall, List.all_cons, List.all_nil,
    Option.all_map, hannotations]
  congr 8
  · split
    · rfl
    · simp only [Option.all_some, hannotations]
  · split
    · simp only [Option.all_some, hhas]
    · rfl

end

/-! ## What is said of a record in both mirrors -/

section

variable {there added all : List LoadedRecord}

theorem label_iff (h : Interleaved there added all) :
    (binOf there).result.maxImportance = (binOf all).result.maxImportance ↔
      ∀ label, maxImportance (all.filterMap LoadedRecord.label) = some label →
        maxImportance (there.filterMap LoadedRecord.label) = some label := by
  show maxImportance _ = maxImportance _ ↔ _
  rw [importances_binOf, importances_binOf]
  constructor
  · intro heq label hlabel
    rw [heq, hlabel]
  · intro hwins
    cases hall : maxImportance (all.filterMap LoadedRecord.label) with
    | some label => exact hwins label hall
    | none =>
        have hsub := h.sublist.filterMap LoadedRecord.label
        rw [maxImportance_eq_none.1 hall] at hsub
        exact maxImportance_eq_none.2 (List.sublist_nil.1 hsub)

theorem topics_iff (h : Interleaved there added all) :
    (binOf there).result.topics = (binOf all).result.topics ↔
      ∀ lr ∈ added, ∀ topic ∈ lr.topics, ∃ lr' ∈ there, topic ∈ lr'.topics := by
  rw [result_topics_eq_iff]
  simp only [mem_topics_binOf, h.mem_iff]
  constructor
  · intro hsame lr hlr topic htopic
    exact (hsame topic).2 ⟨lr, Or.inr hlr, htopic⟩
  · intro hthere topic
    constructor
    · rintro ⟨lr, hlr, htopic⟩
      exact ⟨lr, Or.inl hlr, htopic⟩
    · rintro ⟨lr, hlr | hlr, htopic⟩
      · exact ⟨lr, hlr, htopic⟩
      · exact hthere lr hlr topic htopic

theorem summary_iff (h : Interleaved there added all) :
    (binOf there).result.summary = (binOf all).result.summary ↔
      ∀ newest, HasNewest all newest →
        ∃ newest', HasNewest there newest' ∧ newest'.summary = newest.summary := by
  show (binOf there).summary = (binOf all).summary ↔ _
  rcases summary_binOf all with ⟨hnone, hall, -⟩ | ⟨newest, hnewest, hall, -⟩
  · have hthere : (binOf there).summary = none := by
      rcases summary_binOf there with ⟨-, hthere, -⟩ | ⟨newest, hnewest, hthere, -⟩
      · exact hthere
      · rw [hthere, hnone newest (h.mem_iff.2 (Or.inl hnewest.mem.1))]
    refine iff_of_true (hthere.trans hall.symm) fun newest hnewest => ?_
    have hsome := hnewest.mem.2.1
    rw [hnone newest hnewest.mem.1] at hsome
    cases hsome
  · rw [hall]
    constructor
    · intro heq newest' hnewest'
      rw [hnewest'.unique hnewest]
      rcases summary_binOf there with ⟨-, hthere, -⟩ | ⟨first, hfirst, hthere, -⟩
      · have hsome := hnewest.mem.2.1
        rw [← heq, hthere] at hsome
        cases hsome
      · exact ⟨first, hfirst, hthere.symm.trans heq⟩
    · intro hwins
      obtain ⟨first, hfirst, hsame⟩ := hwins newest hnewest
      rcases summary_binOf there with ⟨hnone, -, -⟩ | ⟨first', hfirst', hthere, -⟩
      · have hsome := hfirst.mem.2.1
        rw [hnone first hfirst.mem.1] at hsome
        cases hsome
      · rw [hthere, hfirst'.unique hfirst, hsame]

end

section

variable {loaded forged loaded' : List LoadedRecord} (h : Interleaved loaded forged loaded')
  (hash : RecordHash)
include h

theorem annotations_iff :
    (aggregateAnnotationsByRecord loaded).get? hash =
        (aggregateAnnotationsByRecord loaded').get? hash ↔
      Unnoticed (annotationsOf loaded hash) (annotationsOf forged hash)
        (annotationsOf loaded' hash) := by
  have hgroup : Interleaved (annotationsOf loaded hash) (annotationsOf forged hash)
      (annotationsOf loaded' hash) := h.filter _
  rw [get?_annotations, get?_annotations]
  by_cases hthere : annotationsOf loaded hash = []
  · rw [if_pos hthere]
    by_cases hadded : annotationsOf forged hash = []
    · rw [hadded] at hgroup ⊢
      rw [if_pos (hgroup.eq_left.trans hthere), hgroup.eq_left]
      exact iff_of_true rfl (.refl _)
    · refine iff_of_false ?_ fun hunnoticed => hunnoticed.present hadded hthere
      obtain ⟨lr, hlr⟩ := List.exists_mem_of_ne_nil _ hadded
      rw [if_neg (List.ne_nil_of_mem (hgroup.mem_iff.2 (Or.inr hlr)))]
      exact (Option.some_ne_none _).symm
  · obtain ⟨lr, hlr⟩ := List.exists_mem_of_ne_nil _ hthere
    rw [if_neg hthere, if_neg (List.ne_nil_of_mem (hgroup.mem_iff.2 (Or.inl hlr))),
      Option.some.injEq]
    constructor
    · intro heq
      exact ⟨fun _ => hthere, (label_iff hgroup).1 (congrArg _ heq),
        (topics_iff hgroup).1 (congrArg _ heq), (summary_iff hgroup).1 (congrArg _ heq)⟩
    · intro hunnoticed
      have hlabel := (label_iff hgroup).2 hunnoticed.label
      have htopics := (topics_iff hgroup).2 hunnoticed.topics
      have hsummary := (summary_iff hgroup).2 hunnoticed.summary
      revert hlabel htopics hsummary
      cases (binOf (annotationsOf loaded hash)).result
      cases (binOf (annotationsOf loaded' hash)).result
      rintro rfl rfl rfl
      rfl

/-- Revisions are counted, so one that is added shows. -/
theorem revisions_iff (P : Platform) :
    (aggregateRevisionsByRecord P loaded).get? hash =
        (aggregateRevisionsByRecord P loaded').get? hash ↔
      ∀ lr ∈ forged, lr.revised ≠ some hash := by
  have hgroup : Interleaved (revisionsOf loaded hash) (revisionsOf forged hash)
      (revisionsOf loaded' hash) := h.filter _
  have hnone : (∀ lr ∈ forged, lr.revised ≠ some hash) ↔ revisionsOf forged hash = [] := by
    rw [revisionsOf, membersOf, List.filter_eq_nil_iff]
    simp
  rw [hnone]
  constructor
  · intro heq
    have hlength := congrArg (fun found => (found.map List.length).getD 0) heq
    rw [length_revisions, length_revisions, hgroup.perm.length_eq, List.length_append] at hlength
    exact List.length_eq_zero_iff.1 (by omega)
  · intro hnil
    rw [hnil] at hgroup
    rw [get?_revisions, get?_revisions, hgroup.eq_left]

end

/-! ## The two mirrors -/

variable {P}

/-- The records of the lines stand like the lines. -/
theorem loadLines_interleaved {lines added lines' : List Bytes} {loaded forged : List LoadedRecord}
    (h : Interleaved lines added lines') (hloaded : loadLines P.mirror lines = .ok loaded)
    (hforged : loadLines P.mirror added = .ok forged) :
    ∃ loaded', loadLines P.mirror lines' = .ok loaded' ∧ Interleaved loaded forged loaded' := by
  induction h generalizing loaded forged with
  | nil =>
      cases hloaded
      cases hforged
      exact ⟨[], rfl, .nil⟩
  | left line _ ih =>
      obtain ⟨found, rest, hfound, hrest, rfl⟩ := loadLines_cons.1 hloaded
      obtain ⟨loaded', hloaded', hinterleaved⟩ := ih hrest hforged
      refine ⟨found.toList ++ loaded', loadLines_cons.2 ⟨found, loaded', hfound, hloaded', rfl⟩, ?_⟩
      cases found with
      | none => exact hinterleaved
      | some lr => exact hinterleaved.left lr
  | right line _ ih =>
      obtain ⟨found, rest, hfound, hrest, rfl⟩ := loadLines_cons.1 hforged
      obtain ⟨loaded', hloaded', hinterleaved⟩ := ih hloaded hrest
      refine ⟨found.toList ++ loaded', loadLines_cons.2 ⟨found, loaded', hfound, hloaded', rfl⟩, ?_⟩
      cases found with
      | none => exact hinterleaved
      | some lr => exact hinterleaved.right lr

/-- Lines among which one throws throw. -/
theorem loadLines_added {lines added lines' : List Bytes} {loaded' : List LoadedRecord}
    (h : Interleaved lines added lines') (hloaded' : loadLines P.mirror lines' = .ok loaded') :
    ∃ forged, loadLines P.mirror added = .ok forged := by
  induction h generalizing loaded' with
  | nil => exact ⟨[], rfl⟩
  | left line _ ih =>
      obtain ⟨_, rest, _, hrest, -⟩ := loadLines_cons.1 hloaded'
      exact ih hrest
  | right line _ ih =>
      obtain ⟨found, rest, hfound, hrest, -⟩ := loadLines_cons.1 hloaded'
      obtain ⟨forged, hforged⟩ := ih hrest
      exact ⟨found.toList ++ forged, loadLines_cons.2 ⟨found, forged, hfound, hforged, rfl⟩⟩

/-- What recall makes of a record is what is said of it. -/
theorem sameRecall_iff {snapshot snapshot' : LoadedMirrorSnapshot} {forged : List LoadedRecord}
    (h : Interleaved snapshot.loaded forged snapshot'.loaded)
    (hannotations : snapshot.annotationsByRecord = aggregateAnnotationsByRecord snapshot.loaded)
    (hannotations' : snapshot'.annotationsByRecord = aggregateAnnotationsByRecord snapshot'.loaded)
    (hrevisions : snapshot.revisionsByRecord = aggregateRevisionsByRecord P.mirror snapshot.loaded)
    (hrevisions' :
      snapshot'.revisionsByRecord = aggregateRevisionsByRecord P.mirror snapshot'.loaded)
    {lr : LoadedRecord} (hlr : lr ∈ snapshot.loaded) :
    SameRecall P snapshot snapshot' lr ↔
      (∀ lr' ∈ forged, lr'.revised ≠ some lr.recordHash) ∧
      Unnoticed (annotationsOf snapshot.loaded lr.recordHash) (annotationsOf forged lr.recordHash)
        (annotationsOf snapshot'.loaded lr.recordHash) := by
  rw [← annotations_iff h, ← revisions_iff h _ P.mirror, ← hannotations, ← hannotations',
    ← hrevisions, ← hrevisions']
  constructor
  · intro hsame
    have hbundle := (hsame {} ⟨rfl, rfl⟩).2
    refine ⟨?_, congrArg VerifiedBundle.annotations hbundle⟩
    have hsuperseded := congrArg VerifiedBundle.supersededBy hbundle
    simp only [annotateVerification] at hsuperseded
    rwa [hrevisions, hrevisions', filter_revisions, filter_revisions, ← hrevisions,
      ← hrevisions'] at hsuperseded
  · rintro ⟨hrev, hann⟩ args -
    constructor
    · rw [mem_filtered, mem_filtered, selects_congr args hann hrev]
      exact and_congr_left fun _ => iff_of_true hlr (h.mem_iff.2 (Or.inl hlr))
    · rw [annotateVerification, annotateVerification, hann, hrev]

section

variable {disk disk' : Disk} {added : List Bytes} (hadds : AddsForged P disk added disk')
include hadds

theorem NoInfluence.winsNothing (hno : NoInfluence P disk disk') :
    WinsNothing P disk.lines added disk'.lines := by
  intro loaded hloaded
  obtain ⟨files, hfound⟩ := discoverLoaded_ok.2 hloaded
  obtain ⟨snapshot', hget', hsame⟩ :=
    hno _ (getLoadedMirrorSnapshot_none.2 ⟨loaded, files, hfound, rfl⟩)
  obtain ⟨loaded', files', hfound', rfl⟩ := getLoadedMirrorSnapshot_none.1 hget'
  have hloaded' := discoverLoaded_ok.1 ⟨files', hfound'⟩
  obtain ⟨forged, hforged⟩ := loadLines_added hadds.interleaved hloaded'
  obtain ⟨loaded'', heq, hinterleaved⟩ := loadLines_interleaved hadds.interleaved hloaded hforged
  obtain rfl : loaded' = loaded'' := Except.ok.inj (hloaded'.symm.trans heq)
  refine ⟨forged, loaded', hforged, hloaded', fun lr hlr hverified => ?_⟩
  exact (sameRecall_iff hinterleaved rfl rfl rfl rfl hlr).1 (hsame lr hlr hverified)

theorem WinsNothing.noInfluence (hwins : WinsNothing P disk.lines added disk'.lines) :
    NoInfluence P disk disk' := by
  intro snapshot hget
  obtain ⟨loaded, files, hfound, rfl⟩ := getLoadedMirrorSnapshot_none.1 hget
  have hloaded := discoverLoaded_ok.1 ⟨files, hfound⟩
  obtain ⟨forged, loaded', hforged, hloaded', hall⟩ := hwins loaded hloaded
  obtain ⟨loaded'', heq, hinterleaved⟩ := loadLines_interleaved hadds.interleaved hloaded hforged
  obtain rfl : loaded' = loaded'' := Except.ok.inj (hloaded'.symm.trans heq)
  obtain ⟨files', hfound'⟩ := discoverLoaded_ok.2 hloaded'
  refine ⟨_, getLoadedMirrorSnapshot_none.2 ⟨loaded', files', hfound', rfl⟩, ?_⟩
  intro lr hlr hverified
  exact (sameRecall_iff hinterleaved rfl rfl rfl rfl hlr).2 (hall lr hlr hverified)

/-- Forged lines change nothing that is recalled of a verified record just when they win
nothing. -/
theorem noInfluence_iff : NoInfluence P disk disk' ↔ WinsNothing P disk.lines added disk'.lines :=
  ⟨NoInfluence.winsNothing hadds, WinsNothing.noInfluence hadds⟩

end

namespace ForgedSample

open LocalSubstrate (OwnerSample.recordMembers OwnerSample.signedRecord)
open Middleware (DestroySample.publicKey DestroySample.signature)

/-- A signed tool call. -/
def signedRecord : JsValue :=
  .object (OwnerSample.recordMembers.take 5 ++
    [("signature", OwnerSample.signedRecord.member "signature")] ++
    OwnerSample.recordMembers.drop 5)

/-- A line nobody has signed, of a type and about a record. -/
def forgedRecord (eventType : String) (about : List (String × JsValue)) : JsValue :=
  .object ([("chain_root", .string ""), ("context_id", .string ""), ("creator_key", .string ""),
    ("event_type", .string eventType)] ++ about ++
    [("signature", .string ""), ("spec_version", .string ""), ("timestamp", .number (.finite 2))])

def signedHash : String := "sha256:0f5101193bfc456f3f7bc475467d6f460e7e466bfd98df67ea632b0b9346a01b"

def revision : JsValue :=
  forgedRecord EVENT_TYPE_REVISION_URI [("revises", .string signedHash)]

def observation : JsValue := forgedRecord EVENT_TYPE_OBSERVATION_URI []

/-- JCS of an object with texts and natural numbers whose members stand in order. -/
def canonicalText : JsValue → String
  | .object members =>
      "\x7b" ++ ",".intercalate (members.map fun entry =>
        "\"" ++ entry.1 ++ "\":" ++
          match entry.2 with
          | .string text => "\"" ++ text ++ "\""
          | .number (.finite q) => toString q.num
          | _ => "") ++ "\x7d"
  | _ => ""

def lineOf (record : JsValue) : Bytes := utf8 (canonicalText record)

/-- JSON and JCS of the three records, and Ed25519 for the one that is signed. -/
def platform : RecallPlatform where
  mirror := {
    Middleware.DestroySample.platform with
    canonicalize := fun value => .ok (some (canonicalText value))
    verify := fun signature _ key =>
      signature = DestroySample.signature && key = DestroySample.publicKey
    isBlank := fun line => line.all ([0x09, 0x0a, 0x0b, 0x0c, 0x0d, 0x20].contains ·)
    parse := fun line => [signedRecord, revision, observation].find? (lineOf · = line)
    toLowerCase := fun text => text.map Char.toLower
    localeCompare := compare }
  now := 2
  contextIdDefault := none
  envContextId := none
  noiseFloor := 3 / 5
  parkScores _ _ _ _ := 0
  synthesizeDisplaySummary record _ _ := .ok record.eventType
  resolveDisplayProducer _ producer := producer.getD ""
  formatAge _ := .ok "0s"
  projection := {
    verifyRecord := fun _ => true
    localeCompare := compare }

def mirrorOf (lines : List Bytes) : Disk :=
  .dir "records" [⟨"records/agent.jsonl", (lines.map (· ++ [LF])).flatten, 1, 1⟩]

theorem lines_mirrorOf {lines : List Bytes} (hlines : ∀ line ∈ lines, LF ∉ line) :
    (mirrorOf lines).lines = lines ++ [[]] := by
  have hsplit : splitLF (lines.map (· ++ [LF])).flatten = lines ++ [[]] := by
    induction lines with
    | nil => rfl
    | cons line lines ih =>
        rw [List.map_cons, List.flatten_cons, List.append_assoc, List.singleton_append, splitLF,
          Lib.Lines.lines_newline (hlines line List.mem_cons_self)]
        exact congrArg _ (ih fun line' h => hlines line' (List.mem_cons_of_mem _ h))
  show splitLF _ ++ [] = _
  rw [List.append_nil, hsplit]

theorem noLF : ∀ line ∈ [signedRecord, revision, observation].map lineOf, LF ∉ line := by
  simp only [List.forall_mem_map, lineOf, utf8_eq_data]
  decide +kernel

theorem parse_lineOf : ∀ record ∈ [signedRecord, revision, observation],
    platform.mirror.parse (lineOf record) = some record := by
  have hline : ∀ a b, decide (lineOf a = lineOf b) = decide (canonicalText a = canonicalText b) :=
    fun a b => decide_eq_decide.2 ⟨fun h => utf8_inj h, fun h => congrArg utf8 h⟩
  simp only [platform, hline]
  decide +kernel

theorem isBlank_lineOf : ∀ record ∈ [signedRecord, revision, observation],
    platform.mirror.isBlank (lineOf record) = false := by
  decide +kernel

/-- What the reader makes of a line. -/
def loadedOf (record : JsValue) : Option LoadedRecord := do
  let (found, content, producer) ← extractLoaded platform.mirror record
  let recordHash ← (computeRecordHash platform.mirror found).toOption
  return ⟨found, recordHash, content, producer⟩

theorem loadLine_lineOf {record : JsValue} (hrecord : record ∈ [signedRecord, revision, observation])
    {lr : LoadedRecord} (hlr : loadedOf record = some lr) :
    loadLine platform.mirror (lineOf record) = .ok (some lr) := by
  obtain ⟨⟨found, content, producer⟩, hfound, hlr⟩ := Option.bind_eq_some_iff.1 hlr
  obtain ⟨recordHash, hhash, hlr⟩ := Option.bind_eq_some_iff.1 hlr
  cases hlr
  have hok : computeRecordHash platform.mirror found = .ok recordHash := by
    cases h : computeRecordHash platform.mirror found with
    | error e => rw [h] at hhash; cases hhash
    | ok hash => rw [h] at hhash; cases hhash; rfl
  rw [loadLine, isBlank_lineOf record hrecord, if_neg Bool.false_ne_true, parse_lineOf record hrecord,
    Option.bind_some, hfound]
  dsimp only
  rw [hok]
  rfl

/-- What a line revises and annotates, and whether it verifies. -/
def verdict (lr : LoadedRecord) : Option String × Option String × Bool :=
  (lr.revised.map (·.val), lr.annotationTarget.map (·.val), verified platform lr.record)

theorem verdict_signed : (loadedOf signedRecord).map verdict = some (none, none, true) := by
  unfold verdict
  simp only [verified, Middleware.verifyRecord, Middleware.verifySignature, Middleware.decodeText,
    Verify.base64urlDecode_eq, Middleware.isHex32, platform, DestroySample.publicKey,
    DestroySample.signature, toList_eq_charsOf]
  decide +kernel

theorem hash_signed {lr : LoadedRecord} (h : loadedOf signedRecord = some lr) :
    lr.recordHash.val = signedHash := by
  have hdigest : sha256Ref (Hash.fips180.sha256
      (canonicalText signedRecord).toByteArray.data.toList) = signedHash := by
    decide +kernel
  rw [← utf8_eq_data] at hdigest
  cases h
  exact hdigest

theorem verdict_revision :
    (loadedOf revision).map verdict = some (some signedHash, none, false) := by
  decide +kernel

theorem verdict_observation : (loadedOf observation).map verdict = some (none, none, false) := by
  decide +kernel

theorem exists_loadedOf {record : JsValue} {v : Option String × Option String × Bool}
    (h : (loadedOf record).map verdict = some v) :
    ∃ lr, loadedOf record = some lr ∧ verdict lr = v := Option.map_eq_some_iff.1 h

theorem adds {record : JsValue} (hrecord : record ∈ [signedRecord, revision, observation])
    {revised annotated : Option String}
    (hverdict : (loadedOf record).map verdict = some (revised, annotated, false)) :
    AddsForged platform (mirrorOf [lineOf signedRecord]) [lineOf record]
      (mirrorOf [lineOf signedRecord, lineOf record]) where
  interleaved := by
    rw [lines_mirrorOf (by simpa using noLF _ (List.mem_map_of_mem List.mem_cons_self)),
      lines_mirrorOf fun line hline => ?_]
    · exact .left _ (.right _ (.left _ .nil))
    · rcases List.mem_cons.1 hline with rfl | hline
      · exact noLF _ (List.mem_map_of_mem List.mem_cons_self)
      · rw [List.mem_singleton.1 hline]
        exact noLF _ (List.mem_map_of_mem hrecord)
  forged line hline lr hlr := by
    obtain ⟨lr', hlr', hv⟩ := exists_loadedOf hverdict
    rw [List.mem_singleton.1 hline, loadLine_lineOf hrecord hlr'] at hlr
    cases hlr
    exact congrArg (fun v => v.2.2) hv

/-- The mirror has one record, and it verifies. -/
theorem loadLines_signed : ∃ lr, loadLines platform.mirror [lineOf signedRecord, []] = .ok [lr] ∧
    lr.recordHash.val = signedHash ∧ verified platform lr.record = true := by
  obtain ⟨lr, hlr, hv⟩ := exists_loadedOf verdict_signed
  refine ⟨lr, ?_, hash_signed hlr, congrArg (fun v => v.2.2) hv⟩
  exact loadLines_cons.2 ⟨some lr, [], loadLine_lineOf List.mem_cons_self hlr,
    loadLines_cons.2 ⟨none, [], rfl, rfl, rfl⟩, rfl⟩

theorem loadLines_one {record : JsValue} (hrecord : record ∈ [signedRecord, revision, observation])
    {lr : LoadedRecord} (hlr : loadedOf record = some lr) :
    loadLines platform.mirror [lineOf record] = .ok [lr] :=
  loadLines_cons.2 ⟨some lr, [], loadLine_lineOf hrecord hlr, rfl, rfl⟩

/-- A revision that nobody has signed supersedes a record that verifies. -/
theorem forged_revision_supersedes :
    AddsForged platform (mirrorOf [lineOf signedRecord]) [lineOf revision]
        (mirrorOf [lineOf signedRecord, lineOf revision]) ∧
      ¬NoInfluence platform (mirrorOf [lineOf signedRecord])
        (mirrorOf [lineOf signedRecord, lineOf revision]) := by
  have hadds := adds (by simp) verdict_revision
  refine ⟨hadds, fun hno => ?_⟩
  obtain ⟨lr, hloaded, hhash, hverified⟩ := loadLines_signed
  have hlines := @lines_mirrorOf [lineOf signedRecord]
    (by simpa using noLF _ (List.mem_map_of_mem List.mem_cons_self))
  obtain ⟨forged, _, hforged, -, hall⟩ := hno.winsNothing hadds [lr] (by rw [hlines]; exact hloaded)
  obtain ⟨lr', hlr', hv⟩ := exists_loadedOf verdict_revision
  rw [loadLines_one (by simp) hlr'] at hforged
  cases hforged
  refine (hall lr List.mem_cons_self hverified).1 lr' List.mem_cons_self ?_
  obtain ⟨target, htarget, hval⟩ := Option.map_eq_some_iff.1 (congrArg Prod.fst hv)
  rw [htarget, Subtype.ext (hval.trans hhash.symm)]

theorem noInfluence_of_observation :
    NoInfluence platform (mirrorOf [lineOf signedRecord])
      (mirrorOf [lineOf signedRecord, lineOf observation]) := by
  refine (noInfluence_iff (adds (by simp) verdict_observation)).2 ?_
  intro loaded hloaded
  obtain ⟨lr', hlr', hv⟩ := exists_loadedOf verdict_observation
  have hforged := loadLines_one (by simp) hlr'
  have hinterleaved := (adds (by simp) verdict_observation).interleaved
  obtain ⟨loaded', hloaded', hinterleaved⟩ := loadLines_interleaved hinterleaved hloaded hforged
  refine ⟨[lr'], loaded', hforged, hloaded', fun lr _ _ => ⟨fun lr'' hlr'' => ?_, ?_⟩⟩
  · rw [List.mem_singleton.1 hlr'', Option.map_eq_none_iff.1 (congrArg Prod.fst hv)]
    exact (Option.some_ne_none _).symm
  · have hadded : annotationsOf [lr'] lr.recordHash = [] := by
      have hnone := Option.map_eq_none_iff.1 (congrArg (fun v => v.2.1) hv)
      simp [annotationsOf, membersOf, hnone]
    have hgroup : Interleaved (annotationsOf loaded lr.recordHash)
        (annotationsOf [lr'] lr.recordHash) (annotationsOf loaded' lr.recordHash) :=
      hinterleaved.filter _
    rw [hadded] at hgroup ⊢
    rw [hgroup.eq_left]
    exact Unnoticed.refl _

end ForgedSample

end Atrib.Recall.Mirror
