import Atrib.Lib.Effect
import Atrib.Lib.Scans
import Atrib.Python.Recall
import Mathlib.Data.List.ReduceOption

/-!
# When recall is exact

The loop takes the lines that match, from the newest on, until it has as many as
it was asked for, and one if it was asked for none. So what it gives is the first
distinct records just when no record stands twice among those, as each does when
both mirrors are one file. It raises where a line nests too deep to be read, and
where a record that it comes to cannot be verified or hashed.
-/

namespace Atrib.Python.Recall

open Lib (PyValue bind_ok bind_eq_ok mapM_cons_eq_ok firstsOf firstsOf_sublist nodup_firstsOf
  take_firstsOf)

section

variable (P : Platform) (client : Client) (args : RecallArgs)

/-! ## Reading -/

/-- Every line is read or found malformed. -/
def Readable (file : Option Bytes) : Prop :=
  ∀ line ∈ file.elim [] textLines, ∃ value, P.loads line = .ok value

/-- The line of the mirror that a text is, if it is one. -/
def lineOf (text : String) : Option MirrorLine :=
  (P.loads text).toOption.join.bind mirrorLineOf

/-- The lines of the file that are well formed. -/
def mirrorLines (file : Option Bytes) : List MirrorLine :=
  (file.elim [] textLines).filterMap (lineOf P)

theorem parseMirrorLine_ok_iff {text : String} {parsed : Option MirrorLine} :
    parseMirrorLine P.loads text = .ok parsed ↔
      (∃ value, P.loads text = .ok value) ∧ parsed = lineOf P text := by
  rw [parseMirrorLine, lineOf, bind_eq_ok]
  constructor
  · rintro ⟨value, hvalue, h⟩
    cases h
    rw [hvalue]
    exact ⟨⟨value, rfl⟩, rfl⟩
  · rintro ⟨⟨value, hvalue⟩, rfl⟩
    rw [hvalue]
    exact ⟨value, rfl, rfl⟩

theorem mapM_parseMirrorLine {texts : List String} {parsed : List (Option MirrorLine)} :
    texts.mapM (parseMirrorLine P.loads) = .ok parsed ↔
      (∀ text ∈ texts, ∃ value, P.loads text = .ok value) ∧ parsed = texts.map (lineOf P) := by
  induction texts generalizing parsed with
  | nil => simp [pure, Except.pure, eq_comm]
  | cons text texts ih =>
      rw [mapM_cons_eq_ok, List.forall_mem_cons, List.map_cons]
      constructor
      · rintro ⟨first, rest, hfirst, hrest, rfl⟩
        obtain ⟨hread, rfl⟩ := (parseMirrorLine_ok_iff P).1 hfirst
        obtain ⟨hreads, rfl⟩ := ih.1 hrest
        exact ⟨⟨hread, hreads⟩, rfl⟩
      · rintro ⟨⟨hread, hreads⟩, rfl⟩
        exact ⟨_, _, (parseMirrorLine_ok_iff P).2 ⟨hread, rfl⟩, ih.2 ⟨hreads, rfl⟩, rfl⟩

theorem readMirror_ok_iff {file : Option Bytes} {lines : List MirrorLine} :
    readMirror P.loads file = .ok lines ↔ Readable P file ∧ lines = mirrorLines P file := by
  have hreduce : ∀ texts : List String,
      (texts.map (lineOf P)).reduceOption = texts.filterMap (lineOf P) := fun texts => by
    rw [List.reduceOption, List.filterMap_map]
    rfl
  cases file with
  | none => simp [readMirror, Readable, mirrorLines, eq_comm]
  | some data =>
      rw [readMirror, bind_eq_ok, Readable, mirrorLines]
      constructor
      · rintro ⟨parsed, hparsed, h⟩
        cases h
        obtain ⟨hread, rfl⟩ := (mapM_parseMirrorLine P).1 hparsed
        exact ⟨hread, hreduce _⟩
      · rintro ⟨hread, rfl⟩
        exact ⟨_, (mapM_parseMirrorLine P).2 ⟨hread, rfl⟩, congrArg Except.ok (hreduce _)⟩

/-! ## What the loop takes -/

/-- The record passes the filters, and verifies if this is asked for. -/
def matchesFilters (line : MirrorLine) : Bool :=
  passes client args line.record &&
    (!args.verifySignatures || (P.verifyRecord line.record).toOption == some true)

def hashOf (line : MirrorLine) : String := (recordHashRef P line.record).toOption.getD ""

/-- The entry of a line that is taken. -/
def entryFor (line : MirrorLine) : RecallEntry :=
  entryOf line (hashOf P line) (if args.verifySignatures then some true else none)

/-- Nothing that the loop does with the line raises. -/
def Sound (line : MirrorLine) : Prop :=
  (passes client args line.record = true → args.verifySignatures = true →
    ∃ answer, P.verifyRecord line.record = .ok answer) ∧
  (matchesFilters P client args line = true → ∃ hash, recordHashRef P line.record = .ok hash)

/-- As many as are asked for, but one at least. -/
def wanted : ℕ := max 1 args.limit.toNat

/-- Nothing raises before that many lines are taken. -/
def SoundUntil : ℕ → List MirrorLine → Prop
  | 0, _ => True
  | _, [] => True
  | n + 1, line :: lines =>
      Sound P client args line ∧
        SoundUntil (if matchesFilters P client args line then n else n + 1) lines

/-- The rest of the loop, when a line is taken. -/
theorem taken_ok_iff {line : MirrorLine} {lines : List MirrorLine}
    {records found : List RecallEntry} (hfew : records.length < wanted args)
    {verified : Option Bool}
    (hverified : verified = if args.verifySignatures then some true else none) :
    (do
      let records := records ++ [entryOf line (← recordHashRef P line.record) verified]
      if args.limit ≤ records.length then return records
      else recallLoop P client args lines records) = Except.ok found ↔
      (∃ hash, recordHashRef P line.record = .ok hash) ∧
        if records.length + 1 < wanted args then
          recallLoop P client args lines (records ++ [entryFor P args line]) = .ok found
        else found = records ++ [entryFor P args line] := by
  rw [bind_eq_ok]
  have hentry : ∀ hash, recordHashRef P line.record = .ok hash →
      entryOf line hash verified = entryFor P args line := fun hash hhash => by
    rw [entryFor, hashOf, hhash, hverified]
    rfl
  have hlimit :
      args.limit ≤ ((records.length + 1 : ℕ) : ℤ) ↔ ¬records.length + 1 < wanted args := by
    rw [wanted] at hfew ⊢
    omega
  have hone : ∀ hash, recordHashRef P line.record = .ok hash → ((if args.limit ≤
      ((records ++ [entryOf line hash verified]).length : ℤ) then
        return records ++ [entryOf line hash verified]
      else recallLoop P client args lines (records ++ [entryOf line hash verified])) =
        Except.ok found ↔
      if records.length + 1 < wanted args then
        recallLoop P client args lines (records ++ [entryFor P args line]) = .ok found
      else found = records ++ [entryFor P args line]) := by
    intro hash hhash
    rw [hentry hash hhash, List.length_append, List.length_singleton]
    by_cases hmore : records.length + 1 < wanted args
    · rw [if_neg (hlimit.not.2 (not_not.2 hmore)), if_pos hmore]
    · rw [if_pos (hlimit.2 hmore), if_neg hmore]
      simp [pure, Except.pure, eq_comm]
  constructor
  · rintro ⟨hash, hhash, h⟩
    exact ⟨⟨hash, hhash⟩, (hone hash hhash).1 h⟩
  · rintro ⟨⟨hash, hhash⟩, h⟩
    exact ⟨hash, hhash, (hone hash hhash).2 h⟩

/-- What the loop does with one line. -/
theorem recallLoop_cons_ok_iff {line : MirrorLine} {lines : List MirrorLine}
    {records found : List RecallEntry} (hfew : records.length < wanted args) :
    recallLoop P client args (line :: lines) records = .ok found ↔
      Sound P client args line ∧
        if matchesFilters P client args line then
          if records.length + 1 < wanted args then
            recallLoop P client args lines (records ++ [entryFor P args line]) = .ok found
          else found = records ++ [entryFor P args line]
        else recallLoop P client args lines records = .ok found := by
  rw [recallLoop]
  cases hpasses : passes client args line.record with
  | false => simp [Sound, matchesFilters, hpasses]
  | true =>
      rw [if_neg (by simp), bind_eq_ok]
      cases hverify : args.verifySignatures with
      | false =>
          have hmatches : matchesFilters P client args line = true := by
            simp [matchesFilters, hpasses, hverify]
          have hnone : signatureVerified P args line.record = .ok none := by
            rw [signatureVerified, hverify]
            rfl
          have hsound : Sound P client args line ↔
              ∃ hash, recordHashRef P line.record = .ok hash := by
            simp [Sound, hmatches, hverify]
          have hverified : none = if args.verifySignatures then some true else none := by
            rw [hverify]
            rfl
          rw [hnone, hmatches, if_pos rfl, hsound, ← taken_ok_iff P client args hfew hverified]
          constructor
          · rintro ⟨_, ⟨⟩, h⟩
            exact h
          · exact fun h => ⟨none, rfl, h⟩
      | true =>
          have hanswer : signatureVerified P args line.record =
              some <$> P.verifyRecord line.record := by
            rw [signatureVerified, hverify, if_pos rfl]
          have htrue : some true = if args.verifySignatures then some true else none := by
            rw [hverify]
            rfl
          rw [hanswer]
          cases hcheck : P.verifyRecord line.record with
          | error e =>
              have hunsound : ¬Sound P client args line := fun h => by
                obtain ⟨answer, hanswer⟩ := h.1 hpasses hverify
                rw [hcheck] at hanswer
                cases hanswer
              refine iff_of_false ?_ fun h => hunsound h.1
              rintro ⟨_, ⟨⟩, -⟩
          | ok answer =>
              have hmatches : matchesFilters P client args line = answer := by
                cases answer <;> simp [matchesFilters, hpasses, hverify, hcheck, Except.toOption]
              have hsound : Sound P client args line ↔
                  (answer = true → ∃ hash, recordHashRef P line.record = .ok hash) := by
                simp [Sound, hmatches, hcheck]
              rw [hmatches]
              cases answer with
              | false =>
                  rw [hsound, if_neg Bool.false_ne_true]
                  constructor
                  · rintro ⟨_, ⟨⟩, h⟩
                    exact ⟨fun h => absurd h Bool.false_ne_true, h⟩
                  · exact fun h => ⟨some false, rfl, h.2⟩
              | true =>
                  have hhash := hsound.trans ⟨fun h => h rfl, fun h _ => h⟩
                  rw [hhash, if_pos rfl, ← taken_ok_iff P client args hfew htrue]
                  constructor
                  · rintro ⟨_, ⟨⟩, h⟩
                    exact h
                  · exact fun h => ⟨some true, rfl, h⟩

theorem recallLoop_ok_iff {lines : List MirrorLine} {records found : List RecallEntry}
    (hfew : records.length < wanted args) :
    recallLoop P client args lines records = .ok found ↔
      SoundUntil P client args (wanted args - records.length) lines ∧
        found = records ++ ((lines.filter (matchesFilters P client args)).take
          (wanted args - records.length)).map (entryFor P args) := by
  induction lines generalizing records with
  | nil =>
      obtain ⟨n, hn⟩ : ∃ n, wanted args - records.length = n + 1 :=
        ⟨wanted args - records.length - 1, by omega⟩
      rw [hn]
      simp [recallLoop, SoundUntil, pure, Except.pure, eq_comm]
  | cons line lines ih =>
      obtain ⟨n, hn⟩ : ∃ n, wanted args - records.length = n + 1 :=
        ⟨wanted args - records.length - 1, by omega⟩
      rw [recallLoop_cons_ok_iff P client args hfew, hn, SoundUntil, and_assoc]
      refine and_congr_right fun hsound => ?_
      cases hmatch : matchesFilters P client args line with
      | false =>
          rw [if_neg Bool.false_ne_true, if_neg Bool.false_ne_true, ih hfew, hn,
            List.filter_cons_of_neg (by simp [hmatch])]
      | true =>
          rw [if_pos rfl, if_pos rfl, List.filter_cons_of_pos hmatch, List.take_succ_cons,
            List.map_cons]
          by_cases hmore : records.length + 1 < wanted args
          · have hleft : wanted args - (records ++ [entryFor P args line]).length = n := by
              rw [List.length_append, List.length_singleton]
              omega
            rw [if_pos hmore, ih (by simpa using hmore), hleft, List.append_assoc,
              List.singleton_append]
          · obtain rfl : n = 0 := by omega
            rw [if_neg hmore]
            simp [SoundUntil]

/-! ## When it is exact -/

/-- The lines of both mirrors, the newest first. -/
def newestFirst : List MirrorLine :=
  (mirrorLines P client.mirrorRead ++ mirrorLines P client.mirrorWrite).reverse

/-- Of these the ones that match. -/
def matching : List MirrorLine := (newestFirst P client).filter (matchesFilters P client args)

/-- Of these each record once, by its hash, and no more than the limit. -/
def firstRecords : List MirrorLine :=
  (firstsOf (hashOf P) [] (matching P client args)).take args.limit.toNat

/-- Recall answers, and with those records. -/
def Exact : Prop :=
  ∃ data warnings,
    recallRecords P client args = .ok ⟨args.shape, "in-process", some data, warnings⟩ ∧
    data.records = (firstRecords P client args).map (entryFor P args)

/-- Nothing raises, and of the records that are taken none stands twice. -/
structure Undoubled : Prop where
  readable_read : Readable P client.mirrorRead
  readable_write : Readable P client.mirrorWrite
  sound : SoundUntil P client args (wanted args) (newestFirst P client)
  asked : 1 ≤ args.limit ∨ matching P client args = []
  nodup : (((matching P client args).take (wanted args)).map (hashOf P)).Nodup

theorem recall_ok_iff (hshape : args.shape ∈ ["history", "session_chain"])
    {outcome : RecallOutcome} :
    recallRecords P client args = .ok outcome ↔
      Readable P client.mirrorRead ∧ Readable P client.mirrorWrite ∧
        SoundUntil P client args (wanted args) (newestFirst P client) ∧
        ∃ records, records = ((matching P client args).take (wanted args)).map (entryFor P args) ∧
          outcome = ⟨args.shape, "in-process",
            some ⟨records.length, records.length, records⟩, []⟩ := by
  have hfew : ([] : List RecallEntry).length < wanted args := by
    rw [wanted, List.length_nil]
    omega
  rw [recallRecords, if_neg (not_not.2 hshape)]
  constructor
  · intro h
    obtain ⟨read, hread, h⟩ := bind_ok h
    obtain ⟨write, hwrite, h⟩ := bind_ok h
    obtain ⟨records, hrecords, h⟩ := bind_ok h
    cases h
    obtain ⟨hreadable, rfl⟩ := (readMirror_ok_iff P).1 hread
    obtain ⟨hwritable, rfl⟩ := (readMirror_ok_iff P).1 hwrite
    obtain ⟨hsound, hrecords⟩ := (recallLoop_ok_iff P client args hfew).1 hrecords
    exact ⟨hreadable, hwritable, hsound, records, hrecords, rfl⟩
  · rintro ⟨hread, hwrite, hsound, records, hrecords, rfl⟩
    refine bind_eq_ok.2 ⟨_, (readMirror_ok_iff P).2 ⟨hread, rfl⟩, ?_⟩
    refine bind_eq_ok.2 ⟨_, (readMirror_ok_iff P).2 ⟨hwrite, rfl⟩, ?_⟩
    exact bind_eq_ok.2 ⟨records, (recallLoop_ok_iff P client args hfew).2 ⟨hsound, hrecords⟩, rfl⟩

theorem map_recordHash (lines : List MirrorLine) :
    (lines.map (entryFor P args)).map RecallEntry.recordHash = lines.map (hashOf P) := by
  rw [List.map_map]
  rfl

/-- What is taken is the first records just when none of them stands twice, and one that is not
asked for is not there. -/
theorem take_eq_firstRecords_iff :
    ((matching P client args).take (wanted args)).map (entryFor P args) =
        (firstRecords P client args).map (entryFor P args) ↔
      (1 ≤ args.limit ∨ matching P client args = []) ∧
        (((matching P client args).take (wanted args)).map (hashOf P)).Nodup := by
  constructor
  · intro h
    have hhashes := congrArg (List.map RecallEntry.recordHash) h
    rw [map_recordHash, map_recordHash] at hhashes
    constructor
    · by_contra hnot
      rw [not_or] at hnot
      have hnone : firstRecords P client args = [] := by
        rw [firstRecords, Int.toNat_eq_zero.2 (by omega), List.take_zero]
      rw [hnone, List.map_nil, List.map_eq_nil_iff, List.take_eq_nil_iff, wanted] at h
      exact hnot.2 (h.resolve_left (by omega))
    · rw [hhashes]
      exact (nodup_firstsOf (hashOf P) [] _).sublist ((List.take_sublist _ _).map _)
  · rintro ⟨hasked, hnodup⟩
    rcases hasked with hasked | hnone
    · have hwanted : wanted args = args.limit.toNat := by
        rw [wanted]
        omega
      rw [firstRecords, ← hwanted, take_firstsOf hnodup fun _ _ => List.not_mem_nil]
    · rw [firstRecords, hnone]
      simp [firstsOf]

/-- Recall is exact just when nothing raises, one record at least is asked for or there is none,
and of the records that it takes none stands twice in the mirrors. -/
theorem recall_exact_iff (hshape : args.shape ∈ ["history", "session_chain"]) :
    Exact P client args ↔ Undoubled P client args := by
  constructor
  · rintro ⟨data, warnings, hrecall, hdata⟩
    obtain ⟨hread, hwrite, hsound, records, hrecords, houtcome⟩ :=
      (recall_ok_iff P client args hshape).1 hrecall
    cases houtcome
    obtain ⟨hasked, hnodup⟩ := (take_eq_firstRecords_iff P client args).1 (hrecords ▸ hdata)
    exact ⟨hread, hwrite, hsound, hasked, hnodup⟩
  · intro h
    exact ⟨_, _, (recall_ok_iff P client args hshape).2
      ⟨h.readable_read, h.readable_write, h.sound, _, rfl, rfl⟩,
      (take_eq_firstRecords_iff P client args).2 ⟨h.asked, h.nodup⟩⟩

end

namespace OneFileSample

/-- A record without anything in it, as its mirror has it. -/
def recordText : String :=
  "\x7b\"chain_root\":\"\",\"context_id\":\"\",\"creator_key\":\"\",\"event_type\":\"\"," ++
    "\"signature\":\"\",\"spec_version\":\"\",\"timestamp\":0\x7d"

def record : Record := [
  ("chain_root", .str ""), ("context_id", .str ""), ("creator_key", .str ""),
  ("event_type", .str ""), ("signature", .str ""), ("spec_version", .str ""),
  ("timestamp", .int 0)]

/-- The libraries, on this record. -/
def platform : Platform where
  loads text := .ok (if text = recordText then some (.dict record) else none)
  verifyRecord _ := .ok false
  jcs _ := .ok (utf8 recordText)
  hash := .fips180

def file : Bytes := utf8 recordText ++ [10]

theorem textLines_file : textLines file = [recordText] := by
  decide +kernel

def line : MirrorLine := ⟨record, none, none, none⟩

theorem mirrorLines_file : mirrorLines platform (some file) = [line] := by
  rw [mirrorLines, Option.elim_some, textLines_file]
  rfl

theorem readable_file : Readable platform (some file) := fun _ _ => ⟨_, rfl⟩

/-- A client whose mirrors are one file, as they are when nothing else is said. -/
def client : Client := ⟨some file, some file, none⟩

def args : RecallArgs where
  shape := "history"
  contextId := none
  eventType := none
  creatorKey := none
  limit := 10
  sinceMs := none
  untilMs := none
  verifySignatures := false

theorem sound_line (client : Client) : Sound platform client args line :=
  ⟨fun _ h => absurd h Bool.false_ne_true, fun _ => ⟨_, rfl⟩⟩

theorem matches_line (client : Client) : matchesFilters platform client args line = true := rfl

theorem recorded_twice :
    ∃ entry warnings, recallRecords platform client args =
      .ok ⟨"history", "in-process", some ⟨2, 2, [entry, entry]⟩, warnings⟩ := by
  have hlines : newestFirst platform client = [line, line] := by
    rw [newestFirst, client, mirrorLines_file]
    rfl
  have hmatching : matching platform client args = [line, line] := by
    rw [matching, hlines]
    simp [matches_line]
  refine ⟨entryFor platform args line, [], (recall_ok_iff platform client args (by decide)).2
    ⟨readable_file, readable_file, ?_, _, rfl, ?_⟩⟩
  · rw [hlines]
    exact ⟨sound_line client, sound_line client, trivial⟩
  · rw [hmatching]
    rfl

theorem recall_exact_iff_one : Exact platform ⟨some file, none, none⟩ args := by
  have hlines : newestFirst platform ⟨some file, none, none⟩ = [line] := by
    rw [newestFirst, mirrorLines_file]
    rfl
  have hmatching : matching platform ⟨some file, none, none⟩ args = [line] := by
    rw [matching, hlines]
    simp [matches_line]
  refine (recall_exact_iff platform _ args (by decide)).2
    ⟨readable_file, fun _ h => absurd h List.not_mem_nil, ?_, .inl (by decide), ?_⟩
  · rw [hlines]
    exact ⟨sound_line _, trivial⟩
  · rw [hmatching]
    exact List.nodup_singleton _

end OneFileSample

end Atrib.Python.Recall
