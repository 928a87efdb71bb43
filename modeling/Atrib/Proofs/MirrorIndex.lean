import Atrib.Proofs.MirrorTail

/-!
# Reads through the index agree with the full scan

What holds along a run of writers and readers: every index, written or on its
way, is right for an earlier directory whose files all ended with a newline,
and so is what a read in flight has put together. An answer is then the newest
tail of the directory it is about, as the full scan finds it. Two conditions
are needed: the lines a read takes from the end of a file give the same records
whole as cut where `readline` cuts them, and a record in the index is not taken
for an envelope when it is loaded.
-/

namespace Atrib.Mirror

open Lib (InsertionMap Newest run Always run_invariant)

variable {H : Hash} {codec : MirrorCodec}

/-! ## Loading an index -/

/-- Not an envelope. -/
def Bare (value : Json) : Prop := ∀ members, value.get "record" ≠ some (.obj members)

theorem Bare.unwrap_eq {value : Json} (h : Bare value) : unwrap value = value := by
  rw [unwrap]
  split
  · next members hget => exact absurd hget (h members)
  · rfl

theorem isObject_unwrap {value : Json} (h : value.isObject = true) :
    (unwrap value).isObject = true := by
  rw [unwrap]
  split
  · rfl
  · exact h

/-- A record reads back from its value, if that is not taken for an envelope. -/
theorem parseMirrorValue_value {value : Json} {record : MirrorRecord}
    (h : parseMirrorValue H codec value = some record) (hbare : Bare record.value) :
    parseMirrorValue H codec record.value = some record := by
  rw [parseMirrorValue] at h
  split at h
  · next hok =>
      obtain ⟨bytes, hbytes, rfl⟩ := Option.map_eq_some_iff.1 h
      rw [Bool.and_eq_true] at hok
      rw [parseMirrorValue, hbare.unwrap_eq, if_pos (by rw [isObject_unwrap hok.1, hok.2]; rfl),
        hbytes]
      rfl
  · cases h

theorem lastIn_mem {c : String} {records : List MirrorRecord} {record : MirrorRecord}
    (h : lastIn c records = some record) : record.contextId = c ∧ record ∈ records :=
  ⟨by simpa using List.find?_some h, List.mem_reverse.1 (List.mem_of_find?_eq_some h)⟩

variable (H codec) in
/-- The records of all files. -/
def corpusRecords (dir : List MirrorFile) : List MirrorRecord :=
  dir.flatMap fun file => recordsOf H codec file.content

theorem viewOf_mem {dir : List MirrorFile} {c name : String} {record : MirrorRecord}
    (h : viewOf H codec dir c name = some record) :
    record.contextId = c ∧ record ∈ corpusRecords H codec dir := by
  obtain ⟨file, hfile, hlast⟩ := Option.bind_eq_some_iff.1 h
  obtain ⟨hcontext, hmem⟩ := lastIn_mem hlast
  exact ⟨hcontext, List.mem_flatMap.2 ⟨file, List.mem_of_find?_eq_some hfile, hmem⟩⟩

theorem exists_value_of_mem {dir : List MirrorFile} {record : MirrorRecord}
    (h : record ∈ corpusRecords H codec dir) :
    ∃ value, parseMirrorValue H codec value = some record := by
  obtain ⟨file, -, hrecord⟩ := List.mem_flatMap.1 h
  obtain ⟨line, -, hline⟩ := List.mem_filterMap.1 hrecord
  rw [recordOfLine] at hline
  split at hline
  · cases hline
  · obtain ⟨value, -, hvalue⟩ := Option.bind_eq_some_iff.1 hline
    exact ⟨value, hvalue⟩

theorem foldlM_loadTail {files : List MirrorFileState} {entries : List (String × CorpusTail)}
    (hparse : ∀ entry ∈ entries,
      parseMirrorValue H codec entry.2.record.value = some entry.2.record) :
    ∀ {tails loaded : InsertionMap String CorpusTail},
      (entries.map fun entry => (⟨entry.1, entry.2.sourceFile, entry.2.record.value⟩ :
        IndexedCorpusTail)).foldlM (loadTail H codec files) tails = some loaded →
          loaded = tails.setAll entries := by
  induction entries with
  | nil =>
      intro tails loaded h
      cases h
      rfl
  | cons entry entries ih =>
      intro tails loaded h
      rw [List.map_cons, List.foldlM_cons] at h
      obtain ⟨mid, hmid, h⟩ := Option.bind_eq_some_iff.1 h
      rw [loadTail, hparse entry List.mem_cons_self] at hmid
      simp only at hmid
      split at hmid
      · cases hmid
        exact ih (fun e he => hparse e (List.mem_cons_of_mem _ he)) h
      · cases hmid

/-- An index that is loaded is the map it was made of. -/
theorem load_indexFromTails {files : List MirrorFileState} {dir : List MirrorFile}
    {tails loaded : InsertionMap String CorpusTail} (htracks : Tracks tails (viewOf H codec dir))
    (hbare : ∀ tail ∈ (indexFromTails files tails).tails, Bare tail.record)
    (h : loadMirrorTailIndex H codec (indexFromTails files tails) = some loaded) :
    loaded = tails := by
  rw [loadMirrorTailIndex] at h
  split at h
  · have hparse : ∀ entry ∈ tails.entries,
        parseMirrorValue H codec entry.2.record.value = some entry.2.record := by
      intro entry hentry
      have hhere := (htracks.newest _ _ (InsertionMap.get?_of_mem hentry)).here
      obtain ⟨value, hvalue⟩ := exists_value_of_mem (viewOf_mem hhere).2
      exact parseMirrorValue_value hvalue (hbare _ (List.mem_map_of_mem hentry))
    rw [foldlM_loadTail hparse h]
    ext1
    rw [InsertionMap.entries_setAll tails.nodup (by simp)]
    rfl
  · cases h

/-- If an index can be brought up to date with a listing, it is not newer. -/
theorem grows_of_changes {d current now : List MirrorFile} (hd : Grows d now)
    (hcurrent : Grows current now) {changes : List IncrementalChange}
    (h : appendOnlyChanges (d.map fileState) (current.map fileState) = some changes) :
    Grows d current := by
  intro name old hold
  obtain ⟨r, hr⟩ := Option.isSome_iff_exists.1
    ((appendOnlyChanges_eq_some h).1 old (List.mem_of_find?_eq_some hold))
  obtain ⟨file, hfile, hlen⟩ := changeOf_cases hr
  rw [fileNamed_name hold] at hfile
  obtain ⟨file', hfile', hpre⟩ := hd name old hold
  obtain ⟨file'', hfile'', hpre'⟩ := hcurrent name file hfile
  rw [hfile'] at hfile''
  cases hfile''
  refine ⟨file, hfile, List.prefix_of_prefix_length_le hpre hpre' ?_⟩
  rcases hlen with ⟨-, heq⟩ | ⟨-, hlt⟩
  · exact heq.ge
  · exact hlt.le

/-- Where no state has changed nothing has. -/
theorem viewOf_eq_of_states {current now : List MirrorFile} (hgrows : Grows current now)
    (h : current.map fileState = now.map fileState) :
    viewOf H codec current = viewOf H codec now := by
  funext c name
  have hfind : (fileNamed current name).map fileState = (fileNamed now name).map fileState := by
    rw [← find?_fileState, ← find?_fileState, h]
  rw [viewOf, viewOf]
  cases hfile : fileNamed current name with
  | none =>
      rw [hfile, Option.map_none] at hfind
      rw [Option.map_eq_none_iff.1 hfind.symm]
  | some file =>
      obtain ⟨file', hfile', hpre⟩ := hgrows name file hfile
      rw [hfile, hfile', Option.map_some, Option.map_some, Option.some.injEq] at hfind
      have hsize : file.content.length = file'.content.length :=
        congrArg MirrorFileState.size hfind
      rw [hfile', Option.bind_some, Option.bind_some, hpre.eq_of_length hsize]

theorem whole_of_fileEndsWithNewline {dir : List MirrorFile}
    (h : (dir.all fun file => fileEndsWithNewline dir file.name file.content.length) = true) :
    Whole dir := by
  intro name file hfile
  have hfilename := fileNamed_name hfile
  have hend := List.all_eq_true.1 h file (List.mem_of_find?_eq_some hfile)
  rw [fileEndsWithNewline, hfilename, hfile, Bool.or_eq_true, decide_eq_true_eq,
    decide_eq_true_eq, List.length_eq_zero_iff] at hend
  rcases hend with hend | hend
  · exact Or.inl hend
  · exact Or.inr (by rw [List.getLast?_eq_getElem?, hend])

/-! ## What holds along a run -/

variable (H codec) in
/-- The index is right for an earlier directory. -/
def IndexOk (dir : List MirrorFile) (index : MirrorTailIndex) : Prop :=
  ∃ d tails, (d.map (·.name)).Nodup ∧ Grows d dir ∧ Whole d ∧ Tracks tails (viewOf H codec d) ∧
    index = indexFromTails (d.map fileState) tails

variable (H codec) in
/-- The map of a read in flight is right for a directory before the changes
that are still to be scanned. -/
structure ReadOk (dir : List MirrorFile) (read : IndexedRead) : Prop where
  names : (read.current.map (·.name)).Nodup
  grows : Grows read.current dir
  scanning : ∀ tails changes changed round, read.phase = .scanning tails changes changed round →
    ∃ d, Whole d ∧ Tracks tails (viewOf H codec d) ∧ Appended d read.current changes

variable (H codec) in
def AnswerOk (answer : MirrorAnswer) : Prop :=
  (answer.dir.map (·.name)).Nodup ∧ ∃ tails, Tracks tails (viewOf H codec answer.dir) ∧
    answer.record = (tails.get? answer.contextId).map (·.record)

variable (H codec) in
structure Sound (s : MirrorState) : Prop where
  names : (s.dir.map (·.name)).Nodup
  index : ∀ index ∈ s.index, IndexOk H codec s.dir index
  indexWrites : ∀ index ∈ s.indexWrites, IndexOk H codec s.dir index
  reads : ∀ read ∈ s.reads, ReadOk H codec s.dir read
  answers : ∀ answer ∈ s.answers, AnswerOk H codec answer

variable (H codec) in
/-- What a step relies on. A read that loads the index relies on records that
are not taken for envelopes, one that goes on relies on unbroken lines. -/
def Careful (s : MirrorState) : MirrorMove → Prop
  | .resume i => ∀ read ∈ s.reads[i]?,
      match read.phase with
      | .listed => ∀ index ∈ s.index, ∀ tail ∈ index.tails, Bare tail.record
      | .scanning _ changes _ _ => LinesUnbroken H codec s.dir changes
  | _ => True

theorem IndexOk.grow {dir dir' : List MirrorFile} {index : MirrorTailIndex}
    (h : IndexOk H codec dir index) (hgrows : Grows dir dir') : IndexOk H codec dir' index := by
  obtain ⟨d, tails, hnames, hd, hwhole, htracks, hindex⟩ := h
  exact ⟨d, tails, hnames, hd.trans hgrows, hwhole, htracks, hindex⟩

theorem ReadOk.grow {dir dir' : List MirrorFile} {read : IndexedRead}
    (h : ReadOk H codec dir read) (hgrows : Grows dir dir') : ReadOk H codec dir' read :=
  ⟨h.names, h.grows.trans hgrows, h.scanning⟩

namespace Sound

variable {s : MirrorState} (h : Sound H codec s)

include h

theorem withDir {dir : List MirrorFile} (hnames : (dir.map (·.name)).Nodup)
    (hgrows : Grows s.dir dir) : Sound H codec { s with dir := dir } where
  names := hnames
  index index hindex := (h.index index hindex).grow hgrows
  indexWrites index hindex := (h.indexWrites index hindex).grow hgrows
  reads read hread := (h.reads read hread).grow hgrows
  answers := h.answers

theorem dropRead (i : ℕ) : Sound H codec (s.dropRead i) :=
  { h with reads := fun read hread => h.reads read (List.mem_of_mem_eraseIdx hread) }

theorem setRead (i : ℕ) {read : IndexedRead} (hread : ReadOk H codec s.dir read) :
    Sound H codec { s with reads := s.reads.set i read } :=
  { h with
    reads := fun read' hread' => by
      rcases List.mem_or_eq_of_mem_set hread' with hmem | rfl
      · exact h.reads read' hmem
      · exact hread }

theorem finish (i : ℕ) {read : IndexedRead} (hread : ReadOk H codec s.dir read)
    {tails : InsertionMap String CorpusTail} (htracks : Tracks tails (viewOf H codec read.current))
    (hwhole : Whole read.current) (changed : Bool) {dir : List MirrorFile}
    (hdir : (dir.map (·.name)).Nodup) (hview : viewOf H codec dir = viewOf H codec read.current) :
    Sound H codec (s.finish i read tails changed dir) :=
  { h.dropRead i with
    indexWrites := fun index hindex => by
      rcases List.mem_append.1 hindex with hmem | hmem
      · exact h.indexWrites index hmem
      · cases changed with
        | false => cases hmem
        | true =>
            rw [List.mem_singleton.1 hmem]
            exact ⟨read.current, tails, hread.names, hread.grows, hwhole, htracks, rfl⟩
    answers := fun answer hanswer => by
      rcases List.mem_append.1 hanswer with hmem | hmem
      · exact h.answers answer hmem
      · rw [List.mem_singleton.1 hmem]
        exact ⟨hdir, tails, hview ▸ htracks, rfl⟩ }

theorem loadIndex (i : ℕ) {read : IndexedRead} (hread : ReadOk H codec s.dir read)
    (hbare : ∀ index ∈ s.index, ∀ tail ∈ index.tails, Bare tail.record) :
    Sound H codec (s.loadIndex H codec i read) := by
  rw [MirrorState.loadIndex]
  split
  · exact h.dropRead i
  · next index hindex =>
      obtain ⟨d, tails, hnames, hgrows, hwhole, htracks, rfl⟩ := h.index index hindex
      split
      · next loaded changes hload hchanges =>
          split
          · have hscanning : ReadOk H codec s.dir
                { read with phase := .scanning loaded changes false 0 } := by
              refine ⟨hread.names, hread.grows, fun tails' changes' changed round hphase => ?_⟩
              cases hphase
              rw [load_indexFromTails htracks (hbare _ hindex) hload]
              exact ⟨d, hwhole, htracks, appended_of_changes hnames hread.names
                (grows_of_changes hgrows hread.grows hchanges) hchanges⟩
            exact h.setRead i hscanning
          · exact h.dropRead i
      · exact h.dropRead i

theorem scanRound (i : ℕ) {read : IndexedRead} (hread : ReadOk H codec s.dir read)
    {tails : InsertionMap String CorpusTail} {changes : List IncrementalChange} {changed : Bool}
    {round : ℕ} (hphase : read.phase = .scanning tails changes changed round)
    (hlines : LinesUnbroken H codec s.dir changes) :
    Sound H codec (s.scanRound H codec i read tails changes changed round) := by
  obtain ⟨d, hwhole, htracks, happ⟩ := hread.scanning _ _ _ _ hphase
  rw [MirrorState.scanRound]
  split
  · exact h.dropRead i
  · next tails' hfold =>
      obtain ⟨htracks', hwhole'⟩ := tracks_round happ hwhole hread.grows hlines htracks hfold
      simp only
      split
      · next hsame =>
          exact h.finish i hread htracks' hwhole' _ h.names
            (viewOf_eq_of_states hread.grows hsame).symm
      · split
        · exact h.dropRead i
        · next next hnext =>
            split
            · exact h.dropRead i
            · split
              · exact h.finish i hread htracks' hwhole' _ hread.names rfl
              · have hscanning : ReadOk H codec s.dir { read with
                    current := s.dir
                    phase := .scanning tails' next (changed || decide (changes ≠ [])) (round + 1) } := by
                  refine ⟨h.names, Grows.refl s.dir, fun tails'' changes' changed' round' hphase' => ?_⟩
                  cases hphase'
                  exact ⟨read.current, hwhole', htracks',
                    appended_of_changes hread.names h.names hread.grows hnext⟩
                exact h.setRead i hscanning

theorem fullScan : Sound H codec (s.fullScan H codec) := by
  rw [MirrorState.fullScan]
  split
  · next hends =>
      refine { h with indexWrites := fun index hindex => ?_ }
      rcases List.mem_append.1 hindex with hmem | hmem
      · exact h.indexWrites index hmem
      · rw [List.mem_singleton.1 hmem]
        exact ⟨s.dir, scanCorpus H codec s.dir, h.names, Grows.refl s.dir,
          whole_of_fileEndsWithNewline hends, tracks_scanCorpus h.names, rfl⟩
  · exact h

theorem step (move : MirrorMove) (hcareful : Careful H codec s move) :
    Sound H codec (s.step H codec move) := by
  cases move with
  | append name bytes mtimeMs ctimeMs =>
      refine h.withDir ?_ (grows_appendToFile s.dir name bytes mtimeMs ctimeMs)
      rw [map_name_appendToFile]
      exact h.names
  | create file => exact h.withDir (nodup_createFile h.names file) (grows_createFile h.names file)
  | read contextId =>
      refine { h with reads := fun read hread => ?_ }
      rcases List.mem_append.1 hread with hmem | hmem
      · exact h.reads read hmem
      · rw [List.mem_singleton.1 hmem]
        exact ⟨h.names, Grows.refl s.dir, fun _ _ _ _ hphase => by cases hphase⟩
  | resume i =>
      rw [MirrorState.step, MirrorState.resume]
      split
      · exact h
      · next read hget =>
          have hread := h.reads read (List.mem_of_getElem? hget)
          have hneeds := hcareful read hget
          split
          · next hphase =>
              rw [hphase] at hneeds
              exact h.loadIndex i hread hneeds
          · next hphase =>
              rw [hphase] at hneeds
              exact h.scanRound i hread hphase hneeds
  | fullScan => exact h.fullScan
  | renameIndex i =>
      refine { h with index := fun index hindex => ?_ }
      cases hget : s.indexWrites[i]? with
      | none =>
          simp only [MirrorState.step, hget, Option.none_or] at hindex
          exact h.index index hindex
      | some written =>
          simp only [MirrorState.step, hget, Option.some_or, Option.mem_def, Option.some.injEq]
            at hindex
          exact hindex ▸ h.indexWrites written (List.mem_of_getElem? hget)

end Sound

/-! ## Agreement -/

/-- Two right maps have tails of the same timestamp and record hash. -/
theorem Tracks.recency_eq {tails tails' : InsertionMap String CorpusTail}
    {view : String → String → Option MirrorRecord} (h : Tracks tails view)
    (h' : Tracks tails' view) (c : String) :
    (tails.get? c).map (fun tail => recency tail.record) =
      (tails'.get? c).map fun tail => recency tail.record := by
  cases hget : tails.get? c with
  | none =>
      cases hget' : tails'.get? c with
      | none => rfl
      | some tail' =>
          have hhere := (h'.newest c tail' hget').here
          rw [h.absent c hget] at hhere
          cases hhere
  | some tail =>
      have hnewest := h.newest c tail hget
      cases hget' : tails'.get? c with
      | none =>
          have hhere := hnewest.here
          rw [h'.absent c hget'] at hhere
          cases hhere
      | some tail' =>
          exact congrArg some (hnewest.key_eq (h'.newest c tail' hget'))

theorem Tracks.mem_corpusRecords {dir : List MirrorFile} {tails : InsertionMap String CorpusTail}
    (h : Tracks tails (viewOf H codec dir)) {c : String} {tail : CorpusTail}
    (hget : tails.get? c = some tail) : tail.record ∈ corpusRecords H codec dir :=
  (viewOf_mem (h.newest c tail hget).here).2

/-- Along every run of writers and readers whose steps are careful, a read
through the index returns what the full scan of the directory returns: a record
with the same timestamp and record hash, and the same record if no two records
of the directory have one hash. -/
theorem indexedReads_agree (dir : List MirrorFile) (hdir : (dir.map (·.name)).Nodup)
    (moves : List MirrorMove)
    (hcareful : Always (MirrorState.step H codec) (Careful H codec) { dir := dir } moves) :
    ∀ answer ∈ (run (MirrorState.step H codec) { dir := dir } moves).answers,
      let scanned := ((scanCorpus H codec answer.dir).get? answer.contextId).map (·.record)
      answer.record.map (fun r => (r.timestamp, r.recordHash)) =
          scanned.map (fun r => (r.timestamp, r.recordHash)) ∧
        ((∀ x ∈ corpusRecords H codec answer.dir, ∀ y ∈ corpusRecords H codec answer.dir,
            x.recordHash = y.recordHash → x = y) → answer.record = scanned) := by
  intro answer hanswer
  have hstart : Sound H codec { dir := dir } :=
    ⟨hdir, by simp, by simp, by simp, by simp⟩
  have hsound : Sound H codec (run (MirrorState.step H codec) { dir := dir } moves) :=
    run_invariant (fun _ move h hc => h.step move hc) hstart hcareful
  obtain ⟨hnames, tails, htracks, hrecord⟩ := hsound.answers answer hanswer
  have hscan : Tracks (scanCorpus H codec answer.dir) (viewOf H codec answer.dir) :=
    tracks_scanCorpus hnames
  have hrecency := congrArg (Option.map ofLex) (htracks.recency_eq hscan answer.contextId)
  simp only [Option.map_map, Function.comp_def, recency, ofLex_toLex] at hrecency
  constructor
  · rw [hrecord]
    simpa only [Option.map_map, Function.comp_def] using hrecency
  · intro hseparate
    rw [hrecord]
    cases hget : tails.get? answer.contextId with
    | none =>
        rw [hget, Option.map_none] at hrecency
        rw [Option.map_eq_none_iff.1 hrecency.symm]
    | some tail =>
        rw [hget, Option.map_some] at hrecency
        obtain ⟨tail', hget', heq⟩ := Option.map_eq_some_iff.1 hrecency.symm
        have hhash : tail.record.recordHash = tail'.record.recordHash := (congrArg Prod.snd heq).symm
        rw [hget', Option.map_some, Option.map_some, hseparate _ (htracks.mem_corpusRecords hget) _
          (hscan.mem_corpusRecords hget') hhash]

/-! ## Lines and records without anything special -/

/-- The lines a read takes from the ends of files when it goes on. -/
def linesRead (s : MirrorState) (i : ℕ) : List Bytes :=
  match s.reads[i]? with
  | some { phase := .scanning _ changes _ _, .. } =>
      changes.flatMap fun ch => splitLF (appendedBytes s.dir ch)
  | _ => []

/-- The values of the records in the index. -/
def indexedValues (s : MirrorState) : List Json :=
  s.index.elim [] fun index => index.tails.map (·.record)

theorem unbroken_of_readline {line : Bytes} (h : readline line = [line]) :
    Unbroken H codec line := by
  rw [Unbroken, recordsOf, h, List.filterMap_cons]
  cases recordOfLine H codec line <;> rfl

/-- It is enough that the lines have none of the other ends of line in them and
the records no member `record`. -/
theorem careful_of_plain {s : MirrorState} {i : ℕ}
    (hlines : ∀ line ∈ linesRead s i, readline line = [line])
    (hvalues : ∀ value ∈ indexedValues s, (value.get "record").isNone = true) :
    Careful H codec s (.resume i) := by
  intro read hread
  split
  · intro index hindex tail htail members hget
    have hnone := hvalues tail.record (by
      rw [indexedValues, hindex]
      exact List.mem_map_of_mem htail)
    rw [hget] at hnone
    cases hnone
  · next tails changes changed round hphase =>
      intro ch hch _ line hline
      refine unbroken_of_readline (hlines line ?_)
      obtain ⟨contextId, current, phase⟩ := read
      cases hphase
      rw [linesRead, hread]
      exact List.mem_flatMap.2 ⟨ch, hch, hline⟩

/-! ## A directory of notes -/

/-- A signed note of session `c` as a line of a mirror file. -/
def noteText (timestamp more : String) : String :=
  "\x7b\"spec_version\":\"atrib/1.0\",\"event_type\":\"https://example.com/note\"," ++
    "\"creator_key\":\"k\",\"chain_root\":\"r\",\"context_id\":\"c\",\"signature\":\"s\"," ++
    "\"timestamp\":" ++ timestamp ++ more ++ "\x7d"

def note (timestamp : ℚ) (more : List (String × Json)) : Json :=
  .obj ([("spec_version", .str "atrib/1.0"), ("event_type", .str "https://example.com/note"),
    ("creator_key", .str "k"), ("chain_root", .str "r"), ("context_id", .str "c"),
    ("signature", .str "s"), ("timestamp", .num timestamp)] ++ more)

/-- A note with a line separator in a string. -/
def separatorText : String := noteText "2" ",\"text\":\"a\u2028b\""

/-- A note that has another one as its member `record`, in an envelope. -/
def nestedText : String :=
  "\x7b\"record\":" ++ noteText "2" (",\"record\":" ++ noteText "3" "") ++ "\x7d"

/-- JSON and JCS for these lines; of the canonical forms only the timestamp is kept. -/
def noteCodec : MirrorCodec where
  parse line :=
    if line = utf8 (noteText "1" "") then some (note 1 [])
    else if line = utf8 (noteText "2" "") then some (note 2 [])
    else if line = utf8 separatorText then some (note 2 [("text", .str "a\u2028b")])
    else if line = utf8 nestedText then
      some (.obj [("record", note 2 [("record", note 3 [])])])
    else none
  canonicalRecord value := (value.number "timestamp").map fun t => utf8 (toString t)

def notesFile (text : String) : MirrorFile := ⟨"notes.jsonl", utf8 text ++ [LF], 0, 0, 1⟩

/-- The directory is indexed, a line is appended, and the session is asked for. -/
def appendAndRead (text : String) : List MirrorMove :=
  [.fullScan, .renameIndex 0, .append "notes.jsonl" (utf8 text ++ [LF]) 1 1, .read "c", .resume 0,
    .resume 0]

/-- An appended note is returned, as by the full scan. -/
theorem indexedReads_agree_note :
    (run (MirrorState.step .fips180 noteCodec) { dir := [notesFile (noteText "1" "")] }
        (appendAndRead (noteText "2" ""))).answers.map
          (fun answer => answer.record.map fun r => (r.timestamp, r.recordHash)) =
      (run (MirrorState.step .fips180 noteCodec) { dir := [notesFile (noteText "1" "")] }
        (appendAndRead (noteText "2" ""))).answers.map
          (fun answer =>
            (((scanCorpus .fips180 noteCodec answer.dir).get? answer.contextId).map (·.record)).map
              fun r => (r.timestamp, r.recordHash)) := by
  refine List.map_congr_left fun answer hanswer =>
    (indexedReads_agree _ (by decide) _ ?_ answer hanswer).1
  simp only [noteCodec, notesFile, appendAndRead, utf8_eq_data]
  refine ⟨trivial, trivial, trivial, trivial, ?_, ?_, trivial⟩
  · exact careful_of_plain (by decide +kernel) (by decide +kernel)
  · exact careful_of_plain (by decide +kernel) (by decide +kernel)

/-- Records with other timestamps are other records. -/
theorem ne_of_timestamps {answer : MirrorAnswer} {scanned : Option MirrorRecord} {t t' : Option ℚ}
    (h : (answer.record.map (·.timestamp), scanned.map (·.timestamp)) = (t, t')) (hne : t ≠ t') :
    answer.record ≠ scanned := by
  intro heq
  rw [heq] at h
  cases h
  exact hne rfl

/-- The full scan cuts the appended line at the separator and sees no record in
it; and a record in an envelope that has a member `record` itself is unwrapped
again when the index is loaded. -/
theorem not_agree_of_separator :
    (∃ answer ∈ (run (MirrorState.step .fips180 noteCodec)
        { dir := [notesFile (noteText "1" "")] } (appendAndRead separatorText)).answers,
      answer.record ≠
        ((scanCorpus .fips180 noteCodec answer.dir).get? answer.contextId).map (·.record)) ∧
    ∃ answer ∈ (run (MirrorState.step .fips180 noteCodec) { dir := [notesFile nestedText] }
        [.fullScan, .renameIndex 0, .read "c", .resume 0, .resume 0]).answers,
      answer.record ≠
        ((scanCorpus .fips180 noteCodec answer.dir).get? answer.contextId).map (·.record) := by
  let stamps : MirrorAnswer → Option ℚ × Option ℚ := fun answer =>
    (answer.record.map (·.timestamp),
      (((scanCorpus .fips180 noteCodec answer.dir).get? answer.contextId).map (·.record)).map
        (·.timestamp))
  constructor
  · have hstamps : (run (MirrorState.step .fips180 noteCodec)
        { dir := [notesFile (noteText "1" "")] } (appendAndRead separatorText)).answers.map stamps =
          [(some 2, some 1)] := by
      simp only [stamps, noteCodec, notesFile, appendAndRead, utf8_eq_data]
      decide +kernel
    obtain ⟨answer, hanswers, hanswer⟩ := List.map_eq_singleton_iff.1 hstamps
    exact ⟨answer, by rw [hanswers]; exact List.mem_singleton_self _,
      ne_of_timestamps hanswer (by decide)⟩
  · have hstamps : (run (MirrorState.step .fips180 noteCodec) { dir := [notesFile nestedText] }
        [.fullScan, .renameIndex 0, .read "c", .resume 0, .resume 0]).answers.map stamps =
          [(some 3, some 2)] := by
      simp only [stamps, noteCodec, notesFile, utf8_eq_data]
      decide +kernel
    obtain ⟨answer, hanswers, hanswer⟩ := List.map_eq_singleton_iff.1 hstamps
    exact ⟨answer, by rw [hanswers]; exact List.mem_singleton_self _,
      ne_of_timestamps hanswer (by decide)⟩

end Atrib.Mirror
