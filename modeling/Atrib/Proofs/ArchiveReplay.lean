import Atrib.Mcp.Refs
import Atrib.Proofs.StoreIndexes
import Mathlib.Data.List.Induction

/-!
# What a restart of the graph service restores

The store holds the entries that have been archived and those whose append is
under way, each with the log index it came with; a replay makes a store that
holds the archived entries. So a record whose append is done is there after
every restart, provided that no append starts in the middle of a line, that the
line of a record has no other end of line in it, and that ingesting a record
again neither brings a log index the archive has not got nor is answered before
the first ingest of it.
-/

namespace Atrib.GraphNode

open Lib (InsertionMap run run_append run_snoc Always run_invariant)
open Lib.Lines

abbrev Entry := AtribRecord × Option ℕ

variable {H : Hash} {codec : RecordCodec}

/-! ## The entries of a store -/

variable (H codec) in
def entryHash (entry : Entry) : String := recordHash H codec entry.1

variable (H codec) in
def storedOf (entry : Entry) : StoredRecord :=
  ⟨entry.1, entryHash H codec entry,
    base64urlEncode ((recordDigest H codec entry.1).take 16)⟩

variable (H codec) in
/-- The store has these records, with these log indexes, and no others. -/
structure Holds (store : RecordStore) (entries : List Entry) : Prop where
  nodup : (entries.map (entryHash H codec)).Nodup
  seen : ∀ hash, hash ∈ store.seenRecordHashes ↔ hash ∈ entries.map (entryHash H codec)
  found : ∀ entry ∈ entries, store.getRecordByHash (entryHash H codec entry) =
    some (storedOf H codec entry, entry.2)
  missing : ∀ hash, hash ∉ entries.map (entryHash H codec) →
    store.recordByHash.get? hash = none ∧ store.logIndexByHash.get? hash = none

theorem holds_empty : Holds H codec {} [] where
  nodup := List.nodup_nil
  seen _ := Iff.rfl
  found _ h := by cases h
  missing _ _ := ⟨rfl, rfl⟩

theorem Holds.perm {store : RecordStore} {entries entries' : List Entry}
    (h : Holds H codec store entries) (hperm : entries.Perm entries') :
    Holds H codec store entries' := by
  have hmap := hperm.map (entryHash H codec)
  exact ⟨hmap.nodup_iff.1 h.nodup, fun hash => (h.seen hash).trans hmap.mem_iff,
    fun entry he => h.found entry (hperm.mem_iff.2 he),
    fun hash hnot => h.missing hash (mt hmap.mem_iff.1 hnot)⟩

theorem Holds.missing_eq {store : RecordStore} {entries : List Entry}
    (h : Holds H codec store entries) {hash : String}
    (hnot : hash ∉ entries.map (entryHash H codec)) : store.getRecordByHash hash = none := by
  rw [RecordStore.getRecordByHash, (h.missing hash hnot).1]
  rfl

/-! ## Adding a record -/

/-- A record that is new is added with its log index. -/
theorem Holds.addRecord_new {store : RecordStore} {entries : List Entry}
    (h : Holds H codec store entries) {entry : Entry}
    (hnew : entryHash H codec entry ∉ store.seenRecordHashes) :
    (store.addRecord H codec entry.1 entry.2).2 = true ∧
      Holds H codec (store.addRecord H codec entry.1 entry.2).1 (entries ++ [entry]) := by
  have hadd : store.addRecord H codec entry.1 entry.2 =
      ((store.withLogIndex (entryHash H codec entry) entry.2).insert (storedOf H codec entry),
        true) := if_neg hnew
  have hnot := mt (h.seen _).2 hnew
  have hhash : (storedOf H codec entry).recordHash = entryHash H codec entry := rfl
  rw [hadd]
  refine ⟨rfl, ?_, ?_, ?_, ?_⟩
  · rw [List.map_append, List.nodup_append]
    refine ⟨h.nodup, List.nodup_singleton _, fun a ha b hb hab => hnot ?_⟩
    rw [List.map_singleton, List.mem_singleton] at hb
    rwa [← hb, ← hab]
  · intro hash
    rw [insert_seen, withLogIndex_seen, List.mem_append, List.map_append, List.mem_append, h.seen]
    rfl
  · intro e he
    rw [RecordStore.getRecordByHash, get?_insert, withLogIndex_recordByHash, insert_logIndexByHash,
      hhash]
    rcases List.mem_append.1 he with he | he
    · have hne : entryHash H codec e ≠ entryHash H codec entry := fun heq =>
        hnot (heq ▸ List.mem_map_of_mem he)
      have hfound := h.found e he
      rw [RecordStore.getRecordByHash] at hfound
      obtain ⟨stored, hstored, heq⟩ := Option.map_eq_some_iff.1 hfound
      obtain ⟨rfl, hindex⟩ := Prod.mk.inj heq
      have hne' : (storedOf H codec e).recordHash ≠ entryHash H codec entry := hne
      rw [if_neg hne, hstored, Option.map_some, get?_withLogIndex, if_neg hne', hindex]
    · rw [List.mem_singleton.1 he, if_pos rfl, Option.map_some, hhash, get?_withLogIndex,
        if_pos rfl, (h.missing _ hnot).2, Option.or_none]
  · intro hash hmiss
    rw [List.map_append, List.mem_append, not_or] at hmiss
    have hne : hash ≠ entryHash H codec entry := fun heq => hmiss.2 (by simp [heq])
    rw [get?_insert, insert_logIndexByHash, withLogIndex_recordByHash, get?_withLogIndex, hhash,
      if_neg hne, if_neg hne]
    exact h.missing hash hmiss.1

/-- A record that is there is not changed, unless it gets a log index. -/
theorem addRecord_known {store : RecordStore} {entry : Entry}
    (hknown : entryHash H codec entry ∈ store.seenRecordHashes)
    (hindex : store.logIndexByHash.has (entryHash H codec entry) = true ∨ entry.2 = none) :
    store.addRecord H codec entry.1 entry.2 = (store, false) := by
  have hadd : store.addRecord H codec entry.1 entry.2 =
      (if store.logIndexByHash.has (entryHash H codec entry) then store
        else store.withLogIndex (entryHash H codec entry) entry.2, false) := if_pos hknown
  rw [hadd]
  rcases hindex with hhas | hnone
  · rw [if_pos hhas]
  · rw [hnone]
    exact congrArg (·, false) (ite_self _)

/-- A replay makes a store that holds the entries. -/
theorem holds_replay {entries : List Entry} (hnodup : (entries.map (entryHash H codec)).Nodup) :
    Holds H codec
      (entries.foldl (fun store entry => (store.addRecord H codec entry.1 entry.2).1) {})
      entries := by
  induction entries using List.reverseRecOn with
  | nil => exact holds_empty
  | append_singleton entries entry ih =>
      rw [List.map_append, List.nodup_append] at hnodup
      obtain ⟨hentries, -, hdisjoint⟩ := hnodup
      rw [List.foldl_append]
      refine ((ih hentries).addRecord_new fun hseen => ?_).2
      exact hdisjoint _ (((ih hentries).seen _).1 hseen) _ (List.mem_singleton_self _) rfl

/-! ## What the archive has -/

variable (format : ArchiveFormat codec)

/-- The entries that a replay of the archive reads. -/
def archivedEntries (s : ArchivedServer) : List Entry :=
  (readline s.archive).filterMap format.parse

/-- The entries whose append is under way. -/
def unwrittenEntries (s : ArchivedServer) : List Entry :=
  (s.appends.filter fun append => !append.written).map fun append =>
    (append.record, append.logIndex)

/-- No line of the archive is left open. -/
def AtBoundary (archive : Bytes) : Prop := archive = [] ∨ archive.getLast? = some LF

instance (archive : Bytes) : Decidable (AtBoundary archive) :=
  inferInstanceAs (Decidable (_ ∨ _))

/-- `JSON.stringify` makes one line of the record, also in the eyes of `readline`. -/
def OnOneLine (entry : Entry) : Prop := OneLine readlineEnds (format.stringify entry.1 entry.2)

instance (entry : Entry) : Decidable (OnOneLine format entry) :=
  inferInstanceAs (Decidable (OneLine _ _))

variable {format}

theorem filterMap_torn {entry : Entry} (hverified : codec.verifyRecord entry.1 = true)
    (hline : OnOneLine format entry) (count : ℕ) :
    (readline ((archiveLine format entry.1 entry.2).take count)).filterMap format.parse =
      if count < (format.stringify entry.1 entry.2).length then [] else [entry] := by
  have hread := format.parse_blank
  have hparse := format.parse_stringify entry.1 entry.2 hverified
  have hwhole : (readline (format.stringify entry.1 entry.2)).filterMap format.parse = [entry] := by
    rw [readline, OneLine.lines_eq hline, List.filterMap_cons, hparse]
    rfl
  rw [archiveLine]
  split
  · next hlt =>
      rw [List.take_append_of_le_length hlt.le, readline,
        OneLine.lines_eq (hline.of_prefix (List.take_prefix _ _)), List.filterMap_cons,
        format.parse_torn entry.1 entry.2 hverified _ (List.take_prefix _ _)]
      · rfl
      · intro heq
        have hlen := congrArg List.length heq
        rw [List.length_take_of_le hlt.le] at hlen
        omega
  · next hle =>
      rcases Nat.lt_or_ge (format.stringify entry.1 entry.2).length count with hlt | hge
      · rw [List.take_of_length_le (by simp; omega), readline,
          newline_readlineEnds.filterMap_lines hread, ← readline, hwhole]
        simp [lines, linesFrom, hread]
      · have hcount : count = (format.stringify entry.1 entry.2).length := by omega
        rw [hcount, List.take_left, hwhole]

/-! ## What holds along a run -/

variable (H format) in
/-- The store has what is archived or on its way there, and what has been
answered is archived. -/
structure Durable (s : ArchivedServer) : Prop where
  store : Holds H codec s.store (archivedEntries format s ++ unwrittenEntries s)
  appends : ∀ append ∈ s.appends, codec.verifyRecord append.record = true ∧
    OnOneLine format (append.record, append.logIndex)
  written : ∀ append ∈ s.appends, append.written = true →
    recordHash H codec append.record ∈ (archivedEntries format s).map (entryHash H codec)
  resolved : ∀ hash ∈ s.resolved, hash ∈ (archivedEntries format s).map (entryHash H codec)

variable (H codec) in
/-- Ingesting a known record brings no log index that was missing, and does not
come before the append of the first ingest is done. -/
def Repeats (s : ArchivedServer) (record : AtribRecord) (logIndex : Option ℕ) : Prop :=
  (s.store.logIndexByHash.has (recordHash H codec record) = true ∨ logIndex = none) ∧
    ∀ append ∈ s.appends, recordHash H codec append.record = recordHash H codec record →
      append.written = true

instance (s : ArchivedServer) (record : AtribRecord) (logIndex : Option ℕ) :
    Decidable (Repeats H codec s record logIndex) := inferInstanceAs (Decidable (_ ∧ _))

variable (H format) in
/-- A new record makes one line, a known one only repeats what is archived, and
nothing is written behind an open line. -/
def CarefulMove (s : ArchivedServer) : ArchiveMove → Prop
  | .ingest record logIndex =>
      if recordHash H codec record ∈ s.store.seenRecordHashes then Repeats H codec s record logIndex
      else OnOneLine format (record, logIndex)
  | .write _ => AtBoundary s.archive
  | .resolve _ => True
  | .restart torn => s.tornBytes format torn = [] ∨ AtBoundary s.archive

instance (s : ArchivedServer) : ∀ move, Decidable (CarefulMove H format s move)
  | .ingest _ _ => inferInstanceAs (Decidable (ite _ _ _))
  | .write _ => inferInstanceAs (Decidable (AtBoundary _))
  | .resolve _ => isTrue trivial
  | .restart _ => inferInstanceAs (Decidable (_ ∨ _))

/-- An append that is done leaves the list of those under way. -/
theorem perm_filter_set {α : Type*} {p : α → Bool} {l : List α} {i : ℕ} {a b : α}
    (hget : l[i]? = some a) (ha : p a = true) (hb : p b = false) :
    (l.filter p).Perm (a :: (l.set i b).filter p) := by
  obtain ⟨hi, rfl⟩ := List.getElem?_eq_some_iff.1 hget
  have hsplit : l = l.take i ++ l[i] :: l.drop (i + 1) := by
    rw [List.getElem_cons_drop, List.take_append_drop]
  have hset : l.set i b = l.take i ++ b :: l.drop (i + 1) := by
    rw [List.set_eq_take_append_cons_drop, if_pos hi]
  have hfilter : l.filter p = (l.take i).filter p ++ l[i] :: (l.drop (i + 1)).filter p := by
    conv_lhs => rw [hsplit]
    rw [List.filter_append, List.filter_cons_of_pos ha]
  rw [hfilter, hset, List.filter_append, List.filter_cons_of_neg (by simp [hb])]
  exact List.perm_middle

/-- An append that was done already does not count. -/
theorem filter_eraseIdx {α : Type*} {p : α → Bool} {l : List α} {i : ℕ} {a : α}
    (hget : l[i]? = some a) (ha : p a = false) : (l.eraseIdx i).filter p = l.filter p := by
  obtain ⟨hi, rfl⟩ := List.getElem?_eq_some_iff.1 hget
  have hsplit : l = l.take i ++ l[i] :: l.drop (i + 1) := by
    rw [List.getElem_cons_drop, List.take_append_drop]
  conv_rhs => rw [hsplit]
  rw [List.eraseIdx_eq_take_drop_succ, List.filter_append, List.filter_append,
    List.filter_cons_of_neg (by simp [ha])]

theorem archivedEntries_append {s : ArchivedServer} {bytes : Bytes} (h : AtBoundary s.archive) :
    (readline (s.archive ++ bytes)).filterMap format.parse =
      archivedEntries format s ++ (readline bytes).filterMap format.parse :=
  newline_readlineEnds.filterMap_lines_append format.parse_blank h bytes

theorem archive_ingest (s : ArchivedServer) (record : AtribRecord) (logIndex : Option ℕ) :
    (s.ingest H codec record logIndex).archive = s.archive := by
  rw [ArchivedServer.ingest]
  split
  · simp only
    split <;> rfl
  · rfl

theorem archive_resolve (s : ArchivedServer) (index : ℕ) :
    (s.resolve H codec index).archive = s.archive := by
  rw [ArchivedServer.resolve]
  split <;> rfl

namespace Durable

variable {s : ArchivedServer} (h : Durable H format s)

include h

theorem ingest (record : AtribRecord) (logIndex : Option ℕ)
    (hcareful : CarefulMove H format s (.ingest record logIndex)) :
    Durable H format (s.ingest H codec record logIndex) := by
  rw [ArchivedServer.ingest]
  split
  · next hverified =>
      by_cases hknown : recordHash H codec record ∈ s.store.seenRecordHashes
      · rw [CarefulMove, if_pos hknown] at hcareful
        have hadd : s.store.addRecord H codec record logIndex = (s.store, false) :=
          addRecord_known (show entryHash H codec (record, logIndex) ∈ _ from hknown) hcareful.1
        rw [hadd]
        refine { h with resolved := fun hash hhash => ?_ }
        rcases List.mem_append.1 hhash with hhash | hhash
        · exact h.resolved hash hhash
        · -- the first ingest is archived: no append of it is under way
          rw [List.mem_singleton.1 hhash]
          have hmem := (h.store.seen _).1 hknown
          rw [List.map_append, List.mem_append] at hmem
          rcases hmem with hmem | hmem
          · exact hmem
          · obtain ⟨entry, hentry, heq⟩ := List.mem_map.1 hmem
            obtain ⟨append, happend, rfl⟩ := List.mem_map.1 hentry
            obtain ⟨happend, hunwritten⟩ := List.mem_filter.1 happend
            rw [hcareful.2 append happend heq] at hunwritten
            cases hunwritten
      · rw [CarefulMove, if_neg hknown] at hcareful
        obtain ⟨hnew, hstore⟩ := h.store.addRecord_new (show entryHash H codec (record, logIndex) ∉ _ from hknown)
        have hunwritten : unwrittenEntries
            { s with appends := s.appends ++ [⟨record, logIndex, false⟩] } =
              unwrittenEntries s ++ [(record, logIndex)] := by
          simp [unwrittenEntries]
        simp only at hnew hstore
        simp only [hnew, if_true]
        refine { h with store := ?_, appends := ?_, written := ?_ }
        · rw [List.append_assoc, ← hunwritten] at hstore
          exact hstore
        · intro append happend
          rcases List.mem_append.1 happend with happend | happend
          · exact h.appends append happend
          · rw [List.mem_singleton.1 happend]
            exact ⟨hverified, hcareful⟩
        · intro append happend hwritten
          rcases List.mem_append.1 happend with happend | happend
          · exact h.written append happend hwritten
          · rw [List.mem_singleton.1 happend] at hwritten
            cases hwritten
  · exact h

theorem write (index : ℕ) (hcareful : AtBoundary s.archive) :
    Durable H format (s.write format index) ∧
      archivedEntries format s <+: archivedEntries format (s.write format index) := by
  rw [ArchivedServer.write]
  split
  · next record logIndex hget =>
      obtain ⟨hverified, hline⟩ := h.appends _ (List.mem_of_getElem? hget)
      have harchived : (readline (s.archive ++ archiveLine format record logIndex)).filterMap
          format.parse = archivedEntries format s ++ [(record, logIndex)] := by
        have hwhole := filterMap_torn hverified hline (archiveLine format record logIndex).length
        rw [List.take_length, if_neg (by simp [archiveLine])] at hwhole
        rw [archivedEntries_append hcareful, hwhole]
      let s' : ArchivedServer := { s with
        archive := s.archive ++ archiveLine format record logIndex
        appends := s.appends.set index ⟨record, logIndex, true⟩ }
      have hunwritten : (unwrittenEntries s).Perm ((record, logIndex) :: unwrittenEntries s') :=
        (perm_filter_set hget rfl rfl).map _
      have hkept : ∀ hash, hash ∈ (archivedEntries format s).map (entryHash H codec) →
          hash ∈ (archivedEntries format s').map (entryHash H codec) := by
        intro hash hhash
        rw [archivedEntries, harchived, List.map_append]
        exact List.mem_append_left _ hhash
      refine ⟨⟨?_, ?_, ?_, fun hash hhash => hkept hash (h.resolved hash hhash)⟩, ?_⟩
      · refine h.store.perm ?_
        show (archivedEntries format s ++ unwrittenEntries s).Perm
          (archivedEntries format s' ++ unwrittenEntries s')
        rw [archivedEntries, archivedEntries, harchived, List.append_assoc]
        exact hunwritten.append_left _
      · intro append happend
        rcases List.mem_or_eq_of_mem_set happend with hmem | rfl
        · exact h.appends append hmem
        · exact ⟨hverified, hline⟩
      · intro append happend hwritten
        rcases List.mem_or_eq_of_mem_set happend with hmem | rfl
        · exact hkept _ (h.written append hmem hwritten)
        · show _ ∈ (archivedEntries format s').map (entryHash H codec)
          rw [archivedEntries, harchived, List.map_append]
          exact List.mem_append_right _ (List.mem_singleton_self _)
      · rw [archivedEntries, archivedEntries, harchived]
        exact List.prefix_append _ _
  · exact ⟨h, List.prefix_rfl⟩

theorem resolve (index : ℕ) : Durable H format (s.resolve H codec index) := by
  rw [ArchivedServer.resolve]
  split
  · next record logIndex hget =>
      have hmem := List.mem_of_getElem? hget
      have hunwritten : unwrittenEntries { s with appends := s.appends.eraseIdx index } =
          unwrittenEntries s :=
        congrArg (List.map _) (filter_eraseIdx hget rfl)
      refine ⟨?_, fun append happend => h.appends append (List.mem_of_mem_eraseIdx happend),
        fun append happend => h.written append (List.mem_of_mem_eraseIdx happend), ?_⟩
      · have hstore := h.store
        rw [← hunwritten] at hstore
        exact hstore
      · intro hash hhash
        rcases List.mem_append.1 hhash with hhash | hhash
        · exact h.resolved hash hhash
        · rw [List.mem_singleton.1 hhash]
          exact h.written _ hmem rfl
  · exact h

/-- What a restart finds in the archive: all that was archived, and perhaps the
entry of an append that was under way. -/
theorem archivedEntries_restart (torn : Option (ℕ × ℕ))
    (hcareful : CarefulMove H format s (.restart torn)) :
    ∃ more, more.Sublist (unwrittenEntries s) ∧
      archivedEntries format (s.restart H format torn) = archivedEntries format s ++ more := by
  by_cases hnil : s.tornBytes format torn = []
  · refine ⟨[], List.nil_sublist _, ?_⟩
    rw [archivedEntries, ArchivedServer.restart, hnil, List.append_nil, List.append_nil]
    rfl
  · have hboundary := hcareful.resolve_left hnil
    refine ⟨_, ?_, archivedEntries_append hboundary⟩
    cases torn with
    | none => exact absurd rfl hnil
    | some cut =>
        simp only [ArchivedServer.tornBytes] at hnil ⊢
        split
        · next record logIndex hget =>
            have hmem := List.mem_of_getElem? hget
            obtain ⟨hverified, hline⟩ := h.appends _ hmem
            have hread := filterMap_torn hverified hline cut.2
            simp only at hread
            rw [hread]
            split
            · exact List.nil_sublist _
            · exact List.singleton_sublist.2
                (List.mem_map_of_mem (List.mem_filter.2 ⟨hmem, rfl⟩))
        · next hother =>
            split at hnil
            · next record logIndex hget => exact absurd hget (hother record logIndex)
            · exact absurd rfl hnil

theorem restart (torn : Option (ℕ × ℕ)) (hcareful : CarefulMove H format s (.restart torn)) :
    Durable H format (s.restart H format torn) ∧
      archivedEntries format s <+: archivedEntries format (s.restart H format torn) := by
  obtain ⟨more, hsub, harchived⟩ := h.archivedEntries_restart torn hcareful
  have hnodup : ((archivedEntries format (s.restart H format torn)).map
      (entryHash H codec)).Nodup := by
    rw [harchived]
    exact h.store.nodup.sublist ((hsub.append_left _).map _)
  refine ⟨⟨?_, fun append happend => ?_, fun append happend => ?_, fun hash hhash => ?_⟩, ?_⟩
  · have hreplay := holds_replay hnodup
    rw [show unwrittenEntries (s.restart H format torn) = [] from rfl, List.append_nil]
    exact hreplay
  · cases happend
  · cases happend
  · rw [harchived, List.map_append]
    exact List.mem_append_left _ (h.resolved hash hhash)
  · rw [harchived]
    exact List.prefix_append _ _

theorem step (move : ArchiveMove) (hcareful : CarefulMove H format s move) :
    Durable H format (s.step H format move) ∧
      archivedEntries format s <+: archivedEntries format (s.step H format move) := by
  cases move with
  | ingest record logIndex =>
      refine ⟨h.ingest record logIndex hcareful, ?_⟩
      rw [archivedEntries, archivedEntries, ArchivedServer.step, archive_ingest]
  | write index => exact h.write index hcareful
  | resolve index =>
      refine ⟨h.resolve index, ?_⟩
      rw [archivedEntries, archivedEntries, ArchivedServer.step, archive_resolve]
  | restart torn => exact h.restart torn hcareful

end Durable

theorem durable_start : Durable H format {} where
  store := by
    have hnone : archivedEntries format {} = [] := by
      simp [archivedEntries, readline, lines, linesFrom, format.parse_blank]
    rw [hnone]
    exact holds_empty
  appends _ happend := by cases happend
  written _ happend := by cases happend
  resolved _ hhash := by cases hhash

/-- What a durable store has of an archived entry. -/
theorem Durable.found {s : ArchivedServer} (h : Durable H format s) {entry : Entry}
    (hentry : entry ∈ archivedEntries format s) :
    s.store.getRecordByHash (entryHash H codec entry) =
      some (storedOf H codec entry, entry.2) :=
  h.store.found entry (List.mem_append_left _ hentry)

/-- A restart makes up no record and alters none. -/
theorem Durable.restart_found {s : ArchivedServer} (h : Durable H format s)
    (torn : Option (ℕ × ℕ)) (hcareful : CarefulMove H format s (.restart torn)) {hash : String}
    {found : StoredRecord × Option ℕ}
    (hfound : (s.restart H format torn).store.getRecordByHash hash = some found) :
    s.store.getRecordByHash hash = some found := by
  obtain ⟨more, hsub, harchived⟩ := h.archivedEntries_restart torn hcareful
  have hrestart := (h.restart torn hcareful).1
  by_cases hmem : hash ∈ (archivedEntries format (s.restart H format torn)).map (entryHash H codec)
  · obtain ⟨entry, hentry, rfl⟩ := List.mem_map.1 hmem
    rw [hrestart.found hentry] at hfound
    cases hfound
    rw [harchived] at hentry
    exact h.store.found entry ((hsub.append_left _).subset hentry)
  · have hnone : unwrittenEntries (s.restart H format torn) = [] := rfl
    rw [← List.append_nil (archivedEntries format (s.restart H format torn)), ← hnone] at hmem
    rw [hrestart.store.missing_eq hmem] at hfound
    cases hfound

/-- A signed tool call, told from others by its content. -/
def callWith (content : String) : AtribRecord where
  contentId := some content
  creatorKey := "k"
  chainRoot := "r"
  eventType := "https://atrib.dev/v1/types/tool_call"
  contextId := "s"
  timestamp := 1
  rest := [("signature", "z"), ("spec_version", "atrib/1.0")]

/-- The text of such a record. -/
def callText (record : AtribRecord) : Bytes :=
  ["\x7b\"chain_root\":\"r\",", "\"content_id\":\"", record.contentId.getD "", "\",",
    "\"context_id\":\"s\",", "\"creator_key\":\"k\",", "\"event_type\":\"",
    "https://atrib.dev/", "v1/types/tool_call", "\",\"signature\":\"z\",",
    "\"spec_version\":", "\"atrib/1.0\",", "\"timestamp\":1\x7d"].flatMap utf8

/-- The content of the third is a line separator, U+2028. -/
def calls : List AtribRecord := [callWith "abc", callWith "xyz", callWith "\u2028"]

/-- JCS for these records, of which the signatures are known. -/
def callCodec : RecordCodec where
  canonicalRecord := callText
  verifyRecord record := decide (record ∈ calls)

def digits (n : ℕ) : Bytes := (Nat.toDigits 10 n).map fun c => UInt8.ofNat c.toNat

def ofDigits (bytes : Bytes) : ℕ :=
  Nat.ofDigitChars 10 (bytes.map fun b => Char.ofNat b.toNat) 0

def callHead (record : AtribRecord) : Bytes :=
  utf8 "\x7b\"record\":" ++ callText record ++ utf8 ",\"log_index\":"

def indexText (logIndex : Option ℕ) : Bytes := logIndex.elim (utf8 "null") digits

def callLine (record : AtribRecord) (logIndex : Option ℕ) : Bytes :=
  callHead record ++ (indexText logIndex ++ [0x7d])

theorem isDigit_toNat {c : Char} (h : c.isDigit = true) : 48 ≤ c.toNat ∧ c.toNat ≤ 57 := by
  simpa [Char.isDigit, UInt32.le_iff_toNat_le] using h

theorem digits_range {n : ℕ} {b : UInt8} (h : b ∈ digits n) : b.toNat ≤ 57 := by
  obtain ⟨c, hc, rfl⟩ := List.mem_map.1 h
  have hdigit := isDigit_toNat (Nat.isDigit_of_mem_toDigits (by decide) (by decide) hc)
  rw [UInt8.toNat_ofNat', Nat.mod_eq_of_lt (by omega)]
  exact hdigit.2

theorem ofDigits_digits (n : ℕ) : ofDigits (digits n) = n := by
  have hmap : (digits n).map (fun b => Char.ofNat b.toNat) = Nat.toDigits 10 n := by
    rw [digits, List.map_map]
    refine (List.map_congr_left fun c hc => ?_).trans (List.map_id _)
    have hdigit := isDigit_toNat (Nat.isDigit_of_mem_toDigits (by decide) (by decide) hc)
    rw [Function.comp_apply, UInt8.toNat_ofNat', Nat.mod_eq_of_lt (by omega), Char.ofNat_toNat]
    rfl
  rw [ofDigits, hmap]
  exact Nat.ofDigitChars_ten_toDigits

theorem indexText_injective {i j : Option ℕ} (h : indexText i = indexText j) : i = j := by
  have hnull : ∀ n, utf8 "null" ≠ digits n := by
    intro n heq
    have hmem : (0x6e : UInt8) ∈ utf8 "null" := by decide +kernel
    rw [heq] at hmem
    exact absurd (digits_range hmem) (by decide)
  cases i with
  | none =>
      cases j with
      | none => rfl
      | some n => exact absurd h (hnull n)
  | some m =>
      cases j with
      | none => exact absurd h.symm (hnull m)
      | some n =>
          have hdigits : digits m = digits n := h
          rw [← ofDigits_digits m, hdigits, ofDigits_digits]

theorem brace_not_mem_indexText (i : Option ℕ) : 0x7d ∉ indexText i := by
  cases i with
  | none => decide +kernel
  | some n =>
      intro h
      exact absurd (digits_range h) (by decide)

theorem eq_of_isPrefix_append {x : UInt8} {a b : Bytes} (hx : x ∉ b) (h : a ++ [x] <+: b ++ [x]) :
    a = b := by
  obtain ⟨t, ht⟩ := h
  rw [List.append_assoc, List.singleton_append, List.append_eq_append_iff] at ht
  rcases ht with ⟨c, rfl, hc⟩ | ⟨c, rfl, hc⟩
  · cases c with
    | nil => rw [List.append_nil]
    | cons y c =>
        rw [List.cons_append, List.cons.injEq] at hc
        exact absurd (by simp [hc.1]) hx
  · have hlen := congrArg List.length hc
    simp only [List.length_append, List.length_cons, List.length_nil] at hlen
    rw [List.length_eq_zero_iff.1 (show c.length = 0 by omega), List.append_nil]

/-- No line is the beginning of another. -/
theorem eq_of_isPrefix_callLine {entry entry' : Entry} (h : entry.1 ∈ calls) (h' : entry'.1 ∈ calls)
    (hpre : callLine entry.1 entry.2 <+: callLine entry'.1 entry'.2) : entry = entry' := by
  have hlengths : ∀ r ∈ calls, (callHead r).length = 204 := by decide +kernel
  have hnodup : (calls.map callHead).Nodup := by decide +kernel
  have hlen : (callHead entry.1).length = (callHead entry'.1).length :=
    (hlengths _ h).trans (hlengths _ h').symm
  have hhead : callHead entry.1 <+: callHead entry'.1 :=
    List.prefix_of_prefix_length_le ((List.prefix_append _ _).trans hpre)
      (List.prefix_append _ _) hlen.le
  have hrecord := List.inj_on_of_nodup_map hnodup h h' (hhead.eq_of_length hlen)
  rw [callLine, callLine, hrecord, List.prefix_append_right_inj] at hpre
  exact Prod.ext hrecord
    (indexText_injective (eq_of_isPrefix_append (brace_not_mem_indexText _) hpre))

/-- The entries whose line it might be. -/
def callCandidates (line : Bytes) : List Entry :=
  calls.flatMap fun record =>
    [(record, none), (record, some (ofDigits (line.drop (callHead record).length).dropLast))]

theorem mem_callCandidates {record : AtribRecord} (h : record ∈ calls) (logIndex : Option ℕ) :
    (record, logIndex) ∈ callCandidates (callLine record logIndex) := by
  refine List.mem_flatMap.2 ⟨record, h, ?_⟩
  cases logIndex with
  | none => exact List.mem_cons_self
  | some n =>
      rw [callLine, List.drop_left, List.dropLast_concat, indexText, Option.elim_some,
        ofDigits_digits]
      exact List.mem_cons_of_mem _ (List.mem_singleton_self _)

theorem mem_calls_of_candidate {line : Bytes} {entry : Entry} (h : entry ∈ callCandidates line) :
    entry.1 ∈ calls := by
  obtain ⟨record, hrecord, hentry⟩ := List.mem_flatMap.1 h
  simp only [List.mem_cons, List.not_mem_nil, or_false] at hentry
  rcases hentry with rfl | rfl <;> exact hrecord

def callParse (line : Bytes) : Option Entry :=
  (callCandidates line).find? fun entry => decide (callLine entry.1 entry.2 = line)

theorem callParse_eq_some {line : Bytes} {entry : Entry} (h : callParse line = some entry) :
    entry.1 ∈ calls ∧ callLine entry.1 entry.2 = line :=
  ⟨mem_calls_of_candidate (List.mem_of_find?_eq_some h), by simpa using List.find?_some h⟩

/-- JSON for these records. -/
def callFormat : ArchiveFormat callCodec where
  stringify := callLine
  parse := callParse
  parse_blank := by
    cases h : callParse [] with
    | none => rfl
    | some entry => exact absurd (callParse_eq_some h).2 (by simp [callLine])
  parse_stringify record logIndex hverified := by
    have hcall : record ∈ calls := of_decide_eq_true hverified
    cases h : callParse (callLine record logIndex) with
    | none =>
        have hnone := List.find?_eq_none.1 h _ (mem_callCandidates hcall logIndex)
        simp at hnone
    | some entry =>
        obtain ⟨hentry, hline⟩ := callParse_eq_some h
        have hpre : callLine entry.1 entry.2 <+: callLine record logIndex := by rw [hline]
        exact congrArg some (eq_of_isPrefix_callLine hentry
          (show ((record, logIndex) : Entry).1 ∈ calls from hcall) hpre)
  parse_torn record logIndex hverified text hpre hne := by
    have hcall : record ∈ calls := of_decide_eq_true hverified
    cases h : callParse text with
    | none => rfl
    | some entry =>
        obtain ⟨hentry, rfl⟩ := callParse_eq_some h
        have heq := eq_of_isPrefix_callLine hentry
          (show ((record, logIndex) : Entry).1 ∈ calls from hcall) hpre
        rw [heq] at hne
        exact absurd rfl hne

/-- The digests of the three records. -/
def callDigests : List (Bytes × Bytes) :=
  [(callText (callWith "abc"),
      hexBytes "2e64151308cd31bced93a167722e6de02bc4816d4450edcacd8f25bbc244f839".toList),
    (callText (callWith "xyz"),
      hexBytes "cf3489a09b33321423baffa84187b9b0033f21d67d267df6d65af30651876e46".toList),
    (callText (callWith "\u2028"),
      hexBytes "3caab10f738705c57c309931f0ef6e1b1fe5ce9d35ba28d3a639d3038bf32cf7".toList)]

theorem sha256_callDigests : ∀ d ∈ callDigests, Hash.fips180.sha256 d.1 = d.2 := by decide +kernel

/-- SHA-256 with these digests looked up. -/
def lookupSha256 (data : Bytes) : Bytes :=
  ((callDigests.find? (·.1 = data)).map Prod.snd).getD (Hash.fips180.sha256 data)

theorem lookupSha256_eq (data : Bytes) : lookupSha256 data = Hash.fips180.sha256 data := by
  rw [lookupSha256]
  cases h : callDigests.find? (·.1 = data) with
  | none => rfl
  | some d =>
      have hdata : d.1 = data := by simpa using List.find?_some h
      rw [← hdata, sha256_callDigests d (List.mem_of_find?_eq_some h)]
      rfl

def lookupHash : Hash :=
  ⟨lookupSha256, fun data => by rw [lookupSha256_eq, Hash.length_sha256]⟩

theorem lookupHash_eq : lookupHash = Hash.fips180 := by
  rw [lookupHash, Hash.fips180, Hash.mk.injEq]
  exact funext lookupSha256_eq

variable (H) in
/-- A restart changes what the store has of a record whose ingest was answered. -/
def Forgets (moves : List ArchiveMove) : Prop :=
  ∃ hash ∈ (run (ArchivedServer.step H callFormat) {} moves).resolved,
    (run (ArchivedServer.step H callFormat) {} (moves ++ [.restart none])).store.getRecordByHash
        hash ≠
      (run (ArchivedServer.step H callFormat) {} moves).store.getRecordByHash hash

instance (moves : List ArchiveMove) : Decidable (Forgets H moves) :=
  inferInstanceAs (Decidable (∃ hash ∈ (run (ArchivedServer.step H callFormat) {} moves).resolved,
    _ ≠ _))

end Atrib.GraphNode
