import Atrib.Lib.Run
import Atrib.Mcp.Refs
import Atrib.Proofs.ArchiveMerge

/-!
# What is archived stays archived

Three collections hold entries of a record: the memory, the appends under way
and the file. Each entry in the file or on its way there is covered by the one
in memory, and the last line of a record covers what every put that has been
resolved brought. A step keeps this if a put changes no fact and is not answered
out of memory before the file has the entry, if an append starts behind a whole
line and does not come after one that covers it, and if the entry has not
expired when a put is resolved.
-/

namespace Atrib.ArchiveNode

open Lib InsertionMap Lib.Lines

variable {P : Platform} {window : JsNumber}

/-! ## Lines -/

variable (P) in
/-- The text of an entry is one line from which JSON gets the entry back, and
from a beginning of it nothing. -/
structure ReadsBack (entry : StoredArchiveEntry) : Prop where
  oneLine : LF ∉ stableJson P entry
  parse : P.parse (stableJson P entry) = some entry.toJson
  torn : ∀ count < (stableJson P entry).length, P.parse ((stableJson P entry).take count) = none
  nonempty : stableJson P entry ≠ []

instance (entry : StoredArchiveEntry) : Decidable (ReadsBack P entry) :=
  decidable_of_iff (LF ∉ stableJson P entry ∧
    P.parse (stableJson P entry) = some entry.toJson ∧
    (∀ count < (stableJson P entry).length,
      P.parse ((stableJson P entry).take count) = none) ∧ stableJson P entry ≠ [])
    ⟨fun ⟨a, b, c, d⟩ => ⟨a, b, c, d⟩, fun ⟨a, b, c, d⟩ => ⟨a, b, c, d⟩⟩

/-- The text tells the entry. -/
theorem ReadsBack.eq_of_stableJson_eq {a b : StoredArchiveEntry} (ha : ReadsBack P a)
    (hb : ReadsBack P b) (h : stableJson P a = stableJson P b) : a = b := by
  refine toJson_injective (Option.some.inj ?_)
  rw [← ha.parse, h, hb.parse]

variable (P) in
/-- An entry as a put makes it. -/
structure Sound (entry : StoredArchiveEntry) : Prop extends ReadsBack P entry where
  hash : recordHash P entry.record = some entry.recordHash

theorem Sound.readLine_eq {entry : StoredArchiveEntry} (h : Sound P entry) :
    readLine P (stableJson P entry) = some entry := by
  simp [readLine, h.nonempty, h.parse, isStoredEntry_toJson, h.hash]

/-- What the file has got when the first bytes of a line are in it. -/
theorem Sound.filterMap_take {entry : StoredArchiveEntry} (h : Sound P entry) (count : ℕ) :
    (lines [[LF]] ((archiveLine P entry).take count)).filterMap (readLine P) =
      if count < (stableJson P entry).length then [] else [entry] := by
  rw [archiveLine]
  split
  · next hlt =>
      have hnone : readLine P ((stableJson P entry).take count) = none := by
        rw [readLine]
        split
        · rfl
        · rw [h.torn count hlt]
          rfl
      have hline : LF ∉ (stableJson P entry).take count :=
        fun hmem => h.oneLine (List.mem_of_mem_take hmem)
      rw [List.take_append_of_le_length hlt.le, lines_of_no_newline hline, List.filterMap_cons,
        hnone]
      rfl
  · next hle =>
      rcases Nat.lt_or_ge (stableJson P entry).length count with hlt | hge
      · rw [List.take_of_length_le (by simp; omega), lines_newline h.oneLine,
          List.filterMap_cons, h.readLine_eq]
        simp [lines, linesFrom, readLine]
      · have hcount : count = (stableJson P entry).length := by omega
        rw [hcount, List.take_left, lines_of_no_newline h.oneLine, List.filterMap_cons,
          h.readLine_eq]
        rfl

/-- No line of the file is left open. -/
def AtBoundary (file : Bytes) : Prop := file = [] ∨ file.getLast? = some LF

instance (file : Bytes) : Decidable (AtBoundary file) :=
  inferInstanceAs (Decidable (_ ∨ _))

theorem Sound.init_append {entry : StoredArchiveEntry} (h : Sound P entry) {file : Bytes}
    {count : ℕ} (hboundary : count = 0 ∨ AtBoundary file) :
    init P (file ++ (archiveLine P entry).take count) =
      if count < (stableJson P entry).length then init P file
      else (init P file).set entry.recordHash entry := by
  rcases hboundary with rfl | hboundary
  · have hpos : 0 < (stableJson P entry).length := List.length_pos_iff.2 h.nonempty
    rw [if_pos hpos, List.take_zero, List.append_nil]
  · have hread : readLine P [] = none := rfl
    rw [init, (newline_singleton LF).filterMap_lines_append hread hboundary, List.foldl_append,
      h.filterMap_take count, ← init]
    split <;> rfl

/-! ## Entries -/

/-- The entries have everything the entry has. -/
def Has (entries : Entries) (entry : StoredArchiveEntry) : Prop :=
  ∃ found, entries.get? entry.recordHash = some found ∧ Covers found entry

/-- What some entries have the others have, and perhaps more. -/
def Extends (entries entries' : Entries) : Prop :=
  ∀ hash entry, entries.get? hash = some entry →
    ∃ found, entries'.get? hash = some found ∧ Covers found entry

theorem Extends.refl (entries : Entries) : Extends entries entries :=
  fun _ entry h => ⟨entry, h, Covers.refl entry⟩

theorem Extends.trans {a b c : Entries} (hab : Extends a b) (hbc : Extends b c) :
    Extends a c := by
  intro hash entry h
  obtain ⟨found, hfound, hcovers⟩ := hab hash entry h
  obtain ⟨found', hfound', hcovers'⟩ := hbc hash found hfound
  exact ⟨found', hfound', hcovers'.trans hcovers⟩

theorem Has.mono {entries entries' : Entries} {entry : StoredArchiveEntry}
    (h : Has entries entry) (hext : Extends entries entries') : Has entries' entry := by
  obtain ⟨found, hfound, hcovers⟩ := h
  obtain ⟨found', hfound', hcovers'⟩ := hext _ found hfound
  exact ⟨found', hfound', hcovers'.trans hcovers⟩

/-- An entry may take the place of one that it covers. -/
theorem extends_set {entries : Entries} {entry : StoredArchiveEntry} {hash : String}
    (h : ∀ existing, entries.get? hash = some existing → Covers entry existing) :
    Extends entries (entries.set hash entry) := by
  intro hash' existing hexisting
  rw [get?_set]
  split
  · next heq => exact ⟨entry, rfl, h existing (heq ▸ hexisting)⟩
  · exact ⟨existing, hexisting, Covers.refl existing⟩

theorem has_set (entries : Entries) (entry : StoredArchiveEntry) :
    Has (entries.set entry.recordHash entry) entry :=
  ⟨entry, get?_set_self _ _ _, Covers.refl entry⟩

variable (P) in
/-- Each entry is sound and filed under its record hash. -/
def AllSound (entries : Entries) : Prop :=
  ∀ hash entry, entries.get? hash = some entry → entry.recordHash = hash ∧ Sound P entry

theorem AllSound.set {entries : Entries} (h : AllSound P entries) {entry : StoredArchiveEntry}
    (hentry : Sound P entry) : AllSound P (entries.set entry.recordHash entry) := by
  intro hash found hfound
  rw [get?_set] at hfound
  split at hfound
  · next heq =>
      obtain rfl := Option.some.inj hfound
      exact ⟨heq.symm, hentry⟩
  · exact h hash found hfound

/-! ## Careful runs -/

/-- The entry of a record that is in memory has not expired. -/
def NotExpired (entries : Entries) (hash : String) (nowMs : JsNumber) : Prop :=
  ∀ entry ∈ entries.get? hash,
    (entry.archivedAtMs.add entry.retentionWindowMs).lt nowMs = false

variable (P window) in
/-- JSON keeps what is put, no fact gets another value, and a put that has
nothing to add finds the entry in the file. -/
def CarefulPut (s : ArchiveStore) (next : StoredArchiveEntry) (nowMs : JsNumber) : Prop :=
  ReadsBack P (s.mergedEntry P next) ∧
    ∀ existing ∈ s.entries.get? next.recordHash, Mergeable P existing next ∧
      (stableJson P existing = stableJson P (s.mergedEntry P next) →
        (init P s.file).get? next.recordHash = some existing ∧
          NotExpired s.entries next.recordHash nowMs)

variable (P window) in
def CarefulStoreMove (s : ArchiveStore) : StoreMove → Prop
  | .put submission nowMs =>
      ∀ next ∈ ArchiveStore.nextEntry P window submission nowMs, CarefulPut P s next nowMs
  | .write index count =>
      ∀ append ∈ s.appends[index]?, append.status = .started →
        (count = 0 ∨ AtBoundary s.file) ∧
          ∀ existing ∈ (init P s.file).get? append.entry.recordHash,
            (stableJson P append.entry).length ≤ count → Covers append.entry existing
  | .resolve index nowMs =>
      ∀ append ∈ s.appends[index]?, NotExpired s.entries append.entry.recordHash nowMs
  | .fail _ | .restart => True

instance (entries : Entries) (hash : String) (nowMs : JsNumber) :
    Decidable (NotExpired entries hash nowMs) :=
  inferInstanceAs (Decidable (∀ entry ∈ entries.get? hash, _ = false))

instance (s : ArchiveStore) (next : StoredArchiveEntry) (nowMs : JsNumber) :
    Decidable (CarefulPut P s next nowMs) := inferInstanceAs (Decidable (_ ∧ _))

instance (s : ArchiveStore) : ∀ move, Decidable (CarefulStoreMove P window s move)
  | .put submission nowMs => inferInstanceAs (Decidable
      (∀ next ∈ ArchiveStore.nextEntry P window submission nowMs, CarefulPut P s next nowMs))
  | .write index _ => inferInstanceAs (Decidable (∀ append ∈ s.appends[index]?, _ → _ ∧ _))
  | .resolve index _ => inferInstanceAs (Decidable (∀ append ∈ s.appends[index]?, NotExpired _ _ _))
  | .fail _ | .restart => isTrue trivial

/-! ## What holds along a run -/

/-- What has been resolved was found then, and is covered in the file. -/
structure Kept (file : Entries) (put : Resolved) : Prop where
  found : ∃ entry, put.lookup = .found entry ∧ entry.recordHash = put.entry.recordHash
  brought : Covers put.entry put.next ∧ put.next.recordHash = put.entry.recordHash
  filed : Has file put.entry

variable (P) in
structure Durable (s : ArchiveStore) : Prop where
  memory : AllSound P s.entries
  file : AllSound P (init P s.file)
  filed : Extends (init P s.file) s.entries
  appends : ∀ append ∈ s.appends, Sound P append.entry ∧ Has s.entries append.entry ∧
    Covers append.entry append.next ∧ append.next.recordHash = append.entry.recordHash
  written : ∀ append ∈ s.appends, append.status = .written → Has (init P s.file) append.entry
  resolved : ∀ put ∈ s.resolved, Kept (init P s.file) put

/-- The entry a careful put makes. -/
theorem mergedEntry_spec {s : ArchiveStore} (hmemory : AllSound P s.entries)
    {submission : ArchiveSubmissionEnvelope} {nowMs : JsNumber} {next : StoredArchiveEntry}
    (hnext : ArchiveStore.nextEntry P window submission nowMs = some next)
    (hcareful : CarefulPut P s next nowMs) :
    Sound P (s.mergedEntry P next) ∧ (s.mergedEntry P next).recordHash = next.recordHash ∧
      Covers (s.mergedEntry P next) next ∧
      ∀ existing, s.entries.get? next.recordHash = some existing →
        Covers (s.mergedEntry P next) existing := by
  obtain ⟨hreads, hexists⟩ := hcareful
  cases hget : s.entries.get? next.recordHash with
  | none =>
      have hmerged : s.mergedEntry P next = next := by rw [ArchiveStore.mergedEntry, hget]
      rw [hmerged] at hreads ⊢
      refine ⟨⟨hreads, ?_⟩, rfl, Covers.refl next, fun _ h => nomatch h⟩
      rw [ArchiveStore.nextEntry] at hnext
      cases hhash : recordHash P submission.record with
      | none => simp [hhash] at hnext
      | some hash =>
          simp only [hhash, Option.bind_eq_bind, Option.bind_some] at hnext
          obtain ⟨_, -, hnext⟩ := Option.bind_eq_some_iff.1 hnext
          rw [← Option.some.inj hnext]
          exact hhash
  | some existing =>
      have hmerged : s.mergedEntry P next = mergeEntries P existing next := by
        rw [ArchiveStore.mergedEntry, hget]
      obtain ⟨hkey, hsound⟩ := hmemory _ _ hget
      have hmerge := (hexists existing hget).1
      rw [hmerged] at hreads ⊢
      refine ⟨⟨hreads, hsound.hash⟩, hkey, mergeEntries_covers_next hmerge, ?_⟩
      intro other hother
      rw [← Option.some.inj hother]
      exact mergeEntries_covers hmerge

namespace Durable

variable {s : ArchiveStore} (h : Durable P s)

include h

theorem put {submission : ArchiveSubmissionEnvelope} {nowMs : JsNumber}
    (hcareful : CarefulStoreMove P window s (.put submission nowMs)) :
    Durable P (s.put P window submission nowMs) := by
  rw [ArchiveStore.put]
  cases hnext : ArchiveStore.nextEntry P window submission nowMs with
  | none => exact h
  | some next =>
      have hput := hcareful next hnext
      obtain ⟨hsound, hkey, hbrought, hcovers⟩ := mergedEntry_spec h.memory hnext hput
      have hextends : Extends s.entries (s.entries.set next.recordHash (s.mergedEntry P next)) :=
        extends_set hcovers
      have hmemory : AllSound P (s.entries.set next.recordHash (s.mergedEntry P next)) := by
        rw [← hkey]
        exact h.memory.set hsound
      have hhas : Has (s.entries.set next.recordHash (s.mergedEntry P next))
          (s.mergedEntry P next) := by
        rw [← hkey]
        exact has_set _ _
      have happends : ∀ append ∈ s.appends, Sound P append.entry ∧
          Has (s.entries.set next.recordHash (s.mergedEntry P next)) append.entry ∧
          Covers append.entry append.next ∧
          append.next.recordHash = append.entry.recordHash := by
        intro append happend
        obtain ⟨hs, hhas, hrest⟩ := h.appends append happend
        exact ⟨hs, hhas.mono hextends, hrest⟩
      simp only
      split
      · next hsame =>
          refine ⟨hmemory, h.file, h.filed.trans hextends, happends, h.written, ?_⟩
          intro put hmem
          rcases List.mem_append.1 hmem with hmem | hmem
          · exact h.resolved put hmem
          · -- the file has the entry that was in memory, and that is the one the put makes
            obtain ⟨existing, hexisting, htext⟩ := Option.map_eq_some_iff.1 hsame
            obtain ⟨hfiled, hfresh⟩ := (hput.2 existing hexisting).2 htext
            have heq : existing = s.mergedEntry P next :=
              (h.memory _ _ hexisting).2.eq_of_stableJson_eq hsound.toReadsBack htext
            subst heq
            rw [List.mem_singleton.1 hmem]
            refine ⟨⟨s.mergedEntry P next, ?_, rfl⟩, ⟨hbrought, hkey.symm⟩, ?_⟩
            · simp only [get, hkey, get?_set_self, hfresh _ hexisting]
              rfl
            · exact ⟨_, hkey ▸ hfiled, Covers.refl _⟩
      · refine ⟨hmemory, h.file, h.filed.trans hextends, ?_, ?_, h.resolved⟩
        · intro append happend
          rcases List.mem_append.1 happend with happend | happend
          · exact happends append happend
          · rw [List.mem_singleton.1 happend]
            exact ⟨hsound, hhas, hbrought, hkey.symm⟩
        · intro append happend hwritten
          rcases List.mem_append.1 happend with happend | happend
          · exact h.written append happend hwritten
          · rw [List.mem_singleton.1 happend] at hwritten
            cases hwritten

theorem write {index count : ℕ} (hcareful : CarefulStoreMove P window s (.write index count)) :
    Durable P (s.write P index count) ∧
      Extends (init P s.file) (init P (s.write P index count).file) := by
  rw [ArchiveStore.write]
  split
  · next next entry hget =>
      obtain ⟨hboundary, hcovers⟩ := hcareful _ hget rfl
      obtain ⟨hsound, hhas, hbrought⟩ := h.appends _ (List.mem_of_getElem? hget)
      have hinit := hsound.init_append hboundary
      simp only at hcovers hinit hsound hhas ⊢
      have hextends : Extends (init P s.file)
          (init P (s.file ++ (archiveLine P entry).take count)) := by
        rw [hinit]
        split
        · exact Extends.refl _
        · next hle =>
            exact extends_set fun existing hexisting => hcovers existing hexisting (by omega)
      have hfile : AllSound P (init P (s.file ++ (archiveLine P entry).take count)) := by
        rw [hinit]
        split
        · exact h.file
        · exact h.file.set hsound
      have hfiled : Extends (init P (s.file ++ (archiveLine P entry).take count)) s.entries := by
        rw [hinit]
        split
        · exact h.filed
        · intro hash existing hexisting
          rw [get?_set] at hexisting
          split at hexisting
          · next heq =>
              obtain rfl := Option.some.inj hexisting
              rw [heq]
              exact hhas
          · exact h.filed hash existing hexisting
      refine ⟨⟨h.memory, hfile, hfiled, ?_, ?_, ?_⟩, hextends⟩
      · intro append happend
        rcases List.mem_or_eq_of_mem_set happend with hmem | rfl
        · exact h.appends append hmem
        · exact ⟨hsound, hhas, hbrought⟩
      · intro append happend hwritten
        rcases List.mem_or_eq_of_mem_set happend with hmem | rfl
        · exact (h.written append hmem hwritten).mono hextends
        · show Has (init P (s.file ++ (archiveLine P entry).take count)) entry
          simp only at hwritten
          split at hwritten
          · next hlen =>
              rw [archiveLine, List.length_append, List.length_singleton] at hlen
              rw [hinit, if_neg (by omega)]
              exact has_set _ _
          · cases hwritten
      · intro put hput
        have hkept := h.resolved put hput
        exact { hkept with filed := hkept.filed.mono hextends }
  · exact ⟨h, Extends.refl _⟩

theorem resolve {index : ℕ} {nowMs : JsNumber}
    (hcareful : CarefulStoreMove P window s (.resolve index nowMs)) :
    Durable P (s.resolve index nowMs) := by
  rw [ArchiveStore.resolve]
  split
  · next next entry hget =>
      have hmem := List.mem_of_getElem? hget
      obtain ⟨-, ⟨found, hfound, hcovers⟩, hbrought⟩ := h.appends _ hmem
      refine ⟨h.memory, h.file, h.filed,
        fun append happend => h.appends append (List.mem_of_mem_eraseIdx happend),
        fun append happend => h.written append (List.mem_of_mem_eraseIdx happend), ?_⟩
      intro put hput
      rcases List.mem_append.1 hput with hput | hput
      · exact h.resolved put hput
      · rw [List.mem_singleton.1 hput]
        refine ⟨⟨found, ?_, (h.memory _ _ hfound).1⟩, hbrought, h.written _ hmem rfl⟩
        have hfresh := hcareful _ hget found hfound
        simp only at hfound
        simp [get, hfound, hfresh]
  · exact h

theorem fail (index : ℕ) : Durable P (s.fail index) :=
  ⟨h.memory, h.file, h.filed,
    fun append happend => h.appends append (List.mem_of_mem_eraseIdx happend),
    fun append happend => h.written append (List.mem_of_mem_eraseIdx happend), h.resolved⟩

theorem restart : Durable P (s.restart P) :=
  ⟨h.file, h.file, Extends.refl _, fun _ happend => (List.not_mem_nil happend).elim,
    fun _ happend => (List.not_mem_nil happend).elim, h.resolved⟩

theorem step {move : StoreMove} (hcareful : CarefulStoreMove P window s move) :
    Durable P (s.step P window move) ∧
      Extends (init P s.file) (init P (s.step P window move).file) := by
  cases move with
  | put submission nowMs =>
      refine ⟨h.put hcareful, ?_⟩
      have hfile : (s.put P window submission nowMs).file = s.file := by
        rw [ArchiveStore.put]
        split
        · rfl
        · simp only
          split <;> rfl
      rw [ArchiveStore.step, hfile]
      exact Extends.refl _
  | write index count => exact h.write hcareful
  | resolve index nowMs =>
      refine ⟨h.resolve hcareful, ?_⟩
      have hfile : (s.resolve index nowMs).file = s.file := by
        rw [ArchiveStore.resolve]
        split <;> rfl
      rw [ArchiveStore.step, hfile]
      exact Extends.refl _
  | fail index => exact ⟨h.fail index, Extends.refl _⟩
  | restart => exact ⟨h.restart, Extends.refl _⟩

end Durable

theorem durable_start : Durable P {} where
  memory _ _ h := by cases h
  file _ _ h := by cases h
  filed _ _ h := by cases h
  appends _ h := by cases h
  written _ h := by cases h
  resolved _ h := by cases h

/-- When a put is resolved `get` finds its record, and the entry that a restart
makes of the file, then or any time later, covers what the put brought and what
it returned. -/
theorem archive_keeps (P : Platform) (window : JsNumber) (moves later : List StoreMove)
    (hcareful : Always (ArchiveStore.step P window) (CarefulStoreMove P window) {}
      (moves ++ later)) :
    ∀ put ∈ (run (ArchiveStore.step P window) {} moves).resolved,
      (∃ entry, put.lookup = .found entry ∧ entry.recordHash = put.next.recordHash) ∧
      ∃ entry, ((run (ArchiveStore.step P window) {} (moves ++ later)).restart P).entries.get?
          put.next.recordHash = some entry ∧
        Covers entry put.next ∧ Covers entry put.entry := by
  intro put hput
  obtain ⟨hmoves, hlater⟩ := Always.append.1 hcareful
  have hstep : ∀ s move, Durable P s → CarefulStoreMove P window s move →
      Durable P (s.step P window move) := fun _ _ h hc => (h.step hc).1
  have hdurable : Durable P (run (ArchiveStore.step P window) {} moves) :=
    run_invariant hstep durable_start hmoves
  obtain ⟨⟨found, hfound, hhash⟩, ⟨hbrought, hsame⟩, hfiled⟩ := hdurable.resolved put hput
  let grown : ArchiveStore → Prop := fun s => Durable P s ∧ Has (init P s.file) put.entry
  have hgrow : ∀ s move, grown s → CarefulStoreMove P window s move →
      grown (s.step P window move) :=
    fun _ _ h hc => ⟨(h.1.step hc).1, h.2.mono (h.1.step hc).2⟩
  have hgrown : grown (run (ArchiveStore.step P window) {} (moves ++ later)) := by
    rw [run_append]
    exact run_invariant hgrow ⟨hdurable, hfiled⟩ hlater
  obtain ⟨entry, hentry, hcovers⟩ := hgrown.2
  rw [hsame]
  exact ⟨⟨found, hfound, hhash⟩, entry, hentry, hcovers.trans hbrought, hcovers⟩

/-! ## An archive of one record -/

namespace ArchiveSample

/-- Texts with a comma between them. -/
def joined : List Bytes → Bytes
  | [] => []
  | [text] => text
  | text :: texts => text ++ 0x2c :: joined texts

def quoted (text : String) : Bytes := 0x22 :: utf8 text ++ [0x22]

mutual

/-- `JSON.stringify`, for natural numbers and texts with nothing to escape. -/
def stringify : JsValue → Bytes
  | .number (.finite q) => (Nat.toDigits 10 q.num.toNat).map fun c => UInt8.ofNat c.toNat
  | .string text => quoted text
  | .array items => 0x5b :: joined (itemTexts items) ++ [0x5d]
  | .object members => 0x7b :: joined (memberTexts members) ++ [0x7d]
  | _ => utf8 "null"

def itemTexts : List JsValue → List Bytes
  | [] => []
  | item :: items => stringify item :: itemTexts items

def memberTexts : List (String × JsValue) → List Bytes
  | [] => []
  | (key, value) :: members => (quoted key ++ 0x3a :: stringify value) :: memberTexts members

end

def record : AtribRecordLike :=
  ⟨.object [("chain_root", .string "r"), ("content_id", .string "c"), ("context_id", .string "s"),
    ("creator_key", .string "k"), ("event_type", .string "e"), ("signature", .string "z"),
    ("spec_version", .string "atrib/1.0"), ("timestamp", .number (.finite 1))], by decide⟩

/-- SHA-256, the digest of the record being known. -/
def hash : Hash where
  sha256 data :=
    if data = stringify record.val then
      hexBytes "a2f398293d716555b6820cf2826ea1621fa2b2fe9db9d4d6d0b6cddf463d306d".toList
    else Hash.fips180.sha256 data
  length_sha256 data := by
    split
    · decide +kernel
    · exact Hash.length_sha256 _ _

def submission (proof : String) : ArchiveSubmissionEnvelope where
  record := record
  logProofs := [.object [("leaf_hash", .string proof)]]

def entry (proofs : List String) : StoredArchiveEntry where
  recordHash := "sha256:a2f398293d716555b6820cf2826ea1621fa2b2fe9db9d4d6d0b6cddf463d306d"
  record := record
  archivedAtMs := .finite 1
  retentionWindowMs := .finite 9
  logProofs := proofs.map fun proof => .object [("leaf_hash", .string proof)]
  authorizationEvidence := []
  evidence := []
  resolvedFacts := none

def nineMs : JsNumber := .finite 9

/-- The entries of the archive. -/
def stored : List StoredArchiveEntry := [entry ["a"], entry ["a", "b"]]

/-- JSON for these entries. The members of the record are in the order of JCS. -/
def platform : Platform where
  canonicalRecord value := some (stringify value)
  hash := hash
  stringify := stringify
  parse text := (stored.map StoredArchiveEntry.toJson).find? fun value => stringify value = text

/-- A put is answered although no line of its entry is in the file: the append
of the first put has failed, and the second one finds its entry in memory. -/
theorem put_forgotten :
    let moves : List StoreMove := [.put (submission "a") (.finite 1), .fail 0,
      .put (submission "a") (.finite 2)]
    ∃ put ∈ (run (ArchiveStore.step platform nineMs) {} moves).resolved,
      ((run (ArchiveStore.step platform nineMs) {} moves).restart platform).entries.get?
        put.next.recordHash = none := by
  decide +kernel

theorem readsBack_stored : ∀ entry ∈ stored, ReadsBack platform entry := by
  have hpre : ∀ a ∈ stored, ∀ b ∈ stored,
      (stableJson platform a).isPrefixOf (stableJson platform b) = true → a = b := by
    decide +kernel
  have hline : ∀ a ∈ stored, LF ∉ stableJson platform a ∧ stableJson platform a ≠ [] := by
    decide +kernel
  have hparse : ∀ a ∈ stored, platform.parse (stableJson platform a) = some a.toJson := by
    decide +kernel
  intro entry hentry
  refine ⟨(hline entry hentry).1, hparse entry hentry, ?_, (hline entry hentry).2⟩
  intro count hcount
  refine List.find?_eq_none.2 fun value hvalue => ?_
  obtain ⟨other, hother, rfl⟩ := List.mem_map.1 hvalue
  -- a text that is cut off would be the text of another entry
  intro heq
  have htake : stableJson platform other = (stableJson platform entry).take count :=
    of_decide_eq_true heq
  obtain rfl := hpre other hother entry hentry (by
    rw [htake, List.isPrefixOf_iff_prefix]
    exact List.take_prefix _ _)
  have hlen := congrArg List.length htake
  rw [List.length_take] at hlen
  omega

/-- Two puts of one record. -/
def puts : List StoreMove :=
  [.put (submission "a") (.finite 1), .write 0 1000, .resolve 0 (.finite 2),
    .put (submission "b") (.finite 3), .write 0 1000, .resolve 0 (.finite 4)]

/-- A restart, and a put that has nothing to add. -/
def repeated : List StoreMove := [.restart, .put (submission "a") (.finite 5)]

/-- A careful move, but for what JSON does. -/
def StoresListed (s : ArchiveStore) : StoreMove → Prop
  | .put submission nowMs => ∀ next ∈ ArchiveStore.nextEntry platform nineMs submission nowMs,
      s.mergedEntry platform next ∈ stored ∧
        ∀ existing ∈ s.entries.get? next.recordHash, existing ∈ stored ∧
          Mergeable platform existing next ∧
          (existing = s.mergedEntry platform next →
            (init platform s.file).get? next.recordHash = some existing ∧
              NotExpired s.entries next.recordHash nowMs)
  | move => CarefulStoreMove platform nineMs s move

instance (s : ArchiveStore) : ∀ move, Decidable (StoresListed s move)
  | .put submission nowMs => inferInstanceAs (Decidable
      (∀ next ∈ ArchiveStore.nextEntry platform nineMs submission nowMs, _ ∧ _))
  | .write index count =>
      inferInstanceAs (Decidable (CarefulStoreMove platform nineMs s (.write index count)))
  | .resolve index nowMs =>
      inferInstanceAs (Decidable (CarefulStoreMove platform nineMs s (.resolve index nowMs)))
  | .fail _ | .restart => isTrue trivial

theorem StoresListed.careful (s : ArchiveStore) (move : StoreMove) (h : StoresListed s move) :
    CarefulStoreMove platform nineMs s move := by
  cases move with
  | put submission nowMs =>
      intro next hnext
      obtain ⟨hmerged, hexists⟩ := h next hnext
      refine ⟨readsBack_stored _ hmerged, fun existing hexisting => ?_⟩
      obtain ⟨hstored, hmerge, hsame⟩ := hexists existing hexisting
      refine ⟨hmerge, fun htext => hsame ?_⟩
      exact (readsBack_stored _ hstored).eq_of_stableJson_eq (readsBack_stored _ hmerged) htext
  | _ => exact h

theorem archive_keeps_two :
    (run (ArchiveStore.step platform nineMs) {} puts).resolved.length = 2 ∧
      ∀ put ∈ (run (ArchiveStore.step platform nineMs) {} puts).resolved,
        (∃ entry, put.lookup = .found entry ∧ entry.recordHash = put.next.recordHash) ∧
        ∃ entry, ((run (ArchiveStore.step platform nineMs) {} (puts ++ repeated)).restart
            platform).entries.get? put.next.recordHash = some entry ∧
          Covers entry put.next ∧ Covers entry put.entry := by
  have hlisted : Always (ArchiveStore.step platform nineMs) StoresListed {} (puts ++ repeated) := by
    decide +kernel
  refine ⟨by decide +kernel, ?_⟩
  exact archive_keeps platform nineMs puts repeated (hlisted.mono StoresListed.careful)

end ArchiveSample

end Atrib.ArchiveNode
