import Atrib.Lib.Newest
import Atrib.Lib.Run
import Atrib.Mcp.Mirror
import Mathlib.Data.List.Induction
import Mathlib.Data.List.ReduceOption
import Mathlib.Data.Prod.Lex
import Mathlib.Data.String.Basic

/-!
# The index of the mirror files

A tail map is right for a directory if it has, for each context, the newest of
the last records of the files. The full scan makes such a map; the index is
one of an earlier directory, all of whose files ended with a newline. Appended
lines that give the same records whole as cut where `readline` cuts them turn
it into one of the later directory.
-/

namespace Atrib.Mirror

open Lib (InsertionMap Newest)
open Lib.Lines

variable (H : Hash) (codec : MirrorCodec)

/-! ## The last record of a file -/

def recordsOf (content : Bytes) : List MirrorRecord :=
  (readline content).filterMap (recordOfLine H codec)

/-- The last record of a context. -/
def lastIn (contextId : String) (records : List MirrorRecord) : Option MirrorRecord :=
  records.reverse.find? (·.contextId = contextId)

/-- The line gives the same records whole as cut where `readline` cuts it. -/
def Unbroken (line : Bytes) : Prop :=
  recordsOf H codec line = (recordOfLine H codec line).toList

theorem lastIn_append (contextId : String) (a b : List MirrorRecord) :
    lastIn contextId (a ++ b) = (lastIn contextId b).or (lastIn contextId a) := by
  rw [lastIn, List.reverse_append, List.find?_append]
  rfl

theorem get?_foldl_set (contextId : String) (records : List MirrorRecord) :
    ∀ tails : InsertionMap String MirrorRecord,
      (records.foldl (fun tails record => tails.set record.contextId record) tails).get? contextId =
        (lastIn contextId records).or (tails.get? contextId) := by
  induction records with
  | nil => exact fun _ => rfl
  | cons record records ih =>
      intro tails
      rw [List.foldl_cons, ih, ← List.singleton_append, lastIn_append, Option.or_assoc,
        InsertionMap.get?_set]
      by_cases h : record.contextId = contextId
      · simp [lastIn, h]
      · simp [lastIn, h, Ne.symm h]

theorem get?_tailsOfLines (lines : List Bytes) (contextId : String) :
    (tailsOfLines H codec lines).get? contextId =
      lastIn contextId (lines.filterMap (recordOfLine H codec)) := by
  rw [tailsOfLines, get?_foldl_set]
  exact Option.or_none

variable {H codec}

/-- A file that ends with a newline is read in parts. -/
theorem recordsOf_append {old : Bytes} (hold : old = [] ∨ old.getLast? = some LF) (app : Bytes) :
    recordsOf H codec (old ++ app) = recordsOf H codec old ++ recordsOf H codec app := by
  have hread : recordOfLine H codec [] = none := rfl
  exact newline_readlineEnds.filterMap_lines_append hread hold app

theorem recordsOf_split {bytes : Bytes} (h : ∀ line ∈ splitLF bytes, Unbroken H codec line) :
    recordsOf H codec bytes = (splitLF bytes).filterMap (recordOfLine H codec) := by
  have hread : recordOfLine H codec [] = none := rfl
  rw [recordsOf, readline, newline_readlineEnds.filterMap_lines_split hread,
    List.filterMap_eq_flatMap_toList]
  exact List.flatMap_congr h

/-! ## Maps of tails -/

/-- The order of `isLaterCorpusTail`. -/
def recency (record : MirrorRecord) : ℚ ×ₗ String := toLex (record.timestamp, record.recordHash)

theorem isLaterCorpusTail_iff {candidate current : MirrorRecord} :
    isLaterCorpusTail candidate current = true ↔ recency current < recency candidate := by
  rw [isLaterCorpusTail, recency, recency, Prod.Lex.toLex_lt_toLex]
  by_cases h : candidate.timestamp = current.timestamp
  · simp [h]
  · simp [h, Ne.symm h]

/-- The map has the newest of the tails of each context. -/
structure Tracks (tails : InsertionMap String CorpusTail)
    (view : String → String → Option MirrorRecord) : Prop where
  absent : ∀ c, tails.get? c = none → ∀ name, view c name = none
  newest : ∀ c tail, tails.get? c = some tail → Newest recency (view c) tail.sourceFile tail.record

/-- The tails of a context's files with one of them replaced. -/
def setTail (view : String → String → Option MirrorRecord) (name : String)
    (entry : String × MirrorRecord) : String → String → Option MirrorRecord :=
  Function.update view entry.1 (Function.update (view entry.1) name (some entry.2))

theorem tracks_empty : Tracks ∅ fun _ _ => none :=
  ⟨fun _ _ _ => rfl, fun c tail h => by cases h⟩

theorem Tracks.set {tails : InsertionMap String CorpusTail}
    {view : String → String → Option MirrorRecord} (h : Tracks tails view)
    {entry : String × MirrorRecord} {name : String}
    (hnew : Newest recency (Function.update (view entry.1) name (some entry.2)) name entry.2) :
    Tracks (tails.set entry.1 ⟨name, entry.2⟩) (setTail view name entry) := by
  constructor
  · intro c hc
    rw [InsertionMap.get?_set] at hc
    split at hc
    · cases hc
    · next hne =>
        rw [setTail, Function.update_of_ne hne]
        exact h.absent c hc
  · intro c tail hc
    rw [InsertionMap.get?_set] at hc
    split at hc
    · next heq =>
        cases hc
        subst heq
        rw [setTail, Function.update_self]
        exact hnew
    · next hne =>
        rw [setTail, Function.update_of_ne hne]
        exact h.newest c tail hc

/-- A tail of the appended lines, unless the index cannot tell. -/
theorem Tracks.of_foldTail {tails tails' : InsertionMap String CorpusTail}
    {view : String → String → Option MirrorRecord} (h : Tracks tails view)
    {entry : String × MirrorRecord} {name : String}
    (hfold : foldTail name tails entry = some tails') : Tracks tails' (setTail view name entry) := by
  rw [foldTail] at hfold
  cases hget : tails.get? entry.1 with
  | none =>
      rw [hget] at hfold
      cases hfold
      exact h.set (.of_none (h.absent _ hget) _ _)
  | some prior =>
      have hprior := h.newest _ prior hget
      simp only [hget] at hfold
      by_cases hlater : isLaterCorpusTail entry.2 prior.record = true
      · simp only [hlater, if_true, ite_self] at hfold
        cases hfold
        exact h.set (hprior.newer (isLaterCorpusTail_iff.1 hlater) name)
      · simp only [hlater, Bool.false_eq_true, if_false] at hfold
        split at hfold
        · cases hfold
        · next hsource =>
            cases hfold
            have hle := not_lt.1 (mt isLaterCorpusTail_iff.2 hlater)
            constructor
            · intro c hc
              have hne : c ≠ entry.1 := by
                rintro rfl
                rw [hget] at hc
                cases hc
              rw [setTail, Function.update_of_ne hne]
              exact h.absent c hc
            · intro c tail hc
              by_cases heq : c = entry.1
              · subst heq
                rw [hget] at hc
                cases hc
                rw [setTail, Function.update_self]
                exact hprior.older hle hsource
              · rw [setTail, Function.update_of_ne heq]
                exact h.newest c tail hc

/-- The tails of a file's lines put in the place of what the file had. -/
def overlay (view : String → String → Option MirrorRecord) (name : String)
    (scan : InsertionMap String MirrorRecord) : String → String → Option MirrorRecord :=
  fun c => match scan.get? c with
    | some record => Function.update (view c) name (some record)
    | none => view c

theorem foldl_setTail (name : String) {entries : List (String × MirrorRecord)}
    (hnodup : (entries.map Prod.fst).Nodup) (c : String) :
    ∀ view : String → String → Option MirrorRecord,
      entries.foldl (fun view entry => setTail view name entry) view c =
        match (entries.find? (·.1 = c)).map Prod.snd with
        | some record => Function.update (view c) name (some record)
        | none => view c := by
  induction entries with
  | nil => exact fun _ => rfl
  | cons entry entries ih =>
      intro view
      obtain ⟨hnot, hnodup⟩ := List.nodup_cons.1 hnodup
      rw [List.foldl_cons, ih hnodup]
      by_cases heq : entry.1 = c
      · have hnone : entries.find? (·.1 = c) = none := by
          rw [List.find?_eq_none]
          intro e he hec
          exact hnot (by
            rw [heq, ← of_decide_eq_true hec]
            exact List.mem_map_of_mem he)
        rw [hnone, List.find?_cons_of_pos (by simpa using heq), setTail, heq, Function.update_self]
        rfl
      · rw [List.find?_cons_of_neg (by simpa using heq), setTail,
          Function.update_of_ne (Ne.symm heq)]

theorem Tracks.of_foldTails {name : String} {entries : List (String × MirrorRecord)} :
    ∀ {tails tails' : InsertionMap String CorpusTail}
      {view : String → String → Option MirrorRecord}, Tracks tails view →
        entries.foldlM (foldTail name) tails = some tails' →
          Tracks tails' (entries.foldl (fun view entry => setTail view name entry) view) := by
  induction entries with
  | nil =>
      intro tails tails' view h hfold
      cases hfold
      exact h
  | cons entry entries ih =>
      intro tails tails' view h hfold
      rw [List.foldlM_cons] at hfold
      obtain ⟨mid, hmid, hfold⟩ := Option.bind_eq_some_iff.1 hfold
      exact ih (h.of_foldTail hmid) hfold

/-- The tails of a scan of a file are folded into the map. -/
theorem Tracks.of_scan {tails tails' : InsertionMap String CorpusTail}
    {view : String → String → Option MirrorRecord} (h : Tracks tails view) {name : String}
    {scan : InsertionMap String MirrorRecord}
    (hfold : scan.entries.foldlM (foldTail name) tails = some tails') :
    Tracks tails' (overlay view name scan) := by
  have hview : overlay view name scan =
      scan.entries.foldl (fun view entry => setTail view name entry) view := by
    funext c
    rw [foldl_setTail name scan.nodup]
    rfl
  rw [hview]
  exact h.of_foldTails hfold

/-! ## Directories -/

theorem fileNamed_name {dir : List MirrorFile} {name : String} {file : MirrorFile}
    (h : fileNamed dir name = some file) : file.name = name := by
  simpa using List.find?_some h

theorem fileNamed_eq_none {dir : List MirrorFile} {name : String} :
    fileNamed dir name = none ↔ name ∉ dir.map (·.name) := by
  simp [fileNamed, List.find?_eq_none]

theorem fileNamed_of_mem {dir : List MirrorFile} (hdir : (dir.map (·.name)).Nodup)
    {file : MirrorFile} (h : file ∈ dir) : fileNamed dir file.name = some file := by
  cases hfound : fileNamed dir file.name with
  | none => exact absurd (List.mem_map_of_mem h) (fileNamed_eq_none.1 hfound)
  | some file' =>
      have hname := fileNamed_name hfound
      rw [List.inj_on_of_nodup_map hdir (List.mem_of_find?_eq_some hfound) h hname]

theorem find?_fileState (dir : List MirrorFile) (name : String) :
    (dir.map fileState).find? (·.name = name) = (fileNamed dir name).map fileState := by
  rw [List.find?_map]
  rfl

/-- Every file is still there, with more in it or as it was. -/
def Grows (dir dir' : List MirrorFile) : Prop :=
  ∀ name file, fileNamed dir name = some file →
    ∃ file', fileNamed dir' name = some file' ∧ file.content <+: file'.content

theorem Grows.refl (dir : List MirrorFile) : Grows dir dir :=
  fun _ file h => ⟨file, h, List.prefix_rfl⟩

theorem Grows.trans {dir dir' dir'' : List MirrorFile} (h : Grows dir dir')
    (h' : Grows dir' dir'') : Grows dir dir'' := by
  intro name file hfile
  obtain ⟨file', hfile', hpre⟩ := h name file hfile
  obtain ⟨file'', hfile'', hpre'⟩ := h' name file' hfile'
  exact ⟨file'', hfile'', hpre.trans hpre'⟩

theorem map_name_appendToFile (dir : List MirrorFile) (name : String) (bytes : Bytes)
    (mtimeMs ctimeMs : ℕ) :
    (appendToFile dir name bytes mtimeMs ctimeMs).map (·.name) = dir.map (·.name) := by
  rw [appendToFile, List.map_map]
  refine List.map_congr_left fun file _ => ?_
  rw [Function.comp_apply]
  split <;> rfl

theorem grows_appendToFile (dir : List MirrorFile) (name : String) (bytes : Bytes)
    (mtimeMs ctimeMs : ℕ) : Grows dir (appendToFile dir name bytes mtimeMs ctimeMs) := by
  intro name' file hfile
  have hfind : fileNamed (appendToFile dir name bytes mtimeMs ctimeMs) name' =
      (fileNamed dir name').map fun file => if file.name = name then
        { file with content := file.content ++ bytes, mtimeMs := mtimeMs, ctimeMs := ctimeMs }
      else file := by
    rw [fileNamed, appendToFile, List.find?_map]
    congr 2
    funext file
    rw [Function.comp_apply]
    split <;> rfl
  rw [hfile] at hfind
  refine ⟨_, hfind, ?_⟩
  show file.content <+: (ite (file.name = name) _ _ : MirrorFile).content
  split
  · exact List.prefix_append _ _
  · exact List.prefix_rfl

theorem perm_createFile {dir : List MirrorFile} {file : MirrorFile}
    (h : file.name ∉ dir.map (·.name)) : (createFile dir file).Perm (file :: dir) := by
  rw [createFile, if_neg h]
  refine List.perm_middle.trans (List.Perm.cons _ ?_)
  rw [List.takeWhile_append_dropWhile]

theorem nodup_createFile {dir : List MirrorFile} (hdir : (dir.map (·.name)).Nodup)
    (file : MirrorFile) : ((createFile dir file).map (·.name)).Nodup := by
  by_cases h : file.name ∈ dir.map (·.name)
  · rwa [createFile, if_pos h]
  · rw [((perm_createFile h).map _).nodup_iff]
    exact List.nodup_cons.2 ⟨h, hdir⟩

theorem grows_createFile {dir : List MirrorFile} (hdir : (dir.map (·.name)).Nodup)
    (file : MirrorFile) : Grows dir (createFile dir file) := by
  intro name old hold
  refine ⟨old, ?_, List.prefix_rfl⟩
  by_cases h : file.name ∈ dir.map (·.name)
  · rwa [createFile, if_pos h]
  · have hmem : old ∈ createFile dir file :=
      (perm_createFile h).mem_iff.2 (List.mem_cons_of_mem _ (List.mem_of_find?_eq_some hold))
    rw [← fileNamed_name hold]
    exact fileNamed_of_mem (nodup_createFile hdir file) hmem

/-! ## The full scan -/

variable (H codec) in
/-- The last record of a context in a file. -/
def viewOf (dir : List MirrorFile) (c name : String) : Option MirrorRecord :=
  (fileNamed dir name).bind fun file => lastIn c (recordsOf H codec file.content)

theorem foldTail_eq_merge {name : String} {tails : InsertionMap String CorpusTail}
    {entry : String × MirrorRecord}
    (h : ∀ prior, tails.get? entry.1 = some prior → prior.sourceFile ≠ name) :
    foldTail name tails entry = some (mergeCorpusTail tails entry.1 entry.2 name) := by
  rw [foldTail, mergeCorpusTail]
  cases hget : tails.get? entry.1 with
  | none => rfl
  | some prior =>
      simp only [if_neg (h prior hget)]
      split <;> rfl

/-- The tails of a new file are merged the same way. -/
theorem foldlM_foldTail_eq_merge {name : String} {entries : List (String × MirrorRecord)}
    (hnodup : (entries.map Prod.fst).Nodup) :
    ∀ {tails : InsertionMap String CorpusTail},
      (∀ entry ∈ entries, ∀ prior, tails.get? entry.1 = some prior → prior.sourceFile ≠ name) →
        entries.foldlM (foldTail name) tails =
          some (entries.foldl (fun tails e => mergeCorpusTail tails e.1 e.2 name) tails) := by
  induction entries with
  | nil => exact fun _ => rfl
  | cons entry entries ih =>
      intro tails h
      obtain ⟨hnot, hnodup⟩ := List.nodup_cons.1 hnodup
      rw [List.foldlM_cons, foldTail_eq_merge (h entry List.mem_cons_self), Option.bind_eq_bind,
        Option.bind_some, List.foldl_cons]
      refine ih hnodup fun e he prior hprior => ?_
      have hne : e.1 ≠ entry.1 := fun heq => hnot (heq ▸ List.mem_map_of_mem he)
      have hsame : (mergeCorpusTail tails entry.1 entry.2 name).get? e.1 = tails.get? e.1 := by
        rw [mergeCorpusTail]
        split
        · exact InsertionMap.get?_set_of_ne hne _ _
        · split
          · exact InsertionMap.get?_set_of_ne hne _ _
          · rfl
      exact h e (List.mem_cons_of_mem _ he) prior (hsame ▸ hprior)

theorem tracks_scanCorpus {dir : List MirrorFile} (hdir : (dir.map (·.name)).Nodup) :
    Tracks (scanCorpus H codec dir) (viewOf H codec dir) := by
  induction dir using List.reverseRecOn with
  | nil => exact tracks_empty
  | append_singleton dir file ih =>
      rw [List.map_append, List.nodup_append] at hdir
      obtain ⟨hdir, -, hdisjoint⟩ := hdir
      have hnew : file.name ∉ dir.map (·.name) := fun h =>
        hdisjoint _ h _ (List.mem_singleton_self _) rfl
      have hview : viewOf H codec (dir ++ [file]) =
          overlay (viewOf H codec dir) file.name (scanMirrorFileTails H codec file) := by
        funext c name
        rw [viewOf, fileNamed, List.find?_append, overlay, scanMirrorFileTails,
          get?_tailsOfLines, ← recordsOf]
        by_cases hname : file.name = name
        · subst hname
          have hnone := fileNamed_eq_none.2 hnew
          rw [← fileNamed, hnone]
          cases hlast : lastIn c (recordsOf H codec file.content) <;> simp [viewOf, hnone, hlast]
        · have hfind : [file].find? (·.name = name) = none := by simp [hname]
          rw [hfind, Option.or_none]
          cases lastIn c (recordsOf H codec file.content) with
          | none => rfl
          | some record =>
              show _ = Function.update (viewOf H codec dir c) file.name (some record) name
              rw [Function.update_of_ne (Ne.symm hname)]
              rfl
      rw [scanCorpus, List.foldl_append, ← scanCorpus, hview]
      refine (ih hdir).of_scan (foldlM_foldTail_eq_merge (InsertionMap.nodup _) ?_)
      intro entry _ prior hprior hsource
      have hhere := ((ih hdir).newest _ prior hprior).here
      rw [hsource, viewOf, fileNamed_eq_none.2 hnew] at hhere
      cases hhere

/-! ## What has been appended -/

/-- The changes between two listings: every file that is new or longer, with
what it had before. -/
structure Appended (dir current : List MirrorFile) (changes : List IncrementalChange) : Prop where
  nodup : (changes.map (·.state.name)).Nodup
  change : ∀ ch ∈ changes, ∃ file, fileNamed current ch.state.name = some file ∧
    ch.state = fileState file ∧
      ((∃ old, fileNamed dir ch.state.name = some old ∧ ch.start = old.content.length ∧
          old.content <+: file.content ∧ old.content.length < file.content.length) ∨
        fileNamed dir ch.state.name = none ∧ ch.start = 0)
  same : ∀ name, name ∉ changes.map (·.state.name) →
    (fileNamed current name).map (·.content) = (fileNamed dir name).map (·.content)

theorem reduceOption_mapM {α β : Type*} {f : α → Option (Option β)} :
    ∀ {l : List α} {r : List (Option β)}, l.mapM f = some r →
      (∀ a ∈ l, (f a).isSome) ∧ r.reduceOption = l.filterMap fun a => (f a).join := by
  intro l
  induction l with
  | nil =>
      intro r h
      cases h
      exact ⟨fun a ha => (by cases ha), rfl⟩
  | cons a l ih =>
      intro r h
      rw [List.mapM_cons] at h
      obtain ⟨b, hb, h⟩ := Option.bind_eq_some_iff.1 h
      obtain ⟨r', hr', h⟩ := Option.bind_eq_some_iff.1 h
      cases h
      obtain ⟨hall, hreduce⟩ := ih hr'
      refine ⟨fun x hx => ?_, ?_⟩
      · rcases List.mem_cons.1 hx with rfl | hx
        · rw [hb]
          rfl
        · exact hall x hx
      · rw [List.filterMap_cons, hb]
        cases b with
        | none => rw [List.reduceOption_cons_of_none, hreduce]; rfl
        | some b => rw [List.reduceOption_cons_of_some, hreduce]; rfl

theorem changeOf_cases {current : List MirrorFile} {old : MirrorFile}
    {r : Option IncrementalChange}
    (h : changeOf (current.map fileState) (fileState old) = some r) :
    ∃ file, fileNamed current old.name = some file ∧
      (r = none ∧ file.content.length = old.content.length ∨
        r = some ⟨fileState file, old.content.length⟩ ∧
          old.content.length < file.content.length) := by
  rw [changeOf, find?_fileState] at h
  cases hfile : fileNamed current (fileState old).name with
  | none =>
      rw [hfile] at h
      cases h
  | some file =>
      refine ⟨file, hfile, ?_⟩
      simp only [hfile, Option.map_some] at h
      split at h
      · cases h
      · next hgrown =>
          rw [not_or, not_lt] at hgrown
          split at h
          · next hsize =>
              split at h
              · cases h
                exact Or.inl ⟨rfl, hsize⟩
              · cases h
          · next hsize =>
              cases h
              exact Or.inr ⟨rfl, lt_of_le_of_ne hgrown.2 (Ne.symm hsize)⟩

theorem changeOf_name {current : List MirrorFile} {old : MirrorFile} {ch : IncrementalChange}
    (h : changeOf (current.map fileState) (fileState old) = some (some ch)) :
    ch.state.name = old.name := by
  obtain ⟨file, hfile, ⟨hnone, -⟩ | ⟨hsome, -⟩⟩ := changeOf_cases h
  · cases hnone
  · cases hsome
    exact fileNamed_name hfile

section Changes

variable {dir current : List MirrorFile} {changes : List IncrementalChange}

/-- A change is one of a file that was listed before or a new file. -/
theorem appendOnlyChanges_eq_some
    (h : appendOnlyChanges (dir.map fileState) (current.map fileState) = some changes) :
    (∀ old ∈ dir, (changeOf (current.map fileState) (fileState old)).isSome) ∧
      changes.Perm ((dir.filterMap fun old =>
          (changeOf (current.map fileState) (fileState old)).join) ++
        (current.filter fun file => file.name ∉ dir.map (·.name)).map
          fun file => ⟨fileState file, 0⟩) := by
  obtain ⟨grown, hgrown, rfl⟩ := Option.map_eq_some_iff.1 h
  rw [List.mapM_map] at hgrown
  obtain ⟨hall, hreduce⟩ := reduceOption_mapM hgrown
  refine ⟨hall, (List.mergeSort_perm _ _).trans ?_⟩
  rw [hreduce, List.filter_map, List.map_map, List.map_map]
  exact List.Perm.refl _

theorem mem_changes
    (h : appendOnlyChanges (dir.map fileState) (current.map fileState) = some changes)
    {ch : IncrementalChange} :
    ch ∈ changes ↔
      (∃ old ∈ dir, changeOf (current.map fileState) (fileState old) = some (some ch)) ∨
        ∃ file ∈ current, file.name ∉ dir.map (·.name) ∧ ch = ⟨fileState file, 0⟩ := by
  rw [(appendOnlyChanges_eq_some h).2.mem_iff, List.mem_append]
  refine or_congr (by simp only [List.mem_filterMap, Option.join_eq_some_iff]) ?_
  simp only [List.mem_map, List.mem_filter, decide_eq_true_eq, and_assoc]
  exact exists_congr fun file => and_congr_right fun _ => and_congr_right fun _ => eq_comm

theorem nodup_changes (hdir : (dir.map (·.name)).Nodup) (hcurrent : (current.map (·.name)).Nodup)
    (h : appendOnlyChanges (dir.map fileState) (current.map fileState) = some changes) :
    (changes.map (·.state.name)).Nodup := by
  rw [((appendOnlyChanges_eq_some h).2.map _).nodup_iff, List.map_append, List.nodup_append]
  refine ⟨?_, ?_, ?_⟩
  · rw [List.Nodup, List.pairwise_map, List.pairwise_filterMap]
    rw [List.Nodup, List.pairwise_map] at hdir
    refine hdir.imp fun {old old'} hne ch hch ch' hch' => ?_
    rw [changeOf_name (Option.join_eq_some_iff.1 hch), changeOf_name (Option.join_eq_some_iff.1 hch')]
    exact hne
  · rw [List.map_map]
    exact hcurrent.sublist (List.filter_sublist.map _)
  · intro a ha b hb hab
    obtain ⟨ch, hch, rfl⟩ := List.mem_map.1 ha
    obtain ⟨old, hold, hch⟩ := List.mem_filterMap.1 hch
    obtain ⟨ch', hch', rfl⟩ := List.mem_map.1 hb
    obtain ⟨file, hfile, rfl⟩ := List.mem_map.1 hch'
    have hnew := of_decide_eq_true (List.mem_filter.1 hfile).2
    rw [changeOf_name (Option.join_eq_some_iff.1 hch)] at hab
    have hab : old.name = file.name := hab
    exact hnew (hab ▸ List.mem_map_of_mem hold)

theorem appended_of_changes (hdir : (dir.map (·.name)).Nodup)
    (hcurrent : (current.map (·.name)).Nodup) (hgrows : Grows dir current)
    (h : appendOnlyChanges (dir.map fileState) (current.map fileState) = some changes) :
    Appended dir current changes where
  nodup := nodup_changes hdir hcurrent h
  change := by
    intro ch hch
    rcases (mem_changes h).1 hch with ⟨old, hold, hch⟩ | ⟨file, hfile, hnew, rfl⟩
    · obtain ⟨file, hfile, ⟨hnone, -⟩ | ⟨hsome, hlt⟩⟩ := changeOf_cases hch
      · cases hnone
      · cases hsome
        have heq : (fileState file).name = old.name := fileNamed_name hfile
        obtain ⟨file', hfile', hpre⟩ := hgrows _ _ (fileNamed_of_mem hdir hold)
        rw [hfile] at hfile'
        cases hfile'
        refine ⟨file, by rw [heq, hfile], rfl, Or.inl ⟨old, ?_, rfl, hpre, hlt⟩⟩
        rw [heq, fileNamed_of_mem hdir hold]
    · exact ⟨file, fileNamed_of_mem hcurrent hfile, rfl, Or.inr ⟨fileNamed_eq_none.2 hnew, rfl⟩⟩
  same := by
    intro name hnot
    cases hold : fileNamed dir name with
    | none =>
        -- a file that is new would be a change
        rw [Option.map_none, Option.map_eq_none_iff]
        by_contra hsome
        obtain ⟨file, hfile⟩ := Option.ne_none_iff_exists'.1 hsome
        have hfilename := fileNamed_name hfile
        refine hnot (List.mem_map.2 ⟨⟨fileState file, 0⟩, (mem_changes h).2 (Or.inr
          ⟨file, List.mem_of_find?_eq_some hfile, ?_, rfl⟩), hfilename⟩)
        rw [hfilename]
        exact fileNamed_eq_none.1 hold
    | some old =>
        have holdmem := List.mem_of_find?_eq_some hold
        have holdname := fileNamed_name hold
        obtain ⟨r, hr⟩ := Option.isSome_iff_exists.1 ((appendOnlyChanges_eq_some h).1 old holdmem)
        obtain ⟨file, hfile, ⟨-, hlen⟩ | ⟨rfl, -⟩⟩ := changeOf_cases hr
        · obtain ⟨file', hfile', hpre⟩ := hgrows _ _ hold
          rw [holdname] at hfile
          rw [hfile] at hfile'
          cases hfile'
          rw [hfile, Option.map_some, Option.map_some, hpre.eq_of_length hlen.symm]
        · refine absurd (List.mem_map.2 ⟨_, (mem_changes h).2 (Or.inl ⟨old, holdmem, hr⟩), ?_⟩) hnot
          rw [changeOf_name hr, holdname]

end Changes

/-! ## A round of the fast path -/

/-- No line is left open. -/
def AtNewline (content : Bytes) : Prop := content = [] ∨ content.getLast? = some LF

def Whole (dir : List MirrorFile) : Prop :=
  ∀ name file, fileNamed dir name = some file → AtNewline file.content

variable (H codec) in
/-- What is read of the changes in a round consists of unbroken lines. -/
def LinesUnbroken (now : List MirrorFile) (changes : List IncrementalChange) : Prop :=
  ∀ ch ∈ changes, (appendedBytes now ch).getLast? = some LF →
    ∀ line ∈ splitLF (appendedBytes now ch), Unbroken H codec line

section Round

variable {dir current now : List MirrorFile} {changes : List IncrementalChange}

/-- The bytes that are read were there when the file was listed. -/
theorem appendedBytes_eq (hnow : Grows current now) {ch : IncrementalChange} {file : MirrorFile}
    (hfile : fileNamed current ch.state.name = some file) (hstate : ch.state = fileState file)
    (hstart : ch.start ≤ file.content.length) :
    appendedBytes now ch = file.content.drop ch.start := by
  obtain ⟨file', hfile', t, ht⟩ := hnow _ _ hfile
  have hsize : ch.state.size = file.content.length := by rw [hstate]; rfl
  rw [appendedBytes, hfile', hsize]
  simp only [← ht, List.drop_append_of_le_length hstart]
  rw [List.take_append_of_le_length (by simp), List.take_of_length_le (by simp)]

theorem scan_cases {ch : IncrementalChange} {scan : InsertionMap String MirrorRecord}
    (h : scanAppendedTails H codec now ch = some scan) :
    ch.state.size - ch.start = 0 ∧ scan = ∅ ∨
      (appendedBytes now ch).getLast? = some LF ∧
        scan = tailsOfLines H codec (splitLF (appendedBytes now ch)) := by
  simp only [scanAppendedTails] at h
  split at h
  · next hzero =>
      cases h
      exact Or.inl ⟨hzero, rfl⟩
  · split at h
    · cases h
    · split at h
      · cases h
      · split at h
        · cases h
        · next hlast =>
            cases h
            exact Or.inr ⟨by simpa using hlast, rfl⟩

/-- A complete scan of a change gives what the file's tails have become. -/
theorem view_of_scan (happ : Appended dir current changes) (hwhole : Whole dir)
    (hnow : Grows current now) (hlines : LinesUnbroken H codec now changes)
    {ch : IncrementalChange} (hch : ch ∈ changes) {scan : InsertionMap String MirrorRecord}
    (hscan : scanAppendedTails H codec now ch = some scan) :
    (∀ file, fileNamed current ch.state.name = some file → AtNewline file.content) ∧
      ∀ c, viewOf H codec current c ch.state.name =
        (scan.get? c).or (viewOf H codec dir c ch.state.name) := by
  obtain ⟨file, hfile, hstate, hold⟩ := happ.change ch hch
  have hsize : ch.state.size = file.content.length := by rw [hstate]; rfl
  -- the old part of the file and its view
  obtain ⟨old, hnewline, hpre, hstart, hview⟩ : ∃ old : Bytes, AtNewline old ∧
      old <+: file.content ∧ ch.start = old.length ∧
        ∀ c, viewOf H codec dir c ch.state.name = lastIn c (recordsOf H codec old) := by
    rcases hold with ⟨old, hold, hstart, hpre, -⟩ | ⟨hnone, hstart⟩
    · exact ⟨old.content, hwhole _ _ hold, hpre, hstart, fun c => by rw [viewOf, hold]; rfl⟩
    · exact ⟨[], Or.inl rfl, List.nil_prefix, hstart, fun c => by rw [viewOf, hnone]; rfl⟩
  obtain ⟨app, happend⟩ := hpre
  have hbytes : appendedBytes now ch = app := by
    rw [appendedBytes_eq hnow hfile hstate (by rw [hstart, ← happend]; simp), hstart, ← happend,
      List.drop_left]
  have hfileview : ∀ c, viewOf H codec current c ch.state.name =
      (lastIn c (recordsOf H codec app)).or (viewOf H codec dir c ch.state.name) := by
    intro c
    rw [hview, viewOf, hfile, Option.bind_some, ← happend, recordsOf_append hnewline, lastIn_append]
  rcases scan_cases hscan with ⟨hzero, rfl⟩ | ⟨hlast, rfl⟩
  · -- nothing to read
    have happ_nil : app = [] := by
      rw [hsize, hstart, ← happend, List.length_append, Nat.add_sub_cancel_left] at hzero
      exact List.length_eq_zero_iff.1 hzero
    subst happ_nil
    refine ⟨fun file' hfile' => ?_, hfileview⟩
    rw [hfile] at hfile'
    cases hfile'
    rwa [← happend, List.append_nil]
  · rw [hbytes] at hlast
    refine ⟨fun file' hfile' => Or.inr ?_, fun c => ?_⟩
    · rw [hfile] at hfile'
      cases hfile'
      rw [← happend, List.getLast?_append, hlast]
      rfl
    · rw [hfileview, get?_tailsOfLines, hbytes, ← recordsOf_split]
      exact hbytes ▸ hlines ch hch (hbytes ▸ hlast)

variable (H codec) in
/-- The view in which some files are as in the second directory already. -/
def mixed (dir current : List MirrorFile) (names : List String) (c name : String) :
    Option MirrorRecord :=
  if name ∈ names then viewOf H codec current c name else viewOf H codec dir c name

theorem overlay_mixed {done : List String} {name : String}
    {scan : InsertionMap String MirrorRecord} (hdone : name ∉ done)
    (hview : ∀ c, viewOf H codec current c name =
      (scan.get? c).or (viewOf H codec dir c name)) :
    overlay (mixed H codec dir current done) name scan =
      mixed H codec dir current (done ++ [name]) := by
  funext c m
  rw [overlay]
  by_cases hm : m = name
  · subst hm
    rw [mixed, if_pos (by simp), hview]
    cases hget : scan.get? c with
    | none => simp [mixed, hdone]
    | some record => simp
  · have hmixed : mixed H codec dir current (done ++ [name]) c m =
        mixed H codec dir current done c m := by simp [mixed, hm]
    rw [hmixed]
    cases scan.get? c with
    | none => rfl
    | some record =>
        show Function.update (mixed H codec dir current done c) name (some record) m = _
        rw [Function.update_of_ne hm]

/-- The changes of a round are folded in one after the other. -/
theorem tracks_foldChanges (happ : Appended dir current changes) (hwhole : Whole dir)
    (hnow : Grows current now) (hlines : LinesUnbroken H codec now changes) :
    ∀ {rest : List IncrementalChange} {done : List String}
      {tails tails' : InsertionMap String CorpusTail},
      (∀ ch ∈ rest, ch ∈ changes) → (done ++ rest.map (·.state.name)).Nodup →
        Tracks tails (mixed H codec dir current done) →
          rest.foldlM (foldChange H codec now) tails = some tails' →
            Tracks tails' (mixed H codec dir current (done ++ rest.map (·.state.name))) ∧
              ∀ ch ∈ rest, ∀ file, fileNamed current ch.state.name = some file →
                AtNewline file.content := by
  intro rest
  induction rest with
  | nil =>
      intro done tails tails' _ _ htracks hfold
      cases hfold
      exact ⟨by simpa using htracks, fun ch hch => by cases hch⟩
  | cons ch rest ih =>
      intro done tails tails' hsub hnodup htracks hfold
      rw [List.foldlM_cons] at hfold
      obtain ⟨mid, hmid, hfold⟩ := Option.bind_eq_some_iff.1 hfold
      obtain ⟨scan, hscan, hmid⟩ := Option.bind_eq_some_iff.1 hmid
      obtain ⟨hnewline, hview⟩ :=
        view_of_scan happ hwhole hnow hlines (hsub ch List.mem_cons_self) hscan
      rw [List.map_cons] at hnodup
      have hnot : ch.state.name ∉ done := fun hmem =>
        (List.nodup_append.1 hnodup).2.2 _ hmem _ List.mem_cons_self rfl
      have hstep := htracks.of_scan hmid
      rw [overlay_mixed hnot hview] at hstep
      rw [List.append_cons] at hnodup
      obtain ⟨htracks', hnewlines⟩ :=
        ih (fun c hc => hsub c (List.mem_cons_of_mem _ hc)) hnodup hstep hfold
      rw [List.map_cons, List.append_cons]
      refine ⟨htracks', fun c hc => ?_⟩
      rcases List.mem_cons.1 hc with rfl | hc
      · exact hnewline
      · exact hnewlines c hc

/-- After a round the map is right for what was listed. -/
theorem tracks_round (happ : Appended dir current changes) (hwhole : Whole dir)
    (hnow : Grows current now) (hlines : LinesUnbroken H codec now changes)
    {tails tails' : InsertionMap String CorpusTail} (htracks : Tracks tails (viewOf H codec dir))
    (hfold : changes.foldlM (foldChange H codec now) tails = some tails') :
    Tracks tails' (viewOf H codec current) ∧ Whole current := by
  have hstart : mixed H codec dir current [] = viewOf H codec dir := by
    funext c name
    simp [mixed]
  rw [← hstart] at htracks
  obtain ⟨htracks', hnewlines⟩ := tracks_foldChanges happ hwhole hnow hlines
    (fun ch hch => hch) (by simpa using happ.nodup) htracks hfold
  have hend : mixed H codec dir current ([] ++ changes.map (·.state.name)) =
      viewOf H codec current := by
    funext c name
    rw [mixed, List.nil_append]
    split
    · rfl
    · next hnot =>
        have hsame := happ.same name hnot
        have hview : ∀ d : List MirrorFile, viewOf H codec d c name =
            ((fileNamed d name).map (·.content)).bind fun content =>
              lastIn c (recordsOf H codec content) := by
          intro d
          rw [viewOf, Option.bind_map]
          rfl
        rw [hview, hview, hsame]
  rw [hend] at htracks'
  refine ⟨htracks', fun name file hfile => ?_⟩
  by_cases hmem : name ∈ changes.map (·.state.name)
  · obtain ⟨ch, hch, rfl⟩ := List.mem_map.1 hmem
    exact hnewlines ch hch file hfile
  · have hsame := happ.same name hmem
    rw [hfile, Option.map_some] at hsame
    obtain ⟨old, hold, hcontent⟩ := Option.map_eq_some_iff.1 hsame.symm
    rw [← hcontent]
    exact hwhole name old hold

end Round

end Atrib.Mirror
