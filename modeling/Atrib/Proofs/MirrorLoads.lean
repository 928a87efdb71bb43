import Atrib.Lib.Effect
import Atrib.Proofs.Aggregations
import Mathlib.Data.List.ReduceOption

/-!
# What is loaded from a mirror

The records of a mirror are those of its lines, in the order of the files. The
first call on a cleared cache makes its snapshot of all of them.
-/

namespace Atrib.Recall.Mirror

open Lib (InsertionMap JsValue bind_ok)

variable {P : Platform}

/-! ## Lines -/

theorem loadLines_cons {line : Bytes} {lines : List Bytes} {loaded : List LoadedRecord} :
    loadLines P (line :: lines) = .ok loaded ↔ ∃ found rest, loadLine P line = .ok found ∧
      loadLines P lines = .ok rest ∧ loaded = found.toList ++ rest := by
  unfold loadLines
  rw [List.mapM_cons]
  cases hfound : loadLine P line with
  | error e => simp [bind, Except.bind, Functor.map, Except.map]
  | ok found =>
      cases hrest : lines.mapM (loadLine P) with
      | error e => simp [bind, Except.bind, Functor.map, Except.map]
      | ok rest =>
          simp only [bind, Except.bind, pure, Except.pure, Functor.map, Except.map,
            Except.ok.injEq]
          rw [eq_comm]
          cases found <;> simp [List.reduceOption]

theorem loadLines_append {lines lines' : List Bytes} {loaded : List LoadedRecord} :
    loadLines P (lines ++ lines') = .ok loaded ↔ ∃ first rest, loadLines P lines = .ok first ∧
      loadLines P lines' = .ok rest ∧ loaded = first ++ rest := by
  induction lines generalizing loaded with
  | nil =>
      constructor
      · intro h
        exact ⟨[], loaded, rfl, h, rfl⟩
      · rintro ⟨first, rest, hfirst, hrest, rfl⟩
        cases hfirst
        exact hrest
  | cons line lines ih =>
      rw [List.cons_append, loadLines_cons]
      constructor
      · rintro ⟨found, loaded, hfound, hloaded, rfl⟩
        obtain ⟨first, rest, hfirst, hrest, rfl⟩ := ih.1 hloaded
        exact ⟨found.toList ++ first, rest, loadLines_cons.2 ⟨found, first, hfound, hfirst, rfl⟩,
          hrest, (List.append_assoc ..).symm⟩
      · rintro ⟨first, rest, hfirst, hrest, rfl⟩
        obtain ⟨found, tail, hfound, htail, rfl⟩ := loadLines_cons.1 hfirst
        exact ⟨found, tail ++ rest, hfound, ih.2 ⟨tail, rest, htail, hrest, rfl⟩,
          List.append_assoc ..⟩

/-! ## Files -/

/-- The lines of the files, file after file. -/
def Disk.lines (disk : Disk) : List Bytes := disk.files.flatMap fun file => splitLF file.bytes

theorem mapM_loadLoaded {files : List MirrorFile} {loaded : List LoadedRecord} :
    (∃ parts, files.mapM (loadLoaded P) = .ok parts ∧ loaded = parts.flatten) ↔
      loadLines P (files.flatMap fun file => splitLF file.bytes) = .ok loaded := by
  induction files generalizing loaded with
  | nil =>
      constructor
      · rintro ⟨parts, hparts, rfl⟩
        cases hparts
        rfl
      · intro h
        cases h
        exact ⟨[], rfl, rfl⟩
  | cons file files ih =>
      rw [List.flatMap_cons, loadLines_append, List.mapM_cons]
      constructor
      · rintro ⟨parts, hparts, rfl⟩
        obtain ⟨first, hfirst, hparts⟩ := bind_ok hparts
        obtain ⟨rest, hrest, hparts⟩ := bind_ok hparts
        cases hparts
        exact ⟨first, rest.flatten, hfirst, ih.1 ⟨rest, hrest, rfl⟩, rfl⟩
      · rintro ⟨first, rest, hfirst, hrest, rfl⟩
        obtain ⟨parts, hparts, rfl⟩ := ih.2 hrest
        refine ⟨first :: parts, ?_, rfl⟩
        rw [show loadLoaded P file = .ok first from hfirst, hparts]
        rfl

theorem discoverLoaded_ok {disk : Disk} {loaded : List LoadedRecord} :
    (∃ files, discoverLoaded P disk = .ok (loaded, files)) ↔ loadLines P disk.lines = .ok loaded := by
  rw [Disk.lines, ← mapM_loadLoaded]
  constructor
  · rintro ⟨files, h⟩
    obtain ⟨parts, hparts, h⟩ := bind_ok h
    cases h
    exact ⟨parts, hparts, rfl⟩
  · rintro ⟨parts, hparts, rfl⟩
    unfold discoverLoaded
    rw [hparts]
    cases disk <;> exact ⟨_, rfl⟩

/-! ## The first call -/

theorem getLoadedMirrorSnapshot_none {disk : Disk} {snapshot : LoadedMirrorSnapshot} :
    getLoadedMirrorSnapshot P disk none = .ok snapshot ↔ ∃ loaded files,
      discoverLoaded P disk = .ok (loaded, files) ∧
        snapshot = snapshotOf P disk.readMirrorFingerprint loaded files none false := by
  show (discoverLoaded P disk >>= fun found => pure _) = Except.ok snapshot ↔ _
  constructor
  · intro h
    obtain ⟨⟨loaded, files⟩, hfound, h⟩ := bind_ok h
    cases h
    exact ⟨loaded, files, hfound, rfl⟩
  · rintro ⟨loaded, files, hfound, rfl⟩
    rw [hfound]
    rfl

end Atrib.Recall.Mirror
