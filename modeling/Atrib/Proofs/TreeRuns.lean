import Atrib.Proofs.TreeRefine
import Atrib.Lib.Run

/-!
# Runs of appends

What one `append` can do is said once, in `append_cases`: it advances the
arrays and the file by the same entry, or it fails, leaves the arrays alone
and leaves some prefix of the entry at the end of the file. Two results about
whole runs follow.

In memory nothing can go wrong: over any run, from an empty tree or from a
restored one, the arrays are those of the entries whose append returned.

On disk a failed append is never undone. The bytes it left stay where the next
entry will be written, so the file reproduces the live tree only as long as
every append that returns started on a file that held the live entries and
nothing else.
-/

namespace Atrib.MerkleTree

open Lib (run run_nil run_cons run_snoc Always run_invariant)

variable (H : Hash)

/-- One call of `append`, with what the file system answers during it. -/
structure AppendCall where
  entryBytes : Bytes
  io : AppendIo

/-- The tree after one call, whether it returned or threw. -/
def step (tree : MerkleTree) (call : AppendCall) : MerkleTree :=
  (append H tree call.entryBytes call.io).1

/-- The entries whose append returned, in order. -/
def appended (tree : MerkleTree) : List AppendCall → List Bytes
  | [] => []
  | call :: calls =>
      match (append H tree call.entryBytes call.io).2 with
      | .ok _ => call.entryBytes :: appended (step H tree call) calls
      | .error _ => appended (step H tree call) calls

/-! ## One append -/

theorem writeLoop_cases (writes : List WriteResult) :
    ∀ (file : Bytes) (offset : ℕ) (pending : Bytes),
      writeLoop file offset pending writes = (file ++ pending, .ok ()) ∨
        ∃ k message, writeLoop file offset pending writes =
          (file ++ pending.take k, .error message) := by
  induction writes with
  | nil => intro file offset pending; exact Or.inl rfl
  | cons result rest ih =>
      intro file offset pending
      by_cases hp : pending = []
      · left
        cases result <;> simp [writeLoop, hp]
      · cases result with
        | threw count message => exact Or.inr ⟨count, message, by simp [writeLoop, hp]⟩
        | wrote count =>
            by_cases hz : count = 0
            · exact Or.inr ⟨0, _, by
                rw [writeLoop, if_neg hp, if_pos hz, List.take_zero, List.append_nil]⟩
            · rw [writeLoop, if_neg hp, if_neg hz]
              rcases ih (file ++ pending.take count) (offset + count) (pending.drop count) with
                h | ⟨k, message, h⟩
              · left
                rw [h, List.append_assoc, List.take_append_drop]
              · refine Or.inr ⟨count + k, message, ?_⟩
                rw [h, List.append_assoc, List.take_add]

theorem appendDurably_cases (file entryBytes : Bytes) (io : AppendIo) :
    appendDurably file entryBytes io = (file ++ entryBytes, .ok ()) ∨
      ∃ k message, appendDurably file entryBytes io =
        (file ++ entryBytes.take k, .error message) := by
  unfold appendDurably
  split
  · exact Or.inr ⟨0, _, by rw [List.take_zero, List.append_nil]⟩
  · rcases writeLoop_cases io.writes file 0 entryBytes with h | ⟨k, message, h⟩
    · simp only [h]
      by_cases hs : io.syncs = true
      · left
        simp [hs]
      · exact Or.inr ⟨entryBytes.length, "fsync failed", by simp [hs]⟩
    · exact Or.inr ⟨k, message, by simp only [h]⟩

/-- Everything one append can do to the tree of `raw`. -/
theorem append_cases {tree : MerkleTree} {raw : List Bytes} (h : Represents H tree raw)
    (call : AppendCall) :
    ((append H tree call.entryBytes call.io).2 = .ok raw.length ∧
      Represents H (step H tree call) (raw ++ [call.entryBytes]) ∧
      (step H tree call).file = tree.file.map (· ++ call.entryBytes) ∧
      ∀ file ∈ tree.file, (appendDurably file call.entryBytes call.io).2 = .ok ()) ∨
    ∃ k message, (append H tree call.entryBytes call.io).2 = .error message ∧
      Represents H (step H tree call) raw ∧
      (step H tree call).file = tree.file.map (· ++ call.entryBytes.take k) := by
  obtain ⟨rawEntries, levels, file⟩ := tree
  cases file with
  | none =>
      left
      obtain ⟨levels', heq, hrep⟩ := appendInMemory_represents H h call.entryBytes
      have happ : append H ⟨rawEntries, levels, none⟩ call.entryBytes call.io =
          (⟨raw ++ [call.entryBytes], levels', none⟩, .ok raw.length) := heq
      rw [step, happ]
      exact ⟨rfl, hrep, rfl, by simp⟩
  | some file =>
      rcases appendDurably_cases file call.entryBytes call.io with hd | ⟨k, message, hd⟩
      · left
        have h' : Represents H ⟨rawEntries, levels, some (file ++ call.entryBytes)⟩ raw :=
          ⟨h.rawEntries, h.cached, h.leaves⟩
        obtain ⟨levels', heq, hrep⟩ := appendInMemory_represents H h' call.entryBytes
        have happ : append H ⟨rawEntries, levels, some file⟩ call.entryBytes call.io =
            (⟨raw ++ [call.entryBytes], levels', some (file ++ call.entryBytes)⟩,
              .ok raw.length) := by
          simp only [append, hd]
          exact heq
        rw [step, happ]
        refine ⟨rfl, hrep, rfl, fun f hf => ?_⟩
        obtain rfl : file = f := by simpa using hf
        rw [hd]
      · right
        have happ : append H ⟨rawEntries, levels, some file⟩ call.entryBytes call.io =
            (⟨rawEntries, levels, some (file ++ call.entryBytes.take k)⟩, .error message) := by
          simp only [append, hd]
        rw [step, happ]
        exact ⟨k, message, rfl, ⟨h.rawEntries, h.cached, h.leaves⟩, rfl⟩

/-- With nothing going wrong an append goes through. -/
theorem step_clean {tree : MerkleTree} {raw : List Bytes} (h : Represents H tree raw)
    (entryBytes : Bytes) :
    Represents H (step H tree ⟨entryBytes, .clean⟩) (raw ++ [entryBytes]) := by
  rcases append_cases H h ⟨entryBytes, .clean⟩ with ⟨-, hrep, -⟩ | ⟨k, message, herr, -⟩
  · exact hrep
  · obtain ⟨rawEntries, levels, file⟩ := tree
    cases file with
    | none =>
        obtain ⟨levels', heq, -⟩ := appendInMemory_represents H h entryBytes
        rw [append, heq] at herr
        cases herr
    | some file =>
        have h' : Represents H ⟨rawEntries, levels, some (file ++ entryBytes)⟩ raw :=
          ⟨h.rawEntries, h.cached, h.leaves⟩
        obtain ⟨levels', heq, -⟩ := appendInMemory_represents H h' entryBytes
        rw [append] at herr
        simp only [appendDurably, AppendIo.clean, writeLoop, Bool.not_true, Bool.false_eq_true,
          if_false, if_true, heq] at herr
        cases herr

theorem run_represents (calls : List AppendCall) :
    ∀ {tree : MerkleTree} {raw : List Bytes}, Represents H tree raw →
      Represents H (run (step H) tree calls) (raw ++ appended H tree calls) := by
  induction calls with
  | nil =>
      intro tree raw h
      rw [run_nil, appended, List.append_nil]
      exact h
  | cons call calls ih =>
      intro tree raw h
      rw [run_cons, appended]
      rcases append_cases H h call with ⟨hok, hrep, -⟩ | ⟨k, message, herr, hrep, -⟩
      · rw [hok]
        have := ih hrep
        rwa [List.append_assoc, List.singleton_append] at this
      · rw [herr]
        exact ih hrep

/-! ## Restoring -/

/-- Replaying whole entries appends them all. -/
theorem replay_flatten {entries : List Bytes} :
    ∀ {tree : MerkleTree} {raw : List Bytes}, (∀ e ∈ entries, e.length = ENTRY_SIZE) →
      Represents H tree raw →
      ∃ restored, replay H tree entries.flatten = .ok restored ∧
        Represents H restored (raw ++ entries) ∧ restored.file = tree.file := by
  induction entries with
  | nil =>
      intro tree raw _ h
      refine ⟨tree, ?_, by rwa [List.append_nil], rfl⟩
      rw [replay, List.flatten_nil, List.length_nil, dif_pos rfl]
  | cons e entries ih =>
      intro tree raw hlen h
      have he : e.length = ENTRY_SIZE := hlen e List.mem_cons_self
      obtain ⟨levels, heq, hrep⟩ := appendInMemory_represents H h e
      obtain ⟨restored, hre, hrep', hfile⟩ :=
        ih (fun e' he' => hlen e' (List.mem_cons_of_mem _ he')) hrep
      refine ⟨restored, ?_, by rwa [List.append_assoc, List.singleton_append] at hrep', hfile⟩
      rw [replay, List.flatten_cons, dif_neg (by rw [List.length_append, he, ENTRY_SIZE]; omega),
        ← he, List.take_left, List.drop_left]
      simp only [heq]
      exact hre

/-- Bytes in a whole number of entries are the entries of some list. -/
theorem exists_entries {n : ℕ} : ∀ {buf : Bytes}, buf.length = ENTRY_SIZE * n →
    ∃ entries : List Bytes, entries.flatten = buf ∧ ∀ e ∈ entries, e.length = ENTRY_SIZE := by
  induction n with
  | zero =>
      intro buf h
      exact ⟨[], (List.eq_nil_of_length_eq_zero (by omega)).symm, by simp⟩
  | succ n ih =>
      intro buf h
      rw [Nat.mul_succ] at h
      have hdrop : (buf.drop ENTRY_SIZE).length = ENTRY_SIZE * n := by
        rw [List.length_drop]
        omega
      obtain ⟨entries, hflat, hlen⟩ := ih hdrop
      refine ⟨buf.take ENTRY_SIZE :: entries, ?_, ?_⟩
      · rw [List.flatten_cons, hflat, List.take_append_drop]
      · intro e he
        rcases List.mem_cons.1 he with rfl | he
        · rw [List.length_take]
          omega
        · exact hlen e he

theorem length_flatten_entries {entries : List Bytes}
    (h : ∀ e ∈ entries, e.length = ENTRY_SIZE) :
    entries.flatten.length = ENTRY_SIZE * entries.length := by
  induction entries with
  | nil => rfl
  | cons e entries ih =>
      rw [List.flatten_cons, List.length_append, h e List.mem_cons_self,
        ih fun e' he' => h e' (List.mem_cons_of_mem _ he'), List.length_cons]
      ring

/-- A file of whole entries restores to the tree of those entries. -/
theorem create_flatten (path : String) {entries : List Bytes}
    (h : ∀ e ∈ entries, e.length = ENTRY_SIZE) :
    ∃ restored, create H (some path) (some entries.flatten) = .ok restored ∧
      Represents H restored entries ∧ restored.file = some entries.flatten := by
  have hmod : ¬ entries.flatten.length % ENTRY_SIZE ≠ 0 := by
    rw [length_flatten_entries h, Nat.mul_mod_right]
    exact not_not.2 rfl
  obtain ⟨restored, hre, hrep, hfile⟩ :=
    replay_flatten H h (empty_represents H (some entries.flatten))
  refine ⟨restored, ?_, by rwa [List.nil_append] at hrep, hfile⟩
  rw [create, if_neg hmod, hre]

/-- The entries a tree starts with: those of the file, when it has a path and
the file exists. -/
def restored (persistPath : Option String) (disk : Option (List Bytes)) : List Bytes :=
  if persistPath.isSome then disk.getD [] else []

/-- `createMerkleTree` on no file or on a file of whole entries. -/
theorem create_represents (persistPath : Option String) {disk : Option (List Bytes)}
    (hdisk : ∀ entries ∈ disk, ∀ e ∈ entries, e.length = ENTRY_SIZE) :
    ∃ tree, create H persistPath (disk.map List.flatten) = .ok tree ∧
      Represents H tree (restored persistPath disk) ∧
      tree.file = persistPath.map fun _ => (restored persistPath disk).flatten := by
  cases persistPath with
  | none => exact ⟨empty none, rfl, empty_represents H none, rfl⟩
  | some path =>
      cases disk with
      | none => exact ⟨empty (some []), rfl, empty_represents H (some []), rfl⟩
      | some entries => exact create_flatten H path (hdisk entries rfl)

theorem created_represents {persistPath : Option String} {disk : Option (List Bytes)}
    (hdisk : ∀ entries ∈ disk, ∀ e ∈ entries, e.length = ENTRY_SIZE) {tree : MerkleTree}
    (hcreate : create H persistPath (disk.map List.flatten) = .ok tree) :
    Represents H tree (restored persistPath disk) ∧
      tree.file = persistPath.map fun _ => (restored persistPath disk).flatten := by
  obtain ⟨tree', hcreate', hrep⟩ := create_represents H persistPath hdisk
  rw [hcreate] at hcreate'
  injection hcreate' with htree
  rwa [htree]

/-- Over any run of appends, failed ones included, on a new tree or on a
restored one, the cached tree answers as the plain functions do on the list
of its entries. -/
theorem run_refines_computeRoot (persistPath : Option String) (disk : Option (List Bytes))
    (hdisk : ∀ entries ∈ disk, ∀ e ∈ entries, e.length = ENTRY_SIZE) :
    ∃ tree₀, create H persistPath (disk.map List.flatten) = .ok tree₀ ∧
      ∀ (calls : List AppendCall) (tree : MerkleTree) (raw : List Bytes),
        tree = run (step H) tree₀ calls →
        raw = restored persistPath disk ++ appended H tree₀ calls →
        tree.size = raw.length ∧
        (raw ≠ [] → ∃ root, H.computeRoot raw = .ok root ∧ tree.root H = .ok root) ∧
        ∀ (i : ℕ) (hi : i < raw.length), tree.leafHash i = .ok (H.leafHash raw[i]) ∧
          ∃ proof, H.computeInclusionProof i raw = .ok proof ∧
            tree.inclusionProof H i = .ok proof := by
  obtain ⟨tree₀, hcreate, hrep₀, -⟩ := create_represents H persistPath hdisk
  refine ⟨tree₀, hcreate, fun calls tree raw htree hraw => ?_⟩
  have hrep : Represents H tree raw := by
    rw [htree, hraw]
    exact run_represents H calls hrep₀
  refine ⟨hrep.size_eq, fun hne => ?_, fun i hi => ⟨hrep.leafHash_eq hi, ?_⟩⟩
  · exact ⟨_, H.computeRoot_eq hne, hrep.root_eq hne⟩
  · exact ⟨_, H.computeInclusionProof_eq hi, hrep.inclusionProof_eq hi⟩

/-- A file of one entry, and one more appended. -/
theorem run_refines_computeRoot_two :
    ∃ tree₀, create Hash.fips180 (some "entries.bin")
        (some [List.replicate ENTRY_SIZE (1 : UInt8)].flatten) = .ok tree₀ ∧
      ∃ root, (step Hash.fips180 tree₀ ⟨List.replicate ENTRY_SIZE 2, .clean⟩).root
        Hash.fips180 = .ok root := by
  obtain ⟨tree₀, hcreate, h⟩ := run_refines_computeRoot Hash.fips180 (some "entries.bin")
    (some [List.replicate ENTRY_SIZE (1 : UInt8)]) (by simp)
  obtain ⟨-, hroot, -⟩ := h [⟨List.replicate ENTRY_SIZE 2, .clean⟩] _ _ rfl rfl
  obtain ⟨root, -, hr⟩ := hroot (by simp [restored])
  exact ⟨tree₀, hcreate, root, hr⟩

/-! ## Durability -/

/-- Restoring from the file now gives a tree the live entries are a prefix of. -/
def Reproducible (path : String) (tree : MerkleTree) : Prop :=
  ∃ restored, create H (some path) tree.file = .ok restored ∧
    tree.rawEntries <+: restored.rawEntries

/-- Every append of the run that returns leaves a reproducible tree. -/
def Durable (path : String) (tree₀ : MerkleTree) (calls : List AppendCall) : Prop :=
  ∀ pre call index, pre ++ [call] <+: calls →
    (append H (run (step H) tree₀ pre) call.entryBytes call.io).2 = .ok index →
    Reproducible H path (run (step H) tree₀ (pre ++ [call]))

/-- An append that will return starts on a file that holds as many bytes as
the live entries have: an earlier failed append has left none. -/
def NoLeftover (tree : MerkleTree) (call : AppendCall) : Prop :=
  ∀ file ∈ tree.file, (appendDurably file call.entryBytes call.io).2 = .ok () →
    file.length = ENTRY_SIZE * tree.size

theorem noLeftover_of_length {tree : MerkleTree} {call : AppendCall}
    (h : tree.file.map List.length = some (ENTRY_SIZE * tree.size)) : NoLeftover tree call := by
  intro file hfile _
  rw [Option.mem_def.1 hfile] at h
  injection h

/-- A file with a torn entry in it does not restore. -/
theorem not_reproducible_of_length (path : String) {tree : MerkleTree}
    (h : (tree.file.map fun file => file.length % ENTRY_SIZE == 0) = some false) :
    ¬ Reproducible H path tree := by
  rintro ⟨restored, hcreate, -⟩
  obtain ⟨file, hfile, hmod⟩ := Option.map_eq_some_iff.1 h
  rw [hfile, create, if_pos (by simpa using hmod)] at hcreate
  cases hcreate

/-- The file holds the live entries, and perhaps bytes of failed appends after
them. -/
structure FileExtends (tree : MerkleTree) (raw : List Bytes) (leftover : Bytes) : Prop where
  represents : Represents H tree raw
  entrySize : ∀ e ∈ raw, e.length = ENTRY_SIZE
  file : tree.file = some (raw.flatten ++ leftover)

theorem FileExtends.reproducible_iff {H : Hash} {tree : MerkleTree} {raw : List Bytes}
    {leftover : Bytes} (h : FileExtends H tree raw leftover) (path : String) :
    Reproducible H path tree ↔ leftover.length % ENTRY_SIZE = 0 := by
  have hlen : (raw.flatten ++ leftover).length = ENTRY_SIZE * raw.length + leftover.length := by
    rw [List.length_append, length_flatten_entries h.entrySize]
  constructor
  · intro hrep
    by_contra hmod
    refine not_reproducible_of_length H path ?_ hrep
    rw [h.file, Option.map_some, hlen, Nat.mul_add_mod, beq_eq_false_iff_ne.2 hmod]
  · intro hmod
    have hwhole : leftover.length = ENTRY_SIZE * (leftover.length / ENTRY_SIZE) :=
      (Nat.mul_div_cancel' (Nat.dvd_of_mod_eq_zero hmod)).symm
    obtain ⟨more, hflat, hmore⟩ := exists_entries hwhole
    have hall : ∀ e ∈ raw ++ more, e.length = ENTRY_SIZE := by
      intro e he
      rcases List.mem_append.1 he with he | he
      · exact h.entrySize e he
      · exact hmore e he
    obtain ⟨restored, hcreate, hrep, -⟩ := create_flatten H path hall
    rw [List.flatten_append, hflat] at hcreate
    refine ⟨restored, by rw [h.file, hcreate], ?_⟩
    rw [h.represents.rawEntries, hrep.rawEntries]
    exact List.prefix_append _ _

/-- One append under the condition: nothing is left over after one that
returned, and one that failed only adds to what is left over. -/
theorem FileExtends.step {H : Hash} {tree : MerkleTree} {raw : List Bytes} {leftover : Bytes}
    (h : FileExtends H tree raw leftover) {call : AppendCall}
    (hsize : call.entryBytes.length = ENTRY_SIZE) (hok : NoLeftover tree call) :
    (∃ index, (append H tree call.entryBytes call.io).2 = .ok index ∧
      FileExtends H (step H tree call) (raw ++ [call.entryBytes]) []) ∨
    ∃ message leftover', (append H tree call.entryBytes call.io).2 = .error message ∧
      FileExtends H (MerkleTree.step H tree call) raw leftover' := by
  rcases append_cases H h.represents call with
    ⟨hret, hrep, hfile, hdur⟩ | ⟨k, message, herr, hrep, hfile⟩
  · left
    have hlen := hok _ h.file (hdur _ h.file)
    rw [List.length_append, length_flatten_entries h.entrySize, h.represents.size_eq] at hlen
    have hnil : leftover = [] := List.eq_nil_of_length_eq_zero (by omega)
    refine ⟨_, hret, hrep, ?_, ?_⟩
    · intro e he
      rcases List.mem_append.1 he with he | he
      · exact h.entrySize e he
      · rw [List.mem_singleton.1 he, hsize]
    · rw [hfile, h.file, hnil, Option.map_some]
      simp
  · right
    refine ⟨message, leftover ++ call.entryBytes.take k, herr, hrep, h.entrySize, ?_⟩
    rw [hfile, h.file, Option.map_some, List.append_assoc]

theorem FileExtends.run {H : Hash} {calls : List AppendCall} {tree : MerkleTree}
    {raw : List Bytes} {leftover : Bytes} (h : FileExtends H tree raw leftover)
    (hsize : ∀ call ∈ calls, call.entryBytes.length = ENTRY_SIZE)
    (hok : Always (MerkleTree.step H) NoLeftover tree calls) :
    ∃ raw' leftover', FileExtends H (Lib.run (MerkleTree.step H) tree calls) raw' leftover' := by
  induction calls generalizing tree raw leftover with
  | nil => exact ⟨raw, leftover, h⟩
  | cons call calls ih =>
      have hrest : ∀ c ∈ calls, c.entryBytes.length = ENTRY_SIZE :=
        fun c hc => hsize c (List.mem_cons_of_mem _ hc)
      rcases h.step (hsize call List.mem_cons_self) hok.1 with
        ⟨_, _, h'⟩ | ⟨_, _, _, h'⟩
      · exact ih h' hrest hok.2
      · exact ih h' hrest hok.2

/-- In a run whose appends meet `NoLeftover`, every append that returns leaves
a reproducible tree, and a tree in between is reproducible exactly when its
file is made of whole entries. -/
theorem durable_of_noLeftover (path : String) (disk : Option (List Bytes))
    (hdisk : ∀ entries ∈ disk, ∀ e ∈ entries, e.length = ENTRY_SIZE) (tree₀ : MerkleTree)
    (hcreate : create H (some path) (disk.map List.flatten) = .ok tree₀)
    (calls : List AppendCall) (hsize : ∀ call ∈ calls, call.entryBytes.length = ENTRY_SIZE)
    (hok : Always (step H) NoLeftover tree₀ calls) :
    Durable H path tree₀ calls ∧
      ∀ pre, pre <+: calls → ∀ file, (run (step H) tree₀ pre).file = some file →
        (Reproducible H path (run (step H) tree₀ pre) ↔ file.length % ENTRY_SIZE = 0) := by
  have hstart : FileExtends H tree₀ (restored (some path) disk) [] := by
    obtain ⟨hrep, hfile⟩ := created_represents H hdisk hcreate
    refine ⟨hrep, fun e he => ?_, by rw [hfile, List.append_nil]; rfl⟩
    cases disk with
    | none => cases he
    | some entries => exact hdisk entries rfl e he
  have hreach : ∀ pre, pre <+: calls →
      ∃ raw leftover, FileExtends H (run (step H) tree₀ pre) raw leftover := by
    intro pre hpre
    exact hstart.run (fun c hc => hsize c (hpre.subset hc)) (hok.initial hpre)
  refine ⟨fun pre call index hpre hret => ?_, fun pre hpre file hfile => ?_⟩
  · obtain ⟨raw, leftover, h⟩ := hreach pre ((List.prefix_append _ _).trans hpre)
    have hcall := (Always.append.1 (hok.initial hpre)).2.1
    rw [run_snoc]
    rcases h.step (hsize call (hpre.subset (by simp))) hcall with
      ⟨_, _, h'⟩ | ⟨message, _, herr, _⟩
    · exact (h'.reproducible_iff path).2 rfl
    · rw [herr] at hret
      cases hret
  · obtain ⟨raw, leftover, h⟩ := hreach pre hpre
    have hf := h.file
    rw [hfile] at hf
    injection hf with hf
    rw [h.reproducible_iff path, hf, List.length_append, length_flatten_entries h.entrySize,
      Nat.mul_add_mod]

/-- Two appends that go through, and a third that leaves a byte behind. -/
theorem durable_of_noLeftover_three :
    Durable Hash.fips180 "entries.bin" (empty (some []))
      [⟨List.replicate ENTRY_SIZE 1, .clean⟩, ⟨List.replicate ENTRY_SIZE 2, .clean⟩,
        ⟨List.replicate ENTRY_SIZE 3, ⟨true, [.threw 1 "EIO"], true⟩⟩] :=
  (durable_of_noLeftover Hash.fips180 "entries.bin" none (by simp) (empty (some [])) rfl
    [⟨List.replicate ENTRY_SIZE 1, .clean⟩, ⟨List.replicate ENTRY_SIZE 2, .clean⟩,
      ⟨List.replicate ENTRY_SIZE 3, ⟨true, [.threw 1 "EIO"], true⟩⟩] (by decide)
    ⟨noLeftover_of_length (by decide +kernel), noLeftover_of_length (by decide +kernel),
      noLeftover_of_length (by decide +kernel), trivial⟩).1

/-- One byte of a failed append makes the entry appended after it, and every
file from then on, impossible to restore. -/
theorem not_durable_of_short_write :
    ¬ Durable Hash.fips180 "entries.bin" (empty (some []))
      [⟨List.replicate ENTRY_SIZE 1, ⟨true, [.threw 1 "EIO"], true⟩⟩,
        ⟨List.replicate ENTRY_SIZE 1, .clean⟩] := by
  intro h
  have hlast := h [⟨List.replicate ENTRY_SIZE 1, ⟨true, [.threw 1 "EIO"], true⟩⟩]
    ⟨List.replicate ENTRY_SIZE 1, .clean⟩ 0 (List.prefix_refl _)
    (by decide +kernel)
  exact not_reproducible_of_length Hash.fips180 "entries.bin" (by decide +kernel) hlast

end Atrib.MerkleTree
