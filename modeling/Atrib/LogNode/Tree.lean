import Atrib.Mcp.Merkle
import Atrib.Lib.SparseArray

/-!
# The log node's cached, persistent Merkle tree

`services/log-node/src/tree.ts`. A tree carries its raw entries, the hashes
of the complete subtrees level by level, and, when a persistence path is set,
the bytes of the file behind it: appending changes the file first and the
arrays second, and what the file system answers on the way is an argument of
`append`. A method that throws after it has changed something returns both
the state it leaves and the error.
-/

namespace Atrib

/-- Bytes of a serialized log entry. -/
def ENTRY_SIZE : ℕ := 90

/-- Complete subtree hashes by level; level 0 is the leaf hashes. -/
abbrev Levels := Lib.SparseArray (Lib.SparseArray Bytes)

/-- `levels[level]?.[index]` -/
def Levels.lookup (levels : Levels) (level index : ℕ) : Option Bytes :=
  (levels.read level).bind (·.read index)

/-- `(levels[level] ?? (levels[level] = []))[index] = hash` -/
def Levels.assign (levels : Levels) (level index : ℕ) (hash : Bytes) : Levels :=
  levels.write level (((levels.read level).getD []).write index hash)

/-- What one `writeSync` does: it reports a count of bytes taken, or it throws,
and may have written some bytes before. -/
inductive WriteResult
  | wrote (count : ℕ)
  | threw (count : ℕ) (message : String)

/-- The answers of the file system during one append: whether the file opens,
what the writes do in turn (when the list ends the next write takes what is
left), and whether the final `fsync` succeeds. -/
structure AppendIo where
  opens : Bool
  writes : List WriteResult
  syncs : Bool

/-- Nothing goes wrong. -/
def AppendIo.clean : AppendIo := ⟨true, [], true⟩

structure MerkleTree where
  rawEntries : List Bytes
  levels : Levels
  /-- Contents of the persistence file, when a path is set. -/
  file : Option Bytes

namespace MerkleTree

variable (H : Hash)

/-- The loop of `appendInMemory`: place a hash, and while it completes a pair
carry the pair's hash one level up. -/
def fillLevels (levels : Levels) (hash : Bytes) (level levelIndex : ℕ) :
    Levels × Except String Unit :=
  let nodes := levels.assign level levelIndex hash
  if levelIndex % 2 = 0 then (nodes, .ok ())
  else
    match nodes.lookup level (levelIndex - 1) with
    | none =>
        (nodes, .error s!"MerkleTree.append: missing left sibling at level {level}, index {levelIndex - 1}")
    | some left => fillLevels nodes (H.nodeHash left hash) (level + 1) (levelIndex / 2)
termination_by levelIndex
decreasing_by omega

def appendInMemory (tree : MerkleTree) (entryBytes : Bytes) : MerkleTree × Except String ℕ :=
  let index := tree.rawEntries.length
  let (levels, done) := fillLevels H tree.levels (H.leafHash entryBytes) 0 index
  ({ tree with rawEntries := tree.rawEntries ++ [entryBytes], levels := levels },
    done.map fun _ => index)

/-- The write loop of `appendDurably`; `pending` is what `offset` has not
reached yet. -/
def writeLoop (file : Bytes) (offset : ℕ) (pending : Bytes) :
    List WriteResult → Bytes × Except String Unit
  | [] => (file ++ pending, .ok ())
  | .wrote count :: rest =>
      if pending = [] then (file, .ok ())
      else if count = 0 then
        (file, .error s!"MerkleTree.append: durable write made no progress at byte {offset}")
      else
        writeLoop (file ++ pending.take count) (offset + count) (pending.drop count) rest
  | .threw count message :: _ =>
      if pending = [] then (file, .ok ())
      else (file ++ pending.take count, .error message)

def appendDurably (file entryBytes : Bytes) (io : AppendIo) : Bytes × Except String Unit :=
  if !io.opens then (file, .error "open failed")
  else
    let (written, result) := writeLoop file 0 entryBytes io.writes
    match result with
    | .error message => (written, .error message)
    | .ok () => if io.syncs then (written, .ok ()) else (written, .error "fsync failed")

/-- Durable first, in memory second. -/
def append (tree : MerkleTree) (entryBytes : Bytes) (io : AppendIo) :
    MerkleTree × Except String ℕ :=
  match tree.file with
  | none => appendInMemory H tree entryBytes
  | some file =>
      let (written, result) := appendDurably file entryBytes io
      let tree := { tree with file := some written }
      match result with
      | .error message => (tree, .error message)
      | .ok () => appendInMemory H tree entryBytes

def empty (file : Option Bytes) : MerkleTree := ⟨[], [some []], file⟩

/-- The replay loop over the whole entries of the file. -/
def replay (tree : MerkleTree) (buf : Bytes) : Except String MerkleTree :=
  if _ : buf.length = 0 then .ok tree
  else
    let (tree, index) := appendInMemory H tree (buf.take ENTRY_SIZE)
    match index with
    | .error message => .error message
    | .ok _ => replay tree (buf.drop ENTRY_SIZE)
termination_by buf.length
decreasing_by
  rw [List.length_drop, ENTRY_SIZE]
  omega

/-- `createMerkleTree`: `disk` is what stands at the persistence path. -/
def create (persistPath : Option String) (disk : Option Bytes) : Except String MerkleTree :=
  match persistPath, disk with
  | none, _ => .ok (empty none)
  | some _, none => .ok (empty (some []))
  | some path, some buf =>
      if buf.length % ENTRY_SIZE ≠ 0 then
        .error s!"MerkleTree: persistence file {path} length {buf.length} is not a multiple of {ENTRY_SIZE} bytes"
      else replay H (empty (some buf)) buf

def size (tree : MerkleTree) : ℕ := tree.rawEntries.length

/-- `Number.isInteger(Math.log2(n))`, exact for every array length. -/
def isPowerOfTwo (n : ℕ) : Bool := n > 0 && 2 ^ Nat.log2 n == n

def powerLevel (size : ℕ) : ℕ := Nat.log2 size

theorem isPowerOfTwo_iff {n : ℕ} : isPowerOfTwo n = true ↔ ∃ l, n = 2 ^ l := by
  simp only [isPowerOfTwo, Bool.and_eq_true, decide_eq_true_eq, beq_iff_eq]
  constructor
  · rintro ⟨-, h⟩
    exact ⟨Nat.log2 n, h.symm⟩
  · rintro ⟨l, rfl⟩
    exact ⟨Nat.two_pow_pos l, by rw [Nat.log2_two_pow]⟩

theorem two_le_of_not_isPowerOfTwo {n : ℕ} (hn : ¬ n < 1) (h : ¬ isPowerOfTwo n = true) :
    2 ≤ n := by
  rcases Nat.lt_or_ge n 2 with hlt | hge
  · exact absurd (isPowerOfTwo_iff.2 ⟨0, by omega⟩) h
  · exact hge

def rangeRootFromLevels (levels : Levels) (start size : ℕ) : Except String Bytes :=
  if hsize : size < 1 then .error "MerkleTree.rangeRoot: empty range"
  else if hp : isPowerOfTwo size = true then
    let level := powerLevel size
    if start % size ≠ 0 then
      .error s!"MerkleTree.rangeRoot: misaligned range start {start} for size {size}"
    else
      match levels.lookup level (start / size) with
      | none =>
          .error s!"MerkleTree.rangeRoot: missing subtree at level {level}, index {start / size}"
      | some hash => .ok hash
  else do
    let k := largestPowerOfTwoLessThan size (two_le_of_not_isPowerOfTwo hsize hp)
    let left ← rangeRootFromLevels levels start k
    let right ← rangeRootFromLevels levels (start + k) (size - k)
    return H.nodeHash left right
termination_by size
decreasing_by
  · simpa using Lib.Merkle.split_lt (two_le_of_not_isPowerOfTwo hsize hp)
  · simpa using Lib.Merkle.sub_split_lt (two_le_of_not_isPowerOfTwo hsize hp)

def inclusionProofFromLevels (levels : Levels) (index start size : ℕ) :
    Except String (List Bytes) :=
  if size = 1 then .ok []
  else if h : 2 ≤ size then
    let k := largestPowerOfTwoLessThan size h
    if index < k then do
      let proof ← inclusionProofFromLevels levels index start k
      let sibling ← rangeRootFromLevels H levels (start + k) (size - k)
      return proof ++ [sibling]
    else do
      let proof ← inclusionProofFromLevels levels (index - k) (start + k) (size - k)
      let sibling ← rangeRootFromLevels H levels start k
      return proof ++ [sibling]
  else .error "largestPowerOfTwoLessThan: n must be >= 2"
termination_by size
decreasing_by
  · simpa using Lib.Merkle.split_lt h
  · simpa using Lib.Merkle.sub_split_lt h

def root (tree : MerkleTree) : Except String Bytes :=
  if tree.rawEntries.length = 0 then .error "MerkleTree.root: tree is empty"
  else rangeRootFromLevels H tree.levels 0 tree.rawEntries.length

def inclusionProof (tree : MerkleTree) (index : ℤ) : Except String (List Bytes) :=
  if tree.rawEntries.length = 0 then .error "MerkleTree.inclusionProof: tree is empty"
  else if index < 0 ∨ index ≥ tree.rawEntries.length then
    .error s!"MerkleTree.inclusionProof: index {index} out of range [0, {tree.rawEntries.length})"
  else inclusionProofFromLevels H tree.levels index.toNat 0 tree.rawEntries.length

/-- A hole would come back as `undefined`; it reads as an error here. -/
def leafHash (tree : MerkleTree) (index : ℤ) : Except String Bytes :=
  let leafHashes := (tree.levels.read 0).getD []
  if index < 0 ∨ index ≥ leafHashes.length then
    .error s!"MerkleTree.leafHash: index {index} out of range [0, {leafHashes.length})"
  else
    match leafHashes.read index.toNat with
    | none => .error "undefined"
    | some hash => .ok hash

def entryBytes (tree : MerkleTree) (index : ℤ) : Except String Bytes :=
  if index < 0 ∨ index ≥ tree.rawEntries.length then
    .error s!"MerkleTree.entryBytes: index {index} out of range [0, {tree.rawEntries.length})"
  else .ok (tree.rawEntries.getD index.toNat [])

end MerkleTree

end Atrib
