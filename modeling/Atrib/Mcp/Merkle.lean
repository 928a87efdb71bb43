import Atrib.Mcp.Hash
import Atrib.Lib.Merkle

/-!
# The RFC 6962 tree of the record package

`packages/mcp/src/merkle.ts`, function by function. Array slices are lists,
so the two recursions cut their argument as the source does; a throw is an
`Except.error` with the source's text. The precondition
`largestPowerOfTwoLessThan` throws on is an argument instead, because every
caller has already told sizes zero and one apart.
-/

namespace Atrib

/-- `Math.clz32` of a 32-bit number. -/
def clz32 (x : ℕ) : ℕ := if x = 0 then 32 else 31 - Nat.log2 x

/-- Largest power of two strictly less than `n`. Beyond 2^31 the source
falls back to floating-point `Math.log2`, exact up to 2^48 and so for every
length an array can have. -/
def largestPowerOfTwoLessThan (n : ℕ) (_ : 2 ≤ n) : ℕ :=
  if n - 1 < 0x80000000 then 1 <<< (31 - clz32 (n - 1)) else 2 ^ Nat.log2 (n - 1)

@[simp] theorem largestPowerOfTwoLessThan_eq {n : ℕ} (h : 2 ≤ n) :
    largestPowerOfTwoLessThan n h = Lib.Merkle.split n := by
  unfold largestPowerOfTwoLessThan
  split
  · next hlt =>
      have hlog : Nat.log2 (n - 1) < 31 := (Nat.log2_lt (by omega)).2 (by omega)
      rw [clz32, if_neg (by omega), Nat.one_shiftLeft, Lib.Merkle.split]
      congr 1
      omega
  · rfl

/-! Both slices are shorter than the array, which is why the recursions end. -/

theorem length_take_split {α : Type*} {xs : List α} (h : 2 ≤ xs.length) :
    (xs.take (largestPowerOfTwoLessThan xs.length h)).length < xs.length := by
  rw [List.length_take, largestPowerOfTwoLessThan_eq]
  exact lt_of_le_of_lt (Nat.min_le_left _ _) (Lib.Merkle.split_lt h)

theorem length_drop_split {α : Type*} {xs : List α} (h : 2 ≤ xs.length) :
    (xs.drop (largestPowerOfTwoLessThan xs.length h)).length < xs.length := by
  rw [List.length_drop, largestPowerOfTwoLessThan_eq]
  exact Lib.Merkle.sub_split_lt h

/-- The bitwise OR of the differences at the first `n` places: the
comparison that does not stop at the first difference. A place past the end
reads as `undefined`, which the operator takes for zero. -/
def byteDifference (n : ℕ) (left right : Bytes) : UInt8 :=
  (List.range n).foldl (fun diff i => diff ||| (left.getD i 0 ^^^ right.getD i 0)) 0

theorem byteDifference_eq_zero {n : ℕ} {left right : Bytes} :
    byteDifference n left right = 0 ↔ ∀ i < n, left.getD i 0 = right.getD i 0 := by
  unfold byteDifference
  induction n with
  | zero => simp
  | succ n ih =>
      rw [List.range_succ, List.foldl_append, List.foldl_cons, List.foldl_nil,
        UInt8.or_eq_zero_iff, ih, UInt8.xor_eq_zero_iff, Nat.forall_lt_succ_right]

/-- On byte strings of the length compared it is equality. -/
theorem byteDifference_eq_zero_iff {n : ℕ} {left right : Bytes} (hl : left.length = n)
    (hr : right.length = n) : byteDifference n left right = 0 ↔ left = right := by
  rw [byteDifference_eq_zero]
  constructor
  · intro h
    refine List.ext_getElem (hl.trans hr.symm) fun i hi hi' => ?_
    have := h i (hl ▸ hi)
    rwa [List.getD_eq_getElem?_getD, List.getD_eq_getElem?_getD,
      List.getElem?_eq_getElem hi, List.getElem?_eq_getElem hi'] at this
  · rintro rfl i _
    rfl

namespace Hash

variable (H : Hash)

/-- The domain-separated input of a leaf. -/
def leafInput (entryBytes : Bytes) : Bytes := 0x00 :: entryBytes

/-- The domain-separated input of an internal node. -/
def nodeInput (left right : Bytes) : Bytes := 0x01 :: (left ++ right)

def leafHash (entryBytes : Bytes) : Bytes := H.sha256 (leafInput entryBytes)

def nodeHash (left right : Bytes) : Bytes := H.sha256 (nodeInput left right)

@[simp] theorem length_leafHash (entryBytes : Bytes) : (H.leafHash entryBytes).length = 32 :=
  H.length_sha256 _

@[simp] theorem length_nodeHash (left right : Bytes) : (H.nodeHash left right).length = 32 :=
  H.length_sha256 _

/-- The Merkle Tree Hash of a list of raw entries. -/
def computeRoot : List Bytes → Except String Bytes
  | [] => .error "computeRoot: empty tree has no root"
  | [leaf] => .ok (H.leafHash leaf)
  | first :: second :: rest => do
      let leaves := first :: second :: rest
      let k := largestPowerOfTwoLessThan leaves.length (Nat.le_add_left 2 _)
      let left ← computeRoot (leaves.take k)
      let right ← computeRoot (leaves.drop k)
      return H.nodeHash left right
termination_by leaves => leaves.length
decreasing_by
  · exact length_take_split _
  · exact length_drop_split _

/-- `_inclusionProof`: siblings from the leaf up. -/
def inclusionProof (index : ℕ) : List Bytes → Except String (List Bytes)
  | [] => .error "largestPowerOfTwoLessThan: n must be >= 2"
  | [_] => .ok []
  | first :: second :: rest =>
      let leaves := first :: second :: rest
      let k := largestPowerOfTwoLessThan leaves.length (Nat.le_add_left 2 _)
      if index < k then do
        let proof ← inclusionProof index (leaves.take k)
        let sibling ← H.computeRoot (leaves.drop k)
        return proof ++ [sibling]
      else do
        let proof ← inclusionProof (index - k) (leaves.drop k)
        let sibling ← H.computeRoot (leaves.take k)
        return proof ++ [sibling]
termination_by leaves => leaves.length
decreasing_by
  · exact length_take_split _
  · exact length_drop_split _

def computeInclusionProof (index : ℤ) (leaves : List Bytes) : Except String (List Bytes) :=
  if leaves.length = 0 then .error "computeInclusionProof: empty tree"
  else if index < 0 ∨ index ≥ leaves.length then
    .error s!"computeInclusionProof: index {index} out of range [0, {leaves.length})"
  else H.inclusionProof index.toNat leaves

/-- One turn on the way from the root to a leaf. -/
structure PathStep where
  idx : ℕ
  sz : ℕ
  two_le_sz : 2 ≤ sz

/-- The `(idx, sz)` pairs `_verifyPath` collects, root first. -/
def pathFromRoot (idx sz : ℕ) : List PathStep :=
  if h : 2 ≤ sz then
    let k := largestPowerOfTwoLessThan sz h
    ⟨idx, sz, h⟩ :: (if idx < k then pathFromRoot idx k else pathFromRoot (idx - k) (sz - k))
  else []
termination_by sz
decreasing_by
  · simpa using Lib.Merkle.split_lt h
  · simpa using Lib.Merkle.sub_split_lt h

/-- One round of the loop: combine the running hash with a sibling. -/
def combine (current : Bytes) (step : PathStep × Bytes) : Bytes :=
  let k := largestPowerOfTwoLessThan step.1.sz step.1.two_le_sz
  if step.1.idx < k then H.nodeHash current step.2 else H.nodeHash step.2 current

/-- `_verifyPath`: the root a leaf hash and a proof lead to. -/
def verifyPath (index size : ℕ) (leafHashValue : Bytes) (proof : List Bytes) :
    Option Bytes :=
  let path := (pathFromRoot index size).reverse
  if path.length ≠ proof.length then none
  else some ((path.zip proof).foldl H.combine leafHashValue)

def verifyInclusion (index : ℤ) (treeSize : ℕ) (leafHashValue : Bytes) (proof : List Bytes)
    (expectedRoot : Bytes) : Bool :=
  if treeSize = 0 then false
  else if index < 0 ∨ index ≥ treeSize then false
  else if leafHashValue.length ≠ 32 ∨ expectedRoot.length ≠ 32 then false
  else
    match H.verifyPath index.toNat treeSize leafHashValue proof with
    | none => false
    | some computedRoot => byteDifference 32 computedRoot expectedRoot == 0

end Hash

end Atrib
