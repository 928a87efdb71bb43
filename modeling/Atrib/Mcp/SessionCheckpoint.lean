import Atrib.Mcp.Merkle
import Atrib.Mcp.Refs
import Mathlib.Data.Rat.Defs

/-!
# Session checkpoints

The consistency proofs of `packages/mcp/src/session-checkpoint.ts`. The leaves
of a session tree are raw 32-byte record hashes, a root is carried in its text
form, and sizes are numbers that the code tests for being integers.

The verifier shifts its two sizes with the 32-bit operators of the language,
which take a number modulo 2^32 and read it back with a sign. A loop on them
need not end: -1 stays -1 under a shift, and it is odd. Where that happens the
answer here is `none`, the call that never returns. A number is exact here, as
a double is up to 2^53.
-/

namespace Atrib

/-! ## The 32-bit operators -/

/-- `a & b` -/
def bitAnd (a b : ℤ) : ℤ := (BitVec.ofInt 32 a &&& BitVec.ofInt 32 b).toInt

/-- `a >> 1` -/
def shiftRightOne (a : ℤ) : ℤ := ((BitVec.ofInt 32 a).sshiftRight 1).toInt

theorem toInt_ofInt_natCast {n : ℕ} (hn : n < 2 ^ 31) :
    (BitVec.ofInt 32 (n : ℤ)).toInt = n :=
  BitVec.toInt_ofInt_eq_self (by omega) (by omega) (by omega)

theorem bitAnd_natCast {m n : ℕ} (hm : m < 2 ^ 31) (hn : n < 2 ^ 31) :
    bitAnd m n = (m &&& n : ℕ) := by
  have hle : m &&& n ≤ m := Nat.and_le_left
  have htoNat : (BitVec.ofInt 32 (m : ℤ) &&& BitVec.ofInt 32 (n : ℤ)).toNat = m &&& n := by
    rw [BitVec.toNat_and, BitVec.ofInt_natCast, BitVec.ofInt_natCast, BitVec.toNat_ofNat,
      BitVec.toNat_ofNat, Nat.mod_eq_of_lt (by omega), Nat.mod_eq_of_lt (by omega)]
  rw [bitAnd, BitVec.toInt_eq_toNat_of_lt (by rw [htoNat]; omega), htoNat]

theorem bitAnd_one {n : ℕ} (hn : n < 2 ^ 31) : bitAnd n 1 = (n % 2 : ℕ) := by
  have h := bitAnd_natCast hn (n := 1) (by decide)
  rwa [Nat.and_one_is_mod] at h

theorem shiftRightOne_natCast {n : ℕ} (hn : n < 2 ^ 31) : shiftRightOne n = (n / 2 : ℕ) := by
  rw [shiftRightOne, BitVec.toInt_sshiftRight, toInt_ofInt_natCast hn, Int.shiftRight_eq_div_pow]
  simp

/-- A shift brings every number closer to zero but 0 and -1. -/
theorem natAbs_shiftRightOne_lt {n : ℤ} (h₀ : n ≠ 0) (h₁ : n ≠ -1) :
    (shiftRightOne n).natAbs < n.natAbs := by
  have hbmod : (BitVec.ofInt 32 n).toInt = n.bmod (2 ^ 32) := BitVec.toInt_ofInt n
  rw [shiftRightOne, BitVec.toInt_sshiftRight, hbmod, Int.shiftRight_eq_div_pow, Int.bmod_def]
  split <;> omega

theorem ne_zero_of_bitAnd_one {n : ℤ} (h : bitAnd n 1 = 1) : n ≠ 0 := by
  intro hn
  subst hn
  exact absurd h (by decide)

namespace SessionCheckpoint

variable (H : Hash)

def assertSessionLeaves (recordHashes : List Bytes) : Except String Unit :=
  if recordHashes.length = 0 then
    .error "atrib: empty session checkpoints are prohibited (tree_size >= 1 per §1.2.10)"
  else
    match recordHashes.find? fun leaf => leaf.length ≠ 32 with
    | some leaf =>
        .error ("atrib: session leaves are raw 32-byte record hashes (§1.2.10.1); " ++
          s!"got {leaf.length} bytes")
    | none => .ok ()

def computeSessionRoot (recordHashes : List Bytes) : Except String String := do
  assertSessionLeaves recordHashes
  let root ← H.computeRoot recordHashes
  return sha256Ref root

/-! ## The prover -/

/-- `while (k * 2 < n) k *= 2` -/
def doubleWhileBelow (k n : ℕ) : ℕ :=
  if 0 < k ∧ k * 2 < n then doubleWhileBelow (k * 2) n else k
termination_by n - k
decreasing_by omega

def largestPowerOfTwoLessThan (n : ℕ) : ℕ := doubleWhileBelow 1 n

@[simp] theorem largestPowerOfTwoLessThan_eq {n : ℕ} (h : 2 ≤ n) :
    largestPowerOfTwoLessThan n = Lib.Merkle.split n :=
  Lib.Merkle.doubling_eq_split (f := fun k => doubleWhileBelow k n) (n := n)
    (fun k => doubleWhileBelow.eq_def k n) (l := 0) (by rw [Nat.pow_zero]; omega)

/-- The calls end for `m` from 1 to the length of `d`; for any other `m` they
come to a list that is not cut any further. -/
def subproof (m : ℕ) (d : List Bytes) (b : Bool) : Except String (List Bytes) :=
  if m = d.length then
    if b then .ok []
    else do
      let root ← H.computeRoot d
      return [root]
  else if _ : 2 ≤ d.length then
    let k := largestPowerOfTwoLessThan d.length
    if m ≤ k then do
      let proof ← subproof m (d.take k) b
      let root ← H.computeRoot (d.drop k)
      return proof ++ [root]
    else do
      let proof ← subproof (m - k) (d.drop k) false
      let root ← H.computeRoot (d.take k)
      return proof ++ [root]
  else .error "Maximum call stack size exceeded"
termination_by d.length
decreasing_by
  · rw [List.length_take, largestPowerOfTwoLessThan_eq ‹_›]
    have := Lib.Merkle.split_lt ‹2 ≤ d.length›
    omega
  · rw [List.length_drop, largestPowerOfTwoLessThan_eq ‹_›]
    exact Lib.Merkle.sub_split_lt ‹_›

def sessionConsistencyProof (firstTreeSize : ℚ) (recordHashes : List Bytes) :
    Except String (List Bytes) := do
  assertSessionLeaves recordHashes
  if !firstTreeSize.isInt ∨ firstTreeSize < 1 ∨ firstTreeSize > recordHashes.length then
    throw (s!"atrib: consistency proof requires 1 <= firstTreeSize <= {recordHashes.length}; " ++
      s!"got {firstTreeSize}")
  subproof H firstTreeSize.num.toNat recordHashes true

/-! ## The verifier -/

def bytesEqual (a b : Bytes) : Bool :=
  if a.length ≠ b.length then false else byteDifference a.length a b == 0

@[simp] theorem bytesEqual_iff {a b : Bytes} : bytesEqual a b = true ↔ a = b := by
  rw [bytesEqual]
  by_cases h : a.length = b.length
  · rw [if_neg (by simpa using h), beq_iff_eq, byteDifference_eq_zero_iff rfl h.symm]
  · rw [if_pos h]
    simp only [Bool.false_eq_true, false_iff]
    intro heq
    exact h (by rw [heq])

/-- `while ((fn & 1) === 1)`: shift both. -/
def dropOnes (fn sn : ℤ) : Option (ℤ × ℤ) :=
  if _ : bitAnd fn 1 = 1 then
    if _ : fn = -1 then none
    else dropOnes (shiftRightOne fn) (shiftRightOne sn)
  else some (fn, sn)
termination_by fn.natAbs
decreasing_by exact natAbs_shiftRightOne_lt (ne_zero_of_bitAnd_one ‹_›) ‹_›

/-- `while (fn !== 0 && (fn & 1) === 0)`: shift both. -/
def dropZeros (fn sn : ℤ) : ℤ × ℤ :=
  if _ : fn ≠ 0 ∧ bitAnd fn 1 = 0 then dropZeros (shiftRightOne fn) (shiftRightOne sn)
  else (fn, sn)
termination_by fn.natAbs
decreasing_by
  refine natAbs_shiftRightOne_lt (And.left ‹_›) fun h => ?_
  subst h
  exact absurd (And.right ‹_›) (by decide)

/-- The variables of the loop over the proof. -/
structure FoldState where
  fn : ℤ
  sn : ℤ
  fr : Bytes
  sr : Bytes

/-- The body of the loop; `none` is `return false`. -/
def foldNode (s : FoldState) (node : Bytes) : Option FoldState :=
  if s.sn = 0 then none
  else if bitAnd s.fn 1 = 1 ∨ s.fn = s.sn then
    let places := if bitAnd s.fn 1 = 0 then dropZeros s.fn s.sn else (s.fn, s.sn)
    some ⟨shiftRightOne places.1, shiftRightOne places.2, H.nodeHash node s.fr,
      H.nodeHash node s.sr⟩
  else some ⟨shiftRightOne s.fn, shiftRightOne s.sn, s.fr, H.nodeHash s.sr node⟩

/-- Sizes are numbers; one that is no finite fraction fails `Number.isInteger`
like one that is no integer. -/
structure VerifySessionConsistencyOptions where
  firstTreeSize : ℚ
  secondTreeSize : ℚ
  firstRoot : String
  secondRoot : String
  proof : List Bytes

/-- The array `c`: what the verifier folds up. -/
def foldedNodes (m : ℤ) (firstRoot : Bytes) (proof : List Bytes) : List Bytes :=
  if bitAnd m (m - 1) = 0 then firstRoot :: proof else proof

/-- From the test for equal sizes on. `none` is the call that never returns. -/
def verifyDecoded (m n : ℤ) (firstRoot secondRoot : Bytes) (proof : List Bytes) : Option Bool :=
  if m = n then some (proof.length == 0 && bytesEqual firstRoot secondRoot)
  else if m < 1 ∨ m > n then some false
  else
    match foldedNodes m firstRoot proof with
    | [] => some false
    | c₀ :: c => do
        let (fn, sn) ← dropOnes (m - 1) (n - 1)
        match c.foldlM (foldNode H) ⟨fn, sn, c₀, c₀⟩ with
        | none => return false
        | some s => return bytesEqual s.fr firstRoot && bytesEqual s.sr secondRoot && s.sn == 0

/-- A throw is caught and answered with `false`. -/
def verifySessionConsistency (opts : VerifySessionConsistencyOptions) : Option Bool :=
  if !isSha256Ref opts.firstRoot ∨ !isSha256Ref opts.secondRoot then some false
  else
    match hexDecode (afterHashPrefix opts.firstRoot),
      hexDecode (afterHashPrefix opts.secondRoot) with
    | .ok firstRoot, .ok secondRoot =>
        if !opts.firstTreeSize.isInt ∨ !opts.secondTreeSize.isInt then some false
        else verifyDecoded H opts.firstTreeSize.num opts.secondTreeSize.num firstRoot secondRoot
          opts.proof
    | _, _ => some false

end SessionCheckpoint

end Atrib
