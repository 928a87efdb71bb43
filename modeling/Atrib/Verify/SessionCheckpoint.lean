import Atrib.Mcp.SessionCheckpoint

/-!
# The verify package's copy of the session consistency check

`packages/verify/src/session-checkpoint.ts` takes its hash functions and its
hex reader from the record package and repeats the rest: the pattern of a
reference, the comparison of byte strings and the fold over the proof.
-/

namespace Atrib.Verify.SessionCheckpoint

variable (H : Hash)

/-- `SHA256_REF.test` -/
def isSha256Ref (text : String) : Bool :=
  hasHashPrefix text && (text.toList.drop 7).length == 64 &&
    (text.toList.drop 7).all fun c => ('0' ≤ c && c ≤ '9') || ('a' ≤ c && c ≤ 'f')

def bytesEqual (a b : Bytes) : Bool :=
  if a.length ≠ b.length then false else byteDifference a.length a b == 0

/-- `while ((fn & 1) === 1)`: shift both. -/
def dropOnes (fn sn : ℤ) : Option (ℤ × ℤ) :=
  if _ : bitAnd fn 1 = 1 then
    if _ : fn = -1 then none
    else dropOnes (shiftRightOne fn) (shiftRightOne sn)
  else some (fn, sn)
termination_by fn.natAbs
decreasing_by exact natAbs_shiftRightOne_lt (ne_zero_of_bitAnd_one ‹_›) ‹_›

/-- `while (fn !== 0 && (fn & 1) === 0)`: shift both. -/
def dropZeros (fn sn : ℤ) : ℤ × ℤ :=
  if _ : fn ≠ 0 ∧ bitAnd fn 1 = 0 then dropZeros (shiftRightOne fn) (shiftRightOne sn)
  else (fn, sn)
termination_by fn.natAbs
decreasing_by
  refine natAbs_shiftRightOne_lt (And.left ‹_›) fun h => ?_
  subst h
  exact absurd (And.right ‹_›) (by decide)

structure FoldState where
  fn : ℤ
  sn : ℤ
  fr : Bytes
  sr : Bytes

/-- The body of the loop; `none` is `return false`. -/
def foldNode (s : FoldState) (node : Bytes) : Option FoldState :=
  if s.sn = 0 then none
  else if bitAnd s.fn 1 = 1 ∨ s.fn = s.sn then
    let places := if bitAnd s.fn 1 = 0 then dropZeros s.fn s.sn else (s.fn, s.sn)
    some ⟨shiftRightOne places.1, shiftRightOne places.2, H.nodeHash node s.fr,
      H.nodeHash node s.sr⟩
  else some ⟨shiftRightOne s.fn, shiftRightOne s.sn, s.fr, H.nodeHash s.sr node⟩

structure VerifySessionConsistencyProofOptions where
  firstTreeSize : ℚ
  secondTreeSize : ℚ
  firstRoot : String
  secondRoot : String
  proof : List Bytes

/-- From the test for equal sizes on. `none` is the call that never returns. -/
def verifyDecoded (m n : ℤ) (firstRoot secondRoot : Bytes) (proof : List Bytes) : Option Bool :=
  if m = n then some (proof.length == 0 && bytesEqual firstRoot secondRoot)
  else if m < 1 ∨ m > n then some false
  else
    match if bitAnd m (m - 1) = 0 then firstRoot :: proof else proof with
    | [] => some false
    | c₀ :: c => do
        let (fn, sn) ← dropOnes (m - 1) (n - 1)
        match c.foldlM (foldNode H) ⟨fn, sn, c₀, c₀⟩ with
        | none => return false
        | some s => return bytesEqual s.fr firstRoot && bytesEqual s.sr secondRoot && s.sn == 0

/-- A throw is caught and answered with `false`. -/
def verifySessionConsistencyProof (opts : VerifySessionConsistencyProofOptions) : Option Bool :=
  if !isSha256Ref opts.firstRoot ∨ !isSha256Ref opts.secondRoot then some false
  else
    match hexDecode (afterHashPrefix opts.firstRoot),
      hexDecode (afterHashPrefix opts.secondRoot) with
    | .ok firstRoot, .ok secondRoot =>
        if !opts.firstTreeSize.isInt ∨ !opts.secondTreeSize.isInt then some false
        else verifyDecoded H opts.firstTreeSize.num opts.secondTreeSize.num firstRoot secondRoot
          opts.proof
    | _, _ => some false

end Atrib.Verify.SessionCheckpoint
