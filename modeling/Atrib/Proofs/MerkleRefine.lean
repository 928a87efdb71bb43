import Atrib.Mcp.Merkle

/-!
# The record package's tree is the tree of `Lib.Merkle`

Each function of `Mcp/Merkle.lean` is read back as one of the library's:
`computeRoot` is the root of the range from zero, `_inclusionProof` the audit
path with the leaf's end first, `_verifyPath` the climb. The prover cuts lists
and the verifier collects turns and folds over them in reverse; both
differences end here, and nothing above this file mentions a slice.
-/

namespace Atrib.Hash

open Lib.Merkle

variable (H : Hash)

/-- The leaf digests of a list of raw entries, as a sequence. -/
def leafAt (raw : List Bytes) (i : ℕ) : Bytes := H.leafHash (raw.getD i [])

theorem leafAt_of_lt {raw : List Bytes} {i : ℕ} (hi : i < raw.length) :
    H.leafAt raw i = H.leafHash raw[i] := by
  rw [leafAt, List.getD_eq_getElem?_getD, List.getElem?_eq_getElem hi, Option.getD_some]

theorem leafAt_append {raw more : List Bytes} {i : ℕ} (hi : i < raw.length) :
    H.leafAt (raw ++ more) i = H.leafAt raw i := by
  rw [leafAt, leafAt, List.getD_append _ _ _ _ hi]

theorem leafAt_take {raw : List Bytes} {k i : ℕ} (hi : i < k) :
    H.leafAt (raw.take k) i = H.leafAt raw i := by
  simp only [leafAt, List.getD_eq_getElem?_getD, List.getElem?_take, if_pos hi]

theorem leafAt_drop (raw : List Bytes) (k i : ℕ) :
    H.leafAt (raw.drop k) i = H.leafAt raw (k + i) := by
  simp only [leafAt, List.getD_eq_getElem?_getD, List.getElem?_drop]

/-- The root of a list of raw entries. -/
def rootOf (raw : List Bytes) : Bytes := mth H.nodeHash (H.leafAt raw) 0 raw.length

theorem mth_take {raw : List Bytes} {k : ℕ} (hpos : 0 < k) :
    mth H.nodeHash (H.leafAt (raw.take k)) 0 k = mth H.nodeHash (H.leafAt raw) 0 k :=
  mth_congr _ hpos fun i hi => by rw [Nat.zero_add, leafAt_take H hi]

theorem mth_drop {raw : List Bytes} {k size : ℕ} (hpos : 0 < size) :
    mth H.nodeHash (H.leafAt (raw.drop k)) 0 size = mth H.nodeHash (H.leafAt raw) k size :=
  mth_congr _ hpos fun i _ => by rw [Nat.zero_add, leafAt_drop]

/-! ## The prover -/

theorem computeRoot_split {raw : List Bytes} (h : 2 ≤ raw.length) :
    H.computeRoot raw = (do
      let left ← H.computeRoot (raw.take (split raw.length))
      let right ← H.computeRoot (raw.drop (split raw.length))
      return H.nodeHash left right) := by
  match raw, h with
  | first :: second :: rest, h =>
      rw [computeRoot]
      simp only [largestPowerOfTwoLessThan_eq]

theorem length_left_half {raw : List Bytes} (h : 2 ≤ raw.length) :
    (raw.take (split raw.length)).length = split raw.length := by
  have hlt := split_lt h
  rw [List.length_take]
  omega

theorem computeRoot_eq {raw : List Bytes} (hne : raw ≠ []) :
    H.computeRoot raw = .ok (H.rootOf raw) := by
  induction hn : raw.length using Nat.strong_induction_on generalizing raw with
  | _ n ih =>
      subst hn
      by_cases h : 2 ≤ raw.length
      · have hlt := split_lt h
        have hk := split_pos raw.length
        have htake := length_left_half h
        have hdrop := List.length_drop (i := split raw.length) (l := raw)
        rw [computeRoot_split H h,
          ih _ (by omega) (List.ne_nil_of_length_pos (by omega)) rfl,
          ih _ (by omega) (List.ne_nil_of_length_pos (by omega)) rfl,
          rootOf, rootOf, rootOf, htake, hdrop, mth_take H hk, mth_drop H (by omega),
          mth_node _ _ 0 h, Nat.zero_add]
        rfl
      · match raw, hne, h with
        | [leaf], _, _ => rw [computeRoot, rootOf, List.length_singleton, mth_one]; rfl
        | _ :: _ :: _, _, h => exact absurd h (by simp)

theorem computeRoot_ok {raw : List Bytes} {root : Bytes} (h : H.computeRoot raw = .ok root) :
    raw ≠ [] ∧ root = H.rootOf raw := by
  have hne : raw ≠ [] := by
    rintro rfl
    rw [computeRoot] at h
    cases h
  rw [computeRoot_eq H hne] at h
  injection h with h
  exact ⟨hne, h.symm⟩

theorem length_mth {leaf : ℕ → Bytes} {start size : ℕ}
    (hleaf : ∀ i ≤ size - 1, (leaf (start + i)).length = 32) :
    (mth H.nodeHash leaf start size).length = 32 := by
  by_cases h : 2 ≤ size
  · rw [mth_node _ _ _ h, length_nodeHash]
  · rw [mth_leaf _ _ _ h]
    exact hleaf 0 (Nat.zero_le _)

@[simp] theorem length_leafAt (raw : List Bytes) (i : ℕ) : (H.leafAt raw i).length = 32 :=
  H.length_leafHash _

@[simp] theorem length_rootOf (raw : List Bytes) : (H.rootOf raw).length = 32 :=
  length_mth H fun _ _ => length_leafAt H raw _

theorem inclusionProof_split {index : ℕ} {raw : List Bytes} (h : 2 ≤ raw.length) :
    H.inclusionProof index raw =
      if index < split raw.length then do
        let proof ← H.inclusionProof index (raw.take (split raw.length))
        let sibling ← H.computeRoot (raw.drop (split raw.length))
        return proof ++ [sibling]
      else do
        let proof ← H.inclusionProof (index - split raw.length) (raw.drop (split raw.length))
        let sibling ← H.computeRoot (raw.take (split raw.length))
        return proof ++ [sibling] := by
  match raw, h with
  | first :: second :: rest, h =>
      rw [inclusionProof]
      simp only [largestPowerOfTwoLessThan_eq]

theorem inclusionProof_eq {raw : List Bytes} {index : ℕ} (hi : index < raw.length) :
    H.inclusionProof index raw =
      .ok (auditPath H.nodeHash (H.leafAt raw) index 0 raw.length).reverse := by
  induction hn : raw.length using Nat.strong_induction_on generalizing raw index with
  | _ n ih =>
      subst hn
      by_cases h : 2 ≤ raw.length
      · have hlt := split_lt h
        have hk := split_pos raw.length
        have htake := length_left_half h
        have hdrop := List.length_drop (i := split raw.length) (l := raw)
        have hleft : auditPath H.nodeHash (H.leafAt (raw.take (split raw.length))) index 0
              (split raw.length) =
            auditPath H.nodeHash (H.leafAt raw) index 0 (split raw.length) :=
          auditPath_congr _ fun i hi => by rw [Nat.zero_add, leafAt_take H hi]
        have hright : auditPath H.nodeHash (H.leafAt (raw.drop (split raw.length)))
              (index - split raw.length) 0 (raw.length - split raw.length) =
            auditPath H.nodeHash (H.leafAt raw) (index - split raw.length)
              (split raw.length) (raw.length - split raw.length) :=
          auditPath_congr _ fun i _ => by rw [Nat.zero_add, leafAt_drop]
        have hrootL : H.computeRoot (raw.take (split raw.length)) =
            .ok (mth H.nodeHash (H.leafAt raw) 0 (split raw.length)) := by
          rw [computeRoot_eq H (List.ne_nil_of_length_pos (by omega)), rootOf, htake,
            mth_take H hk]
        have hrootR : H.computeRoot (raw.drop (split raw.length)) =
            .ok (mth H.nodeHash (H.leafAt raw) (split raw.length)
              (raw.length - split raw.length)) := by
          rw [computeRoot_eq H (List.ne_nil_of_length_pos (by omega)), rootOf, hdrop,
            mth_drop H (by omega)]
        rw [inclusionProof_split H h]
        by_cases hik : index < split raw.length
        · rw [if_pos hik, ih _ (by omega) (by omega) rfl, htake, hleft, hrootR,
            auditPath_left _ _ 0 h hik, List.reverse_cons, Nat.zero_add]
          rfl
        · rw [if_neg hik, ih _ (by omega) (by omega) rfl, hdrop, hright, hrootL,
            auditPath_right _ _ 0 h hik, List.reverse_cons, Nat.zero_add]
          rfl
      · match raw, hi, h with
        | [leaf], _, _ =>
            rw [inclusionProof, auditPath_leaf _ _ _ _ (by simp), List.reverse_nil]
        | _ :: _ :: _, _, h => exact absurd h (by simp)

theorem computeInclusionProof_eq {raw : List Bytes} {index : ℕ} (hi : index < raw.length) :
    H.computeInclusionProof index raw =
      .ok (auditPath H.nodeHash (H.leafAt raw) index 0 raw.length).reverse := by
  rw [computeInclusionProof, if_neg (by omega), if_neg (by omega), Int.toNat_natCast,
    inclusionProof_eq H hi]

/-! ## The verifier -/

theorem pathFromRoot_leaf (idx : ℕ) {sz : ℕ} (h : ¬ 2 ≤ sz) : pathFromRoot idx sz = [] := by
  rw [pathFromRoot, dif_neg h]

theorem pathFromRoot_node (idx : ℕ) {sz : ℕ} (h : 2 ≤ sz) :
    pathFromRoot idx sz = ⟨idx, sz, h⟩ ::
      (if idx < split sz then pathFromRoot idx (split sz)
        else pathFromRoot (idx - split sz) (sz - split sz)) := by
  rw [pathFromRoot, dif_pos h]
  simp only [largestPowerOfTwoLessThan_eq]

/-- Both lists read from the root, the loop of `_verifyPath` is a climb. -/
theorem foldr_combine_eq_climb {size index : ℕ} {d : Bytes} {siblings : List Bytes} :
    climb H.nodeHash d index size siblings =
      if (pathFromRoot index size).length = siblings.length then
        some (((pathFromRoot index size).zip siblings).foldr (fun s x => H.combine x s) d)
      else none := by
  induction size using Nat.strong_induction_on generalizing index siblings with
  | _ size ih =>
      by_cases h : 2 ≤ size
      · rw [pathFromRoot_node index h]
        cases siblings with
        | nil => rw [climb_nil _ d index h]; simp
        | cons s rest =>
            by_cases hi : index < split size
            · rw [climb_left _ d s rest h hi, ih _ (split_lt h), if_pos hi]
              simp only [List.length_cons, Nat.add_right_cancel_iff, List.zip_cons_cons,
                List.foldr_cons]
              split
              · simp [combine, hi]
              · rfl
            · rw [climb_right _ d s rest h hi, ih _ (sub_split_lt h), if_neg hi]
              simp only [List.length_cons, Nat.add_right_cancel_iff, List.zip_cons_cons,
                List.foldr_cons]
              split
              · simp [combine, hi]
              · rfl
      · rw [climb_leaf _ d index siblings h, pathFromRoot_leaf index h]
        cases siblings <;> simp

theorem verifyPath_eq (index size : ℕ) (leafHashValue : Bytes) (proof : List Bytes) :
    H.verifyPath index size leafHashValue proof =
      climb H.nodeHash leafHashValue index size proof.reverse := by
  rw [foldr_combine_eq_climb, verifyPath, List.length_reverse, List.length_reverse]
  by_cases hlen : (pathFromRoot index size).length = proof.length
  · rw [if_neg (by simpa using hlen), if_pos hlen]
    have hzip : (pathFromRoot index size).reverse.zip proof =
        ((pathFromRoot index size).zip proof.reverse).reverse := by
      rw [List.zip_eq_zipWith, List.zip_eq_zipWith,
        List.reverse_zipWith (by simpa using hlen), List.reverse_reverse]
    rw [hzip, List.foldl_reverse]
  · rw [if_pos (by simpa using hlen), if_neg hlen]

theorem length_climb {d : Bytes} (hd : d.length = 32) {index size : ℕ}
    {siblings : List Bytes} {root : Bytes}
    (h : climb H.nodeHash d index size siblings = some root) : root.length = 32 := by
  by_cases hs : 2 ≤ size
  · cases siblings with
    | nil => rw [climb_nil _ d index hs] at h; cases h
    | cons s rest =>
        by_cases hi : index < split size
        · rw [climb_left _ d s rest hs hi] at h
          obtain ⟨x, -, rfl⟩ := Option.map_eq_some_iff.1 h
          exact H.length_nodeHash _ _
        · rw [climb_right _ d s rest hs hi] at h
          obtain ⟨x, -, rfl⟩ := Option.map_eq_some_iff.1 h
          exact H.length_nodeHash _ _
  · rw [climb_leaf _ d index siblings hs] at h
    split at h
    · injection h with h
      rw [← h, hd]
    · cases h

/-- What an accepted inclusion proof is: an index in range and a climb to the
expected root. -/
theorem verifyInclusion_iff {index : ℤ} {treeSize : ℕ} {leafHashValue : Bytes}
    {proof : List Bytes} {expectedRoot : Bytes} (hleaf : leafHashValue.length = 32)
    (hroot : expectedRoot.length = 32) :
    H.verifyInclusion index treeSize leafHashValue proof expectedRoot = true ↔
      0 ≤ index ∧ index < treeSize ∧
        climb H.nodeHash leafHashValue index.toNat treeSize proof.reverse =
          some expectedRoot := by
  rw [verifyInclusion, verifyPath_eq]
  by_cases hz : treeSize = 0
  · rw [if_pos hz]
    simp only [Bool.false_eq_true, false_iff]
    omega
  · rw [if_neg hz]
    by_cases hr : index < 0 ∨ index ≥ treeSize
    · rw [if_pos hr]
      simp only [Bool.false_eq_true, false_iff]
      omega
    · rw [if_neg hr, if_neg (by simp [hleaf, hroot])]
      have h₀ : 0 ≤ index := by omega
      have h₁ : index < treeSize := by omega
      cases hc : climb H.nodeHash leafHashValue index.toNat treeSize proof.reverse with
      | none => simp
      | some computedRoot =>
          have hlen := length_climb H hleaf hc
          simp [h₀, h₁, byteDifference_eq_zero_iff hlen hroot]

end Atrib.Hash
