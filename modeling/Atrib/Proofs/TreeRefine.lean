import Atrib.LogNode.Tree
import Atrib.Proofs.MerkleRefine

/-!
# The cached tree is the tree of its entries

`Represents` is the invariant behind the cache: level `l` holds, at place `i`,
the complete subtree of the leaves `i * 2 ^ l` up to `(i + 1) * 2 ^ l`, for
exactly those places whose last leaf exists. An append keeps it because the
carry of `fillLevels` stops at the first even place: the subtrees that end
with the new leaf are the ones the carry passes through, and a level above
its stop has none.

Reading is a second induction. A range is asked for only with a start that
some power of two above its size divides; that is what puts a range of a
power of two on a place of its level, and both halves of a split inherit it.
-/

namespace Atrib.MerkleTree

open Lib.Merkle

variable (H : Hash)

theorem lookup_assign_self (levels : Levels) (level index : ℕ) (hash : Bytes) :
    (levels.assign level index hash).lookup level index = some hash := by
  simp [Levels.lookup, Levels.assign]

theorem lookup_assign_ne (levels : Levels) {level index l i : ℕ} (hash : Bytes)
    (h : ¬ (l = level ∧ i = index)) :
    (levels.assign level index hash).lookup l i = levels.lookup l i := by
  unfold Levels.lookup Levels.assign
  by_cases hl : l = level
  · subst hl
    have hi : i ≠ index := fun hi => h ⟨rfl, hi⟩
    rw [Lib.SparseArray.read_write_self, Option.bind_some,
      Lib.SparseArray.read_write_ne _ _ hi]
    cases levels.read l <;> simp
  · rw [Lib.SparseArray.read_write_ne _ _ hl]

/-- Level `l` holds the complete subtrees of the first `n` leaves. -/
def Cached (levels : Levels) (leaf : ℕ → Bytes) (n : ℕ) : Prop :=
  ∀ l i, levels.lookup l i =
    if (i + 1) * 2 ^ l ≤ n then some (complete H.nodeHash leaf l i) else none

/-- The tree's arrays are those of `raw`. -/
structure Represents (tree : MerkleTree) (raw : List Bytes) : Prop where
  rawEntries : tree.rawEntries = raw
  cached : Cached H tree.levels (H.leafAt raw) raw.length
  leaves : ((tree.levels.read 0).getD []).length = raw.length

/-! ## Filling -/

/-- The loop's invariant: the hash in hand is the complete subtree that ends
with the new leaf at this level, and the levels below are already filled. -/
theorem fillLevels_cached {leaf : ℕ → Bytes} {n : ℕ} :
    ∀ {levelIndex level : ℕ} {levels : Levels} {hash : Bytes},
      (levelIndex + 1) * 2 ^ level = n + 1 →
      hash = complete H.nodeHash leaf level levelIndex →
      (∀ l i, levels.lookup l i =
        if (i + 1) * 2 ^ l ≤ n ∨ (l < level ∧ (i + 1) * 2 ^ l ≤ n + 1) then
          some (complete H.nodeHash leaf l i)
        else none) →
      ∃ levels', fillLevels H levels hash level levelIndex = (levels', .ok ()) ∧
        Cached H levels' leaf (n + 1) := by
  intro levelIndex
  induction levelIndex using Nat.strong_induction_on with
  | _ levelIndex ih =>
      intro level levels hash hend hhash hlev
      have hpow := Nat.two_pow_pos level
      have hnodes : ∀ l i, (levels.assign level levelIndex hash).lookup l i =
          if (i + 1) * 2 ^ l ≤ n ∨ (l < level + 1 ∧ (i + 1) * 2 ^ l ≤ n + 1) then
            some (complete H.nodeHash leaf l i)
          else none := by
        intro l i
        by_cases hli : l = level ∧ i = levelIndex
        · obtain ⟨rfl, rfl⟩ := hli
          rw [lookup_assign_self, if_pos (Or.inr ⟨by omega, by omega⟩), hhash]
        · rw [lookup_assign_ne levels hash hli, hlev l i]
          have hiff : (i + 1) * 2 ^ l ≤ n ∨ (l < level ∧ (i + 1) * 2 ^ l ≤ n + 1) ↔
              (i + 1) * 2 ^ l ≤ n ∨ (l < level + 1 ∧ (i + 1) * 2 ^ l ≤ n + 1) := by
            rcases Nat.lt_trichotomy l level with hl | rfl | hl
            · omega
            · -- on the level itself only the new place ends at the new leaf
              have hne : (i + 1) * 2 ^ l ≠ n + 1 := by
                intro heq
                rw [← hend] at heq
                have := Nat.eq_of_mul_eq_mul_right hpow heq
                exact hli ⟨rfl, by omega⟩
              omega
            · omega
          rw [if_congr hiff rfl rfl]
      rw [fillLevels]
      by_cases heven : levelIndex % 2 = 0
      · rw [if_pos heven]
        refine ⟨_, rfl, fun l i => ?_⟩
        rw [hnodes l i]
        refine if_congr ?_ rfl rfl
        rcases Nat.lt_or_ge level l with hl | hl
        · -- above the stop no subtree ends with the new leaf: its end is odd there
          have hne : (i + 1) * 2 ^ l ≠ n + 1 := by
            intro heq
            obtain ⟨d, rfl⟩ : ∃ d, l = level + 1 + d := ⟨l - (level + 1), by omega⟩
            have hmul : (i + 1) * 2 ^ d * 2 * 2 ^ level = (levelIndex + 1) * 2 ^ level := by
              rw [hend, ← heq]
              ring
            have := Nat.eq_of_mul_eq_mul_right hpow hmul
            omega
          omega
        · omega
      · rw [if_neg heven]
        have hhalf : levelIndex = 2 * (levelIndex / 2) + 1 := by omega
        have hleft : (levels.assign level levelIndex hash).lookup level (levelIndex - 1) =
            some (complete H.nodeHash leaf level (2 * (levelIndex / 2))) := by
          have hle : (levelIndex - 1 + 1) * 2 ^ level ≤ n := by
            have : (levelIndex + 1) * 2 ^ level = levelIndex * 2 ^ level + 2 ^ level := by ring
            rw [show levelIndex - 1 + 1 = levelIndex by omega]
            omega
          rw [hnodes, if_pos (Or.inl hle), show levelIndex - 1 = 2 * (levelIndex / 2) by omega]
        rw [hleft]
        refine ih (levelIndex / 2) (by omega) ?_ ?_ hnodes
        · rw [← hend, Nat.pow_succ]
          conv_rhs => rw [hhalf]
          ring
        · rw [hhash, complete_succ, ← hhalf]

/-- Levels above the leaves are filled without touching the leaf array. -/
theorem fillLevels_leaves :
    ∀ {levelIndex level : ℕ} {levels : Levels} {hash : Bytes}, 0 < level →
      ((fillLevels H levels hash level levelIndex).1).read 0 = levels.read 0 := by
  intro levelIndex
  induction levelIndex using Nat.strong_induction_on with
  | _ levelIndex ih =>
      intro level levels hash hpos
      have hread : (levels.assign level levelIndex hash).read 0 = levels.read 0 := by
        rw [Levels.assign, Lib.SparseArray.read_write_ne _ _ (by omega)]
      rw [fillLevels]
      split
      · exact hread
      · split
        · exact hread
        · rw [ih (levelIndex / 2) (by omega) (by omega), hread]

theorem length_write {α : Type*} (xs : Lib.SparseArray α) (a : α) :
    (xs.write xs.length a).length = xs.length + 1 := by
  simp [Lib.SparseArray.write]

theorem fillLevels_leaf_count (levels : Levels) (hash : Bytes) {n : ℕ}
    (hn : ((levels.read 0).getD []).length = n) :
    (((fillLevels H levels hash 0 n).1.read 0).getD []).length = n + 1 := by
  have hread : (((levels.assign 0 n hash).read 0).getD []).length = n + 1 := by
    rw [Levels.assign, Lib.SparseArray.read_write_self, Option.getD_some, ← hn, length_write]
  rw [fillLevels]
  split
  · exact hread
  · split
    · exact hread
    · rw [fillLevels_leaves H (by omega), hread]

theorem cached_congr {levels : Levels} {leaf leaf' : ℕ → Bytes} {n : ℕ}
    (h : ∀ i < n, leaf i = leaf' i) (hc : Cached H levels leaf n) :
    Cached H levels leaf' n := by
  intro l i
  rw [hc l i]
  by_cases hle : (i + 1) * 2 ^ l ≤ n
  · rw [if_pos hle, if_pos hle, complete_congr H.nodeHash fun j hj => h j (by omega)]
  · rw [if_neg hle, if_neg hle]

/-- One append in memory. -/
theorem appendInMemory_represents {tree : MerkleTree} {raw : List Bytes}
    (h : Represents H tree raw) (entryBytes : Bytes) :
    ∃ levels, appendInMemory H tree entryBytes =
        (⟨raw ++ [entryBytes], levels, tree.file⟩, .ok raw.length) ∧
      Represents H ⟨raw ++ [entryBytes], levels, tree.file⟩ (raw ++ [entryBytes]) := by
  have hcached : Cached H tree.levels (H.leafAt (raw ++ [entryBytes])) raw.length :=
    cached_congr H (fun i hi => (H.leafAt_append hi).symm) h.cached
  have hhash : H.leafHash entryBytes =
      complete H.nodeHash (H.leafAt (raw ++ [entryBytes])) 0 raw.length := by
    simp [complete_zero, Hash.leafAt]
  have hlookup : ∀ l i, tree.levels.lookup l i =
      if (i + 1) * 2 ^ l ≤ raw.length ∨ (l < 0 ∧ (i + 1) * 2 ^ l ≤ raw.length + 1) then
        some (complete H.nodeHash (H.leafAt (raw ++ [entryBytes])) l i)
      else none := by
    intro l i
    rw [hcached l i]
    simp
  have hindex : (raw.length + 1) * 2 ^ 0 = raw.length + 1 := Nat.mul_one _
  obtain ⟨levels, hfill, hnew⟩ := fillLevels_cached H hindex hhash hlookup
  refine ⟨levels, ?_, rfl, ?_, ?_⟩
  · rw [appendInMemory, h.rawEntries]
    simp only [hfill]
    rfl
  · rw [List.length_append, List.length_singleton]
    exact hnew
  · have := fillLevels_leaf_count H tree.levels (H.leafHash entryBytes) h.leaves
    rw [hfill] at this
    rw [List.length_append, List.length_singleton]
    exact this

theorem empty_represents (file : Option Bytes) : Represents H (empty file) [] where
  rawEntries := rfl
  cached := by
    intro l i
    have hpos : 0 < (i + 1) * 2 ^ l := Nat.mul_pos (Nat.succ_pos i) (Nat.two_pow_pos l)
    rw [if_neg (by rw [List.length_nil]; omega)]
    cases l <;> simp [Levels.lookup, empty, Lib.SparseArray.read]
  leaves := rfl

/-! ## Reading -/

/-- Some power of two above the size divides the start. -/
def Aligned (start size : ℕ) : Prop := ∃ l, size ≤ 2 ^ l ∧ 2 ^ l ∣ start

theorem aligned_zero (size : ℕ) : Aligned 0 size :=
  ⟨size, Nat.le_of_lt Nat.lt_two_pow_self, Nat.dvd_zero _⟩

/-- Both halves of a split are aligned, by the split point itself. -/
theorem Aligned.split {start size : ℕ} (h : Aligned start size) (hs : 2 ≤ size) :
    Aligned start (split size) ∧ Aligned (start + split size) (size - split size) := by
  obtain ⟨l, hle, hdvd⟩ := h
  have hlt := split_lt hs
  have hsplit : Lib.Merkle.split size = 2 ^ Nat.log2 (size - 1) := rfl
  have hlog : Nat.log2 (size - 1) ≤ l := by
    by_contra hcon
    have : 2 ^ l < 2 ^ Nat.log2 (size - 1) := Nat.pow_lt_pow_right (by omega) (by omega)
    omega
  have hdvd' : Lib.Merkle.split size ∣ start :=
    hsplit ▸ dvd_trans (Nat.pow_dvd_pow 2 hlog) hdvd
  refine ⟨⟨_, hsplit.le, hsplit ▸ hdvd'⟩, ⟨Nat.log2 (size - 1), ?_, ?_⟩⟩
  · have := le_two_mul_split size
    omega
  · exact hsplit ▸ Nat.dvd_add hdvd' (Nat.dvd_refl _)

theorem Aligned.dvd {start l : ℕ} (h : Aligned start (2 ^ l)) : 2 ^ l ∣ start := by
  obtain ⟨m, hle, hdvd⟩ := h
  have : l ≤ m := (Nat.pow_le_pow_iff_right (by omega)).1 hle
  exact dvd_trans (Nat.pow_dvd_pow 2 this) hdvd

theorem rangeRootFromLevels_eq {levels : Levels} {leaf : ℕ → Bytes} {n : ℕ}
    (hc : Cached H levels leaf n) {size start : ℕ} (hpos : 0 < size)
    (hal : Aligned start size) (hle : start + size ≤ n) :
    rangeRootFromLevels H levels start size = .ok (mth H.nodeHash leaf start size) := by
  induction size using Nat.strong_induction_on generalizing start with
  | _ size ih =>
      rw [rangeRootFromLevels, dif_neg (by omega)]
      by_cases hp : isPowerOfTwo size = true
      · rw [dif_pos hp]
        obtain ⟨l, rfl⟩ := isPowerOfTwo_iff.1 hp
        have hdvd := hal.dvd
        have hstart : start / 2 ^ l * 2 ^ l = start := Nat.div_mul_cancel hdvd
        have hend : (start / 2 ^ l + 1) * 2 ^ l ≤ n := by rw [Nat.add_mul, hstart]; omega
        have hlook := hc l (start / 2 ^ l)
        rw [if_pos hend, complete, hstart] at hlook
        simp only [powerLevel, Nat.log2_two_pow, Nat.mod_eq_zero_of_dvd hdvd, hlook]
        rfl
      · have hs := two_le_of_not_isPowerOfTwo (by omega) hp
        have hlt := split_lt hs
        have hk := split_pos size
        obtain ⟨hall, halr⟩ := hal.split hs
        rw [dif_neg hp]
        simp only [largestPowerOfTwoLessThan_eq]
        rw [ih _ hlt hk hall (by omega), ih _ (sub_split_lt hs) (by omega) halr (by omega),
          mth_node _ _ _ hs]
        rfl

theorem inclusionProofFromLevels_eq {levels : Levels} {leaf : ℕ → Bytes} {n : ℕ}
    (hc : Cached H levels leaf n) {size index start : ℕ} (hi : index < size)
    (hal : Aligned start size) (hle : start + size ≤ n) :
    inclusionProofFromLevels H levels index start size =
      .ok (auditPath H.nodeHash leaf index start size).reverse := by
  induction size using Nat.strong_induction_on generalizing index start with
  | _ size ih =>
      rw [inclusionProofFromLevels]
      by_cases hone : size = 1
      · rw [if_pos hone, auditPath_leaf _ _ _ _ (by omega), List.reverse_nil]
      · have hs : 2 ≤ size := by omega
        have hlt := split_lt hs
        have hk := split_pos size
        obtain ⟨hall, halr⟩ := hal.split hs
        rw [if_neg hone, dif_pos hs]
        simp only [largestPowerOfTwoLessThan_eq]
        by_cases hik : index < split size
        · rw [if_pos hik, ih _ hlt hik hall (by omega),
            rangeRootFromLevels_eq H hc (by omega) halr (by omega),
            auditPath_left _ _ _ hs hik, List.reverse_cons]
          rfl
        · rw [if_neg hik, ih _ (sub_split_lt hs) (by omega) halr (by omega),
            rangeRootFromLevels_eq H hc hk hall (by omega),
            auditPath_right _ _ _ hs hik, List.reverse_cons]
          rfl

section Represents

variable {H} {tree : MerkleTree} {raw : List Bytes}

theorem Represents.size_eq (h : Represents H tree raw) : tree.size = raw.length := by
  rw [size, h.rawEntries]

theorem Represents.root_eq (h : Represents H tree raw) (hne : raw ≠ []) :
    tree.root H = .ok (H.rootOf raw) := by
  have hpos : 0 < raw.length := List.length_pos_of_ne_nil hne
  rw [root, h.rawEntries, if_neg (by omega),
    rangeRootFromLevels_eq H h.cached hpos (aligned_zero _) (by omega), Hash.rootOf]

theorem Represents.inclusionProof_eq (h : Represents H tree raw) {i : ℕ}
    (hi : i < raw.length) :
    tree.inclusionProof H i =
      .ok (auditPath H.nodeHash (H.leafAt raw) i 0 raw.length).reverse := by
  rw [inclusionProof, h.rawEntries, if_neg (by omega), if_neg (by omega), Int.toNat_natCast,
    inclusionProofFromLevels_eq H h.cached hi (aligned_zero _) (by omega)]

theorem Represents.leafHash_eq (h : Represents H tree raw) {i : ℕ} (hi : i < raw.length) :
    tree.leafHash i = .ok (H.leafHash raw[i]) := by
  have hlook := h.cached 0 i
  rw [Nat.pow_zero, Nat.mul_one, if_pos (by omega), complete_zero, Levels.lookup] at hlook
  obtain ⟨leafHashes, hread, hget⟩ := Option.bind_eq_some_iff.1 hlook
  have hlen := h.leaves
  rw [hread, Option.getD_some] at hlen
  rw [leafHash, hread, Option.getD_some]
  simp only [hlen]
  rw [if_neg (by omega), Int.toNat_natCast, hget, H.leafAt_of_lt hi]

theorem Represents.entryBytes_eq (h : Represents H tree raw) {i : ℕ} (hi : i < raw.length) :
    tree.entryBytes i = .ok raw[i] := by
  rw [entryBytes, h.rawEntries, if_neg (by omega), Int.toNat_natCast,
    List.getD_eq_getElem _ _ hi]

end Represents

end Atrib.MerkleTree
