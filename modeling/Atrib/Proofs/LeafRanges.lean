import Atrib.Proofs.TileAddresses
import Atrib.Proofs.TileStability
import Atrib.Proofs.WitnessStore

/-!
# The leaf hashes that a witness fetches

A range of leaf hashes is put together from the tiles that it touches, each
asked for by its path and at the width that the range needs of it. A log that
holds the range answers every one of them, and may grow between two answers.
-/

namespace Atrib.LogNode

open Lib (run)
open MerkleTree (AppendCall Represents appended restored)
open WitnessNode (FetchedLeafRange fetchLeafHashRange fetchTile hashAt map_hashAt_flatten
  length_flatten_hashes tilePath withWidth)

/-! ## Cutting a list into tiles -/

theorem take_append_drop_take {α : Type*} (leaves : List α) (i : ℕ) :
    (leaves.drop (i * 256)).take 256 ++ leaves.drop ((i + 1) * 256) = leaves.drop (i * 256) := by
  rw [Nat.succ_mul, ← List.drop_drop, List.take_append_drop]

theorem flatten_tiles {α : Type*} (leaves : List α) (first count : ℕ)
    (h : leaves.length ≤ (first + count) * 256) :
    ((List.range' first count).map fun i => (leaves.drop (i * 256)).take 256).flatten =
      leaves.drop (first * 256) := by
  induction count generalizing first with
  | zero =>
      rw [Nat.add_zero] at h
      rw [List.range'_zero, List.map_nil, List.flatten_nil, List.drop_eq_nil_of_le h]
  | succ count ih =>
      have hrest := ih (first + 1) (by rwa [Nat.add_assoc, Nat.add_comm 1])
      rw [List.range'_succ, List.map_cons, List.flatten_cons, hrest]
      exact take_append_drop_take leaves first

variable (H : Hash)

/-- What the log answers to a tile's path, if it is a tile. -/
def servedTile (tree : MerkleTree) (tileIndex width : ℕ) : Option Bytes :=
  match tilePath tileIndex width with
  | .error _ => none
  | .ok path =>
      match handleTileRequest H tree ("/v1/tile/0/".toList ++ path) with
      | some (.ok (.binary data _)) => some data
      | _ => none

theorem parseTilePath_level_zero {path : List Char} {address : TileAddress}
    (h : parseTileAddress path = some address) :
    parseTilePath ("/v1/tile/0/".toList ++ path) = some (.ok (.hashes 0 address)) := by
  have hlevel : parseCanonicalDecimal ['0'] = some 0 := by decide +kernel
  rw [parseTilePath]
  simp [List.dropPrefix?, hlevel, h]

section

variable {H} {tree : MerkleTree} {raw : List Bytes}

/-- The items of a tile of level 0 are the leaf hashes at its places. -/
theorem map_item_leaves {address : TileAddress} {width : ℕ}
    (hin : address.start + width ≤ raw.length) :
    (List.range' address.start width).map (TilePath.item H (.hashes 0 address) raw) =
      ((raw.map H.leafHash).drop address.start).take width := by
  refine List.ext_getElem? fun i => ?_
  rw [map_range'_getElem?, List.getElem?_take]
  by_cases hi : i < width
  · have hlt : address.start + i < raw.length := by omega
    rw [if_pos hi, if_pos hi, List.getElem?_drop, List.getElem?_map,
      List.getElem?_eq_getElem hlt, TilePath.item, if_pos rfl, H.leafAt_of_lt hlt]
    rfl
  · rw [if_neg hi, if_neg hi]

/-- A tile is answered at every width that the log has reached. -/
theorem servedTile_eq (h : Represents H tree raw) {tileIndex width : ℕ}
    (hindex : tileIndex ≤ MAX_SAFE_INTEGER) (hpos : 1 ≤ width) (hwidth : width ≤ 256)
    (hin : tileIndex * 256 + width ≤ raw.length) :
    servedTile H tree tileIndex width =
      some (((raw.map H.leafHash).drop (tileIndex * 256)).take width).flatten := by
  have hpartial : IsWidth (if width = 256 then none else some width) := by
    intro w hw
    split at hw
    · cases hw
    · obtain rfl := Option.some.inj hw
      simp only [TILE_SIZE]
      omega
  obtain ⟨groups, hgroups, rfl, hencode⟩ := exists_groups_of_encodeTileIndex hindex
  obtain ⟨address, hparse, haddress, hw, hcanonical⟩ := parseTileAddress_withWidth hgroups.no_dot
    hgroups.path_ne_nil hpartial (indexText_groupPath hgroups) hindex
  have hstart : address.start = Lib.Decimal.value groups.flatten * 256 := by
    rw [TileAddress.start, haddress]
    rfl
  have hne : raw ≠ [] := by
    rintro rfl
    rw [List.length_nil] at hin
    omega
  have hresolve : resolveServedTileWidth
      (min (address.start + TILE_SIZE) raw.length - address.start) address.width
        address.canonical = .ok width := by
    rw [resolve_ok_iff, hw, hstart]
    by_cases hfull : width = 256
    · refine .inr ⟨if_pos hfull, ?_, ?_⟩ <;> simp only [TILE_SIZE, not_and] <;> omega
    · refine .inl ⟨if_neg hfull, ?_⟩
      simp only [TILE_SIZE]
      omega
  have hslice : TilePath.slice H (.hashes 0 address) raw width =
      (((raw.map H.leafHash).drop (Lib.Decimal.value groups.flatten * 256)).take width).flatten := by
    rw [TilePath.slice, ← hstart]
    exact congrArg List.flatten (map_item_leaves (by rw [hstart]; exact hin))
  have hrespond : respond H tree (.hashes 0 address) = .ok (sendBinary
      (((raw.map H.leafHash).drop (Lib.Decimal.value groups.flatten * 256)).take width).flatten
      (width = TILE_SIZE || address.width.isSome)) := by
    rw [respond_eq H h hne]
    simp only [served, TilePath.address, TilePath.items, if_true, hresolve, hslice]
    rw [if_neg (by rw [hstart]; omega)]
  rw [servedTile, tilePath, hencode]
  simp only [Except.map, handleTileRequest, parseTilePath_level_zero hparse, hrespond, sendBinary]

end

/-- A tile that a grown log serves reads back as the leaves the range has in it. -/
theorem fetchTile_eq {tiles : ℕ → ℕ → Option Bytes} {leaves : List Bytes} {toIndex tileIndex : ℕ}
    (hleaves : ∀ leaf ∈ leaves, leaf.length = 32) (hto : leaves.length = toIndex)
    (htile : tiles tileIndex (min 256 (toIndex - tileIndex * 256)) =
      some ((leaves.drop (tileIndex * 256)).take 256).flatten) :
    fetchTile tiles toIndex tileIndex = .ok ((leaves.drop (tileIndex * 256)).take 256) := by
  have hmem : ∀ leaf ∈ (leaves.drop (tileIndex * 256)).take 256, leaf.length = 32 :=
    fun leaf hleaf => hleaves leaf (List.mem_of_mem_drop (List.mem_of_mem_take hleaf))
  have hlength : ((leaves.drop (tileIndex * 256)).take 256).length =
      min 256 (toIndex - tileIndex * 256) := by
    rw [List.length_take, List.length_drop, hto]
  have hread := map_hashAt_flatten hmem []
  rw [List.append_nil, hlength] at hread
  rw [fetchTile]
  simp only [htile, length_flatten_hashes hmem, hlength, ne_eq, not_true_eq_false, if_false, hread]

/-- The leaf hashes of a range, and those of its first tile before it. -/
theorem fetchLeafHashRange_eq {tiles : ℕ → ℕ → Option Bytes} {leaves : List Bytes}
    (hleaves : ∀ leaf ∈ leaves, leaf.length = 32) {fromIndex : ℕ} (hfrom : fromIndex < leaves.length)
    (htiles : ∀ i, i * 256 < leaves.length → tiles i (min 256 (leaves.length - i * 256)) =
      some ((leaves.drop (i * 256)).take 256).flatten) :
    fetchLeafHashRange tiles fromIndex leaves.length = .ok ⟨leaves.drop fromIndex,
      (leaves.take fromIndex).drop (fromIndex / 256 * 256), fromIndex / 256 * 256⟩ := by
  have hmapM := mapM_ok (f := fetchTile tiles leaves.length)
    (g := fun i => (leaves.drop (i * 256)).take 256)
    fun i (hi : i ∈ List.range' (fromIndex / 256)
        ((leaves.length - 1) / 256 - fromIndex / 256 + 1)) => by
      have hi := List.mem_range'_1.1 hi
      have hlt : i * 256 < leaves.length := by omega
      exact fetchTile_eq hleaves rfl (htiles i hlt)
  have hflat := flatten_tiles leaves (fromIndex / 256)
    ((leaves.length - 1) / 256 - fromIndex / 256 + 1) (by omega)
  rw [fetchLeafHashRange, if_neg (by omega)]
  have hsum : fromIndex / 256 * 256 + (fromIndex - fromIndex / 256 * 256) = fromIndex := by omega
  simp only [hmapM, bind, Except.bind, pure, Except.pure, hflat, List.drop_drop, hsum,
    List.drop_take]

/-- From a log that holds the range, whatever it has appended since, a witness
gets the leaf hashes of the range in order, and apart from them those of the
first tile that come before. -/
theorem fetchLeafHashRange_exact (persistPath : Option String) (disk : Option (List Bytes))
    (hdisk : ∀ entries ∈ disk, ∀ e ∈ entries, e.length = ENTRY_SIZE) (tree₀ : MerkleTree)
    (hcreate : MerkleTree.create H persistPath (disk.map List.flatten) = .ok tree₀)
    (calls : List AppendCall) (later : ℕ → List AppendCall) (fromIndex toIndex : ℕ)
    (hfrom : fromIndex ≤ toIndex) (hto : toIndex ≤ (run (MerkleTree.step H) tree₀ calls).size)
    (hsafe : toIndex ≤ MAX_SAFE_INTEGER) :
    fetchLeafHashRange
        (fun i => servedTile H (run (MerkleTree.step H) tree₀ (calls ++ later i)) i)
        fromIndex toIndex =
      .ok ⟨(((restored persistPath disk ++ appended H tree₀ calls).map H.leafHash).take
            toIndex).drop fromIndex,
        if fromIndex = toIndex then []
          else (((restored persistPath disk ++ appended H tree₀ calls).map H.leafHash).take
            fromIndex).drop (fromIndex / 256 * 256),
        if fromIndex = toIndex then fromIndex else fromIndex / 256 * 256⟩ := by
  obtain ⟨hrep, -⟩ := MerkleTree.created_represents H hdisk hcreate
  have hcalls := MerkleTree.run_represents H calls hrep
  rw [hcalls.size_eq] at hto
  generalize hraw : restored persistPath disk ++ appended H tree₀ calls = raw at hcalls hto ⊢
  rcases Nat.eq_or_lt_of_le hfrom with rfl | hlt
  · rw [fetchLeafHashRange, if_pos le_rfl, if_pos rfl, if_pos rfl, if_pos rfl,
      List.drop_eq_nil_of_le (by rw [List.length_take]; exact Nat.min_le_left _ _)]
  · have hlength : ((raw.map H.leafHash).take toIndex).length = toIndex := by
      rw [List.length_take, List.length_map]
      omega
    have hleaves : ∀ leaf ∈ (raw.map H.leafHash).take toIndex, leaf.length = 32 := by
      intro leaf hleaf
      obtain ⟨e, -, rfl⟩ := List.mem_map.1 (List.mem_of_mem_take hleaf)
      exact H.length_sha256 _
    have hfetch := @fetchLeafHashRange_eq
      (fun i => servedTile H (run (MerkleTree.step H) tree₀ (calls ++ later i)) i) _ hleaves
      fromIndex (by rwa [hlength]) fun i hi => by
        rw [hlength] at hi
        have hlater : Represents H (run (MerkleTree.step H) tree₀ (calls ++ later i))
            (raw ++ appended H (run (MerkleTree.step H) tree₀ calls) (later i)) := by
          rw [Lib.run_append]
          exact MerkleTree.run_represents H (later i) hcalls
        have hserved := @servedTile_eq _ _ _ hlater i (min 256 (toIndex - i * 256)) (by omega)
          (by omega) (by omega)
          (by rw [List.length_append]; omega)
        rw [hlength, hserved, List.map_append, List.drop_append_of_le_length
          (by rw [List.length_map]; omega), List.take_append_of_le_length
          (by rw [List.length_drop, List.length_map]; omega), List.drop_take, List.take_take,
          Nat.min_comm 256]
    rw [hlength] at hfetch
    rw [hfetch, if_neg (by omega), if_neg (by omega), List.take_take, Nat.min_eq_left hlt.le]

/-- Leaf 1 of a log of two, fetched while the log takes a third entry. -/
theorem fetchLeafHashRange_exact_two :
    fetchLeafHashRange (fun i => servedTile Hash.fips180
        (run (MerkleTree.step Hash.fips180) (MerkleTree.empty none)
          ([⟨List.replicate ENTRY_SIZE 1, .clean⟩, ⟨List.replicate ENTRY_SIZE 2, .clean⟩] ++
            [⟨List.replicate ENTRY_SIZE 3, .clean⟩])) i) 1 2 =
      .ok ⟨[Hash.fips180.leafHash (List.replicate ENTRY_SIZE 2)],
        [Hash.fips180.leafHash (List.replicate ENTRY_SIZE 1)], 0⟩ := by
  have hleaves : restored none none ++ appended Hash.fips180 (MerkleTree.empty none)
      [⟨List.replicate ENTRY_SIZE 1, .clean⟩, ⟨List.replicate ENTRY_SIZE 2, .clean⟩] =
        [List.replicate ENTRY_SIZE 1, List.replicate ENTRY_SIZE 2] := by decide +kernel
  rw [fetchLeafHashRange_exact Hash.fips180 none none (by simp) (MerkleTree.empty none) rfl
    [⟨List.replicate ENTRY_SIZE 1, .clean⟩, ⟨List.replicate ENTRY_SIZE 2, .clean⟩]
    (fun _ => [⟨List.replicate ENTRY_SIZE 3, .clean⟩]) 1 2 (by decide) (by decide +kernel)
    (by decide), hleaves]
  rfl

end Atrib.LogNode
