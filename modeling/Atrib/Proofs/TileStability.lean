import Atrib.LogNode.Tiles
import Atrib.Proofs.Inclusion
import Atrib.Proofs.TreeRuns

/-!
# Which tiles may be cached for ever

A response is a slice of a sequence of cells: length-prefixed entries, leaf
hashes, or the nodes of a level. `respond_immutable_iff` says when the slice
goes out as immutable, and then stability is a matter of single cells.

Entries and leaf hashes never change. A node of level `l` is the root of the
leaves that exist below its place, so it keeps its value exactly as long as
no new leaf lands there. The rounding in `nodesAtLevel` counts the last node
of a level before its place is full; a tile that ends with such a node is
served as immutable and changes with the next append.
-/

namespace Atrib.LogNode

open Lib.Merkle
open Lib (run)
open MerkleTree (AppendCall Represents appended restored)

variable (H : Hash)

/-! ## Levels by pairing -/

theorem nextLevel_getElem? : ∀ (xs : List Bytes) (j : ℕ),
    (nextLevel H xs)[j]? =
      match xs[2 * j]?, xs[2 * j + 1]? with
      | some left, some right => some (H.nodeHash left right)
      | some last, none => some last
      | none, _ => none
  | [], j => by simp [nextLevel]
  | [last], j => by cases j <;> simp [nextLevel, Nat.mul_succ]
  | left :: right :: rest, j => by
      cases j with
      | zero => simp [nextLevel]
      | succ j =>
          rw [nextLevel, List.getElem?_cons_succ, nextLevel_getElem? rest j,
            show 2 * (j + 1) = 2 * j + 1 + 1 by ring]
          simp only [List.getElem?_cons_succ]

/-- The node at place `j` of level `l` over `n` leaves: the root of the leaves
that exist below it. -/
def levelNode (leaf : ℕ → Bytes) (n l j : ℕ) : Bytes :=
  mth H.nodeHash leaf (j * 2 ^ l) (min (2 ^ l) (n - j * 2 ^ l))

theorem iterate_nextLevel_getElem? {leaf : ℕ → Bytes} {xs : List Bytes} {n : ℕ}
    (hxs : ∀ i, xs[i]? = if i < n then some (leaf i) else none) (l : ℕ) :
    ∀ j, ((nextLevel H)^[l] xs)[j]? =
      if j * 2 ^ l < n then some (levelNode H leaf n l j) else none := by
  induction l with
  | zero =>
      intro j
      rw [Function.iterate_zero, id, hxs, Nat.pow_zero, Nat.mul_one, levelNode]
      by_cases hj : j < n
      · rw [if_pos hj, if_pos hj, Nat.pow_zero, Nat.mul_one, Nat.min_eq_left (by omega), mth_one]
      · rw [if_neg hj, if_neg hj]
  | succ l ih =>
      intro j
      have hpow := Nat.two_pow_pos l
      have hstart : j * 2 ^ (l + 1) = 2 * j * 2 ^ l := by rw [Nat.pow_succ]; ring
      have hnext : (2 * j + 1) * 2 ^ l = 2 * j * 2 ^ l + 2 ^ l := by ring
      rw [Function.iterate_succ_apply', nextLevel_getElem?, ih, ih, hstart]
      by_cases hl : 2 * j * 2 ^ l < n
      · rw [if_pos hl, if_pos hl]
        by_cases hr : (2 * j + 1) * 2 ^ l < n
        · rw [if_pos hr]
          -- both halves exist: the node's range splits at the half
          have hsplit : split (min (2 ^ (l + 1)) (n - 2 * j * 2 ^ l)) = 2 ^ l :=
            split_eq (by rw [Nat.pow_succ]; omega) (Nat.min_le_left _ _)
          have hsub : min (2 ^ (l + 1)) (n - 2 * j * 2 ^ l) - 2 ^ l =
              min (2 ^ l) (n - (2 * j + 1) * 2 ^ l) := by
            rw [Nat.pow_succ]
            omega
          have hleft : min (2 ^ l) (n - 2 * j * 2 ^ l) = 2 ^ l := by omega
          simp only [levelNode]
          have htwo : 2 ≤ min (2 ^ (l + 1)) (n - 2 * j * 2 ^ l) := by
            rw [Nat.pow_succ]
            omega
          rw [hstart, mth_node H.nodeHash leaf _ htwo, hsplit, hsub, hleft, hnext]
        · rw [if_neg hr]
          -- the right half is empty: the left one is carried up
          simp only [levelNode]
          rw [hstart, Nat.min_eq_right (by omega), Nat.min_eq_right (by rw [Nat.pow_succ]; omega)]
      · rw [if_neg hl, if_neg hl]

theorem lt_nodesAtLevel {n level j : ℕ} (hl : level < 1024) :
    j < nodesAtLevel n level ↔ j * 2 ^ level < n := by
  have hpow := Nat.two_pow_pos level
  rw [nodesAtLevel, if_pos hl, Nat.lt_iff_add_one_le, Nat.le_div_iff_mul_le hpow, Nat.add_mul]
  omega

theorem nodesAtLevel_mono {n n' level : ℕ} (h : n ≤ n') :
    nodesAtLevel n level ≤ nodesAtLevel n' level := by
  unfold nodesAtLevel
  split
  · exact Nat.div_le_div_right (by omega)
  · exact Nat.le_refl _

/-! ## What a path names -/

def TileAddress.start (address : TileAddress) : ℕ := address.index * TILE_SIZE

/-- One past the last item of the tile an address names. -/
def TileAddress.stop (address : TileAddress) : ℕ :=
  address.start + address.width.getD TILE_SIZE

theorem TileAddress.start_lt_stop (address : TileAddress) : address.start < address.stop := by
  unfold stop
  cases hw : address.width with
  | none => simp [TILE_SIZE]
  | some w => have := (address.width_lt w hw).1; simp; omega

def TilePath.address : TilePath → TileAddress
  | .entries address => address
  | .hashes _ address => address

/-- How many items the sequence behind a path has when the log has `n`. -/
def TilePath.items (path : TilePath) (n : ℕ) : ℕ :=
  match path with
  | .entries _ => n
  | .hashes level _ => if level = 0 then n else nodesAtLevel n level

/-- Item `j` of the sequence behind a path. -/
def TilePath.item (path : TilePath) (raw : List Bytes) (j : ℕ) : Bytes :=
  match path with
  | .entries _ => lengthPrefixed (raw.getD j [])
  | .hashes level _ =>
      if level = 0 then H.leafAt raw j else levelNode H (H.leafAt raw) raw.length level j

theorem TilePath.items_mono (path : TilePath) {n n' : ℕ} (h : n ≤ n') :
    path.items n ≤ path.items n' := by
  unfold items
  split
  · exact h
  · split
    · exact h
    · exact nodesAtLevel_mono h

/-- The answer over a sequence of `items` items, given its slices. -/
def served (address : TileAddress) (items : ℕ) (slice : ℕ → Bytes) (notFound : String) :
    TileResponse :=
  if address.start ≥ items then .json 404 notFound
  else
    match resolveServedTileWidth (min (address.start + TILE_SIZE) items - address.start)
        address.width address.canonical with
    | .error response => response
    | .ok servedWidth =>
        sendBinary (slice servedWidth) (servedWidth = TILE_SIZE || address.width.isSome)

theorem resolve_ok_iff {available : ℕ} {width : Option ℕ} {canonical : Bool} {w : ℕ} :
    resolveServedTileWidth available width canonical = .ok w ↔
      (width = some w ∧ w ≤ available) ∨
        (width = none ∧ w = available ∧ ¬ (canonical = true ∧ available < TILE_SIZE)) := by
  cases width with
  | some width =>
      rw [resolveServedTileWidth]
      split
      · next h =>
          simp only [reduceCtorEq, Option.some.injEq, false_and, or_false, false_iff, not_and]
          omega
      · next h =>
          simp only [Except.ok.injEq, Option.some.injEq, reduceCtorEq, false_and, or_false]
          omega
  | none =>
      rw [resolveServedTileWidth]
      split
      · next h => simp [h]
      · next h => simp only [Except.ok.injEq, reduceCtorEq, false_and, true_and, h,
          not_false_eq_true, and_true, false_or, eq_comm]

theorem resolve_error {available : ℕ} {width : Option ℕ} {canonical : Bool}
    {response : TileResponse} (h : resolveServedTileWidth available width canonical =
      .error response) : ∃ error, response = .json 404 error := by
  unfold resolveServedTileWidth at h
  split at h <;> split at h <;> cases h <;> exact ⟨_, rfl⟩

/-- Only a full tile or one with a width goes out as immutable, and both only
when all their items exist. -/
theorem served_immutable_iff {address : TileAddress} {items : ℕ} {slice : ℕ → Bytes}
    {notFound : String} {data : Bytes} :
    served address items slice notFound = .binary data immutableCache ↔
      address.stop ≤ items ∧ data = slice (address.width.getD TILE_SIZE) := by
  have hlt := address.start_lt_stop
  unfold served
  by_cases hstart : address.start ≥ items
  · rw [if_pos hstart]
    simp only [reduceCtorEq, false_iff, not_and]
    omega
  · rw [if_neg hstart]
    cases hres : resolveServedTileWidth (min (address.start + TILE_SIZE) items - address.start)
        address.width address.canonical with
    | error response =>
        obtain ⟨error, rfl⟩ := resolve_error hres
        simp only [reduceCtorEq, false_iff, not_and]
        intro hle
        cases hw : address.width with
        | none =>
            rw [TileAddress.stop, hw, Option.getD_none] at hle
            have hok : resolveServedTileWidth (min (address.start + TILE_SIZE) items -
                address.start) none address.canonical = .ok _ :=
              resolve_ok_iff.2 (Or.inr ⟨rfl, rfl, by omega⟩)
            rw [hw, hok] at hres
            cases hres
        | some w =>
            have := address.width_lt w hw
            rw [TileAddress.stop, hw, Option.getD_some] at hle
            have hok : resolveServedTileWidth (min (address.start + TILE_SIZE) items -
                address.start) (some w) address.canonical = .ok w :=
              resolve_ok_iff.2 (Or.inl ⟨rfl, by omega⟩)
            rw [hw, hok] at hres
            cases hres
    | ok w =>
        simp only [sendBinary, TileResponse.binary.injEq]
        rcases resolve_ok_iff.1 hres with ⟨hw, hle⟩ | ⟨hw, hle, -⟩
        · rw [TileAddress.stop, hw]
          simp only [Option.isSome_some, Bool.or_true, if_true, and_true, Option.getD_some]
          constructor
          · rintro rfl
            exact ⟨by omega, rfl⟩
          · exact fun h => h.2.symm
        · rw [TileAddress.stop, hw]
          simp only [Option.isSome_none, Bool.or_false, decide_eq_true_eq, Option.getD_none]
          by_cases hfull : w = TILE_SIZE
          · rw [if_pos hfull, hfull]
            simp only [and_true]
            constructor
            · rintro rfl
              exact ⟨by omega, rfl⟩
            · exact fun h => h.2.symm
          · rw [if_neg hfull]
            simp only [immutableCache, String.reduceEq, and_false, false_iff, not_and]
            omega

/-- The slice of items an answer is made of. -/
def TilePath.slice (path : TilePath) (raw : List Bytes) (w : ℕ) : Bytes :=
  ((List.range' path.address.start w).map (path.item H raw)).flatten

def TilePath.notFound : TilePath → String
  | .entries _ => "entry bundle index out of range"
  | .hashes _ _ => "tile index out of range"

theorem mapM_ok {α β : Type*} {f : α → Except String β} {g : α → β} {xs : List α}
    (h : ∀ a ∈ xs, f a = .ok (g a)) : xs.mapM f = .ok (xs.map g) := by
  induction xs with
  | nil => rfl
  | cons a xs ih =>
      rw [List.mapM_cons, h a List.mem_cons_self,
        ih fun a' ha' => h a' (List.mem_cons_of_mem _ ha')]
      rfl

theorem map_range'_getElem? (f : ℕ → Bytes) (start w i : ℕ) :
    ((List.range' start w).map f)[i]? = if i < w then some (f (start + i)) else none := by
  rw [List.getElem?_map]
  by_cases hi : i < w
  · rw [if_pos hi, List.getElem?_range' hi, Nat.one_mul, Option.map_some]
  · rw [if_neg hi, List.getElem?_eq_none (by rw [List.length_range']; omega), Option.map_none]

theorem drop_take_iterate {level : ℕ} {address : TileAddress} {raw : List Bytes} {w : ℕ}
    (hl : level ≠ 0) (hw : address.start + w ≤ nodesAtLevel raw.length level) :
    (((nextLevel H)^[level] ((List.range' 0 raw.length).map (H.leafAt raw))).drop
        address.start).take w =
      (List.range' address.start w).map (TilePath.item H (.hashes level address) raw) := by
  have hleaves : ∀ i, ((List.range' 0 raw.length).map (H.leafAt raw))[i]? =
      if i < raw.length then some (H.leafAt raw i) else none := by
    intro i
    rw [map_range'_getElem?, Nat.zero_add]
  refine List.ext_getElem? fun i => ?_
  rw [List.getElem?_take, map_range'_getElem?]
  by_cases hi : i < w
  · have hlevel : level < 1024 := by
      by_contra hge
      rw [nodesAtLevel, if_neg hge] at hw
      omega
    have hlt : (address.start + i) * 2 ^ level < raw.length :=
      (lt_nodesAtLevel hlevel).1 (by omega)
    rw [if_pos hi, if_pos hi, List.getElem?_drop, iterate_nextLevel_getElem? H hleaves,
      if_pos hlt, TilePath.item, if_neg hl]
  · rw [if_neg hi, if_neg hi]

theorem served_ok {address : TileAddress} {items : ℕ} {chunks : ℕ → Except String (List Bytes)}
    {slice : ℕ → Bytes} {notFound : String}
    (h : ∀ w, address.start + w ≤ items → ∃ cs, chunks w = .ok cs ∧ slice w = cs.flatten) :
    (if address.start ≥ items then Except.ok (.json 404 notFound)
      else
        match resolveServedTileWidth (min (address.start + TILE_SIZE) items - address.start)
            address.width address.canonical with
        | .error response => .ok response
        | .ok servedWidth => do
            let cs ← chunks servedWidth
            return sendBinary cs.flatten (servedWidth = TILE_SIZE || address.width.isSome)) =
      .ok (served address items slice notFound) := by
  unfold served
  split
  · rfl
  · cases hres : resolveServedTileWidth (min (address.start + TILE_SIZE) items - address.start)
        address.width address.canonical with
    | error response => rfl
    | ok w =>
        obtain ⟨cs, hcs, hslice⟩ := h w (by
          rcases resolve_ok_iff.1 hres with ⟨-, hle⟩ | ⟨-, hle, -⟩ <;> omega)
        simp only [hcs, hslice]
        rfl

/-- Every tile answer of a tree that holds entries is a slice of the items its
path names. -/
theorem respond_eq {tree : MerkleTree} {raw : List Bytes} (h : Represents H tree raw)
    (hne : raw ≠ []) (path : TilePath) :
    respond H tree path = .ok (served path.address (path.items raw.length)
      (path.slice H raw) path.notFound) := by
  have hpos : raw.length ≠ 0 := fun hz => hne (List.eq_nil_of_length_eq_zero hz)
  have hleaf : ∀ {i : ℕ}, i < raw.length → tree.leafHash i = .ok (H.leafAt raw i) := by
    intro i hi
    rw [h.leafHash_eq hi, H.leafAt_of_lt hi]
  cases path with
  | entries address =>
      rw [respond, handleEntryBundle, h.size_eq, if_neg hpos]
      refine served_ok fun w hw => ⟨_, mapM_ok fun i hi => ?_, rfl⟩
      have hi : i < raw.length := by
        have := (List.mem_range'_1.1 hi).2
        exact Nat.lt_of_lt_of_le this hw
      rw [h.entryBytes_eq hi, TilePath.item, List.getD_eq_getElem _ _ hi]
      rfl
  | hashes level address =>
      rw [respond, handleTile, h.size_eq, if_neg hpos]
      by_cases hl : level = 0
      · subst hl
        rw [if_pos rfl]
        refine served_ok fun w hw => ⟨_, mapM_ok fun i hi => ?_, rfl⟩
        exact hleaf (Nat.lt_of_lt_of_le (List.mem_range'_1.1 hi).2 hw)
      · have hleaves : ((List.range' 0 raw.length).mapM fun i => tree.leafHash (i : ℕ)) =
            .ok ((List.range' 0 raw.length).map (H.leafAt raw)) :=
          mapM_ok fun i hi => hleaf (by have := (List.mem_range'_1.1 hi).2; omega)
        have hchunks : ∀ w, address.start + w ≤ nodesAtLevel raw.length level →
            ∃ cs, Except.ok (ε := String) ((((nextLevel H)^[level]
                ((List.range' 0 raw.length).map (H.leafAt raw))).drop address.start).take w) =
                .ok cs ∧ TilePath.slice H (.hashes level address) raw w = cs.flatten :=
          fun w hw => ⟨_, rfl, congrArg List.flatten (drop_take_iterate H hl hw).symm⟩
        rw [if_neg hl, hleaves, TilePath.items, if_neg hl]
        exact served_ok hchunks

theorem TilePath.items_zero (path : TilePath) : path.items 0 = 0 := by
  have hpow : ∀ level, nodesAtLevel 0 level = 0 := by
    intro level
    have := Nat.two_pow_pos level
    rw [nodesAtLevel]
    split
    · exact Nat.div_eq_of_lt (by omega)
    · rfl
  cases path with
  | entries address => rfl
  | hashes level address => rw [items, hpow, ite_self]

/-- When an answer is immutable, and what it then holds. -/
theorem respond_immutable_iff {tree : MerkleTree} {raw : List Bytes} (h : Represents H tree raw)
    (path : TilePath) {data : Bytes} :
    respond H tree path = .ok (.binary data immutableCache) ↔
      path.address.stop ≤ path.items raw.length ∧
        data = path.slice H raw (path.address.width.getD TILE_SIZE) := by
  by_cases hne : raw = []
  · subst hne
    have hempty : respond H tree path = .ok (.json 404 "no entries yet") := by
      cases path <;> simp [respond, handleTile, handleEntryBundle, h.size_eq]
    have hlt := path.address.start_lt_stop
    rw [hempty, List.length_nil, path.items_zero]
    simp only [Except.ok.injEq, reduceCtorEq, false_iff, not_and]
    omega
  · rw [respond_eq H h hne, Except.ok.injEq, served_immutable_iff]

/-! ## Growth -/

/-- Every item of the tile stands below what the next entries can change: the
tile is not the one that ends with the last, incomplete node of its level. -/
def TilePath.Settled (path : TilePath) (size : ℕ) : Prop :=
  match path with
  | .entries _ => True
  | .hashes level address =>
      level = 0 ∨ 2 ^ level ∣ size ∨ address.stop ≠ nodesAtLevel size level

instance (path : TilePath) (size : ℕ) : Decidable (path.Settled size) := by
  cases path <;> (unfold TilePath.Settled; infer_instance)

theorem item_append {path : TilePath} {raw more : List Bytes} (hset : path.Settled raw.length)
    (hstop : path.address.stop ≤ path.items raw.length) {j : ℕ} (hj : j < path.address.stop) :
    path.item H (raw ++ more) j = path.item H raw j := by
  cases path with
  | entries address =>
      have hlt : j < raw.length := Nat.lt_of_lt_of_le hj hstop
      rw [TilePath.item, TilePath.item, List.getD_append _ _ _ _ hlt]
  | hashes level address =>
      rw [TilePath.item, TilePath.item]
      rw [TilePath.items] at hstop
      by_cases hl : level = 0
      · rw [if_pos hl] at hstop
        rw [if_pos hl, if_pos hl, H.leafAt_append (Nat.lt_of_lt_of_le hj hstop)]
      · rw [if_neg hl] at hstop
        rw [if_neg hl, if_neg hl]
        change j < address.stop at hj
        change address.stop ≤ nodesAtLevel raw.length level at hstop
        have hlevel : level < 1024 := by
          by_contra hge
          rw [nodesAtLevel, if_neg hge] at hstop
          omega
        have hpow := Nat.two_pow_pos level
        -- the node's place is full: its end is the start of a node that exists, or the end of all
        have hfull : (j + 1) * 2 ^ level ≤ raw.length := by
          by_cases hnext : j + 1 < nodesAtLevel raw.length level
          · exact Nat.le_of_lt ((lt_nodesAtLevel hlevel).1 hnext)
          · have hlast : j * 2 ^ level < raw.length := (lt_nodesAtLevel hlevel).1 (by omega)
            have hdvd : 2 ^ level ∣ raw.length := by
              rcases hset with h | h | h
              · exact absurd h hl
              · exact h
              · exact absurd (by omega) h
            obtain ⟨q, hq⟩ := hdvd
            rw [hq, Nat.mul_comm] at hlast ⊢
            exact Nat.mul_le_mul_left _ (Nat.lt_of_mul_lt_mul_left hlast)
        have hmul : (j + 1) * 2 ^ level = j * 2 ^ level + 2 ^ level := by ring
        have hlen : raw.length ≤ (raw ++ more).length := by rw [List.length_append]; omega
        rw [levelNode, levelNode, Nat.min_eq_left (by omega), Nat.min_eq_left (by omega)]
        exact mth_congr _ hpow fun i hi => H.leafAt_append (by omega)

theorem slice_append {path : TilePath} {raw more : List Bytes} (hset : path.Settled raw.length)
    (hstop : path.address.stop ≤ path.items raw.length) :
    path.slice H (raw ++ more) (path.address.width.getD TILE_SIZE) =
      path.slice H raw (path.address.width.getD TILE_SIZE) := by
  refine congrArg List.flatten (List.map_congr_left fun j hj => ?_)
  exact item_append H hset hstop (List.mem_range'_1.1 hj).2

/-- An answer that goes out as immutable comes back with the same bytes over
every later tree. -/
def Immutable (tree : MerkleTree) (path : TilePath) : Prop :=
  ∀ data, respond H tree path = .ok (.binary data immutableCache) →
    ∀ later : List AppendCall, (∀ call ∈ later, call.entryBytes.length = ENTRY_SIZE) →
      ∃ cacheControl,
        respond H (run (MerkleTree.step H) tree later) path = .ok (.binary data cacheControl)

theorem immutable_of_settled {tree : MerkleTree} {raw : List Bytes} (h : Represents H tree raw)
    {path : TilePath} (hset : path.Settled raw.length) : Immutable H tree path := by
  intro data hdata later _
  obtain ⟨hstop, rfl⟩ := (respond_immutable_iff H h path).1 hdata
  refine ⟨immutableCache,
    (respond_immutable_iff H (MerkleTree.run_represents H later h) path).2
      ⟨hstop.trans (path.items_mono (by rw [List.length_append]; omega)), ?_⟩⟩
  rw [slice_append H hset hstop]

/-- What is hashed for the last node of a level once `entry` is appended. -/
def edgeInputs (path : TilePath) (raw : List Bytes) (entry : Bytes) : List Bytes :=
  match path with
  | .entries _ => []
  | .hashes level address =>
      H.rootInputs ((raw ++ [entry]).drop ((address.stop - 1) * 2 ^ level))

/-- The last item of a tile whose last node is incomplete, after one append. -/
theorem slice_edge {level : ℕ} {address : TileAddress} {raw : List Bytes} (entry : Bytes)
    (hl : level ≠ 0) (hlast : (address.stop - 1) * 2 ^ level < raw.length)
    (hend : raw.length < address.stop * 2 ^ level) :
    ∃ front, TilePath.slice H (.hashes level address) (raw ++ [entry])
        (address.width.getD TILE_SIZE) =
      front ++ H.rootOf ((raw ++ [entry]).drop ((address.stop - 1) * 2 ^ level)) := by
  have hlt := address.start_lt_stop
  obtain ⟨w, hw⟩ : ∃ w, address.width.getD TILE_SIZE = w + 1 :=
    ⟨address.width.getD TILE_SIZE - 1, by rw [TileAddress.stop] at hlt; omega⟩
  have hstop : address.start + w = address.stop - 1 := by rw [TileAddress.stop, hw]; omega
  refine ⟨((List.range' address.start w).map
    (TilePath.item H (.hashes level address) (raw ++ [entry]))).flatten, ?_⟩
  rw [TilePath.slice, hw, List.range'_1_concat, List.map_append, List.flatten_append]
  congr 1
  have hmul : address.stop * 2 ^ level = (address.stop - 1) * 2 ^ level + 2 ^ level := by
    conv_lhs => rw [show address.stop = address.stop - 1 + 1 by omega]
    ring
  have hlen : (raw ++ [entry]).length = raw.length + 1 := by simp
  change (List.map _ [address.start + w]).flatten = _
  rw [List.map_singleton, List.flatten_singleton, hstop, TilePath.item, if_neg hl, levelNode,
    Nat.min_eq_right (by omega), Hash.rootOf, List.length_drop,
    Hash.mth_drop H (by omega)]

/-- Over a reachable tree, an immutable answer is kept for ever exactly when
its tile does not end with the last, incomplete node of its level. -/
theorem immutable_iff_settled {tree : MerkleTree} {raw : List Bytes} (h : Represents H tree raw)
    (path : TilePath) {x y : Bytes} (hx : x.length = ENTRY_SIZE) (hy : y.length = ENTRY_SIZE)
    (hxy : x ≠ y)
    (hcf : H.CollisionFree (edgeInputs H path raw x ++ edgeInputs H path raw y)) :
    Immutable H tree path ↔ path.Settled raw.length := by
  refine ⟨fun himm => ?_, immutable_of_settled H h⟩
  by_contra hset
  cases path with
  | entries address => exact hset trivial
  | hashes level address =>
      simp only [TilePath.Settled, not_or, not_not] at hset
      obtain ⟨hl, hdvd, hstop⟩ := hset
      have hlt := address.start_lt_stop
      have hlevel : level < 1024 := by
        by_contra hge
        rw [nodesAtLevel, if_neg hge] at hstop
        omega
      have hlast : (address.stop - 1) * 2 ^ level < raw.length :=
        (lt_nodesAtLevel hlevel).1 (by omega)
      have hend : raw.length < address.stop * 2 ^ level := by
        have hle := mt (lt_nodesAtLevel (n := raw.length) hlevel).2
          (by omega : ¬ address.stop < nodesAtLevel raw.length level)
        rcases Nat.lt_or_ge raw.length (address.stop * 2 ^ level) with hlt' | hge
        · exact hlt'
        · exact absurd ⟨address.stop, by rw [Nat.mul_comm]; omega⟩ hdvd
      have hitems : ∀ n, raw.length ≤ n →
          address.stop ≤ TilePath.items (.hashes level address) n := by
        intro n hn
        rw [TilePath.items, if_neg hl, hstop]
        exact nodesAtLevel_mono hn
      -- the bytes served now are also the ones served after either append
      have hgrow : ∀ e : Bytes, e.length = ENTRY_SIZE →
          TilePath.slice H (.hashes level address) raw (address.width.getD TILE_SIZE) =
            TilePath.slice H (.hashes level address) (raw ++ [e])
              (address.width.getD TILE_SIZE) := by
        intro e he
        have hnow := (respond_immutable_iff H h (.hashes level address)).2
          ⟨hitems _ (Nat.le_refl _), rfl⟩
        obtain ⟨cacheControl, hlater⟩ := himm _ hnow [⟨e, .clean⟩] (by simpa using he)
        have hthen := (respond_immutable_iff H (MerkleTree.step_clean H h e)
          (.hashes level address)).2
            ⟨hitems _ (by rw [List.length_append]; omega), rfl⟩
        rw [Lib.run_cons, Lib.run_nil, hthen] at hlater
        injection hlater with hlater
        injection hlater with hlater
        exact hlater.symm
      obtain ⟨frontX, hslX⟩ := slice_edge H x hl hlast hend
      obtain ⟨frontY, hslY⟩ := slice_edge H y hl hlast hend
      have heq := (hgrow x hx).symm.trans (hgrow y hy)
      rw [hslX, hslY] at heq
      have hroot := (List.append_inj' heq (by
        rw [Hash.length_rootOf, Hash.length_rootOf])).2
      have hdrop := H.rootOf_inj hcf (by simp) hroot
      rw [List.drop_append_of_le_length (by omega), List.drop_append_of_le_length (by omega)]
        at hdrop
      have hlastEq := (List.append_inj' hdrop rfl).2
      injection hlastEq with hlastEq
      exact hxy hlastEq

/-- The same for the tree of a process: created on nothing or on a file of
whole entries, and grown by any run of appends. -/
theorem served_immutable_iff_settled (persistPath : Option String)
    (disk : Option (List Bytes))
    (hdisk : ∀ entries ∈ disk, ∀ e ∈ entries, e.length = ENTRY_SIZE) (tree₀ : MerkleTree)
    (hcreate : MerkleTree.create H persistPath (disk.map List.flatten) = .ok tree₀)
    (calls : List AppendCall) (path : TilePath) :
    (path.Settled (run (MerkleTree.step H) tree₀ calls).size →
      Immutable H (run (MerkleTree.step H) tree₀ calls) path) ∧
    ∀ x y : Bytes, x.length = ENTRY_SIZE → y.length = ENTRY_SIZE → x ≠ y →
      H.CollisionFree
        (edgeInputs H path (restored persistPath disk ++ appended H tree₀ calls) x ++
          edgeInputs H path (restored persistPath disk ++ appended H tree₀ calls) y) →
      (Immutable H (run (MerkleTree.step H) tree₀ calls) path ↔
        path.Settled (run (MerkleTree.step H) tree₀ calls).size) := by
  obtain ⟨hrep, -⟩ := MerkleTree.created_represents H hdisk hcreate
  have h := MerkleTree.run_represents H calls hrep
  rw [h.size_eq]
  exact ⟨immutable_of_settled H h,
    fun x y hx hy hxy hcf => immutable_iff_settled H h path hx hy hxy hcf⟩

/-- `/v1/tile/1/000.p/1` -/
def firstPair : TilePath :=
  .hashes 1 ⟨0, some 1, true, by decide, by decide, by decide⟩

/-- Over two entries the pair's node is complete. -/
theorem served_immutable_iff_settled_two :
    Immutable Hash.fips180 (run (MerkleTree.step Hash.fips180) (MerkleTree.empty none)
      [⟨List.replicate ENTRY_SIZE 1, .clean⟩, ⟨List.replicate ENTRY_SIZE 2, .clean⟩]) firstPair :=
  ((served_immutable_iff_settled Hash.fips180 none none (by simp) (MerkleTree.empty none) rfl
    [⟨List.replicate ENTRY_SIZE 1, .clean⟩, ⟨List.replicate ENTRY_SIZE 2, .clean⟩] firstPair).2
    (List.replicate ENTRY_SIZE 1) (List.replicate ENTRY_SIZE 2) rfl rfl (by decide)
    (by decide +kernel)).2 (by decide +kernel)

/-- Over one entry the same tile holds its leaf hash, is served as immutable,
and changes with the second entry. -/
theorem not_immutable_of_single_entry :
    ¬ Immutable Hash.fips180 (run (MerkleTree.step Hash.fips180) (MerkleTree.empty none)
      [⟨List.replicate ENTRY_SIZE 1, .clean⟩]) firstPair := by
  have h := MerkleTree.step_clean Hash.fips180
    (MerkleTree.empty_represents Hash.fips180 none) (List.replicate ENTRY_SIZE 1)
  refine mt (immutable_iff_settled Hash.fips180 h firstPair (x := List.replicate ENTRY_SIZE 1)
    (y := List.replicate ENTRY_SIZE 2) rfl rfl (by decide) ?_).1 ?_
  · decide +kernel
  · decide +kernel

end Atrib.LogNode
