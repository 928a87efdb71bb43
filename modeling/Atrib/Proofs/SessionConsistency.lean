import Atrib.Lib.Consistency
import Atrib.Mcp.SessionCheckpoint
import Atrib.Verify.SessionCheckpoint
import Atrib.Proofs.Inclusion

/-!
# Session consistency proofs are complete and sound

Completeness: below 2^31 the 32-bit operators are halving and parity, so the
verifier's loop is the check of `Lib.Consistency` and the prover's output its
walk, leaf end first. The root the verifier puts in front of the proof is the
one the prover leaves out, both exactly for sizes that are powers of two.

Soundness does not read the sizes at all. Whatever the two shifted places say,
each digest goes to the left of both roots or to the right of the second, so
the first tree hangs in the second with the same left neighbours. Where
SHA-256 does not collide on what was hashed, this makes its leaves the first
leaves of the second tree, for digests of any length in the proof.
-/

namespace Atrib.SessionCheckpoint

open Lib.Merkle

variable (H : Hash)

/-! ## The prover -/

theorem subproof_self (d : List Bytes) (b : Bool) :
    subproof H d.length d b =
      if b then .ok [] else (do let root ← H.computeRoot d; return [root]) := by
  rw [subproof, if_pos rfl]

theorem subproof_left {m : ℕ} {d : List Bytes} (b : Bool) (hlt : m < d.length)
    (h2 : 2 ≤ d.length) (hk : m ≤ split d.length) :
    subproof H m d b = (do
      let proof ← subproof H m (d.take (split d.length)) b
      let root ← H.computeRoot (d.drop (split d.length))
      return proof ++ [root]) := by
  rw [subproof, if_neg (by omega), dif_pos h2]
  simp only [largestPowerOfTwoLessThan_eq h2, if_pos hk]

theorem subproof_right {m : ℕ} {d : List Bytes} (b : Bool) (hlt : m < d.length)
    (h2 : 2 ≤ d.length) (hk : ¬ m ≤ split d.length) :
    subproof H m d b = (do
      let proof ← subproof H (m - split d.length) (d.drop (split d.length)) false
      let root ← H.computeRoot (d.take (split d.length))
      return proof ++ [root]) := by
  rw [subproof, if_neg (by omega), dif_pos h2]
  simp only [largestPowerOfTwoLessThan_eq h2, if_neg hk]

/-- The walk in a list of raw entries. -/
def turnsOf (m : ℕ) (d : List Bytes) : List (Bool × Bytes) :=
  turns H.nodeHash (H.leafAt d) m 0 d.length

/-- The subtree the walk ends in. -/
def lastOf (m : ℕ) (d : List Bytes) : Bytes :=
  lastSubtree H.nodeHash (H.leafAt d) m 0 d.length

theorem turnsOf_take {m k : ℕ} {d : List Bytes} (hpos : 0 < k) (hk : k ≤ d.length) :
    turnsOf H m (d.take k) = turns H.nodeHash (H.leafAt d) m 0 k ∧
      lastOf H m (d.take k) = lastSubtree H.nodeHash (H.leafAt d) m 0 k := by
  have hleaf : ∀ i < k, H.leafAt (d.take k) (0 + i) = H.leafAt d (0 + i) :=
    fun i hi => by rw [Nat.zero_add, H.leafAt_take hi]
  obtain ⟨ht, hs⟩ := turns_congr H.nodeHash (m := m) hleaf
  rw [turnsOf, lastOf, List.length_take_of_le hk]
  exact ⟨ht, hs hpos⟩

theorem turnsOf_drop {m k : ℕ} {d : List Bytes} (hk : k < d.length) :
    turnsOf H m (d.drop k) = turns H.nodeHash (H.leafAt d) m k (d.length - k) ∧
      lastOf H m (d.drop k) = lastSubtree H.nodeHash (H.leafAt d) m k (d.length - k) := by
  have hleaf : ∀ i < d.length - k, H.leafAt (d.drop k) (0 + i) = H.leafAt d (k + i) :=
    fun i _ => by rw [Nat.zero_add, H.leafAt_drop]
  obtain ⟨ht, hs⟩ := turns_congr H.nodeHash (m := m) hleaf
  rw [turnsOf, lastOf, List.length_drop]
  exact ⟨ht, hs (by omega)⟩

theorem computeRoot_take {k : ℕ} {d : List Bytes} (hpos : 0 < k) (hk : k ≤ d.length) :
    H.computeRoot (d.take k) = .ok (mth H.nodeHash (H.leafAt d) 0 k) := by
  have hlen : (d.take k).length = k := List.length_take_of_le hk
  rw [H.computeRoot_eq (List.ne_nil_of_length_pos (by omega)), Hash.rootOf, hlen,
    H.mth_take hpos]

theorem computeRoot_drop {k : ℕ} {d : List Bytes} (hk : k < d.length) :
    H.computeRoot (d.drop k) = .ok (mth H.nodeHash (H.leafAt d) k (d.length - k)) := by
  have hlen := List.length_drop (i := k) (l := d)
  rw [H.computeRoot_eq (List.ne_nil_of_length_pos (by omega)), Hash.rootOf, hlen,
    H.mth_drop (by omega)]

/-- The prover's output is its walk from the end back to the root, and before
it the subtree the walk ends in, unless the caller holds that root already. -/
theorem subproof_eq {d : List Bytes} {m : ℕ} (b : Bool) (hm : 1 ≤ m) (hle : m ≤ d.length) :
    subproof H m d b =
      .ok ((if b && (turnsOf H m d).all (fun t => !t.1) then [] else [lastOf H m d]) ++
        ((turnsOf H m d).map Prod.snd).reverse) := by
  induction hn : d.length using Nat.strong_induction_on generalizing d m b with
  | _ n ih =>
      subst hn
      by_cases heq : m = d.length
      · subst heq
        have hne : d ≠ [] := List.ne_nil_of_length_pos (by omega)
        rw [subproof_self, turnsOf, turns_self, lastOf, lastSubtree_self, H.computeRoot_eq hne]
        cases b <;> rfl
      · have h2 : 2 ≤ d.length := by omega
        have hpos := split_pos d.length
        have hklt := split_lt h2
        have htake := Hash.length_left_half h2
        have hdrop := List.length_drop (i := split d.length) (l := d)
        by_cases hk : m ≤ split d.length
        · have hih := @ih _ (by omega) (d.take (split d.length)) m b hm (by omega) htake
          obtain ⟨ht, hs⟩ := turnsOf_take H (m := m) hpos hklt.le
          rw [subproof_left H b (by omega) h2 hk, hih, ht, hs, computeRoot_drop H hklt,
            turnsOf, lastOf, turns_left _ _ _ hm (by omega) hk,
            lastSubtree_left _ _ _ hm (by omega) hk, List.map_cons, List.reverse_cons,
            ← List.append_assoc, Nat.zero_add]
          rfl
        · have hih := @ih _ (by omega) (d.drop (split d.length)) (m - split d.length) false
            (by omega) (by omega) hdrop
          obtain ⟨ht, hs⟩ := turnsOf_drop H (m := m - split d.length) hklt
          rw [subproof_right H b (by omega) h2 hk, hih, ht, hs,
            computeRoot_take H hpos hklt.le, turnsOf, lastOf,
            turns_right _ _ _ hm (by omega) hk, lastSubtree_right _ _ _ hm (by omega) hk,
            List.map_cons, List.reverse_cons, ← List.append_assoc, Nat.zero_add]
          simp only [List.all_cons, Bool.not_true, Bool.false_and, Bool.and_false]
          rfl

/-! ## The verifier below 2^31 -/

/-- A pair of places as the verifier holds it. -/
def ofPlaces (places : ℕ × ℕ) : ℤ × ℤ := (places.1, places.2)

theorem dropOnes_natCast {fn sn : ℕ} (hfn : fn < 2 ^ 31) (hsn : sn < 2 ^ 31) :
    dropOnes fn sn = some (ofPlaces (Lib.Merkle.dropOnes fn sn)) := by
  induction fn using Nat.strong_induction_on generalizing sn with
  | _ fn ih =>
      rw [dropOnes, bitAnd_one hfn]
      rcases Nat.mod_two_eq_zero_or_one fn with hmod | hmod
      · rw [dif_neg (by omega), Lib.Merkle.dropOnes_even _ hmod, ofPlaces]
      · rw [dif_pos (by omega), dif_neg (by omega), shiftRightOne_natCast hfn,
          shiftRightOne_natCast hsn, ih _ (by omega) (by omega) (by omega),
          Lib.Merkle.dropOnes_odd _ hmod]

theorem dropZeros_natCast {fn sn : ℕ} (hfn : fn < 2 ^ 31) (hsn : sn < 2 ^ 31) :
    dropZeros fn sn = ofPlaces (Lib.Merkle.dropZeros fn sn) := by
  induction fn using Nat.strong_induction_on generalizing sn with
  | _ fn ih =>
      rw [dropZeros, bitAnd_one hfn]
      by_cases h : fn ≠ 0 ∧ fn % 2 = 0
      · rw [dif_pos (by omega), shiftRightOne_natCast hfn, shiftRightOne_natCast hsn,
          ih _ (by omega) (by omega) (by omega), Lib.Merkle.dropZeros_even _ h.1 h.2]
      · rw [dif_neg (by omega), Lib.Merkle.dropZeros, if_neg h, ofPlaces]

/-- The loop's variables, of a state of the check on natural numbers. -/
def FoldState.of (s : Fold Bytes) : FoldState := ⟨s.fn, s.sn, s.fr, s.sr⟩

/-- Places that the 32-bit operators read as they are. -/
def Small (s : Fold Bytes) : Prop := s.fn < 2 ^ 31 ∧ s.sn < 2 ^ 31

theorem dropZeros_le (fn sn : ℕ) :
    (Lib.Merkle.dropZeros fn sn).1 ≤ fn ∧ (Lib.Merkle.dropZeros fn sn).2 ≤ sn := by
  induction fn using Nat.strong_induction_on generalizing sn with
  | _ fn ih =>
      rw [Lib.Merkle.dropZeros]
      by_cases h : fn ≠ 0 ∧ fn % 2 = 0
      · rw [if_pos h]
        obtain ⟨h₁, h₂⟩ := ih (fn / 2) (by omega) (sn / 2)
        omega
      · rw [if_neg h]
        exact ⟨Nat.le_refl _, Nat.le_refl _⟩

theorem dropOnes_le (fn sn : ℕ) :
    (Lib.Merkle.dropOnes fn sn).1 ≤ fn ∧ (Lib.Merkle.dropOnes fn sn).2 ≤ sn := by
  induction fn using Nat.strong_induction_on generalizing sn with
  | _ fn ih =>
      rcases Nat.mod_two_eq_zero_or_one fn with hmod | hmod
      · rw [Lib.Merkle.dropOnes_even _ hmod]
        exact ⟨Nat.le_refl _, Nat.le_refl _⟩
      · rw [Lib.Merkle.dropOnes_odd _ hmod]
        obtain ⟨h₁, h₂⟩ := ih (fn / 2) (by omega) (sn / 2)
        omega

/-- One turn of the loop is one step of the check. -/
theorem foldNode_of {s : Fold Bytes} (hs : Small s) (node : Bytes) :
    foldNode H (FoldState.of s) node = (s.step H.nodeHash node).map FoldState.of ∧
      ∀ s' ∈ s.step H.nodeHash node, Small s' := by
  obtain ⟨hfn, hsn⟩ := hs
  have hz := dropZeros_le s.fn s.sn
  rw [foldNode, FoldState.of]
  simp only [bitAnd_one hfn]
  by_cases hdone : s.sn = 0
  · rw [if_pos (by simp [hdone]), Fold.step_done _ _ hdone]
    exact ⟨rfl, fun s' h => by cases h⟩
  rw [if_neg (by simpa using hdone)]
  rcases Nat.mod_two_eq_zero_or_one s.fn with hmod | hmod
  · by_cases heq : s.fn = s.sn
    · rw [if_pos (by simp [heq]), if_pos (by simp [hmod]), dropZeros_natCast hfn hsn,
        ofPlaces, shiftRightOne_natCast (by omega), shiftRightOne_natCast (by omega),
        Fold.step_last _ _ hdone hmod heq]
      refine ⟨rfl, fun s' h => ?_⟩
      cases h
      exact ⟨by simp only; omega, by simp only; omega⟩
    · rw [if_neg (by simp [hmod, heq]), shiftRightOne_natCast hfn, shiftRightOne_natCast hsn,
        Fold.step_even _ _ hdone hmod heq]
      refine ⟨rfl, fun s' h => ?_⟩
      cases h
      exact ⟨by simp only; omega, by simp only; omega⟩
  · rw [if_pos (by simp [hmod]), if_neg (by simp [hmod])]
    simp only
    rw [shiftRightOne_natCast hfn, shiftRightOne_natCast hsn, Fold.step_odd _ _ hdone hmod]
    refine ⟨rfl, fun s' h => ?_⟩
    cases h
    exact ⟨by simp only; omega, by simp only; omega⟩

/-- The loop over the proof is the check's. -/
theorem foldlM_foldNode (nodes : List Bytes) {s : Fold Bytes} (hs : Small s) :
    nodes.foldlM (foldNode H) (FoldState.of s) =
      (s.steps H.nodeHash nodes).map FoldState.of := by
  induction nodes generalizing s with
  | nil => rfl
  | cons node nodes ih =>
      obtain ⟨hstep, hsmall⟩ := foldNode_of H hs node
      rw [List.foldlM_cons, hstep, Fold.steps_cons]
      cases h : s.step H.nodeHash node with
      | none => rfl
      | some s' => exact ih (hsmall s' h)

/-- The mask test of the source finds the powers of two. -/
theorem bitAnd_pred_eq_zero_iff {m : ℕ} (hm : 1 ≤ m) (hlt : m < 2 ^ 31) :
    bitAnd m (m - 1) = 0 ↔ ∃ l, m = 2 ^ l := by
  have hcast : (m : ℤ) - 1 = ((m - 1 : ℕ) : ℤ) := by omega
  rw [hcast, bitAnd_natCast hlt (by omega), Int.natCast_eq_zero,
    Nat.and_sub_one_eq_zero_iff_isPowerOfTwo (by omega), Nat.isPowerOfTwo]

/-- The root put in front is the one that was left out: the array the
verifier folds is the prover's walk from the subtree it ends in. -/
theorem foldedNodes_subproof {d : List Bytes} {m : ℕ} {proof : List Bytes} (hm : 1 ≤ m)
    (hlt : m < d.length) (hsmall : m < 2 ^ 31) (hproof : subproof H m d true = .ok proof) :
    foldedNodes m (mth H.nodeHash (H.leafAt d) 0 m) proof =
      lastOf H m d :: ((turnsOf H m d).map Prod.snd).reverse := by
  rw [subproof_eq H true hm hlt.le, Bool.true_and] at hproof
  injection hproof with hproof
  have hall : (turnsOf H m d).all (fun t => !t.1) = true ↔ ∃ l, m = 2 ^ l := by
    rw [← turns_all_left_iff H.nodeHash (H.leafAt d) 0 hm hlt, List.all_eq_true]
    simp [turnsOf]
  rw [foldedNodes, ← hproof]
  by_cases hpow : ∃ l, m = 2 ^ l
  · rw [if_pos ((bitAnd_pred_eq_zero_iff hm hsmall).2 hpow), if_pos (hall.2 hpow),
      List.nil_append]
    obtain ⟨l, rfl⟩ := hpow
    rw [lastOf, lastSubtree_of_two_pow H.nodeHash (H.leafAt d) hlt]
  · rw [if_neg (fun h => hpow ((bitAnd_pred_eq_zero_iff hm hsmall).1 h)),
      if_neg (fun h => hpow (hall.1 h)), List.singleton_append]

theorem assertSessionLeaves_ok {recordHashes : List Bytes} (hne : recordHashes ≠ [])
    (hall : ∀ leaf ∈ recordHashes, leaf.length = 32) :
    assertSessionLeaves recordHashes = .ok () := by
  have hfind : recordHashes.find? (fun leaf => leaf.length ≠ 32) = none := by
    rw [List.find?_eq_none]
    intro leaf hleaf
    simp [hall leaf hleaf]
  rw [assertSessionLeaves, if_neg (by simpa using hne), hfind]

theorem computeSessionRoot_eq {recordHashes : List Bytes} (hne : recordHashes ≠ [])
    (hall : ∀ leaf ∈ recordHashes, leaf.length = 32) :
    computeSessionRoot H recordHashes = .ok (sha256Ref (H.rootOf recordHashes)) := by
  rw [computeSessionRoot, assertSessionLeaves_ok hne hall, H.computeRoot_eq hne]
  rfl

theorem computeSessionRoot_ok {recordHashes : List Bytes} {root : String}
    (h : computeSessionRoot H recordHashes = .ok root) :
    recordHashes ≠ [] ∧ root = sha256Ref (H.rootOf recordHashes) := by
  rw [computeSessionRoot] at h
  cases hassert : assertSessionLeaves recordHashes with
  | error message => rw [hassert] at h; cases h
  | ok _ =>
      rw [hassert] at h
      cases hroot : H.computeRoot recordHashes with
      | error message => rw [hroot] at h; cases h
      | ok digest =>
          obtain ⟨hne, rfl⟩ := H.computeRoot_ok hroot
          rw [hroot] at h
          injection h with h
          exact ⟨hne, h.symm⟩

theorem sessionConsistencyProof_eq {recordHashes : List Bytes} {m : ℕ} (hm : 1 ≤ m)
    (hle : m ≤ recordHashes.length) (hall : ∀ leaf ∈ recordHashes, leaf.length = 32) :
    sessionConsistencyProof H m recordHashes = subproof H m recordHashes true := by
  have hne : recordHashes ≠ [] := List.ne_nil_of_length_pos (by omega)
  have hrange : ¬ ((!(m : ℚ).isInt) = true ∨ (m : ℚ) < 1 ∨ (m : ℚ) > recordHashes.length) := by
    have h₁ : (1 : ℚ) ≤ m := by exact_mod_cast hm
    have h₂ : (m : ℚ) ≤ recordHashes.length := by exact_mod_cast hle
    simp [Rat.isInt, not_lt.2 h₁, not_lt.2 h₂]
  rw [sessionConsistencyProof, assertSessionLeaves_ok hne hall]
  show (if _ then _ else _) = _
  rw [if_neg hrange]
  simp

/-- On the references of two digests the verifier gets down to its loop. -/
theorem verifySessionConsistency_sha256Ref {m n : ℕ} {first second : Bytes}
    (hfirst : first.length = 32) (hsecond : second.length = 32) (proof : List Bytes) :
    verifySessionConsistency H ⟨m, n, sha256Ref first, sha256Ref second, proof⟩ =
      verifyDecoded H m n first second proof := by
  rw [verifySessionConsistency]
  simp [isSha256Ref_sha256Ref, hfirst, hsecond, hexDecode_hexEncode, Rat.isInt]

theorem verifyDecoded_subproof {d proof : List Bytes} {m : ℕ} (hm : 1 ≤ m)
    (hlt : m < d.length) (hsmall : d.length < 2 ^ 31)
    (hproof : subproof H m d true = .ok proof) :
    verifyDecoded H m d.length (mth H.nodeHash (H.leafAt d) 0 m) (H.rootOf d) proof =
      some true := by
  have hm' : (m : ℤ) - 1 = ((m - 1 : ℕ) : ℤ) := by omega
  have hn' : (d.length : ℤ) - 1 = ((d.length - 1 : ℕ) : ℤ) := by omega
  have hsteps := Fold.steps_turns H.nodeHash (H.leafAt d) 0 hm hlt
  have hstart : Small (Fold.start m d.length (lastOf H m d)) := by
    have := dropOnes_le (m - 1) (d.length - 1)
    exact ⟨by simp only [Fold.start]; omega, by simp only [Fold.start]; omega⟩
  have hloop := foldlM_foldNode H ((turnsOf H m d).map Prod.snd).reverse hstart
  rw [lastOf, turnsOf, hsteps] at hloop
  rw [verifyDecoded, if_neg (by omega), if_neg (by omega),
    foldedNodes_subproof H hm hlt (by omega) hproof, hm', hn',
    dropOnes_natCast (by omega) (by omega)]
  simp only [Option.bind_eq_bind, Option.bind_some, ofPlaces]
  rw [FoldState.of, Fold.start] at hloop
  rw [lastOf, turnsOf, hloop]
  simp [FoldState.of, Hash.rootOf]

/-- The proof made for a prefix of a session is accepted for the roots of the
prefix and of the session. -/
theorem verify_sessionConsistencyProof {leaves : List Bytes} {m : ℕ} (hm : 1 ≤ m)
    (hle : m ≤ leaves.length) (hsmall : leaves.length < 2 ^ 31)
    (hall : ∀ leaf ∈ leaves, leaf.length = 32) :
    ∃ proof first second, sessionConsistencyProof H m leaves = .ok proof ∧
      computeSessionRoot H (leaves.take m) = .ok first ∧
        computeSessionRoot H leaves = .ok second ∧
          verifySessionConsistency H ⟨m, leaves.length, first, second, proof⟩ = some true := by
  have hlen : (leaves.take m).length = m := List.length_take_of_le hle
  have hne : leaves ≠ [] := List.ne_nil_of_length_pos (by omega)
  have hne' : leaves.take m ≠ [] := List.ne_nil_of_length_pos (by omega)
  have hroot : H.rootOf (leaves.take m) = mth H.nodeHash (H.leafAt leaves) 0 m := by
    rw [Hash.rootOf, hlen, H.mth_take hm]
  refine ⟨_, _, _, (sessionConsistencyProof_eq H hm hle hall).trans (subproof_eq H true hm hle),
    computeSessionRoot_eq H hne' fun leaf h => hall leaf (List.mem_of_mem_take h),
    computeSessionRoot_eq H hne hall, ?_⟩
  rw [verifySessionConsistency_sha256Ref H (H.length_rootOf _) (H.length_rootOf _)]
  by_cases heq : m = leaves.length
  · have htake : leaves.take m = leaves := by rw [heq, List.take_length]
    rw [verifyDecoded, if_pos (by omega), htake, turnsOf, heq, turns_self]
    simp
  · rw [hroot]
    exact verifyDecoded_subproof H hm (by omega) hsmall (subproof_eq H true hm hle)

/-! ## Soundness -/

/-- The inputs one turn of the loop hashes. -/
def foldNodeInputs (s : FoldState) (node : Bytes) : List Bytes :=
  if s.sn = 0 then []
  else if bitAnd s.fn 1 = 1 ∨ s.fn = s.sn then
    [Hash.nodeInput node s.fr, Hash.nodeInput node s.sr]
  else [Hash.nodeInput s.sr node]

/-- The inputs the loop hashes. -/
def foldInputs : List Bytes → FoldState → List Bytes
  | [], _ => []
  | node :: nodes, s =>
      foldNodeInputs s node ++
        match foldNode H s node with
        | none => []
        | some s' => foldInputs nodes s'

/-- The inputs a call of the verifier hashes. -/
def verifierInputs (m n : ℤ) (firstRoot : Bytes) (proof : List Bytes) : List Bytes :=
  match foldedNodes m firstRoot proof with
  | [] => []
  | c₀ :: c =>
      match dropOnes (m - 1) (n - 1) with
      | none => []
      | some (fn, sn) => foldInputs H c ⟨fn, sn, c₀, c₀⟩

/-- What can have been put together of a proof, whatever decided where each
of its digests goes: to the left of both, or to the right of the second. -/
inductive Folded (inputs : List Bytes) (c₀ : Bytes) : Bytes → Bytes → Prop
  | start : Folded inputs c₀ c₀ c₀
  | left {fr sr : Bytes} (node : Bytes) : Folded inputs c₀ fr sr →
      Hash.nodeInput node fr ∈ inputs → Hash.nodeInput node sr ∈ inputs →
      Folded inputs c₀ (H.nodeHash node fr) (H.nodeHash node sr)
  | right {fr sr : Bytes} (node : Bytes) : Folded inputs c₀ fr sr →
      Hash.nodeInput sr node ∈ inputs → Folded inputs c₀ fr (H.nodeHash sr node)

theorem folded_foldNode {inputs : List Bytes} {c₀ : Bytes} {s s' : FoldState} {node : Bytes}
    (hin : foldNodeInputs s node ⊆ inputs) (hs : Folded H inputs c₀ s.fr s.sr)
    (h : foldNode H s node = some s') : Folded H inputs c₀ s'.fr s'.sr := by
  rw [foldNode] at h
  rw [foldNodeInputs] at hin
  by_cases hdone : s.sn = 0
  · rw [if_pos hdone] at h
    cases h
  · rw [if_neg hdone] at h hin
    by_cases hleft : bitAnd s.fn 1 = 1 ∨ s.fn = s.sn
    · rw [if_pos hleft] at h hin
      injection h with h
      subst h
      exact .left node hs (hin (by simp)) (hin (by simp))
    · rw [if_neg hleft] at h hin
      injection h with h
      subst h
      exact .right node hs (hin (by simp))

theorem folded_foldlM {inputs : List Bytes} {c₀ : Bytes} {nodes : List Bytes} :
    ∀ {s s' : FoldState}, foldInputs H nodes s ⊆ inputs → Folded H inputs c₀ s.fr s.sr →
      nodes.foldlM (foldNode H) s = some s' → Folded H inputs c₀ s'.fr s'.sr := by
  induction nodes with
  | nil =>
      intro s s' _ hs h
      injection h with h
      exact h ▸ hs
  | cons node nodes ih =>
      intro s s' hin hs h
      rw [List.foldlM_cons] at h
      cases hnode : foldNode H s node with
      | none => rw [hnode] at h; cases h
      | some mid =>
          rw [hnode] at h
          rw [foldInputs, hnode] at hin
          refine ih (fun x hx => hin (List.mem_append_right _ hx)) ?_ h
          exact folded_foldNode H (fun x hx => hin (List.mem_append_left _ hx)) hs hnode

/-- What is put together is a digest, unless it is the first one given. -/
theorem Folded.length {inputs : List Bytes} {c₀ fr sr : Bytes} (h : Folded H inputs c₀ fr sr) :
    fr = sr ∨ sr.length = 32 := by
  cases h with
  | start => exact Or.inl rfl
  | left => exact Or.inr (H.length_nodeHash _ _)
  | right => exact Or.inr (H.length_nodeHash _ _)

/-- Every input hashed for a range of a tree is among these. -/
structure Hashed (inputs raw : List Bytes) (start size : ℕ) : Prop where
  nodes : H.nodeInputs (H.leafAt raw) start size ⊆ inputs
  leaves : ∀ i < size, Hash.leafInput (raw.getD (start + i) []) ∈ inputs

theorem Hashed.left {inputs raw : List Bytes} {start size : ℕ}
    (h : Hashed H inputs raw start size) (h2 : 2 ≤ size) :
    Hashed H inputs raw start (split size) := by
  have hlt := split_lt h2
  refine ⟨fun x hx => h.nodes ?_, fun i hi => h.leaves i (by omega)⟩
  rw [Hash.nodeInputs] at hx ⊢
  rw [mthPairs_node _ _ _ h2, List.map_cons, List.map_append]
  simp [hx]

theorem Hashed.right {inputs raw : List Bytes} {start size : ℕ}
    (h : Hashed H inputs raw start size) (h2 : 2 ≤ size) :
    Hashed H inputs raw (start + split size) (size - split size) := by
  have hlt := split_lt h2
  refine ⟨fun x hx => h.nodes ?_, fun i hi => ?_⟩
  · rw [Hash.nodeInputs] at hx ⊢
    rw [mthPairs_node _ _ _ h2, List.map_cons, List.map_append]
    simp [hx]
  · have := h.leaves (split size + i) (by omega)
    rwa [← Nat.add_assoc] at this

theorem leafInput_ne_nodeInput (entry left right : Bytes) :
    Hash.leafInput entry ≠ Hash.nodeInput left right := by
  rw [Hash.leafInput, Hash.nodeInput]
  simp

/-- A node whose digest is the root of a range is the topmost node of that
range, which has at least two leaves. -/
theorem nodeInput_of_root {inputs raw : List Bytes} {start size : ℕ} {left right : Bytes}
    (hcf : H.CollisionFree inputs) (hpos : 0 < size) (hraw : Hashed H inputs raw start size)
    (hin : Hash.nodeInput left right ∈ inputs)
    (h : H.nodeHash left right = mth H.nodeHash (H.leafAt raw) start size) :
    2 ≤ size ∧ Hash.nodeInput left right =
      Hash.nodeInput (mth H.nodeHash (H.leafAt raw) start (split size))
        (mth H.nodeHash (H.leafAt raw) (start + split size) (size - split size)) := by
  by_cases h2 : 2 ≤ size
  · rw [mth_node _ _ _ h2] at h
    refine ⟨h2, hcf _ hin _ (hraw.nodes ?_) h⟩
    rw [Hash.nodeInputs, mthPairs_node _ _ _ h2]
    exact List.mem_cons_self
  · rw [mth_leaf _ _ _ h2, Hash.leafAt] at h
    exact absurd (hcf _ hin _ (hraw.leaves 0 hpos) h).symm (leafInput_ne_nodeInput _ _ _)

theorem apart_of_hashed {inputs raw raw' : List Bytes} {start size start' size' : ℕ}
    (hcf : H.CollisionFree inputs) (hraw : Hashed H inputs raw start size)
    (hraw' : Hashed H inputs raw' start' size') :
    Apart H.nodeHash (H.leafAt raw) start size
      (mthPairs H.nodeHash (H.leafAt raw') start' size') := by
  intro i hi p hp h
  exact leafInput_ne_nodeInput _ _ _
    (hcf _ (hraw.leaves i hi) _ (hraw'.nodes (List.mem_map_of_mem hp)) h)

/-- Two ranges with one root are of one size and have the same leaves. -/
theorem leaves_of_root_eq {inputs raw raw' : List Bytes} {start size start' size' : ℕ}
    (hcf : H.CollisionFree inputs) (hpos : 0 < size) (hpos' : 0 < size')
    (hraw : Hashed H inputs raw start size) (hraw' : Hashed H inputs raw' start' size')
    (h : mth H.nodeHash (H.leafAt raw) start size =
      mth H.nodeHash (H.leafAt raw') start' size') :
    size = size' ∧ ∀ i < size, H.leafAt raw (start + i) = H.leafAt raw' (start' + i) := by
  have hsep : Separates H.nodeHash (mthPairs H.nodeHash (H.leafAt raw) start size)
      (mthPairs H.nodeHash (H.leafAt raw') start' size') := by
    refine H.separates_of_collisionFree hcf (fun q hq => ⟨?_, ?_⟩) (fun q hq => ⟨?_, ?_⟩)
    · exact H.length_fst_of_mem_mthPairs (fun i _ => H.length_leafAt raw _) hq
    · exact hraw.nodes (List.mem_map_of_mem hq)
    · exact H.length_fst_of_mem_mthPairs (fun i _ => H.length_leafAt raw' _) hq
    · exact hraw'.nodes (List.mem_map_of_mem hq)
  obtain rfl := mth_size_binding hpos hpos' hsep (apart_of_hashed H hcf hraw hraw')
    (apart_of_hashed H hcf hraw' hraw) h
  exact ⟨rfl, mth_binding hsep h⟩

/-- Of two ranges whose roots were put together of one proof, the first is a
prefix of the second. -/
theorem prefix_of_folded {inputs A B : List Bytes} {c₀ fr sr : Bytes}
    (hcf : H.CollisionFree inputs) (h : Folded H inputs c₀ fr sr) :
    ∀ {a m b n : ℕ}, 0 < m → 0 < n → Hashed H inputs A a m → Hashed H inputs B b n →
      fr = mth H.nodeHash (H.leafAt A) a m → sr = mth H.nodeHash (H.leafAt B) b n →
      m ≤ n ∧ ∀ i < m, H.leafAt A (a + i) = H.leafAt B (b + i) := by
  -- as long as the two are one digest, the ranges below them are one list
  have hsame : ∀ {fr sr : Bytes} {a m b n : ℕ}, fr = sr → 0 < m → 0 < n →
      Hashed H inputs A a m → Hashed H inputs B b n →
      fr = mth H.nodeHash (H.leafAt A) a m → sr = mth H.nodeHash (H.leafAt B) b n →
      m ≤ n ∧ ∀ i < m, H.leafAt A (a + i) = H.leafAt B (b + i) := by
    intro fr sr a m b n heq hm hn hA hB hfr hsr
    obtain ⟨hsize, hleaf⟩ := leaves_of_root_eq H hcf hm hn hA hB (by rw [← hfr, ← hsr, heq])
    exact ⟨hsize.le, hleaf⟩
  induction h with
  | start =>
      intro a m b n hm hn hA hB hfr hsr
      exact hsame rfl hm hn hA hB hfr hsr
  | @left fr sr node hfold hinFr hinSr ih =>
      intro a m b n hm hn hA hB hfr hsr
      by_cases heq : fr = sr
      · exact hsame (by rw [heq]) hm hn hA hB hfr hsr
      · have hlen : sr.length = 32 := hfold.length.resolve_left heq
        obtain ⟨hn2, hB'⟩ := nodeInput_of_root H hcf hn hB hinSr hsr
        obtain ⟨hm2, hA'⟩ := nodeInput_of_root H hcf hm hA hinFr hfr
        have hm' := split_lt hm2
        have hn' := split_lt hn2
        -- the second root's right half has the length of a digest, so the node has too
        have hnode : node.length = 32 := by
          have := congrArg List.length hB'
          simp only [Hash.nodeInput, List.length_cons, List.length_append, hlen,
            H.length_mth fun i _ => H.length_leafAt B _] at this
          omega
        obtain ⟨hleftB, hrightB⟩ := Hash.nodeInput_inj
          (hnode.trans (H.length_mth fun i _ => H.length_leafAt B _).symm) hB'
        obtain ⟨hleftA, hrightA⟩ := Hash.nodeInput_inj
          (hnode.trans (H.length_mth fun i _ => H.length_leafAt A _).symm) hA'
        obtain ⟨hsize, hleft⟩ := leaves_of_root_eq H hcf (split_pos m) (split_pos n)
          (hA.left H hm2) (hB.left H hn2) (hleftA.symm.trans hleftB)
        obtain ⟨hle, hright⟩ := ih (by omega) (by omega) (hA.right H hm2) (hB.right H hn2)
          hrightA hrightB
        refine ⟨by omega, fun i hi => ?_⟩
        by_cases hk : i < split m
        · exact hleft i hk
        · have := hright (i - split m) (by omega)
          rwa [Nat.add_assoc, Nat.add_assoc, Nat.add_sub_cancel' (by omega), ← hsize,
            Nat.add_sub_cancel' (by omega)] at this
  | @right fr sr node hfold hinSr ih =>
      intro a m b n hm hn hA hB hfr hsr
      have hlen : sr.length = 32 := by
        cases hfold.length with
        | inl heq => rw [← heq, hfr, H.length_mth fun i _ => H.length_leafAt A _]
        | inr hlen => exact hlen
      obtain ⟨hn2, hB'⟩ := nodeInput_of_root H hcf hn hB hinSr hsr
      have hn' := split_lt hn2
      obtain ⟨hleftB, -⟩ := Hash.nodeInput_inj
        (hlen.trans (H.length_mth fun i _ => H.length_leafAt B _).symm) hB'
      obtain ⟨hle, hleaf⟩ := ih hm (split_pos n) hA (hB.left H hn2) hfr hleftB
      exact ⟨by omega, hleaf⟩

theorem hashed_rootInputs {inputs raw : List Bytes} (hin : H.rootInputs raw ⊆ inputs) :
    Hashed H inputs raw 0 raw.length := by
  refine ⟨List.Subset.trans (H.nodeInputs_subset_rootInputs raw) hin, fun i hi => hin ?_⟩
  rw [Nat.zero_add, List.getD_eq_getElem _ _ hi]
  exact H.leafInput_mem_rootInputs hi

/-- What the verifier accepts for two roots was put together of the proof. -/
theorem folded_of_verifyDecoded {inputs : List Bytes} {m n : ℤ} {first second : Bytes}
    {proof : List Bytes} (hne : m ≠ n) (hin : verifierInputs H m n first proof ⊆ inputs)
    (h : verifyDecoded H m n first second proof = some true) :
    ∃ c₀, Folded H inputs c₀ first second := by
  rw [verifyDecoded, if_neg hne] at h
  rw [verifierInputs] at hin
  split at h
  · cases h
  · cases hc : foldedNodes m first proof with
    | nil => rw [hc] at h; cases h
    | cons c₀ c =>
        rw [hc] at h hin
        cases hdrop : dropOnes (m - 1) (n - 1) with
        | none => simp [hdrop] at h
        | some places =>
            simp only [hdrop, Option.bind_eq_bind, Option.bind_some] at h hin
            cases hfold : c.foldlM (foldNode H) ⟨places.1, places.2, c₀, c₀⟩ with
            | none => simp [hfold] at h
            | some s =>
                simp [hfold] at h
                obtain ⟨⟨hfr, hsr⟩, -⟩ := h
                subst hfr hsr
                exact ⟨c₀, folded_foldlM H hin .start hfold⟩

/-- An accepted proof shows that the first list is a prefix of the second. -/
theorem prefix_of_verifySessionConsistency {A B : List Bytes} {first second : String}
    {proof : List Bytes} (hA : computeSessionRoot H A = .ok first)
    (hB : computeSessionRoot H B = .ok second)
    (hcf : H.CollisionFree (H.rootInputs A ++ H.rootInputs B ++
      verifierInputs H A.length B.length (H.rootOf A) proof))
    (h : verifySessionConsistency H ⟨A.length, B.length, first, second, proof⟩ = some true) :
    A <+: B := by
  obtain ⟨hneA, rfl⟩ := computeSessionRoot_ok H hA
  obtain ⟨hneB, rfl⟩ := computeSessionRoot_ok H hB
  rw [verifySessionConsistency_sha256Ref H (H.length_rootOf _) (H.length_rootOf _)] at h
  by_cases heq : (A.length : ℤ) = B.length
  · rw [verifyDecoded, if_pos heq] at h
    simp only [Option.some.injEq, Bool.and_eq_true, bytesEqual_iff] at h
    have hAB : A = B := H.rootOf_inj (fun x hx y hy => hcf x (List.mem_append_left _ hx) y
      (List.mem_append_left _ hy)) (by omega) h.2
    exact hAB ▸ List.prefix_rfl
  · obtain ⟨c₀, hfolded⟩ := folded_of_verifyDecoded H heq (List.subset_append_right _ _) h
    have hinA : H.rootInputs A ⊆ H.rootInputs A ++ H.rootInputs B ++
        verifierInputs H A.length B.length (H.rootOf A) proof := fun x hx => by simp [hx]
    have hinB : H.rootInputs B ⊆ H.rootInputs A ++ H.rootInputs B ++
        verifierInputs H A.length B.length (H.rootOf A) proof := fun x hx => by simp [hx]
    obtain ⟨hle, hleaf⟩ := prefix_of_folded H hcf hfolded (List.length_pos_iff.2 hneA)
      (List.length_pos_iff.2 hneB) (hashed_rootInputs H hinA) (hashed_rootInputs H hinB) rfl rfl
    rw [List.prefix_iff_eq_take]
    refine List.ext_getElem (by rw [List.length_take]; omega) fun i hi hi' => ?_
    rw [List.getElem_take]
    have := hleaf i hi
    rw [Nat.zero_add] at this
    exact H.getElem_eq_of_leafAt hcf hinA hinB hi (by omega) this

end Atrib.SessionCheckpoint

/-! ## The two copies -/

namespace Atrib.Verify.SessionCheckpoint

variable (H : Hash)

theorem dropOnes_eq (fn sn : ℤ) : dropOnes fn sn = Atrib.SessionCheckpoint.dropOnes fn sn := by
  induction fn, sn using dropOnes.induct with
  | case1 sn hodd =>
      rw [dropOnes, Atrib.SessionCheckpoint.dropOnes, dif_pos hodd, dif_pos hodd, dif_pos rfl,
        dif_pos rfl]
  | case2 fn sn hodd hone ih =>
      rw [dropOnes, Atrib.SessionCheckpoint.dropOnes, dif_pos hodd, dif_pos hodd, dif_neg hone,
        dif_neg hone, ih]
  | case3 fn sn heven =>
      rw [dropOnes, Atrib.SessionCheckpoint.dropOnes, dif_neg heven, dif_neg heven]

theorem dropZeros_eq (fn sn : ℤ) :
    dropZeros fn sn = Atrib.SessionCheckpoint.dropZeros fn sn := by
  induction fn, sn using dropZeros.induct with
  | case1 fn sn heven ih =>
      rw [dropZeros, Atrib.SessionCheckpoint.dropZeros, dif_pos heven, dif_pos heven, ih]
  | case2 fn sn hstop =>
      rw [dropZeros, Atrib.SessionCheckpoint.dropZeros, dif_neg hstop, dif_neg hstop]

/-- The variables of one copy's loop, as those of the other. -/
def FoldState.toMcp (s : FoldState) : Atrib.SessionCheckpoint.FoldState :=
  ⟨s.fn, s.sn, s.fr, s.sr⟩

theorem foldNode_eq (s : FoldState) (node : Bytes) :
    (foldNode H s node).map FoldState.toMcp =
      Atrib.SessionCheckpoint.foldNode H s.toMcp node := by
  rw [foldNode, Atrib.SessionCheckpoint.foldNode, FoldState.toMcp]
  simp only [dropZeros_eq]
  by_cases hdone : s.sn = 0
  · simp [hdone]
  · by_cases hleft : bitAnd s.fn 1 = 1 ∨ s.fn = s.sn
    · simp only [if_neg hdone, if_pos hleft]
      rfl
    · simp only [if_neg hdone, if_neg hleft]
      rfl

theorem foldlM_eq (nodes : List Bytes) (s : FoldState) :
    (nodes.foldlM (foldNode H) s).map FoldState.toMcp =
      nodes.foldlM (Atrib.SessionCheckpoint.foldNode H) s.toMcp := by
  induction nodes generalizing s with
  | nil => rfl
  | cons node nodes ih =>
      rw [List.foldlM_cons, List.foldlM_cons, ← foldNode_eq]
      cases foldNode H s node with
      | none => rfl
      | some s' => exact ih s'

theorem verifyDecoded_eq (m n : ℤ) (firstRoot secondRoot : Bytes) (proof : List Bytes) :
    verifyDecoded H m n firstRoot secondRoot proof =
      Atrib.SessionCheckpoint.verifyDecoded H m n firstRoot secondRoot proof := by
  rw [verifyDecoded, Atrib.SessionCheckpoint.verifyDecoded]
  by_cases heq : m = n
  · rw [if_pos heq, if_pos heq]
    rfl
  rw [if_neg heq, if_neg heq]
  by_cases hrange : m < 1 ∨ m > n
  · rw [if_pos hrange, if_pos hrange]
  rw [if_neg hrange, if_neg hrange]
  show (match Atrib.SessionCheckpoint.foldedNodes m firstRoot proof with | [] => _ | _ :: _ => _) = _
  cases Atrib.SessionCheckpoint.foldedNodes m firstRoot proof with
  | nil => rfl
  | cons c₀ c =>
      simp only [dropOnes_eq]
      cases Atrib.SessionCheckpoint.dropOnes (m - 1) (n - 1) with
      | none => rfl
      | some places =>
          have hloop := foldlM_eq H c ⟨places.1, places.2, c₀, c₀⟩
          rw [FoldState.toMcp] at hloop
          simp only [Option.bind_eq_bind, Option.bind_some]
          rw [← hloop]
          cases c.foldlM (foldNode H) ⟨places.1, places.2, c₀, c₀⟩ <;> rfl

/-- One copy answers as the other does, also where the answer never comes. -/
theorem verifySessionConsistencyProof_eq (firstTreeSize secondTreeSize : ℚ)
    (firstRoot secondRoot : String) (proof : List Bytes) :
    verifySessionConsistencyProof H
        ⟨firstTreeSize, secondTreeSize, firstRoot, secondRoot, proof⟩ =
      Atrib.SessionCheckpoint.verifySessionConsistency H
        ⟨firstTreeSize, secondTreeSize, firstRoot, secondRoot, proof⟩ := by
  rw [verifySessionConsistencyProof, Atrib.SessionCheckpoint.verifySessionConsistency]
  simp only [verifyDecoded_eq]
  rfl

end Atrib.Verify.SessionCheckpoint

namespace Atrib.SessionCheckpoint

variable (H : Hash)

/-- The verifier accepts the prover's proof for every prefix of every session
below 2^31 leaves; whatever it accepts for the roots of two sessions shows
that the first is a prefix of the second; and its copy answers alike. -/
theorem sessionConsistency_complete_and_sound :
    (∀ (leaves : List Bytes) (m : ℕ), (∀ leaf ∈ leaves, leaf.length = 32) →
      1 ≤ m → m ≤ leaves.length → leaves.length < 2 ^ 31 →
      ∃ proof first second, sessionConsistencyProof H m leaves = .ok proof ∧
        computeSessionRoot H (leaves.take m) = .ok first ∧
          computeSessionRoot H leaves = .ok second ∧
            verifySessionConsistency H ⟨m, leaves.length, first, second, proof⟩ = some true) ∧
    (∀ (A B : List Bytes) (first second : String) (proof : List Bytes),
      computeSessionRoot H A = .ok first → computeSessionRoot H B = .ok second →
      H.CollisionFree (H.rootInputs A ++ H.rootInputs B ++
        verifierInputs H A.length B.length (H.rootOf A) proof) →
      verifySessionConsistency H ⟨A.length, B.length, first, second, proof⟩ = some true →
      A <+: B) ∧
    (∀ (firstTreeSize secondTreeSize : ℚ) (firstRoot secondRoot : String) (proof : List Bytes),
      Verify.SessionCheckpoint.verifySessionConsistencyProof H
          ⟨firstTreeSize, secondTreeSize, firstRoot, secondRoot, proof⟩ =
        verifySessionConsistency H
          ⟨firstTreeSize, secondTreeSize, firstRoot, secondRoot, proof⟩) :=
  ⟨fun _ _ hall hm hle hsmall => verify_sessionConsistencyProof H hm hle hsmall hall,
    fun _ _ _ _ _ hA hB hcf h => prefix_of_verifySessionConsistency H hA hB hcf h,
    Verify.SessionCheckpoint.verifySessionConsistencyProof_eq H⟩

/-- Two leaves, of the first of which a checkpoint was made. -/
def twoLeaves : List Bytes := [List.replicate 32 0x61, List.replicate 32 0x62]

theorem sessionConsistency_complete_and_sound_two :
    (∃ proof first second,
      sessionConsistencyProof Hash.fips180 (1 : ℕ) twoLeaves = .ok proof ∧
        computeSessionRoot Hash.fips180 (twoLeaves.take 1) = .ok first ∧
          computeSessionRoot Hash.fips180 twoLeaves = .ok second ∧
            verifySessionConsistency Hash.fips180 ⟨(1 : ℕ), twoLeaves.length, first, second,
              proof⟩ = some true) ∧
      twoLeaves.take 1 <+: twoLeaves :=
  ⟨(sessionConsistency_complete_and_sound Hash.fips180).1 twoLeaves 1 (by decide) (by decide)
    (by decide) (by decide),
    (sessionConsistency_complete_and_sound Hash.fips180).2.1 (twoLeaves.take 1) twoLeaves
      (sha256Ref (Hash.fips180.rootOf (twoLeaves.take 1)))
      (sha256Ref (Hash.fips180.rootOf twoLeaves))
      [Hash.fips180.leafHash (List.replicate 32 0x62)]
      (computeSessionRoot_eq _ (by decide) (by decide))
      (computeSessionRoot_eq _ (by decide) (by decide)) (by decide +kernel)
      ((verifySessionConsistency_sha256Ref Hash.fips180 (Hash.length_rootOf _ _)
        (Hash.length_rootOf _ _) _).trans (by decide +kernel))⟩

end Atrib.SessionCheckpoint
