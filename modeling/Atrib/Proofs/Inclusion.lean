import Atrib.Proofs.MerkleRefine

/-!
# Inclusion proofs are complete and sound

Completeness is the library's `climb_auditPath` read through the equations of
`MerkleRefine.lean`. Soundness is `climb_binding`, and what is left to do here
is to say which inputs of SHA-256 the argument rests on: the ones the root was
computed from and the ones the verifier hashed on its way up. On 32-byte
operands the node input determines its two halves, so a hash that does not
collide on those inputs does not confuse two pairs.
-/

namespace Atrib.Hash

open Lib.Merkle

variable (H : Hash)

/-- The inputs SHA-256 is applied to while the leaves from `start` on are
combined into a root. -/
def nodeInputs (leaf : ℕ → Bytes) (start size : ℕ) : List Bytes :=
  (mthPairs H.nodeHash leaf start size).map fun p => nodeInput p.1 p.2

/-- The inputs `computeRoot` hashes. -/
def rootInputs (raw : List Bytes) : List Bytes :=
  raw.map leafInput ++ H.nodeInputs (H.leafAt raw) 0 raw.length

/-- The inputs `verifyInclusion` hashes. -/
def verifyInputs (index size : ℕ) (leafHashValue : Bytes) (proof : List Bytes) : List Bytes :=
  (climbPairs H.nodeHash leafHashValue index size proof.reverse).map
    fun p => nodeInput p.1 p.2

theorem nodeInput_inj {left right left' right' : Bytes} (hlen : left.length = left'.length)
    (h : nodeInput left right = nodeInput left' right') : left = left' ∧ right = right' := by
  injection h with _ h
  exact List.append_inj h hlen

/-- A hash that does not collide on the inputs of two lists of pairs tells
the pairs apart, provided their left halves are digests. -/
theorem separates_of_collisionFree {ps qs : List (Bytes × Bytes)} {inputs : List Bytes}
    (hcf : H.CollisionFree inputs)
    (hps : ∀ p ∈ ps, p.1.length = 32 ∧ nodeInput p.1 p.2 ∈ inputs)
    (hqs : ∀ q ∈ qs, q.1.length = 32 ∧ nodeInput q.1 q.2 ∈ inputs) :
    Separates H.nodeHash ps qs := by
  intro p hp q hq h
  obtain ⟨hpl, hpi⟩ := hps p hp
  obtain ⟨hql, hqi⟩ := hqs q hq
  obtain ⟨h₁, h₂⟩ := nodeInput_inj (hpl.trans hql.symm) (hcf _ hpi _ hqi h)
  exact Prod.ext h₁ h₂

theorem length_fst_of_mem_mthPairs {leaf : ℕ → Bytes} {start size : ℕ}
    (hleaf : ∀ i < size, (leaf (start + i)).length = 32) {p : Bytes × Bytes}
    (hp : p ∈ mthPairs H.nodeHash leaf start size) : p.1.length = 32 := by
  induction size using Nat.strong_induction_on generalizing start with
  | _ size ih =>
      by_cases h : 2 ≤ size
      · have hlt := split_lt h
        rw [mthPairs_node _ leaf start h, List.mem_cons, List.mem_append] at hp
        rcases hp with rfl | hp | hp
        · exact length_mth H fun i hi => hleaf i (by omega)
        · exact ih _ hlt (fun i hi => hleaf i (by omega)) hp
        · refine ih _ (sub_split_lt h) (fun i hi => ?_) hp
          rw [Nat.add_assoc]
          exact hleaf _ (by omega)
      · rw [mthPairs, dif_neg h] at hp
        cases hp

theorem length_fst_of_mem_climbPairs {d : Bytes} (hd : d.length = 32) {index size : ℕ}
    {siblings : List Bytes} (hs : ∀ s ∈ siblings, s.length = 32) {p : Bytes × Bytes}
    (hp : p ∈ climbPairs H.nodeHash d index size siblings) : p.1.length = 32 := by
  induction size using Nat.strong_induction_on generalizing index siblings with
  | _ size ih =>
      by_cases h : 2 ≤ size
      · cases siblings with
        | nil => simp [climbPairs] at hp
        | cons s rest =>
            have hrest : ∀ s ∈ rest, s.length = 32 := fun t ht => hs t (List.mem_cons_of_mem _ ht)
            by_cases hi : index < split size
            · rw [climbPairs_left _ d s rest h hi, List.mem_append] at hp
              rcases hp with hp | hp
              · split at hp
                · next x hx =>
                    rw [List.mem_singleton.1 hp]
                    exact length_climb H hd hx
                · cases hp
              · exact ih _ (split_lt h) hrest hp
            · rw [climbPairs_right _ d s rest h hi, List.mem_append] at hp
              rcases hp with hp | hp
              · split at hp
                · rw [List.mem_singleton.1 hp]
                  exact hs s List.mem_cons_self
                · cases hp
              · exact ih _ (sub_split_lt h) hrest hp
      · rw [climbPairs.eq_def, dif_neg h] at hp
        cases hp

/-- Two sequences of digests with one root are the same up to its size. -/
theorem mth_inj {leaf leaf' : ℕ → Bytes} {size : ℕ} {inputs : List Bytes}
    (hcf : H.CollisionFree inputs) (hleaf : ∀ i < size, (leaf i).length = 32)
    (hleaf' : ∀ i < size, (leaf' i).length = 32) (hin : H.nodeInputs leaf 0 size ⊆ inputs)
    (hin' : H.nodeInputs leaf' 0 size ⊆ inputs)
    (h : mth H.nodeHash leaf 0 size = mth H.nodeHash leaf' 0 size) :
    ∀ i < size, leaf i = leaf' i := by
  have hsep : Separates H.nodeHash (mthPairs H.nodeHash leaf 0 size)
      (mthPairs H.nodeHash leaf' 0 size) := by
    refine separates_of_collisionFree H hcf (fun q hq => ⟨?_, ?_⟩) (fun q hq => ⟨?_, ?_⟩)
    · exact length_fst_of_mem_mthPairs H (fun i hi => by rw [Nat.zero_add, hleaf i hi]) hq
    · exact hin (List.mem_map_of_mem hq)
    · exact length_fst_of_mem_mthPairs H (fun i hi => by rw [Nat.zero_add, hleaf' i hi]) hq
    · exact hin' (List.mem_map_of_mem hq)
  intro i hi
  have := mth_binding hsep h i hi
  rwa [Nat.zero_add] at this

theorem leafInput_mem_rootInputs {raw : List Bytes} {i : ℕ} (hi : i < raw.length) :
    leafInput raw[i] ∈ H.rootInputs raw :=
  List.mem_append_left _ (List.mem_map_of_mem (List.getElem_mem hi))

theorem nodeInputs_subset_rootInputs (raw : List Bytes) :
    H.nodeInputs (H.leafAt raw) 0 raw.length ⊆ H.rootInputs raw :=
  List.subset_append_right _ _

/-- Where the leaf digests of two lists agree, so do their entries. -/
theorem getElem_eq_of_leafAt {raw raw' : List Bytes} {inputs : List Bytes}
    (hcf : H.CollisionFree inputs) (hin : H.rootInputs raw ⊆ inputs)
    (hin' : H.rootInputs raw' ⊆ inputs) {i : ℕ} (hi : i < raw.length) (hi' : i < raw'.length)
    (h : H.leafAt raw i = H.leafAt raw' i) : raw[i] = raw'[i] := by
  rw [leafAt_of_lt H hi, leafAt_of_lt H hi'] at h
  have heq := hcf _ (hin (leafInput_mem_rootInputs H hi)) _
    (hin' (leafInput_mem_rootInputs H hi')) h
  injection heq

/-- Two lists of one length and one root are the same list. -/
theorem rootOf_inj {raw raw' : List Bytes}
    (hcf : H.CollisionFree (H.rootInputs raw ++ H.rootInputs raw'))
    (hlen : raw.length = raw'.length) (h : H.rootOf raw = H.rootOf raw') : raw = raw' := by
  have hin := List.subset_append_left (H.rootInputs raw) (H.rootInputs raw')
  have hin' := List.subset_append_right (H.rootInputs raw) (H.rootInputs raw')
  have hnode := nodeInputs_subset_rootInputs H raw'
  rw [← hlen] at hnode
  rw [rootOf, rootOf, ← hlen] at h
  have hleaf := mth_inj H hcf (fun i _ => length_leafAt H raw i)
    (fun i _ => length_leafAt H raw' i) (List.Subset.trans (nodeInputs_subset_rootInputs H raw) hin)
    (List.Subset.trans hnode hin') h
  refine List.ext_getElem hlen fun i hi hi' => ?_
  exact getElem_eq_of_leafAt H hcf hin hin' hi hi' (hleaf i hi)

/-- Every leaf of a non-empty list has a proof the verifier accepts. -/
theorem verifyInclusion_computeInclusionProof {leaves : List Bytes} {i : ℕ}
    (hi : i < leaves.length) :
    ∃ proof root, H.computeInclusionProof i leaves = .ok proof ∧
      H.computeRoot leaves = .ok root ∧
        H.verifyInclusion i leaves.length (H.leafHash leaves[i]) proof root = true := by
  have hne : leaves ≠ [] := List.ne_nil_of_length_pos (by omega)
  refine ⟨_, _, computeInclusionProof_eq H hi, computeRoot_eq H hne, ?_⟩
  rw [verifyInclusion_iff H (H.length_leafHash _) (H.length_rootOf _), List.reverse_reverse,
    Int.toNat_natCast, ← leafAt_of_lt H hi]
  refine ⟨Int.natCast_nonneg i, by omega, ?_⟩
  have hclimb : Lib.Merkle.climb H.nodeHash (H.leafAt leaves (0 + i)) i leaves.length
      (Lib.Merkle.auditPath H.nodeHash (H.leafAt leaves) i 0 leaves.length) = some _ :=
    climb_auditPath H.nodeHash (H.leafAt leaves) hi
  rwa [Nat.zero_add] at hclimb

/-- Nothing but a leaf of the list with its own proof is accepted. -/
theorem eq_of_verifyInclusion {leaves : List Bytes} {i : ℤ} {h : Bytes} {p : List Bytes}
    {root : Bytes} (hh : h.length = 32) (hp : ∀ s ∈ p, s.length = 32)
    (hcf : H.CollisionFree
      (H.rootInputs leaves ++ H.verifyInputs i.toNat leaves.length h p))
    (hroot : H.computeRoot leaves = .ok root)
    (hv : H.verifyInclusion i leaves.length h p root = true) :
    ∃ (j : ℕ) (hj : j < leaves.length), i = j ∧ h = H.leafHash leaves[j] ∧
      H.computeInclusionProof j leaves = .ok p := by
  obtain ⟨-, rfl⟩ := computeRoot_ok H hroot
  obtain ⟨h₀, h₁, hc⟩ := (verifyInclusion_iff H hh (H.length_rootOf _)).1 hv
  have hj : i.toNat < leaves.length := by omega
  have hsep : Separates H.nodeHash
      (climbPairs H.nodeHash h i.toNat leaves.length p.reverse)
      (mthPairs H.nodeHash (H.leafAt leaves) 0 leaves.length) := by
    refine separates_of_collisionFree H hcf (fun q hq => ⟨?_, ?_⟩) (fun q hq => ⟨?_, ?_⟩)
    · exact length_fst_of_mem_climbPairs H hh (by simpa using hp) hq
    · exact List.mem_append_right _ (List.mem_map_of_mem hq)
    · exact length_fst_of_mem_mthPairs H (fun i _ => length_leafAt H leaves _) hq
    · exact List.mem_append_left _ (List.mem_append_right _ (List.mem_map_of_mem hq))
  obtain ⟨hd, hpath⟩ := climb_binding hj hsep hc
  refine ⟨i.toNat, hj, by omega, ?_, ?_⟩
  · rw [hd, Nat.zero_add, leafAt_of_lt H hj]
  · rw [computeInclusionProof_eq H hj, ← hpath, List.reverse_reverse]

/-- The verifier accepts the prover's proof for every leaf, and for a given
root it accepts no other index, no other leaf hash and no other list of
siblings, be it longer, shorter or shifted. -/
theorem verifyInclusion_complete_and_sound (leaves : List Bytes) :
    (∀ (i : ℕ) (hi : i < leaves.length), ∃ proof root,
      H.computeInclusionProof i leaves = .ok proof ∧ H.computeRoot leaves = .ok root ∧
        H.verifyInclusion i leaves.length (H.leafHash leaves[i]) proof root = true) ∧
    (∀ (i : ℤ) (h : Bytes) (p : List Bytes) (root : Bytes), h.length = 32 →
      (∀ s ∈ p, s.length = 32) →
      H.CollisionFree (H.rootInputs leaves ++ H.verifyInputs i.toNat leaves.length h p) →
      H.computeRoot leaves = .ok root →
      H.verifyInclusion i leaves.length h p root = true →
      ∃ (j : ℕ) (hj : j < leaves.length), i = j ∧ h = H.leafHash leaves[j] ∧
        H.computeInclusionProof j leaves = .ok p) :=
  ⟨fun _ hi => verifyInclusion_computeInclusionProof H hi,
    fun _ _ _ _ hh hp hcf hroot hv => eq_of_verifyInclusion H hh hp hcf hroot hv⟩

/-- The second of two leaves, with SHA-256 itself. -/
theorem verifyInclusion_complete_and_sound_pair :
    ∃ (j : ℕ) (hj : j < [[0x61], [0x62]].length), (1 : ℤ) = j ∧
      fips180.leafHash [0x62] = fips180.leafHash [[0x61], [0x62]][j] ∧
        fips180.computeInclusionProof j [[0x61], [0x62]] = .ok [fips180.leafHash [0x61]] :=
  (verifyInclusion_complete_and_sound fips180 [[0x61], [0x62]]).2 1 (fips180.leafHash [0x62])
    [fips180.leafHash [0x61]] (fips180.rootOf [[0x61], [0x62]]) (fips180.length_leafHash _)
    (by simp) (by decide +kernel) (computeRoot_eq fips180 (by simp)) (by decide +kernel)

end Atrib.Hash
