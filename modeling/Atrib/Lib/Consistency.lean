import Atrib.Lib.Merkle

/-!
# Consistency proofs

The proof of RFC 6962 section 2.1.2 that a tree of `size` leaves extends the
tree of its first `m` leaves, and the check of section 2.1.4.2, over any type
of digests. The prover walks down from the root: at every split the digest of
the half it does not enter goes into the proof. The check walks up from the
last complete subtree of the smaller tree, holding the last place of either
tree on the level it is on, and reads its next move off the two places.

That the check undoes the prover's walk is one induction on the size, from
the top split down. It needs to know what the check does with a walk of the
left or the right half when it is given the places of the whole tree instead:
in the left half every level has a right neighbour still to come, and in the
right half both places carry one more leading digit.
-/

namespace Atrib.Lib.Merkle

variable {D : Type*} (node : D → D → D)

/-! ## The prover's walk -/

/-- The turns from the root of a range to the last complete subtree of its
first `m` leaves, with the digest of the half not entered; `true` where the
right half is entered. -/
def turns (leaf : ℕ → D) (m start size : ℕ) : List (Bool × D) :=
  if _ : 1 ≤ m ∧ m < size then
    if m ≤ split size then
      (false, mth node leaf (start + split size) (size - split size)) ::
        turns leaf m start (split size)
    else
      (true, mth node leaf start (split size)) ::
        turns leaf (m - split size) (start + split size) (size - split size)
  else []
termination_by size
decreasing_by
  · exact split_lt (by omega)
  · exact sub_split_lt (by omega)

/-- The digest of the subtree where the walk ends. -/
def lastSubtree (leaf : ℕ → D) (m start size : ℕ) : D :=
  if _ : 1 ≤ m ∧ m < size then
    if m ≤ split size then lastSubtree leaf m start (split size)
    else lastSubtree leaf (m - split size) (start + split size) (size - split size)
  else mth node leaf start size
termination_by size
decreasing_by
  · exact split_lt (by omega)
  · exact sub_split_lt (by omega)

section Turns

variable (leaf : ℕ → D) (start : ℕ) {m size : ℕ}

theorem turns_left (hm : 1 ≤ m) (hlt : m < size) (hk : m ≤ split size) :
    turns node leaf m start size =
      (false, mth node leaf (start + split size) (size - split size)) ::
        turns node leaf m start (split size) := by
  rw [turns, dif_pos ⟨hm, hlt⟩, if_pos hk]

theorem turns_right (hm : 1 ≤ m) (hlt : m < size) (hk : ¬ m ≤ split size) :
    turns node leaf m start size =
      (true, mth node leaf start (split size)) ::
        turns node leaf (m - split size) (start + split size) (size - split size) := by
  rw [turns, dif_pos ⟨hm, hlt⟩, if_neg hk]

theorem turns_stop (h : ¬ (1 ≤ m ∧ m < size)) : turns node leaf m start size = [] := by
  rw [turns, dif_neg h]

@[simp] theorem turns_self : turns node leaf m start m = [] :=
  turns_stop node leaf start (by omega)

theorem lastSubtree_left (hm : 1 ≤ m) (hlt : m < size) (hk : m ≤ split size) :
    lastSubtree node leaf m start size = lastSubtree node leaf m start (split size) := by
  rw [lastSubtree, dif_pos ⟨hm, hlt⟩, if_pos hk]

theorem lastSubtree_right (hm : 1 ≤ m) (hlt : m < size) (hk : ¬ m ≤ split size) :
    lastSubtree node leaf m start size =
      lastSubtree node leaf (m - split size) (start + split size) (size - split size) := by
  rw [lastSubtree, dif_pos ⟨hm, hlt⟩, if_neg hk]

theorem lastSubtree_stop (h : ¬ (1 ≤ m ∧ m < size)) :
    lastSubtree node leaf m start size = mth node leaf start size := by
  rw [lastSubtree, dif_neg h]

@[simp] theorem lastSubtree_self :
    lastSubtree node leaf m start m = mth node leaf start m :=
  lastSubtree_stop node leaf start (by omega)

end Turns

/-- The walk depends on the leaves of its range and on nothing else. -/
theorem turns_congr {leaf leaf' : ℕ → D} :
    ∀ {size m start start' : ℕ}, (∀ i < size, leaf (start + i) = leaf' (start' + i)) →
      turns node leaf m start size = turns node leaf' m start' size ∧
        (0 < size →
          lastSubtree node leaf m start size = lastSubtree node leaf' m start' size) := by
  intro size
  induction size using Nat.strong_induction_on with
  | _ size ih =>
      intro m start start' heq
      by_cases h : 1 ≤ m ∧ m < size
      · obtain ⟨hm, hlt⟩ := h
        have h2 : 2 ≤ size := by omega
        have hpos := split_pos size
        have hklt := split_lt h2
        have hleft : ∀ i < split size, leaf (start + i) = leaf' (start' + i) :=
          fun i hi => heq i (by omega)
        have hright : ∀ i < size - split size,
            leaf (start + split size + i) = leaf' (start' + split size + i) := by
          intro i hi
          have := heq (split size + i) (by omega)
          rwa [← Nat.add_assoc, ← Nat.add_assoc] at this
        by_cases hk : m ≤ split size
        · obtain ⟨ht, hs⟩ := @ih (split size) hklt m start start' hleft
          rw [turns_left node leaf start hm hlt hk, turns_left node leaf' start' hm hlt hk,
            lastSubtree_left node leaf start hm hlt hk,
            lastSubtree_left node leaf' start' hm hlt hk, ht, hs hpos,
            mth_congr node (by omega) hright]
          exact ⟨rfl, fun _ => rfl⟩
        · obtain ⟨ht, hs⟩ := @ih (size - split size) (sub_split_lt h2) (m - split size)
            (start + split size) (start' + split size) hright
          rw [turns_right node leaf start hm hlt hk, turns_right node leaf' start' hm hlt hk,
            lastSubtree_right node leaf start hm hlt hk,
            lastSubtree_right node leaf' start' hm hlt hk, ht, hs (by omega),
            mth_congr node hpos hleft]
          exact ⟨rfl, fun _ => rfl⟩
      · rw [turns_stop node leaf start h, turns_stop node leaf' start' h,
          lastSubtree_stop node leaf start h, lastSubtree_stop node leaf' start' h]
        exact ⟨rfl, fun hpos => mth_congr node hpos heq⟩

/-- Where the larger tree splits past its split point, so does the smaller. -/
theorem mth_split_stable (leaf : ℕ → D) (start : ℕ) {m size : ℕ} (hlt : m < size)
    (hk : ¬ m ≤ split size) :
    mth node leaf start m =
      node (mth node leaf start (split size))
        (mth node leaf (start + split size) (m - split size)) := by
  have hpos := split_pos size
  rw [mth_node node leaf start (by omega), split_stable (by omega) hlt.le]

/-! ## The check -/

/-- The places the check has reached in the two trees and what it has put
together of them. -/
structure Fold (D : Type*) where
  fn : ℕ
  sn : ℕ
  fr : D
  sr : D

/-- Up to the first level on which the place is a right child. -/
def dropZeros (fn sn : ℕ) : ℕ × ℕ :=
  if fn ≠ 0 ∧ fn % 2 = 0 then dropZeros (fn / 2) (sn / 2) else (fn, sn)

/-- Up to the first level on which the place is a left child. -/
def dropOnes (fn sn : ℕ) : ℕ × ℕ :=
  if fn % 2 = 1 then dropOnes (fn / 2) (sn / 2) else (fn, sn)

/-- Take in one digest of the proof. -/
def Fold.step (d : D) (s : Fold D) : Option (Fold D) :=
  if s.sn = 0 then none
  else if s.fn % 2 = 1 ∨ s.fn = s.sn then
    let places := if s.fn % 2 = 0 then dropZeros s.fn s.sn else (s.fn, s.sn)
    some ⟨places.1 / 2, places.2 / 2, node d s.fr, node d s.sr⟩
  else some ⟨s.fn / 2, s.sn / 2, s.fr, node s.sr d⟩

/-- Take in the digests of a proof in turn. -/
def Fold.steps (ds : List D) (s : Fold D) : Option (Fold D) :=
  ds.foldlM (fun s d => s.step node d) s

namespace Fold

@[simp] theorem steps_nil (s : Fold D) : s.steps node [] = some s := rfl

@[simp] theorem steps_cons (d : D) (ds : List D) (s : Fold D) :
    s.steps node (d :: ds) = (s.step node d).bind fun s => s.steps node ds := rfl

theorem steps_concat (ds : List D) (d : D) (s : Fold D) :
    s.steps node (ds ++ [d]) = (s.steps node ds).bind fun s => s.step node d := by
  simp only [steps, List.foldlM_append]
  simp [List.foldlM]

theorem step_done (d : D) {s : Fold D} (h : s.sn = 0) : s.step node d = none := if_pos h

theorem step_odd (d : D) {s : Fold D} (hsn : s.sn ≠ 0) (hfn : s.fn % 2 = 1) :
    s.step node d = some ⟨s.fn / 2, s.sn / 2, node d s.fr, node d s.sr⟩ := by
  rw [step, if_neg hsn, if_pos (Or.inl hfn), if_neg (by omega)]

theorem step_even (d : D) {s : Fold D} (hsn : s.sn ≠ 0) (hfn : s.fn % 2 = 0)
    (hne : s.fn ≠ s.sn) :
    s.step node d = some ⟨s.fn / 2, s.sn / 2, s.fr, node s.sr d⟩ := by
  rw [step, if_neg hsn, if_neg (by omega)]

theorem step_last (d : D) {s : Fold D} (hsn : s.sn ≠ 0) (hfn : s.fn % 2 = 0)
    (heq : s.fn = s.sn) :
    s.step node d = some ⟨(dropZeros s.fn s.sn).1 / 2, (dropZeros s.fn s.sn).2 / 2,
      node d s.fr, node d s.sr⟩ := by
  rw [step, if_neg hsn, if_pos (Or.inr heq), if_pos hfn]

end Fold

/-! ## The left half -/

/-- In a complete tree every level below the root has the place's right
neighbour, in it or beside it, so it makes no difference to the check that
the tree goes on. -/
theorem Fold.steps_left {ds : List D} :
    ∀ {l fn sn : ℕ} {fr sr fr' sr' : D}, fn < 2 ^ l → 2 ^ l ≤ sn → sn < 2 ^ (l + 1) →
      Fold.steps node ds ⟨fn, 2 ^ l - 1, fr, sr⟩ = some ⟨0, 0, fr', sr'⟩ →
      Fold.steps node ds ⟨fn, sn, fr, sr⟩ = some ⟨0, 1, fr', sr'⟩ := by
  induction ds with
  | nil =>
      intro l fn sn fr sr fr' sr' hfn hlo hhi h
      simp only [steps_nil, Option.some.injEq, Fold.mk.injEq] at h ⊢
      obtain ⟨rfl, hsn, rfl, rfl⟩ := h
      have hone : 2 ^ l = 1 := by
        have := Nat.two_pow_pos l
        omega
      rw [Nat.pow_succ] at hhi
      exact ⟨rfl, by omega, rfl, rfl⟩
  | cons d ds ih =>
      intro l fn sn fr sr fr' sr' hfn hlo hhi h
      cases l with
      | zero => rw [steps_cons, step_done node d (by simp)] at h; cases h
      | succ l =>
          have hpos := Nat.two_pow_pos l
          simp only [Nat.pow_succ] at hfn hlo hhi h
          have hhalf : (2 ^ l * 2 - 1) / 2 = 2 ^ l - 1 := by omega
          have hsucc : 2 ^ (l + 1) = 2 ^ l * 2 := Nat.pow_succ 2 l
          rcases Nat.mod_two_eq_zero_or_one fn with hmod | hmod
          · rw [steps_cons, step_even node d (by simp; omega) hmod (by simp; omega),
              Option.bind_some] at h ⊢
            simp only [hhalf] at h ⊢
            exact ih (l := l) (by omega) (by omega) (by omega) h
          · rw [steps_cons, step_odd node d (by simp; omega) hmod, Option.bind_some] at h ⊢
            simp only [hhalf] at h ⊢
            exact ih (l := l) (by omega) (by omega) (by omega) h

theorem dropOnes_odd {fn : ℕ} (sn : ℕ) (h : fn % 2 = 1) :
    dropOnes fn sn = dropOnes (fn / 2) (sn / 2) := by
  rw [dropOnes, if_pos h]

theorem dropOnes_even {fn : ℕ} (sn : ℕ) (h : fn % 2 = 0) : dropOnes fn sn = (fn, sn) := by
  rw [dropOnes, if_neg (by omega)]

/-- The last place of the left half: the check starts at its root. -/
theorem dropOnes_full {l : ℕ} :
    ∀ {sn : ℕ}, 2 ^ l ≤ sn → sn < 2 ^ (l + 1) → dropOnes (2 ^ l - 1) sn = (0, 1) := by
  induction l with
  | zero =>
      intro sn hlo hhi
      rw [dropOnes_even _ (by simp)]
      simp only [Nat.pow_zero, zero_add, Nat.pow_one] at hlo hhi ⊢
      exact Prod.ext rfl (by simp only; omega)
  | succ l ih =>
      intro sn hlo hhi
      have hpos := Nat.two_pow_pos l
      have hsucc : 2 ^ (l + 1) = 2 ^ l * 2 := Nat.pow_succ 2 l
      have hhalf : (2 ^ (l + 1) - 1) / 2 = 2 ^ l - 1 := by omega
      simp only [Nat.pow_succ] at hlo hhi
      rw [dropOnes_odd _ (by omega), hhalf]
      exact ih (by omega) (by omega)

/-- Any other place of the left half: the check starts at one subtree,
whether the tree goes on or not. -/
theorem dropOnes_left {l : ℕ} :
    ∀ {fn sn : ℕ}, fn < 2 ^ l - 1 → 2 ^ l ≤ sn → sn < 2 ^ (l + 1) →
      ∃ k x y, dropOnes fn (2 ^ l - 1) = (x, 2 ^ k - 1) ∧ dropOnes fn sn = (x, y) ∧
        x < 2 ^ k ∧ 2 ^ k ≤ y ∧ y < 2 ^ (k + 1) := by
  induction l with
  | zero =>
      intro fn sn hfn
      simp at hfn
  | succ l ih =>
      intro fn sn hfn hlo hhi
      have hpos := Nat.two_pow_pos l
      have hsucc : 2 ^ (l + 1) = 2 ^ l * 2 := Nat.pow_succ 2 l
      have hhalf : (2 ^ (l + 1) - 1) / 2 = 2 ^ l - 1 := by omega
      rcases Nat.mod_two_eq_zero_or_one fn with hmod | hmod
      · exact ⟨l + 1, fn, sn, dropOnes_even _ hmod, dropOnes_even _ hmod, by omega, hlo, hhi⟩
      · simp only [Nat.pow_succ] at hlo hhi
        rw [dropOnes_odd _ hmod, dropOnes_odd _ hmod, hhalf]
        exact ih (by omega) (by omega) (by omega)

/-! ## The right half -/

theorem dropOnes_right {l : ℕ} :
    ∀ {fn sn : ℕ}, fn < 2 ^ l - 1 → fn ≤ sn → sn < 2 ^ l →
      ∃ k x y, dropOnes fn sn = (x, y) ∧
        dropOnes (2 ^ l + fn) (2 ^ l + sn) = (2 ^ k + x, 2 ^ k + y) ∧ x ≤ y ∧ y < 2 ^ k := by
  induction l with
  | zero =>
      intro fn sn hfn
      simp at hfn
  | succ l ih =>
      intro fn sn hfn hle hhi
      have hsucc : 2 ^ (l + 1) = 2 ^ l * 2 := Nat.pow_succ 2 l
      rcases Nat.mod_two_eq_zero_or_one fn with hmod | hmod
      · exact ⟨l + 1, fn, sn, dropOnes_even _ hmod, dropOnes_even _ (by omega), hle, hhi⟩
      · have hfn' : (2 ^ (l + 1) + fn) / 2 = 2 ^ l + fn / 2 := by omega
        have hsn' : (2 ^ (l + 1) + sn) / 2 = 2 ^ l + sn / 2 := by omega
        have hodd : (2 ^ (l + 1) + fn) % 2 = 1 := by omega
        rw [dropOnes_odd _ hmod, dropOnes_odd _ hodd, hfn', hsn']
        exact ih (by omega) (by omega) (by omega)

theorem dropZeros_even {fn : ℕ} (sn : ℕ) (hne : fn ≠ 0) (h : fn % 2 = 0) :
    dropZeros fn sn = dropZeros (fn / 2) (sn / 2) := by
  rw [dropZeros, if_pos ⟨hne, h⟩]

theorem dropZeros_odd {fn : ℕ} (sn : ℕ) (h : fn % 2 = 1) : dropZeros fn sn = (fn, sn) := by
  rw [dropZeros, if_neg (by omega)]

theorem dropZeros_right {l : ℕ} :
    ∀ {fn sn : ℕ}, fn ≠ 0 → fn ≤ sn → sn < 2 ^ l →
      ∃ k x y, dropZeros fn sn = (x, y) ∧
        dropZeros (2 ^ l + fn) (2 ^ l + sn) = (2 ^ (k + 1) + x, 2 ^ (k + 1) + y) ∧
          x ≤ y ∧ y < 2 ^ (k + 1) := by
  induction l with
  | zero =>
      intro fn sn hne hle hhi
      simp at hhi
      omega
  | succ l ih =>
      intro fn sn hne hle hhi
      have hsucc : 2 ^ (l + 1) = 2 ^ l * 2 := Nat.pow_succ 2 l
      rcases Nat.mod_two_eq_zero_or_one fn with hmod | hmod
      · have hfn' : (2 ^ (l + 1) + fn) / 2 = 2 ^ l + fn / 2 := by omega
        have hsn' : (2 ^ (l + 1) + sn) / 2 = 2 ^ l + sn / 2 := by omega
        have heven : (2 ^ (l + 1) + fn) % 2 = 0 := by omega
        rw [dropZeros_even _ hne hmod, dropZeros_even _ (by omega) heven, hfn', hsn']
        exact ih (by omega) (by omega) (by omega)
      · exact ⟨l, fn, sn, dropZeros_odd _ hmod, dropZeros_odd _ (by omega), hle, hhi⟩

/-- In the right half of a tree both places carry one more leading digit,
which outlasts the walk through it. -/
theorem Fold.steps_right {ds : List D} :
    ∀ {l fn sn : ℕ} {fr sr fr' sr' : D}, fn ≤ sn → sn < 2 ^ l →
      Fold.steps node ds ⟨fn, sn, fr, sr⟩ = some ⟨0, 0, fr', sr'⟩ →
      ∃ k, Fold.steps node ds ⟨2 ^ l + fn, 2 ^ l + sn, fr, sr⟩ =
        some ⟨2 ^ k, 2 ^ k, fr', sr'⟩ := by
  induction ds with
  | nil =>
      intro l fn sn fr sr fr' sr' hle hhi h
      simp only [steps_nil, Option.some.injEq, Fold.mk.injEq] at h ⊢
      obtain ⟨rfl, rfl, rfl, rfl⟩ := h
      exact ⟨l, rfl, rfl, rfl, rfl⟩
  | cons d ds ih =>
      intro l fn sn fr sr fr' sr' hle hhi h
      by_cases hsn : sn = 0
      · rw [steps_cons, step_done node d hsn] at h
        cases h
      cases l with
      | zero => simp at hhi; omega
      | succ l =>
          have hsucc : 2 ^ (l + 1) = 2 ^ l * 2 := Nat.pow_succ 2 l
          have hfn' : (2 ^ (l + 1) + fn) / 2 = 2 ^ l + fn / 2 := by omega
          have hsn' : (2 ^ (l + 1) + sn) / 2 = 2 ^ l + sn / 2 := by omega
          rcases Nat.mod_two_eq_zero_or_one fn with hmod | hmod
          · by_cases heq : fn = sn
            · -- both places are alone on their level, up to one and the same
              obtain ⟨k, x, y, hz, hz', hxy, hy⟩ := dropZeros_right (l := l + 1) (by omega) hle hhi
              have hk : 2 ^ (k + 1) = 2 ^ k * 2 := Nat.pow_succ 2 k
              rw [steps_cons, step_last node d hsn hmod heq, Option.bind_some] at h
              rw [steps_cons, step_last node d (by simp) (by simp only; omega) (by simp [heq]),
                Option.bind_some]
              simp only [hz, hz'] at h ⊢
              have hx' : (2 ^ (k + 1) + x) / 2 = 2 ^ k + x / 2 := by omega
              have hy' : (2 ^ (k + 1) + y) / 2 = 2 ^ k + y / 2 := by omega
              rw [hx', hy']
              exact ih (by omega) (by omega) h
            · rw [steps_cons, step_even node d hsn hmod heq, Option.bind_some] at h
              rw [steps_cons, step_even node d (by simp) (by simp only; omega)
                (by simp only; omega), Option.bind_some]
              simp only [hfn', hsn'] at h ⊢
              exact ih (by omega) (by omega) h
          · rw [steps_cons, step_odd node d hsn hmod, Option.bind_some] at h
            rw [steps_cons, step_odd node d (by simp) (by simp only; omega), Option.bind_some]
            simp only [hfn', hsn'] at h ⊢
            exact ih (by omega) (by omega) h

theorem dropZeros_two_pow (l : ℕ) : dropZeros (2 ^ l) (2 ^ l) = (1, 1) := by
  induction l with
  | zero => exact dropZeros_odd _ rfl
  | succ l ih =>
      have hsucc : 2 ^ (l + 1) = 2 ^ l * 2 := Nat.pow_succ 2 l
      have hhalf : 2 ^ (l + 1) / 2 = 2 ^ l := by omega
      rw [dropZeros_even _ (by simp) (by omega), hhalf, ih]

/-- Out of the right half, the last digest is that of the left one. -/
theorem Fold.step_two_pow (d fr sr : D) (l : ℕ) :
    Fold.step node d ⟨2 ^ l, 2 ^ l, fr, sr⟩ = some ⟨0, 0, node d fr, node d sr⟩ := by
  cases l with
  | zero =>
      rw [step_odd node d (by simp) (by simp)]
      simp
  | succ l =>
      have hsucc : 2 ^ (l + 1) = 2 ^ l * 2 := Nat.pow_succ 2 l
      rw [step_last node d (by simp) (by simp only; omega) rfl]
      simp only [dropZeros_two_pow]

/-- Out of the left half, the last digest is that of the right one. -/
theorem Fold.step_zero_one (d fr sr : D) :
    Fold.step node d ⟨0, 1, fr, sr⟩ = some ⟨0, 0, fr, node sr d⟩ := by
  rw [step_even node d (by simp) (by simp) (by simp)]
  simp

/-! ## Completeness -/

/-- The places of the last leaves, taken up to the last complete subtree of
the smaller tree, where the check starts. -/
def Fold.start (m size : ℕ) (d : D) : Fold D :=
  ⟨(dropOnes (m - 1) (size - 1)).1, (dropOnes (m - 1) (size - 1)).2, d, d⟩

/-- The check, fed the prover's walk from its end back to the root, puts both
roots together and comes out at the root of either tree. -/
theorem Fold.steps_turns (leaf : ℕ → D) :
    ∀ {size m : ℕ} (start : ℕ), 1 ≤ m → m < size →
      (Fold.start m size (lastSubtree node leaf m start size)).steps node
          ((turns node leaf m start size).map Prod.snd).reverse =
        some ⟨0, 0, mth node leaf start m, mth node leaf start size⟩ := by
  intro size
  induction size using Nat.strong_induction_on with
  | _ size ih =>
      intro m start hm hlt
      have h2 : 2 ≤ size := by omega
      have hpos := split_pos size
      have hklt := split_lt h2
      have hk2 := le_two_mul_split size
      obtain ⟨l, hl⟩ : ∃ l, split size = 2 ^ l := ⟨_, rfl⟩
      have hsucc : 2 ^ (l + 1) = 2 ^ l * 2 := Nat.pow_succ 2 l
      rw [hl] at hpos hklt hk2
      by_cases hk : m ≤ split size
      · rw [turns_left node leaf start hm hlt hk, lastSubtree_left node leaf start hm hlt hk,
          List.map_cons, List.reverse_cons, steps_concat, mth_node node leaf start h2]
        by_cases hmk : m = split size
        · -- the walk ends in the left half
          rw [← hmk, turns_self, lastSubtree_self, List.map_nil, List.reverse_nil, steps_nil,
            Option.bind_some, Fold.start, hmk, hl,
            dropOnes_full (l := l) (by omega) (by omega), step_zero_one]
        · rw [hl] at hk hmk
          obtain ⟨k, x, y, hleft, hwhole, hx, hy, hy'⟩ :=
            dropOnes_left (show m - 1 < 2 ^ l - 1 by omega) (show 2 ^ l ≤ size - 1 by omega)
              (by omega)
          have hih := ih (split size) (by omega) start hm (by omega)
          rw [Fold.start, hl, hleft] at hih
          rw [Fold.start, hwhole, hl, steps_left node hx hy hy' hih, Option.bind_some,
            step_zero_one]
      · have hmk : ¬ m ≤ 2 ^ l := hl ▸ hk
        rw [turns_right node leaf start hm hlt hk, lastSubtree_right node leaf start hm hlt hk,
          List.map_cons, List.reverse_cons, steps_concat, mth_node node leaf start h2,
          mth_split_stable node leaf start hlt hk]
        obtain ⟨k, x, y, hright, hwhole, hxy, hy⟩ :=
          dropOnes_right (show m - 2 ^ l - 1 < 2 ^ l - 1 by omega)
            (show m - 2 ^ l - 1 ≤ size - 2 ^ l - 1 by omega) (by omega)
        have hm' : 2 ^ l + (m - 2 ^ l - 1) = m - 1 := by omega
        have hs' : 2 ^ l + (size - 2 ^ l - 1) = size - 1 := by omega
        rw [hm', hs'] at hwhole
        have hih := @ih (size - split size) (by omega) (m - split size) (start + split size)
          (by omega) (by omega)
        rw [Fold.start, hl, hright] at hih
        obtain ⟨j, hj⟩ := steps_right node hxy hy hih
        rw [Fold.start, hwhole, hl, hj, Option.bind_some, step_two_pow]

/-- A power of two below the size is not past the split point. -/
theorem two_pow_le_split {j size : ℕ} (hlt : 2 ^ j < size) : 2 ^ j ≤ split size := by
  by_contra hk
  have hj : Nat.log2 (size - 1) < j := by
    by_contra hle
    exact hk (Nat.pow_le_pow_right (by omega) (Nat.le_of_not_lt hle))
  have hle : 2 ^ (Nat.log2 (size - 1) + 1) ≤ 2 ^ j := Nat.pow_le_pow_right (by omega) hj
  have htwo := le_two_mul_split size
  rw [split] at htwo
  rw [Nat.pow_succ] at hle
  omega

/-- The walk never enters a right half exactly when the smaller tree is
complete. -/
theorem turns_all_left_iff (leaf : ℕ → D) :
    ∀ {size m : ℕ} (start : ℕ), 1 ≤ m → m < size →
      ((∀ t ∈ turns node leaf m start size, t.1 = false) ↔ ∃ l, m = 2 ^ l) := by
  intro size
  induction size using Nat.strong_induction_on with
  | _ size ih =>
      intro m start hm hlt
      have hklt := split_lt (n := size) (by omega)
      by_cases hk : m ≤ split size
      · rw [turns_left node leaf start hm hlt hk]
        by_cases hmk : m = split size
        · rw [← hmk, turns_self]
          simp only [List.mem_singleton, forall_eq, true_iff]
          exact ⟨_, hmk⟩
        · rw [← ih (split size) hklt start hm (by omega)]
          simp
      · rw [turns_right node leaf start hm hlt hk]
        refine iff_of_false (by simp) fun h => ?_
        obtain ⟨j, rfl⟩ := h
        exact hk (two_pow_le_split hlt)

/-- Then the walk ends at the root of the smaller tree. -/
theorem lastSubtree_of_two_pow (leaf : ℕ → D) {l start : ℕ} :
    ∀ {size : ℕ}, 2 ^ l < size →
      lastSubtree node leaf (2 ^ l) start size = mth node leaf start (2 ^ l) := by
  intro size
  induction size using Nat.strong_induction_on with
  | _ size ih =>
      intro hlt
      have hm := Nat.one_le_two_pow (n := l)
      have hk := two_pow_le_split hlt
      rw [lastSubtree_left node leaf start hm hlt hk]
      by_cases hmk : 2 ^ l = split size
      · rw [← hmk, lastSubtree_self]
      · exact ih _ (split_lt (by omega)) (by omega)

end Atrib.Lib.Merkle
