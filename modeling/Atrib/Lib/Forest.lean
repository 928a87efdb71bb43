import Mathlib.Data.List.Nodup
import Mathlib.Data.List.Perm.Subperm
import Mathlib.Logic.Function.Basic
import Mathlib.Logic.Relation

/-!
# Forests of parent pointers

`up` sends a node to its parent and a root to nothing. Where every climb ends,
each node has one root, and the nodes fall into classes by their roots. Two
changes of the pointers are of interest: a node is put directly under its root,
which moves no node to another class, and one root is put under another, which
makes one class of two. So the classes are those of the least equivalence that
holds of the pairs whose roots have been linked.

A climb visits no node twice, since what is left of it gets shorter, and has no
more steps than there are nodes with a parent.
-/

namespace Atrib.Lib.Forest

variable {α : Type*} {up : α → Option α}

/-- A climb of so many steps, from a node to its root. -/
inductive Climb (up : α → Option α) : ℕ → α → α → Prop
  | here {r : α} (h : up r = none) : Climb up 0 r r
  | step {n : ℕ} {x y r : α} (hup : up x = some y) (h : Climb up n y r) : Climb up (n + 1) x r

def HasRoot (up : α → Option α) (x r : α) : Prop := ∃ n, Climb up n x r

/-- Every climb ends. -/
def Grounded (up : α → Option α) : Prop := ∀ x, ∃ r, HasRoot up x r

/-- The two have one root. -/
def Same (up : α → Option α) (x y : α) : Prop := ∃ r, HasRoot up x r ∧ HasRoot up y r

/-! ## Climbs -/

theorem Climb.root {n : ℕ} {x r : α} (h : Climb up n x r) : up r = none := by
  induction h with
  | here h => exact h
  | step _ _ ih => exact ih

theorem Climb.unique {n m : ℕ} {x r s : α} (h : Climb up n x r) (h' : Climb up m x s) :
    n = m ∧ r = s := by
  induction h generalizing m with
  | here h =>
      cases h' with
      | here => exact ⟨rfl, rfl⟩
      | step hup => cases h.symm.trans hup
  | step hup _ ih =>
      cases h' with
      | here h => cases h.symm.trans hup
      | step hup' h' =>
          cases hup.symm.trans hup'
          obtain ⟨rfl, hroot⟩ := ih h'
          exact ⟨rfl, hroot⟩

theorem HasRoot.root {x r : α} (h : HasRoot up x r) : up r = none := h.elim fun _ h => h.root

theorem HasRoot.unique {x r s : α} (h : HasRoot up x r) (h' : HasRoot up x s) : r = s :=
  h.elim fun _ h => h'.elim fun _ h' => (h.unique h').2

theorem HasRoot.here {r : α} (h : up r = none) : HasRoot up r r := ⟨0, .here h⟩

theorem HasRoot.step {x y r : α} (hup : up x = some y) (h : HasRoot up y r) : HasRoot up x r :=
  h.elim fun n h => ⟨n + 1, .step hup h⟩

/-- Further up there is less to climb. -/
theorem Climb.of_above {n : ℕ} {x y r : α} (h : Climb up n x r)
    (habove : Relation.TransGen (fun x y => up x = some y) x y) : ∃ m < n, Climb up m y r := by
  have hnext : ∀ {k : ℕ} {z w : α}, Climb up k z r → up z = some w →
      ∃ m < k, Climb up m w r := by
    intro k z w hclimb hup
    cases hclimb with
    | here h => cases h.symm.trans hup
    | step hup' hrest =>
        cases hup.symm.trans hup'
        exact ⟨_, Nat.lt_succ_self _, hrest⟩
  induction habove with
  | single hup => exact hnext h hup
  | tail _ hup ih =>
      obtain ⟨m, hm, hclimb⟩ := ih
      obtain ⟨k, hk, hclimb⟩ := hnext hclimb hup
      exact ⟨k, Nat.lt_trans hk hm, hclimb⟩

theorem Grounded.acyclic (h : Grounded up) (x : α) :
    ¬Relation.TransGen (fun x y => up x = some y) x x := by
  intro hcycle
  obtain ⟨r, n, hclimb⟩ := h x
  obtain ⟨m, hm, hclimb'⟩ := hclimb.of_above hcycle
  have hlength := (hclimb.unique hclimb').1
  omega

/-- The nodes that a climb leaves behind. -/
theorem Climb.exists_path {n : ℕ} {x r : α} (h : Climb up n x r) :
    ∃ path : List α, path.length = n ∧ path.Nodup ∧ (∀ y ∈ path, up y ≠ none) ∧
      ∀ y ∈ path, ∃ m ≤ n, Climb up m y r := by
  induction h with
  | here => exact ⟨[], rfl, List.nodup_nil, by simp, by simp⟩
  | @step n x y r hup hclimb ih =>
      obtain ⟨path, rfl, hnodup, hup', hshort⟩ := ih
      have hnew : x ∉ path := by
        intro hmem
        obtain ⟨m, hm, hclimb'⟩ := hshort x hmem
        have hlength := ((hclimb.step hup).unique hclimb').1
        omega
      refine ⟨x :: path, rfl, List.nodup_cons.2 ⟨hnew, hnodup⟩, ?_, ?_⟩
      · rintro z (_ | ⟨_, hz⟩)
        · rw [hup]
          exact Option.some_ne_none y
        · exact hup' z hz
      · rintro z (_ | ⟨_, hz⟩)
        · exact ⟨_, Nat.le_refl _, hclimb.step hup⟩
        · obtain ⟨m, hm, hclimb'⟩ := hshort z hz
          exact ⟨m, by omega, hclimb'⟩

theorem Climb.le_length {n : ℕ} {x r : α} {nodes : List α} (h : Climb up n x r)
    (hnodes : ∀ y, up y ≠ none → y ∈ nodes) : n ≤ nodes.length := by
  obtain ⟨path, rfl, hnodup, hup, -⟩ := h.exists_path
  exact (List.subperm_of_subset hnodup fun y hy => hnodes y (hup y hy)).length_le

/-! ## Changing a pointer -/

section

variable [DecidableEq α]

/-- A node that is put under its root keeps it, and so does every other one. -/
theorem hasRoot_compress {id root : α} (hroot : HasRoot up id root) (hne : id ≠ root) {x r : α} :
    HasRoot (Function.update up id (some root)) x r ↔ HasRoot up x r := by
  have hself : Function.update up id (some root) id = some root := Function.update_self ..
  have hother : ∀ {z : α}, z ≠ id → Function.update up id (some root) z = up z :=
    fun hz => Function.update_of_ne hz ..
  constructor
  · rintro ⟨n, h⟩
    induction h with
    | @here z h =>
        have hz : z ≠ id := by
          rintro rfl
          cases hself.symm.trans h
        exact .here (hother hz ▸ h)
    | @step n z y r hup _ ih =>
        by_cases hz : z = id
        · subst hz
          obtain rfl := Option.some.inj (hself.symm.trans hup)
          exact ih.unique (.here hroot.root) ▸ hroot
        · exact ih.step (hother hz ▸ hup)
  · rintro ⟨n, h⟩
    induction h with
    | @here z h =>
        have hz : z ≠ id := by
          rintro rfl
          exact hne (hroot.unique (.here h)).symm
        exact .here ((hother hz).trans h)
    | @step n z y r hup hclimb ih =>
        by_cases hz : z = id
        · subst hz
          obtain rfl := hroot.unique ⟨n + 1, hclimb.step hup⟩
          exact .step hself (.here ((hother hne.symm).trans hroot.root))
        · exact ih.step ((hother hz).trans hup)

/-- A root is put under another one. -/
theorem hasRoot_link {a b : α} (ha : up a = none) (hb : up b = none) (hne : a ≠ b) {x r : α} :
    HasRoot (Function.update up a (some b)) x r ↔
      ∃ s, HasRoot up x s ∧ r = if s = a then b else s := by
  have hself : Function.update up a (some b) a = some b := Function.update_self ..
  have hother : ∀ {z : α}, z ≠ a → Function.update up a (some b) z = up z :=
    fun hz => Function.update_of_ne hz ..
  constructor
  · rintro ⟨n, h⟩
    induction h with
    | @here z h =>
        have hz : z ≠ a := by
          rintro rfl
          cases hself.symm.trans h
        exact ⟨z, .here (hother hz ▸ h), (if_neg hz).symm⟩
    | @step n z y r hup _ ih =>
        obtain ⟨s, hs, rfl⟩ := ih
        by_cases hz : z = a
        · subst hz
          obtain rfl := Option.some.inj (hself.symm.trans hup)
          obtain rfl := hs.unique (.here hb)
          exact ⟨z, .here ha, by rw [if_neg hne.symm, if_pos rfl]⟩
        · exact ⟨s, hs.step (hother hz ▸ hup), rfl⟩
  · rintro ⟨s, ⟨n, h⟩, rfl⟩
    induction h with
    | @here z h =>
        by_cases hz : z = a
        · subst hz
          rw [if_pos rfl]
          exact .step hself (.here ((hother hne.symm).trans hb))
        · rw [if_neg hz]
          exact .here ((hother hz).trans h)
    | @step n z y r hup _ ih =>
        have hz : z ≠ a := by
          rintro rfl
          cases ha.symm.trans hup
        exact ih.step ((hother hz).trans hup)

end

/-! ## Classes -/

/-- One more pair joins two classes. -/
theorem eqvGen_insert {R R' : α → α → Prop} {a b : α}
    (hR : ∀ x y, R' x y ↔ R x y ∨ x = a ∧ y = b) {x y : α} :
    Relation.EqvGen R' x y ↔ Relation.EqvGen R x y ∨
      Relation.EqvGen R x a ∧ Relation.EqvGen R y b ∨
        Relation.EqvGen R x b ∧ Relation.EqvGen R y a := by
  have hmono : ∀ {x y : α}, Relation.EqvGen R x y → Relation.EqvGen R' x y :=
    fun h => h.mono fun x y h => (hR x y).2 (.inl h)
  have hnew : Relation.EqvGen R' a b := .rel _ _ ((hR a b).2 (.inr ⟨rfl, rfl⟩))
  constructor
  · intro h
    induction h with
    | rel x y h =>
        rcases (hR x y).1 h with h | ⟨rfl, rfl⟩
        · exact .inl (.rel _ _ h)
        · exact .inr (.inl ⟨.refl _, .refl _⟩)
    | refl x => exact .inl (.refl x)
    | symm x y _ ih =>
        rcases ih with h | ⟨hx, hy⟩ | ⟨hx, hy⟩
        · exact .inl (h.symm _ _)
        · exact .inr (.inr ⟨hy, hx⟩)
        · exact .inr (.inl ⟨hy, hx⟩)
    | trans x y z _ _ ih ih' =>
        rcases ih with h | ⟨hx, hy⟩ | ⟨hx, hy⟩
        · rcases ih' with h' | ⟨hy', hz⟩ | ⟨hy', hz⟩
          · exact .inl (h.trans _ _ _ h')
          · exact .inr (.inl ⟨h.trans _ _ _ hy', hz⟩)
          · exact .inr (.inr ⟨h.trans _ _ _ hy', hz⟩)
        · rcases ih' with h' | ⟨hy', hz⟩ | ⟨hy', hz⟩
          · exact .inr (.inl ⟨hx, (h'.symm _ _).trans _ _ _ hy⟩)
          · exact .inr (.inl ⟨hx, hz⟩)
          · exact .inl (hx.trans _ _ _ (hz.symm _ _))
        · rcases ih' with h' | ⟨hy', hz⟩ | ⟨hy', hz⟩
          · exact .inr (.inr ⟨hx, (h'.symm _ _).trans _ _ _ hy⟩)
          · exact .inl (hx.trans _ _ _ (hz.symm _ _))
          · exact .inr (.inr ⟨hx, hz⟩)
  · rintro (h | ⟨hx, hy⟩ | ⟨hx, hy⟩)
    · exact hmono h
    · exact ((hmono hx).trans _ _ _ hnew).trans _ _ _ ((hmono hy).symm _ _)
    · exact ((hmono hx).trans _ _ _ (hnew.symm _ _)).trans _ _ _ ((hmono hy).symm _ _)

/-- The classes of the forest are those of the relation. -/
structure Represents (up : α → Option α) (R : α → α → Prop) : Prop where
  grounded : Grounded up
  same_iff : ∀ x y, Same up x y ↔ Relation.EqvGen R x y

/-- Nothing has been linked. -/
theorem represents_discrete : Represents (fun _ : α => none) fun _ _ => False where
  grounded := fun x => ⟨x, .here rfl⟩
  same_iff := by
    intro x y
    constructor
    · rintro ⟨r, hx, hy⟩
      obtain rfl := hx.unique (.here rfl)
      obtain rfl := hy.unique (.here rfl)
      exact .refl _
    · intro h
      induction h with
      | rel _ _ h => exact h.elim
      | refl x => exact ⟨x, .here rfl, .here rfl⟩
      | symm _ _ _ ih => exact ih.imp fun _ h => h.symm
      | trans _ _ _ _ _ ih ih' =>
          obtain ⟨r, hx, hy⟩ := ih
          obtain ⟨s, hy', hz⟩ := ih'
          exact ⟨r, hx, hy.unique hy' ▸ hz⟩

theorem Represents.congr {up' : α → Option α} {R R' : α → α → Prop} (h : Represents up R)
    (hroots : ∀ x r, HasRoot up' x r ↔ HasRoot up x r) (hR : ∀ x y, R x y ↔ R' x y) :
    Represents up' R' where
  grounded := fun x => (h.grounded x).imp fun r hr => (hroots x r).2 hr
  same_iff := by
    obtain rfl : R = R' := funext fun x => funext fun y => propext (hR x y)
    intro x y
    rw [← h.same_iff]
    simp only [Same, hroots]

/-- A root has been put under another one, and their pair joins the relation. -/
theorem Represents.link {up' : α → Option α} {R R' : α → α → Prop} {a b rootA rootB : α}
    [DecidableEq α] (h : Represents up R) (ha : HasRoot up a rootA) (hb : HasRoot up b rootB)
    (hroots : ∀ x r, HasRoot up' x r ↔ ∃ s, HasRoot up x s ∧ r = if s = rootA then rootB else s)
    (hR : ∀ x y, R' x y ↔ R x y ∨ x = a ∧ y = b) : Represents up' R' where
  grounded := fun x => by
    obtain ⟨s, hs⟩ := h.grounded x
    exact ⟨_, (hroots x _).2 ⟨s, hs, rfl⟩⟩
  same_iff := by
    have hsame : ∀ {x y r s : α}, HasRoot up x r → HasRoot up y s → (Same up x y ↔ r = s) := by
      intro x y r s hx hy
      constructor
      · rintro ⟨t, hx', hy'⟩
        exact (hx.unique hx').trans (hy'.unique hy)
      · rintro rfl
        exact ⟨r, hx, hy⟩
    intro x y
    obtain ⟨r, hx⟩ := h.grounded x
    obtain ⟨s, hy⟩ := h.grounded y
    rw [eqvGen_insert hR, ← h.same_iff, ← h.same_iff, ← h.same_iff, ← h.same_iff, ← h.same_iff,
      hsame hx hy, hsame hx ha, hsame hy hb, hsame hx hb, hsame hy ha]
    constructor
    · rintro ⟨t, hxt, hyt⟩
      obtain ⟨r', hx', rfl⟩ := (hroots x t).1 hxt
      obtain ⟨s', hy', heq⟩ := (hroots y _).1 hyt
      obtain rfl := hx.unique hx'
      obtain rfl := hy.unique hy'
      split at heq <;> split at heq <;> grind
    · intro hcases
      refine ⟨_, (hroots x _).2 ⟨r, hx, rfl⟩, (hroots y _).2 ⟨s, hy, ?_⟩⟩
      rcases hcases with rfl | ⟨rfl, rfl⟩ | ⟨rfl, rfl⟩
      · rfl
      · rw [if_pos rfl]
        split <;> rfl
      · rw [if_pos rfl]
        split <;> simp_all

end Atrib.Lib.Forest
