import Mathlib.Data.List.Nodup

/-!
# Loops over a list

A loop that appends to a list, where what it appends depends on something that
it leaves as it is, appends what it would have appended in the state it started
in. So a loop over pairs draws what can be said of each pair alone.

A search by a key gives what belongs to the key, whichever member it finds. Of the
members with one key, the first stand in the order of the list, and as long as no
key comes twice they are all there is.
-/

namespace Atrib.Lib

variable {σ ν α ε : Type*}

theorem foldl_appends (step : σ → α → σ) (view : σ → ν) (out : σ → List ε) (draw : ν → α → List ε)
    (hview : ∀ s a, view (step s a) = view s)
    (hout : ∀ s a, out (step s a) = out s ++ draw (view s) a) (l : List α) (s : σ) :
    view (l.foldl step s) = view s ∧ out (l.foldl step s) = out s ++ l.flatMap (draw (view s)) := by
  induction l generalizing s with
  | nil => exact ⟨rfl, (List.append_nil _).symm⟩
  | cons a l ih =>
      obtain ⟨hviews, houts⟩ := ih (step s a)
      rw [List.foldl_cons, hviews, houts, hview, hout, List.flatMap_cons, List.append_assoc]
      exact ⟨rfl, rfl⟩

/-! ## Pairs at different places -/

theorem mem_zipIdx_pairs {xs : List α} (h : xs.Nodup) {a b : α} :
    (∃ i j, (a, i) ∈ xs.zipIdx ∧ (b, j) ∈ xs.zipIdx ∧ i ≠ j) ↔ a ∈ xs ∧ b ∈ xs ∧ a ≠ b := by
  simp only [List.mk_mem_zipIdx_iff_getElem?]
  constructor
  · rintro ⟨i, j, hi, hj, hne⟩
    refine ⟨List.mem_of_getElem? hi, List.mem_of_getElem? hj, fun hab => hne ?_⟩
    obtain ⟨hi', hia⟩ := List.getElem?_eq_some_iff.1 hi
    obtain ⟨hj', hjb⟩ := List.getElem?_eq_some_iff.1 hj
    exact (h.getElem_inj_iff).1 (hia.trans (hab.trans hjb.symm))
  · rintro ⟨ha, hb, hab⟩
    obtain ⟨i, hi⟩ := List.mem_iff_getElem?.1 ha
    obtain ⟨j, hj⟩ := List.mem_iff_getElem?.1 hb
    refine ⟨i, j, hi, hj, ?_⟩
    rintro rfl
    exact hab (Option.some.inj (hi.symm.trans hj))

/-! ## Searches by a key -/

/-- Where members with one key have one value, the first is as good as any other. -/
theorem find?_key_map_eq_some {κ β : Type*} [DecidableEq κ] {l : List α} {key : α → κ}
    {value : α → β} (h : ∀ a ∈ l, ∀ a' ∈ l, key a = key a' → value a = value a') {k : κ} {b : β} :
    (l.find? (key · = k)).map value = some b ↔ ∃ a ∈ l, key a = k ∧ value a = b := by
  rw [Option.map_eq_some_iff]
  constructor
  · rintro ⟨a, hfind, rfl⟩
    have hkey := List.find?_some hfind
    exact ⟨a, List.mem_of_find?_eq_some hfind, of_decide_eq_true hkey, rfl⟩
  · rintro ⟨a, ha, rfl, rfl⟩
    have hsome : (l.find? (key · = key a)).isSome :=
      List.find?_isSome.2 ⟨a, ha, decide_eq_true rfl⟩
    obtain ⟨a', hfind⟩ := Option.isSome_iff_exists.1 hsome
    have hkey := List.find?_some hfind
    exact ⟨a', hfind, h a' (List.mem_of_find?_eq_some hfind) a ha (of_decide_eq_true hkey)⟩

/-! ## First occurrences -/

section

variable {κ : Type*} [DecidableEq κ]

/-- The members whose keys have been neither seen nor come before. -/
def firstsOf (key : α → κ) : List κ → List α → List α
  | _, [] => []
  | seen, a :: as =>
      if key a ∈ seen then firstsOf key seen as else a :: firstsOf key (key a :: seen) as

variable {key : α → κ} {seen : List κ} {as : List α}

theorem firstsOf_sublist (key : α → κ) (seen : List κ) (as : List α) :
    (firstsOf key seen as).Sublist as := by
  induction as generalizing seen with
  | nil => exact .slnil
  | cons a as ih =>
      rw [firstsOf]
      split
      · exact (ih seen).cons a
      · exact (ih _).cons_cons a

theorem not_mem_seen_of_firstsOf {a : α} (h : a ∈ firstsOf key seen as) : key a ∉ seen := by
  induction as generalizing seen with
  | nil => cases h
  | cons b as ih =>
      rw [firstsOf] at h
      split at h
      · exact ih h
      · next hnew =>
          rcases List.mem_cons.1 h with rfl | h
          · exact hnew
          · exact fun hmem => ih h (List.mem_cons_of_mem _ hmem)

/-- No key comes twice. -/
theorem nodup_firstsOf (key : α → κ) (seen : List κ) (as : List α) :
    ((firstsOf key seen as).map key).Nodup := by
  induction as generalizing seen with
  | nil => exact List.nodup_nil
  | cons a as ih =>
      rw [firstsOf]
      split
      · exact ih seen
      · rw [List.map_cons, List.nodup_cons]
        refine ⟨fun hmem => ?_, ih _⟩
        obtain ⟨b, hb, hkey⟩ := List.mem_map.1 hmem
        exact not_mem_seen_of_firstsOf hb (hkey ▸ List.mem_cons_self)

/-- Where no key comes twice, nothing is left out. -/
theorem take_firstsOf {n : ℕ} (hnodup : ((as.take n).map key).Nodup)
    (hnew : ∀ a ∈ as.take n, key a ∉ seen) : (firstsOf key seen as).take n = as.take n := by
  induction as generalizing seen n with
  | nil => rfl
  | cons a as ih =>
      cases n with
      | zero => rfl
      | succ n =>
          rw [List.take_succ_cons] at hnodup hnew ⊢
          rw [List.map_cons, List.nodup_cons] at hnodup
          rw [firstsOf, if_neg (hnew a List.mem_cons_self), List.take_succ_cons,
            ih hnodup.2 fun b hb => ?_]
          rw [List.mem_cons, not_or]
          exact ⟨fun hkey => hnodup.1 (hkey ▸ List.mem_map_of_mem hb),
            hnew b (List.mem_cons_of_mem _ hb)⟩

end

end Atrib.Lib
