import Mathlib.Data.List.Find
import Mathlib.Data.List.Nodup
import Mathlib.Order.Defs.LinearOrder

/-!
# Pairs of a list, and the first member with each key

A double loop over `i < j` goes through the pairs of a list, and a loop that
skips what it has seen before keeps the first member with each key. Where the
first is also the earliest by some measure, what is kept depends on the members
of the list only.
-/

namespace Atrib.Lib

variable {α κ τ : Type*}

/-- Each member with those after it. -/
def pairs : List α → List (α × α)
  | [] => []
  | a :: l => l.map (fun b => (a, b)) ++ pairs l

theorem mem_of_mem_pairs {l : List α} {a b : α} (h : (a, b) ∈ pairs l) : a ∈ l ∧ b ∈ l := by
  induction l with
  | nil => cases h
  | cons c l ih =>
      rw [pairs, List.mem_append, List.mem_map] at h
      rcases h with ⟨b', hb, heq⟩ | h
      · cases heq
        exact ⟨List.mem_cons_self, List.mem_cons_of_mem _ hb⟩
      · exact ⟨List.mem_cons_of_mem _ (ih h).1, List.mem_cons_of_mem _ (ih h).2⟩

theorem mem_pairs_or {l : List α} {a b : α} (ha : a ∈ l) (hb : b ∈ l) (hne : a ≠ b) :
    (a, b) ∈ pairs l ∨ (b, a) ∈ pairs l := by
  induction l with
  | nil => cases ha
  | cons c l ih =>
      simp only [pairs, List.mem_append, List.mem_map, Prod.mk.injEq]
      rcases List.mem_cons.1 ha with rfl | ha' <;> rcases List.mem_cons.1 hb with rfl | hb'
      · exact absurd rfl hne
      · exact Or.inl (Or.inl ⟨b, hb', rfl, rfl⟩)
      · exact Or.inr (Or.inl ⟨a, ha', rfl, rfl⟩)
      · exact (ih ha' hb').imp Or.inr Or.inr

theorem pairwise_of_mem_pairs {r : α → α → Prop} {l : List α} (hl : l.Pairwise r) {a b : α}
    (h : (a, b) ∈ pairs l) : r a b := by
  induction l with
  | nil => cases h
  | cons c l ih =>
      obtain ⟨hfirst, hrest⟩ := List.pairwise_cons.1 hl
      rw [pairs, List.mem_append, List.mem_map] at h
      rcases h with ⟨b', hb, heq⟩ | h
      · cases heq
        exact hfirst _ hb
      · exact ih hrest h

/-- Each member with the one after it. -/
def adjacent : List α → List (α × α)
  | a :: b :: l => (a, b) :: adjacent (b :: l)
  | _ => []

theorem adjacent_map {β : Type*} (f : α → β) :
    ∀ l : List α, adjacent (l.map f) = (adjacent l).map (Prod.map f f)
  | [] | [_] => rfl
  | a :: b :: l => by
      rw [List.map_cons, List.map_cons, adjacent, ← List.map_cons, adjacent_map f (b :: l),
        adjacent, List.map_cons]
      rfl

theorem mem_of_mem_adjacent {l : List α} {a b : α} (h : (a, b) ∈ adjacent l) : a ∈ l ∧ b ∈ l := by
  fun_induction adjacent l with
  | case1 c d l ih =>
      rcases List.mem_cons.1 h with heq | h
      · cases heq
        exact ⟨List.mem_cons_self, List.mem_cons_of_mem _ List.mem_cons_self⟩
      · exact ⟨List.mem_cons_of_mem _ (ih h).1, List.mem_cons_of_mem _ (ih h).2⟩
  | case2 => cases h

theorem pairwise_of_mem_adjacent {r : α → α → Prop} {l : List α} (hl : l.Pairwise r) {a b : α}
    (h : (a, b) ∈ adjacent l) : r a b := by
  fun_induction adjacent l with
  | case1 c d l ih =>
      obtain ⟨hfirst, hrest⟩ := List.pairwise_cons.1 hl
      rcases List.mem_cons.1 h with heq | h
      · cases heq
        exact hfirst _ List.mem_cons_self
      · exact ih hrest h
  | case2 => cases h

theorem snd_mem_of_mem_adjacent {c : α} {l : List α} {q : α × α} (h : q ∈ adjacent (c :: l)) :
    q.2 ∈ l := by
  cases l with
  | nil => cases h
  | cons d l =>
      rcases List.mem_cons.1 h with rfl | h
      · exact List.mem_cons_self
      · exact (mem_of_mem_adjacent h).2

theorem adjacent_pairwise {r : α → α → Prop} {l : List α} (hl : l.Pairwise r) :
    (adjacent l).Pairwise fun p q => r p.1 q.1 ∧ r p.2 q.2 := by
  fun_induction adjacent l with
  | case1 c d l ih =>
      obtain ⟨hfirst, hrest⟩ := List.pairwise_cons.1 hl
      refine List.pairwise_cons.2 ⟨fun q hq => ⟨?_, ?_⟩, ih hrest⟩
      · exact hfirst _ (mem_of_mem_adjacent hq).1
      · exact (List.pairwise_cons.1 hrest).1 _ (snd_mem_of_mem_adjacent hq)
  | case2 => exact List.Pairwise.nil

/-! ## The first of each key -/

section Firsts

variable [DecidableEq κ] (key : α → κ)

/-- A member is added unless one with its key is there. -/
def addFirst (s : List α) (a : α) : List α := if s.any (key · = key a) then s else s ++ [a]

def firsts (l : List α) : List α := l.foldl (addFirst key) []

variable {key}

theorem find?_addFirst {s : List α} {a : α} {k : κ} :
    (addFirst key s a).find? (key · = k) = (s ++ [a]).find? (key · = k) := by
  unfold addFirst
  split
  · next hany =>
      obtain ⟨b, hb, hkey⟩ := List.any_eq_true.1 hany
      rw [List.find?_append]
      cases hfind : s.find? (key · = k) with
      | some c => rfl
      | none =>
          have hb' : key b ≠ k := by simpa using List.find?_eq_none.1 hfind b hb
          rw [of_decide_eq_true hkey] at hb'
          simp [hb']
  · rfl

theorem find?_foldl_addFirst {l s : List α} {k : κ} :
    (l.foldl (addFirst key) s).find? (key · = k) = (s ++ l).find? (key · = k) := by
  induction l generalizing s with
  | nil => rw [List.foldl_nil, List.append_nil]
  | cons a l ih =>
      rw [List.foldl_cons, ih, List.find?_append, find?_addFirst, ← List.find?_append,
        List.append_assoc, List.singleton_append]

theorem nodupKeys_foldl_addFirst {l s : List α} (hs : (s.map key).Nodup) :
    ((l.foldl (addFirst key) s).map key).Nodup := by
  induction l generalizing s with
  | nil => exact hs
  | cons a l ih =>
      refine ih ?_
      unfold addFirst
      split
      · exact hs
      · next hnone =>
          rw [List.map_append, List.nodup_append]
          refine ⟨hs, List.nodup_singleton _, ?_⟩
          rintro k hk k' hk' rfl
          obtain ⟨b, hb, hkey⟩ := List.mem_map.1 hk
          rw [List.map_singleton, List.mem_singleton] at hk'
          exact hnone (List.any_eq_true.2 ⟨b, hb, decide_eq_true (hkey.trans hk')⟩)

theorem find?_of_nodupKeys {l : List α} (hl : (l.map key).Nodup) {a : α} (ha : a ∈ l) :
    l.find? (key · = key a) = some a := by
  induction l with
  | nil => cases ha
  | cons b l ih =>
      rw [List.map_cons, List.nodup_cons] at hl
      rcases List.mem_cons.1 ha with rfl | ha
      · simp
      · have hne : key b ≠ key a := fun heq => hl.1 (heq ▸ List.mem_map_of_mem ha)
        rw [List.find?_cons_of_neg (by simpa using hne), ih hl.2 ha]

/-- What is kept is the first member with its key. -/
theorem mem_firsts {l : List α} {a : α} :
    a ∈ firsts key l ↔ l.find? (key · = key a) = some a := by
  have hfind : (firsts key l).find? (key · = key a) = l.find? (key · = key a) := by
    rw [firsts, find?_foldl_addFirst, List.nil_append]
  rw [← hfind]
  exact ⟨find?_of_nodupKeys (nodupKeys_foldl_addFirst (by simp)), List.mem_of_find?_eq_some⟩

theorem firsts_eq_nil {l : List α} : firsts key l = [] ↔ l = [] := by
  constructor
  · intro h
    refine List.eq_nil_iff_forall_not_mem.2 fun a ha => ?_
    have hfind := @find?_foldl_addFirst _ _ _ key l [] (key a)
    rw [← firsts, h, List.nil_append, List.find?_nil, eq_comm, List.find?_eq_none] at hfind
    exact hfind a ha (decide_eq_true rfl)
  · rintro rfl
    rfl

/-! ## The first is the earliest -/

variable [LinearOrder τ] {time : α → τ}

/-- The first member with a key is as early as any. -/
def EarliestFirst (key : α → κ) (time : α → τ) (l : List α) : Prop :=
  ∀ a ∈ l, ∀ first ∈ l.find? (key · = key a), time first ≤ time a

theorem EarliestFirst.of_pairwise {l : List α}
    (h : l.Pairwise fun a b => key a = key b → time a ≤ time b) : EarliestFirst key time l := by
  induction l with
  | nil => exact fun a ha => nomatch ha
  | cons c l ih =>
      obtain ⟨hfirst, hrest⟩ := List.pairwise_cons.1 h
      intro a ha first hfind
      by_cases hkey : key c = key a
      · rw [List.find?_cons_of_pos (by simpa using hkey)] at hfind
        cases hfind
        rcases List.mem_cons.1 ha with rfl | ha
        · exact le_rfl
        · exact hfirst a ha hkey
      · rw [List.find?_cons_of_neg (by simpa using hkey)] at hfind
        rcases List.mem_cons.1 ha with rfl | ha
        · exact absurd rfl hkey
        · exact ih hrest a ha first hfind

/-- Only which members have one key matters. -/
theorem EarliestFirst.congr_key {κ' : Type*} [DecidableEq κ'] {key' : α → κ'} {l : List α}
    (h : EarliestFirst key time l) (hkey : ∀ a ∈ l, ∀ b ∈ l, key a = key b ↔ key' a = key' b) :
    EarliestFirst key' time l := by
  intro a ha first hfirst
  refine h a ha first ?_
  rw [Option.mem_def, ← hfirst]
  exact List.find?_congr fun b hb => decide_eq_decide.2 (hkey b hb a ha)

theorem EarliestFirst.append {l₁ l₂ : List α} (h₁ : EarliestFirst key time l₁)
    (h₂ : EarliestFirst key time l₂)
    (hcross : ∀ b ∈ l₂, ∀ first ∈ l₁.find? (key · = key b), time first ≤ time b) :
    EarliestFirst key time (l₁ ++ l₂) := by
  intro a ha first hfirst
  rw [Option.mem_def, List.find?_append] at hfirst
  rcases List.mem_append.1 ha with ha | ha
  · cases hfind : l₁.find? (key · = key a) with
    | none => exact absurd (decide_eq_true rfl) (List.find?_eq_none.1 hfind a ha)
    | some first' =>
        rw [hfind] at hfirst
        cases hfirst
        exact h₁ a ha first hfind
  · cases hfind : l₁.find? (key · = key a) with
    | none =>
        rw [hfind] at hfirst
        exact h₂ a ha first hfirst
    | some first' =>
        rw [hfind] at hfirst
        cases hfirst
        exact hcross a ha first hfind

/-- Lists that share no key, one after the other. -/
theorem EarliestFirst.flatMap {β : Type*} {f : β → List α} {l : List β}
    (hf : ∀ b ∈ l, EarliestFirst key time (f b))
    (hdisjoint : l.Pairwise fun b b' => ∀ a ∈ f b, ∀ a' ∈ f b', key a ≠ key a') :
    EarliestFirst key time (l.flatMap f) := by
  induction l with
  | nil => exact fun a ha => nomatch ha
  | cons b l ih =>
      obtain ⟨hfirst, hrest⟩ := List.pairwise_cons.1 hdisjoint
      rw [List.flatMap_cons]
      refine (hf b List.mem_cons_self).append
        (ih (fun b' hb' => hf b' (List.mem_cons_of_mem _ hb')) hrest) ?_
      intro a ha first hfind
      obtain ⟨b', hb', ha'⟩ := List.mem_flatMap.1 ha
      have hkey : key first = key a := by simpa using List.find?_some hfind
      exact absurd hkey (hfirst b' hb' first (List.mem_of_find?_eq_some hfind) a ha')

/-- Two lists of the same members, with the earliest first in both, keep the same. -/
theorem mem_firsts_congr {l l' : List α} (hsame : ∀ a, a ∈ l ↔ a ∈ l')
    (hl : EarliestFirst key time l) (hl' : EarliestFirst key time l')
    (hext : ∀ a ∈ l, ∀ b ∈ l, key a = key b → time a = time b → a = b) {a : α} :
    a ∈ firsts key l ↔ a ∈ firsts key l' := by
  have hhalf : ∀ {l l' : List α}, (∀ a, a ∈ l ↔ a ∈ l') → EarliestFirst key time l →
      EarliestFirst key time l' → (∀ a ∈ l, ∀ b ∈ l, key a = key b → time a = time b → a = b) →
        a ∈ firsts key l → a ∈ firsts key l' := by
    intro l l' hsame hl hl' hext ha
    have hfind := mem_firsts.1 ha
    have hmem := List.mem_of_find?_eq_some hfind
    rw [mem_firsts]
    cases hfind' : l'.find? (key · = key a) with
    | none => exact absurd (decide_eq_true rfl) (List.find?_eq_none.1 hfind' a ((hsame a).1 hmem))
    | some first =>
        have hkey : key first = key a := by simpa using List.find?_some hfind'
        have hfirst := (hsame first).2 (List.mem_of_find?_eq_some hfind')
        have hle := hl' a ((hsame a).1 hmem) first hfind'
        have hge := hl first hfirst a (by rw [hkey]; exact hfind)
        rw [hext first hfirst a hmem hkey (le_antisymm hle hge)]
  refine ⟨hhalf hsame hl hl' hext, hhalf (fun b => (hsame b).symm) hl' hl fun b hb c hc => ?_⟩
  exact hext b ((hsame b).2 hb) c ((hsame c).2 hc)

end Firsts

end Atrib.Lib
