import Mathlib.Data.List.Nodup

/-!
# Maps and sets that remember the order of insertion

The maps of a scripting language: a list of entries with pairwise distinct
keys. Setting a key that is there changes its value where it stands, setting a
new key appends it, and iteration is in the order of the list. That the keys
are distinct is a field, so a loop over the entries of a map may build the
next map entry by entry without looking any key up. A set is the list of its
members in the order in which they came.
-/

namespace Atrib.Lib

structure InsertionMap (κ ν : Type*) where
  entries : List (κ × ν)
  nodup : (entries.map Prod.fst).Nodup
deriving DecidableEq

namespace InsertionMap

variable {κ ν ν' : Type*}

@[ext] theorem ext {m m' : InsertionMap κ ν} (h : m.entries = m'.entries) : m = m' := by
  cases m
  cases m'
  cases h
  rfl

def empty : InsertionMap κ ν := ⟨[], List.nodup_nil⟩

instance : EmptyCollection (InsertionMap κ ν) := ⟨empty⟩

@[simp] theorem entries_empty : (∅ : InsertionMap κ ν).entries = [] := rfl

def keys (m : InsertionMap κ ν) : List κ := m.entries.map Prod.fst

def values (m : InsertionMap κ ν) : List ν := m.entries.map Prod.snd

@[simp] theorem keys_empty : (∅ : InsertionMap κ ν).keys = [] := rfl

def size (m : InsertionMap κ ν) : ℕ := m.entries.length

/-- The entries that pass a test. -/
def filter (p : κ → ν → Bool) (m : InsertionMap κ ν) : InsertionMap κ ν :=
  ⟨m.entries.filter fun e => p e.1 e.2, m.nodup.sublist (List.filter_sublist.map _)⟩

/-- All entries but the oldest. -/
def dropFirst (m : InsertionMap κ ν) : InsertionMap κ ν :=
  ⟨m.entries.tail, m.nodup.sublist ((List.tail_sublist _).map _)⟩

/-- The list without its first entries, one taken off at a time while its length is too large. -/
def dropWhileOver (large : ℕ → Bool) : List (κ × ν) → List (κ × ν)
  | [] => []
  | e :: es => if large (es.length + 1) then dropWhileOver large es else e :: es

theorem dropWhileOver_suffix (large : ℕ → Bool) (es : List (κ × ν)) :
    dropWhileOver large es <:+ es := by
  induction es with
  | nil => exact List.suffix_rfl
  | cons e es ih =>
      rw [dropWhileOver]
      split
      · exact ih.trans (List.suffix_cons e es)
      · exact List.suffix_rfl

/-- The map without its oldest entries, deleted while its size is too large. -/
def shrink (large : ℕ → Bool) (m : InsertionMap κ ν) : InsertionMap κ ν :=
  ⟨dropWhileOver large m.entries, m.nodup.sublist ((dropWhileOver_suffix large _).sublist.map _)⟩

/-- A map whose size is not too large stays as it is. -/
theorem shrink_of_not_over {large : ℕ → Bool} {m : InsertionMap κ ν} (h : large m.size = false) :
    m.shrink large = m := by
  ext1
  show dropWhileOver large m.entries = m.entries
  rw [size] at h
  cases hentries : m.entries with
  | nil => rfl
  | cons e es =>
      rw [hentries, List.length_cons] at h
      rw [dropWhileOver, h]
      rfl

/-- The same keys with other values. -/
def mapVal (f : κ → ν → ν') (m : InsertionMap κ ν) : InsertionMap κ ν' :=
  ⟨m.entries.map fun e => (e.1, f e.1 e.2), by
    rw [List.map_map]
    exact m.nodup⟩

@[simp] theorem keys_mapVal (f : κ → ν → ν') (m : InsertionMap κ ν) :
    (m.mapVal f).keys = m.keys := by
  unfold keys mapVal
  rw [List.map_map]
  rfl

theorem mapVal_mapVal {ν'' : Type*} (f : κ → ν → ν') (g : κ → ν' → ν'') (m : InsertionMap κ ν) :
    (m.mapVal f).mapVal g = m.mapVal fun k v => g k (f k v) := by
  ext1
  exact List.map_map

theorem filter_mapVal (p : κ → ν' → Bool) (f : κ → ν → ν') (m : InsertionMap κ ν) :
    (m.mapVal f).filter p = (m.filter fun k v => p k (f k v)).mapVal f := by
  ext1
  exact List.filter_map

theorem mapVal_self (m : InsertionMap κ ν) : (m.mapVal fun _ v => v) = m := by
  ext1
  exact List.map_id _

theorem mem_keys {m : InsertionMap κ ν} {k : κ} : k ∈ m.keys ↔ ∃ v, (k, v) ∈ m.entries := by
  unfold keys
  rw [List.mem_map]
  constructor
  · rintro ⟨⟨_, v⟩, hv, rfl⟩
    exact ⟨v, hv⟩
  · rintro ⟨v, hv⟩
    exact ⟨(k, v), hv, rfl⟩

/-- Every value has the property. -/
def AllVals (P : ν → Prop) (m : InsertionMap κ ν) : Prop := ∀ e ∈ m.entries, P e.2

theorem AllVals.filter {P : ν → Prop} {m : InsertionMap κ ν} (h : m.AllVals P)
    (p : κ → ν → Bool) : (m.filter p).AllVals P :=
  fun e he => h e (List.mem_filter.1 he).1

theorem AllVals.mapVal {P : ν → Prop} {Q : ν' → Prop} {m : InsertionMap κ ν} (h : m.AllVals P)
    {f : κ → ν → ν'} (hf : ∀ k v, P v → Q (f k v)) : (m.mapVal f).AllVals Q := by
  intro e he
  obtain ⟨e', he', rfl⟩ := List.mem_map.1 he
  exact hf e'.1 e'.2 (h e' he')

theorem mem_keys_of_mem {m : InsertionMap κ ν} {e : κ × ν} (he : e ∈ m.entries) :
    e.1 ∈ m.keys := List.mem_map.2 ⟨e, he, rfl⟩

theorem mem_keys_filter {m : InsertionMap κ ν} {p : κ → ν → Bool} {k : κ} :
    k ∈ (m.filter p).keys ↔ ∃ v, (k, v) ∈ m.entries ∧ p k v = true := by
  unfold keys filter
  rw [List.mem_map]
  constructor
  · rintro ⟨⟨_, v⟩, hv, rfl⟩
    exact ⟨v, List.mem_filter.1 hv⟩
  · rintro ⟨v, hv⟩
    exact ⟨(k, v), List.mem_filter.2 hv, rfl⟩

/-- A key passes a test or its opposite. -/
theorem mem_keys_filter_or {m : InsertionMap κ ν} {p : κ → ν → Bool} {k : κ} :
    k ∈ (m.filter p).keys ∨ k ∈ (m.filter fun k v => !p k v).keys ↔ k ∈ m.keys := by
  rw [mem_keys_filter, mem_keys_filter, mem_keys]
  constructor
  · rintro (⟨v, hv, _⟩ | ⟨v, hv, _⟩)
    · exact ⟨v, hv⟩
    · exact ⟨v, hv⟩
  · rintro ⟨v, hv⟩
    cases hp : p k v with
    | true => exact .inl ⟨v, hv, hp⟩
    | false => exact .inr ⟨v, hv, by simp [hp]⟩

variable [DecidableEq κ]

def get? (m : InsertionMap κ ν) (k : κ) : Option ν :=
  (m.entries.find? fun e => e.1 = k).map Prod.snd

def has (m : InsertionMap κ ν) (k : κ) : Bool := decide (k ∈ m.keys)

/-- Another value for a key leaves the keys as they are. -/
theorem map_fst_replace (es : List (κ × ν)) (k : κ) (v : ν) :
    (es.map fun e => if e.1 = k then (k, v) else e).map Prod.fst = es.map Prod.fst := by
  rw [List.map_map]
  refine List.map_congr_left fun e _ => ?_
  simp only [Function.comp_apply]
  split
  · next he => exact he.symm
  · rfl

def set (m : InsertionMap κ ν) (k : κ) (v : ν) : InsertionMap κ ν :=
  if h : k ∈ m.keys then
    ⟨m.entries.map fun e => if e.1 = k then (k, v) else e, by
      rw [map_fst_replace]
      exact m.nodup⟩
  else
    ⟨m.entries ++ [(k, v)], by
      rw [List.map_append, List.nodup_append]
      refine ⟨m.nodup, by simp, ?_⟩
      rintro a ha b hb rfl
      exact h ((List.mem_singleton.1 hb : a = k) ▸ ha)⟩

/-- Set one entry after the other. -/
def setAll (m : InsertionMap κ ν) (es : List (κ × ν)) : InsertionMap κ ν :=
  es.foldl (fun m e => m.set e.1 e.2) m

theorem entries_set (m : InsertionMap κ ν) (k : κ) (v : ν) :
    (m.set k v).entries =
      if k ∈ m.keys then m.entries.map fun e => if e.1 = k then (k, v) else e
      else m.entries ++ [(k, v)] := by
  unfold set
  split <;> rfl

theorem mapVal_set (f : ν → ν') (m : InsertionMap κ ν) (k : κ) (v : ν) :
    (m.set k v).mapVal (fun _ => f) = (m.mapVal fun _ => f).set k (f v) := by
  have hkeys : k ∈ (m.mapVal fun _ => f).keys ↔ k ∈ m.keys := by rw [keys_mapVal]
  ext1
  show (m.set k v).entries.map (fun e => (e.1, f e.2)) = _
  rw [entries_set, entries_set]
  by_cases hk : k ∈ m.keys
  · rw [if_pos hk, if_pos (hkeys.2 hk)]
    simp only [mapVal, List.map_map]
    refine List.map_congr_left fun e _ => ?_
    by_cases he : e.1 = k
    · simp [he]
    · simp [he]
  · rw [if_neg hk, if_neg fun h => hk (hkeys.1 h), List.map_append]
    rfl

theorem mem_entries_set {m : InsertionMap κ ν} {k : κ} {v : ν} {e : κ × ν}
    (he : e ∈ (m.set k v).entries) : e = (k, v) ∨ e ∈ m.entries := by
  rw [entries_set] at he
  split at he
  · obtain ⟨e', he', rfl⟩ := List.mem_map.1 he
    split
    · exact .inl rfl
    · exact .inr he'
  · rcases List.mem_append.1 he with he | he
    · exact .inr he
    · exact .inl (List.mem_singleton.1 he)

theorem mem_entries_setAll {es : List (κ × ν)} {e : κ × ν} :
    ∀ {m : InsertionMap κ ν}, e ∈ (m.setAll es).entries → e ∈ es ∨ e ∈ m.entries := by
  induction es with
  | nil => exact fun h => Or.inr h
  | cons e' es ih =>
      intro m h
      rcases ih h with h | h
      · exact Or.inl (List.mem_cons_of_mem _ h)
      · rcases mem_entries_set h with rfl | h
        · exact Or.inl List.mem_cons_self
        · exact Or.inr h

theorem mem_keys_set {m : InsertionMap κ ν} {k x : κ} {v : ν} :
    x ∈ (m.set k v).keys ↔ x ∈ m.keys ∨ x = k := by
  rw [keys, entries_set]
  split
  · next hk =>
      rw [map_fst_replace, ← keys]
      constructor
      · exact .inl
      · rintro (hx | rfl)
        · exact hx
        · exact hk
  · rw [List.map_append, List.mem_append]
    simp [keys]

theorem mem_keys_setAll {es : List (κ × ν)} {m : InsertionMap κ ν} {x : κ} :
    x ∈ (m.setAll es).keys ↔ x ∈ m.keys ∨ x ∈ es.map Prod.fst := by
  unfold setAll
  induction es generalizing m with
  | nil => simp
  | cons e es ih =>
      rw [List.foldl_cons, ih, mem_keys_set, List.map_cons, List.mem_cons, or_assoc]

/-- New keys are appended in order. -/
theorem entries_setAll {es : List (κ × ν)} (hes : (es.map Prod.fst).Nodup) :
    ∀ {m : InsertionMap κ ν}, (∀ k ∈ es.map Prod.fst, k ∉ m.keys) →
      (m.setAll es).entries = m.entries ++ es := by
  unfold setAll
  induction es with
  | nil => exact fun _ => (List.append_nil _).symm
  | cons e es ih =>
      intro m hm
      obtain ⟨he, hes⟩ := List.nodup_cons.1 hes
      rw [List.foldl_cons, ih hes, entries_set, if_neg (hm e.1 List.mem_cons_self)]
      · simp
      · intro k hk hmem
        rcases mem_keys_set.1 hmem with h | rfl
        · exact hm k (List.mem_cons_of_mem _ hk) h
        · exact he hk

theorem AllVals.set {P : ν → Prop} {m : InsertionMap κ ν} (h : m.AllVals P) (k : κ) {v : ν}
    (hv : P v) : (m.set k v).AllVals P := by
  intro e he
  rcases mem_entries_set he with rfl | he
  · exact hv
  · exact h e he

theorem AllVals.setAll {P : ν → Prop} {es : List (κ × ν)} {m : InsertionMap κ ν}
    (h : m.AllVals P) (hes : ∀ e ∈ es, P e.2) : (m.setAll es).AllVals P := by
  unfold InsertionMap.setAll
  induction es generalizing m with
  | nil => exact h
  | cons e es ih =>
      exact ih (h.set e.1 (hes e List.mem_cons_self)) fun e' he' => hes e' (List.mem_cons_of_mem _ he')

theorem get?_mem {m : InsertionMap κ ν} {k : κ} {v : ν} (h : m.get? k = some v) :
    (k, v) ∈ m.entries := by
  obtain ⟨e, he, rfl⟩ := Option.map_eq_some_iff.1 h
  have hk : e.1 = k := by simpa using List.find?_some he
  rw [← hk]
  exact List.mem_of_find?_eq_some he

theorem get?_of_mem {m : InsertionMap κ ν} {k : κ} {v : ν} (h : (k, v) ∈ m.entries) :
    m.get? k = some v := by
  cases hf : m.entries.find? (fun e => e.1 = k) with
  | none => simpa using List.find?_eq_none.1 hf (k, v) h
  | some e =>
      have hk : e.1 = k := by simpa using List.find?_some hf
      have he := List.inj_on_of_nodup_map m.nodup (List.mem_of_find?_eq_some hf) h hk
      rw [get?, hf, he]
      rfl

@[simp] theorem get?_set_self (m : InsertionMap κ ν) (k : κ) (v : ν) :
    (m.set k v).get? k = some v := by
  refine get?_of_mem ?_
  rw [entries_set]
  split
  · next hk =>
      obtain ⟨w, hw⟩ := mem_keys.1 hk
      exact List.mem_map.2 ⟨(k, w), hw, if_pos rfl⟩
  · exact List.mem_append_right _ (List.mem_singleton.2 rfl)

theorem get?_set_of_ne {k x : κ} (hne : x ≠ k) (m : InsertionMap κ ν) (v : ν) :
    (m.set k v).get? x = m.get? x := by
  refine Option.ext fun w => ⟨fun h => ?_, fun h => get?_of_mem ?_⟩
  · rcases mem_entries_set (get?_mem h) with he | he
    · cases he
      exact absurd rfl hne
    · exact get?_of_mem he
  · rw [entries_set]
    split
    · exact List.mem_map.2 ⟨(x, w), get?_mem h, if_neg hne⟩
    · exact List.mem_append_left _ (get?_mem h)

theorem get?_set (m : InsertionMap κ ν) (k x : κ) (v : ν) :
    (m.set k v).get? x = if x = k then some v else m.get? x := by
  split
  · next h => rw [h, get?_set_self]
  · next h => exact get?_set_of_ne h m v

/-- Setting entries that agree with an entry leaves it where it is. -/
theorem mem_entries_setAll_of_agree {e : κ × ν} {es : List (κ × ν)} :
    ∀ {m : InsertionMap κ ν}, e ∈ m.entries → (∀ e' ∈ es, e'.1 = e.1 → e'.2 = e.2) →
      e ∈ (m.setAll es).entries := by
  induction es with
  | nil => exact fun he _ => he
  | cons e' es ih =>
      intro m he hagree
      refine ih (get?_mem ?_) fun x hx => hagree x (List.mem_cons_of_mem _ hx)
      rw [get?_set]
      split
      · next hkey => rw [hagree e' List.mem_cons_self hkey.symm]
      · exact get?_of_mem he

/-- Of entries with distinct keys all are there when they have been set. -/
theorem mem_entries_setAll_of_nodup {e : κ × ν} {es : List (κ × ν)}
    (hes : (es.map Prod.fst).Nodup) : ∀ {m : InsertionMap κ ν}, e ∈ es →
      e ∈ (m.setAll es).entries := by
  induction es with
  | nil => exact fun he => nomatch he
  | cons e' es ih =>
      intro m he
      obtain ⟨hnot, hes⟩ := List.nodup_cons.1 hes
      rcases List.mem_cons.1 he with rfl | he
      · have hset : e ∈ (m.set e.1 e.2).entries := get?_mem (get?_set_self m e.1 e.2)
        have hagree : ∀ x ∈ es, x.1 = e.1 → x.2 = e.2 := fun x hx hkey =>
          absurd (hkey ▸ List.mem_map_of_mem hx) hnot
        exact @mem_entries_setAll_of_agree κ ν _ e es (m.set e.1 e.2) hset hagree
      · exact ih hes he

theorem setAll_entries (m : InsertionMap κ ν) :
    (∅ : InsertionMap κ ν).setAll m.entries = m := by
  ext1
  rw [entries_setAll m.nodup fun _ _ h => by cases h]
  rfl

/-- The entries with a test and those without it, put under new values. -/
theorem entries_rejoin (m : InsertionMap κ ν) (p : κ → ν → Bool)
    (f g : κ → ν → ν) :
    ((((m.filter p).mapVal f).setAll
      ((m.filter fun k v => !p k v).mapVal g).entries).entries).Perm
      (m.mapVal fun k v => if p k v then f k v else g k v).entries := by
  have hdisjoint : ∀ k ∈ (((m.filter fun k v => !p k v).mapVal g).entries.map Prod.fst),
      k ∉ ((m.filter p).mapVal f).keys := by
    intro k hk hmem
    rw [← keys, keys_mapVal] at hk
    rw [keys_mapVal] at hmem
    obtain ⟨v, hv, hnot⟩ := mem_keys_filter.1 hk
    obtain ⟨v', hv', hp⟩ := mem_keys_filter.1 hmem
    have heq : (k, v) = (k, v') := List.inj_on_of_nodup_map m.nodup hv hv' rfl
    cases heq
    rw [hp] at hnot
    cases hnot
  rw [entries_setAll (nodup _) hdisjoint]
  have hsplit := List.filter_append_perm (fun e : κ × ν => p e.1 e.2) m.entries
  have hmap := hsplit.map fun e => (e.1, if p e.1 e.2 then f e.1 e.2 else g e.1 e.2)
  refine List.Perm.trans (List.Perm.of_eq ?_) hmap
  rw [List.map_append]
  congr 1
  · refine List.map_congr_left fun e he => ?_
    rw [if_pos (List.mem_filter.1 he).2]
  · refine List.map_congr_left fun e he => ?_
    rw [if_neg (by simpa using (List.mem_filter.1 he).2)]

theorem keys_setAll_of_mem {es : List (κ × ν)} :
    ∀ {m : InsertionMap κ ν}, (∀ e ∈ es, e.1 ∈ m.keys) → (m.setAll es).keys = m.keys := by
  induction es with
  | nil => exact fun _ => rfl
  | cons e es ih =>
      intro m hes
      have hset : (m.set e.1 e.2).keys = m.keys := by
        rw [keys, entries_set, if_pos (hes e List.mem_cons_self),
          map_fst_replace, ← keys]
      have ih := @ih (m.set e.1 e.2) fun e' he' => by
        rw [hset]
        exact hes e' (List.mem_cons_of_mem _ he')
      exact ih.trans hset

omit [DecidableEq κ] in
theorem eq_of_keys {m m' : InsertionMap κ ν} (hkeys : m.keys = m'.keys)
    (h : ∀ e ∈ m'.entries, e ∈ m.entries) : m = m' := by
  ext1
  have hlength : m.entries.length = m'.entries.length := by
    have := congrArg List.length hkeys
    rwa [keys, keys, List.length_map, List.length_map] at this
  refine List.ext_getElem hlength fun i hi hi' => ?_
  refine List.inj_on_of_nodup_map m.nodup (List.getElem_mem hi) (h _ (List.getElem_mem hi')) ?_
  have hkey := congrArg (fun keys => keys[i]?) hkeys
  simpa [keys, hi, hi'] using hkey

/-- Every key of a map set to what it is to become. -/
theorem setAll_eq_mapVal {m : InsertionMap κ ν} {F : κ → ν → ν} {es : List (κ × ν)}
    (hnodup : (es.map Prod.fst).Nodup) (hall : ∀ e ∈ m.entries, (e.1, F e.1 e.2) ∈ es)
    (hkeys : ∀ e ∈ es, e.1 ∈ m.keys) : m.setAll es = m.mapVal F := by
  refine eq_of_keys ?_ fun e he => ?_
  · rw [keys_setAll_of_mem hkeys, keys_mapVal]
  · obtain ⟨e', he', rfl⟩ := List.mem_map.1 he
    exact mem_entries_setAll_of_nodup hnodup (hall e' he')

theorem get?_mapVal (f : ν → ν') (m : InsertionMap κ ν) (k : κ) :
    (m.mapVal fun _ => f).get? k = (m.get? k).map f := by
  cases hget : m.get? k with
  | some v =>
      exact get?_of_mem (List.mem_map.2 ⟨(k, v), get?_mem hget, rfl⟩)
  | none =>
      cases hmap : (m.mapVal fun _ => f).get? k with
      | none => rfl
      | some w =>
          obtain ⟨⟨k', v⟩, hmem, heq⟩ := List.mem_map.1 (get?_mem hmap)
          cases heq
          rw [get?_of_mem hmem] at hget
          cases hget

/-- Deleting other entries leaves an entry where it is. -/
theorem get?_filter {m : InsertionMap κ ν} {p : κ → ν → Bool} {k : κ} {v : ν}
    (h : m.get? k = some v) (hp : p k v = true) : (m.filter p).get? k = some v :=
  get?_of_mem (List.mem_filter.2 ⟨get?_mem h, hp⟩)

theorem get?_of_filter {m : InsertionMap κ ν} {p : κ → ν → Bool} {k : κ} {v : ν}
    (h : (m.filter p).get? k = some v) : m.get? k = some v ∧ p k v = true := by
  obtain ⟨hmem, hp⟩ := List.mem_filter.1 (get?_mem h)
  exact ⟨get?_of_mem hmem, hp⟩

theorem exists_get? {m : InsertionMap κ ν} {k : κ} (h : k ∈ m.keys) : ∃ v, m.get? k = some v := by
  obtain ⟨v, hv⟩ := mem_keys.1 h
  exact ⟨v, get?_of_mem hv⟩

theorem mem_keys_iff_get? {m : InsertionMap κ ν} {k : κ} :
    k ∈ m.keys ↔ (m.get? k).isSome = true := by
  constructor
  · intro h
    obtain ⟨v, hv⟩ := exists_get? h
    rw [hv]
    rfl
  · intro h
    obtain ⟨v, hv⟩ := Option.isSome_iff_exists.1 h
    exact mem_keys.2 ⟨v, get?_mem hv⟩

@[simp] theorem has_eq_true {m : InsertionMap κ ν} {k : κ} : m.has k = true ↔ k ∈ m.keys :=
  decide_eq_true_iff

end InsertionMap

namespace InsertionSet

variable {α : Type*} [DecidableEq α]

def add (s : List α) (x : α) : List α := if x ∈ s then s else s ++ [x]

/-- `new Set(xs)` -/
def ofList (xs : List α) : List α := xs.foldl add []

@[simp] theorem mem_add {s : List α} {x y : α} : y ∈ add s x ↔ y ∈ s ∨ y = x := by
  unfold add
  split
  · next h =>
      constructor
      · exact .inl
      · rintro (hy | rfl)
        · exact hy
        · exact h
  · rw [List.mem_append, List.mem_singleton]

theorem nodup_add {s : List α} (h : s.Nodup) (x : α) : (add s x).Nodup := by
  unfold add
  split
  · exact h
  · next hx =>
      refine List.nodup_append.2 ⟨h, List.nodup_singleton x, ?_⟩
      rintro a ha b hb rfl
      exact hx (List.mem_singleton.1 hb ▸ ha)

@[simp] theorem mem_foldl_add {xs s : List α} {y : α} : y ∈ xs.foldl add s ↔ y ∈ s ∨ y ∈ xs := by
  induction xs generalizing s with
  | nil => simp
  | cons x xs ih => rw [List.foldl_cons, ih, mem_add, List.mem_cons, or_assoc]

theorem nodup_foldl_add {xs s : List α} (h : s.Nodup) : (xs.foldl add s).Nodup := by
  induction xs generalizing s with
  | nil => exact h
  | cons x xs ih => exact ih (nodup_add h x)

@[simp] theorem mem_ofList {xs : List α} {y : α} : y ∈ ofList xs ↔ y ∈ xs := by
  simp [ofList]

theorem nodup_ofList (xs : List α) : (ofList xs).Nodup := nodup_foldl_add List.nodup_nil

end InsertionSet

end Atrib.Lib
