import Atrib.Atribd.Idempotency
import Atrib.Lib.Run

/-!
# An idempotent write runs at most once

What the entries in memory say is compared with the log of the updates made to
them. The last update of a key is in memory unless its window is over, and it
is in the file as soon as the call that made it has returned. So a begin for a
key whose last update is in its window answers from that update, and never
lets a second caller write.

That needs room. `pruneCompleted` runs before the key is looked up and makes
room for one more entry, also when the key that is about to be looked up has
its entry already. A store that holds as many entries as it may forgets a
completed one at every begin, and with it what keeps the write from being
repeated.
-/

namespace Atrib.Atribd

open Lib InsertionMap

/-- A list that is sorted along a test is what passes followed by what does not. -/
theorem filter_append_filter_not {α : Type} {p : α → Bool} {l : List α}
    (h : l.Pairwise fun a b => p b = true → p a = true) :
    l = l.filter p ++ l.filter fun a => !p a := by
  induction l with
  | nil => rfl
  | cons a l ih =>
      obtain ⟨ha, hl⟩ := List.pairwise_cons.1 h
      by_cases hp : p a = true
      · rw [List.filter_cons_of_pos hp, List.filter_cons_of_neg (by rw [hp]; nofun),
          List.cons_append, ← ih hl]
      · have hnone : l.filter p = [] :=
          List.filter_eq_nil_iff.2 fun b hb hpb => hp (ha b hb hpb)
        have hall : (l.filter fun a => !p a) = l :=
          List.filter_eq_self.2 fun b hb => Bool.not_eq_true' _ ▸ eq_false_of_ne_true
            (List.filter_eq_nil_iff.1 hnone b hb)
        rw [List.filter_cons_of_neg hp, List.filter_cons_of_pos (by simpa using hp), hnone, hall]
        rfl

namespace StoreOptions

variable {ρ : Type} (options : StoreOptions)

def Expired (now : ℤ) (entry : IdempotencyEntry ρ) : Bool :=
  entry.isCompleted && decide (entry.updatedAt < now - options.windowMs)

/-- The entries without those whose window is over. -/
def aged (now : ℤ) (entries : Entries ρ) : Entries ρ :=
  entries.filter fun _ entry => !options.Expired now entry

/-- Each entry stands under its own key. -/
def WellKeyed (entries : Entries ρ) : Prop := ∀ e ∈ entries.entries, e.2.keyHash = e.1

variable {options}

theorem foldl_expired {now : ℤ} {entries : Entries ρ} {l : List (IdempotencyEntry ρ)}
    (h : ∀ entry ∈ l, entry.updatedAt < now - options.windowMs) :
    l.foldl (options.pruneEntry now) entries =
      entries.filter fun key _ => key ∉ l.map (·.keyHash) := by
  induction l generalizing entries with
  | nil =>
      ext1
      exact (List.filter_eq_self.2 fun _ _ => rfl).symm
  | cons entry l ih =>
      rw [List.foldl_cons, ih fun e he => h e (List.mem_cons_of_mem _ he), pruneEntry,
        if_pos (.inl (h entry List.mem_cons_self))]
      ext1
      show List.filter _ (List.filter _ _) = List.filter _ _
      rw [List.filter_filter]
      refine List.filter_congr fun e _ => ?_
      simp [List.mem_map, eq_comm, Bool.and_comm]

theorem foldl_kept {now : ℤ} {entries : Entries ρ} {l : List (IdempotencyEntry ρ)}
    (h : ∀ entry ∈ l, ¬ entry.updatedAt < now - options.windowMs)
    (hroom : l ≠ [] → entries.size < options.maxEntries) :
    l.foldl (options.pruneEntry now) entries = entries := by
  induction l with
  | nil => rfl
  | cons entry l ih =>
      have hlt := hroom (List.cons_ne_nil _ _)
      rw [List.foldl_cons, pruneEntry, if_neg (not_or.2 ⟨h entry List.mem_cons_self, not_le.2 hlt⟩)]
      exact ih (fun e he => h e (List.mem_cons_of_mem _ he)) fun _ => hlt

/-- The entries that stay include no completed one, or there are fewer than the store holds. -/
def Room (options : StoreOptions) (now : ℤ) (entries : Entries ρ) : Prop :=
  options.maxEntries ≤ (options.aged now entries).size →
    ∀ entry ∈ (options.aged now entries).values, entry.isCompleted = false

instance (now : ℤ) (entries : Entries ρ) : Decidable (options.Room now entries) :=
  inferInstanceAs (Decidable (_ → ∀ entry ∈ _, _))

/-- With room, nothing but age makes `pruneCompleted` forget an entry. -/
theorem pruneCompleted_eq_aged {now : ℤ} {entries : Entries ρ} (hkeyed : WellKeyed entries)
    (hroom : options.Room now entries) : options.pruneCompleted now entries =
      options.aged now entries := by
  unfold pruneCompleted
  set completed := (entries.values.filter (·.isCompleted)).mergeSort fun left right =>
    decide (left.updatedAt ≤ right.updatedAt) with hcompleted
  have hmem : ∀ {entry}, entry ∈ completed ↔ entry ∈ entries.values ∧ entry.isCompleted = true := by
    intro entry
    rw [hcompleted, List.mem_mergeSort, List.mem_filter]
  have hsorted : completed.Pairwise fun left right =>
      decide (left.updatedAt ≤ right.updatedAt) = true :=
    List.pairwise_mergeSort (fun a b c hab hbc => by simp at *; omega)
      (fun a b => by simp; omega) _
  let old (entry : IdempotencyEntry ρ) : Bool :=
    decide (entry.updatedAt < now - options.windowMs)
  have hsplit : completed = completed.filter old ++ completed.filter fun entry => !old entry :=
    filter_append_filter_not (hsorted.imp fun hle hold => by
      simp only [old, decide_eq_true_eq] at *
      omega)
  have hexpired : (completed.filter old).foldl (options.pruneEntry now) entries =
      options.aged now entries := by
    rw [foldl_expired fun entry he => of_decide_eq_true (List.mem_filter.1 he).2]
    ext1
    refine List.filter_congr fun e he => ?_
    have hiff : e.1 ∈ (completed.filter old).map (·.keyHash) ↔
        options.Expired now e.2 = true := by
      unfold Expired
      rw [Bool.and_eq_true, List.mem_map]
      constructor
      · rintro ⟨entry, hentry, hkey⟩
        obtain ⟨hin, hold⟩ := List.mem_filter.1 hentry
        obtain ⟨hvalue, hcomp⟩ := hmem.1 hin
        obtain ⟨e', he', rfl⟩ := List.mem_map.1 hvalue
        have hsame : e' = e :=
          List.inj_on_of_nodup_map entries.nodup he' he ((hkeyed e' he').symm.trans hkey)
        exact hsame ▸ ⟨hcomp, hold⟩
      · rintro ⟨hcomp, hold⟩
        exact ⟨e.2, List.mem_filter.2 ⟨hmem.2 ⟨List.mem_map.2 ⟨e, he, rfl⟩, hcomp⟩, hold⟩,
          hkeyed e he⟩
    show decide (e.1 ∉ (completed.filter old).map (·.keyHash)) = !options.Expired now e.2
    by_cases hexpired : options.Expired now e.2 = true
    · rw [hexpired, decide_eq_false (not_not.2 (hiff.2 hexpired))]
      rfl
    · have hnot : e.1 ∉ (completed.filter old).map (·.keyHash) := fun hin => hexpired (hiff.1 hin)
      rw [eq_false_of_ne_true hexpired, decide_eq_true hnot]
      rfl
  rw [hsplit, List.foldl_append, hexpired]
  refine foldl_kept (fun entry he => ?_) fun hne => ?_
  · simpa [old] using (List.mem_filter.1 he).2
  · obtain ⟨entry, hentry⟩ := List.exists_mem_of_ne_nil _ hne
    obtain ⟨hin, hyoung⟩ := List.mem_filter.1 hentry
    obtain ⟨hvalue, hcomp⟩ := hmem.1 hin
    obtain ⟨e, he, rfl⟩ := List.mem_map.1 hvalue
    by_contra hfull
    have hstays : e ∈ (options.aged now entries).entries := by
      refine List.mem_filter.2 ⟨he, ?_⟩
      show (!options.Expired now e.2) = true
      rw [Expired, hcomp]
      exact hyoung
    rw [hroom (not_lt.1 hfull) e.2 (List.mem_map.2 ⟨e, hstays, rfl⟩)] at hcomp
    cases hcomp

/-- A key without an entry is one that a caller may own, or that finds the store full. -/
theorem get?_of_answer {entries : Entries ρ} {keyHash binding : String}
    (h : options.answer entries keyHash binding = .owner ∨
      options.answer entries keyHash binding = .full) : entries.get? keyHash = none := by
  cases hget : entries.get? keyHash with
  | none => rfl
  | some prior =>
      rw [answer, hget] at h
      dsimp only at h
      split at h
      · rcases h with h | h <;> cases h
      · split at h <;> rcases h with h | h <;> cases h

/-- Whatever the file holds, the store has its own profile. -/
theorem loadState_profile (file : Option (IdempotencyState ρ)) :
    (options.loadState file).profile = safeProfile options.profile := by
  unfold loadState
  split
  · split
    · assumption
    · rfl
  · rfl

/-! ### The last update of a key -/

def lastUpdate (updates : List (Update ρ)) (keyHash : String) : Option (Update ρ) :=
  (updates.filter (·.keyHash = keyHash)).getLast?

theorem lastUpdate_append (updates : List (Update ρ)) (u : Update ρ) (keyHash : String) :
    lastUpdate (updates ++ [u]) keyHash =
      if u.keyHash = keyHash then some u else lastUpdate updates keyHash := by
  unfold lastUpdate
  rw [List.filter_append]
  by_cases h : u.keyHash = keyHash
  · rw [if_pos h, List.filter_singleton, decide_eq_true h]
    exact List.getLast?_concat
  · rw [if_neg h, List.filter_singleton, decide_eq_false h]
    exact congrArg List.getLast? (List.append_nil _)

/-- What the entries say about each key is its last update, unless its window is over. -/
structure Reflects (options : StoreOptions) (now : ℤ) (entries : Entries ρ)
    (updates : List (Update ρ)) : Prop where
  keyed : WellKeyed entries
  found : ∀ {k e}, entries.get? k = some e → ∃ u, lastUpdate updates k = some u ∧
    e.binding = u.binding ∧ e.status = u.status ∧ e.updatedAt = u.time
  known : ∀ {k u}, lastUpdate updates k = some u → entries.get? k = none →
    u.status ≠ .pending ∧ u.time + options.windowMs < now

namespace Reflects

variable {now : ℤ} {entries : Entries ρ} {updates : List (Update ρ)}

theorem mono (h : Reflects options now entries updates) {now' : ℤ} (hle : now ≤ now') :
    Reflects options now' entries updates where
  keyed := h.keyed
  found := h.found
  known hlast hnone := (h.known hlast hnone).imp_right fun hlt => hlt.trans_le hle

theorem init : Reflects options now (∅ : Entries ρ) [] where
  keyed := nofun
  found h := nomatch h
  known h := nomatch h

theorem aged (h : Reflects options now entries updates) :
    Reflects options now (options.aged now entries) updates where
  keyed e he := h.keyed e (List.mem_filter.1 he).1
  found hget := h.found (get?_of_filter hget).1
  known := by
    intro k u hlast hnone
    cases hget : entries.get? k with
    | none => exact h.known hlast hget
    | some e =>
        obtain ⟨u', hlast', -, hstatus, htime⟩ := h.found hget
        obtain rfl := Option.some.inj (hlast'.symm.trans hlast)
        have hexpired : options.Expired now e = true := by
          by_contra hyoung
          have hstays := get?_filter hget
            (p := fun _ entry => !options.Expired now entry) (by simpa using hyoung)
          exact absurd (hstays.symm.trans hnone) nofun
        rw [Expired, IdempotencyEntry.isCompleted, hstatus, htime, Bool.and_eq_true] at hexpired
        obtain ⟨hcomp, hlt⟩ := hexpired
        refine ⟨fun hpending => ?_, by simpa [lt_sub_iff_add_lt] using hlt⟩
        rw [hpending] at hcomp
        cases hcomp

theorem put (h : Reflects options now entries updates) (entry : IdempotencyEntry ρ) (u : Update ρ)
    (hkey : u.keyHash = entry.keyHash) (hbinding : entry.binding = u.binding)
    (hstatus : entry.status = u.status) (htime : entry.updatedAt = u.time) :
    Reflects options now (entries.set entry.keyHash entry) (updates ++ [u]) where
  keyed := by
    intro e he
    rcases mem_entries_set he with rfl | he
    · rfl
    · exact h.keyed e he
  found := by
    intro k e hget
    rw [lastUpdate_append, hkey]
    rw [get?_set] at hget
    by_cases hk : k = entry.keyHash
    · rw [if_pos hk, Option.some.injEq] at hget
      subst hget
      rw [if_pos hk.symm]
      exact ⟨u, rfl, hbinding, hstatus, htime⟩
    · rw [if_neg hk] at hget
      rw [if_neg (Ne.symm hk)]
      exact h.found hget
  known := by
    intro k u' hlast hnone
    rw [lastUpdate_append, hkey] at hlast
    rw [get?_set] at hnone
    by_cases hk : k = entry.keyHash
    · rw [if_pos hk] at hnone
      cases hnone
    · rw [if_neg hk] at hnone
      rw [if_neg (Ne.symm hk)] at hlast
      exact h.known hlast hnone

end Reflects

end StoreOptions

namespace IdempotencyStore

open StoreOptions

variable {ρ : Type} (options : StoreOptions)

/-- What the last update of a key makes `begin` answer. -/
def answerFrom (u : Update ρ) (binding : String) : BeginAnswer ρ :=
  if u.binding ≠ binding then .bindingMismatch
  else
    match u.status with
    | .completed result => .replay result
    | .pending => .indeterminate

/-- An idempotent write runs at most once in its window. The updates that `returned` lists are
what the callers know of, and a restart goes back to them. -/
structure AtMostOnce (s : IdempotencyStore ρ) : Prop where
  once : s.returned.Pairwise fun u v => u.keyHash = v.keyHash → v.status = .pending →
    u.time + options.windowMs < v.time
  kept : s.returned <+: s.made
  answers : ∀ {key u}, options.Room s.clock s.state.entries →
    lastUpdate s.made (options.hashKey key) = some u → s.clock ≤ u.time + options.windowMs →
    ∀ binding, s.beginAnswer options key binding = answerFrom u binding

/-- A begin finds room for another entry, or no completed one to forget. -/
def HasRoom (s : IdempotencyStore ρ) : StoreAction ρ → Prop
  | .begin .. => options.Room s.clock s.state.entries
  | _ => True

instance (s : IdempotencyStore ρ) : DecidablePred (s.HasRoom options)
  | .begin .. => inferInstanceAs (Decidable (options.Room s.clock s.state.entries))
  | .tick _ | .complete .. | .write _ | .restart => isTrue trivial

/-- The log of the updates, the entries in memory, the chain of writes and the file agree. -/
structure Ledger (s : IdempotencyStore ρ) : Prop where
  memory : Reflects options s.clock s.state.entries s.made
  durable : Reflects options s.clock (options.loadState s.file).entries s.returned
  profile : s.state.profile = safeProfile options.profile
  kept : s.returned <+: s.made
  chain : s.broken = false → s.made = s.returned ++ s.writes.map (·.update)
  snapshots : s.broken = false → ∀ {before w after}, s.writes = before ++ w :: after →
    w.snapshot.profile = safeProfile options.profile ∧
    Reflects options s.clock w.snapshot.entries
      (s.returned ++ (before ++ [w]).map (·.update))
  past : ∀ u ∈ s.made, u.time ≤ s.clock
  sorted : s.made.Pairwise fun u v => u.time ≤ v.time
  once : s.made.Pairwise fun u v => u.keyHash = v.keyHash → v.status = .pending →
    u.time + options.windowMs < v.time

namespace Ledger

variable {options} {s : IdempotencyStore ρ}

/-- A later update of a key is its last one, or before it. -/
theorem le_lastUpdate (h : Ledger options s) {u : Update ρ} (hu : u ∈ s.made) :
    ∃ v, lastUpdate s.made u.keyHash = some v ∧ u.time ≤ v.time := by
  have hin : u ∈ s.made.filter (·.keyHash = u.keyHash) :=
    List.mem_filter.2 ⟨hu, decide_eq_true rfl⟩
  obtain ⟨v, hv⟩ := List.getLast?_isSome.2 (List.ne_nil_of_mem hin) |> Option.isSome_iff_exists.1
  refine ⟨v, hv, ?_⟩
  have hsorted := h.sorted.filter (·.keyHash = u.keyHash)
  obtain ⟨front, hfront⟩ := List.getLast?_eq_some_iff.1 hv
  rw [hfront] at hin hsorted
  rcases List.mem_append.1 hin with hin | hin
  · exact (List.pairwise_append.1 hsorted).2.2 u hin v (List.mem_singleton.2 rfl)
  · exact (congrArg Update.time (List.mem_singleton.1 hin)).le

theorem tick (h : Ledger options s) (elapsed : ℕ) :
    Ledger options { s with clock := s.clock + elapsed } := by
  have hle : s.clock ≤ s.clock + elapsed := by omega
  exact {
    memory := h.memory.mono hle
    durable := h.durable.mono hle
    profile := h.profile
    kept := h.kept
    chain := h.chain
    snapshots := fun hbroken {_ _ _} hw =>
      (h.snapshots hbroken hw).imp_right fun hreflects => hreflects.mono hle
    past := fun u hu => (h.past u hu).trans hle
    sorted := h.sorted
    once := h.once }

theorem prune (h : Ledger options s) (hroom : options.Room s.clock s.state.entries) :
    Ledger options (s.prune options) where
  memory := by
    show Reflects options s.clock (options.pruneCompleted s.clock s.state.entries) s.made
    rw [pruneCompleted_eq_aged h.memory.keyed hroom]
    exact h.memory.aged
  durable := h.durable
  profile := h.profile
  kept := h.kept
  chain := h.chain
  snapshots := h.snapshots
  past := h.past
  sorted := h.sorted
  once := h.once

theorem putEntry (h : Ledger options s) (entry : IdempotencyEntry ρ) (u : Update ρ)
    (hkey : u.keyHash = entry.keyHash) (hbinding : entry.binding = u.binding)
    (hstatus : entry.status = u.status) (htime : entry.updatedAt = u.time)
    (hnow : u.time = s.clock)
    (honce : ∀ v ∈ s.made, v.keyHash = u.keyHash → u.status = .pending →
      v.time + options.windowMs < u.time) : Ledger options (s.putEntry entry u) := by
  have hput := h.memory.put entry u hkey hbinding hstatus htime
  exact {
    memory := hput
    durable := h.durable
    profile := h.profile
    kept := h.kept.trans (List.prefix_append _ _)
    chain := by
      intro hbroken
      show s.made ++ [u] = s.returned ++ (s.writes ++ [StateWrite.mk u _]).map (·.update)
      rw [List.map_append, ← List.append_assoc, ← h.chain hbroken]
      rfl
    snapshots := by
      intro hbroken before w after hw
      rcases List.eq_nil_or_concat after with rfl | ⟨after, last, rfl⟩
      · obtain ⟨rfl, hlast⟩ := List.append_inj' hw rfl
        obtain rfl := List.singleton_inj.1 hlast
        refine ⟨h.profile, ?_⟩
        have hmade : s.returned ++ (s.writes ++ [StateWrite.mk u
            { s.state with entries := s.state.entries.set entry.keyHash entry }]).map (·.update) =
            s.made ++ [u] := by
          rw [List.map_append, ← List.append_assoc, ← h.chain hbroken]
          rfl
        exact hmade ▸ hput
      · rw [List.concat_eq_append, ← List.cons_append, ← List.append_assoc] at hw
        exact h.snapshots hbroken (List.append_inj' hw rfl).1
    past := by
      intro v hv
      rcases List.mem_append.1 hv with hv | hv
      · exact h.past v hv
      · exact (List.mem_singleton.1 hv ▸ hnow).le
    sorted := by
      refine List.pairwise_append.2 ⟨h.sorted, List.pairwise_singleton .., fun v hv w hw => ?_⟩
      rw [List.mem_singleton.1 hw, hnow]
      exact h.past v hv
    once := by
      refine List.pairwise_append.2 ⟨h.once, List.pairwise_singleton .., fun v hv w hw => ?_⟩
      obtain rfl := List.mem_singleton.1 hw
      exact honce v hv }

theorem begin (h : Ledger options s) (key binding : String) (elapsed : ℕ)
    (hroom : options.Room s.clock s.state.entries) :
    Ledger options (s.begin options key binding elapsed) := by
  have hpruned := h.prune hroom
  unfold IdempotencyStore.begin
  dsimp only
  split
  · rename_i howner
    refine (hpruned.tick elapsed).putEntry _ _ rfl rfl rfl rfl rfl fun v hv hkey _ => ?_
    -- the key has no entry, so its last update is out of its window
    obtain ⟨last, hlast, hle⟩ := hpruned.le_lastUpdate hv
    have hnone := get?_of_answer (.inl howner)
    rw [hkey] at hlast
    have hover := (hpruned.memory.known hlast hnone).2
    calc v.time + options.windowMs ≤ last.time + options.windowMs := by omega
      _ < s.clock := hover
      _ ≤ s.clock + elapsed := by omega
  · exact hpruned

theorem complete (h : Ledger options s) (keyHash binding : String) (result : ρ) :
    Ledger options (s.complete keyHash binding result) := by
  unfold IdempotencyStore.complete
  split
  · exact h.putEntry _ _ rfl rfl rfl rfl rfl fun v _ _ hpending => nomatch hpending
  · exact h

theorem write (h : Ledger options s) (ok : Bool) : Ledger options (s.write ok) := by
  unfold IdempotencyStore.write
  cases hwrites : s.writes with
  | nil => exact h
  | cons w writes =>
      dsimp only
      cases hlanded : ok && !s.broken with
      | false =>
          exact {
            memory := h.memory
            durable := h.durable
            profile := h.profile
            kept := h.kept
            chain := nofun
            snapshots := nofun
            past := h.past
            sorted := h.sorted
            once := h.once }
      | true =>
          have hbroken : s.broken = false := by
            rw [Bool.and_eq_true, Bool.not_eq_true'] at hlanded
            exact hlanded.2
          have hfirst : s.writes = [] ++ w :: writes := hwrites
          obtain ⟨hprofile, hsnapshot⟩ := h.snapshots hbroken hfirst
          have hchain := h.chain hbroken
          rw [hwrites, List.map_cons, ← List.singleton_append, ← List.append_assoc] at hchain
          exact {
            memory := h.memory
            durable := by
              show Reflects options s.clock (options.loadState (some w.snapshot)).entries _
              rw [loadState, if_pos hprofile]
              exact hsnapshot
            profile := h.profile
            kept := ⟨_, hchain.symm⟩
            chain := fun _ => hchain
            snapshots := by
              intro _ before w' after hw
              have hw' : s.writes = (w :: before) ++ w' :: after :=
                hwrites.trans (congrArg (w :: ·) hw)
              have hlater := h.snapshots hbroken hw'
              rw [List.cons_append, List.map_cons, ← List.singleton_append,
                ← List.append_assoc] at hlater
              exact hlater
            past := h.past
            sorted := h.sorted
            once := h.once }

theorem restart (h : Ledger options s) :
    Ledger options (load options s.file s.clock s.returned s.outcomes) where
  memory := h.durable
  durable := h.durable
  profile := loadState_profile _
  kept := List.prefix_refl _
  chain _ := (List.append_nil _).symm
  snapshots := by
    intro _ before w after hw
    exact absurd hw (by simp [load])
  past u hu := h.past u (h.kept.subset hu)
  sorted := h.sorted.sublist h.kept.sublist
  once := h.once.sublist h.kept.sublist

theorem step (h : Ledger options s) {a : StoreAction ρ} (hok : s.HasRoom options a) :
    Ledger options (s.step options a) := by
  cases a with
  | tick elapsed => exact h.tick elapsed
  | begin key binding elapsed => exact h.begin key binding elapsed hok
  | complete keyHash binding result => exact h.complete keyHash binding result
  | write ok => exact h.write ok
  | restart => exact h.restart

/-- What is in the ledger decides the answers. -/
theorem atMostOnce (h : Ledger options s) : AtMostOnce options s where
  once := h.once.sublist h.kept.sublist
  kept := h.kept
  answers := by
    intro key u hroom hlast hwindow binding
    have hpruned := (h.prune hroom).memory
    cases hget : (s.prune options).state.entries.get? (options.hashKey key) with
    | none =>
        have hover := (hpruned.known hlast hget).2
        exact absurd hwindow (not_le.2 hover)
    | some e =>
        obtain ⟨u', hlast', hbinding, hstatus, -⟩ := hpruned.found hget
        obtain rfl := Option.some.inj (hlast'.symm.trans hlast)
        rw [beginAnswer, answer, hget, answerFrom]
        obtain ⟨⟩ := e
        dsimp only at hbinding hstatus ⊢
        subst hbinding hstatus
        rfl

end Ledger

/-- With room at every begin, an idempotent write runs at most once in its window. -/
theorem run_atMostOnce {clock : ℤ} {actions : List (StoreAction ρ)}
    (hok : Always (step options) (HasRoom options) (load options none clock [] []) actions) :
    AtMostOnce options (run (step options) (load options none clock [] []) actions) := by
  have hinit : Ledger options (load options none clock [] [] : IdempotencyStore ρ) := {
    memory := .init
    durable := .init
    profile := rfl
    kept := List.prefix_refl _
    chain := fun _ => rfl
    snapshots := fun _ {before _ _} hw => absurd hw (by simp [load])
    past := nofun
    sorted := .nil
    once := .nil }
  exact (run_invariant (fun _ _ h hok => h.step hok) hinit hok).atMostOnce

/-! ### A store that is full forgets -/

/-- The keys a run begins. -/
def usedKeys : List (StoreAction ρ) → List String
  | [] => []
  | .begin key _ _ :: actions => key :: usedKeys actions
  | _ :: actions => usedKeys actions

/-- The commitments of two keys. -/
def sampleHash (key : String) : String :=
  if key = "write-key-0000001" then
    "sha256:b90d33fa46b64be2cf31e0808d561b2fcf3867f8535cb4e1ce5a5a0fd878f653"
  else if key = "write-key-0000002" then
    "sha256:64b109c8903cfce4167d6a5a92d856f60d828ae7466091ead6771ee9396dfd78"
  else ""

def sampleOptions (maxEntries : ℕ) : StoreOptions := { maxEntries, hashKey := sampleHash }

/-- A write completes and is begun again with the same key and binding. -/
def repeatedWrite : List (StoreAction String) :=
  [.begin "write-key-0000001" "sha256:binding" 0, .write true,
    .complete (sampleHash "write-key-0000001") "sha256:binding" "receipt", .write true, .tick 1000,
    .begin "write-key-0000001" "sha256:binding" 0, .write true]

theorem run_atMostOnce_repeatedWrite :
    Always (step (sampleOptions 2)) (HasRoom (sampleOptions 2))
      (load (sampleOptions 2) none 0 [] []) repeatedWrite ∧
    AtMostOnce (sampleOptions 2)
      (run (step (sampleOptions 2)) (load (sampleOptions 2) none 0 [] []) repeatedWrite) :=
  have hok : Always (step (sampleOptions 2)) (HasRoom (sampleOptions 2))
      (load (sampleOptions 2) none 0 [] []) repeatedWrite := by decide +kernel
  ⟨hok, run_atMostOnce (sampleOptions 2) hok⟩

/-- One key is all that a store for one entry is used with, and its write runs twice. -/
theorem not_atMostOnce_repeatedWrite :
    (usedKeys repeatedWrite).dedup.length ≤ (sampleOptions 1).maxEntries ∧
    ¬ AtMostOnce (sampleOptions 1)
      (run (step (sampleOptions 1)) (load (sampleOptions 1) none 0 [] []) repeatedWrite) := by
  refine ⟨by decide +kernel, fun h => ?_⟩
  have honce := h.once
  revert honce
  decide +kernel

end IdempotencyStore

end Atrib.Atribd
