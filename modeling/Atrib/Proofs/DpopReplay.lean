import Atrib.Lib.Run
import Atrib.Verify.DpopReplayCache

/-!
# The replay cache of DPoP proofs forgets nothing it has room for

A stored key stays in the cache until the clock reaches the expiry recorded
with it: pruning drops only what has expired, a call about another key leaves
the entry alone, and a call about the key itself is answered as a replay. What
breaks this is `pruneToMax`. It deletes the oldest keys of a full cache, which
have not expired either, and a deleted key is fresh once more.

`HasRoom` says of one call that it does not come to that. `Remembers` is the
invariant of the runs in which every call has room.
-/

namespace Atrib.Lib.JsNumber

theorem finite_lt_of_le {a b : ℚ} {x : JsNumber} (hle : a ≤ b) (h : (finite b).lt x = true) :
    (finite a).lt x = true := by
  cases x with
  | finite q =>
      have hlt : b < q := of_decide_eq_true h
      exact decide_eq_true (hle.trans_lt hlt)
  | infinite negative => exact h
  | nan => cases h

theorem le_eq_false_of_lt {a : ℚ} {x : JsNumber} (h : (finite a).lt x = true) :
    x.le (finite a) = false := by
  cases x with
  | finite q =>
      have hlt : a < q := of_decide_eq_true h
      simp [le, lt, eq, hlt.le, hlt.ne']
  | infinite negative =>
      cases negative with
      | false => rfl
      | true => cases h
  | nan => cases h

end Atrib.Lib.JsNumber

namespace Atrib.Verify

open Atrib.Lib

/-- The calls a cache is used with. Each reads the clock once. -/
inductive ReplayCacheCall where
  | checkAndRemember (now : ℚ) (key : DpopReplayCacheKey) (expiresAtSeconds : JsNumber)
  | size (now : ℚ)

namespace ReplayCacheCall

def now : ReplayCacheCall → ℚ
  | checkAndRemember now _ _ => now
  | size now => now

end ReplayCacheCall

namespace MemoryDpopReplayCache

def step (cache : MemoryDpopReplayCache) : ReplayCacheCall → MemoryDpopReplayCache
  | .checkAndRemember now key expiresAtSeconds =>
      (cache.checkAndRemember now key expiresAtSeconds).2
  | .size now => (cache.size now).2

/-- The key is in the cache and has not expired. -/
def Knows (cache : MemoryDpopReplayCache) (now : ℚ) (key : DpopReplayCacheKey) : Prop :=
  ((cache.prune now).entries.get? (dpopReplayCacheKeyId key)).any
    fun expiry => (JsNumber.finite now).lt expiry

/-- The cache with the key stored is not larger than it may be. -/
def Fits (cache : MemoryDpopReplayCache) (now : ℚ) (key : DpopReplayCacheKey)
    (expiresAtSeconds : JsNumber) : Prop :=
  cache.maxEntries.lt (.finite ((cache.prune now).entries.set (dpopReplayCacheKeyId key)
    (recordedExpiry expiresAtSeconds now)).size) = false

/-- What the call stores, if anything, fits next to the keys that have not expired. -/
def HasRoom (cache : MemoryDpopReplayCache) : ReplayCacheCall → Prop
  | .checkAndRemember now key expiresAtSeconds =>
      cache.Knows now key ∨ cache.Fits now key expiresAtSeconds
  | .size _ => True

instance (cache : MemoryDpopReplayCache) : ∀ call, Decidable (cache.HasRoom call)
  | .checkAndRemember _ _ _ => inferInstanceAs (Decidable (_ = true ∨ _ = false))
  | .size _ => isTrue trivial

/-- Until the clock reaches it, the expiry stands in the cache. -/
def Remembers (cache : MemoryDpopReplayCache) (now : ℚ) (id : String) (expiry : JsNumber) : Prop :=
  (JsNumber.finite now).lt expiry = true → cache.entries.get? id = some expiry

variable {cache : MemoryDpopReplayCache} {now later : ℚ} {key : DpopReplayCacheKey} {id : String}
  {expiry expiresAtSeconds : JsNumber}

theorem Remembers.mono (h : cache.Remembers now id expiry) (hle : now ≤ later) :
    cache.Remembers later id expiry :=
  fun hlt => h (JsNumber.finite_lt_of_le hle hlt)

theorem Remembers.prune (h : cache.Remembers now id expiry) :
    (cache.prune now).Remembers now id expiry := by
  intro hlt
  exact InsertionMap.get?_filter (h hlt) (by rw [JsNumber.le_eq_false_of_lt hlt]; rfl)

theorem checkAndRemember_of_knows (h : cache.Knows now key) :
    cache.checkAndRemember now key expiresAtSeconds = (false, cache.prune now) :=
  if_pos h

theorem checkAndRemember_of_not_knows (h : ¬ cache.Knows now key) :
    cache.checkAndRemember now key expiresAtSeconds =
      (true, { cache.prune now with
        entries := (cache.prune now).entries.set (dpopReplayCacheKeyId key)
          (recordedExpiry expiresAtSeconds now) }.pruneToMax) :=
  if_neg h

/-- With room for the key, nothing but the key is stored. -/
theorem checkAndRemember_of_fits (h : ¬ cache.Knows now key)
    (hfits : cache.Fits now key expiresAtSeconds) :
    cache.checkAndRemember now key expiresAtSeconds =
      (true, { cache.prune now with
        entries := (cache.prune now).entries.set (dpopReplayCacheKeyId key)
          (recordedExpiry expiresAtSeconds now) }) := by
  rw [checkAndRemember_of_not_knows h, pruneToMax]
  congr 2
  exact InsertionMap.shrink_of_not_over hfits

theorem fresh_iff : (cache.checkAndRemember now key expiresAtSeconds).1 = true ↔
    ¬ cache.Knows now key := by
  by_cases h : cache.Knows now key
  · rw [checkAndRemember_of_knows h]
    exact ⟨fun hfresh => (nomatch hfresh), fun hnot => absurd h hnot⟩
  · rw [checkAndRemember_of_not_knows h]
    exact ⟨fun _ => h, fun _ => rfl⟩

/-- A key that is remembered is not fresh. -/
theorem Remembers.knows (h : cache.Remembers now (dpopReplayCacheKeyId key) expiry)
    (hlt : (JsNumber.finite now).lt expiry = true) : cache.Knows now key := by
  have hget := h.prune hlt
  rw [Knows, hget]
  exact hlt

/-- A call that has room forgets no key. -/
theorem Remembers.step {call : ReplayCacheCall} (h : cache.Remembers call.now id expiry)
    (hroom : cache.HasRoom call) : (cache.step call).Remembers call.now id expiry := by
  cases call with
  | size now => exact h.prune
  | checkAndRemember now key expiresAtSeconds =>
      show (cache.checkAndRemember now key expiresAtSeconds).2.Remembers now id expiry
      by_cases hknows : cache.Knows now key
      · rw [checkAndRemember_of_knows hknows]
        exact h.prune
      · have hfits := hroom.resolve_left hknows
        rw [checkAndRemember_of_fits hknows hfits]
        intro hlt
        have hne : id ≠ dpopReplayCacheKeyId key := by
          rintro rfl
          exact hknows (h.knows hlt)
        show ((cache.prune now).entries.set _ _).get? id = some expiry
        rw [InsertionMap.get?_set_of_ne hne]
        exact h.prune hlt

/-- A fresh key is remembered from then on. -/
theorem remembers_of_fresh (hfresh : (cache.checkAndRemember now key expiresAtSeconds).1 = true)
    (hroom : cache.HasRoom (.checkAndRemember now key expiresAtSeconds)) :
    (cache.checkAndRemember now key expiresAtSeconds).2.Remembers now (dpopReplayCacheKeyId key)
      (recordedExpiry expiresAtSeconds now) := by
  have hknows := fresh_iff.1 hfresh
  rw [checkAndRemember_of_fits hknows (hroom.resolve_left hknows)]
  exact fun _ => InsertionMap.get?_set_self _ _ _

/-- A run whose calls have room remembers the key as long as the clock stands before its
expiry. -/
theorem Remembers.run {calls : List ReplayCacheCall} :
    ∀ {cache : MemoryDpopReplayCache} {now : ℚ}, cache.Remembers now id expiry →
      (∀ call ∈ calls, now ≤ call.now) → calls.Pairwise (fun a b => a.now ≤ b.now) →
      Always MemoryDpopReplayCache.step HasRoom cache calls →
      ∀ later, now ≤ later → (∀ call ∈ calls, call.now ≤ later) →
        (Lib.run MemoryDpopReplayCache.step cache calls).Remembers later id expiry := by
  induction calls with
  | nil => exact fun h _ _ _ later hlater _ => h.mono hlater
  | cons call calls ih =>
      intro cache now h hnow hclock hroom later _ hcalls
      obtain ⟨hhead, htail⟩ := List.pairwise_cons.1 hclock
      have hstep : (cache.step call).Remembers call.now id expiry :=
        (h.mono (hnow call List.mem_cons_self)).step hroom.1
      exact ih hstep hhead htail hroom.2 later (hcalls call List.mem_cons_self)
        fun c hc => hcalls c (List.mem_cons_of_mem _ hc)

/-- A key that was fresh is known until the expiry recorded with it. -/
theorem knows_of_fresh {before between : List ReplayCacheCall} {key' : DpopReplayCacheKey}
    (hkey : dpopReplayCacheKeyId key' = dpopReplayCacheKeyId key)
    (hclock : (before ++ .checkAndRemember now key expiresAtSeconds :: between).Pairwise
      fun a b => a.now ≤ b.now)
    (hnow : now ≤ later) (hlater : ∀ call ∈ between, call.now ≤ later)
    (hroom : Always step HasRoom cache
      (before ++ .checkAndRemember now key expiresAtSeconds :: between))
    (hfresh : ((Lib.run step cache before).checkAndRemember now key expiresAtSeconds).1 = true)
    (hlt : (JsNumber.finite later).lt (recordedExpiry expiresAtSeconds now) = true) :
    (Lib.run step cache (before ++ .checkAndRemember now key expiresAtSeconds :: between)).Knows
      later key' := by
  obtain ⟨-, hfirst, hbetween⟩ := Always.append.1 hroom
  obtain ⟨-, hclock, -⟩ := List.pairwise_append.1 hclock
  obtain ⟨hafter, hclock⟩ := List.pairwise_cons.1 hclock
  have hremembers := (remembers_of_fresh hfresh hfirst).run hafter hclock hbetween later hnow hlater
  rw [run_append, run_cons]
  rw [← hkey] at hremembers
  exact hremembers.knows hlt

/-- A key the cache has called fresh is not fresh again before the expiry recorded with it. -/
def ReplaySafe (cache : MemoryDpopReplayCache) (calls : List ReplayCacheCall) : Prop :=
  ∀ before between after now later key key' expiresAtSeconds expiresAtSeconds',
    calls = before ++ .checkAndRemember now key expiresAtSeconds ::
      (between ++ .checkAndRemember later key' expiresAtSeconds' :: after) →
    dpopReplayCacheKeyId key' = dpopReplayCacheKeyId key →
    ((run step cache before).checkAndRemember now key expiresAtSeconds).1 = true →
    (JsNumber.finite later).lt (recordedExpiry expiresAtSeconds now) = true →
    ((run step cache (before ++ .checkAndRemember now key expiresAtSeconds ::
      between)).checkAndRemember later key' expiresAtSeconds').1 = false

/-- A cache with room for every key is safe from replays. -/
theorem replaySafe_of_hasRoom (maxEntries : Option JsNumber) (calls : List ReplayCacheCall)
    (hclock : calls.Pairwise fun a b => a.now ≤ b.now)
    (hroom : Always step HasRoom (new maxEntries) calls) : ReplaySafe (new maxEntries) calls := by
  intro before between after now later key key' expiresAtSeconds expiresAtSeconds' hcalls hkey
    hfresh hlt
  have hsplit : calls = (before ++ .checkAndRemember now key expiresAtSeconds :: between) ++
      .checkAndRemember later key' expiresAtSeconds' :: after := by
    rw [hcalls, List.append_assoc, List.cons_append]
  rw [hsplit] at hclock hroom
  obtain ⟨hroom, -⟩ := Always.append.1 hroom
  obtain ⟨hclock, -, hlater⟩ := List.pairwise_append.1 hclock
  have hend : ∀ call ∈ before ++ .checkAndRemember now key expiresAtSeconds :: between,
      call.now ≤ later := fun call hcall => hlater call hcall _ List.mem_cons_self
  have hknows := knows_of_fresh hkey hclock (hend _ (List.mem_append_right _ List.mem_cons_self))
    (fun call hcall => hend call (List.mem_append_right _ (List.mem_cons_of_mem _ hcall)))
    hroom hfresh hlt
  exact Bool.eq_false_iff.2 fun hagain => fresh_iff.1 hagain hknows

/-! ### A cache of one key -/

/-- A proof, and another one. -/
def replayKeys : DpopReplayCacheKey × DpopReplayCacheKey := (⟨"a", none, none, none, none, none⟩,
  ⟨"b", none, none, none, none, none⟩)

/-- A proof presented twice is caught. -/
theorem replaySafe_of_hasRoom_one : ReplaySafe (new (some (.finite 1)))
    [.checkAndRemember 0 replayKeys.1 (.finite 300), .checkAndRemember 5 replayKeys.1 (.finite 300)] :=
  replaySafe_of_hasRoom _ _ (by simp [ReplayCacheCall.now]) (by decide +kernel)

/-- Another proof in between, and it is not. -/
theorem not_replaySafe : ¬ ∀ (maxEntries : Option JsNumber) (calls : List ReplayCacheCall),
    (calls.Pairwise fun a b => a.now ≤ b.now) → ReplaySafe (new maxEntries) calls := by
  intro h
  have hcaught := h (some (.finite 1)) _ (by simp [ReplayCacheCall.now]) []
    [.checkAndRemember 1 replayKeys.2 (.finite 300)] [] 0 2 replayKeys.1 replayKeys.1
    (.finite 300) (.finite 300) rfl rfl (by decide +kernel) (by decide +kernel)
  revert hcaught
  decide +kernel

end MemoryDpopReplayCache

end Atrib.Verify
