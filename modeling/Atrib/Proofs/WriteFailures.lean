import Atrib.Proofs.IdempotentWrites

/-!
# A write of the state that fails

A call of the store waits for its own write, and should be rejected only when
that write fails. The writes are chained to one promise, though, and nothing
ever mends it: after one failure every later write of the process is rejected
unseen. And a begin makes its entry before it asks for the write, so the entry
of a begin that is rejected stays, and the key cannot be begun again.
-/

namespace Atrib.Atribd

open Lib InsertionMap

namespace IdempotencyStore

open StoreOptions

variable {ρ : Type} (options : StoreOptions)

/-- A failure stays with the call that asked for the write. The snapshot of a write is the state
in memory at the moment it is asked for. -/
structure FailuresLocal (s : IdempotencyStore ρ) : Prop where
  returned : ∀ o ∈ s.outcomes, o.returned = o.ok
  gone : ∀ o ∈ s.outcomes, o.write.update.status = .pending → o.returned = false →
    o.inMemory = false
  file : ∀ o ∈ s.outcomes, o.ok = true → o.file = some o.write.snapshot
  full : ∀ {key binding}, s.beginAnswer options key binding = .full → ∀ elapsed,
    (s.begin options key binding elapsed).state.entries.get? (options.hashKey key) = none
  /-- When no write is left to come and the last one went well, a restart loses nothing. -/
  current : s.broken = false → s.writes = [] → ∀ {k e}, s.state.entries.get? k = some e →
    (options.loadState s.file).entries.get? k = some e

/-- No write of a begin fails, and none goes well after one that has failed. -/
def FailsAlone (s : IdempotencyStore ρ) : StoreAction ρ → Prop
  | .write ok => ∀ w ∈ s.writes.head?,
      (ok = true → s.broken = false) ∧ (ok = false → w.update.status ≠ .pending)
  | _ => True

instance [DecidableEq ρ] (s : IdempotencyStore ρ) : DecidablePred s.FailsAlone
  | .write ok => inferInstanceAs (Decidable (∀ w ∈ s.writes.head?,
      (ok = true → s.broken = false) ∧ (ok = false → w.update.status ≠ .pending)))
  | .tick _ | .begin .. | .complete .. | .restart => isTrue trivial

/-- The state the file holds when the writes that are waiting have gone well. -/
def newest (s : IdempotencyStore ρ) : IdempotencyState ρ :=
  (s.writes.getLast?.map (·.snapshot)).getD (options.loadState s.file)

/-- What is known of the outcomes, and that the newest state has all there is in memory. -/
structure WritesLocal (s : IdempotencyStore ρ) : Prop where
  returned : ∀ o ∈ s.outcomes, o.returned = o.ok
  gone : ∀ o ∈ s.outcomes, o.write.update.status = .pending → o.returned = false →
    o.inMemory = false
  file : ∀ o ∈ s.outcomes, o.ok = true → o.file = some o.write.snapshot
  profile : s.state.profile = safeProfile options.profile
  profiles : ∀ w ∈ s.writes, w.snapshot.profile = safeProfile options.profile
  current : s.broken = false → ∀ {k e}, s.state.entries.get? k = some e →
    (s.newest options).entries.get? k = some e

namespace WritesLocal

variable {options} {s : IdempotencyStore ρ}

/-- Forgetting entries leaves the others as they are. -/
theorem get?_of_pruneCompleted {now : ℤ} {entries : Entries ρ} {k : String}
    {e : IdempotencyEntry ρ} (h : (options.pruneCompleted now entries).get? k = some e) :
    entries.get? k = some e := by
  unfold pruneCompleted at h
  generalize (entries.values.filter _).mergeSort _ = l at h
  induction l generalizing entries with
  | nil => exact h
  | cons entry l ih =>
      have hget := @ih (options.pruneEntry now entries entry) h
      unfold pruneEntry at hget
      split at hget
      · exact (get?_of_filter hget).1
      · exact hget

theorem prune (h : WritesLocal options s) : WritesLocal options (s.prune options) where
  returned := h.returned
  gone := h.gone
  file := h.file
  profile := h.profile
  profiles := h.profiles
  current hbroken _ _ hget := h.current hbroken (get?_of_pruneCompleted hget)

theorem putEntry (h : WritesLocal options s) (entry : IdempotencyEntry ρ) (u : Update ρ) :
    WritesLocal options (s.putEntry entry u) where
  returned := h.returned
  gone := h.gone
  file := h.file
  profile := h.profile
  profiles := by
    intro w hw
    rcases List.mem_append.1 hw with hw | hw
    · exact h.profiles w hw
    · exact List.mem_singleton.1 hw ▸ h.profile
  current := by
    intro _ k e hget
    rw [newest, show (s.putEntry entry u).writes = s.writes ++
      [⟨u, { s.state with entries := s.state.entries.set entry.keyHash entry }⟩] from rfl,
      List.getLast?_concat]
    exact hget

theorem write (h : WritesLocal options s) {ok : Bool} (hok : s.FailsAlone (.write ok)) :
    WritesLocal options (s.write ok) := by
  unfold IdempotencyStore.write
  cases hwrites : s.writes with
  | nil => exact h
  | cons w writes =>
      obtain ⟨hwell, hfails⟩ := hok w (by rw [hwrites]; rfl)
      have hlanded : (ok && !s.broken) = ok := by
        cases ok with
        | true => rw [hwell rfl]; rfl
        | false => rfl
      dsimp only
      rw [hlanded]
      exact {
        returned := by
          intro o ho
          rcases List.mem_append.1 ho with ho | ho
          · exact h.returned o ho
          · rw [List.mem_singleton.1 ho]
        gone := by
          intro o ho hpending hrejected
          rcases List.mem_append.1 ho with ho | ho
          · exact h.gone o ho hpending hrejected
          · obtain rfl := List.mem_singleton.1 ho
            exact absurd hpending (hfails hrejected)
        file := by
          intro o ho hwent
          rcases List.mem_append.1 ho with ho | ho
          · exact h.file o ho hwent
          · obtain rfl := List.mem_singleton.1 ho
            exact if_pos hwent
        profile := h.profile
        profiles := fun w' hw' => h.profiles w' (hwrites ▸ List.mem_cons_of_mem _ hw')
        current := by
          intro hbroken k e hget
          obtain rfl : ok = true := by simpa using hbroken
          have hold := h.current (hwell rfl) hget
          rw [newest, hwrites] at hold
          unfold newest
          cases writes with
          | nil =>
              have hprofile := h.profiles w (hwrites ▸ List.mem_cons_self)
              show (options.loadState (some w.snapshot)).entries.get? k = some e
              rw [loadState, if_pos hprofile]
              exact hold
          | cons w' writes =>
              rw [List.getLast?_cons_cons] at hold
              exact hold }

theorem step (h : WritesLocal options s) {a : StoreAction ρ} (hok : s.FailsAlone a) :
    WritesLocal options (s.step options a) := by
  cases a with
  | tick elapsed => exact ⟨h.returned, h.gone, h.file, h.profile, h.profiles, h.current⟩
  | begin key binding elapsed =>
      have hpruned := h.prune
      show WritesLocal options (s.begin options key binding elapsed)
      unfold IdempotencyStore.begin
      dsimp only
      split
      · exact putEntry (s := { s.prune options with clock := s.clock + elapsed })
          ⟨hpruned.returned, hpruned.gone, hpruned.file, hpruned.profile, hpruned.profiles,
            hpruned.current⟩ _ _
      · exact hpruned
  | complete keyHash binding result =>
      show WritesLocal options (s.complete keyHash binding result)
      unfold IdempotencyStore.complete
      split
      · exact h.putEntry _ _
      · exact h
  | write ok => exact h.write hok
  | restart => exact ⟨h.returned, h.gone, h.file, loadState_profile _, nofun, fun _ => id⟩

theorem failuresLocal (h : WritesLocal options s) : FailuresLocal options s where
  returned := h.returned
  gone := h.gone
  file := h.file
  full := by
    intro key binding hfull elapsed
    rw [beginAnswer] at hfull
    rw [IdempotencyStore.begin]
    dsimp only
    rw [hfull]
    exact get?_of_answer (.inr hfull)
  current := by
    intro hbroken hwrites k e hget
    have hnewest := h.current hbroken hget
    rw [newest, hwrites] at hnewest
    exact hnewest

end WritesLocal

/-- When no begin's write fails and no write goes well after one that has failed, a failure stays
with the call that asked for the write. -/
theorem run_failuresLocal {clock : ℤ} {actions : List (StoreAction ρ)}
    (hok : Always (step options) FailsAlone (load options none clock [] []) actions) :
    FailuresLocal options (run (step options) (load options none clock [] []) actions) := by
  have hinit : WritesLocal options (load options none clock [] [] : IdempotencyStore ρ) := {
    returned := nofun
    gone := nofun
    file := nofun
    profile := rfl
    profiles := nofun
    current := fun _ => nofun }
  exact (run_invariant (fun _ _ h hok => h.step hok) hinit hok).failuresLocal

/-- The write of a completion fails, and the process is restarted. -/
def failedCompletion : List (StoreAction String) :=
  [.begin "write-key-0000001" "sha256:binding" 0, .write true,
    .complete (sampleHash "write-key-0000001") "sha256:binding" "receipt", .write false, .restart,
    .begin "write-key-0000001" "sha256:binding" 0]

theorem run_failuresLocal_failedCompletion :
    Always (step (sampleOptions 2)) FailsAlone (load (sampleOptions 2) none 0 [] [])
      failedCompletion ∧
    FailuresLocal (sampleOptions 2)
      (run (step (sampleOptions 2)) (load (sampleOptions 2) none 0 [] []) failedCompletion) :=
  have hok : Always (step (sampleOptions 2)) FailsAlone (load (sampleOptions 2) none 0 [] [])
      failedCompletion := by decide +kernel
  ⟨hok, run_failuresLocal (sampleOptions 2) hok⟩

/-- The write of a begin fails, and the key is begun again with a write that would go well. -/
def failedBegin : List (StoreAction String) :=
  [.begin "write-key-0000001" "sha256:binding" 0, .write false]

/-- The key that was never handed out stays bound, and the write of another key is rejected. -/
theorem not_failuresLocal_failedBegin :
    let s : IdempotencyStore String :=
      run (step (sampleOptions 2)) (load (sampleOptions 2) none 0 [] []) failedBegin
    ¬ FailuresLocal (sampleOptions 2) s ∧
    s.beginAnswer (sampleOptions 2) "write-key-0000001" "sha256:binding" = .indeterminate ∧
    ¬ FailuresLocal (sampleOptions 2)
      (run (step (sampleOptions 2)) s [.begin "write-key-0000002" "sha256:other" 0, .write true]) := by
  refine ⟨fun h => ?_, by decide +kernel, fun h => ?_⟩
  · have hgone := h.gone
    revert hgone
    decide +kernel
  · have hreturned := h.returned
    revert hreturned
    decide +kernel

end IdempotencyStore

end Atrib.Atribd
