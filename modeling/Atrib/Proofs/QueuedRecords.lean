import Atrib.Mcp.SubmissionQueue
import Mathlib.Data.Finset.Card

/-!
# Records that the submission queue keeps

A record that the log has not answered for is pending or has a call. While the
pending records fit, a call that fails makes room only where its own record is
pending already, and then it throws out one that need not be its own. Where that
one still has a call of its own nothing is lost, so a flush whose retries all
fail leaves the pending records as they were.
-/

namespace Atrib.Mcp.SubmissionQueue

open Lib (InsertionMap JsNumber Always run run_invariant)

/-! ## Depths -/

theorem not_le_of_lt {m n : ℕ} {max : JsNumber} (h : (JsNumber.finite n).le max = true)
    (hm : m < n) : max.le (.finite m) = false := by
  have hcast : (m : ℚ) < n := Nat.cast_lt.2 hm
  cases max with
  | finite q =>
      simp only [JsNumber.le, JsNumber.lt, JsNumber.eq, Bool.or_eq_true, decide_eq_true_eq,
        JsNumber.finite.injEq] at h
      simp only [JsNumber.le, JsNumber.lt, JsNumber.eq, Bool.or_eq_false_iff,
        decide_eq_false_iff_not, JsNumber.finite.injEq, not_and, not_lt]
      have hle : (n : ℚ) ≤ q := h.elim le_of_lt fun heq => le_of_eq heq.2
      exact ⟨(hcast.trans_le hle).le, fun _ heq => absurd heq (ne_of_gt (hcast.trans_le hle))⟩
  | infinite negative => cases negative <;> simp_all [JsNumber.le, JsNumber.lt, JsNumber.eq]
  | nan => simp [JsNumber.le, JsNumber.lt, JsNumber.eq]

theorem le_of_le {m n : ℕ} {max : JsNumber} (h : (JsNumber.finite n).le max = true)
    (hm : m ≤ n) : (JsNumber.finite m).le max = true := by
  have hcast : (m : ℚ) ≤ n := Nat.cast_le.2 hm
  cases max with
  | finite q =>
      simp only [JsNumber.le, JsNumber.lt, JsNumber.eq, Bool.or_eq_true, decide_eq_true_eq,
        JsNumber.finite.injEq] at h ⊢
      have hle : (n : ℚ) ≤ q := h.elim le_of_lt fun heq => le_of_eq heq.2
      exact (hcast.trans hle).lt_or_eq.imp_right fun heq => ⟨by simp, heq⟩
  | infinite negative => cases negative <;> simp_all [JsNumber.le, JsNumber.lt, JsNumber.eq]
  | nan => simp [JsNumber.le, JsNumber.lt, JsNumber.eq] at h

theorem mem_keys_delete {κ ν : Type} [DecidableEq κ] {m : InsertionMap κ ν} {k x : κ} :
    k ∈ (m.filter fun i _ => i ≠ x).keys ↔ k ∈ m.keys ∧ k ≠ x := by
  rw [InsertionMap.mem_keys_filter, InsertionMap.mem_keys]
  simp

theorem size_eq_card {κ ν : Type} [DecidableEq κ] (m : InsertionMap κ ν) :
    m.size = m.keys.toFinset.card := by
  rw [InsertionMap.keys, List.toFinset_card_of_nodup m.nodup, List.length_map]
  rfl

section

variable {Record Sidecar Proof : Type} {options : Options Record}

/-! ## Making room -/

variable {pending : InsertionMap String (PendingEntry Record Sidecar)} {max : JsNumber}

theorem victim_spec {key : String} (h : victim pending = some key) :
    ∃ entry, (key, entry) ∈ pending.entries ∧
      (entry.priority = .high → ∀ e ∈ pending.entries, e.2.priority = .high) := by
  unfold victim at h
  cases hnormal : pending.entries.find? (·.2.priority = .normal) with
  | some e =>
      rw [hnormal] at h
      cases h
      have hpriority : e.2.priority = .normal := by simpa using List.find?_some hnormal
      exact ⟨e.2, List.mem_of_find?_eq_some hnormal, fun hhigh => nomatch hpriority.symm.trans hhigh⟩
  | none =>
      rw [hnormal] at h
      obtain ⟨e, he, rfl⟩ := Option.map_eq_some_iff.1 h
      refine ⟨e.2, List.mem_of_mem_head? he, fun _ e' he' => ?_⟩
      have hnot := List.find?_eq_none.1 hnormal e' he'
      cases hpriority : e'.2.priority with
      | high => rfl
      | normal => exact absurd (decide_eq_true hpriority) hnot

theorem victim_mem {key : String} (h : victim pending = some key) : key ∈ pending.keys := by
  obtain ⟨entry, hmem, -⟩ := victim_spec h
  exact InsertionMap.mem_keys_of_mem hmem

theorem exists_victim {key : String} (h : key ∈ pending.keys) : ∃ key, victim pending = some key := by
  obtain ⟨entry, hmem⟩ := InsertionMap.mem_keys.1 h
  unfold victim
  cases hentries : pending.entries with
  | nil =>
      rw [hentries] at hmem
      cases hmem
  | cons e es =>
      cases (e :: es).find? (·.2.priority = .normal) with
      | some e' => exact ⟨e'.1, rfl⟩
      | none => exact ⟨e.1, rfl⟩

theorem enqueue_of_not_full {hash : String} {entry : PendingEntry Record Sidecar}
    (h : full max pending = false) :
    enqueue max hash entry pending = some (pending.set hash entry) := by
  simp [enqueue, makeRoom, h]

theorem enqueue_of_full {hash key : String} {entry : PendingEntry Record Sidecar}
    (h : full max pending = true) (hkey : victim pending = some key)
    (hroom : full max (pending.filter fun k _ => k ≠ key) = false) :
    enqueue max hash entry pending =
      some ((pending.filter fun k _ => k ≠ key).set hash entry) := by
  have hevict : evictOneOldest pending = pending.filter fun k _ => k ≠ key := by
    rw [evictOneOldest, hkey]
  obtain ⟨n, hn⟩ : ∃ n, pending.size = n + 1 := by
    refine Nat.exists_eq_succ_of_ne_zero fun hzero => ?_
    have hmem := victim_mem hkey
    rw [InsertionMap.keys, List.eq_nil_of_length_eq_zero hzero] at hmem
    cases hmem
  rw [enqueue, hn]
  simp only [makeRoom, h, if_true, hevict, hroom]
  rfl

/-- The records that would be pending beside another. -/
def demand (pending : InsertionMap String (PendingEntry Record Sidecar)) (hash : String) : ℕ :=
  (insert hash pending.keys.toFinset).card

/-- What is pending when a call has failed: its record, and the others but one that is thrown
out. -/
structure Enqueued (max : JsNumber) (hash : String) (entry : PendingEntry Record Sidecar)
    (pending pending' : InsertionMap String (PendingEntry Record Sidecar)) : Prop where
  keys : ∀ k, k ∈ pending'.keys ↔
    k = hash ∨ (k ∈ pending.keys ∧ ¬(full max pending = true ∧ victim pending = some k))
  entries : ∀ e ∈ pending'.entries, e ∈ pending.entries ∨ e = (hash, entry)

theorem enqueue_spec {hash : String} {entry : PendingEntry Record Sidecar}
    (h : (JsNumber.finite (demand pending hash)).le max = true) :
    ∃ pending', enqueue max hash entry pending = some pending' ∧
      Enqueued max hash entry pending pending' := by
  cases hfull : full max pending with
  | false =>
      refine ⟨_, enqueue_of_not_full hfull, fun k => ?_, fun e he => ?_⟩
      · rw [InsertionMap.mem_keys_set, hfull, or_comm]
        simp
      · exact (InsertionMap.mem_entries_set he).symm
  | true =>
      have hmem : hash ∈ pending.keys := by
        by_contra hnot
        have hlt : pending.size < demand pending hash := by
          rw [size_eq_card, demand, Finset.card_insert_of_notMem (by simpa using hnot)]
          exact Nat.lt_succ_self _
        exact absurd hfull (by rw [full, not_le_of_lt h hlt]; nofun)
      obtain ⟨key, hkey⟩ := exists_victim hmem
      have hsize : (pending.filter fun k _ => k ≠ key).size < demand pending hash := by
        rw [size_eq_card, demand, Finset.insert_eq_of_mem (List.mem_toFinset.2 hmem)]
        refine Finset.card_lt_card ((Finset.ssubset_iff_of_subset fun k hk => ?_).2 ⟨key, ?_, ?_⟩)
        · exact List.mem_toFinset.2 (mem_keys_delete.1 (List.mem_toFinset.1 hk)).1
        · exact List.mem_toFinset.2 (victim_mem hkey)
        · exact fun hk => (mem_keys_delete.1 (List.mem_toFinset.1 hk)).2 rfl
      refine ⟨_, enqueue_of_full hfull hkey (not_le_of_lt h hsize), fun k => ?_, fun e he => ?_⟩
      · rw [InsertionMap.mem_keys_set, mem_keys_delete, hkey, or_comm]
        simp only [hfull, true_and, Option.some.injEq, ne_eq, eq_comm]
      · rcases InsertionMap.mem_entries_set he with heq | hin
        · exact .inr heq
        · exact .inl (List.mem_filter.1 hin).1

theorem Enqueued.size_le {hash : String} {entry : PendingEntry Record Sidecar}
    {pending' : InsertionMap String (PendingEntry Record Sidecar)}
    (h : Enqueued max hash entry pending pending') : pending'.size ≤ demand pending hash := by
  rw [size_eq_card]
  refine Finset.card_le_card fun k hk => ?_
  rcases (h.keys k).1 (List.mem_toFinset.1 hk) with rfl | ⟨hin, -⟩
  · exact Finset.mem_insert_self _ _
  · exact Finset.mem_insert_of_mem (List.mem_toFinset.2 hin)

/-! ## What the log has not answered for -/

/-- A record is pending or has a call. -/
def Unsubmitted (q : Queue Record Sidecar Proof) (hash : String) : Prop :=
  hash ∈ q.pendingRecords.keys ∨ ∃ c ∈ q.calls.entries, c.2.hash = hash

/-- The call whose retries have all failed once an action is taken. -/
def failingCall (q : Queue Record Sidecar Proof) :
    Action Record Sidecar Proof → Option (ℕ × SubmitCall Record Sidecar)
  | .answer id .failed =>
      (q.calls.get? id).bind fun call =>
        match call.phase with
        | .fetching attempt => if attempt + 1 < MAX_RETRIES then none else some (id, call)
        | _ => none
  | .wake id true =>
      (q.calls.get? id).bind fun call =>
        match call.phase with
        | .waiting _ => some (id, call)
        | _ => none
  | _ => none

/-- The pending records fit beside that of a call that fails. -/
def Within (options : Options Record) (q : Queue Record Sidecar Proof)
    (action : Action Record Sidecar Proof) : Prop :=
  ∀ failed ∈ failingCall q action,
    (JsNumber.finite (demand q.pendingRecords failed.2.hash)).le options.maxQueueDepth = true

/-- The record that a call that fails throws out is its own or still has another call. -/
def Spares (options : Options Record) (q : Queue Record Sidecar Proof)
    (action : Action Record Sidecar Proof) : Prop :=
  ∀ failed ∈ failingCall q action, full options.maxQueueDepth q.pendingRecords = true →
    ∀ key ∈ victim q.pendingRecords,
      key = failed.2.hash ∨ ∃ c ∈ q.calls.entries, c.1 ≠ failed.1 ∧ c.2.hash = key

/-- The log takes a record or refuses it. -/
def Action.answered : Action Record Sidecar Proof → Bool
  | .answer _ (.accepted _) | .answer _ .rejected | .archived _ => true
  | _ => false

/-- The record that is handed in. -/
def Action.submitted? (options : Options Record) : Action Record Sidecar Proof → Option String
  | .submit record _ _ => some (options.recordHash record)
  | _ => none

/-- What holds of a queue that has room. -/
structure Sound (options : Options Record) (q : Queue Record Sidecar Proof) : Prop where
  running : q.hung = false
  depth : (JsNumber.finite q.pendingRecords.size).le options.maxQueueDepth = true
  fresh : ∀ id ∈ q.calls.keys, id < q.nextId
  pendingHash : ∀ e ∈ q.pendingRecords.entries, options.recordHash e.2.record = e.1
  callHash : ∀ c ∈ q.calls.entries, options.recordHash c.2.entry.record = c.2.hash

section

variable {q : Queue Record Sidecar Proof}

theorem sound_startCall (h : Sound options q) (entry : PendingEntry Record Sidecar) :
    Sound options (q.startCall options entry) where
  running := h.running
  depth := h.depth
  fresh := by
    intro id hid
    rcases InsertionMap.mem_keys_set.1 hid with hid | rfl
    · exact (h.fresh id hid).trans (Nat.lt_succ_self _)
    · exact Nat.lt_succ_self _
  pendingHash := h.pendingHash
  callHash := by
    intro c hc
    rcases InsertionMap.mem_entries_set hc with rfl | hc
    · rfl
    · exact h.callHash c hc

/-- A call that starts is another. -/
theorem mem_calls_startCall (h : Sound options q) {entry : PendingEntry Record Sidecar}
    {c : ℕ × SubmitCall Record Sidecar} :
    c ∈ (q.startCall options entry).calls.entries ↔ c ∈ q.calls.entries ∨
      c = (q.nextId, ⟨options.recordHash entry.record, entry, .fetching 0⟩) := by
  have hnew : q.nextId ∉ q.calls.keys := fun hmem => absurd (h.fresh _ hmem) (lt_irrefl _)
  rw [Queue.startCall, InsertionMap.entries_set, if_neg hnew, List.mem_append, List.mem_singleton]

theorem unsubmitted_startCall (h : Sound options q) {entry : PendingEntry Record Sidecar}
    {hash : String} :
    Unsubmitted (q.startCall options entry) hash ↔
      Unsubmitted q hash ∨ options.recordHash entry.record = hash := by
  unfold Unsubmitted
  simp only [mem_calls_startCall h]
  constructor
  · rintro (hmem | ⟨c, hc | rfl, rfl⟩)
    · exact .inl (.inl hmem)
    · exact .inl (.inr ⟨c, hc, rfl⟩)
    · exact .inr rfl
  · rintro ((hmem | ⟨c, hc, rfl⟩) | rfl)
    · exact .inl hmem
    · exact .inr ⟨c, .inl hc, rfl⟩
    · exact .inr ⟨_, .inr rfl, rfl⟩

theorem startCalls_spec (entries : List (PendingEntry Record Sidecar)) (h : Sound options q)
    (hentries : ∀ e ∈ entries, Unsubmitted q (options.recordHash e.record)) :
    Sound options (entries.foldl (Queue.startCall options) q) ∧
      ∀ hash, Unsubmitted (entries.foldl (Queue.startCall options) q) hash ↔
        Unsubmitted q hash := by
  induction entries generalizing q with
  | nil => exact ⟨h, fun _ => Iff.rfl⟩
  | cons e es ih =>
      have hsame : ∀ hash, Unsubmitted (q.startCall options e) hash ↔ Unsubmitted q hash := by
        intro hash
        rw [unsubmitted_startCall h]
        exact or_iff_left_of_imp fun heq => heq ▸ hentries e List.mem_cons_self
      obtain ⟨hsound, hall⟩ := ih (sound_startCall h e) fun e' he' =>
        (hsame _).2 (hentries e' (List.mem_cons_of_mem _ he'))
      exact ⟨hsound, fun hash => (hall hash).trans (hsame hash)⟩

theorem startRetries_spec (h : Sound options q) (id : ℕ) :
    Sound options (q.startRetries options id) ∧
      ∀ hash, Unsubmitted (q.startRetries options id) hash ↔ Unsubmitted q hash := by
  unfold Queue.startRetries
  split
  · exact ⟨⟨h.running, h.depth, h.fresh, h.pendingHash, h.callHash⟩, fun _ => Iff.rfl⟩
  · have hentries : ∀ e ∈ highFirst q.pendingRecords.values,
        Unsubmitted q (options.recordHash e.record) := by
      intro e he
      have hvalue : e ∈ q.pendingRecords.values := by
        rcases List.mem_append.1 he with he | he
        · exact (List.mem_filter.1 he).1
        · exact (List.mem_filter.1 he).1
      obtain ⟨p, hp, rfl⟩ := List.mem_map.1 hvalue
      rw [h.pendingHash p hp]
      exact .inl (InsertionMap.mem_keys_of_mem hp)
    obtain ⟨hsound, hall⟩ := startCalls_spec _ h hentries
    exact ⟨⟨hsound.running, hsound.depth, hsound.fresh, hsound.pendingHash, hsound.callHash⟩,
      hall⟩

theorem drain_spec (h : Sound options q) (id : ℕ) :
    Sound options (q.drain options id) ∧
      ∀ hash, Unsubmitted (q.drain options id) hash ↔ Unsubmitted q hash := by
  unfold Queue.drain
  split
  · exact startRetries_spec h id
  · exact ⟨⟨h.running, h.depth, h.fresh, h.pendingHash, h.callHash⟩, fun _ => Iff.rfl⟩

theorem moveTo_spec (h : Sound options q) {id : ℕ} {call : SubmitCall Record Sidecar}
    (hcall : q.calls.get? id = some call) (phase : CallPhase) :
    Sound options (q.moveTo id call phase) ∧
      ∀ hash, Unsubmitted (q.moveTo id call phase) hash ↔ Unsubmitted q hash := by
  have hmem := InsertionMap.get?_mem hcall
  refine ⟨⟨h.running, h.depth, fun i hi => ?_, h.pendingHash, fun c hc => ?_⟩, fun hash => ?_⟩
  · rcases InsertionMap.mem_keys_set.1 hi with hi | rfl
    · exact h.fresh i hi
    · exact h.fresh _ (InsertionMap.mem_keys_of_mem hmem)
  · rcases InsertionMap.mem_entries_set hc with rfl | hc
    · exact h.callHash (id, call) hmem
    · exact h.callHash c hc
  · refine or_congr_right ⟨?_, ?_⟩
    · rintro ⟨c, hc, rfl⟩
      rcases InsertionMap.mem_entries_set hc with rfl | hc
      · exact ⟨_, hmem, rfl⟩
      · exact ⟨c, hc, rfl⟩
    · rintro ⟨c, hc, rfl⟩
      by_cases hid : c.1 = id
      · have hself : c.2 = call := by
          have := InsertionMap.get?_of_mem (k := c.1) (v := c.2) hc
          rw [hid, hcall] at this
          exact (Option.some.inj this).symm
        exact ⟨(id, { call with phase := phase }),
          InsertionMap.get?_mem (InsertionMap.get?_set_self _ _ _), by rw [hself]⟩
      · refine ⟨c, InsertionMap.get?_mem ?_, rfl⟩
        show (q.calls.set id _).get? c.1 = some c.2
        rw [InsertionMap.get?_set_of_ne hid]
        exact InsertionMap.get?_of_mem hc

theorem sound_finish (h : Sound options q) (id : ℕ)
    {pending' : InsertionMap String (PendingEntry Record Sidecar)}
    (hdepth : (JsNumber.finite pending'.size).le options.maxQueueDepth = true)
    (hhash : ∀ e ∈ pending'.entries, options.recordHash e.2.record = e.1) :
    Sound options (q.finish id pending') where
  running := h.running
  depth := hdepth
  fresh := fun i hi => h.fresh i (mem_keys_delete.1 hi).1
  pendingHash := hhash
  callHash := fun c hc => h.callHash c (List.mem_filter.1 hc).1

theorem sound_leave (h : Sound options q) (id : ℕ) (call : SubmitCall Record Sidecar) :
    Sound options (q.leave id call) :=
  sound_finish h id (le_of_le h.depth (List.length_filter_le _ _))
    fun e he => h.pendingHash e (List.mem_filter.1 he).1

theorem fail_spec (h : Sound options q) {id : ℕ} {call : SubmitCall Record Sidecar}
    (hcall : q.calls.get? id = some call)
    (hwithin : (JsNumber.finite (demand q.pendingRecords call.hash)).le options.maxQueueDepth =
      true) :
    Sound options (q.fail options id call) ∧
      ((full options.maxQueueDepth q.pendingRecords = true → ∀ key ∈ victim q.pendingRecords,
        key = call.hash ∨ ∃ c ∈ q.calls.entries, c.1 ≠ id ∧ c.2.hash = key) →
        ∀ hash, Unsubmitted (q.fail options id call) hash ↔ Unsubmitted q hash) := by
  obtain ⟨pending', hpending', hspec⟩ := enqueue_spec hwithin
  have hmem := InsertionMap.get?_mem hcall
  have hfail : q.fail options id call = q.finish id pending' := by
    rw [Queue.fail, hpending']
  rw [hfail]
  refine ⟨sound_finish h id (le_of_le hwithin hspec.size_le) fun e he => ?_,
    fun hspares hash => ⟨?_, ?_⟩⟩
  · rcases hspec.entries e he with he | rfl
    · exact h.pendingHash e he
    · exact h.callHash _ hmem
  · rintro (hin | ⟨c, hc, rfl⟩)
    · rcases (hspec.keys hash).1 hin with rfl | ⟨hin, -⟩
      · exact .inr ⟨_, hmem, rfl⟩
      · exact .inl hin
    · exact .inr ⟨c, (List.mem_filter.1 hc).1, rfl⟩
  · have hother : ∀ c ∈ q.calls.entries, c.1 ≠ id → Unsubmitted (q.finish id pending') c.2.hash :=
      fun c hc hne => .inr ⟨c, List.mem_filter.2 ⟨hc, decide_eq_true hne⟩, rfl⟩
    rintro (hin | ⟨c, hc, rfl⟩)
    · by_cases hout : full options.maxQueueDepth q.pendingRecords = true ∧
        victim q.pendingRecords = some hash
      · rcases hspares hout.1 hash hout.2 with rfl | ⟨c, hc, hne, rfl⟩
        · exact .inl ((hspec.keys _).2 (.inl rfl))
        · exact hother c hc hne
      · exact .inl ((hspec.keys hash).2 (.inr ⟨hin, hout⟩))
    · by_cases hid : c.1 = id
      · have hself : c.2 = call := by
          have := InsertionMap.get?_of_mem (k := c.1) (v := c.2) hc
          rw [hid, hcall] at this
          exact (Option.some.inj this).symm
        exact .inl ((hspec.keys _).2 (.inl (by rw [hself])))
      · exact hother c hc hid

/-! ## Steps -/

/-- What a step keeps: a queue that has room, and, unless the log answers, the records. -/
def Keeps (options : Options Record) (q : Queue Record Sidecar Proof)
    (action : Action Record Sidecar Proof) (q' : Queue Record Sidecar Proof) : Prop :=
  Sound options q' ∧ (Spares options q action → action.answered = false →
    ∀ hash, Unsubmitted q' hash ↔ Unsubmitted q hash ∨ action.submitted? options = some hash)

theorem keeps_of_same {action : Action Record Sidecar Proof} {q' : Queue Record Sidecar Proof}
    (hsubmitted : action.submitted? options = none)
    (h : Sound options q' ∧ ∀ hash, Unsubmitted q' hash ↔ Unsubmitted q hash) :
    Keeps options q action q' := by
  refine ⟨h.1, fun _ _ hash => ?_⟩
  rw [h.2 hash, hsubmitted]
  exact (or_iff_left nofun).symm

theorem keeps_of_failing {action : Action Record Sidecar Proof} {id : ℕ}
    {call : SubmitCall Record Sidecar} (h : Sound options q) (hwithin : Within options q action)
    (hcall : q.calls.get? id = some call) (hfails : failingCall q action = some (id, call))
    (hsubmitted : action.submitted? options = none) :
    Keeps options q action (q.fail options id call) := by
  obtain ⟨hsound, hkept⟩ := fail_spec h hcall (hwithin (id, call) hfails)
  refine ⟨hsound, fun hspares _ hash => ?_⟩
  rw [hkept (hspares (id, call) hfails) hash, hsubmitted]
  exact (or_iff_left nofun).symm

theorem keeps_answer (h : Sound options q) {id : ℕ} {response : LogAnswer Proof}
    (hwithin : Within options q (.answer id response)) :
    Keeps options q (.answer id response) (q.answer options id response) := by
  have hsame : Sound options q ∧ ∀ hash, Unsubmitted q hash ↔ Unsubmitted q hash :=
    ⟨h, fun _ => Iff.rfl⟩
  unfold Queue.answer
  split
  · exact keeps_of_same rfl hsame
  · next call hcall =>
      split
      · next proof hphase =>
          obtain ⟨hsound, -⟩ := moveTo_spec h hcall .archiving
          exact ⟨⟨hsound.running, hsound.depth, hsound.fresh, hsound.pendingHash,
            hsound.callHash⟩, nofun⟩
      · exact ⟨sound_leave h id call, nofun⟩
      · exact ⟨sound_leave h id call, nofun⟩
      · next attempt hphase =>
          split
          · exact keeps_of_same rfl (moveTo_spec h hcall _)
          · next hlast =>
              refine keeps_of_failing h hwithin hcall ?_ rfl
              simp only [failingCall, hcall, Option.bind_some, hphase, if_neg hlast]
      · exact keeps_of_same rfl hsame

theorem keeps_wake (h : Sound options q) {id : ℕ} {windowOver : Bool}
    (hwithin : Within options q (.wake id windowOver)) :
    Keeps options q (.wake id windowOver) (q.wake options id windowOver) := by
  have hsame : Sound options q ∧ ∀ hash, Unsubmitted q hash ↔ Unsubmitted q hash :=
    ⟨h, fun _ => Iff.rfl⟩
  unfold Queue.wake
  split
  · exact keeps_of_same rfl hsame
  · next call hcall =>
      split
      · next attempt hphase =>
          cases windowOver with
          | true =>
              rw [if_pos rfl]
              refine keeps_of_failing h hwithin hcall ?_ rfl
              simp only [failingCall, hcall, Option.bind_some, hphase]
          | false =>
              rw [if_neg nofun]
              exact keeps_of_same rfl (moveTo_spec h hcall _)
      · exact keeps_of_same rfl hsame

theorem keeps_archived (h : Sound options q) (id : ℕ) :
    Keeps options q (.archived id) (q.archived id) := by
  unfold Queue.archived
  split
  · exact ⟨h, nofun⟩
  · next call hcall =>
      split
      · exact ⟨sound_leave h id call, nofun⟩
      · exact ⟨h, nofun⟩

theorem keeps_settled (h : Sound options q) (id : ℕ) :
    Keeps options q (.settled id) (q.settled options id) := by
  have hsame : Sound options q ∧ ∀ hash, Unsubmitted q hash ↔ Unsubmitted q hash :=
    ⟨h, fun _ => Iff.rfl⟩
  unfold Queue.settled
  refine keeps_of_same rfl ?_
  split
  · exact hsame
  · split
    · exact drain_spec h id
    · exact hsame
  · split
    · exact ⟨⟨h.running, h.depth, h.fresh, h.pendingHash, h.callHash⟩, fun _ => Iff.rfl⟩
    · exact hsame

theorem step_keeps (h : Sound options q) {action : Action Record Sidecar Proof}
    (hwithin : Within options q action) : Keeps options q action (step options q action) := by
  unfold step
  rw [if_neg (by rw [h.running]; nofun)]
  cases action with
  | submit record priority sidecar =>
      have hsound := sound_startCall h ⟨record, priority, sidecar⟩
      refine ⟨⟨hsound.running, hsound.depth, hsound.fresh, hsound.pendingHash, hsound.callHash⟩,
        fun _ _ hash => ?_⟩
      exact (unsubmitted_startCall h).trans (or_congr_right (Option.some_inj).symm)
  | flush =>
      have hnext : Sound options { q with nextId := q.nextId + 1 } :=
        ⟨h.running, h.depth, fun id hid => (h.fresh id hid).trans (Nat.lt_succ_self _),
          h.pendingHash, h.callHash⟩
      exact keeps_of_same rfl (drain_spec hnext q.nextId)
  | answer id response => exact keeps_answer h hwithin
  | wake id windowOver => exact keeps_wake h hwithin
  | archived id => exact keeps_archived h id
  | settled id => exact keeps_settled h id

/-! ## Runs -/

theorem run_sound {actions : List (Action Record Sidecar Proof)} (h : Sound options q)
    (hwithin : Always (step options) (Within options) q actions) :
    Sound options (run (step options) q actions) := by
  have hstep : ∀ (s : Queue Record Sidecar Proof) a, Sound options s → Within options s a →
      Sound options (step options s a) := fun _ _ hs hok => (step_keeps hs hok).1
  exact run_invariant hstep h hwithin

/-- A run in which the log answers nothing. -/
theorem run_unsubmitted {actions : List (Action Record Sidecar Proof)} (h : Sound options q)
    (hwithin : Always (step options) (Within options) q actions)
    (hspares : Always (step options) (Spares options) q actions)
    (hanswered : ∀ action ∈ actions, action.answered = false) (hash : String) :
    Unsubmitted (run (step options) q actions) hash ↔
      Unsubmitted q hash ∨ ∃ action ∈ actions, action.submitted? options = some hash := by
  induction actions generalizing q with
  | nil => exact (or_iff_left (by rintro ⟨_, ⟨⟩, -⟩)).symm
  | cons action actions ih =>
      obtain ⟨hsound, hkept⟩ := step_keeps h hwithin.1
      have hfirst := hkept hspares.1 (hanswered action List.mem_cons_self) hash
      have hrest := ih hsound hwithin.2 hspares.2 fun a ha =>
        hanswered a (List.mem_cons_of_mem _ ha)
      rw [Lib.run_cons, hrest, hfirst, or_assoc, List.exists_mem_cons_iff]

/-- All the calls are retries of pending records. -/
def RetriesOnly (q : Queue Record Sidecar Proof) : Prop :=
  ∀ c ∈ q.calls.entries, c.2.hash ∈ q.pendingRecords.keys

theorem RetriesOnly.unsubmitted_iff (h : RetriesOnly q) {hash : String} :
    Unsubmitted q hash ↔ hash ∈ q.pendingRecords.keys := by
  refine or_iff_left_of_imp ?_
  rintro ⟨c, hc, rfl⟩
  exact h c hc

/-- What is claimed of the state of a queue. -/
structure Bounded (options : Options Record) (q : Queue Record Sidecar Proof) : Prop where
  running : q.hung = false
  depth : (JsNumber.finite q.pendingRecords.size).le options.maxQueueDepth = true
  priority : ∀ key entry, victim q.pendingRecords = some key →
    (key, entry) ∈ q.pendingRecords.entries → entry.priority = .high →
      ∀ e ∈ q.pendingRecords.entries, e.2.priority = .high

end

/-- Retries that all fail leave the pending records as they were. -/
def KeepsPending (options : Options Record) (q : Queue Record Sidecar Proof)
    (retries : List (Action Record Sidecar Proof)) : Prop :=
  (∀ action ∈ retries, action.answered = false ∧ action.submitted? options = none) →
    RetriesOnly q → RetriesOnly (run (step options) q retries) →
      ∀ hash, hash ∈ (run (step options) q retries).pendingRecords.keys ↔
        hash ∈ q.pendingRecords.keys

instance (q : Queue Record Sidecar Proof) (action : Action Record Sidecar Proof) :
    Decidable (Within options q action) :=
  inferInstanceAs (Decidable (∀ failed ∈ failingCall q action,
    (JsNumber.finite (demand q.pendingRecords failed.2.hash)).le options.maxQueueDepth = true))

instance (q : Queue Record Sidecar Proof) (action : Action Record Sidecar Proof) :
    Decidable (Spares options q action) :=
  inferInstanceAs (Decidable (∀ failed ∈ failingCall q action,
    full options.maxQueueDepth q.pendingRecords = true → ∀ key ∈ victim q.pendingRecords,
      key = failed.2.hash ∨ ∃ c ∈ q.calls.entries, c.1 ≠ failed.1 ∧ c.2.hash = key))

instance (q : Queue Record Sidecar Proof) : Decidable (RetriesOnly q) :=
  inferInstanceAs (Decidable (∀ c ∈ q.calls.entries, c.2.hash ∈ q.pendingRecords.keys))

theorem sound_initial (hdepth : (JsNumber.finite 0).le options.maxQueueDepth = true) :
    Sound options ({} : Queue Record Sidecar Proof) where
  running := rfl
  depth := by
    have hzero : ((0 : ℕ) : ℚ) = 0 := Nat.cast_zero
    show (JsNumber.finite ((0 : ℕ) : ℚ)).le _ = true
    rwa [hzero]
  fresh := nofun
  pendingHash := nofun
  callHash := nofun

theorem Sound.bounded {q : Queue Record Sidecar Proof} (h : Sound options q) :
    Bounded options q where
  running := h.running
  depth := h.depth
  priority := by
    intro key entry hkey hentry hhigh
    obtain ⟨entry', hentry', hall⟩ := victim_spec hkey
    have hsame := (InsertionMap.get?_of_mem hentry).symm.trans (InsertionMap.get?_of_mem hentry')
    exact hall (Option.some.inj hsame ▸ hhigh)

/-- While the pending records fit and a call that fails throws out no record but its own or one
that still has a call, making room ends, the queue is never too long, what is thrown out has high
priority only where all have, and what the log does not answer for stays. -/
theorem queue_keeps_records (options : Options Record)
    (before retries : List (Action Record Sidecar Proof))
    (hdepth : (JsNumber.finite 0).le options.maxQueueDepth = true)
    (hwithin : Always (step options) (Within options) {} (before ++ retries))
    (hspares : Always (step options) (Spares options) {} (before ++ retries)) :
    Bounded options (run (step options) {} (before ++ retries)) ∧
      KeepsPending options (run (step options) {} before) retries ∧
      ((∀ action ∈ retries, action.answered = false) → ∀ hash,
        Unsubmitted (run (step options) {} (before ++ retries)) hash ↔
          Unsubmitted (run (step options) {} before) hash ∨
            ∃ action ∈ retries, action.submitted? options = some hash) := by
  obtain ⟨hwithinBefore, hwithinRetries⟩ := Always.append.1 hwithin
  obtain ⟨-, hsparesRetries⟩ := Always.append.1 hspares
  have hbefore := run_sound (sound_initial hdepth) hwithinBefore
  have hkept := fun hanswered => run_unsubmitted hbefore hwithinRetries hsparesRetries hanswered
  refine ⟨(run_sound (sound_initial hdepth) hwithin).bounded, ?_, ?_⟩
  · intro hall honly honly' hash
    have hnone : ¬∃ action ∈ retries, action.submitted? options = some hash := by
      rintro ⟨action, haction, hsubmitted⟩
      exact nomatch (hall action haction).2.symm.trans hsubmitted
    rw [← honly.unsubmitted_iff, ← honly'.unsubmitted_iff,
      hkept (fun action haction => (hall action haction).1) hash]
    exact or_iff_left hnone
  · intro hanswered hash
    rw [Lib.run_append]
    exact hkept hanswered hash

end

namespace QueueSample

/-- Records are their own hashes, and two may be pending. -/
def options : Options String := { recordHash := id, maxQueueDepth := .finite 2 }

/-- Both records are handed in, and their retries fail. -/
def before : List (Action String Unit Unit) :=
  [.submit "normal" .normal none, .submit "high" .high none, .answer 0 .failed, .wake 0 true,
    .answer 1 .failed, .wake 1 true]

/-- A flush whose retry of the normal record fails first. -/
def normalRetryFirst : List (Action String Unit Unit) :=
  [.flush, .answer 4 .failed, .wake 4 true, .answer 3 .failed, .wake 3 true]

/-- A flush whose retry of the high record fails first. -/
def highRetryFirst : List (Action String Unit Unit) :=
  [.flush, .answer 3 .failed, .wake 3 true, .answer 4 .failed, .wake 4 true]

end QueueSample

open QueueSample in
theorem queue_keeps_records_high_first :
    "normal" ∈ (run (step options) (run (step options) {} before) highRetryFirst).pendingRecords.keys :=
  ((queue_keeps_records options before highRetryFirst (by decide +kernel) (by decide +kernel)
    (by decide +kernel)).2.1 (by decide +kernel) (by decide +kernel) (by decide +kernel)
      "normal").2 (by decide +kernel)

open QueueSample in
/-- The retry of the high record throws the normal one out, whose own has failed before. -/
theorem flush_evicts_pending : ¬∀ before retries : List (Action String Unit Unit),
    Always (step options) (Within options) {} (before ++ retries) →
      KeepsPending options (run (step options) {} before) retries := by
  intro h
  have hkept := h before normalRetryFirst (by decide +kernel) (by decide +kernel) (by decide +kernel)
    (by decide +kernel) "normal"
  have hbefore : "normal" ∈ (run (step options) {} before).pendingRecords.keys := by
    decide +kernel
  exact absurd (hkept.2 hbefore) (by decide +kernel)

end Atrib.Mcp.SubmissionQueue
