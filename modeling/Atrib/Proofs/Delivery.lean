import Atrib.Proofs.Agreement

/-!
# What a stream subscriber receives

An entry is in the tree from its append and is announced when its bundle has
been signed. A connection that arrives in between replays the entry, and the
announcement then repeats it; if the signer fails instead, nobody is told, and
only a connection from that window has the entry at all.

`OnePhase` is the condition that neither happens: at the moment a signature
comes back every subscriber it concerns had connected before the append, and
at the moment one fails every such subscriber had connected after it.
`exactlyOnce_iff_onePhase` says that this is all: over any run, delivery is
exactly once and in order in every state if and only if every step meets it.
-/

namespace Atrib.LogNode

open Lib (run run_snoc Always)
open MerkleTree (Represents restored)

variable (H : Hash)

/-- The entry at an index is in the tree and its signature is awaited. -/
def Server.BeingSigned (s : Server) (i : ℕ) : Prop :=
  ∃ (t : ℕ) (entry : EntryInput) (pending : PendingBundle),
    s.submissions[t]? = some (.signing entry pending) ∧ pending.logIndex = i

/-- The decoded entry at an index. -/
def Server.entryAt (s : Server) (i : ℕ) : Option DecodedEntry :=
  s.tree.rawEntries[i]?.map (decodeEntry · i)

/-- What the stream owes a subscriber: log entries that match, in strictly
increasing order, and every one whose submission is over. -/
structure ExactlyOnce (s : Server) (sub : Subscriber) : Prop where
  increasing : (sub.events.map fun ev => ev.entry.index).Pairwise (· < ·)
  sound : ∀ ev ∈ sub.events, s.entryAt ev.entry.index = some ev.entry ∧
    matchesEntryFilters ev.entry sub.filters = true
  complete : ∀ i entry, s.entryAt i = some entry →
    matchesEntryFilters entry sub.filters = true → ¬ s.BeingSigned i →
      ∃ ev ∈ sub.events, ev.entry = entry

/-- When a signature comes back, the subscribers it concerns connected before
the append; when one fails, after it. -/
def OnePhase (s : Server) : Action → Prop
  | .submitSigned ticket _ => ∀ entry pending,
      s.submissions[ticket]? = some (.signing entry pending) → ∀ sub ∈ s.subscribers,
        sub.connected = true → sub.filters.afterIndex.isSome →
        matchesEntryFilters (decodeEntry (serializeEntry entry) pending.logIndex)
          sub.filters = true → sub.replayThrough < pending.logIndex
  | .submitSignFailed ticket => ∀ entry pending,
      s.submissions[ticket]? = some (.signing entry pending) → ∀ sub ∈ s.subscribers,
        sub.connected = true → sub.filters.afterIndex.isSome →
        matchesEntryFilters (decodeEntry (serializeEntry entry) pending.logIndex)
          sub.filters = true → pending.logIndex ≤ sub.replayThrough
  | _ => True

/-- The invariant behind it, for a log `raw` of which the entries in
`signing` are not settled: what was replayed is known to reach to
`replayThrough`, and nothing else of an unsettled entry has been sent. -/
structure Delivered (signing : ℕ → Prop) (raw : List Bytes) (sub : Subscriber) : Prop where
  tail : sub.replayThrough < raw.length
  increasing : (sub.events.map fun ev => ev.entry.index).Pairwise (· < ·)
  sound : ∀ ev ∈ sub.events, ∃ bytes, raw[ev.entry.index]? = some bytes ∧
    ev.entry = decodeEntry bytes ev.entry.index ∧
    matchesEntryFilters ev.entry sub.filters = true
  once : ∀ ev ∈ sub.events, (ev.entry.index : ℤ) ≤ sub.replayThrough ∨ ¬ signing ev.entry.index
  complete : ∀ (i : ℕ) bytes, raw[i]? = some bytes →
    matchesEntryFilters (decodeEntry bytes i) sub.filters = true →
    ((i : ℤ) ≤ sub.replayThrough ∨ ¬ signing i) →
      ∃ ev ∈ sub.events, ev.entry = decodeEntry bytes i

def Streams (s : Server) (raw : List Bytes) : Prop :=
  ∀ sub ∈ s.subscribers, sub.connected = true → sub.filters.afterIndex.isSome →
    Delivered s.BeingSigned raw sub

theorem Delivered.exactlyOnce {s : Server} {raw : List Bytes} {sub : Subscriber}
    (h : Delivered s.BeingSigned raw sub) (htree : s.tree.rawEntries = raw) :
    ExactlyOnce s sub where
  increasing := h.increasing
  sound := by
    intro ev hev
    obtain ⟨bytes, hget, heq, hm⟩ := h.sound ev hev
    refine ⟨?_, hm⟩
    rw [Server.entryAt, htree, hget, Option.map_some, ← heq]
  complete := by
    intro i entry hentry hm hsettled
    rw [Server.entryAt, htree] at hentry
    obtain ⟨bytes, hget, rfl⟩ := Option.map_eq_some_iff.1 hentry
    exact h.complete i bytes hget hm (Or.inr hsettled)

/-! ## Replay -/

theorem mem_replay {tree : MerkleTree} {filters : LogEntryFilters} {ev : StreamEvent} :
    ev ∈ Server.replay tree filters ↔
      ∃ i, (match filters.afterIndex with
          | none => 0
          | some after => (after + 1).toNat) ≤ i ∧ i < tree.size ∧
        ev = ⟨tree.size, decodeEntry (tree.rawEntries.getD i []) i⟩ ∧
        matchesEntryFilters ev.entry filters = true := by
  unfold Server.replay
  simp only [List.mem_filterMap, List.mem_map, List.mem_range'_1]
  constructor
  · rintro ⟨entry, ⟨i, ⟨hlo, hhi⟩, rfl⟩, hev⟩
    split at hev
    · next hm =>
        injection hev with hev
        subst hev
        exact ⟨i, hlo, by omega, rfl, hm⟩
    · cases hev
  · rintro ⟨i, hlo, hhi, rfl, hm⟩
    exact ⟨_, ⟨i, ⟨hlo, by omega⟩, rfl⟩, by rw [if_pos hm]⟩

theorem replay_increasing (tree : MerkleTree) (filters : LogEntryFilters) :
    ((Server.replay tree filters).map fun ev => ev.entry.index).Pairwise (· < ·) := by
  unfold Server.replay
  rw [List.pairwise_map, List.pairwise_filterMap, List.pairwise_map]
  refine (List.pairwise_lt_range' 1).imp fun {i j} hij ev hev ev' hev' => ?_
  split at hev
  · split at hev'
    · injection hev with hev
      injection hev' with hev'
      subst hev hev'
      exact hij
    · cases hev'
  · cases hev

/-- A subscriber with a cursor has everything up to the tail it connected at. -/
theorem replay_delivered {signing : ℕ → Prop} {tree : MerkleTree} {raw : List Bytes}
    (h : Represents H tree raw) {filters : LogEntryFilters}
    (hcursor : filters.afterIndex.isSome) (connected : Bool) :
    Delivered signing raw
      ⟨filters, (tree.size : ℤ) - 1, connected, Server.replay tree filters⟩ where
  tail := by rw [h.size_eq]; simp
  increasing := replay_increasing tree filters
  sound := by
    intro ev hev
    obtain ⟨i, -, hi, rfl, hm⟩ := mem_replay.1 hev
    rw [h.size_eq] at hi
    refine ⟨raw[i], List.getElem?_eq_getElem hi, ?_, hm⟩
    rw [h.rawEntries, List.getD_eq_getElem _ _ hi]
    rfl
  once := by
    intro ev hev
    obtain ⟨i, -, hi, rfl, -⟩ := mem_replay.1 hev
    left
    simp only [decodeEntry_index]
    omega
  complete := by
    intro i bytes hget hm _
    obtain ⟨hi, rfl⟩ := List.getElem?_eq_some_iff.1 hget
    obtain ⟨after, hafter⟩ := Option.isSome_iff_exists.1 hcursor
    have hlt := after_lt_of_matches hafter hm
    rw [decodeEntry_index] at hlt
    refine ⟨⟨tree.size, decodeEntry raw[i] i⟩, mem_replay.2 ⟨i, ?_, ?_, ?_, hm⟩, rfl⟩
    · rw [hafter]
      simp only
      omega
    · rwa [h.size_eq]
    · rw [h.rawEntries, List.getD_eq_getElem _ _ hi]

/-! ## Steps -/

theorem Delivered.congr {signing signing' : ℕ → Prop} {raw : List Bytes} {sub : Subscriber}
    (h : Delivered signing raw sub) (hiff : ∀ i, signing' i ↔ signing i) :
    Delivered signing' raw sub := by
  obtain rfl : signing' = signing := funext fun i => propext (hiff i)
  exact h

/-- An append changes nothing for a subscriber while the entry is unsettled. -/
theorem Delivered.append {signing signing' : ℕ → Prop} {raw : List Bytes} {sub : Subscriber}
    (h : Delivered signing raw sub) (hnone : ∀ i, ¬ signing i) (bytes : Bytes)
    (hiff : ∀ i, signing' i ↔ i = raw.length) : Delivered signing' (raw ++ [bytes]) sub where
  tail := by have := h.tail; rw [List.length_append]; omega
  increasing := h.increasing
  sound := by
    intro ev hev
    obtain ⟨b, hget, heq, hm⟩ := h.sound ev hev
    refine ⟨b, ?_, heq, hm⟩
    rwa [List.getElem?_append_left (List.getElem?_eq_some_iff.1 hget).1]
  once := by
    intro ev hev
    obtain ⟨b, hget, -⟩ := h.sound ev hev
    right
    rw [hiff]
    exact Nat.ne_of_lt (List.getElem?_eq_some_iff.1 hget).1
  complete := by
    intro i b hget hm hor
    have htail := h.tail
    have hlt : i < raw.length := by
      have hi := (List.getElem?_eq_some_iff.1 hget).1
      rw [List.length_append, List.length_singleton] at hi
      rcases hor with hle | hne
      · omega
      · rw [hiff] at hne
        omega
    rw [List.getElem?_append_left hlt] at hget
    exact h.complete i b hget hm (Or.inr (hnone i))

/-- The last entry settles and is announced. -/
theorem Delivered.announce {signing signing' : ℕ → Prop} {raw : List Bytes} {sub : Subscriber}
    (h : Delivered signing raw sub) {k : ℕ} {bytes : Bytes} (hiff : ∀ i, signing i ↔ i = k)
    (hnone : ∀ i, ¬ signing' i) (hk : k + 1 = raw.length) (hbytes : raw[k]? = some bytes)
    (hconn : sub.connected = true) (treeSize : ℕ)
    (hphase : matchesEntryFilters (decodeEntry bytes k) sub.filters = true →
      sub.replayThrough < k) :
    Delivered signing' raw (Server.Subscriber.notify (decodeEntry bytes k) treeSize sub) := by
  have hother : ∀ i b, raw[i]? = some b → i ≠ k →
      matchesEntryFilters (decodeEntry b i) sub.filters = true →
        ∃ ev ∈ sub.events, ev.entry = decodeEntry b i := by
    intro i b hget hne hm
    exact h.complete i b hget hm (Or.inr fun hs => hne ((hiff i).1 hs))
  unfold Server.Subscriber.notify
  by_cases hm : matchesEntryFilters (decodeEntry bytes k) sub.filters = true
  · rw [if_pos (by rw [hconn, hm]; rfl)]
    refine ⟨h.tail, ?_, fun ev hev => ?_, fun ev _ => Or.inr (hnone _), fun i b hget hmi _ => ?_⟩
    · rw [List.map_append, List.pairwise_append]
      refine ⟨h.increasing, by simp, fun i hi j hj => ?_⟩
      -- what was sent so far is below the entry: it is in the log and is not the entry itself
      obtain ⟨ev, hev, rfl⟩ := List.mem_map.1 hi
      rw [List.map_singleton, List.mem_singleton] at hj
      obtain ⟨b, hget, -⟩ := h.sound ev hev
      have hlt := (List.getElem?_eq_some_iff.1 hget).1
      have hne : ev.entry.index ≠ k := by
        intro heq
        rcases h.once ev hev with hle | hns
        · have := hphase hm
          omega
        · exact hns ((hiff _).2 heq)
      rw [hj, decodeEntry_index]
      omega
    · rcases List.mem_append.1 hev with hev | hev
      · exact h.sound ev hev
      · obtain rfl := List.mem_singleton.1 hev
        exact ⟨bytes, hbytes, rfl, hm⟩
    · by_cases hik : i = k
      · subst hik
        rw [hbytes, Option.some.injEq] at hget
        subst hget
        exact ⟨_, List.mem_append_right _ (List.mem_singleton_self _), rfl⟩
      · obtain ⟨ev, hev, heq⟩ := hother i b hget hik hmi
        exact ⟨ev, List.mem_append_left _ hev, heq⟩
  · rw [if_neg (by rw [hconn]; simpa using hm)]
    refine ⟨h.tail, h.increasing, h.sound, fun ev _ => Or.inr (hnone _), fun i b hget hmi _ => ?_⟩
    by_cases hik : i = k
    · subst hik
      rw [hbytes, Option.some.injEq] at hget
      subst hget
      exact absurd hmi hm
    · exact hother i b hget hik hmi

/-- The last entry settles without being announced. -/
theorem Delivered.abandon {signing signing' : ℕ → Prop} {raw : List Bytes} {sub : Subscriber}
    (h : Delivered signing raw sub) {k : ℕ} {bytes : Bytes} (hiff : ∀ i, signing i ↔ i = k)
    (hnone : ∀ i, ¬ signing' i) (hbytes : raw[k]? = some bytes)
    (hphase : matchesEntryFilters (decodeEntry bytes k) sub.filters = true →
      k ≤ sub.replayThrough) :
    Delivered signing' raw sub := by
  refine ⟨h.tail, h.increasing, h.sound, fun ev _ => Or.inr (hnone _), fun i b hget hm _ => ?_⟩
  by_cases hik : i = k
  · subst hik
    rw [hbytes, Option.some.injEq] at hget
    subst hget
    exact h.complete i bytes hbytes hm (Or.inl (hphase hm))
  · exact h.complete i b hget hm (Or.inr fun hs => hik ((hiff i).1 hs))

/-- While one submission is inside, its entry is the one being signed. -/
theorem beingSigned_iff {s : Server} {raw : List Bytes} (hs : Serves H s raw) {ticket : ℕ}
    {entry : EntryInput} {pending : PendingBundle}
    (hsign : s.submissions[ticket]? = some (.signing entry pending)) (i : ℕ) :
    s.BeingSigned i ↔ i = pending.logIndex := by
  constructor
  · rintro ⟨t, e, p, ht, rfl⟩
    obtain rfl := hs.lock.signing_unique ht hsign
    rw [hsign] at ht
    cases ht
    rfl
  · rintro rfl
    exact ⟨ticket, entry, pending, hsign, rfl⟩

theorem not_beingSigned_release {s : Server} {raw : List Bytes} (hs : Serves H s raw)
    {ticket : ℕ} {entry : EntryInput} {pending : PendingBundle}
    (hsign : s.submissions[ticket]? = some (.signing entry pending)) {s' : Server}
    (hset : s'.submissions = s.submissions.set ticket .released) (i : ℕ) :
    ¬ s'.BeingSigned i := by
  rintro ⟨t, e, p, ht, -⟩
  rw [hset] at ht
  obtain ⟨hne, ht⟩ := signing_of_release ht
  exact hne (hs.lock.signing_unique ht hsign)

/-- The head of the queue leaves before it gets to sign. -/
theorem beingSigned_of_waiting {s : Server} {raw : List Bytes} (hs : Serves H s raw) {ticket : ℕ}
    {entry : EntryInput} (hwait : s.submissions[ticket]? = some (.waiting entry))
    (hlock : s.lockFree ticket = true) {s' : Server}
    (hset : s'.submissions = s.submissions.set ticket .released) (i : ℕ) :
    s'.BeingSigned i ↔ s.BeingSigned i := by
  constructor
  · rintro ⟨t, e, p, ht, hi⟩
    rw [hset] at ht
    exact ⟨t, e, p, (signing_of_release ht).2, hi⟩
  · rintro ⟨t, e, p, ht, -⟩
    exact absurd ht (hs.lock.not_signing hwait hlock)

theorem Move.streams {H : Hash} {raw raw' : List Bytes} {s s' : Server} {a : Action}
    (hs : Serves H s raw) (h : Streams s raw) (hphase : OnePhase s a)
    (hmove : Move H raw s a s' raw') : Streams s' raw' := by
  cases hmove with
  | enqueued entry =>
      intro sub hsub hconn hcur
      refine (h sub hsub hconn hcur).congr fun i => ⟨?_, ?_⟩
      · rintro ⟨t, e, p, ht, hi⟩
        exact ⟨t, e, p, signing_of_append ht, hi⟩
      · rintro ⟨t, e, p, ht, hi⟩
        exact ⟨t, e, p,
          (List.getElem?_append_left (List.getElem?_eq_some_iff.1 ht).1).trans ht, hi⟩
  | deduplicated hwait hl _ =>
      intro sub hsub hconn hcur
      exact (h sub hsub hconn hcur).congr (beingSigned_of_waiting H hs hwait hl rfl)
  | appendFailed hwait hl _ =>
      intro sub hsub hconn hcur
      exact (h sub hsub hconn hcur).congr (beingSigned_of_waiting H hs hwait hl rfl)
  | @appended ticket io entry tree hwait hl _ _ =>
      intro sub hsub hconn hcur
      refine (h sub hsub hconn hcur).append ?_ _ fun i => ⟨?_, ?_⟩
      · rintro i ⟨t, e, p, ht, -⟩
        exact hs.lock.not_signing hwait hl ht
      · rintro ⟨t, e, p, ht, rfl⟩
        rcases signing_of_set ht with ⟨-, heq⟩ | ⟨-, ht⟩
        · cases heq
          rfl
        · exact absurd ht (hs.lock.not_signing hwait hl)
      · rintro rfl
        exact ⟨ticket, entry, pendingOf H (raw ++ [serializeEntry entry]) raw.length,
          List.getElem?_set_self (List.getElem?_eq_some_iff.1 hwait).1, rfl⟩
  | @submitSigned ticket signature entry pending hsign =>
      intro sub' hsub' hconn' hcur'
      obtain ⟨-, hbytes, hk⟩ := hs.signing _ _ _ hsign
      obtain ⟨sub, hsub, rfl⟩ := List.mem_map.1 hsub'
      have hsame : (Server.Subscriber.notify (decodeEntry (serializeEntry entry) pending.logIndex)
          s.tree.size sub).connected = sub.connected ∧
          (Server.Subscriber.notify (decodeEntry (serializeEntry entry) pending.logIndex)
            s.tree.size sub).filters = sub.filters := by
        unfold Server.Subscriber.notify
        split <;> exact ⟨rfl, rfl⟩
      have hconn : sub.connected = true := hsame.1 ▸ hconn'
      have hcur : sub.filters.afterIndex.isSome := hsame.2 ▸ hcur'
      exact (h sub hsub hconn hcur).announce (beingSigned_iff H hs hsign)
        (not_beingSigned_release H hs hsign rfl) hk hbytes hconn _
        (hphase entry pending hsign sub hsub hconn hcur)
  | @submitSignFailed ticket entry pending hsign =>
      intro sub hsub hconn hcur
      exact (h sub hsub hconn hcur).abandon (beingSigned_iff H hs hsign)
        (not_beingSigned_release H hs hsign rfl) (hs.signing _ _ _ hsign).2.1
        (hphase entry pending hsign sub hsub hconn hcur)
  | connected filters hevents =>
      intro sub hsub hconn hcur
      rcases List.mem_append.1 hsub with hsub | hsub
      · exact h sub hsub hconn hcur
      · obtain rfl := List.mem_singleton.1 hsub
        rw [hevents hcur]
        exact replay_delivered H hs.tree hcur true
  | disconnected id =>
      intro sub hsub hconn hcur
      refine h sub ?_ hconn hcur
      obtain ⟨j, hj⟩ := List.mem_iff_getElem?.1 hsub
      rw [List.getElem?_modify] at hj
      split at hj
      · obtain ⟨sub₀, -, rfl⟩ := Option.map_eq_some_iff.1 hj
        cases hconn
      · obtain ⟨sub₀, hget, rfl⟩ := Option.map_eq_some_iff.1 hj
        exact List.mem_of_getElem? hget
  | _ => exact h

/-! ## Runs -/

theorem run_streams {tree : MerkleTree} {raw : List Bytes} (h : Represents H tree raw)
    {actions : List Action}
    (hok : Always (Server.step H) OnePhase (Server.boot tree) actions) :
    ∃ raw', Serves H (run (Server.step H) (Server.boot tree) actions) raw' ∧
      Streams (run (Server.step H) (Server.boot tree) actions) raw' := by
  induction actions using List.reverseRecOn with
  | nil => exact ⟨raw, boot_serves H h, by intro sub hsub; cases hsub⟩
  | append_singleton actions a ih =>
      obtain ⟨hpre, hlast, -⟩ := Always.append.1 hok
      obtain ⟨raw', hserves, hstreams⟩ := ih hpre
      rw [run_snoc]
      obtain ⟨raw'', hmove⟩ := step_move H hserves.tree a
      exact ⟨raw'', hmove.serves hserves, hmove.streams hserves hstreams hlast⟩

/-- Every subscriber with a cursor that is still connected has been served
exactly once. -/
def AllExactlyOnce (s : Server) : Prop :=
  ∀ sub ∈ s.subscribers, sub.connected = true → sub.filters.afterIndex.isSome →
    ExactlyOnce s sub

/-- A step that misses the condition breaks delivery at once: the subscriber
gets the entry a second time, or will never get it. -/
theorem onePhase_of_allExactlyOnce {s : Server} {raw : List Bytes} (hs : Serves H s raw)
    (h : Streams s raw) {a : Action} (hnext : AllExactlyOnce (s.step H a)) : OnePhase s a := by
  cases a with
  | submitSigned ticket signature =>
      intro entry pending hsign sub hsub hconn hcur hm
      by_contra hge
      obtain ⟨-, hbytes, -⟩ := hs.signing _ _ _ hsign
      obtain ⟨ev, hev, heq⟩ := (h sub hsub hconn hcur).complete _ _ hbytes hm
        (Or.inl (by omega))
      have hnot : Server.Subscriber.notify (decodeEntry (serializeEntry entry) pending.logIndex)
          s.tree.size sub = { sub with events := sub.events ++
            [⟨s.tree.size, decodeEntry (serializeEntry entry) pending.logIndex⟩] } := by
        rw [Server.Subscriber.notify, if_pos (by rw [hconn, hm]; rfl)]
      have hstep : (s.step H (.submitSigned ticket signature)).subscribers =
          s.subscribers.map (Server.Subscriber.notify
            (decodeEntry (serializeEntry entry) pending.logIndex) s.tree.size) := by
        rw [Server.step, Server.submitSigned, hsign]
        rfl
      have hmem := List.mem_map_of_mem (f := Server.Subscriber.notify
        (decodeEntry (serializeEntry entry) pending.logIndex) s.tree.size) hsub
      rw [← hstep, hnot] at hmem
      have hinc := (hnext _ hmem hconn hcur).increasing
      rw [List.map_append, List.pairwise_append] at hinc
      have := hinc.2.2 ev.entry.index (List.mem_map_of_mem hev) pending.logIndex (by simp)
      rw [heq, decodeEntry_index] at this
      omega
  | submitSignFailed ticket =>
      intro entry pending hsign sub hsub hconn hcur hm
      by_contra hlt
      obtain ⟨-, hbytes, -⟩ := hs.signing _ _ _ hsign
      have hstep : s.step H (.submitSignFailed ticket) =
          { (s.setSubmission ticket .released).respond (.error 500 "internal error") with
            signerFailed := true } := by
        rw [Server.step, Server.submitSignFailed, hsign]
      rw [hstep] at hnext
      obtain ⟨ev, hev, heq⟩ := (hnext sub hsub hconn hcur).complete pending.logIndex
        (decodeEntry (serializeEntry entry) pending.logIndex)
        (by
          change s.tree.rawEntries[pending.logIndex]?.map _ = _
          rw [hs.tree.rawEntries, hbytes, Option.map_some])
        hm (not_beingSigned_release H hs hsign rfl _)
      rcases (h sub hsub hconn hcur).once ev hev with hle | hns
      · rw [heq, decodeEntry_index] at hle
        omega
      · rw [heq, decodeEntry_index] at hns
        exact hns ⟨ticket, entry, pending, hsign, rfl⟩
  | _ => trivial

/-- Over any run of a process on a new or restored tree, delivery is exactly
once and in order in every state if and only if every step meets `OnePhase`. -/
theorem exactlyOnce_iff_onePhase (persistPath : Option String) (disk : Option (List Bytes))
    (hdisk : ∀ entries ∈ disk, ∀ e ∈ entries, e.length = ENTRY_SIZE) (tree₀ : MerkleTree)
    (hcreate : MerkleTree.create H persistPath (disk.map List.flatten) = .ok tree₀)
    (actions : List Action) :
    (∀ pre, pre <+: actions →
      AllExactlyOnce (run (Server.step H) (Server.boot tree₀) pre)) ↔
    Always (Server.step H) OnePhase (Server.boot tree₀) actions := by
  obtain ⟨hrep, -⟩ := MerkleTree.created_represents H hdisk hcreate
  constructor
  · intro h
    induction actions using List.reverseRecOn with
    | nil => trivial
    | append_singleton actions a ih =>
        have hpre := ih fun pre hpre => h pre (hpre.trans (List.prefix_append _ _))
        obtain ⟨raw, hserves, hstreams⟩ := run_streams H hrep hpre
        have hnext := h _ (List.prefix_refl _)
        rw [run_snoc] at hnext
        exact Always.append.2
          ⟨hpre, onePhase_of_allExactlyOnce H hserves hstreams hnext, trivial⟩
  · intro hok pre hpre sub hsub hconn hcur
    obtain ⟨raw, hserves, hstreams⟩ := run_streams H hrep (hok.initial hpre)
    exact (hstreams sub hsub hconn hcur).exactlyOnce hserves.tree.rawEntries

theorem onePhase_of_empty_tail {s : Server} {ticket : ℕ} {signature : Bytes}
    (h : (s.subscribers.all fun sub => decide (sub.replayThrough < 0)) = true) :
    OnePhase s (.submitSigned ticket signature) := by
  intro entry pending _ sub hsub _ _ _
  have := List.all_eq_true.1 h sub hsub
  rw [decide_eq_true_eq] at this
  omega

/-- A subscriber, a submission, and a second subscriber once it is done. -/
theorem exactlyOnce_iff_onePhase_quiet :
    AllExactlyOnce (run (Server.step Hash.fips180) (Server.boot (MerkleTree.empty none))
      [.connect { afterIndex := some (-1) }, .submit (plainEntry 1), .resume 0 .clean,
        .submitSigned 0 [7], .connect { afterIndex := some (-1) }]) :=
  (exactlyOnce_iff_onePhase Hash.fips180 none none (by simp) (MerkleTree.empty none) rfl
    [.connect { afterIndex := some (-1) }, .submit (plainEntry 1), .resume 0 .clean,
      .submitSigned 0 [7], .connect { afterIndex := some (-1) }]).2
    ⟨trivial, trivial, trivial, onePhase_of_empty_tail (by decide +kernel), trivial, trivial⟩ _
    (List.prefix_refl _)

/-- A subscriber that connects while the first entry is being signed gets it
from the replay and again when the signature comes back. -/
theorem not_exactlyOnce_connect_while_signing :
    ¬ AllExactlyOnce (run (Server.step Hash.fips180) (Server.boot (MerkleTree.empty none))
      [.submit (plainEntry 1), .resume 0 .clean, .connect { afterIndex := some (-1) },
        .submitSigned 0 [7]]) := by
  intro h
  have htwice : ((run (Server.step Hash.fips180) (Server.boot (MerkleTree.empty none))
      [.submit (plainEntry 1), .resume 0 .clean, .connect { afterIndex := some (-1) },
        .submitSigned 0 [7]]).subscribers.any fun sub => sub.connected &&
          sub.filters.afterIndex.isSome && (sub.events.map fun ev => ev.entry.index) == [0, 0]) =
      true := by
    decide +kernel
  obtain ⟨sub, hsub, hev⟩ := List.any_eq_true.1 htwice
  simp only [Bool.and_eq_true, beq_iff_eq] at hev
  have hinc := (h sub hsub hev.1.1 hev.1.2).increasing
  rw [hev.2] at hinc
  simp at hinc

end Atrib.LogNode
